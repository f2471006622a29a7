/-
# Words of a text

A text over any alphabet with separators is cut into its words. Collapsing every run of separators
to one and dropping it at the ends gives the words joined again, and joined words are cut back into
themselves.
-/

import Mathlib

namespace EntityResolution.Words

universe u

variable {α : Type u}

/-- A text without the characters of a kind at its ends. -/
def trim (p : α → Bool) (text : List α) : List α := (text.rdropWhile p).dropWhile p

theorem trim_isInfix (p : α → Bool) (text : List α) : trim p text <:+: text :=
  ((List.dropWhile_suffix p).isInfix).trans (List.rdropWhile_prefix p text).isInfix

theorem length_trim_le (p : α → Bool) (text : List α) : (trim p text).length ≤ text.length :=
  (trim_isInfix p text).length_le

theorem trim_eq_self_iff {p : α → Bool} {text : List α} : trim p text = text ↔
    (∀ c, text.head? = some c → p c = false) ∧ (∀ c, text.getLast? = some c → p c = false) := by
  have hends : trim p text = text ↔
      text.dropWhile p = text ∧ text.rdropWhile p = text := by
    constructor
    · intro htrim
      have hright : text.rdropWhile p = text := by
        refine (List.rdropWhile_prefix p text).eq_of_length_le ?_
        exact (congrArg List.length htrim).symm.le.trans (List.dropWhile_suffix p).length_le
      exact ⟨by rwa [trim, hright] at htrim, hright⟩
    · rintro ⟨hleft, hright⟩
      rw [trim, hright, hleft]
  rw [hends, List.rdropWhile_eq_self_iff]
  refine and_congr ?_ ?_
  · cases text with
    | nil => simp
    | cons c text =>
      rw [List.head?_cons]
      constructor
      · rintro h d ⟨⟩
        by_contra hc
        rw [List.dropWhile_cons_of_pos (by simpa using hc)] at h
        have hlength := (List.dropWhile_suffix (l := text) p).length_le
        rw [h, List.length_cons] at hlength
        omega
      · intro h
        rw [List.dropWhile_cons_of_neg (by simp [h c rfl])]
  · cases text using List.reverseRecOn with
    | nil => simp
    | append_singleton text c => simp

theorem trim_trim (p : α → Bool) (text : List α) : trim p (trim p text) = trim p text := by
  rw [trim_eq_self_iff]
  constructor
  · intro c hc
    have hhead := List.head?_dropWhile_not p (text.rdropWhile p)
    rw [← trim, hc] at hhead
    exact hhead
  · intro c hc
    have hne : trim p text ≠ [] := by
      rintro hnil
      rw [hnil] at hc
      exact absurd hc (by simp)
    have hsuffix : trim p text <:+ text.rdropWhile p := List.dropWhile_suffix p
    have hlast := hsuffix.getLast hne
    rw [List.getLast?_eq_some_getLast hne, Option.some_inj, hlast] at hc
    rw [← hc]
    exact eq_false_of_ne_true (List.rdropWhile_last_not p text _)

theorem rdropWhile_cons (p : α → Bool) (c : α) (text : List α) : (c :: text).rdropWhile p =
    if text.rdropWhile p = [] then if p c then [] else [c] else c :: text.rdropWhile p := by
  induction text using List.reverseRecOn with
  | nil => rw [List.rdropWhile_nil, if_pos rfl, List.rdropWhile_singleton]
  | append_singleton text d ih =>
    rw [← List.cons_append, List.rdropWhile_concat, List.rdropWhile_concat]
    by_cases hd : p d = true
    · rw [if_pos hd, if_pos hd, ih]
    · rw [if_neg hd, if_neg hd, if_neg (by simp), List.cons_append]

/-- Every run of separators replaced by one character; the flag says whether a run goes on. -/
def collapse (p : α → Bool) (sep : α) : Bool → List α → List α
  | _, [] => []
  | inRun, c :: text =>
    if p c then if inRun then collapse p sep true text else sep :: collapse p sep true text
    else c :: collapse p sep false text

/-- The words of a text: what stands between separators. -/
def words (p : α → Bool) : List α → List (List α)
  | [] => []
  | c :: text =>
    if p c then words p text
    else if text.head?.all p then [c] :: words p text
    else (words p text).modifyHead (c :: ·)

/-- Words joined by a separator. -/
def unwords (sep : α) (ws : List (List α)) : List α := [sep].intercalate ws

/-- A word is not empty and holds no separator. -/
def IsWord (p : α → Bool) (w : List α) : Prop := w ≠ [] ∧ ∀ c ∈ w, p c = false

section

variable {p : α → Bool} {sep : α}

@[simp]
theorem unwords_nil : unwords sep [] = [] := rfl

@[simp]
theorem unwords_singleton {w : List α} : unwords sep [w] = w := List.intercalate_singleton

theorem unwords_cons {w : List α} {ws : List (List α)} (hws : ws ≠ []) :
    unwords sep (w :: ws) = w ++ sep :: unwords sep ws := by
  rw [unwords, List.intercalate_cons_of_ne_nil hws, List.append_assoc, List.singleton_append]
  rfl

theorem unwords_append_singleton {ws : List (List α)} (hws : ws ≠ []) (w : List α) :
    unwords sep (ws ++ [w]) = unwords sep ws ++ sep :: w := by
  induction ws with
  | nil => exact absurd rfl hws
  | cons v ws ih =>
    by_cases hnil : ws = []
    · rw [hnil, List.cons_append, List.nil_append, unwords_cons (List.cons_ne_nil _ _),
        unwords_singleton, unwords_singleton]
    · rw [List.cons_append, unwords_cons (by simp), unwords_cons hnil, ih hnil, List.append_assoc,
        List.cons_append]

theorem words_cons_of_pos {c : α} {text : List α} (hc : p c = true) :
    words p (c :: text) = words p text := by
  rw [words, if_pos hc]

theorem words_ne_nil {c : α} {text : List α} (hc : p c = false) : words p (c :: text) ≠ [] := by
  induction text generalizing c with
  | nil => simp [words, hc]
  | cons d text ih =>
    rw [words, if_neg (by simp [hc])]
    split_ifs with hd
    · exact List.cons_ne_nil _ _
    · rw [Ne, List.modifyHead_eq_nil_iff]
      exact ih (by simpa using hd)

theorem isWord_of_mem_words {text w : List α} (hw : w ∈ words p text) : IsWord p w := by
  induction text generalizing w with
  | nil => exact absurd hw List.not_mem_nil
  | cons c text ih =>
    rw [words] at hw
    split_ifs at hw with hc hnext
    · exact ih hw
    · rcases List.mem_cons.mp hw with rfl | hw
      · exact ⟨List.cons_ne_nil _ _, by simpa using hc⟩
      · exact ih hw
    · rcases hwords : words p text with _ | ⟨first, ws⟩
      · rw [hwords] at hw
        exact absurd hw List.not_mem_nil
      · rw [hwords, List.modifyHead_cons] at hw
        rw [hwords] at ih
        rcases List.mem_cons.mp hw with rfl | hw
        · exact ⟨List.cons_ne_nil _ _, List.forall_mem_cons.mpr
            ⟨by simpa using hc, (ih List.mem_cons_self).2⟩⟩
        · exact ih (List.mem_cons_of_mem _ hw)

theorem unwords_modifyHead {ws : List (List α)} (hws : ws ≠ []) (c : α) :
    unwords sep (ws.modifyHead (c :: ·)) = c :: unwords sep ws := by
  cases ws with
  | nil => exact absurd rfl hws
  | cons w ws =>
    rw [List.modifyHead_cons]
    by_cases hne : ws = []
    · rw [hne, unwords_singleton, unwords_singleton]
    · rw [unwords_cons hne, unwords_cons hne, List.cons_append]

theorem unwords_eq_nil_iff {ws : List (List α)} (hws : ∀ w ∈ ws, IsWord p w) :
    unwords sep ws = [] ↔ ws = [] := by
  refine ⟨fun hnil => ?_, fun h => by rw [h, unwords_nil]⟩
  cases ws with
  | nil => rfl
  | cons w ws =>
    have hw := (hws w List.mem_cons_self).1
    by_cases hne : ws = []
    · rw [hne, unwords_singleton] at hnil
      exact absurd hnil hw
    · rw [unwords_cons hne] at hnil
      exact absurd (List.append_eq_nil_iff.mp hnil).1 hw

variable (sep) in
/-- Joined words begin and end with no separator. -/
theorem unwords_ends {ws : List (List α)} (hws : ∀ w ∈ ws, IsWord p w) :
    (∀ c, (unwords sep ws).head? = some c → p c = false) ∧
      (∀ c, (unwords sep ws).getLast? = some c → p c = false) := by
  induction ws with
  | nil => simp
  | cons w ws ih =>
    obtain ⟨⟨hne, hw⟩, hrest⟩ := List.forall_mem_cons.mp hws
    have hhead : ∀ (text : List α) {c}, (w ++ text).head? = some c → p c = false := by
      intro text c hc
      rw [List.head?_append_of_ne_nil _ hne] at hc
      exact hw c (List.mem_of_mem_head? hc)
    by_cases hnil : ws = []
    · rw [hnil, unwords_singleton]
      exact ⟨fun c hc => hhead [] (by rwa [List.append_nil]),
        fun c hc => hw c (List.mem_of_mem_getLast? hc)⟩
    · rw [unwords_cons hnil]
      refine ⟨fun c hc => hhead _ hc, fun c hc => (ih hrest).2 c ?_⟩
      have htail : unwords sep ws ≠ [] := fun h => hnil ((unwords_eq_nil_iff hrest).mp h)
      rwa [List.getLast?_append_of_ne_nil _ (List.cons_ne_nil _ _),
        List.getLast?_cons_of_ne_nil htail] at hc

/-- Right of its first run a collapsed text is its words joined, up to separators at the end. -/
theorem rdropWhile_collapse [DecidableEq α] (hsep : p sep = true) (text : List α) :
    (collapse p sep true text).rdropWhile (· = sep) = unwords sep (words p text) := by
  induction text with
  | nil => rfl
  | cons c text ih =>
    by_cases hc : p c = true
    · rw [collapse, if_pos hc, if_pos rfl, words_cons_of_pos hc, ih]
    · have hne : decide (c = sep) = false := by
        refine decide_eq_false ?_
        rintro rfl
        exact hc hsep
      rw [collapse, if_neg hc, rdropWhile_cons, hne, if_neg Bool.false_ne_true, words, if_neg hc]
      cases text with
      | nil => rfl
      | cons d text =>
        by_cases hd : p d = true
        · rw [collapse, if_pos hd, if_pos rfl, words_cons_of_pos hd] at ih
          rw [collapse, if_pos hd, if_neg Bool.false_ne_true, rdropWhile_cons, ih,
            List.head?_cons, Option.all_some, if_pos hd, words_cons_of_pos hd]
          by_cases hnil : words p text = []
          · rw [hnil, unwords_nil, if_pos rfl, if_pos (decide_eq_true rfl), if_pos rfl,
              unwords_singleton]
          · have hjoined : unwords sep (words p text) ≠ [] := fun h =>
              hnil ((unwords_eq_nil_iff fun _ => isWord_of_mem_words).mp h)
            rw [if_neg hjoined, if_neg (List.cons_ne_nil _ _), unwords_cons hnil,
              List.singleton_append]
        · have hgo : collapse p sep false (d :: text) = collapse p sep true (d :: text) := by
            rw [collapse, collapse, if_neg hd, if_neg hd]
          have hwords : words p (d :: text) ≠ [] := words_ne_nil (eq_false_of_ne_true hd)
          have hjoined : unwords sep (words p (d :: text)) ≠ [] := fun h =>
            hwords ((unwords_eq_nil_iff fun _ => isWord_of_mem_words).mp h)
          rw [hgo, ih, if_neg hjoined, List.head?_cons, Option.all_some, if_neg hd,
            unwords_modifyHead hwords]

/-- A collapsed and trimmed text is its words joined. -/
theorem trim_collapse [DecidableEq α] (hsep : p sep = true) (text : List α) :
    trim (· = sep) (collapse p sep false text) = unwords sep (words p text) := by
  have hends := unwords_ends sep fun w (hw : w ∈ words p text) => isWord_of_mem_words hw
  have hleft : (unwords sep (words p text)).dropWhile (· = sep) = unwords sep (words p text) := by
    rcases hjoined : unwords sep (words p text) with _ | ⟨c, joined⟩
    · rfl
    · refine List.dropWhile_cons_of_neg fun hc => ?_
      have hfalse := hends.1 c (by rw [hjoined, List.head?_cons])
      rw [of_decide_eq_true hc, hsep] at hfalse
      exact Bool.noConfusion hfalse
  cases text with
  | nil => rfl
  | cons c text =>
    by_cases hc : p c = true
    · have hcollapse := rdropWhile_collapse hsep text
      rw [words_cons_of_pos hc] at hleft ⊢
      rw [trim, collapse, if_pos hc, if_neg Bool.false_ne_true, rdropWhile_cons, hcollapse,
        if_pos (decide_eq_true rfl)]
      split_ifs with hnil
      · exact hnil.symm
      · rw [List.dropWhile_cons_of_pos (by exact decide_eq_true rfl), hleft]
    · have hgo : collapse p sep false (c :: text) = collapse p sep true (c :: text) := by
        rw [collapse, collapse, if_neg hc, if_neg hc]
      rw [trim, hgo, rdropWhile_collapse hsep, hleft]

theorem words_append {w text : List α} (hw : IsWord p w) (hnext : text.head?.all p = true) :
    words p (w ++ text) = w :: words p text := by
  obtain ⟨hne, hw⟩ := hw
  induction w with
  | nil => exact absurd rfl hne
  | cons d w ih =>
    obtain ⟨hd, hrest⟩ := List.forall_mem_cons.mp hw
    rw [List.cons_append, words, if_neg (by simp [hd])]
    cases w with
    | nil => rw [List.nil_append, if_pos hnext]
    | cons d' w =>
      rw [List.cons_append, List.head?_cons, Option.all_some,
        if_neg (by simp [hrest d' List.mem_cons_self]), ← List.cons_append,
        ih (List.cons_ne_nil _ _) hrest, List.modifyHead_cons]

theorem words_of_isWord {w : List α} (hw : IsWord p w) : words p w = [w] := by
  have hlast : ([] : List α).head?.all p = true := rfl
  rw [← List.append_nil w, words_append hw hlast, List.append_nil, words]

/-- Joined words are cut back into themselves. -/
theorem words_unwords (hsep : p sep = true) {ws : List (List α)} (hws : ∀ w ∈ ws, IsWord p w) :
    words p (unwords sep ws) = ws := by
  induction ws with
  | nil => rfl
  | cons w ws ih =>
    obtain ⟨hw, hrest⟩ := List.forall_mem_cons.mp hws
    by_cases hnil : ws = []
    · rw [hnil, unwords_singleton, words_of_isWord hw]
    · rw [unwords_cons hnil, words_append hw (by exact hsep), words_cons_of_pos hsep, ih hrest]

/-! ### Neighbours -/

/-- A text is built from separators and from words that end with it or before a separator. -/
theorem text_induction {motive : List α → Prop} (nil : motive [])
    (separator : ∀ c text, p c = true → motive text → motive (c :: text))
    (word : ∀ w text, IsWord p w → text.head?.all p = true → motive text → motive (w ++ text))
    (text : List α) : motive text := by
  induction hn : text.length using Nat.strong_induction_on generalizing text with
  | _ n ih =>
    cases text with
    | nil => exact nil
    | cons c text =>
      rw [List.length_cons] at hn
      by_cases hc : p c = true
      · exact separator c text hc (ih text.length (by omega) text rfl)
      · have hsplit := List.takeWhile_append_dropWhile (p := fun c => !p c) (l := c :: text)
        have htake : (c :: text).takeWhile (fun c => !p c) ≠ [] := by
          rw [List.takeWhile_cons_of_pos (by simp [hc])]
          exact List.cons_ne_nil _ _
        have hlength := congrArg List.length hsplit
        rw [List.length_append, List.length_cons] at hlength
        have hpos := List.length_pos_of_ne_nil htake
        rw [← hsplit]
        refine word _ _ ⟨htake, fun d hd => ?_⟩ ?_ (ih _ (by omega) _ rfl)
        · simpa using List.mem_takeWhile_imp hd
        · have hhead := List.head?_dropWhile_not (fun c => !p c) (c :: text)
          rcases hdrop : ((c :: text).dropWhile fun c => !p c).head? with _ | d
          · rfl
          · rw [hdrop] at hhead
            simpa using hhead

theorem words_append_cons {c : α} (hc : p c = true) (text rest : List α) :
    words p (text ++ c :: rest) = words p text ++ words p rest := by
  induction text using text_induction (p := p) with
  | nil => exact words_cons_of_pos hc
  | separator d text hd ih =>
    rw [List.cons_append, words_cons_of_pos hd, words_cons_of_pos hd, ih]
  | word w text hw hnext ih =>
    have hnext' : (text ++ c :: rest).head?.all p = true := by
      cases text with
      | nil => exact hc
      | cons d text => exact hnext
    rw [List.append_assoc, words_append hw hnext', words_append hw hnext, ih, List.cons_append]

/-- A word stands in its text. -/
theorem infix_of_mem_words {text w : List α} (hw : w ∈ words p text) : w <:+: text := by
  induction text using text_induction (p := p) with
  | nil => exact absurd hw List.not_mem_nil
  | separator c text hc ih =>
    rw [words_cons_of_pos hc] at hw
    exact (ih hw).trans (List.suffix_cons c text).isInfix
  | word v text hv hnext ih =>
    rw [words_append hv hnext] at hw
    rcases List.mem_cons.mp hw with rfl | hw
    · exact (List.prefix_append _ _).isInfix
    · exact (ih hw).trans (List.suffix_append _ _).isInfix

theorem mem_words_of_pair {text : List α} {a b : α} (hpair : [a, b] <:+: text)
    (ha : p a = false) (hb : p b = false) : ∃ w ∈ words p text, [a, b] <:+: w := by
  induction text using text_induction (p := p) with
  | nil => exact absurd (List.infix_nil.mp hpair) (List.cons_ne_nil _ _)
  | separator c text hc ih =>
    rw [words_cons_of_pos hc]
    rcases List.infix_cons_iff.mp hpair with hprefix | hpair
    · rw [(List.cons_prefix_cons.mp hprefix).1, hc] at ha
      exact Bool.noConfusion ha
    · exact ih hpair
  | word v text hv hnext ih =>
    rw [words_append hv hnext]
    rcases List.infix_append_iff_ne_nil.mp hpair with hpair | hpair | ⟨l, l', hl, hl', heq, -, hpre⟩
    · exact ⟨v, List.mem_cons_self, hpair⟩
    · obtain ⟨w, hw, hpair⟩ := ih hpair
      exact ⟨w, List.mem_cons_of_mem v hw, hpair⟩
    · -- The second of the two would be the separator after the word.
      have hsecond : l' = [b] := by
        have hlength := congrArg List.length heq
        rw [List.length_append] at hlength
        have hpos := List.length_pos_of_ne_nil hl
        have hpos' := List.length_pos_of_ne_nil hl'
        obtain ⟨_, heq⟩ := List.append_inj' (show [a] ++ [b] = l ++ l' from heq) (by
          simp only [List.length_cons, List.length_nil] at hlength ⊢
          omega)
        exact heq.symm
      rw [hsecond] at hpre
      obtain ⟨tail, rfl⟩ := hpre
      rw [List.singleton_append, List.head?_cons, Option.all_some, hb] at hnext
      exact Bool.noConfusion hnext

end

theorem pair_infix_filter_iff {q : α → Bool} {text : List α} {a b : α} :
    [a, b] <:+: text.filter q ↔ ∃ gap, (a :: gap ++ [b]) <:+: text ∧ q a = true ∧ q b = true ∧
      ∀ c ∈ gap, q c = false := by
  rw [List.infix_filter_iff]
  constructor
  · rintro ⟨part, hpart, heq⟩
    obtain ⟨left, right, rfl, _, ha, hright⟩ := List.filter_eq_cons_iff.mp heq.symm
    obtain ⟨gap, tail, rfl, hgap, hb, _⟩ := List.filter_eq_cons_iff.mp hright
    have hgapped : a :: gap ++ [b] <:+: left ++ a :: (gap ++ b :: tail) :=
      ⟨left, tail, by simp⟩
    exact ⟨gap, hgapped.trans hpart, ha, hb, fun c hc => eq_false_of_ne_true (hgap c hc)⟩
  · rintro ⟨gap, hgap, ha, hb, hdropped⟩
    refine ⟨_, hgap, ?_⟩
    have hnil : gap.filter q = [] := List.filter_eq_nil_iff.mpr fun c hc => by
      simp [hdropped c hc]
    rw [List.cons_append, List.filter_cons_of_pos ha, List.filter_append, hnil,
      List.nil_append, List.filter_cons_of_pos hb, List.filter_nil]

theorem mem_collapse {p : α → Bool} {sep c : α} {inRun : Bool} {text : List α}
    (hc : c ∈ collapse p sep inRun text) : c = sep ∨ c ∈ text := by
  induction text generalizing inRun with
  | nil => exact absurd hc List.not_mem_nil
  | cons d text ih =>
    rw [collapse] at hc
    split_ifs at hc
    · exact (ih hc).imp_right (List.mem_cons_of_mem d)
    · rcases List.mem_cons.mp hc with hc | hc
      · exact .inl hc
      · exact (ih hc).imp_right (List.mem_cons_of_mem d)
    · rcases List.mem_cons.mp hc with rfl | hc
      · exact .inr List.mem_cons_self
      · exact (ih hc).imp_right (List.mem_cons_of_mem d)

theorem length_collapse_le (p : α → Bool) (sep : α) (inRun : Bool) (text : List α) :
    (collapse p sep inRun text).length ≤ text.length := by
  induction text generalizing inRun with
  | nil => exact le_rfl
  | cons c text ih =>
    rw [collapse]
    split_ifs
    · exact (ih true).trans (Nat.le_succ _)
    · exact Nat.succ_le_succ (ih true)
    · exact Nat.succ_le_succ (ih false)

end EntityResolution.Words
