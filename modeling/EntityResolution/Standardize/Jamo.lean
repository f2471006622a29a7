/-
# A small Unicode

Unicode operations that lower the letters of ASCII and compose one syllable of Hangul, whose two
letters are no accents: the least for which two characters of a name compose.
-/

import Mathlib
import EntityResolution.Standardize.Texts

namespace EntityResolution.Standardize.Jamo

/-- The two letters `ᄀ` and `ᅡ` composed to the syllable `가`. -/
def compose : List Char → List Char
  | [] => []
  | [c] => [c]
  | a :: b :: text =>
    if a = 'ᄀ' ∧ b = 'ᅡ' then '가' :: compose text else a :: compose (b :: text)

variable {text : List Char}

theorem mem_compose {c : Char} (hc : c ∈ compose text) : c ∈ text ∨ c = '가' := by
  fun_induction compose text with
  | case1 => exact .inl hc
  | case2 d => exact .inl hc
  | case3 a b text h ih =>
    rcases List.mem_cons.mp hc with hc | hc
    · exact .inr hc
    · rcases ih hc with hc | hc
      · exact .inl (List.mem_cons_of_mem a (List.mem_cons_of_mem b hc))
      · exact .inr hc
  | case4 a b text h ih =>
    rcases List.mem_cons.mp hc with rfl | hc
    · exact .inl List.mem_cons_self
    · rcases ih hc with hc | hc
      · exact .inl (List.mem_cons_of_mem a hc)
      · exact .inr hc

theorem compose_eq_self (hapart : ¬ ['ᄀ', 'ᅡ'] <:+: text) : compose text = text := by
  fun_induction compose text with
  | case1 => rfl
  | case2 d => rfl
  | case3 a b text h ih =>
    obtain ⟨rfl, rfl⟩ := h
    exact absurd ⟨[], text, rfl⟩ hapart
  | case4 a b text h ih =>
    rw [ih fun hpair => hapart (hpair.trans (List.suffix_cons a _).isInfix)]

theorem not_infix_compose : ¬ ['ᄀ', 'ᅡ'] <:+: compose text := by
  fun_induction compose text with
  | case1 => decide
  | case2 d =>
    intro hpair
    exact absurd hpair.length_le (by simp)
  | case3 a b text h ih =>
    intro hpair
    rcases List.infix_cons_iff.mp hpair with hprefix | hpair
    · exact absurd (List.cons_prefix_cons.mp hprefix).1 (by decide)
    · exact ih hpair
  | case4 a b text h ih =>
    intro hpair
    rcases List.infix_cons_iff.mp hpair with hprefix | hpair
    · obtain ⟨rfl, htail⟩ := List.cons_prefix_cons.mp hprefix
      -- The second letter heads the composed rest, so it headed the rest.
      have hhead : b = 'ᅡ' := by
        cases text with
        | nil => exact (List.cons_prefix_cons.mp htail).1.symm
        | cons c text =>
          rw [compose] at htail
          split_ifs at htail
          · exact absurd (List.cons_prefix_cons.mp htail).1 (by decide)
          · exact (List.cons_prefix_cons.mp htail).1.symm
      exact h ⟨rfl, hhead⟩
    · exact ih hpair

theorem compose_eq_self_iff : compose text = text ↔ ¬ ['ᄀ', 'ᅡ'] <:+: text := by
  refine ⟨fun hself => ?_, compose_eq_self⟩
  rw [← hself]
  exact not_infix_compose

theorem length_compose_le : (compose text).length ≤ text.length := by
  fun_induction compose text with
  | case1 => exact le_rfl
  | case2 d => exact le_rfl
  | case3 a b text h ih => exact Nat.succ_le_succ (ih.trans (Nat.le_succ _))
  | case4 a b text h ih => exact Nat.succ_le_succ ih

theorem length_compose_lt (hpair : ['ᄀ', 'ᅡ'] <:+: text) :
    (compose text).length < text.length := by
  fun_induction compose text with
  | case1 => exact absurd hpair (by decide)
  | case2 d => exact absurd hpair.length_le (by simp)
  | case3 a b text h ih =>
    exact Nat.succ_lt_succ (Nat.lt_succ_of_le length_compose_le)
  | case4 a b text h ih =>
    rcases List.infix_cons_iff.mp hpair with hprefix | hpair
    · obtain ⟨rfl, htail⟩ := List.cons_prefix_cons.mp hprefix
      exact absurd ⟨rfl, (List.cons_prefix_cons.mp htail).1.symm⟩ h
    · exact Nat.succ_lt_succ (ih hpair)

theorem not_infix_append_cons {rest : List Char} {c : Char} (hc : c ≠ 'ᄀ' ∧ c ≠ 'ᅡ')
    (htext : ¬ ['ᄀ', 'ᅡ'] <:+: text) (hrest : ¬ ['ᄀ', 'ᅡ'] <:+: rest) :
    ¬ ['ᄀ', 'ᅡ'] <:+: text ++ c :: rest := by
  intro hpair
  rcases List.infix_append_iff_ne_nil.mp hpair with h | h | ⟨l, l', hl, hl', heq, -, hprefix⟩
  · exact htext h
  · rcases List.infix_cons_iff.mp h with hprefix | hpair
    · exact hc.1 (List.cons_prefix_cons.mp hprefix).1.symm
    · exact hrest hpair
  · cases l with
    | nil => exact hl rfl
    | cons a l =>
      cases l with
      | nil =>
        obtain ⟨-, rfl⟩ := List.cons_eq_cons.mp heq
        exact hc.2 (List.cons_prefix_cons.mp hprefix).1.symm
      | cons b l =>
        have hlength := congrArg List.length heq
        have hpos := List.length_pos_of_ne_nil hl'
        simp only [List.length_cons, List.length_append, List.length_nil] at hlength
        omega

/-- ASCII lowering and one syllable of Hangul. -/
def operations : UnicodeOperations where
  nfcNormalize := compose
  lower := List.map Char.toLower
  toUppercase := List.map Char.toUpper
  stripAccents := id

theorem plain (c : Char) : operations.Plain c := ⟨rfl, rfl⟩

theorem isLower_iff {c : Char} : operations.IsLower c ↔ c.toLower = c := by
  change [c.toLower] = [c] ↔ c.toLower = c
  exact ⟨fun h => (List.cons_eq_cons.mp h).1, fun h => by rw [h]⟩

theorem isLower_of_mem_compose (hlower : ∀ c ∈ text, operations.IsLower c) :
    ∀ c ∈ compose text, operations.IsLower c := by
  intro c hc
  rcases mem_compose hc with hc | rfl
  · exact hlower c hc
  · exact isLower_iff.mpr (by decide)

theorem not_infix_of_isAscii (hascii : ∀ c ∈ text, IsAscii c) : ¬ ['ᄀ', 'ᅡ'] <:+: text :=
  fun hpair => absurd (hascii 'ᄀ' (hpair.subset List.mem_cons_self)) (by decide)

/-- The operations are as they are known to be. -/
def unicode : Unicode where
  toUnicodeOperations := operations
  isNfc_nfcNormalize _ := compose_eq_self not_infix_compose
  isNfc_of_isInfix htext hpart :=
    compose_eq_self fun hpair => compose_eq_self_iff.mp htext (hpair.trans hpart)
  isNfc_ascii hascii := compose_eq_self (not_infix_of_isAscii hascii)
  isNfc_append_cons hc htext hrest := by
    refine compose_eq_self (not_infix_append_cons ?_ (compose_eq_self_iff.mp htext)
      (compose_eq_self_iff.mp hrest))
    rcases hc with rfl | rfl <;> decide
  isNfc_of_neighbours _ hpairs :=
    compose_eq_self fun hpair => compose_eq_self_iff.mp (hpairs _ _ hpair) List.infix_rfl
  length_nfcNormalize_lt _ hnfc :=
    length_compose_lt (not_not.mp fun hpair => hnfc (compose_eq_self hpair))
  plain_of_mem_nfcNormalize _ c _ := plain c
  isLower_of_mem_lower hc := by
    obtain ⟨d, -, rfl⟩ := List.mem_map.mp hc
    exact isLower_iff.mpr d.toLower_toLower_eq_toLower
  lower_eq_self hlower :=
    (List.map_congr_left fun c hc => isLower_iff.mp (hlower c hc)).trans (List.map_id _)
  isLower_ascii _ hupper :=
    isLower_iff.mpr (Char.toLower_eq_of_not_isUpper (by rw [hupper]; exact Bool.false_ne_true))
  isLower_of_mem_nfcNormalize := isLower_of_mem_compose
  isLower_of_mem_stripAccents hlower := hlower
  stripAccents_ascii _ := rfl
  plain_of_mem_stripAccents _ := plain _
  nfcNormalize_stripAccents _ := rfl

theorem eq_of_toLower_eq {c d : Char} (hlower : d.toLower = c) (hc : c.isLower = false) :
    d = c := by
  by_cases hupper : d.isUpper = true
  · have halpha : d.toLower.isLower = true := by
      rw [Char.isLower_toLower_eq_isAlpha, Char.isAlpha, hupper, Bool.true_or]
    rw [hlower, hc] at halpha
    exact absurd halpha Bool.false_ne_true
  · rw [← hlower, Char.toLower_eq_of_not_isUpper hupper]

theorem lowerTrim_eq (text : List Char) :
    lowerTrim unicode text = (trim (compose text)).map Char.toLower := by
  refine compose_eq_self fun hpair => ?_
  obtain ⟨part, hpart, heq⟩ := List.infix_map_iff.mp hpair
  obtain ⟨a, rest, rfl, ha, hrest⟩ := List.map_eq_cons_iff.mp heq.symm
  obtain ⟨b, tail, rfl, hb, htail⟩ := List.map_eq_cons_iff.mp hrest
  obtain rfl := eq_of_toLower_eq ha (by decide)
  obtain rfl := eq_of_toLower_eq hb (by decide)
  rw [List.map_eq_nil_iff.mp htail] at hpart
  exact not_infix_compose (hpart.trans (trim_isInfix _))

/-- Lowering and trimming twice is lowering and trimming once. -/
theorem lowerTrim_lowerTrim (text : List Char) :
    lowerTrim unicode (lowerTrim unicode text) = lowerTrim unicode text := by
  have hnormal : compose (lowerTrim unicode text) = lowerTrim unicode text :=
    compose_eq_self not_infix_compose
  have hspace : ∀ c : Char, decide (c = ' ') = false → decide (c.toLower = ' ') = false :=
    fun c hc => decide_eq_false fun h => of_decide_eq_false hc (eq_of_toLower_eq h (by decide))
  have htrimmed : trim (lowerTrim unicode text) = lowerTrim unicode text := by
    have hends := Words.trim_eq_self_iff.mp (Words.trim_trim (· = ' ') (compose text))
    rw [lowerTrim_eq, trim, Words.trim_eq_self_iff, List.head?_map, List.getLast?_map]
    constructor
    · intro c hc
      obtain ⟨d, hd, rfl⟩ := Option.map_eq_some_iff.mp hc
      exact hspace d (hends.1 d hd)
    · intro c hc
      obtain ⟨d, hd, rfl⟩ := Option.map_eq_some_iff.mp hc
      exact hspace d (hends.2 d hd)
  rw [lowerTrim_eq (lowerTrim unicode text), hnormal, htrimmed, lowerTrim_eq, List.map_map]
  exact List.map_congr_left fun c _ => c.toLower_toLower_eq_toLower

/-- Folding twice is folding once. -/
theorem fold_fold (text : List Char) : fold unicode (fold unicode text) = fold unicode text :=
  compose_eq_self not_infix_compose

theorem mem_of_mem_fold {c : Char} (hc : c ∈ fold unicode text) (hne : c ≠ '가') : c ∈ text :=
  (mem_compose hc).resolve_right hne

theorem mem_of_mem_lowerTrim {c : Char} (hc : c ∈ lowerTrim unicode text)
    (hlower : c.isLower = false) (hne : c ≠ '가') : c ∈ text := by
  rw [lowerTrim_eq, List.mem_map] at hc
  obtain ⟨d, hd, heq⟩ := hc
  obtain rfl := eq_of_toLower_eq heq hlower
  exact (mem_compose ((trim_isInfix _).subset hd)).resolve_right hne

end EntityResolution.Standardize.Jamo
