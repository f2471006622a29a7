/-
# Normalized keys

The common shape of the normalized keys: a text is lowered and folded, its punctuation is dropped
or taken for spaces, white space is collapsed, and what stands for a missing value is dropped.
Applied to its own result such a key changes nothing exactly when the result is in normal form
and the steps after the folding leave it alone; and the result is in normal form exactly when no
two characters compose that only dropped punctuation keeps apart.
-/

import Mathlib
import EntityResolution.Standardize.Texts

namespace EntityResolution.Standardize

open Patterns Words

variable {u : Unicode}

/-- A key: what a function makes of the folded text. -/
def keyed (u : Unicode) (f : List Char → List Char) (col : Option (List Char)) :
    Option (List Char) :=
  nullSemantics u (nullif ((folded u (lowercaseTrim u col)).map f) [])

/-- A lowered text of plain characters. -/
structure Foldable (u : Unicode) (text : List Char) : Prop extends Lowered u text where
  plain : ∀ c ∈ text, u.Plain c

theorem keyed_none (f : List Char → List Char) : keyed u f none = none := rfl

/-- What is folded is lower and plain. -/
theorem of_folded {input text : List Char}
    (hfolded : folded u (lowercaseTrim u (some input)) = some text) :
    (∀ c ∈ text, u.IsLower c) ∧ ∀ c ∈ text, u.Plain c := by
  obtain ⟨lowered, hlowered, rfl⟩ := Option.map_eq_some_iff.mp hfolded
  obtain ⟨-, hlower, -⟩ := of_lowercaseTrim hlowered
  exact ⟨u.isLower_of_mem_nfcNormalize (u.isLower_of_mem_stripAccents hlower),
    fun c hc => u.plain_of_mem_stripAccents hc⟩

/-- A present text in normal form is folded to itself. -/
theorem folded_of_isNfc {text : List Char} (hfoldable : Foldable u text) (hnfc : u.IsNfc text)
    (hne : text ≠ []) : folded u (lowercaseTrim u (some text)) = some text := by
  have hpresent : nullif (some text) [] = some text := nullif_eq_some_iff.mpr ⟨rfl, hne⟩
  rw [hfoldable.toLowered.lowercaseTrim hnfc, hpresent, folded, Option.map_some, fold,
    u.nfcNormalize_stripAccents hfoldable.plain, hnfc]

theorem length_folded_lt {text again : List Char} (hfoldable : Foldable u text)
    (hnfc : ¬ u.IsNfc text)
    (hfolded : folded u (lowercaseTrim u (some text)) = some again) :
    again.length < text.length := by
  have hshort := u.length_nfcNormalize_lt hfoldable.plain hnfc
  have hpart : trim (u.nfcNormalize text) <:+: u.nfcNormalize text := trim_isInfix _
  have hmem := fun c (hc : c ∈ trim (u.nfcNormalize text)) => hpart.subset hc
  have hnormal := u.isNfc_of_isInfix (u.isNfc_nfcNormalize text) hpart
  have hlower : u.lower (trim (u.nfcNormalize text)) = trim (u.nfcNormalize text) :=
    u.lower_eq_self fun c hc => u.isLower_of_mem_nfcNormalize hfoldable.isLower c (hmem c hc)
  have hplain := fun c (hc : c ∈ trim (u.nfcNormalize text)) =>
    u.plain_of_mem_nfcNormalize hfoldable.plain c (hmem c hc)
  have hself : lowerTrim u text = trim (u.nfcNormalize text) := by
    rw [lowerTrim, hlower, hnormal]
  obtain ⟨lowered, hlowered, rfl⟩ := Option.map_eq_some_iff.mp hfolded
  obtain rfl := Option.some_inj.mp (nullif_eq_some_iff.mp hlowered).1
  rw [hself, fold, u.nfcNormalize_stripAccents hplain, hnormal]
  exact hpart.length_le.trans_lt hshort

/-- A key applied to its own result changes nothing exactly when what it makes of the folded text
is missing, or is in normal form and left alone. -/
theorem keyed_stable_iff {f : List Char → List Char}
    (hlength : ∀ text, (f text).length ≤ text.length)
    (hfoldable : ∀ text, (∀ c ∈ text, u.IsLower c) → (∀ c ∈ text, u.Plain c) →
      Foldable u (f text))
    (input : List Char) : keyed u f (keyed u f (some input)) = keyed u f (some input) ↔
      ∀ text, folded u (lowercaseTrim u (some input)) = some text → f text ∉ nullSentinels →
        u.IsNfc (f text) ∧ f (f text) = f text := by
  rcases hfolded : folded u (lowercaseTrim u (some input)) with _ | text
  · have hnone : keyed u f (some input) = none := by rw [keyed, hfolded]; rfl
    rw [hnone, keyed_none]
    exact iff_of_true rfl fun _ h => absurd h.symm (Option.some_ne_none _)
  · have htext := hfoldable text (of_folded hfolded).1 (of_folded hfolded).2
    have hkey : keyed u f (some input) =
        if f text ∈ nullSentinels then none else some (f text) := by
      rw [keyed, hfolded, Option.map_some, htext.toLowered.nullSemantics]
    rw [hkey]
    by_cases hsentinel : f text ∈ nullSentinels
    · rw [if_pos hsentinel, keyed_none]
      refine iff_of_true rfl fun text' h hkeep => ?_
      rw [← Option.some_inj.mp h] at hkeep
      exact absurd hsentinel hkeep
    · have hne : f text ≠ [] := fun h => hsentinel (h ▸ List.mem_cons_self)
      rw [if_neg hsentinel]
      have hforall : (∀ text', some text = some text' → f text' ∉ nullSentinels →
          u.IsNfc (f text') ∧ f (f text') = f text') ↔
            u.IsNfc (f text) ∧ f (f text) = f text := by
        constructor
        · exact fun h => h text rfl hsentinel
        · rintro h text' ⟨⟩ -
          exact h
      rw [hforall]
      constructor
      · intro hstable
        have hagain := eq_of_nullSemantics hstable
        rw [Option.map_eq_some_iff] at hagain
        obtain ⟨again, hfoldedAgain, heq⟩ := hagain
        have hnfc : u.IsNfc (f text) := by
          by_contra hnfc
          have hshort := length_folded_lt htext hnfc hfoldedAgain
          have hle := hlength again
          rw [heq] at hle
          omega
        rw [folded_of_isNfc htext hnfc hne, Option.some_inj] at hfoldedAgain
        rw [← hfoldedAgain] at heq
        exact ⟨hnfc, heq⟩
      · rintro ⟨hnfc, hfix⟩
        rw [keyed, folded_of_isNfc htext hnfc hne, Option.map_some, hfix,
          htext.toLowered.nullSemantics,
          if_neg hsentinel]

/-- The characters that a key drops and those that it takes for spaces. -/
structure Punctuation where
  dropped : CharClass
  spaced : CharClass
  disjoint : ∀ c, spaced.holds c = true → dropped.holds c = false
  space_kept : dropped.holds ' ' = false

namespace Punctuation

variable (p : Punctuation)

/-- A character that a key keeps as it is. -/
def Kept (c : Char) : Prop :=
  p.dropped.holds c = false ∧ p.spaced.holds c = false ∧ isSpace c = false

/-- A text without its punctuation. -/
def clean (text : List Char) : List Char :=
  p.spaced.replaceEach [' '] (p.dropped.replaceEach [] text)

/-- The words of a text without its punctuation. -/
def pieces (text : List Char) : List (List Char) := words isSpace (p.clean text)

/-- A text without its punctuation and with single spaces between its words. -/
def tidy (text : List Char) : List Char := trim (spaceClass.replaceRuns ' ' (p.clean text))

/-- No two characters compose that only dropped ones keep apart. -/
def Parted (u : Unicode) (text : List Char) : Prop :=
  ∀ a b gap, (a :: gap ++ [b]) <:+: text → (∀ c ∈ gap, p.dropped.holds c = true) →
    p.Kept a → p.Kept b → u.IsNfc [a, b]

variable {p} {text : List Char}

theorem clean_eq_map_filter : p.clean text =
    (text.filter fun c => !p.dropped.holds c).map fun c =>
      if p.spaced.holds c then ' ' else c := by
  rw [clean, CharClass.replaceEach_nil, CharClass.replaceEach_singleton]

/-- It does not matter which of the two goes first. -/
theorem clean_eq_filter_map :
    p.dropped.replaceEach [] (p.spaced.replaceEach [' '] text) = p.clean text := by
  rw [CharClass.replaceEach_nil, CharClass.replaceEach_singleton, clean_eq_map_filter,
    List.filter_map]
  congr 1
  refine List.filter_congr fun c _ => ?_
  rw [Function.comp_apply]
  split_ifs with hspaced
  · rw [p.disjoint c hspaced, p.space_kept]
  · rfl

theorem tidy_eq_unwords : p.tidy text = unwords ' ' (p.pieces text) := by
  rw [tidy, trim, CharClass.replaceRuns, spaceClass_holds, trim_collapse rfl, pieces]

theorem length_tidy_le : (p.tidy text).length ≤ text.length := by
  refine (length_trim_le _ _).trans ((length_collapse_le _ _ _ _).trans ?_)
  rw [clean_eq_map_filter, List.length_map]
  exact List.length_filter_le _ _

theorem mem_of_mem_pieces {w : List Char} (hw : w ∈ p.pieces text) {c : Char} (hc : c ∈ w) :
    c ∈ text ∧ p.Kept c := by
  have hspace := (isWord_of_mem_words hw).2 c hc
  have hmem : c ∈ p.clean text := (infix_of_mem_words hw).subset hc
  rw [clean_eq_map_filter, List.mem_map] at hmem
  obtain ⟨d, hd, heq⟩ := hmem
  obtain ⟨htext, hkept⟩ := List.mem_filter.mp hd
  split_ifs at heq with hspaced
  · rw [← heq] at hspace
    exact absurd hspace (by decide)
  · subst heq
    exact ⟨htext, by simpa using hkept, eq_false_of_ne_true hspaced, hspace⟩

section

variable {ws : List (List Char)} (hws : ws ⊆ p.pieces text)

include hws

theorem isWord_of_mem : ∀ w ∈ ws, IsWord isSpace w := fun _ hw => isWord_of_mem_words (hws hw)

theorem mem_of_mem_joined {c : Char} (hc : c ∈ unwords ' ' ws) :
    c = ' ' ∨ c ∈ text ∧ p.Kept c := by
  induction ws with
  | nil => exact absurd hc List.not_mem_nil
  | cons w ws ih =>
    obtain ⟨hw, hrest⟩ := List.cons_subset.mp hws
    by_cases hnil : ws = []
    · rw [hnil, unwords_singleton] at hc
      exact .inr (mem_of_mem_pieces hw hc)
    · rw [unwords_cons hnil, List.mem_append, List.mem_cons] at hc
      rcases hc with hc | hc | hc
      · exact .inr (mem_of_mem_pieces hw hc)
      · exact .inl hc
      · exact ih hrest hc

/-- Joined pieces have no punctuation left and are cut into the same pieces. -/
theorem pieces_joined : p.pieces (unwords ' ' ws) = ws := by
  have hclean : p.clean (unwords ' ' ws) = unwords ' ' ws := by
    rw [clean_eq_map_filter, List.filter_eq_self.mpr]
    · refine (List.map_congr_left fun c hc => ?_).trans (List.map_id _)
      rcases mem_of_mem_joined hws hc with rfl | ⟨-, -, hspaced, -⟩
      · exact ite_self _
      · rw [if_neg (by simp [hspaced]), id]
    · intro c hc
      rcases mem_of_mem_joined hws hc with rfl | ⟨-, hkept, -⟩
      · rw [p.space_kept]; rfl
      · rw [hkept]; rfl
  rw [pieces, hclean, words_unwords rfl (isWord_of_mem hws)]

theorem plain_of_mem_joined (hplain : ∀ c ∈ text, u.Plain c) :
    ∀ c ∈ unwords ' ' ws, u.Plain c := by
  intro c hc
  rcases mem_of_mem_joined hws hc with rfl | ⟨hmem, -⟩
  · have hascii : ∀ c ∈ [' '], IsAscii c := List.forall_mem_singleton.mpr (by decide)
    exact ⟨u.isNfc_ascii hascii, u.stripAccents_ascii hascii⟩
  · exact hplain c hmem

/-- Joined pieces of a text of plain and lower characters can be folded. -/
theorem foldable_joined (hlower : ∀ c ∈ text, u.IsLower c) (hplain : ∀ c ∈ text, u.Plain c) :
    Foldable u (unwords ' ' ws) where
  isLower c hc := by
    rcases mem_of_mem_joined hws hc with rfl | ⟨hmem, -⟩
    · exact u.isLower_ascii (by decide) (by decide)
    · exact hlower c hmem
  plain := plain_of_mem_joined hws hplain
  trimmed := by
    rw [trim, trim_eq_self_iff]
    have hends := unwords_ends ' ' (isWord_of_mem hws)
    exact ⟨fun c hc => ne_space_of_isSpace (hends.1 c hc),
      fun c hc => ne_space_of_isSpace (hends.2 c hc)⟩

end

theorem pair_infix_clean_iff {a b : Char} (ha : isSpace a = false) (hb : isSpace b = false) :
    [a, b] <:+: p.clean text ↔ ∃ gap, (a :: gap ++ [b]) <:+: text ∧
      (∀ c ∈ gap, p.dropped.holds c = true) ∧ p.Kept a ∧ p.Kept b := by
  have hself : ∀ {c d : Char}, (if p.spaced.holds c then ' ' else c) = d → isSpace d = false →
      c = d ∧ p.spaced.holds c = false := by
    intro c d heq hd
    split_ifs at heq with hspaced
    · rw [← heq] at hd
      exact absurd hd (by decide)
    · exact ⟨heq, eq_false_of_ne_true hspaced⟩
  have hnot : ∀ {c : Char}, (!p.dropped.holds c) = true ↔ p.dropped.holds c = false := by simp
  have hnot' : ∀ {c : Char}, (!p.dropped.holds c) = false ↔ p.dropped.holds c = true := by simp
  rw [clean_eq_map_filter, List.infix_map_iff]
  constructor
  · rintro ⟨l, hl, heq⟩
    obtain ⟨c, rest, rfl, hc, hrest⟩ := List.map_eq_cons_iff.mp heq.symm
    obtain ⟨d, tail, rfl, hd, htail⟩ := List.map_eq_cons_iff.mp hrest
    obtain ⟨rfl, hspacedA⟩ := hself hc ha
    obtain ⟨rfl, hspacedB⟩ := hself hd hb
    rw [List.map_eq_nil_iff.mp htail, pair_infix_filter_iff] at hl
    obtain ⟨gap, hgap, hkeptA, hkeptB, hdropped⟩ := hl
    exact ⟨gap, hgap, fun e he => hnot'.mp (hdropped e he), ⟨hnot.mp hkeptA, hspacedA, ha⟩,
      ⟨hnot.mp hkeptB, hspacedB, hb⟩⟩
  · rintro ⟨gap, hgap, hdropped, hkeptA, hkeptB⟩
    refine ⟨[a, b], pair_infix_filter_iff.mpr ⟨gap, hgap, hnot.mpr hkeptA.1, hnot.mpr hkeptB.1,
      fun e he => hnot'.mpr (hdropped e he)⟩, ?_⟩
    rw [List.map_cons, List.map_cons, List.map_nil, hkeptA.2.1, hkeptB.2.1]
    rfl

/-- A tidied text is in normal form exactly when no two characters compose that only dropped ones
keep apart. -/
theorem isNfc_tidy_iff (hplain : ∀ c ∈ text, u.Plain c) :
    u.IsNfc (p.tidy text) ↔ p.Parted u text := by
  have hjoined : ∀ {c}, c ∈ unwords ' ' (p.pieces text) → c = ' ' ∨ c ∈ text ∧ p.Kept c :=
    mem_of_mem_joined (List.Subset.refl _)
  have hpieces : words isSpace (unwords ' ' (p.pieces text)) = p.pieces text :=
    words_unwords rfl fun _ => isWord_of_mem_words
  have hnil : u.IsNfc [] := u.isNfc_ascii (List.forall_mem_nil _)
  have hplainJoined := plain_of_mem_joined (List.Subset.refl (p.pieces text)) hplain
  rw [tidy_eq_unwords]
  constructor
  · intro hnfc a b gap hgap hdropped ha hb
    -- The two are neighbours in the cleaned text, so in one of its words.
    have hpair := (pair_infix_clean_iff ha.2.2 hb.2.2).mpr ⟨gap, hgap, hdropped, ha, hb⟩
    obtain ⟨w, hw, hpair⟩ := mem_words_of_pair hpair ha.2.2 hb.2.2
    have hw' : w ∈ words isSpace (unwords ' ' (p.pieces text)) := by rwa [hpieces]
    exact u.isNfc_of_isInfix hnfc (hpair.trans (infix_of_mem_words hw'))
  · intro hparted
    refine u.isNfc_of_neighbours hplainJoined fun a b hpair => ?_
    have ha := hplainJoined a (hpair.subset List.mem_cons_self)
    have hb := hplainJoined b (hpair.subset (List.mem_cons_of_mem _ List.mem_cons_self))
    rcases hjoined (hpair.subset List.mem_cons_self) with rfl | ⟨-, hkeptA⟩
    · have hjoined : u.IsNfc ([] ++ ' ' :: [b]) := u.isNfc_append_cons (.inl rfl) hnil hb.1
      exact hjoined
    · rcases hjoined (hpair.subset (List.mem_cons_of_mem _ List.mem_cons_self)) with
        rfl | ⟨-, hkeptB⟩
      · have hjoined : u.IsNfc ([a] ++ ' ' :: []) := u.isNfc_append_cons (.inl rfl) ha.1 hnil
        exact hjoined
      · obtain ⟨w, hw, hpair⟩ := mem_words_of_pair hpair hkeptA.2.2 hkeptB.2.2
        rw [hpieces] at hw
        obtain ⟨gap, hgap, hdropped, -, -⟩ := (pair_infix_clean_iff hkeptA.2.2 hkeptB.2.2).mp
          (hpair.trans (infix_of_mem_words hw))
        exact hparted a b gap hgap hdropped hkeptA hkeptB

end Punctuation

end EntityResolution.Standardize
