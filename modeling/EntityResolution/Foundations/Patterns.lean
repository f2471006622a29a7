/-
# Regular expressions

Patterns with anchors and numbered groups, matched the way engines without backreferences do:
among the matches at a place the first one in order of preference is taken, and a search takes
the leftmost place that has one. What a pattern accepts is stated apart from the order of
preference, and the matcher is shown to find exactly that.
-/

import Mathlib
import EntityResolution.Foundations.Words

namespace EntityResolution.Patterns

/-- An item of a bracketed class. -/
inductive Item
  | char (c : Char)
  | range (first last : Char)
  | space
  deriving DecidableEq, Repr

/-- A class of characters. -/
inductive CharClass
  | any
  | lit (c : Char)
  | among (items : List Item)
  | notAmong (items : List Item)
  deriving DecidableEq, Repr

/-- A pattern; repetitions are of a class and greedy. -/
inductive Regex
  | empty
  | one (c : CharClass)
  | star (c : CharClass)
  | plus (c : CharClass)
  | seq (first second : Regex)
  | alt (first second : Regex)
  | maybe (r : Regex)
  | group (number : ℕ) (r : Regex)
  | start
  | finish
  deriving DecidableEq, Repr

namespace Regex

/-- A text as it stands. -/
def word (text : List Char) : Regex := text.foldr (fun c r => seq (one (.lit c)) r) empty

/-- One of several texts, the earlier preferred. -/
def oneOf : List (List Char) → Regex
  | [] => one (.among [])
  | [text] => word text
  | text :: texts => alt (word text) (oneOf texts)

/-- The groups of a pattern with their bodies, by their opening parentheses. -/
def groups : Regex → List (ℕ × Regex)
  | seq first second => first.groups ++ second.groups
  | alt first second => first.groups ++ second.groups
  | maybe r => r.groups
  | group number r => (number, r) :: r.groups
  | _ => []

end Regex

/-- An item as it is written. -/
def Item.text : Item → List Char
  | .char c => [c]
  | .range first last => [first, '-', last]
  | .space => "[:space:]".toList

/-- A class as it is written. -/
def CharClass.text : CharClass → List Char
  | .any => ['.']
  | .lit c => [c]
  | .among items => '[' :: items.flatMap Item.text ++ [']']
  | .notAmong items => '[' :: '^' :: items.flatMap Item.text ++ [']']

/-- A pattern as it is written. -/
def Regex.text : Regex → List Char
  | .empty => []
  | .one c => c.text
  | .star c => c.text ++ ['*']
  | .plus c => c.text ++ ['+']
  | .seq first second => first.text ++ second.text
  | .alt first second => first.text ++ '|' :: second.text
  | .maybe r => r.text ++ ['?']
  | .group _ r => '(' :: r.text ++ [')']
  | .start => ['^']
  | .finish => ['$']

/-- The white space of ASCII. -/
def isSpace (c : Char) : Bool :=
  c = ' ' || c = '\t' || c = '\n' || c = '\x0b' || c = '\x0c' || c = '\x0d'

/-- Whether a character is of an item. -/
def Item.holds : Item → Char → Bool
  | .char d, c => c = d
  | .range first last, c => first ≤ c && c ≤ last
  | .space, c => isSpace c

/-- Whether a character is of a class; the dot is every character but a line feed. -/
def CharClass.holds : CharClass → Char → Bool
  | .any, c => c ≠ '\n'
  | .lit d, c => c = d
  | .among items, c => items.any (·.holds c)
  | .notAmong items, c => !items.any (·.holds c)

/-- What a pattern took, what it left, and what its groups took. -/
structure Match where
  taken : List Char
  rest : List Char
  captures : List (ℕ × List Char)
  deriving DecidableEq, Repr

namespace Match

/-- A match that takes nothing. -/
def nothing (text : List Char) : Match := ⟨[], text, []⟩

/-- A match with one more character in front. -/
def push (c : Char) (m : Match) : Match := { m with taken := c :: m.taken }

/-- A match followed by one of what it left. -/
def append (m n : Match) : Match := ⟨m.taken ++ n.taken, n.rest, m.captures ++ n.captures⟩

/-- A match of a group. -/
def capture (number : ℕ) (m : Match) : Match :=
  { m with captures := (number, m.taken) :: m.captures }

end Match

/-- The repetitions of a class, the longest first. -/
def starRun (c : CharClass) : List Char → List Match
  | [] => [Match.nothing []]
  | x :: text =>
    if c.holds x then (starRun c text).map (Match.push x) ++ [Match.nothing (x :: text)]
    else [Match.nothing (x :: text)]

/-- The matches at the head of a text in order of preference; the flag says whether this is the
start of the whole text. -/
def run : Regex → Bool → List Char → List Match
  | .empty, _, text => [Match.nothing text]
  | .one _, _, [] => []
  | .one c, _, x :: text => if c.holds x then [⟨[x], text, []⟩] else []
  | .star c, _, text => starRun c text
  | .plus _, _, [] => []
  | .plus c, _, x :: text => if c.holds x then (starRun c text).map (Match.push x) else []
  | .seq first second, s, text =>
    (run first s text).flatMap fun m => (run second (s && m.taken.isEmpty) m.rest).map m.append
  | .alt first second, s, text => run first s text ++ run second s text
  | .maybe r, s, text => run r s text ++ [Match.nothing text]
  | .group number r, s, text => (run r s text).map (Match.capture number)
  | .start, s, text => if s then [Match.nothing text] else []
  | .finish, _, text => if text = [] then [Match.nothing text] else []

/-- The leftmost match, with what stands before it. -/
def searchFrom (r : Regex) : Bool → List Char → Option (List Char × Match)
  | s, [] => (run r s []).head?.map ([], ·)
  | s, c :: text =>
    match run r s (c :: text) with
    | m :: _ => some ([], m)
    | [] => (searchFrom r false text).map fun found => (c :: found.1, found.2)

/-- The leftmost match in a text. -/
def search (r : Regex) (text : List Char) : Option (List Char × Match) := searchFrom r true text

/-- The leftmost match replaced. -/
def replaceFirst (r : Regex) (by' text : List Char) : List Char :=
  match search r text with
  | none => text
  | some (before, m) => before ++ by' ++ m.rest

/-- What a group of the leftmost match took. -/
def captured (r : Regex) (number : ℕ) (text : List Char) : Option (List Char) :=
  (search r text).bind fun found => found.2.captures.lookup number

/-- What a group of the leftmost match took; nothing when there is no match. -/
def extract (r : Regex) (number : ℕ) (text : List Char) : List Char :=
  (captured r number text).getD []

/-- Whether the whole text is a match. -/
def fullMatch (r : Regex) (text : List Char) : Bool :=
  (run r true text).any fun m => m.rest.isEmpty

/-- Every character of a class replaced, wherever it stands. -/
def CharClass.replaceEach (c : CharClass) (by' text : List Char) : List Char :=
  text.flatMap fun x => if c.holds x then by' else [x]

/-- Every longest run of a class replaced by a character. -/
def CharClass.replaceRuns (c : CharClass) (by' : Char) (text : List Char) : List Char :=
  Words.collapse c.holds by' false text

theorem CharClass.replaceEach_nil (c : CharClass) (text : List Char) :
    c.replaceEach [] text = text.filter fun x => !c.holds x := by
  induction text with
  | nil => rfl
  | cons x text ih =>
    rw [CharClass.replaceEach, List.flatMap_cons, ← CharClass.replaceEach, ih]
    by_cases hx : c.holds x = true
    · rw [if_pos hx, List.nil_append, List.filter_cons_of_neg (by simp [hx])]
    · rw [if_neg hx, List.singleton_append, List.filter_cons_of_pos (by simp [hx])]

theorem CharClass.replaceEach_singleton (c : CharClass) (d : Char) (text : List Char) :
    c.replaceEach [d] text = text.map fun x => if c.holds x then d else x := by
  induction text with
  | nil => rfl
  | cons x text ih =>
    rw [CharClass.replaceEach, List.flatMap_cons, ← CharClass.replaceEach, ih, List.map_cons]
    split_ifs <;> rfl

/-- A pattern accepts a text before another one. -/
def Accepts : Regex → Bool → List Char → List Char → Prop
  | .empty, _, u, _ => u = []
  | .one c, _, u, _ => ∃ x, c.holds x = true ∧ u = [x]
  | .star c, _, u, _ => ∀ x ∈ u, c.holds x = true
  | .plus c, _, u, _ => u ≠ [] ∧ ∀ x ∈ u, c.holds x = true
  | .seq first second, s, u, w => ∃ v v', u = v ++ v' ∧ Accepts first s v (v' ++ w) ∧
      Accepts second (s && v.isEmpty) v' w
  | .alt first second, s, u, w => Accepts first s u w ∨ Accepts second s u w
  | .maybe r, s, u, w => Accepts r s u w ∨ u = []
  | .group _ r, s, u, w => Accepts r s u w
  | .start, s, u, _ => u = [] ∧ s = true
  | .finish, _, u, w => u = [] ∧ w = []

@[simp]
theorem accepts_word {text u w : List Char} {s : Bool} :
    Accepts (Regex.word text) s u w ↔ u = text := by
  induction text generalizing u s with
  | nil => exact Iff.rfl
  | cons c text ih =>
    change (∃ v v', u = v ++ v' ∧ (∃ x, (CharClass.lit c).holds x = true ∧ v = [x]) ∧
      Accepts (Regex.word text) _ v' w) ↔ _
    simp only [ih]
    constructor
    · rintro ⟨v, v', rfl, ⟨x, hx, rfl⟩, rfl⟩
      rw [of_decide_eq_true hx, List.singleton_append]
    · intro hu
      exact ⟨[c], text, hu, ⟨c, decide_eq_true rfl, rfl⟩, rfl⟩

theorem accepts_oneOf {texts : List (List Char)} {u w : List Char} {s : Bool} :
    Accepts (Regex.oneOf texts) s u w ↔ u ∈ texts := by
  induction texts with
  | nil =>
    rw [Regex.oneOf]
    refine ⟨fun ⟨x, hx, _⟩ => ?_, fun hu => absurd hu List.not_mem_nil⟩
    simp [CharClass.holds] at hx
  | cons text texts ih =>
    cases texts with
    | nil => rw [Regex.oneOf, accepts_word, List.mem_singleton]
    | cons text' texts =>
      rw [Regex.oneOf, List.mem_cons, ← ih]
      · exact or_congr_left accepts_word
      · simp

/-! ### The matcher finds what is accepted -/

theorem mem_starRun_iff {c : CharClass} {text u w : List Char} :
    (∃ m ∈ starRun c text, m.taken = u ∧ m.rest = w) ↔
      text = u ++ w ∧ ∀ x ∈ u, c.holds x = true := by
  induction text generalizing u with
  | nil =>
    rw [starRun]
    constructor
    · rintro ⟨m, hm, rfl, rfl⟩
      rw [List.mem_singleton.mp hm]
      exact ⟨rfl, by simp [Match.nothing]⟩
    · rintro ⟨htext, _⟩
      obtain ⟨rfl, rfl⟩ := List.append_eq_nil_iff.mp htext.symm
      exact ⟨_, List.mem_singleton_self _, rfl, rfl⟩
  | cons x text ih =>
    constructor
    · rintro ⟨m, hm, rfl, rfl⟩
      by_cases hx : c.holds x = true
      · rw [starRun, if_pos hx, List.mem_append, List.mem_map, List.mem_singleton] at hm
        rcases hm with ⟨n, hn, rfl⟩ | rfl
        · obtain ⟨htext, hall⟩ := ih.mp ⟨n, hn, rfl, rfl⟩
          exact ⟨congrArg (x :: ·) htext, List.forall_mem_cons.mpr ⟨hx, hall⟩⟩
        · exact ⟨rfl, by simp [Match.nothing]⟩
      · rw [starRun, if_neg hx, List.mem_singleton] at hm
        subst hm
        exact ⟨rfl, by simp [Match.nothing]⟩
    · rintro ⟨htext, hall⟩
      cases u with
      | nil =>
        refine ⟨Match.nothing (x :: text), ?_, rfl, htext⟩
        rw [starRun]
        split_ifs
        · exact List.mem_append_right _ (List.mem_singleton_self _)
        · exact List.mem_singleton_self _
      | cons y u =>
        obtain ⟨rfl, htail⟩ := List.cons_eq_cons.mp htext
        obtain ⟨hx, hrest⟩ := List.forall_mem_cons.mp hall
        obtain ⟨n, hn, rfl, rfl⟩ := ih.mpr ⟨htail, hrest⟩
        refine ⟨n.push x, ?_, rfl, rfl⟩
        rw [starRun, if_pos hx]
        exact List.mem_append_left _ (List.mem_map_of_mem hn)

private theorem mem_nothing_iff {text u w : List Char} :
    (∃ m ∈ [Match.nothing text], m.taken = u ∧ m.rest = w) ↔ text = u ++ w ∧ u = [] := by
  constructor
  · rintro ⟨m, hm, rfl, rfl⟩
    rw [List.mem_singleton.mp hm]
    exact ⟨rfl, rfl⟩
  · rintro ⟨rfl, rfl⟩
    exact ⟨_, List.mem_singleton_self _, rfl, rfl⟩

theorem mem_run_iff {r : Regex} {s : Bool} {text u w : List Char} :
    (∃ m ∈ run r s text, m.taken = u ∧ m.rest = w) ↔ text = u ++ w ∧ Accepts r s u w := by
  induction r generalizing s text u w with
  | empty => exact mem_nothing_iff
  | one c =>
    cases text with
    | nil =>
      refine ⟨fun ⟨m, hm, _⟩ => absurd hm List.not_mem_nil, ?_⟩
      rintro ⟨htext, x, _, rfl⟩
      exact absurd htext (List.cons_ne_nil x w).symm
    | cons y text =>
      constructor
      · rintro ⟨m, hm, rfl, rfl⟩
        rw [run] at hm
        split_ifs at hm with hy
        · rw [List.mem_singleton.mp hm]
          exact ⟨rfl, y, hy, rfl⟩
        · exact absurd hm List.not_mem_nil
      · rintro ⟨htext, x, hx, rfl⟩
        obtain ⟨rfl, rfl⟩ := List.cons_eq_cons.mp htext
        refine ⟨⟨[y], text, []⟩, ?_, rfl, rfl⟩
        rw [run, if_pos hx]
        exact List.mem_singleton_self _
  | star c => exact mem_starRun_iff
  | plus c =>
    cases text with
    | nil =>
      refine ⟨fun ⟨m, hm, _⟩ => absurd hm List.not_mem_nil, ?_⟩
      rintro ⟨htext, hu, _⟩
      exact absurd (List.append_eq_nil_iff.mp htext.symm).1 hu
    | cons y text =>
      constructor
      · rintro ⟨m, hm, rfl, rfl⟩
        rw [run] at hm
        split_ifs at hm with hy
        · obtain ⟨n, hn, rfl⟩ := List.mem_map.mp hm
          obtain ⟨htext, hall⟩ := mem_starRun_iff.mp ⟨n, hn, rfl, rfl⟩
          exact ⟨congrArg (y :: ·) htext, List.cons_ne_nil _ _,
            List.forall_mem_cons.mpr ⟨hy, hall⟩⟩
        · exact absurd hm List.not_mem_nil
      · rintro ⟨htext, hu, hall⟩
        cases u with
        | nil => exact absurd rfl hu
        | cons x u =>
          obtain ⟨rfl, htail⟩ := List.cons_eq_cons.mp htext
          obtain ⟨hx, hrest⟩ := List.forall_mem_cons.mp hall
          obtain ⟨n, hn, rfl, rfl⟩ := mem_starRun_iff.mpr ⟨htail, hrest⟩
          refine ⟨n.push y, ?_, rfl, rfl⟩
          rw [run, if_pos hx]
          exact List.mem_map_of_mem hn
  | seq first second ihFirst ihSecond =>
    constructor
    · rintro ⟨m, hm, rfl, rfl⟩
      rw [run, List.mem_flatMap] at hm
      obtain ⟨m₁, hm₁, hm⟩ := hm
      obtain ⟨m₂, hm₂, rfl⟩ := List.mem_map.mp hm
      obtain ⟨htext, hfirst⟩ := ihFirst.mp ⟨m₁, hm₁, rfl, rfl⟩
      obtain ⟨hrest, hsecond⟩ := ihSecond.mp ⟨m₂, hm₂, rfl, rfl⟩
      rw [hrest] at htext hfirst
      exact ⟨by rw [htext]; exact (List.append_assoc _ _ _).symm, m₁.taken, m₂.taken, rfl,
        hfirst, hsecond⟩
    · rintro ⟨rfl, v, v', rfl, hfirst, hsecond⟩
      obtain ⟨m₁, hm₁, rfl, hrest⟩ := ihFirst.mpr ⟨List.append_assoc v v' w, hfirst⟩
      obtain ⟨m₂, hm₂, rfl, rfl⟩ := ihSecond.mpr ⟨rfl, hsecond⟩
      refine ⟨m₁.append m₂, ?_, rfl, rfl⟩
      rw [run, List.mem_flatMap]
      refine ⟨m₁, hm₁, List.mem_map_of_mem ?_⟩
      rw [hrest]
      exact hm₂
  | alt first second ihFirst ihSecond =>
    rw [run, Accepts, and_or_left, ← ihFirst, ← ihSecond]
    simp only [List.mem_append, or_and_right, exists_or]
  | maybe r ih =>
    rw [run, Accepts, and_or_left, ← ih, ← mem_nothing_iff]
    simp only [List.mem_append, or_and_right, exists_or]
  | group number r ih =>
    rw [run, Accepts, ← ih]
    simp only [List.mem_map, exists_exists_and_eq_and, Match.capture]
  | start =>
    rw [run]
    split_ifs with hs
    · rw [mem_nothing_iff, Accepts, and_iff_left hs]
    · refine ⟨fun ⟨m, hm, _⟩ => absurd hm List.not_mem_nil, fun ⟨_, _, h⟩ => absurd h hs⟩
  | finish =>
    rw [run]
    split_ifs with htext
    · rw [mem_nothing_iff, Accepts]
      refine ⟨fun ⟨h, hu⟩ => ⟨h, hu, ?_⟩, fun ⟨h, hu, _⟩ => ⟨h, hu⟩⟩
      rw [htext, hu] at h
      exact h.symm
    · refine ⟨fun ⟨m, hm, _⟩ => absurd hm List.not_mem_nil, ?_⟩
      rintro ⟨h, rfl, rfl⟩
      exact absurd h htext

/-- A match takes a part of the text that the pattern accepts. -/
theorem accepts_of_mem_run {r : Regex} {s : Bool} {text : List Char} {m : Match}
    (hm : m ∈ run r s text) : text = m.taken ++ m.rest ∧ Accepts r s m.taken m.rest :=
  mem_run_iff.mp ⟨m, hm, rfl, rfl⟩

theorem run_ne_nil {r : Regex} {s : Bool} {u w : List Char} (haccepts : Accepts r s u w) :
    run r s (u ++ w) ≠ [] := by
  obtain ⟨m, hm, _⟩ := mem_run_iff.mpr ⟨rfl, haccepts⟩
  exact List.ne_nil_of_mem hm

theorem fullMatch_iff {r : Regex} {text : List Char} :
    fullMatch r text = true ↔ Accepts r true text [] := by
  rw [fullMatch, List.any_eq_true]
  constructor
  · rintro ⟨m, hm, hrest⟩
    obtain ⟨htext, haccepts⟩ := accepts_of_mem_run hm
    rw [List.isEmpty_iff.mp hrest] at htext haccepts
    rw [htext, List.append_nil]
    exact haccepts
  · intro haccepts
    obtain ⟨m, hm, _, hrest⟩ := mem_run_iff.mpr ⟨(List.append_nil text).symm, haccepts⟩
    exact ⟨m, hm, by rw [hrest]; rfl⟩

/-- A pattern accepts somewhere in a text. -/
def AcceptsAt (r : Regex) (s : Bool) (before u w : List Char) : Prop :=
  Accepts r (s && before.isEmpty) u w

theorem searchFrom_eq_none_iff {r : Regex} {s : Bool} {text : List Char} :
    searchFrom r s text = none ↔
      ∀ before u w, text = before ++ (u ++ w) → ¬ AcceptsAt r s before u w := by
  induction text generalizing s with
  | nil =>
    rw [searchFrom, Option.map_eq_none_iff, List.head?_eq_none_iff]
    constructor
    · intro hrun before u w htext haccepts
      obtain ⟨rfl, hrest⟩ := List.append_eq_nil_iff.mp htext.symm
      refine run_ne_nil haccepts ?_
      rw [hrest, List.isEmpty_nil, Bool.and_true]
      exact hrun
    · intro hnone
      by_contra hrun
      obtain ⟨m, hm⟩ := List.exists_mem_of_ne_nil _ hrun
      obtain ⟨htext, haccepts⟩ := accepts_of_mem_run hm
      exact hnone [] _ _ htext (by rw [AcceptsAt, List.isEmpty_nil, Bool.and_true]; exact haccepts)
  | cons c text ih =>
    rw [searchFrom]
    split
    · rename_i m _ hrun
      obtain ⟨htext, haccepts⟩ := accepts_of_mem_run (hrun ▸ List.mem_cons_self)
      refine ⟨fun h => absurd h (Option.some_ne_none _), fun hnone => absurd ?_
        (hnone [] _ _ htext)⟩
      rw [AcceptsAt, List.isEmpty_nil, Bool.and_true]
      exact haccepts
    · rename_i hrun
      rw [Option.map_eq_none_iff, ih]
      constructor
      · intro hnone before u w htext haccepts
        cases before with
        | nil =>
          rw [AcceptsAt, List.isEmpty_nil, Bool.and_true] at haccepts
          rw [htext] at hrun
          exact run_ne_nil haccepts hrun
        | cons d before =>
          obtain ⟨rfl, htail⟩ := List.cons_eq_cons.mp htext
          refine hnone before u w htail ?_
          rw [AcceptsAt, List.isEmpty_cons, Bool.and_false] at haccepts
          exact haccepts
      · intro hnone before u w htext haccepts
        refine hnone (c :: before) u w (congrArg (c :: ·) htext) ?_
        rw [AcceptsAt, List.isEmpty_cons, Bool.and_false]
        exact haccepts

/-- What is found is accepted where it stands, is the first match there, and nothing is accepted
further left. -/
theorem searchFrom_eq_some {r : Regex} {s : Bool} {text before : List Char} {m : Match}
    (hfound : searchFrom r s text = some (before, m)) :
    text = before ++ (m.taken ++ m.rest) ∧
      m ∈ run r (s && before.isEmpty) (m.taken ++ m.rest) ∧
      ∀ before' u w, text = before' ++ (u ++ w) → AcceptsAt r s before' u w →
        before.length ≤ before'.length := by
  induction text generalizing s before with
  | nil =>
    rw [searchFrom, Option.map_eq_some_iff] at hfound
    obtain ⟨n, hn, heq⟩ := hfound
    obtain ⟨rfl, rfl⟩ := Prod.mk.inj heq
    have hmem : n ∈ run r s [] := List.mem_of_mem_head? hn
    have htext := (accepts_of_mem_run hmem).1
    refine ⟨htext, ?_, fun _ _ _ _ _ => Nat.zero_le _⟩
    rw [← htext, List.isEmpty_nil, Bool.and_true]
    exact hmem
  | cons c text ih =>
    rw [searchFrom] at hfound
    split at hfound
    · rename_i n _ hrun
      obtain ⟨rfl, rfl⟩ := Prod.mk.inj (Option.some.inj hfound)
      have hmem : n ∈ run r s (c :: text) := hrun ▸ List.mem_cons_self
      have htext := (accepts_of_mem_run hmem).1
      refine ⟨htext, ?_, fun _ _ _ _ _ => Nat.zero_le _⟩
      rw [← htext, List.isEmpty_nil, Bool.and_true]
      exact hmem
    · rename_i hrun
      obtain ⟨⟨before₀, n⟩, hrec, heq⟩ := Option.map_eq_some_iff.mp hfound
      obtain ⟨rfl, rfl⟩ := Prod.mk.inj heq
      obtain ⟨htext, hmem, hleft⟩ := ih hrec
      refine ⟨congrArg (c :: ·) htext, ?_, ?_⟩
      · rw [List.isEmpty_cons, Bool.and_false]
        exact hmem
      · intro before' u w htext' haccepts
        cases before' with
        | nil =>
          rw [AcceptsAt, List.isEmpty_nil, Bool.and_true] at haccepts
          exact absurd hrun (by rw [htext', List.nil_append]; exact run_ne_nil haccepts)
        | cons d before' =>
          obtain ⟨rfl, htail⟩ := List.cons_eq_cons.mp htext'
          rw [AcceptsAt, List.isEmpty_cons, Bool.and_false] at haccepts
          exact Nat.succ_le_succ (hleft before' u w htail haccepts)

theorem search_isSome_iff {r : Regex} {text : List Char} : (search r text).isSome = true ↔
    ∃ before u w, text = before ++ (u ++ w) ∧ AcceptsAt r true before u w := by
  rw [← Option.ne_none_iff_isSome, Ne, search, searchFrom_eq_none_iff]
  push Not
  rfl

/-- A replacement changes nothing, or takes out the leftmost part that is accepted. -/
theorem replaceFirst_cases (r : Regex) (by' text : List Char) :
    (replaceFirst r by' text = text ∧
      ∀ before u w, text = before ++ (u ++ w) → ¬ AcceptsAt r true before u w) ∨
    ∃ before u w, text = before ++ (u ++ w) ∧ AcceptsAt r true before u w ∧
      (∀ before' u' w', text = before' ++ (u' ++ w') → AcceptsAt r true before' u' w' →
        before.length ≤ before'.length) ∧
      replaceFirst r by' text = before ++ by' ++ w := by
  unfold replaceFirst search
  rcases hsearch : searchFrom r true text with _ | ⟨before, m⟩
  · exact .inl ⟨rfl, searchFrom_eq_none_iff.mp hsearch⟩
  · obtain ⟨htext, hmem, hleft⟩ := searchFrom_eq_some hsearch
    exact .inr ⟨before, m.taken, m.rest, htext, (accepts_of_mem_run hmem).2, hleft, rfl⟩

theorem length_replaceFirst_nil_le (r : Regex) (text : List Char) :
    (replaceFirst r [] text).length ≤ text.length := by
  rcases replaceFirst_cases r [] text with ⟨hsame, -⟩ | ⟨before, part, rest, htext, -, -, hreplaced⟩
  · rw [hsame]
  · rw [hreplaced, htext, List.append_nil, List.length_append, List.length_append,
      List.length_append]
    omega

theorem replaceFirst_eq_self {r : Regex} {by' text : List Char}
    (hnone : ∀ before u w, text = before ++ (u ++ w) → ¬ AcceptsAt r true before u w) :
    replaceFirst r by' text = text := by
  rw [replaceFirst, search, searchFrom_eq_none_iff.mpr hnone]

/-! ### Anchored patterns -/

section

variable {r : Regex} {texts : List (List Char)}
  (haccepts : ∀ s u w, Accepts r s u w ↔ s = true ∧ u ∈ texts)

include haccepts

theorem acceptsAt_anchored_iff {before u w : List Char} :
    AcceptsAt r true before u w ↔ before = [] ∧ u ∈ texts := by
  rw [AcceptsAt, haccepts, Bool.true_and, List.isEmpty_iff]

theorem replaceFirst_anchored_eq_self {by' text : List Char} (htext : ∀ u ∈ texts, ¬ u <+: text) :
    replaceFirst r by' text = text := by
  refine replaceFirst_eq_self fun before u w hsplit hmatch => ?_
  obtain ⟨rfl, hu⟩ := (acceptsAt_anchored_iff haccepts).mp hmatch
  exact htext u hu ⟨w, hsplit.symm⟩

theorem replaceFirst_anchored_append (hfree : ∀ u ∈ texts, ∀ v ∈ texts, u <+: v → u = v)
    {by' u rest : List Char} (hu : u ∈ texts) : replaceFirst r by' (u ++ rest) = by' ++ rest := by
  rcases replaceFirst_cases r by' (u ++ rest) with ⟨-, hnone⟩ |
    ⟨before, v, w, hsplit, hmatch, -, hreplaced⟩
  · exact absurd ((acceptsAt_anchored_iff haccepts).mpr ⟨rfl, hu⟩) (hnone [] u rest rfl)
  · obtain ⟨rfl, hv⟩ := (acceptsAt_anchored_iff haccepts).mp hmatch
    have hsame : u = v := by
      rcases List.prefix_or_prefix_of_prefix (List.prefix_append u rest)
        (⟨w, hsplit.symm⟩ : v <+: u ++ rest) with h | h
      · exact hfree u hu v hv h
      · exact (hfree v hv u hu h).symm
    rw [← hsame, List.nil_append] at hsplit
    rw [hreplaced, List.nil_append, List.append_cancel_left hsplit]

end

@[simp]
theorem groups_word (text : List Char) : (Regex.word text).groups = [] := by
  induction text with
  | nil => rfl
  | cons c text ih => exact ih

@[simp]
theorem groups_oneOf (texts : List (List Char)) : (Regex.oneOf texts).groups = [] := by
  fun_induction Regex.oneOf texts with
  | case1 => rfl
  | case2 text => exact groups_word text
  | case3 text texts _ ih => rw [Regex.groups, groups_word, ih, List.nil_append]

theorem captures_of_mem_starRun {c : CharClass} {text : List Char} {m : Match}
    (hm : m ∈ starRun c text) : m.captures = [] := by
  induction text generalizing m with
  | nil => rw [List.mem_singleton.mp hm, Match.nothing]
  | cons x text ih =>
    rw [starRun] at hm
    split_ifs at hm
    · rcases List.mem_append.mp hm with hm | hm
      · obtain ⟨n, hn, rfl⟩ := List.mem_map.mp hm
        exact (ih hn : n.captures = [])
      · rw [List.mem_singleton.mp hm, Match.nothing]
    · rw [List.mem_singleton.mp hm, Match.nothing]

/-- What a group took is accepted by what stands between its parentheses. -/
theorem accepts_of_mem_captures {r : Regex} {s : Bool} {text : List Char} {m : Match}
    (hm : m ∈ run r s text) {number : ℕ} {g : List Char} (hg : (number, g) ∈ m.captures) :
    ∃ body, (number, body) ∈ r.groups ∧ ∃ s' w, Accepts body s' g w := by
  have hnothing : ∀ {text}, m ∈ [Match.nothing text] → m.captures = [] := fun h => by
    rw [List.mem_singleton.mp h, Match.nothing]
  have hempty : m.captures = [] → False := fun h => List.not_mem_nil (h ▸ hg)
  induction r generalizing s text m with
  | empty => exact (hempty (hnothing hm)).elim
  | one c =>
    cases text with
    | nil => exact absurd hm List.not_mem_nil
    | cons x text =>
      rw [run] at hm
      split_ifs at hm
      · rw [List.mem_singleton.mp hm] at hempty
        exact (hempty rfl).elim
      · exact absurd hm List.not_mem_nil
  | star c => exact (hempty (captures_of_mem_starRun hm)).elim
  | plus c =>
    cases text with
    | nil => exact absurd hm List.not_mem_nil
    | cons x text =>
      rw [run] at hm
      split_ifs at hm
      · obtain ⟨n, hn, rfl⟩ := List.mem_map.mp hm
        exact (hempty (captures_of_mem_starRun hn : n.captures = [])).elim
      · exact absurd hm List.not_mem_nil
  | seq first second ihFirst ihSecond =>
    rw [run, List.mem_flatMap] at hm
    obtain ⟨m₁, hm₁, hm⟩ := hm
    obtain ⟨m₂, hm₂, rfl⟩ := List.mem_map.mp hm
    rcases List.mem_append.mp hg with hg | hg
    · obtain ⟨body, hbody, haccepts⟩ := ihFirst hm₁ hg (fun h => by
        rw [List.mem_singleton.mp h, Match.nothing]) (fun h => List.not_mem_nil (h ▸ hg))
      exact ⟨body, List.mem_append_left _ hbody, haccepts⟩
    · obtain ⟨body, hbody, haccepts⟩ := ihSecond hm₂ hg (fun h => by
        rw [List.mem_singleton.mp h, Match.nothing]) (fun h => List.not_mem_nil (h ▸ hg))
      exact ⟨body, List.mem_append_right _ hbody, haccepts⟩
  | alt first second ihFirst ihSecond =>
    rcases List.mem_append.mp hm with hm | hm
    · obtain ⟨body, hbody, haccepts⟩ := ihFirst hm hg hnothing hempty
      exact ⟨body, List.mem_append_left _ hbody, haccepts⟩
    · obtain ⟨body, hbody, haccepts⟩ := ihSecond hm hg hnothing hempty
      exact ⟨body, List.mem_append_right _ hbody, haccepts⟩
  | maybe r ih =>
    rcases List.mem_append.mp hm with hm | hm
    · exact ih hm hg hnothing hempty
    · exact (hempty (hnothing hm)).elim
  | group n r ih =>
    obtain ⟨m', hm', rfl⟩ := List.mem_map.mp hm
    rcases List.mem_cons.mp hg with heq | hg
    · obtain ⟨rfl, rfl⟩ := Prod.mk.inj heq
      exact ⟨r, List.mem_cons_self, s, m'.rest, (accepts_of_mem_run hm').2⟩
    · obtain ⟨body, hbody, haccepts⟩ := ih hm' hg (fun h => by
        rw [List.mem_singleton.mp h, Match.nothing]) (fun h => List.not_mem_nil (h ▸ hg))
      exact ⟨body, List.mem_cons_of_mem _ hbody, haccepts⟩
  | start =>
    rw [run] at hm
    split_ifs at hm
    · exact (hempty (hnothing hm)).elim
    · exact absurd hm List.not_mem_nil
  | finish =>
    rw [run] at hm
    split_ifs at hm
    · exact (hempty (hnothing hm)).elim
    · exact absurd hm List.not_mem_nil

/-- A group whose body accepts no empty text is absent when nothing is extracted, and is else
what is extracted. -/
theorem captured_eq_ite {r : Regex} {number : ℕ} {text : List Char}
    (hbody : ∀ body, (number, body) ∈ r.groups → ∀ s w, ¬ Accepts body s [] w) :
    captured r number text = if extract r number text = [] then none
      else some (extract r number text) := by
  rw [extract]
  rcases hcaptured : captured r number text with _ | g
  · rfl
  · rw [captured, Option.bind_eq_some_iff] at hcaptured
    obtain ⟨⟨before, m⟩, hsearch, hlookup⟩ := hcaptured
    obtain ⟨captures, captures', hcaptures, _⟩ := List.lookup_eq_some_iff.mp hlookup
    have hmem : (number, g) ∈ m.captures := hcaptures ▸ List.mem_append_right _ List.mem_cons_self
    obtain ⟨body, hgroup, s', w, haccepts⟩ :=
      accepts_of_mem_captures (searchFrom_eq_some hsearch).2.1 hmem
    have hne : g ≠ [] := fun h => hbody body hgroup s' w (h ▸ haccepts)
    rw [Option.getD_some, if_neg hne]

end EntityResolution.Patterns
