/-
# Domains

The match key of a domain: what stands in a web address between its scheme with a `www.` and its
path, without the dots at its end. The parts of an address are stated apart from the patterns
that cut them off.
-/

import Mathlib
import EntityResolution.Standardize.Texts

namespace EntityResolution.Standardize

open Patterns

variable {u : Unicode}

/-- `^https?://` -/
def schemePattern : Regex :=
  .seq .start (.seq (.word "http".toList) (.seq (.maybe (.one (.lit 's'))) (.word "://".toList)))

/-- `^www[.]` -/
def wwwPattern : Regex := .seq .start (.seq (.word "www".toList) (.one (.among [.char '.'])))

/-- The beginning of a path or a query. -/
def pathStart : CharClass := .among [.char '/', .char '?']

/-- `[/?].*$` -/
def pathPattern : Regex := .seq (.one pathStart) (.seq (.star .any) .finish)

/-- `[.]+$` -/
def dotsPattern : Regex := .seq (.plus (.among [.char '.'])) .finish

example : schemePattern.text = "^https?://".toList ∧ wwwPattern.text = "^www[.]".toList ∧
    pathPattern.text = "[/?].*$".toList ∧ dotsPattern.text = "[.]+$".toList := by decide

/-- The match key of a domain. -/
def domainNorm (u : Unicode) (col : Option (List Char)) : Option (List Char) :=
  let lowered := lowercaseTrim u col
  let noscheme := regexpReplace schemePattern [] lowered
  let nowww := regexpReplace wwwPattern [] noscheme
  let nopath := regexpReplace pathPattern [] nowww
  let notrail := regexpReplace dotsPattern [] nopath
  nullSemantics u (nullif notrail [])

/-- What the four replacements leave of a text. -/
def bareHost (text : List Char) : List Char :=
  replaceFirst dotsPattern [] (replaceFirst pathPattern []
    (replaceFirst wwwPattern [] (replaceFirst schemePattern [] text)))

theorem domainNorm_eq (col : Option (List Char)) : domainNorm u col =
    nullSemantics u (nullif ((lowercaseTrim u col).map bareHost) []) := by
  rw [domainNorm, regexpReplace, regexpReplace, regexpReplace, regexpReplace, Option.map_map,
    Option.map_map, Option.map_map]
  rfl

/-- The schemes that are cut off. -/
def schemes : List (List Char) := ["http://".toList, "https://".toList]

theorem accepts_schemePattern {b : Bool} {part rest : List Char} :
    Accepts schemePattern b part rest ↔ b = true ∧ part ∈ schemes := by
  constructor
  · rintro ⟨_, _, rfl, ⟨rfl, rfl⟩, http, _, rfl, hhttp, s, slashes, rfl, hs, hslashes⟩
    rw [accepts_word] at hhttp hslashes
    subst hhttp hslashes
    refine ⟨rfl, ?_⟩
    rcases hs with ⟨c, hc, rfl⟩ | rfl
    · obtain rfl : c = 's' := of_decide_eq_true hc
      exact List.mem_cons_of_mem _ List.mem_cons_self
    · exact List.mem_cons_self
  · rintro ⟨rfl, hpart⟩
    rcases List.mem_cons.mp hpart with rfl | hpart
    · exact ⟨[], _, rfl, ⟨rfl, rfl⟩, "http".toList, _, rfl, accepts_word.mpr rfl, [],
        "://".toList, rfl, .inr rfl, accepts_word.mpr rfl⟩
    · obtain rfl := List.mem_singleton.mp hpart
      exact ⟨[], _, rfl, ⟨rfl, rfl⟩, "http".toList, _, rfl, accepts_word.mpr rfl, ['s'],
        "://".toList, rfl, .inl ⟨'s', rfl, rfl⟩, accepts_word.mpr rfl⟩

theorem accepts_wwwPattern {b : Bool} {part rest : List Char} :
    Accepts wwwPattern b part rest ↔ b = true ∧ part ∈ ["www.".toList] := by
  constructor
  · rintro ⟨_, _, rfl, ⟨rfl, rfl⟩, www, _, rfl, hwww, c, hc, rfl⟩
    obtain rfl : c = '.' := by simpa [CharClass.holds, Item.holds] using hc
    rw [accepts_word] at hwww
    subst hwww
    exact ⟨rfl, List.mem_singleton_self _⟩
  · rintro ⟨rfl, hpart⟩
    obtain rfl := List.mem_singleton.mp hpart
    exact ⟨[], _, rfl, ⟨rfl, rfl⟩, "www".toList, ['.'], rfl, accepts_word.mpr rfl, '.', rfl, rfl⟩

/-- A path or a query: it begins with its sign and goes to the end of the line. -/
def IsPath (part : List Char) : Prop :=
  ∃ c tail, part = c :: tail ∧ pathStart.holds c = true ∧ '\n' ∉ tail

theorem accepts_pathPattern {b : Bool} {part rest : List Char} :
    Accepts pathPattern b part rest ↔ IsPath part ∧ rest = [] := by
  have hany : ∀ tail : List Char, (∀ c ∈ tail, CharClass.any.holds c = true) ↔ '\n' ∉ tail := by
    intro tail
    simp only [CharClass.holds, decide_eq_true_eq]
    exact ⟨fun h hmem => h _ hmem rfl, fun h c hc heq => h (heq ▸ hc)⟩
  constructor
  · rintro ⟨_, _, rfl, ⟨c, hc, rfl⟩, tail, _, rfl, htail, rfl, rfl⟩
    exact ⟨⟨c, tail, by simp, hc, (hany tail).mp htail⟩, rfl⟩
  · rintro ⟨⟨c, tail, rfl, hc, htail⟩, rfl⟩
    exact ⟨[c], tail, rfl, ⟨c, hc, rfl⟩, tail, [], (List.append_nil tail).symm,
      (hany tail).mpr htail, rfl, rfl⟩

theorem accepts_dotsPattern {b : Bool} {part rest : List Char} :
    Accepts dotsPattern b part rest ↔ (part ≠ [] ∧ ∀ c ∈ part, c = '.') ∧ rest = [] := by
  have hdot : ∀ c, (CharClass.among [.char '.']).holds c = true ↔ c = '.' := by
    intro c
    simp [CharClass.holds, Item.holds]
  constructor
  · rintro ⟨dots, _, rfl, ⟨hne, hdots⟩, rfl, rfl⟩
    rw [List.append_nil]
    exact ⟨⟨hne, fun c hc => (hdot c).mp (hdots c hc)⟩, rfl⟩
  · rintro ⟨⟨hne, hdots⟩, rfl⟩
    exact ⟨part, [], (List.append_nil part).symm, ⟨hne, fun c hc => (hdot c).mpr (hdots c hc)⟩,
      rfl, rfl⟩

/-- The parts of a web address. -/
structure AddressParts where
  scheme : List Char
  www : List Char
  host : List Char
  dots : List Char
  path : List Char

namespace AddressParts

/-- An address without its scheme and its `www.`. -/
def rest (p : AddressParts) : List Char := (p.host ++ p.dots) ++ p.path

/-- The parts of a text: a scheme and then a `www.`, if it begins with them; a path from the first
sign of one on; and before it the host, without the dots at its end. -/
structure Of (text : List Char) (p : AddressParts) : Prop where
  text_eq : text = p.scheme ++ (p.www ++ p.rest)
  scheme : p.scheme ∈ schemes ∨ p.scheme = [] ∧ ∀ s ∈ schemes, ¬ s <+: text
  www : p.www = "www.".toList ∨ p.www = [] ∧ ¬ "www.".toList <+: p.rest
  path : p.path = [] ∨ IsPath p.path
  leftmost : ∀ before part, p.rest = before ++ part → IsPath part →
    (p.host ++ p.dots).length ≤ before.length
  dots : ∀ c ∈ p.dots, c = '.'
  host : p.host.getLast? ≠ some '.'

end AddressParts

theorem schemes_prefixFree : ∀ s ∈ schemes, ∀ t ∈ schemes, s <+: t → s = t := by decide

theorem replaceFirst_pathPattern {host path : List Char} (hpath : path = [] ∨ IsPath path)
    (hleftmost : ∀ before part, host ++ path = before ++ part → IsPath part →
      host.length ≤ before.length) : replaceFirst pathPattern [] (host ++ path) = host := by
  rcases replaceFirst_cases pathPattern [] (host ++ path) with ⟨hsame, hnone⟩ |
    ⟨before, part, rest, hsplit, haccepts, hleft, hreplaced⟩
  · rcases hpath with rfl | hpath
    · rw [hsame, List.append_nil]
    · exact absurd (accepts_pathPattern.mpr ⟨hpath, rfl⟩)
        (hnone host path [] (by rw [List.append_nil]))
  · obtain ⟨hpart, rfl⟩ := accepts_pathPattern.mp haccepts
    rw [List.append_nil] at hsplit
    have hle := hleftmost before part hsplit hpart
    have hge : before.length ≤ host.length := by
      rcases hpath with rfl | hpath
      · have hlength := congrArg List.length hsplit
        rw [List.append_nil, List.length_append] at hlength
        omega
      · exact hleft host path [] (by rw [List.append_nil])
          (accepts_pathPattern.mpr ⟨hpath, rfl⟩)
    rw [hreplaced, List.append_nil, List.append_nil]
    exact (List.append_inj_left hsplit (Nat.le_antisymm hle hge)).symm

theorem replaceFirst_dotsPattern {host dots : List Char} (hdots : ∀ c ∈ dots, c = '.')
    (hhost : host.getLast? ≠ some '.') : replaceFirst dotsPattern [] (host ++ dots) = host := by
  rcases replaceFirst_cases dotsPattern [] (host ++ dots) with ⟨hsame, hnone⟩ |
    ⟨before, part, rest, hsplit, haccepts, hleft, hreplaced⟩
  · by_cases hnil : dots = []
    · rw [hsame, hnil, List.append_nil]
    · exact absurd (accepts_dotsPattern.mpr ⟨⟨hnil, hdots⟩, rfl⟩)
        (hnone host dots [] (by rw [List.append_nil]))
  · obtain ⟨⟨hne, hpart⟩, rfl⟩ := accepts_dotsPattern.mp haccepts
    rw [List.append_nil] at hsplit
    -- The dots cannot begin before the end of the host.
    have hle : host.length ≤ before.length := by
      rcases List.append_eq_append_iff.mp hsplit with ⟨more, rfl, -⟩ | ⟨last, rfl, hlast⟩
      · rw [List.length_append]
        omega
      · by_cases hnil : last = []
        · rw [hnil, List.append_nil]
        · rw [List.getLast?_append_of_ne_nil _ hnil, List.getLast?_eq_some_getLast hnil,
            hpart (last.getLast hnil)
              (hlast ▸ List.mem_append_left _ (List.getLast_mem hnil))] at hhost
          exact absurd rfl hhost
    have hge : before.length ≤ host.length := by
      by_cases hnil : dots = []
      · have hlength := congrArg List.length hsplit
        rw [hnil, List.append_nil, List.length_append] at hlength
        omega
      · exact hleft host dots [] (by rw [List.append_nil])
          (accepts_dotsPattern.mpr ⟨⟨hnil, hdots⟩, rfl⟩)
    rw [hreplaced, List.append_nil, List.append_nil]
    exact (List.append_inj_left hsplit (Nat.le_antisymm hle hge)).symm

theorem AddressParts.Of.bareHost_eq {text : List Char} {p : AddressParts} (hp : p.Of text) :
    bareHost text = p.host := by
  have hscheme : replaceFirst schemePattern [] text = p.www ++ p.rest := by
    rcases hp.scheme with hmem | ⟨hnil, hnone⟩
    · rw [hp.text_eq]
      exact replaceFirst_anchored_append (fun _ _ _ => accepts_schemePattern)
        schemes_prefixFree hmem
    · have htext := hp.text_eq
      rw [hnil, List.nil_append] at htext
      rw [replaceFirst_anchored_eq_self (fun _ _ _ => accepts_schemePattern) hnone, htext]
  have hwww : replaceFirst wwwPattern [] (p.www ++ p.rest) = p.rest := by
    rcases hp.www with heq | ⟨hnil, hnone⟩
    · exact replaceFirst_anchored_append (fun _ _ _ => accepts_wwwPattern)
        (by decide) (List.mem_singleton.mpr heq)
    · rw [hnil, List.nil_append]
      exact replaceFirst_anchored_eq_self (fun _ _ _ => accepts_wwwPattern)
        (List.forall_mem_singleton.mpr hnone)
  rw [bareHost, hscheme, hwww, AddressParts.rest, replaceFirst_pathPattern hp.path hp.leftmost,
    replaceFirst_dotsPattern hp.dots hp.host]

theorem exists_host (rest : List Char) : ∃ host dots path, rest = (host ++ dots) ++ path ∧
    (path = [] ∨ IsPath path) ∧
    (∀ before part, rest = before ++ part → IsPath part → (host ++ dots).length ≤ before.length) ∧
    (∀ c ∈ dots, c = '.') ∧ host.getLast? ≠ some '.' := by
  have hpath : ∃ front path, rest = front ++ path ∧ (path = [] ∨ IsPath path) ∧
      ∀ before part, rest = before ++ part → IsPath part → front.length ≤ before.length := by
    have haccepts : ∀ before part, IsPath part → AcceptsAt pathPattern true before part [] :=
      fun _ _ hpart => accepts_pathPattern.mpr ⟨hpart, rfl⟩
    rcases replaceFirst_cases pathPattern [] rest with ⟨-, hnone⟩ |
      ⟨before, part, tail, hsplit, hfound, hleft, -⟩
    · refine ⟨rest, [], (List.append_nil rest).symm, .inl rfl, fun before part heq hpart => ?_⟩
      exact absurd (haccepts before part hpart)
        (hnone before part [] (by rw [List.append_nil, heq]))
    · obtain ⟨hpart, rfl⟩ := accepts_pathPattern.mp hfound
      refine ⟨before, part, by rw [hsplit, List.append_nil], .inr hpart, fun _ _ heq hpart' => ?_⟩
      exact hleft _ _ [] (by rw [List.append_nil, heq]) (haccepts _ _ hpart')
  obtain ⟨front, path, hsplit, hpath, hleftmost⟩ := hpath
  refine ⟨front.rdropWhile (· = '.'), front.rtakeWhile (· = '.'), path, ?_, hpath, ?_, ?_, ?_⟩
  · rw [List.rdropWhile_append_rtakeWhile, hsplit]
  · rw [List.rdropWhile_append_rtakeWhile]
    exact hleftmost
  · exact fun c hc => by simpa using List.mem_rtakeWhile_imp hc
  · intro hlast
    obtain ⟨init, hinit⟩ := List.getLast?_eq_some_iff.mp hlast
    have hne : front.rdropWhile (· = '.') ≠ [] := by
      rw [hinit]
      simp
    refine List.rdropWhile_last_not (· = '.') front hne (decide_eq_true ?_)
    simpa [List.getLast?_eq_some_getLast hne] using hlast

theorem exists_addressParts (text : List Char) : ∃ p : AddressParts, p.Of text := by
  have hscheme : ∃ scheme rest, text = scheme ++ rest ∧
      (scheme ∈ schemes ∨ scheme = [] ∧ ∀ s ∈ schemes, ¬ s <+: text) := by
    by_cases hscheme : ∃ s ∈ schemes, s <+: text
    · obtain ⟨s, hs, rest, rfl⟩ := hscheme
      exact ⟨s, rest, rfl, .inl hs⟩
    · exact ⟨[], text, rfl, .inr ⟨rfl, fun s hs hprefix => hscheme ⟨s, hs, hprefix⟩⟩⟩
  obtain ⟨scheme, afterScheme, htext, hscheme⟩ := hscheme
  have hwww : ∃ www rest, afterScheme = www ++ rest ∧
      (www = "www.".toList ∨ www = [] ∧ ¬ "www.".toList <+: rest) := by
    by_cases hwww : "www.".toList <+: afterScheme
    · obtain ⟨rest, rfl⟩ := hwww
      exact ⟨_, rest, rfl, .inl rfl⟩
    · exact ⟨[], afterScheme, rfl, .inr ⟨rfl, hwww⟩⟩
  obtain ⟨www, rest, hafter, hwww⟩ := hwww
  obtain ⟨host, dots, path, hrest, hpath, hleftmost, hdots, hhost⟩ := exists_host rest
  have hparts : (AddressParts.mk scheme www host dots path).rest = rest := hrest.symm
  exact ⟨⟨scheme, www, host, dots, path⟩, by rw [hparts, htext, hafter], hscheme,
    by rw [hparts]; exact hwww, hpath, by rw [hparts]; exact hleftmost, hdots, hhost⟩

/-! ## Standardizing again -/

theorem length_bareHost_le (text : List Char) : (bareHost text).length ≤ text.length :=
  (length_replaceFirst_nil_le _ _).trans ((length_replaceFirst_nil_le _ _).trans
    ((length_replaceFirst_nil_le _ _).trans (length_replaceFirst_nil_le _ _)))

theorem AddressParts.Of.not_isPath {text : List Char} {p : AddressParts} (hp : p.Of text)
    {before part : List Char} (hsplit : p.host = before ++ part) : ¬ IsPath part := by
  rintro ⟨c, tail, rfl, hc, htail⟩
  have hdots : '\n' ∉ p.dots := fun h => absurd (hp.dots _ h) (by decide)
  have hpath : '\n' ∉ p.path := by
    rcases hp.path with hnil | ⟨d, rest, heq, hd, hrest⟩
    · rw [hnil]
      exact List.not_mem_nil
    · rw [heq, List.mem_cons, not_or]
      refine ⟨?_, hrest⟩
      rintro rfl
      exact absurd hd (by decide)
  -- Followed by the dots and the path it would be a path that begins before them.
  have hlonger : IsPath (c :: (tail ++ p.dots ++ p.path)) := by
    refine ⟨c, _, rfl, hc, ?_⟩
    rw [List.mem_append, List.mem_append, not_or, not_or]
    exact ⟨⟨htail, hdots⟩, hpath⟩
  have hlength := hp.leftmost before _ (by rw [AddressParts.rest, hsplit]; simp) hlonger
  rw [hsplit, List.length_append, List.length_append, List.length_cons] at hlength
  omega

theorem AddressParts.Of.bareHost_host_iff {text : List Char} {p : AddressParts} (hp : p.Of text) :
    bareHost p.host = p.host ↔
      (∀ s ∈ schemes, ¬ s <+: p.host) ∧ ¬ "www.".toList <+: p.host := by
  constructor
  · intro hself
    have hlength := congrArg List.length hself
    have hscheme : ∀ s ∈ schemes, ¬ s <+: p.host := by
      rintro s hs ⟨rest, hrest⟩
      have hcut : replaceFirst schemePattern [] p.host = rest := by
        rw [← hrest]
        exact replaceFirst_anchored_append (fun _ _ _ => accepts_schemePattern)
          schemes_prefixFree hs
      have hle : (bareHost p.host).length ≤ rest.length := by
        rw [bareHost, hcut]
        exact (length_replaceFirst_nil_le _ _).trans ((length_replaceFirst_nil_le _ _).trans
          (length_replaceFirst_nil_le _ _))
      have hpos : ∀ s ∈ schemes, 0 < s.length := by decide
      have hs := hpos s hs
      rw [← hrest, List.length_append] at hlength
      rw [← hrest] at hle
      omega
    refine ⟨hscheme, ?_⟩
    rintro ⟨rest, hrest⟩
    have hcut : replaceFirst wwwPattern [] p.host = rest := by
      rw [← hrest]
      exact replaceFirst_anchored_append (fun _ _ _ => accepts_wwwPattern) (by decide)
        (List.mem_singleton_self _)
    have hle : (bareHost p.host).length ≤ rest.length := by
      rw [bareHost, replaceFirst_anchored_eq_self (fun _ _ _ => accepts_schemePattern) hscheme,
        hcut]
      exact (length_replaceFirst_nil_le _ _).trans (length_replaceFirst_nil_le _ _)
    have hpos : 0 < "www.".toList.length := by decide
    rw [← hrest, List.length_append] at hlength
    rw [← hrest] at hle
    omega
  · rintro ⟨hscheme, hwww⟩
    have hself : AddressParts.Of p.host ⟨[], [], p.host, [], []⟩ :=
      ⟨by simp [AddressParts.rest], .inr ⟨rfl, hscheme⟩,
        .inr ⟨rfl, by simpa [AddressParts.rest] using hwww⟩, .inl rfl,
        fun before part hsplit hpart =>
          absurd hpart (hp.not_isPath (by simpa [AddressParts.rest] using hsplit)),
        List.forall_mem_nil _, hp.host⟩
    exact hself.bareHost_eq

theorem AddressParts.Of.host_isInfix {text : List Char} {p : AddressParts} (hp : p.Of text) :
    p.host <:+: text :=
  ⟨p.scheme ++ p.www, p.dots ++ p.path, by rw [hp.text_eq, AddressParts.rest]; simp⟩

/-- What is present of a lower text, which is not trimmed. -/
theorem nullSemantics_of_isLower {text : List Char} (hlower : ∀ c ∈ text, u.IsLower c) :
    nullSemantics u (nullif (some text) []) =
      if trim text ∈ nullSentinels then none else some text := by
  have htrim : u.lower (trim text) = trim text :=
    u.lower_eq_self fun c hc => hlower c ((trim_isInfix _).subset hc)
  by_cases hempty : text = []
  · rw [hempty]
    rfl
  · have hpresent : nullif (some text) [] = some text := nullif_eq_some_iff.mpr ⟨rfl, hempty⟩
    rw [hpresent, nullSemantics, Option.bind_some, htrim]

/-- The key of a domain is stable exactly when its host stands for a missing value, or has no
space at its ends and begins with no scheme and no `www.`. -/
theorem domainNorm_stable_iff (u : Unicode) (text : List Char) :
    domainNorm u (domainNorm u (some text)) = domainNorm u (some text) ↔
      ∀ address, lowercaseTrim u (some text) = some address →
        ∀ p : AddressParts, p.Of address → trim p.host ∈ nullSentinels ∨
          (trim p.host = p.host ∧ (∀ s ∈ schemes, ¬ s <+: p.host) ∧
            ¬ "www.".toList <+: p.host) := by
  rcases hlowered : lowercaseTrim u (some text) with _ | address
  · have hnone : domainNorm u (some text) = none := by rw [domainNorm_eq, hlowered]; rfl
    rw [hnone]
    exact iff_of_true rfl fun _ h => absurd h.symm (Option.some_ne_none _)
  · obtain ⟨hnfc, hlower, -⟩ := of_lowercaseTrim hlowered
    obtain ⟨q, hq⟩ := exists_addressParts address
    have hforall : (∀ address', some address = some address' → ∀ p : AddressParts,
        p.Of address' → trim p.host ∈ nullSentinels ∨ (trim p.host = p.host ∧
          (∀ s ∈ schemes, ¬ s <+: p.host) ∧ ¬ "www.".toList <+: p.host)) ↔
        trim q.host ∈ nullSentinels ∨ (trim q.host = q.host ∧ bareHost q.host = q.host) := by
      constructor
      · intro h
        refine (h address rfl q hq).imp_right fun ⟨htrim, hstart⟩ => ⟨htrim, ?_⟩
        exact hq.bareHost_host_iff.mpr hstart
      · rintro h address' ⟨⟩ p hp
        have hhost : p.host = q.host := hp.bareHost_eq.symm.trans hq.bareHost_eq
        rw [← hhost] at h
        exact h.imp_right fun ⟨htrim, hself⟩ => ⟨htrim, hp.bareHost_host_iff.mp hself⟩
    rw [hforall]
    have hhostLower : ∀ c ∈ q.host, u.IsLower c := fun c hc => hlower c (hq.host_isInfix.subset hc)
    have hkey : domainNorm u (some text) =
        if trim q.host ∈ nullSentinels then none else some q.host := by
      rw [domainNorm_eq, hlowered, Option.map_some, hq.bareHost_eq,
        nullSemantics_of_isLower hhostLower]
    by_cases hsentinel : trim q.host ∈ nullSentinels
    · rw [hkey, if_pos hsentinel]
      exact iff_of_true rfl (.inl hsentinel)
    · rw [hkey, if_neg hsentinel, or_iff_right hsentinel]
      have hne : trim q.host ≠ [] := fun h => hsentinel (h ▸ List.mem_cons_self)
      -- The second time the host is trimmed first.
      have hagain : lowercaseTrim u (some q.host) = some (trim q.host) := by
        have hself : lowerTrim u q.host = trim q.host := by
          have htrimmed := u.isNfc_of_isInfix hnfc ((trim_isInfix q.host).trans hq.host_isInfix)
          rw [lowerTrim, u.isNfc_of_isInfix hnfc hq.host_isInfix,
            u.lower_eq_self fun c hc => hhostLower c ((trim_isInfix _).subset hc)]
          exact htrimmed
        rw [lowercaseTrim, Option.map_some, hself]
        exact nullif_eq_some_iff.mpr ⟨rfl, hne⟩
      rw [domainNorm_eq, hagain, Option.map_some]
      constructor
      · intro hstable
        have hself : bareHost (trim q.host) = q.host :=
          Option.some_inj.mp (eq_of_nullSemantics hstable)
        have hlength := length_bareHost_le (trim q.host)
        rw [hself] at hlength
        have htrim : trim q.host = q.host := (trim_isInfix q.host).eq_of_length_le hlength
        exact ⟨htrim, by rwa [htrim] at hself⟩
      · rintro ⟨htrim, hself⟩
        rw [htrim, hself, nullSemantics_of_isLower hhostLower, if_neg hsentinel]

end EntityResolution.Standardize
