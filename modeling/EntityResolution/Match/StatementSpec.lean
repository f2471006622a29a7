/-
# What each statement does

Every later argument reads the tables through `activeVerdict` and `scoredHash`. This module
says what each statement does to the two, once; nothing after it unfolds a table.

The two together are the view of one model identity. A statement acts on the view of each
identity by itself, so a sequence of statements is followed one identity at a time.
-/

import EntityResolution.Match.Passes

namespace EntityResolution.Match

open EntityResolution.Collections EntityResolution.Tables

universe u v w x y z

variable {K : Type u} {H : Type v} {Row : Type w} {S : Type x} {E : Type y} {I : Type z}
variable [LinearOrder K] [LinearOrder I]

theorem activeVerdict_eq_some_iff {lake : Lake K H S E I} {identity : I} {a b : K}
    {verdict : Verdict H S} :
    activeVerdict lake identity a b = some verdict ↔
      ∃ row, lake.matchScores[(⟨a, b, identity⟩ : ScoreKey K I)]? = some row ∧
        row.isActive = true ∧ row.verdict = verdict := by
  simp [activeVerdict, Option.map_eq_some_iff, Option.filter_eq_some_iff, and_assoc]

@[simp]
theorem activeVerdict_fresh (identity : I) (a b : K) :
    activeVerdict (Lake.fresh : Lake K H S E I) identity a b = none := by
  simp [activeVerdict, Lake.fresh]

@[simp]
theorem scoredHash_fresh (identity : I) (key : K) :
    scoredHash (Lake.fresh : Lake K H S E I) identity key = none := by
  simp [scoredHash, Lake.fresh]

/-- An update that deactivates rows takes away the verdicts of the active rows it hits. -/
theorem activeVerdict_deactivate (lake : Lake K H S E I)
    (hit : ScoreKey K I → MatchScore H S E → Bool) (stamp : RunStamp) (identity : I) (a b : K)
    (gone : Prop) [Decidable gone]
    (hhit : ∀ row : MatchScore H S E,
      lake.matchScores[(⟨a, b, identity⟩ : ScoreKey K I)]? = some row → row.isActive = true →
        (hit ⟨a, b, identity⟩ row = true ↔ gone)) :
    activeVerdict
        { lake with
          matchScores := updateWhere lake.matchScores hit (MatchScore.deactivate stamp) }
        identity a b =
      if gone then none else activeVerdict lake identity a b := by
  simp only [activeVerdict, getElem?_updateWhere]
  cases hrow : lake.matchScores[(⟨a, b, identity⟩ : ScoreKey K I)]? with
  | none => simp
  | some row =>
      by_cases hactive : row.isActive = true
      · by_cases hgone : gone
        · have hyes := (hhit row hrow hactive).mpr hgone
          simp [hyes, hgone, MatchScore.deactivate]
        · have hno : ¬ hit ⟨a, b, identity⟩ row = true := fun h =>
            hgone ((hhit row hrow hactive).mp h)
          simp [hno, hgone]
      · have hoff : (if hit ⟨a, b, identity⟩ row then row.deactivate stamp else row).isActive =
            false := by
          split
          · rfl
          · simpa using hactive
        simp [Option.filter, hoff, hactive]

theorem activeVerdict_retireOtherModels (live : List I) (stamp : RunStamp)
    (lake : Lake K H S E I) (identity : I) (a b : K) :
    activeVerdict (retireOtherModels live stamp lake) identity a b =
      if identity ∈ live then activeVerdict lake identity a b else none := by
  rw [retireOtherModels, activeVerdict_deactivate lake _ stamp identity a b (identity ∉ live)]
  · by_cases hlive : identity ∈ live <;> simp [hlive]
  · intro row _ hactive
    simp [retiredHit, hactive]

/-- An invalidation takes away the verdicts of its model that touch a stale record. -/
theorem activeVerdict_invalidate (identity : I) (scope : StaleScope K) (stamp : RunStamp)
    (lake : Lake K H S E I) (identity' : I) (a b : K) :
    activeVerdict (invalidateSupersededScores identity scope stamp lake) identity' a b =
      if identity' = identity ∧
          (a ∈ staleKeys identity lake scope ∨ b ∈ staleKeys identity lake scope) then none
      else activeVerdict lake identity' a b := by
  rw [invalidateSupersededScores]
  apply activeVerdict_deactivate
  intro row _ hactive
  simp [staleHit, hactive]

theorem mem_staleKeys_everyActive {identity : I} {lake : Lake K H S E I} {a b : K}
    {verdict : Verdict H S} (hactive : activeVerdict lake identity a b = some verdict) :
    a ∈ staleKeys identity lake .everyActive := by
  obtain ⟨row, hrow, hon, _⟩ := activeVerdict_eq_some_iff.mp hactive
  rw [staleKeys, List.mem_flatMap]
  refine ⟨⟨a, b, identity⟩, ?_, List.mem_cons_self⟩
  rw [BTreeMap.mem_keys, BTreeMap.mem_iff_exists_getElem?]
  refine ⟨row, ?_⟩
  rw [BTreeMap.getElem?_filter_eq, hrow]
  simp [hon]

/-- Invalidating every active score leaves the model none, and other models theirs. -/
theorem activeVerdict_invalidate_everyActive (identity : I) (stamp : RunStamp)
    (lake : Lake K H S E I) (identity' : I) (a b : K) :
    activeVerdict (invalidateSupersededScores identity .everyActive stamp lake) identity' a b =
      if identity' = identity then none else activeVerdict lake identity' a b := by
  rw [activeVerdict_invalidate]
  by_cases hidentity : identity' = identity
  · subst hidentity
    cases hactive : activeVerdict lake identity' a b with
    | none => simp
    | some verdict => simp [mem_staleKeys_everyActive hactive]
  · simp [hidentity]

/-- A staged score becomes the verdict of its pair. -/
theorem activeVerdict_upsertFromScored
    (source : BTreeMap (ScoreKey K I) (StagedScore H S E)) (stamp : RunStamp)
    (lake : Lake K H S E I) (identity : I) (a b : K) :
    activeVerdict (upsertFromScored source stamp lake) identity a b =
      (source[(⟨a, b, identity⟩ : ScoreKey K I)]?.map StagedScore.verdict).or
        (activeVerdict lake identity a b) := by
  simp only [activeVerdict, upsertFromScored, getElem?_mergeInto]
  cases source[(⟨a, b, identity⟩ : ScoreKey K I)]? with
  | none => rfl
  | some staged =>
      cases lake.matchScores[(⟨a, b, identity⟩ : ScoreKey K I)]? <;> rfl

theorem getElem?_scoredSource (identity : I) (scored : Corpus K H Row) (identity' : I) (key : K) :
    (scoredSource identity scored)[(⟨key, identity'⟩ : LedgerKey K I)]? =
      if identity' = identity then contentHash scored key else none := by
  have hnodup : ((scored.toList.map fun entry : K × StdRecord H Row =>
      ((⟨entry.1, identity⟩ : LedgerKey K I), entry.2.contentHash)).map Prod.fst).Nodup := by
    rw [List.map_map, List.Nodup, List.pairwise_map]
    apply (BTreeMap.toList_pairwise_lt scored).imp
    intro first second hlt hsame
    exact ne_of_lt hlt (congrArg LedgerKey.recordKey hsame)
  ext hash
  rw [scoredSource, BTreeMap.getElem?_ofList_eq_some_iff hnodup, List.mem_map]
  apply Iff.intro
  · rintro ⟨⟨entry, record⟩, hentry, hsame⟩
    have hrecord := BTreeMap.mem_toList.mp hentry
    cases hsame
    simp [contentHash, hrecord]
  · intro hsome
    split at hsome
    · rename_i hidentity
      subst hidentity
      obtain ⟨record, hrecord, rfl⟩ := Option.map_eq_some_iff.mp hsome
      exact ⟨(key, record), BTreeMap.mem_toList.mpr hrecord, rfl⟩
    · cases hsome

/-- The ledger claims the scored records under their present content hashes. -/
theorem scoredHash_upsertFromStd (identity : I) (scored : Corpus K H Row) (stamp : RunStamp)
    (lake : Lake K H S E I) (identity' : I) (key : K) :
    scoredHash (upsertFromStd identity scored stamp lake) identity' key =
      if identity' = identity then (contentHash scored key).or (scoredHash lake identity' key)
      else scoredHash lake identity' key := by
  simp only [scoredHash, upsertFromStd, getElem?_mergeInto, getElem?_scoredSource]
  by_cases hidentity : identity' = identity
  · simp only [hidentity, if_true]
    cases contentHash scored key with
    | none => simp
    | some hash =>
        cases lake.scoredRecords[(⟨key, identity⟩ : LedgerKey K I)]? <;> rfl
  · simp [hidentity]

theorem scoredHash_absentFromLiveModels (live : List I) (lake : Lake K H S E I) (identity : I)
    (key : K) :
    scoredHash (absentFromLiveModels live lake) identity key =
      if identity ∈ live then scoredHash lake identity key else none := by
  simp only [scoredHash, absentFromLiveModels, getElem?_deleteWhere]
  cases lake.scoredRecords[(⟨key, identity⟩ : LedgerKey K I)]? with
  | none => simp
  | some row => by_cases hlive : identity ∈ live <;> simp [hlive]

theorem scoredHash_absentFromStd (std : Corpus K H Row) (lake : Lake K H S E I) (identity : I)
    (key : K) :
    scoredHash (absentFromStd std lake) identity key =
      if key ∈ std then scoredHash lake identity key else none := by
  simp only [scoredHash, absentFromStd, getElem?_deleteWhere, BTreeMap.contains_eq_decide]
  cases lake.scoredRecords[(⟨key, identity⟩ : LedgerKey K I)]? with
  | none => simp
  | some row => by_cases hkey : key ∈ std <;> simp [hkey]

/-- What the lake says about one model identity. -/
@[ext]
structure ModelView (K : Type u) (H : Type v) (S : Type x) where
  active : K → K → Option (Verdict H S)
  scored : K → Option H

/-- The view of a model identity in a lake. -/
def viewOf (lake : Lake K H S E I) (identity : I) : ModelView K H S :=
  ⟨activeVerdict lake identity, scoredHash lake identity⟩

/-- The active scores left by an invalidation of the model's own scores. -/
def ModelView.invalidate (view : ModelView K H S) : StaleScope K → ModelView K H S
  | .everyActive => { view with active := fun _ _ => none }
  | .records keys =>
      { view with active := fun a b => if a ∈ keys ∨ b ∈ keys then none else view.active a b }

/-- What a statement does to the view of a model identity. -/
def Statement.onView (identity : I) (view : ModelView K H S) :
    Statement K H Row S E I → ModelView K H S
  | .retireOtherModels live _ =>
      if identity ∈ live then view else { view with active := fun _ _ => none }
  | .absentFromLiveModels live =>
      if identity ∈ live then view else { view with scored := fun _ => none }
  | .invalidateStale owner scope _ => if identity = owner then view.invalidate scope else view
  | .upsertFromScored source _ =>
      { view with
        active := fun a b =>
          (source[(⟨a, b, identity⟩ : ScoreKey K I)]?.map StagedScore.verdict).or
            (view.active a b) }
  | .upsertFromStd owner scored _ =>
      if identity = owner then
        { view with scored := fun key => (contentHash scored key).or (view.scored key) }
      else view
  | .absentFromStd std =>
      { view with scored := fun key => if key ∈ std then view.scored key else none }

/-- A statement acts on the view of each identity by itself. -/
theorem viewOf_exec (lake : Lake K H S E I) (statement : Statement K H Row S E I) (identity : I) :
    viewOf (Statement.exec lake statement) identity =
      statement.onView identity (viewOf lake identity) := by
  cases statement with
  | retireOtherModels live stamp =>
      ext1
      · funext a b
        show activeVerdict (retireOtherModels live stamp lake) identity a b = _
        rw [activeVerdict_retireOtherModels]
        by_cases hlive : identity ∈ live <;> simp [Statement.onView, viewOf, hlive]
      · by_cases hlive : identity ∈ live <;> simp [Statement.onView, hlive] <;> rfl
  | absentFromLiveModels live =>
      ext1
      · by_cases hlive : identity ∈ live <;> simp [Statement.onView, hlive] <;> rfl
      · funext key
        show scoredHash (absentFromLiveModels live lake) identity key = _
        rw [scoredHash_absentFromLiveModels]
        by_cases hlive : identity ∈ live <;> simp [Statement.onView, viewOf, hlive]
  | invalidateStale owner scope stamp =>
      by_cases howner : identity = owner
      · subst howner
        simp only [Statement.onView, if_true]
        cases scope with
        | everyActive =>
            ext1
            · funext a b
              show activeVerdict (invalidateSupersededScores identity .everyActive stamp lake)
                identity a b = none
              rw [activeVerdict_invalidate_everyActive, if_pos rfl]
            · rfl
        | records keys =>
            ext1
            · funext a b
              show activeVerdict (invalidateSupersededScores identity (.records keys) stamp lake)
                identity a b = if a ∈ keys ∨ b ∈ keys then none else _
              rw [activeVerdict_invalidate]
              simp [staleKeys, viewOf]
            · rfl
      · ext1
        · funext a b
          show activeVerdict (invalidateSupersededScores owner scope stamp lake) identity a b = _
          rw [activeVerdict_invalidate]
          simp [Statement.onView, howner, viewOf]
        · simp [Statement.onView, howner]
          rfl
  | upsertFromScored source stamp =>
      ext1
      · funext a b
        exact activeVerdict_upsertFromScored source stamp lake identity a b
      · rfl
  | upsertFromStd owner scored stamp =>
      ext1
      · by_cases howner : identity = owner <;> simp [Statement.onView, howner] <;> rfl
      · funext key
        show scoredHash (upsertFromStd owner scored stamp lake) identity key = _
        rw [scoredHash_upsertFromStd]
        by_cases howner : identity = owner <;> simp [Statement.onView, howner, viewOf]
  | absentFromStd std =>
      ext1
      · rfl
      · funext key
        exact scoredHash_absentFromStd std lake identity key

/-- A sequence of statements, followed on the view of one identity. -/
theorem viewOf_commit (lake : Lake K H S E I) (statements : List (Statement K H Row S E I))
    (identity : I) :
    viewOf (commit lake statements) identity =
      statements.foldl (Statement.onView identity) (viewOf lake identity) := by
  induction statements generalizing lake with
  | nil => rfl
  | cons statement statements ih => rw [commit_cons, ih, viewOf_exec, List.foldl_cons]

omit [LinearOrder I] in
/-- A record of the corpus is one with a content hash. -/
theorem contentHash_isSome {corpus : Corpus K H Row} {key : K} :
    (contentHash corpus key).isSome ↔ key ∈ corpus := by
  rw [contentHash, Option.isSome_map, Std.ExtTreeMap.mem_iff_isSome_getElem?]

omit [LinearOrder I] in
theorem contentHash_eq_none {corpus : Corpus K H Row} {key : K} :
    contentHash corpus key = none ↔ key ∉ corpus := by
  rw [← contentHash_isSome, Option.not_isSome_iff_eq_none]

theorem scoredRows_eq_zero_iff {identity : I} {lake : Lake K H S E I} :
    scoredRows identity lake = 0 ↔ ∀ key, scoredHash lake identity key = none := by
  rw [scoredRows, countWhere_eq_zero_iff]
  apply Iff.intro
  · intro hnone key
    rw [scoredHash, Option.map_eq_none_iff]
    cases hrow : lake.scoredRecords[(⟨key, identity⟩ : LedgerKey K I)]? with
    | none => rfl
    | some row => simpa using hnone ⟨key, identity⟩ row hrow
  · intro hnone key row hrow
    by_contra hidentity
    have hsame : key.identity = identity := by simpa using hidentity
    have habsent := hnone key.recordKey
    rw [scoredHash, ← hsame] at habsent
    simp [hrow] at habsent

theorem mem_departedKeys {std : Corpus K H Row} {lake : Lake K H S E I} {key : K} :
    key ∈ departedKeys std lake ↔
      key ∉ std ∧ ∃ identity, (scoredHash lake identity key).isSome := by
  simp only [departedKeys, List.mem_filter, List.mem_map, BTreeMap.mem_keys, scoredHash,
    Option.isSome_map, BTreeMap.contains_eq_decide, Bool.not_eq_true', decide_eq_false_iff_not]
  apply Iff.intro
  · rintro ⟨⟨entry, hentry, rfl⟩, habsent⟩
    exact ⟨habsent, entry.identity, Std.ExtTreeMap.mem_iff_isSome_getElem?.mp hentry⟩
  · rintro ⟨habsent, identity, hscored⟩
    exact ⟨⟨_, Std.ExtTreeMap.mem_iff_isSome_getElem?.mpr hscored, rfl⟩, habsent⟩

section Delta

variable [DecidableEq H] {identity : I} {segment : Option (Row → Option Bool)}
  {std : Corpus K H Row} {lake : Lake K H S E I} {key : K} {record : StdRecord H Row}

theorem alreadyScored_iff :
    alreadyScored identity lake key record = true ↔
      scoredHash lake identity key = some record.contentHash := by
  rw [alreadyScored, scoredHash]
  cases lake.scoredRecords[(⟨key, identity⟩ : LedgerKey K I)]? <;> simp

theorem getElem?_deltaStd :
    (deltaStd identity segment std lake)[key]? = some record ↔
      std[key]? = some record ∧
        (scoredHash lake identity key ≠ some record.contentHash ∨
          inScope segment record = true) := by
  rw [deltaStd, BTreeMap.getElem?_filter_eq, Option.filter_eq_some_iff]
  simp [← alreadyScored_iff]

theorem getElem?_keptStd :
    (keptStd identity segment std lake)[key]? = some record ↔
      std[key]? = some record ∧
        scoredHash lake identity key = some record.contentHash ∧
          inScope segment record = false := by
  rw [keptStd, BTreeMap.getElem?_filter_eq, Option.filter_eq_some_iff]
  simp [← alreadyScored_iff]

theorem mem_deltaStd_or_keptStd (hkey : std[key]? = some record) :
    (deltaStd identity segment std lake)[key]? = some record ∨
      (keptStd identity segment std lake)[key]? = some record := by
  rw [getElem?_deltaStd, getElem?_keptStd]
  by_cases hscored : scoredHash lake identity key = some record.contentHash
  · cases hscope : inScope segment record <;> simp [hkey, hscored]
  · simp [hkey, hscored]

theorem contentHash_deltaStd (hkey : key ∈ deltaStd identity segment std lake) :
    contentHash (deltaStd identity segment std lake) key = contentHash std key := by
  obtain ⟨record, hrecord⟩ := BTreeMap.mem_iff_exists_getElem?.mp hkey
  rw [contentHash, contentHash, hrecord, (getElem?_deltaStd.mp hrecord).1]

/-- A corpus record outside the delta is in the ledger under its present content hash. -/
theorem scoredHash_of_not_mem_deltaStd (hkey : key ∈ std)
    (hdelta : key ∉ deltaStd identity segment std lake) :
    scoredHash lake identity key = contentHash std key := by
  obtain ⟨record, hrecord⟩ := BTreeMap.mem_iff_exists_getElem?.mp hkey
  have hsplit : (deltaStd identity segment std lake)[key]? = some record ∨
      (keptStd identity segment std lake)[key]? = some record := mem_deltaStd_or_keptStd hrecord
  rcases hsplit with hin | hkept
  · exact absurd (BTreeMap.mem_iff_exists_getElem?.mpr ⟨record, hin⟩) hdelta
  · rw [contentHash, hrecord, (getElem?_keptStd.mp hkept).2.1]
    rfl

theorem mem_supersededKeys :
    key ∈ supersededKeys identity segment std lake ↔
      key ∈ deltaStd identity segment std lake ∨
        key ∉ std ∧ ∃ owner, (scoredHash lake owner key).isSome := by
  rw [supersededKeys, List.mem_append, BTreeMap.mem_keys, mem_departedKeys]

end Delta

end EntityResolution.Match
