/-
# Which run computed a score

Every row of `match_scores` carries the run that last merged it. A statement either leaves a row
alone, deactivates it, or merges it under the stamp of its pass. So an active score that a pass
invalidated first was computed by the pass, and one that no statement hits is the row that was
there before.

After a full pass every active score is its own. After a partial pass this holds of the pairs
that the pass scores again; the others keep the run that they had.
-/

import EntityResolution.Match.FullScores

namespace EntityResolution.Match

open EntityResolution.Collections EntityResolution.Tables

universe u v w x y z

variable {K : Type u} {H : Type v} {Row : Type w} {S : Type x} {E : Type y} {I : Type z}
variable [LinearOrder K] [LinearOrder I]

/-- An active score under a key was merged by a run. -/
def StampedAt (runId : String) (lake : Lake K H S E I) (key : ScoreKey K I) : Prop :=
  ∀ row, lake.matchScores[key]? = some row → row.isActive = true → row.runId = runId

/-- A statement that merges scores does so under the stamp of a run. -/
def Statement.WritesAs (runId : String) : Statement K H Row S E I → Prop
  | .upsertFromScored _ stamp => stamp.runId = runId
  | _ => True

/-- A statement does not touch the row of a key. -/
def Statement.Spares (key : ScoreKey K I) : Statement K H Row S E I → Prop
  | .retireOtherModels live _ => key.identity ∈ live
  | .invalidateStale identity scope _ =>
      key.identity = identity →
        ∃ keys, scope = .records keys ∧ key.recAKey ∉ keys ∧ key.recBKey ∉ keys
  | .upsertFromScored source _ => source[key]? = none
  | _ => True

section Rows

variable {runId : String} {lake : Lake K H S E I} {key : ScoreKey K I}
  {statement : Statement K H Row S E I} {statements : List (Statement K H Row S E I)}

/-- Without an active score there is none of another run. -/
theorem stampedAt_of_inactive {identity : I} {a b : K}
    (hnone : activeVerdict lake identity a b = none) : StampedAt runId lake ⟨a, b, identity⟩ := by
  intro row hrow hactive
  cases hnone.symm.trans (activeVerdict_eq_some_iff.mpr ⟨row, hrow, hactive, rfl⟩)

/-- A deactivation leaves no active score that was not there before. -/
theorem stampedAt_deactivate (hstamped : StampedAt runId lake key)
    (hit : ScoreKey K I → MatchScore H S E → Bool) (stamp : RunStamp) :
    StampedAt runId
      { lake with matchScores := updateWhere lake.matchScores hit (MatchScore.deactivate stamp) }
      key := by
  intro row hrow hactive
  rw [getElem?_updateWhere] at hrow
  obtain ⟨old, hold, rfl⟩ := Option.map_eq_some_iff.mp hrow
  split at hactive
  · cases hactive
  · rename_i hmissed
    rw [if_neg hmissed]
    exact hstamped old hold hactive

/-- A statement of a run keeps a row the run's. -/
theorem StampedAt.exec (hstamped : StampedAt runId lake key) (hwrites : statement.WritesAs runId) :
    StampedAt runId (statement.exec lake) key := by
  cases statement with
  | retireOtherModels live stamp => exact stampedAt_deactivate hstamped _ stamp
  | absentFromLiveModels live => exact hstamped
  | invalidateStale identity scope stamp => exact stampedAt_deactivate hstamped _ stamp
  | upsertFromScored source stamp =>
      intro row hrow hactive
      change (mergeInto _ _ _ _)[key]? = some row at hrow
      rw [getElem?_mergeInto] at hrow
      split at hrow
      · rename_i staged _
        have hstamp : stamp.runId = runId := hwrites
        cases hold : lake.matchScores[key]? with
        | none =>
            rw [hold] at hrow
            cases hrow
            exact hstamp
        | some old =>
            rw [hold] at hrow
            cases hrow
            exact hstamp
      · exact hstamped row hrow hactive
  | upsertFromStd identity scored stamp => exact hstamped
  | absentFromStd std => exact hstamped

theorem StampedAt.commit (hstamped : StampedAt runId lake key)
    (hwrites : ∀ statement ∈ statements, statement.WritesAs runId) :
    StampedAt runId (Match.commit lake statements) key := by
  induction statements generalizing lake with
  | nil => exact hstamped
  | cons statement statements ih =>
      rw [List.forall_mem_cons] at hwrites
      exact ih (hstamped.exec hwrites.1) hwrites.2

theorem getElem?_updateWhere_of_missed {table : BTreeMap (ScoreKey K I) (MatchScore H S E)}
    {hit : ScoreKey K I → MatchScore H S E → Bool} {set : MatchScore H S E → MatchScore H S E}
    (hmissed : ∀ row, hit key row = false) : (updateWhere table hit set)[key]? = table[key]? := by
  rw [getElem?_updateWhere]
  simp [hmissed]

/-- A statement that spares a row leaves it. -/
theorem Statement.Spares.exec (hspares : statement.Spares key) :
    (statement.exec lake).matchScores[key]? = lake.matchScores[key]? := by
  cases statement with
  | retireOtherModels live stamp =>
      have hlive : key.identity ∈ live := hspares
      apply getElem?_updateWhere_of_missed
      simp [retiredHit, hlive]
  | absentFromLiveModels live => rfl
  | invalidateStale identity scope stamp =>
      apply getElem?_updateWhere_of_missed
      intro row
      by_cases hidentity : key.identity = identity
      · obtain ⟨keys, rfl, ha, hb⟩ := hspares hidentity
        simp [staleHit, staleKeys, ha, hb]
      · simp [staleHit, hidentity]
  | upsertFromScored source stamp =>
      have hnone : source[key]? = none := hspares
      change (mergeInto _ _ _ _)[key]? = _
      rw [getElem?_mergeInto, hnone]
  | upsertFromStd identity scored stamp => rfl
  | absentFromStd std => rfl

theorem getElem?_commit_of_spares (hspares : ∀ statement ∈ statements, statement.Spares key) :
    (commit lake statements).matchScores[key]? = lake.matchScores[key]? := by
  induction statements generalizing lake with
  | nil => rfl
  | cons statement statements ih =>
      rw [List.forall_mem_cons] at hspares
      rw [commit_cons, ih hspares.2, hspares.1.exec]

end Rows

variable [LinearOrder S]

section Full

variable {member : EnsembleMember Row S E I} {config : Config S} {reviewLow : S}
  {stamp : RunStamp} {std : Corpus K H Row} {identity : I} {a b : K}

/-- A full score of a pair is the member's own verdict. -/
theorem memberScores_of_cascadeScores {verdict : Verdict H S}
    (entries : List ((EnsembleMember Row S E I × S) × ℕ)) {matched : Bool}
    (hscore : cascadeScores config reviewLow std a b entries matched identity = some verdict) :
    ∃ entry ∈ entries, entry.1.1.identity = identity ∧
      memberScores entry.1.1 reviewLow std a b = some verdict := by
  induction entries generalizing matched with
  | nil => cases hscore
  | cons entry entries ih =>
      rw [cascadeScores] at hscore
      split at hscore
      · rename_i hidentity
        rw [cascadedScore] at hscore
        split at hscore
        · cases hscore
        · exact ⟨entry, List.mem_cons_self, hidentity.symm, hscore⟩
      · obtain ⟨other, hother, hrest⟩ := ih hscore
        exact ⟨other, List.mem_cons_of_mem _ hother, hrest⟩

theorem memberScores_of_fullScores {members : List (EnsembleMember Row S E I)}
    {verdict : Verdict H S} (hdistinct : (members.map EnsembleMember.identity).Nodup)
    (hmember : member ∈ members)
    (hscore : fullScores config members reviewLow std member.identity a b = some verdict) :
    memberScores member reviewLow std a b = some verdict := by
  obtain ⟨entry, hentry, hidentity, hverdict⟩ := memberScores_of_cascadeScores _ hscore
  have hzipped : entry.1 ∈ members.zip (memberThresholds config members) := by
    rw [← List.zipIdx_map_fst 0 (members.zip (memberThresholds config members))]
    exact List.mem_map_of_mem hentry
  have hother : entry.1.1 ∈ members := (List.of_mem_zip hzipped).1
  rw [← List.inj_on_of_nodup_map hdistinct hother hmember hidentity]
  exact hverdict

theorem writesAs_scoreMemberFull (cascadeAfter : Option (List (I × S))) (lake : Lake K H S E I) :
    ∀ statement ∈ scoreMemberFull member reviewLow stamp std cascadeAfter lake,
      statement.WritesAs stamp.runId := by
  simp [scoreMemberFull, stageAndUpsertScores, syncScoredLedger, Statement.WritesAs]

/-- After a member's full pass its active scores are of the run. -/
theorem stampedAt_scoreMemberFull (cascadeAfter : Option (List (I × S)))
    (lake lake' : Lake K H S E I) :
    StampedAt stamp.runId
      (commit lake (scoreMemberFull member reviewLow stamp std cascadeAfter lake'))
      ⟨a, b, member.identity⟩ := by
  have hwrites : ∀ statement ∈ scoreMemberFull member reviewLow stamp std cascadeAfter lake',
      statement.WritesAs stamp.runId := writesAs_scoreMemberFull cascadeAfter lake'
  rw [scoreMemberFull, List.append_assoc, List.singleton_append, List.forall_mem_cons] at hwrites
  rw [scoreMemberFull, List.append_assoc, List.singleton_append, commit_cons]
  refine StampedAt.commit (stampedAt_of_inactive ?_) hwrites.2
  change activeVerdict (invalidateSupersededScores _ _ _ _) _ _ _ = none
  rw [activeVerdict_invalidate_everyActive, if_pos rfl]

/-- The loop leaves the active scores of each of its members of the run. -/
theorem stampedAt_scoreMembers (entries : List ((EnsembleMember Row S E I × S) × ℕ))
    {earlier : List (I × S)} {lake : Lake K H S E I}
    (hturn : (∃ entry ∈ entries, entry.1.1.identity = identity) ∨
      StampedAt stamp.runId lake ⟨a, b, identity⟩) :
    StampedAt stamp.runId
      (commit lake (scoreMembers config reviewLow stamp std entries earlier lake))
      ⟨a, b, identity⟩ := by
  induction entries generalizing earlier lake with
  | nil => exact hturn.resolve_left (by simp)
  | cons entry entries ih =>
      obtain ⟨⟨member, threshold⟩, index⟩ := entry
      rw [scoreMembers, commit_append]
      apply ih
      by_cases hidentity : member.identity = identity
      · subst hidentity
        exact .inr (stampedAt_scoreMemberFull _ _ _)
      · apply hturn.imp
        · intro hentry
          obtain ⟨other, hother, hsame⟩ := hentry
          cases List.mem_cons.mp hother with
          | inl hhead =>
              rw [hhead] at hsame
              exact absurd hsame hidentity
          | inr htail => exact ⟨other, htail, hsame⟩
        · exact fun hstamped => hstamped.commit (writesAs_scoreMemberFull _ _)

end Full

section Partial

variable [DecidableEq H] {member : EnsembleMember Row S E I} {live : List I} {reviewLow : S}
  {stamp : RunStamp} {segment : Option (Row → Option Bool)} {std : Corpus K H Row}
  {lake : Lake K H S E I} {identity : I} {a b : K}

theorem forall_mem_runMatchPartial {P : Statement K H Row S E I → Prop}
    (hscored : scoredRows member.identity lake ≠ 0)
    (hinvalidate : P (.invalidateStale member.identity
      (partialScope member.identity segment std lake) stamp))
    (hretire : ∀ statement ∈ retireStatements live stamp, P statement)
    (hmerge : P (.upsertFromScored (stageScores member.identity reviewLow std
      (partialPredictions member segment std lake)) stamp))
    (hclaim : P (.upsertFromStd member.identity (deltaStd member.identity segment std lake) stamp))
    (hprune : P (.absentFromStd std)) :
    ∀ statement ∈ runMatchPartial member live reviewLow stamp segment std lake, P statement := by
  rw [retireStatements, List.forall_mem_cons, List.forall_mem_singleton] at hretire
  rw [runMatchPartial_of_scored hscored]
  intro statement hstatement
  simp only [List.mem_append, List.mem_cons, List.not_mem_nil, or_false] at hstatement
  rcases hstatement with ((rfl | rfl | rfl) | hmerged) | rfl | rfl
  · exact hinvalidate
  · exact hretire.1
  · exact hretire.2
  · split at hmerged
    · rw [List.mem_singleton.mp hmerged]
      exact hmerge
    · cases hmerged
  · exact hclaim
  · exact hprune

omit [LinearOrder S] [DecidableEq H] in
theorem writesAs_retireStatements :
    ∀ statement ∈ (retireStatements live stamp : List (Statement K H Row S E I)),
      statement.WritesAs stamp.runId := by
  simp [retireStatements, Statement.WritesAs]

theorem writesAs_runMatchPartial :
    ∀ statement ∈ runMatchPartial member live reviewLow stamp segment std lake,
      statement.WritesAs stamp.runId := by
  by_cases hscored : scoredRows member.identity lake = 0
  · rw [runMatchPartial, if_pos hscored, List.forall_mem_append]
    exact ⟨writesAs_retireStatements, writesAs_scoreMemberFull _ _⟩
  · exact forall_mem_runMatchPartial hscored trivial writesAs_retireStatements rfl trivial trivial

omit [LinearOrder S] [DecidableEq H] in
theorem spares_retireStatements (hlive : identity ∈ live) :
    ∀ statement ∈ (retireStatements live stamp : List (Statement K H Row S E I)),
      statement.Spares ⟨a, b, identity⟩ := by
  simp [retireStatements, Statement.Spares, hlive]

/-- A member's partial pass spares the rows of other live models. -/
theorem spares_runMatchPartial_other (hother : identity ≠ member.identity)
    (hlive : identity ∈ live) :
    ∀ statement ∈ runMatchPartial member live reviewLow stamp segment std lake,
      statement.Spares ⟨a, b, identity⟩ := by
  have hretire : ∀ statement ∈ (retireStatements live stamp : List (Statement K H Row S E I)),
      statement.Spares ⟨a, b, identity⟩ := spares_retireStatements hlive
  by_cases hscored : scoredRows member.identity lake = 0
  · rw [runMatchPartial, if_pos hscored, List.forall_mem_append]
    refine ⟨hretire, ?_⟩
    rw [scoreMemberFull, stageAndUpsertScores, syncScoredLedger]
    · simp only [List.cons_append, List.nil_append, List.forall_mem_cons]
      exact ⟨fun hsame => absurd hsame hother, getElem?_stageScores_of_ne hother, trivial, trivial,
        List.forall_mem_nil _⟩
    · exact fun hpartial => by cases hpartial
  · exact forall_mem_runMatchPartial hscored (fun hsame => absurd hsame hother) hretire
      (getElem?_stageScores_of_ne hother) trivial trivial

/-- A partial pass spares the rows of its model whose ends it does not supersede. -/
theorem spares_runMatchPartial_kept (hlive : member.identity ∈ live)
    (hscored : scoredRows member.identity lake ≠ 0)
    (ha : a ∉ supersededKeys member.identity segment std lake)
    (hb : b ∉ supersededKeys member.identity segment std lake) :
    ∀ statement ∈ runMatchPartial member live reviewLow stamp segment std lake,
      statement.Spares ⟨a, b, member.identity⟩ := by
  have hstaged : stagedVerdict member.identity reviewLow std
      (partialPredictions member segment std lake) a b = none := by
    apply stagedVerdict_of_untouched
    · exact fun hdelta => ha (mem_supersededKeys.mpr (.inl hdelta))
    · exact fun hdelta => hb (mem_supersededKeys.mpr (.inl hdelta))
  exact forall_mem_runMatchPartial hscored (fun _ => ⟨_, rfl, ha, hb⟩)
    (spares_retireStatements hlive) (Option.map_eq_none_iff.mp hstaged) trivial trivial

/-- The pairs that a partial pass scores again have no active score of another run. -/
theorem stampedAt_runMatchPartial (hrescored : scoredRows member.identity lake = 0 ∨
      a ∈ supersededKeys member.identity segment std lake ∨
        b ∈ supersededKeys member.identity segment std lake) :
    StampedAt stamp.runId
      (commit lake (runMatchPartial member live reviewLow stamp segment std lake))
      ⟨a, b, member.identity⟩ := by
  by_cases hscored : scoredRows member.identity lake = 0
  · rw [runMatchPartial, if_pos hscored, commit_append]
    exact stampedAt_scoreMemberFull _ _ _
  · have hwrites : ∀ statement ∈ runMatchPartial member live reviewLow stamp segment std lake,
        statement.WritesAs stamp.runId := writesAs_runMatchPartial
    rw [runMatchPartial_of_scored hscored, List.append_assoc, List.cons_append,
      List.forall_mem_cons] at hwrites
    rw [runMatchPartial_of_scored hscored, List.append_assoc, List.cons_append, commit_cons]
    refine StampedAt.commit (stampedAt_of_inactive ?_) hwrites.2
    change activeVerdict (invalidateSupersededScores _ _ _ _) _ _ _ = none
    rw [activeVerdict_invalidate]
    exact if_pos ⟨rfl, hrescored.resolve_left hscored⟩

end Partial

/-! ## Scores of a run -/

/-- A row was computed in a run, and says what the member says now. -/
def ComputedIn (member : EnsembleMember Row S E I) (reviewLow : S) (runId : String)
    (std : Corpus K H Row) (a b : K) (row : MatchScore H S E) : Prop :=
  row.runId = runId ∧ memberScores member reviewLow std a b = some row.verdict

/-- Every active score of a member was computed in a run. -/
def MemberScoredIn (reviewLow : S) (runId : String) (std : Corpus K H Row) (lake : Lake K H S E I)
    (member : EnsembleMember Row S E I) : Prop :=
  ∀ a b row, lake.matchScores[(⟨a, b, member.identity⟩ : ScoreKey K I)]? = some row →
    row.isActive = true → ComputedIn member reviewLow runId std a b row

/-- Every active score was computed in a run, under a member of it. -/
def ScoredIn (members : List (EnsembleMember Row S E I)) (reviewLow : S) (runId : String)
    (std : Corpus K H Row) (lake : Lake K H S E I) : Prop :=
  ∀ (key : ScoreKey K I) (row : MatchScore H S E), lake.matchScores[key]? = some row →
    row.isActive = true → ∃ member ∈ members, member.identity = key.identity ∧
      ComputedIn member reviewLow runId std key.recAKey key.recBKey row

/-- The active scores of a member that are not scored again were computed in the run already. -/
def KeptComputed (leads : Prop) (segment : Option (Row → Option Bool)) (ledger : K → Option H)
    (known : K → Prop) (reviewLow : S) (runId : String) (std : Corpus K H Row)
    (lake : Lake K H S E I) (member : EnsembleMember Row S E I) : Prop :=
  ∀ a b row, lake.matchScores[(⟨a, b, member.identity⟩ : ScoreKey K I)]? = some row →
    row.isActive = true → ¬ Rescored leads segment ledger known std a b →
      ComputedIn member reviewLow runId std a b row

section Scored

variable {members : List (EnsembleMember Row S E I)} {reviewLow : S} {runId : String}
  {std : Corpus K H Row} {lake : Lake K H S E I}

theorem scoredIn_iff (hdistinct : (members.map EnsembleMember.identity).Nodup)
    (hdead : ∀ identity ∉ members.map EnsembleMember.identity, ∀ a b,
      activeVerdict lake identity a b = none) :
    ScoredIn members reviewLow runId std lake ↔
      ∀ member ∈ members, MemberScoredIn reviewLow runId std lake member := by
  constructor
  · intro hscored member hmember a b row hrow hactive
    obtain ⟨other, hother, hsame, hcomputed⟩ := hscored _ row hrow hactive
    rw [← List.inj_on_of_nodup_map hdistinct hother hmember hsame]
    exact hcomputed
  · intro hmembers key row hrow hactive
    by_cases hlive : key.identity ∈ members.map EnsembleMember.identity
    · obtain ⟨member, hmember, hsame⟩ := List.mem_map.mp hlive
      refine ⟨member, hmember, hsame, hmembers member hmember _ _ row ?_ hactive⟩
      rw [hsame]
      exact hrow
    · cases (hdead key.identity hlive key.recAKey key.recBKey).symm.trans
        (activeVerdict_eq_some_iff.mpr ⟨row, hrow, hactive, rfl⟩)

/-- A full pass leaves every active score computed in its run. -/
theorem scoredIn_full {config : Config S} {ensemble : Ensemble Row S E I} (stamp : RunStamp)
    (hsymmetric : ∀ member ∈ ensemble.members, SideSymmetric member) :
    ScoredIn ensemble.members reviewLow stamp.runId std
      (commit lake (runMatchEnsemble config ensemble.members reviewLow stamp std lake)) := by
  have hview (identity : I) :
    viewOf (commit lake (runMatchEnsemble config ensemble.members reviewLow
      stamp std lake)) identity = settledView config ensemble reviewLow std identity :=
    viewOf_runMatchEnsemble hsymmetric lake
  rw [scoredIn_iff ensemble.distinct]
  · intro member hmember a b row hrow hactive
    constructor
    · have hstamped : StampedAt stamp.runId (commit lake
          (runMatchEnsemble config ensemble.members reviewLow stamp std lake))
            ⟨a, b, member.identity⟩ := by
        rw [runMatchEnsemble, commit_append]
        apply stampedAt_scoreMembers
        exact .inl (mem_loop_identity.mpr (List.mem_map_of_mem hmember))
      exact hstamped row hrow hactive
    · have hfull : activeVerdict (commit lake (runMatchEnsemble config ensemble.members reviewLow
          stamp std lake)) member.identity a b =
            fullScores config ensemble.members reviewLow std member.identity a b := by
        have hsettled := (hview member.identity).trans (settledView_mem hmember)
        exact congrFun (congrFun (congrArg ModelView.active hsettled) a) b
      rw [activeVerdict_eq_some_iff.mpr ⟨row, hrow, hactive, rfl⟩] at hfull
      exact memberScores_of_fullScores ensemble.distinct hmember hfull.symm
  · intro identity hidentity a b
    have hdead := (hview identity).trans (if_neg hidentity)
    exact congrFun (congrFun (congrArg ModelView.active hdead) a) b

theorem memberScoredIn_congr {member : EnsembleMember Row S E I}
    {lake' : Lake K H S E I} (hrows : ∀ a b,
      lake'.matchScores[(⟨a, b, member.identity⟩ : ScoreKey K I)]? =
        lake.matchScores[(⟨a, b, member.identity⟩ : ScoreKey K I)]?) :
    MemberScoredIn reviewLow runId std lake' member ↔
      MemberScoredIn reviewLow runId std lake member := by
  simp only [MemberScoredIn, hrows]

end Scored

section Incremental

variable [DecidableEq H] {member : EnsembleMember Row S E I} {live : List I} {reviewLow : S}
  {stamp : RunStamp} {segment : Option (Row → Option Bool)} {std : Corpus K H Row}
  {lake : Lake K H S E I} {scores : K → K → Option (Verdict H S)} {leads : Prop}
  {ledger : K → Option H} {known : K → Prop} {a b : K}

omit [LinearOrder S] in
theorem Turn.rescored_iff (hturn : Turn leads ledger known std scores member.identity lake) :
    Rescored leads segment ledger known std a b ↔
      scoredRows member.identity lake = 0 ∨
        a ∈ supersededKeys member.identity segment std lake ∨
          b ∈ supersededKeys member.identity segment std lake := by
  rw [Rescored, hturn.nothing_iff, hturn.mem_supersededKeys_iff, hturn.mem_supersededKeys_iff]

/-- A member's partial pass leaves its active scores computed in the run exactly when those that
it does not compute again were. -/
theorem Turn.memberScoredIn_iff
    (hturn : Turn leads ledger known std scores member.identity lake)
    (hsymmetric : SideSymmetric member) (hlive : member.identity ∈ live) :
    MemberScoredIn reviewLow stamp.runId std
        (commit lake (runMatchPartial member live reviewLow stamp segment std lake)) member ↔
      KeptComputed leads segment ledger known reviewLow stamp.runId std lake member := by
  have hrow (a b : K) (hkept : ¬ Rescored leads segment ledger known std a b) :
      (commit lake (runMatchPartial member live reviewLow stamp segment std lake)).matchScores[
          (⟨a, b, member.identity⟩ : ScoreKey K I)]? =
        lake.matchScores[(⟨a, b, member.identity⟩ : ScoreKey K I)]? := by
    rw [hturn.rescored_iff, not_or, not_or] at hkept
    exact getElem?_commit_of_spares
      (spares_runMatchPartial_kept hlive hkept.1 hkept.2.1 hkept.2.2)
  constructor
  · intro hscored a b row hold hactive hkept
    exact hscored a b row ((hrow a b hkept).trans hold) hactive
  · intro hkept a b row hnew hactive
    by_cases hrescored : Rescored leads segment ledger known std a b
    · constructor
      · exact stampedAt_runMatchPartial (hturn.rescored_iff.mp hrescored) row hnew hactive
      · have hverdict : activeVerdict (commit lake (runMatchPartial member live reviewLow stamp
            segment std lake)) member.identity a b = memberScores member reviewLow std a b :=
          hturn.rescored hsymmetric hlive hrescored
        rw [← hverdict]
        exact activeVerdict_eq_some_iff.mpr ⟨row, hnew, hactive, rfl⟩
    · exact hkept a b row ((hrow a b hrescored).symm.trans hnew) hactive hrescored

theorem getElem?_partialMembers_other {identity : I}
    {members : List (EnsembleMember Row S E I)} (hlive : identity ∈ live)
    (hother : identity ∉ members.map EnsembleMember.identity) :
    (commit lake (partialMembers live reviewLow stamp segment std members lake)).matchScores[
        (⟨a, b, identity⟩ : ScoreKey K I)]? =
      lake.matchScores[(⟨a, b, identity⟩ : ScoreKey K I)]? := by
  induction members generalizing lake with
  | nil => rfl
  | cons first members ih =>
      rw [List.map_cons, List.mem_cons, not_or] at hother
      rw [partialMembers, commit_append, ih hother.2,
        getElem?_commit_of_spares (spares_runMatchPartial_other hother.1 hlive)]

theorem memberScoredIn_cons {first : EnsembleMember Row S E I}
    {members : List (EnsembleMember Row S E I)}
    (hfresh : first.identity ∉ members.map EnsembleMember.identity)
    (hlive : first.identity ∈ live) (hsymmetric : SideSymmetric first)
    (hturn : Turn leads ledger known std scores first.identity lake) :
    (∀ member ∈ first :: members, MemberScoredIn reviewLow stamp.runId std (commit lake
        (partialMembers live reviewLow stamp segment std (first :: members) lake)) member) ↔
      KeptComputed leads segment ledger known reviewLow stamp.runId std lake first ∧
        ∀ member ∈ members, MemberScoredIn reviewLow stamp.runId std (commit (commit lake
          (runMatchPartial first live reviewLow stamp segment std lake))
            (partialMembers live reviewLow stamp segment std members (commit lake
              (runMatchPartial first live reviewLow stamp segment std lake)))) member := by
  rw [partialMembers, commit_append, List.forall_mem_cons, ← hturn.memberScoredIn_iff hsymmetric
    hlive]
  apply and_congr_left
  intro _
  apply memberScoredIn_congr
  intro a b
  exact getElem?_partialMembers_other hlive hfresh

/-- A member whose turn is still to come keeps its rows in another's pass. -/
theorem keptComputed_next {first : EnsembleMember Row S E I} (hother : member.identity ≠
      first.identity) (hlive : member.identity ∈ live) :
    KeptComputed leads segment ledger known reviewLow stamp.runId std (commit lake
        (runMatchPartial first live reviewLow stamp segment std lake)) member ↔
      KeptComputed leads segment ledger known reviewLow stamp.runId std lake member := by
  have hrow (a b : K) : (commit lake
      (runMatchPartial first live reviewLow stamp segment std lake)).matchScores[
          (⟨a, b, member.identity⟩ : ScoreKey K I)]? =
        lake.matchScores[(⟨a, b, member.identity⟩ : ScoreKey K I)]? :=
    getElem?_commit_of_spares (spares_runMatchPartial_other hother hlive)
  simp only [KeptComputed, hrow]

/-- Members that go after another. -/
theorem memberScoredIn_partialMembers {members : List (EnsembleMember Row S E I)}
    (ledgers : I → K → Option H) (tables : I → K → K → Option (Verdict H S))
    (hdistinct : (members.map EnsembleMember.identity).Nodup)
    (hlive : ∀ member ∈ members, member.identity ∈ live)
    (hsymmetric : ∀ member ∈ members, SideSymmetric member)
    (hturns : ∀ member ∈ members, Turn False (ledgers member.identity) known std
      (tables member.identity) member.identity lake) :
    (∀ member ∈ members, MemberScoredIn reviewLow stamp.runId std (commit lake
        (partialMembers live reviewLow stamp segment std members lake)) member) ↔
      ∀ member ∈ members, KeptComputed False segment (ledgers member.identity) known reviewLow
        stamp.runId std lake member := by
  induction members generalizing lake with
  | nil => simp
  | cons first members ih =>
      rw [List.map_cons, List.nodup_cons] at hdistinct
      rw [List.forall_mem_cons] at hlive hsymmetric hturns
      rw [memberScoredIn_cons hdistinct.1 hlive.1 hsymmetric.1 hturns.1, List.forall_mem_cons,
        ih hdistinct.2 hlive.2 hsymmetric.2 (Turn.tail hdistinct.1 hlive.1 hlive.2 hturns.2)]
      apply and_congr_right
      intro _
      apply forall₂_congr
      intro member hmember
      apply keptComputed_next _ (hlive.2 member hmember)
      exact ne_of_mem_of_not_mem (List.mem_map_of_mem hmember) hdistinct.1

/-- The active scores that no member of an incremental pass scores again were computed in the
run: the first member looks at the whole ledger, the others at what the corpus has of it. -/
def AlreadyComputed (ensemble : Ensemble Row S E I) (segment : Option (Row → Option Bool))
    (reviewLow : S) (runId : String) (std : Corpus K H Row) (lake : Lake K H S E I) : Prop :=
  (∀ member ∈ ensemble.members.head?, KeptComputed True segment (scoredHash lake member.identity)
      (fun key => ∃ owner, (scoredHash lake owner key).isSome) reviewLow runId std lake member) ∧
    ∀ member ∈ ensemble.members.tail, KeptComputed False segment (scoredHash lake member.identity)
      (fun key => ∃ owner, (scoredHash lake owner key).isSome) reviewLow runId std lake member

/-- An incremental pass leaves every active score computed in its run exactly when those that it
does not compute again were. -/
theorem scoredIn_incremental_iff {ensemble : Ensemble Row S E I}
    (hsymmetric : ∀ member ∈ ensemble.members, SideSymmetric member) :
    ScoredIn ensemble.members reviewLow stamp.runId std (commit lake
        (runMatchEnsembleIncremental ensemble.members reviewLow stamp segment std lake)) ↔
      AlreadyComputed ensemble segment reviewLow stamp.runId std lake := by
  rw [scoredIn_iff ensemble.distinct]
  · have hlive : ∀ member ∈ ensemble.members, member.identity ∈ ensemble.live :=
      fun member hmember => List.mem_map_of_mem hmember
    have hdistinct := ensemble.distinct
    rw [AlreadyComputed, runMatchEnsembleIncremental, ← Ensemble.live]
    cases hmembers : ensemble.members with
    | nil => exact absurd hmembers ensemble.nonempty
    | cons first members =>
        rw [hmembers, List.map_cons, List.nodup_cons] at hdistinct
        rw [hmembers, List.forall_mem_cons] at hlive hsymmetric
        rw [memberScoredIn_cons hdistinct.1 hlive.1 hsymmetric.1
            (turn_first first.identity std lake),
          memberScoredIn_partialMembers (scoredHash lake) (activeVerdict lake) hdistinct.2 hlive.2
            hsymmetric.2
            (Turn.tail hdistinct.1 hlive.1 hlive.2 fun member _ =>
              turn_first member.identity std lake)]
        apply and_congr
        · simp
        · apply forall₂_congr
          intro member hmember
          apply keptComputed_next _ (hlive.2 member hmember)
          exact ne_of_mem_of_not_mem (List.mem_map_of_mem hmember) hdistinct.1
  · intro identity hdead a b
    have hview : viewOf (commit lake (runMatchEnsembleIncremental ensemble.members reviewLow stamp
        segment std lake)) identity = .nothing := viewOf_incremental_dead hdead
    exact congrFun (congrFun (congrArg ModelView.active hview) a) b

end Incremental

end EntityResolution.Match
