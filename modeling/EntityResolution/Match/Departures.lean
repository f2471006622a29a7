/-
# Departed records and ensembles

Every pass of an ensemble should leave active scores between records of the corpus only,
and of live members only. A full pass always does. An incremental pass finds the departed
records in the ledger, and the first member to finish prunes them from it under every
identity; a later member that has something to reuse sees no departed record at all.

The first member is always right, because between passes the ledger covers the active
scores. A later member is right exactly when each of its scores of a departed record
touches its own delta, or when its part of the ledger goes away with the departed records
and it falls back to a full pass.
-/

import EntityResolution.Foundations.Runs
import EntityResolution.Match.PassSpec

namespace EntityResolution.Match

open EntityResolution.Collections EntityResolution.Tables EntityResolution.Runs

universe u v w x y z

variable {K : Type u} {H : Type v} {Row : Type w} {S : Type x} {E : Type y} {I : Type z}
variable [LinearOrder K] [LinearOrder I] [LinearOrder S]

/-- The members a run scores with: at least one, with distinct identities. -/
structure Ensemble (Row : Type w) (S : Type x) (E : Type y) (I : Type z) where
  members : List (EnsembleMember Row S E I)
  nonempty : members ≠ []
  distinct : (members.map EnsembleMember.identity).Nodup

/-- The identities a run scores with. -/
def Ensemble.live (ensemble : Ensemble Row S E I) : List I :=
  ensemble.members.map EnsembleMember.identity

/-- A pass of an ensemble: `run_match_ensemble` or `run_match_ensemble_incremental`. -/
inductive EnsemblePass (Row : Type w) (S : Type x)
  | full (config : Config S)
  | incremental (segment : Option (Row → Option Bool))

/-- One completed pass of a history: the corpus it meets, its members and its kind. -/
structure EnsembleStep (K : Type u) (H : Type v) (Row : Type w) (S : Type x) (E : Type y)
    (I : Type z) [LinearOrder K] where
  std : Corpus K H Row
  ensemble : Ensemble Row S E I
  reviewLow : S
  stamp : RunStamp
  pass : EnsemblePass Row S

variable [DecidableEq H]

/-- The lake a completed ensemble pass leaves. -/
def completeEnsemble (lake : Lake K H S E I) (step : EnsembleStep K H Row S E I) :
    Lake K H S E I :=
  commit lake
    (match step.pass with
    | .full config =>
        runMatchEnsemble config step.ensemble.members step.reviewLow step.stamp step.std lake
    | .incremental segment =>
        runMatchEnsembleIncremental step.ensemble.members step.reviewLow step.stamp segment
          step.std lake)

/-- Every active score is between two records of the corpus and of a live member. -/
def Resident (step : EnsembleStep K H Row S E I) (lake : Lake K H S E I) : Prop :=
  ∀ identity a b verdict, activeVerdict lake identity a b = some verdict →
    a ∈ step.std ∧ b ∈ step.std ∧ identity ∈ step.ensemble.live

/-- What a member can lose to the pruning of an earlier one: nothing, if no record of the
corpus is in its ledger and it falls back to a full pass, or if each of its active scores
with an end outside the corpus has an end in its delta. -/
def SparedBy (segment : Option (Row → Option Bool)) (std : Corpus K H Row)
    (lake : Lake K H S E I) (member : EnsembleMember Row S E I) : Prop :=
  (∀ key ∈ std, scoredHash lake member.identity key = none) ∨
    ∀ a b, (activeVerdict lake member.identity a b).isSome → a ∉ std ∨ b ∉ std →
      a ∈ deltaStd member.identity segment std lake ∨
        b ∈ deltaStd member.identity segment std lake

/-- The pass is full, or every member after the first is spared. -/
def PruneHarmless (lake : Lake K H S E I) (step : EnsembleStep K H Row S E I) : Prop :=
  match step.pass with
  | .full _ => True
  | .incremental segment =>
      ∀ member ∈ step.ensemble.members.tail, SparedBy segment step.std lake member

/-- The active scores are between records of the corpus. -/
def ModelView.Within (view : ModelView K H S) (std : Corpus K H Row) : Prop :=
  ∀ a b, (view.active a b).isSome → a ∈ std ∧ b ∈ std

/-- The ledger lists every record of the corpus. -/
def ModelView.Lists (view : ModelView K H S) (std : Corpus K H Row) : Prop :=
  ∀ key ∈ std, (view.scored key).isSome

section Views

variable {view : ModelView K H S} {std : Corpus K H Row}

omit [LinearOrder I] [LinearOrder S] [DecidableEq H] in
theorem lists_contentHash {active : K → K → Option (Verdict H S)} :
    (⟨active, contentHash std⟩ : ModelView K H S).Lists std :=
  fun _ hkey => contentHash_isSome.mpr hkey

omit [LinearOrder I] [LinearOrder S] [DecidableEq H] in
theorem restrict_scored {key : K} (hkey : key ∈ std) :
    (view.restrict std).scored key = view.scored key :=
  if_pos hkey

omit [LinearOrder I] [LinearOrder S] [DecidableEq H] in
theorem mem_of_restrict_scored {key : K} (hsome : ((view.restrict std).scored key).isSome) :
    key ∈ std := by
  by_contra hkey
  have hnone : (view.restrict std).scored key = none := if_neg hkey
  rw [hnone] at hsome
  cases hsome

omit [LinearOrder I] [LinearOrder S] [DecidableEq H] in
theorem ModelView.Lists.restrict (hlists : view.Lists std) : (view.restrict std).Lists std := by
  intro key hkey
  rw [restrict_scored hkey]
  exact hlists key hkey

omit [DecidableEq H] in
theorem mem_std_of_staged {identity : I} {reviewLow : S}
    {tables : List (List (Prediction K S E))} {a b : K}
    (hsome : (stagedVerdict identity reviewLow std tables a b).isSome) : a ∈ std ∧ b ∈ std := by
  obtain ⟨verdict, hstaged⟩ := Option.isSome_iff_exists.mp hsome
  obtain ⟨ha, hb, _⟩ := stagedVerdict_spec hstaged
  exact ⟨ha, hb⟩

omit [DecidableEq H] in
theorem within_staged {identity : I} {reviewLow : S} {tables : List (List (Prediction K S E))}
    {scored : K → Option H} :
    (⟨stagedVerdict identity reviewLow std tables, scored⟩ : ModelView K H S).Within std :=
  fun _ _ hsome => mem_std_of_staged hsome

end Views

section Full

variable {config : Config S} {reviewLow : S} {stamp : RunStamp} {std : Corpus K H Row}
  {identity : I}

omit [DecidableEq H] in
/-- A model that is not in the loop keeps its scores. -/
theorem active_scoreMembers (entries : List ((EnsembleMember Row S E I × S) × ℕ))
    (hother : ∀ entry ∈ entries, identity ≠ entry.1.1.identity) (earlier : List (I × S))
    (lake : Lake K H S E I) :
    (viewOf (commit lake (scoreMembers config reviewLow stamp std entries earlier lake))
      identity).active = (viewOf lake identity).active := by
  induction entries generalizing earlier lake with
  | nil => rfl
  | cons entry entries ih =>
      obtain ⟨⟨member, threshold⟩, index⟩ := entry
      have hhead : identity ≠ member.identity := hother _ List.mem_cons_self
      rw [scoreMembers, commit_append,
        ih fun other hmem => hother other (List.mem_cons_of_mem _ hmem), viewOf_commit,
        view_full_other hhead]
      rfl

omit [DecidableEq H] in
/-- A model whose view is settled on the corpus, or whose turn comes, ends settled on it. -/
theorem settled_scoreMembers (entries : List ((EnsembleMember Row S E I × S) × ℕ))
    (earlier : List (I × S)) (lake : Lake K H S E I)
    (hturn : (∃ entry ∈ entries, entry.1.1.identity = identity) ∨
      (viewOf lake identity).Within std ∧ (viewOf lake identity).Lists std) :
    (viewOf (commit lake (scoreMembers config reviewLow stamp std entries earlier lake))
        identity).Within std ∧
      (viewOf (commit lake (scoreMembers config reviewLow stamp std entries earlier lake))
        identity).Lists std := by
  induction entries generalizing earlier lake with
  | nil =>
      rcases hturn with ⟨entry, hentry, _⟩ | hsettled
      · cases hentry
      · exact hsettled
  | cons entry entries ih =>
      obtain ⟨⟨member, threshold⟩, index⟩ := entry
      rw [scoreMembers, commit_append]
      apply ih
      by_cases hidentity : identity = member.identity
      · subst hidentity
        rw [viewOf_commit, view_full_self]
        exact .inr ⟨within_staged, lists_contentHash⟩
      · rcases hturn with ⟨entry, hentry, hsame⟩ | ⟨hwithin, hlists⟩
        · rcases List.mem_cons.mp hentry with rfl | hrest
          · exact absurd hsame.symm hidentity
          · exact .inl ⟨entry, hrest, hsame⟩
        · rw [viewOf_commit, view_full_other hidentity]
          exact .inr ⟨hwithin, hlists.restrict⟩

omit [DecidableEq H] [LinearOrder K] [LinearOrder I] [LinearOrder S] in
theorem mem_loop_identity {members : List (EnsembleMember Row S E I)} :
    (∃ entry ∈ (members.zip (memberThresholds config members)).zipIdx,
        entry.1.1.identity = identity) ↔
      identity ∈ members.map EnsembleMember.identity := by
  have hmembers : ((members.zip (memberThresholds config members)).zipIdx.map
      fun entry => entry.1.1) = members := by
    rw [show (fun entry : (EnsembleMember Row S E I × S) × ℕ => entry.1.1) = Prod.fst ∘ Prod.fst
      from rfl, ← List.map_map, List.zipIdx_map_fst, List.map_fst_zip]
    rw [length_memberThresholds]
  conv_rhs => rw [← hmembers]
  simp only [List.mem_map, exists_exists_and_eq_and]

omit [DecidableEq H] in
/-- A full pass leaves the members settled on the corpus. -/
theorem settled_full {members : List (EnsembleMember Row S E I)}
    (hlive : identity ∈ members.map EnsembleMember.identity) (lake : Lake K H S E I) :
    (viewOf (commit lake (runMatchEnsemble config members reviewLow stamp std lake))
        identity).Within std ∧
      (viewOf (commit lake (runMatchEnsemble config members reviewLow stamp std lake))
        identity).Lists std := by
  rw [runMatchEnsemble, commit_append]
  exact settled_scoreMembers _ _ _ (.inl (mem_loop_identity.mpr hlive))

omit [DecidableEq H] in
/-- A full pass leaves nothing active of a model that is not live. -/
theorem active_full_dead {members : List (EnsembleMember Row S E I)}
    (hdead : identity ∉ members.map EnsembleMember.identity) (lake : Lake K H S E I) :
    (viewOf (commit lake (runMatchEnsemble config members reviewLow stamp std lake))
      identity).active = fun _ _ => none := by
  rw [runMatchEnsemble, commit_append, active_scoreMembers, viewOf_commit, view_retire_dead hdead]
  · rfl
  · intro entry hentry hsame
    exact hdead (mem_loop_identity.mp ⟨entry, hentry, hsame.symm⟩)

end Full

section Member

variable {member : EnsembleMember Row S E I} {live : List I} {reviewLow : S} {stamp : RunStamp}
  {segment : Option (Row → Option Bool)} {std : Corpus K H Row} {lake lake' : Lake K H S E I}
  {identity : I}

/-- The ledger of every identity is cut down to the corpus. -/
def Pruned (std : Corpus K H Row) (lake : Lake K H S E I) : Prop :=
  ∀ owner key, (scoredHash lake owner key).isSome → key ∈ std

/-- Both ends of every active score are in the ledger, under some identity. -/
def LedgerCovers (lake : Lake K H S E I) : Prop :=
  ∀ identity a b, (activeVerdict lake identity a b).isSome →
    (∃ owner, (scoredHash lake owner a).isSome) ∧ ∃ owner, (scoredHash lake owner b).isSome

theorem scored_partial_self (hlive : member.identity ∈ live) :
    (viewOf (commit lake (runMatchPartial member live reviewLow stamp segment std lake))
      member.identity).scored = contentHash std := by
  rw [viewOf_commit]
  by_cases hscored : scoredRows member.identity lake = 0
  · rw [runMatchPartial, if_pos hscored, List.foldl_append, view_full_self]
  · rw [view_partial_self hlive hscored]

/-- After the pass of any live member the ledger holds records of the corpus only, under
whatever identity. -/
theorem pruned_partialPass (hlive : member.identity ∈ live) :
    Pruned std (commit lake (runMatchPartial member live reviewLow stamp segment std lake)) := by
  intro owner key hsome
  change ((viewOf _ owner).scored key).isSome at hsome
  by_cases hself : owner = member.identity
  · subst hself
    rw [scored_partial_self hlive, contentHash_isSome] at hsome
    exact hsome
  · by_cases howner : owner ∈ live
    · rw [viewOf_commit, view_partial_other hself howner] at hsome
      exact mem_of_restrict_scored hsome
    · rw [viewOf_commit, view_partial_dead hself howner] at hsome
      cases hsome

/-- A member ends within the corpus exactly when it had nothing to reuse, or every score it
has of a departed record touches a record it supersedes. -/
theorem within_partial_iff (hlive : member.identity ∈ live) :
    (viewOf (commit lake (runMatchPartial member live reviewLow stamp segment std lake))
        member.identity).Within std ↔
      scoredRows member.identity lake = 0 ∨
        ∀ a b, (activeVerdict lake member.identity a b).isSome → a ∉ std ∨ b ∉ std →
          a ∈ supersededKeys member.identity segment std lake ∨
            b ∈ supersededKeys member.identity segment std lake := by
  rw [viewOf_commit]
  by_cases hscored : scoredRows member.identity lake = 0
  · apply iff_of_true _ (.inl hscored)
    rw [runMatchPartial, if_pos hscored, List.foldl_append, view_full_self]
    exact within_staged
  · rw [view_partial_self hlive hscored, or_iff_right hscored]
    apply Iff.intro
    · intro hwithin a b hactive hdeparted
      by_contra hstale
      obtain ⟨hkeepA, hkeepB⟩ := not_or.mp hstale
      have hsome : (partialScores member reviewLow segment std lake a b).isSome := by
        rw [partialScores_of_kept hkeepA hkeepB]
        exact hactive
      obtain ⟨ha, hb⟩ := hwithin a b hsome
      rcases hdeparted with hna | hnb
      · exact hna ha
      · exact hnb hb
    · intro hsuperseded a b hsome
      change (partialScores member reviewLow segment std lake a b).isSome at hsome
      by_cases hstale : a ∈ supersededKeys member.identity segment std lake ∨
          b ∈ supersededKeys member.identity segment std lake
      · rw [partialScores_of_superseded hstale] at hsome
        exact mem_std_of_staged hsome
      · obtain ⟨hkeepA, hkeepB⟩ := not_or.mp hstale
        rw [partialScores_of_kept hkeepA hkeepB] at hsome
        by_contra hout
        exact hstale (hsuperseded a b hsome (not_and_or.mp hout))

/-- While the ledger covers the active scores a member finds every departed record. -/
theorem within_partial_of_covers (hlive : member.identity ∈ live) (hcovers : LedgerCovers lake) :
    (viewOf (commit lake (runMatchPartial member live reviewLow stamp segment std lake))
      member.identity).Within std := by
  rw [within_partial_iff hlive]
  apply Or.inr
  intro a b hactive hdeparted
  obtain ⟨ha, hb⟩ := hcovers member.identity a b hactive
  rcases hdeparted with hna | hnb
  · exact .inl (mem_supersededKeys.mpr (.inr ⟨hna, ha⟩))
  · exact .inr (mem_supersededKeys.mpr (.inr ⟨hnb, hb⟩))

/-- Once the ledger is pruned a member sees its delta only. -/
theorem within_partial_of_pruned (hlive : member.identity ∈ live) (hpruned : Pruned std lake) :
    (viewOf (commit lake (runMatchPartial member live reviewLow stamp segment std lake))
      member.identity).Within std ↔ SparedBy segment std lake member := by
  have hrows : scoredRows member.identity lake = 0 ↔
      ∀ key ∈ std, scoredHash lake member.identity key = none := by
    rw [scoredRows_eq_zero_iff]
    apply Iff.intro
    · intro hnone key _
      exact hnone key
    · intro hnone key
      rw [← Option.not_isSome_iff_eq_none]
      intro hsome
      rw [hnone key (hpruned member.identity key hsome)] at hsome
      cases hsome
  have hscope (key : K) :
      key ∈ supersededKeys member.identity segment std lake ↔
        key ∈ deltaStd member.identity segment std lake := by
    rw [mem_supersededKeys, or_iff_left]
    rintro ⟨hkey, owner, hsome⟩
    exact hkey (hpruned owner key hsome)
  rw [within_partial_iff hlive, SparedBy, hrows]
  simp only [hscope]

omit [LinearOrder S] in
theorem sparedBy_congr
    (hactive : (viewOf lake' member.identity).active = (viewOf lake member.identity).active)
    (hscored : ∀ key ∈ std, (viewOf lake' member.identity).scored key =
      (viewOf lake member.identity).scored key) :
    SparedBy segment std lake' member ↔ SparedBy segment std lake member := by
  have hhash (key : K) (hkey : key ∈ std) :
      scoredHash lake' member.identity key = scoredHash lake member.identity key :=
    hscored key hkey
  have hverdict (a b : K) : activeVerdict lake' member.identity a b =
      activeVerdict lake member.identity a b := congrFun (congrFun hactive a) b
  have hdelta (key : K) : key ∈ deltaStd member.identity segment std lake' ↔
      key ∈ deltaStd member.identity segment std lake := by
    simp only [BTreeMap.mem_iff_exists_getElem?, getElem?_deltaStd]
    apply exists_congr
    intro record
    apply and_congr_right
    intro hrecord
    rw [hhash key (BTreeMap.mem_iff_exists_getElem?.mpr ⟨record, hrecord⟩)]
  rw [SparedBy, SparedBy]
  apply or_congr
  · apply forall₂_congr
    intro key hkey
    rw [hhash key hkey]
  · simp only [hverdict, hdelta]

end Member

/-! ## The members of an incremental pass -/

section Members

variable {live : List I} {reviewLow : S} {stamp : RunStamp}
  {segment : Option (Row → Option Bool)} {std : Corpus K H Row} {identity : I}

/-- A live model whose turn is over keeps its scores, and its ledger of the corpus. -/
theorem view_partialMembers_other {members : List (EnsembleMember Row S E I)}
    (hlive : identity ∈ live) (hother : identity ∉ members.map EnsembleMember.identity)
    (lake : Lake K H S E I) :
    (viewOf (commit lake (partialMembers live reviewLow stamp segment std members lake))
        identity).active = (viewOf lake identity).active ∧
      ((viewOf lake identity).Lists std →
        (viewOf (commit lake (partialMembers live reviewLow stamp segment std members lake))
          identity).Lists std) := by
  induction members generalizing lake with
  | nil => exact ⟨rfl, id⟩
  | cons member members ih =>
      rw [List.map_cons, List.mem_cons, not_or] at hother
      obtain ⟨hactive, hlists⟩ := ih hother.2 (commit lake
        (runMatchPartial member live reviewLow stamp segment std lake))
      rw [viewOf_commit lake, view_partial_other hother.1 hlive] at hactive hlists
      rw [partialMembers, commit_append]
      exact ⟨hactive, fun hlisted => hlists hlisted.restrict⟩

/-- A model that is not live and has been removed stays removed. -/
theorem nothing_partialMembers {members : List (EnsembleMember Row S E I)}
    (hmembers : ∀ member ∈ members, member.identity ∈ live) (hdead : identity ∉ live)
    {lake : Lake K H S E I} (hnothing : viewOf lake identity = .nothing) :
    viewOf (commit lake (partialMembers live reviewLow stamp segment std members lake)) identity =
      .nothing := by
  induction members generalizing lake with
  | nil => exact hnothing
  | cons member members ih =>
      have hother : identity ≠ member.identity := fun hsame =>
        hdead (hsame ▸ hmembers member List.mem_cons_self)
      rw [partialMembers, commit_append]
      apply ih fun other hmem => hmembers other (List.mem_cons_of_mem _ hmem)
      rw [viewOf_commit, view_partial_dead hother hdead]

/-- The pass of another live member does not change what spares a member. -/
theorem sparedBy_partial_other {first member : EnsembleMember Row S E I}
    (hother : member.identity ≠ first.identity) (hlive : member.identity ∈ live)
    (lake : Lake K H S E I) :
    SparedBy segment std (commit lake
        (runMatchPartial first live reviewLow stamp segment std lake)) member ↔
      SparedBy segment std lake member := by
  apply sparedBy_congr
  · rw [viewOf_commit, view_partial_other hother hlive]
    rfl
  · intro key hkey
    rw [viewOf_commit, view_partial_other hother hlive, restrict_scored hkey]

theorem within_partialMembers_iff {members : List (EnsembleMember Row S E I)}
    (hdistinct : (members.map EnsembleMember.identity).Nodup)
    (hmembers : ∀ member ∈ members, member.identity ∈ live) {lake : Lake K H S E I}
    (hpruned : Pruned std lake) :
    (∀ member ∈ members, (viewOf (commit lake
        (partialMembers live reviewLow stamp segment std members lake))
          member.identity).Within std) ↔
      ∀ member ∈ members, SparedBy segment std lake member := by
  induction members generalizing lake with
  | nil => simp
  | cons first members ih =>
      rw [List.map_cons, List.nodup_cons] at hdistinct
      rw [List.forall_mem_cons] at hmembers
      rw [partialMembers, commit_append, List.forall_mem_cons, List.forall_mem_cons,
        ih hdistinct.2 hmembers.2 (pruned_partialPass hmembers.1)]
      apply and_congr
      · -- the members after it leave the first one's scores alone
        rw [← within_partial_of_pruned hmembers.1 hpruned, ModelView.Within,
          (view_partialMembers_other hmembers.1 hdistinct.1 _).1]
        exact Iff.rfl
      · apply forall₂_congr
        intro member hmember
        apply sparedBy_partial_other _ (hmembers.2 member hmember)
        exact ne_of_mem_of_not_mem (List.mem_map_of_mem hmember) hdistinct.1

variable {first : EnsembleMember Row S E I} {rest : List (EnsembleMember Row S E I)}
  {lake : Lake K H S E I}

/-- From a ledger that covers the active scores, the first member sees every departed record
and prunes the ledger; the members end within the corpus exactly when the others are spared. -/
theorem within_incremental_iff (hdistinct : ((first :: rest).map EnsembleMember.identity).Nodup)
    (hmembers : ∀ member ∈ first :: rest, member.identity ∈ live) (hcovers : LedgerCovers lake) :
    (∀ member ∈ first :: rest, (viewOf (commit lake
        (partialMembers live reviewLow stamp segment std (first :: rest) lake))
          member.identity).Within std) ↔
      ∀ member ∈ rest, SparedBy segment std lake member := by
  rw [List.map_cons, List.nodup_cons] at hdistinct
  rw [List.forall_mem_cons] at hmembers
  rw [partialMembers, commit_append, List.forall_mem_cons,
    within_partialMembers_iff hdistinct.2 hmembers.2 (pruned_partialPass hmembers.1), and_iff_right]
  · apply forall₂_congr
    intro member hmember
    apply sparedBy_partial_other _ (hmembers.2 member hmember)
    exact ne_of_mem_of_not_mem (List.mem_map_of_mem hmember) hdistinct.1
  · rw [ModelView.Within, (view_partialMembers_other hmembers.1 hdistinct.1 _).1]
    exact within_partial_of_covers hmembers.1 hcovers

theorem nothing_incremental (hmembers : ∀ member ∈ first :: rest, member.identity ∈ live)
    (hdead : identity ∉ live) :
    viewOf (commit lake (partialMembers live reviewLow stamp segment std (first :: rest) lake))
      identity = .nothing := by
  rw [List.forall_mem_cons] at hmembers
  have hother : identity ≠ first.identity := fun hsame => hdead (hsame ▸ hmembers.1)
  rw [partialMembers, commit_append]
  apply nothing_partialMembers hmembers.2 hdead
  rw [viewOf_commit, view_partial_dead hother hdead]

theorem lists_incremental (hdistinct : ((first :: rest).map EnsembleMember.identity).Nodup)
    (hmembers : ∀ member ∈ first :: rest, member.identity ∈ live) :
    (viewOf (commit lake (partialMembers live reviewLow stamp segment std (first :: rest) lake))
      first.identity).Lists std := by
  rw [List.map_cons, List.nodup_cons] at hdistinct
  have hlive := hmembers first List.mem_cons_self
  rw [partialMembers, commit_append]
  apply (view_partialMembers_other hlive hdistinct.1 _).2
  rw [ModelView.Lists, scored_partial_self hlive]
  exact fun key hkey => contentHash_isSome.mpr hkey

end Members

section Histories

variable {lake : Lake K H S E I} {step : EnsembleStep K H Row S E I}

omit [LinearOrder S] [DecidableEq H] in
theorem resident_iff :
    Resident step lake ↔
      (∀ member ∈ step.ensemble.members, (viewOf lake member.identity).Within step.std) ∧
        ∀ identity ∉ step.ensemble.live, ∀ a b, (viewOf lake identity).active a b = none := by
  apply Iff.intro
  · intro hresident
    apply And.intro
    · intro member _ a b hsome
      obtain ⟨verdict, hverdict⟩ := Option.isSome_iff_exists.mp hsome
      obtain ⟨ha, hb, _⟩ := hresident member.identity a b verdict hverdict
      exact ⟨ha, hb⟩
    · intro identity hdead a b
      rw [Option.eq_none_iff_forall_ne_some]
      intro verdict hverdict
      exact hdead (hresident identity a b verdict hverdict).2.2
  · intro hviews identity a b verdict hverdict
    by_cases hlive : identity ∈ step.ensemble.live
    · obtain ⟨member, hmember, rfl⟩ := List.mem_map.mp hlive
      obtain ⟨ha, hb⟩ := hviews.1 member hmember a b (Option.isSome_of_eq_some hverdict)
      exact ⟨ha, hb, hlive⟩
    · exact absurd hverdict (by
        rw [show activeVerdict lake identity a b = none from hviews.2 identity hlive a b]
        exact fun h => by cases h)

/-- A full pass leaves only scores of the corpus and of live members. -/
theorem resident_full {config : Config S} (hpass : step.pass = .full config) :
    Resident step (completeEnsemble lake step) := by
  rw [completeEnsemble, hpass, resident_iff]
  apply And.intro
  · intro member hmember
    exact (settled_full (List.mem_map_of_mem hmember) lake).1
  · intro identity hdead a b
    rw [active_full_dead hdead]

theorem resident_incremental_iff {segment : Option (Row → Option Bool)}
    (hpass : step.pass = .incremental segment) (hcovers : LedgerCovers lake) :
    Resident step (completeEnsemble lake step) ↔
      ∀ member ∈ step.ensemble.members.tail, SparedBy segment step.std lake member := by
  obtain ⟨first, rest, hmembers⟩ := List.exists_cons_of_ne_nil step.ensemble.nonempty
  have hlive : ∀ member ∈ step.ensemble.members, member.identity ∈ step.ensemble.live :=
    fun member hmember => List.mem_map_of_mem hmember
  have hdistinct := step.ensemble.distinct
  rw [resident_iff, completeEnsemble, hpass]
  simp only [runMatchEnsembleIncremental]
  rw [← Ensemble.live]
  rw [hmembers] at hlive hdistinct ⊢
  rw [within_incremental_iff hdistinct hlive hcovers, List.tail_cons, and_iff_left]
  intro identity hdead a b
  rw [nothing_incremental hlive hdead]
  rfl

theorem exists_lists_completeEnsemble (lake : Lake K H S E I) (step : EnsembleStep K H Row S E I) :
    ∃ owner, (viewOf (completeEnsemble lake step) owner).Lists step.std := by
  obtain ⟨first, rest, hmembers⟩ := List.exists_cons_of_ne_nil step.ensemble.nonempty
  refine ⟨first.identity, ?_⟩
  rw [completeEnsemble]
  cases step.pass with
  | full config =>
      apply (settled_full _ lake).2
      rw [hmembers]
      exact List.mem_cons_self
  | incremental segment =>
      have hlive : ∀ member ∈ step.ensemble.members, member.identity ∈ step.ensemble.live :=
        fun member hmember => List.mem_map_of_mem hmember
      have hdistinct := step.ensemble.distinct
      simp only [runMatchEnsembleIncremental]
      rw [← Ensemble.live]
      rw [hmembers] at hlive hdistinct ⊢
      exact lists_incremental hdistinct hlive

/-- A pass that leaves only scores of the corpus leaves a ledger that covers them. -/
theorem covers_of_resident (hresident : Resident step (completeEnsemble lake step)) :
    LedgerCovers (completeEnsemble lake step) := by
  obtain ⟨owner, hlists⟩ := exists_lists_completeEnsemble lake step
  intro identity a b hsome
  obtain ⟨verdict, hverdict⟩ := Option.isSome_iff_exists.mp hsome
  obtain ⟨ha, hb, _⟩ := hresident identity a b verdict hverdict
  exact ⟨⟨owner, hlists a ha⟩, owner, hlists b hb⟩

/-- From a ledger that covers the active scores, a pass leaves only scores of the corpus and
of live members exactly when its pruning is harmless. -/
theorem resident_iff_pruneHarmless (hcovers : LedgerCovers lake) :
    Resident step (completeEnsemble lake step) ↔ PruneHarmless lake step := by
  rw [PruneHarmless]
  cases hpass : step.pass with
  | full config => exact iff_of_true (resident_full hpass) trivial
  | incremental segment => exact resident_incremental_iff hpass hcovers

end Histories

/-- In a history of completed full and incremental ensemble passes, with any corpora and
any ensembles, every pass leaves only active scores between records of the corpus and of
live members exactly when every incremental pass spares each member after its first. -/
theorem departed_records_leave_iff (history : List (EnsembleStep K H Row S E I)) :
    AfterEach completeEnsemble Resident (Lake.fresh : Lake K H S E I) history ↔
      Along completeEnsemble PruneHarmless (Lake.fresh : Lake K H S E I) history := by
  apply afterEach_iff_along LedgerCovers
  · intro step _ lake hcovers
    exact resident_iff_pruneHarmless hcovers
  · intro step _ lake _ hresident
    exact covers_of_resident hresident
  · intro identity a b hsome
    rw [activeVerdict_fresh] at hsome
    cases hsome

/-- Two members score a pair in full, then one of its records leaves. -/
def sampleDeparture : List (EnsembleStep ℕ ℕ ℕ ℕ Unit ℕ) :=
  let ensemble : Ensemble ℕ ℕ Unit ℕ := ⟨[sampleMember 0, sampleMember 1], by simp, by decide⟩
  [⟨sampleCorpus [(1, 3), (2, 5)], ensemble, 7, ⟨"run-1", 1⟩, .full ⟨[], 9⟩⟩,
    ⟨sampleCorpus [(1, 3)], ensemble, 7, ⟨"run-2", 2⟩, .incremental none⟩]

/-- The second member keeps its score of the departed record. -/
theorem second_member_keeps_departed :
    ¬ AfterEach completeEnsemble Resident Lake.fresh sampleDeparture := by
  intro hrun
  have hresident := hrun.2.1 1 1 2 ⟨8, 3, 5⟩ (by decide +kernel)
  exact absurd hresident.2.1 (by decide +kernel)

end EntityResolution.Match
