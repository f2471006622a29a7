/-
# What becomes of an `always`

An `always` is an edge of probability one, so no cut may touch it. It meets the other rules in
three steps: it is added to the score edges, every edge whose own pair is a `never` is dropped,
and the fixpoint cuts what else still joins a `never`. A contradiction that runs through other
edges reaches the fixpoint, which can cut none of them and escalates the pair. An `always` on
the very pair of a `never` or of a broken constraint is dropped before that, and nobody is told.
-/

import EntityResolution.NeverCut.RowOrder
import EntityResolution.Reconcile.Settled

namespace EntityResolution.Reconcile

open EntityResolution.Collections EntityResolution.Identity EntityResolution.NeverCut

universe u v w x y

variable {R : Type u} {P : Type v} {C : Type w} {V : Type x} {A : Type y} [LinearOrder R]
  [LinearOrder P] [One P] [DecidableEq V]

omit [LinearOrder P] [One P] in
theorem getElem?_probabilities_append {edges last : List (PathEdge R P)} {value : P} {pair : R × R}
    (hlast : ∀ edge ∈ last, edge.probability = value) (hpair : ∃ edge ∈ last, edge.pair = pair) :
    (probabilities (edges ++ last))[toLex pair]? = some value := by
  induction last using List.reverseRecOn with
  | nil => simp at hpair
  | append_singleton init edge ih =>
      rw [← List.append_assoc, getElem?_probabilities_concat]
      split
      · rw [hlast edge (by simp)]
      · rename_i hother
        apply ih
        · intro other hmem
          exact hlast other (List.mem_append_left _ hmem)
        · obtain ⟨other, hmem, hsame⟩ := hpair
          rcases List.mem_append.mp hmem with hinit | hedge
          · exact ⟨other, hinit, hsame⟩
          · rw [List.mem_singleton] at hedge
            exact absurd (hedge ▸ hsame) hother

namespace ReconcileInput

variable (input : ReconcileInput R P C V A)

/-- An active `always` on two records that are clustered. -/
def Asserted (rule : Assertion R (RuleId R A)) : Prop :=
  rule ∈ input.assertions ∧ rule.kind = .always ∧ rule.recAKey ∈ input.nodes ∧
    rule.recBKey ∈ input.nodes

/-- Two records, the smaller first, that an active `never` or a constraint keeps apart. -/
def Forbidden (a b : R) : Prop :=
  a < b ∧ ((∃ rule ∈ input.assertions, rule.kind = .never ∧ rule.recAKey = a ∧ rule.recBKey = b) ∨
    input.Violating a b)

/-- The edges that no cut may touch, by the row that decides for each pair: the asserted ones,
those at or above the threshold, and those of a protected record. -/
def firmEdges : List (PathEdge R P) :=
  uncuttable input.cutProtectProbability input.protectedRecords (lastRows input.proposedEdges)

/-- A firm edge joins the records and its own pair is not forbidden. -/
def Standing (a b : R) : Prop :=
  ∃ edge ∈ input.firmEdges, edge.pair = canon a b ∧ ¬ input.Forbidden edge.left edge.right

/-- A firm edge of another pair than the rule's joins the records. -/
def Beside (rule : Assertion R (RuleId R A)) (a b : R) : Prop :=
  ∃ edge ∈ input.firmEdges, edge.pair = canon a b ∧ edge.pair ≠ rule.pair

/-- The rule joins the records, directly or together with other firm edges. -/
def JoinedBy (rule : Assertion R (RuleId R A)) (a b : R) : Prop :=
  (Relation.ReflTransGen (input.Beside rule) a rule.recAKey ∧
    Relation.ReflTransGen (input.Beside rule) rule.recBKey b) ∨
  (Relation.ReflTransGen (input.Beside rule) a rule.recBKey ∧
    Relation.ReflTransGen (input.Beside rule) rule.recAKey b)

variable {input} {result : CutResult R P (RuleId R A)} {rule : Assertion R (RuleId R A)} {a b : R}

omit [LinearOrder P] in
theorem keptEdges_eq_filter : input.keptEdges = input.proposedEdges.filter fun edge =>
    decide (edge.pair ∉ input.nevers.map fun rule => (rule.recAKey, rule.recBKey)) := by
  apply List.filter_congr
  intro edge hedge
  rw [pair_of_ordered (proposedEdges_ordered hedge)]

omit [LinearOrder P] in
theorem mem_never_pairs (hconnected : Connected input.proposedEdges a b) :
    (a, b) ∈ input.nevers.map (fun rule => (rule.recAKey, rule.recBKey)) ↔ input.Forbidden a b := by
  rw [List.mem_map]
  apply Iff.intro
  · intro h
    obtain ⟨rule, hrule, hpair⟩ := h
    cases hpair
    refine ⟨(nevers_spec hrule).2.2, ?_⟩
    rcases List.mem_append.mp hrule with hsteward | hconstraint
    · obtain ⟨hmem, hkind⟩ := mem_stewardNevers.mp hsteward
      exact .inl ⟨rule, hmem, hkind, rfl, rfl⟩
    · obtain ⟨a, b, rfl, _, _, hviolating⟩ := mem_constraintNevers.mp hconstraint
      exact .inr hviolating
  · intro h
    obtain ⟨hlt, ⟨rule, hmem, hkind, rfl, rfl⟩ | hviolating⟩ := h
    · exact ⟨rule, List.mem_append_left _ (mem_stewardNevers.mpr ⟨hmem, hkind⟩), rfl⟩
    · exact ⟨_, List.mem_append_right _ (mem_constraintNevers.mpr
        ⟨a, b, rfl, hlt, hconnected, hviolating⟩), rfl⟩

omit [LinearOrder P] [DecidableEq V] in
theorem lastRows_joined {edge : PathEdge R P} (hedge : edge ∈ lastRows input.proposedEdges) :
    Joined input.proposedEdges edge.left edge.right :=
  joined_lastRows.mp ⟨edge, hedge, rfl⟩

omit [LinearOrder P] in
theorem mem_lastRows_keptEdges {edge : PathEdge R P} :
    edge ∈ lastRows input.keptEdges ↔
      edge ∈ lastRows input.proposedEdges ∧ ¬ input.Forbidden edge.left edge.right := by
  rw [mem_lastRows, mem_lastRows, keptEdges_eq_filter,
    getElem?_probabilities_filter (fun pair => decide (pair ∉ input.nevers.map fun rule =>
      (rule.recAKey, rule.recBKey)))]
  apply Iff.intro
  · intro h
    split at h
    · rename_i hkeep
      refine ⟨h, ?_⟩
      intro hforbidden
      have hjoined := lastRows_joined (mem_lastRows.mpr h)
      exact of_decide_eq_true hkeep ((mem_never_pairs (.single hjoined)).mpr hforbidden)
    · cases h
  · intro h
    obtain ⟨hvalue, hallowed⟩ := h
    have hjoined := lastRows_joined (mem_lastRows.mpr hvalue)
    have hkeep : decide ((edge.left, edge.right) ∉ input.nevers.map fun rule =>
        (rule.recAKey, rule.recBKey)) = true :=
      decide_eq_true fun hmem => hallowed ((mem_never_pairs (.single hjoined)).mp hmem)
    rw [if_pos hkeep]
    exact hvalue

theorem joined_uncuttable_iff : Joined (uncuttable input.cutProtectProbability
    input.protectedRecords (lastRows input.keptEdges)) a b ↔ input.Standing a b := by
  apply exists_congr
  intro edge
  simp only [firmEdges, uncuttable, List.mem_filter, mem_lastRows_keptEdges]
  tauto

theorem connected_uncuttable_iff : Connected (uncuttable input.cutProtectProbability
    input.protectedRecords (lastRows input.keptEdges)) a b ↔
      Relation.ReflTransGen input.Standing a b := by
  have hsame : Joined (uncuttable input.cutProtectProbability input.protectedRecords
      (lastRows input.keptEdges)) = input.Standing := by
    funext c d
    exact propext joined_uncuttable_iff
  rw [Connected, hsame]

theorem exists_final (hresult : input.neverCut = .ok result) :
    ∃ (everyNode : BTreeSet R) (final : CutState R P (RuleId R A)),
      Sound (lastRows input.keptEdges) input.nevers input.cutProtectProbability
        input.protectedRecords final ∧
      violations input.nevers everyNode final = [] ∧ result.cuts = final.cuts ∧
        result.escalations = final.escalated := by
  rw [neverCut] at hresult
  split at hresult
  · rename_i hnil
    cases hresult
    rw [hnil]
    exact ⟨∅, _, sound_start, rfl, rfl, rfl⟩
  · rw [(readsAlike_lastRows _ _).fixpoint_eq] at hresult
    have hne : ∀ rule ∈ input.nevers, rule.recAKey ≠ rule.recBKey :=
      fun rule hrule => (nevers_spec hrule).2.2.ne
    obtain ⟨final, hsound, hsettled, hcuts, hescalations⟩ := exists_sound_of_fixpoint hne hresult
    rw [activeNever_nevers] at hsound hsettled
    exact ⟨_, final, hsound, hsettled, hcuts, hescalations⟩

theorem connected_clusteringEdges_iff {final : CutState R P (RuleId R A)}
    (hlive : final.live = remaining (lastRows input.keptEdges) final.cuts)
    (hcuts : result.cuts = final.cuts) :
    Connected (input.clusteringEdges result) a b ↔ Connected final.live a b := by
  have halike := (readsAlike_lastRows input.cutProtectProbability input.keptEdges).filter
    fun pair => decide (pair ∉ final.cuts.map Cut.pair)
  have hsame : Joined (input.clusteringEdges result) = Joined final.live := by
    funext c d
    rw [clusteringEdges_eq_remaining, hlive, hcuts]
    exact propext (halike.joined c d)
  rw [Connected, Connected, hsame]

/-- No cut touches what is left standing. -/
theorem connected_of_standing (hresult : input.neverCut = .ok result)
    (hstanding : Relation.ReflTransGen input.Standing a b) :
    Connected (input.clusteringEdges result) a b := by
  obtain ⟨everyNode, final, hsound, _, hcuts, _⟩ := exists_final hresult
  rw [connected_clusteringEdges_iff hsound.live_eq hcuts]
  rw [← connected_uncuttable_iff] at hstanding
  exact hstanding.mono fun edge hedge =>
    hsound.uncuttable_live (lastRows_pairs_nodup _) hedge

/-- Forbidden pairs that the edges join are escalated exactly when they are left standing, and
separated otherwise. -/
theorem Forbidden.outcome (hforbidden : input.Forbidden a b)
    (hconnected : Connected input.proposedEdges a b) (hresult : input.neverCut = .ok result) :
    (Escalated result.escalations (a, b) ↔ Relation.ReflTransGen input.Standing a b) ∧
      (Connected (input.clusteringEdges result) a b →
        Relation.ReflTransGen input.Standing a b) := by
  obtain ⟨everyNode, final, hsound, hsettled, hcuts, hescalations⟩ := exists_final hresult
  obtain ⟨rule, hrule, hpair⟩ := List.mem_map.mp ((mem_never_pairs hconnected).mpr hforbidden)
  cases hpair
  have hne : ∀ other ∈ input.nevers, other.recAKey ≠ other.recBKey :=
    fun other hother => (nevers_spec hother).2.2.ne
  have hcanon : rule.pair = (rule.recAKey, rule.recBKey) := by
    rw [Assertion.pair, canon_eq_min_max, min_eq_left hforbidden.1.le, max_eq_right hforbidden.1.le]
  have hescalated := hsound.escalated_iff (lastRows_pairs_nodup _) hne hsettled hrule
  rw [connected_uncuttable_iff, hcanon] at hescalated
  rw [hescalations]
  refine ⟨hescalated, ?_⟩
  intro hjoined
  rw [connected_clusteringEdges_iff hsound.live_eq hcuts] at hjoined
  have hclosed := (hsound.closed hne hsettled hrule).resolve_right (not_not_intro hjoined)
  rw [hcanon] at hclosed
  exact hescalated.mp hclosed

omit [LinearOrder P] [One P] [DecidableEq V] in
theorem Asserted.mem_alwaysRules (hasserted : input.Asserted rule) : rule ∈ input.alwaysRules := by
  obtain ⟨hmem, hkind, ha, hb⟩ := hasserted
  exact ReconcileInput.mem_alwaysRules.mpr
    ⟨hmem, hkind, (mem_nodes.mp ha).2, (mem_nodes.mp hb).2⟩

omit [LinearOrder P] [DecidableEq V] in
theorem Asserted.joined (hasserted : input.Asserted rule) :
    Joined input.proposedEdges rule.recAKey rule.recBKey :=
  ⟨_, mem_proposedEdges.mpr (.inr ⟨rule, hasserted.mem_alwaysRules, rfl⟩), rfl⟩

omit [LinearOrder P] [DecidableEq V] in
/-- The asserted edges come last, so the row of an asserted pair that decides is asserted. -/
theorem alwaysEdge_mem_lastRows (hrule : rule ∈ input.alwaysRules) :
    alwaysEdge rule ∈ lastRows input.proposedEdges := by
  have hlast : ∀ edge ∈ input.alwaysRules.map alwaysEdge, edge.probability = (1 : P) := by
    intro edge hedge
    obtain ⟨_, _, rfl⟩ := List.mem_map.mp hedge
    rfl
  have hlt : rule.recAKey < rule.recBKey :=
    input.assertions_ordered rule (ReconcileInput.mem_alwaysRules.mp hrule).1
  have hpair : ∃ edge ∈ input.alwaysRules.map (alwaysEdge (P := P)),
      edge.pair = (rule.recAKey, rule.recBKey) :=
    ⟨_, List.mem_map_of_mem hrule, pair_of_ordered hlt⟩
  exact mem_lastRows.mpr (getElem?_probabilities_append hlast hpair)

omit [DecidableEq V] in
theorem alwaysEdge_mem_firmEdges (hprotect : input.cutProtectProbability ≤ 1)
    (hrule : rule ∈ input.alwaysRules) : alwaysEdge rule ∈ input.firmEdges := by
  refine List.mem_filter.mpr ⟨alwaysEdge_mem_lastRows hrule, decide_eq_true ?_⟩
  intro hcuttable
  exact absurd hcuttable.1 (not_lt.mpr hprotect)

/-- An `always` whose own pair is not forbidden is left standing. -/
theorem Asserted.standing (hprotect : input.cutProtectProbability ≤ 1)
    (hasserted : input.Asserted rule) (hallowed : ¬ input.Forbidden rule.recAKey rule.recBKey) :
    input.Standing rule.recAKey rule.recBKey :=
  ⟨_, alwaysEdge_mem_firmEdges hprotect hasserted.mem_alwaysRules, rfl, hallowed⟩

theorem Asserted.connected_iff (hprotect : input.cutProtectProbability ≤ 1)
    (hresult : input.neverCut = .ok result) (hasserted : input.Asserted rule) :
    Connected (input.clusteringEdges result) rule.recAKey rule.recBKey ↔
      Relation.ReflTransGen input.Standing rule.recAKey rule.recBKey := by
  apply Iff.intro
  · intro hconnected
    by_cases hforbidden : input.Forbidden rule.recAKey rule.recBKey
    · exact (hforbidden.outcome (.single hasserted.joined) hresult).2 hconnected
    · exact .single (hasserted.standing hprotect hforbidden)
  · exact connected_of_standing hresult

omit [DecidableEq V] in
/-- What a rule joins is joined by edges of the input. -/
theorem JoinedBy.connected (hasserted : input.Asserted rule) (hjoined : input.JoinedBy rule a b) :
    Connected input.proposedEdges a b := by
  have hbeside {c d : R} (hwalk : Relation.ReflTransGen (input.Beside rule) c d) :
      Connected input.proposedEdges c d := by
    apply Relation.ReflTransGen.mono _ c d hwalk
    intro c d h
    obtain ⟨edge, hedge, hpair, _⟩ := h
    exact joined_lastRows.mp ⟨edge, (List.mem_filter.mp hedge).1, hpair⟩
  rcases hjoined with ⟨hfirst, hlast⟩ | ⟨hfirst, hlast⟩
  · exact ((hbeside hfirst).tail hasserted.joined).trans (hbeside hlast)
  · exact ((hbeside hfirst).tail hasserted.joined.symm).trans (hbeside hlast)

end ReconcileInput

/-! ## The entities -/

section Entities

variable {S H : Type} [LinearOrder S] [LinearOrder H] {digest : EventDetails S V7Id → H}
  {input : ReconcileInput S P C V A} {stamp : RunStamp} {lake : Lake S H}
  {result : CutResult S P (RuleId S A)} {groups : BTreeMap S (Finset S)}
  {plan : ReconcilePlan S V7Id H}

theorem RunPlanned.share_iff (hrun : RunPlanned digest input stamp lake result groups plan)
    {a b : S} (ha : a ∈ input.nodes) (hb : b ∈ input.nodes) (hne : a ≠ b) :
    (∃ id, (commit lake (statementsOf digest input stamp lake plan)).entityOf a = some id ∧
      (commit lake (statementsOf digest input stamp lake plan)).entityOf b = some id) ↔
        Connected (input.clusteringEdges result) a b := by
  have hcorpus := ReconcileInput.mem_nodes.mp ha
  have hcorpus' := ReconcileInput.mem_nodes.mp hb
  simp only [entityOf_after, hrun.entityOf_written]
  apply Iff.intro
  · intro h
    obtain ⟨id, ⟨_, hlands⟩, ⟨_, hlands'⟩⟩ := h
    rcases (hrun.planned.lands_together_iff hlands).mp hlands' with hgroup | ⟨hsame, _⟩
    · exact (ReconcileInput.exists_group_partitionOf.mp hgroup).2.2
    · exact absurd hsame hne
  · intro hconnected
    obtain ⟨id, hid⟩ := hrun.exists_member hcorpus.1 hcorpus.2
    have hlands := hrun.entityOf_written.mp hid
    refine ⟨id, hlands, hcorpus'.1, (hrun.planned.lands_together_iff hlands.2).mpr (.inl ?_)⟩
    exact ReconcileInput.exists_group_partitionOf.mpr ⟨.inl ha, .inl hb, hconnected⟩

/-- An `always` is kept, and every contradiction that runs through it is escalated, exactly
when the drop of the forbidden pairs' own edges separates nothing: not the records of the
`always`, and no forbidden pair that it joined. -/
theorem always_upheld_iff (hsound : lake.Sound) (hprotect : input.cutProtectProbability ≤ 1)
    (hplan : runPlan digest input stamp lake = .ok plan) (hresult : input.neverCut = .ok result) :
    (∀ rule, input.Asserted rule →
      (∃ id,
        (commit lake (statementsOf digest input stamp lake plan)).entityOf rule.recAKey = some id ∧
        (commit lake (statementsOf digest input stamp lake plan)).entityOf rule.recBKey = some id) ∧
      ∀ a b, input.Forbidden a b → input.JoinedBy rule a b →
        Escalated result.escalations (a, b)) ↔
    ∀ rule, input.Asserted rule →
      Relation.ReflTransGen input.Standing rule.recAKey rule.recBKey ∧
      ∀ a b, input.Forbidden a b → input.JoinedBy rule a b →
        Relation.ReflTransGen input.Standing a b := by
  obtain ⟨result', groups, hrun⟩ := hsound.exists_runPlanned hplan
  cases hresult.symm.trans hrun.neverCut
  apply forall_congr'
  intro rule
  apply imp_congr_right
  intro hasserted
  obtain ⟨hmem, hkind, ha, hb⟩ := hasserted
  rw [hrun.share_iff ha hb (input.assertions_ordered rule hmem).ne,
    ReconcileInput.Asserted.connected_iff hprotect hresult ⟨hmem, hkind, ha, hb⟩]
  apply and_congr_right
  intro _
  apply forall_congr'
  intro a
  apply forall_congr'
  intro b
  apply imp_congr_right
  intro hforbidden
  apply imp_congr_right
  intro hjoined
  exact (hforbidden.outcome (ReconcileInput.JoinedBy.connected ⟨hmem, hkind, ha, hb⟩ hjoined)
    hresult).1

end Entities

/-- The two `always` of the sample stand, and with them all three records. -/
theorem sampleVeto_standing : Relation.ReflTransGen sampleVeto.Standing 1 2 ∧
    Relation.ReflTransGen sampleVeto.Standing 2 3 := by
  have hsteward {a b : ℕ} (hforbidden : sampleVeto.Forbidden a b) : sampleVeto.Violating a b := by
    rcases hforbidden.2 with ⟨rule, hmem, hkind, _, _⟩ | hviolating
    · simp only [sampleVeto, List.mem_cons, List.not_mem_nil, or_false] at hmem
      rcases hmem with rfl | rfl <;> cases hkind
    · exact hviolating
  have hallowed : ¬ sampleVeto.Forbidden 1 2 := by
    intro hforbidden
    obtain ⟨l, r, hl, hr, hviolates⟩ := hsteward hforbidden
    cases (show some (fun _ => some 5) = some l from hl)
    cases (show some (fun _ => none) = some r from hr)
    revert hviolates
    decide
  have hallowed' : ¬ sampleVeto.Forbidden 2 3 := by
    intro hforbidden
    obtain ⟨l, r, hl, hr, hviolates⟩ := hsteward hforbidden
    cases (show some (fun _ => none) = some l from hl)
    cases (show some (fun _ => some 6) = some r from hr)
    revert hviolates
    decide
  have hnodes : 1 ∈ sampleVeto.nodes ∧ 2 ∈ sampleVeto.nodes ∧ 3 ∈ sampleVeto.nodes := by
    decide +kernel
  have hfirst : sampleVeto.Asserted ⟨.steward 1, 1, 2, .always, true⟩ :=
    ⟨by simp [sampleVeto], rfl, hnodes.1, hnodes.2.1⟩
  have hsecond : sampleVeto.Asserted ⟨.steward 2, 2, 3, .always, true⟩ :=
    ⟨by simp [sampleVeto], rfl, hnodes.2.1, hnodes.2.2⟩
  exact ⟨.single (hfirst.standing le_rfl hallowed), .single (hsecond.standing le_rfl hallowed')⟩

theorem always_upheld_iff_sample : ∃ plan,
    runPlan sampleRunDigest sampleVeto ⟨"first", 7⟩ .fresh = .ok plan ∧
      (∃ id, (commit .fresh (statementsOf sampleRunDigest sampleVeto ⟨"first", 7⟩ .fresh
          plan)).entityOf 1 = some id ∧
        (commit .fresh (statementsOf sampleRunDigest sampleVeto ⟨"first", 7⟩ .fresh
          plan)).entityOf 2 = some id) ∧
      Escalated [(1, 3, (.constraint 1 3 : RuleId ℕ ℕ))] (1, 3) := by
  have hcompletes : (runPlan sampleRunDigest sampleVeto ⟨"first", 7⟩ .fresh).toOption.isSome =
      true := by
    decide +kernel
  have hresult : sampleVeto.neverCut = .ok ⟨[], [(1, 3, .constraint 1 3)], 1⟩ := by
    decide +kernel
  have hnodes : 1 ∈ sampleVeto.nodes ∧ 2 ∈ sampleVeto.nodes := by decide +kernel
  have hkeys : sampleVeto.corpus.keys = [1, 2, 3] := by decide +kernel
  have hrecord {a : ℕ} {row : Unit → Option ℕ} (hrow : sampleVeto.corpus[a]? = some row) :
      a = 1 ∨ a = 2 ∨ a = 3 := by
    have hmem := BTreeMap.mem_keys.mpr (BTreeMap.mem_iff_exists_getElem?.mpr ⟨row, hrow⟩)
    rw [hkeys] at hmem
    simpa using hmem
  obtain ⟨hfirst, hsecond⟩ := sampleVeto_standing
  have hall {a b : ℕ} (hforbidden : sampleVeto.Forbidden a b) :
      Relation.ReflTransGen sampleVeto.Standing a b := by
    obtain ⟨hlt, ⟨rule, hmem, hkind, _, _⟩ | ⟨l, r, hl, hr, _⟩⟩ := hforbidden
    · simp only [sampleVeto, List.mem_cons, List.not_mem_nil, or_false] at hmem
      rcases hmem with rfl | rfl <;> cases hkind
    · rcases hrecord hl with rfl | rfl | rfl <;> rcases hrecord hr with rfl | rfl | rfl <;>
        first
          | omega
          | exact hfirst
          | exact hsecond
          | exact hfirst.trans hsecond
  have hstands (rule : Assertion ℕ (RuleId ℕ ℕ)) (hasserted : sampleVeto.Asserted rule) :
      Relation.ReflTransGen sampleVeto.Standing rule.recAKey rule.recBKey ∧
        ∀ a b, sampleVeto.Forbidden a b → sampleVeto.JoinedBy rule a b →
          Relation.ReflTransGen sampleVeto.Standing a b := by
    refine ⟨?_, fun a b hforbidden _ => hall hforbidden⟩
    have hmem := hasserted.1
    simp only [sampleVeto, List.mem_cons, List.not_mem_nil, or_false] at hmem
    rcases hmem with rfl | rfl
    · exact hfirst
    · exact hsecond
  cases hplan : runPlan sampleRunDigest sampleVeto ⟨"first", 7⟩ .fresh with
  | error error => simp [hplan, Except.toOption] at hcompletes
  | ok plan =>
      have hupheld := (always_upheld_iff sound_fresh (le_refl (1 : ℕ)) hplan hresult).mpr hstands
        ⟨.steward 1, 1, 2, .always, true⟩ ⟨by simp [sampleVeto], rfl, hnodes.1, hnodes.2⟩
      refine ⟨plan, rfl, hupheld.1, ⟨_, List.mem_singleton.mpr rfl⟩⟩

theorem one_link_active :
    ∀ assertion ∈ [(⟨.steward 1, 1, 2, .always, true⟩ : Assertion ℕ (RuleId ℕ ℕ))],
      assertion.active = true := by
  simp

/-- A steward linked two records that differ in the vetoed column. -/
def sampleOverruled : ReconcileInput ℕ ℕ Unit ℕ ℕ where
  constraints := { veto := [()] }
  cutProtectProbability := 1
  maxIterations := 50
  corpus := Std.ExtTreeMap.ofList [(1, fun _ => some 5), (2, fun _ => some 6)] compare
  scores := []
  assertions := [⟨.steward 1, 1, 2, .always, true⟩]
  suppressed := ∅
  protectedRecords := ∅
  scores_ordered := no_scores_ordered
  assertions_ordered := by simp
  assertions_active := one_link_active

/-- The veto drops the steward's link: the records are apart and nothing is escalated. -/
theorem vetoed_always_dropped : ∃ lake : Lake ℕ ℕ,
    afterRun sampleRunDigest sampleOverruled ⟨"first", 1⟩ .fresh = .ok lake ∧
    sampleOverruled.Asserted ⟨.steward 1, 1, 2, .always, true⟩ ∧ sampleOverruled.Forbidden 1 2 ∧
    sampleOverruled.neverCut = .ok {} ∧
    lake.entityOf 1 = some ⟨1, 0⟩ ∧ lake.entityOf 2 = some ⟨1, 1⟩ := by
  have hruns : (afterRun sampleRunDigest sampleOverruled ⟨"first", 1⟩ .fresh).toOption.map
      (fun lake => (lake.entityOf 1, lake.entityOf 2)) = some (some ⟨1, 0⟩, some ⟨1, 1⟩) := by
    decide +kernel
  have hresult : sampleOverruled.neverCut = .ok {} := by decide +kernel
  have hnodes : 1 ∈ sampleOverruled.nodes ∧ 2 ∈ sampleOverruled.nodes := by decide +kernel
  have hviolating : sampleOverruled.Violating 1 2 :=
    ⟨fun _ => some 5, fun _ => some 6, rfl, rfl, by decide⟩
  cases hlake : afterRun sampleRunDigest sampleOverruled ⟨"first", 1⟩ .fresh with
  | error error => simp [hlake, Except.toOption] at hruns
  | ok lake =>
      simp only [hlake, Except.toOption, Option.map_some, Option.some.injEq, Prod.mk.injEq] at hruns
      exact ⟨lake, rfl, ⟨by simp [sampleOverruled], rfl, hnodes.1, hnodes.2⟩,
        ⟨by decide, .inr hviolating⟩, hresult, hruns.1, hruns.2⟩

end EntityResolution.Reconcile
