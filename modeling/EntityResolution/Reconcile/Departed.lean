/-
# Assertions on records that left the corpus

A run filters its nodes and its prior membership by the corpus, and every edge by the
suppressed records. No filter keeps an `always` from naming a record that left the corpus:
the record comes back as the end of an edge, is clustered, and is announced. Two records that
were each linked to it are then one entity.

Such an assertion is without influence when the suppression or a direct `never` drops its edge.
The rules on the record stay in the list of the never-cut then, but they are about records that
no edge joins.
-/

import EntityResolution.Reconcile.AlwaysRules
import EntityResolution.Reconcile.Crash

namespace EntityResolution.Reconcile

open EntityResolution.Collections EntityResolution.Identity EntityResolution.NeverCut
open EntityResolution.Tables

universe u v w x y

variable {R : Type u} {P : Type v} {C : Type w} {V : Type x} {A : Type y} [LinearOrder R]

namespace ReconcileInput

section Inside

variable (input : ReconcileInput R P C V A)

/-- Both records are in the corpus. -/
def inCorpus (a b : R) : Bool := input.corpus.contains a && input.corpus.contains b

/-- The input without the assertions that name a record outside the corpus. -/
def inside : ReconcileInput R P C V A :=
  { input with
    assertions := input.assertions.filter fun rule => input.inCorpus rule.recAKey rule.recBKey
    assertions_ordered := fun rule hrule =>
      input.assertions_ordered rule (List.mem_filter.mp hrule).1
    assertions_active := fun rule hrule =>
      input.assertions_active rule (List.mem_filter.mp hrule).1 }

/-- Every `always` that names a record outside the corpus touches a suppressed record or
stands on the pair of a `never`. -/
def OutsideInert : Prop :=
  ∀ rule ∈ input.assertions, rule.kind = .always →
    (rule.recAKey ∉ input.corpus ∨ rule.recBKey ∉ input.corpus) →
    (rule.recAKey ∈ input.suppressed ∨ rule.recBKey ∈ input.suppressed) ∨
      ∃ other ∈ input.assertions, other.kind = .never ∧ other.recAKey = rule.recAKey ∧
        other.recBKey = rule.recBKey

/-- The ends of every score are in the corpus. -/
def ScoresInCorpus : Prop :=
  ∀ edge ∈ input.scores, edge.left ∈ input.corpus ∧ edge.right ∈ input.corpus

end Inside

variable {input : ReconcileInput R P C V A} {a b : R} {edge : PathEdge R P}
  {rule : Assertion R (RuleId R A)}

theorem inCorpus_iff : input.inCorpus a b = true ↔ a ∈ input.corpus ∧ b ∈ input.corpus := by
  rw [inCorpus, Bool.and_eq_true, Std.ExtTreeMap.contains_iff_mem, Std.ExtTreeMap.contains_iff_mem]

section Edges

variable [One P]

/-- Without the outside assertions the proposed edges are those inside the corpus. -/
theorem proposedEdges_inside (hscores : input.ScoresInCorpus) :
    input.inside.proposedEdges =
      input.proposedEdges.filter fun edge => input.inCorpus edge.left edge.right := by
  have hkept : input.scoreEdges.filter (fun edge => input.inCorpus edge.left edge.right) =
      input.scoreEdges := by
    apply List.filter_eq_self.mpr
    intro edge hedge
    exact inCorpus_iff.mpr (hscores edge (List.mem_filter.mp hedge).1)
  have halways : input.inside.alwaysRules =
      input.alwaysRules.filter fun rule => input.inCorpus rule.recAKey rule.recBKey := by
    show (List.filter _ (List.filter _ _)) = List.filter _ (List.filter _ _)
    rw [List.filter_filter, List.filter_filter]
    apply List.filter_congr
    intro rule _
    exact Bool.and_comm _ _
  show input.scoreEdges ++ input.inside.alwaysRules.map alwaysEdge = _
  rw [proposedEdges, List.filter_append, hkept, halways, List.filter_map]
  rfl

theorem mem_proposedEdges_inside (hscores : input.ScoresInCorpus) :
    edge ∈ input.inside.proposedEdges ↔
      edge ∈ input.proposedEdges ∧ edge.left ∈ input.corpus ∧ edge.right ∈ input.corpus := by
  rw [proposedEdges_inside hscores, List.mem_filter, inCorpus_iff]

variable [DecidableEq V]

omit [One P] in
theorem forbidden_inside (ha : a ∈ input.corpus) (hb : b ∈ input.corpus) :
    input.inside.Forbidden a b ↔ input.Forbidden a b := by
  apply and_congr_right
  intro _
  apply or_congr_left
  apply Iff.intro
  · intro h
    obtain ⟨rule, hrule, hrest⟩ := h
    exact ⟨rule, (List.mem_filter.mp hrule).1, hrest⟩
  · intro h
    obtain ⟨rule, hrule, hkind, rfl, rfl⟩ := h
    exact ⟨rule, List.mem_filter.mpr ⟨hrule, inCorpus_iff.mpr ⟨ha, hb⟩⟩, hkind, rfl, rfl⟩

/-- When the outside assertions are inert, both runs keep the same edges. -/
theorem keptEdges_inside (hscores : input.ScoresInCorpus) (hinert : input.OutsideInert) :
    input.inside.keptEdges = input.keptEdges := by
  rw [keptEdges, keptEdges, proposedEdges_inside hscores, List.filter_filter]
  apply List.filter_congr
  intro edge hedge
  by_cases hin : input.inCorpus edge.left edge.right = true
  · have hends := inCorpus_iff.mp hin
    have hedge' : edge ∈ input.inside.proposedEdges :=
      (mem_proposedEdges_inside hscores).mpr ⟨hedge, hends⟩
    rw [hin, Bool.and_true, decide_eq_decide]
    apply not_congr
    rw [mem_never_pairs (.single ⟨edge, hedge, rfl⟩),
      mem_never_pairs (.single ⟨edge, hedge', rfl⟩), forbidden_inside hends.1 hends.2]
  · -- An outside edge is asserted, and a `never` on its pair drops it.
    rcases mem_proposedEdges.mp hedge with ⟨hscore, _⟩ | ⟨rule, hrule, rfl⟩
    · exact absurd (inCorpus_iff.mpr (hscores edge hscore)) hin
    · obtain ⟨hmem, hkind, ha, hb⟩ := mem_alwaysRules.mp hrule
      have hout : rule.recAKey ∉ input.corpus ∨ rule.recBKey ∉ input.corpus := by
        rw [← not_and_or, ← inCorpus_iff]
        exact hin
      rcases hinert rule hmem hkind hout with hsuppressed | ⟨never, hnever, hkind', hends⟩
      · rcases hsuppressed with hsuppressed | hsuppressed
        · exact absurd hsuppressed ha
        · exact absurd hsuppressed hb
      · have hdropped : (rule.recAKey, rule.recBKey) ∈
            input.nevers.map fun rule => (rule.recAKey, rule.recBKey) :=
          List.mem_map.mpr ⟨never, List.mem_append_left _ (mem_stewardNevers.mpr ⟨hnever, hkind'⟩),
            Prod.ext hends.1 hends.2⟩
        rw [Bool.not_eq_true] at hin
        rw [hin, Bool.and_false]
        exact (decide_eq_false (not_not_intro hdropped)).symm

omit [DecidableEq V] in
theorem constraintScope_nodup : input.constraintScope.Nodup :=
  ((BTreeMap.toList_pairwise_lt _).imp fun hlt hsame => hlt.ne (congrArg Prod.fst hsame)).filter _

/-- The constraint rules are listed by their pairs, each pair once. -/
theorem constraintNevers_pairwise : input.constraintNevers.Pairwise fun first second =>
    toLex (first.recAKey, first.recBKey) < toLex (second.recAKey, second.recBKey) := by
  rw [constraintNevers]
  split
  · exact List.Pairwise.nil
  · rw [List.pairwise_map]
    generalize hfound : (input.constraintScope ×ˢ input.constraintScope).filter (fun pair =>
      input.breaksConstraint pair.1 pair.2) = found
    -- A record has one label in the scope, so the pairs of records are distinct.
    have hlabel {record label label' : R} (h : (record, label) ∈ input.constraintScope)
        (h' : (record, label') ∈ input.constraintScope) : label = label' := by
      have hfirst := BTreeMap.mem_toList.mp (List.mem_filter.mp h).1
      have hsecond := BTreeMap.mem_toList.mp (List.mem_filter.mp h').1
      exact Option.some.inj (hfirst.symm.trans hsecond)
    have hnodup : (found.map fun pair => (pair.1.1, pair.2.1)).Nodup := by
      rw [← hfound]
      apply List.Nodup.map_on _ ((constraintScope_nodup.product constraintScope_nodup).filter _)
      intro first hfirst second hsecond hsame
      obtain ⟨⟨a, label⟩, ⟨b, label'⟩⟩ := first
      obtain ⟨⟨c, other⟩, ⟨d, other'⟩⟩ := second
      cases hsame
      obtain ⟨ha, hb⟩ := List.mem_product.mp (List.mem_filter.mp hfirst).1
      obtain ⟨hc, hd⟩ := List.mem_product.mp (List.mem_filter.mp hsecond).1
      rw [hlabel ha hc, hlabel hb hd]
    have hsorted : ((found.map fun pair => (pair.1.1, pair.2.1)).insertionSort
        fun first second => toLex first ≤ toLex second).Pairwise
          fun first second => toLex first ≤ toLex second :=
      List.pairwise_insertionSort _ _
    have hdistinct := ((List.perm_insertionSort (fun first second : R × R =>
      toLex first ≤ toLex second) _).nodup_iff).mpr hnodup
    exact (hsorted.and hdistinct).imp fun h => lt_of_le_of_ne h.1 h.2

/-- Between records that the kept edges join, both runs have the same rules, in one order. -/
theorem nevers_inside (hscores : input.ScoresInCorpus) (hinert : input.OutsideInert)
    {joins : Assertion R (RuleId R A) → Bool}
    (hjoins : ∀ rule, joins rule = true ↔
      Connected input.keptEdges rule.recAKey rule.recBKey) :
    input.inside.nevers.filter joins = input.nevers.filter joins := by
  have hmono {a b : R} (hconnected : Connected input.keptEdges a b) :
      Connected input.inside.proposedEdges a b := by
    rw [← keptEdges_inside hscores hinert] at hconnected
    exact hconnected.mono fun edge hedge => (mem_keptEdges.mp hedge).1
  have hcorpus {a b : R} (hne : a ≠ b) (hconnected : Connected input.keptEdges a b) :
      a ∈ input.corpus := by
    have hknown : Known [] input.inside.proposedEdges a := known_of_connected hne (hmono hconnected)
    rcases known_iff.mp hknown with hnode | ⟨edge, hedge, hend⟩
    · cases hnode
    · have hends := ((mem_proposedEdges_inside hscores).mp hedge).2
      rcases hend with rfl | rfl
      · exact hends.1
      · exact hends.2
  have hsteward : input.inside.stewardNevers.filter joins =
      input.stewardNevers.filter joins := by
    show List.filter joins (List.filter _ (List.filter _ _)) = List.filter joins (List.filter _ _)
    rw [List.filter_filter, List.filter_filter, List.filter_filter]
    apply List.filter_congr
    intro rule hrule
    cases hjoined : joins rule with
    | false => simp
    | true =>
        have hconnected := (hjoins rule).mp hjoined
        have hne := (input.assertions_ordered rule hrule).ne
        have hin : input.inCorpus rule.recAKey rule.recBKey = true :=
          inCorpus_iff.mpr ⟨hcorpus hne hconnected, hcorpus hne.symm hconnected.symm⟩
        simp [hin]
  have hconstraint : input.inside.constraintNevers.filter joins =
      input.constraintNevers.filter joins := by
    have hirrefl : Std.Irrefl fun first second : Assertion R (RuleId R A) =>
        toLex (first.recAKey, first.recBKey) < toLex (second.recAKey, second.recBKey) :=
      ⟨fun _ => lt_irrefl _⟩
    have hantisymm : Std.Antisymm fun first second : Assertion R (RuleId R A) =>
        toLex (first.recAKey, first.recBKey) < toLex (second.recAKey, second.recBKey) :=
      ⟨fun _ _ hlt hgt => absurd hgt hlt.asymm⟩
    apply (constraintNevers_pairwise.filter joins).eq_of_mem_iff
      (constraintNevers_pairwise.filter joins)
    intro rule
    rw [List.mem_filter, List.mem_filter]
    apply and_congr_left
    intro hjoined
    have hconnected := (hjoins rule).mp hjoined
    rw [mem_constraintNevers, mem_constraintNevers]
    apply exists_congr
    intro a
    apply exists_congr
    intro b
    apply and_congr_right
    intro hrule
    subst hrule
    have hproposed : Connected input.proposedEdges a b :=
      hconnected.mono fun edge hedge => (mem_keptEdges.mp hedge).1
    have hproposed' : Connected input.inside.proposedEdges a b := hmono hconnected
    simp only [hproposed, hproposed', true_and]
    exact Iff.rfl
  rw [nevers, nevers, List.filter_append, List.filter_append, hsteward, hconstraint]

end Edges

section Cut

variable [One P] [LinearOrder P] [DecidableEq V]

/-- The shortcut for a run without rules is what the fixpoint returns. -/
theorem neverCut_eq_fixpoint : input.neverCut = neverCutFixpoint input.keptEdges input.nevers
    input.nodes input.cutProtectProbability input.protectedRecords input.rounds := by
  rw [neverCut]
  split
  · rename_i hnone
    simp [neverCutFixpoint, hnone, activeNever]
  · rfl

theorem neverCut_inside (hscores : input.ScoresInCorpus) (hinert : input.OutsideInert) :
    input.inside.neverCut = input.neverCut := by
  classical
  have hdrop (other : ReconcileInput R P C V A) : neverCutFixpoint input.keptEdges
        (other.nevers.filter fun rule =>
          decide (Connected input.keptEdges rule.recAKey rule.recBKey))
        input.nodes input.cutProtectProbability input.protectedRecords input.rounds =
      neverCutFixpoint input.keptEdges other.nevers input.nodes input.cutProtectProbability
        input.protectedRecords input.rounds := by
    apply fixpoint_filter
    · intro rule hrule
      exact (nevers_spec hrule).2.2.ne
    · intro rule _ hidle
      exact of_decide_eq_false hidle
  have hrules : input.inside.nevers.filter (fun rule =>
        decide (Connected input.keptEdges rule.recAKey rule.recBKey)) =
      input.nevers.filter fun rule =>
        decide (Connected input.keptEdges rule.recAKey rule.recBKey) :=
    nevers_inside hscores hinert fun rule => decide_eq_true_iff
  rw [neverCut_eq_fixpoint, neverCut_eq_fixpoint, keptEdges_inside hscores hinert, ← hdrop input,
    ← hrules]
  exact (hdrop input.inside).symm

omit [LinearOrder P] in
theorem partitionOf_inside (hscores : input.ScoresInCorpus) (hinert : input.OutsideInert)
    (result : CutResult R P (RuleId R A)) :
    input.inside.partitionOf result = input.partitionOf result := by
  rw [partitionOf, partitionOf, clusteringEdges, clusteringEdges, keptEdges_inside hscores hinert]
  rfl

omit [LinearOrder P] in
theorem mem_corpus_of_known (hscores : input.ScoresInCorpus) (hinert : input.OutsideInert)
    {result : CutResult R P (RuleId R A)} {record : R}
    (hknown : Known input.nodes (input.clusteringEdges result) record) : record ∈ input.corpus := by
  rcases known_iff.mp hknown with hnode | ⟨edge, hedge, hend⟩
  · exact (mem_nodes.mp hnode).1
  · have hkept := (List.mem_filter.mp hedge).1
    rw [← keptEdges_inside hscores hinert] at hkept
    have hends := ((mem_proposedEdges_inside hscores).mp (mem_keptEdges.mp hkept).1).2
    rcases hend with rfl | rfl
    · exact hends.1
    · exact hends.2

/-- An outside `always` that is not inert would bring its records into the clustering. -/
theorem outsideInert_of_known (hprotect : input.cutProtectProbability ≤ 1)
    {result : CutResult R P (RuleId R A)} (hresult : input.neverCut = .ok result)
    (hinside : ∀ record, Known input.nodes (input.clusteringEdges result) record →
      record ∈ input.corpus) : input.OutsideInert := by
  intro rule hmem hkind hout
  by_contra hactive
  rw [not_or, not_or] at hactive
  obtain ⟨hunsuppressed, hnever⟩ := hactive
  have hrule : rule ∈ input.alwaysRules := mem_alwaysRules.mpr ⟨hmem, hkind, hunsuppressed⟩
  have hallowed : ¬ input.Forbidden rule.recAKey rule.recBKey := by
    intro h
    obtain ⟨_, ⟨other, hother, hkind', hends⟩ | ⟨l, r, hl, hr, _⟩⟩ := h
    · exact hnever ⟨other, hother, hkind', hends⟩
    · rcases hout with ha | hb
      · exact ha (BTreeMap.mem_iff_exists_getElem?.mpr ⟨l, hl⟩)
      · exact hb (BTreeMap.mem_iff_exists_getElem?.mpr ⟨r, hr⟩)
  have hstanding : input.Standing rule.recAKey rule.recBKey :=
    ⟨_, alwaysEdge_mem_firmEdges hprotect hrule, rfl, hallowed⟩
  have hconnected := connected_of_standing hresult (.single hstanding)
  have hne := (input.assertions_ordered rule hmem).ne
  rcases hout with ha | hb
  · exact ha (hinside _ (known_of_connected hne hconnected))
  · exact hb (hinside _ (known_of_connected hne.symm hconnected.symm))

end Cut

end ReconcileInput

/-! ## What the run says -/

section Runs

variable {S H : Type} [LinearOrder S] [LinearOrder H] [LinearOrder P] [One P] [DecidableEq V]
  {digest : EventDetails S V7Id → H} {input : ReconcileInput S P C V A} {stamp : RunStamp}
  {lake : Lake S H} {result : CutResult S P (RuleId S A)} {groups : BTreeMap S (Finset S)}
  {plan : ReconcilePlan S V7Id H} {record : S}

/-- The event announces that records joined an entity. -/
def Announces (event : PlannedEvent S V7Id H) : Prop :=
  event.eventType = .created ∨ event.eventType = .memberAdded

theorem afterRun_inside (hscores : input.ScoresInCorpus) (hinert : input.OutsideInert) :
    afterRun digest input.inside stamp lake = afterRun digest input stamp lake := by
  have hplan : runPlan digest input.inside stamp lake = runPlan digest input stamp lake := by
    have hcorpus : input.inside.corpus = input.corpus := rfl
    rw [runPlan, runPlan, ReconcileInput.neverCut_inside hscores hinert]
    simp only [ReconcileInput.partitionOf_inside hscores hinert, hcorpus]
  rw [afterRun, afterRun, runReconcile, runReconcile, hplan]
  rfl

omit [LinearOrder H] in
/-- A record that is announced is in the corpus or came in with an edge. -/
theorem RunPlanned.known_of_announced
    (hrun : RunPlanned digest input stamp lake result groups plan) {event : PlannedEvent S V7Id H}
    (hevent : event ∈ plan.events) (hannounces : Announces event)
    (hrecord : record ∈ event.details.memberKeys) :
    record ∈ input.corpus ∨ Known input.nodes (input.clusteringEdges result) record := by
  have hplanned := ((hrun.planned.facts.mem_events event).mp hevent).1
  obtain ⟨entity, eventType, details, hash⟩ := event
  cases hplanned with
  | created hkey _ _ =>
      refine .inr (hrun.mem_clustered_iff.mp (mem_clustered.mpr ⟨_, _, hkey, ?_⟩))
      exact (Finset.mem_sort _).mp hrecord
  | memberAdded hkey _ _ =>
      refine .inr (hrun.mem_clustered_iff.mp (mem_clustered.mpr ⟨_, _, hkey, ?_⟩))
      exact (Finset.mem_sort _).mp (List.mem_filter.mp hrecord).1
  | orphan horphan _ =>
      cases List.mem_singleton.mp hrecord
      exact .inl (hrun.mem_orphans_iff.mp horphan).1
  | memberRemoved => rcases hannounces with h | h <;> cases h
  | split => rcases hannounces with h | h <;> cases h
  | retired => rcases hannounces with h | h <;> cases h
  | merged => rcases hannounces with h | h <;> cases h

omit [LinearOrder H] in
theorem RunPlanned.exists_announced
    (hrun : RunPlanned digest input stamp lake result groups plan)
    (hknown : Known input.nodes (input.clusteringEdges result) record)
    (hout : record ∉ input.corpus) :
    ∃ event ∈ plan.events, Announces event ∧ record ∈ event.details.memberKeys := by
  obtain ⟨key, members, hkey, hmem⟩ := mem_clustered.mp (hrun.mem_clustered_iff.mpr hknown)
  cases haccepted : (accepted (oldSets (lake.registry input.corpus.keys).pOld) groups)[key]? with
  | none =>
      have hmint : key ∈ mintKeys (oldSets (lake.registry input.corpus.keys).pOld) groups :=
        mem_mintKeys.mpr (.inl ⟨⟨members, hkey⟩, haccepted⟩)
      have hminted : ∃ id, (mintedIds (oldSets (lake.registry input.corpus.keys).pOld) groups
          (deterministicV7Factory stamp.runAt lake.entities.size))[key]? = some id :=
        exists_mintedId hrun.planned.canonical hmint
      obtain ⟨id, hid⟩ := hminted
      exact ⟨_, hrun.planned.mem_events_new.mpr (.created hkey haccepted hid), .inl rfl,
        (Finset.mem_sort _).mpr hmem⟩
  | some entity =>
      have hnew : record ∉ entityOfRecord (oldSets (lake.registry input.corpus.keys).pOld) := by
        intro hheld
        obtain ⟨id, hid⟩ := BTreeMap.mem_iff_exists_getElem?.mp hheld
        exact hout (entityOfRecord_registry.mp hid).1
      have hjoined : record ∈ joined (oldSets (lake.registry input.corpus.keys).pOld) members :=
        List.mem_filter.mpr ⟨(Finset.mem_sort _).mpr hmem, decide_eq_true hnew⟩
      exact ⟨_, hrun.planned.mem_events_new.mpr
        (.memberAdded hkey haccepted (List.ne_nil_of_mem hjoined)), .inr rfl, hjoined⟩

omit [LinearOrder P] [One P] [DecidableEq V] in
theorem mem_plan_of_announces {orphaned : List V7Id} {event : PlannedEvent S V7Id H}
    (hevent : event ∈ runEvents digest input lake plan orphaned) (hannounces : Announces event) :
    event ∈ plan.events := by
  rcases mem_runEvents.mp hevent with hplan | hdeparted | hretired
  · exact hplan
  · have htype := departedEvents_type hdeparted
    rcases hannounces with h | h <;> cases h.symm.trans htype
  · obtain ⟨_, _, rfl⟩ := List.mem_map.mp hretired
    rcases hannounces with h | h <;> cases h

/-- The assertions on records outside the corpus change nothing that a run writes, and no
record outside the corpus is announced. -/
def NoInfluence (digest : EventDetails S V7Id → H) (input : ReconcileInput S P C V A)
    (stamp : RunStamp) (lake : Lake S H) : Prop :=
  afterRun digest input.inside stamp lake = afterRun digest input stamp lake ∧
    ∀ plan, runPlan digest input stamp lake = .ok plan →
      ∀ event ∈ runEvents digest input lake plan (orphanedLive (written input stamp lake plan)),
        Announces event → ∀ record ∈ event.details.memberKeys, record ∈ input.corpus

/-- Assertions on records outside the corpus have no influence exactly when they are inert;
a run that completes shows it. -/
theorem departed_without_influence_iff (hsound : lake.Sound)
    (hprotect : input.cutProtectProbability ≤ 1) (hscores : input.ScoresInCorpus) :
    (input.OutsideInert → NoInfluence digest input stamp lake) ∧
      ∀ plan, runPlan digest input stamp lake = .ok plan →
        (NoInfluence digest input stamp lake ↔ input.OutsideInert) := by
  have hsufficient (hinert : input.OutsideInert) : NoInfluence digest input stamp lake := by
    refine ⟨afterRun_inside hscores hinert, ?_⟩
    intro plan hplan event hevent hannounces record hrecord
    obtain ⟨result, groups, hrun⟩ := hsound.exists_runPlanned hplan
    have hplanned := mem_plan_of_announces hevent hannounces
    rcases hrun.known_of_announced hplanned hannounces hrecord with hcorpus | hknown
    · exact hcorpus
    · exact ReconcileInput.mem_corpus_of_known hscores hinert hknown
  refine ⟨hsufficient, ?_⟩
  intro plan hplan
  refine ⟨?_, hsufficient⟩
  intro h
  obtain ⟨result, groups, hrun⟩ := hsound.exists_runPlanned hplan
  apply ReconcileInput.outsideInert_of_known hprotect hrun.neverCut
  intro record hknown
  by_contra hout
  obtain ⟨event, hevent, hannounces, hrecord⟩ := hrun.exists_announced hknown hout
  exact hout (h.2 plan hplan event (mem_runEvents.mpr (.inl hevent)) hannounces record hrecord)

end Runs

/-- A steward linked both records of the corpus to a record that has left it. -/
def sampleTied (suppressed : Finset ℕ) : ReconcileInput ℕ ℕ Unit ℕ ℕ where
  constraints := {}
  cutProtectProbability := 1
  maxIterations := 50
  corpus := Std.ExtTreeMap.ofList [(1, fun _ => none), (2, fun _ => none)] compare
  scores := []
  assertions := [⟨.steward 1, 1, 9, .always, true⟩, ⟨.steward 2, 2, 9, .always, true⟩]
  suppressed
  protectedRecords := ∅
  scores_ordered := no_scores_ordered
  assertions_ordered := by simp
  assertions_active := by simp

/-- With the departed record suppressed its assertions are inert. -/
theorem departed_without_influence_iff_sample :
    NoInfluence sampleRunDigest (sampleTied {9}) ⟨"first", 1⟩ .fresh := by
  have hscores : (sampleTied {9}).ScoresInCorpus := by
    simp [ReconcileInput.ScoresInCorpus, sampleTied]
  have hinert : (sampleTied {9}).OutsideInert := by
    intro rule hrule _ _
    simp only [sampleTied, List.mem_cons, List.not_mem_nil, or_false] at hrule
    rcases hrule with rfl | rfl <;> simp [sampleTied]
  exact (departed_without_influence_iff sound_fresh (le_refl (1 : ℕ)) hscores).1 hinert

/-- The departed record joins the two that are left, and is announced with them. -/
theorem departed_record_joins : ∃ plan alone : ReconcilePlan ℕ V7Id ℕ,
    runPlan sampleRunDigest (sampleTied ∅) ⟨"first", 1⟩ .fresh = .ok plan ∧
    runPlan sampleRunDigest (sampleTied ∅).inside ⟨"first", 1⟩ .fresh = .ok alone ∧
    (sampleTied ∅).ScoresInCorpus ∧
    (∃ id, (commit .fresh (statementsOf sampleRunDigest (sampleTied ∅) ⟨"first", 1⟩ .fresh
        plan)).entityOf 1 = some id ∧
      (commit .fresh (statementsOf sampleRunDigest (sampleTied ∅) ⟨"first", 1⟩ .fresh
        plan)).entityOf 2 = some id) ∧
    (¬ ∃ id, (commit .fresh (statementsOf sampleRunDigest (sampleTied ∅).inside ⟨"first", 1⟩ .fresh
        alone)).entityOf 1 = some id ∧
      (commit .fresh (statementsOf sampleRunDigest (sampleTied ∅).inside ⟨"first", 1⟩ .fresh
        alone)).entityOf 2 = some id) ∧
    (∃ event ∈ plan.events, Announces event ∧ 9 ∈ event.details.memberKeys) ∧
    ¬ NoInfluence sampleRunDigest (sampleTied ∅) ⟨"first", 1⟩ .fresh := by
  have hcompletes : (runPlan sampleRunDigest (sampleTied ∅) ⟨"first", 1⟩ .fresh).toOption.isSome =
      true := by
    decide +kernel
  have hcompletes' : (runPlan sampleRunDigest (sampleTied ∅).inside ⟨"first", 1⟩
      .fresh).toOption.isSome = true := by
    decide +kernel
  have hscores : (sampleTied ∅).ScoresInCorpus := by
    simp [ReconcileInput.ScoresInCorpus, sampleTied]
  have hnodes : 1 ∈ (sampleTied ∅).nodes ∧ 2 ∈ (sampleTied ∅).nodes := by decide +kernel
  have hout : 9 ∉ (sampleTied ∅).corpus := by decide +kernel
  have hresult : (sampleTied ∅).neverCut = .ok {} := by decide +kernel
  have hresult' : (sampleTied ∅).inside.neverCut = .ok {} := by decide +kernel
  have hedges : (sampleTied ∅).clusteringEdges {} = [⟨1, 9, 1⟩, ⟨2, 9, 1⟩] := by decide +kernel
  have hedges' : (sampleTied ∅).inside.clusteringEdges {} = [] := by decide +kernel
  cases hplan : runPlan sampleRunDigest (sampleTied ∅) ⟨"first", 1⟩ .fresh with
  | error error => simp [hplan, Except.toOption] at hcompletes
  | ok plan =>
      cases halone : runPlan sampleRunDigest (sampleTied ∅).inside ⟨"first", 1⟩ .fresh with
      | error error => simp [halone, Except.toOption] at hcompletes'
      | ok alone =>
          obtain ⟨result, groups, hrun⟩ := sound_fresh.exists_runPlanned hplan
          cases hresult.symm.trans hrun.neverCut
          obtain ⟨result', groups', hrun'⟩ := sound_fresh.exists_runPlanned halone
          cases hresult'.symm.trans hrun'.neverCut
          have hjoined (a : ℕ) (ha : a = 1 ∨ a = 2) :
              Joined ((sampleTied ∅).clusteringEdges {}) a 9 := by
            rw [hedges]
            rcases ha with rfl | rfl
            · exact ⟨⟨1, 9, 1⟩, by simp, rfl⟩
            · exact ⟨⟨2, 9, 1⟩, by simp, rfl⟩
          have hshared := (hrun.share_iff hnodes.1 hnodes.2 (by decide)).mpr
            ((Relation.ReflTransGen.single (hjoined 1 (.inl rfl))).tail (hjoined 2 (.inr rfl)).symm)
          have hapart : ¬ Connected ((sampleTied ∅).inside.clusteringEdges {}) 1 2 := by
            rw [hedges']
            intro hconnected
            have hends : Known [] ([] : List (PathEdge ℕ ℕ)) 1 :=
              known_of_connected (by decide) hconnected
            simp [known_iff] at hends
          have hknown : Known (sampleTied ∅).nodes ((sampleTied ∅).clusteringEdges {}) 9 :=
            .inr ⟨1, (hjoined 1 (.inl rfl)).symm⟩
          have hannounced := hrun.exists_announced hknown hout
          refine ⟨plan, alone, rfl, rfl, hscores, hshared, ?_, hannounced, ?_⟩
          · rw [hrun'.share_iff hnodes.1 hnodes.2 (by decide)]
            exact hapart
          · intro h
            obtain ⟨event, hevent, hannounces, hrecord⟩ := hannounced
            exact hout (h.2 plan hplan event (mem_runEvents.mpr (.inl hevent)) hannounces 9 hrecord)

end EntityResolution.Reconcile
