/-
# What the clustering respects

Label propagation groups the records that a walk along the edges joins, so the partition of a
run consists of the components of the edges that its rules left. Those edges only lose rows on
the way from the proposed to the final ones. A pair of records that ends up in one group was
therefore in one component when the constraint violations were collected, and a violation of
it is among the rules that the never-cut fixpoint settled or escalated.
-/

import EntityResolution.Reconcile.Clustering
import EntityResolution.Reconcile.PlanSpec

namespace EntityResolution.Reconcile

open EntityResolution.Collections EntityResolution.NeverCut

universe u v w x y

variable {R : Type u} {P : Type v} {C : Type w} {V : Type x} {A : Type y} [LinearOrder R]

section Labels

variable {nodes : List R} {edges : List (PathEdge R P)} {a b : R}

/-- The records that a clustering knows: its nodes and the ends of its edges. -/
def Known (nodes : List R) (edges : List (PathEdge R P)) (record : R) : Prop :=
  record ∈ nodes ∨ ∃ other, Joined edges record other

theorem pair_of_ordered {edge : PathEdge R P} (hlt : edge.left < edge.right) : edge.pair =
    (edge.left, edge.right) := by
  rw [PathEdge.pair, canon_eq_min_max, min_eq_left hlt.le, max_eq_right hlt.le]

theorem known_of_connected (hne : a ≠ b)
    (hconnected : Connected edges a b) : Known nodes edges a := by
  rcases Relation.ReflTransGen.cases_head hconnected with hsame | ⟨next, hjoined, _⟩
  · exact absurd hsame hne
  · exact .inr ⟨next, hjoined⟩

theorem known_iff : Known nodes edges a ↔
    a ∈ nodes ∨ ∃ edge ∈ edges, edge.left = a ∨ edge.right = a := by
  apply or_congr_right
  apply Iff.intro
  · intro h
    obtain ⟨other, edge, hedge, hpair⟩ := h
    rcases canon_eq_canon_iff.mp hpair with ⟨hleft, _⟩ | ⟨_, hright⟩
    · exact ⟨edge, hedge, .inl hleft⟩
    · exact ⟨edge, hedge, .inr hright⟩
  · intro h
    obtain ⟨edge, hedge, hleft | hright⟩ := h
    · exact ⟨edge.right, edge, hedge, by rw [PathEdge.pair, hleft]⟩
    · exact ⟨edge.left, edge, hedge, canon_eq_canon_iff.mpr (.inr ⟨rfl, hright⟩)⟩

theorem mem_withEndpoints_ofList :
    a ∈ withEndpoints (Std.ExtTreeSet.ofList nodes compare) edges ↔ Known nodes edges a := by
  rw [mem_withEndpoints, Known, Std.ExtTreeSet.mem_ofList, List.contains_iff_mem]

theorem components_eq_iff {x y : ℕ}
    (ha : (components edges (Std.ExtTreeSet.ofList nodes compare))[a]? = some x)
    (hb : (components edges (Std.ExtTreeSet.ofList nodes compare))[b]? = some y) :
    x = y ↔ Connected edges a b := by
  have hclustered : coClustered (components edges (Std.ExtTreeSet.ofList nodes compare)) a b =
      decide (x = y) := by
    simp only [coClustered, ha, hb]
  have hself (c : R) (z : ℕ)
      (hc : (components edges (Std.ExtTreeSet.ofList nodes compare))[c]? = some z) :
      c ∈ withEndpoints (Std.ExtTreeSet.ofList nodes compare) edges := by
    have hrefl : coClustered (components edges (Std.ExtTreeSet.ofList nodes compare)) c c = true :=
      by simp [coClustered, hc]
    exact (coClustered_components.mp hrefl).1
  rw [← decide_eq_true_iff (p := x = y), ← hclustered, coClustered_components]
  simp [hself a x ha, hself b y hb]

theorem mem_components :
    a ∈ components edges (Std.ExtTreeSet.ofList nodes compare) ↔ Known nodes edges a := by
  have hrefl : coClustered (components edges (Std.ExtTreeSet.ofList nodes compare)) a a = true ↔
      a ∈ components edges (Std.ExtTreeSet.ofList nodes compare) := by
    rw [BTreeMap.mem_iff_exists_getElem?, coClustered]
    cases (components edges (Std.ExtTreeSet.ofList nodes compare))[a]? <;> simp
  rw [← hrefl, coClustered_components, mem_withEndpoints_ofList]
  simp [Connected, Relation.ReflTransGen.refl]

omit [LinearOrder R] in
theorem foldl_fileRoot (entries : List (R × ℕ)) (rootMin : BTreeMap ℕ R) (root : ℕ) :
    (∀ node, (entries.foldl fileRoot rootMin)[root]? = some node →
      (node, root) ∈ entries ∨ rootMin[root]? = some node) ∧
    (root ∈ rootMin ∨ root ∈ entries.map Prod.snd → root ∈ entries.foldl fileRoot rootMin) := by
  induction entries generalizing rootMin with
  | nil => simp
  | cons entry entries ih =>
      obtain ⟨hsound, hcomplete⟩ := ih (fileRoot rootMin entry)
      apply And.intro
      · intro node hnode
        rcases hsound node hnode with hmem | hfiled
        · exact .inl (List.mem_cons_of_mem _ hmem)
        · rw [fileRoot] at hfiled
          split at hfiled
          · exact .inr hfiled
          · rw [BTreeMap.getElem?_insert_eq_ite] at hfiled
            split at hfiled
            · rename_i hroot
              cases hfiled
              subst hroot
              exact .inl List.mem_cons_self
            · exact .inr hfiled
      · intro h
        apply hcomplete
        rw [List.map_cons, List.mem_cons] at h
        rw [fileRoot]
        split
        · rename_i hseen
          rcases h with hfiled | rfl | hrest
          · exact .inl hfiled
          · exact .inl hseen
          · exact .inr hrest
        · rw [BTreeMap.mem_insert_iff]
          rcases h with hfiled | rfl | hrest
          · exact .inl (.inr hfiled)
          · exact .inl (.inl rfl)
          · exact .inr hrest

theorem exists_label {x : ℕ}
    (hx : (components edges (Std.ExtTreeSet.ofList nodes compare))[a]? = some x) :
    ∃ label : R, (components edges (Std.ExtTreeSet.ofList nodes compare))[label]? = some x ∧
      ∀ c : R, (components edges (Std.ExtTreeSet.ofList nodes compare))[c]? = some x →
        (labelPropagate nodes edges)[c]? = some label := by
  have hfold := foldl_fileRoot
    (components edges (Std.ExtTreeSet.ofList nodes compare)).toList ∅ x
  have hfiled : x ∈ (components edges (Std.ExtTreeSet.ofList nodes compare)).toList.foldl
      fileRoot ∅ := hfold.2 (.inr (List.mem_map_of_mem (BTreeMap.mem_toList.mpr hx)))
  obtain ⟨label, hlabel⟩ := BTreeMap.mem_iff_exists_getElem?.mp hfiled
  refine ⟨label, ?_, fun c hc => ?_⟩
  · rcases hfold.1 label hlabel with hmem | hempty
    · exact BTreeMap.mem_toList.mp hmem
    · simp at hempty
  · rw [labelPropagate, Std.ExtTreeMap.getElem?_map, hc, Option.map_some, hlabel]
    rfl

theorem mem_labelPropagate : a ∈ labelPropagate nodes edges ↔ Known nodes edges a := by
  rw [labelPropagate, Std.ExtTreeMap.mem_map, mem_components]

theorem labelPropagate_eq_iff (ha : Known nodes edges a) (hb : Known nodes edges b) :
    (labelPropagate nodes edges)[a]? = (labelPropagate nodes edges)[b]? ↔ Connected edges a b := by
  obtain ⟨x, hx⟩ := BTreeMap.mem_iff_exists_getElem?.mp (mem_components.mpr ha)
  obtain ⟨y, hy⟩ := BTreeMap.mem_iff_exists_getElem?.mp (mem_components.mpr hb)
  obtain ⟨label, hin, hlabel⟩ := exists_label hx
  obtain ⟨label', hin', hlabel'⟩ := exists_label hy
  rw [← components_eq_iff hx hy, hlabel a hx, hlabel' b hy, Option.some.injEq]
  apply Iff.intro
  · intro hsame
    rw [hsame, hin'] at hin
    exact (Option.some.inj hin).symm
  · intro hsame
    subst hsame
    exact Option.some.inj ((hlabel b hy).symm.trans (hlabel' b hy))

theorem mem_groups {labels : BTreeMap R R} {group : List R} :
    group ∈ (BTreeMap.keysByValue labels).toList.map Prod.snd ↔
      ∃ label : R, (BTreeMap.keysByValue labels)[label]? = some group := by
  simp only [List.mem_map, Prod.exists, BTreeMap.mem_toList, exists_eq_right]

theorem exists_group_iff {labels : BTreeMap R R} :
    (∃ group ∈ (BTreeMap.keysByValue labels).toList.map Prod.snd, a ∈ group ∧ b ∈ group) ↔
      a ∈ labels ∧ labels[a]? = labels[b]? := by
  apply Iff.intro
  · intro h
    obtain ⟨group, hgroup, ha, hb⟩ := h
    obtain ⟨label, hlabel⟩ := mem_groups.mp hgroup
    rw [BTreeMap.mem_keysByValue hlabel] at ha hb
    exact ⟨BTreeMap.mem_iff_exists_getElem?.mpr ⟨label, ha⟩, ha.trans hb.symm⟩
  · intro h
    obtain ⟨ha, hsame⟩ := h
    obtain ⟨label, hlabel⟩ := BTreeMap.mem_iff_exists_getElem?.mp ha
    obtain ⟨group, hgroup⟩ := BTreeMap.exists_keysByValue hlabel
    refine ⟨group, mem_groups.mpr ⟨label, hgroup⟩, ?_, ?_⟩
    · exact (BTreeMap.mem_keysByValue hgroup).mpr hlabel
    · exact (BTreeMap.mem_keysByValue hgroup).mpr (hsame ▸ hlabel)

theorem groups_isPartition (labels : BTreeMap R R) :
    IsPartition ((BTreeMap.keysByValue labels).toList.map Prod.snd) where
  nonempty group hgroup := by
    obtain ⟨label, hlabel⟩ := mem_groups.mp hgroup
    exact (BTreeMap.keysByValue_eq_some_iff.mp hlabel).2
  disjoint := by
    rw [List.pairwise_map]
    apply (BTreeMap.toList_pairwise_lt _).imp_of_mem
    intro first second hfirst hsecond hlt record hin hin'
    rw [BTreeMap.mem_keysByValue (BTreeMap.mem_toList.mp hfirst)] at hin
    rw [BTreeMap.mem_keysByValue (BTreeMap.mem_toList.mp hsecond)] at hin'
    exact absurd (Option.some.inj (hin.symm.trans hin')) hlt.ne

end Labels

namespace ReconcileInput

variable (input : ReconcileInput R P C V A) {a b : R} {edge : PathEdge R P}
  {rule : Assertion R (RuleId R A)}

/-- The two records break a constraint, the smaller one on the left. -/
def Violating [DecidableEq V] (a b : R) : Prop :=
  ∃ l r, input.corpus[a]? = some l ∧ input.corpus[b]? = some r ∧
    violates input.constraints l r = true

variable {input}

theorem mem_nodes : a ∈ input.nodes ↔ a ∈ input.corpus ∧ a ∉ input.suppressed := by
  rw [nodes, List.mem_filter, BTreeMap.mem_keys, decide_eq_true_iff]

theorem mem_alwaysRules :
    rule ∈ input.alwaysRules ↔ rule ∈ input.assertions ∧ rule.kind = .always ∧
      rule.recAKey ∉ input.suppressed ∧ rule.recBKey ∉ input.suppressed := by
  simp [alwaysRules, unsuppressed]

theorem mem_stewardNevers :
    rule ∈ input.stewardNevers ↔ rule ∈ input.assertions ∧ rule.kind = .never := by
  simp [stewardNevers]

variable [One P]

theorem mem_proposedEdges :
    edge ∈ input.proposedEdges ↔
      edge ∈ input.scores ∧ edge.left ∉ input.suppressed ∧ edge.right ∉ input.suppressed ∨
      ∃ rule ∈ input.alwaysRules, alwaysEdge rule = edge := by
  simp [proposedEdges, scoreEdges, unsuppressed]

theorem proposedEdges_ordered (hedge : edge ∈ input.proposedEdges) : edge.left < edge.right := by
  rcases mem_proposedEdges.mp hedge with ⟨hscore, _⟩ | ⟨rule, hrule, rfl⟩
  · exact input.scores_ordered edge hscore
  · exact input.assertions_ordered rule (mem_alwaysRules.mp hrule).1

/-- No edge touches a suppressed record. -/
theorem proposedEdges_unsuppressed (hedge : edge ∈ input.proposedEdges) :
    edge.left ∉ input.suppressed ∧ edge.right ∉ input.suppressed := by
  rcases mem_proposedEdges.mp hedge with ⟨_, hends⟩ | ⟨rule, hrule, rfl⟩
  · exact hends
  · exact (mem_alwaysRules.mp hrule).2.2

theorem exists_scope (hne : a ≠ b) (hconnected : Connected input.proposedEdges a b) :
    ∃ label, (a, label) ∈ input.constraintScope ∧ (b, label) ∈ input.constraintScope := by
  have ha : Known input.nodes input.proposedEdges a := known_of_connected hne hconnected
  have hb : Known input.nodes input.proposedEdges b :=
    known_of_connected hne.symm hconnected.symm
  obtain ⟨label, hlabel⟩ := BTreeMap.mem_iff_exists_getElem?.mp (mem_labelPropagate.mpr ha)
  have hlabel' : (labelPropagate input.nodes input.proposedEdges)[b]? = some label :=
    ((labelPropagate_eq_iff ha hb).mpr hconnected) ▸ hlabel
  have hsize : 1 < ((labelPropagate input.nodes input.proposedEdges).toList.filter
      fun other => other.2 = label).length := by
    have hin (c : R) (hc : (labelPropagate input.nodes input.proposedEdges)[c]? = some label) :
        (c, label) ∈ (labelPropagate input.nodes input.proposedEdges).toList.filter
          fun other => other.2 = label := by
      simp [hc]
    exact one_lt_length_of_mem (hin a hlabel) (hin b hlabel') (by simpa using hne)
  refine ⟨label, ?_, ?_⟩
  · exact List.mem_filter.mpr ⟨BTreeMap.mem_toList.mpr hlabel, decide_eq_true hsize⟩
  · exact List.mem_filter.mpr ⟨BTreeMap.mem_toList.mpr hlabel', decide_eq_true hsize⟩

theorem connected_of_scope {label : R} (ha : (a, label) ∈ input.constraintScope)
    (hb : (b, label) ∈ input.constraintScope) : Connected input.proposedEdges a b := by
  have hfirst := BTreeMap.mem_toList.mp (List.mem_filter.mp ha).1
  have hsecond := BTreeMap.mem_toList.mp (List.mem_filter.mp hb).1
  have hknown (c : R) (hc : (labelPropagate input.nodes input.proposedEdges)[c]? = some label) :
      Known input.nodes input.proposedEdges c :=
    mem_labelPropagate.mp (BTreeMap.mem_iff_exists_getElem?.mpr ⟨label, hc⟩)
  exact (labelPropagate_eq_iff (hknown a hfirst) (hknown b hsecond)).mp
    (hfirst.trans hsecond.symm)

variable [DecidableEq V]

omit [One P] in
theorem not_violating_of_isEmpty (hempty : input.constraints.isEmpty = true) :
    ¬ input.Violating a b := by
  intro h
  obtain ⟨l, r, _, _, hviolates⟩ := h
  rw [MatchConstraints.isEmpty, Bool.and_eq_true, Bool.and_eq_true, List.isEmpty_iff,
    List.isEmpty_iff, List.isEmpty_iff] at hempty
  obtain ⟨⟨hrequired, hveto⟩, hexclude⟩ := hempty
  simp [violates, constraintConjuncts, hrequired, hveto, hexclude] at hviolates

theorem mem_constraintNevers :
    rule ∈ input.constraintNevers ↔ ∃ a b, rule = ⟨.constraint a b, a, b, .never, true⟩ ∧
      a < b ∧ Connected input.proposedEdges a b ∧ input.Violating a b := by
  have hbreaks (first second : R × R) : input.breaksConstraint first second = true ↔
      first.2 = second.2 ∧ first.1 < second.1 ∧ input.Violating first.1 second.1 := by
    rw [breaksConstraint, Bool.and_eq_true, Bool.and_eq_true, decide_eq_true_iff,
      decide_eq_true_iff, and_assoc, Violating]
    apply and_congr_right
    intro _
    apply and_congr_right
    intro _
    split
    · rename_i l r hl hr
      simp [hl, hr]
    · rename_i hnone
      simp only [Bool.false_eq_true, false_iff]
      intro h
      obtain ⟨l, r, hl, hr, _⟩ := h
      exact hnone l r hl hr
  rw [constraintNevers]
  split
  · rename_i hempty
    simp [not_violating_of_isEmpty hempty]
  · simp only [List.mem_map, List.mem_insertionSort, List.mem_filter, hbreaks]
    apply Iff.intro
    · intro h
      obtain ⟨_, ⟨⟨⟨a, label⟩, ⟨b, label'⟩⟩, ⟨hscope, hsame, hlt, hviolating⟩, rfl⟩, rfl⟩ := h
      obtain ⟨ha, hb⟩ := List.mem_product.mp hscope
      cases (show label = label' from hsame)
      exact ⟨a, b, rfl, hlt, connected_of_scope ha hb, hviolating⟩
    · intro h
      obtain ⟨a, b, rfl, hlt, hconnected, hviolating⟩ := h
      obtain ⟨label, ha, hb⟩ := exists_scope hlt.ne hconnected
      exact ⟨(a, b), ⟨((a, label), (b, label)),
        ⟨List.mem_product.mpr ⟨ha, hb⟩, rfl, hlt, hviolating⟩, rfl⟩, rfl⟩

/-- Every rule of the never-cut is an active `never` on an ordered pair. -/
theorem nevers_spec (hrule : rule ∈ input.nevers) :
    rule.kind = .never ∧ rule.active = true ∧ rule.recAKey < rule.recBKey := by
  rcases List.mem_append.mp hrule with hsteward | hconstraint
  · obtain ⟨hmem, hkind⟩ := mem_stewardNevers.mp hsteward
    exact ⟨hkind, input.assertions_active rule hmem, input.assertions_ordered rule hmem⟩
  · obtain ⟨a, b, rfl, hlt, _⟩ := mem_constraintNevers.mp hconstraint
    exact ⟨rfl, rfl, hlt⟩

theorem activeNever_nevers : activeNever input.nevers = input.nevers := by
  apply List.filter_eq_self.mpr
  intro rule hrule
  obtain ⟨hkind, hactive, _⟩ := nevers_spec hrule
  simp [hkind, hactive]

theorem mem_keptEdges :
    edge ∈ input.keptEdges ↔ edge ∈ input.proposedEdges ∧
      ∀ rule ∈ input.nevers, (rule.recAKey, rule.recBKey) ≠ (edge.left, edge.right) := by
  rw [keptEdges, List.mem_filter, decide_eq_true_iff, List.mem_map, not_exists]
  simp only [not_and]

variable [LinearOrder P] {result : CutResult R P (RuleId R A)}

omit [LinearOrder P] in
/-- What the fixpoint leaves is what the run clusters. -/
theorem clusteringEdges_eq_remaining :
    input.clusteringEdges result = remaining input.keptEdges result.cuts := by
  apply List.filter_congr
  intro edge hedge
  rw [pair_of_ordered (proposedEdges_ordered (mem_keptEdges.mp hedge).1)]

/-- A rule whose records are still joined was escalated. -/
theorem escalated_of_connected (hresult : input.neverCut = .ok result) (hrule : rule ∈ input.nevers)
    (hconnected : Connected (input.clusteringEdges result) rule.recAKey rule.recBKey) :
    Escalated result.escalations (rule.recAKey, rule.recBKey) := by
  have hne : ∀ other ∈ input.nevers, other.recAKey ≠ other.recBKey :=
    fun other hother => (nevers_spec hother).2.2.ne
  rw [neverCut, if_neg (List.ne_nil_of_mem hrule)] at hresult
  obtain ⟨final, hsound, hsettled, hcuts, hescalations⟩ := exists_sound_of_fixpoint hne hresult
  rw [activeNever_nevers] at hsound hsettled
  rw [clusteringEdges_eq_remaining, hcuts, ← hsound.live_eq] at hconnected
  have hpair : rule.pair = (rule.recAKey, rule.recBKey) := by
    rw [Assertion.pair, canon_eq_min_max, min_eq_left (nevers_spec hrule).2.2.le,
      max_eq_right (nevers_spec hrule).2.2.le]
  rw [hescalations, ← hpair, ← hsound.escalatedPairs_iff]
  by_contra hopen
  exact List.eq_nil_iff_forall_not_mem.mp hsettled rule
    ((mem_violations hne).mpr ⟨hrule, hopen, hconnected⟩)

omit [LinearOrder P] in
theorem exists_group_partitionOf :
    (∃ group ∈ input.partitionOf result, a ∈ group ∧ b ∈ group) ↔
      Known input.nodes (input.clusteringEdges result) a ∧
      Known input.nodes (input.clusteringEdges result) b ∧
      Connected (input.clusteringEdges result) a b := by
  rw [partitionOf, exists_group_iff]
  apply Iff.intro
  · intro h
    obtain ⟨ha, hsame⟩ := h
    have hb : b ∈ labelPropagate input.nodes (input.clusteringEdges result) := by
      rw [BTreeMap.mem_iff_exists_getElem?, ← hsame, ← BTreeMap.mem_iff_exists_getElem?]
      exact ha
    rw [mem_labelPropagate] at ha hb
    exact ⟨ha, hb, (labelPropagate_eq_iff ha hb).mp hsame⟩
  · intro h
    obtain ⟨ha, hb, hconnected⟩ := h
    exact ⟨mem_labelPropagate.mpr ha, (labelPropagate_eq_iff ha hb).mpr hconnected⟩

omit [LinearOrder P] in
theorem exists_group_iff_known :
    (∃ group ∈ input.partitionOf result, a ∈ group) ↔
      Known input.nodes (input.clusteringEdges result) a := by
  apply Iff.intro
  · intro h
    obtain ⟨group, hgroup, ha⟩ := h
    exact (exists_group_partitionOf.mp ⟨group, hgroup, ha, ha⟩).1
  · intro hknown
    obtain ⟨group, hgroup, ha, _⟩ := exists_group_partitionOf.mpr ⟨hknown, hknown, .refl⟩
    exact ⟨group, hgroup, ha⟩

end ReconcileInput

open ReconcileInput in
/-- The rules hold over the partition: when the never-cut returns, two corpus records of one
group that an active `never` or a constraint keeps apart are among the escalations. -/
theorem rules_hold_over_partition [One P] [DecidableEq V] [LinearOrder P]
    {input : ReconcileInput R P C V A} {result : CutResult R P (RuleId R A)}
    (hresult : input.neverCut = .ok result) :
    ∀ group ∈ input.partitionOf result, ∀ a ∈ group, ∀ b ∈ group,
      a ∈ input.corpus → b ∈ input.corpus → a < b →
      ((∃ rule ∈ input.assertions, rule.kind = .never ∧ rule.active = true ∧
          rule.recAKey = a ∧ rule.recBKey = b) ∨ input.Violating a b) →
      Escalated result.escalations (a, b) := by
  intro group hgroup a ha b hb _ _ hlt hrule
  obtain ⟨_, _, hconnected⟩ := exists_group_partitionOf.mp ⟨group, hgroup, ha, hb⟩
  rcases hrule with ⟨rule, hrule, hkind, _, rfl, rfl⟩ | hviolating
  · exact escalated_of_connected hresult
      (List.mem_append_left _ (mem_stewardNevers.mpr ⟨hrule, hkind⟩)) hconnected
  · -- The pair was joined when the violations were collected: no edge is added after that.
    have hproposed : Connected input.proposedEdges a b := hconnected.mono fun edge hedge =>
      (mem_keptEdges.mp (List.mem_filter.mp hedge).1).1
    have hmem : ⟨.constraint a b, a, b, .never, true⟩ ∈ input.constraintNevers :=
      mem_constraintNevers.mpr ⟨a, b, rfl, hlt, hproposed, hviolating⟩
    exact escalated_of_connected hresult (List.mem_append_right _ hmem) hconnected

theorem no_scores_ordered : ∀ edge ∈ ([] : List (PathEdge ℕ ℕ)), edge.left < edge.right := by
  simp

/-- Records 1 and 3 differ in the vetoed column, and a steward linked both to record 2. -/
def sampleVeto : ReconcileInput ℕ ℕ Unit ℕ ℕ where
  constraints := { veto := [()] }
  cutProtectProbability := 1
  maxIterations := 50
  corpus := Std.ExtTreeMap.ofList
    [(1, fun _ => some 5), (2, fun _ => none), (3, fun _ => some 6)] compare
  scores := []
  assertions := [⟨.steward 1, 1, 2, .always, true⟩, ⟨.steward 2, 2, 3, .always, true⟩]
  suppressed := ∅
  protectedRecords := ∅
  scores_ordered := no_scores_ordered
  assertions_ordered := by simp
  assertions_active := by simp

theorem rules_hold_over_partition_sample :
    sampleVeto.neverCut = .ok ⟨[], [(1, 3, .constraint 1 3)], 1⟩ ∧
      [1, 2, 3] ∈ sampleVeto.partitionOf ⟨[], [(1, 3, .constraint 1 3)], 1⟩ ∧
      sampleVeto.Violating 1 3 ∧
      Escalated [(1, 3, (.constraint 1 3 : RuleId ℕ ℕ))] (1, 3) := by
  have hresult : sampleVeto.neverCut = .ok ⟨[], [(1, 3, .constraint 1 3)], 1⟩ := by
    decide +kernel
  have hgroup : [1, 2, 3] ∈ sampleVeto.partitionOf ⟨[], [(1, 3, .constraint 1 3)], 1⟩ := by
    decide +kernel
  have hviolating : sampleVeto.Violating 1 3 :=
    ⟨fun _ => some 5, fun _ => some 6, rfl, rfl, by decide⟩
  exact ⟨hresult, hgroup, hviolating, rules_hold_over_partition hresult _ hgroup 1 (by decide) 3
    (by decide) (by decide +kernel) (by decide +kernel) (by decide) (.inr hviolating)⟩

end EntityResolution.Reconcile
