/-
# Clusters are components

The tables of `cluster_at_threshold` are read as labels that spread: a representative is the label
of its node, the neighbours are the pairs, and an iteration is one step. So the rows at the end are
the nodes with the least node of their component, and each iteration that leaves neighbours also
leaves fewer representatives.
-/

import EntityResolution.Dedupe.Threshold

namespace EntityResolution.Dedupe

open EntityResolution.Grouping EntityResolution.OuterJoins EntityResolution.Propagation

universe u v

variable {N : Type u} {P : Type v} [LinearOrder N] [LinearOrder P]

/-- A prediction at or above the threshold joins the two nodes, in either direction. -/
def LinkedAt (predictions : List (Prediction N P)) (threshold : P) (x y : N) : Prop :=
  ∃ row ∈ predictions, threshold ≤ row.matchProbability ∧
    (row.nodeIdL = x ∧ row.nodeIdR = y ∨ row.nodeIdL = y ∧ row.nodeIdR = x)

/-- The least representative next to a representative. -/
def newLabel (neighbours : List (Neighbour N)) (rep : N) : N :=
  ((neighbours.filter fun row => row.nodeRep = rep).map Neighbour.neighbourRep).foldl min rep

/-- The stable flag of a representative: one when it has no neighbours. -/
def newStable (neighbours : List (Neighbour N)) (rep : N) : ℕ :=
  if rep ∈ neighbours.map Neighbour.nodeRep then 0 else 1

section Update

variable {neighbours : List (Neighbour N)} {representatives : List (Representative N)} {rep : N}

/-- The new label is the old one or next to it, and no larger than these. -/
theorem newLabel_spec (neighbours : List (Neighbour N)) (rep : N) :
    (newLabel neighbours rep = rep ∨
      ∃ row ∈ neighbours, row.nodeRep = rep ∧ row.neighbourRep = newLabel neighbours rep) ∧
    newLabel neighbours rep ≤ rep ∧
    ∀ row ∈ neighbours, row.nodeRep = rep → newLabel neighbours rep ≤ row.neighbourRep := by
  have hmin : (rep :: (neighbours.filter fun row => row.nodeRep = rep).map
      Neighbour.neighbourRep).min? = some (newLabel neighbours rep) := List.min?_cons'
  obtain ⟨hmem, hle⟩ := List.min?_eq_some_iff.mp hmin
  refine ⟨?_, hle rep List.mem_cons_self, ?_⟩
  · rcases List.mem_cons.mp hmem with hsame | hmem
    · exact .inl hsame
    · obtain ⟨row, hrow, hsame⟩ := List.mem_map.mp hmem
      obtain ⟨hin, hrep⟩ := List.mem_filter.mp hrow
      exact .inr ⟨row, hin, of_decide_eq_true hrep, hsame⟩
  · intro row hin hrep
    exact hle _ (List.mem_cons_of_mem _ (List.mem_map_of_mem
      (List.mem_filter.mpr ⟨hin, decide_eq_true hrep⟩)))

theorem newStable_eq_zero_iff :
    newStable neighbours rep = 0 ↔ ∃ row ∈ neighbours, row.nodeRep = rep := by
  rw [newStable, ← List.mem_map]
  simp

theorem newStable_eq_one_iff :
    newStable neighbours rep = 1 ↔ ¬ ∃ row ∈ neighbours, row.nodeRep = rep := by
  rw [newStable, ← List.mem_map]
  simp

omit [LinearOrder N] in
theorem mem_repUnion {update : RepUpdate N} : update ∈ repUnion neighbours representatives ↔
    (∃ row ∈ neighbours, ⟨row.nodeRep, row.neighbourRep, 0⟩ = update) ∨
      ∃ row ∈ representatives, ⟨row.representative, row.representative, 1⟩ = update := by
  rw [repUnion, List.mem_append, List.mem_map, List.mem_map]

theorem min?_group_eq_some {β : Type*} [LinearOrder β] {column : RepUpdate N → β} {least : β}
    (hrep : ∃ row ∈ representatives, row.representative = rep)
    (hchosen : least = column ⟨rep, rep, 1⟩ ∨
      ∃ row ∈ neighbours, row.nodeRep = rep ∧ column ⟨rep, row.neighbourRep, 0⟩ = least)
    (hleOwn : least ≤ column ⟨rep, rep, 1⟩)
    (hlePaired : ∀ row ∈ neighbours, row.nodeRep = rep →
      least ≤ column ⟨rep, row.neighbourRep, 0⟩) :
    (((repUnion neighbours representatives).filter fun row => row.oldRep = rep).map column).min? =
      some least := by
  rw [List.min?_eq_some_iff]
  constructor
  · rw [List.mem_map]
    rcases hchosen with hown | ⟨row, hrow, hnode, hvalue⟩
    · obtain ⟨own, hown', hownRep⟩ := hrep
      refine ⟨⟨rep, rep, 1⟩, List.mem_filter.mpr ⟨mem_repUnion.mpr (.inr ⟨own, hown', ?_⟩), ?_⟩,
        hown.symm⟩
      · rw [hownRep]
      · exact decide_eq_true rfl
    · refine ⟨⟨rep, row.neighbourRep, 0⟩,
        List.mem_filter.mpr ⟨mem_repUnion.mpr (.inl ⟨row, hrow, ?_⟩), ?_⟩, hvalue⟩
      · rw [hnode]
      · exact decide_eq_true rfl
  · intro value hvalue
    obtain ⟨update, hupdate, rfl⟩ := List.mem_map.mp hvalue
    obtain ⟨hin, hold⟩ := List.mem_filter.mp hupdate
    have hold := of_decide_eq_true hold
    rcases mem_repUnion.mp hin with ⟨row, hrow, rfl⟩ | ⟨row, hrow, rfl⟩
    · cases hold
      exact hlePaired row hrow rfl
    · cases hold
      exact hleOwn

/-- The group of a representative in use gives its new label and flag. -/
theorem leastUpdate_group (hrep : ∃ row ∈ representatives, row.representative = rep) :
    leastUpdate (rep, (repUnion neighbours representatives).filter fun row => row.oldRep = rep) =
      some ⟨rep, newLabel neighbours rep, newStable neighbours rep⟩ := by
  obtain ⟨hchosen, hleOwn, hlePaired⟩ := newLabel_spec neighbours rep
  have hlabel : (((repUnion neighbours representatives).filter fun row => row.oldRep = rep).map
      RepUpdate.representative).min? = some (newLabel neighbours rep) :=
    min?_group_eq_some hrep hchosen hleOwn hlePaired
  have hstable : (((repUnion neighbours representatives).filter fun row => row.oldRep = rep).map
      RepUpdate.stable).min? = some (newStable neighbours rep) := by
    apply min?_group_eq_some hrep
    · by_cases hnext : ∃ row ∈ neighbours, row.nodeRep = rep
      · obtain ⟨row, hrow, hnode⟩ := hnext
        exact .inr ⟨row, hrow, hnode, (newStable_eq_zero_iff.mpr ⟨row, hrow, hnode⟩).symm⟩
      · exact .inl (newStable_eq_one_iff.mpr hnext)
    · rw [newStable]
      split
      · exact Nat.zero_le 1
      · exact le_refl 1
    · intro row hrow hnode
      rw [newStable_eq_zero_iff.mpr ⟨row, hrow, hnode⟩]
  rw [leastUpdate, hlabel, hstable]

theorem nodup_repUpdates :
    ((repUpdates neighbours representatives).map RepUpdate.oldRep).Nodup := by
  have hmade : ∀ group ∈ groups RepUpdate.oldRep (repUnion neighbours representatives),
      ∃ made, leastUpdate group = some made ∧ made.oldRep = group.1 := by
    intro group hgroup
    have hne := ne_nil_of_mem_groups hgroup
    rcases hrep : (group.2.map RepUpdate.representative).min? with _ | representative
    · rw [List.min?_eq_none_iff, List.map_eq_nil_iff] at hrep
      exact absurd hrep hne
    · rcases hstable : (group.2.map RepUpdate.stable).min? with _ | stable
      · rw [List.min?_eq_none_iff, List.map_eq_nil_iff] at hstable
        exact absurd hstable hne
      · refine ⟨⟨group.1, representative, stable⟩, ?_, rfl⟩
        rw [leastUpdate, hrep, hstable]
  rw [repUpdates, map_filterMap_eq hmade, map_fst_groups]
  exact List.nodup_dedup _

theorem newReps_perm (hknown : ∀ row ∈ neighbours, ∃ repr ∈ representatives,
    repr.representative = row.nodeRep) :
    (newReps neighbours representatives).Perm (representatives.map fun row =>
      ⟨row.nodeId, newLabel neighbours row.representative,
        newStable neighbours row.representative⟩) := by
  have hupdate : ∀ update ∈ repUpdates neighbours representatives,
      ∃ repr ∈ representatives, repr.representative = update.oldRep ∧
        update = ⟨update.oldRep, newLabel neighbours update.oldRep,
          newStable neighbours update.oldRep⟩ := by
    intro update hupdate
    obtain ⟨group, hgroup, hmade⟩ := List.mem_filterMap.mp hupdate
    obtain ⟨⟨row, hrow, hkey⟩, hpart⟩ := mem_groups.mp hgroup
    have hused : ∃ repr ∈ representatives, repr.representative = group.1 := by
      rcases mem_repUnion.mp hrow with ⟨next, hnext, rfl⟩ | ⟨repr, hrepr, rfl⟩
      · obtain ⟨repr, hrepr, hsame⟩ := hknown next hnext
        exact ⟨repr, hrepr, hsame.trans hkey⟩
      · exact ⟨repr, hrepr, hkey⟩
    have hpair : group = (group.1, (repUnion neighbours representatives).filter
        fun row => row.oldRep = group.1) := Prod.ext rfl hpart
    rw [hpair, leastUpdate_group hused, Option.some.injEq] at hmade
    subst hmade
    obtain ⟨repr, hrepr, hsame⟩ := hused
    exact ⟨repr, hrepr, hsame, rfl⟩
  have hmatch : ∀ update ∈ repUpdates neighbours representatives, ∃ repr ∈ representatives,
      decide (update.oldRep = repr.representative) = true := by
    intro update hin
    obtain ⟨repr, hrepr, hsame, _⟩ := hupdate update hin
    exact ⟨repr, hrepr, decide_eq_true hsame.symm⟩
  have hfound : ∀ repr ∈ representatives, ∃ update ∈ repUpdates neighbours representatives,
      update.oldRep = repr.representative ∧
        (⟨repr.nodeId, update.representative, update.stable⟩ : Representative N) =
          ⟨repr.nodeId, newLabel neighbours repr.representative,
            newStable neighbours repr.representative⟩ := by
    intro repr hrepr
    refine ⟨⟨repr.representative, newLabel neighbours repr.representative,
      newStable neighbours repr.representative⟩, ?_, rfl, rfl⟩
    rw [repUpdates, List.mem_filterMap]
    refine ⟨_, mem_groups.mpr ⟨?_, rfl⟩, leastUpdate_group ⟨repr, hrepr, rfl⟩⟩
    exact ⟨_, mem_repUnion.mpr (.inr ⟨repr, hrepr, rfl⟩), rfl⟩
  rw [newReps, leftJoin_eq_flatMap hmatch, List.map_flatMap]
  simp only [List.map_map]
  exact flatMap_filter_perm (f := fun (update : RepUpdate N) (repr : Representative N) =>
    (⟨repr.nodeId, update.representative, update.stable⟩ : Representative N))
    nodup_repUpdates hfound

theorem filter_nodeId {live : List N} {label : N → N} {flag : N → ℕ} {x : N}
    (hrows : representatives.Perm (live.map fun x => ⟨some x, label x, flag x⟩))
    (hnodup : live.Nodup) (hx : x ∈ live) :
    representatives.filter (fun row => row.nodeId = some x) = [⟨some x, label x, flag x⟩] := by
  have hkeys : (representatives.map Representative.nodeId).Nodup := by
    rw [(hrows.map _).nodup_iff, List.map_map]
    exact hnodup.map (Option.some_injective N)
  have hrow : (⟨some x, label x, flag x⟩ : Representative N) ∈ representatives :=
    hrows.mem_iff.mpr (List.mem_map_of_mem hx)
  exact filter_eq_singleton hkeys hrow rfl

theorem filteredNeighbours_eq {live : List N} {label : N → N} {flag : N → ℕ}
    (hrows : representatives.Perm (live.map fun x => ⟨some x, label x, flag x⟩))
    (hnodup : live.Nodup) (hends : ∀ row ∈ neighbours, row.nodeId ∈ live ∧ row.neighbour ∈ live) :
    filteredNeighbours neighbours representatives =
      (neighbours.filter fun row => label row.nodeId ≠ label row.neighbour).map fun row =>
        ⟨label row.nodeId, row.nodeId, label row.neighbour, row.neighbour⟩ := by
  have hleft : ∀ row ∈ neighbours,
      representatives.filter (fun l => l.nodeId = some row.nodeId) =
        [⟨some row.nodeId, label row.nodeId, flag row.nodeId⟩] :=
    fun row hrow => filter_nodeId hrows hnodup (hends row hrow).1
  have hright : ∀ pair ∈ neighbours.map fun row => (row,
      some (⟨some row.nodeId, label row.nodeId, flag row.nodeId⟩ : Representative N)),
      representatives.filter (fun r => some pair.1.neighbour = r.nodeId) =
        [⟨some pair.1.neighbour, label pair.1.neighbour, flag pair.1.neighbour⟩] := by
    intro pair hpair
    obtain ⟨row, hrow, rfl⟩ := List.mem_map.mp hpair
    rw [← filter_nodeId hrows hnodup (hends row hrow).2]
    apply List.filter_congr
    intro repr _
    rw [decide_eq_decide, eq_comm]
  rw [filteredNeighbours, leftJoin_eq_map hleft, leftJoin_eq_map hright, List.map_map,
    List.filterMap_map, ← List.filterMap_eq_map, List.filterMap_filter]
  apply List.filterMap_congr
  intro row _
  simp [crossRow]

end Update

/-- The pairs of the neighbour rows. -/
def Paired (neighbours : List (Neighbour N)) (x y : N) : Prop :=
  ∃ row ∈ neighbours, row.nodeId = x ∧ row.neighbour = y

/-- The tables stand for labels that spread: the nodes set aside have their component's least
node, and the others a label. -/
structure Represents (link : N → N → Prop) (working : Working N) (done live : List N)
    (label : N → N) : Prop where
  nodup : live.Nodup
  representatives : working.representatives.Perm (live.map fun x => ⟨some x, label x, 0⟩)
  retired : (working.stableTables.flatMap clusterRows).Perm
    (done.map fun x => ⟨some x, leastReached link x⟩)
  settled : ∀ x ∈ done, LeastReached link x (leastReached link x)
  carried : ∀ row ∈ working.neighbours, row.nodeRep = label row.nodeId ∧
    row.neighbourRep = label row.neighbour
  spreading : Spreading link live.toFinset label (Paired working.neighbours)

namespace Represents

variable {link : N → N → Prop} {working : Working N} {done live : List N} {label : N → N}

/-- The label of a node after an iteration. -/
def lowerLabel (neighbours : List (Neighbour N)) (label : N → N) (x : N) : N :=
  newLabel neighbours (label x)

/-- The nodes whose representative has neighbours. -/
def stillLive (neighbours : List (Neighbour N)) (label : N → N) (live : List N) : List N :=
  live.filter fun x => newStable neighbours (label x) = 0

theorem active_iff (hrep : Represents link working done live label) {x : N} :
    Active label (Paired working.neighbours) x ↔ newStable working.neighbours (label x) = 0 := by
  rw [newStable_eq_zero_iff]
  apply Iff.intro
  · rintro ⟨_, _, ⟨row, hrow, rfl, rfl⟩, hlabel⟩
    exact ⟨row, hrow, (hrep.carried row hrow).1.trans hlabel⟩
  · rintro ⟨row, hrow, hnode⟩
    exact ⟨_, _, ⟨row, hrow, rfl, rfl⟩, (hrep.carried row hrow).1.symm.trans hnode⟩

/-- The new labels are the least ones next to the old. -/
theorem lowered (hrep : Represents link working done live label) :
    Lowered live.toFinset label (Paired working.neighbours)
      (lowerLabel working.neighbours label) where
  chosen x _ := by
    rcases (newLabel_spec working.neighbours (label x)).1 with hown | ⟨row, hrow, hnode, hnext⟩
    · exact .inl hown
    · obtain ⟨hleft, hright⟩ := hrep.carried row hrow
      exact .inr ⟨_, _, ⟨row, hrow, rfl, rfl⟩, hleft.symm.trans hnode, hright.symm.trans hnext⟩
  le_own x _ := (newLabel_spec working.neighbours (label x)).2.1
  le_paired x _ := by
    rintro _ _ ⟨row, hrow, rfl, rfl⟩ hlabel
    obtain ⟨hleft, hright⟩ := hrep.carried row hrow
    rw [← hright]
    exact (newLabel_spec working.neighbours (label x)).2.2 row hrow (hleft.trans hlabel)

theorem mem_stillLive (hrep : Represents link working done live label) (x : N) :
    x ∈ (stillLive working.neighbours label live).toFinset ↔
      x ∈ live.toFinset ∧ Active label (Paired working.neighbours) x := by
  rw [List.mem_toFinset, List.mem_toFinset, stillLive, List.mem_filter, decide_eq_true_eq,
    hrep.active_iff]

theorem newReps_perm (hrep : Represents link working done live label) :
    (newReps working.neighbours working.representatives).Perm (live.map fun x =>
      ⟨some x, lowerLabel working.neighbours label x,
        newStable working.neighbours (label x)⟩) := by
  have hknown : ∀ row ∈ working.neighbours, ∃ repr ∈ working.representatives,
      repr.representative = row.nodeRep := by
    intro row hrow
    have hlive := (hrep.spreading.linked _ _ ⟨row, hrow, rfl, rfl⟩).1
    refine ⟨_, hrep.representatives.mem_iff.mpr
      (List.mem_map_of_mem (List.mem_toFinset.mp hlive)), ?_⟩
    exact (hrep.carried row hrow).1.symm
  apply (Dedupe.newReps_perm hknown).trans
  apply (hrep.representatives.map _).trans
  rw [List.map_map]
  exact List.Perm.refl _

/-- The neighbours of an iteration. -/
theorem iterate_neighbours (hrep : Represents link working done live label) :
    working.iterate.neighbours = (working.neighbours.filter fun row =>
      lowerLabel working.neighbours label row.nodeId ≠
        lowerLabel working.neighbours label row.neighbour).map fun row =>
        ⟨lowerLabel working.neighbours label row.nodeId, row.nodeId,
          lowerLabel working.neighbours label row.neighbour, row.neighbour⟩ := by
  apply filteredNeighbours_eq hrep.newReps_perm hrep.nodup
  intro row hrow
  have hpair : Paired working.neighbours row.nodeId row.neighbour := ⟨row, hrow, rfl, rfl⟩
  exact ⟨List.mem_toFinset.mp (hrep.spreading.linked _ _ hpair).1,
    List.mem_toFinset.mp (hrep.spreading.mem_right hpair)⟩

theorem paired_iterate (hrep : Represents link working done live label) :
    Paired working.iterate.neighbours = fun x y => Paired working.neighbours x y ∧
      lowerLabel working.neighbours label x ≠ lowerLabel working.neighbours label y := by
  funext x y
  rw [eq_iff_iff, Paired, hrep.iterate_neighbours]
  apply Iff.intro
  · rintro ⟨_, hmade, rfl, rfl⟩
    obtain ⟨row, hrow, rfl⟩ := List.mem_map.mp hmade
    obtain ⟨hin, hne⟩ := List.mem_filter.mp hrow
    exact ⟨⟨row, hin, rfl, rfl⟩, of_decide_eq_true hne⟩
  · rintro ⟨⟨row, hin, rfl, rfl⟩, hne⟩
    exact ⟨_, List.mem_map_of_mem (List.mem_filter.mpr ⟨hin, decide_eq_true hne⟩), rfl, rfl⟩

/-- After an iteration every neighbour row joins two representatives. -/
theorem crossing_iterate (hrep : Represents link working done live label) :
    ∀ row ∈ working.iterate.neighbours, row.nodeRep ≠ row.neighbourRep := by
  rw [hrep.iterate_neighbours]
  intro made hmade
  obtain ⟨row, hrow, rfl⟩ := List.mem_map.mp hmade
  have hne := of_decide_eq_true (List.mem_filter.mp hrow).2
  exact hne

/-- The nodes whose representative is retired. -/
def nowStable (neighbours : List (Neighbour N)) (label : N → N) (live : List N) : List N :=
  live.filter fun x => newStable neighbours (label x) = 1

theorem leastReached_of_nowStable (hrep : Represents link working done live label) {x : N}
    (hx : x ∈ nowStable working.neighbours label live) :
    LeastReached link x (lowerLabel working.neighbours label x) := by
  obtain ⟨hlive, hflag⟩ := List.mem_filter.mp hx
  apply hrep.spreading.leastReached_of_not_active hrep.lowered (List.mem_toFinset.mpr hlive)
  rw [hrep.active_iff, of_decide_eq_true hflag]
  exact Nat.one_ne_zero

/-- The step lemma: an iteration is a step of the labels. -/
theorem iterate (hrep : Represents link working done live label) :
    Represents link working.iterate (done ++ nowStable working.neighbours label live)
      (stillLive working.neighbours label live) (lowerLabel working.neighbours label) where
  nodup := hrep.nodup.filter _
  representatives := by
    apply (hrep.newReps_perm.filter _).trans
    rw [List.filter_map]
    apply List.Perm.of_eq
    apply List.map_congr_left
    intro x hx
    have hflag := of_decide_eq_true (List.mem_filter.mp hx).2
    exact congrArg _ hflag
  retired := by
    have htable : (clusterRows ((newReps working.neighbours working.representatives).filter
        fun row => row.stable = 1)).Perm ((nowStable working.neighbours label live).map
          fun x => ⟨some x, leastReached link x⟩) := by
      apply ((hrep.newReps_perm.filter _).map _).trans
      rw [List.filter_map, List.map_map]
      apply List.Perm.of_eq
      apply List.map_congr_left
      intro x hx
      exact congrArg (ClusterRow.mk (some x)) (hrep.leastReached_of_nowStable hx).eq.symm
    change ((working.stableTables ++ [_]).flatMap clusterRows).Perm _
    rw [List.flatMap_append, List.map_append, List.flatMap_singleton]
    exact hrep.retired.append htable
  settled := by
    intro x hx
    rcases List.mem_append.mp hx with hx | hx
    · exact hrep.settled x hx
    · have hleast := hrep.leastReached_of_nowStable hx
      rw [hleast.eq]
      exact hleast
  carried := by
    rw [hrep.iterate_neighbours]
    intro made hmade
    obtain ⟨row, _, rfl⟩ := List.mem_map.mp hmade
    exact ⟨rfl, rfl⟩
  spreading := by
    rw [hrep.paired_iterate]
    exact hrep.spreading.step hrep.lowered hrep.mem_stillLive

theorem nodes_perm (neighbours : List (Neighbour N)) (label : N → N) (done live : List N) :
    ((done ++ nowStable neighbours label live) ++ stillLive neighbours label live).Perm
      (done ++ live) := by
  have hsplit : nowStable neighbours label live =
      live.filter fun x => ¬ newStable neighbours (label x) = 0 := by
    apply List.filter_congr
    intro x _
    rw [decide_eq_decide, newStable]
    split
    · simp
    · simp
  rw [List.append_assoc, hsplit]
  apply List.Perm.append_left
  apply List.perm_append_comm.trans
  simpa [stillLive] using List.filter_append_perm
    (fun x => decide (newStable neighbours (label x) = 0)) live

theorem card_iterate_lt (hrep : Represents link working done live label)
    (hcross : ∀ row ∈ working.neighbours, row.nodeRep ≠ row.neighbourRep)
    (hsome : working.neighbours ≠ []) :
    ((stillLive working.neighbours label live).toFinset.image
      (lowerLabel working.neighbours label)).card < (live.toFinset.image label).card := by
  apply hrep.spreading.card_image_lt hrep.lowered hrep.mem_stillLive
  · rintro _ _ ⟨row, hrow, rfl, rfl⟩
    obtain ⟨hleft, hright⟩ := hrep.carried row hrow
    rw [← hleft, ← hright]
    exact hcross row hrow
  · obtain ⟨row, hrow⟩ := List.exists_mem_of_ne_nil _ hsome
    exact ⟨_, _, row, hrow, rfl, rfl⟩

/-- The run lemma: with an iteration for every representative the loop ends, without neighbours. -/
theorem clusterLoop_spec {fuel : ℕ} (hrep : Represents link working done live label)
    (hcross : ∀ row ∈ working.neighbours, row.nodeRep ≠ row.neighbourRep)
    (hsome : working.neighbours ≠ []) (hfuel : (live.toFinset.image label).card ≤ fuel) :
    ∃ working' done' live' label', clusterLoop fuel working = some working' ∧
      Represents link working' done' live' label' ∧ working'.neighbours = [] ∧
      (done' ++ live').Perm (done ++ live) := by
  induction fuel generalizing working done live label with
  | zero =>
      have hlt := hrep.card_iterate_lt hcross hsome
      omega
  | succ fuel ih =>
      have hlt := hrep.card_iterate_lt hcross hsome
      have hnodes := nodes_perm working.neighbours label done live
      rw [clusterLoop]
      split
      · rename_i hnone
        exact ⟨_, _, _, _, rfl, hrep.iterate, List.length_eq_zero_iff.mp hnone, hnodes⟩
      · rename_i hmore
        rcases ih hrep.iterate hrep.crossing_iterate
          (fun hnone => hmore (List.length_eq_zero_iff.mpr hnone)) (by omega) with
          ⟨working', done', live', label', hloop, hrep', hnone, hperm⟩
        exact ⟨working', done', live', label', hloop, hrep', hnone, hperm.trans hnodes⟩

theorem output_perm (hrep : Represents link working done live label)
    (hnone : working.neighbours = []) :
    working.output.Perm ((done ++ live).map fun x => ⟨some x, leastReached link x⟩) ∧
      ∀ x ∈ done ++ live, LeastReached link x (leastReached link x) := by
  have hno : ∀ x y, ¬ Paired working.neighbours x y := by
    rintro x y ⟨row, hrow, _⟩
    rw [hnone] at hrow
    cases hrow
  have hlive : ∀ x ∈ live, LeastReached link x (label x) := fun x hx =>
    hrep.spreading.leastReached_of_no_pairs hno (List.mem_toFinset.mpr hx)
  constructor
  · rw [Working.output, List.map_append]
    apply hrep.retired.append
    apply (hrep.representatives.map _).trans
    rw [List.map_map]
    apply List.Perm.of_eq
    apply List.map_congr_left
    intro x hx
    exact congrArg (ClusterRow.mk (some x)) (hlive x hx).eq.symm
  · intro x hx
    rcases List.mem_append.mp hx with hx | hx
    · exact hrep.settled x hx
    · rw [(hlive x hx).eq]
      exact hlive x hx

end Represents

/-! ## The whole run -/

theorem clusterLoop_mono {fuel fuel' : ℕ} {working working' : Working N}
    (hloop : clusterLoop fuel working = some working') (hle : fuel ≤ fuel') :
    clusterLoop fuel' working = some working' := by
  induction fuel generalizing working fuel' with
  | zero => cases hloop
  | succ fuel ih =>
      cases fuel' with
      | zero => omega
      | succ fuel' =>
          rw [clusterLoop] at hloop ⊢
          split at hloop
          · rename_i hnone
            rwa [if_pos hnone]
          · rename_i hmore
            rw [if_neg hmore]
            exact ih hloop (by omega)

theorem clusterAtThreshold_mono {fuel fuel' : ℕ} {concat : List N}
    {predictions : List (Prediction N P)} {threshold : P} {rows : List (ClusterRow N)}
    (hrun : clusterAtThreshold fuel concat predictions threshold = some rows)
    (hle : fuel ≤ fuel') : clusterAtThreshold fuel' concat predictions threshold = some rows := by
  rw [clusterAtThreshold, Option.map_eq_some_iff] at hrun ⊢
  obtain ⟨working, hloop, houtput⟩ := hrun
  exact ⟨working, clusterLoop_mono hloop hle, houtput⟩

section Run

variable {concat : List N} {predictions : List (Prediction N P)} {threshold : P}

omit [LinearOrder N] in
theorem LinkedAt.symm {x y : N} (hlink : LinkedAt predictions threshold x y) :
    LinkedAt predictions threshold y x := by
  obtain ⟨row, hrow, hle, hends⟩ := hlink
  exact ⟨row, hrow, hle, hends.symm⟩

omit [LinearOrder N] in
theorem mem_neighboursOf {row : Neighbour N} :
    row ∈ neighboursOf (edgesFromPredict predictions threshold) threshold ↔
      ∃ edge ∈ predictions, threshold ≤ edge.matchProbability ∧
        (⟨edge.nodeIdL, edge.nodeIdL, edge.nodeIdR, edge.nodeIdR⟩ = row ∨
          ⟨edge.nodeIdR, edge.nodeIdR, edge.nodeIdL, edge.nodeIdL⟩ = row) := by
  have hmem : ∀ edge, edge ∈ (edgesFromPredict predictions threshold).filter
      (fun edge => threshold ≤ edge.matchProbability) ↔
        edge ∈ predictions ∧ threshold ≤ edge.matchProbability := by
    intro edge
    rw [edgesFromPredict, List.mem_filter, List.mem_filter, decide_eq_true_eq]
    tauto
  rw [neighboursOf, List.mem_append, List.mem_map, List.mem_map, ← exists_or]
  apply exists_congr
  intro edge
  rw [hmem]
  tauto

omit [LinearOrder N] in
theorem paired_neighboursOf : Paired (neighboursOf (edgesFromPredict predictions threshold)
    threshold) = LinkedAt predictions threshold := by
  funext x y
  rw [eq_iff_iff, Paired, LinkedAt]
  apply Iff.intro
  · rintro ⟨row, hrow, rfl, rfl⟩
    obtain ⟨edge, hedge, hle, rfl | rfl⟩ := mem_neighboursOf.mp hrow
    · exact ⟨edge, hedge, hle, .inl ⟨rfl, rfl⟩⟩
    · exact ⟨edge, hedge, hle, .inr ⟨rfl, rfl⟩⟩
  · rintro ⟨edge, hedge, hle, ⟨rfl, rfl⟩ | ⟨rfl, rfl⟩⟩
    · exact ⟨_, mem_neighboursOf.mpr ⟨edge, hedge, hle, .inl rfl⟩, rfl, rfl⟩
    · exact ⟨_, mem_neighboursOf.mpr ⟨edge, hedge, hle, .inr rfl⟩, rfl, rfl⟩

/-- The tables before the first iteration. -/
theorem represents_initial (hdistinct : concat.Nodup)
    (hbetween : ∀ row ∈ predictions, row.nodeIdL ∈ concat ∧ row.nodeIdR ∈ concat) :
    Represents (LinkedAt predictions threshold)
      { neighbours := neighboursOf (edgesFromPredict predictions threshold) threshold
        representatives := ownRepresentatives concat
        stableTables := [] } [] concat id where
  nodup := hdistinct
  representatives := by
    have hrows : (concat.map fun node => (⟨some node, node, 0⟩ : Representative N)).Nodup := by
      apply hdistinct.map
      intro x y hsame
      exact congrArg Representative.representative hsame
    rw [ownRepresentatives, hrows.dedup]
    exact List.Perm.refl _
  retired := List.Perm.refl _
  settled x hx := by cases hx
  carried row hrow := by
    obtain ⟨edge, _, _, rfl | rfl⟩ := mem_neighboursOf.mp hrow
    · exact ⟨rfl, rfl⟩
    · exact ⟨rfl, rfl⟩
  spreading := by
    have hends : ∀ x y, LinkedAt predictions threshold x y → x ∈ concat ∧ y ∈ concat := by
      rintro x y ⟨row, hrow, _, ⟨rfl, rfl⟩ | ⟨rfl, rfl⟩⟩
      · exact hbetween row hrow
      · exact (hbetween row hrow).symm
    apply Spreading.initial
    · exact fun x y hlink => hlink.symm
    · intro x _ y hlink
      exact List.mem_toFinset.mpr (hends x y hlink).2
    · intro x y
      rw [paired_neighboursOf, List.mem_toFinset]
      exact ⟨fun hlink => ⟨(hends x y hlink).1, hlink⟩, And.right⟩

theorem exists_clusterAtThreshold (hdistinct : concat.Nodup)
    (hbetween : ∀ row ∈ predictions, row.nodeIdL ∈ concat ∧ row.nodeIdR ∈ concat) :
    ∃ rows, clusterAtThreshold (concat.length + 1) concat predictions threshold = some rows ∧
      rows.Perm (concat.map fun x =>
        ⟨some x, leastReached (LinkedAt predictions threshold) x⟩) ∧
      ∀ x ∈ concat, LeastReached (LinkedAt predictions threshold) x
        (leastReached (LinkedAt predictions threshold) x) := by
  have hrep : Represents (LinkedAt predictions threshold) _ [] concat id :=
    represents_initial hdistinct hbetween
  have hnodes := Represents.nodes_perm
    (neighboursOf (edgesFromPredict predictions threshold) threshold) id [] concat
  have hended : ∃ working' done' live' label', clusterLoop (concat.length + 1)
      { neighbours := neighboursOf (edgesFromPredict predictions threshold) threshold
        representatives := ownRepresentatives concat
        stableTables := [] } = some working' ∧
      Represents (LinkedAt predictions threshold) working' done' live' label' ∧
      working'.neighbours = [] ∧ (done' ++ live').Perm concat := by
    rw [clusterLoop]
    split
    · rename_i hnone
      exact ⟨_, _, _, _, rfl, hrep.iterate, List.length_eq_zero_iff.mp hnone, hnodes⟩
    · rename_i hmore
      have hcard : ((Represents.stillLive (neighboursOf (edgesFromPredict predictions threshold)
          threshold) id concat).toFinset.image (Represents.lowerLabel (neighboursOf
            (edgesFromPredict predictions threshold) threshold) id)).card ≤ concat.length :=
        (Finset.card_image_le.trans (List.toFinset_card_le _)).trans (List.length_filter_le _ _)
      rcases hrep.iterate.clusterLoop_spec hrep.crossing_iterate
        (fun hnone => hmore (List.length_eq_zero_iff.mpr hnone)) hcard with
        ⟨working', done', live', label', hloop, hrep', hnone, hperm⟩
      exact ⟨working', done', live', label', hloop, hrep', hnone, hperm.trans hnodes⟩
  obtain ⟨working', done', live', label', hloop, hrep', hnone, hperm⟩ := hended
  obtain ⟨hrows, hleast⟩ := hrep'.output_perm hnone
  refine ⟨working'.output, ?_, hrows.trans (hperm.map _), ?_⟩
  · rw [clusterAtThreshold, hloop, Option.map_some]
  · intro x hx
    exact hleast x (hperm.mem_iff.mpr hx)

/-- `cluster_at_threshold` ends, with one row for each record: the least id of its component. -/
theorem cluster_at_threshold_is_components (hdistinct : concat.Nodup)
    (hbetween : ∀ row ∈ predictions, row.nodeIdL ∈ concat ∧ row.nodeIdR ∈ concat) :
    ∃ (rows : List (ClusterRow N)) (least : N → N),
      (∀ fuel, concat.length < fuel →
        clusterAtThreshold fuel concat predictions threshold = some rows) ∧
      rows.Perm (concat.map fun x => ⟨some x, least x⟩) ∧
      ∀ x ∈ concat, Relation.ReflTransGen (LinkedAt predictions threshold) x (least x) ∧
        ∀ y, Relation.ReflTransGen (LinkedAt predictions threshold) x y → least x ≤ y := by
  rcases @exists_clusterAtThreshold N P _ _ concat predictions threshold hdistinct hbetween with
    ⟨rows, hrun, hrows, hleast⟩
  refine ⟨rows, leastReached (LinkedAt predictions threshold), ?_, hrows, hleast⟩
  intro fuel hfuel
  exact clusterAtThreshold_mono hrun hfuel

/-- Two links, a self pair and a pair of low probability. -/
def sampleLinks : List (Prediction ℕ ℕ) := [⟨5, 4, 9⟩, ⟨3, 4, 8⟩, ⟨7, 7, 9⟩, ⟨7, 3, 1⟩]

theorem cluster_at_threshold_is_components_sample :
    ∃ (rows : List (ClusterRow ℕ)) (least : ℕ → ℕ),
      (∀ fuel, 4 < fuel → clusterAtThreshold fuel [5, 4, 3, 7] sampleLinks 5 = some rows) ∧
      rows.Perm ([5, 4, 3, 7].map fun x => ⟨some x, least x⟩) ∧
      ∀ x ∈ [5, 4, 3, 7], Relation.ReflTransGen (LinkedAt sampleLinks 5) x (least x) ∧
        ∀ y, Relation.ReflTransGen (LinkedAt sampleLinks 5) x y → least x ≤ y := by
  have hdistinct : [5, 4, 3, 7].Nodup := by decide
  have hbetween : ∀ row ∈ sampleLinks,
      row.nodeIdL ∈ [5, 4, 3, 7] ∧ row.nodeIdR ∈ [5, 4, 3, 7] := by decide
  exact cluster_at_threshold_is_components hdistinct hbetween

end Run

end EntityResolution.Dedupe
