/-
# One iteration as a step of mutual best links

The tables of an iteration are read against the records and a function from a record to its
representative. Flags tell which datasets a representative's records are from, ranks compare the
links of a representative, and the rows at the end are those of one step.
-/

import EntityResolution.Dedupe.BestLinks

namespace EntityResolution.Dedupe

open EntityResolution.Grouping EntityResolution.MutualBest EntityResolution.OuterJoins
  EntityResolution.Relations

universe u v w x

variable {N : Type u} {D : Type v} {P : Type w} {C : Type x}
variable [LinearOrder N] [DecidableEq D] [LinearOrder P] [DecidableEq C]

/-- The ids of the records. -/
def recordIds (records : List (SblRecord N D)) : List N := records.map SblRecord.nodeId

/-- The rows are the records with their representatives. -/
structure RepsOf (records : List (SblRecord N D)) (rep : N → N)
    (representatives : List (SblRepresentative N D)) : Prop where
  rows : representatives.Perm (records.map fun r => ⟨r.nodeId, rep r.nodeId, r.sourceDataset⟩)
  known : ∀ x ∈ recordIds records, rep x ∈ recordIds records
  outside : ∀ x, x ∉ recordIds records → rep x = x

/-- Some record of a representative is from the dataset. -/
def Holds (records : List (SblRecord N D)) (rep : N → N) (c : N) (d : D) : Prop :=
  ∃ r ∈ records, rep r.nodeId = c ∧ r.sourceDataset = d

/-- The dataset whose flag a name refers to. -/
def firstNamed (column : D → Option C) (dupFree : List D) (d : D) : D :=
  (dupFree.find? fun other => column other = column d).getD d

/-- Two representatives have a flag in common. -/
def Shares (column : D → Option C) (dupFree : List D) (records : List (SblRecord N D))
    (rep : N → N) (a b : N) : Prop :=
  ∃ d ∈ dupFree, Holds records rep a (firstNamed column dupFree d) ∧
    Holds records rep b (firstNamed column dupFree d)

section Tables

variable {column : D → Option C} {dupFree : List D} {records : List (SblRecord N D)}
  {rep : N → N} {representatives : List (SblRepresentative N D)}
  {neighbours : List (SblNeighbour N D P)}

omit [LinearOrder N] [DecidableEq D] in
theorem RepsOf.mem (hreps : RepsOf records rep representatives)
    {row : SblRepresentative N D} : row ∈ representatives ↔
      ∃ r ∈ records, ⟨r.nodeId, rep r.nodeId, r.sourceDataset⟩ = row := by
  rw [hreps.rows.mem_iff, List.mem_map]

/-- The flag row of a representative. -/
def flagRow (column : D → Option C) (dupFree : List D)
    (representatives : List (SblRepresentative N D)) (c : N) : FlagRow N C :=
  ⟨c, dupFree.map fun d => (column d, ((representatives.filter fun row =>
    row.representative = c).map SblRepresentative.sourceDataset).contains d)⟩

omit [DecidableEq C] in
theorem repsWithFlags_eq : repsWithFlags column dupFree representatives =
    representatives.map fun row => ⟨row.nodeId, row.sourceDataset,
      flagRow column dupFree representatives row.representative⟩ := by
  have hkeys : ((flagsOf column dupFree representatives).map FlagRow.representative).Nodup := by
    rw [flagsOf, List.map_map]
    change ((groups SblRepresentative.representative representatives).map Prod.fst).Nodup
    rw [map_fst_groups]
    exact List.nodup_dedup _
  have hfound : ∀ row ∈ representatives, (flagsOf column dupFree representatives).filter
      (fun cf => row.representative = cf.representative) =
        [flagRow column dupFree representatives row.representative] := by
    intro row hrow
    have hin : flagRow column dupFree representatives row.representative ∈
        flagsOf column dupFree representatives :=
      List.mem_map.mpr ⟨(row.representative, representatives.filter fun other =>
        other.representative = row.representative), mem_groups.mpr ⟨⟨row, hrow, rfl⟩, rfl⟩, rfl⟩
    rw [← filter_eq_singleton hkeys hin rfl]
    apply List.filter_congr
    intro cf _
    rw [decide_eq_decide]
    exact eq_comm
  rw [repsWithFlags, innerJoin_eq_map hfound, List.map_map]
  rfl

theorem lookup_flagRow (hreps : RepsOf records rep representatives) {d : D} (hd : d ∈ dupFree)
    (c : N) : (flagRow column dupFree representatives c).lookup (column d) = true ↔
      Holds records rep c (firstNamed column dupFree d) := by
  have hsome : (dupFree.find? fun other => column other = column d).isSome :=
    List.find?_isSome.mpr ⟨d, hd, decide_eq_true rfl⟩
  obtain ⟨first, hfirst⟩ := Option.isSome_iff_exists.mp hsome
  rw [FlagRow.lookup, flagRow, List.find?_map]
  change ((Option.map _ (dupFree.find? fun other => column other = column d)).map _).getD false =
    true ↔ _
  rw [hfirst, firstNamed, hfirst, Option.getD_some]
  simp only [Option.map_some, Option.getD_some, List.contains_iff_mem, List.mem_map,
    List.mem_filter, decide_eq_true_eq, Holds]
  apply Iff.intro
  · rintro ⟨row, ⟨hrow, hc⟩, hsource⟩
    obtain ⟨r, hr, rfl⟩ := hreps.mem.mp hrow
    exact ⟨r, hr, hc, hsource⟩
  · rintro ⟨r, hr, hc, hsource⟩
    exact ⟨_, ⟨hreps.mem.mpr ⟨r, hr, rfl⟩, hc⟩, hsource⟩

theorem duplicateCriteria_iff (hreps : RepsOf records rep representatives)
    {l r : FlaggedRow N D C} {a b : N} (hl : l.flags = flagRow column dupFree representatives a)
    (hr : r.flags = flagRow column dupFree representatives b) :
    duplicateCriteria column dupFree l r = true ↔ Shares column dupFree records rep a b := by
  rw [duplicateCriteria, List.any_eq_true, hl, hr, Shares]
  apply exists_congr
  intro d
  apply and_congr_right
  intro hd
  rw [Bool.and_eq_true, lookup_flagRow hreps hd, lookup_flagRow hreps hd]

/-- The candidate links. -/
def sblLinks (column : D → Option C) (dupFree : List D) (neighbours : List (SblNeighbour N D P))
    (representatives : List (SblRepresentative N D)) : List (Link N P) :=
  (candidates column dupFree neighbours representatives).map fun row =>
    ⟨row.1.1.nodeId, row.1.1.neighbour, row.1.1.matchProbability⟩

omit [DecidableEq C] in
theorem mem_repsWithFlags (hreps : RepsOf records rep representatives)
    {row : FlaggedRow N D C} : row ∈ repsWithFlags column dupFree representatives ↔
      ∃ r ∈ records, ⟨r.nodeId, r.sourceDataset,
        flagRow column dupFree representatives (rep r.nodeId)⟩ = row := by
  rw [repsWithFlags_eq, List.mem_map]
  apply Iff.intro
  · rintro ⟨repr, hrepr, rfl⟩
    obtain ⟨r, hr, rfl⟩ := hreps.mem.mp hrepr
    exact ⟨r, hr, rfl⟩
  · rintro ⟨r, hr, rfl⟩
    exact ⟨_, hreps.mem.mpr ⟨r, hr, rfl⟩, rfl⟩

omit [LinearOrder P] in
theorem mem_candidates (hreps : RepsOf records rep representatives)
    {row : (SblNeighbour N D P × FlaggedRow N D C) × FlaggedRow N D C} :
    row ∈ candidates column dupFree neighbours representatives ↔
      row.1.1 ∈ neighbours ∧
      (∃ l ∈ records, l.nodeId = row.1.1.nodeId ∧ row.1.2 = ⟨l.nodeId, l.sourceDataset,
        flagRow column dupFree representatives (rep row.1.1.nodeId)⟩) ∧
      (∃ r ∈ records, r.nodeId = row.1.1.neighbour ∧ row.2 = ⟨r.nodeId, r.sourceDataset,
        flagRow column dupFree representatives (rep row.1.1.neighbour)⟩) ∧
      rep row.1.1.nodeId ≠ rep row.1.1.neighbour ∧
      ¬ Shares column dupFree records rep (rep row.1.1.nodeId) (rep row.1.1.neighbour) := by
  obtain ⟨⟨n, left⟩, right⟩ := row
  rw [candidates, List.mem_filter, mem_innerJoin, mem_innerJoin, mem_repsWithFlags hreps,
    mem_repsWithFlags hreps]
  simp only [decide_eq_true_eq]
  apply Iff.intro
  · rintro ⟨⟨⟨hn, ⟨l, hl, rfl⟩, hleft⟩, ⟨r, hr, rfl⟩, hright⟩, hne, hcriteria⟩
    have hshares : duplicateCriteria column dupFree
        ⟨l.nodeId, l.sourceDataset, flagRow column dupFree representatives (rep l.nodeId)⟩
        ⟨r.nodeId, r.sourceDataset, flagRow column dupFree representatives (rep r.nodeId)⟩ = true ↔
          Shares column dupFree records rep (rep l.nodeId) (rep r.nodeId) :=
      duplicateCriteria_iff hreps rfl rfl
    change l.nodeId = n.nodeId at hleft
    change r.nodeId = n.neighbour at hright
    rw [hcriteria] at hshares
    rw [hleft, hright] at hshares
    refine ⟨hn, ⟨l, hl, hleft, ?_⟩, ⟨r, hr, hright, ?_⟩, ?_, ?_⟩
    · rw [← hleft]
    · rw [← hright]
    · rw [← hleft, ← hright]
      exact hne
    · intro hsame
      exact Bool.false_ne_true (hshares.mpr hsame)
  · rintro ⟨hn, ⟨l, hl, hleft, rfl⟩, ⟨r, hr, hright, rfl⟩, hne, hapart⟩
    have hshares : duplicateCriteria column dupFree
        ⟨l.nodeId, l.sourceDataset, flagRow column dupFree representatives (rep n.nodeId)⟩
        ⟨r.nodeId, r.sourceDataset, flagRow column dupFree representatives (rep n.neighbour)⟩ =
          true ↔ Shares column dupFree records rep (rep n.nodeId) (rep n.neighbour) :=
      duplicateCriteria_iff hreps rfl rfl
    refine ⟨⟨⟨hn, ⟨l, hl, ?_⟩, hleft⟩, ⟨r, hr, ?_⟩, hright⟩, hne, ?_⟩
    · rw [hleft]
    · rw [hright]
    · rw [← Bool.not_eq_true, hshares]
      exact hapart

omit [LinearOrder P] in
theorem mem_sblLinks (hreps : RepsOf records rep representatives) {link : Link N P} :
    link ∈ sblLinks column dupFree neighbours representatives ↔
      ∃ n ∈ neighbours, ⟨n.nodeId, n.neighbour, n.matchProbability⟩ = link ∧
        n.nodeId ∈ recordIds records ∧ n.neighbour ∈ recordIds records ∧
        rep n.nodeId ≠ rep n.neighbour ∧
        ¬ Shares column dupFree records rep (rep n.nodeId) (rep n.neighbour) := by
  simp only [sblLinks, List.mem_map, mem_candidates hreps, recordIds]
  apply Iff.intro
  · rintro ⟨⟨⟨n, left⟩, right⟩, ⟨hn, ⟨l, hl, hleft, _⟩, ⟨r, hr, hright, _⟩, hne, hapart⟩, rfl⟩
    exact ⟨n, hn, rfl, ⟨l, hl, hleft⟩, ⟨r, hr, hright⟩, hne, hapart⟩
  · rintro ⟨n, hn, rfl, ⟨l, hl, hleft⟩, ⟨r, hr, hright⟩, hne, hapart⟩
    refine ⟨((n, ⟨l.nodeId, l.sourceDataset,
      flagRow column dupFree representatives (rep n.nodeId)⟩), ⟨r.nodeId, r.sourceDataset,
        flagRow column dupFree representatives (rep n.neighbour)⟩), ?_, rfl⟩
    exact ⟨hn, ⟨l, hl, hleft, rfl⟩, ⟨r, hr, hright, rfl⟩, hne, hapart⟩

omit [DecidableEq D] [DecidableEq C] in
theorem rankOver_eq_one_iff
    {partition place : (SblNeighbour N D P × FlaggedRow N D C) × FlaggedRow N D C → N}
    {rows : List ((SblNeighbour N D P × FlaggedRow N D C) × FlaggedRow N D C)}
    {row : (SblNeighbour N D P × FlaggedRow N D C) × FlaggedRow N D C} :
    rankOver partition place rows row = 1 ↔ ∀ other ∈ rows, partition other = partition row →
      ¬ Before other.1.1.matchProbability (place other) row.1.1.matchProbability (place row) := by
  rw [rankOver, Nat.add_eq_left, List.length_eq_zero_iff, List.filter_eq_nil_iff]
  simp only [decide_eq_true_eq, not_and, Before]

omit [LinearOrder P] in
/-- What a candidate row says of the two ends of its link. -/
theorem ends_of_mem_candidates (hreps : RepsOf records rep representatives)
    {row : (SblNeighbour N D P × FlaggedRow N D C) × FlaggedRow N D C}
    (hrow : row ∈ candidates column dupFree neighbours representatives) :
    (row.1.2.nodeId = row.1.1.nodeId ∧ row.1.2.flags.representative = rep row.1.1.nodeId) ∧
      row.2.nodeId = row.1.1.neighbour ∧ row.2.flags.representative = rep row.1.1.neighbour := by
  obtain ⟨_, ⟨l, _, hl, hleft⟩, ⟨r, _, hr, hright⟩, _⟩ := (mem_candidates hreps).mp hrow
  rw [hleft, hright]
  exact ⟨⟨hl, rfl⟩, hr, rfl⟩

theorem rankL_eq_one_iff (hreps : RepsOf records rep representatives)
    {row : (SblNeighbour N D P × FlaggedRow N D C) × FlaggedRow N D C}
    (hrow : row ∈ candidates column dupFree neighbours representatives) :
    rankL (candidates column dupFree neighbours representatives) row = 1 ↔
      FirstLeft (sblLinks column dupFree neighbours representatives) rep
        ⟨row.1.1.nodeId, row.1.1.neighbour, row.1.1.matchProbability⟩ := by
  obtain ⟨⟨_, hrep⟩, hnode, _⟩ := ends_of_mem_candidates hreps hrow
  rw [rankL, rankOver_eq_one_iff, FirstLeft, sblLinks, List.forall_mem_map]
  apply forall₂_congr
  intro other hother
  obtain ⟨⟨_, hrep'⟩, hnode', _⟩ := ends_of_mem_candidates hreps hother
  rw [hrep, hnode, hrep', hnode']

theorem rankR_eq_one_iff (hreps : RepsOf records rep representatives)
    {row : (SblNeighbour N D P × FlaggedRow N D C) × FlaggedRow N D C}
    (hrow : row ∈ candidates column dupFree neighbours representatives) :
    rankR (candidates column dupFree neighbours representatives) row = 1 ↔
      FirstRight (sblLinks column dupFree neighbours representatives) rep
        ⟨row.1.1.nodeId, row.1.1.neighbour, row.1.1.matchProbability⟩ := by
  obtain ⟨⟨hnode, _⟩, _, hrep⟩ := ends_of_mem_candidates hreps hrow
  rw [rankR, rankOver_eq_one_iff, FirstRight, sblLinks, List.forall_mem_map]
  apply forall₂_congr
  intro other hother
  obtain ⟨⟨hnode', _⟩, _, hrep'⟩ := ends_of_mem_candidates hreps hother
  rw [hnode, hrep, hnode', hrep']

theorem mem_bestLinks (hreps : RepsOf records rep representatives) {x y : N} :
    (x, y) ∈ bestLinks column dupFree neighbours representatives ↔
      Best (sblLinks column dupFree neighbours representatives) rep x y := by
  simp only [bestLinks, List.mem_map, List.mem_filter, decide_eq_true_eq, Prod.mk.injEq]
  apply Iff.intro
  · rintro ⟨row, ⟨hrow, hl, hr⟩, rfl, rfl⟩
    exact ⟨_, List.mem_map_of_mem hrow, rfl, rfl, (rankL_eq_one_iff hreps hrow).mp hl,
      (rankR_eq_one_iff hreps hrow).mp hr⟩
  · rintro ⟨link, hlink, rfl, rfl, hl, hr⟩
    obtain ⟨row, hrow, rfl⟩ := List.mem_map.mp hlink
    exact ⟨row, ⟨hrow, (rankL_eq_one_iff hreps hrow).mpr hl,
      (rankR_eq_one_iff hreps hrow).mpr hr⟩, rfl, rfl⟩

/-! ## The update -/

omit [DecidableEq D] in
theorem mem_repSources (hreps : RepsOf records rep representatives) {best : List (N × N)}
    {x value : N} : (x, some value) ∈ repSources best representatives ↔
      (∃ y, (x, y) ∈ best ∧ y ∈ recordIds records ∧ rep y = value) ∨
        (x ∈ recordIds records ∧ rep x = value) := by
  rw [repSources, List.mem_append, List.mem_map, List.mem_map]
  apply or_congr
  · apply Iff.intro
    · rintro ⟨⟨⟨x', y⟩, found⟩, hrow, hsame⟩
      obtain ⟨rfl, hvalue⟩ := Prod.mk.inj hsame
      obtain ⟨repr, rfl, rfl⟩ := Option.map_eq_some_iff.mp hvalue
      obtain ⟨hbest, hrepr, hnode⟩ := mem_leftJoin_some.mp hrow
      obtain ⟨r, hr, rfl⟩ := hreps.mem.mp hrepr
      cases of_decide_eq_true hnode
      exact ⟨_, hbest, List.mem_map_of_mem hr, rfl⟩
    · rintro ⟨y, hbest, hy, rfl⟩
      obtain ⟨r, hr, rfl⟩ := List.mem_map.mp hy
      exact ⟨((x, r.nodeId), some ⟨r.nodeId, rep r.nodeId, r.sourceDataset⟩),
        mem_leftJoin_some.mpr ⟨hbest, hreps.mem.mpr ⟨r, hr, rfl⟩, decide_eq_true rfl⟩, rfl⟩
  · apply Iff.intro
    · rintro ⟨repr, hrepr, hsame⟩
      obtain ⟨r, hr, rfl⟩ := hreps.mem.mp hrepr
      obtain ⟨rfl, hvalue⟩ := Prod.mk.inj hsame
      exact ⟨List.mem_map_of_mem hr, Option.some.inj hvalue⟩
    · rintro ⟨hx, rfl⟩
      obtain ⟨r, hr, rfl⟩ := List.mem_map.mp hx
      exact ⟨_, hreps.mem.mpr ⟨r, hr, rfl⟩, rfl⟩

omit [DecidableEq D] in
theorem nodup_sblNewReps {best : List (N × N)} :
    ((sblNewReps best representatives).map Prod.fst).Nodup := by
  have hkeys : ((groups Prod.fst (repSources best representatives)).map Prod.fst).Nodup := by
    rw [map_fst_groups]
    exact List.nodup_dedup _
  apply List.pairwise_map.mpr
  apply List.Pairwise.filterMap _ _ (List.pairwise_map.mp hkeys)
  intro group group' hne made hmade made' hmade'
  obtain ⟨_, _, rfl⟩ := Option.map_eq_some_iff.mp hmade
  obtain ⟨_, _, rfl⟩ := Option.map_eq_some_iff.mp hmade'
  exact hne

/-- The new representative of a record is that of the step. -/
theorem step_mem_sblNewReps (hreps : RepsOf records rep representatives) {x : N}
    (hx : x ∈ recordIds records) :
    (x, step (sblLinks column dupFree neighbours representatives) rep x) ∈
      sblNewReps (bestLinks column dupFree neighbours representatives) representatives := by
  have hmoves := moves_step (sblLinks column dupFree neighbours representatives) rep
  have hvalues : ∀ value, value ∈ ((repSources (bestLinks column dupFree neighbours
      representatives) representatives).filter fun row => row.1 = x).filterMap Prod.snd ↔
      (∃ y, Best (sblLinks column dupFree neighbours representatives) rep x y ∧ rep y = value) ∨
        rep x = value := by
    intro value
    have hentry : value ∈ ((repSources (bestLinks column dupFree neighbours
        representatives) representatives).filter fun row => row.1 = x).filterMap Prod.snd ↔
        (x, some value) ∈ repSources (bestLinks column dupFree neighbours representatives)
          representatives := by
      rw [List.mem_filterMap]
      apply Iff.intro
      · rintro ⟨⟨x', found⟩, hrow, hvalue⟩
        obtain ⟨hin, hkey⟩ := List.mem_filter.mp hrow
        cases of_decide_eq_true hkey
        cases hvalue
        exact hin
      · intro hin
        exact ⟨_, List.mem_filter.mpr ⟨hin, decide_eq_true rfl⟩, rfl⟩
    rw [hentry, mem_repSources hreps]
    apply or_congr
    · apply exists_congr
      intro y
      rw [mem_bestLinks hreps]
      apply and_congr_right
      rintro ⟨link, hlink, _, rfl, _⟩
      obtain ⟨n, _, rfl, _, hright, _⟩ := (mem_sblLinks hreps).mp hlink
      exact and_iff_right hright
    · exact and_iff_right hx
  have hmin : (((repSources (bestLinks column dupFree neighbours representatives)
      representatives).filter fun row => row.1 = x).filterMap Prod.snd).min? =
      some (step (sblLinks column dupFree neighbours representatives) rep x) := by
    rw [List.min?_eq_some_iff]
    constructor
    · rw [hvalues]
      rcases hmoves.cases x with hsame | ⟨y, hbest, _, hmoved⟩
      · exact .inr hsame.symm
      · exact .inl ⟨y, hbest, hmoved.symm⟩
    · intro value hvalue
      rcases (hvalues value).mp hvalue with ⟨y, hbest, rfl⟩ | rfl
      · by_cases hlt : rep y < rep x
        · exact (hmoves.moved x y hbest hlt).le
        · exact (hmoves.le x).trans (not_lt.mp hlt)
      · exact hmoves.le x
  rw [sblNewReps, List.mem_filterMap]
  refine ⟨(x, (repSources (bestLinks column dupFree neighbours representatives)
    representatives).filter fun row => row.1 = x), mem_groups.mpr ⟨?_, rfl⟩, ?_⟩
  · exact ⟨(x, some (rep x)), (mem_repSources hreps).mpr (.inr ⟨hx, rfl⟩), rfl⟩
  · rw [hmin, Option.map_some]

theorem sblIterate_perm (hreps : RepsOf records rep representatives) :
    (sblIterate column dupFree neighbours representatives).Perm (records.map fun r =>
      (⟨r.nodeId, step (sblLinks column dupFree neighbours representatives) rep r.nodeId,
        r.sourceDataset⟩,
      decide (step (sblLinks column dupFree neighbours representatives) rep r.nodeId ≠
        rep r.nodeId))) := by
  have hfound : ∀ repr ∈ representatives, ∃ nr ∈ sblNewReps (bestLinks column dupFree neighbours
      representatives) representatives, nr.1 = repr.nodeId ∧
        ((⟨nr.1, nr.2, repr.sourceDataset⟩ : SblRepresentative N D),
          decide (nr.2 ≠ repr.representative)) =
        (⟨repr.nodeId, step (sblLinks column dupFree neighbours representatives) rep repr.nodeId,
          repr.sourceDataset⟩, decide (step (sblLinks column dupFree neighbours representatives)
            rep repr.nodeId ≠ repr.representative)) := by
    intro repr hrepr
    obtain ⟨r, hr, rfl⟩ := hreps.mem.mp hrepr
    exact ⟨_, step_mem_sblNewReps hreps (List.mem_map_of_mem hr), rfl, rfl⟩
  rw [sblIterate, updatedReps, innerJoin, List.map_flatMap]
  simp only [List.map_map]
  apply (flatMap_filter_perm nodup_sblNewReps hfound).trans
  apply (hreps.rows.map _).trans
  rw [List.map_map]
  exact List.Perm.refl _

theorem RepsOf.next (hreps : RepsOf records rep representatives) :
    RepsOf records (step (sblLinks column dupFree neighbours representatives) rep)
      ((sblIterate column dupFree neighbours representatives).map Prod.fst) where
  rows := by
    apply (sblIterate_perm hreps |>.map Prod.fst).trans
    rw [List.map_map]
    exact List.Perm.refl _
  known x hx := by
    rcases (moves_step (sblLinks column dupFree neighbours representatives) rep).cases x with
      hsame | ⟨y, ⟨link, hlink, _, rfl, _⟩, _, hmoved⟩
    · rw [hsame]
      exact hreps.known x hx
    · obtain ⟨n, _, rfl, _, hright, _⟩ := (mem_sblLinks hreps).mp hlink
      rw [hmoved]
      exact hreps.known _ hright
  outside x hx := by
    rcases (moves_step (sblLinks column dupFree neighbours representatives) rep).cases x with
      hsame | ⟨y, ⟨link, hlink, rfl, _⟩, _⟩
    · rw [hsame]
      exact hreps.outside x hx
    · obtain ⟨n, _, rfl, hleft, _⟩ := (mem_sblLinks hreps).mp hlink
      exact absurd hleft hx

theorem no_updates_iff (hreps : RepsOf records rep representatives) :
    ((sblIterate column dupFree neighbours representatives).filter Prod.snd).length = 0 ↔
      ∀ x, step (sblLinks column dupFree neighbours representatives) rep x = rep x := by
  rw [List.length_eq_zero_iff, List.filter_eq_nil_iff]
  simp only [(sblIterate_perm hreps).mem_iff, List.forall_mem_map, decide_eq_true_eq, not_not]
  apply Iff.intro
  · intro hnone x
    by_cases hx : x ∈ recordIds records
    · obtain ⟨r, hr, rfl⟩ := List.mem_map.mp hx
      exact hnone r hr
    · rw [hreps.outside x hx]
      exact hreps.next.outside x hx
  · intro hstill r _
    exact hstill r.nodeId

omit [LinearOrder N] [DecidableEq D] in
theorem Shares.symm {a b : N} (hshares : Shares column dupFree records rep a b) :
    Shares column dupFree records rep b a := by
  obtain ⟨d, hd, ha, hb⟩ := hshares
  exact ⟨d, hd, hb, ha⟩

end Tables

/-- A neighbour row from its other side. -/
def SblNeighbour.flip (row : SblNeighbour N D P) : SblNeighbour N D P :=
  ⟨row.neighbour, row.nodeId, row.sourceDatasetR, row.sourceDatasetL, row.matchProbability⟩

/-- Every neighbour row is there from its other side. -/
def BothWays (neighbours : List (SblNeighbour N D P)) : Prop :=
  ∀ row ∈ neighbours, row.flip ∈ neighbours

section Directions

variable {column : D → Option C} {dupFree : List D} {records : List (SblRecord N D)}
  {rep : N → N} {representatives : List (SblRepresentative N D)}
  {neighbours : List (SblNeighbour N D P)}

omit [LinearOrder P] in
theorem flip_mem_sblLinks (hboth : BothWays neighbours)
    (hreps : RepsOf records rep representatives) :
    ∀ link ∈ sblLinks column dupFree neighbours representatives,
      link.flip ∈ sblLinks column dupFree neighbours representatives := by
  intro link hlink
  obtain ⟨n, hn, rfl, hleft, hright, hne, hapart⟩ := (mem_sblLinks hreps).mp hlink
  exact (mem_sblLinks hreps).mpr ⟨n.flip, hboth n hn, rfl, hright, hleft, hne.symm,
    fun hshares => hapart hshares.symm⟩

theorem mem_sblNeighbours {predictions : List (SblPrediction N D P)} {threshold : P}
    {row : SblNeighbour N D P} : row ∈ sblNeighbours predictions threshold ↔
      ∃ p ∈ predictions, threshold ≤ p.matchProbability ∧
        (⟨p.nodeIdL, p.nodeIdR, p.sourceDatasetL, p.sourceDatasetR, p.matchProbability⟩ = row ∨
          ⟨p.nodeIdR, p.nodeIdL, p.sourceDatasetR, p.sourceDatasetL,
            p.matchProbability⟩ = row) := by
  simp only [sblNeighbours, List.mem_append, List.mem_map, List.mem_filter, decide_eq_true_eq]
  rw [← exists_or]
  apply exists_congr
  intro p
  tauto

theorem bothWays_sblNeighbours (predictions : List (SblPrediction N D P)) (threshold : P) :
    BothWays (sblNeighbours predictions threshold) := by
  intro row hrow
  obtain ⟨p, hp, hle, rfl | rfl⟩ := mem_sblNeighbours.mp hrow
  · exact mem_sblNeighbours.mpr ⟨p, hp, hle, .inr rfl⟩
  · exact mem_sblNeighbours.mpr ⟨p, hp, hle, .inl rfl⟩

/-- The tie flag of a group: several nodes on the other side, of a duplicate-free dataset. -/
def tieFlag (nodes : List N) (dataset : D) (dupFree : List D) : ℕ :=
  if 1 < nodes.dedup.length ∧ dataset ∈ dupFree then 1 else 0

theorem mem_tiesL {entry : (N × D × D × P) × ℕ} : entry ∈ tiesL neighbours dupFree ↔
    (∃ row ∈ neighbours, tieKeyL row = entry.1) ∧
      tieFlag ((neighbours.filter fun other => tieKeyL other = entry.1).map SblNeighbour.neighbour)
        entry.1.2.2.1 dupFree = entry.2 :=
  mem_map_groups

theorem mem_tiesR {entry : (N × D × D × P) × ℕ} : entry ∈ tiesR neighbours dupFree ↔
    (∃ row ∈ neighbours, tieKeyR row = entry.1) ∧
      tieFlag ((neighbours.filter fun other => tieKeyR other = entry.1).map SblNeighbour.nodeId)
        entry.1.2.1 dupFree = entry.2 :=
  mem_map_groups

theorem mem_dropTies {row : SblNeighbour N D P} : row ∈ dropTies neighbours dupFree ↔
    row ∈ neighbours ∧
      tieFlag ((neighbours.filter fun other => tieKeyL other = tieKeyL row).map
        SblNeighbour.neighbour) row.sourceDatasetR dupFree = 0 ∧
      tieFlag ((neighbours.filter fun other => tieKeyR other = tieKeyR row).map
        SblNeighbour.nodeId) row.sourceDatasetL dupFree = 0 := by
  simp only [dropTies, List.mem_map, List.mem_filter, mem_innerJoin, decide_eq_true_eq]
  apply Iff.intro
  · rintro ⟨joined, ⟨⟨⟨hn, hleft, hkeyL⟩, hright, hkeyR⟩, hzeroL, hzeroR⟩, rfl⟩
    have hflagL := (mem_tiesL.mp hleft).2.trans hzeroL
    have hflagR := (mem_tiesR.mp hright).2.trans hzeroR
    rw [← hkeyL] at hflagL
    rw [← hkeyR] at hflagR
    exact ⟨hn, hflagL, hflagR⟩
  · rintro ⟨hn, hleft, hright⟩
    exact ⟨((row, tieKeyL row, 0), tieKeyR row, 0), ⟨⟨⟨hn, mem_tiesL.mpr ⟨⟨row, hn, rfl⟩, hleft⟩,
      rfl⟩, mem_tiesR.mpr ⟨⟨row, hn, rfl⟩, hright⟩, rfl⟩, rfl, rfl⟩, rfl⟩

/-- The nodes tied on one side of a row are those tied on the other side of its flip. -/
theorem tied_flip (hboth : BothWays neighbours) (row : SblNeighbour N D P) :
    ((neighbours.filter fun other => tieKeyL other = tieKeyL row.flip).map
      SblNeighbour.neighbour).dedup.Perm
    ((neighbours.filter fun other => tieKeyR other = tieKeyR row).map
      SblNeighbour.nodeId).dedup := by
  rw [List.perm_ext_iff_of_nodup (List.nodup_dedup _) (List.nodup_dedup _)]
  intro x
  simp only [List.mem_dedup, List.mem_map, List.mem_filter, decide_eq_true_eq, tieKeyL, tieKeyR,
    Prod.mk.injEq]
  apply Iff.intro
  · rintro ⟨other, ⟨hother, hnode, hl, hr, hp⟩, rfl⟩
    exact ⟨other.flip, ⟨hboth other hother, hnode, hr, hl, hp⟩, rfl⟩
  · rintro ⟨other, ⟨hother, hnode, hl, hr, hp⟩, rfl⟩
    exact ⟨other.flip, ⟨hboth other hother, hnode, hr, hl, hp⟩, rfl⟩

/-- Dropping ties drops both directions of a link. -/
theorem bothWays_dropTies (hboth : BothWays neighbours) (dupFree : List D) :
    BothWays (dropTies neighbours dupFree) := by
  have hdouble : ∀ row : SblNeighbour N D P, row.flip.flip = row := fun _ => rfl
  intro row hrow
  obtain ⟨hn, hleft, hright⟩ := mem_dropTies.mp hrow
  have hlengthL := (tied_flip hboth row).length_eq
  have hlengthR := (tied_flip hboth row.flip).length_eq
  rw [hdouble] at hlengthR
  rw [mem_dropTies]
  refine ⟨hboth row hn, ?_, ?_⟩
  · rw [tieFlag, hlengthL]
    exact hright
  · rw [tieFlag, ← hlengthR]
    exact hleft

theorem bothWays_linkNeighbours (predictions : List (SblPrediction N D P)) (threshold : P)
    (tiesMethod : String) :
    BothWays (linkNeighbours dupFree predictions threshold tiesMethod) := by
  rw [linkNeighbours]
  split
  · exact bothWays_dropTies (bothWays_sblNeighbours predictions threshold) dupFree
  · exact bothWays_sblNeighbours predictions threshold

end Directions

end EntityResolution.Dedupe
