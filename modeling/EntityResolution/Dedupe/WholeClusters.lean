/-
# Merging whole clusters by single best links

A best link gives a record the smaller of two representatives, and only that record: the others of
its cluster follow when there are none. The loop ends with the first iteration without a best link,
whether or not a link between two clusters is left, for equal probabilities can rank every link
behind another one.

The iterations merge whole clusters exactly when the records can be gathered one at a time, each of
them alone, until no link ranks first on both sides and every link is settled.
-/

import EntityResolution.Dedupe.DuplicateFree
import EntityResolution.Foundations.Gathering

namespace EntityResolution.Dedupe

open EntityResolution.MutualBest

universe u v w x

variable {N : Type u} {D : Type v} {P : Type w} {C : Type x}
variable [LinearOrder N] [DecidableEq D] [LinearOrder P] [DecidableEq C]

section Iterations

variable (column : D → Option C) (dupFree : List D) (neighbours : List (SblNeighbour N D P))

/-- The representatives after an iteration. -/
def sblNext (representatives : List (SblRepresentative N D)) : List (SblRepresentative N D) :=
  (sblIterate column dupFree neighbours representatives).map Prod.fst

/-- The rows that an iteration updates. -/
def updates (representatives : List (SblRepresentative N D)) : ℕ :=
  ((sblIterate column dupFree neighbours representatives).filter Prod.snd).length

/-- The representatives after some iterations. -/
def sblRun (representatives : List (SblRepresentative N D)) : ℕ → List (SblRepresentative N D)
  | 0 => representatives
  | k + 1 => sblNext column dupFree neighbours (sblRun representatives k)

/-- The loop comes to this iteration: each one before updates a row. -/
def Reaches (representatives : List (SblRepresentative N D)) (k : ℕ) : Prop :=
  ∀ j < k, updates column dupFree neighbours
    (sblRun column dupFree neighbours representatives j) ≠ 0

variable {column dupFree neighbours}

theorem sblLoop_succ (fuel : ℕ) (representatives : List (SblRepresentative N D)) :
    sblLoop column dupFree neighbours (fuel + 1) representatives =
      if updates column dupFree neighbours representatives = 0 then
        some (sblNext column dupFree neighbours representatives)
      else sblLoop column dupFree neighbours fuel
        (sblNext column dupFree neighbours representatives) := rfl

theorem sblRun_next (representatives : List (SblRepresentative N D)) (k : ℕ) :
    sblRun column dupFree neighbours (sblNext column dupFree neighbours representatives) k =
      sblRun column dupFree neighbours representatives (k + 1) := by
  induction k with
  | zero => rw [sblRun, sblRun, sblRun]
  | succ k ih => exact congrArg (sblNext column dupFree neighbours) ih

theorem reaches_succ_iff {representatives : List (SblRepresentative N D)} {k : ℕ} :
    Reaches column dupFree neighbours representatives (k + 1) ↔
      updates column dupFree neighbours representatives ≠ 0 ∧
        Reaches column dupFree neighbours
          (sblNext column dupFree neighbours representatives) k := by
  rw [Reaches, Nat.forall_lt_succ_left]
  apply and_congr_right
  intro _
  simp only [Reaches, sblRun_next]

theorem sblLoop_eq_some_iff {fuel : ℕ} {representatives out : List (SblRepresentative N D)} :
    sblLoop column dupFree neighbours fuel representatives = some out ↔
      ∃ k < fuel, Reaches column dupFree neighbours representatives k ∧
        updates column dupFree neighbours
          (sblRun column dupFree neighbours representatives k) = 0 ∧
        sblRun column dupFree neighbours representatives (k + 1) = out := by
  induction fuel generalizing representatives with
  | zero =>
      apply Iff.intro
      · intro hloop
        cases hloop
      · rintro ⟨k, hk, _⟩
        omega
  | succ fuel ih =>
      rw [sblLoop_succ]
      by_cases hnone : updates column dupFree neighbours representatives = 0
      · rw [if_pos hnone, Option.some.injEq]
        apply Iff.intro
        · intro hout
          exact ⟨0, Nat.succ_pos _, fun j hj => absurd hj (Nat.not_lt_zero j), hnone, hout⟩
        · rintro ⟨k, _, hreaches, _, hout⟩
          cases k with
          | zero => exact hout
          | succ k => exact absurd hnone (reaches_succ_iff.mp hreaches).1
      · rw [if_neg hnone, ih]
        simp only [sblRun_next]
        apply Iff.intro
        · rintro ⟨k, hk, hreaches, hends, hout⟩
          exact ⟨k + 1, Nat.succ_lt_succ hk, reaches_succ_iff.mpr ⟨hnone, hreaches⟩, hends, hout⟩
        · rintro ⟨k, hk, hreaches, hends, hout⟩
          cases k with
          | zero => exact absurd hends hnone
          | succ k =>
              exact ⟨k, Nat.lt_of_succ_lt_succ hk, (reaches_succ_iff.mp hreaches).2, hends, hout⟩

end Iterations

/-- The links at or above the threshold between records, in both directions. -/
def knownLinks (records : List (SblRecord N D)) (predictions : List (SblPrediction N D P))
    (threshold : P) : List (Link N P) :=
  (predictions.filter fun p => threshold ≤ p.matchProbability ∧ p.nodeIdL ∈ recordIds records ∧
    p.nodeIdR ∈ recordIds records).flatMap fun p =>
      [⟨p.nodeIdL, p.nodeIdR, p.matchProbability⟩, ⟨p.nodeIdR, p.nodeIdL, p.matchProbability⟩]

/-- Two records are from a dataset of the list, up to the names that stand for another one. -/
def FlaggedAlike (column : D → Option C) (dupFree : List D) (records : List (SblRecord N D))
    (x y : N) : Prop :=
  ∃ d ∈ dupFree, ⟨x, firstNamed column dupFree d⟩ ∈ records ∧
    ⟨y, firstNamed column dupFree d⟩ ∈ records

/-- Every link lies in one class, or joins two with records of one duplicate-free dataset. -/
def LinksSettled (dupFree : List D) (records : List (SblRecord N D))
    (predictions : List (SblPrediction N D P)) (threshold : P) (rep : N → N) : Prop :=
  ∀ link ∈ knownLinks records predictions threshold, rep link.left = rep link.right ∨
    ∃ d ∈ dupFree, Holds records rep (rep link.left) d ∧ Holds records rep (rep link.right) d

/-- Records with one representative have one in the next rows. -/
def Coarser (representatives next : List (SblRepresentative N D)) : Prop :=
  ∀ a ∈ representatives, ∀ b ∈ representatives, a.representative = b.representative →
    ∀ a' ∈ next, ∀ b' ∈ next, a'.nodeId = a.nodeId → b'.nodeId = b.nodeId →
      a'.representative = b'.representative

section States

variable {column : D → Option C} {dupFree : List D} {records : List (SblRecord N D)}
  {rep rep' : N → N} {representatives next : List (SblRepresentative N D)}
  {neighbours : List (SblNeighbour N D P)}

omit [LinearOrder N] [DecidableEq D] in
theorem RepsOf.row (hreps : RepsOf records rep representatives) {x : N}
    (hx : x ∈ recordIds records) : ∃ row ∈ representatives, row.nodeId = x := by
  obtain ⟨r, hr, rfl⟩ := List.mem_map.mp hx
  exact ⟨_, hreps.mem.mpr ⟨r, hr, rfl⟩, rfl⟩

omit [LinearOrder N] [DecidableEq D] in
theorem RepsOf.of_row (hreps : RepsOf records rep representatives)
    {row : SblRepresentative N D} (hrow : row ∈ representatives) :
    row.nodeId ∈ recordIds records ∧ rep row.nodeId = row.representative := by
  obtain ⟨r, hr, rfl⟩ := hreps.mem.mp hrow
  exact ⟨List.mem_map_of_mem hr, rfl⟩

omit [DecidableEq D] in
theorem coarser_iff (hreps : RepsOf records rep representatives)
    (hnext : RepsOf records rep' next) :
    Coarser representatives next ↔ ∀ x y, rep x = rep y → rep' x = rep' y := by
  apply Iff.intro
  · intro hcoarser x y hsame
    have hknown : x ∈ recordIds records ↔ y ∈ recordIds records := by
      apply Iff.intro
      · intro hx
        by_contra hy
        rw [hreps.outside y hy] at hsame
        exact hy (hsame ▸ hreps.known x hx)
      · intro hy
        by_contra hx
        rw [hreps.outside x hx] at hsame
        exact hx (hsame.symm ▸ hreps.known y hy)
    by_cases hx : x ∈ recordIds records
    · have hy := hknown.mp hx
      obtain ⟨a, ha, rfl⟩ := hreps.row hx
      obtain ⟨b, hb, rfl⟩ := hreps.row hy
      obtain ⟨a', ha', hax⟩ := hnext.row hx
      obtain ⟨b', hb', hby⟩ := hnext.row hy
      rw [(hreps.of_row ha).2, (hreps.of_row hb).2] at hsame
      have hfollow := hcoarser a ha b hb hsame a' ha' b' hb' hax hby
      rwa [← (hnext.of_row ha').2, ← (hnext.of_row hb').2, hax, hby] at hfollow
    · have hy := fun hy => hx (hknown.mpr hy)
      rw [hreps.outside x hx, hreps.outside y hy] at hsame
      rw [hsame]
  · intro hcoarser a ha b hb hsame a' ha' b' hb' hax hby
    rw [← (hreps.of_row ha).2, ← (hreps.of_row hb).2] at hsame
    rw [← (hnext.of_row ha').2, ← (hnext.of_row hb').2, hax, hby]
    exact hcoarser _ _ hsame

end States

section Links

variable {column : D → Option C} {dupFree : List D} {records : List (SblRecord N D)}
  {rep : N → N} {representatives : List (SblRepresentative N D)}
  {predictions : List (SblPrediction N D P)} {threshold : P}

theorem mem_knownLinks {link : Link N P} : link ∈ knownLinks records predictions threshold ↔
    ∃ n ∈ sblNeighbours predictions threshold,
      ⟨n.nodeId, n.neighbour, n.matchProbability⟩ = link ∧
        n.nodeId ∈ recordIds records ∧ n.neighbour ∈ recordIds records := by
  simp only [knownLinks, List.mem_flatMap, List.mem_filter, decide_eq_true_eq, List.mem_cons,
    List.not_mem_nil, or_false]
  apply Iff.intro
  · rintro ⟨p, ⟨hp, hle, hl, hr⟩, rfl | rfl⟩
    · exact ⟨_, mem_sblNeighbours.mpr ⟨p, hp, hle, .inl rfl⟩, rfl, hl, hr⟩
    · exact ⟨_, mem_sblNeighbours.mpr ⟨p, hp, hle, .inr rfl⟩, rfl, hr, hl⟩
  · rintro ⟨n, hn, rfl, hl, hr⟩
    obtain ⟨p, hp, hle, rfl | rfl⟩ := mem_sblNeighbours.mp hn
    · exact ⟨p, ⟨hp, hle, hl, hr⟩, .inl rfl⟩
    · exact ⟨p, ⟨hp, hle, hr, hl⟩, .inr rfl⟩

theorem flip_mem_knownLinks : ∀ link ∈ knownLinks records predictions threshold,
    link.flip ∈ knownLinks records predictions threshold := by
  intro link hlink
  obtain ⟨n, hn, rfl, hl, hr⟩ := mem_knownLinks.mp hlink
  exact mem_knownLinks.mpr ⟨n.flip, bothWays_sblNeighbours predictions threshold n hn, rfl, hr, hl⟩

omit [LinearOrder N] [DecidableEq D] in
theorem FlaggedAlike.symm {x y : N} (halike : FlaggedAlike column dupFree records x y) :
    FlaggedAlike column dupFree records y x := by
  obtain ⟨d, hd, hx, hy⟩ := halike
  exact ⟨d, hd, hy, hx⟩

omit [LinearOrder N] [DecidableEq D] in
theorem shares_iff {a b : N} : Shares column dupFree records rep a b ↔
    ∃ x y, rep x = a ∧ rep y = b ∧ FlaggedAlike column dupFree records x y := by
  apply Iff.intro
  · rintro ⟨d, hd, ⟨r, hr, hra, hsource⟩, s, hs, hsb, hsource'⟩
    exact ⟨r.nodeId, s.nodeId, hra, hsb, d, hd, by rwa [← hsource], by rwa [← hsource']⟩
  · rintro ⟨x, y, hx, hy, d, hd, hxr, hyr⟩
    exact ⟨d, hd, ⟨_, hxr, hx, rfl⟩, ⟨_, hyr, hy, rfl⟩⟩

theorem mem_sblLinks_iff (hreps : RepsOf records rep representatives) (link : Link N P) :
    link ∈ sblLinks column dupFree (sblNeighbours predictions threshold) representatives ↔
      link ∈ openLinks (knownLinks records predictions threshold)
        (FlaggedAlike column dupFree records) rep := by
  rw [mem_sblLinks hreps, mem_openLinks, mem_knownLinks]
  apply Iff.intro
  · rintro ⟨n, hn, rfl, hl, hr, hne, hshares⟩
    refine ⟨⟨n, hn, rfl, hl, hr⟩, hne, ?_⟩
    intro x y hx hy halike
    exact hshares (shares_iff.mpr ⟨x, y, hx, hy, halike⟩)
  · rintro ⟨⟨n, hn, rfl, hl, hr⟩, hne, hfree⟩
    refine ⟨n, hn, rfl, hl, hr, hne, ?_⟩
    intro hshares
    obtain ⟨x, y, hx, hy, halike⟩ := shares_iff.mp hshares
    exact hfree x y hx hy halike

end Links

/-- The rows of the clustering. -/
def sblRows (representatives : List (SblRepresentative N D)) : List (SblCluster N) :=
  representatives.map fun row => ⟨row.nodeId, row.representative⟩

/-- Every cluster id is the least id of the cluster's members. -/
def LeastIds (rows : List (SblCluster N)) : Prop :=
  ∀ row ∈ rows, ⟨row.clusterId, row.clusterId⟩ ∈ rows ∧
    ∀ other ∈ rows, other.clusterId = row.clusterId → row.clusterId ≤ other.nodeId

/-- Every link at or above the threshold lies in one cluster, or joins two that share a
duplicate-free dataset. -/
def Settled (dupFree : List D) (records : List (SblRecord N D))
    (predictions : List (SblPrediction N D P)) (threshold : P)
    (rows : List (SblCluster N)) : Prop :=
  ∀ p ∈ predictions, threshold ≤ p.matchProbability → ∀ a ∈ rows, ∀ b ∈ rows,
    a.nodeId = p.nodeIdL → b.nodeId = p.nodeIdR → a.clusterId = b.clusterId ∨
      ∃ d ∈ dupFree, (∃ r ∈ records, r.sourceDataset = d ∧ ⟨r.nodeId, a.clusterId⟩ ∈ rows) ∧
        ∃ s ∈ records, s.sourceDataset = d ∧ ⟨s.nodeId, b.clusterId⟩ ∈ rows

section Output

variable {column : D → Option C} {dupFree : List D} {records : List (SblRecord N D)}
  {rep : N → N} {representatives : List (SblRepresentative N D)}
  {predictions : List (SblPrediction N D P)} {threshold : P}

omit [LinearOrder N] [DecidableEq D] in
theorem RepsOf.mem_sblRows (hreps : RepsOf records rep representatives) {row : SblCluster N} :
    row ∈ sblRows representatives ↔
      row.nodeId ∈ recordIds records ∧ rep row.nodeId = row.clusterId := by
  rw [sblRows, List.mem_map]
  apply Iff.intro
  · rintro ⟨repr, hrepr, rfl⟩
    exact hreps.of_row hrepr
  · rintro ⟨hknown, hcluster⟩
    obtain ⟨repr, hrepr, hnode⟩ := hreps.row hknown
    have hrep := (hreps.of_row hrepr).2
    rw [hnode, hcluster] at hrep
    exact ⟨repr, hrepr, by rw [hnode, ← hrep]⟩

omit [DecidableEq D] in
/-- Representatives that are least members give least ids. -/
theorem leastIds_of_least (hreps : RepsOf records rep representatives)
    (hleast : ∀ x, rep (rep x) = rep x ∧ rep x ≤ x) : LeastIds (sblRows representatives) := by
  intro row hrow
  obtain ⟨hknown, hcluster⟩ := hreps.mem_sblRows.mp hrow
  apply And.intro
  · rw [hreps.mem_sblRows, ← hcluster]
    exact ⟨hreps.known _ hknown, (hleast _).1⟩
  · intro other hother hsame
    rw [← hsame, ← (hreps.mem_sblRows.mp hother).2]
    exact (hleast _).2

theorem settled_iff (hreps : RepsOf records rep representatives) :
    Settled dupFree records predictions threshold (sblRows representatives) ↔
      LinksSettled dupFree records predictions threshold rep := by
  have hholds : ∀ c d, (∃ r ∈ records, r.sourceDataset = d ∧
      (⟨r.nodeId, c⟩ : SblCluster N) ∈ sblRows representatives) ↔ Holds records rep c d := by
    intro c d
    simp only [hreps.mem_sblRows, Holds]
    apply exists_congr
    intro r
    apply and_congr_right
    intro hr
    have hknown : r.nodeId ∈ recordIds records := List.mem_map_of_mem hr
    exact ⟨fun h => ⟨h.2.2, h.1⟩, fun h => ⟨h.2, hknown, h.1⟩⟩
  simp only [Settled, hholds, LinksSettled]
  apply Iff.intro
  · intro hsettled link hlink
    obtain ⟨n, hn, rfl, hl, hr⟩ := mem_knownLinks.mp hlink
    obtain ⟨p, hp, hle, rfl | rfl⟩ := mem_sblNeighbours.mp hn
    · exact hsettled p hp hle ⟨p.nodeIdL, rep p.nodeIdL⟩ (hreps.mem_sblRows.mpr ⟨hl, rfl⟩)
        ⟨p.nodeIdR, rep p.nodeIdR⟩ (hreps.mem_sblRows.mpr ⟨hr, rfl⟩) rfl rfl
    · -- the link is the prediction from its other side
      rcases hsettled p hp hle ⟨p.nodeIdL, rep p.nodeIdL⟩ (hreps.mem_sblRows.mpr ⟨hr, rfl⟩)
        ⟨p.nodeIdR, rep p.nodeIdR⟩ (hreps.mem_sblRows.mpr ⟨hl, rfl⟩) rfl rfl with
        hsame | ⟨d, hd, hdl, hdr⟩
      · exact Or.inl hsame.symm
      · exact Or.inr ⟨d, hd, hdr, hdl⟩
  · intro hsettled p hp hle a ha b hb hal hbr
    obtain ⟨hl, hla⟩ := hreps.mem_sblRows.mp ha
    obtain ⟨hr, hrb⟩ := hreps.mem_sblRows.mp hb
    rw [hal] at hl hla
    rw [hbr] at hr hrb
    rw [← hla, ← hrb]
    exact hsettled ⟨p.nodeIdL, p.nodeIdR, p.matchProbability⟩
      (mem_knownLinks.mpr ⟨_, mem_sblNeighbours.mpr ⟨p, hp, hle, .inl rfl⟩, rfl, hl, hr⟩)

end Output

/-! ## Runs over the records -/

section Runs

variable (column : D → Option C) (dupFree : List D) (records : List (SblRecord N D))
  (predictions : List (SblPrediction N D P)) (threshold : P)

/-- The representatives before an iteration, with ties broken by the lowest id. -/
def sblStates (k : ℕ) : List (SblRepresentative N D) :=
  sblRun column dupFree (sblNeighbours predictions threshold) (sblOwnReps records) k

/-- The classes before an iteration: as many steps along open links. -/
noncomputable def sblReps (k : ℕ) : N → N :=
  steps (knownLinks records predictions threshold) (FlaggedAlike column dupFree records) id k

/-- The links that are open between these classes. -/
noncomputable def openAt (k : ℕ) : List (Link N P) :=
  openLinks (knownLinks records predictions threshold) (FlaggedAlike column dupFree records)
    (sblReps column dupFree records predictions threshold k)

/-- The function comes to this iteration. -/
def ReachesIteration (k : ℕ) : Prop :=
  Reaches column dupFree (sblNeighbours predictions threshold) (sblOwnReps records) k

/-- The function returns, its iterations keep records together, cluster ids are least ids, and the
links that are left join clusters that share a dataset. -/
structure MergesWholeClusters : Prop where
  returns : ∃ (enough : ℕ) (rows : List (SblCluster N)), ∀ fuel, enough ≤ fuel →
    clusterUsingSingleBestLinks column dupFree fuel records predictions threshold "lowest_id" =
      some rows
  coarser : ∀ k, ReachesIteration column dupFree records predictions threshold k →
    Coarser (sblStates column dupFree records predictions threshold k)
      (sblStates column dupFree records predictions threshold (k + 1))
  least : ∀ fuel rows,
    clusterUsingSingleBestLinks column dupFree fuel records predictions threshold "lowest_id" =
      some rows → LeastIds rows
  settled : ∀ fuel rows,
    clusterUsingSingleBestLinks column dupFree fuel records predictions threshold "lowest_id" =
      some rows → Settled dupFree records predictions threshold rows

variable {column dupFree records predictions threshold}

/-- The rows before an iteration are the records with their classes. -/
theorem repsOf_sblStates (k : ℕ) :
    RepsOf records (sblReps column dupFree records predictions threshold k)
      (sblStates column dupFree records predictions threshold k) := by
  induction k with
  | zero => exact repsOf_own records
  | succ k ih =>
      have hnext : RepsOf records
          (step (sblLinks column dupFree (sblNeighbours predictions threshold)
            (sblStates column dupFree records predictions threshold k))
              (sblReps column dupFree records predictions threshold k))
          (sblStates column dupFree records predictions threshold (k + 1)) := ih.next
      rw [step_congr (mem_sblLinks_iff ih)] at hnext
      exact hnext

omit [DecidableEq D] in
theorem moves_sblReps (k : ℕ) : Moves (openAt column dupFree records predictions threshold k)
    (sblReps column dupFree records predictions threshold k)
    (sblReps column dupFree records predictions threshold (k + 1)) := moves_step _ _

theorem flip_mem_openAt (k : ℕ) :
    ∀ link ∈ openAt column dupFree records predictions threshold k,
      link.flip ∈ openAt column dupFree records predictions threshold k :=
  flip_mem_openLinks flip_mem_knownLinks fun _ _ => FlaggedAlike.symm

/-- While movers are alone, representatives are least members. -/
theorem least_sblReps {k : ℕ}
    (hlone : ∀ j < k, LoneMovers (openAt column dupFree records predictions threshold j)
      (sblReps column dupFree records predictions threshold j)) :
    ∀ x, sblReps column dupFree records predictions threshold k
        (sblReps column dupFree records predictions threshold k x) =
          sblReps column dupFree records predictions threshold k x ∧
      sblReps column dupFree records predictions threshold k x ≤ x := by
  induction k with
  | zero => exact fun x => ⟨rfl, le_refl x⟩
  | succ k ih =>
      exact (moves_sblReps k).least (flip_mem_openAt k) (hlone k (Nat.lt_succ_self k))
        (ih fun j hj => hlone j (Nat.lt_succ_of_lt hj))

theorem clusterUsingSingleBestLinks_eq_some_iff {fuel : ℕ} {rows : List (SblCluster N)} :
    clusterUsingSingleBestLinks column dupFree fuel records predictions threshold "lowest_id" =
        some rows ↔
      flagsParse column dupFree = true ∧
        ∃ k < fuel, ReachesIteration column dupFree records predictions threshold k ∧
          updates column dupFree (sblNeighbours predictions threshold)
            (sblStates column dupFree records predictions threshold k) = 0 ∧
          sblRows (sblStates column dupFree records predictions threshold (k + 1)) = rows := by
  have hmethod : linkNeighbours dupFree predictions threshold "lowest_id" =
      sblNeighbours predictions threshold := if_neg (by decide)
  rw [clusterUsingSingleBestLinks, hmethod]
  split
  · rename_i hparse
    rw [Option.map_eq_some_iff]
    simp only [sblLoop_eq_some_iff, hparse, true_and]
    apply Iff.intro
    · rintro ⟨out, ⟨k, hk, hreaches, hends, rfl⟩, rfl⟩
      exact ⟨k, hk, hreaches, hends, rfl⟩
    · rintro ⟨k, hk, hreaches, hends, rfl⟩
      exact ⟨_, ⟨k, hk, hreaches, hends, rfl⟩, rfl⟩
  · rename_i hparse
    apply Iff.intro
    · intro hrun
      cases hrun
    · intro hrun
      exact absurd hrun.1 hparse

theorem coarser_sblStates_iff (k : ℕ) :
    Coarser (sblStates column dupFree records predictions threshold k)
        (sblStates column dupFree records predictions threshold (k + 1)) ↔
      LoneMovers (openAt column dupFree records predictions threshold k)
        (sblReps column dupFree records predictions threshold k) := by
  rw [coarser_iff (repsOf_sblStates k) (repsOf_sblStates (k + 1)), (moves_sblReps k).coarsens_iff]

/-- Records can be gathered exactly when the movers so far are alone and they can be gathered from
the classes that the iterations have come to. -/
theorem gathers_iff_sblReps (k : ℕ) :
    Gathers (knownLinks records predictions threshold) (FlaggedAlike column dupFree records)
        (LinksSettled dupFree records predictions threshold) id ↔
      (∀ j < k, LoneMovers (openAt column dupFree records predictions threshold j)
        (sblReps column dupFree records predictions threshold j)) ∧
      Gathers (knownLinks records predictions threshold) (FlaggedAlike column dupFree records)
        (LinksSettled dupFree records predictions threshold)
        (sblReps column dupFree records predictions threshold k) :=
  gathers_iff_steps flip_mem_knownLinks (fun _ _ => FlaggedAlike.symm) k

/-- An iteration that updates no row leaves the classes as they are. -/
theorem sblReps_last {k : ℕ} (hends : updates column dupFree (sblNeighbours predictions threshold)
      (sblStates column dupFree records predictions threshold k) = 0) :
    sblReps column dupFree records predictions threshold (k + 1) =
      sblReps column dupFree records predictions threshold k := by
  rw [updates, no_updates_iff (repsOf_sblStates k),
    step_congr (mem_sblLinks_iff (repsOf_sblStates k))] at hends
  exact funext hends

theorem gathers_last_iff {k : ℕ}
    (hends : updates column dupFree (sblNeighbours predictions threshold)
      (sblStates column dupFree records predictions threshold k) = 0) :
    Gathers (knownLinks records predictions threshold) (FlaggedAlike column dupFree records)
        (LinksSettled dupFree records predictions threshold)
        (sblReps column dupFree records predictions threshold k) ↔
      Settled dupFree records predictions threshold
        (sblRows (sblStates column dupFree records predictions threshold (k + 1))) := by
  have hcross : ∀ link ∈ openAt column dupFree records predictions threshold k,
      sblReps column dupFree records predictions threshold k link.left ≠
        sblReps column dupFree records predictions threshold k link.right :=
    fun link hlink => (mem_openLinks.mp hlink).2.1
  have hnone := ((moves_sblReps k).still_iff (flip_mem_openAt k) hcross).mp
    (congrFun (sblReps_last hends))
  rw [gathers_iff_settled hnone, settled_iff (repsOf_sblStates (k + 1)), sblReps_last hends]

/-- The function returns when its statements parse. -/
theorem returns_of_flagsParse (hparse : flagsParse column dupFree = true) :
    ∃ (enough : ℕ) (rows : List (SblCluster N)), ∀ fuel, enough ≤ fuel →
      clusterUsingSingleBestLinks column dupFree fuel records predictions threshold "lowest_id" =
        some rows := by
  have hrun : ∃ rep' representatives', sblLoop column dupFree
      (linkNeighbours dupFree predictions threshold "lowest_id")
        ((recordIds records).toFinset.card * (recordIds records).toFinset.card + 1)
        (sblOwnReps records) = some representatives' ∧ RepsOf records rep' representatives' ∧
        True := by
    apply sblLoop_spec _ (repsOf_own records) trivial
    · exact Nat.lt_succ_of_le (potential_le _ _)
    · intro _ _ _ _
      trivial
  obtain ⟨_, representatives', hloop, _⟩ := hrun
  refine ⟨(recordIds records).toFinset.card * (recordIds records).toFinset.card + 1,
    sblRows representatives', ?_⟩
  intro fuel hfuel
  rw [clusterUsingSingleBestLinks, if_pos hparse, sblLoop_mono hloop hfuel]
  rfl

end Runs

/-- Four records of a dataset that is not duplicate-free. -/
def shopRecords (a b c d : ℕ) : List (SblRecord ℕ String) :=
  [⟨a, "shop"⟩, ⟨b, "shop"⟩, ⟨c, "shop"⟩, ⟨d, "shop"⟩]

/-- Links between them. -/
def shopLinks (links : List (ℕ × ℕ × ℕ)) : List (SblPrediction ℕ String ℕ) :=
  links.map fun link => ⟨link.1, link.2.1, "shop", "shop", link.2.2⟩

end EntityResolution.Dedupe
