/-
# Duplicate-free datasets stay apart

No iteration brings two records of one duplicate-free dataset together: a class takes in at most one
record, over a link that the flags let through. Every iteration that updates a record lowers a
representative, so the loop ends. All this reads the flags by their names, and it holds for a list
of datasets exactly when the names are identifiers and none of them stands for two datasets.
-/

import EntityResolution.Dedupe.BestLinksSpec

namespace EntityResolution.Dedupe

open EntityResolution.MutualBest

universe u v w x

variable {N : Type u} {D : Type v} {P : Type w} {C : Type x}
variable [LinearOrder N] [DecidableEq D] [LinearOrder P] [DecidableEq C]

section Run

variable {column : D → Option C} {dupFree : List D} {records : List (SblRecord N D)}
  {rep : N → N} {representatives : List (SblRepresentative N D)}
  {neighbours : List (SblNeighbour N D P)}

/-- The run lemma: what every step keeps holds at the end, and the end comes. -/
theorem sblLoop_spec {keeps : (N → N) → Prop}
    (hstep : ∀ rep representatives, RepsOf records rep representatives → keeps rep →
      keeps (step (sblLinks column dupFree neighbours representatives) rep))
    {fuel : ℕ} (hreps : RepsOf records rep representatives) (hkeeps : keeps rep)
    (hfuel : potential (recordIds records).toFinset rep < fuel) :
    ∃ rep' representatives', sblLoop column dupFree neighbours fuel representatives =
        some representatives' ∧ RepsOf records rep' representatives' ∧ keeps rep' := by
  induction fuel generalizing rep representatives with
  | zero => omega
  | succ fuel ih =>
      have hnext : RepsOf records
        (step (sblLinks column dupFree neighbours representatives) rep) _ :=
        hreps.next
      have hkept := hstep rep representatives hreps hkeeps
      rw [sblLoop]
      split
      · exact ⟨_, _, rfl, hnext, hkept⟩
      · rename_i hupdates
        apply ih hnext hkept
        rw [no_updates_iff hreps, not_forall] at hupdates
        obtain ⟨x, hmoved⟩ := hupdates
        have hx : x ∈ recordIds records := by
          by_contra hx
          exact hmoved ((hnext.outside x hx).trans (hreps.outside x hx).symm)
        have hknown : ∀ y ∈ (recordIds records).toFinset,
            step (sblLinks column dupFree neighbours representatives) rep y ∈
              (recordIds records).toFinset := fun y hy =>
          List.mem_toFinset.mpr (hnext.known y (List.mem_toFinset.mp hy))
        have hlt := (moves_step _ rep).potential_lt hknown ⟨x, List.mem_toFinset.mpr hx, hmoved⟩
        omega

theorem sblLoop_mono {fuel fuel' : ℕ} {representatives' : List (SblRepresentative N D)}
    (hloop : sblLoop column dupFree neighbours fuel representatives = some representatives')
    (hle : fuel ≤ fuel') :
    sblLoop column dupFree neighbours fuel' representatives = some representatives' := by
  induction fuel generalizing representatives fuel' with
  | zero => cases hloop
  | succ fuel ih =>
      cases fuel' with
      | zero => omega
      | succ fuel' =>
          rw [sblLoop] at hloop ⊢
          split at hloop
          · rename_i hnone
            rwa [if_pos hnone]
          · rename_i hmore
            rw [if_neg hmore]
            exact ih hloop (by omega)

omit [LinearOrder N] [DecidableEq D] in
/-- The tables before the first iteration. -/
theorem repsOf_own (records : List (SblRecord N D)) : RepsOf records id (sblOwnReps records) where
  rows := List.Perm.refl _
  known _ hx := hx
  outside _ _ := rfl

omit [DecidableEq D] in
/-- The first dataset of a name has that name and is listed. -/
theorem firstNamed_spec {d : D} (hd : d ∈ dupFree) :
    firstNamed column dupFree d ∈ dupFree ∧ column (firstNamed column dupFree d) = column d := by
  have hsome : (dupFree.find? fun other => column other = column d).isSome :=
    List.find?_isSome.mpr ⟨d, hd, decide_eq_true rfl⟩
  obtain ⟨first, hfirst⟩ := Option.isSome_iff_exists.mp hsome
  have hname := List.find?_some hfirst
  rw [decide_eq_true_eq] at hname
  rw [firstNamed, hfirst, Option.getD_some]
  exact ⟨List.mem_of_find?_eq_some hfirst, hname⟩

omit [DecidableEq D] in
theorem firstNamed_congr {d d' : D} (hd : d ∈ dupFree)
    (hsame : column d = column d') :
    firstNamed column dupFree d = firstNamed column dupFree d' := by
  have hsome : (dupFree.find? fun other => column other = column d).isSome :=
    List.find?_isSome.mpr ⟨d, hd, decide_eq_true rfl⟩
  obtain ⟨first, hfirst⟩ := Option.isSome_iff_exists.mp hsome
  rw [firstNamed, firstNamed, ← hsame, hfirst, Option.getD_some, Option.getD_some]

/-- Two records of one duplicate-free dataset. -/
def Clash (records : List (SblRecord N D)) (dupFree : List D) (x y : N) : Prop :=
  ∃ r ∈ records, ∃ s ∈ records, r.nodeId = x ∧ s.nodeId = y ∧
    r.sourceDataset = s.sourceDataset ∧ r.sourceDataset ∈ dupFree

/-- With names of their own, flags keep the records of a dataset apart in every iteration. -/
theorem separated_step (hnames : ∀ d ∈ dupFree, ∀ d' ∈ dupFree, column d = column d' → d = d')
    (hboth : BothWays neighbours) (hreps : RepsOf records rep representatives)
    (hapart : ∀ x y, x ≠ y → Clash records dupFree x y → rep x ≠ rep y) :
    ∀ x y, x ≠ y → Clash records dupFree x y →
      step (sblLinks column dupFree neighbours representatives) rep x ≠
        step (sblLinks column dupFree neighbours representatives) rep y := by
  have hflip : ∀ link ∈ sblLinks column dupFree neighbours representatives,
      link.flip ∈ sblLinks column dupFree neighbours representatives :=
    flip_mem_sblLinks hboth hreps
  have hmoves := moves_step (sblLinks column dupFree neighbours representatives) rep
  apply hmoves.separated hflip _ hapart
  · intro link hlink x y hx hy hclash
    obtain ⟨n, _, rfl, _, _, _, hshares⟩ := (mem_sblLinks hreps).mp hlink
    obtain ⟨r, hr, s, hs, rfl, rfl, hsource, hd⟩ := hclash
    have hfirst : firstNamed column dupFree r.sourceDataset ∈ dupFree ∧
        column (firstNamed column dupFree r.sourceDataset) = column r.sourceDataset :=
      firstNamed_spec hd
    have hself := hnames _ hfirst.1 _ hd hfirst.2
    refine hshares ⟨r.sourceDataset, hd, ⟨r, hr, hx, hself.symm⟩, ⟨s, hs, hy, ?_⟩⟩
    exact hsource.symm.trans hself.symm
  · rintro x y ⟨r, hr, s, hs, hx, hy, hsource, hd⟩
    exact ⟨s, hs, r, hr, hy, hx, hsource.symm, hsource ▸ hd⟩

/-- The function ends with one row for each record, and no cluster holds two records of one
duplicate-free dataset. -/
def KeepsDatasetsApart (column : D → Option C) (dupFree : List D) (records : List (SblRecord N D))
    (predictions : List (SblPrediction N D P)) (threshold : P) (tiesMethod : String) : Prop :=
  ∃ (enough : ℕ) (rows : List (SblCluster N)),
    (∀ fuel, enough ≤ fuel → clusterUsingSingleBestLinks column dupFree fuel records predictions
      threshold tiesMethod = some rows) ∧
    (rows.map SblCluster.nodeId).Perm (recordIds records) ∧
    ∀ r ∈ records, ∀ s ∈ records, r.sourceDataset = s.sourceDataset → r.sourceDataset ∈ dupFree →
      ∀ clusterId, ⟨r.nodeId, clusterId⟩ ∈ rows → ⟨s.nodeId, clusterId⟩ ∈ rows →
        r.nodeId = s.nodeId

/-- Names that are identifiers and differ keep the datasets apart. -/
theorem keepsDatasetsApart_of_names {predictions : List (SblPrediction N D P)} {threshold : P}
    {tiesMethod : String} (hne : dupFree ≠ []) (hparse : ∀ d ∈ dupFree, (column d).isSome)
    (hnames : ∀ d ∈ dupFree, ∀ d' ∈ dupFree, column d = column d' → d = d') :
    KeepsDatasetsApart column dupFree records predictions threshold tiesMethod := by
  have hrun : ∃ rep' representatives', sblLoop column dupFree
      (linkNeighbours dupFree predictions threshold tiesMethod)
        ((recordIds records).toFinset.card * (recordIds records).toFinset.card + 1)
        (sblOwnReps records) = some representatives' ∧ RepsOf records rep' representatives' ∧
        ∀ x y, x ≠ y → Clash records dupFree x y → rep' x ≠ rep' y := by
    apply sblLoop_spec _ (repsOf_own records)
    · intro x y hne _
      exact hne
    · exact Nat.lt_succ_of_le (potential_le _ _)
    · intro rep representatives hreps hapart
      exact separated_step hnames (bothWays_linkNeighbours predictions threshold tiesMethod) hreps
        hapart
  obtain ⟨rep', representatives', hloop, hreps, hapart⟩ := hrun
  have hflags : flagsParse column dupFree = true := by
    rw [flagsParse, Bool.and_eq_true, List.all_eq_true]
    exact ⟨by simpa using hne, hparse⟩
  refine ⟨(recordIds records).toFinset.card * (recordIds records).toFinset.card + 1,
    representatives'.map fun row => ⟨row.nodeId, row.representative⟩, ?_, ?_, ?_⟩
  · intro fuel hfuel
    rw [clusterUsingSingleBestLinks, if_pos hflags, sblLoop_mono hloop hfuel, Option.map_some]
  · rw [List.map_map]
    apply (hreps.rows.map _).trans
    rw [List.map_map]
    exact List.Perm.refl _
  · have hcluster : ∀ r ∈ records, ∀ clusterId, (⟨r.nodeId, clusterId⟩ : SblCluster N) ∈
        representatives'.map (fun row => ⟨row.nodeId, row.representative⟩) →
          rep' r.nodeId = clusterId := by
      intro r _ clusterId hrow
      obtain ⟨row, hrow, hsame⟩ := List.mem_map.mp hrow
      obtain ⟨other, _, rfl⟩ := hreps.mem.mp hrow
      obtain ⟨hnode, hcluster⟩ := SblCluster.mk.inj hsame
      rw [← hnode]
      exact hcluster
    intro r hr s hs hsource hd clusterId hrow hrow'
    by_contra hne
    apply hapart r.nodeId s.nodeId hne ⟨r, hr, s, hs, rfl, rfl, hsource, hd⟩
    rw [hcluster r hr clusterId hrow, hcluster s hs clusterId hrow']

end Run

section Names

variable {column : D → Option C} {dupFree : List D}

theorem not_keepsDatasetsApart_of_not_parse {d : D} (hd : d ∈ dupFree)
    (hnone : (column d).isSome = false) (records : List (SblRecord N D))
    (predictions : List (SblPrediction N D P)) (threshold : P) (tiesMethod : String) :
    ¬ KeepsDatasetsApart column dupFree records predictions threshold tiesMethod := by
  rintro ⟨enough, rows, hrun, _⟩
  have hfails := hrun enough (le_refl _)
  have hflags : ¬ flagsParse column dupFree = true := by
    rw [flagsParse, Bool.and_eq_true, List.all_eq_true, not_and]
    intro _ hall
    exact Bool.false_ne_true (hnone.symm.trans (hall d hd))
  rw [clusterUsingSingleBestLinks, if_neg hflags] at hfails
  cases hfails

/-- Two records of a dataset, and a link between them. -/
def twoRecords (d : D) (a b : N) : List (SblRecord N D) := [⟨a, d⟩, ⟨b, d⟩]

def twoLinked (d : D) (a b : N) (p : P) : List (SblPrediction N D P) := [⟨a, b, d, d, p⟩]

omit [LinearOrder N] [DecidableEq D] in
theorem not_shares_of_firstNamed_ne {d : D} {a b : N} {rep : N → N}
    (hfirst : firstNamed column dupFree d ≠ d) (hd : d ∈ dupFree) (x y : N) :
    ¬ Shares column dupFree (twoRecords d a b) rep x y := by
  rintro ⟨other, hother, ⟨r, hr, _, hsource⟩, _⟩
  have hsame : r.sourceDataset = d := by
    simp only [twoRecords, List.mem_cons, List.not_mem_nil, or_false] at hr
    rcases hr with rfl | rfl
    · rfl
    · rfl
  rw [hsame] at hsource
  have hspec : firstNamed column dupFree other ∈ dupFree ∧
      column (firstNamed column dupFree other) = column other := firstNamed_spec hother
  rw [← hsource] at hspec
  apply hfirst
  rw [firstNamed_congr hd hspec.2]
  exact hsource.symm

/-- The first iteration brings the two records together. -/
theorem step_twoRecords {d : D} {a b : N} (hlt : a < b) (p : P)
    (hfirst : firstNamed column dupFree d ≠ d) (hd : d ∈ dupFree) :
    step (sblLinks column dupFree (sblNeighbours (twoLinked d a b p) p)
      (sblOwnReps (twoRecords d a b))) id b = a := by
  have hreps := repsOf_own (twoRecords d a b)
  have hlinks : ∀ link ∈ sblLinks column dupFree (sblNeighbours (twoLinked d a b p) p)
      (sblOwnReps (twoRecords d a b)), link = ⟨a, b, p⟩ ∨ link = ⟨b, a, p⟩ := by
    intro link hlink
    obtain ⟨n, hn, rfl, _⟩ := (mem_sblLinks hreps).mp hlink
    obtain ⟨q, hq, _, hrow⟩ := mem_sblNeighbours.mp hn
    cases List.mem_singleton.mp hq
    rcases hrow with rfl | rfl
    · exact .inl rfl
    · exact .inr rfl
  have hback : (⟨b, a, p⟩ : Link N P) ∈ sblLinks column dupFree
      (sblNeighbours (twoLinked d a b p) p) (sblOwnReps (twoRecords d a b)) := by
    rw [mem_sblLinks hreps]
    refine ⟨⟨b, a, d, d, p⟩, ?_, rfl, ?_, ?_, hlt.ne', not_shares_of_firstNamed_ne hfirst hd _ _⟩
    · exact mem_sblNeighbours.mpr ⟨⟨a, b, d, d, p⟩, List.mem_singleton_self _, le_refl p, .inr rfl⟩
    · simp [recordIds, twoRecords]
    · simp [recordIds, twoRecords]
  apply (moves_step _ id).moved b a ⟨⟨b, a, p⟩, hback, rfl, rfl, ?_, ?_⟩ hlt
  · intro other hother hclass
    rcases hlinks other hother with rfl | rfl
    · exact absurd hclass hlt.ne
    · simp [Before]
  · intro other hother hclass
    rcases hlinks other hother with rfl | rfl
    · exact absurd hclass hlt.ne'
    · simp [Before]

omit [DecidableEq D] in
/-- A representative of one of two records that is no larger than the first one is the first one. -/
theorem rep_eq_first {d : D} {a b x : N} {rep : N → N} {representatives :
    List (SblRepresentative N D)} (hlt : a < b)
    (hreps : RepsOf (twoRecords d a b) rep representatives)
    (hx : x ∈ recordIds (twoRecords d a b)) (hle : rep x ≤ a) : rep x = a := by
  have hknown := hreps.known x hx
  simp only [recordIds, twoRecords, List.map_cons, List.map_nil, List.mem_cons, List.not_mem_nil,
    or_false] at hknown
  rcases hknown with hknown | hknown
  · exact hknown
  · exact absurd (hknown ▸ hle) (not_le.mpr hlt)

/-- The loop over the two records ends with both under the first one. -/
theorem sblLoop_twoRecords {d : D} {a b : N} (hlt : a < b) (p : P)
    (hfirst : firstNamed column dupFree d ≠ d) (hd : d ∈ dupFree) {fuel : ℕ}
    (hfuel : potential (recordIds (twoRecords d a b)).toFinset
      (step (sblLinks column dupFree (sblNeighbours (twoLinked d a b p) p)
        (sblOwnReps (twoRecords d a b))) id) < fuel) :
    ∃ rep' representatives', sblLoop column dupFree (sblNeighbours (twoLinked d a b p) p)
        (fuel + 1) (sblOwnReps (twoRecords d a b)) = some representatives' ∧
      RepsOf (twoRecords d a b) rep' representatives' ∧ rep' a = a ∧ rep' b = a := by
  have ha : a ∈ recordIds (twoRecords d a b) := List.mem_cons_self
  have hb : b ∈ recordIds (twoRecords d a b) := List.mem_cons_of_mem _ List.mem_cons_self
  have hreps := repsOf_own (twoRecords d a b)
  have hnext : RepsOf (twoRecords d a b) (step (sblLinks column dupFree
      (sblNeighbours (twoLinked d a b p) p) (sblOwnReps (twoRecords d a b))) id) _ := hreps.next
  have hstepA := rep_eq_first hlt hnext ha ((moves_step _ id).le a)
  have hstepB := step_twoRecords hlt p hfirst hd
  rw [sblLoop]
  split
  · exact ⟨_, _, rfl, hnext, hstepA, hstepB⟩
  · apply sblLoop_spec _ hnext ⟨hstepA, hstepB⟩ hfuel
    intro rep representatives hreps hkeeps
    have hlater : RepsOf (twoRecords d a b) (step (sblLinks column dupFree
      (sblNeighbours (twoLinked d a b p) p) representatives) rep) _ := hreps.next
    exact ⟨rep_eq_first hlt hlater ha (((moves_step _ rep).le a).trans hkeeps.1.le),
      rep_eq_first hlt hlater hb (((moves_step _ rep).le b).trans hkeeps.2.le)⟩

theorem not_keepsDatasetsApart_of_firstNamed_ne {d : D} {a b : N} (hlt : a < b) (p : P)
    (hfirst : firstNamed column dupFree d ≠ d) (hd : d ∈ dupFree) :
    ¬ KeepsDatasetsApart column dupFree (twoRecords d a b) (twoLinked d a b p) p "lowest_id" := by
  rintro ⟨enough, rows, hrun, _, hapart⟩
  have hfuel := Nat.lt_succ_of_le
    (Nat.le_add_left (potential (recordIds (twoRecords d a b)).toFinset
    (step (sblLinks column dupFree (sblNeighbours (twoLinked d a b p) p)
      (sblOwnReps (twoRecords d a b))) id)) enough)
  obtain ⟨rep', representatives', hloop, hreps, ha, hb⟩ := sblLoop_twoRecords hlt p hfirst hd hfuel
  have hends := hrun _ (le_trans (Nat.le_add_right enough (potential (recordIds
    (twoRecords d a b)).toFinset (step (sblLinks column dupFree (sblNeighbours
      (twoLinked d a b p) p) (sblOwnReps (twoRecords d a b))) id))) (Nat.le_add_right _ 2))
  have hmethod : linkNeighbours dupFree (twoLinked d a b p) p "lowest_id" =
      sblNeighbours (twoLinked d a b p) p := if_neg (by decide)
  rw [clusterUsingSingleBestLinks] at hends
  split at hends
  · rw [hmethod, hloop, Option.map_some, Option.some.injEq] at hends
    subst hends
    have hrow : ∀ r ∈ twoRecords d a b, rep' r.nodeId = a → (⟨r.nodeId, a⟩ : SblCluster N) ∈
        representatives'.map fun row => ⟨row.nodeId, row.representative⟩ := by
      intro r hr hrep
      rw [List.mem_map]
      exact ⟨_, hreps.mem.mpr ⟨r, hr, rfl⟩, by rw [hrep]⟩
    have hsame := hapart ⟨a, d⟩ List.mem_cons_self ⟨b, d⟩
      (List.mem_cons_of_mem _ List.mem_cons_self) rfl hd a
      (hrow _ List.mem_cons_self ha) (hrow _ (List.mem_cons_of_mem _ List.mem_cons_self) hb)
    exact hlt.ne hsame
  · cases hends

/-- Every name of the list is an identifier, and no identifier stands for two of them. -/
def NamesApart (column : D → Option C) (dupFree : List D) : Prop :=
  (∀ d ∈ dupFree, (column d).isSome) ∧
    ∀ d ∈ dupFree, ∀ d' ∈ dupFree, column d = column d' → d = d'

end Names

/-- The identifier of a flag written without quotes: letters, digits and underscores, compared
without case. -/
def flagColumn (d : String) : Option (List Char) :=
  if d.toList.all fun c => c.isAlphanum || c == '_' then
    some ("contains_".toList ++ d.toList.map Char.toLower)
  else none

end EntityResolution.Dedupe
