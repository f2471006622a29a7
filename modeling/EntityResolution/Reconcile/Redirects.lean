/-
# Resolving the redirects of a history

`resolve` follows `merged_into` with a bound of `DEFAULT_MAX_HOPS` hops. The redirects
that reconcile runs accumulate never close a cycle, so the cycle guard never fires on
them, and the walk from a merged entity always has an end. Runs do not compress
redirects, however. A chain gains at most one hop a run and can gain one every second
run, so a long history holds chains that the hop guard refuses.

The long chain is built by two partitions in turn. Placing the second of two records
alone orphans the first, which draws a fresh id; placing both together again lets the
fresh id win the tie by its smaller member, and the older id is merged into it.
-/

import EntityResolution.Reconcile.History

namespace EntityResolution.Reconcile

open EntityResolution.Collections EntityResolution.Identity EntityResolution.PointerChain
  EntityResolution.MergeForest

universe u

variable {R E H : Type u} [LinearOrder R] [LinearOrder E] [LinearOrder H]

/-- The redirect table that external id resolution reads: every `merged_into` that is
set. -/
def Registry.redirects (registry : Registry R E) : BTreeMap E E :=
  registry.entities.filterMap fun _ row => row.mergedInto

omit [LinearOrder H] in
theorem Registry.redirectOf_redirects (registry : Registry R E) :
    redirectOf registry.redirects = registry.mergedInto := by
  funext entity
  simp [redirectOf, redirects, mergedInto]

section Histories

variable {digest : EventDetails R E → H} {registry : Registry R E}

/-- Resolving a merged entity of a history. Its chain ends at an entity that is not
redirected, after at most as many hops as there were runs. Within the hop bound `resolve`
returns that entity, beyond it `resolve` reports too many hops, and it never reports a
cycle. -/
theorem resolve_redirects {n : ℕ} (hhistory : History digest n registry) {entity : E}
    {row : EntityRow E} (hrow : registry.entities[entity]? = some row)
    (hmerged : row.status = .merged) :
    ∃ k last, Hops registry.mergedInto k entity last ∧ registry.mergedInto last = none ∧
      0 < k ∧ k ≤ n ∧
      (k ≤ defaultMaxHops → resolve entity registry.redirects defaultMaxHops = .ok last) ∧
      (defaultMaxHops < k → ∃ reached, resolve entity registry.redirects defaultMaxHops =
        .error (.tooManyHops entity defaultMaxHops reached)) ∧
      ∀ chain, resolve entity registry.redirects defaultMaxHops ≠
        .error (.redirectCycle chain) := by
  obtain ⟨hsound, hgrounded⟩ := hhistory.sound
  rcases hgrounded entity row.fate (Option.map_eq_some_iff.mpr ⟨row, hrow, rfl⟩) with
    ⟨k, last, hk, hsettles, _⟩
  rw [hsound.target_census] at hsettles
  have hwalk : Settles (redirectOf registry.redirects) k entity last := by
    rw [registry.redirectOf_redirects]
    exact hsettles
  have hpos : 0 < k := by
    obtain ⟨survivor, hsurvivor⟩ := (hsound.merged_iff hrow).mp hmerged
    apply Nat.pos_of_ne_zero
    intro hzero
    subst hzero
    obtain ⟨hstay, hend⟩ := hsettles
    cases hstay
    simp [Registry.mergedInto, hrow, hsurvivor] at hend
  refine ⟨k, last, hsettles.1, hsettles.2, hpos, hk, resolve_of_settles hwalk,
    resolve_of_settles_long hwalk, ?_⟩
  intro chain hcycle
  by_cases hle : k ≤ defaultMaxHops
  · rw [resolve_of_settles hwalk hle] at hcycle
    cases hcycle
  · obtain ⟨reached, hlong⟩ := resolve_of_settles_long hwalk (Nat.lt_of_not_le hle)
    rw [hlong] at hcycle
    cases hcycle

theorem Reconciles.mergedInto_mono {later : Registry R E} (hsound : registry.Sound)
    (hrun : Reconciles digest registry later) {entity survivor : E}
    (hmerged : registry.mergedInto entity = some survivor) :
    later.mergedInto entity = some survivor := by
  obtain ⟨hsound', hadvances⟩ := hrun.step hsound
  rw [← hsound.target_census, target_eq_some_iff] at hmerged
  rw [← hsound'.target_census, target_eq_some_iff]
  exact hadvances.final hmerged (by simp)

end Histories

section Seesaw

variable {digest : EventDetails R E → H} {registry : Registry R E} {first second : R}

/-- Two records, and no others, belong to one entity. -/
def Registry.Together (registry : Registry R E) (first second : R) (top : E) : Prop :=
  ∀ (record : R) (entity : E), registry.membership[record]? = some entity ↔
    (record = first ∨ record = second) ∧ entity = top

/-- Two records, and no others, belong to an entity each. -/
def Registry.Apart (registry : Registry R E) (first second : R) (fresh top : E) : Prop :=
  ∀ (record : R) (entity : E), registry.membership[record]? = some entity ↔
    record = first ∧ entity = fresh ∨ record = second ∧ entity = top

variable {pNew : List (List R)} {factory : IdFactory E} {groups : BTreeMap R (Finset R)}
  {plan : ReconcilePlan R E H}

omit [LinearOrder H]

/-- The one group of a one-group clustering. -/
theorem Planned.groups_singleton {pOld : BTreeMap E (List R)} {group : List R}
    (hrun : Planned digest pOld [group] factory groups plan) {key : R} {members : Finset R} :
    groups[key]? = some members ↔ members = group.toFinset ∧ members.min = (key : WithTop R) := by
  rw [hrun.groups_eq_some_iff]
  simp [eq_comm]

/-- An entity with records in a one-group clustering offers its id to that group. -/
theorem Planned.offer_singleton {pOld : BTreeMap E (List R)} {group : List R}
    (hrun : Planned digest pOld [group] factory groups plan) {key record : R} {entity : E}
    {before : Finset R} (hkey : groups[key]? = some group.toFinset)
    (hbefore : (oldSets pOld)[entity]? = some before) (hgroup : record ∈ group)
    (hmem : record ∈ before) : (offers (oldSets pOld) groups)[entity]? = some key := by
  rcases exists_offer_of_cell (exists_cell_of_mem hkey hbefore (by simpa using hgroup) hmem) with
    ⟨key', hoffer⟩
  obtain ⟨members, _, hkey', _, _⟩ := offer_mem hoffer
  obtain ⟨rfl, hleast'⟩ := hrun.groups_singleton.mp hkey'
  have hsame : (key' : WithTop R) = key := hleast'.symm.trans (hrun.canonical.least hkey)
  rw [hoffer, WithTop.coe_injective hsame]

/-- Placing the second record alone leaves the entity with it and gives the first record
a fresh id. -/
theorem Registry.Together.apart {top : E} (hne : first ≠ second)
    (htogether : registry.Together first second top)
    (hrun : Planned digest registry.pOld [[second]] factory groups plan) :
    ∃ fresh, fresh ≠ top ∧ (registry.apply plan).Apart first second fresh top := by
  have htop : (oldSets registry.pOld)[top]? = some {first, second} :=
    Registry.oldSets_pOld_eq_some_iff.mpr ⟨by simp, by simp [htogether _ _]⟩
  have hkey : groups[second]? = some [second].toFinset :=
    hrun.groups_singleton.mpr ⟨rfl, by simp⟩
  have hoffer := hrun.offer_singleton hkey htop (by simp) (by simp : second ∈ {first, second})
  obtain ⟨claimant, haccepted⟩ := exists_accepted_of_offer hoffer
  have hclaimant : claimant = top := by
    obtain ⟨before, hbefore⟩ := accepted_old haccepted
    obtain ⟨record, hrecord⟩ := Registry.exists_record_of_oldSets hbefore
    exact ((htogether record claimant).mp hrecord).2
  subst hclaimant
  have hsecond : Lands (oldSets registry.pOld) groups factory second claimant :=
    .grouped hkey (by simp) (holder_of_accepted haccepted)
  have hbefore : (entityOfRecord (oldSets registry.pOld))[first]? = some claimant := by
    have hmember := (htogether first claimant).mpr ⟨.inl rfl, rfl⟩
    rwa [← registry.membershipBefore_pOld] at hmember
  have horphan : first ∈ orphans (oldSets registry.pOld) groups := by
    rw [mem_orphans, hrun.mem_clustered_iff]
    exact ⟨⟨claimant, hbefore⟩, by simpa using hne⟩
  obtain ⟨fresh, hid⟩ := exists_mintedId hrun.canonical (mem_mintKeys.mpr (.inr horphan))
  have hfirst : Lands (oldSets registry.pOld) groups factory first fresh := .orphan horphan hid
  refine ⟨fresh, ?_, fun record entity => ?_⟩
  · intro hsame
    exact (hrun.mintedId_spec hid).2 (hsame ▸ mem_of_oldSets htop)
  · rw [hrun.membership_eq_some_iff]
    apply Iff.intro
    · intro hlands
      have hrecord : record = first ∨ record = second := by
        cases hlands with
        | grouped hkey' hmem hholder =>
            rw [(hrun.groups_singleton.mp hkey').1] at hmem
            exact .inr (by simpa using hmem)
        | orphan horphan' hid' =>
            obtain ⟨owner, howner⟩ := (mem_orphans.mp horphan').1
            have hmember : (membershipBefore registry.pOld)[record]? = some owner := howner
            rw [registry.membershipBefore_pOld] at hmember
            exact ((htogether record owner).mp hmember).1
      rcases hrecord with rfl | rfl
      · exact .inl ⟨rfl, hlands.unique hrun.canonical hfirst⟩
      · exact .inr ⟨rfl, hlands.unique hrun.canonical hsecond⟩
    · intro hplace
      rcases hplace with ⟨rfl, rfl⟩ | ⟨rfl, rfl⟩
      · exact hfirst
      · exact hsecond

/-- One group of two records, with no old record beside them, leaves both where the first
lands. -/
theorem Planned.together_of_lands
    (hrun : Planned digest registry.pOld [[first, second]] factory groups plan)
    (hrecords : ∀ (record : R) (entity : E), registry.membership[record]? = some entity →
      record ∈ [first, second]) {top : E}
    (hfirst : Lands (oldSets registry.pOld) groups factory first top) :
    (registry.apply plan).Together first second top := by
  intro record entity
  rw [hrun.membership_eq_some_iff]
  have hgroup (hrecord : record ∈ [first, second]) :
      Lands (oldSets registry.pOld) groups factory record top :=
    (hrun.lands_together_iff hfirst).mpr
      (.inl ⟨[first, second], List.mem_singleton_self _, by simp, hrecord⟩)
  apply Iff.intro
  · intro hlands
    have hrecord : record ∈ [first, second] := by
      cases hlands with
      | grouped hkey hmem hholder =>
          rw [(hrun.groups_singleton.mp hkey).1] at hmem
          exact List.mem_toFinset.mp hmem
      | orphan horphan hid =>
          obtain ⟨owner, howner⟩ := (mem_orphans.mp horphan).1
          have hmember : (membershipBefore registry.pOld)[record]? = some owner := howner
          rw [registry.membershipBefore_pOld] at hmember
          exact hrecords record owner hmember
    exact ⟨by simpa using hrecord, hlands.unique hrun.canonical (hgroup hrecord)⟩
  · intro hplace
    obtain ⟨hrecord, rfl⟩ := hplace
    exact hgroup (by simpa using hrecord)

theorem fragmentRank_singleton_lt {smaller greater : R} (hlt : smaller < greater) :
    fragmentRank {smaller} < fragmentRank {greater} := by
  apply Prod.Lex.toLex_lt_toLex.mpr
  simp [hlt]

/-- Placing both records together again merges the older entity into the fresh one, which
wins the tie by its smaller record. -/
theorem Registry.Apart.together {fresh top : E} (hlt : first < second) (hne : fresh ≠ top)
    (hapart : registry.Apart first second fresh top)
    (hrun : Planned digest registry.pOld [[first, second]] factory groups plan) :
    (registry.apply plan).Together first second fresh ∧
      (registry.apply plan).mergedInto top = some fresh := by
  have hfresh : (oldSets registry.pOld)[fresh]? = some {first} :=
    Registry.oldSets_pOld_eq_some_iff.mpr ⟨by simp, by simp [hapart _ _, hne]⟩
  have htop : (oldSets registry.pOld)[top]? = some {second} :=
    Registry.oldSets_pOld_eq_some_iff.mpr ⟨by simp, by simp [hapart _ _, hne.symm]⟩
  have hkey : groups[first]? = some [first, second].toFinset := by
    apply hrun.groups_singleton.mpr
    refine ⟨rfl, ?_⟩
    simp [Finset.min_insert, hlt.le]
  have hofferFresh := hrun.offer_singleton hkey hfresh (by simp) (Finset.mem_singleton_self first)
  have hofferTop := hrun.offer_singleton hkey htop (by simp) (Finset.mem_singleton_self second)
  have hoverlap {entity : E} {record : R} (hrecord : record ∈ [first, second])
      (hbefore : (oldSets registry.pOld)[entity]? = some {record}) :
      overlap (oldSets registry.pOld) groups first entity = {record} := by
    rw [overlap_eq_of_cell (exists_cell_of_mem hkey hbefore (List.mem_toFinset.mpr hrecord)
      (Finset.mem_singleton_self record))]
    exact Finset.inter_singleton_of_mem (List.mem_toFinset.mpr hrecord)
  obtain ⟨claimant, haccepted⟩ := exists_accepted_of_offer hofferFresh
  have hclaimant : claimant = fresh := by
    obtain ⟨before, hbefore⟩ := accepted_old haccepted
    obtain ⟨record, hrecord⟩ := Registry.exists_record_of_oldSets hbefore
    rcases (hapart record claimant).mp hrecord with ⟨_, hclaimant⟩ | ⟨_, rfl⟩
    · exact hclaimant
    · have hrank := (accepted_spec haccepted).2 fresh hofferFresh
      rw [hoverlap (by simp) hfresh, hoverlap (by simp) htop] at hrank
      exact absurd hrank (not_le.mpr (fragmentRank_singleton_lt hlt))
  subst hclaimant
  apply And.intro
  · apply hrun.together_of_lands
    · intro record entity hmember
      rcases (hapart record entity).mp hmember with ⟨rfl, _⟩ | ⟨rfl, _⟩ <;> simp
    · exact .grouped hkey (by simp) (holder_of_accepted haccepted)
  · have hrow := hrun.entities_of_transition (.merged hofferTop haccepted hne)
    simp [Registry.mergedInto, hrow, EntityTransition.row]

/-- The entities of a registry were drawn from the first ids of a sequence. -/
def Registry.Supplied (ids : ℕ → E) (m : ℕ) (registry : Registry R E) : Prop :=
  ∀ entity ∈ registry.entities, ∃ i, i < m ∧ entity = ids i

variable {ids : ℕ → E}

theorem exists_supplied_run [LinearOrder H] (digest : EventDetails R E → H)
    (hids : Function.Injective ids) (hsound : registry.Sound) {m : ℕ}
    (hsupplied : registry.Supplied ids m) (hnew : IsPartition pNew) :
    ∃ m' factory groups plan, Reconciles digest registry (registry.apply plan) ∧
      Planned digest registry.pOld pNew factory groups plan ∧
      (registry.apply plan).Supplied ids m' := by
  have hfresh : (⟨ids, m⟩ : IdFactory E).Fresh fun id => id ∈ registry.entities := by
    apply IdFactory.Fresh.mk
    · intro i j hsame
      have hindex := hids hsame
      omega
    · intro i hused
      obtain ⟨j, hj, hsame⟩ := hsupplied _ hused
      have hindex : m + i = j := hids hsame
      omega
  obtain ⟨groups, plan, hplan, hrun⟩ : ∃ groups plan,
      reconcilePlan digest registry.pOld pNew ⟨ids, m⟩ = some plan ∧
        Planned digest registry.pOld pNew ⟨ids, m⟩ groups plan :=
    exists_planned registry.pOld_isMembership hnew (hsound.fresh_pOld hfresh)
  refine ⟨m + (mintKeys (oldSets registry.pOld) groups).length, _, groups, plan,
    .run hnew hfresh hplan, hrun, ?_⟩
  have hknown {entity : E} {row : EntityRow E} (hrow : registry.entities[entity]? = some row) :
      ∃ i, i < m + (mintKeys (oldSets registry.pOld) groups).length ∧ entity = ids i := by
    obtain ⟨i, hi, hid⟩ := hsupplied entity (BTreeMap.mem_iff_exists_getElem?.mpr ⟨row, hrow⟩)
    exact ⟨i, by omega, hid⟩
  intro entity hentity
  obtain ⟨row, hrow⟩ := BTreeMap.mem_iff_exists_getElem?.mp hentity
  rcases hrun.entities_eq_some_iff.mp hrow with ⟨transition, htransition, rfl, _⟩ | ⟨_, hold⟩
  · rcases htransition.entity_origin with ⟨before, hbefore⟩ | ⟨key, hid⟩
    · obtain ⟨record, hrecord⟩ := Registry.exists_record_of_oldSets hbefore
      exact hknown (hsound.member_active hrecord)
    · obtain ⟨i, hi, hdraw⟩ := (mintedIds_eq_some_iff hrun.canonical).mp hid
      have hlt := (List.getElem?_eq_some_iff.mp hi).1
      exact ⟨m + i, by omega, hdraw⟩
  · exact hknown hold

theorem exists_chain [LinearOrder H] (digest : EventDetails R E → H)
    (hids : Function.Injective ids) (hlt : first < second) (k : ℕ) :
    ∃ m registry root top, History digest (2 * k + 1) registry ∧
      registry.Supplied ids m ∧ registry.Together first second top ∧
      Hops registry.mergedInto k root top := by
  have hboth : IsPartition [[first, second]] := ⟨by simp, by simp⟩
  have halone : IsPartition [[second]] := ⟨by simp, by simp⟩
  induction k with
  | zero =>
      have hstart : (Registry.empty : Registry R E).Supplied ids 0 := by
        intro entity hentity
        simp [Registry.empty] at hentity
      rcases exists_supplied_run digest hids sound_empty hstart hboth with
        ⟨m, factory, groups, plan, hreconciles, hrun, hsupplied⟩
      have hmem : first ∈ clustered groups := hrun.mem_clustered_iff.mpr (by simp)
      obtain ⟨top, hfirst⟩ : ∃ top, Lands (oldSets Registry.empty.pOld) groups factory first top :=
        exists_lands hrun.canonical (.inl hmem)
      have htogether : (Registry.empty.apply plan).Together first second top := by
        apply hrun.together_of_lands _ hfirst
        intro record entity hmember
        simp [Registry.empty] at hmember
      exact ⟨m, _, top, top, .next .start hreconciles, hsupplied, htogether, .stay top⟩
  | succ k ih =>
      obtain ⟨m, registry, root, top, hhistory, hsupplied, htogether, hchain⟩ := ih
      obtain ⟨hsound, _⟩ := hhistory.sound
      rcases exists_supplied_run digest hids hsound hsupplied halone with
        ⟨m₁, factory₁, groups₁, plan₁, hreconciles₁, hrun₁, hsupplied₁⟩
      obtain ⟨hsound₁, _⟩ := hreconciles₁.step hsound
      obtain ⟨fresh, hne, hapart⟩ := htogether.apart hlt.ne hrun₁
      rcases exists_supplied_run digest hids hsound₁ hsupplied₁ hboth with
        ⟨m₂, factory₂, groups₂, plan₂, hreconciles₂, hrun₂, hsupplied₂⟩
      obtain ⟨htogether₂, hmerged⟩ := hapart.together hlt hne hrun₂
      have hgrow : ∀ entity survivor, registry.mergedInto entity = some survivor →
          ((registry.apply plan₁).apply plan₂).mergedInto entity = some survivor :=
        fun entity survivor hinto =>
          hreconciles₂.mergedInto_mono hsound₁ (hreconciles₁.mergedInto_mono hsound hinto)
      exact ⟨m₂, _, root, fresh, .next (.next hhistory hreconciles₁) hreconciles₂, hsupplied₂,
        htogether₂, (hchain.mono hgrow).trans (.single hmerged)⟩

end Seesaw

/-- Ids of growing length. -/
def longIds (i : ℕ) : String := String.ofList (List.replicate i 'e')

/-- A digest of the member keys. -/
def joinedDigest (details : EventDetails String String) : String :=
  String.join details.memberKeys

theorem longIds_injective : Function.Injective longIds := by
  intro i j hsame
  have hlists := congrArg (fun id => id.toList.length) hsame
  simpa [longIds] using hlists

/-- The redirect of a registry belongs to a merged row. -/
theorem Registry.Sound.merged_of_mergedInto {registry : Registry R E} (hsound : registry.Sound)
    {entity survivor : E} (hinto : registry.mergedInto entity = some survivor) :
    ∃ row, registry.entities[entity]? = some row ∧ row.status = .merged := by
  obtain ⟨row, hrow, hsurvivor⟩ := Option.bind_eq_some_iff.mp hinto
  exact ⟨row, hrow, (hsound.merged_iff hrow).mpr ⟨survivor, hsurvivor⟩⟩

theorem resolve_redirects_first_merge :
    ∃ (registry : Registry String String) (entity last : String) (row : EntityRow String),
      History joinedDigest 3 registry ∧ registry.entities[entity]? = some row ∧
        row.status = .merged ∧ resolve entity registry.redirects defaultMaxHops = .ok last := by
  rcases exists_chain joinedDigest longIds_injective (by decide : "a" < "b") 1 with
    ⟨m, registry, root, top, hhistory, _, _, hchain⟩
  cases hchain with
  | hop hnext hrest =>
      obtain ⟨row, hrow, hmerged⟩ := hhistory.sound.1.merged_of_mergedInto hnext
      obtain ⟨k, last, _, _, _, hk, hok, _⟩ := resolve_redirects hhistory hrow hmerged
      have hle : k ≤ defaultMaxHops := by
        rw [defaultMaxHops]
        omega
      exact ⟨registry, root, last, row, hhistory, hrow, hmerged, hok hle⟩

/-- A history of 131 runs, the records `a` and `b` placed together and apart in turn, leaves
a merged entity that `resolve` refuses. -/
theorem resolve_refuses_long_chain :
    ¬ ∀ (n : ℕ) (registry : Registry String String) (entity : String) (row : EntityRow String),
      History joinedDigest n registry → registry.entities[entity]? = some row →
      row.status = .merged →
      ∃ last, resolve entity registry.redirects defaultMaxHops = .ok last ∧
        registry.mergedInto last = none := by
  intro hresolves
  obtain ⟨m, registry, root, top, hhistory, _, htogether, hchain⟩ :=
    exists_chain joinedDigest longIds_injective (by decide : "a" < "b") (defaultMaxHops + 1)
  obtain ⟨hsound, _⟩ := hhistory.sound
  have hend : registry.mergedInto top = none := by
    have hactive := hsound.member_active ((htogether "a" top).mpr ⟨.inl rfl, rfl⟩)
    simp [Registry.mergedInto, hactive]
  have hwalk : Settles (redirectOf registry.redirects) (defaultMaxHops + 1) root top := by
    rw [registry.redirectOf_redirects]
    exact ⟨hchain, hend⟩
  cases hchain with
  | hop hnext hrest =>
      obtain ⟨row, hrow, hmerged⟩ := hsound.merged_of_mergedInto hnext
      obtain ⟨last, hok, _⟩ := hresolves _ registry root row hhistory hrow hmerged
      obtain ⟨reached, hlong⟩ := resolve_of_settles_long hwalk (Nat.lt_succ_self _)
      rw [hlong] at hok
      cases hok

end EntityResolution.Reconcile
