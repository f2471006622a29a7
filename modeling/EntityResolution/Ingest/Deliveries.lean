/-
# What lands

However the deliveries of all sources are interleaved and wherever they break off, `<source>.csv` in
a drop root is the whole of the last delivery that was published there, a run is queued for a
delivery that is in its place by then, and a cursor names an object whose delivery was published and
queued.
-/

import EntityResolution.Ingest.DropRoot

namespace EntityResolution.Ingest

open EntityResolution.Collections

universe u v

variable {T : Type u} {D : Type v} {landing later : Landing T D} {deliveryId : String}
  {cap : ℕ} {carrier : Carrier T}

theorem carriers_carry {next : Option (Carrier T)} {other : String} {found : Carrier T} :
    (landing.carry deliveryId next).carriers other = some found ↔
      (other = deliveryId ∧ next = some found) ∨
        (other ≠ deliveryId ∧ landing.carriers other = some found) := by
  change Function.update landing.carriers deliveryId next other = some found ↔ _
  rw [Function.update_apply]
  split_ifs with hsame
  · simp [hsame]
  · simp [hsame]

theorem forall_carry {motive : String → Carrier T → Prop} {next : Option (Carrier T)}
    (hothers : ∀ other found, other ≠ deliveryId → landing.carriers other = some found →
      motive other found)
    (hthis : ∀ found, next = some found → motive deliveryId found) :
    ∀ other found, (landing.carry deliveryId next).carriers other = some found →
      motive other found := by
  intro other found hfound
  cases carriers_carry.mp hfound with
  | inl hnext =>
      obtain ⟨rfl, hnext⟩ := hnext
      exact hthis found hnext
  | inr hother => exact hothers other found hother.1 hother.2

/-- A delivery has an id that was drawn and a part of its own. -/
structure Carrier.Named (carrier : Carrier T) (issued : List String)
    (deliveryId : String) : Prop where
  issued : deliveryId ∈ issued
  plain : '/' ∉ deliveryId.toList
  source : IsSegment carrier.source
  part : ∃ root, carrier.part = partPath root carrier.source deliveryId

/-- Every delivery under way has an id that was drawn and a part of its own. -/
def Landing.Named (landing : Landing T D) : Prop :=
  ∀ deliveryId carrier, landing.carriers deliveryId = some carrier →
    carrier.Named landing.issued deliveryId

theorem Landing.Named.part_inj (hnamed : landing.Named) {other : String} {second : Carrier T}
    (hcarrier : landing.carriers deliveryId = some carrier)
    (hsecond : landing.carriers other = some second) (hsame : carrier.part = second.part) :
    deliveryId = other := by
  have hfirstNamed := hnamed _ _ hcarrier
  have hsecondNamed := hnamed _ _ hsecond
  obtain ⟨root, hpart⟩ := hfirstNamed.part
  obtain ⟨otherRoot, hother⟩ := hsecondNamed.part
  rw [hpart, hother] at hsame
  exact partPath_inj hfirstNamed.source hsecondNamed.source hfirstNamed.plain
    hsecondNamed.plain hsame

theorem Landing.Named.ne_part (hnamed : landing.Named)
    (hcarrier : landing.carriers deliveryId = some carrier) (text : String) :
    text ++ ".csv" ≠ carrier.part := by
  obtain ⟨root, hpart⟩ := (hnamed _ _ hcarrier).part
  rw [hpart]
  exact ne_partPath _ _ _ _

theorem Landing.Named.change [DecidableEq T] (hnamed : landing.Named)
    (hchange : Landing.Change cap landing later) : later.Named := by
  have hkept {deliveryId : String} {next : Option (Carrier T)} {old : Carrier T}
      (hold : landing.carriers deliveryId = some old)
      (hnext : ∀ found, next = some found → ∃ stage, found = old.at stage) :
      ∀ other found, (landing.carry deliveryId next).carriers other = some found →
        found.Named landing.issued other := by
    refine forall_carry (fun other found _ => hnamed other found) ?_
    intro found hfound
    obtain ⟨stage, rfl⟩ := hnext found hfound
    obtain ⟨hissued, hplain, hsource, hpart⟩ := hnamed _ _ hold
    exact ⟨hissued, hplain, hsource, hpart⟩
  have hat {old : Carrier T} {next : Option Stage} :
      ∀ found, next.map old.at = some found → ∃ stage, found = old.at stage := by
    intro found hfound
    obtain ⟨stage, -, rfl⟩ := Option.map_eq_some_iff.mp hfound
    exact ⟨stage, rfl⟩
  cases hchange with
  | aside => exact hnamed
  | begin polls hstage hsource hpart hfresh hid =>
      apply forall_carry
      · intro other found _ hfound
        obtain ⟨hissued, hplain, hsource, hpart⟩ := hnamed _ _ hfound
        exact ⟨List.mem_append_left _ hissued, hplain, hsource, hpart⟩
      · rintro found ⟨⟩
        exact ⟨List.mem_append_right _ List.mem_cons_self, hid, hsource, hpart⟩
  | write hcarrier => exact hkept hcarrier hat
  | go hcarrier => exact hkept hcarrier hat
  | rename hcarrier => exact hkept hcarrier fun found hfound => ⟨.published, (by cases hfound; rfl)⟩
  | enqueueRun hcarrier =>
      apply hkept hcarrier
      intro found hfound
      split at hfound
      · exact ⟨.queued, (Option.some_inj.mp hfound).symm⟩
      · cases hfound
  | advanceCursor hcarrier => exact hkept hcarrier nofun

/-- The last delivery that was published at a path. -/
def Landing.latest (landing : Landing T D) (path : String) : Option (Publication T) :=
  (landing.published.filter fun publication => publication.path = path).getLast?

/-- What the files are: a part holds what its delivery says was written, and a published path the
whole of the last delivery there. -/
structure Landing.Filed (landing : Landing T D) : Prop where
  part : ∀ deliveryId carrier, landing.carriers deliveryId = some carrier →
    ∀ content, carrier.stage.partContent = some content → landing.files carrier.part = some content
  final : ∀ path publication, landing.latest path = some publication →
    landing.files path = some publication.body
  placed : ∀ publication ∈ landing.published,
    ∃ root : DropRoot, publication.path = root.path ++ "/" ++ publication.source ++ ".csv"

theorem mem_of_latest {path : String} {publication : Publication T}
    (hlatest : landing.latest path = some publication) :
    publication ∈ landing.published ∧ publication.path = path := by
  have hin := List.mem_of_getLast? hlatest
  rw [List.mem_filter, decide_eq_true_eq] at hin
  exact hin

theorem Landing.Filed.exists_later (hfiled : landing.Filed) {publication : Publication T}
    (hin : publication ∈ landing.published) :
    ∃ before after, landing.published = before ++ publication :: after ∧
      ∃ last ∈ publication :: after, last.path = publication.path ∧
        landing.files publication.path = some last.body := by
  obtain ⟨before, after, hsplit⟩ := List.append_of_mem hin
  have hne : ((publication :: after).filter fun other => other.path = publication.path) ≠ [] :=
    List.ne_nil_of_mem (List.mem_filter.mpr ⟨List.mem_cons_self, decide_eq_true rfl⟩)
  have hlatest : landing.latest publication.path =
      ((publication :: after).filter fun other => other.path = publication.path).getLast? := by
    rw [Landing.latest, hsplit, List.filter_append, List.getLast?_append_of_ne_nil _ hne]
  cases hlast : landing.latest publication.path with
  | none => exact absurd (List.getLast?_eq_none_iff.mp (hlatest.symm.trans hlast)) hne
  | some last =>
      have hmem := List.mem_of_getLast? (hlatest.symm.trans hlast)
      rw [List.mem_filter, decide_eq_true_eq] at hmem
      exact ⟨before, after, hsplit, last, hmem.1, hmem.2, hfiled.final _ _ hlast⟩

/-- A part is written that no other delivery has. -/
theorem Landing.Filed.write (hfiled : landing.Filed) (hnamed : landing.Named)
    (hcarrier : landing.carriers deliveryId = some carrier) {next : Option Stage}
    {content : Option Bytes}
    (hnext : ∀ stage, next = some stage →
      ∀ written, stage.partContent = some written → content = some written) :
    ((landing.putFile carrier.part content).carry deliveryId (next.map carrier.at)).Filed := by
  constructor
  · apply forall_carry
    · intro other found hne hfound written hwritten
      have hpart : found.part ≠ carrier.part :=
        fun hsame => hne (hnamed.part_inj hfound hcarrier hsame)
      exact (Function.update_of_ne hpart _ _).trans (hfiled.part _ _ hfound _ hwritten)
    · intro found hfound written hwritten
      obtain ⟨stage, hstage, rfl⟩ := Option.map_eq_some_iff.mp hfound
      exact (Function.update_self _ _ _).trans (hnext stage hstage written hwritten)
  · intro path publication hlatest
    have hlatest' : landing.latest path = some publication := hlatest
    obtain ⟨hin, rfl⟩ := mem_of_latest hlatest'
    obtain ⟨root, hroot⟩ := hfiled.placed publication hin
    have hne : publication.path ≠ carrier.part := by
      rw [hroot]
      exact hnamed.ne_part hcarrier _
    exact (Function.update_of_ne hne _ _).trans (hfiled.final _ _ hlatest)
  · exact hfiled.placed

/-- A delivery that is published replaces what was at its path. -/
theorem Landing.Filed.publish (hfiled : landing.Filed) (hnamed : landing.Named)
    {p : Publication T} {root : DropRoot}
    (hplaced : p.path = root.path ++ "/" ++ p.source ++ ".csv") :
    ({ landing.putFile p.path (some p.body) with
      published := landing.published ++ [p] } : Landing T D).Filed := by
  constructor
  · intro other found hfound written hwritten
    have hne : found.part ≠ p.path := by
      rw [hplaced]
      exact (hnamed.ne_part hfound _).symm
    exact (Function.update_of_ne hne _ _).trans (hfiled.part _ _ hfound _ hwritten)
  · intro path last hlast
    change ((landing.published ++ [p]).filter _).getLast? = _ at hlast
    change Function.update landing.files p.path _ path = _
    rw [List.filter_append] at hlast
    by_cases hpath : p.path = path
    · rw [List.filter_singleton, decide_eq_true hpath, cond_true, List.getLast?_concat,
        Option.some_inj] at hlast
      rw [← hpath, Function.update_self, hlast]
    · rw [List.filter_singleton, decide_eq_false hpath, cond_false, List.append_nil] at hlast
      rw [Function.update_of_ne (Ne.symm hpath)]
      exact hfiled.final path last hlast
  · intro other hother
    cases List.mem_append.mp hother with
    | inl hbefore => exact hfiled.placed other hbefore
    | inr hthis =>
        rw [List.mem_singleton.mp hthis]
        exact ⟨root, hplaced⟩

/-- The part is renamed onto the path of its source. -/
theorem Landing.Filed.rename (hfiled : landing.Filed) (hnamed : landing.Named)
    (hcarrier : landing.carriers deliveryId = some carrier) {body : Bytes} :
    ({ (landing.putFile (finalPath carrier.part carrier.source) (some body)).putFile carrier.part
        none with
        published := landing.published ++ [(⟨deliveryId, carrier.place, carrier.source, carrier.how,
          finalPath carrier.part carrier.source, body⟩ : Publication T)]
      }.carry deliveryId (some (carrier.at .published))).Filed := by
  obtain ⟨_, hplain, hsource, root, hpart⟩ := hnamed _ _ hcarrier
  have hplaced := finalPath_partPath root hsource hplain
  rw [← hpart] at hplaced
  generalize finalPath carrier.part carrier.source = path at hplaced ⊢
  have hpublish := hfiled.publish hnamed (p := ⟨deliveryId, carrier.place,
    carrier.source, carrier.how, path, body⟩) hplaced
  have hlanded : Landing.Named ({ landing.putFile path (some body) with
      published := landing.published ++ [⟨deliveryId, carrier.place, carrier.source, carrier.how,
        path, body⟩] } : Landing T D) := hnamed
  have hempty : ∀ stage, some Stage.published = some stage →
      ∀ written, stage.partContent = some written → (none : Option Bytes) = some written := by
    rintro stage ⟨⟩ written ⟨⟩
  exact hpublish.write hlanded hcarrier hempty

theorem Landing.Filed.change [DecidableEq T] (hfiled : landing.Filed) (hnamed : landing.Named)
    (hchange : Landing.Change cap landing later) : later.Filed := by
  have hothers {deliveryId : String} : ∀ other found, other ≠ deliveryId →
      landing.carriers other = some found → ∀ written, found.stage.partContent = some written →
        landing.files found.part = some written :=
    fun other found _ => hfiled.part other found
  cases hchange with
  | aside => exact ⟨hfiled.part, hfiled.final, hfiled.placed⟩
  | begin polls hstage =>
      refine ⟨forall_carry hothers ?_, hfiled.final, hfiled.placed⟩
      rintro found ⟨⟩ written hwritten
      rw [hstage] at hwritten
      cases hwritten
  | write hcarrier hworks =>
      exact hfiled.write hnamed hcarrier (hworks.content (hfiled.part _ _ hcarrier))
  | go hcarrier hworks =>
      refine ⟨forall_carry hothers ?_, hfiled.final, hfiled.placed⟩
      intro found hfound
      obtain ⟨stage, hstage, rfl⟩ := Option.map_eq_some_iff.mp hfound
      exact hworks.content (hfiled.part _ _ hcarrier) stage hstage
  | rename hcarrier hstage hfile =>
      have hbody := hfiled.part _ _ hcarrier _ (by rw [hstage]; rfl)
      rw [hfile, Option.some_inj] at hbody
      subst hbody
      exact hfiled.rename hnamed hcarrier
  | enqueueRun =>
      refine ⟨forall_carry hothers ?_, hfiled.final, hfiled.placed⟩
      intro found hfound
      split at hfound
      · cases hfound
        exact nofun
      · cases hfound
  | advanceCursor => exact ⟨forall_carry hothers nofun, hfiled.final, hfiled.placed⟩

/-! ## Records -/

/-- The job of a delivery. -/
def Carrier.job (carrier : Carrier T) (deliveryId : String) : RunJob T :=
  ⟨carrier.place, carrier.source, deliveryId, carrier.how⟩

def Publication.job (publication : Publication T) : RunJob T :=
  ⟨publication.place, publication.source, publication.deliveryId, publication.how⟩

/-- What is on record of a delivery under way: nothing before it is published, a publication from
then on, and a job from when it is queued. -/
structure Carrier.Recorded (carrier : Carrier T) (published : List (Publication T))
    (jobs : List (RunJob T)) (deliveryId : String) : Prop where
  unpublished : carrier.stage.isPublished = false →
    ∀ publication ∈ published, publication.deliveryId ≠ deliveryId
  published : carrier.stage.isPublished = true →
    ∃ publication ∈ published, publication.job = carrier.job deliveryId
  unqueued : carrier.stage ≠ .queued → ∀ job ∈ jobs, job.deliveryId ≠ deliveryId
  queued : carrier.stage = .queued → carrier.job deliveryId ∈ jobs

/-- What is on record of each delivery: it is published once, queued once after that, and only then
remembered. -/
structure Landing.Recorded (landing : Landing T D) : Prop where
  carried : ∀ deliveryId carrier, landing.carriers deliveryId = some carrier →
    carrier.Recorded landing.published landing.jobs deliveryId
  known : ∀ publication ∈ landing.published, publication.deliveryId ∈ landing.issued
  once : (landing.published.map Publication.deliveryId).Nodup
  job : ∀ job ∈ landing.jobs, ∃ publication ∈ landing.published, publication.job = job
  jobOnce : (landing.jobs.map RunJob.deliveryId).Nodup
  cursor : ∀ place source cursor, landing.cursors place source = some cursor →
    ∃ drop, ⟨place, source, cursor.deliveryId, .polled drop cursor.etag⟩ ∈ landing.jobs ∧
      drop.key = cursor.objectKey ∧ drop.size = cursor.sizeBytes

/-- A delivery that goes on before it is published, or ends, leaves no record. -/
theorem Landing.Recorded.work (hrecorded : landing.Recorded)
    (hcarrier : landing.carriers deliveryId = some carrier) {next : Option Stage}
    (hnext : ∀ stage, next = some stage →
      carrier.stage.isPublished = false ∧ stage.isPublished = false) :
    (landing.carry deliveryId (next.map carrier.at)).Recorded := by
  refine ⟨?_, hrecorded.known, hrecorded.once, hrecorded.job, hrecorded.jobOnce, hrecorded.cursor⟩
  apply forall_carry
  · exact fun other found _ => hrecorded.carried other found
  · intro found hfound
    obtain ⟨stage, hstage, rfl⟩ := Option.map_eq_some_iff.mp hfound
    obtain ⟨hbefore, hafter⟩ := hnext stage hstage
    obtain ⟨hunpublished, -, hunqueued, -⟩ := hrecorded.carried _ _ hcarrier
    constructor
    · exact fun _ => hunpublished hbefore
    · intro hpublished
      exact absurd (hpublished.symm.trans hafter) Bool.noConfusion
    · intro _
      apply hunqueued
      intro hqueued
      rw [hqueued] at hbefore
      cases hbefore
    · intro hqueued
      change stage = .queued at hqueued
      rw [hqueued] at hafter
      cases hafter

/-- A delivery that was not published is. -/
theorem Landing.Recorded.rename (hrecorded : landing.Recorded)
    (hcarrier : landing.carriers deliveryId = some carrier)
    (hissued : deliveryId ∈ landing.issued) {body : Bytes} (hstage : carrier.stage = .flushed body)
    {publication : Publication T} (hjob : publication.job = carrier.job deliveryId) :
    ({ landing with published := landing.published ++ [publication] }.carry deliveryId
      (some (carrier.at .published))).Recorded := by
  have hid : publication.deliveryId = deliveryId := congrArg RunJob.deliveryId hjob
  obtain ⟨hunpublished, -, hunqueued, -⟩ := hrecorded.carried _ _ hcarrier
  specialize hunpublished (by rw [hstage]; rfl)
  specialize hunqueued (by rw [hstage]; exact nofun)
  constructor
  · apply forall_carry
    · intro other found hne hfound
      obtain ⟨hother, hpublished, hunqueuedOther, hqueued⟩ := hrecorded.carried _ _ hfound
      refine ⟨?_, ?_, hunqueuedOther, hqueued⟩
      · intro hfoundStage
        refine List.forall_mem_append.mpr ⟨hother hfoundStage, ?_⟩
        rw [List.forall_mem_singleton, hid]
        exact hne.symm
      · intro hfoundStage
        obtain ⟨earlier, hearlier, hsame⟩ := hpublished hfoundStage
        exact ⟨earlier, List.mem_append_left _ hearlier, hsame⟩
    · rintro found ⟨⟩
      exact ⟨nofun, fun _ => ⟨publication, List.mem_append_right _ List.mem_cons_self, hjob⟩,
        fun _ => hunqueued, nofun⟩
  · refine List.forall_mem_append.mpr ⟨hrecorded.known, ?_⟩
    rw [List.forall_mem_singleton, hid]
    exact hissued
  · change ((landing.published ++ [publication]).map Publication.deliveryId).Nodup
    rw [List.map_append, List.map_singleton, hid, List.nodup_append]
    refine ⟨hrecorded.once, List.nodup_singleton _, ?_⟩
    intro first hfirst second hsecond
    obtain ⟨other, hother, rfl⟩ := List.mem_map.mp hfirst
    rw [List.mem_singleton.mp hsecond]
    exact hunpublished other hother
  · intro job hin
    obtain ⟨earlier, hearlier, hsame⟩ := hrecorded.job job hin
    exact ⟨earlier, List.mem_append_left _ hearlier, hsame⟩
  · exact hrecorded.jobOnce
  · exact hrecorded.cursor

/-- A delivery that was not queued is, and goes on or ends there. -/
theorem Landing.Recorded.enqueueRun (hrecorded : landing.Recorded)
    (hcarrier : landing.carriers deliveryId = some carrier) (hstage : carrier.stage = .published)
    {next : Option (Carrier T)} (hnext : ∀ found, next = some found → found = carrier.at .queued) :
    ({ landing with jobs := landing.jobs ++ [carrier.job deliveryId] }.carry deliveryId
      next).Recorded := by
  obtain ⟨-, hpublished, hunqueued, -⟩ := hrecorded.carried _ _ hcarrier
  specialize hpublished (by rw [hstage]; rfl)
  specialize hunqueued (by rw [hstage]; exact nofun)
  constructor
  · apply forall_carry
    · intro other found hne hfound
      obtain ⟨hunpublishedOther, hpublishedOther, hunqueuedOther, hqueued⟩ :=
        hrecorded.carried _ _ hfound
      refine ⟨hunpublishedOther, hpublishedOther, ?_, ?_⟩
      · intro hfoundStage
        refine List.forall_mem_append.mpr ⟨hunqueuedOther hfoundStage, ?_⟩
        rw [List.forall_mem_singleton]
        exact hne.symm
      · exact fun hfoundStage => List.mem_append_left _ (hqueued hfoundStage)
    · intro found hfound
      rw [hnext found hfound]
      exact ⟨nofun, fun _ => hpublished, fun hno => absurd rfl hno,
        fun _ => List.mem_append_right _ List.mem_cons_self⟩
  · exact hrecorded.known
  · exact hrecorded.once
  · refine List.forall_mem_append.mpr ⟨hrecorded.job, ?_⟩
    rw [List.forall_mem_singleton]
    exact hpublished
  · change ((landing.jobs ++ [carrier.job deliveryId]).map RunJob.deliveryId).Nodup
    rw [List.map_append, List.map_singleton, List.nodup_append]
    refine ⟨hrecorded.jobOnce, List.nodup_singleton _, ?_⟩
    intro first hfirst second hsecond
    obtain ⟨other, hother, rfl⟩ := List.mem_map.mp hfirst
    rw [List.mem_singleton.mp hsecond]
    exact hunqueued other hother
  · intro place source cursor hcursor
    obtain ⟨drop, hin, hdrop⟩ := hrecorded.cursor _ _ _ hcursor
    exact ⟨drop, List.mem_append_left _ hin, hdrop⟩

/-- A cursor that advances has its job. -/
theorem Landing.Recorded.advanceCursor [DecidableEq T] (hrecorded : landing.Recorded)
    (hcarrier : landing.carriers deliveryId = some carrier) (hstage : carrier.stage = .queued)
    {drop : Drop} {etag : Option String} (hhow : carrier.how = .polled drop etag) :
    ({ landing with
        cursors := Function.update landing.cursors carrier.place
          (Function.update (landing.cursors carrier.place) carrier.source
            (some ⟨drop.key, etag, drop.size, deliveryId⟩))
      }.carry deliveryId none).Recorded := by
  refine ⟨?_, hrecorded.known, hrecorded.once, hrecorded.job, hrecorded.jobOnce, ?_⟩
  · exact forall_carry (fun other found _ => hrecorded.carried other found) nofun
  · have hjob := (hrecorded.carried _ _ hcarrier).queued hstage
    rw [Carrier.job, hhow] at hjob
    intro place source cursor hcursor
    change Function.update landing.cursors carrier.place _ place source = some cursor at hcursor
    by_cases hplace : place = carrier.place
    · subst hplace
      rw [Function.update_self] at hcursor
      by_cases hsource : source = carrier.source
      · subst hsource
        rw [Function.update_self] at hcursor
        cases hcursor
        exact ⟨drop, hjob, rfl, rfl⟩
      · rw [Function.update_of_ne hsource] at hcursor
        exact hrecorded.cursor _ _ _ hcursor
    · rw [Function.update_of_ne hplace] at hcursor
      exact hrecorded.cursor _ _ _ hcursor

theorem Landing.Recorded.change [DecidableEq T] (hrecorded : landing.Recorded)
    (hnamed : landing.Named) (hchange : Landing.Change cap landing later) : later.Recorded := by
  cases hchange with
  | aside =>
      exact ⟨hrecorded.carried, hrecorded.known, hrecorded.once, hrecorded.job, hrecorded.jobOnce,
        hrecorded.cursor⟩
  | @begin deliveryId carrier polls hstage hsource hpart hfresh =>
      have hnew : ∀ publication ∈ landing.published, publication.deliveryId ≠ deliveryId := by
        rintro publication hin rfl
        exact hfresh (hrecorded.known publication hin)
      refine ⟨?_, fun publication hin => List.mem_append_left _ (hrecorded.known publication hin),
        hrecorded.once, hrecorded.job, hrecorded.jobOnce, hrecorded.cursor⟩
      apply forall_carry
      · exact fun other found _ => hrecorded.carried other found
      · rintro found ⟨⟩
        refine ⟨fun _ => hnew, ?_, ?_, ?_⟩
        · rw [hstage]
          exact nofun
        · rintro - job hjob rfl
          obtain ⟨publication, hin, rfl⟩ := hrecorded.job job hjob
          exact hnew publication hin rfl
        · rw [hstage]
          exact nofun
  | write hcarrier hworks =>
      have hwork := hrecorded.work hcarrier hworks.unpublished
      exact ⟨hwork.carried, hwork.known, hwork.once, hwork.job, hwork.jobOnce, hwork.cursor⟩
  | go hcarrier hworks => exact hrecorded.work hcarrier hworks.unpublished
  | @rename deliveryId carrier body content hcarrier hstage hfile =>
      have hjob : (⟨deliveryId, carrier.place, carrier.source, carrier.how,
          finalPath carrier.part carrier.source, body⟩ : Publication T).job =
          carrier.job deliveryId := rfl
      have hrename := hrecorded.rename hcarrier (hnamed _ _ hcarrier).issued hstage hjob
      exact ⟨hrename.carried, hrename.known, hrename.once, hrename.job, hrename.jobOnce,
        hrename.cursor⟩
  | enqueueRun hcarrier hstage =>
      refine hrecorded.enqueueRun hcarrier hstage ?_
      intro found hfound
      split at hfound
      · exact (Option.some_inj.mp hfound).symm
      · cases hfound
  | advanceCursor hcarrier hstage hhow => exact hrecorded.advanceCursor hcarrier hstage hhow

/-- No upload is over the cap. -/
structure Landing.Capped (cap : ℕ) (landing : Landing T D) : Prop where
  carried : ∀ deliveryId carrier, landing.carriers deliveryId = some carrier →
    ∀ content, carrier.stage.partContent = some content →
      carrier.how.overCap cap content.length = false
  published : ∀ publication ∈ landing.published,
    publication.how.overCap cap publication.body.length = false

theorem Landing.Capped.change [DecidableEq T] (hcapped : landing.Capped cap)
    (hchange : Landing.Change cap landing later) : later.Capped cap := by
  have hothers {deliveryId : String} : ∀ other found, other ≠ deliveryId →
      landing.carriers other = some found → ∀ content, found.stage.partContent = some content →
        found.how.overCap cap content.length = false :=
    fun other found _ => hcapped.carried other found
  have hworks {deliveryId : String} {old : Carrier T} {before content : Option Bytes}
      {next : Option Stage} (hold : landing.carriers deliveryId = some old)
      (hworks : old.Works cap before content next) :
      ∀ found, next.map old.at = some found → ∀ content, found.stage.partContent = some content →
        found.how.overCap cap content.length = false := by
    intro found hfound
    obtain ⟨stage, hstage, rfl⟩ := Option.map_eq_some_iff.mp hfound
    exact hworks.capped (hcapped.carried _ _ hold) stage hstage
  cases hchange with
  | aside => exact ⟨hcapped.carried, hcapped.published⟩
  | begin polls hstage =>
      refine ⟨forall_carry hothers ?_, hcapped.published⟩
      rintro found ⟨⟩ content hcontent
      rw [hstage] at hcontent
      cases hcontent
  | write hcarrier hnext => exact ⟨forall_carry hothers (hworks hcarrier hnext), hcapped.published⟩
  | go hcarrier hnext => exact ⟨forall_carry hothers (hworks hcarrier hnext), hcapped.published⟩
  | rename hcarrier hstage =>
      refine ⟨forall_carry hothers ?_, List.forall_mem_append.mpr ⟨hcapped.published, ?_⟩⟩
      · rintro found ⟨⟩ content ⟨⟩
      · rw [List.forall_mem_singleton]
        exact hcapped.carried _ _ hcarrier _ (by rw [hstage]; rfl)
  | enqueueRun =>
      refine ⟨forall_carry hothers ?_, hcapped.published⟩
      intro found hfound
      split at hfound
      · cases hfound
        exact nofun
      · cases hfound
  | advanceCursor => exact ⟨forall_carry hothers nofun, hcapped.published⟩

/-- What holds of every landing that is reached. -/
structure Landing.Sound (cap : ℕ) (landing : Landing T D) : Prop where
  named : landing.Named
  filed : landing.Filed
  recorded : landing.Recorded
  capped : landing.Capped cap

theorem sound_fresh (tenants : T → Tenant) : (Landing.fresh tenants : Landing T D).Sound cap :=
  ⟨nofun, ⟨nofun, nofun, nofun⟩, ⟨nofun, nofun, List.nodup_nil, nofun, List.nodup_nil, nofun⟩,
    ⟨nofun, nofun⟩⟩

section Runs

variable [DecidableEq T] [DecidableEq D]

/-- Where a run from the first delivery leads. -/
def landingAfter (cap : ℕ) (tenants : T → Tenant) (actions : List (DeliveryAction T D)) :
    Landing T D :=
  actions.foldl (Landing.step cap) (.fresh tenants)

theorem Landing.Sound.step (hsound : landing.Sound cap) (action : DeliveryAction T D) :
    (landing.step cap action).Sound cap :=
  have hchange : Landing.Change cap landing _ := landing.change_step action
  ⟨hsound.named.change hchange, hsound.filed.change hsound.named hchange,
    hsound.recorded.change hsound.named hchange, hsound.capped.change hchange⟩

theorem sound_landingAfter (tenants : T → Tenant) (actions : List (DeliveryAction T D)) :
    (landingAfter cap tenants actions).Sound cap :=
  foldl_keeps (Landing.Sound cap) (fun action _ _ hsound => hsound.step action) _
    (sound_fresh tenants)

/-- What lands. However deliveries of all kinds are interleaved and wherever they break off: each
is published as `<source>.csv` in a drop root; the path holds the whole of the last one there,
within the cap; every job is of a delivery that was published, and finds that one or a later one; no
delivery is published or queued twice; and a cursor names an object whose delivery is queued. -/
theorem deliveries_whole (cap : ℕ) (tenants : T → Tenant) (actions : List (DeliveryAction T D)) :
    (∀ publication ∈ (landingAfter cap tenants actions).published, ∃ root : DropRoot,
      publication.path = root.path ++ "/" ++ publication.source ++ ".csv") ∧
    (∀ path publication, (landingAfter cap tenants actions).latest path = some publication →
      (landingAfter cap tenants actions).files path = some publication.body ∧
        publication.how.overCap cap publication.body.length = false) ∧
    (∀ job ∈ (landingAfter cap tenants actions).jobs, ∃ before publication after,
      (landingAfter cap tenants actions).published = before ++ publication :: after ∧
        publication.job = job ∧ ∃ last ∈ publication :: after, last.path = publication.path ∧
          (landingAfter cap tenants actions).files publication.path = some last.body) ∧
    ((landingAfter cap tenants actions).published.map Publication.deliveryId).Nodup ∧
    ((landingAfter cap tenants actions).jobs.map RunJob.deliveryId).Nodup ∧
    ∀ place source cursor, (landingAfter cap tenants actions).cursors place source = some cursor →
      ∃ drop, ⟨place, source, cursor.deliveryId, .polled drop cursor.etag⟩ ∈
        (landingAfter cap tenants actions).jobs ∧
          drop.key = cursor.objectKey ∧ drop.size = cursor.sizeBytes := by
  have hsound : (landingAfter cap tenants actions).Sound cap := sound_landingAfter tenants actions
  refine ⟨hsound.filed.placed, ?_, ?_, hsound.recorded.once, hsound.recorded.jobOnce,
    hsound.recorded.cursor⟩
  · intro path publication hlatest
    exact ⟨hsound.filed.final _ _ hlatest, hsound.capped.published _ (mem_of_latest hlatest).1⟩
  · intro job hjob
    obtain ⟨publication, hin, hsame⟩ := hsound.recorded.job job hjob
    obtain ⟨before, after, hsplit, hlater⟩ := hsound.filed.exists_later hin
    exact ⟨before, publication, after, hsplit, hsame, hlater⟩

end Runs

end EntityResolution.Ingest
