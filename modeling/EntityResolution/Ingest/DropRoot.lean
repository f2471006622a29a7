/-
# The drop root

A delivery of a source arrives by an upload, by a push or by the poller. Each takes the same way: it
is written to a hidden part file of its own, renamed to `<source>.csv` in the drop root, and a run
that reads that file is queued; for the poller a cursor then remembers the object. Any number of
them are under way at once, a stream can break off, a statement can fail, and a process can be lost
between any two steps.
-/

import EntityResolution.Ingest.AutoIngest
import EntityResolution.Foundations.Collections

namespace EntityResolution.Ingest

open EntityResolution.Collections

universe u v

/-- The directory of a dataset into which deliveries land, written without a slash at its end. Under
a root with one an upload writes two slashes where the poller writes one; it is left out here. -/
structure DropRoot where
  path : String
  plain : ¬ ['/'] <:+ path.toList
  nonempty : path ≠ ""
  deriving DecidableEq

/-- `c.is_ascii_alphanumeric() || c == '_' || c == '-'`. -/
def isSegmentChar (c : Char) : Bool :=
  c.isAlphanum || c = '_' || c = '-'

/-- `format!("{drop_root}/.{source}.{delivery_id}.csv.part")`. -/
def partPath (root : DropRoot) (source deliveryId : String) : String :=
  root.path ++ "/." ++ source ++ "." ++ deliveryId ++ ".csv.part"

/-- `Path::join` of a relative path. -/
def joinPath (root relative : String) : String :=
  if root = "" ∨ ['/'] <:+ root.toList then root ++ relative else root ++ "/" ++ relative

/-- `staging_path`. -/
def stagingPath (root source deliveryId : String) : Option String :=
  if source = "" ∨ '/' ∈ source.toList ∨ '\\' ∈ source.toList ∨ source = "." ∨
      source = ".." then none
  else some (joinPath root ("." ++ source ++ "." ++ deliveryId ++ ".csv.part"))

/-- `temp_path.rsplit_once('/')`, of which the first half is kept. -/
def directoryOf (path : List Char) : List Char :=
  (path.rdropWhile (· ≠ '/')).dropLast

/-- Where `finish_delivery` renames a part to. -/
def finalPath (tempPath source : String) : String :=
  String.ofList (directoryOf tempPath.toList) ++ "/" ++ source ++ ".csv"

/-- What the poller stages under is what an upload stages under. -/
theorem eq_partPath_of_stagingPath {root : DropRoot} {source deliveryId part : String}
    (hpart : stagingPath root.path source deliveryId = some part) :
    part = partPath root source deliveryId := by
  rw [stagingPath] at hpart
  split at hpart
  · cases hpart
  · rw [joinPath, if_neg (not_or.mpr ⟨root.nonempty, root.plain⟩), Option.some_inj] at hpart
    rw [← hpart, partPath]
    simp [String.append_assoc, ← String.toList_inj]

theorem rdropWhile_slash {directory name : List Char} (hname : '/' ∉ name) :
    (directory ++ '/' :: name).rdropWhile (· ≠ '/') = directory ++ ['/'] := by
  induction name using List.reverseRecOn with
  | nil => exact List.rdropWhile_concat_neg _ _ _ (by decide)
  | append_singleton name c ih =>
      rw [List.mem_append, not_or, List.mem_singleton] at hname
      have hc : decide (c ≠ '/') = true := decide_eq_true (Ne.symm hname.2)
      rw [← List.cons_append, ← List.append_assoc, List.rdropWhile_concat_pos _ _ c hc, ih hname.1]

theorem directoryOf_append {directory name : List Char} (hname : '/' ∉ name) :
    directoryOf (directory ++ '/' :: name) = directory := by
  rw [directoryOf, rdropWhile_slash hname, List.dropLast_concat]

theorem rtakeWhile_slash {directory name : List Char} (hname : '/' ∉ name) :
    (directory ++ '/' :: name).rtakeWhile (· ≠ '/') = name := by
  have hwhole := List.rdropWhile_append_rtakeWhile (p := (· ≠ '/'))
    (l := directory ++ '/' :: name)
  rw [rdropWhile_slash hname, List.append_assoc, List.append_cancel_left_eq, List.singleton_append,
    List.cons.injEq] at hwhole
  exact hwhole.2

theorem isSegmentChar_ne {c : Char} (hchar : isSegmentChar c = true) : c ≠ '/' ∧ c ≠ '.' := by
  constructor
  · rintro rfl
    revert hchar
    decide
  · rintro rfl
    revert hchar
    decide

/-- A source that may be a segment of a path. -/
def IsSegment (source : String) : Prop :=
  ∀ c ∈ source.toList, isSegmentChar c = true

theorem toList_partPath (root : DropRoot) (source deliveryId : String) :
    (partPath root source deliveryId).toList = root.path.toList ++ '/' :: ('.' :: (source.toList ++
      '.' :: (deliveryId.toList ++ ".csv.part".toList))) := by
  simp only [partPath, String.toList_append, List.append_assoc]
  rfl

theorem slash_notMem_partName {source deliveryId : String} (hsource : IsSegment source)
    (hid : '/' ∉ deliveryId.toList) :
    '/' ∉ '.' :: (source.toList ++ '.' :: (deliveryId.toList ++ ".csv.part".toList)) := by
  simp only [List.mem_cons, List.mem_append, not_or]
  exact ⟨by decide, fun hin => (isSegmentChar_ne (hsource _ hin)).1 rfl, by decide, hid, by decide⟩

/-- A delivery is published beside its part. -/
theorem finalPath_partPath (root : DropRoot) {source deliveryId : String}
    (hsource : IsSegment source) (hid : '/' ∉ deliveryId.toList) :
    finalPath (partPath root source deliveryId) source = root.path ++ "/" ++ source ++ ".csv" := by
  rw [finalPath, toList_partPath, directoryOf_append (slash_notMem_partName hsource hid),
    String.ofList_toList]

/-- The name of a part from the second dot on, since a source has none. -/
theorem dropWhile_partPath (root : DropRoot) {source deliveryId : String}
    (hsource : IsSegment source) (hid : '/' ∉ deliveryId.toList) :
    (((partPath root source deliveryId).toList.rtakeWhile (· ≠ '/')).drop 1).dropWhile (· ≠ '.') =
      '.' :: (deliveryId.toList ++ ".csv.part".toList) := by
  have hdots : ∀ c ∈ source.toList, decide (c ≠ '.') = true :=
    fun c hin => decide_eq_true (isSegmentChar_ne (hsource c hin)).2
  rw [toList_partPath, rtakeWhile_slash (slash_notMem_partName hsource hid), List.drop_one,
    List.tail_cons, List.dropWhile_append_of_pos hdots, List.dropWhile_cons_of_neg (by decide)]

theorem partPath_inj {root other : DropRoot} {source otherSource deliveryId otherId : String}
    (hsource : IsSegment source) (hother : IsSegment otherSource) (hid : '/' ∉ deliveryId.toList)
    (hotherId : '/' ∉ otherId.toList)
    (hsame : partPath root source deliveryId = partPath other otherSource otherId) :
    deliveryId = otherId := by
  have hnames := dropWhile_partPath root hsource hid
  rw [hsame, dropWhile_partPath other hother hotherId, List.cons.injEq, List.append_left_inj,
    String.toList_inj] at hnames
  exact hnames.2.symm

/-- What is published is not a part. -/
theorem ne_partPath (text : String) (root : DropRoot) (source deliveryId : String) :
    text ++ ".csv" ≠ partPath root source deliveryId := by
  intro hsame
  have hlast := congrArg (fun path : String => path.toList.getLast?) hsame
  simp only [partPath, String.toList_append] at hlast
  rw [List.getLast?_append_of_ne_nil _ (by decide),
    List.getLast?_append_of_ne_nil _ (by decide)] at hlast
  revert hlast
  decide

/-- A status and the text that goes with it. -/
structure Refusal where
  status : ℕ
  reason : String
  deriving DecidableEq

/-- What the preconditions of a delivery read: the states of the org and of the dataset, where there
are such, the sources of the dataset's active config and its drop root. -/
structure Tenant where
  orgState : Option String
  datasetState : Option String
  sources : Except Refusal (List String)
  dropRoot : Option DropRoot

/-- Refuse unless the condition holds. -/
def require (condition : Bool) (status : ℕ) (reason : String) : Except Refusal Unit :=
  if condition then .ok () else .error ⟨status, reason⟩

/-- Refuse where there is nothing. -/
def foundOr {A : Type} (value : Option A) (status : ℕ) (reason : String) : Except Refusal A :=
  match value with
  | some a => .ok a
  | none => .error ⟨status, reason⟩

/-- `delivery_preconditions`, of which the drop root is what a delivery goes on with. -/
def deliveryPreconditions (org ds : String) (tenant : Tenant) (source : String) :
    Except Refusal DropRoot := do
  let orgState ← foundOr tenant.orgState 404 ("no org '" ++ org ++ "'")
  require (orgState = "active") 409
    ("org '" ++ org ++ "' is " ++ orgState ++ "; imports are accepted only when active")
  let datasetState ← foundOr tenant.datasetState 404
    ("no dataset '" ++ ds ++ "' in org '" ++ org ++ "'")
  require (datasetState = "active") 409
    ("dataset '" ++ ds ++ "' is " ++ datasetState ++ "; imports are accepted only when active")
  let sources ← tenant.sources
  require (sources.contains source) 422
    ("source '" ++ source ++ "' is not in the active config (known: " ++ ", ".intercalate sources ++
      "); publish a config version containing sources." ++ source ++ " first")
  let dropRoot ← foundOr tenant.dropRoot 503
    ("dataset '" ++ ds ++ "' has no drop_root to land a delivery into")
  require (source.toList.all isSegmentChar) 422
    ("source '" ++ source ++ "' is not a valid path segment")
  return dropRoot

theorem require_eq_ok_iff {condition : Bool} {status : ℕ} {reason : String} {result : Unit} :
    require condition status reason = .ok result ↔ condition = true := by
  rw [require]
  split <;> simp_all

theorem foundOr_eq_ok_iff {A : Type} {value : Option A} {status : ℕ} {reason : String} {a : A} :
    foundOr value status reason = .ok a ↔ value = some a := by
  cases value <;> simp [foundOr]

theorem deliveryPreconditions_eq_ok_iff {org ds source : String} {tenant : Tenant}
    {root : DropRoot} :
    deliveryPreconditions org ds tenant source = .ok root ↔
      tenant.orgState = some "active" ∧ tenant.datasetState = some "active" ∧
        (∃ sources, tenant.sources = .ok sources ∧ source ∈ sources) ∧
        tenant.dropRoot = some root ∧ IsSegment source := by
  simp only [deliveryPreconditions, bind_eq_ok_iff, require_eq_ok_iff, foundOr_eq_ok_iff,
    decide_eq_true_eq, List.contains_iff_mem, List.all_eq_true, IsSegment]
  constructor
  · rintro ⟨_, horg, _, rfl, _, hds, _, rfl, sources, hsources, _, hin, dropRoot, hroot, _, hchars,
      hresult⟩
    cases hresult
    exact ⟨horg, hds, ⟨sources, hsources, hin⟩, hroot, hchars⟩
  · rintro ⟨horg, hds, ⟨sources, hsources, hin⟩, hroot, hchars⟩
    exact ⟨_, horg, (), rfl, _, hds, (), rfl, sources, hsources, (), hin, root, hroot,
      (), hchars, rfl⟩

abbrev Bytes := List UInt8

/-- How a delivery arrives. The poller has the object and its tag from the listing. -/
inductive How
  | upload
  | push
  | polled (drop : Drop) (etag : Option String)
  deriving DecidableEq

def How.isPolled : How → Bool
  | .polled _ _ => true
  | _ => false

/-- How far a delivery is: what is written of its bytes and what is still to come. -/
inductive Stage
  | begun
  | writing (written rest : Bytes)
  | flushed (body : Bytes)
  | published
  | queued
  deriving DecidableEq

/-- A delivery that somebody carries. -/
structure Carrier (T : Type u) where
  place : T
  source : String
  part : String
  how : How
  stage : Stage

/-- A row of `s3_ingest_cursors` under its org and source. -/
structure Cursor where
  objectKey : String
  etag : Option String
  sizeBytes : ℤ
  deliveryId : String
  deriving DecidableEq

/-- A `run_all_incremental` job of a delivery. -/
structure RunJob (T : Type u) where
  place : T
  source : String
  deliveryId : String
  how : How

/-- A rename into the drop root. -/
structure Publication (T : Type u) where
  deliveryId : String
  place : T
  source : String
  how : How
  path : String
  body : Bytes

/-- What a sweep knows of a source before it lists: the cursor as it read it. -/
structure Poll (T : Type u) where
  place : T
  source : String
  seen : Option (String × Option String)

/-- The tenants, the file system, the cursors and the jobs; what each poller and each delivery is
doing; and, for the record, every id that was drawn and every rename. -/
structure Landing (T : Type u) (D : Type v) where
  tenants : T → Tenant
  files : String → Option Bytes
  cursors : T → String → Option Cursor
  jobs : List (RunJob T)
  polls : D → Option (Poll T)
  carriers : String → Option (Carrier T)
  issued : List String
  published : List (Publication T)

/-- Before the first delivery. -/
def Landing.fresh {T : Type u} {D : Type v} (tenants : T → Tenant) : Landing T D :=
  ⟨tenants, fun _ => none, fun _ _ => none, [], fun _ => none, fun _ => none, [], []⟩

/-- `is_new`. -/
def isNew (drop : Drop) (etag : Option String) (cursor : Option (String × Option String)) : Bool :=
  match cursor with
  | none => true
  | some (seenKey, seenEtag) => drop.key ≠ seenKey || etag ≠ seenEtag

/-- Whether so many bytes are too many. Only an upload is counted. -/
def How.overCap (cap : ℕ) (how : How) (total : ℕ) : Bool :=
  how = .upload && decide (cap < total)

/-- The steps of the deliveries and the pollers, and what happens to them. -/
inductive DeliveryAction (T : Type u) (D : Type v)
  /-- A tenant is changed: suspended, given another config or another drop root. -/
  | putTenant (place : T) (tenant : Tenant)
  /-- A sweep reads the cursor of a source. -/
  | readCursor (poller : D) (place : T) (source : String)
  /-- The poller lists, decides, checks the preconditions and draws an id. -/
  | look (poller : D) (bucket root : String) (pages : List (List S3Object))
    (org deliveryId : String)
  | losePoller (poller : D)
  /-- An upload or a push passes the preconditions and draws an id. -/
  | accept (place : T) (org ds source : String) (how : How) (deliveryId : String)
  /-- The part file is created, for these bytes. -/
  | createPart (deliveryId : String) (body : Bytes)
  /-- The next chunk is written; an upload over the cap is given up, and its part removed, if that
  succeeds. -/
  | writeChunk (deliveryId : String) (size : ℕ) (removed : Bool)
  | flush (deliveryId : String)
  /-- The stream breaks off or cannot be written; the part is removed, if that succeeds. -/
  | abort (deliveryId : String) (removed : Bool)
  /-- The rename, if it succeeds. -/
  | rename (deliveryId : String) (ok removed : Bool)
  /-- The enqueue of the run, if it succeeds. -/
  | enqueueRun (deliveryId : String) (ok : Bool)
  /-- `advance`, if it succeeds. -/
  | advanceCursor (deliveryId : String) (ok : Bool)
  /-- The process that carries the delivery is lost. -/
  | loseCarrier (deliveryId : String)

/-! ## Stages -/

section Stages

variable {T : Type u} {carrier : Carrier T} {cap : ℕ}

/-- What the part file of a delivery holds, while it says that there is one. -/
def Stage.partContent : Stage → Option Bytes
  | .writing written _ => some written
  | .flushed body => some body
  | _ => none

def Stage.isPublished : Stage → Bool
  | .published => true
  | .queued => true
  | _ => false

/-- A later stage of a delivery, or its end, before it is published: what it says of its part is in
the part, and within the cap, if that was so before. -/
structure Carrier.Works (cap : ℕ) (carrier : Carrier T) (before content : Option Bytes)
    (next : Option Stage) :
    Prop where
  unpublished : ∀ stage, next = some stage →
    carrier.stage.isPublished = false ∧ stage.isPublished = false
  content : (∀ written, carrier.stage.partContent = some written → before = some written) →
    ∀ stage, next = some stage → ∀ written, stage.partContent = some written →
      content = some written
  capped : (∀ written, carrier.stage.partContent = some written →
      carrier.how.overCap cap written.length = false) →
    ∀ stage, next = some stage → ∀ written, stage.partContent = some written →
      carrier.how.overCap cap written.length = false

theorem Carrier.works_none (carrier : Carrier T) (before content : Option Bytes) :
    carrier.Works cap before content none :=
  ⟨nofun, fun _ => nofun, fun _ => nofun⟩

theorem works_createPart (hstage : carrier.stage = .begun) (body : Bytes) {before : Option Bytes} :
    carrier.Works cap before (some []) (some (.writing [] body)) := by
  constructor
  · rintro stage ⟨⟩
    exact ⟨by rw [hstage]; rfl, rfl⟩
  · rintro - stage ⟨⟩ written ⟨⟩
    rfl
  · rintro - stage ⟨⟩ written ⟨⟩
    simp [How.overCap]

theorem works_writeChunk {written rest chunk : Bytes}
    (hstage : carrier.stage = .writing written rest)
    (later : Bytes) (hcap : carrier.how.overCap cap (written ++ chunk).length = false)
    {before : Option Bytes} :
    carrier.Works cap before (before.map (· ++ chunk))
      (some (.writing (written ++ chunk) later)) := by
  constructor
  · rintro stage ⟨⟩
    exact ⟨by rw [hstage]; rfl, rfl⟩
  · rintro hbefore stage ⟨⟩ content ⟨⟩
    rw [hbefore written (by rw [hstage]; rfl)]
    rfl
  · rintro - stage ⟨⟩ content ⟨⟩
    exact hcap

theorem works_flush {written : Bytes} (hstage : carrier.stage = .writing written [])
    {before : Option Bytes} : carrier.Works cap before before (some (.flushed written)) := by
  have hpart : carrier.stage.partContent = some written := by
    rw [hstage]
    rfl
  constructor
  · rintro stage ⟨⟩
    exact ⟨by rw [hstage]; rfl, rfl⟩
  · rintro hbefore stage ⟨⟩ content ⟨⟩
    exact hbefore written hpart
  · rintro hcap stage ⟨⟩ content ⟨⟩
    exact hcap written hpart

end Stages

section Step

variable {T : Type u} {D : Type v} [DecidableEq T] [DecidableEq D]

/-- Begin or go on with a delivery, or be done with it. -/
def Landing.carry (landing : Landing T D) (deliveryId : String) (carrier : Option (Carrier T)) :
    Landing T D :=
  { landing with carriers := Function.update landing.carriers deliveryId carrier }

/-- Write, or remove, a file. -/
def Landing.putFile (landing : Landing T D) (path : String) (content : Option Bytes) :
    Landing T D :=
  { landing with files := Function.update landing.files path content }

def Landing.putPoll (landing : Landing T D) (poller : D) (poll : Option (Poll T)) : Landing T D :=
  { landing with polls := Function.update landing.polls poller poll }

/-- The carrier in another stage. -/
def Carrier.at (carrier : Carrier T) (stage : Stage) : Carrier T :=
  { carrier with stage := stage }

/-- `tokio::fs::remove_file(..)` of which the result is ignored; the delivery ends there. -/
def Landing.discard (landing : Landing T D) (deliveryId : String) (carrier : Carrier T)
    (removed : Bool) : Landing T D :=
  if removed then (landing.putFile carrier.part none).carry deliveryId none
  else landing.carry deliveryId none

/-- A new delivery under an id that nobody has drawn. -/
def Landing.begin (landing : Landing T D) (deliveryId : String) (carrier : Carrier T) :
    Landing T D :=
  if deliveryId ∈ landing.issued ∨ '/' ∈ deliveryId.toList then landing
  else { landing with issued := landing.issued ++ [deliveryId] }.carry deliveryId (some carrier)

/-- What a poll of a source takes up: the object that is chosen, if the cursor does not have it and
the tenant may deliver. -/
def takeUp (poll : Poll T) (tenant : Tenant) (bucket root : String) (pages : List (List S3Object))
    (org deliveryId : String) : Option (Carrier T) :=
  match (watcherNewest bucket root poll.source pages).1 with
  | .ok (some (drop, etag)) =>
      if isNew drop etag poll.seen then
        match deliveryPreconditions org "default" tenant poll.source with
        | .ok dropRoot =>
            (stagingPath dropRoot.path poll.source deliveryId).map fun part =>
              ⟨poll.place, poll.source, part, .polled drop etag, .begun⟩
        | .error _ => none
      else none
  | _ => none

/-- A step of a server with this `max_import_bytes`. -/
def Landing.step (cap : ℕ) (landing : Landing T D) : DeliveryAction T D → Landing T D
  | .putTenant place tenant =>
      { landing with tenants := Function.update landing.tenants place tenant }
  | .readCursor poller place source =>
      match landing.polls poller with
      | none =>
          landing.putPoll poller (some ⟨place, source,
            (landing.cursors place source).map fun cursor => (cursor.objectKey, cursor.etag)⟩)
      | some _ => landing
  | .look poller bucket root pages org deliveryId =>
      match landing.polls poller with
      | some poll =>
          match takeUp poll (landing.tenants poll.place) bucket root pages org deliveryId with
          | some carrier => (landing.putPoll poller none).begin deliveryId carrier
          | none => landing.putPoll poller none
      | none => landing
  | .losePoller poller => landing.putPoll poller none
  | .accept place org ds source how deliveryId =>
      match how.isPolled, deliveryPreconditions org ds (landing.tenants place) source with
      | false, .ok dropRoot =>
          landing.begin deliveryId ⟨place, source, partPath dropRoot source deliveryId, how, .begun⟩
      | _, _ => landing
  | .createPart deliveryId body =>
      match landing.carriers deliveryId with
      | some ⟨place, source, part, how, .begun⟩ =>
          (landing.putFile part (some [])).carry deliveryId
            (some ⟨place, source, part, how, .writing [] body⟩)
      | _ => landing
  | .writeChunk deliveryId size removed =>
      match landing.carriers deliveryId with
      | some ⟨place, source, part, how, .writing written rest⟩ =>
          let chunk := rest.take size
          if how.overCap cap (written.length + chunk.length) then
            landing.discard deliveryId ⟨place, source, part, how, .writing written rest⟩ removed
          else
            (landing.putFile part ((landing.files part).map (· ++ chunk))).carry deliveryId
              (some ⟨place, source, part, how, .writing (written ++ chunk) (rest.drop size)⟩)
      | _ => landing
  | .flush deliveryId =>
      match landing.carriers deliveryId with
      | some ⟨place, source, part, how, .writing written []⟩ =>
          landing.carry deliveryId (some ⟨place, source, part, how, .flushed written⟩)
      | _ => landing
  | .abort deliveryId removed =>
      match landing.carriers deliveryId with
      | some ⟨_, _, _, _, .begun⟩ => landing.carry deliveryId none
      | some ⟨place, source, part, how, .writing written rest⟩ =>
          landing.discard deliveryId ⟨place, source, part, how, .writing written rest⟩ removed
      | _ => landing
  | .rename deliveryId ok removed =>
      match landing.carriers deliveryId with
      | some ⟨place, source, part, how, .flushed body⟩ =>
          match ok, landing.files part with
          | true, some content =>
              let path := finalPath part source
              { (landing.putFile path (some content)).putFile part none with
                published := landing.published ++
                  [(⟨deliveryId, place, source, how, path, body⟩ : Publication T)]
              }.carry deliveryId (some ⟨place, source, part, how, .published⟩)
          | _, _ => landing.discard deliveryId ⟨place, source, part, how, .flushed body⟩ removed
      | _ => landing
  | .enqueueRun deliveryId ok =>
      match landing.carriers deliveryId with
      | some ⟨place, source, part, how, .published⟩ =>
          if ok then
            { landing with
              jobs := landing.jobs ++ [(⟨place, source, deliveryId, how⟩ : RunJob T)]
            }.carry deliveryId
              (if how.isPolled then some ⟨place, source, part, how, .queued⟩ else none)
          else landing.carry deliveryId none
      | _ => landing
  | .advanceCursor deliveryId ok =>
      match landing.carriers deliveryId with
      | some ⟨place, source, _, .polled drop etag, .queued⟩ =>
          if ok then
            { landing with
              cursors := Function.update landing.cursors place
                (Function.update (landing.cursors place) source
                  (some ⟨drop.key, etag, drop.size, deliveryId⟩))
            }.carry deliveryId none
          else landing.carry deliveryId none
      | _ => landing
  | .loseCarrier deliveryId =>
      match landing.carriers deliveryId with
      | some _ => landing.carry deliveryId none
      | none => landing

/-- What a step can change. -/
inductive Landing.Change (cap : ℕ) (landing : Landing T D) : Landing T D → Prop
  | aside (tenants : T → Tenant) (polls : D → Option (Poll T)) :
      Change cap landing { landing with tenants := tenants, polls := polls }
  | begin {deliveryId : String} {carrier : Carrier T} (polls : D → Option (Poll T))
      (hstage : carrier.stage = .begun) (hsource : IsSegment carrier.source)
      (hpart : ∃ root, carrier.part = partPath root carrier.source deliveryId)
      (hfresh : deliveryId ∉ landing.issued) (hid : '/' ∉ deliveryId.toList) :
      Change cap landing ({ landing with polls := polls, issued :=
        landing.issued ++ [deliveryId] }.carry
        deliveryId (some carrier))
  | write {deliveryId : String} {carrier : Carrier T} {content : Option Bytes} {next : Option Stage}
      (hcarrier : landing.carriers deliveryId = some carrier)
      (hworks : carrier.Works cap (landing.files carrier.part) content next) :
      Change cap landing ((landing.putFile carrier.part content).carry deliveryId
        (next.map carrier.at))
  | go {deliveryId : String} {carrier : Carrier T} {next : Option Stage}
      (hcarrier : landing.carriers deliveryId = some carrier)
      (hworks : carrier.Works cap (landing.files carrier.part) (landing.files carrier.part) next) :
      Change cap landing (landing.carry deliveryId (next.map carrier.at))
  | rename {deliveryId : String} {carrier : Carrier T} {body content : Bytes}
      (hcarrier : landing.carriers deliveryId = some carrier)
      (hstage : carrier.stage = .flushed body)
      (hfile : landing.files carrier.part = some content) :
      Change cap landing
        ({ (landing.putFile (finalPath carrier.part carrier.source) (some content)).putFile
            carrier.part none with
            published := landing.published ++ [(⟨deliveryId, carrier.place, carrier.source,
              carrier.how, finalPath carrier.part carrier.source, body⟩ : Publication T)]
          }.carry deliveryId (some (carrier.at .published)))
  | enqueueRun {deliveryId : String} {carrier : Carrier T}
      (hcarrier : landing.carriers deliveryId = some carrier)
      (hstage : carrier.stage = .published) :
      Change cap landing
        ({ landing with
            jobs := landing.jobs ++
              [(⟨carrier.place, carrier.source, deliveryId, carrier.how⟩ : RunJob T)]
          }.carry deliveryId (if carrier.how.isPolled then some (carrier.at .queued) else none))
  | advanceCursor {deliveryId : String} {carrier : Carrier T} {drop : Drop} {etag : Option String}
      (hcarrier : landing.carriers deliveryId = some carrier) (hstage : carrier.stage = .queued)
      (hhow : carrier.how = .polled drop etag) :
      Change cap landing
        ({ landing with
            cursors := Function.update landing.cursors carrier.place
              (Function.update (landing.cursors carrier.place) carrier.source
                (some ⟨drop.key, etag, drop.size, deliveryId⟩))
          }.carry deliveryId none)

variable {cap : ℕ}

omit [DecidableEq T] in
theorem eq_of_takeUp {poll : Poll T} {tenant : Tenant} {bucket root : String}
    {pages : List (List S3Object)} {org deliveryId : String} {carrier : Carrier T}
    (htake : takeUp poll tenant bucket root pages org deliveryId = some carrier) :
    carrier.stage = .begun ∧ IsSegment carrier.source ∧
      ∃ root, carrier.part = partPath root carrier.source deliveryId := by
  rw [takeUp] at htake
  split at htake
  · split at htake
    · split at htake
      · rename_i dropRoot hroot
        obtain ⟨part, hpart, rfl⟩ := Option.map_eq_some_iff.mp htake
        obtain ⟨-, -, -, -, hsource⟩ := deliveryPreconditions_eq_ok_iff.mp hroot
        exact ⟨rfl, hsource, dropRoot, eq_partPath_of_stagingPath hpart⟩
      · cases htake
    · cases htake
  · cases htake

omit [DecidableEq D] in
/-- A delivery begins, unless its id was drawn before. -/
theorem Landing.change_begin (landing : Landing T D) (polls : D → Option (Poll T))
    {deliveryId : String} {carrier : Carrier T} (hstage : carrier.stage = .begun)
    (hsource : IsSegment carrier.source)
    (hpart : ∃ root, carrier.part = partPath root carrier.source deliveryId) :
    Landing.Change cap landing ({ landing with polls := polls }.begin deliveryId carrier) := by
  rw [Landing.begin]
  split_ifs with hid
  · exact .aside landing.tenants polls
  · exact .begin polls hstage hsource hpart (not_or.mp hid).1 (not_or.mp hid).2

omit [DecidableEq D] in
/-- A delivery ends, with its part removed or not. -/
theorem Landing.change_discard {landing : Landing T D} {deliveryId : String} {carrier : Carrier T}
    (hcarrier : landing.carriers deliveryId = some carrier) (removed : Bool) :
    Landing.Change cap landing (landing.discard deliveryId carrier removed) := by
  cases removed with
  | true => exact .write hcarrier (carrier.works_none _ _)
  | false => exact .go hcarrier (carrier.works_none _ _)

omit [DecidableEq D] in
/-- A delivery ends. -/
theorem Landing.change_end {landing : Landing T D} {deliveryId : String} {carrier : Carrier T}
    (hcarrier : landing.carriers deliveryId = some carrier) :
    Landing.Change cap landing (landing.carry deliveryId none) :=
  .go hcarrier (carrier.works_none _ _)

/-- Every step makes one of the changes. -/
theorem Landing.change_step (landing : Landing T D) (action : DeliveryAction T D) :
    Landing.Change cap landing (landing.step cap action) := by
  have hidle : Landing.Change cap landing landing := .aside landing.tenants landing.polls
  cases action with
  | putTenant place tenant => exact .aside _ landing.polls
  | readCursor poller place source =>
      rw [Landing.step]
      split
      · exact .aside landing.tenants _
      · exact hidle
  | look poller bucket root pages org deliveryId =>
      rw [Landing.step]
      split
      · split
        · rename_i carrier htake
          obtain ⟨hstage, hsource, hpart⟩ := eq_of_takeUp htake
          exact landing.change_begin _ hstage hsource hpart
        · exact .aside landing.tenants _
      · exact hidle
  | losePoller poller => exact .aside landing.tenants _
  | accept place org ds source how deliveryId =>
      rw [Landing.step]
      split
      · rename_i dropRoot _ hroot
        obtain ⟨-, -, -, -, hsource⟩ := deliveryPreconditions_eq_ok_iff.mp hroot
        exact landing.change_begin landing.polls rfl hsource ⟨dropRoot, rfl⟩
      · exact hidle
  | createPart deliveryId body =>
      rw [Landing.step]
      split
      · rename_i hcarrier
        have hchange : Landing.Change cap landing _ := .write hcarrier (works_createPart rfl body)
        exact hchange
      · exact hidle
  | writeChunk deliveryId size removed =>
      rw [Landing.step]
      split
      · rename_i written rest hcarrier
        extract_lets chunk
        split_ifs with hcap
        · exact landing.change_discard hcarrier removed
        · rw [Bool.not_eq_true, ← List.length_append] at hcap
          have hchange : Landing.Change cap landing _ :=
            .write hcarrier (works_writeChunk rfl (rest.drop size) hcap)
          exact hchange
      · exact hidle
  | flush deliveryId =>
      rw [Landing.step]
      split
      · rename_i hcarrier
        have hchange : Landing.Change cap landing _ := .go hcarrier (works_flush rfl)
        exact hchange
      · exact hidle
  | abort deliveryId removed =>
      rw [Landing.step]
      split
      · rename_i hcarrier
        exact landing.change_end hcarrier
      · rename_i hcarrier
        exact landing.change_discard hcarrier removed
      · exact hidle
  | rename deliveryId ok removed =>
      rw [Landing.step]
      split
      · rename_i hcarrier
        split
        · rename_i content hfile
          have hchange : Landing.Change cap landing _ := .rename hcarrier rfl hfile
          exact hchange
        · exact landing.change_discard hcarrier removed
      · exact hidle
  | enqueueRun deliveryId ok =>
      rw [Landing.step]
      split
      · rename_i hcarrier
        by_cases hok : ok = true
        · rw [if_pos hok]
          have hchange : Landing.Change cap landing _ := .enqueueRun hcarrier rfl
          exact hchange
        · rw [if_neg hok]
          exact landing.change_end hcarrier
      · exact hidle
  | advanceCursor deliveryId ok =>
      rw [Landing.step]
      split
      · rename_i hcarrier
        by_cases hok : ok = true
        · rw [if_pos hok]
          have hchange : Landing.Change cap landing _ := .advanceCursor hcarrier rfl rfl
          exact hchange
        · rw [if_neg hok]
          exact landing.change_end hcarrier
      · exact hidle
  | loseCarrier deliveryId =>
      rw [Landing.step]
      split
      · rename_i hcarrier
        exact landing.change_end hcarrier
      · exact hidle

end Step

end EntityResolution.Ingest
