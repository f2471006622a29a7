/-
# Applying staged actions

An `apply_corrections` pass runs over two stores. `drain_actions` and `settle_actions` work on
the control plane, where the staged actions are; `apply_staged` works on the lake, where each
action is one or a few statements, each committed on its own. What landed travels from the one
to the other as the task's output, so it is known only of a try that ran to its end.

A pass takes its actions from the job's params, under `staged_actions`. A try that fails stops
where it fails: at a statement of a failing action, or wherever its pod dies.
-/

import EntityResolution.Steward.Reviews
import EntityResolution.Steward.Ticks

namespace EntityResolution.Steward

open EntityResolution.Collections

universe x y

variable {S : Type x} {E : Type y}

/-- A row of `assertions`. -/
structure AssertionRow where
  id : String
  recAKey : String
  recBKey : String
  kind : String
  active : Bool
  createdBy : String
  createdAt : ℤ
  note : Option String
  retractedAt : Option ℤ
  deriving DecidableEq

/-- A row of `golden_overrides`. -/
structure OverrideRow where
  entityId : String
  field : String
  value : Option String
  createdBy : String
  createdAt : ℤ
  sourceActionId : String
  deriving DecidableEq

/-- A row of `record_overlays`. -/
structure OverlayRow where
  recordKey : String
  kind : String
  active : Bool
  createdBy : String
  createdAt : ℤ
  sourceActionId : String
  retractedAt : Option ℤ
  deriving DecidableEq

/-- The tables that steward actions write. -/
structure StewardLake (S : Type x) (E : Type y) where
  reviewQueue : List (Review String S E)
  assertions : List AssertionRow
  goldenOverrides : List OverrideRow
  recordOverlays : List OverlayRow

/-- A statement of an action. -/
inductive LakeStatement
  | addAssertion (id a b kind createdBy : String) (createdAt : ℤ) (note : Option String)
  | retractAssertion (retractedAt : ℤ) (id : String)
  | resolve (status : ReviewStatus) (resolvedAt : ℤ) (reviewId : String)
  | assertFromReview (id kind : String) (createdAt : ℤ) (reviewId : String)
  | clearOverride (entityId field : String)
  | setOverride (row : OverrideRow)
  | clearOverlay (recordKey kind : String)
  | setOverlay (recordKey kind createdBy : String) (createdAt : ℤ) (sourceActionId : String)
  | retractOverlay (retractedAt : ℤ) (recordKey kind : String)
  deriving DecidableEq

def LakeStatement.exec (lake : StewardLake S E) : LakeStatement → StewardLake S E
  | .addAssertion id a b kind createdBy createdAt note =>
      { lake with
        assertions := lake.assertions ++
          [⟨id, a, b, kind, true, createdBy, createdAt, note, none⟩] }
  | .retractAssertion retractedAt id =>
      { lake with
        assertions := lake.assertions.map fun row =>
          if row.id = id then { row with active := false, retractedAt := some retractedAt }
          else row }
  | .resolve status resolvedAt reviewId =>
      { lake with
        reviewQueue := lake.reviewQueue.map fun row =>
          if row.id = reviewId then
            { row with status := status, resolvedAt := some resolvedAt, updatedAt := resolvedAt }
          else row }
  | .assertFromReview id kind createdAt reviewId =>
      { lake with
        assertions := lake.assertions ++
          (lake.reviewQueue.filter fun row => row.id = reviewId).map fun row =>
            ⟨id, row.recAKey, row.recBKey, kind, true, "steward", createdAt, none, none⟩ }
  | .clearOverride entityId field =>
      { lake with
        goldenOverrides := lake.goldenOverrides.filter fun row =>
          !(row.entityId = entityId && row.field = field) }
  | .setOverride row => { lake with goldenOverrides := lake.goldenOverrides ++ [row] }
  | .clearOverlay recordKey kind =>
      { lake with
        recordOverlays := lake.recordOverlays.filter fun row =>
          !(row.recordKey = recordKey && row.kind = kind) }
  | .setOverlay recordKey kind createdBy createdAt sourceActionId =>
      { lake with
        recordOverlays := lake.recordOverlays ++
          [⟨recordKey, kind, true, createdBy, createdAt, sourceActionId, none⟩] }
  | .retractOverlay retractedAt recordKey kind =>
      { lake with
        recordOverlays := lake.recordOverlays.map fun row =>
          if row.recordKey = recordKey ∧ row.kind = kind then
            { row with active := false, retractedAt := some retractedAt }
          else row }

/-- The golden columns a steward may override. -/
def overridable : List String :=
  ["given_name", "family_name", "email", "phone_e164", "birth_date", "addr_number",
    "addr_street", "addr_unit", "addr_city", "addr_region", "addr_postal"]

def Resolution.status : Resolution → ReviewStatus
  | .matched => .resolvedMatch
  | .noMatch => .resolvedNoMatch
  | .dismissed => .dismissed

/-- The assertion a resolution leaves on the review's pair. -/
def Resolution.assertion : Resolution → Option String
  | .matched => some "always"
  | .noMatch => some "never"
  | .dismissed => none

/-- An override replaces the one the field has. -/
def overrideStatements (entityId field : String) (value : Option String) (createdBy : String)
    (actionId : String) (now : ℤ) : List LakeStatement :=
  if entityId ≠ "" ∧ field ∈ overridable then
    [.clearOverride entityId field,
      .setOverride ⟨entityId, field, value, createdBy, now, actionId⟩]
  else []

/-- An overlay replaces the one the record has of the kind. -/
def overlayStatements (recordKey kind createdBy actionId : String) (now : ℤ) :
    List LakeStatement :=
  if recordKey ≠ "" then
    [.clearOverlay recordKey kind, .setOverlay recordKey kind createdBy now actionId]
  else []

/-- The statements of `apply_staged_action_labeled` that write rows, in order. -/
def StewardAction.statements (actionId : String) (now : ℤ) : StewardAction → List LakeStatement
  | .addAssertion a b kind createdBy note =>
      if a ≤ b then [.addAssertion actionId a b kind createdBy now note]
      else [.addAssertion actionId b a kind createdBy now note]
  | .retractAssertion assertionId => [.retractAssertion now assertionId]
  | .resolveReview reviewId resolution =>
      .resolve resolution.status now reviewId ::
        (resolution.assertion.map fun kind =>
          LakeStatement.assertFromReview actionId kind now reviewId).toList
  | .overrideField entityId field value createdBy =>
      overrideStatements entityId field value createdBy actionId now
  | .clearField entityId field createdBy =>
      overrideStatements entityId field none createdBy actionId now
  | .protectRecord recordKey createdBy =>
      overlayStatements recordKey "protect" createdBy actionId now
  | .suppressRecord recordKey createdBy =>
      overlayStatements recordKey "suppress" createdBy actionId now
  | .retractRecordOverlay recordKey kind =>
      if recordKey ≠ "" ∧ (kind = "protect" ∨ kind = "suppress") then
        [.retractOverlay now recordKey kind]
      else []

/-- The control plane and the lake, with the statements the lake has committed and the actions
they belong to. -/
structure Stores (S : Type x) (E : Type y) where
  plane : Plane
  lake : StewardLake S E
  journal : List (String × LakeStatement)

def Stores.fresh : Stores S E := ⟨Plane.fresh, ⟨[], [], [], []⟩, []⟩

/-- One statement of an action commits. -/
def Stores.commit (stores : Stores S E) (entry : String × LakeStatement) : Stores S E :=
  { stores with
    lake := entry.2.exec stores.lake
    journal := stores.journal ++ [entry] }

/-- The statements the lake has committed for an action. -/
def Stores.landed (stores : Stores S E) (actionId : String) : List LakeStatement :=
  (stores.journal.filter fun entry => entry.1 = actionId).map Prod.snd

namespace ApplyStaged

/-- The statements of a list of actions, one action after the other. -/
def program (now : ℤ) (staged : List (String × StewardAction)) :
    List (String × LakeStatement) :=
  staged.flatMap fun entry =>
    (entry.2.statements entry.1 now).map fun statement => (entry.1, statement)

/-- A try that stops after that many statements. -/
def stopAfter (now : ℤ) (staged : List (String × StewardAction)) (stores : Stores S E)
    (count : ℕ) : Stores S E :=
  ((program now staged).take count).foldl Stores.commit stores

/-- A try that runs to its end. Its output is the ids that landed. -/
def run (now : ℤ) (staged : List (String × StewardAction)) (stores : Stores S E) :
    Stores S E × List String :=
  ((program now staged).foldl Stores.commit stores, staged.map Prod.fst)

end ApplyStaged

/-- A try of `settle_actions` that marks that many actions of the receipt. -/
def SettleActions.markUpTo (receipt : List String) (plane : Plane) (count : ℕ) : Plane :=
  (receipt.take count).foldl (fun plane id => markApplied id plane) plane

/-- `settle_actions`: marks the whole receipt. -/
def SettleActions.run (receipt : List String) (plane : Plane) : Plane :=
  receipt.foldl (fun plane id => markApplied id plane) plane

/-- An action that a steward or an approval tick stages. -/
structure Arrival where
  actionId : String
  orgId : String
  datasetId : String
  action : StewardAction
  createdBy : String
  createdAt : ℤ

def Arrival.stage (plane : Plane) (arrival : Arrival) : Plane :=
  (stageAction arrival.actionId arrival.orgId (some arrival.datasetId) arrival.action
    arrival.createdBy arrival.createdAt plane).getD plane

/-- An `apply_corrections` job at work: the actions its params list (none where the params have
no list), the statements after which each failed try of `apply_staged` stopped, and whether a
last try ran to its end; whether reconcile and assemble got through; the marks each failed try
of `settle_actions` made, and whether a last try made them all; and what was staged meanwhile. -/
structure Pass where
  orgId : String
  datasetId : Option String
  runAt : ℤ
  stagedActions : List (String × StewardAction)
  stops : List ℕ
  applies : Bool
  assembles : Bool
  settleStops : List ℕ
  settles : Bool
  arrivals : List Arrival

/-- The tables after the tries of `apply_staged`, and the receipt of the last. -/
def Pass.apply (pass : Pass) (stores : Stores S E) : Stores S E × Option (List String) :=
  let tried := pass.stops.foldl (ApplyStaged.stopAfter pass.runAt pass.stagedActions) stores
  if pass.applies then
    let result := ApplyStaged.run pass.runAt pass.stagedActions tried
    (result.1, some result.2)
  else (tried, none)

/-- The marks a receipt leads to. Without assemble there is no `settle_actions`. -/
def Pass.settle (pass : Pass) (receipt : Option (List String)) (plane : Plane) : Plane :=
  match receipt with
  | none => plane
  | some ids =>
      if pass.assembles then
        let marked := pass.settleStops.foldl (SettleActions.markUpTo ids) plane
        if pass.settles then SettleActions.run ids marked else marked
      else plane

def Pass.run (pass : Pass) (stores : Stores S E) : Stores S E :=
  let applied := pass.apply stores
  { applied.1 with
    plane := pass.settle applied.2 (pass.arrivals.foldl Arrival.stage applied.1.plane) }

/-- Every task of the pass succeeded. -/
def Pass.succeeds (pass : Pass) : Bool := pass.applies && pass.assembles && pass.settles

/-- The dataset a pass is for. -/
def Pass.dataset (pass : Pass) : String := dispatcherScope pass.orgId pass.datasetId

/-- An action is staged, or a pass runs. -/
inductive StagedEvent
  | stage (arrival : Arrival)
  | pass (pass : Pass)

def Stores.step (stores : Stores S E) : StagedEvent → Stores S E
  | .stage arrival => { stores with plane := arrival.stage stores.plane }
  | .pass pass => pass.run stores

end EntityResolution.Steward
