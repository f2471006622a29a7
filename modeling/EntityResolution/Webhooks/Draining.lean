/-
# The backlog goes down

A drainer that comes by takes the oldest row that is due, and leaves it settled or with one attempt
fewer to go. Between two visits that are as far apart as the longest backoff, every pending row
becomes due again; so a drainer that keeps coming by empties the outbox, whatever the endpoints
answer and whatever the other drainers have left behind.
-/

import EntityResolution.Webhooks.Attempts

namespace EntityResolution.Webhooks

open EntityResolution.Collections EntityResolution.Statements EntityResolution.Tables

universe u v w

variable {J : Type u} {B : Type v} {D : Type w} [DecidableEq D] {outside : Outside J B}
  {outbox next : Outbox J B D} {drainer : D} {id : String} {row : WebhookDelivery J}

/-- One call of `drain_once`: when it claims and when it settles, and what the network does. -/
structure Visit where
  claimAt : ℤ
  settleAt : ℤ
  net : Server.Network
  answer : Except String ℕ

/-- The steps of `drain_once`. -/
def drainOnce (drainer : D) (visit : Visit) : List (Action J D) :=
  [.claim drainer visit.claimAt fun _ => false, .locate drainer,
    .post drainer visit.net visit.answer, .settle drainer visit.settleAt]

/-- The longest backoff, in seconds. -/
def longestBackoff : ℕ := 300

theorem backoff_le (attempt : ℕ) : backoff attempt ≤ longestBackoff :=
  min_le_left _ _

/-- Each visit comes a longest backoff after the one before. -/
def Spaced : ℤ → List Visit → Prop
  | _, [] => True
  | last, visit :: visits =>
      last + longestBackoff ≤ visit.claimAt ∧ visit.claimAt ≤ visit.settleAt ∧
        Spaced visit.settleAt visits

/-- A visit that finds a row due settles it, with some outcome. -/
theorem drainOnce_due (outside : Outside J B) {visit : Visit}
    (hidle : outbox.drainers drainer = none)
    (hnext : nextDue visit.claimAt (fun _ => false) outbox.deliveries = some (id, row)) :
    ∃ outcome,
      ((drainOnce drainer visit).foldl (Outbox.step outside) outbox).deliveries =
          (settleDelivery id outcome visit.settleAt).run
            ((claimDelivery id).run outbox.deliveries) ∧
        ((drainOnce drainer visit).foldl (Outbox.step outside) outbox).drainers drainer = none := by
  simp only [drainOnce, List.foldl_cons, List.foldl_nil]
  have hclaim : outbox.step outside (.claim drainer visit.claimAt fun _ => false) =
      { outbox with deliveries := (claimDelivery id).run outbox.deliveries }.inHand drainer
        (some ⟨id, row.webhookId, row.payload, .claimed⟩) := by
    rw [Outbox.step, hidle, hnext]
  rw [hclaim]
  cases hendpoint : webhookEndpoint outbox.webhooks row.webhookId with
  | none =>
      refine ⟨unsubscribed, ?_, ?_⟩ <;>
        simp [Outbox.step, Outbox.inHand, hendpoint]
  | some endpoint =>
      cases hcheck : Server.check visit.net endpoint.1 .guarded with
      | error rejection =>
          refine ⟨refused outside rejection, ?_, ?_⟩ <;>
            simp [Outbox.step, Outbox.inHand, hendpoint, hcheck]
      | ok =>
          refine ⟨classify visit.answer, ?_, ?_⟩ <;>
            simp [Outbox.step, Outbox.inHand, hendpoint, hcheck]

/-- A visit that finds nothing due changes nothing. -/
theorem drainOnce_idle {visit : Visit} (hidle : outbox.drainers drainer = none)
    (hnext : nextDue visit.claimAt (fun _ => false) outbox.deliveries = none) :
    (drainOnce drainer visit).foldl (Outbox.step outside) outbox = outbox := by
  simp [drainOnce, Outbox.step, hidle, hnext]

/-- The attempts that a pending row may still take, one at least. -/
def owed (row : WebhookDelivery J) : ℕ :=
  if row.state = .pending then max 1 (row.maxAttempts - row.attempt) else 0

theorem owed_eq_zero_iff : owed row = 0 ↔ row.state ≠ .pending := by
  rw [owed]
  split_ifs with hpending
  · simp [hpending]
  · simp [hpending]

/-- A row is pending after `settle` only below its limit. -/
theorem attempt_lt_of_pending {outcome : Outcome} {now : ℤ}
    (hpending : (outcome.settled now row).state = .pending) : row.attempt < row.maxAttempts := by
  have hstate : (outcome.settled now row).state =
      if outcome.delivered then .delivered else if outcome.retries row then .pending else .failed :=
    rfl
  rw [hstate] at hpending
  split_ifs at hpending with hdelivered hretries
  rw [Outcome.retries, Bool.and_eq_true] at hretries
  exact of_decide_eq_true hretries.2

theorem owed_settled_lt {outcome : Outcome} {now : ℤ} (hpending : row.state = .pending) :
    owed (outcome.settled now { row with attempt := row.attempt + 1 }) < owed row := by
  have hbefore : owed row = max 1 (row.maxAttempts - row.attempt) := if_pos hpending
  rw [hbefore]
  by_cases hagain : (outcome.settled now { row with attempt := row.attempt + 1 }).state = .pending
  · have hbelow : row.attempt + 1 < row.maxAttempts := attempt_lt_of_pending hagain
    have hafter : owed (outcome.settled now { row with attempt := row.attempt + 1 }) =
        max 1 (row.maxAttempts - (row.attempt + 1)) := if_pos hagain
    rw [hafter]
    omega
  · rw [owed_eq_zero_iff.mpr hagain]
    omega

/-- A claim that is settled, as one statement. -/
def attempted (id : String) (outcome : Outcome) (now : ℤ) : Update String (WebhookDelivery J) where
  hit k _ := decide (k = id)
  set _ row := outcome.settled now { row with attempt := row.attempt + 1 }

theorem run_attempted (deliveries : DeliveryTable J) (outcome : Outcome) (now : ℤ) :
    (settleDelivery id outcome now).run ((claimDelivery id).run deliveries) =
      (attempted id outcome now).run deliveries := by
  apply Std.ExtTreeMap.ext_getElem?
  intro other
  simp only [Update.getElem?_run, Option.map_map]
  congr 1
  funext row
  simp only [Function.comp_apply, Update.row, settleDelivery, claimDelivery, attempted]
  by_cases hsame : other = id <;> simp [hsame]

theorem total_owed_attempted_lt {deliveries : DeliveryTable J} (id : String) (outcome : Outcome)
    (now : ℤ) (hrow : deliveries[id]? = some row) (hpending : row.state = .pending) :
    total owed ((attempted id outcome now).run deliveries) < total owed deliveries := by
  have hhere : owed ((attempted id outcome now).row id row) < owed row := by
    rw [Update.row, attempted, if_pos (decide_eq_true rfl)]
    exact owed_settled_lt hpending
  apply Update.total_run_lt
  · intro other old hold
    by_cases hsame : other = id
    · subst hsame
      cases hold.symm.trans hrow
      exact hhere.le
    · rw [Update.row, attempted, if_neg (by simp [hsame])]
  · exact ⟨id, row, hrow, hhere⟩

/-- No row has to wait for longer than the longest backoff. -/
def Waits (last : ℤ) (deliveries : DeliveryTable J) : Prop :=
  ∀ (id : String) (row : WebhookDelivery J) (next : ℤ), deliveries[id]? = some row →
    row.nextAttemptAt = some next → next ≤ last + longestBackoff

/-- A settled row waits from now on at most, or as it did. -/
theorem nextAttemptAt_settled {outcome : Outcome} {now next : ℤ}
    (hnext : (outcome.settled now row).nextAttemptAt = some next) :
    next ≤ now + longestBackoff ∨ row.nextAttemptAt = some next := by
  rw [Outcome.settled] at hnext
  dsimp only at hnext
  split_ifs at hnext
  · left
    cases hnext
    have hbackoff := backoff_le row.attempt
    omega
  · exact .inr hnext

/-- A change makes no row wait for longer, when it is not later than the last one said to be. -/
theorem Waits.settle {last now : ℤ} {deliveries : DeliveryTable J} {outcome : Outcome}
    (hwaits : Waits last deliveries) (hnow : now ≤ last) :
    Waits last ((settleDelivery id outcome now).run deliveries) := by
  intro other row next hrow hnext
  obtain ⟨old, hold, rfl⟩ := Update.getElem?_run_eq_some_iff.mp hrow
  rw [Update.row] at hnext
  split_ifs at hnext
  · cases nextAttemptAt_settled hnext with
    | inl hsoon => omega
    | inr hsame => exact hwaits other old next hold hsame
  · exact hwaits other old next hold hnext

theorem Waits.claim {last : ℤ} {deliveries : DeliveryTable J} (hwaits : Waits last deliveries) :
    Waits last ((claimDelivery id).run deliveries) := by
  intro other row next hrow hnext
  obtain ⟨old, hold, rfl⟩ := Update.getElem?_run_eq_some_iff.mp hrow
  rw [Update.row] at hnext
  split_ifs at hnext <;> exact hwaits other old next hold hnext

theorem Waits.later {last later : ℤ} {deliveries : DeliveryTable J} (hwaits : Waits last deliveries)
    (hlater : last ≤ later) : Waits later deliveries := by
  intro id row next hrow hnext
  have hsoon := hwaits id row next hrow hnext
  omega

/-- Every pending row is due when a longest backoff has passed. -/
theorem Waits.due {last now : ℤ} {deliveries : DeliveryTable J} (hwaits : Waits last deliveries)
    (hnow : last + longestBackoff ≤ now) (hrow : deliveries[id]? = some row)
    (hpending : row.state = .pending) : row.due now = true := by
  rw [WebhookDelivery.due, Bool.and_eq_true]
  refine ⟨decide_eq_true hpending, ?_⟩
  cases hnext : row.nextAttemptAt with
  | none => rfl
  | some next =>
      have hsoon := hwaits id row next hrow hnext
      exact decide_eq_true (hsoon.trans hnow)

/-- What a drainer that is idle finds, and what is still to do. -/
structure Ready (drainer : D) (last : ℤ) (budget : ℕ) (outbox : Outbox J B D) : Prop where
  idle : outbox.drainers drainer = none
  waits : Waits last outbox.deliveries
  owes : total owed outbox.deliveries ≤ budget

/-- A visit takes one from what is still to do. -/
theorem Ready.visit {last : ℤ} {budget : ℕ} {visit : Visit}
    (hready : Ready drainer last (budget + 1) outbox)
    (hafter : last + longestBackoff ≤ visit.claimAt) (horder : visit.claimAt ≤ visit.settleAt) :
    Ready drainer visit.settleAt budget
      ((drainOnce drainer visit).foldl (Outbox.step outside) outbox) := by
  have hlater : last ≤ visit.settleAt := by
    have hlongest : (0 : ℤ) ≤ longestBackoff := Int.natCast_nonneg _
    omega
  cases hnext : nextDue visit.claimAt (fun _ => false) outbox.deliveries with
  | none =>
      rw [drainOnce_idle hready.idle hnext]
      refine ⟨hready.idle, hready.waits.later hlater, ?_⟩
      have hnone : total owed outbox.deliveries = 0 := by
        rw [total_eq_zero_iff]
        intro id row hrow
        rw [owed_eq_zero_iff]
        intro hpending
        have hdue := hready.waits.due hafter hrow hpending
        rw [nextDue_eq_none_iff.mp hnext id row hrow rfl] at hdue
        cases hdue
      rw [hnone]
      exact Nat.zero_le _
  | some entry =>
      obtain ⟨id, row⟩ := entry
      obtain ⟨hrow, hdue⟩ := nextDue_sound hnext
      obtain ⟨outcome, hdeliveries, hidle⟩ := drainOnce_due outside hready.idle hnext
      refine ⟨hidle, ?_, ?_⟩
      · rw [hdeliveries]
        exact (hready.waits.later hlater).claim.settle (Int.le_refl _)
      · have hpending : row.state = .pending := by
          rw [WebhookDelivery.due, Bool.and_eq_true] at hdue
          exact of_decide_eq_true hdue.1
        have hless := total_owed_attempted_lt id outcome visit.settleAt hrow hpending
        have howes := hready.owes
        rw [hdeliveries, run_attempted]
        omega

/-- Visits that are spaced do all there is to do. -/
theorem Ready.visits (outside : Outside J B) {visits : List Visit} {last : ℤ}
    (hready : Ready drainer last visits.length outbox) (hspaced : Spaced last visits) :
    total owed ((visits.flatMap (drainOnce drainer)).foldl (Outbox.step outside)
      outbox).deliveries =
      0 := by
  induction visits generalizing outbox last with
  | nil => exact Nat.le_zero.mp hready.owes
  | cons visit visits ih =>
      obtain ⟨hafter, horder, hrest⟩ := hspaced
      rw [List.flatMap_cons, List.foldl_append]
      exact ih (hready.visit hafter horder) hrest

/-- A step makes no row wait for longer than from the last `settle`. -/
theorem Waits.step {last : ℤ} (hwaits : Waits last outbox.deliveries) {action : Action J D}
    (haction : ∀ drainer now, action = .settle drainer now → now ≤ last) :
    Waits last (outbox.step outside action).deliveries := by
  cases action with
  | putWebhook webhookId webhook => exact hwaits
  | enqueue id orgId datasetId webhookId eventType payload now =>
      rw [Outbox.step]
      split_ifs
      · exact hwaits
      · intro other row next hrow hnext
        rw [BTreeMap.getElem?_insert_eq_ite] at hrow
        split_ifs at hrow
        · cases hrow
          cases hnext
        · exact hwaits other row next hrow hnext
  | claim drainer now locked =>
      rw [Outbox.step]
      split
      · exact hwaits.claim
      · exact hwaits
  | locate drainer =>
      rw [Outbox.step]
      split <;> exact hwaits
  | post drainer net answer =>
      rw [Outbox.step]
      split
      · split <;> exact hwaits
      · exact hwaits
  | settle drainer now =>
      rw [Outbox.step]
      split
      · exact hwaits.settle (haction drainer now rfl)
      · exact hwaits
  | lose drainer =>
      rw [Outbox.step]
      split <;> exact hwaits

theorem waits_outboxAfter {last : ℤ} (actions : List (Action J D))
    (hlast : ∀ drainer now, .settle drainer now ∈ actions → now ≤ last) :
    Waits last (outboxAfter outside actions).deliveries := by
  apply foldl_keeps fun outbox : Outbox J B D => Waits last outbox.deliveries
  · intro action haction outbox hwaits
    apply hwaits.step
    rintro drainer now rfl
    exact hlast drainer now haction
  · intro id row next hrow
    change (∅ : DeliveryTable J)[id]? = some row at hrow
    simp at hrow

/-- The outbox empties. From any outbox that can be reached, a drainer that is idle and comes by
a longest backoff apart, `MAX_DELIVERY_ATTEMPTS` times for every row that is pending, leaves no row
pending: each is delivered or failed, whatever the endpoints answer and whatever the drainers that
never come back have in hand. -/
theorem outbox_drains [Fintype D] (outside : Outside J B) (actions : List (Action J D))
    (visits : List Visit) (last : ℤ)
    (hlast : ∀ drainer now, .settle drainer now ∈ actions → now ≤ last)
    (hidle : (outboxAfter outside actions).drainers drainer = none) (hspaced : Spaced last visits)
    (hbudget : countWhere (outboxAfter outside actions).deliveries
      (fun _ row => row.state = .pending) * maxDeliveryAttempts ≤ visits.length) :
    ∀ (id : String) (row : WebhookDelivery J),
      (outboxAfter outside (actions ++ visits.flatMap (drainOnce drainer))).deliveries[id]? =
        some row → row.state ≠ .pending := by
  have hsound : (outboxAfter outside actions).Sound outside := sound_outboxAfter actions
  have howes : total owed (outboxAfter outside actions).deliveries ≤ visits.length := by
    apply (total_le_mul_countWhere _).trans hbudget
    intro id row hrow
    have hlimit := (hsound.rows id row hrow).limit
    rw [owed, hlimit]
    by_cases hpending : row.state = .pending
    · rw [if_pos hpending, if_pos (decide_eq_true hpending)]
      exact max_le (by decide) (Nat.sub_le _ _)
    · rw [if_neg hpending]
      exact Nat.zero_le _
  have hready : Ready drainer last visits.length (outboxAfter outside actions) :=
    ⟨hidle, waits_outboxAfter actions hlast, howes⟩
  have hdone := hready.visits outside hspaced
  rw [outboxAfter, List.foldl_append]
  intro id row hrow
  exact owed_eq_zero_iff.mp (total_eq_zero_iff.mp hdone id row hrow)

/-- Six visits to an endpoint that does not answer. -/
def sampleVisits : List Visit :=
  [300, 900, 1500, 2100, 2700, 3300].map fun now => ⟨now, now + 10, sampleNet, .error "timed out"⟩

theorem outbox_drains_sampleVisits :
    countWhere (outboxAfter sampleOutside sampleEvent).deliveries
        (fun _ row => row.state = .pending) = 1 ∧
      ∀ (id : String) (row : WebhookDelivery String),
        (outboxAfter sampleOutside
          (sampleEvent ++ sampleVisits.flatMap (drainOnce ()))).deliveries[id]? =
          some row → row.state ≠ .pending := by
  constructor
  · decide +kernel
  · apply outbox_drains sampleOutside sampleEvent sampleVisits 0
    · intro drainer now hsettle
      simp [sampleEvent] at hsettle
    · rfl
    · simp [Spaced, sampleVisits, longestBackoff]
    · decide +kernel

end EntityResolution.Webhooks
