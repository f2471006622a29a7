/-
# The webhook outbox

An event is written down before it is sent: `emit` adds one row to `webhook_deliveries` for every
subscriber. The drainers of the dispatchers take the rows in turn. A drainer claims the oldest row
that is due, looks up the endpoint, asks the URL guard, posts, and settles the row with what came
of it. Each of these is a statement or a call of its own, and a drainer can be lost between any two.

A claim counts the attempt and changes nothing else, so the row stays due and another drainer can
claim it before the first has settled.
-/

import EntityResolution.Foundations.Statements
import EntityResolution.Server.UrlGuard

namespace EntityResolution.Webhooks

open EntityResolution.Collections EntityResolution.Statements EntityResolution.Tables
open EntityResolution.Server (IpAddr Network UrlRejection)

universe u v w

variable {J : Type u} {B : Type v} {D : Type w}

/-- A row of `webhooks` under its id. -/
structure Webhook where
  orgId : String
  url : String
  events : List String
  secret : String
  active : Bool
  createdAt : ℤ
  deriving DecidableEq

inductive DeliveryState
  | pending
  | delivered
  | failed
  deriving DecidableEq

/-- A row of `webhook_deliveries` under its id. -/
structure WebhookDelivery (J : Type u) where
  orgId : String
  datasetId : Option String
  webhookId : String
  eventType : String
  payload : BTreeMap String J
  state : DeliveryState
  attempt : ℕ
  maxAttempts : ℕ
  nextAttemptAt : Option ℤ
  responseCode : Option ℕ
  error : Option String
  deliveredAt : Option ℤ
  createdAt : ℤ

abbrev DeliveryTable (J : Type u) := BTreeMap String (WebhookDelivery J)

/-- `MAX_DELIVERY_ATTEMPTS`. -/
def maxDeliveryAttempts : ℕ := 6

/-- `webhooks_for_delivery`: the org's active webhooks that subscribe to the event, or to all of
them by naming none. -/
def webhooksForDelivery (webhooks : BTreeMap String Webhook) (orgId eventType : String) :
    List (String × Webhook) :=
  (webhooks.toList.filter fun entry =>
    entry.2.orgId = orgId && entry.2.active &&
      (entry.2.events.contains eventType || entry.2.events.isEmpty)).insertionSort
    fun first second => first.2.createdAt ≤ second.2.createdAt

/-- The body of an event. The fields of `data` are put over the first two. -/
def bodyDoc (text : String → J) (eventType orgName : String) (data : BTreeMap String J) :
    BTreeMap String J :=
  data.toList.foldl (fun doc field => doc.insert field.1 field.2)
    (((∅ : BTreeMap String J).insert "event" (text eventType)).insert "org" (text orgName))

/-- The row that `enqueue` adds. -/
def newDelivery (orgId : String) (datasetId : Option String) (webhookId eventType : String)
    (payload : BTreeMap String J) (maxAttempts : ℕ) (now : ℤ) : WebhookDelivery J where
  orgId := orgId
  datasetId := datasetId
  webhookId := webhookId
  eventType := eventType
  payload := payload
  state := .pending
  attempt := 0
  maxAttempts := maxAttempts
  nextAttemptAt := none
  responseCode := none
  error := none
  deliveredAt := none
  createdAt := now

/-- `state = 'pending' AND (next_attempt_at IS NULL OR next_attempt_at <= now())`. -/
def WebhookDelivery.due (now : ℤ) (row : WebhookDelivery J) : Bool :=
  row.state = .pending && row.nextAttemptAt.all fun next => next ≤ now

/-- Of two rows keep the older; of two of one age the one that came first. -/
def keepOldest (best : Option (String × WebhookDelivery J)) (entry : String × WebhookDelivery J) :
    Option (String × WebhookDelivery J) :=
  match best with
  | none => some entry
  | some kept => if entry.2.createdAt < kept.2.createdAt then some entry else best

/-- The row that `claim` picks: `ORDER BY created_at, id`, rows that others lock skipped. -/
def nextDue (now : ℤ) (locked : String → Bool) (deliveries : DeliveryTable J) :
    Option (String × WebhookDelivery J) :=
  (deliveries.toList.filter fun entry => entry.2.due now && !locked entry.1).foldl keepOldest none

/-- `claim`: count the attempt. -/
def claimDelivery (id : String) : Update String (WebhookDelivery J) where
  hit k _ := decide (k = id)
  set _ row := { row with attempt := row.attempt + 1 }

/-- What came of an attempt: the parameters of `settle`. -/
structure Outcome where
  delivered : Bool
  retryable : Bool
  status : Option ℕ
  error : Option String
  deriving DecidableEq

/-- `$retryable AND attempt < max_attempts`. -/
def Outcome.retries (outcome : Outcome) (row : WebhookDelivery J) : Bool :=
  outcome.retryable && decide (row.attempt < row.maxAttempts)

/-- `least(300, 5 * power(2, greatest(attempt - 1, 0)))`, in seconds. -/
def backoff (attempt : ℕ) : ℕ :=
  min 300 (5 * 2 ^ (attempt - 1))

/-- The row that `settle` leaves. -/
def Outcome.settled (outcome : Outcome) (now : ℤ) (row : WebhookDelivery J) : WebhookDelivery J :=
  { row with
    state :=
      if outcome.delivered then .delivered
      else if outcome.retries row then .pending
      else .failed
    nextAttemptAt :=
      if !outcome.delivered && outcome.retries row then some (now + backoff row.attempt)
      else row.nextAttemptAt
    responseCode := outcome.status
    error := outcome.error
    deliveredAt := if outcome.delivered then some now else row.deliveredAt }

/-- `settle`, which has no condition on the state. -/
def settleDelivery (id : String) (outcome : Outcome) (now : ℤ) :
    Update String (WebhookDelivery J) where
  hit k _ := decide (k = id)
  set _ row := outcome.settled now row

/-- The calls that leave this code: serialising a payload, the signature of a body under a secret,
and the texts of a rejected URL. -/
structure Outside (J : Type u) (B : Type v) where
  toVec : BTreeMap String J → B
  sign : String → B → String
  quoted : String → String
  display : IpAddr → String

/-- A body that was posted, and the answer: a status or the error of the transport. -/
structure Post (B : Type v) where
  deliveryId : String
  url : String
  body : B
  signature : String
  answer : Except String ℕ

/-- `(200..300).contains(&code)`. -/
def isSuccess : Except String ℕ → Bool
  | .ok code => decide (200 ≤ code ∧ code < 300)
  | .error _ => false

/-- What came of a post. -/
def classify : Except String ℕ → Outcome
  | .ok code =>
      if 200 ≤ code ∧ code < 300 then ⟨true, false, some code, none⟩
      else ⟨false, decide (code = 408 ∨ code = 429 ∨ (500 ≤ code ∧ code < 600)), some code,
        some ("HTTP " ++ toString code)⟩
  | .error e => ⟨false, true, none, some e⟩

/-- A delivery whose subscription is gone. -/
def unsubscribed : Outcome := ⟨false, false, none, some "the subscription no longer exists"⟩

/-- A delivery whose URL the guard refuses. -/
def refused (outside : Outside J B) (rejection : UrlRejection) : Outcome :=
  ⟨false, false, none, some ("refused: " ++ rejection.message outside.quoted outside.display)⟩

theorem delivered_classify (answer : Except String ℕ) :
    (classify answer).delivered = isSuccess answer := by
  cases answer with
  | error e => rfl
  | ok code =>
      rw [classify, isSuccess]
      split_ifs with hsuccess
      · exact (decide_eq_true hsuccess).symm
      · exact (decide_eq_false hsuccess).symm

/-- How far a drainer is with the row it claimed. -/
inductive Phase
  | claimed
  | located (url secret : String)
  | answered (outcome : Outcome)
  deriving DecidableEq

/-- A drainer's attempt: what the claim returned, and the phase. -/
structure Attempt (J : Type u) where
  deliveryId : String
  webhookId : String
  payload : BTreeMap String J
  phase : Phase

/-- The outbox, what each drainer has in hand, every post that was made, and the deliveries whose
drainer was lost on the way, once for each time. -/
structure Outbox (J : Type u) (B : Type v) (D : Type w) where
  webhooks : BTreeMap String Webhook
  deliveries : DeliveryTable J
  drainers : D → Option (Attempt J)
  posts : List (Post B)
  abandoned : List String

/-- The outbox before the first event. -/
def Outbox.fresh : Outbox J B D := ⟨∅, ∅, fun _ => none, [], []⟩

/-- The steps of the emit sites, of the webhook endpoints and of the drainers. -/
inductive Action (J : Type u) (D : Type w)
  /-- A webhook is registered, changed or deactivated. -/
  | putWebhook (webhookId : String) (webhook : Webhook)
  /-- `enqueue`, for one subscriber of an event. -/
  | enqueue (id orgId : String) (datasetId : Option String) (webhookId eventType : String)
      (payload : BTreeMap String J) (now : ℤ)
  /-- `claim`, while other statements lock the rows of `locked`. -/
  | claim (drainer : D) (now : ℤ) (locked : String → Bool)
  /-- The drainer reads the endpoint. -/
  | locate (drainer : D)
  /-- The guard and the post. -/
  | post (drainer : D) (net : Network) (answer : Except String ℕ)
  | settle (drainer : D) (now : ℤ)
  /-- The drainer is lost, or one of its statements fails. -/
  | lose (drainer : D)

/-- `emit`: one statement for each subscriber. A run may hold any `enqueue` steps, so what holds of
every run holds of those that make their steps here. -/
def emit (text : String → J) (webhooks : BTreeMap String Webhook) (orgId : String)
    (datasetId : Option String) (orgName eventType : String) (data : BTreeMap String J)
    (newV7 : ℕ → String) (now : ℤ) : List (Action J D) :=
  (webhooksForDelivery webhooks orgId eventType).zipIdx.map fun target =>
    .enqueue (newV7 target.2) orgId datasetId target.1.1 eventType
      (bodyDoc text eventType orgName data) now

/-- `webhook_endpoint`: the URL and the secret of a subscription that still exists. -/
def webhookEndpoint (webhooks : BTreeMap String Webhook) (webhookId : String) :
    Option (String × String) :=
  (webhooks[webhookId]?.filter Webhook.active).map fun webhook => (webhook.url, webhook.secret)

section Step

variable [DecidableEq D] (outside : Outside J B)

/-- Put an attempt in a drainer's hand, or take it out. -/
def Outbox.inHand (outbox : Outbox J B D) (drainer : D) (attempt : Option (Attempt J)) :
    Outbox J B D :=
  { outbox with drainers := Function.update outbox.drainers drainer attempt }

def Outbox.step (outbox : Outbox J B D) : Action J D → Outbox J B D
  | .putWebhook webhookId webhook =>
      { outbox with webhooks := outbox.webhooks.insert webhookId webhook }
  | .enqueue id orgId datasetId webhookId eventType payload now =>
      if id ∈ outbox.deliveries ∨ webhookId ∉ outbox.webhooks then outbox
      else
        { outbox with
          deliveries := outbox.deliveries.insert id
            (newDelivery orgId datasetId webhookId eventType payload maxDeliveryAttempts now) }
  | .claim drainer now locked =>
      match outbox.drainers drainer, nextDue now locked outbox.deliveries with
      | none, some (id, row) =>
          { outbox with deliveries := (claimDelivery id).run outbox.deliveries }.inHand drainer
            (some ⟨id, row.webhookId, row.payload, .claimed⟩)
      | _, _ => outbox
  | .locate drainer =>
      match outbox.drainers drainer with
      | some ⟨id, webhookId, payload, .claimed⟩ =>
          outbox.inHand drainer (some ⟨id, webhookId, payload,
            match webhookEndpoint outbox.webhooks webhookId with
            | some (url, secret) => .located url secret
            | none => .answered unsubscribed⟩)
      | _ => outbox
  | .post drainer net answer =>
      match outbox.drainers drainer with
      | some ⟨id, webhookId, payload, .located url secret⟩ =>
          match Server.check net url .guarded with
          | .error rejection =>
              outbox.inHand drainer
                (some ⟨id, webhookId, payload, .answered (refused outside rejection)⟩)
          | .ok () =>
              let body := outside.toVec payload
              { outbox with
                posts := outbox.posts ++
                  [(⟨id, url, body, outside.sign secret body, answer⟩ : Post B)]
              }.inHand drainer (some ⟨id, webhookId, payload, .answered (classify answer)⟩)
      | _ => outbox
  | .settle drainer now =>
      match outbox.drainers drainer with
      | some ⟨id, _, _, .answered outcome⟩ =>
          { outbox with
            deliveries := (settleDelivery id outcome now).run outbox.deliveries
          }.inHand drainer none
      | _ => outbox
  | .lose drainer =>
      match outbox.drainers drainer with
      | some attempt =>
          { outbox with abandoned := outbox.abandoned ++ [attempt.deliveryId] }.inHand drainer none
      | none => outbox

/-! ## What a step changes -/

/-- The attempt in the next phase. -/
def Attempt.at (attempt : Attempt J) (phase : Phase) : Attempt J :=
  { attempt with phase := phase }

/-- What a step can change. -/
inductive Change (outbox : Outbox J B D) : Outbox J B D → Prop
  | putWebhook (webhookId : String) (webhook : Webhook) :
      Change outbox { outbox with webhooks := outbox.webhooks.insert webhookId webhook }
  | enqueue {id : String} (row : WebhookDelivery J) (hnew : id ∉ outbox.deliveries)
      (hpending : row.state = .pending) (hattempt : row.attempt = 0)
      (hmax : row.maxAttempts = maxDeliveryAttempts) :
      Change outbox { outbox with deliveries := outbox.deliveries.insert id row }
  | claim {drainer : D} {id : String} {row : WebhookDelivery J} {now : ℤ}
      (hidle : outbox.drainers drainer = none) (hrow : outbox.deliveries[id]? = some row)
      (hdue : row.due now = true) :
      Change outbox
        ({ outbox with deliveries := (claimDelivery id).run outbox.deliveries }.inHand drainer
          (some ⟨id, row.webhookId, row.payload, .claimed⟩))
  | locate {drainer : D} {attempt : Attempt J} (url secret : String)
      (hhand : outbox.drainers drainer = some attempt) (hphase : attempt.phase = .claimed) :
      Change outbox (outbox.inHand drainer (some (attempt.at (.located url secret))))
  | decline {drainer : D} {attempt : Attempt J} {outcome : Outcome}
      (hhand : outbox.drainers drainer = some attempt)
      (hphase : ∀ outcome, attempt.phase ≠ .answered outcome)
      (hfailed : outcome.delivered = false ∧ outcome.retryable = false) :
      Change outbox (outbox.inHand drainer (some (attempt.at (.answered outcome))))
  | post {drainer : D} {attempt : Attempt J} {url secret : String} (answer : Except String ℕ)
      (hhand : outbox.drainers drainer = some attempt)
      (hphase : attempt.phase = .located url secret) :
      Change outbox
        ({ outbox with
            posts := outbox.posts ++ [(⟨attempt.deliveryId, url, outside.toVec attempt.payload,
              outside.sign secret (outside.toVec attempt.payload), answer⟩ : Post B)] }.inHand
          drainer (some (attempt.at (.answered (classify answer)))))
  | settle {drainer : D} {attempt : Attempt J} {outcome : Outcome} (now : ℤ)
      (hhand : outbox.drainers drainer = some attempt)
      (hphase : attempt.phase = .answered outcome) :
      Change outbox
        ({ outbox with
            deliveries :=
              (settleDelivery attempt.deliveryId outcome now).run outbox.deliveries }.inHand
          drainer none)
  | lose {drainer : D} {attempt : Attempt J} (hhand : outbox.drainers drainer = some attempt) :
      Change outbox
        ({ outbox with abandoned := outbox.abandoned ++ [attempt.deliveryId] }.inHand drainer none)

theorem isSome_foldl_keepOldest (best : Option (String × WebhookDelivery J))
    (entries : List (String × WebhookDelivery J)) (hbest : best.isSome = true) :
    (entries.foldl keepOldest best).isSome = true := by
  induction entries generalizing best with
  | nil => exact hbest
  | cons entry entries ih =>
      apply ih
      cases best with
      | none => rfl
      | some kept =>
          rw [keepOldest]
          split <;> rfl

theorem nextDue_sound {now : ℤ} {locked : String → Bool} {deliveries : DeliveryTable J}
    {entry : String × WebhookDelivery J} (hnext : nextDue now locked deliveries = some entry) :
    deliveries[entry.1]? = some entry.2 ∧ entry.2.due now = true := by
  have hmem : entry ∈ deliveries.toList.filter fun entry =>
      entry.2.due now && !locked entry.1 := by
    have hchoose (best : Option (String × WebhookDelivery J))
        (next : String × WebhookDelivery J) :
        keepOldest best next = some next ∨ keepOldest best next = best := by
      cases best with
      | none => exact .inl rfl
      | some kept =>
          rw [keepOldest]
          split
          · exact .inl rfl
          · exact .inr rfl
    cases mem_of_foldl_choose hchoose hnext with
    | inl hmem => exact hmem
    | inr hnone => cases hnone
  rw [List.mem_filter, Bool.and_eq_true] at hmem
  exact ⟨BTreeMap.mem_toList.mp hmem.1, hmem.2.1⟩

theorem nextDue_eq_none_iff {now : ℤ} {locked : String → Bool} {deliveries : DeliveryTable J} :
    nextDue now locked deliveries = none ↔ ∀ (id : String) (row : WebhookDelivery J),
      deliveries[id]? = some row → locked id = false → row.due now = false := by
  have hempty : nextDue now locked deliveries = none ↔ (deliveries.toList.filter fun entry =>
      entry.2.due now && !locked entry.1) = [] := by
    rw [nextDue]
    cases deliveries.toList.filter fun entry => entry.2.due now && !locked entry.1 with
    | nil => exact Iff.intro (fun _ => rfl) fun _ => rfl
    | cons entry entries =>
        apply iff_of_false
        · have hsome := isSome_foldl_keepOldest (some entry) entries rfl
          intro hnone
          rw [List.foldl_cons, keepOldest] at hnone
          rw [hnone] at hsome
          cases hsome
        · exact List.cons_ne_nil _ _
  rw [hempty, List.filter_eq_nil_iff]
  simp only [Bool.and_eq_true, Bool.not_eq_true', not_and, Bool.not_eq_false]
  constructor
  · intro hnone id row hrow hfree
    by_contra hdue
    have hlocked := hnone (id, row) (BTreeMap.mem_toList.mpr hrow) (by simpa using hdue)
    rw [hfree] at hlocked
    cases hlocked
  · intro hnone entry hentry hdue
    by_contra hfree
    have hnot := hnone entry.1 entry.2 (BTreeMap.mem_toList.mp hentry) (by simpa using hfree)
    rw [hdue] at hnot
    cases hnot

/-- A step changes nothing, or makes one of the changes. -/
theorem step_cases (outbox : Outbox J B D) (action : Action J D) :
    outbox.step outside action = outbox ∨
      Change outside outbox (outbox.step outside action) := by
  cases action with
  | putWebhook webhookId webhook => exact .inr (.putWebhook webhookId webhook)
  | enqueue id orgId datasetId webhookId eventType payload now =>
      rw [Outbox.step]
      split_ifs with hskip
      · exact .inl rfl
      · exact .inr (.enqueue _ (not_or.mp hskip).1 rfl rfl rfl)
  | claim drainer now locked =>
      rw [Outbox.step]
      split
      · next id row hidle hnext =>
          obtain ⟨hrow, hdue⟩ := nextDue_sound hnext
          exact .inr (.claim hidle hrow hdue)
      · exact .inl rfl
  | locate drainer =>
      rw [Outbox.step]
      split
      · next id webhookId payload hhand =>
          right
          cases webhookEndpoint outbox.webhooks webhookId with
          | some endpoint => exact .locate endpoint.1 endpoint.2 hhand rfl
          | none => exact .decline hhand (fun _ hphase => by cases hphase) ⟨rfl, rfl⟩
      · exact .inl rfl
  | post drainer net answer =>
      rw [Outbox.step]
      split
      · next id webhookId payload url secret hhand =>
          right
          split
          · exact .decline hhand (fun _ hphase => by cases hphase) ⟨rfl, rfl⟩
          · exact .post answer hhand rfl
      · exact .inl rfl
  | settle drainer now =>
      rw [Outbox.step]
      split
      · next id webhookId payload outcome hhand => exact .inr (.settle now hhand rfl)
      · exact .inl rfl
  | lose drainer =>
      rw [Outbox.step]
      split
      · next attempt hhand => exact .inr (.lose hhand)
      · exact .inl rfl

end Step

end EntityResolution.Webhooks
