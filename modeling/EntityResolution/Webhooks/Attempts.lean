/-
# How often a delivery is attempted

One row of the outbox, with the drainers that have it in hand and those that were lost with it, is
an item of `RetriedItems`: every change of the outbox is a step of that item or leaves it alone. The
bound on the tries of an item is therefore one on the claims of a row, and a row is posted at most
once for each claim.

With one drainer a row is held only while it is pending, and the ledger is honest: a row ends as
delivered when its subscriber accepted the event, and a subscriber that accepted twice did so
because a drainer was lost between an answer and its `settle`.
-/

import EntityResolution.Foundations.RetriedItems
import EntityResolution.Webhooks.Outbox

namespace EntityResolution.Webhooks

open EntityResolution.Collections EntityResolution.Statements EntityResolution.Tables
open EntityResolution.RetriedItems

universe u v w

variable {J : Type u} {B : Type v} {D : Type w} [DecidableEq D] {outside : Outside J B}

/-- The outbox after a run from its first event. -/
def outboxAfter (outside : Outside J B) (actions : List (Action J D)) : Outbox J B D :=
  actions.foldl (Outbox.step outside) Outbox.fresh

/-- The posts of a delivery. -/
def Outbox.postsOf (outbox : Outbox J B D) (id : String) : List (Post B) :=
  outbox.posts.filter fun post => post.deliveryId = id

/-- The posts of a delivery that its subscriber accepted. -/
def Outbox.acceptedOf (outbox : Outbox J B D) (id : String) : List (Post B) :=
  (outbox.postsOf id).filter fun post => isSuccess post.answer

/-- How often a drainer was lost with a delivery in hand. -/
def Outbox.abandonedOf (outbox : Outbox J B D) (id : String) : ℕ :=
  outbox.abandoned.count id

/-- The attempt is one of the delivery. -/
def Attempt.isOf (id : String) (attempt : Attempt J) : Bool :=
  decide (attempt.deliveryId = id)

/-- The attempt is one of the delivery and has not posted it yet. -/
def Attempt.unposted (id : String) (attempt : Attempt J) : Bool :=
  decide (attempt.deliveryId = id) && !attempt.phase matches .answered _

/-- The attempt is one of the delivery, and the subscriber accepted it. -/
def Attempt.accepted (id : String) (attempt : Attempt J) : Bool :=
  decide (attempt.deliveryId = id) && match attempt.phase with
    | .answered outcome => outcome.delivered
    | _ => false

/-- A row as an item that is retried. -/
def Outbox.itemOf [Fintype D] (outbox : Outbox J B D) (id : String) (row : WebhookDelivery J) :
    Item where
  offered := row.state = .pending
  taken := row.attempt
  held := countHands (Attempt.isOf id) outbox.drainers
  lost := outbox.abandonedOf id

/-- The ids a drainer has in hand, was lost with or posted are ids of rows. -/
structure Outbox.Known (outbox : Outbox J B D) : Prop where
  held : ∀ drainer attempt, outbox.drainers drainer = some attempt →
    attempt.deliveryId ∈ outbox.deliveries
  lost : ∀ id ∈ outbox.abandoned, id ∈ outbox.deliveries
  posted : ∀ post ∈ outbox.posts, post.deliveryId ∈ outbox.deliveries

section Updates

variable {deliveries : DeliveryTable J} {id : String} {row : WebhookDelivery J} (other : String)

theorem getElem?_claimDelivery (hrow : deliveries[id]? = some row) :
    ((claimDelivery other).run deliveries)[id]? =
      some (if id = other then { row with attempt := row.attempt + 1 } else row) := by
  rw [Update.getElem?_run, hrow, Option.map_some, Update.row]
  simp [claimDelivery]

theorem getElem?_settleDelivery (outcome : Outcome) (now : ℤ)
    (hrow : deliveries[id]? = some row) :
    ((settleDelivery other outcome now).run deliveries)[id]? =
      some (if id = other then outcome.settled now row else row) := by
  rw [Update.getElem?_run, hrow, Option.map_some, Update.row]
  simp [settleDelivery]

end Updates

/-- No change takes a row away. -/
theorem Change.keeps_rows {outbox next : Outbox J B D} (hchange : Change outside outbox next)
    {id : String} (hid : id ∈ outbox.deliveries) : id ∈ next.deliveries := by
  cases hchange with
  | putWebhook => exact hid
  | enqueue row hnew => exact BTreeMap.mem_insert_iff.mpr (.inr hid)
  | claim => exact Update.mem_run.mpr hid
  | locate => exact hid
  | decline => exact hid
  | post => exact hid
  | settle => exact Update.mem_run.mpr hid
  | lose => exact hid

theorem mem_of_inHand {outbox : Outbox J B D} {rows : DeliveryTable J} {drainer other : D}
    {hand : Option (Attempt J)} {attempt : Attempt J}
    (hrows : ∀ id ∈ outbox.deliveries, id ∈ rows) (hknown : outbox.Known)
    (hnew : ∀ attempt, hand = some attempt → attempt.deliveryId ∈ rows)
    (hhand : Function.update outbox.drainers drainer hand other = some attempt) :
    attempt.deliveryId ∈ rows := by
  by_cases hsame : other = drainer
  · rw [hsame, Function.update_self] at hhand
    exact hnew attempt hhand
  · rw [Function.update_of_ne hsame] at hhand
    exact hrows _ (hknown.held other attempt hhand)

theorem Change.known {outbox next : Outbox J B D} (hchange : Change outside outbox next)
    (hknown : outbox.Known) : next.Known := by
  have hrows : ∀ id ∈ outbox.deliveries, id ∈ next.deliveries := fun id => hchange.keeps_rows
  have hstill {drainer : D} {hand : Option (Attempt J)}
      (hnew : ∀ attempt, hand = some attempt → attempt.deliveryId ∈ next.deliveries) (other : D)
      (attempt : Attempt J)
      (hhand : Function.update outbox.drainers drainer hand other = some attempt) :
      attempt.deliveryId ∈ next.deliveries :=
    mem_of_inHand hrows hknown hnew hhand
  have hlost : ∀ id ∈ outbox.abandoned, id ∈ next.deliveries :=
    fun id hid => hrows id (hknown.lost id hid)
  have hposted : ∀ post ∈ outbox.posts, post.deliveryId ∈ next.deliveries :=
    fun post hpost => hrows _ (hknown.posted post hpost)
  cases hchange with
  | putWebhook => exact ⟨hknown.held, hknown.lost, hknown.posted⟩
  | enqueue =>
      refine ⟨?_, hlost, hposted⟩
      intro drainer attempt hhand
      exact hrows _ (hknown.held drainer attempt hhand)
  | claim hidle hrow hdue =>
      refine ⟨hstill ?_, hlost, hposted⟩
      intro attempt hattempt
      cases hattempt
      exact Update.mem_run.mpr (BTreeMap.mem_iff_exists_getElem?.mpr ⟨_, hrow⟩)
  | locate url secret hhand =>
      refine ⟨hstill ?_, hlost, hposted⟩
      intro attempt hattempt
      cases hattempt
      have hheld := hknown.held _ _ hhand
      exact hheld
  | decline hhand =>
      refine ⟨hstill ?_, hlost, hposted⟩
      intro attempt hattempt
      cases hattempt
      have hheld := hknown.held _ _ hhand
      exact hheld
  | post answer hhand =>
      refine ⟨hstill ?_, hlost, ?_⟩
      · intro attempt hattempt
        cases hattempt
        have hheld := hknown.held _ _ hhand
        exact hheld
      · intro post hpost
        cases List.mem_append.mp hpost with
        | inl hold => exact hknown.posted post hold
        | inr hnew =>
            rw [List.mem_singleton.mp hnew]
            exact hknown.held _ _ hhand
  | settle now hhand =>
      refine ⟨hstill ?_, hlost, hposted⟩
      intro attempt hattempt
      cases hattempt
  | lose hhand =>
      refine ⟨hstill ?_, ?_, hposted⟩
      · intro attempt hattempt
        cases hattempt
      · intro id hid
        cases List.mem_append.mp hid with
        | inl hold => exact hknown.lost id hold
        | inr hnew =>
            rw [List.mem_singleton.mp hnew]
            exact hknown.held _ _ hhand

section Items

variable [Fintype D] {outbox next : Outbox J B D} {id : String} {row : WebhookDelivery J}

/-- A hand that changes phase only is counted as before. -/
theorem countHands_at (drainers : D → Option (Attempt J)) {drainer : D} {attempt : Attempt J}
    (hhand : drainers drainer = some attempt) (phase : Phase) :
    countHands (Attempt.isOf id) (Function.update drainers drainer (some (attempt.at phase))) =
      countHands (Attempt.isOf id) drainers := by
  have hcount := countHands_update (Attempt.isOf id) drainers drainer (some (attempt.at phase))
  rw [hhand] at hcount
  exact Nat.add_right_cancel hcount

/-- A row that is new is an item that is new. -/
theorem Change.new_row (hchange : Change outside outbox next) (hknown : outbox.Known)
    (hnone : id ∉ outbox.deliveries) (hrow : next.deliveries[id]? = some row) :
    next.itemOf id row = ⟨true, 0, 0, 0⟩ ∧ row.maxAttempts = maxDeliveryAttempts ∧
      next.postsOf id = [] := by
  have hmem : id ∈ next.deliveries := BTreeMap.mem_iff_exists_getElem?.mpr ⟨row, hrow⟩
  cases hchange with
  | enqueue new hnew hpending hattempt hmax =>
      rename_i newId
      have hid : newId = id := by
        by_contra hne
        cases BTreeMap.mem_insert_iff.mp hmem with
        | inl hsame => exact hne hsame
        | inr hold => exact hnone hold
      subst hid
      rw [BTreeMap.getElem?_insert_eq_ite, if_pos rfl] at hrow
      cases hrow
      have hheld : countHands (Attempt.isOf newId) outbox.drainers = 0 := by
        rw [countHands_eq_zero_iff]
        intro drainer attempt hhand
        have hin := hknown.held drainer attempt hhand
        apply decide_eq_false
        intro hsame
        rw [hsame] at hin
        exact hnone hin
      have hlost : outbox.abandoned.count newId = 0 :=
        List.count_eq_zero_of_not_mem fun hin => hnone (hknown.lost newId hin)
      refine ⟨?_, hmax, ?_⟩
      · simp only [Outbox.itemOf, Outbox.abandonedOf, hpending, hattempt, hheld, hlost, decide_true]
      · rw [Outbox.postsOf, List.filter_eq_nil_iff]
        intro post hpost hsame
        have hin := hknown.posted post hpost
        rw [of_decide_eq_true hsame] at hin
        exact hnone hin
  | putWebhook => exact absurd hmem hnone
  | claim => exact absurd (Update.mem_run.mp hmem) hnone
  | locate => exact absurd hmem hnone
  | decline => exact absurd hmem hnone
  | post => exact absurd hmem hnone
  | settle => exact absurd (Update.mem_run.mp hmem) hnone
  | lose => exact absurd hmem hnone

theorem countHands_of_ne (outbox : Outbox J B D) {drainer : D} (hand : Option (Attempt J))
    (hold : (outbox.drainers drainer).any (Attempt.isOf id) = false)
    (hnew : hand.any (Attempt.isOf id) = false) :
    countHands (Attempt.isOf id) (Function.update outbox.drainers drainer hand) =
      countHands (Attempt.isOf id) outbox.drainers := by
  have hcount := countHands_update (Attempt.isOf id) outbox.drainers drainer hand
  rw [hold, hnew] at hcount
  exact Nat.add_right_cancel hcount

/-- The hand of a delivery that is emptied. -/
theorem countHands_emptied {drainer : D} {attempt : Attempt J}
    (hhand : outbox.drainers drainer = some attempt) (hid : attempt.deliveryId = id) :
    countHands (Attempt.isOf id) outbox.drainers =
      countHands (Attempt.isOf id) (Function.update outbox.drainers drainer none) + 1 := by
  have hcount := countHands_update (Attempt.isOf id) outbox.drainers drainer none
  have hone : ((some attempt).any (Attempt.isOf id)).toNat = 1 := by
    rw [Option.any_some, Attempt.isOf, decide_eq_true hid]
    rfl
  rw [hhand, hone] at hcount
  exact hcount.symm

/-- What settling makes of the item is a step of it. -/
theorem step_settled {outcome : Outcome} {now : ℤ} {held lost : ℕ} :
    Step row.maxAttempts ⟨row.state = .pending, row.attempt, held + 1, lost⟩
      ⟨(outcome.settled now row).state = .pending, row.attempt, held, lost⟩ := by
  cases hdelivered : outcome.delivered with
  | true => simpa [Outcome.settled, hdelivered] using Step.settle
  | false =>
      cases hretries : outcome.retries row with
      | false => simpa [Outcome.settled, hdelivered, hretries] using Step.settle
      | true =>
          have hbelow : row.attempt < row.maxAttempts := by
            rw [Outcome.retries, Bool.and_eq_true] at hretries
            exact of_decide_eq_true hretries.2
          simpa [Outcome.settled, hdelivered, hretries] using Step.retry hbelow

/-- Every change is a step of each item, or leaves it alone. -/
theorem Change.old_row (hchange : Change outside outbox next)
    (hrow : outbox.deliveries[id]? = some row) :
    ∃ later, next.deliveries[id]? = some later ∧ later.maxAttempts = row.maxAttempts ∧
      later.payload = row.payload ∧
      (next.itemOf id later = outbox.itemOf id row ∨
        Step row.maxAttempts (outbox.itemOf id row) (next.itemOf id later)) := by
  cases hchange with
  | putWebhook => exact ⟨row, hrow, rfl, rfl, .inl rfl⟩
  | enqueue new hnew hpending hattempt hmax =>
      rename_i newId
      have hne : newId ≠ id := by
        intro hsame
        rw [hsame] at hnew
        exact hnew (BTreeMap.mem_iff_exists_getElem?.mpr ⟨row, hrow⟩)
      refine ⟨row, ?_, rfl, rfl, .inl rfl⟩
      rw [BTreeMap.getElem?_insert_eq_ite, if_neg hne]
      exact hrow
  | claim hidle hclaimed hdue =>
      rename_i drainer claimedId claimed now
      refine ⟨_, getElem?_claimDelivery _ hrow, ?_⟩
      by_cases hid : id = claimedId
      · subst hid
        rw [hrow] at hclaimed
        cases hclaimed
        rw [if_pos rfl]
        have hpending : row.state = .pending := by
          rw [WebhookDelivery.due, Bool.and_eq_true] at hdue
          exact of_decide_eq_true hdue.1
        have hheld := countHands_update (Attempt.isOf id) outbox.drainers drainer
          (some ⟨id, row.webhookId, row.payload, .claimed⟩)
        have hone : ((some (⟨id, row.webhookId, row.payload, .claimed⟩ : Attempt J)).any
            (Attempt.isOf id)).toNat = 1 := by
          simp [Attempt.isOf]
        rw [hidle, hone] at hheld
        refine ⟨rfl, rfl, .inr ?_⟩
        simp only [Outbox.itemOf, Outbox.inHand, Outbox.abandonedOf, hpending, decide_true]
        rw [show countHands (Attempt.isOf id) (Function.update outbox.drainers drainer
            (some ⟨id, row.webhookId, row.payload, .claimed⟩)) =
          countHands (Attempt.isOf id) outbox.drainers + 1 from hheld]
        exact Step.take
      · rw [if_neg hid]
        refine ⟨rfl, rfl, .inl ?_⟩
        have hheld := countHands_of_ne outbox
          (some ⟨claimedId, claimed.webhookId, claimed.payload, .claimed⟩)
          (by rw [hidle]; rfl) (decide_eq_false (Ne.symm hid))
        simp only [Outbox.itemOf, Outbox.inHand, Outbox.abandonedOf, hheld]
  | locate url secret hhand =>
      refine ⟨row, hrow, rfl, rfl, .inl ?_⟩
      simp only [Outbox.itemOf, Outbox.inHand, Outbox.abandonedOf, countHands_at _ hhand]
  | decline hhand =>
      refine ⟨row, hrow, rfl, rfl, .inl ?_⟩
      simp only [Outbox.itemOf, Outbox.inHand, Outbox.abandonedOf, countHands_at _ hhand]
  | post answer hhand =>
      refine ⟨row, hrow, rfl, rfl, .inl ?_⟩
      simp only [Outbox.itemOf, Outbox.inHand, Outbox.abandonedOf, countHands_at _ hhand]
  | settle now hhand =>
      rename_i drainer attempt outcome hphase
      refine ⟨_, getElem?_settleDelivery _ _ _ hrow, ?_⟩
      by_cases hid : id = attempt.deliveryId
      · rw [if_pos hid]
        refine ⟨rfl, rfl, .inr ?_⟩
        simp only [Outbox.itemOf, Outbox.inHand, Outbox.abandonedOf,
          countHands_emptied hhand hid.symm]
        exact step_settled
      · rw [if_neg hid]
        refine ⟨rfl, rfl, .inl ?_⟩
        have hother : (outbox.drainers drainer).any (Attempt.isOf id) = false := by
          rw [hhand]
          exact decide_eq_false (Ne.symm hid)
        have hheld := countHands_of_ne outbox none hother rfl
        simp only [Outbox.itemOf, Outbox.inHand, Outbox.abandonedOf, hheld]
  | lose hhand =>
      rename_i drainer attempt
      refine ⟨row, hrow, rfl, rfl, ?_⟩
      by_cases hid : attempt.deliveryId = id
      · right
        simp only [Outbox.itemOf, Outbox.inHand, Outbox.abandonedOf, countHands_emptied hhand hid,
          hid, List.count_append, List.count_singleton_self]
        exact Step.lose
      · left
        have hother : (outbox.drainers drainer).any (Attempt.isOf id) = false := by
          rw [hhand]
          exact decide_eq_false hid
        have hheld := countHands_of_ne outbox none hother rfl
        have hcount : [attempt.deliveryId].count id = 0 :=
          List.count_eq_zero_of_not_mem fun hin => hid (List.mem_singleton.mp hin).symm
        simp only [Outbox.itemOf, Outbox.inHand, Outbox.abandonedOf, hheld, List.count_append,
          hcount, Nat.add_zero]

/-! ## Posts -/

omit [DecidableEq D] [Fintype D] in
theorem length_postsOf_append (outbox : Outbox J B D) (id : String) (post : Post B) :
    ({ outbox with posts := outbox.posts ++ [post] }.postsOf id).length =
      (outbox.postsOf id).length + if post.deliveryId = id then 1 else 0 := by
  rw [Outbox.postsOf, List.filter_append, List.length_append, Outbox.postsOf]
  by_cases hid : post.deliveryId = id <;> simp [hid]

/-- Every post of a row was preceded by a claim of its own. -/
theorem Change.posted {later : WebhookDelivery J} (hchange : Change outside outbox next)
    (hrow : outbox.deliveries[id]? = some row) (hlater : next.deliveries[id]? = some later)
    (hposted : (outbox.postsOf id).length + countHands (Attempt.unposted id) outbox.drainers ≤
      row.attempt) :
    (next.postsOf id).length + countHands (Attempt.unposted id) next.drainers ≤ later.attempt := by
  have hcount (drainer : D) (hand : Option (Attempt J)) :=
    countHands_update (Attempt.unposted id) outbox.drainers drainer hand
  have hnone : ((none : Option (Attempt J)).any (Attempt.unposted id)).toNat = 0 := rfl
  cases hchange with
  | putWebhook =>
      cases hrow.symm.trans hlater
      exact hposted
  | enqueue new hnew hpending hattempt hmax =>
      rename_i newId
      rw [BTreeMap.getElem?_insert_eq_ite] at hlater
      have hne : newId ≠ id := by
        intro hsame
        rw [hsame] at hnew
        exact hnew (BTreeMap.mem_iff_exists_getElem?.mpr ⟨row, hrow⟩)
      rw [if_neg hne, hrow] at hlater
      cases hlater
      exact hposted
  | claim hidle hclaimed hdue =>
      rename_i drainer claimedId claimed now
      have hhand := hcount drainer (some ⟨claimedId, claimed.webhookId, claimed.payload, .claimed⟩)
      rw [hidle, hnone] at hhand
      cases (getElem?_claimDelivery claimedId hrow).symm.trans hlater
      by_cases hid : id = claimedId
      · have hone : ((some (⟨claimedId, claimed.webhookId, claimed.payload, .claimed⟩ :
            Attempt J)).any (Attempt.unposted id)).toNat ≤ 1 := Bool.toNat_le _
        have hless : (outbox.postsOf id).length + countHands (Attempt.unposted id)
            (Function.update outbox.drainers drainer
              (some ⟨claimedId, claimed.webhookId, claimed.payload, .claimed⟩)) ≤
              row.attempt + 1 := by
          omega
        rw [if_pos hid]
        exact hless
      · have hzero : ((some (⟨claimedId, claimed.webhookId, claimed.payload, .claimed⟩ :
            Attempt J)).any (Attempt.unposted id)).toNat = 0 := by
          simp [Attempt.unposted, Ne.symm hid]
        have hsame : (outbox.postsOf id).length + countHands (Attempt.unposted id)
            (Function.update outbox.drainers drainer
              (some ⟨claimedId, claimed.webhookId, claimed.payload, .claimed⟩)) ≤
              row.attempt := by
          omega
        rw [if_neg hid]
        exact hsame
  | locate url secret hhand hphase =>
      rename_i drainer attempt
      cases hrow.symm.trans hlater
      have hsame := hcount drainer (some (attempt.at (.located url secret)))
      have hold : (some attempt).any (Attempt.unposted id) =
          (some (attempt.at (.located url secret))).any (Attempt.unposted id) := by
        simp [Attempt.unposted, Attempt.at, hphase]
      rw [hhand, hold] at hsame
      rw [← Nat.add_right_cancel hsame] at hposted
      exact hposted
  | decline hhand hphase hfailed =>
      rename_i drainer attempt outcome
      cases hrow.symm.trans hlater
      have hless := hcount drainer (some (attempt.at (.answered outcome)))
      have hzero : ((some (attempt.at (.answered outcome))).any
          (Attempt.unposted id)).toNat = 0 := by
        simp [Attempt.unposted, Attempt.at]
      have hgoal : (outbox.postsOf id).length + countHands (Attempt.unposted id)
          (Function.update outbox.drainers drainer (some (attempt.at (.answered outcome)))) ≤
            row.attempt := by
        omega
      exact hgoal
  | post answer hhand hphase =>
      rename_i drainer attempt url secret
      cases hrow.symm.trans hlater
      have hless := hcount drainer (some (attempt.at (.answered (classify answer))))
      have hzero : ((some (attempt.at (.answered (classify answer)))).any
          (Attempt.unposted id)).toNat = 0 := by
        simp [Attempt.unposted, Attempt.at]
      have hold : ((some attempt).any (Attempt.unposted id)).toNat =
          if attempt.deliveryId = id then 1 else 0 := by
        by_cases hid : attempt.deliveryId = id <;> simp [Attempt.unposted, hid, hphase]
      rw [hhand, hold, hzero] at hless
      have hposts := length_postsOf_append outbox id
        ⟨attempt.deliveryId, url, outside.toVec attempt.payload,
          outside.sign secret (outside.toVec attempt.payload), answer⟩
      dsimp only at hposts
      have hgoal : ({ outbox with posts := outbox.posts ++ [(⟨attempt.deliveryId, url,
          outside.toVec attempt.payload, outside.sign secret (outside.toVec attempt.payload),
          answer⟩ : Post B)] }.postsOf id).length + countHands (Attempt.unposted id)
            (Function.update outbox.drainers drainer
              (some (attempt.at (.answered (classify answer))))) ≤ row.attempt := by
        rw [hposts]
        omega
      exact hgoal
  | settle now hhand hphase =>
      rename_i drainer attempt outcome
      have hless := hcount drainer none
      have hattempt : later.attempt = row.attempt := by
        cases (getElem?_settleDelivery attempt.deliveryId outcome now hrow).symm.trans hlater
        split <;> rfl
      have hgoal : (outbox.postsOf id).length + countHands (Attempt.unposted id)
          (Function.update outbox.drainers drainer none) ≤ later.attempt := by
        omega
      exact hgoal
  | lose hhand =>
      rename_i drainer attempt
      cases hrow.symm.trans hlater
      have hless := hcount drainer none
      have hgoal : (outbox.postsOf id).length + countHands (Attempt.unposted id)
          (Function.update outbox.drainers drainer none) ≤ row.attempt := by
        omega
      exact hgoal

/-- What is in hand, and what was posted, is the payload of the row. -/
structure Outbox.Faithful (outside : Outside J B) (outbox : Outbox J B D) : Prop where
  held : ∀ drainer attempt row, outbox.drainers drainer = some attempt →
    outbox.deliveries[attempt.deliveryId]? = some row → attempt.payload = row.payload
  posted : ∀ post ∈ outbox.posts, ∀ row, outbox.deliveries[post.deliveryId]? = some row →
    post.body = outside.toVec row.payload ∧
      ∃ secret, post.signature = outside.sign secret post.body

theorem Change.faithful (hchange : Change outside outbox next) (hknown : outbox.Known)
    (hfaithful : outbox.Faithful outside) : next.Faithful outside := by
  -- a row that a drainer has in hand was there before, with the payload it has now
  have hbefore {id : String} {row : WebhookDelivery J} (hid : id ∈ outbox.deliveries)
      (hrow : next.deliveries[id]? = some row) :
      ∃ old, outbox.deliveries[id]? = some old ∧ row.payload = old.payload := by
    obtain ⟨old, hold⟩ := BTreeMap.mem_iff_exists_getElem?.mp hid
    obtain ⟨later, hlater, -, hpayload, -⟩ := hchange.old_row hold
    cases hlater.symm.trans hrow
    exact ⟨old, hold, hpayload⟩
  have hheld (drainer : D) (attempt : Attempt J) (row : WebhookDelivery J)
      (hhand : outbox.drainers drainer = some attempt)
      (hrow : next.deliveries[attempt.deliveryId]? = some row) :
      attempt.payload = row.payload := by
    obtain ⟨old, hold, hpayload⟩ := hbefore (hknown.held drainer attempt hhand) hrow
    rw [hpayload]
    exact hfaithful.held drainer attempt old hhand hold
  have hstill {drainer : D} {hand : Option (Attempt J)}
      (hnew : ∀ attempt row, hand = some attempt →
        next.deliveries[attempt.deliveryId]? = some row → attempt.payload = row.payload)
      (other : D) (attempt : Attempt J) (row : WebhookDelivery J)
      (hhand : Function.update outbox.drainers drainer hand other = some attempt)
      (hrow : next.deliveries[attempt.deliveryId]? = some row) :
      attempt.payload = row.payload := by
    by_cases hsame : other = drainer
    · rw [hsame, Function.update_self] at hhand
      exact hnew attempt row hhand hrow
    · rw [Function.update_of_ne hsame] at hhand
      exact hheld other attempt row hhand hrow
  have hposted : ∀ post ∈ outbox.posts, ∀ row, next.deliveries[post.deliveryId]? = some row →
      post.body = outside.toVec row.payload ∧
        ∃ secret, post.signature = outside.sign secret post.body := by
    intro post hpost row hrow
    obtain ⟨old, hold, hpayload⟩ := hbefore (hknown.posted post hpost) hrow
    rw [hpayload]
    exact hfaithful.posted post hpost old hold
  cases hchange with
  | putWebhook => exact ⟨hfaithful.held, hfaithful.posted⟩
  | enqueue => exact ⟨hheld, hposted⟩
  | claim hidle hrow hdue =>
      refine ⟨hstill ?_, hposted⟩
      intro attempt later hattempt hlater
      cases hattempt
      obtain ⟨old, hold, hpayload⟩ :=
        hbefore (BTreeMap.mem_iff_exists_getElem?.mpr ⟨_, hrow⟩) hlater
      cases hold.symm.trans hrow
      exact hpayload.symm
  | locate url secret hhand =>
      refine ⟨hstill ?_, hposted⟩
      intro attempt later hattempt hlater
      cases hattempt
      have hsame := hheld _ _ later hhand hlater
      exact hsame
  | decline hhand =>
      refine ⟨hstill ?_, hposted⟩
      intro attempt later hattempt hlater
      cases hattempt
      have hsame := hheld _ _ later hhand hlater
      exact hsame
  | post answer hhand =>
      rename_i drainer attempt url secret hphase
      refine ⟨hstill ?_, ?_⟩
      · intro taken later htaken hlater
        cases htaken
        have hsame := hheld _ _ later hhand hlater
        exact hsame
      · intro post hpost row hrow
        cases List.mem_append.mp hpost with
        | inl hold => exact hposted post hold row hrow
        | inr hnew =>
            cases List.mem_singleton.mp hnew
            have hsame := hheld drainer attempt row hhand hrow
            rw [← hsame]
            exact ⟨rfl, secret, rfl⟩
  | settle now hhand =>
      refine ⟨hstill ?_, hposted⟩
      intro attempt later hattempt
      cases hattempt
  | lose hhand =>
      refine ⟨hstill ?_, hposted⟩
      intro attempt later hattempt
      cases hattempt

/-- What a reachable outbox has of one row. -/
structure Outbox.RowSound (outbox : Outbox J B D) (id : String)
    (row : WebhookDelivery J) : Prop where
  limit : row.maxAttempts = maxDeliveryAttempts
  bounded : (outbox.itemOf id row).Bounded row.maxAttempts (Fintype.card D)
  posted : (outbox.postsOf id).length + countHands (Attempt.unposted id) outbox.drainers ≤
    row.attempt

/-- What a reachable outbox has. -/
structure Outbox.Sound (outside : Outside J B) (outbox : Outbox J B D) : Prop where
  known : outbox.Known
  faithful : outbox.Faithful outside
  rows : ∀ id row, outbox.deliveries[id]? = some row → outbox.RowSound id row

theorem Change.sound (hchange : Change outside outbox next) (hsound : outbox.Sound outside) :
    next.Sound outside := by
  refine ⟨hchange.known hsound.known, hchange.faithful hsound.known hsound.faithful, ?_⟩
  intro id later hlater
  cases hold : outbox.deliveries[id]? with
  | none =>
      have hnone : id ∉ outbox.deliveries := by
        rw [BTreeMap.mem_iff_exists_getElem?, hold]
        simp
      obtain ⟨hitem, hlimit, hposts⟩ := hchange.new_row hsound.known hnone hlater
      refine ⟨hlimit, ?_, ?_⟩
      · rw [hitem, hlimit]
        exact bounded_new (by decide)
      · have hattempt : later.attempt = 0 := congrArg Item.taken hitem
        have hheld : countHands (Attempt.isOf id) next.drainers = 0 := congrArg Item.held hitem
        have hunposted : countHands (Attempt.unposted id) next.drainers = 0 := by
          apply countHands_eq_zero_of_imp _ _ hheld
          intro attempt hattempt
          rw [Attempt.unposted, Bool.and_eq_true] at hattempt
          exact hattempt.1
        rw [hposts, hunposted]
        exact Nat.zero_le _
  | some row =>
      have hrow := hsound.rows id row hold
      obtain ⟨found, hfound, hmax, -, hitem⟩ := hchange.old_row hold
      cases hfound.symm.trans hlater
      refine ⟨hmax.trans hrow.limit, ?_, hchange.posted hold hlater hrow.posted⟩
      rw [hmax]
      cases hitem with
      | inl hsame =>
          rw [hsame]
          exact hrow.bounded
      | inr hstep => exact hstep.bounded (countHands_le_card _ _) hrow.bounded

omit [DecidableEq D] in
theorem sound_fresh : (Outbox.fresh : Outbox J B D).Sound outside := by
  refine ⟨⟨?_, ?_, ?_⟩, ⟨?_, ?_⟩, ?_⟩
  · intro drainer attempt hhand
    cases hhand
  · intro id hid
    cases hid
  · intro post hpost
    cases hpost
  · intro drainer attempt row hhand
    cases hhand
  · intro post hpost
    cases hpost
  · intro id row hrow
    change (∅ : DeliveryTable J)[id]? = some row at hrow
    simp at hrow

theorem Outbox.Sound.step (hsound : outbox.Sound outside) (action : Action J D) :
    (outbox.step outside action).Sound outside := by
  cases step_cases outside outbox action with
  | inl hsame =>
      rw [hsame]
      exact hsound
  | inr hchange => exact hchange.sound hsound

theorem sound_outboxAfter (actions : List (Action J D)) :
    (outboxAfter outside actions).Sound outside :=
  foldl_keeps (Outbox.Sound outside) (fun action _ _ hsound => hsound.step action) _ sound_fresh

/-- Every post of a delivery has a claim of its own, and the claims are bounded. Whatever the
drainers do and whenever they are lost, a delivery is claimed at most `MAX_DELIVERY_ATTEMPTS` times,
once more for every other drainer and once more for every time it was lost with one; and each post
of it has the bytes of the row it was recorded as, signed. -/
theorem deliveries_bounded (outside : Outside J B) (actions : List (Action J D)) (id : String)
    {row : WebhookDelivery J} (hrow : (outboxAfter outside actions).deliveries[id]? = some row) :
    ((outboxAfter outside actions).postsOf id).length ≤ row.attempt ∧
      row.attempt <
        maxDeliveryAttempts + Fintype.card D + (outboxAfter outside actions).abandonedOf id ∧
      ∀ post ∈ (outboxAfter outside actions).postsOf id, post.body = outside.toVec row.payload ∧
        ∃ secret, post.signature = outside.sign secret post.body := by
  have hsound : (outboxAfter outside actions).Sound outside := sound_outboxAfter actions
  obtain ⟨hlimit, hbounded, hposted⟩ := hsound.rows id row hrow
  refine ⟨(Nat.le_add_right _ _).trans hposted, ?_, ?_⟩
  · rw [← hlimit]
    exact hbounded.always
  · intro post hpost
    rw [Outbox.postsOf, List.mem_filter, decide_eq_true_eq] at hpost
    rw [← hpost.2] at hrow
    exact hsound.faithful.posted post hpost.1 row hrow

end Items

/-- Bodies are the fields, and a signature is the secret. -/
def sampleOutside : Outside String (List (String × String)) where
  toVec doc := doc.toList
  sign secret _ := secret
  quoted text := text
  display _ := "address"

def sampleHook : Webhook where
  orgId := "org-1"
  url := "https://hooks.example/er"
  events := []
  secret := "s"
  active := true
  createdAt := 0

/-- A network on which every URL is public. -/
def sampleNet : Server.Network where
  parseUrl _ := some ⟨"https", "", none, some "hooks.example", none⟩
  parseAddr _ := none
  lookupHost _ _ := none

/-- An event for one subscriber. -/
def sampleEvent : List (Action String Unit) :=
  [.putWebhook "hook-1" sampleHook,
    .enqueue "delivery-1" "org-1" none "hook-1" "job.succeeded"
      (bodyDoc id "job.succeeded" "acme" ∅) 0]

/-- The event is posted twice: the first post is not answered. -/
def sampleRun : List (Action String Unit) :=
  sampleEvent ++
    [.claim () 0 fun _ => false, .locate (), .post () sampleNet (.error "timed out"), .settle () 10,
      .claim () 15 fun _ => false, .locate (), .post () sampleNet (.ok 200), .settle () 20]

theorem deliveries_bounded_sampleRun :
    ∃ row, (outboxAfter sampleOutside sampleRun).deliveries["delivery-1"]? = some row ∧
      ((outboxAfter sampleOutside sampleRun).postsOf "delivery-1").length ≤ row.attempt ∧
      row.attempt < 7 + (outboxAfter sampleOutside sampleRun).abandonedOf "delivery-1" := by
  refine ⟨_, rfl, ?_⟩
  obtain ⟨hposts, hattempts, -⟩ := deliveries_bounded sampleOutside sampleRun "delivery-1" rfl
  exact ⟨hposts, hattempts⟩

end EntityResolution.Webhooks
