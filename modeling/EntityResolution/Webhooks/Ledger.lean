/-
# What the outbox says of a delivery

A row says `delivered`, `failed` or `pending`; the subscriber knows how often it accepted the event.
The two are kept apart by the drainers: by those that were told and have not settled yet, and by
those that were lost in between.

A row never says `delivered` of an event that nobody accepted, whatever the drainers do. The other
direction needs a single drainer, since `settle` has no condition on the state: of two drainers with
the same row, the second to settle has the last word.
-/

import EntityResolution.Webhooks.Attempts

namespace EntityResolution.Webhooks

open EntityResolution.Collections EntityResolution.Statements EntityResolution.Tables
open EntityResolution.RetriedItems

universe u v w

variable {J : Type u} {B : Type v} {D : Type w} [DecidableEq D] [Fintype D] {outside : Outside J B}
  {outbox next : Outbox J B D} {id : String} {row later : WebhookDelivery J}

/-- What is known of one delivery: what its row says, how often it was accepted, how many drainers
have an acceptance in hand, and how often a drainer was lost with it. -/
structure Standing where
  delivered : Bool
  accepted : ℕ
  holding : ℕ
  lost : ℕ

def Outbox.standingOf (outbox : Outbox J B D) (id : String) (row : WebhookDelivery J) :
    Standing where
  delivered := row.state = .delivered
  accepted := (outbox.acceptedOf id).length
  holding := countHands (Attempt.accepted id) outbox.drainers
  lost := outbox.abandonedOf id

/-- A drainer has the delivery in hand. -/
def Outbox.Holds (outbox : Outbox J B D) (id : String) : Prop :=
  ∃ drainer attempt, outbox.drainers drainer = some attempt ∧ attempt.deliveryId = id

/-- How the standing of a delivery changes. Only a drainer that has it in hand records an outcome.
-/
inductive Standing.Next (inHand : Prop) : Standing → Standing → Prop
  | same {standing : Standing} : Next inHand standing standing
  | accept {delivered : Bool} {accepted holding lost : ℕ} :
      Next inHand ⟨delivered, accepted, holding, lost⟩ ⟨delivered, accepted + 1, holding + 1, lost⟩
  | record {delivered : Bool} {accepted holding lost : ℕ} (hhand : inHand) :
      Next inHand ⟨delivered, accepted, holding + 1, lost⟩ ⟨true, accepted, holding, lost⟩
  | reject {delivered : Bool} {accepted holding lost : ℕ} (hhand : inHand) :
      Next inHand ⟨delivered, accepted, holding, lost⟩ ⟨false, accepted, holding, lost⟩
  | lose {delivered told : Bool} {accepted holding lost : ℕ} :
      Next inHand ⟨delivered, accepted, holding + told.toNat, lost⟩
        ⟨delivered, accepted, holding, lost + 1⟩

theorem Standing.Next.of_eq {inHand : Prop} {standing next : Standing} (hsame : next = standing) :
    Standing.Next inHand standing next := by
  rw [hsame]
  exact .same

omit [DecidableEq D] [Fintype D] in
theorem length_acceptedOf_append (outbox : Outbox J B D) (id : String) (post : Post B) :
    ({ outbox with posts := outbox.posts ++ [post] }.acceptedOf id).length =
      (outbox.acceptedOf id).length +
        (decide (post.deliveryId = id) && isSuccess post.answer).toNat := by
  rw [Outbox.acceptedOf, Outbox.postsOf, List.filter_append, List.filter_append,
    List.length_append, Outbox.acceptedOf, Outbox.postsOf]
  by_cases hid : post.deliveryId = id <;> cases hsuccess : isSuccess post.answer <;>
    simp [hid, hsuccess]

/-- The count of the drainers with an acceptance, after one hand has changed. -/
theorem holding_update (id : String) {drainer : D} {attempt : Attempt J}
    (hand : Option (Attempt J)) (hhand : outbox.drainers drainer = some attempt) :
    countHands (Attempt.accepted id) (Function.update outbox.drainers drainer hand) +
        (attempt.accepted id).toNat =
      countHands (Attempt.accepted id) outbox.drainers +
        (hand.any (Attempt.accepted id)).toNat := by
  have hcount := countHands_update (Attempt.accepted id) outbox.drainers drainer hand
  rw [hhand, Option.any_some] at hcount
  exact hcount

/-- A hand that says of the delivery what it said before leaves its standing as it is. -/
theorem standing_inHand {drainer : D} {attempt : Attempt J} (hand : Option (Attempt J))
    (hhand : outbox.drainers drainer = some attempt)
    (hsame : hand.any (Attempt.accepted id) = attempt.accepted id)
    (hstate : decide (later.state = .delivered) = decide (row.state = .delivered)) :
    (outbox.inHand drainer hand).standingOf id later = outbox.standingOf id row := by
  have hcount := holding_update id hand hhand
  rw [hsame] at hcount
  have hholding := Nat.add_right_cancel hcount
  simp only [Outbox.standingOf, Outbox.inHand, Outbox.acceptedOf, Outbox.postsOf,
    Outbox.abandonedOf, hholding, hstate]

theorem Attempt.accepted_eq_false {attempt : Attempt J}
    (hphase : ∀ outcome, attempt.phase ≠ .answered outcome) : attempt.accepted id = false := by
  rw [Attempt.accepted]
  cases hnow : attempt.phase with
  | claimed => exact Bool.and_false _
  | located => exact Bool.and_false _
  | answered outcome => exact absurd hnow (hphase outcome)

/-- A post is accepted, with its drainer told, or it changes nothing. -/
theorem standing_post {drainer : D} {attempt : Attempt J} (post : Post B)
    (hhand : outbox.drainers drainer = some attempt)
    (hphase : ∀ outcome, attempt.phase ≠ .answered outcome)
    (hpost : post.deliveryId = attempt.deliveryId) :
    Standing.Next (outbox.Holds id) (outbox.standingOf id row)
      (({ outbox with posts := outbox.posts ++ [post] }.inHand drainer
        (some (attempt.at (.answered (classify post.answer))))).standingOf id row) := by
  have hcount := holding_update id (some (attempt.at (.answered (classify post.answer)))) hhand
  have hafter : (some (attempt.at (.answered (classify post.answer)))).any (Attempt.accepted id) =
      (decide (post.deliveryId = id) && isSuccess post.answer) := by
    simp [Attempt.accepted, Attempt.at, delivered_classify, hpost]
  rw [Attempt.accepted_eq_false hphase, hafter] at hcount
  have haccepted := length_acceptedOf_append outbox id post
  simp only [Outbox.acceptedOf, Outbox.postsOf] at haccepted
  cases hsuccess : decide (post.deliveryId = id) && isSuccess post.answer with
  | false =>
      rw [hsuccess] at hcount haccepted
      apply Standing.Next.of_eq
      simp only [Outbox.standingOf, Outbox.inHand, Outbox.acceptedOf, Outbox.postsOf,
        Outbox.abandonedOf, haccepted, Standing.mk.injEq, true_and, and_true]
      exact ⟨rfl, hcount⟩
  | true =>
      rw [hsuccess] at hcount haccepted
      have hholding : countHands (Attempt.accepted id) (Function.update outbox.drainers drainer
          (some (attempt.at (.answered (classify post.answer))))) =
            countHands (Attempt.accepted id) outbox.drainers + 1 := hcount
      simp only [Outbox.standingOf, Outbox.inHand, Outbox.acceptedOf, Outbox.postsOf,
        Outbox.abandonedOf, haccepted, hholding]
      exact .accept

/-- A drainer settles the delivery in its hand. -/
theorem standing_settle {drainer : D} {attempt : Attempt J} {outcome : Outcome} (now : ℤ)
    (hhand : outbox.drainers drainer = some attempt) (hphase : attempt.phase = .answered outcome)
    (hid : attempt.deliveryId = id) :
    Standing.Next (outbox.Holds id) (outbox.standingOf id row)
      ((outbox.inHand drainer none).standingOf id (outcome.settled now row)) := by
  have hcount := holding_update id none hhand
  have htold : attempt.accepted id = outcome.delivered := by
    simp [Attempt.accepted, hphase, hid]
  rw [htold] at hcount
  cases hdelivered : outcome.delivered with
  | true =>
      rw [hdelivered] at hcount
      have hholding : countHands (Attempt.accepted id) outbox.drainers =
          countHands (Attempt.accepted id) (Function.update outbox.drainers drainer none) + 1 :=
        hcount.symm
      simp only [Outbox.standingOf, Outbox.inHand, Outbox.acceptedOf, Outbox.postsOf,
        Outbox.abandonedOf, hholding, Outcome.settled, hdelivered, if_true, decide_true]
      exact .record ⟨drainer, attempt, hhand, hid⟩
  | false =>
      rw [hdelivered] at hcount
      have hholding : countHands (Attempt.accepted id)
          (Function.update outbox.drainers drainer none) =
            countHands (Attempt.accepted id) outbox.drainers := hcount
      have hstate : decide ((outcome.settled now row).state = .delivered) = false := by
        rw [Outcome.settled, hdelivered]
        cases outcome.retries row <;> rfl
      simp only [Outbox.standingOf, Outbox.inHand, Outbox.acceptedOf, Outbox.postsOf,
        Outbox.abandonedOf, hholding, hstate]
      exact .reject ⟨drainer, attempt, hhand, hid⟩

/-- A drainer is lost with the delivery in its hand. -/
theorem standing_lose {drainer : D} {attempt : Attempt J}
    (hhand : outbox.drainers drainer = some attempt) (hid : attempt.deliveryId = id) :
    Standing.Next (outbox.Holds id) (outbox.standingOf id row)
      (({ outbox with abandoned := outbox.abandoned ++ [attempt.deliveryId] }.inHand drainer
        none).standingOf id row) := by
  have hlost : (outbox.abandoned ++ [attempt.deliveryId]).count id =
      outbox.abandoned.count id + 1 := by
    rw [hid, List.count_append, List.count_singleton_self]
  have hholding : countHands (Attempt.accepted id) outbox.drainers =
      countHands (Attempt.accepted id) (Function.update outbox.drainers drainer none) +
        (attempt.accepted id).toNat := (holding_update id none hhand).symm
  simp only [Outbox.standingOf, Outbox.inHand, Outbox.acceptedOf, Outbox.postsOf,
    Outbox.abandonedOf, hlost, hholding]
  exact .lose

/-- Every change of the outbox is one of the standing of each delivery. -/
theorem Change.standing (hchange : Change outside outbox next)
    (hrow : outbox.deliveries[id]? = some row) (hlater : next.deliveries[id]? = some later) :
    Standing.Next (outbox.Holds id) (outbox.standingOf id row) (next.standingOf id later) := by
  cases hchange with
  | putWebhook =>
      cases hrow.symm.trans hlater
      exact .same
  | enqueue new hnew hpending hattempt hmax =>
      rename_i newId
      have hne : newId ≠ id := by
        intro hsame
        rw [hsame] at hnew
        exact hnew (BTreeMap.mem_iff_exists_getElem?.mpr ⟨row, hrow⟩)
      rw [BTreeMap.getElem?_insert_eq_ite, if_neg hne, hrow] at hlater
      cases hlater
      exact .same
  | claim hidle hclaimed hdue =>
      rename_i drainer claimedId claimed now
      have hstate : later.state = row.state := by
        cases (getElem?_claimDelivery claimedId hrow).symm.trans hlater
        split <;> rfl
      have hcount := countHands_update (Attempt.accepted id) outbox.drainers drainer
        (some ⟨claimedId, claimed.webhookId, claimed.payload, .claimed⟩)
      rw [hidle] at hcount
      have hholding : countHands (Attempt.accepted id) (Function.update outbox.drainers drainer
          (some ⟨claimedId, claimed.webhookId, claimed.payload, .claimed⟩)) =
            countHands (Attempt.accepted id) outbox.drainers := by
        simpa [Attempt.accepted] using hcount
      apply Standing.Next.of_eq
      simp only [Outbox.standingOf, Outbox.inHand, Outbox.acceptedOf, Outbox.postsOf,
        Outbox.abandonedOf, hstate, hholding]
  | locate url secret hhand hphase =>
      cases hrow.symm.trans hlater
      apply Standing.Next.of_eq
      exact standing_inHand _ hhand (by simp [Attempt.accepted, Attempt.at, hphase]) rfl
  | decline hhand hphase hfailed =>
      cases hrow.symm.trans hlater
      apply Standing.Next.of_eq
      apply standing_inHand _ hhand _ rfl
      rw [Attempt.accepted_eq_false hphase]
      simp [Attempt.accepted, Attempt.at, hfailed.1]
  | post answer hhand hphase =>
      cases hrow.symm.trans hlater
      apply standing_post _ hhand _ rfl
      rw [hphase]
      intro _ habsurd
      cases habsurd
  | settle now hhand hphase =>
      rename_i drainer attempt outcome
      cases (getElem?_settleDelivery attempt.deliveryId outcome now hrow).symm.trans hlater
      by_cases hid : id = attempt.deliveryId
      · rw [if_pos hid]
        exact standing_settle now hhand hphase hid.symm
      · rw [if_neg hid]
        apply Standing.Next.of_eq
        refine standing_inHand none hhand ?_ rfl
        rw [Attempt.accepted, decide_eq_false (Ne.symm hid), Bool.false_and]
        rfl
  | lose hhand =>
      rename_i drainer attempt
      cases hrow.symm.trans hlater
      by_cases hid : attempt.deliveryId = id
      · exact standing_lose hhand hid
      · have hlost : (outbox.abandoned ++ [attempt.deliveryId]).count id =
            outbox.abandoned.count id := by
          rw [List.count_append, Nat.add_eq_left, List.count_eq_zero]
          exact fun hin => hid (List.mem_singleton.mp hin).symm
        have hother : attempt.accepted id = false := by
          rw [Attempt.accepted, decide_eq_false hid, Bool.false_and]
        have hholding := holding_update id none hhand
        rw [hother] at hholding
        apply Standing.Next.of_eq
        simp only [Outbox.standingOf, Outbox.inHand, Outbox.acceptedOf, Outbox.postsOf,
          Outbox.abandonedOf, hlost, Standing.mk.injEq, true_and, and_true]
        exact hholding

/-- What is recorded as delivered, or about to be, was accepted. -/
structure Standing.Truthful (standing : Standing) : Prop where
  delivered : standing.delivered = true → 1 ≤ standing.accepted
  holding : 1 ≤ standing.holding → 1 ≤ standing.accepted

theorem Standing.Next.truthful {inHand : Prop} {standing next : Standing}
    (hnext : Standing.Next inHand standing next) (htruthful : standing.Truthful) :
    next.Truthful := by
  obtain ⟨hdelivered, hholding⟩ := htruthful
  cases hnext with
  | same => exact ⟨hdelivered, hholding⟩
  | accept => exact ⟨fun _ => Nat.le_add_left _ _, fun _ => Nat.le_add_left _ _⟩
  | record =>
      have haccepted := hholding (Nat.le_add_left _ _)
      exact ⟨fun _ => haccepted, fun _ => haccepted⟩
  | reject => exact ⟨fun hno => Bool.noConfusion hno, hholding⟩
  | lose => exact ⟨hdelivered, fun hmore => hholding (hmore.trans (Nat.le_add_right _ _))⟩

/-- Every acceptance is recorded, in hand, or was lost. -/
def Standing.Complete (standing : Standing) : Prop :=
  standing.accepted ≤ standing.delivered.toNat + standing.holding + standing.lost

/-- A change keeps the account, when nobody has a delivered row in hand. -/
theorem Standing.Next.complete {inHand : Prop} {standing next : Standing}
    (hnext : Standing.Next inHand standing next)
    (honce : inHand → standing.delivered = false) (hcomplete : standing.Complete) :
    next.Complete := by
  unfold Standing.Complete at hcomplete ⊢
  cases hnext with
  | same => exact hcomplete
  | accept =>
      dsimp only at hcomplete ⊢
      omega
  | record hhand =>
      have hbefore := honce hhand
      dsimp only at hbefore
      rw [hbefore] at hcomplete
      dsimp only [Bool.toNat_true, Bool.toNat_false] at hcomplete ⊢
      omega
  | reject hhand =>
      have hbefore := honce hhand
      dsimp only at hbefore hcomplete ⊢
      rw [hbefore] at hcomplete
      exact hcomplete
  | @lose delivered told =>
      have hone := Bool.toNat_le told
      dsimp only at hcomplete ⊢
      omega

/-! ## A row that is settled -/

omit [Fintype D] in
/-- A row that is settled and that nobody has in hand stays as it is, and is not posted. -/
theorem Change.settled_stays (hchange : Change outside outbox next)
    (hrow : outbox.deliveries[id]? = some row) (hsettled : row.state ≠ .pending)
    (hfree : ¬ outbox.Holds id) :
    next.deliveries[id]? = some row ∧ ¬ next.Holds id ∧ next.postsOf id = outbox.postsOf id := by
  have hother {drainer : D} {attempt : Attempt J} (hhand : outbox.drainers drainer = some attempt) :
      attempt.deliveryId ≠ id := fun hid => hfree ⟨drainer, attempt, hhand, hid⟩
  have hstill {drainer : D} {hand : Option (Attempt J)}
      (hnew : ∀ attempt, hand = some attempt → attempt.deliveryId ≠ id) :
      ¬ ∃ other attempt, Function.update outbox.drainers drainer hand other = some attempt ∧
        attempt.deliveryId = id := by
    rintro ⟨other, attempt, hhand, hid⟩
    by_cases hsame : other = drainer
    · rw [hsame, Function.update_self] at hhand
      exact hnew attempt hhand hid
    · rw [Function.update_of_ne hsame] at hhand
      exact hother hhand hid
  cases hchange with
  | putWebhook => exact ⟨hrow, hfree, rfl⟩
  | enqueue new hnew hpending hattempt hmax =>
      rename_i newId
      refine ⟨?_, hfree, rfl⟩
      have hne : newId ≠ id := by
        intro hsame
        rw [hsame] at hnew
        exact hnew (BTreeMap.mem_iff_exists_getElem?.mpr ⟨row, hrow⟩)
      rw [BTreeMap.getElem?_insert_eq_ite, if_neg hne]
      exact hrow
  | claim hidle hclaimed hdue =>
      rename_i drainer claimedId claimed now
      -- a settled row is not due, so it is another that is claimed
      have hne : claimedId ≠ id := by
        intro hsame
        rw [hsame, hrow] at hclaimed
        cases hclaimed
        rw [WebhookDelivery.due, Bool.and_eq_true] at hdue
        exact hsettled (of_decide_eq_true hdue.1)
      refine ⟨?_, hstill ?_, rfl⟩
      · have hrun := getElem?_claimDelivery claimedId hrow
        rw [if_neg hne.symm] at hrun
        exact hrun
      · intro attempt hattempt
        cases hattempt
        exact hne
  | locate url secret hhand =>
      refine ⟨hrow, hstill ?_, rfl⟩
      intro attempt hattempt
      cases hattempt
      have hne := hother hhand
      exact hne
  | decline hhand =>
      refine ⟨hrow, hstill ?_, rfl⟩
      intro attempt hattempt
      cases hattempt
      have hne := hother hhand
      exact hne
  | post answer hhand =>
      refine ⟨hrow, hstill ?_, ?_⟩
      · intro attempt hattempt
        cases hattempt
        have hne := hother hhand
        exact hne
      · have hnot := decide_eq_false (hother hhand)
        simp only [Outbox.postsOf, Outbox.inHand, List.filter_append, List.filter_cons,
          List.filter_nil, hnot, Bool.false_eq_true, if_false, List.append_nil]
  | settle now hhand hphase =>
      rename_i drainer attempt outcome
      refine ⟨?_, hstill ?_, rfl⟩
      · have hrun := getElem?_settleDelivery attempt.deliveryId outcome now hrow
        rw [if_neg (hother hhand).symm] at hrun
        exact hrun
      · intro attempt hattempt
        cases hattempt
  | lose hhand =>
      refine ⟨hrow, hstill ?_, rfl⟩
      intro attempt hattempt
      cases hattempt

/-- What a drainer has in hand is a row that is still pending. -/
def Outbox.Exclusive (outbox : Outbox J B D) : Prop :=
  ∀ (id : String) (row : WebhookDelivery J), outbox.deliveries[id]? = some row →
    outbox.Holds id → row.state = .pending

omit [Fintype D] in
theorem Change.exclusive [Subsingleton D] (hchange : Change outside outbox next)
    (hexclusive : outbox.Exclusive) : next.Exclusive := by
  -- one drainer that keeps its delivery keeps the only one there is
  have hkept {rows : DeliveryTable J} {posts : List (Post B)} {drainer : D} {attempt : Attempt J}
      (hhand : outbox.drainers drainer = some attempt) (phase : Phase)
      (hold : ∀ (id : String) (row : WebhookDelivery J), rows[id]? = some row →
        outbox.deliveries[id]? = some row) :
      Outbox.Exclusive
        ({ outbox with deliveries := rows, posts := posts }.inHand drainer
          (some (attempt.at phase)) : Outbox J B D) := by
    rintro id row hrow ⟨other, taken, htaken, hid⟩
    rw [Subsingleton.elim other drainer] at htaken
    simp only [Outbox.inHand, Function.update_self, Option.some.injEq] at htaken
    rw [← htaken] at hid
    exact hexclusive id row (hold id row hrow) ⟨drainer, attempt, hhand, hid⟩
  have hempty {outbox : Outbox J B D} {drainer : D} : (outbox.inHand drainer none).Exclusive := by
    rintro id row hrow ⟨other, taken, htaken, hid⟩
    rw [Subsingleton.elim other drainer] at htaken
    simp only [Outbox.inHand, Function.update_self, reduceCtorEq] at htaken
  cases hchange with
  | putWebhook => exact hexclusive
  | enqueue new hnew hpending hattempt hmax =>
      rename_i newId
      intro id row hrow hholds
      rw [BTreeMap.getElem?_insert_eq_ite] at hrow
      by_cases hsame : newId = id
      · rw [if_pos hsame] at hrow
        cases hrow
        exact hpending
      · rw [if_neg hsame] at hrow
        exact hexclusive id row hrow hholds
  | claim hidle hclaimed hdue =>
      rename_i drainer claimedId claimed now
      rintro id row hrow ⟨other, taken, htaken, hid⟩
      rw [Subsingleton.elim other drainer] at htaken
      simp only [Outbox.inHand, Function.update_self, Option.some.injEq] at htaken
      rw [← htaken] at hid
      dsimp only at hid
      subst hid
      cases (getElem?_claimDelivery claimedId hclaimed).symm.trans hrow
      rw [if_pos rfl]
      rw [WebhookDelivery.due, Bool.and_eq_true] at hdue
      exact of_decide_eq_true hdue.1
  | locate url secret hhand => exact hkept hhand _ fun _ _ hrow => hrow
  | decline hhand => exact hkept hhand _ fun _ _ hrow => hrow
  | post answer hhand => exact hkept hhand _ fun _ _ hrow => hrow
  | settle => exact hempty
  | lose => exact hempty

theorem accepted_of_isOf {attempt : Attempt J} (haccepted : attempt.accepted id = true) :
    attempt.isOf id = true := by
  rw [Attempt.accepted, Bool.and_eq_true] at haccepted
  exact haccepted.1

omit [DecidableEq D] in
theorem holding_eq_zero (hfree : ¬ outbox.Holds id) :
    countHands (Attempt.accepted id) outbox.drainers = 0 := by
  apply countHands_eq_zero_of_imp _ (fun _ => accepted_of_isOf) (countHands_eq_zero_iff _ |>.mpr _)
  intro drainer attempt hhand
  exact decide_eq_false fun hid => hfree ⟨drainer, attempt, hhand, hid⟩

/-- The standing of a row that is new. -/
theorem Change.new_standing (hchange : Change outside outbox next) (hknown : outbox.Known)
    (hnone : id ∉ outbox.deliveries) (hlater : next.deliveries[id]? = some later) :
    next.standingOf id later = ⟨false, 0, 0, 0⟩ := by
  obtain ⟨hitem, -, hposts⟩ := hchange.new_row hknown hnone hlater
  have hpending : later.state = .pending := of_decide_eq_true (congrArg Item.offered hitem)
  have hholding : countHands (Attempt.accepted id) next.drainers = 0 :=
    countHands_eq_zero_of_imp _ (fun _ => accepted_of_isOf) (congrArg Item.held hitem)
  have hlost : next.abandonedOf id = 0 := congrArg Item.lost hitem
  simp only [Outbox.standingOf, Outbox.acceptedOf, hpending, hposts, hholding, hlost,
    List.filter_nil, List.length_nil, reduceCtorEq, decide_false]

/-- A property of standings that a new one has and every change keeps is one of all rows. -/
theorem Outbox.Sound.standing_step {good : Standing → Prop} (hnew : good ⟨false, 0, 0, 0⟩)
    (hkeep : ∀ id row next, outbox.deliveries[id]? = some row →
      Standing.Next (outbox.Holds id) (outbox.standingOf id row) next →
        good (outbox.standingOf id row) → good next)
    (hsound : outbox.Sound outside)
    (hrows : ∀ id row, outbox.deliveries[id]? = some row → good (outbox.standingOf id row))
    (action : Action J D) :
    ∀ id row, (outbox.step outside action).deliveries[id]? = some row →
      good ((outbox.step outside action).standingOf id row) := by
  intro id later hlater
  cases step_cases outside outbox action with
  | inl hsame =>
      rw [hsame] at hlater ⊢
      exact hrows id later hlater
  | inr hchange =>
      cases hold : outbox.deliveries[id]? with
      | none =>
          have hnone : id ∉ outbox.deliveries := by
            rw [BTreeMap.mem_iff_exists_getElem?, hold]
            simp
          rw [hchange.new_standing hsound.known hnone hlater]
          exact hnew
      | some row => exact hkeep id row _ hold (hchange.standing hold hlater) (hrows id row hold)

theorem outboxAfter_keeps (outside : Outside J B) (inv : Outbox J B D → Prop)
    (hfresh : inv Outbox.fresh)
    (hstep : ∀ outbox action, outbox.Sound outside → inv outbox → inv (outbox.step outside action))
    (actions : List (Action J D)) : inv (outboxAfter outside actions) := by
  have hrun : (outboxAfter outside actions).Sound outside ∧ inv (outboxAfter outside actions) := by
    apply foldl_keeps (fun outbox : Outbox J B D => outbox.Sound outside ∧ inv outbox)
    · intro action _ outbox hboth
      exact ⟨hboth.1.step action, hstep outbox action hboth.1 hboth.2⟩
    · exact ⟨sound_fresh, hfresh⟩
  exact hrun.2

omit [DecidableEq D] [Fintype D] in
theorem getElem?_fresh (id : String) (row : WebhookDelivery J) :
    (Outbox.fresh : Outbox J B D).deliveries[id]? ≠ some row := by
  change (∅ : DeliveryTable J)[id]? ≠ some row
  simp

theorem truthful_outboxAfter (actions : List (Action J D)) :
    ∀ (id : String) (row : WebhookDelivery J),
      (outboxAfter outside actions).deliveries[id]? = some row →
        ((outboxAfter outside actions).standingOf id row).Truthful := by
  apply outboxAfter_keeps outside fun outbox : Outbox J B D =>
    ∀ (id : String) (row : WebhookDelivery J), outbox.deliveries[id]? = some row →
      (outbox.standingOf id row).Truthful
  · intro id row hrow
    exact absurd hrow (getElem?_fresh id row)
  · intro outbox action hsound hrows
    apply hsound.standing_step ⟨fun hno => Bool.noConfusion hno, fun hno => hno⟩ _ hrows action
    intro id row next hrow hnext htruthful
    exact hnext.truthful htruthful

omit [Fintype D] in
theorem Outbox.Exclusive.step [Subsingleton D] (hexclusive : outbox.Exclusive)
    (action : Action J D) : (outbox.step outside action).Exclusive := by
  cases step_cases outside outbox action with
  | inl hsame =>
      rw [hsame]
      exact hexclusive
  | inr hchange => exact hchange.exclusive hexclusive

theorem complete_outboxAfter [Subsingleton D] (actions : List (Action J D)) :
    ∀ (id : String) (row : WebhookDelivery J),
      (outboxAfter outside actions).deliveries[id]? = some row →
        ((outboxAfter outside actions).standingOf id row).Complete := by
  have hboth := outboxAfter_keeps outside (fun outbox : Outbox J B D =>
    outbox.Exclusive ∧ ∀ (id : String) (row : WebhookDelivery J),
      outbox.deliveries[id]? = some row → (outbox.standingOf id row).Complete) ?_ ?_ actions
  · exact hboth.2
  · refine ⟨?_, ?_⟩
    · intro id row hrow
      exact absurd hrow (getElem?_fresh id row)
    · intro id row hrow
      exact absurd hrow (getElem?_fresh id row)
  · rintro outbox action hsound ⟨hexclusive, hrows⟩
    refine ⟨hexclusive.step action, hsound.standing_step (Nat.le_refl _) ?_ hrows action⟩
    intro id row next hrow hnext hcomplete
    apply hnext.complete _ hcomplete
    intro hholds
    rw [Outbox.standingOf, hexclusive id row hrow hholds]
    rfl

/-- What the outbox says of a delivery is so. A row that says `delivered` was accepted by its
subscriber, whatever the drainers did. Once it is settled and in nobody's hand it never changes
again and is never posted again. With one drainer the row also misses nothing: an acceptance that it
does not show was lost with the drainer that had it. -/
theorem outbox_honest (outside : Outside J B) (actions later : List (Action J D)) (id : String)
    {row : WebhookDelivery J} (hrow : (outboxAfter outside actions).deliveries[id]? = some row) :
    (row.state = .delivered → (outboxAfter outside actions).acceptedOf id ≠ []) ∧
      (row.state ≠ .pending → ¬ (outboxAfter outside actions).Holds id →
        (outboxAfter outside (actions ++ later)).deliveries[id]? = some row ∧
          (outboxAfter outside (actions ++ later)).postsOf id =
            (outboxAfter outside actions).postsOf id) ∧
      (Fintype.card D ≤ 1 → ¬ (outboxAfter outside actions).Holds id →
        ((outboxAfter outside actions).acceptedOf id).length ≤
          (if row.state = .delivered then 1 else 0) +
            (outboxAfter outside actions).abandonedOf id) := by
  refine ⟨?_, ?_, ?_⟩
  · intro hdelivered hnone
    have htruthful := (truthful_outboxAfter actions id row hrow).delivered
      (decide_eq_true hdelivered)
    simp [Outbox.standingOf, hnone] at htruthful
  · intro hsettled hfree
    rw [outboxAfter, List.foldl_append]
    have hstays :
        (later.foldl (Outbox.step outside)
          (outboxAfter outside actions)).deliveries[id]? = some row ∧
          ¬ (later.foldl (Outbox.step outside) (outboxAfter outside actions)).Holds id ∧
            (later.foldl (Outbox.step outside) (outboxAfter outside actions)).postsOf id =
              (outboxAfter outside actions).postsOf id := by
      apply foldl_keeps (fun outbox : Outbox J B D => outbox.deliveries[id]? = some row ∧
        ¬ outbox.Holds id ∧ outbox.postsOf id = (outboxAfter outside actions).postsOf id)
      · rintro action _ outbox ⟨hsame, hother, hposts⟩
        cases step_cases outside outbox action with
        | inl hnothing =>
            rw [hnothing]
            exact ⟨hsame, hother, hposts⟩
        | inr hchange =>
            obtain ⟨hnext, hnotHeld, hnextPosts⟩ := hchange.settled_stays hsame hsettled hother
            exact ⟨hnext, hnotHeld, hnextPosts.trans hposts⟩
      · exact ⟨hrow, hfree, rfl⟩
    exact ⟨hstays.1, hstays.2.2⟩
  · intro hone hfree
    have : Subsingleton D := Fintype.card_le_one_iff_subsingleton.mp hone
    have hcomplete := complete_outboxAfter actions id row hrow
    rw [Standing.Complete, Outbox.standingOf] at hcomplete
    dsimp only at hcomplete
    rw [holding_eq_zero hfree, Nat.add_zero] at hcomplete
    split_ifs with hdelivered
    · rw [decide_eq_true hdelivered] at hcomplete
      exact hcomplete
    · rw [decide_eq_false hdelivered] at hcomplete
      exact hcomplete

theorem outbox_honest_sampleRun :
    (outboxAfter sampleOutside sampleRun).acceptedOf "delivery-1" ≠ [] ∧
      ∀ later, (outboxAfter sampleOutside (sampleRun ++ later)).postsOf "delivery-1" =
        (outboxAfter sampleOutside sampleRun).postsOf "delivery-1" := by
  have hfree : ¬ (outboxAfter sampleOutside sampleRun).Holds "delivery-1" := by
    rintro ⟨drainer, attempt, hhand, -⟩
    cases hhand
  constructor
  · exact (outbox_honest sampleOutside sampleRun [] "delivery-1" rfl).1 rfl
  · intro later
    obtain ⟨-, hsettled, -⟩ := outbox_honest sampleOutside sampleRun later "delivery-1" rfl
    exact (hsettled (by decide) hfree).2

end EntityResolution.Webhooks
