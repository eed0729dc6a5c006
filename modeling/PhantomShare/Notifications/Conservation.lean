import PhantomShare.Foundations.Machine
import PhantomShare.Services.NotificationWorker

/-!
# No notification is lost

A consumer acknowledges after its handler, and `retry_loop` acknowledges after the
exchange has accepted the retry. Only the branch for exhausted messages acknowledges
first and reports afterwards: in between the notification is nowhere, and a crash
there loses it.
-/
namespace PhantomShare.NotificationWorker
open Foundations

/-- In a main queue, in a dead-letter queue or unacknowledged at a worker. -/
def Place.atBroker : Place → Bool
  | .alerting .. => false
  | _ => true

/-- The copies by which a notification is kept; the others are about to be acknowledged. -/
def Place.carries : Place → Bool
  | .sent .. | .published .. | .alerting .. => false
  | _ => true

theorem Place.atBroker_of_carries {place : Place} (h : place.carries = true) :
    place.atBroker = true := by
  cases place <;> trivial

/-- Every accepted notification is with the broker, or was handled, or was reported. -/
def Conserved (s : State) : Prop :=
  ∀ id < s.accepted, (∃ copy ∈ s.copies, copy.message.id = id ∧ copy.place.atBroker = true) ∨
    .succeeded id ∈ s.log ∨ .alerted id ∈ s.log

instance (s : State) : Decidable (Conserved s) :=
  inferInstanceAs (Decidable (∀ id < s.accepted, _))

/-- A notification that is not done has a copy that keeps it. -/
def Carried (s : State) (id : ℕ) : Prop :=
  (∃ copy ∈ s.copies, copy.message.id = id ∧ copy.place.carries = true) ∨
    .succeeded id ∈ s.log ∨ .alerted id ∈ s.log

def AllCarried (s : State) : Prop := ∀ id < s.accepted, Carried s id

theorem AllCarried.conserved {s : State} (h : AllCarried s) : Conserved s := by
  intro id hid
  rcases h id hid with ⟨copy, hcopy, hid', hplace⟩ | hdone
  · exact .inl ⟨copy, hcopy, hid', Place.atBroker_of_carries hplace⟩
  · exact .inr hdone

/-- What stays keeps the notifications of the copies that stay; the one that goes must be kept by
what comes in its place, or be done. -/
theorem AllCarried.of_replace {s s' : State} {i : ℕ} {copy : Copy} {copies : List Copy}
    (h : AllCarried s) (hget : s.copies[i]? = some copy)
    (hcopies : s'.copies = (s.replace i copies).copies) (haccepted : s'.accepted = s.accepted)
    (hlog : ∀ entry ∈ s.log, entry ∈ s'.log)
    (hkeep : copy.place.carries = true → (∃ c ∈ copies, c.message.id = copy.message.id ∧
      c.place.carries = true) ∨ .succeeded copy.message.id ∈ s'.log ∨
        .alerted copy.message.id ∈ s'.log) : AllCarried s' := by
  intro id hid
  rw [haccepted] at hid
  rcases h id hid with ⟨c, hc, rfl, hplace⟩ | hdone | hdone
  · rw [copies_eq hget] at hc
    simp only [List.mem_append, List.mem_singleton] at hc
    rcases hc with (hc | rfl) | hc
    · left
      refine ⟨c, ?_, rfl, hplace⟩
      simp [hcopies, hc]
    · rcases hkeep hplace with ⟨c', hc', hid', hplace'⟩ | hdone
      · left
        refine ⟨c', ?_, hid', hplace'⟩
        simp [hcopies, hc']
      · exact .inr hdone
    · left
      refine ⟨c, ?_, rfl, hplace⟩
      simp [hcopies, hc]
  · exact .inr (.inl (hlog _ hdone))
  · exact .inr (.inr (hlog _ hdone))

/-- No message with more attempts than allowed is acknowledged. -/
def KeepsExhausted (_ : State) (e : Event) : Prop := ∀ i, e ≠ .ackExhausted i

instance (s : State) (e : Event) : Decidable (KeepsExhausted s e) :=
  match e with
  | .ackExhausted i => isFalse fun h => h i rfl
  | .publish .. | .deliver .. | .finish .. | .settle _ | .wake _ | .get .. | .republish ..
  | .ackRetried _ | .alert _ | .crash _ => isTrue nofun

theorem carries_fetched (worker : ℕ) (key : RoutingKey) (message : Message) :
    (fetched worker key message).1.carries = true := by
  unfold fetched
  split
  · rfl
  · split <;> rfl

/-- The copies that a crash does not touch stay, and the others go back to their queues. -/
theorem carries_afterCrash {worker : ℕ} {copy : Copy} (h : copy.place.carries = true) :
    ∃ copy', copy.afterCrash worker = some copy' ∧ copy'.message.id = copy.message.id ∧
      copy'.place.carries = true := by
  rcases copy with ⟨message, place⟩
  cases place with
  | queue key => exact ⟨_, rfl, rfl, rfl⟩
  | dlq key => exact ⟨_, rfl, rfl, rfl⟩
  | handling w key => refine ⟨_, rfl, rfl, ?_⟩; by_cases hw : w = worker <;> simp [hw, Place.carries]
  | raised w key => refine ⟨_, rfl, rfl, ?_⟩; by_cases hw : w = worker <;> simp [hw, Place.carries]
  | retrying w key _ =>
    refine ⟨_, rfl, rfl, ?_⟩; by_cases hw : w = worker <;> simp [hw, Place.carries]
  | exhausted w key _ =>
    refine ⟨_, rfl, rfl, ?_⟩; by_cases hw : w = worker <;> simp [hw, Place.carries]
  | halted w key => refine ⟨_, rfl, rfl, ?_⟩; by_cases hw : w = worker <;> simp [hw, Place.carries]
  | sent w key => cases h
  | published w key => cases h
  | alerting w key _ => cases h

theorem AllCarried.step {C : Carrier} {s s' : State} {e : Event} (h : AllCarried s)
    (hkeeps : KeepsExhausted s e) (hstep : Happens C s e s') : AllCarried s' := by
  cases hstep with
  | publish key body =>
    intro id hid
    rcases Nat.lt_succ_iff_lt_or_eq.mp hid with hid | rfl
    · rcases h id hid with ⟨copy, hcopy, hkeep⟩ | hdone
      · exact .inl ⟨copy, List.mem_append_left _ hcopy, hkeep⟩
      · exact .inr hdone
    · exact .inl ⟨_, List.mem_append_right _ (List.mem_singleton_self _), rfl, rfl⟩
  | deliver found _ =>
    exact h.of_replace found rfl rfl (by simp_all) fun _ =>
      .inl ⟨_, List.mem_singleton_self _, rfl, rfl⟩
  | succeed found => exact h.of_replace found rfl rfl (by simp_all) fun _ => .inr (.inl (by simp))
  | fail found =>
    exact h.of_replace found rfl rfl (by simp_all) fun _ =>
      .inl ⟨_, List.mem_singleton_self _, rfl, rfl⟩
  | ack found => exact h.of_replace found rfl rfl (fun _ hentry => hentry) nofun
  | reject found =>
    exact h.of_replace found rfl rfl (fun _ hentry => hentry) fun _ =>
      .inl ⟨_, List.mem_singleton_self _, rfl, rfl⟩
  | wake _ => exact h
  | turn _ _ => exact h
  | get _ found =>
    exact h.of_replace found rfl rfl (fun _ hentry => hentry) fun _ =>
      .inl ⟨_, List.mem_singleton_self _, rfl, carries_fetched _ _ _⟩
  | publishFails found =>
    exact h.of_replace found rfl rfl (fun _ hentry => hentry) fun _ =>
      .inl ⟨_, List.mem_singleton_self _, rfl, rfl⟩
  | republish found =>
    -- the retry carries the notification from here on
    exact h.of_replace found rfl rfl (fun _ hentry => hentry) fun _ =>
      .inl ⟨_, List.mem_cons_of_mem _ (List.mem_singleton_self _), rfl, rfl⟩
  | ackRetried found => exact h.of_replace found rfl rfl (fun _ hentry => hentry) nofun
  | ackExhausted found => exact absurd rfl (hkeeps _)
  | alert found => exact h.of_replace found rfl rfl (by simp_all) nofun
  | crash _ =>
    intro id hid
    rcases h id hid with ⟨copy, hcopy, rfl, hplace⟩ | hdone
    · rcases carries_afterCrash hplace with ⟨copy', hcrash, hid', hplace'⟩
      exact .inl ⟨copy', List.mem_filterMap.mpr ⟨copy, hcopy, hcrash⟩, hid', hplace'⟩
    · exact .inr hdone

/-- As long as no exhausted message is acknowledged, every accepted notification is at all times
with the broker, handled or reported, whatever crashes and fails. -/
theorem notifications_conserved (C : Carrier) (workers : ℕ) {events : List Event} {s : State}
    (run : Steps (next C) KeepsExhausted (State.start workers) events s) : Conserved s := by
  apply AllCarried.conserved
  apply run.keeps (fun id hid => absurd hid (Nat.not_lt_zero id))
  intro s₁ s₂ e h hkeeps hnext
  exact h.step hkeeps (happens_of_next hnext)

section Sample

/-- The tracing library adds the context, and the broker the history of the message. -/
def sampleCarrier : Carrier where
  inject fields := setHeader fields "traceparent" "00".toList
  deadLetter headers := setHeader headers "x-death" (.table "rejected".toList)

/-- A delivery whose handling fails, and the rejection. -/
def failedDelivery : List Event := [.deliver 0 0, .finish 0 false, .settle 0]

/-- A round of the retry loop that publishes the message again. -/
def retried : List Event := [.get 0 (some 0), .republish 0 false, .ackRetried 0]

/-- Four handlings fail, and the exhausted message is acknowledged. -/
def exhaustion : List Event :=
  [.publish .email "body"] ++ failedDelivery ++ [.wake 0] ++ retried ++ failedDelivery ++ retried ++
    failedDelivery ++ retried ++ failedDelivery ++ [.get 0 (some 0), .ackExhausted 0]

/-- After the acknowledgement the notification is nowhere, and a crash there loses it for good. -/
theorem exhausted_notification_lost :
    (∃ s, Steps (next sampleCarrier) (fun _ _ => True) (State.start 1) exhaustion s ∧
      ¬ Conserved s) ∧
    ∃ s, Steps (next sampleCarrier) (fun _ _ => True) (State.start 1) (exhaustion ++ [.crash 0]) s ∧
      s.copies = [] ∧ ¬ Conserved s := by
  constructor
  · rcases exists_steps (next sampleCarrier) (fun _ _ => True) (State.start 1) exhaustion
      (fun s => decide (¬ Conserved s)) (by decide +kernel) with ⟨s, run, hlost⟩
    exact ⟨s, run, of_decide_eq_true hlost⟩
  · rcases exists_steps (next sampleCarrier) (fun _ _ => True) (State.start 1)
      (exhaustion ++ [.crash 0]) (fun s => decide (s.copies = [] ∧ ¬ Conserved s))
      (by decide +kernel) with ⟨s, run, hlost⟩
    exact ⟨s, run, of_decide_eq_true hlost⟩

/-- Crashes and a lost confirmation do no harm. -/
theorem notifications_conserved_sample :
    ∃ s, Steps (next sampleCarrier) KeepsExhausted (State.start 1)
      ([.publish .webhook "body"] ++ failedDelivery ++
        [.wake 0, .get 0 none, .get 0 (some 0), .republish 0 false, .crash 0]) s ∧
      s.copies.length = 2 ∧ Conserved s := by
  rcases exists_steps (next sampleCarrier) KeepsExhausted (State.start 1)
    ([.publish .webhook "body"] ++ failedDelivery ++
      [.wake 0, .get 0 none, .get 0 (some 0), .republish 0 false, .crash 0])
    (fun s => s.copies.length = 2) (by decide +kernel) with ⟨s, run, htwo⟩
  exact ⟨s, run, of_decide_eq_true htwo, notifications_conserved sampleCarrier 1 run⟩

end Sample
end PhantomShare.NotificationWorker
