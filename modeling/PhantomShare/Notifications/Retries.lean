import PhantomShare.Foundations.Machine
import PhantomShare.Notifications.Conservation

/-!
# Bounded retries

Without crashes a notification has one copy that counts, whose header tells how many
handlings have failed. A handler gets it at most `MAX_RETRIES + 1` times, and then it is
reported once. A measure of all copies bounds what the drain loops can get.
-/
namespace PhantomShare.NotificationWorker
open Foundations Internet

/-- No worker crashes. -/
def CrashFree (_ : State) : Event → Prop
  | .crash _ => False
  | _ => True

instance (s : State) (e : Event) : Decidable (CrashFree s e) := by
  unfold CrashFree
  split <;> infer_instance

/-! ### The header of the attempts -/

section Headers
variable {C : Carrier} (sound : C.Sound)
include sound

omit sound in
theorem lookup_mapValues {α β : Type} (f : α → β) (key : String) (entries : List (String × α)) :
    (entries.map fun entry => (entry.1, f entry.2)).lookup key = (entries.lookup key).map f := by
  induction entries with
  | nil => rfl
  | cons entry rest ih =>
    rw [List.map_cons, List.lookup_cons, List.lookup_cons, ih]
    cases key == entry.1 <;> rfl

/-- The attempt survives in a text. -/
theorem attemptOf_inject (headers : Headers) :
    attemptOf (injectTraceHeaders C headers) = attemptOf headers := by
  have htext : HeaderValue.str ∘ HeaderValue.text = id := rfl
  rw [attemptOf, attemptOf, injectTraceHeaders, lookup_mapValues, sound.inject, carrier,
    lookup_mapValues, Option.map_map, htext, Option.map_id, id]

theorem attemptOf_deadLetter (headers : Headers) :
    attemptOf (C.deadLetter headers) = attemptOf headers := by
  rw [attemptOf, attemptOf, sound.deadLetter]

theorem attemptOf_publish : attemptOf (injectTraceHeaders C []) = some 1 := by
  rw [attemptOf_inject sound]
  decide +kernel

omit sound in
theorem lookup_setHeader {α : Type} (headers : List (String × α)) (key : String) (value : α) :
    (setHeader headers key value).lookup key = some value := by
  have hnone : (headers.filter fun entry => entry.1 ≠ key).lookup key = none := by
    rw [List.lookup_eq_none_iff]
    intro entry hentry
    have hne : entry.1 ≠ key := of_decide_eq_true (List.mem_filter.mp hentry).2
    simpa using Ne.symm hne
  rw [setHeader, List.lookup_append, hnone]
  simp

omit sound in
theorem lookup_setHeader_ne {α : Type} (headers : List (String × α)) {key key' : String}
    (h : key' ≠ key) (value : α) :
    (setHeader headers key value).lookup key' = headers.lookup key' := by
  have hlast : List.lookup key' [(key, value)] = none := by
    rw [List.lookup_eq_none_iff]
    simpa using h
  have hkept : (headers.filter fun entry => entry.1 ≠ key).lookup key' = headers.lookup key' := by
    induction headers with
    | nil => rfl
    | cons entry rest ih =>
      rcases entry with ⟨name, text⟩
      by_cases hname : name = key
      · subst hname
        have hne : (key' == name) = false := beq_eq_false_iff_ne.mpr h
        rw [List.filter_cons_of_neg (by simp), List.lookup_cons, hne]
        exact ih
      · rw [List.filter_cons_of_pos (by simpa using hname), List.lookup_cons, List.lookup_cons, ih]
  rw [setHeader, List.lookup_append, hkept, hlast, Option.or_none]

/-- The header of a retry tells the attempt it was published with. -/
theorem attemptOf_retry (message : Message) {attempt : ℕ} (h : attempt ≤ 3) :
    attemptOf (retryMessage C message attempt).headers = some ((attempt : ℤ) + 1) := by
  rw [retryMessage, attemptOf_inject sound, attemptOf, lookup_setHeader, Option.map_some,
    Option.getD_some, HeaderValue.str]
  have hround : ∀ n : ℕ, n ≤ 3 → int (str (n : ℤ)) = some (n : ℤ) := by decide +kernel
  rw [hround attempt h]
  rfl

end Headers

/-! ### What a copy tells about its notification -/

/-- The copies that count: not the ones whose handler succeeded or whose retry is published. -/
def Place.live : Place → Bool
  | .sent .. | .published .. => false
  | _ => true

/-- Handings and failures of the attempt under way. -/
def Place.handings : Place → ℕ
  | .queue _ => 0
  | _ => 1

def Place.failures : Place → ℕ
  | .queue _ | .handling .. => 0
  | _ => 1

/-- What a place with `k` earlier attempts knows. -/
def Place.Admits (k : ℕ) : Place → Prop
  | .retrying _ _ attempt => attempt = k + 1 ∧ k < 3
  | .exhausted .. | .alerting .. => k = 3
  | _ => True

/-- A copy after `k` failed attempts. -/
structure Fits (log : List Entry) (copy : Copy) (k : ℕ) : Prop where
  le : k ≤ 3
  header : attemptOf copy.message.headers = some ((k : ℤ) + 1)
  handed : log.count (.handed copy.message.id) = k + copy.place.handings
  failed : log.count (.failed copy.message.id) = k + copy.place.failures
  admits : copy.place.Admits k

def Entry.id : Entry → ℕ
  | .handed id | .succeeded id | .failed id | .alerted id => id

def Copy.counts (id : ℕ) (copy : Copy) : Bool := copy.message.id = id && copy.place.live

/-- Every accepted notification has one copy that counts, or is handled, or is reported. -/
structure Tallied (s : State) : Prop where
  once : ∀ id, s.copies.countP (Copy.counts id) + s.log.count (.succeeded id) +
    s.log.count (.alerted id) = if id < s.accepted then 1 else 0
  fits : ∀ copy ∈ s.copies, copy.place.live = true → ∃ k, Fits s.log copy k
  handled : ∀ id, .succeeded id ∈ s.log →
    s.log.count (.failed id) + 1 = s.log.count (.handed id) ∧ s.log.count (.handed id) ≤ 4
  reported : ∀ id, .alerted id ∈ s.log →
    s.log.count (.failed id) = 4 ∧ s.log.count (.handed id) = 4
  fresh : ∀ id, s.accepted ≤ id → ∀ entry ∈ s.log, entry.id ≠ id
  silent : s.log.Pairwise fun a b => ∀ id, a = .succeeded id → b ≠ .handed id

theorem tallied_start (workers : ℕ) : Tallied (State.start workers) where
  once id := by simp [State.start]
  fits copy h := by simp [State.start] at h
  handled id h := by simp [State.start] at h
  reported id h := by simp [State.start] at h
  fresh id _ entry h := by simp [State.start] at h
  silent := by simp [State.start]

section Tally
variable {s s' : State} {i : ℕ} {copy : Copy}

/-- A copy that counts is the only one of its notification, which is not done. -/
theorem Tallied.alone (h : Tallied s) (hget : s.copies[i]? = some copy)
    (hlive : copy.place.live = true) :
    (∀ c, c ∈ s.copies.take i ∨ c ∈ s.copies.drop (i + 1) → c.place.live = true →
      c.message.id ≠ copy.message.id) ∧
    (s.copies.take i).countP (Copy.counts copy.message.id) = 0 ∧
    (s.copies.drop (i + 1)).countP (Copy.counts copy.message.id) = 0 ∧
    s.log.count (.succeeded copy.message.id) = 0 ∧ s.log.count (.alerted copy.message.id) = 0 ∧
    copy.message.id < s.accepted := by
  have honce := h.once copy.message.id
  rw [copies_eq hget, List.countP_append, List.countP_append, List.countP_singleton] at honce
  have hself : Copy.counts copy.message.id copy = true := by simp [Copy.counts, hlive]
  rw [if_pos hself] at honce
  have hlt : copy.message.id < s.accepted := by
    by_contra hge
    rw [if_neg hge] at honce
    omega
  rw [if_pos hlt] at honce
  have htake : (s.copies.take i).countP (Copy.counts copy.message.id) = 0 := by omega
  have hdrop : (s.copies.drop (i + 1)).countP (Copy.counts copy.message.id) = 0 := by omega
  refine ⟨?_, htake, hdrop, by omega, by omega, hlt⟩
  intro c hc hclive hid
  have hcounts : Copy.counts copy.message.id c = true := by simp [Copy.counts, hid, hclive]
  rcases hc with hc | hc
  · exact List.countP_eq_zero.mp htake c hc hcounts
  · exact List.countP_eq_zero.mp hdrop c hc hcounts

/-- What is logged about one notification leaves the copies of the others as they are. -/
theorem Fits.append {log entries : List Entry} {c : Copy} {k : ℕ} (h : Fits log c k)
    (hother : ∀ entry ∈ entries, entry.id ≠ c.message.id) : Fits (log ++ entries) c k where
  le := h.le
  header := h.header
  handed := by
    have hnone : entries.count (.handed c.message.id) = 0 := by
      rw [List.count_eq_zero]
      exact fun hmem => hother _ hmem rfl
    rw [List.count_append, hnone, h.handed, Nat.add_zero]
  failed := by
    have hnone : entries.count (.failed c.message.id) = 0 := by
      rw [List.count_eq_zero]
      exact fun hmem => hother _ hmem rfl
    rw [List.count_append, hnone, h.failed, Nat.add_zero]
  admits := h.admits

/-- Exchange the copy that counts for others of its notification, with what was logged. -/
theorem Tallied.replace (h : Tallied s) (hget : s.copies[i]? = some copy)
    (hlive : copy.place.live = true) {copies : List Copy} {entries : List Entry}
    (hcopies : s'.copies = (s.replace i copies).copies) (haccepted : s'.accepted = s.accepted)
    (hlog : s'.log = s.log ++ entries)
    (hids : ∀ c ∈ copies, c.message.id = copy.message.id)
    (hentries : ∀ entry ∈ entries, entry.id = copy.message.id)
    (hone : copies.countP (fun c => c.place.live) + entries.count (.succeeded copy.message.id) +
      entries.count (.alerted copy.message.id) = 1)
    (hfits : ∀ k, Fits s.log copy k → ∀ c ∈ copies, c.place.live = true → ∃ k', Fits s'.log c k')
    (hhandled : ∀ k, Fits s.log copy k → .succeeded copy.message.id ∈ entries →
      s'.log.count (.failed copy.message.id) + 1 = s'.log.count (.handed copy.message.id) ∧
        s'.log.count (.handed copy.message.id) ≤ 4)
    (hreported : ∀ k, Fits s.log copy k → .alerted copy.message.id ∈ entries →
      s'.log.count (.failed copy.message.id) = 4 ∧ s'.log.count (.handed copy.message.id) = 4)
    (hsilent : entries.Pairwise fun a b => ∀ id, a = .succeeded id → b ≠ .handed id) :
    Tallied s' := by
  have halone := h.alone hget hlive
  have hmem : copy ∈ s.copies := List.mem_of_getElem? hget
  rcases h.fits copy hmem hlive with ⟨k, hk⟩
  have hsucceeded : .succeeded copy.message.id ∉ s.log :=
    List.count_eq_zero.mp halone.2.2.2.1
  have halerted : .alerted copy.message.id ∉ s.log :=
    List.count_eq_zero.mp halone.2.2.2.2.1
  -- what is logged is about this notification
  have hsame : ∀ {entry : Entry}, entry.id ≠ copy.message.id →
      s'.log.count entry = s.log.count entry := by
    intro entry hne
    have hnone : entries.count entry = 0 := by
      rw [List.count_eq_zero]
      exact fun hentry => hne (hentries entry hentry)
    rw [hlog, List.count_append, hnone, Nat.add_zero]
  constructor
  · intro id
    by_cases hid : id = copy.message.id
    · subst hid
      have hlive' : copies.countP (Copy.counts copy.message.id) =
          copies.countP fun c => c.place.live := by
        apply List.countP_congr
        intro c hc
        simp [Copy.counts, hids c hc]
      rw [hcopies, replace_copies, List.countP_append, List.countP_append, halone.2.1,
        halone.2.2.1, hlive', hlog, List.count_append, List.count_append, halone.2.2.2.1,
        halone.2.2.2.2.1, haccepted, if_pos halone.2.2.2.2.2]
      omega
    · have hnone : ∀ cs : List Copy, (∀ c ∈ cs, c.message.id = copy.message.id) →
          cs.countP (Copy.counts id) = 0 := by
        intro cs hcs
        rw [List.countP_eq_zero]
        intro c hc
        simp [Copy.counts, hcs c hc, Ne.symm hid]
      have honce := h.once id
      rw [copies_eq hget, List.countP_append, List.countP_append,
        hnone [copy] (by simp)] at honce
      rw [hcopies, replace_copies, List.countP_append, List.countP_append, hnone copies hids,
        @hsame (.succeeded id) hid, @hsame (.alerted id) hid, haccepted]
      exact honce
  · intro c hc hclive
    rw [hcopies, replace_copies, List.mem_append, List.mem_append] at hc
    by_cases hnew : c ∈ copies
    · exact hfits k hk c hnew hclive
    · have hold : c ∈ s.copies.take i ∨ c ∈ s.copies.drop (i + 1) := by tauto
      have hc' : c ∈ s.copies := by
        rcases hold with hold | hold
        · exact List.mem_of_mem_take hold
        · exact List.mem_of_mem_drop hold
      rcases h.fits c hc' hclive with ⟨k', hk'⟩
      refine ⟨k', hlog ▸ hk'.append fun entry hentry => ?_⟩
      rw [hentries entry hentry]
      exact (halone.1 c hold hclive).symm
  · intro id hid
    by_cases heq : id = copy.message.id
    · subst heq
      rw [hlog, List.mem_append] at hid
      exact hhandled k hk (hid.resolve_left hsucceeded)
    · rw [hlog, List.mem_append] at hid
      rw [@hsame (.failed id) heq, @hsame (.handed id) heq]
      exact h.handled id (hid.resolve_right fun hentry => heq (hentries _ hentry))
  · intro id hid
    by_cases heq : id = copy.message.id
    · subst heq
      rw [hlog, List.mem_append] at hid
      exact hreported k hk (hid.resolve_left halerted)
    · rw [hlog, List.mem_append] at hid
      rw [@hsame (.failed id) heq, @hsame (.handed id) heq]
      exact h.reported id (hid.resolve_right fun hentry => heq (hentries _ hentry))
  · intro id hid entry hentry
    rw [hlog, List.mem_append] at hentry
    rw [haccepted] at hid
    rcases hentry with hentry | hentry
    · exact h.fresh id hid entry hentry
    · rw [hentries entry hentry]
      exact Nat.ne_of_lt (Nat.lt_of_lt_of_le halone.2.2.2.2.2 hid)
  · rw [hlog, List.pairwise_append]
    refine ⟨h.silent, hsilent, ?_⟩
    rintro a ha b hb id rfl rfl
    have hid : id = copy.message.id := hentries _ hb
    exact hsucceeded (hid ▸ ha)

/-- A copy that does not count may go, or come back to no effect on the tally. -/
theorem Tallied.drop (h : Tallied s) (hget : s.copies[i]? = some copy)
    (hdead : copy.place.live = false) (hcopies : s'.copies = (s.replace i []).copies)
    (haccepted : s'.accepted = s.accepted) (hlog : s'.log = s.log) : Tallied s' := by
  constructor
  · intro id
    have honce := h.once id
    have hnone : Copy.counts id copy = false := by simp [Copy.counts, hdead]
    rw [copies_eq hget, List.countP_append, List.countP_append, List.countP_singleton,
      hnone] at honce
    rw [hcopies, replace_copies, List.countP_append, List.countP_append, hlog, haccepted]
    simpa using honce
  · intro c hc
    rw [hcopies] at hc
    have hc' : c ∈ s.copies := by
      rw [copies_eq hget]
      simp only [replace_copies, List.append_nil, List.mem_append] at hc ⊢
      tauto
    rw [hlog]
    exact h.fits c hc'
  · rw [hlog]
    exact h.handled
  · rw [hlog]
    exact h.reported
  · rw [hlog, haccepted]
    exact h.fresh
  · rw [hlog]
    exact h.silent

/-- Only the loops have moved. -/
theorem Tallied.setLoop (h : Tallied s) (worker : ℕ) (loop : Loop) :
    Tallied (s.setLoop worker loop) where
  once := h.once
  fits := h.fits
  handled := h.handled
  reported := h.reported
  fresh := h.fresh
  silent := h.silent

/-- A new notification is queued under a number that nothing has been logged about. -/
theorem Tallied.publish (h : Tallied s) {message : Message} {key : RoutingKey}
    (hid : message.id = s.accepted) (hheader : attemptOf message.headers = some 1) :
    Tallied { s with
      accepted := s.accepted + 1, copies := s.copies ++ [⟨message, .queue key⟩] } := by
  have hnew : s.copies.countP (Copy.counts s.accepted) = 0 ∧
      s.log.count (.succeeded s.accepted) = 0 ∧ s.log.count (.alerted s.accepted) = 0 := by
    have honce := h.once s.accepted
    rw [if_neg (Nat.lt_irrefl _)] at honce
    omega
  have hlog : ∀ entry : Entry, entry.id = s.accepted → s.log.count entry = 0 := by
    intro entry hentry
    rw [List.count_eq_zero]
    exact fun hmem => h.fresh s.accepted le_rfl entry hmem hentry
  constructor
  · intro id
    rw [List.countP_append, List.countP_singleton]
    by_cases heq : id = s.accepted
    · subst heq
      have hcounts : Copy.counts s.accepted ⟨message, .queue key⟩ = true := by
        simp [Copy.counts, hid, Place.live]
      rw [if_pos hcounts, hnew.1, hnew.2.1, hnew.2.2, if_pos (Nat.lt_succ_self _)]
    · have hcounts : ¬ Copy.counts id ⟨message, .queue key⟩ = true := by
        simp [Copy.counts, hid, Ne.symm heq]
      have hlt : id < s.accepted + 1 ↔ id < s.accepted := by omega
      rw [if_neg hcounts, Nat.add_zero]
      simp only [hlt]
      exact h.once id
  · intro c hc hlive
    rcases List.mem_append.mp hc with hc | hc
    · exact h.fits c hc hlive
    · rw [List.mem_singleton] at hc
      subst hc
      refine ⟨0, by omega, by simpa using hheader, ?_, ?_, trivial⟩
      · exact hlog (.handed message.id) hid
      · exact hlog (.failed message.id) hid
  · exact h.handled
  · exact h.reported
  · intro id hle
    exact h.fresh id (Nat.le_of_succ_le hle)
  · exact h.silent

/-- The branch that `retry_loop` takes follows from the failures of the notification. -/
theorem Fits.fetched_eq {log : List Entry} {message : Message} {key : RoutingKey} {k : ℕ}
    (h : Fits log ⟨message, .dlq key⟩ k) (worker : ℕ) : (fetched worker key message).1 =
      if k = 3 then .exhausted worker key (k + 1) else .retrying worker key (k + 1) := by
  by_cases hlast : k = 3
  · simp [fetched, h.header, maxRetries, hlast]
  · have hle := h.le
    have hmax : ¬ maxRetries < (k : ℤ) + 1 := by
      rw [maxRetries]
      omega
    simp [fetched, h.header, hmax, hlast]

theorem Fits.fetched {log : List Entry} {message : Message} {key : RoutingKey} {k : ℕ}
    (h : Fits log ⟨message, .dlq key⟩ k) (worker : ℕ) :
    (fetched worker key message).1.live = true ∧
      Fits log ⟨message, (fetched worker key message).1⟩ k := by
  rw [h.fetched_eq worker]
  by_cases hlast : k = 3
  · rw [if_pos hlast]
    exact ⟨rfl, h.le, h.header, h.handed, h.failed, hlast⟩
  · have hle := h.le
    rw [if_neg hlast]
    exact ⟨rfl, h.le, h.header, h.handed, h.failed, rfl, by omega⟩

/-- Move the copy that counts and log about its notification. -/
theorem Tallied.step {C : Carrier} (sound : C.Sound) {e : Event} (h : Tallied s)
    (hfree : CrashFree s e) (hstep : Happens C s e s') : Tallied s' := by
  cases hstep with
  | publish key body => exact h.publish rfl (attemptOf_publish sound)
  | @deliver worker i message key found hworker =>
    refine h.replace found rfl rfl rfl rfl ?_ ?_ ?_ ?_ ?_ ?_ ?_
    · simp
    · simp [Entry.id]
    · simp [Place.live]
    · intro k hk c hc _
      rw [List.mem_singleton] at hc
      subst hc
      exact ⟨k, hk.le, hk.header, by simpa [Place.handings] using hk.handed,
        by simpa [Place.failures] using hk.failed, trivial⟩
    · simp
    · simp
    · simp
  | @succeed worker i message key found =>
    refine h.replace found rfl rfl rfl rfl ?_ ?_ ?_ ?_ ?_ ?_ ?_
    · simp
    · simp [Entry.id]
    · simp [Place.live]
    · simp [Place.live]
    · intro k hk _
      have hhanded := hk.handed
      have hfailed := hk.failed
      have hle := hk.le
      simp only [Place.handings, Place.failures] at hhanded hfailed
      simp only [record_log, replace_log, List.count_append, hhanded, hfailed]
      simp
      omega
    · simp
    · simp
  | @fail worker i message key found =>
    refine h.replace found rfl rfl rfl rfl ?_ ?_ ?_ ?_ ?_ ?_ ?_
    · simp
    · simp [Entry.id]
    · simp [Place.live]
    · intro k hk c hc _
      rw [List.mem_singleton] at hc
      subst hc
      exact ⟨k, hk.le, hk.header, by simpa [Place.handings] using hk.handed,
        by simpa [Place.failures] using hk.failed, trivial⟩
    · simp
    · simp
    · simp
  | ack found => exact h.drop found rfl rfl rfl rfl
  | @reject worker i message key found =>
    refine h.replace found rfl rfl rfl (List.append_nil _).symm ?_ ?_ ?_ ?_ ?_ ?_ ?_
    · simp
    · simp
    · simp [Place.live]
    · intro k hk c hc _
      rw [List.mem_singleton] at hc
      subst hc
      exact ⟨k, hk.le, (attemptOf_deadLetter sound _).trans hk.header,
        by simpa [Place.handings] using hk.handed, by simpa [Place.failures] using hk.failed, trivial⟩
    · simp
    · simp
    · simp
  | wake _ => exact h.setLoop _ _
  | turn _ _ => exact h.setLoop _ _
  | @get worker i message key polls found =>
    apply Tallied.setLoop
    refine h.replace found rfl rfl rfl (List.append_nil _).symm ?_ ?_ ?_ ?_ ?_ ?_ ?_
    · simp
    · simp
    · rcases h.fits _ (List.mem_of_getElem? found) rfl with ⟨k, hk⟩
      simp [(hk.fetched worker).1]
    · intro k hk c hc _
      rw [List.mem_singleton] at hc
      subst hc
      exact ⟨k, (hk.fetched worker).2⟩
    · simp
    · simp
    · simp
  | @publishFails worker i message key attempt found =>
    apply Tallied.setLoop
    refine h.replace found rfl rfl rfl (List.append_nil _).symm ?_ ?_ ?_ ?_ ?_ ?_ ?_
    · simp
    · simp
    · simp [Place.live]
    · intro k hk c hc _
      rw [List.mem_singleton] at hc
      subst hc
      exact ⟨k, hk.le, hk.header, by simpa [Place.handings] using hk.handed,
        by simpa [Place.failures] using hk.failed, trivial⟩
    · simp
    · simp
    · simp
  | @republish worker i message key attempt found =>
    refine h.replace found rfl rfl rfl (List.append_nil _).symm ?_ ?_ ?_ ?_ ?_ ?_ ?_
    · simp [retryMessage]
    · simp
    · simp [Place.live]
    · intro k hk c hc hlive
      rcases List.mem_pair.mp hc with rfl | rfl
      · cases hlive
      · have hattempt : attempt = ((k + 1 : ℕ) : ℤ) := by
          rw [hk.admits.1]
          rfl
        have hlt : k < 3 := hk.admits.2
        -- the retry starts over with one more failure behind it
        refine ⟨k + 1, by omega, ?_, hk.handed, hk.failed, trivial⟩
        rw [hattempt]
        exact attemptOf_retry sound message (by omega)
    · simp
    · simp
    · simp
  | ackRetried found => exact (h.drop found rfl rfl rfl rfl : Tallied (s.replace _ [])).setLoop _ _
  | @ackExhausted worker i message key attempt found =>
    refine h.replace found rfl rfl rfl (List.append_nil _).symm ?_ ?_ ?_ ?_ ?_ ?_ ?_
    · simp
    · simp
    · simp [Place.live]
    · intro k hk c hc _
      rw [List.mem_singleton] at hc
      subst hc
      exact ⟨k, hk.le, hk.header, by simpa [Place.handings] using hk.handed,
        by simpa [Place.failures] using hk.failed, hk.admits⟩
    · simp
    · simp
    · simp
  | @alert worker i message key attempt found =>
    apply Tallied.setLoop
    refine h.replace found rfl rfl rfl rfl ?_ ?_ ?_ ?_ ?_ ?_ ?_
    · simp
    · simp [Entry.id]
    · simp
    · simp
    · simp
    · intro k hk _
      have hhanded := hk.handed
      have hfailed := hk.failed
      have hthree : k = 3 := hk.admits
      simp only [Place.handings, Place.failures, hthree] at hhanded hfailed
      simp [hhanded, hfailed]
    · simp
  | crash _ => exact absurd hfree id

end Tally

/-! ### What is left to do -/

/-- The failed attempts that the header tells. -/
def Copy.earlier (copy : Copy) : ℕ := ((attemptOf copy.message.headers).getD 1).toNat - 1

/-- A bound on the steps that a copy still takes. -/
def Copy.rank (copy : Copy) : ℕ :=
  match copy.place with
  | .queue _ => 10 * (4 - copy.earlier)
  | .handling .. => 10 * (4 - copy.earlier) - 1
  | .raised .. => 10 * (4 - copy.earlier) - 2
  | .dlq _ => 10 * (4 - copy.earlier) - 3
  | .retrying .. | .exhausted .. => 10 * (4 - copy.earlier) - 4
  | .alerting .. => 10 * (4 - copy.earlier) - 5
  | .sent .. | .published .. => 1
  | .halted .. => 0

def State.potential (s : State) : ℕ := (s.copies.map Copy.rank).sum

/-- The steps that take a copy further; a loop that wakes or finds its queue empty takes none. -/
def Event.moves : Event → Bool
  | .publish .. | .wake _ | .get _ none | .crash _ => false
  | _ => true

/-- No further notification is published. -/
def Closed (s : State) (e : Event) : Prop := CrashFree s e ∧ ∀ key body, e ≠ .publish key body

section Potential
variable {s s' : State} {i : ℕ} {copy : Copy}

theorem potential_replace (hget : s.copies[i]? = some copy) (copies : List Copy) :
    (s.replace i copies).potential + copy.rank = s.potential + (copies.map Copy.rank).sum := by
  have hsum : s.potential = ((s.copies.take i ++ [copy] ++ s.copies.drop (i + 1)).map Copy.rank).sum :=
    congrArg (fun cs => (cs.map Copy.rank).sum) (copies_eq hget)
  rw [hsum, State.potential, replace_copies]
  simp only [List.map_append, List.sum_append, List.map_singleton, List.sum_singleton]
  omega

theorem Fits.earlier {log : List Entry} {k : ℕ} (h : Fits log copy k) : copy.earlier = k := by
  rw [Copy.earlier, h.header, Option.getD_some]
  omega

theorem lowered (hget : s.copies[i]? = some copy) {copies : List Copy}
    (h : (copies.map Copy.rank).sum + 1 ≤ copy.rank) :
    (s.replace i copies).potential + 1 ≤ s.potential := by
  have hreplace := potential_replace hget copies
  omega

/-- Every step of a copy lowers the potential. -/
theorem potential_step {C : Carrier} (sound : C.Sound) {e : Event} (h : Tallied s)
    (hclosed : Closed s e) (hstep : Happens C s e s') :
    s'.potential + (if e.moves then 1 else 0) ≤ s.potential := by
  have hlive : ∀ {i : ℕ} {c : Copy}, s.copies[i]? = some c → c.place.live = true →
      ∃ k, Fits s.log c k := fun hget hc => h.fits _ (List.mem_of_getElem? hget) hc
  cases hstep with
  | publish key body => exact absurd rfl (hclosed.2 key body)
  | deliver found _ =>
    rcases hlive found rfl with ⟨k, hk⟩
    have hle := hk.le
    have hearlier := hk.earlier
    refine lowered found ?_
    simp only [List.map_singleton, List.sum_singleton, Copy.rank, Copy.earlier] at hearlier ⊢
    omega
  | succeed found =>
    rcases hlive found rfl with ⟨k, hk⟩
    have hle := hk.le
    have hearlier := hk.earlier
    refine lowered found ?_
    simp only [List.map_singleton, List.sum_singleton, Copy.rank, Copy.earlier] at hearlier ⊢
    omega
  | fail found =>
    rcases hlive found rfl with ⟨k, hk⟩
    have hle := hk.le
    have hearlier := hk.earlier
    refine lowered found ?_
    simp only [List.map_singleton, List.sum_singleton, Copy.rank, Copy.earlier] at hearlier ⊢
    omega
  | ack found => exact lowered found (by simp [Copy.rank])
  | reject found =>
    rcases hlive found rfl with ⟨k, hk⟩
    have hle := hk.le
    have hearlier := hk.earlier
    refine lowered found ?_
    simp only [List.map_singleton, List.sum_singleton, Copy.rank, Copy.earlier,
      attemptOf_deadLetter sound] at hearlier ⊢
    omega
  | wake _ => exact Nat.le_refl _
  | turn _ _ => exact Nat.le_refl _
  | @get worker i message key polls found =>
    rcases hlive found rfl with ⟨k, hk⟩
    have hle := hk.le
    have hearlier := hk.earlier
    refine lowered found ?_
    rw [List.map_singleton, List.sum_singleton, hk.fetched_eq worker]
    by_cases hlast : k = 3
    · simp only [if_pos hlast, Copy.rank, Copy.earlier] at hearlier ⊢
      omega
    · simp only [if_neg hlast, Copy.rank, Copy.earlier] at hearlier ⊢
      omega
  | @publishFails worker i message key attempt found =>
    rcases hlive found rfl with ⟨k, hk⟩
    have hle := hk.le
    have hearlier := hk.earlier
    refine (lowered found ?_ : (s.replace i [⟨message, .halted worker key⟩]).potential + 1 ≤
      s.potential)
    simp only [List.map_singleton, List.sum_singleton, Copy.rank, Copy.earlier] at hearlier ⊢
    omega
  | @republish worker i message key attempt found =>
    rcases hlive found rfl with ⟨k, hk⟩
    have hlt : k < 3 := hk.admits.2
    have hattempt : attempt = ((k + 1 : ℕ) : ℤ) := by
      rw [hk.admits.1]
      rfl
    have hearlier := hk.earlier
    have hretry : attemptOf (retryMessage C message attempt).headers =
        some (((k + 1 : ℕ) : ℤ) + 1) := by
      rw [hattempt]
      exact attemptOf_retry sound message (by omega)
    refine lowered found ?_
    simp only [List.map_cons, List.map_nil, List.sum_cons, List.sum_nil, Copy.rank, Copy.earlier,
      hretry, Option.getD_some] at hearlier ⊢
    omega
  | ackRetried found =>
    exact (lowered found (by simp [Copy.rank]) : (s.replace _ []).potential + 1 ≤ s.potential)
  | ackExhausted found =>
    rcases hlive found rfl with ⟨k, hk⟩
    have hle := hk.le
    have hearlier := hk.earlier
    refine lowered found ?_
    simp only [List.map_singleton, List.sum_singleton, Copy.rank, Copy.earlier] at hearlier ⊢
    omega
  | @alert worker i message key attempt found =>
    rcases hlive found rfl with ⟨k, hk⟩
    have hle := hk.le
    have hearlier := hk.earlier
    refine (lowered found ?_ : (s.replace i []).potential + 1 ≤ s.potential)
    simp only [List.map_nil, List.sum_nil, Copy.rank]
    omega
  | crash _ => exact absurd hclosed.1 id

end Potential

/-! ### The bounds -/

/-- A copy that counts is under way. -/
def UnderWay (s : State) (id : ℕ) : Prop :=
  ∃ copy ∈ s.copies, copy.message.id = id ∧ copy.place.live = true

instance (s : State) (id : ℕ) : Decidable (UnderWay s id) :=
  inferInstanceAs (Decidable (∃ copy ∈ s.copies, _))

section Bounds
variable {s : State} {id : ℕ}

theorem underWay_iff : UnderWay s id ↔ 0 < s.copies.countP (Copy.counts id) := by
  simp [UnderWay, List.countP_pos_iff, Copy.counts]

theorem Tallied.fits_underWay (h : Tallied s) (hunder : UnderWay s id) :
    ∃ copy k, Fits s.log copy k ∧ copy.message.id = id := by
  rcases hunder with ⟨copy, hcopy, hid, hlive⟩
  rcases h.fits copy hcopy hlive with ⟨k, hk⟩
  exact ⟨copy, k, hk, hid⟩

/-- Nothing is logged about a notification that the exchange has not accepted. -/
theorem Tallied.count_fresh (h : Tallied s) (hid : s.accepted ≤ id) {entry : Entry}
    (hentry : entry.id = id) : s.log.count entry = 0 := by
  rw [List.count_eq_zero]
  exact fun hmem => h.fresh id hid entry hmem hentry

theorem Tallied.handed_le (h : Tallied s) (id : ℕ) : s.log.count (.handed id) ≤ 4 := by
  by_cases hid : id < s.accepted
  · have honce := h.once id
    rw [if_pos hid] at honce
    by_cases hunder : UnderWay s id
    · rcases h.fits_underWay hunder with ⟨copy, k, hk, rfl⟩
      have hle := hk.le
      have hhandings : copy.place.handings ≤ 1 := by
        unfold Place.handings
        split <;> omega
      rw [hk.handed]
      omega
    · rw [underWay_iff] at hunder
      by_cases hsucceeded : .succeeded id ∈ s.log
      · exact (h.handled id hsucceeded).2
      · rw [← List.count_eq_zero] at hsucceeded
        have halerted : .alerted id ∈ s.log := by
          rw [← List.count_pos_iff]
          omega
        exact (h.reported id halerted).2.le
  · rw [h.count_fresh (not_lt.mp hid) rfl]
    omega

/-- The alerts of a notification are exactly what its failures and its copy tell. -/
theorem Tallied.alerts (h : Tallied s) (id : ℕ) : s.log.count (.alerted id) =
    if s.log.count (.failed id) = 4 ∧ ¬ UnderWay s id then 1 else 0 := by
  by_cases hid : id < s.accepted
  · have honce := h.once id
    rw [if_pos hid] at honce
    by_cases halerted : .alerted id ∈ s.log
    · have hpos := List.count_pos_iff.mpr halerted
      have hnot : ¬ UnderWay s id := by
        rw [underWay_iff]
        omega
      rw [if_pos ⟨(h.reported id halerted).1, hnot⟩]
      omega
    · have hzero := List.count_eq_zero.mpr halerted
      rw [hzero, if_neg]
      rintro ⟨hfailed, hnot⟩
      rw [underWay_iff] at hnot
      have hsucceeded : .succeeded id ∈ s.log := by
        rw [← List.count_pos_iff]
        omega
      have hhandled := h.handled id hsucceeded
      omega
  · have hge := not_lt.mp hid
    rw [h.count_fresh hge rfl, h.count_fresh hge rfl]
    rfl

theorem Tallied.not_handed_after (h : Tallied s) {before after : List Entry}
    (hlog : s.log = before ++ .succeeded id :: after) : .handed id ∉ after := by
  have hsilent := h.silent
  rw [hlog, List.pairwise_append, List.pairwise_cons] at hsilent
  intro hmem
  exact hsilent.2.1.1 _ hmem id rfl rfl

end Bounds

/-- A `get` of a drain loop always has an answer: a message of the queue, or none. -/
theorem get_returns (C : Carrier) {s : State} {worker : ℕ} {key : RoutingKey}
    (h : s.loops[worker]? = some (.polling key)) : ∃ copy, (next C s (.get worker copy)).isSome := by
  by_cases hempty : s.copies.any (fun copy => copy.place = .dlq key) = true
  · rcases List.any_eq_true.mp hempty with ⟨copy, hcopy, hplace⟩
    rcases List.mem_iff_getElem?.mp hcopy with ⟨i, hi⟩
    rcases copy with ⟨message, place⟩
    have hplace' : place = .dlq key := of_decide_eq_true hplace
    subst hplace'
    exact ⟨some i, by simp [next, h, hi]⟩
  · exact ⟨none, by simp [next, h, hempty]⟩

/-- Whatever the order of deliveries and retries, a notification reaches its handler at most
`MAX_RETRIES + 1` times and never after a success; it is reported once when all these handlings
failed and nothing of it is under way, and never otherwise; and a drain loop, whose every `get` has
an answer, gets messages a bounded number of times, like all steps of copies. -/
theorem retries_bounded (C : Carrier) (sound : C.Sound) (workers : ℕ) {events : List Event}
    {s : State} (run : Steps (next C) CrashFree (State.start workers) events s) :
    (∀ id, (s.log.count (.handed id) : ℤ) ≤ maxRetries + 1) ∧
    (∀ id before after, s.log = before ++ .succeeded id :: after → .handed id ∉ after) ∧
    (∀ id, s.log.count (.alerted id) =
      if (s.log.count (.failed id) : ℤ) = maxRetries + 1 ∧ ¬ UnderWay s id then 1 else 0) ∧
    (∀ worker key, s.loops[worker]? = some (.polling key) →
      ∃ copy, (next C s (.get worker copy)).isSome) ∧
    ∀ events' s', Steps (next C) Closed s events' s' →
      events'.countP Event.moves ≤ s.potential := by
  have htally : Tallied s := run.keeps (tallied_start workers) fun h hfree hnext =>
    h.step sound hfree (happens_of_next hnext)
  refine ⟨?_, fun id before after hlog => htally.not_handed_after hlog, ?_,
    fun worker key => get_returns C, ?_⟩
  · intro id
    have hle := htally.handed_le id
    rw [maxRetries]
    omega
  · intro id
    have hfour : ((s.log.count (.failed id) : ℤ) = maxRetries + 1) ↔
        s.log.count (.failed id) = 4 := by
      rw [maxRetries]
      omega
    simp only [hfour]
    exact htally.alerts id
  · intro events' s' rest
    have hbound := rest.countP_le htally
      (fun h hclosed hnext => h.step sound hclosed.1 (happens_of_next hnext)) State.potential
      Event.moves fun h hclosed hnext => potential_step sound h hclosed (happens_of_next hnext)
    omega

section Sample

theorem sampleCarrier_sound : sampleCarrier.Sound where
  inject fields := lookup_setHeader_ne fields (by decide) _
  deadLetter headers := lookup_setHeader_ne headers (by decide) _

/-- Four failed handlings end in one report. -/
theorem retries_bounded_sample :
    ∃ s, Steps (next sampleCarrier) CrashFree (State.start 1) (exhaustion ++ [.alert 0]) s ∧
      s.log.count (.alerted 0) = 1 ∧ (s.log.count (.handed 0) : ℤ) ≤ maxRetries + 1 := by
  rcases exists_steps (next sampleCarrier) CrashFree (State.start 1) (exhaustion ++ [.alert 0])
    (fun s => s.log.count (.alerted 0) = 1) (by decide +kernel) with ⟨s, run, halerted⟩
  exact ⟨s, run, of_decide_eq_true halerted,
    (retries_bounded sampleCarrier sampleCarrier_sound 1 run).1 0⟩

end Sample
end PhantomShare.NotificationWorker
