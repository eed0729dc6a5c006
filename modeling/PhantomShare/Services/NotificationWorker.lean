import PhantomShare.Internet.ClientIp

/-!
# The notification worker

`notification_worker.py` with the headers of `amqp_tracing.py`. Every routing key has a
main queue, which dead-letters into the queue that `retry_loop` pairs with the same
key. The state keeps every copy of a notification that the broker or a worker has, with
the place where it is; `log` is what handlers and alerts did. What a notification says,
and whether its handler succeeds, is left open.
-/
namespace PhantomShare.NotificationWorker
open Internet

inductive RoutingKey where
  | email
  | webhook
  deriving DecidableEq, Repr

def maxRetries : ℤ := 3

/-! ### Headers -/

/-- The value of a header: the workers publish texts, and what the broker adds are integers and
tables, of which only `str` matters. -/
inductive HeaderValue where
  | text (value : Text)
  | int (value : ℤ)
  | table (shown : Text)
  deriving DecidableEq, Repr

abbrev Headers := List (String × HeaderValue)

/-- `str` of an integer. -/
def str (n : ℤ) : Text :=
  if n < 0 then '-' :: Nat.toDigits 10 n.natAbs else Nat.toDigits 10 n.natAbs

/-- Groups of decimal digits with underscores between them. -/
def readDigits (text : Text) : Option ℕ :=
  if (text.splitOn '_').all isAsciiDigits then some (decimalValue (text.filter (· ≠ '_'))) else none

/-- `int` of a text with ASCII digits. -/
def int (text : Text) : Option ℤ :=
  match strip text with
  | '-' :: digits => (readDigits digits).map fun n => -(n : ℤ)
  | '+' :: digits => (readDigits digits).map Int.ofNat
  | digits => (readDigits digits).map Int.ofNat

def HeaderValue.str : HeaderValue → Text
  | text value => value
  | int value => NotificationWorker.str value
  | table shown => shown

def attemptHeader : String := "x-retry-attempt"

/-- `int(str(headers.get("x-retry-attempt", 0))) + 1`; `none` is an exception. -/
def attemptOf (headers : Headers) : Option ℤ :=
  (int (((headers.lookup attemptHeader).map HeaderValue.str).getD (str 0))).map (· + 1)

/-- A dictionary display whose last entry replaces an earlier one of its key. -/
def setHeader {α : Type} (headers : List (String × α)) (key : String) (value : α) :
    List (String × α) :=
  headers.filter (fun entry => entry.1 ≠ key) ++ [(key, value)]

/-- `_carrier`. -/
def carrier (headers : Headers) : List (String × Text) :=
  headers.map fun entry => (entry.1, entry.2.str)

/-- What `propagate.inject` adds and what the broker adds when it dead-letters. -/
structure Carrier where
  inject : List (String × Text) → List (String × Text)
  deadLetter : Headers → Headers

/-- Neither touches the header of the attempts. -/
structure Carrier.Sound (C : Carrier) : Prop where
  inject : ∀ fields, (C.inject fields).lookup attemptHeader = fields.lookup attemptHeader
  deadLetter : ∀ headers, (C.deadLetter headers).lookup attemptHeader = headers.lookup attemptHeader

/-- `inject_trace_headers`. -/
def injectTraceHeaders (C : Carrier) (headers : Headers) : Headers :=
  (C.inject (carrier headers)).map fun field => (field.1, .text field.2)

/-! ### The broker and the workers -/

/-- `id` tells which notification a message carries. -/
structure Message where
  id : ℕ
  body : String
  headers : Headers
  deriving DecidableEq, Repr

/-- Where a copy is. After `queue` and `dlq` the worker that holds it comes first. -/
inductive Place where
  | queue (key : RoutingKey)
  | handling (worker : ℕ) (key : RoutingKey)
  | sent (worker : ℕ) (key : RoutingKey)
  | raised (worker : ℕ) (key : RoutingKey)
  | dlq (key : RoutingKey)
  | retrying (worker : ℕ) (key : RoutingKey) (attempt : ℤ)
  | published (worker : ℕ) (key : RoutingKey)
  | exhausted (worker : ℕ) (key : RoutingKey) (attempt : ℤ)
  | alerting (worker : ℕ) (key : RoutingKey) (attempt : ℤ)
  | halted (worker : ℕ) (key : RoutingKey)
  deriving DecidableEq, Repr

structure Copy where
  message : Message
  place : Place
  deriving DecidableEq, Repr

/-- Where `retry_loop` of a worker is: in its sleep, before a `get`, busy with a message, or ended
by an exception. -/
inductive Loop where
  | sleeping
  | polling (key : RoutingKey)
  | busy
  | ended
  deriving DecidableEq, Repr

inductive Entry where
  | handed (id : ℕ)
  | succeeded (id : ℕ)
  | failed (id : ℕ)
  | alerted (id : ℕ)
  deriving DecidableEq, Repr

/-- The exchange has accepted the notifications below `accepted`. -/
structure State where
  accepted : ℕ
  copies : List Copy
  loops : List Loop
  log : List Entry
  deriving DecidableEq, Repr

/-- Nothing published, and every worker in the sleep of its loop. -/
def State.start (workers : ℕ) : State where
  accepted := 0
  copies := []
  loops := List.replicate workers .sleeping
  log := []

/-- Put other copies in the place of the copy with an index. -/
def State.replace (s : State) (i : ℕ) (copies : List Copy) : State :=
  { s with copies := s.copies.take i ++ copies ++ s.copies.drop (i + 1) }

def State.move (s : State) (i : ℕ) (copy : Copy) (place : Place) : State :=
  s.replace i [{ copy with place := place }]

def State.record (s : State) (entry : Entry) : State := { s with log := s.log ++ [entry] }

def State.setLoop (s : State) (worker : ℕ) (loop : Loop) : State :=
  { s with loops := s.loops.set worker loop }

/-- What an event names a copy by is its index. -/
inductive Event where
  | publish (key : RoutingKey) (body : String)
  | deliver (worker copy : ℕ)
  | finish (copy : ℕ) (succeeds : Bool)
  | settle (copy : ℕ)
  | wake (worker : ℕ)
  | get (worker : ℕ) (copy : Option ℕ)
  | republish (copy : ℕ) (fails : Bool)
  | ackRetried (copy : ℕ)
  | ackExhausted (copy : ℕ)
  | alert (copy : ℕ)
  | crash (worker : ℕ)
  deriving DecidableEq, Repr

/-- What a worker's crash does to a copy: the broker takes back what is not acknowledged. -/
def Place.afterCrash (worker : ℕ) : Place → Option Place
  | .handling w key => some (if w = worker then .queue key else .handling w key)
  | .sent w key => some (if w = worker then .queue key else .sent w key)
  | .raised w key => some (if w = worker then .queue key else .raised w key)
  | .retrying w key attempt => some (if w = worker then .dlq key else .retrying w key attempt)
  | .published w key => some (if w = worker then .dlq key else .published w key)
  | .exhausted w key attempt => some (if w = worker then .dlq key else .exhausted w key attempt)
  | .halted w key => some (if w = worker then .dlq key else .halted w key)
  | .alerting w key attempt => if w = worker then none else some (.alerting w key attempt)
  | place => some place

def Copy.afterCrash (worker : ℕ) (copy : Copy) : Option Copy :=
  (copy.place.afterCrash worker).map fun place => { copy with place := place }

/-- What `retry_loop` does with a message that it got. -/
def fetched (worker : ℕ) (key : RoutingKey) (message : Message) : Place × Loop :=
  match attemptOf message.headers with
  | none => (.halted worker key, .ended)
  | some attempt =>
    if maxRetries < attempt then (.exhausted worker key attempt, .busy)
    else (.retrying worker key attempt, .busy)

/-- The queue that the loop turns to when one is empty. -/
def nextLoop : RoutingKey → Loop
  | .email => .polling .webhook
  | .webhook => .sleeping

/-- The message that `retry_loop` publishes. -/
def retryMessage (C : Carrier) (message : Message) (attempt : ℤ) : Message :=
  { message with headers := injectTraceHeaders C (setHeader message.headers attemptHeader (.int attempt)) }

/-- One step of the exchange, a consumer or a retry loop, or the crash of a worker. -/
def next (C : Carrier) (s : State) : Event → Option State
  | .publish key body =>
    some { s with
      accepted := s.accepted + 1
      copies := s.copies ++ [⟨⟨s.accepted, body, injectTraceHeaders C []⟩, .queue key⟩] }
  | .deliver worker i =>
    match s.copies[i]? with
    | some ⟨message, .queue key⟩ =>
      if worker < s.loops.length then
        some ((s.move i ⟨message, .queue key⟩ (.handling worker key)).record (.handed message.id))
      else none
    | _ => none
  | .finish i succeeds =>
    match s.copies[i]? with
    | some ⟨message, .handling worker key⟩ =>
      if succeeds then
        some ((s.move i ⟨message, .handling worker key⟩ (.sent worker key)).record
          (.succeeded message.id))
      else
        some ((s.move i ⟨message, .handling worker key⟩ (.raised worker key)).record
          (.failed message.id))
    | _ => none
  | .settle i =>
    match s.copies[i]? with
    | some ⟨_, .sent _ _⟩ => some (s.replace i [])
    | some ⟨message, .raised _ key⟩ =>
      some (s.replace i [⟨{ message with headers := C.deadLetter message.headers }, .dlq key⟩])
    | _ => none
  | .wake worker =>
    match s.loops[worker]? with
    | some .sleeping => some (s.setLoop worker (.polling .email))
    | _ => none
  | .get worker none =>
    match s.loops[worker]? with
    | some (.polling key) =>
      if s.copies.any fun copy => copy.place = .dlq key then none
      else some (s.setLoop worker (nextLoop key))
    | _ => none
  | .get worker (some i) =>
    match s.loops[worker]?, s.copies[i]? with
    | some (.polling key), some ⟨message, .dlq key'⟩ =>
      if key = key' then
        some ((s.move i ⟨message, .dlq key⟩ (fetched worker key message).1).setLoop worker
          (fetched worker key message).2)
      else none
    | _, _ => none
  | .republish i fails =>
    match s.copies[i]? with
    | some ⟨message, .retrying worker key attempt⟩ =>
      if fails then
        some ((s.move i ⟨message, .retrying worker key attempt⟩ (.halted worker key)).setLoop worker
          .ended)
      else
        some (s.replace i
          [⟨message, .published worker key⟩, ⟨retryMessage C message attempt, .queue key⟩])
    | _ => none
  | .ackRetried i =>
    match s.copies[i]? with
    | some ⟨_, .published worker key⟩ => some ((s.replace i []).setLoop worker (.polling key))
    | _ => none
  | .ackExhausted i =>
    match s.copies[i]? with
    | some ⟨message, .exhausted worker key attempt⟩ =>
      some (s.move i ⟨message, .exhausted worker key attempt⟩ (.alerting worker key attempt))
    | _ => none
  | .alert i =>
    match s.copies[i]? with
    | some ⟨message, .alerting worker key _⟩ =>
      some (((s.replace i []).record (.alerted message.id)).setLoop worker (.polling key))
    | _ => none
  | .crash worker =>
    if worker < s.loops.length then
      some { s with
        copies := s.copies.filterMap (Copy.afterCrash worker)
        loops := s.loops.set worker .sleeping }
    else none

/-! ### What a step does -/

@[simp] theorem replace_copies (s : State) (i : ℕ) (copies : List Copy) :
    (s.replace i copies).copies = s.copies.take i ++ copies ++ s.copies.drop (i + 1) := rfl
@[simp] theorem replace_log (s : State) (i : ℕ) (copies : List Copy) :
    (s.replace i copies).log = s.log := rfl
@[simp] theorem replace_accepted (s : State) (i : ℕ) (copies : List Copy) :
    (s.replace i copies).accepted = s.accepted := rfl
@[simp] theorem record_copies (s : State) (entry : Entry) : (s.record entry).copies = s.copies := rfl
@[simp] theorem record_log (s : State) (entry : Entry) : (s.record entry).log = s.log ++ [entry] :=
  rfl
@[simp] theorem record_accepted (s : State) (entry : Entry) :
    (s.record entry).accepted = s.accepted := rfl
@[simp] theorem setLoop_copies (s : State) (worker : ℕ) (loop : Loop) :
    (s.setLoop worker loop).copies = s.copies := rfl
@[simp] theorem setLoop_log (s : State) (worker : ℕ) (loop : Loop) :
    (s.setLoop worker loop).log = s.log := rfl
@[simp] theorem setLoop_accepted (s : State) (worker : ℕ) (loop : Loop) :
    (s.setLoop worker loop).accepted = s.accepted := rfl

theorem copies_eq {s : State} {i : ℕ} {copy : Copy} (h : s.copies[i]? = some copy) :
    s.copies = s.copies.take i ++ [copy] ++ s.copies.drop (i + 1) := by
  rcases List.getElem?_eq_some_iff.mp h with ⟨hi, rfl⟩
  simp

/-- The steps, each with the copy that it finds and what it leaves. -/
inductive Happens (C : Carrier) (s : State) : Event → State → Prop
  | publish (key : RoutingKey) (body : String) : Happens C s (.publish key body)
      { s with
        accepted := s.accepted + 1
        copies := s.copies ++ [⟨⟨s.accepted, body, injectTraceHeaders C []⟩, .queue key⟩] }
  | deliver {worker i : ℕ} {message : Message} {key : RoutingKey}
      (found : s.copies[i]? = some ⟨message, .queue key⟩) (hworker : worker < s.loops.length) :
      Happens C s (.deliver worker i)
        ((s.replace i [⟨message, .handling worker key⟩]).record (.handed message.id))
  | succeed {worker i : ℕ} {message : Message} {key : RoutingKey}
      (found : s.copies[i]? = some ⟨message, .handling worker key⟩) :
      Happens C s (.finish i true)
        ((s.replace i [⟨message, .sent worker key⟩]).record (.succeeded message.id))
  | fail {worker i : ℕ} {message : Message} {key : RoutingKey}
      (found : s.copies[i]? = some ⟨message, .handling worker key⟩) :
      Happens C s (.finish i false)
        ((s.replace i [⟨message, .raised worker key⟩]).record (.failed message.id))
  | ack {worker i : ℕ} {message : Message} {key : RoutingKey}
      (found : s.copies[i]? = some ⟨message, .sent worker key⟩) :
      Happens C s (.settle i) (s.replace i [])
  | reject {worker i : ℕ} {message : Message} {key : RoutingKey}
      (found : s.copies[i]? = some ⟨message, .raised worker key⟩) :
      Happens C s (.settle i)
        (s.replace i [⟨{ message with headers := C.deadLetter message.headers }, .dlq key⟩])
  | wake {worker : ℕ} (asleep : s.loops[worker]? = some .sleeping) :
      Happens C s (.wake worker) (s.setLoop worker (.polling .email))
  | turn {worker : ℕ} {key : RoutingKey} (polls : s.loops[worker]? = some (.polling key))
      (empty : ∀ copy ∈ s.copies, copy.place ≠ .dlq key) :
      Happens C s (.get worker none) (s.setLoop worker (nextLoop key))
  | get {worker i : ℕ} {message : Message} {key : RoutingKey}
      (polls : s.loops[worker]? = some (.polling key))
      (found : s.copies[i]? = some ⟨message, .dlq key⟩) :
      Happens C s (.get worker (some i))
        ((s.replace i [⟨message, (fetched worker key message).1⟩]).setLoop worker
          (fetched worker key message).2)
  | publishFails {worker i : ℕ} {message : Message} {key : RoutingKey} {attempt : ℤ}
      (found : s.copies[i]? = some ⟨message, .retrying worker key attempt⟩) :
      Happens C s (.republish i true)
        ((s.replace i [⟨message, .halted worker key⟩]).setLoop worker .ended)
  | republish {worker i : ℕ} {message : Message} {key : RoutingKey} {attempt : ℤ}
      (found : s.copies[i]? = some ⟨message, .retrying worker key attempt⟩) :
      Happens C s (.republish i false) (s.replace i
        [⟨message, .published worker key⟩, ⟨retryMessage C message attempt, .queue key⟩])
  | ackRetried {worker i : ℕ} {message : Message} {key : RoutingKey}
      (found : s.copies[i]? = some ⟨message, .published worker key⟩) :
      Happens C s (.ackRetried i) ((s.replace i []).setLoop worker (.polling key))
  | ackExhausted {worker i : ℕ} {message : Message} {key : RoutingKey} {attempt : ℤ}
      (found : s.copies[i]? = some ⟨message, .exhausted worker key attempt⟩) :
      Happens C s (.ackExhausted i) (s.replace i [⟨message, .alerting worker key attempt⟩])
  | alert {worker i : ℕ} {message : Message} {key : RoutingKey} {attempt : ℤ}
      (found : s.copies[i]? = some ⟨message, .alerting worker key attempt⟩) :
      Happens C s (.alert i)
        (((s.replace i []).record (.alerted message.id)).setLoop worker (.polling key))
  | crash {worker : ℕ} (hworker : worker < s.loops.length) : Happens C s (.crash worker)
      { s with
        copies := s.copies.filterMap (Copy.afterCrash worker)
        loops := s.loops.set worker .sleeping }

theorem happens_of_next {C : Carrier} {s s' : State} {e : Event} (h : next C s e = some s') :
    Happens C s e s' := by
  cases e with
  | publish key body =>
    cases h
    exact .publish key body
  | deliver worker i =>
    simp only [next] at h
    split at h
    · rename_i found
      split at h
      · rename_i hworker
        cases h
        exact .deliver found hworker
      · cases h
    · cases h
  | finish i succeeds =>
    simp only [next] at h
    split at h
    · rename_i found
      cases succeeds with
      | true => cases h; exact .succeed found
      | false => cases h; exact .fail found
    · cases h
  | settle i =>
    simp only [next] at h
    split at h
    · rename_i found
      cases h
      exact .ack found
    · rename_i found
      cases h
      exact .reject found
    · cases h
  | wake worker =>
    simp only [next] at h
    split at h
    · rename_i asleep
      cases h
      exact .wake asleep
    · cases h
  | get worker copy =>
    cases copy with
    | none =>
      simp only [next] at h
      split at h
      · rename_i key polls
        split at h
        · cases h
        · rename_i hempty
          cases h
          refine .turn polls fun copy hcopy hplace => hempty ?_
          exact List.any_eq_true.mpr ⟨copy, hcopy, decide_eq_true hplace⟩
      · cases h
    | some i =>
      simp only [next] at h
      split at h
      · rename_i key message key' polls found
        split at h
        · rename_i hkey
          subst hkey
          cases h
          exact .get polls found
        · cases h
      · cases h
  | republish i fails =>
    simp only [next] at h
    split at h
    · rename_i found
      cases fails with
      | true => cases h; exact .publishFails found
      | false => cases h; exact .republish found
    · cases h
  | ackRetried i =>
    simp only [next] at h
    split at h
    · rename_i found
      cases h
      exact .ackRetried found
    · cases h
  | ackExhausted i =>
    simp only [next] at h
    split at h
    · rename_i found
      cases h
      exact .ackExhausted found
    · cases h
  | alert i =>
    simp only [next] at h
    split at h
    · rename_i found
      cases h
      exact .alert found
    · cases h
  | crash worker =>
    simp only [next] at h
    split at h
    · rename_i hworker
      cases h
      exact .crash hworker
    · cases h

end PhantomShare.NotificationWorker
