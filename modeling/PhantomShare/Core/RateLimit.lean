import Mathlib.Data.Rat.Defs
import Mathlib.Algebra.Order.Ring.Rat
import PhantomShare.Foundations.Program
import PhantomShare.Foundations.Table
import PhantomShare.Internet.ClientIp

/-!
# The sliding-window limiter

`rate_limit.py`. A call reads the clock, draws a token and then runs a script in
Redis, which keeps the tokens of the accepted calls in a sorted set with their
readings of the clock as scores. Numbers are rationals, and drawn tokens are new.
-/
namespace PhantomShare.RateLimit
open Foundations Internet

/-- The result of `secrets.token_hex`. -/
abbrev Token := ℕ

/-- A member of a sorted set with its score. -/
structure Entry where
  member : Token
  score : ℚ
  deriving DecidableEq, Repr

/-- A key with its sorted set and the time after which it has expired. -/
structure Bucket where
  key : Text
  entries : Table Entry.member
  expiresAt : ℚ

abbrev Store := Table Bucket.key

/-- The sorted set that a command finds under a key. -/
def Store.entries (store : Store) (key : Text) (time : ℚ) : Table Entry.member :=
  match store.find key with
  | some bucket => if bucket.expiresAt < time then .empty else bucket.entries
  | none => .empty

/-- What the script returns; `oldest` is the smallest score, where there is one. -/
structure Reply where
  accepted : Bool
  count : ℕ
  oldest : Option ℚ
  deriving DecidableEq, Repr

/-- `ZREMRANGEBYSCORE key 0 window_start`. -/
def prune (windowStart : ℚ) (entries : Table Entry.member) : Table Entry.member :=
  entries.deleteWhere fun e => 0 ≤ e.score ∧ e.score ≤ windowStart

/-- `EXPIRE` after `ZADD`; a key that gets no time to live is deleted. -/
def Store.expire (store : Store) (key : Text) (entries : Table Entry.member) (windowSeconds : ℤ)
    (time : ℚ) : Store :=
  if windowSeconds ≤ 0 then store.deleteWhere fun bucket => bucket.key = key
  else store.put ⟨key, entries, time + windowSeconds⟩

/-- The key keeps its time to live, and a key without members is deleted. -/
def Store.pruned (store : Store) (key : Text) (entries : Table Entry.member) : Store :=
  match store.find key with
  | some bucket =>
    if entries.rows = [] then store.deleteWhere fun bucket => bucket.key = key
    else store.put ⟨key, entries, bucket.expiresAt⟩
  | none => store

/-- `_SLIDING_WINDOW_SCRIPT`; `time` is what the clock shows while it runs. -/
def slidingWindow (key : Text) (now windowStart : ℚ) (windowSeconds : ℤ) (maxRequests : ℕ)
    (token : Token) (time : ℚ) (store : Store) : Reply × Store :=
  let entries := prune windowStart (store.entries key time)
  if maxRequests ≤ entries.rows.length then
    (⟨false, entries.rows.length, (entries.rows.map Entry.score).min?⟩, store.pruned key entries)
  else
    (⟨true, entries.rows.length + 1, none⟩,
      store.expire key (entries.put ⟨token, now⟩) windowSeconds time)

/-- An accepted call: its key, its token and what it read from the clock. -/
structure Accepted where
  key : Text
  token : Token
  timestamp : ℚ
  deriving DecidableEq, Repr

/-- A script that accepted its call: the key, what the call read from the clock, and what the clock
showed while the script ran. -/
structure Ran where
  key : Text
  timestamp : ℚ
  time : ℚ
  deriving DecidableEq, Repr

/-- Redis, the clock and the cached digest of the script. `drawn` remembers which call drew which
token, `scripts` the scripts that accepted a call, and `accepted` the calls that learnt of it. -/
structure Server where
  time : ℚ
  store : Store
  scriptSha : Bool
  drawn : List (Token × ℕ)
  scripts : List Ran
  accepted : List Accepted

/-- A server with any sorted sets and no call. -/
def serverOf (store : Store) (time : ℚ) (scriptSha : Bool) : Server where
  time := time
  store := store
  scriptSha := scriptSha
  drawn := []
  scripts := []
  accepted := []

/-- A script has run in Redis, with what it returned and left. -/
def Server.ran (s : Server) (key : Text) (now : ℚ) (ran : Reply × Store) : Server :=
  { s with
    store := ran.2
    scripts := if ran.1.accepted then s.scripts ++ [⟨key, now, s.time⟩] else s.scripts }

section
variable (s : Server) (key : Text) (now : ℚ) (ran : Reply × Store)

@[simp] theorem Server.ran_time : (s.ran key now ran).time = s.time := rfl
@[simp] theorem Server.ran_store : (s.ran key now ran).store = ran.2 := rfl
@[simp] theorem Server.ran_scriptSha : (s.ran key now ran).scriptSha = s.scriptSha := rfl
@[simp] theorem Server.ran_drawn : (s.ran key now ran).drawn = s.drawn := rfl
@[simp] theorem Server.ran_accepted : (s.ran key now ran).accepted = s.accepted := rfl

end

/-- What the surroundings decide in one step: whether a call of Redis raises, whether its script
ran all the same, the drawn token, and how far the clock moves. -/
structure Choice where
  fails : Bool := false
  landed : Bool := false
  token : Token := 0
  delay : ℚ := 0
  deriving DecidableEq

inductive Label where
  | tick
  | getRedis
  | clock
  | tokenHex
  | cachedSha
  | scriptLoad
  | evalsha (key : Text) (now : ℚ)
  deriving DecidableEq

inductive Exn where
  | runtimeError (message : String)
  | redis
  | tooManyRequests (detail : String) (retryAfter limit reset : ℤ)
  deriving DecidableEq, Repr

abbrev Call (α : Type) := Program Server Choice Label Exn α

def getRedis : Call Unit :=
  Program.perform .getRedis fun _ s choice =>
    if choice.fails then some (s, .error (.runtimeError "Redis client is not initialized."))
    else some (s, .ok ())

/-- `datetime.now(timezone.utc).timestamp()`. -/
def clock : Call ℚ := Program.perform .clock fun _ s _ => some (s, .ok s.time)

/-- `secrets.token_hex(8)`. -/
def tokenHex : Call Token :=
  Program.perform .tokenHex fun pid s choice =>
    if s.drawn.any fun entry => entry.1 = choice.token then none
    else some ({ s with drawn := s.drawn ++ [(choice.token, pid)] }, .ok choice.token)

def cachedSha : Call Bool := Program.perform .cachedSha fun _ s _ => some (s, .ok s.scriptSha)

def scriptLoad : Call Unit :=
  Program.perform .scriptLoad fun _ s choice =>
    if choice.fails then some (s, .error .redis) else some ({ s with scriptSha := true }, .ok ())

/-- `EVALSHA`. A call that raises may have run the script, whose reply is then lost. -/
def evalsha (key : Text) (now windowStart : ℚ) (windowSeconds : ℤ) (maxRequests : ℕ)
    (token : Token) : Call Reply :=
  Program.perform (.evalsha key now) fun _ s choice =>
    let ran := slidingWindow key now windowStart windowSeconds maxRequests token s.time s.store
    if choice.fails then
      some (if choice.landed then s.ran key now ran else s, .error .redis)
    else
      some ({ s.ran key now ran with
        accepted := if ran.1.accepted then s.accepted ++ [⟨key, token, now⟩] else s.accepted },
        .ok ran.1)

/-- `_eval_script`. -/
def evalScript (key : Text) (now windowStart : ℚ) (windowSeconds : ℤ) (maxRequests : ℕ)
    (token : Token) : Call Reply := do
  let cached ← cachedSha
  if !cached then
    scriptLoad
  tryCatch (evalsha key now windowStart windowSeconds maxRequests token) fun _ => do
    scriptLoad
    evalsha key now windowStart windowSeconds maxRequests token

/-- `int`, which truncates. -/
def truncate (q : ℚ) : ℤ := q.num.tdiv q.den

/-- The exception of a rejected call. -/
def rejection (reply : Reply) (now : ℚ) (maxRequests : ℕ) (windowSeconds : ℤ) : Exn :=
  let retryAfter := match reply.oldest with
    | some oldest => if oldest = 0 then windowSeconds
      else max 1 (truncate (oldest + windowSeconds - now))
    | none => windowSeconds
  .tooManyRequests s!"Rate limit exceeded. Max {maxRequests} requests per {windowSeconds}s."
    retryAfter maxRequests (truncate now + retryAfter)

/-- `rate_limit`, which lets every call pass while there is no client. -/
def rateLimit (key : Text) (maxRequests : ℕ) (windowSeconds : ℤ) : Call Unit := do
  let available ← tryCatch (do getRedis; return true) fun _ => pure false
  if available then
    let now ← clock
    let token ← tokenHex
    let reply ← evalScript key now (now - windowSeconds) windowSeconds maxRequests token
    if !reply.accepted then
      throw (rejection reply now maxRequests windowSeconds)

/-- Time passes. -/
def tick : Call Unit :=
  Program.perform .tick fun _ s choice =>
    if choice.delay < 0 then none else some ({ s with time := s.time + choice.delay }, .ok ())

/-! ### The dependency of an endpoint -/

/-- The arguments of `limiter`. -/
structure Limiter where
  maxRequests : ℕ
  windowSeconds : ℤ
  scope : Text := []
  forceIp : Bool := false
  deriving DecidableEq, Repr

/-- What the handlers and middlewares put into `request.state`. -/
structure RequestState where
  clientIp : Option Text
  traceId : Option Text
  userId : Option Text
  deriving DecidableEq, Repr

/-- `bool` of an attribute that may be missing. -/
def truthy (value : Option Text) : Option Text := value.filter fun text => !text.isEmpty

/-- The key of `dependency`; `peer` is `request.client.host`. -/
def Limiter.key (limiter : Limiter) (state : RequestState) (peer : Option Text) : Text :=
  let identifier := match truthy state.userId, limiter.forceIp with
    | some userId, false => "user:".toList ++ userId
    | _, _ => "ip:".toList ++ (truthy state.clientIp).getD (peer.getD "unknown".toList)
  let start := if limiter.scope.isEmpty then "phantom:ratelimit".toList
    else "phantom:ratelimit:".toList ++ limiter.scope
  start ++ ':' :: identifier

end PhantomShare.RateLimit
