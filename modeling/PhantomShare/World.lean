import PhantomShare.Database.Statements
import PhantomShare.Foundations.Program
import PhantomShare.Platform

/-!
# The world of the handlers

PostgreSQL, Redis, the object store and the clock, and the atomic operations by
which the handlers reach them. `issued` remembers which process drew which
random UUID, so that `uuid4` never repeats; `commits` lists the transactions that
committed, each with its process.
-/
namespace PhantomShare
open Foundations

/-- The hash `phantom:quota:{user}:usage`. -/
structure Usage where
  userId : UUID
  secrets : ℤ
  bytes : ℤ
  deriving DecidableEq, Repr

/-- The hash `phantom:quota:reservation:{id}`. -/
structure ReservationHash where
  id : UUID
  secretDelta : ℤ
  byteDelta : ℤ
  userId : UUID
  committed : Bool
  deriving DecidableEq, Repr

/-- A member of the sorted set `phantom:quota:reservations` with its score. -/
structure QueuedReservation where
  id : UUID
  expiresAt : Timestamp
  deriving DecidableEq, Repr

/-- The keys `phantom:lock:{secret_id}` and `phantom:lock:sweep`. -/
inductive LockKey where
  | secret (id : UUID)
  | sweep
  deriving DecidableEq, Repr

/-- A lock with its token and the time at which its key expires. -/
structure Lock where
  key : LockKey
  token : UUID
  expiresAt : Timestamp
  deriving DecidableEq, Repr

structure Redis where
  usage : Table Usage.userId
  reservations : Table ReservationHash.id
  reservationQueue : Table QueuedReservation.id
  locks : Table Lock.key

def Redis.empty : Redis := ⟨.empty, .empty, .empty, .empty⟩

/-- A key `phantom:expiry:{secret_id}` that was set, with the time at which it expires. -/
structure Sentinel where
  secretId : UUID
  expiresAt : Timestamp
  deriving DecidableEq, Repr

structure StoredObject where
  key : ObjectKey
  content : Bytes
  deriving DecidableEq, Repr

/-- The names of the atomic operations, with the arguments that statements about runs mention. -/
inductive Label where
  | tick
  | uuid4
  | clock
  | auditLog
  | currentUser
  | userByEmail
  | login (hash : String)
  | selectSession (hash : String)
  | revokeForRefresh (hash : String)
  | insertSession (hash : String)
  | refresh (hash newHash : String)
  | revokeForLogout (hash : String)
  | logout (hash : String)
  | rollbackSession
  | policy (secretId : UUID)
  | lockedPolicy (secretId : UUID)
  | createSecret
  | created (secretId : UUID) (content : String)
  | secretExpiry (secretId : UUID)
  | retrieve (secretId : UUID) (policyVersion : ℕ) (seenVersion : Option ℕ)
  | retrieved (secretId : UUID) (content : String) (version : ℕ)
  | downloaded (secretId : UUID) (version : ℕ)
  | updateSecret (secretId : UUID)
  | updated (secretId : UUID) (content : String) (version : ℕ)
  | restoreVersion (secretId : UUID) (version : ℤ)
  | restored (secretId : UUID) (source : ℤ) (version : ℕ)
  | rotateKey (secretId : UUID)
  | secretOwner (secretId : UUID)
  | updatePolicy (secretId : UUID)
  | deleteSecret (secretId : UUID)
  | countSecrets (userId : UUID)
  | sumActiveBytes (userId : UUID)
  | sumPendingBytes (userId : UUID)
  | limits (userId : UUID)
  | redisReserve (userId reservationId : UUID) (secrets fileBytes durableSecrets durableBytes : ℤ)
  | redisCommit (reservationId : UUID)
  | redisRelease (reservationId : UUID)
  | redisReconcile (userId : UUID) (durableSecrets durableBytes : ℤ)
  | redisExpired
  | redisDiscard (reservationId : UUID)
  | setExpiry (secretId : UUID)
  | expiredEvent (secretId : UUID)
  | urandom
  | scan (sent : Bytes)
  | objectPut (key : ObjectKey)
  | objectGet (key : ObjectKey)
  | objectDelete (key : ObjectKey)
  | fileSecret (secretId : UUID)
  | recipient (secretId : UUID)
  | objectKey (secretId : UUID) (version : ℕ)
  | download (secretId : UUID) (version policyVersion : ℕ) (seenVersion : Option ℕ)
      (encrypted : Bytes)
  | pendingUpload (key : ObjectKey)
  | createFile (key : ObjectKey)
  | updateFile (key : ObjectKey)
  | acquireLock (key : LockKey)
  | releaseLock (key : LockKey)
  | expireSecret (secretId : UUID)
  | sweep
  | selectOutbox
  | markProcessed (rowId : ℕ)
  | retryObject (rowId : ℕ)
  | selectExpiredUploads
  | deleteUpload (rowId : UUID)
  | changeRole (callerId userId : UUID) (role : Role)
  | startTransaction
  | switchActivation (callerId userId : UUID) (started : Timestamp)
  | countActive
  | countCreated
  | countViewed
  deriving DecidableEq, Repr

/-- One time `now` is that of the processes, of the database and of Redis: `time.time()` and `NOW()`
do not differ. `sentinels` are the expiry keys of Redis, which stay on record when they expire.
`sessionLocks` and `sessionInserts` hold what open transactions did to `sessions`: the rows that they
locked and deleted, and the rows that they inserted. -/
structure World where
  db : Database
  redis : Redis
  sentinels : Table Sentinel.secretId
  objects : Table StoredObject.key
  now : Timestamp
  issued : List (UUID × ℕ)
  commits : List (ℕ × Label)
  sessionLocks : List (UUID × ℕ)
  sessionInserts : List (Session × ℕ)

namespace World

/-- A transaction of process `pid` commits. -/
def commit (w : World) (pid : ℕ) (label : Label) (db : Database) : World :=
  { w with db := db, commits := w.commits ++ [(pid, label)] }

def issue (w : World) (id : UUID) (pid : ℕ) : World := { w with issued := w.issued ++ [(id, pid)] }

def setNow (w : World) (now : Timestamp) : World := { w with now := now }

def setRedis (w : World) (redis : Redis) : World := { w with redis := redis }

def setObjects (w : World) (objects : Table StoredObject.key) : World :=
  { w with objects := objects }

def setSentinels (w : World) (sentinels : Table Sentinel.secretId) : World :=
  { w with sentinels := sentinels }

@[simp] theorem commit_db (w : World) (pid : ℕ) (label : Label) (db : Database) :
    (w.commit pid label db).db = db := rfl
@[simp] theorem commit_commits (w : World) (pid : ℕ) (label : Label) (db : Database) :
    (w.commit pid label db).commits = w.commits ++ [(pid, label)] := rfl
@[simp] theorem commit_redis (w : World) (pid : ℕ) (label : Label) (db : Database) :
    (w.commit pid label db).redis = w.redis := rfl
@[simp] theorem commit_objects (w : World) (pid : ℕ) (label : Label) (db : Database) :
    (w.commit pid label db).objects = w.objects := rfl
@[simp] theorem commit_now (w : World) (pid : ℕ) (label : Label) (db : Database) :
    (w.commit pid label db).now = w.now := rfl
@[simp] theorem commit_issued (w : World) (pid : ℕ) (label : Label) (db : Database) :
    (w.commit pid label db).issued = w.issued := rfl
@[simp] theorem commit_sessionLocks (w : World) (pid : ℕ) (label : Label) (db : Database) :
    (w.commit pid label db).sessionLocks = w.sessionLocks := rfl
@[simp] theorem commit_sessionInserts (w : World) (pid : ℕ) (label : Label) (db : Database) :
    (w.commit pid label db).sessionInserts = w.sessionInserts := rfl
@[simp] theorem commit_sentinels (w : World) (pid : ℕ) (label : Label) (db : Database) :
    (w.commit pid label db).sentinels = w.sentinels := rfl

@[simp] theorem issue_db (w : World) (id : UUID) (pid : ℕ) : (w.issue id pid).db = w.db := rfl
@[simp] theorem issue_commits (w : World) (id : UUID) (pid : ℕ) :
    (w.issue id pid).commits = w.commits := rfl
@[simp] theorem issue_redis (w : World) (id : UUID) (pid : ℕ) :
    (w.issue id pid).redis = w.redis := rfl
@[simp] theorem issue_objects (w : World) (id : UUID) (pid : ℕ) :
    (w.issue id pid).objects = w.objects := rfl
@[simp] theorem issue_now (w : World) (id : UUID) (pid : ℕ) : (w.issue id pid).now = w.now := rfl
@[simp] theorem issue_issued (w : World) (id : UUID) (pid : ℕ) :
    (w.issue id pid).issued = w.issued ++ [(id, pid)] := rfl
@[simp] theorem issue_sessionLocks (w : World) (id : UUID) (pid : ℕ) :
    (w.issue id pid).sessionLocks = w.sessionLocks := rfl
@[simp] theorem issue_sessionInserts (w : World) (id : UUID) (pid : ℕ) :
    (w.issue id pid).sessionInserts = w.sessionInserts := rfl
@[simp] theorem issue_sentinels (w : World) (id : UUID) (pid : ℕ) :
    (w.issue id pid).sentinels = w.sentinels := rfl

@[simp] theorem setNow_db (w : World) (now : Timestamp) : (w.setNow now).db = w.db := rfl
@[simp] theorem setNow_commits (w : World) (now : Timestamp) :
    (w.setNow now).commits = w.commits := rfl
@[simp] theorem setNow_redis (w : World) (now : Timestamp) : (w.setNow now).redis = w.redis := rfl
@[simp] theorem setNow_objects (w : World) (now : Timestamp) :
    (w.setNow now).objects = w.objects := rfl
@[simp] theorem setNow_now (w : World) (now : Timestamp) : (w.setNow now).now = now := rfl
@[simp] theorem setNow_issued (w : World) (now : Timestamp) :
    (w.setNow now).issued = w.issued := rfl
@[simp] theorem setNow_sessionLocks (w : World) (now : Timestamp) :
    (w.setNow now).sessionLocks = w.sessionLocks := rfl
@[simp] theorem setNow_sessionInserts (w : World) (now : Timestamp) :
    (w.setNow now).sessionInserts = w.sessionInserts := rfl

@[simp] theorem setRedis_db (w : World) (redis : Redis) : (w.setRedis redis).db = w.db := rfl
@[simp] theorem setRedis_commits (w : World) (redis : Redis) :
    (w.setRedis redis).commits = w.commits := rfl
@[simp] theorem setRedis_redis (w : World) (redis : Redis) : (w.setRedis redis).redis = redis := rfl
@[simp] theorem setRedis_objects (w : World) (redis : Redis) :
    (w.setRedis redis).objects = w.objects := rfl
@[simp] theorem setRedis_now (w : World) (redis : Redis) : (w.setRedis redis).now = w.now := rfl
@[simp] theorem setRedis_issued (w : World) (redis : Redis) :
    (w.setRedis redis).issued = w.issued := rfl

@[simp] theorem setObjects_db (w : World) (objects : Table StoredObject.key) :
    (w.setObjects objects).db = w.db := rfl
@[simp] theorem setObjects_commits (w : World) (objects : Table StoredObject.key) :
    (w.setObjects objects).commits = w.commits := rfl
@[simp] theorem setObjects_redis (w : World) (objects : Table StoredObject.key) :
    (w.setObjects objects).redis = w.redis := rfl
@[simp] theorem setObjects_objects (w : World) (objects : Table StoredObject.key) :
    (w.setObjects objects).objects = objects := rfl
@[simp] theorem setObjects_now (w : World) (objects : Table StoredObject.key) :
    (w.setObjects objects).now = w.now := rfl
@[simp] theorem setObjects_issued (w : World) (objects : Table StoredObject.key) :
    (w.setObjects objects).issued = w.issued := rfl

@[simp] theorem setSentinels_db (w : World) (sentinels : Table Sentinel.secretId) :
    (w.setSentinels sentinels).db = w.db := rfl
@[simp] theorem setSentinels_commits (w : World) (sentinels : Table Sentinel.secretId) :
    (w.setSentinels sentinels).commits = w.commits := rfl
@[simp] theorem setSentinels_sentinels (w : World) (sentinels : Table Sentinel.secretId) :
    (w.setSentinels sentinels).sentinels = sentinels := rfl
@[simp] theorem setSentinels_now (w : World) (sentinels : Table Sentinel.secretId) :
    (w.setSentinels sentinels).now = w.now := rfl
@[simp] theorem setSentinels_issued (w : World) (sentinels : Table Sentinel.secretId) :
    (w.setSentinels sentinels).issued = w.issued := rfl

end World

/-- A world with any tables and objects, and nothing running. -/
def worldOf (db : Database) (redis : Redis) (objects : Table StoredObject.key) (now : Timestamp) :
    World where
  db := db
  redis := redis
  sentinels := .empty
  objects := objects
  now := now
  issued := []
  commits := []
  sessionLocks := []
  sessionInserts := []

theorem length_zeros : (List.replicate 8 (0 : UInt8)).length = 8 := rfl

/-- The results of `os.urandom` and `generate_key` in one step. -/
structure Random where
  dek : Bytes
  wrapNonce : Bytes
  contentNonce : Bytes
  noncePrefix : {bytes : Bytes // bytes.length = 8} := ⟨List.replicate 8 0, length_zeros⟩
  deriving DecidableEq, Repr

/-- What the surroundings decide in one step: whether an outside call fails, whether it had its
effect all the same, the drawn UUID and random bytes, how far the clock moves, and what the scanner
sends back. -/
structure Choice where
  fails : Bool := false
  landed : Bool := false
  uuid : UUID := 0
  random : Random := { dek := [], wrapNonce := [], contentNonce := [] }
  delay : ℕ := 0
  reply : Bytes := []
  deriving DecidableEq, Repr

abbrev Handler (α : Type) := Program World Choice Label Exn α

/-- `async with pool.connection() as conn` around one transaction. It is assumed that a failed call
leaves the database as it was: a commit whose reply is lost is not modelled. What commits is recorded
under a label that may depend on the result. -/
def transaction {α : Type} (label : Label) (body : Choice → Timestamp → Tx Database Exn α)
    (record : α → Label := fun _ => label) : Handler α :=
  Program.perform label fun pid w choice =>
    if choice.fails then some (w, .error .unavailable)
    else
      match (body choice w.now).run w.db with
      | .ok (value, some db) =>
        some (w.commit pid (record value) db, .ok value)
      | .ok (value, none) => some (w, .ok value)
      | .error error => some (w, .error error)

/-- A connection that only reads. -/
def query {α : Type} (label : Label) (q : Timestamp → Database → α) : Handler α :=
  Program.perform label fun _ w choice =>
    if choice.fails then some (w, .error .unavailable) else some (w, .ok (q w.now w.db))

/-- One command or script of Redis, which runs alone. It is assumed that a failed call had no effect:
a command whose reply is lost is not modelled. -/
def redisCall {α : Type} (label : Label) (script : Timestamp → Redis → α × Redis) : Handler α :=
  Program.perform label fun _ w choice =>
    if choice.fails then some (w, .error .unavailable)
    else some (w.setRedis (script w.now w.redis).2, .ok (script w.now w.redis).1)

/-- `uuid4()`, which never returns a value twice. -/
def uuid4 : Handler UUID :=
  Program.perform .uuid4 fun pid w choice =>
    if w.issued.any fun entry => entry.1 = choice.uuid then none
    else some (w.issue choice.uuid pid, .ok choice.uuid)

/-- `os.urandom` and `generate_key` outside a transaction. -/
def urandom : Handler Random := Program.perform .urandom fun _ w choice => some (w, .ok choice.random)

/-- `datetime.now(timezone.utc)`. -/
def clock : Handler Timestamp := Program.perform .clock fun _ w _ => some (w, .ok w.now)

/-- The first statement of a transaction begins: this is the time that `NOW()` shows until its end.
Elsewhere a transaction takes no time and ends when it starts. -/
def startTransaction : Handler Timestamp :=
  Program.perform .startTransaction fun _ w _ => some (w, .ok w.now)

/-- Time passes. -/
def tick : Handler Unit :=
  Program.perform .tick fun _ w choice => some (w.setNow (w.now + choice.delay), .ok ())

/-- `raise` when a condition holds. -/
def raiseIf (bad : Bool) (error : Exn) : Handler Unit := if bad then throw error else pure ()

/-- Turn a result of pure code into one of a handler. -/
def liftExcept {α : Type} (result : Except Exn α) : Handler α := Program.ofExcept result

end PhantomShare
