import PhantomShare.Services.QuotaService
import PhantomShare.Services.AuditAndLocation
import PhantomShare.Services.FileServices

/-!
# Expiry, sweeps and the storage cleanup

`cleanup_service.py`. Redis announces the end of a secret's lifetime to every
instance; a sweep deletes what was missed. Each takes a lock of Redis, deletes in
one transaction, and writes its audit entries after that transaction. The
challenges of `email_verifications`, which a sweep also deletes, are left out.
-/
namespace PhantomShare
open Foundations

namespace Redis

/-- `SET NX EX`. -/
def acquire (key : LockKey) (token : UUID) (expiresAt now : Timestamp) (r : Redis) : Bool × Redis :=
  if (r.locks.find key).any fun lock => now < lock.expiresAt then (false, r)
  else (true, { r with locks := r.locks.put ⟨key, token, expiresAt⟩ })

/-- The script of `release_lock`. -/
def unlock (key : LockKey) (token : UUID) (now : Timestamp) (r : Redis) : Redis :=
  if (r.locks.find key).any fun lock => now < lock.expiresAt ∧ lock.token = token then
    { r with locks := r.locks.deleteWhere fun lock => lock.key = key }
  else r

end Redis

namespace Database

/-- `DELETE FROM secret_tracking WHERE retain_until <= clock_timestamp()`, with the views. -/
def deleteTracking (now : Timestamp) (db : Database) : Database :=
  let doomed := db.secretTracking.rows.filter fun t => t.retainUntil ≤ now
  { db with
    secretTracking := db.secretTracking.deleteWhere fun t => t.retainUntil ≤ now
    secretViews := db.secretViews.filter fun v => !doomed.any fun t => t.secretId = v.secretId }

/-- The rows of the outbox that are due, in the order of their ids. -/
def dueObjects (now : Timestamp) (db : Database) : List ObjectDeletion :=
  ((db.objectDeletionOutbox.rows.filter fun r => r.processedAt = none ∧ r.nextAttemptAt ≤ now)
    |>.insertionSort fun a b => a.id ≤ b.id).take 100

def expiredUploads (now : Timestamp) (db : Database) : List PendingUpload :=
  ((db.pendingUploads.rows.filter fun r => r.expiresAt ≤ now)
    |>.insertionSort fun a b => a.expiresAt ≤ b.expiresAt).take 100

/-- `UPDATE object_deletion_outbox SET processed_at = …`. -/
def markProcessed (now : Timestamp) (rowId : ℕ) (db : Database) : Database :=
  { db with
    objectDeletionOutbox := db.objectDeletionOutbox.mapRows
      (fun r => if r.id = rowId then { r with processedAt := some now } else r)
      fun r => by split <;> rfl }

/-- `UPDATE object_deletion_outbox SET attempts = attempts + 1, …`. -/
def retryObject (now : Timestamp) (rowId : ℕ) (db : Database) : Database :=
  { db with
    objectDeletionOutbox := db.objectDeletionOutbox.mapRows
      (fun r => if r.id = rowId then
          { r with
            attempts := r.attempts + 1
            nextAttemptAt := now + min 3600 (2 ^ min r.attempts 11) * second }
        else r)
      fun r => by split <;> rfl }

end Database

namespace CleanupService

/-! ### Locks -/

def secretLockTtl : ℕ := 30
def sweepLockTtl : ℕ := 120

/-- `acquire_lock`, which returns the token of the lock. -/
def acquireLock (key : LockKey) (ttl : ℕ) : Handler (Option UUID) := do
  let token ← uuid4
  let acquired ← redisCall (.acquireLock key) fun now r =>
    r.acquire key token (now + ttl * second) now
  return if acquired then some token else none

def releaseLock (key : LockKey) (token : UUID) : Handler Unit :=
  redisCall (.releaseLock key) fun now r => ((), r.unlock key token now)

/-! ### Expiry events -/

/-- `schedule_expiry`, which sets a sentinel key with `SETEX`. A failed call may have set it. -/
def scheduleExpiry (secretId : UUID) (ttlSeconds : ℕ) : Handler Unit :=
  Program.perform (.setExpiry secretId) fun _ w choice =>
    let set := w.setSentinels (w.sentinels.put ⟨secretId, w.now + ttlSeconds * second⟩)
    if choice.fails then some (if choice.landed then set else w, .error .unavailable)
    else some (set, .ok ())

/-- A message of the expired-key channel about a sentinel, which comes when the key has expired and
may come to any number of subscribers. -/
def expiredEvent (secretId : UUID) : Handler Unit :=
  Program.perform (.expiredEvent secretId) fun _ w _ =>
    if (w.sentinels.find secretId).any fun sentinel => sentinel.expiresAt ≤ w.now then
      some (w, .ok ())
    else none

/-- `DELETE FROM secrets WHERE id = … RETURNING id, owner_id`. -/
def expireTransaction (secretId : UUID) (now : Timestamp) : Tx Database Exn (Option (Option UUID)) := do
  let deleted ← Tx.select fun db => (db.secrets.find secretId).map Secret.ownerId
  Tx.write fun db => .ok (db.deleteSecrets now fun s => s.id = secretId)
  return deleted

/-- `_delete_secret`. -/
def deleteSecret (secretId : UUID) : Handler Unit := do
  let token ← acquireLock (.secret secretId) secretLockTtl
  match token with
  | none => return ()
  | some token =>
    Program.ensuring
      (do
        let deleted ← transaction (.expireSecret secretId) fun _ now => expireTransaction secretId now
        match deleted with
        | none => return ()
        | some ownerId =>
          AuditService.log
            { action := "secret_deleted", secretId := some secretId
              metadata := [("reason", .str "ttl_expired"), ("source", .str "redis_event")] }
          match ownerId with
          | none => return ()
          | some ownerId =>
            let _ ← QuotaService.reconcileUser ownerId
            return ())
      (releaseLock (.secret secretId) token)

/-- One message of `listen_for_expirations`, whose `except Exception` hides what a deletion raises. -/
def onExpired (secretId : UUID) : Handler Unit := do
  expiredEvent secretId
  tryCatch (deleteSecret secretId) fun _ => pure ()

/-! ### Storage cleanup -/

/-- The rows for which a round of a loop went well. -/
def eachRow {α : Type} (round : α → Handler Bool) : List α → Handler (List α)
  | [] => return []
  | row :: rows => do
    let done ← round row
    let others ← eachRow round rows
    return if done then row :: others else others

/-- One row of the outbox; a failed deletion of the object is tried again later. -/
def processObject (row : ObjectDeletion) : Handler Bool :=
  tryCatch
    (do
      StorageService.delete row.objectKey
      transaction (.markProcessed row.id) fun _ now => Tx.write fun db =>
        .ok (db.markProcessed now row.id)
      return true)
    fun _ => do
      transaction (.retryObject row.id) fun _ now => Tx.write fun db =>
        .ok (db.retryObject now row.id)
      return false

/-- One upload that has passed its deadline. -/
def processUpload (row : PendingUpload) : Handler Bool :=
  tryCatch
    (do
      StorageService.delete row.objectKey
      transaction (.deleteUpload row.id) fun _ _ => Tx.write fun db =>
        .ok (db.deletePendingUpload row.id)
      QuotaService.release ⟨row.reservationId, row.userId, 0, 0⟩
      return true)
    fun _ => return false

/-- `except Exception: pass` around the reconciliation of each user. -/
def reconcileEach : List UUID → Handler Unit
  | [] => return ()
  | userId :: rest => do
    tryCatch
      (do
        let _ ← QuotaService.reconcileUser userId
        return ())
      fun _ => pure ()
    reconcileEach rest

/-- `process_storage_cleanup`, which returns the numbers of deleted objects and uploads. -/
def processStorageCleanup : Handler (ℕ × ℕ) := do
  let outbox ← query .selectOutbox fun now db => db.dueObjects now
  let pending ← query .selectExpiredUploads fun now db => db.expiredUploads now
  let objects ← eachRow processObject outbox
  let uploads ← eachRow processUpload pending
  tryCatch
    (do
      let _ ← QuotaService.reapExpiredReservations
      return ())
    fun _ => pure ()
  reconcileEach (objects.filterMap ObjectDeletion.userId ++ uploads.map PendingUpload.userId).eraseDups
  return (objects.length, uploads.length)

/-! ### Sweeps -/

/-- What the statements of a sweep returned: the secrets with their owners, the users and the
sessions. -/
structure Swept where
  secrets : List (UUID × Option UUID)
  users : List UUID
  sessions : List UUID
  deriving DecidableEq, Repr

/-- `expires_at < NOW() OR view_count >= max_views`. -/
def spent (now : Timestamp) (s : Secret) : Bool := s.expiresAt < now || s.maxViews ≤ s.viewCount

/-- `is_active = FALSE AND delete_after <= NOW()`. -/
def removable (now : Timestamp) (u : User) : Bool := !u.isActive && u.deleteAfter.any fun t => t ≤ now

/-- `revoked = TRUE OR expires_at <= NOW()`. -/
def stale (now : Timestamp) (s : Session) : Bool := s.revoked || s.expiresAt ≤ now

/-- The transaction of a sweep. -/
def sweepTransaction (now : Timestamp) : Tx Database Exn Swept := do
  let secrets ← Tx.select fun db =>
    (db.secrets.rows.filter (spent now)).map fun s => (s.id, s.ownerId)
  Tx.write fun db => .ok (db.deleteSecrets now (spent now))
  let users ← Tx.select fun db => (db.users.rows.filter (removable now)).map User.id
  Tx.write fun db => .ok (db.deleteUsers (removable now))
  Tx.write fun db => .ok (db.deleteTracking now)
  let sessions ← Tx.select fun db => (db.sessions.rows.filter (stale now)).map Session.id
  Tx.write fun db => .ok { db with sessions := db.sessions.deleteWhere (stale now) }
  return ⟨secrets, users, sessions⟩

def logEach (entry : UUID → AuditService.Entry) : List UUID → Handler Unit
  | [] => return ()
  | id :: rest => do
    AuditService.log (entry id)
    logEach entry rest

def reconcileAll : List UUID → Handler Unit
  | [] => return ()
  | userId :: rest => do
    let _ ← QuotaService.reconcileUser userId
    reconcileAll rest

structure SweepResult where
  secretsDeleted : ℕ
  sessionsDeleted : ℕ
  usersDeleted : ℕ
  deriving DecidableEq, Repr

/-- `_fallback_sweep`. -/
def fallbackSweep : Handler SweepResult := do
  let token ← acquireLock .sweep sweepLockTtl
  match token with
  | none => return ⟨0, 0, 0⟩
  | some token =>
    Program.ensuring
      (do
        let swept ← transaction .sweep fun _ now => sweepTransaction now
        logEach
          (fun secretId =>
            { action := "secret_deleted", secretId := some secretId
              metadata := [("reason", .str "ttl_expired/max_views_achieved"),
                ("source", .str "fallback_sweep")] })
          (swept.secrets.map Prod.fst)
        reconcileAll (swept.secrets.filterMap Prod.snd).eraseDups
        let _ ← processStorageCleanup
        logEach
          (fun userId =>
            { action := "user_removed", actorId := some userId
              metadata := [("reason", .str "user_inactive"), ("source", .str "fallback_sweep")] })
          swept.users
        return ⟨swept.secrets.length, swept.sessions.length, swept.users.length⟩)
      (releaseLock .sweep token)

/-- `get_redis`, which has a client after `init_redis`. -/
def getRedis (initialized : Bool) : Handler Unit :=
  raiseIf (!initialized) (.runtimeError "Redis client is not initialized.")

/-- One turn of `fallback_loop` after its sleep. The lock that a sweep takes first needs the
client, and `except Exception` hides what a sweep raises. -/
def fallbackCycle (initialized : Bool) : Handler Unit :=
  tryCatch
    (do
      getRedis initialized
      let _ ← fallbackSweep
      return ())
    fun _ => pure ()

end CleanupService
end PhantomShare
