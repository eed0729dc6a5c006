import Mathlib.Data.List.Sort
import PhantomShare.Foundations.Binary64
import PhantomShare.World

/-!
# Quota reservations

The scripts of `quota_service.py` as functions on Redis, which run alone, and
the operations around them. Numbers of Lua are doubles, and Redis counts with
signed integers of 64 bits. `durable_usage` reads three counts one after the
other, each from its own snapshot of the database.
-/
namespace PhantomShare
open Foundations

/-! ### Scripts -/

namespace Redis

/-- The fields of a usage hash; a missing field counts as 0. -/
def counted (userId : UUID) (r : Redis) : Usage := (r.usage.find userId).getD ⟨userId, 0, 0⟩

/-- A number of a Lua script: the double nearest to it. -/
def tonumber (n : ℤ) : ℤ := ⌊Binary64.rounded n⌋

/-- Two `HINCRBY` on a usage hash, which they create when it is missing, and whether both succeed. A
sum outside of 64 bits raises and ends the script; what ran before stays. -/
def increase (userId : UUID) (secrets bytes : ℤ) (r : Redis) : Bool × Redis :=
  let usage := r.counted userId
  if Fits64 (usage.secrets + secrets) then
    if Fits64 (usage.bytes + bytes) then
      (true,
        { r with usage := r.usage.put ⟨userId, usage.secrets + secrets, usage.bytes + bytes⟩ })
    else (false, { r with usage := r.usage.put ⟨userId, usage.secrets + secrets, usage.bytes⟩ })
  else (false, r)

/-- The usage hash starts from the durable usage when it is missing. -/
def seed (userId : UUID) (durableSecrets durableBytes : ℤ) (r : Redis) : Redis :=
  match r.usage.find userId with
  | none => { r with usage := r.usage.put ⟨userId, tonumber durableSecrets, tonumber durableBytes⟩ }
  | some _ => r

/-- The numbers that `_RESERVE` returns. -/
structure ReserveReply where
  accepted : Bool
  quota : ℕ
  secrets : ℤ
  bytes : ℤ
  deriving DecidableEq, Repr

/-- `_RESERVE`; without a reply the script has raised. -/
def reserve (userId reservationId : UUID)
    (secretDelta byteDelta secretLimit byteLimit durableSecrets durableBytes : ℤ) (expiresAt : ℕ)
    (r : Redis) : Option ReserveReply × Redis :=
  let secretDelta := tonumber secretDelta
  let byteDelta := tonumber byteDelta
  let r := r.seed userId durableSecrets durableBytes
  let currentSecrets := tonumber (r.counted userId).secrets
  let currentBytes := tonumber (r.counted userId).bytes
  if tonumber secretLimit < tonumber (currentSecrets + secretDelta) then
    (some ⟨false, 1, currentSecrets, currentBytes⟩, r)
  else if tonumber byteLimit < tonumber (currentBytes + byteDelta) then
    (some ⟨false, 2, currentSecrets, currentBytes⟩, r)
  else
    let (increased, r) := r.increase userId secretDelta byteDelta
    if increased then
      (some ⟨true, 0, tonumber (currentSecrets + secretDelta), tonumber (currentBytes + byteDelta)⟩,
        { r with
          reservations := r.reservations.put ⟨reservationId, secretDelta, byteDelta, userId, false⟩
          reservationQueue := r.reservationQueue.put ⟨reservationId, expiresAt⟩ })
    else (none, r)

/-- `DEL` of a reservation hash and `ZREM` of its member. -/
def dropReservation (reservationId : UUID) (r : Redis) : Redis :=
  { r with
    reservations := r.reservations.deleteWhere fun h => h.id = reservationId
    reservationQueue := r.reservationQueue.deleteWhere fun q => q.id = reservationId }

/-- `_RELEASE`; when it raises, the reservation stays. -/
def release (userId reservationId : UUID) (r : Redis) : Redis :=
  match r.reservations.find reservationId with
  | none => r
  | some hash =>
    if hash.committed then r.dropReservation reservationId
    else
      let (increased, r) :=
        r.increase userId (-tonumber hash.secretDelta) (-tonumber hash.byteDelta)
      if increased then r.dropReservation reservationId else r

/-- `_COMMIT`. -/
def commit (reservationId : UUID) (r : Redis) : Redis :=
  match r.reservations.find reservationId with
  | none => r
  | some _ => r.dropReservation reservationId

/-- The queued reservations of a user that are not committed. -/
def outstanding (userId : UUID) (r : Redis) : List ReservationHash :=
  (r.reservationQueue.rows.filterMap fun q => r.reservations.find q.id).filter fun h =>
    h.userId = userId ∧ h.committed = false

/-- The loop of `_RECONCILE` over one of the amounts, which rounds after each addition. -/
def summed (start : ℤ) (amounts : List ℤ) : ℤ :=
  amounts.foldl (fun sum amount => tonumber (sum + tonumber amount)) (tonumber start)

/-- `_RECONCILE`. -/
def reconcile (userId : UUID) (durableSecrets durableBytes : ℤ) (r : Redis) : (ℤ × ℤ) × Redis :=
  let secrets := summed durableSecrets ((r.outstanding userId).map ReservationHash.secretDelta)
  let bytes := summed durableBytes ((r.outstanding userId).map ReservationHash.byteDelta)
  ((secrets, bytes), { r with usage := r.usage.put ⟨userId, secrets, bytes⟩ })

/-- `ZRANGEBYSCORE … 0 now`, in the order of the scores. -/
def expired (now : ℕ) (r : Redis) : List QueuedReservation :=
  (r.reservationQueue.rows.filter fun q => q.expiresAt ≤ now).insertionSort fun a b =>
    a.expiresAt < b.expiresAt ∨ (a.expiresAt = b.expiresAt ∧ a.id ≤ b.id)

end Redis

/-! ### Durable usage -/

namespace Database

/-- `SELECT COUNT(*) FROM secrets WHERE owner_id = …`. -/
def countSecrets (userId : UUID) (db : Database) : ℤ :=
  db.secrets.rows.countP fun s => s.ownerId = some userId

/-- The stored versions of the secrets of a user. -/
def activeObjects (userId : UUID) (db : Database) : List SecretVersion :=
  db.secretVersions.rows.filter fun v => v.objectKey.isSome ∧
    (db.secrets.find v.secretId).any fun s => s.ownerId = some userId

def sumActiveBytes (userId : UUID) (db : Database) : ℤ :=
  ((db.activeObjects userId).map fun v => (v.plaintextSize : ℤ)).sum

/-- The deleted objects that are still billed to a user. -/
def sumPendingBytes (userId : UUID) (db : Database) : ℤ :=
  ((db.objectDeletionOutbox.rows.filter fun r =>
    r.userId = some userId ∧ r.processedAt = none).map fun r => (r.billedBytes : ℤ)).sum

def fileBytes (userId : UUID) (db : Database) : ℤ :=
  db.sumActiveBytes userId + db.sumPendingBytes userId

end Database

structure Reservation where
  id : UUID
  userId : UUID
  secretDelta : ℤ
  byteDelta : ℤ
  deriving DecidableEq, Repr

namespace QuotaService
variable (P : Platform)

/-- The limits of a user, from `user_quotas` or the settings. -/
def limitsOf (userId : UUID) (db : Database) : ℤ × ℤ :=
  let row := db.userQuotas.find userId
  ((row.bind UserQuota.maxActiveSecrets).getD P.settings.defaultMaxActiveSecrets,
    (row.bind UserQuota.maxFileBytes).getD P.settings.defaultMaxFileStorageBytes)

def limitsForUser (userId : UUID) : Handler (ℤ × ℤ) :=
  query (.limits userId) fun _ db => limitsOf P userId db

def durableUsage (userId : UUID) : Handler (ℤ × ℤ) := do
  let secretsCount ← query (.countSecrets userId) fun _ db => db.countSecrets userId
  let activeBytes ← query (.sumActiveBytes userId) fun _ db => db.sumActiveBytes userId
  let pendingBytes ← query (.sumPendingBytes userId) fun _ db => db.sumPendingBytes userId
  return (secretsCount, activeBytes + pendingBytes)

def reconcileUser (userId : UUID) : Handler (ℤ × ℤ) := do
  let (secretCount, fileBytes) ← durableUsage userId
  redisCall (.redisReconcile userId secretCount fileBytes) fun _ r =>
    r.reconcile userId secretCount fileBytes

/-- The exception for a rejected reservation. -/
def quotaExceeded (reply : Redis.ReserveReply) (secretLimit byteLimit : ℤ) : Exn :=
  .http 409 (.fields
    [("error_code", .str "QUOTA_EXCEEDED"),
      ("quota", .str (if reply.quota = 1 then "MAX_ACTIVE_SECRETS" else "MAX_FILE_STORAGE")),
      ("active_secrets", .int reply.secrets), ("file_bytes", .int reply.bytes),
      ("max_active_secrets", .int secretLimit), ("max_file_bytes", .int byteLimit)])

/-- A script that raised raises. -/
def replied (reply : Option Redis.ReserveReply) : Except Exn Redis.ReserveReply :=
  reply.elim (.error .unavailable) .ok

def reserve (userId : UUID) (secrets fileBytes : ℤ) : Handler Reservation := do
  let (durableSecrets, durableBytes) ← durableUsage userId
  let (secretLimit, byteLimit) ← limitsForUser P userId
  let reservationId ← uuid4
  let result ← redisCall
    (.redisReserve userId reservationId secrets fileBytes durableSecrets durableBytes) fun now r =>
      r.reserve userId reservationId secrets fileBytes secretLimit byteLimit durableSecrets
        durableBytes (now / second + 600)
  let reply ← liftExcept (replied result)
  raiseIf (!reply.accepted) (quotaExceeded reply secretLimit byteLimit)
  return ⟨reservationId, userId, secrets, fileBytes⟩

def commit (reservation : Reservation) : Handler Unit :=
  redisCall (.redisCommit reservation.id) fun _ r => ((), r.commit reservation.id)

/-- An exception is dropped. -/
def release (reservation : Reservation) : Handler Unit :=
  tryCatch
    (redisCall (.redisRelease reservation.id) fun _ r =>
      ((), r.release reservation.userId reservation.id))
    fun _ => pure ()

/-- One round of the loop of `reap_expired_reservations`: a `HGETALL`, then the release. -/
def reap (reservationId : UUID) : Handler ℕ := do
  let hash ← redisCall .redisExpired fun _ r => (r.reservations.find reservationId, r)
  match hash with
  | some hash =>
    release ⟨reservationId, hash.userId, hash.secretDelta, hash.byteDelta⟩
    return 1
  | none =>
    redisCall (.redisDiscard reservationId) fun _ r => ((), r.dropReservation reservationId)
    return 0

def reapAll : List UUID → Handler ℕ
  | [] => return 0
  | id :: rest => do
    let released ← reap id
    let others ← reapAll rest
    return released + others

def reapExpiredReservations : Handler ℕ := do
  let ids ← redisCall .redisExpired fun now r =>
    ((r.expired (now / second)).map QueuedReservation.id, r)
  reapAll ids

/-- `usage`: the reconciled counts and the limits. -/
def usage (userId : UUID) : Handler ((ℤ × ℤ) × (ℤ × ℤ)) := do
  let current ← reconcileUser userId
  let limits ← limitsForUser P userId
  return (current, limits)

end QuotaService
end PhantomShare
