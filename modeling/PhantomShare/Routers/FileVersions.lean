import PhantomShare.Routers.Files

/-!
# Updates of file secrets

`routers/file_versions.py`. The row of the secret is read without a lock first;
the transaction that stores the new version locks it and compares the version
again.
-/
namespace PhantomShare
open Foundations

/-- The form of an update. -/
structure FileUpdate where
  upload : Upload
  expectedVersion : ℕ
  changeNote : Option String := none
  deriving DecidableEq, Repr

structure FileUpdateResponse where
  secretId : UUID
  version : ℕ
  size : ℕ
  deriving DecidableEq, Repr

namespace FileVersions
variable (P : Platform)

/-- The checks on the unlocked row. -/
def checkRow (secret : Secret) (body : FileUpdate) (user : CurrentUser) : Except Exn Unit := do
  Security.requireOwnsSecret secret.ownerId user
  if secret.payloadType ≠ .file then throw (httpError 409 "Use the text update endpoint")
  if secret.currentVersion ≠ body.expectedVersion then
    throw (.http 409 (.fields [("error_code", .str "VERSION_CONFLICT"),
      ("current_version", .int secret.currentVersion)]))
  if P.settings.maxSecretVersions ≤ body.expectedVersion then
    throw (httpError 409 "Maximum versions reached")

/-- The transaction of `update_file_secret`. -/
def updateTransaction (pendingId : UUID) (objectKey : ObjectKey) (body : FileUpdate)
    (encrypted : Files.Encrypted) (size encryptedSize : ℕ) (detail : String) (user : CurrentUser)
    (clientIp : String) (now : Timestamp) (log : AuditService.Logger := AuditService.logWith) :
    Tx Database Exn Unit := do
  let id := objectKey.secretId
  let row ← Tx.select fun db => db.secrets.find id
  let some locked := row | throw (httpError 409 "Secret changed during upload")
  Tx.raiseIf (locked.currentVersion ≠ body.expectedVersion)
    (httpError 409 "Secret changed during upload")
  Tx.ofExcept (Security.requireOwnsSecret locked.ownerId user)
  let keyVersion ← Tx.select fun db => db.maxKeyVersion id + 1
  Tx.write fun db => db.insertSecretKey
    ⟨id, encrypted.key.1, encrypted.key.2, keyVersion, some now⟩
  Tx.write fun db => db.insertSecretVersion
    (Files.fileVersion objectKey keyVersion size encryptedSize encrypted body.upload detail user.id
      body.changeNote now)
  Tx.write fun db => .ok (db.updateSecret id
    (fun s => { s with currentVersion := objectKey.version, updatedAt := now }) fun _ => rfl)
  Tx.write fun db => .ok (db.deletePendingUpload pendingId)
  log
    { action := "secret_updated", actorId := some user.id, actorIp := some clientIp
      secretId := some id
      metadata := [("version", .int objectKey.version), ("payload_type", .str "file"),
        ("size", .int size)] } now

/-- The upload of the new object and the transaction that stores its version. -/
def storeUpdate (pendingId : UUID) (objectKey : ObjectKey) (body : FileUpdate)
    (encrypted : Files.Encrypted) (size : ℕ) (detail : String) (reservation : Reservation)
    (user : CurrentUser) (clientIp : String)
    (log : AuditService.Logger := AuditService.logWith) : Handler Unit := do
  transaction (.pendingUpload objectKey) fun _ now => Tx.write fun db =>
    db.insertPendingUpload (Files.pendingRow pendingId objectKey reservation size now)
  let encryptedSize ← StorageService.upload encrypted.file.object objectKey
  transaction (.updateFile objectKey) fun _ now =>
    updateTransaction pendingId objectKey body encrypted size encryptedSize detail user clientIp now
      log

/-- What follows the reservation of the bytes. -/
def encryptAndStore (secretId pendingId : UUID) (body : FileUpdate) (plaintext : Bytes) (size : ℕ)
    (detail : String) (reservation : Reservation) (user : CurrentUser) (clientIp : String)
    (log : AuditService.Logger := AuditService.logWith) : Handler Unit := do
  let version := body.expectedVersion + 1
  let random ← urandom
  let encrypted ← liftExcept (Files.encryptUpload P body.upload plaintext random secretId version)
  let nonce ← uuid4
  let objectKey : ObjectKey := ⟨secretId, version, nonce⟩
  tryCatch
    (storeUpdate pendingId objectKey body encrypted size detail reservation user clientIp log)
    fun error => do
      Files.discardObject objectKey
      throw error

/-- `update_file_secret`. -/
def updateFileSecret (secretId : UUID) (body : FileUpdate) (user : CurrentUser) (clientIp : String)
    (log : AuditService.Logger := AuditService.logWith) : Handler FileUpdateResponse := do
  let row ← query (.fileSecret secretId) fun _ db => db.secrets.find secretId
  let some secret := row | throw (httpError 404 "Secret not found")
  liftExcept (checkRow P secret body user)
  let pendingId ← uuid4
  let (plaintext, size) ← liftExcept (Files.spoolUpload P body.upload)
  let detail ← Files.scanUpload plaintext size user clientIp
  let reservation ← QuotaService.reserve P user.id 0 size
  tryCatch
    (encryptAndStore P secretId pendingId body plaintext size detail reservation user clientIp log)
    fun error => do
      QuotaService.release reservation
      throw error
  tryCatch (QuotaService.commit reservation)
    fun _ => do
      let _ ← QuotaService.reconcileUser user.id
      return ()
  return ⟨secretId, body.expectedVersion + 1, size⟩

end FileVersions
end PhantomShare
