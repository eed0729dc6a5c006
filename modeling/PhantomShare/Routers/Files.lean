import PhantomShare.Routers.Secrets
import PhantomShare.Services.FileServices

/-!
# File secrets

`routers/files.py` and `routers/file_support.py`. The row of the secret is locked
for the whole of the transaction of a download, so that it is one atomic step;
the reads before it are steps of their own. The lock waits inside the first
statement of the transaction, which has read the policy row by then.
-/
namespace PhantomShare
open Foundations

/-- An uploaded file, with the results of the calls of `upload.read`. -/
structure Upload where
  filename : Option String
  contentType : Option String
  reads : List Bytes
  deriving DecidableEq, Repr

/-- The bytes of the file: an empty read is its end. -/
def Upload.content (upload : Upload) : Bytes := (upload.reads.takeWhile (· ≠ [])).flatten

/-- The form of a creation. -/
structure FileCreate where
  upload : Upload
  ttlHours : ℕ := 24
  maxViews : ℤ := 1
  accessPassword : Option String := none
  allowedEmail : List String := []
  changeNote : Option String := none
  allowedCidr : List String := []
  allowedCountry : List String := []
  locationPolicyMode : PolicyMode := .all
  geoipFailClosed : Bool := true
  deriving DecidableEq, Repr

structure FileSecretResponse where
  secretId : UUID
  shareUrl : String
  signedToken : String
  version : ℕ
  size : ℕ
  deriving DecidableEq, Repr

/-- `FileResponse`. -/
structure FileResponse where
  content : Bytes
  filename : String
  mediaType : String
  deriving DecidableEq, Repr

namespace Files
variable (P : Platform)

/-! ### Download -/

/-- The columns that a download reads first. -/
structure FileRow where
  secret : Secret
  policyVersion : ℕ

def fileRow (secretId : UUID) (db : Database) : Option FileRow :=
  match db.secrets.find secretId, db.secretAccessPolicies.find secretId with
  | some secret, some policy =>
    if secret.payloadType = .file then some ⟨secret, policy.policyVersion⟩ else none
  | _, _ => none

/-- The recipient check of `_authorize`. -/
def checkRecipient (secret : Secret) (currentUser : Option CurrentUser) : Handler Unit :=
  if secret.emailRestricted then
    match currentUser with
    | none => throw (httpError 401 "Log in with a verified recipient email")
    | some user => do
      raiseIf (!user.isVerified) (httpError 403 "Verify your email before accessing this secret")
      let allowed ← query (.recipient secret.id) fun _ db => db.secretRecipients.rows.any fun r =>
        r.secretId = secret.id ∧ citextEq r.email user.email
      raiseIf (!allowed) (httpError 403 "Your email is not allowed")
  else pure ()

/-- The password check of `_authorize`; a given password is compared in any case. -/
def passwordRefused (secret : Secret) (password : Option String) : Bool :=
  match Secrets.nonempty password with
  | none => secret.passwordProtected
  | some text => some (P.sha256Hex text) ≠ secret.accessPasswordHash

/-- `_authorize`. -/
def authorize (secret : Secret) (password : Option String) (currentUser : Option CurrentUser) :
    Handler Unit := do
  checkRecipient secret currentUser
  raiseIf (passwordRefused P secret password) (httpError 401 "Invalid or missing password")

/-- `decrypt_file` as a step of a handler. -/
def decryptObject (encrypted dek : Bytes) (secretId : UUID) (version : ℕ) : Except Exn Bytes :=
  match FileCrypto.decryptFile P.chacha dek secretId version encrypted with
  | .ok content => .ok content
  | .error error => .error (.fileCrypto error)

/-- What the transaction of a download hands over. -/
structure Opened where
  secret : Secret
  version : SecretVersion
  filename : String
  content : Bytes

/-- The transaction of `download_file_secret`, with the policy row that its first statement read. -/
def downloadTransaction (secretId : UUID) (policy : Option SecretAccessPolicy)
    (version policyVersion : ℕ) (encrypted : Bytes) (clientIp : String)
    (currentUser : Option CurrentUser) (now : Timestamp)
    (log : AuditService.Logger := AuditService.logWith) : Tx Database Exn Opened := do
  let row ← Tx.select fun db => (db.secrets.find secretId).bind fun s =>
    policy.map fun p => (s, p.policyVersion)
  let some locked := row | throw (httpError 409 "Secret changed; retry download")
  Tx.raiseIf (locked.1.currentVersion ≠ version) (httpError 409 "Secret changed; retry download")
  Tx.raiseIf (locked.2 ≠ policyVersion) (httpError 403 "Share token policy is no longer current")
  Tx.raiseIf (locked.1.maxViews ≤ locked.1.viewCount) (httpError 410 "Secret is no longer available")
  let stored ← Tx.select fun db => db.secretVersions.find (secretId, locked.1.currentVersion)
  let some versionRow := stored | throw (httpError 404 "Key not found for the secret version")
  let dek ← KeyService.getDekForSecret P secretId versionRow.keyVersion
  let filename ← Tx.ofExcept
    (KeyService.decryptColumns P versionRow.filenameCiphertext versionRow.filenameNonce dek)
  let content ← Tx.ofExcept (decryptObject P encrypted dek secretId version)
  let newCount := locked.1.viewCount + 1
  let _ ← Tx.execute fun db =>
    db.insertView (Secrets.viewBy currentUser secretId locked.1.currentVersion now)
  Tx.write fun db => db.updateViewCount now secretId newCount (locked.1.maxViews ≤ newCount)
  log
    { action := "secret_viewed", actorId := currentUser.map CurrentUser.id
      actorIp := some clientIp, secretId := some secretId
      metadata := [("version", .int locked.1.currentVersion), ("payload_type", .str "file")] } now
  return ⟨locked.1, versionRow, filename, content⟩

/-- `Path(text).name`. -/
def pathName (text : String) : String :=
  let parts := (text.toList.splitOn '/').filter fun part => part ≠ [] ∧ part ≠ ['.']
  String.ofList (parts.getLast?.getD [])

/-- `text or default`. -/
def orElse (text : Option String) (default : String) : String :=
  (Secrets.nonempty text).getD default

def downloadFileSecret (secretId : UUID) (token accessPassword : Option String) (clientIp : String)
    (currentUser : Option CurrentUser) (log : AuditService.Logger := AuditService.logWith) :
    Handler FileResponse := do
  let policyVersion ← LocationPolicy.authorize P secretId token clientIp
  let row ← query (.fileSecret secretId) fun _ db => fileRow secretId db
  let some found := row | throw (httpError 404 "File secret not found")
  authorize P found.secret accessPassword currentUser
  raiseIf (found.policyVersion ≠ policyVersion)
    (httpError 403 "Share token policy is no longer current")
  let now ← clock
  raiseIf (found.secret.expiresAt ≤ now || found.secret.maxViews ≤ found.secret.viewCount)
    (httpError 410 "Secret is no longer available")
  let version := found.secret.currentVersion
  let stored ← query (.objectKey secretId version) fun _ db =>
    db.secretVersions.find (secretId, version)
  let some versionRow := stored
    | throw (httpError 404 "Did not find a file for provided secret id and version")
  let some objectKey := versionRow.objectKey | throw .validation
  let encrypted ← StorageService.download objectKey
  let policy ← query (.lockedPolicy secretId) fun _ db => db.secretAccessPolicies.find secretId
  let opened ← transaction
    (.download secretId version policyVersion (policy.map SecretAccessPolicy.policyVersion) encrypted)
    (fun _ now => downloadTransaction P secretId policy version policyVersion encrypted clientIp
      currentUser now log)
    fun opened => .downloaded secretId opened.secret.currentVersion
  return ⟨opened.content, orElse (some (pathName opened.filename)) "download",
    orElse opened.version.mediaType "application/octet-stream"⟩

/-! ### Uploads -/

/-- The loop of `spool_upload`: the bytes written to the file and their number. -/
def spoolLoop (destination : Bytes) (total : ℕ) : List Bytes → Except Exn (Bytes × ℕ)
  | [] => .ok (destination, total)
  | chunk :: reads =>
    if chunk = [] then .ok (destination, total)
    else if P.settings.maxFileBytes < total + chunk.length then
      .error (httpError 413 s!"File exceeds {P.settings.maxFileBytes} bytes")
    else spoolLoop (destination ++ chunk) (total + chunk.length) reads

/-- `spool_upload`, which returns the file and its size. -/
def spoolUpload (upload : Upload) : Except Exn (Bytes × ℕ) :=
  match spoolLoop P [] 0 upload.reads with
  | .error error => .error error
  | .ok (destination, total) =>
    if total = 0 then .error (httpError 422 "File is empty") else .ok (destination, total)

/-- `detail[:200]`. -/
def shortened (detail : String) : String := String.ofList (detail.toList.take 200)

/-- The scan of a spooled file, which returns the reply for a clean one. -/
def scanUpload (plaintext : Bytes) (size : ℕ) (user : CurrentUser) (clientIp : String) :
    Handler String := do
  let (status, detail) ← ClamavService.scan plaintext
  if status ≠ .clean then
    AuditService.log
      { action := "malware_detected", actorId := some user.id, actorIp := some clientIp
        metadata := [("signature", .str (shortened detail)), ("size", .int size)]
        severity := "warning" }
    throw (httpError 422 "Malware detected")
  return detail

/-- What encryption makes of an upload: the wrapped key, the object and the sealed file name. -/
structure Encrypted where
  key : String × String
  file : FileCrypto.EncryptedFile
  filename : String × String

def encryptUpload (upload : Upload) (plaintext : Bytes) (random : Random) (secretId : UUID)
    (version : ℕ) : Except Exn Encrypted :=
  match FileCrypto.encryptFile P.chacha P.fileSha256 random.dek random.noncePrefix secretId version
      plaintext with
  | .error error => .error (.fileCrypto error)
  | .ok file =>
    .ok ⟨P.wrapDek random.dek random.wrapNonce, file,
      P.encryptContent (orElse upload.filename "download") random.dek random.contentNonce⟩

/-- The row of an upload in `pending_uploads`. -/
def pendingRow (id : UUID) (objectKey : ObjectKey) (reservation : Reservation) (size : ℕ)
    (now : Timestamp) : PendingUpload where
  id := id
  userId := reservation.userId
  secretId := objectKey.secretId
  objectKey := objectKey
  reservationId := reservation.id
  plaintextSize := size
  createdAt := now
  expiresAt := now + minutes 15

/-- The row of an uploaded file in `secret_versions`. -/
def fileVersion (objectKey : ObjectKey) (keyVersion size encryptedSize : ℕ) (encrypted : Encrypted)
    (upload : Upload) (detail : String) (actorId : UUID) (changeNote : Option String)
    (now : Timestamp) : SecretVersion where
  secretId := objectKey.secretId
  version := objectKey.version
  payloadType := .file
  content := none
  nonce := none
  keyVersion := some keyVersion
  objectKey := some objectKey
  plaintextSize := size
  encryptedSize := encryptedSize
  filenameCiphertext := some encrypted.filename.1
  filenameNonce := some encrypted.filename.2
  mediaType := upload.contentType
  contentSha256 := some encrypted.file.digest
  clamavVersion := some (shortened detail)
  createdBy := some actorId
  changeNote := changeNote
  createdAt := now

/-- `except Exception: pass` around the deletion of an object. -/
def discardObject (objectKey : ObjectKey) : Handler Unit :=
  tryCatch (StorageService.delete objectKey) fun _ => pure ()

/-! ### Create -/

/-- `_allowed`: the recipients in lower case, each of them once. Of `str.lower` only the ASCII letters
are modelled. -/
def allowed (values : List String) : Except Exn (List String) :=
  match P.validateEmails values with
  | none => .error (httpError 422 "Invalid allowed email")
  | some emails => .ok (emails.map String.toLower).eraseDups

/-- `str(ip_network(value, strict=False))` for each value. -/
def normalizeCidrs (values : List String) : Except Exn (List String) :=
  match values.mapM fun value => (Internet.ipNetwork value.toList).map fun network =>
      String.ofList network.toText with
  | none => .error (httpError 422 "Invalid allowed CIDR")
  | some cidrs => .ok cidrs.eraseDups

/-- Two ASCII letters. -/
def isCountryCode (value : String) : Bool :=
  value.length = 2 && value.toList.all Char.isAlpha

def normalizeCountries (values : List String) : Except Exn (List String) :=
  let countries := (values.map P.upper).eraseDups
  if countries.all isCountryCode then .ok countries
  else .error (httpError 422 "Invalid country code")

/-- The normalised lists of a creation. -/
structure FileAccess where
  emails : List String
  cidrs : List String
  countries : List String
  deriving DecidableEq, Repr

def validateAccess (body : FileCreate) : Except Exn FileAccess := do
  let emails ← allowed P body.allowedEmail
  let cidrs ← normalizeCidrs body.allowedCidr
  let countries ← normalizeCountries P body.allowedCountry
  return ⟨emails, cidrs, countries⟩

/-- The row of a new file secret. -/
def newFileSecret (id : UUID) (body : FileCreate) (access : FileAccess) (ownerId : UUID)
    (signedToken : String) (now : Timestamp) : Secret where
  id := id
  content := none
  nonce := none
  passwordProtected := (Secrets.nonempty body.accessPassword).isSome
  accessPasswordHash := (Secrets.nonempty body.accessPassword).map P.sha256Hex
  ttlHours := body.ttlHours
  createdAt := now
  expiresAt := now
  viewed := false
  ownerId := some ownerId
  maxViews := body.maxViews
  viewCount := 0
  signedToken := some signedToken
  notifyOnView := false
  notifyEmail := none
  webhookUrl := none
  emailRestricted := access.emails ≠ []
  currentVersion := 1
  updatedAt := now
  payloadType := .file

/-- The transaction of `create_file_secret`. -/
def createTransaction (pendingId : UUID) (objectKey : ObjectKey) (body : FileCreate)
    (access : FileAccess) (encrypted : Encrypted) (size encryptedSize : ℕ) (detail : String)
    (ownerId : UUID) (signedToken : String) (now : Timestamp) : Tx Database Exn Unit := do
  let id := objectKey.secretId
  Tx.write fun db => db.insertSecret (newFileSecret P id body access ownerId signedToken now)
  Tx.write fun db => db.insertSecretKey ⟨id, encrypted.key.1, encrypted.key.2, 1, none⟩
  Tx.write fun db => db.insertSecretVersion
    (fileVersion objectKey 1 size encryptedSize encrypted body.upload detail ownerId body.changeNote
      now)
  Tx.write fun db => db.insertRecipients id access.emails
  Tx.write fun db => db.insertPolicy
    ⟨id, access.cidrs, access.countries, body.locationPolicyMode, body.geoipFailClosed, 1, now⟩
  Tx.write fun db => db.insertTracking P.settings.viewHistoryRetentionDays id
  Tx.write fun db => .ok (db.deletePendingUpload pendingId)

/-- What `create_file_secret` does from the upload of the object to the end of its connection. The
audit entry is a transaction of its own on the same connection. -/
def storeCreation (pendingId : UUID) (objectKey : ObjectKey) (body : FileCreate)
    (encrypted : Encrypted) (size : ℕ) (detail : String) (reservation : Reservation)
    (user : CurrentUser) (clientIp : String) : Handler String := do
  transaction (.pendingUpload objectKey) fun _ now => Tx.write fun db =>
    db.insertPendingUpload (pendingRow pendingId objectKey reservation size now)
  let encryptedSize ← StorageService.upload encrypted.file.object objectKey
  let access ← liftExcept (validateAccess P body)
  let now ← clock
  let signedToken := Security.createSignedToken P objectKey.secretId
    (now / second + body.ttlHours * 3600) 1
  transaction (.createFile objectKey) fun _ now =>
    createTransaction P pendingId objectKey body access encrypted size encryptedSize detail user.id
      signedToken now
  transaction .auditLog fun _ now => AuditService.logWith
    { action := "file_uploaded", actorId := some user.id, actorIp := some clientIp
      secretId := some objectKey.secretId
      metadata := [("version", .int 1), ("size", .int size)] } now
  return signedToken

/-- What follows the reservation of the bytes. -/
def encryptAndStore (pendingId : UUID) (body : FileCreate) (plaintext : Bytes) (size : ℕ)
    (detail : String) (reservation : Reservation) (user : CurrentUser) (clientIp : String) :
    Handler (UUID × String) := do
  let secretId ← uuid4
  let random ← urandom
  let encrypted ← liftExcept (encryptUpload P body.upload plaintext random secretId 1)
  let nonce ← uuid4
  let objectKey : ObjectKey := ⟨secretId, 1, nonce⟩
  let signedToken ← tryCatch
    (storeCreation P pendingId objectKey body encrypted size detail reservation user clientIp)
    fun error => do
      discardObject objectKey
      throw error
  return (secretId, signedToken)

/-- What follows the reservation of the secret, up to the point where it is durable. -/
def makeDurable (pendingId : UUID) (body : FileCreate) (user : CurrentUser) (clientIp : String) :
    Handler (UUID × String × ℕ × Reservation) := do
  let (plaintext, size) ← liftExcept (spoolUpload P body.upload)
  let detail ← scanUpload plaintext size user clientIp
  let reservation ← QuotaService.reserve P user.id 0 size
  let (secretId, signedToken) ← tryCatch
    (encryptAndStore P pendingId body plaintext size detail reservation user clientIp)
    fun error => do
      QuotaService.release reservation
      throw error
  return (secretId, signedToken, size, reservation)

/-- `create_file_secret`. -/
def createFileSecret (body : FileCreate) (user : CurrentUser) (clientIp : String) :
    Handler FileSecretResponse := do
  let secretReservation ← QuotaService.reserve P user.id 1 0
  let pendingId ← uuid4
  let (secretId, signedToken, size, byteReservation) ← tryCatch
    (makeDurable P pendingId body user clientIp)
    fun error => do
      QuotaService.release secretReservation
      throw error
  tryCatch
    (do
      QuotaService.commit secretReservation
      QuotaService.commit byteReservation)
    fun _ => do
      let _ ← QuotaService.reconcileUser user.id
      return ()
  Secrets.scheduleExpiry secretId (body.ttlHours * 3600)
  return ⟨secretId, s!"{P.settings.baseUrl}/api/secrets/{P.uuidText secretId}/file?token={signedToken}",
    signedToken, 1, size⟩

/-! ### What a download does when it returns -/

/-- The row of a version, its unwrapped key and the object make a readable file. -/
def opens (secretId : UUID) (version : ℕ) (encrypted : Bytes) (db : Database) : Bool :=
  (db.secretVersions.find (secretId, version)).any fun row =>
    (db.keyRow secretId row.keyVersion).any fun key =>
      match P.unwrapDek key.wrappedDek key.dekNonce with
      | .error _ => false
      | .ok dek =>
        (KeyService.decryptColumns P row.filenameCiphertext row.filenameNonce dek).isOk &&
          (decryptObject P encrypted dek secretId version).isOk

/-- The locked row is the one that the request has read, and it has views left. -/
def available (secretId : UUID) (version policyVersion : ℕ) (seenVersion : Option ℕ)
    (db : Database) : Bool :=
  seenVersion = some policyVersion && (db.secrets.find secretId).any fun secret =>
    secret.currentVersion = version && secret.viewCount < secret.maxViews

section Specs
variable {P}

/-- However the reads split the file, the loop writes it whole unless it is too long. -/
theorem spoolLoop_eq (destination : Bytes) (total : ℕ) (reads : List Bytes)
    (htotal : total ≤ P.settings.maxFileBytes) :
    let content := (reads.takeWhile (· ≠ [])).flatten
    spoolLoop P destination total reads =
      if P.settings.maxFileBytes < total + content.length then
        .error (httpError 413 s!"File exceeds {P.settings.maxFileBytes} bytes")
      else .ok (destination ++ content, total + content.length) := by
  induction reads generalizing destination total with
  | nil => simp [spoolLoop, htotal]
  | cons chunk reads ih =>
    by_cases hchunk : chunk = []
    · simp [spoolLoop, hchunk, htotal]
    · have htake : (chunk :: reads).takeWhile (· ≠ []) = chunk :: reads.takeWhile (· ≠ []) := by
        simp [hchunk]
      simp only [htake, List.flatten_cons, List.length_append]
      rw [spoolLoop, if_neg hchunk]
      by_cases hlong : P.settings.maxFileBytes < total + chunk.length
      · rw [if_pos hlong, if_pos (by omega)]
      · rw [if_neg hlong, ih _ _ (by omega), List.append_assoc, Nat.add_assoc]

theorem spoolUpload_eq (upload : Upload) : spoolUpload P upload =
    if P.settings.maxFileBytes < upload.content.length then
      .error (httpError 413 s!"File exceeds {P.settings.maxFileBytes} bytes")
    else if upload.content = [] then .error (httpError 422 "File is empty")
    else .ok (upload.content, upload.content.length) := by
  have hloop : spoolLoop P [] 0 upload.reads =
      if P.settings.maxFileBytes < 0 + upload.content.length then
        .error (httpError 413 s!"File exceeds {P.settings.maxFileBytes} bytes")
      else .ok ([] ++ upload.content, 0 + upload.content.length) :=
    spoolLoop_eq [] 0 upload.reads (Nat.zero_le _)
  rw [spoolUpload, hloop, Nat.zero_add, List.nil_append]
  by_cases hlong : P.settings.maxFileBytes < upload.content.length
  · rw [if_pos hlong, if_pos hlong]
  · rw [if_neg hlong, if_neg hlong]
    by_cases hempty : upload.content = []
    · simp [hempty]
    · simp [hempty]

/-- A spooled file is the uploaded one, and its size is within the bounds. -/
theorem spoolUpload_ok {upload : Upload} {plaintext : Bytes} {size : ℕ}
    (h : spoolUpload P upload = .ok (plaintext, size)) :
    plaintext = upload.content ∧ size = upload.content.length ∧ 1 ≤ upload.content.length ∧
      upload.content.length ≤ P.settings.maxFileBytes := by
  rw [spoolUpload_eq] at h
  split at h
  · cases h
  · split at h
    · cases h
    · rename_i hlong hempty
      cases h
      exact ⟨rfl, rfl, List.length_pos_of_ne_nil hempty, Nat.le_of_not_lt hlong⟩

theorem encryptUpload_ok {upload : Upload} {plaintext : Bytes} {random : Random} {secretId : UUID}
    {version : ℕ} {encrypted : Encrypted}
    (h : encryptUpload P upload plaintext random secretId version = .ok encrypted) :
    FileCrypto.encryptFile P.chacha P.fileSha256 random.dek random.noncePrefix secretId version
      plaintext = .ok encrypted.file ∧ encrypted.key = P.wrapDek random.dek random.wrapNonce ∧
    encrypted.filename =
      P.encryptContent (orElse upload.filename "download") random.dek random.contentNonce := by
  unfold encryptUpload at h
  split at h
  · cases h
  · rename_i file hfile
    cases h
    exact ⟨hfile, rfl, rfl⟩

/-- What a download that returns has read and done; its audit entry comes last. -/
theorem downloadTransaction_ok {secretId : UUID} {policy : Option SecretAccessPolicy}
    {version policyVersion : ℕ} {encrypted : Bytes} {clientIp : String}
    {currentUser : Option CurrentUser} {now : Timestamp} {db : Database}
    {opened : Opened} {committed : Option Database}
    (h : (downloadTransaction P secretId policy version policyVersion encrypted clientIp currentUser
      now).run db = .ok (opened, committed)) :
    db.secrets.find secretId = some opened.secret ∧ opened.secret.currentVersion = version ∧
    available secretId version policyVersion (policy.map SecretAccessPolicy.policyVersion) db =
      true ∧
    opens P secretId version encrypted db = true ∧
    ∃ viewedDb n updated metadata,
      db.insertView (Secrets.viewBy currentUser secretId version now) = .ok (n, viewedDb) ∧
      viewedDb.updateViewCount now secretId (opened.secret.viewCount + 1)
        (opened.secret.maxViews ≤ opened.secret.viewCount + 1) = .ok updated ∧
      committed = (updated.insertAuditLog now "secret_viewed" (currentUser.map CurrentUser.id)
        (some clientIp) (some secretId) metadata).toOption := by
  rcases Tx.run_ok h with ⟨c, hbody, hcommitted⟩
  rcases Tx.bind_ok hbody with ⟨row, c₁, hselect, hbody₁⟩
  rcases Tx.select_ok hselect with ⟨_, hrow, rfl⟩
  cases row with
  | none => exact absurd hbody₁ Tx.throw_ok
  | some locked =>
    rcases Tx.bind_ok hbody₁ with ⟨_, _, hguard, hbody₂⟩
    rcases Tx.raiseIf_ok hguard with ⟨hversion, rfl⟩
    rcases Tx.bind_ok hbody₂ with ⟨_, _, hguard, hbody₃⟩
    rcases Tx.raiseIf_ok hguard with ⟨hpolicy, rfl⟩
    rcases Tx.bind_ok hbody₃ with ⟨_, _, hguard, hbody₄⟩
    rcases Tx.raiseIf_ok hguard with ⟨hcount, rfl⟩
    rcases Tx.bind_ok hbody₄ with ⟨stored, c₂, hselect₂, hbody₅⟩
    rcases Tx.select_ok hselect₂ with ⟨_, hstored, rfl⟩
    cases stored with
    | none => exact absurd hbody₅ Tx.throw_ok
    | some versionRow =>
      rcases Tx.bind_ok hbody₅ with ⟨dek, c₃, hdek, hbody₆⟩
      rcases KeyService.getDekForSecret_ok hdek with ⟨rfl, key, hunwrap, hkey⟩
      rcases Tx.bind_ok hbody₆ with ⟨filename, _, hname, hbody₇⟩
      rcases Tx.ofExcept_ok hname with ⟨hdecrypt, rfl⟩
      rcases Tx.bind_ok hbody₇ with ⟨content, _, hcontent, hbody₈⟩
      rcases Tx.ofExcept_ok hcontent with ⟨hopen, rfl⟩
      rcases Tx.bind_ok hbody₈ with ⟨n, c₄, hinsert, hbody₉⟩
      rcases Tx.execute_ok hinsert with ⟨_, hfailed₄, hinsert⟩
      rcases Tx.bind_ok hbody₉ with ⟨_, c₅, hupdate, hbody₁₀⟩
      rcases Tx.write_ok hupdate with ⟨_, hfailed₅, hupdate⟩
      rcases Tx.bind_ok hbody₁₀ with ⟨_, c₆, hlog, hbody₁₁⟩
      rcases Tx.pure_ok hbody₁₁ with ⟨rfl, rfl⟩
      have hversion : locked.1.currentVersion = version := by simpa using hversion
      have hpolicy : locked.2 = policyVersion := by simpa using hpolicy
      have hcount : locked.1.viewCount < locked.1.maxViews := by simpa using hcount
      rcases Option.bind_eq_some_iff.mp hrow.symm with ⟨secret, hsecret, hrow⟩
      rcases Option.map_eq_some_iff.mp hrow with ⟨read, rfl, rfl⟩
      subst hversion hpolicy
      have hlast := hcommitted.trans (Tx.committed_quietly_write hfailed₅ hlog)
      refine ⟨hsecret, rfl, ?_, ?_, c₄.db, n, c₅.db, _, hinsert, hupdate, hlast⟩
      · simpa [available, hsecret] using hcount
      · simp [opens, ← hstored, hkey, hunwrap, isOk_of_eq hdecrypt, isOk_of_eq hopen]

end Specs

end Files
end PhantomShare
