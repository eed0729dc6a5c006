import PhantomShare.Services.CleanupService
import PhantomShare.Services.KeyService
import PhantomShare.Services.AuditAndLocation
import PhantomShare.Services.QuotaService

/-!
# Text secrets

Creation, retrieval, deletion and key rotation, as in `routers/secrets.py`. The
row of a secret is locked for the whole of each transaction below, so such a
transaction is one atomic step. The lock of a retrieval waits inside its first
statement, which has read the policy row by then.
-/
namespace PhantomShare
open Foundations

/-- The validated body of a creation. -/
structure SecretCreate where
  content : String
  ttlHours : ℕ := 24
  passwordProtected : Bool := false
  accessPassword : Option String := none
  maxViews : ℤ := 1
  allowedEmails : Option (List String) := none
  notifyOnView : Bool := false
  notifyEmail : Option String := none
  webhookUrl : Option String := none
  clientEncrypted : Bool := false
  clientNonce : Option String := none
  allowedCidrs : List String := []
  allowedCountries : List String := []
  locationPolicyMode : PolicyMode := .all
  geoipFailClosed : Bool := true
  deriving DecidableEq, Repr

structure SecretCreateResponse where
  secretId : UUID
  shareUrl : String
  signedToken : String
  expiresAt : Timestamp
  deriving DecidableEq, Repr

structure SecretContent where
  content : String
  createdAt : Timestamp
  expiresAt : Timestamp
  viewsRemaining : ℤ
  clientEncrypted : Bool
  version : ℕ
  deriving DecidableEq, Repr

structure KeyRotateResponse where
  secretId : UUID
  newKeyVersion : ℕ
  rotatedAt : Timestamp
  deriving DecidableEq, Repr

namespace Secrets
variable (P : Platform)

/-- `if value:` of an optional text. -/
def nonempty : Option String → Option String
  | some "" => none
  | text => text

/-! ### Create -/

/-- What creation stores: the content with its nonce, and the wrapped key of version 1 unless
the client encrypted the content. -/
structure Prepared where
  content : String
  nonce : Option String
  key : Option (String × String)

def prepare (body : SecretCreate) (random : Random) : Except Exn Prepared :=
  if body.clientEncrypted then
    match P.validateClientEncrypted body.content (body.clientNonce.getD "") with
    | .error (.valueError message) => .error (httpError 400 message)
    | .error error => .error error
    | .ok () => .ok ⟨body.content, body.clientNonce, none⟩
  else
    let encrypted := P.encryptContent body.content random.dek random.contentNonce
    .ok ⟨encrypted.1, some encrypted.2, some (P.wrapDek random.dek random.wrapNonce)⟩

/-- The row of `_insert_secret`. -/
def newSecret (id : UUID) (body : SecretCreate) (prepared : Prepared) (ownerId : UUID)
    (now : Timestamp) : Secret where
  id := id
  content := some prepared.content
  nonce := prepared.nonce
  passwordProtected := body.passwordProtected
  accessPasswordHash :=
    if body.passwordProtected then (nonempty body.accessPassword).map P.sha256Hex else none
  ttlHours := body.ttlHours
  createdAt := now
  expiresAt := now
  viewed := false
  ownerId := some ownerId
  maxViews := body.maxViews
  viewCount := 0
  signedToken := none
  notifyOnView := body.notifyOnView
  notifyEmail := body.notifyEmail
  webhookUrl := body.webhookUrl
  emailRestricted := body.allowedEmails.isSome
  currentVersion := 1
  updatedAt := now
  payloadType := .text

/-- The first row of a text secret in `secret_versions`. -/
def firstVersion (id : UUID) (body : SecretCreate) (prepared : Prepared) (ownerId : UUID)
    (now : Timestamp) : SecretVersion where
  secretId := id
  version := 1
  payloadType := .text
  content := some prepared.content
  nonce := prepared.nonce
  keyVersion := prepared.key.map fun _ => 1
  objectKey := none
  plaintextSize := (utf8Encode body.content).length
  encryptedSize := 0
  filenameCiphertext := none
  filenameNonce := none
  mediaType := none
  contentSha256 := none
  clamavVersion := none
  createdBy := some ownerId
  changeNote := none
  createdAt := now

/-- `INSERT INTO secret_keys … version 1`, when the server holds a key. -/
def insertFirstKey (id : UUID) : Option (String × String) → Tx Database Exn Unit
  | none => pure ()
  | some (wrappedDek, dekNonce) =>
    Tx.write fun db => db.insertSecretKey ⟨id, wrappedDek, dekNonce, 1, none⟩

def insertAllowedEmails (id : UUID) : Option (List String) → Tx Database Exn Unit
  | none => pure ()
  | some emails => Tx.write fun db => db.insertRecipients id emails

/-- The transaction of `create_secret`, which returns the share token. -/
def createTransaction (id : UUID) (body : SecretCreate) (ownerId : UUID) (clientIp : String)
    (random : Random) (now : Timestamp)
    (log : AuditService.Logger := AuditService.logWith) : Tx Database Exn String := do
  let prepared ← Tx.ofExcept (prepare P body random)
  Tx.write fun db => db.insertSecret (newSecret P id body prepared ownerId now)
  insertFirstKey id prepared.key
  Tx.write fun db => db.insertSecretVersion (firstVersion id body prepared ownerId now)
  insertAllowedEmails id body.allowedEmails
  Tx.write fun db => db.insertPolicy
    ⟨id, body.allowedCidrs, body.allowedCountries, body.locationPolicyMode, body.geoipFailClosed,
      1, now⟩
  Tx.write fun db => db.insertTracking P.settings.viewHistoryRetentionDays id
  let signedToken := Security.createSignedToken P id (now / second + body.ttlHours * 3600) 1
  Tx.write fun db => .ok
    (db.updateSecret id (fun s => { s with signedToken := some signedToken }) fun _ => rfl)
  log
    { action := "secret_created", actorId := some ownerId, actorIp := some clientIp
      secretId := some id } now
  return signedToken

/-- `except Exception` around `schedule_expiry`. -/
def scheduleExpiry (id : UUID) (ttlSeconds : ℕ) : Handler Unit :=
  tryCatch (CleanupService.scheduleExpiry id ttlSeconds) fun _ => pure ()

/-- `create_secret`; `gen_random_uuid()` is the default of the column `id`. -/
def createSecret (body : SecretCreate) (user : CurrentUser) (clientIp : String)
    (log : AuditService.Logger := AuditService.logWith) :
    Handler SecretCreateResponse := do
  let reservation ← QuotaService.reserve P user.id 1 0
  let id ← uuid4
  let signedToken ← tryCatch
    (transaction .createSecret
      (fun choice now => createTransaction P id body user.id clientIp choice.random now log)
      fun _ => .created id body.content)
    fun error => do
      QuotaService.release reservation
      throw error
  QuotaService.commit reservation
  scheduleExpiry id (body.ttlHours * 3600)
  let row ← query (.secretExpiry id) fun _ db => (db.secrets.find id).map Secret.expiresAt
  let some expiresAt := row | throw .validation
  return ⟨id, s!"{P.settings.baseUrl}/api/secrets/{P.uuidText id}?token={signedToken}", signedToken,
    expiresAt⟩

/-! ### Retrieve -/

/-- The recipient check of an email-restricted secret. -/
def checkRecipient (secret : Secret) (currentUser : Option CurrentUser) : Tx Database Exn Unit :=
  if secret.emailRestricted then
    match currentUser with
    | none => throw (httpError 401 "Log in with a verified recipient email to access this secret")
    | some user => do
      Tx.raiseIf (!user.isVerified)
        (httpError 403 "Verify your email before accessing this secret")
      let allowed ← Tx.select fun db => db.secretRecipients.rows.any fun r =>
        r.secretId = secret.id ∧ citextEq r.email user.email
      Tx.raiseIf (!allowed) (httpError 403 "Your email is not allowed to access this secret")
  else pure ()

def checkPassword (secret : Secret) (accessPassword : Option String) : Except Exn Unit :=
  if secret.passwordProtected then
    match nonempty accessPassword with
    | none => .error (httpError 401 "Password required")
    | some password =>
      if some (P.sha256Hex password) = secret.accessPasswordHash then .ok ()
      else .error (httpError 401 "Invalid password")
  else .ok ()

/-- The content as the client gets it, and whether the client has to decrypt it. -/
def readContent (secret : Secret) : Tx Database Exn (Option String × Bool) := do
  let hasServerKey ← Tx.select fun db => !(db.keysOf secret.id).isEmpty
  match hasServerKey with
  | true =>
    tryCatch
      (do
        let dek ← KeyService.getDekForSecret P secret.id none
        let plaintext ← Tx.ofExcept (KeyService.decryptColumns P secret.content secret.nonce dek)
        return (some plaintext, false))
      fun _ => throw (httpError 500 "Failed to decrypt secret")
  | false => return (secret.content, true)

/-- The row that a viewer leaves in `secret_views`. -/
def viewBy (currentUser : Option CurrentUser) (secretId : UUID) (version : ℕ) (now : Timestamp) :
    SecretView where
  secretId := secretId
  viewerId := currentUser.map CurrentUser.id
  viewerEmail := currentUser.map CurrentUser.email
  emailVerified := currentUser.any CurrentUser.isVerified
  contentVersion := version
  viewedAt := now

/-- What the transaction of a retrieval hands over. -/
structure Seen where
  secret : Secret
  content : Option String
  clientEncrypted : Bool

/-- The transaction of `_retrieve_secret`, with the policy row that its first statement read. -/
def retrieveTransaction (id : UUID) (policy : Option SecretAccessPolicy) (policyVersion : ℕ)
    (accessPassword : Option String) (clientIp : String) (currentUser : Option CurrentUser)
    (now : Timestamp) (log : AuditService.Logger := AuditService.logWith) :
    Tx Database Exn Seen := do
  let row ← Tx.select fun db => db.secrets.find id
  let some secret := row | throw (httpError 404 "Secret not found or has expired")
  let some policy := policy | throw (httpError 404 "Secret not found or has expired")
  Tx.raiseIf (policy.policyVersion ≠ policyVersion)
    (httpError 403 "Share token policy is no longer current")
  Tx.raiseIf (secret.expiresAt < now) (httpError 410 "Secret has expired")
  Tx.raiseIf (secret.maxViews ≤ secret.viewCount)
    (httpError 410 "Secret has reached its maximum view count")
  Tx.raiseIf (secret.payloadType ≠ .text)
    (httpError 409 "This secret contains a file; use the file download endpoint")
  checkRecipient secret currentUser
  Tx.ofExcept (checkPassword P secret accessPassword)
  let (content, clientEncrypted) ← readContent P secret
  let newViewCount := secret.viewCount + 1
  let rowcount ← Tx.execute fun db =>
    db.insertView (viewBy currentUser id secret.currentVersion now)
  Tx.raiseIf (secret.emailRestricted && rowcount ≠ 1)
    (httpError 500 "Unable to record secret access")
  log
    { action := "secret_viewed", actorId := currentUser.map CurrentUser.id
      actorIp := some clientIp, secretId := some id
      metadata := [("view_count", .int newViewCount), ("max_views", .int secret.maxViews)] } now
  Tx.write fun db => db.updateViewCount now id newViewCount (secret.maxViews ≤ newViewCount)
  return ⟨secret, content, clientEncrypted⟩

/-- The checks before the transaction; a malformed id or token is a 403. -/
def authorizeRetrieval (secretId : String) (token : Option String) (clientIp : String) :
    Handler (UUID × ℕ) :=
  tryCatch
    (do
      let id ← liftExcept (Security.uuidOfText P secretId)
      let policyVersion ← LocationPolicy.authorize P id token clientIp
      return (id, policyVersion))
    fun error =>
      match error with
      | .valueError _ => throw (httpError 403 "Invalid share token")
      | other => throw other

/-- `_retrieve_secret`. -/
def retrieveSecret (secretId : String) (accessPassword token : Option String) (clientIp : String)
    (currentUser : Option CurrentUser) (log : AuditService.Logger := AuditService.logWith) :
    Handler SecretContent := do
  let (id, policyVersion) ← authorizeRetrieval P secretId token clientIp
  let policy ← query (.lockedPolicy id) fun _ db => db.secretAccessPolicies.find id
  let seen ← transaction (.retrieve id policyVersion (policy.map SecretAccessPolicy.policyVersion))
    (fun _ now =>
      retrieveTransaction P id policy policyVersion accessPassword clientIp currentUser now log)
    fun seen => .retrieved id (seen.content.getD "") seen.secret.currentVersion
  let some content := seen.content | throw .validation
  return ⟨content, seen.secret.createdAt, seen.secret.expiresAt,
    max 0 (seen.secret.maxViews - (seen.secret.viewCount + 1)), seen.clientEncrypted,
    seen.secret.currentVersion⟩

/-! ### Delete -/

/-- The transaction of `delete_secret`; `log_critical` comes before the deletion. -/
def deleteTransaction (id : UUID) (user : CurrentUser) (clientIp : String) (now : Timestamp)
    (log : AuditService.Logger := AuditService.logWith) : Tx Database Exn Unit := do
  let row ← Tx.select fun db => db.secrets.find id
  let some secret := row | throw (httpError 404 "Secret not found")
  Tx.ofExcept (Security.requireOwnsSecret secret.ownerId user)
  log
    { action := "secret_deleted", actorId := some user.id, actorIp := some clientIp
      secretId := some id, metadata := [("reason", .str "owner_request")]
      severity := "critical" } now
  Tx.write fun db => .ok (db.deleteSecrets now fun s => s.id = id)

def deleteSecret (secretId : String) (user : CurrentUser) (clientIp : String)
    (log : AuditService.Logger := AuditService.logWith) : Handler Unit := do
  let id ← liftExcept (Security.castUuid P secretId)
  transaction (.deleteSecret id) fun _ now => deleteTransaction id user clientIp now log
  tryCatch
    (do
      let _ ← QuotaService.reconcileUser user.id
      return ())
    fun _ => pure ()

/-! ### Key rotation -/

/-- What a failed rotation looks like to the client. -/
def rotationError : Exn → Exn
  | .valueError message =>
    if "not found".toList <:+: message.toLower.toList then httpError 404 message
    else httpError 500 "Key rotation failed"
  | other => other

/-- `rotate_secret_key`. -/
def rotateSecretKey (secretId : String) (user : CurrentUser) (clientIp : String) :
    Handler KeyRotateResponse := do
  let id ← liftExcept (Security.castUuid P secretId)
  let row ← query (.secretOwner id) fun _ db => (db.secrets.find id).map Secret.ownerId
  let some ownerId := row | throw (httpError 404 "Secret not found")
  liftExcept (Security.requireOwnsSecret ownerId user)
  let newVersion ← tryCatch
    (transaction (.rotateKey id) fun choice now => KeyService.rotateKey P id choice.random now)
    fun error => throw (rotationError error)
  let now ← clock
  AuditService.log
    { action := "key_rotated", actorId := some user.id, actorIp := some clientIp
      secretId := some id, metadata := [("new_version", .int newVersion)]
      severity := "critical" }
  return ⟨id, newVersion, now⟩

/-! ### What the transactions do when they return -/

section Specs
variable {P}

/-- What a creation does to `secret_keys`. -/
def FirstKey (id : UUID) (keys keys' : Table SecretKey.key) : Option (String × String) → Prop
  | none => keys' = keys
  | some key => keys.insert ⟨id, key.1, key.2, 1, none⟩ = some keys'

theorem insertFirstKey_ok {id : UUID} {key : Option (String × String)} {u : Unit}
    {c c' : Connection Database} (h : insertFirstKey id key c = (.ok u, c')) :
    ∃ keys, c'.db = { c.db with secretKeys := keys } ∧ FirstKey id c.db.secretKeys keys key := by
  cases key with
  | none =>
    rcases Tx.pure_ok h with ⟨_, rfl⟩
    exact ⟨_, rfl, rfl⟩
  | some key =>
    rcases Database.insertSecretKey_ok (Tx.write_ok h).2.2 with ⟨_, keys, hinsert, hdb⟩
    exact ⟨keys, hdb, hinsert⟩

theorem insertAllowedEmails_ok {id : UUID} {emails : Option (List String)} {u : Unit}
    {c c' : Connection Database} (h : insertAllowedEmails id emails c = (.ok u, c')) :
    ∃ recipients, c'.db = { c.db with secretRecipients := recipients } := by
  cases emails with
  | none =>
    rcases Tx.pure_ok h with ⟨_, rfl⟩
    exact ⟨_, rfl⟩
  | some emails => exact Database.insertRecipients_frame (Tx.write_ok h).2.2

/-- A creation adds one secret, its first version and, unless the client encrypted the content, its
first key. -/
theorem createTransaction_ok {id : UUID} {body : SecretCreate} {ownerId : UUID} {clientIp : String}
    {random : Random} {now : Timestamp} {db db' : Database} {signedToken : String}
    (h : (createTransaction P id body ownerId clientIp random now).run db =
      .ok (signedToken, some db')) :
    ∃ prepared secrets,
      prepare P body random = .ok prepared ∧
      db.secrets.insert { newSecret P id body prepared ownerId now with
        expiresAt := now + hours body.ttlHours } = some secrets ∧
      db'.secrets = secrets.modify id (fun s => { s with signedToken := some signedToken })
        (fun _ => rfl) ∧
      FirstKey id db.secretKeys db'.secretKeys prepared.key ∧
      db.secretVersions.insert (firstVersion id body prepared ownerId now) =
        some db'.secretVersions := by
  rcases Tx.run_ok h with ⟨c, hbody, hcommitted⟩
  rcases Tx.bind_ok hbody with ⟨prepared, _, hprepare, hbody₁⟩
  rcases Tx.ofExcept_ok hprepare with ⟨hprepared, rfl⟩
  rcases Tx.bind_ok hbody₁ with ⟨_, c₁, hinsert, hbody₂⟩
  rcases Database.insertSecret_ok (Tx.write_ok hinsert).2.2 with ⟨secrets, hsecrets, hc₁⟩
  rcases Tx.bind_ok hbody₂ with ⟨_, c₂, hkey, hbody₃⟩
  rcases insertFirstKey_ok hkey with ⟨keys, hc₂, hkeys⟩
  rcases Tx.bind_ok hbody₃ with ⟨_, c₃, hversion, hbody₄⟩
  rcases Database.insertSecretVersion_ok (Tx.write_ok hversion).2.2 with
    ⟨_, _, versions, hversions, hc₃⟩
  rcases Tx.bind_ok hbody₄ with ⟨_, c₄, hemails, hbody₅⟩
  rcases insertAllowedEmails_ok hemails with ⟨recipients, hc₄⟩
  rcases Tx.bind_ok hbody₅ with ⟨_, c₅, hpolicy, hbody₆⟩
  rcases Database.insertPolicy_frame (Tx.write_ok hpolicy).2.2 with ⟨policies, hc₅⟩
  rcases Tx.bind_ok hbody₆ with ⟨_, c₆, htracking, hbody₇⟩
  rcases Database.insertTracking_frame (Tx.write_ok htracking).2.2 with ⟨tracking, hc₆⟩
  rcases Tx.bind_ok hbody₇ with ⟨_, c₇, htoken, hbody₈⟩
  have hc₇ := (Except.ok.inj (Tx.write_ok htoken).2.2).symm
  rcases Tx.bind_ok hbody₈ with ⟨_, c₈, hlog, hbody₉⟩
  rcases Tx.pure_ok hbody₉ with ⟨rfl, rfl⟩
  rcases Tx.quietly_write_ok hlog with ⟨habort, _⟩ | ⟨_, hlive, hlogged⟩
  · simp [habort] at hcommitted
  · rcases Database.insertAuditLog_ok hlogged with ⟨_, _, logRow, hc₈⟩
    rw [hlive, if_neg (by decide), Option.some.injEq] at hcommitted
    have hdb : db' = { db with
        secrets := secrets.modify id (fun s => { s with
          signedToken := some (Security.createSignedToken P id
            (now / second + body.ttlHours * 3600) 1) }) fun _ => rfl
        secretKeys := keys
        secretVersions := versions
        secretRecipients := recipients
        secretAccessPolicies := policies
        secretTracking := tracking
        auditLogs := db.auditLogs ++ [logRow] } := by
      rw [hcommitted, hc₈, hc₇, hc₆, hc₅, hc₄, hc₃, hc₂, hc₁]
      rfl
    rw [hc₁] at hkeys
    rw [hc₂, hc₁] at hversions
    rw [hdb]
    exact ⟨prepared, secrets, hprepared, hsecrets, rfl, hkeys, hversions⟩

theorem checkRecipient_ok {secret : Secret} {currentUser : Option CurrentUser} {u : Unit}
    {c c' : Connection Database} (h : checkRecipient secret currentUser c = (.ok u, c')) :
    c' = c := by
  unfold checkRecipient at h
  split at h
  · cases currentUser with
    | none => exact absurd h Tx.throw_ok
    | some user =>
      rcases Tx.bind_ok h with ⟨_, c₁, hverified, hrest₁⟩
      rcases Tx.raiseIf_ok hverified with ⟨_, rfl⟩
      rcases Tx.bind_ok hrest₁ with ⟨allowed, c₂, hselect, hrest₂⟩
      rcases Tx.select_ok hselect with ⟨_, _, rfl⟩
      exact (Tx.raiseIf_ok hrest₂).2
  · exact (Tx.pure_ok h).2

/-- How a viewer gets the content: decrypted with the latest key, or as the client sent it. -/
theorem readContent_ok {secret : Secret} {content : Option String} {clientEncrypted : Bool}
    {c c' : Connection Database}
    (h : readContent P secret c = (.ok (content, clientEncrypted), c')) :
    c' = c ∧ ((c.db.keysOf secret.id = [] ∧ content = secret.content ∧ clientEncrypted = true) ∨
      ∃ key dek plaintext, c.db.latestKey secret.id = some key ∧
        P.unwrapDek key.wrappedDek key.dekNonce = .ok dek ∧
        KeyService.decryptColumns P secret.content secret.nonce dek = .ok plaintext ∧
        content = some plaintext ∧ clientEncrypted = false) := by
  rcases Tx.bind_ok h with ⟨hasServerKey, c₁, hselect, hrest⟩
  rcases Tx.select_ok hselect with ⟨_, hkeys, rfl⟩
  cases hasServerKey with
  | false =>
    rcases Tx.pure_ok hrest with ⟨hvalue, rfl⟩
    cases hvalue
    refine ⟨rfl, Or.inl ⟨?_, rfl, rfl⟩⟩
    simpa using hkeys.symm
  | true =>
    change (tryCatch _ _ : Tx Database Exn _) c₁ = _ at hrest
    rw [Tx.tryCatch_apply] at hrest
    split at hrest
    · rename_i value c₂ hbody
      cases hrest
      rcases Tx.bind_ok hbody with ⟨dek, c₃, hdek, hbody₁⟩
      rcases KeyService.getDekForSecret_ok hdek with ⟨rfl, key, hunwrap, hkey⟩
      rcases Tx.bind_ok hbody₁ with ⟨plaintext, c₄, hplain, hbody₂⟩
      rcases Tx.ofExcept_ok hplain with ⟨hdecrypt, rfl⟩
      rcases Tx.pure_ok hbody₂ with ⟨hvalue, rfl⟩
      cases hvalue
      exact ⟨rfl, Or.inr ⟨key, dek, plaintext, hkey, hunwrap, hdecrypt, rfl, rfl⟩⟩
    · exact absurd hrest Tx.throw_ok

/-- What a retrieval that returns has read and done. -/
theorem retrieveTransaction_ok {id : UUID} {policy : Option SecretAccessPolicy}
    {policyVersion : ℕ} {accessPassword : Option String} {clientIp : String}
    {currentUser : Option CurrentUser} {now : Timestamp} {db : Database} {seen : Seen}
    {committed : Option Database}
    (h : (retrieveTransaction P id policy policyVersion accessPassword clientIp currentUser
      now).run db = .ok (seen, committed)) :
    db.secrets.find id = some seen.secret ∧ seen.secret.payloadType = .text ∧
    seen.secret.viewCount < seen.secret.maxViews ∧
    readContent P seen.secret ⟨db, false⟩ =
      (.ok (seen.content, seen.clientEncrypted), ⟨db, false⟩) ∧
    ∃ viewedDb logs db' n,
      db.insertView (viewBy currentUser id seen.secret.currentVersion now) =
        .ok (n, viewedDb) ∧
      ({ viewedDb with auditLogs := logs } : Database).updateViewCount now id
        (seen.secret.viewCount + 1) (seen.secret.maxViews ≤ seen.secret.viewCount + 1) = .ok db' ∧
      committed = some db' := by
  rcases Tx.run_ok h with ⟨c, hbody, hcommitted⟩
  rcases Tx.bind_ok hbody with ⟨row, c₁, hselect, hbody₁⟩
  rcases Tx.select_ok hselect with ⟨_, hrow, rfl⟩
  cases row with
  | none => exact absurd hbody₁ Tx.throw_ok
  | some secret =>
    cases policy with
    | none => exact absurd hbody₁ Tx.throw_ok
    | some policy =>
      rcases Tx.bind_ok hbody₁ with ⟨_, _, hguard, hbody₂⟩
      rcases Tx.raiseIf_ok hguard with ⟨_, rfl⟩
      rcases Tx.bind_ok hbody₂ with ⟨_, _, hguard, hbody₃⟩
      rcases Tx.raiseIf_ok hguard with ⟨_, rfl⟩
      rcases Tx.bind_ok hbody₃ with ⟨_, _, hguard, hbody₄⟩
      rcases Tx.raiseIf_ok hguard with ⟨hcount, rfl⟩
      rcases Tx.bind_ok hbody₄ with ⟨_, _, hguard, hbody₅⟩
      rcases Tx.raiseIf_ok hguard with ⟨htype, rfl⟩
      rcases Tx.bind_ok hbody₅ with ⟨_, _, hguard, hbody₆⟩
      cases checkRecipient_ok hguard
      rcases Tx.bind_ok hbody₆ with ⟨_, _, hguard, hbody₇⟩
      rcases Tx.ofExcept_ok hguard with ⟨_, rfl⟩
      rcases Tx.bind_ok hbody₇ with ⟨⟨content, clientEncrypted⟩, c₂, hread, hbody₈⟩
      cases (readContent_ok hread).1
      rcases Tx.bind_ok hbody₈ with ⟨rowcount, c₃, hinsert, hbody₉⟩
      rcases Tx.execute_ok hinsert with ⟨_, hfailed₃, hinsert⟩
      rcases Tx.bind_ok hbody₉ with ⟨_, _, hguard, hbody₁₀⟩
      rcases Tx.raiseIf_ok hguard with ⟨_, rfl⟩
      rcases Tx.bind_ok hbody₁₀ with ⟨_, c₄, hlog, hbody₁₁⟩
      rcases Tx.bind_ok hbody₁₁ with ⟨_, c₅, hupdate, hbody₁₂⟩
      rcases Tx.write_ok hupdate with ⟨hfailed₄, hfailed₅, hupdate⟩
      rcases Tx.pure_ok hbody₁₂ with ⟨rfl, rfl⟩
      rcases Tx.quietly_write_ok hlog with ⟨habort, _⟩ | ⟨_, _, hlog⟩
      · rw [hfailed₄] at habort
        cases habort
      · rcases Database.insertAuditLog_ok hlog with ⟨_, _, logRow, hlogged⟩
        rw [hlogged] at hupdate
        have htext : secret.payloadType = .text := by simpa using htype
        have hlt : secret.viewCount < secret.maxViews := by simpa using hcount
        refine ⟨hrow.symm, htext, hlt, hread, _, _, c.db, rowcount, hinsert, hupdate, ?_⟩
        rw [hcommitted, hfailed₅]
        rfl

end Specs

end Secrets
end PhantomShare
