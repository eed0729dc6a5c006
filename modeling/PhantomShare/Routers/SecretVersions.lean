import PhantomShare.Routers.Secrets

/-!
# Versions of text secrets

`routers/secret_versions.py`: an update appends a version with new content, a
restore appends a version with the content of an old one. Both log with the
connection of their transaction.
-/
namespace PhantomShare
open Foundations

structure SecretUpdate where
  content : String
  expectedVersion : ℕ
  changeNote : Option String := none
  deriving DecidableEq, Repr

structure SecretUpdateResponse where
  secretId : UUID
  version : ℕ
  updatedAt : Timestamp
  deriving DecidableEq, Repr

namespace SecretVersions
variable (P : Platform)

def textVersion (id : UUID) (version : ℕ) (plaintext ciphertext nonce : String) (keyVersion : ℕ)
    (actorId : UUID) (changeNote : Option String) (now : Timestamp) : SecretVersion where
  secretId := id
  version := version
  payloadType := .text
  content := some ciphertext
  nonce := some nonce
  keyVersion := some keyVersion
  objectKey := none
  plaintextSize := (utf8Encode plaintext).length
  encryptedSize := 0
  filenameCiphertext := none
  filenameNonce := none
  mediaType := none
  contentSha256 := none
  clamavVersion := none
  createdBy := some actorId
  changeNote := changeNote
  createdAt := now

/-- `_insert_text_version`, which returns the key version. -/
def insertTextVersion (id : UUID) (version : ℕ) (plaintext : String) (actorId : UUID)
    (changeNote : Option String) (random : Random) (now : Timestamp) : Tx Database Exn ℕ := do
  let key ← KeyService.createVersionKey P id random now
  let encrypted := P.encryptContent plaintext key.1 random.contentNonce
  Tx.write fun db => db.insertSecretVersion
    (textVersion id version plaintext encrypted.1 encrypted.2 key.2 actorId changeNote now)
  Tx.write fun db => .ok (db.updateSecret id
    (fun s => { s with
      content := some encrypted.1
      nonce := some encrypted.2
      currentVersion := version
      updatedAt := now }) fun _ => rfl)
  return key.2

/-- The transaction of `update_secret`. -/
def updateTransaction (id : UUID) (body : SecretUpdate) (user : CurrentUser) (clientIp : String)
    (random : Random) (now : Timestamp) (log : AuditService.Logger := AuditService.logWith) :
    Tx Database Exn ℕ := do
  let row ← Tx.select fun db => db.secrets.find id
  let some secret := row | throw (httpError 404 "Secret not found")
  Tx.ofExcept (Security.requireOwnsSecret secret.ownerId user)
  Tx.raiseIf (secret.expiresAt ≤ now) (httpError 410 "Secret has expired")
  Tx.raiseIf (secret.payloadType ≠ .text) (httpError 409 "Use the file update endpoint")
  Tx.raiseIf (secret.currentVersion ≠ body.expectedVersion)
    (.http 409 (.fields [("error_code", .str "VERSION_CONFLICT"),
      ("current_version", .int secret.currentVersion)]))
  Tx.raiseIf (P.settings.maxSecretVersions ≤ secret.currentVersion)
    (httpError 409 "Maximum versions reached")
  let currentKey ← Tx.select fun db =>
    (db.secretVersions.find (id, secret.currentVersion)).bind SecretVersion.keyVersion
  Tx.raiseIf currentKey.isNone
    (httpError 409 "Server-side updates are unavailable for client-encrypted secrets")
  let newVersion := secret.currentVersion + 1
  let keyVersion ← insertTextVersion P id newVersion body.content user.id body.changeNote random now
  log
    { action := "secret_updated", actorId := some user.id, actorIp := some clientIp
      secretId := some id
      metadata := [("from_version", .int secret.currentVersion), ("to_version", .int newVersion),
        ("key_version", .int keyVersion)] } now
  return newVersion

def updateSecret (id : UUID) (body : SecretUpdate) (user : CurrentUser) (clientIp : String)
    (log : AuditService.Logger := AuditService.logWith) : Handler SecretUpdateResponse := do
  let newVersion ← transaction (.updateSecret id)
    (fun choice now => updateTransaction P id body user clientIp choice.random now log)
    fun newVersion => .updated id body.content newVersion
  let updatedAt ← clock
  return ⟨id, newVersion, updatedAt⟩

/-- The row of a version number of a path, which may be negative. -/
def versionRow (id : UUID) (version : ℤ) (db : Database) : Option SecretVersion :=
  if 0 ≤ version then db.secretVersions.find (id, version.toNat) else none

/-- The transaction of `restore_secret_version`. -/
def restoreTransaction (id : UUID) (version : ℤ) (user : CurrentUser) (clientIp : String)
    (random : Random) (now : Timestamp) (log : AuditService.Logger := AuditService.logWith) :
    Tx Database Exn ℕ := do
  let row ← Tx.select fun db => db.secrets.find id
  let some secret := row | throw (httpError 404 "Secret not found")
  Tx.ofExcept (Security.requireOwnsSecret secret.ownerId user)
  Tx.raiseIf (P.settings.maxSecretVersions ≤ secret.currentVersion)
    (httpError 409 "Maximum versions reached")
  let old ← Tx.select (versionRow id version)
  let some old := old | throw (httpError 404 "Secret version not found")
  Tx.raiseIf (old.payloadType ≠ .text || old.keyVersion.isNone)
    (httpError 409 "Only server-encrypted text versions can be restored")
  let dek ← KeyService.getDekForSecret P id old.keyVersion
  let plaintext ← Tx.ofExcept (KeyService.decryptColumns P old.content old.nonce dek)
  let newVersion := secret.currentVersion + 1
  let _ ← insertTextVersion P id newVersion plaintext user.id
    (some s!"Restored version {version}") random now
  log
    { action := "secret_version_restored", actorId := some user.id, actorIp := some clientIp
      secretId := some id
      metadata := [("restored_version", .int version), ("new_version", .int newVersion)] } now
  return newVersion

def restoreSecretVersion (id : UUID) (version : ℤ) (user : CurrentUser) (clientIp : String)
    (log : AuditService.Logger := AuditService.logWith) : Handler SecretUpdateResponse := do
  let newVersion ← transaction (.restoreVersion id version)
    (fun choice now => restoreTransaction P id version user clientIp choice.random now log)
    fun newVersion => .restored id version newVersion
  let updatedAt ← clock
  return ⟨id, newVersion, updatedAt⟩

/-! ### What the transactions do when they return -/

/-- The checks of an update. -/
def updatable (id : UUID) (body : SecretUpdate) (user : CurrentUser) (now : Timestamp)
    (db : Database) : Bool :=
  (db.secrets.find id).any fun secret =>
    (Security.requireOwnsSecret secret.ownerId user).isOk && now < secret.expiresAt &&
      secret.payloadType = .text && secret.currentVersion = body.expectedVersion &&
      secret.currentVersion < P.settings.maxSecretVersions &&
      ((db.secretVersions.find (id, secret.currentVersion)).bind SecretVersion.keyVersion).isSome &&
      db.hasUser user.id

/-- The checks of a restore. -/
def restorable (id : UUID) (version : ℤ) (user : CurrentUser) (db : Database) : Bool :=
  (db.secrets.find id).any fun secret =>
    (Security.requireOwnsSecret secret.ownerId user).isOk &&
      secret.currentVersion < P.settings.maxSecretVersions && (versionRow id version db).any fun old =>
        old.payloadType = .text && old.keyVersion.isSome && db.hasUser user.id

section Specs
variable {P} {id : UUID} {user : CurrentUser} {clientIp : String} {random : Random}
  {now : Timestamp} {db : Database} {newVersion : ℕ} {committed : Option Database}

/-- The new version has a key of its own, and the row of the secret is a copy of it. -/
theorem insertTextVersion_ok {version : ℕ} {plaintext : String} {actorId : UUID}
    {changeNote : Option String} {keyVersion : ℕ} {c c' : Connection Database}
    (h : insertTextVersion P id version plaintext actorId changeNote random now c =
      (.ok keyVersion, c')) :
    keyVersion = c.db.maxKeyVersion id + 1 ∧ c'.failed = false ∧ ∃ keyed stored,
      c.db.insertSecretKey ⟨id, (P.wrapDek random.dek random.wrapNonce).1,
        (P.wrapDek random.dek random.wrapNonce).2, keyVersion, some now⟩ = .ok keyed ∧
      keyed.insertSecretVersion (textVersion id version plaintext
        (P.encryptContent plaintext random.dek random.contentNonce).1
        (P.encryptContent plaintext random.dek random.contentNonce).2 keyVersion actorId changeNote
        now) = .ok stored ∧
      c'.db = stored.updateSecret id
        (fun s => { s with
          content := some (P.encryptContent plaintext random.dek random.contentNonce).1
          nonce := some (P.encryptContent plaintext random.dek random.contentNonce).2
          currentVersion := version
          updatedAt := now }) fun _ => rfl := by
  rcases Tx.bind_ok h with ⟨key, c₁, hkey, h₁⟩
  rcases KeyService.createVersionKey_ok hkey with ⟨rfl, _, hkeyed⟩
  rcases Tx.bind_ok h₁ with ⟨_, c₂, hinsert, h₂⟩
  rcases Tx.write_ok hinsert with ⟨_, _, hstored⟩
  rcases Tx.bind_ok h₂ with ⟨_, c₃, hupdate, h₃⟩
  rcases Tx.write_ok hupdate with ⟨_, hfailed, hwritten⟩
  rcases Tx.pure_ok h₃ with ⟨rfl, rfl⟩
  exact ⟨rfl, hfailed, c₁.db, c₂.db, hkeyed, hstored, (Except.ok.inj hwritten).symm⟩

/-- The actor of an inserted version is a known user. -/
theorem hasUser_of_insertTextVersion {version : ℕ} {plaintext : String} {actorId : UUID}
    {changeNote : Option String} {keyVersion : ℕ} {c c' : Connection Database}
    (h : insertTextVersion P id version plaintext actorId changeNote random now c =
      (.ok keyVersion, c')) : c.db.hasUser actorId = true := by
  rcases insertTextVersion_ok h with ⟨_, _, keyed, stored, hkeyed, hstored, _⟩
  rcases Database.insertSecretKey_ok hkeyed with ⟨_, keys, _, rfl⟩
  exact (Database.insertSecretVersion_ok hstored).2.1

/-- A new version keeps the users and its secret. -/
theorem insertTextVersion_referents {version : ℕ} {plaintext : String} {actorId : UUID}
    {changeNote : Option String} {keyVersion : ℕ} {c c' : Connection Database}
    (h : insertTextVersion P id version plaintext actorId changeNote random now c =
      (.ok keyVersion, c')) : c'.db.users = c.db.users ∧ c'.db.hasSecret id = true := by
  rcases insertTextVersion_ok h with ⟨_, _, keyed, stored, hkeyed, hstored, hdb⟩
  rcases Database.insertSecretKey_ok hkeyed with ⟨hexists, keys, _, rfl⟩
  rcases Database.insertSecretVersion_ok hstored with ⟨_, _, versions, _, rfl⟩
  rw [hdb]
  refine ⟨rfl, ?_⟩
  rw [Database.hasSecret, Database.updateSecret, Table.find_modify, if_pos rfl, Option.isSome_map]
  exact hexists

theorem updateTransaction_ok {body : SecretUpdate}
    (h : (updateTransaction P id body user clientIp random now).run db =
      .ok (newVersion, committed)) :
    updatable P id body user now db = true ∧ ∃ secret keyVersion c metadata,
      db.secrets.find id = some secret ∧ newVersion = secret.currentVersion + 1 ∧
      insertTextVersion P id newVersion body.content user.id body.changeNote random now
        ⟨db, false⟩ = (.ok keyVersion, c) ∧
      committed = (c.db.insertAuditLog now "secret_updated" (some user.id) (some clientIp) (some id)
        metadata).toOption := by
  rcases Tx.run_ok h with ⟨c, hbody, hcommitted⟩
  rcases Tx.bind_ok hbody with ⟨row, _, hselect, hbody₁⟩
  rcases Tx.select_ok hselect with ⟨_, hrow, rfl⟩
  cases row with
  | none => exact absurd hbody₁ Tx.throw_ok
  | some secret =>
    rcases Tx.bind_ok hbody₁ with ⟨_, _, howner, hbody₂⟩
    rcases Tx.ofExcept_ok howner with ⟨howns, rfl⟩
    rcases Tx.bind_ok hbody₂ with ⟨_, _, hguard₁, hbody₃⟩
    rcases Tx.raiseIf_ok hguard₁ with ⟨hexpired, rfl⟩
    rcases Tx.bind_ok hbody₃ with ⟨_, _, hguard₂, hbody₄⟩
    rcases Tx.raiseIf_ok hguard₂ with ⟨htype, rfl⟩
    rcases Tx.bind_ok hbody₄ with ⟨_, _, hguard₃, hbody₅⟩
    rcases Tx.raiseIf_ok hguard₃ with ⟨hexpected, rfl⟩
    rcases Tx.bind_ok hbody₅ with ⟨_, _, hguard₄, hbody₆⟩
    rcases Tx.raiseIf_ok hguard₄ with ⟨hlimit, rfl⟩
    rcases Tx.bind_ok hbody₆ with ⟨currentKey, _, hselectKey, hbody₇⟩
    rcases Tx.select_ok hselectKey with ⟨_, hcurrentKey, rfl⟩
    rcases Tx.bind_ok hbody₇ with ⟨_, _, hguard₅, hbody₈⟩
    rcases Tx.raiseIf_ok hguard₅ with ⟨hkey, rfl⟩
    rcases Tx.bind_ok hbody₈ with ⟨keyVersion, c₁, hinsert, hbody₉⟩
    rcases Tx.bind_ok hbody₉ with ⟨_, c₂, hlog, hbody₁₀⟩
    rcases Tx.pure_ok hbody₁₀ with ⟨hnew, rfl⟩
    have huser := hasUser_of_insertTextVersion hinsert
    have hlast := hcommitted.trans
      (Tx.committed_quietly_write (insertTextVersion_ok hinsert).2.1 hlog)
    subst hnew
    refine ⟨?_, secret, keyVersion, c₁, _, hrow.symm, rfl, hinsert, hlast⟩
    simp only [decide_eq_false_iff_not, not_le, ne_eq, not_not] at hexpired htype hexpected hlimit
    rw [hcurrentKey, Option.isNone_eq_false_iff] at hkey
    simp only [updatable, ← hrow, Option.any_some, Bool.and_eq_true, decide_eq_true_eq]
    exact ⟨⟨⟨⟨⟨⟨isOk_of_eq howns, hexpired⟩, htype⟩, hexpected⟩, hlimit⟩, hkey⟩, huser⟩

theorem restoreTransaction_ok {version : ℤ}
    (h : (restoreTransaction P id version user clientIp random now).run db =
      .ok (newVersion, committed)) :
    restorable P id version user db = true ∧ ∃ secret old key dek plaintext keyVersion c metadata,
      db.secrets.find id = some secret ∧ newVersion = secret.currentVersion + 1 ∧
      versionRow id version db = some old ∧ old.keyVersion.isSome ∧
      db.keyRow id old.keyVersion = some key ∧
      P.unwrapDek key.wrappedDek key.dekNonce = .ok dek ∧
      KeyService.decryptColumns P old.content old.nonce dek = .ok plaintext ∧
      insertTextVersion P id newVersion plaintext user.id (some s!"Restored version {version}") random
        now ⟨db, false⟩ = (.ok keyVersion, c) ∧
      committed = (c.db.insertAuditLog now "secret_version_restored" (some user.id) (some clientIp)
        (some id) metadata).toOption := by
  rcases Tx.run_ok h with ⟨c, hbody, hcommitted⟩
  rcases Tx.bind_ok hbody with ⟨row, _, hselect, hbody₁⟩
  rcases Tx.select_ok hselect with ⟨_, hrow, rfl⟩
  cases row with
  | none => exact absurd hbody₁ Tx.throw_ok
  | some secret =>
    rcases Tx.bind_ok hbody₁ with ⟨_, _, howner, hbody₂⟩
    rcases Tx.ofExcept_ok howner with ⟨howns, rfl⟩
    rcases Tx.bind_ok hbody₂ with ⟨_, _, hguard₁, hbody₃⟩
    rcases Tx.raiseIf_ok hguard₁ with ⟨hlimit, rfl⟩
    rcases Tx.bind_ok hbody₃ with ⟨stored, _, hselectOld, hbody₄⟩
    rcases Tx.select_ok hselectOld with ⟨_, hold, rfl⟩
    cases stored with
    | none => exact absurd hbody₄ Tx.throw_ok
    | some old =>
      rcases Tx.bind_ok hbody₄ with ⟨_, _, hguard₂, hbody₅⟩
      rcases Tx.raiseIf_ok hguard₂ with ⟨hserver, rfl⟩
      rcases Tx.bind_ok hbody₅ with ⟨dek, _, hdek, hbody₆⟩
      rcases KeyService.getDekForSecret_ok hdek with ⟨rfl, key, hunwrap, hkey⟩
      rcases Tx.bind_ok hbody₆ with ⟨plaintext, _, hplain, hbody₇⟩
      rcases Tx.ofExcept_ok hplain with ⟨hdecrypt, rfl⟩
      rcases Tx.bind_ok hbody₇ with ⟨keyVersion, c₁, hinsert, hbody₈⟩
      rcases Tx.bind_ok hbody₈ with ⟨_, c₂, hlog, hbody₉⟩
      rcases Tx.pure_ok hbody₉ with ⟨hnew, rfl⟩
      have huser := hasUser_of_insertTextVersion hinsert
      have hlast := hcommitted.trans
        (Tx.committed_quietly_write (insertTextVersion_ok hinsert).2.1 hlog)
      subst hnew
      simp only [decide_eq_false_iff_not, not_le, ne_eq, not_not, Bool.or_eq_false_iff,
        Option.isNone_eq_false_iff] at hlimit hserver
      refine ⟨?_, secret, old, key, dek, plaintext, keyVersion, c₁, _, hrow.symm, rfl, hold.symm,
        hserver.2, hkey, hunwrap, hdecrypt, hinsert, hlast⟩
      simp only [restorable, ← hrow, ← hold, Option.any_some, Bool.and_eq_true, decide_eq_true_eq]
      exact ⟨⟨isOk_of_eq howns, hlimit⟩, ⟨hserver, huser⟩⟩

/-- An update that returns has committed exactly when the address of the client is one. -/
theorem update_committed_iff {body : SecretUpdate}
    (h : (updateTransaction P id body user clientIp random now).run db =
      .ok (newVersion, committed)) : committed.isSome ↔ (inet clientIp).isSome := by
  rcases updateTransaction_ok h with ⟨_, secret, keyVersion, c, metadata, _, _, hinsert, rfl⟩
  have hreferents := insertTextVersion_referents hinsert
  apply Database.insertAuditLog_isSome_iff metadata (by decide)
  · rw [Database.refers, Database.hasUser, hreferents.1]
    exact hasUser_of_insertTextVersion hinsert
  · exact hreferents.2

theorem restore_committed_iff {version : ℤ}
    (h : (restoreTransaction P id version user clientIp random now).run db =
      .ok (newVersion, committed)) : committed.isSome ↔ (inet clientIp).isSome := by
  rcases restoreTransaction_ok h with
    ⟨_, secret, old, key, dek, plaintext, keyVersion, c, metadata, _, _, _, _, _, _, _, hinsert, rfl⟩
  have hreferents := insertTextVersion_referents hinsert
  apply Database.insertAuditLog_isSome_iff metadata (by decide)
  · rw [Database.refers, Database.hasUser, hreferents.1]
    exact hasUser_of_insertTextVersion hinsert
  · exact hreferents.2

end Specs

end SecretVersions
end PhantomShare
