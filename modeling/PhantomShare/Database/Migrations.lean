import PhantomShare.Database.Schema

/-!
# Migrations

`src/database/migrations`: the schemas between the initial one and the current
one, the up sections between them, and the down sections that concern access.
Each section is one transaction. Columns that no code reads are left out. What an
up section copies already satisfies the constraints of its new columns, so that
only the new unique constraint on `secret_keys` can fail.
-/
namespace PhantomShare.Migrations
open Foundations

/-- Why a section aborts. -/
inductive Abort where
  | raiseException (message : String)
  | uniqueViolation
  deriving DecidableEq, Repr

/-! ### Initial schema -/

/-- `secrets` in the initial schema. -/
structure InitialSecret where
  id : UUID
  content : String
  passwordProtected : Bool
  accessPasswordHash : Option String
  ttlHours : ℕ
  createdAt : Timestamp
  expiresAt : Timestamp
  viewed : Bool
  ownerId : Option UUID
  nonce : Option String
  maxViews : ℤ
  viewCount : ℤ
  signedToken : Option String
  notifyOnView : Bool
  notifyEmail : Option String
  webhookUrl : Option String
  deriving DecidableEq, Repr

/-- `secret_keys` has no unique constraint but its own id. -/
structure InitialDatabase where
  users : Table User.id
  sessions : Table Session.id
  secrets : Table InitialSecret.id
  secretKeys : List SecretKey
  auditLogs : List AuditLog

/-! ### Email access and views -/

/-- `secrets` with `email_restricted`. -/
structure EmailSecret extends InitialSecret where
  emailRestricted : Bool
  deriving DecidableEq, Repr

def EmailSecret.key (row : EmailSecret) : UUID := row.id

/-- `secret_views` before views had a version. -/
structure EmailView where
  secretId : UUID
  viewerId : Option UUID
  viewerEmail : Option String
  emailVerified : Bool
  viewedAt : Timestamp
  deriving DecidableEq, Repr

structure EmailDatabase where
  users : Table User.id
  sessions : Table Session.id
  secrets : Table EmailSecret.key
  secretKeys : List SecretKey
  secretRecipients : Table SecretRecipient.key
  secretTracking : Table SecretTracking.secretId
  secretViews : List EmailView
  auditLogs : List AuditLog

/-- `email_access_and_views`, down. -/
def emailAccessAndViewsDown (db : EmailDatabase) : Except Abort InitialDatabase :=
  if db.secrets.rows.any fun s => s.emailRestricted then
    .error (.raiseException "Delete email-restricted secrets before rolling back email access")
  else
    .ok
      { users := db.users
        sessions := db.sessions
        secrets := db.secrets.alter EmailSecret.toInitialSecret fun _ => rfl
        secretKeys := db.secretKeys
        auditLogs := db.auditLogs }

/-! ### Secret versioning -/

/-- `secrets` with a version. -/
structure VersionedSecret extends EmailSecret where
  currentVersion : ℕ
  updatedAt : Timestamp
  deriving DecidableEq, Repr

def VersionedSecret.key (row : VersionedSecret) : UUID := row.id

/-- `secret_versions` before there were files. -/
structure TextVersion where
  secretId : UUID
  version : ℕ
  content : String
  nonce : Option String
  keyVersion : Option ℕ
  plaintextSize : ℕ
  createdBy : Option UUID
  changeNote : Option String
  createdAt : Timestamp
  deriving DecidableEq, Repr

def TextVersion.key (row : TextVersion) : UUID × ℕ := (row.secretId, row.version)

structure FileDatabase where
  users : Table User.id
  sessions : Table Session.id
  secrets : Table Secret.id
  secretKeys : Table SecretKey.key
  secretVersions : Table SecretVersion.key
  secretRecipients : Table SecretRecipient.key
  secretTracking : Table SecretTracking.secretId
  secretViews : List SecretView
  auditLogs : List AuditLog
  pendingUploads : Table PendingUpload.id
  objectDeletionOutbox : Table ObjectDeletion.objectKey
  outboxSequence : ℕ

/-- The new columns of `secrets`. -/
def textSecret (s : VersionedSecret) : Secret where
  id := s.id
  content := some s.content
  nonce := s.nonce
  passwordProtected := s.passwordProtected
  accessPasswordHash := s.accessPasswordHash
  ttlHours := s.ttlHours
  createdAt := s.createdAt
  expiresAt := s.expiresAt
  viewed := s.viewed
  ownerId := s.ownerId
  maxViews := s.maxViews
  viewCount := s.viewCount
  signedToken := s.signedToken
  notifyOnView := s.notifyOnView
  notifyEmail := s.notifyEmail
  webhookUrl := s.webhookUrl
  emailRestricted := s.emailRestricted
  currentVersion := s.currentVersion
  updatedAt := s.updatedAt
  payloadType := .text

/-- The new columns of `secret_versions`. -/
def textVersion (v : TextVersion) : SecretVersion where
  secretId := v.secretId
  version := v.version
  payloadType := .text
  content := some v.content
  nonce := v.nonce
  keyVersion := v.keyVersion
  objectKey := none
  plaintextSize := v.plaintextSize
  encryptedSize := 0
  filenameCiphertext := none
  filenameNonce := none
  mediaType := none
  contentSha256 := none
  clamavVersion := none
  createdBy := v.createdBy
  changeNote := v.changeNote
  createdAt := v.createdAt

structure QuotaDatabase extends FileDatabase where
  userQuotas : Table UserQuota.userId

/-- The row of `secret_access_policies` with all defaults. -/
def defaultPolicy (now : Timestamp) (id : UUID) : SecretAccessPolicy where
  secretId := id
  allowedCidrs := []
  allowedCountries := []
  locationPolicyMode := .all
  geoipFailClosed := true
  policyVersion := 1
  updatedAt := now

theorem defaultPolicy_key (now : Timestamp) (s : Secret) (row : SecretAccessPolicy)
    (h : some (defaultPolicy now s.id) = some row) : row.secretId = s.id := by
  cases h
  rfl

/-- `location_access_policies`, up. -/
def locationAccessPoliciesUp (now : Timestamp) (db : QuotaDatabase) : Database where
  users := db.users
  sessions := db.sessions
  secrets := db.secrets
  secretKeys := db.secretKeys
  secretVersions := db.secretVersions
  secretRecipients := db.secretRecipients
  secretTracking := db.secretTracking
  secretViews := db.secretViews
  secretAccessPolicies := db.secrets.selectInto (fun s => some (defaultPolicy now s.id))
    Function.injective_id (defaultPolicy_key now)
  auditLogs := db.auditLogs
  pendingUploads := db.pendingUploads
  objectDeletionOutbox := db.objectDeletionOutbox
  outboxSequence := db.outboxSequence
  userQuotas := db.userQuotas

/-- `location_access_policies`, down: `DROP TABLE secret_access_policies`. -/
def locationAccessPoliciesDown (db : Database) : QuotaDatabase where
  users := db.users
  sessions := db.sessions
  secrets := db.secrets
  secretKeys := db.secretKeys
  secretVersions := db.secretVersions
  secretRecipients := db.secretRecipients
  secretTracking := db.secretTracking
  secretViews := db.secretViews
  auditLogs := db.auditLogs
  pendingUploads := db.pendingUploads
  objectDeletionOutbox := db.objectDeletionOutbox
  outboxSequence := db.outboxSequence
  userQuotas := db.userQuotas

/-- Every secret gets the default policy. -/
theorem find_locationAccessPoliciesUp (now : Timestamp) (db : QuotaDatabase) (id : UUID) :
    (locationAccessPoliciesUp now db).secretAccessPolicies.find id =
      (db.secrets.find id).map fun _ => defaultPolicy now id := by
  have hfind := Table.find_selectInto db.secrets (fun s => some (defaultPolicy now s.id))
    Function.injective_id (defaultPolicy_key now) id
  rw [locationAccessPoliciesUp]
  apply hfind.trans
  cases hs : db.secrets.find id with
  | none => rfl
  | some s => rw [Option.bind_some, Option.map_some, Table.key_of_find hs]

/-! ### All later migrations -/

end PhantomShare.Migrations
