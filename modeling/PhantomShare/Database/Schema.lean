import PhantomShare.FileCrypto.Format
import PhantomShare.Foundations.Table
import PhantomShare.Foundations.Transaction
import PhantomShare.Internet.Address

/-!
# The PostgreSQL schema

One record for each table of the migrations, with the columns that the modelled
code reads or writes, and the database as the collection of the tables. Times
are microseconds since the epoch.
-/
namespace PhantomShare
open Foundations

abbrev UUID := FileCrypto.UUID
abbrev Timestamp := ℕ

def second : ℕ := 1000000
def minutes (n : ℕ) : ℕ := n * 60 * second
def hours (n : ℕ) : ℕ := n * 3600 * second
def days (n : ℕ) : ℕ := n * 86400 * second

inductive Json where
  | null
  | bool (value : Bool)
  | int (value : ℤ)
  | str (value : String)
  | time (value : Timestamp)
  | uuid (value : UUID)
  deriving DecidableEq, Repr

inductive SqlError where
  | uniqueViolation
  | foreignKeyViolation
  | checkViolation
  | notNullViolation
  | invalidTextRepresentation
  deriving DecidableEq, Repr

inductive Detail where
  | text (message : String)
  | fields (entries : List (String × Json))
  deriving DecidableEq, Repr

/-- The exceptions of the handlers. `unavailable` is a failed call to PostgreSQL, Redis or the
object store. -/
inductive Exn where
  | http (status : ℕ) (detail : Detail)
  | valueError (message : String)
  | typeError (message : String)
  | runtimeError (message : String)
  | sql (error : SqlError)
  | inFailedSqlTransaction
  | unavailable
  | validation
  | fileCrypto (error : FileCrypto.FileCryptoError)
  deriving DecidableEq, Repr

instance : TransactionAborted Exn := ⟨.inFailedSqlTransaction⟩

/-- `HTTPException(status, "…")`. -/
def httpError (status : ℕ) (message : String) : Exn := .http status (.text message)

inductive Role where
  | readonly
  | user
  | admin
  deriving DecidableEq, Repr

def Role.value : Role → ℕ
  | .readonly => 0
  | .user => 1
  | .admin => 2

def Role.name : Role → String
  | .readonly => "readonly"
  | .user => "user"
  | .admin => "admin"

structure User where
  id : UUID
  email : String
  passwordHash : String
  role : Role
  isActive : Bool
  isVerified : Bool
  deleteAfter : Option Timestamp
  deriving DecidableEq, Repr

structure Session where
  id : UUID
  userId : UUID
  refreshTokenHash : String
  userAgent : String
  ipAddress : Option Internet.Address
  createdAt : Timestamp
  expiresAt : Timestamp
  revoked : Bool
  deriving DecidableEq, Repr

inductive PayloadType where
  | text
  | file
  deriving DecidableEq, Repr

structure Secret where
  id : UUID
  content : Option String
  nonce : Option String
  passwordProtected : Bool
  accessPasswordHash : Option String
  ttlHours : ℕ
  createdAt : Timestamp
  expiresAt : Timestamp
  viewed : Bool
  ownerId : Option UUID
  maxViews : ℤ
  viewCount : ℤ
  signedToken : Option String
  notifyOnView : Bool
  notifyEmail : Option String
  webhookUrl : Option String
  emailRestricted : Bool
  currentVersion : ℕ
  updatedAt : Timestamp
  payloadType : PayloadType
  deriving DecidableEq, Repr

structure SecretKey where
  secretId : UUID
  wrappedDek : String
  dekNonce : String
  version : ℕ
  rotatedAt : Option Timestamp
  deriving DecidableEq, Repr

/-- `UNIQUE (secret_id, version)`. -/
def SecretKey.key (row : SecretKey) : UUID × ℕ := (row.secretId, row.version)

/-- The text `secrets/{secret_id}/versions/{version}/{uuid4()}` of an object key. -/
structure ObjectKey where
  secretId : UUID
  version : ℕ
  nonce : UUID
  deriving DecidableEq, Repr

structure SecretVersion where
  secretId : UUID
  version : ℕ
  payloadType : PayloadType
  content : Option String
  nonce : Option String
  keyVersion : Option ℕ
  objectKey : Option ObjectKey
  plaintextSize : ℕ
  encryptedSize : ℕ
  filenameCiphertext : Option String
  filenameNonce : Option String
  mediaType : Option String
  contentSha256 : Option String
  clamavVersion : Option String
  createdBy : Option UUID
  changeNote : Option String
  createdAt : Timestamp
  deriving DecidableEq, Repr

/-- `PRIMARY KEY (secret_id, version)`. -/
def SecretVersion.key (row : SecretVersion) : UUID × ℕ := (row.secretId, row.version)

structure SecretRecipient where
  secretId : UUID
  email : String
  deriving DecidableEq, Repr

def SecretRecipient.key (row : SecretRecipient) : UUID × String := (row.secretId, row.email)

structure SecretTracking where
  secretId : UUID
  ownerId : UUID
  retainUntil : Timestamp
  deriving DecidableEq, Repr

structure SecretView where
  secretId : UUID
  viewerId : Option UUID
  viewerEmail : Option String
  emailVerified : Bool
  contentVersion : ℕ
  viewedAt : Timestamp
  deriving DecidableEq, Repr

inductive PolicyMode where
  | all
  | any
  deriving DecidableEq, Repr

structure SecretAccessPolicy where
  secretId : UUID
  allowedCidrs : List String
  allowedCountries : List String
  locationPolicyMode : PolicyMode
  geoipFailClosed : Bool
  policyVersion : ℕ
  updatedAt : Timestamp
  deriving DecidableEq, Repr

/-- The enumeration `audit_severity`. -/
inductive AuditSeverity where
  | info
  | warning
  | critical
  deriving DecidableEq, Repr

structure AuditLog where
  action : String
  actorId : Option UUID
  actorIp : Option Internet.Address
  severity : AuditSeverity
  secretId : Option UUID
  metadata : List (String × Json)
  createdAt : Timestamp
  deriving DecidableEq, Repr

structure PendingUpload where
  id : UUID
  userId : UUID
  secretId : UUID
  objectKey : ObjectKey
  reservationId : UUID
  plaintextSize : ℕ
  createdAt : Timestamp
  expiresAt : Timestamp
  deriving DecidableEq, Repr

/-- The table is keyed by its `UNIQUE` column; `id` is drawn from a sequence. -/
structure ObjectDeletion where
  id : ℕ
  objectKey : ObjectKey
  userId : Option UUID
  billedBytes : ℕ
  attempts : ℕ
  nextAttemptAt : Timestamp
  processedAt : Option Timestamp
  deriving DecidableEq, Repr

structure UserQuota where
  userId : UUID
  maxActiveSecrets : Option ℤ
  maxFileBytes : Option ℤ
  deriving DecidableEq, Repr

structure Database where
  users : Table User.id
  sessions : Table Session.id
  secrets : Table Secret.id
  secretKeys : Table SecretKey.key
  secretVersions : Table SecretVersion.key
  secretRecipients : Table SecretRecipient.key
  secretTracking : Table SecretTracking.secretId
  secretViews : List SecretView
  secretAccessPolicies : Table SecretAccessPolicy.secretId
  auditLogs : List AuditLog
  pendingUploads : Table PendingUpload.id
  objectDeletionOutbox : Table ObjectDeletion.objectKey
  outboxSequence : ℕ
  userQuotas : Table UserQuota.userId

def Database.empty : Database where
  users := .empty
  sessions := .empty
  secrets := .empty
  secretKeys := .empty
  secretVersions := .empty
  secretRecipients := .empty
  secretTracking := .empty
  secretViews := []
  secretAccessPolicies := .empty
  auditLogs := []
  pendingUploads := .empty
  objectDeletionOutbox := .empty
  outboxSequence := 1
  userQuotas := .empty

end PhantomShare
