import Mathlib.Data.Prod.Lex
import PhantomShare.Foundations.Pagination
import PhantomShare.Routers.Admin

/-!
# Paginated listings

`list_secrets`, `audit_logs`, `list_users` and `secret_views` count the matching
rows and select one page of them. The database chooses the order of rows that
`ORDER BY` leaves open, for each query anew, so the sorted rows of a query are an
argument here.
-/
namespace PhantomShare.Listings
open Foundations

structure Listing (α : Type) where
  items : List α
  total : ℕ
  page : ℕ
  pageSize : ℕ
  deriving DecidableEq, Repr

/-- `SELECT COUNT(*)` and `SELECT … ORDER BY … LIMIT page_size OFFSET (page - 1) * page_size` over
the matching rows. -/
def listing {ρ α : Type} (item : ρ → α) (matching sorted : List ρ) (page pageSize : ℕ) :
    Listing α :=
  ⟨(slice pageSize (page - 1) sorted).map item, matching.length, page, pageSize⟩

/-! ### Secrets of an owner -/

structure SecretListItem where
  id : UUID
  createdAt : Timestamp
  expiresAt : Timestamp
  viewed : Bool
  viewCount : ℤ
  maxViews : ℤ
  passwordProtected : Bool
  notifyOnView : Bool
  deriving DecidableEq, Repr

def secretListItem (s : Secret) : SecretListItem :=
  ⟨s.id, s.createdAt, s.expiresAt, s.viewed, s.viewCount, s.maxViews, s.passwordProtected,
    s.notifyOnView⟩

/-- The conditions of `list_secrets`. -/
def secretMatches (user : CurrentUser) (viewed expired : Option Bool) (now : Timestamp)
    (s : Secret) : Bool :=
  s.ownerId = some user.id && viewed.all (fun wanted => s.viewed = wanted) &&
    match expired with
    | some true => s.expiresAt < now
    | some false => now ≤ s.expiresAt
    | none => true

def ownedSecrets (user : CurrentUser) (viewed expired : Option Bool) (now : Timestamp)
    (db : Database) : List Secret :=
  db.secrets.rows.filter (secretMatches user viewed expired now)

def listSecrets (user : CurrentUser) (viewed expired : Option Bool) (page pageSize : ℕ)
    (now : Timestamp) (db : Database) (sorted : List Secret) : Listing SecretListItem :=
  listing secretListItem (ownedSecrets user viewed expired now db) sorted page pageSize

/-! ### Audit log -/

/-- The values of `audit_severity`. -/
def severityOfText : String → Option AuditSeverity
  | "info" => some .info
  | "warning" => some .warning
  | "critical" => some .critical
  | _ => none

structure AuditFilter where
  action : Option String := none
  severity : Option String := none
  actorId : Option UUID := none
  secretId : Option UUID := none

/-- A query parameter that is tested by its truth value. -/
def given (text : Option String) : Option String := text.filter (· ≠ "")

/-- The casts of the parameters to the enumerations. -/
def castAction (text : String) : Except Exn String :=
  if Database.auditActions.contains text then .ok text
  else .error (.sql .invalidTextRepresentation)

def castSeverity (text : String) : Except Exn AuditSeverity :=
  match severityOfText text with
  | some severity => .ok severity
  | none => .error (.sql .invalidTextRepresentation)

/-- The conditions of `audit_logs`. -/
def AuditFilter.conditions (f : AuditFilter) : Except Exn (AuditLog → Bool) := do
  let action ← (given f.action).mapM castAction
  let severity ← (given f.severity).mapM castSeverity
  return fun row => action.all (fun wanted => row.action = wanted) &&
    severity.all (fun wanted => row.severity = wanted) &&
    f.actorId.all (fun wanted => row.actorId = some wanted) &&
    f.secretId.all fun wanted => row.secretId = some wanted

structure AuditLogItem where
  id : ℕ
  action : String
  severity : AuditSeverity
  actorId : Option UUID
  actorIp : Option String
  secretId : Option UUID
  metadata : List (String × Json)
  createdAt : Timestamp
  deriving DecidableEq, Repr

def auditLogItem (row : AuditLog × ℕ) : AuditLogItem :=
  ⟨row.2, row.1.action, row.1.severity, row.1.actorId,
    row.1.actorIp.map fun address => String.ofList address.toText, row.1.secretId, row.1.metadata,
    row.1.createdAt⟩

/-- The rows with their numbers from the sequence. -/
def auditRows (db : Database) : List (AuditLog × ℕ) := db.auditLogs.zipIdx 1

def auditLogs (f : AuditFilter) (page pageSize : ℕ) (db : Database)
    (sorted : List (AuditLog × ℕ)) : Except Exn (Listing AuditLogItem) := do
  let condition ← f.conditions
  return listing auditLogItem ((auditRows db).filter fun row => condition row.1) sorted page pageSize

/-! ### Users -/

/-- A user with the columns that only the listing reads. -/
structure UserRow extends User where
  username : String
  createdAt : Timestamp
  updatedAt : Timestamp
  deriving DecidableEq, Repr

structure AdminUserItem where
  id : UUID
  email : String
  username : String
  role : Role
  isActive : Bool
  createdAt : Timestamp
  updatedAt : Timestamp
  deleteAfter : Option Timestamp
  deriving DecidableEq, Repr

def UserRow.key (u : UserRow) : UUID := u.id

def adminUserItem (u : UserRow) : AdminUserItem :=
  ⟨u.id, u.email, u.username, u.role, u.isActive, u.createdAt, u.updatedAt, u.deleteAfter⟩

def listUsers (page pageSize : ℕ) (users : Table UserRow.key) (sorted : List UserRow) :
    Listing AdminUserItem :=
  listing adminUserItem users.rows sorted page pageSize

/-! ### Views of a secret -/

structure SecretViewItem where
  id : ℕ
  viewerId : Option UUID
  viewerEmail : Option String
  emailVerified : Bool
  viewedAt : Timestamp
  contentVersion : ℕ
  deriving DecidableEq, Repr

def secretViewItem (row : SecretView × ℕ) : SecretViewItem :=
  ⟨row.2, row.1.viewerId, row.1.viewerEmail, row.1.emailVerified, row.1.viewedAt,
    row.1.contentVersion⟩

/-- The rows of a secret with their numbers from the sequence. -/
def viewRows (secretId : UUID) (db : Database) : List (SecretView × ℕ) :=
  (db.secretViews.zipIdx 1).filter fun row => row.1.secretId = secretId

/-- `ORDER BY viewed_at DESC, id DESC`. -/
def viewOrder (row : SecretView × ℕ) : Timestamp ×ₗ ℕ := toLex (row.1.viewedAt, row.2)

structure SecretViewsResponse extends Listing SecretViewItem where
  retainUntil : Timestamp
  deriving DecidableEq, Repr

def secretViews (secretId : UUID) (page pageSize : ℕ) (user : CurrentUser) (now : Timestamp)
    (db : Database) (sorted : List (SecretView × ℕ)) : Except Exn SecretViewsResponse :=
  match db.secretTracking.find secretId with
  | some tracking =>
    if tracking.ownerId = user.id ∧ now < tracking.retainUntil then
      .ok ⟨listing secretViewItem (viewRows secretId db) sorted page pageSize, tracking.retainUntil⟩
    else .error (httpError 404 "View history not found")
  | none => .error (httpError 404 "View history not found")

end PhantomShare.Listings
