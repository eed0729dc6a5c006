import PhantomShare.Database.Schema

/-!
# Statements, constraints and triggers

Each `INSERT`, `UPDATE` and `DELETE` of the handlers as a function on the
database, with the constraints that can refuse it, the triggers it fires and the
referential actions of a deletion. `now` is `NOW()`, which `clock_timestamp()`
agrees with inside an atomic transaction.
-/
namespace PhantomShare
open Foundations
open FileCrypto (bind_eq_ok)

/-- `INSERT` into a table with a primary key. -/
def insertRow {ρ κ : Type} [DecidableEq κ] {key : ρ → κ} (t : Table key) (r : ρ) :
    Except Exn (Table key) :=
  match t.insert r with
  | some t' => .ok t'
  | none => .error (.sql .uniqueViolation)

/-- `CHECK` constraints and foreign keys. -/
def require (condition : Bool) (error : SqlError) : Except Exn Unit :=
  if condition then .ok () else .error (.sql error)

/-- `%s::inet` on the texts of client addresses: an address, or `unknown`, which is refused. -/
def inet (text : String) : Option Internet.Address := Internet.ipAddress text.toList

/-- Equality of `citext` values, where only ASCII letters differ in case. -/
def citextEq (a b : String) : Bool := a.toLower = b.toLower

/-- A nullable `inet` parameter. -/
def castInet : Option String → Except Exn (Option Internet.Address)
  | none => .ok none
  | some text =>
    match inet text with
    | some address => .ok (some address)
    | none => .error (.sql .invalidTextRepresentation)

theorem require_ok {condition : Bool} {error : SqlError} {u : Unit}
    (h : require condition error = .ok u) : condition = true := by
  cases condition with
  | true => rfl
  | false => cases h

theorem isOk_of_eq {ε α : Type} {result : Except ε α} {value : α} (h : result = .ok value) :
    result.isOk = true := by
  rw [h]
  rfl

theorem insertRow_ok {ρ κ : Type} [DecidableEq κ] {key : ρ → κ} {t t' : Table key} {r : ρ}
    (h : insertRow t r = .ok t') : t.insert r = some t' := by
  unfold insertRow at h
  cases hins : t.insert r with
  | none => simp [hins] at h
  | some u =>
    simp only [hins, Except.ok.injEq] at h
    rw [h]

theorem castInet_ok {text : Option String} {ip : Option Internet.Address}
    (h : castInet text = .ok ip) : ∀ t, text = some t → (inet t).isSome := by
  rintro t rfl
  unfold castInet at h
  cases hinet : inet t with
  | some address => rfl
  | none => simp [hinet] at h

/-- `secret_version_payload_check`. -/
def SecretVersion.payloadCheck (row : SecretVersion) : Bool :=
  match row.payloadType with
  | .text => row.content.isSome && row.objectKey.isNone
  | .file => row.objectKey.isSome && row.content.isNone

namespace Database

def hasUser (db : Database) (id : UUID) : Bool := (db.users.find id).isSome
def hasSecret (db : Database) (id : UUID) : Bool := (db.secrets.find id).isSome

/-- A nullable foreign key. -/
def refers (present : UUID → Bool) : Option UUID → Bool
  | none => true
  | some id => present id

/-- The values of `audit_action`. -/
def auditActions : List String :=
  ["secret_created", "secret_viewed", "secret_deleted", "user_registered", "user_login",
    "user_logout", "user_removed", "key_rotated", "secret_expired", "token_refresh",
    "admin_role_change", "admin_cleanup", "admin_user_toggle", "rate_limit_hit", "invalid_token",
    "secret_updated", "secret_version_restored", "file_uploaded", "malware_detected",
    "admin_quota_update"]

def insertAuditLog (now : Timestamp) (action : String) (actorId : Option UUID)
    (actorIp : Option String) (secretId : Option UUID) (metadata : List (String × Json))
    (db : Database) : Except Exn Database := do
  require (auditActions.contains action) .invalidTextRepresentation
  let ip ← castInet actorIp
  require (refers db.hasUser actorId) .foreignKeyViolation
  require (refers db.hasSecret secretId) .foreignKeyViolation
  -- no statement names the column `severity`, which gets its default
  return { db with
    auditLogs := db.auditLogs ++ [⟨action, actorId, ip, .info, secretId, metadata, now⟩] }

/-- An audit row that was accepted has a valid address and refers to an existing secret. -/
theorem insertAuditLog_ok {now : Timestamp} {action : String} {actorId : Option UUID}
    {actorIp : Option String} {secretId : Option UUID} {metadata : List (String × Json)}
    {db db' : Database}
    (h : db.insertAuditLog now action actorId actorIp secretId metadata = .ok db') :
    (∀ text, actorIp = some text → (inet text).isSome) ∧ refers db.hasSecret secretId = true ∧
      ∃ row, db' = { db with auditLogs := db.auditLogs ++ [row] } := by
  rcases bind_eq_ok.mp h with ⟨_, _, h⟩
  rcases bind_eq_ok.mp h with ⟨ip, hip, h⟩
  rcases bind_eq_ok.mp h with ⟨_, _, h⟩
  rcases bind_eq_ok.mp h with ⟨_, hsecret, h⟩
  exact ⟨castInet_ok hip, require_ok hsecret, _, (Except.ok.inj h).symm⟩

/-- An entry with a valid address and existing referents is accepted. -/
theorem insertAuditLog_accepted {now : Timestamp} {action : String} {actorId : Option UUID}
    {text : String} {secretId : Option UUID} {db : Database} (metadata : List (String × Json))
    (haction : action ∈ auditActions) (hip : (inet text).isSome)
    (hactor : refers db.hasUser actorId = true) (hsecret : refers db.hasSecret secretId = true) :
    ∃ row, db.insertAuditLog now action actorId (some text) secretId metadata =
      .ok { db with auditLogs := db.auditLogs ++ [row] } := by
  rcases Option.isSome_iff_exists.mp hip with ⟨ip, hinet⟩
  have hcontains : auditActions.contains action = true := by simpa using haction
  refine ⟨⟨action, actorId, some ip, .info, secretId, metadata, now⟩, ?_⟩
  simp only [insertAuditLog, require, castInet, hcontains, hinet, hactor, hsecret, if_true]
  rfl

/-- With existing referents, only the address decides whether an entry is accepted. -/
theorem insertAuditLog_isSome_iff {now : Timestamp} {action : String} {actorId : Option UUID}
    {text : String} {secretId : Option UUID} {db : Database} (metadata : List (String × Json))
    (haction : action ∈ auditActions) (hactor : refers db.hasUser actorId = true)
    (hsecret : refers db.hasSecret secretId = true) :
    (db.insertAuditLog now action actorId (some text) secretId metadata).toOption.isSome ↔
      (inet text).isSome := by
  constructor
  · intro h
    cases hlog : db.insertAuditLog now action actorId (some text) secretId metadata with
    | error error =>
      rw [hlog] at h
      cases h
    | ok logged => exact (insertAuditLog_ok hlog).1 text rfl
  · intro hip
    rcases insertAuditLog_accepted metadata haction hip hactor hsecret with ⟨row, hlog⟩
    rw [hlog]
    rfl

/-- Trigger `trg_set_expires_at` computes the expiry of the new row. -/
def insertSecret (row : Secret) (db : Database) : Except Exn Database := do
  require (1 ≤ row.ttlHours && row.ttlHours ≤ 168) .checkViolation
  require (row.viewCount ≤ row.maxViews) .checkViolation
  require (row.passwordProtected == row.accessPasswordHash.isSome) .checkViolation
  require (refers db.hasUser row.ownerId) .foreignKeyViolation
  let secrets ← insertRow db.secrets { row with expiresAt := row.createdAt + hours row.ttlHours }
  return { db with secrets := secrets }

theorem insertSecret_ok {row : Secret} {db db' : Database} (h : db.insertSecret row = .ok db') :
    ∃ secrets, db.secrets.insert { row with expiresAt := row.createdAt + hours row.ttlHours } =
      some secrets ∧ db' = { db with secrets := secrets } := by
  rcases bind_eq_ok.mp h with ⟨_, _, h⟩
  rcases bind_eq_ok.mp h with ⟨_, _, h⟩
  rcases bind_eq_ok.mp h with ⟨_, _, h⟩
  rcases bind_eq_ok.mp h with ⟨_, _, h⟩
  rcases bind_eq_ok.mp h with ⟨secrets, hinsert, h⟩
  cases h
  exact ⟨secrets, insertRow_ok hinsert, rfl⟩

def insertSecretKey (row : SecretKey) (db : Database) : Except Exn Database := do
  require (db.hasSecret row.secretId) .foreignKeyViolation
  let keys ← insertRow db.secretKeys row
  return { db with secretKeys := keys }

theorem insertSecretKey_ok {row : SecretKey} {db db' : Database}
    (h : db.insertSecretKey row = .ok db') :
    db.hasSecret row.secretId = true ∧
      ∃ keys, db.secretKeys.insert row = some keys ∧ db' = { db with secretKeys := keys } := by
  rcases bind_eq_ok.mp h with ⟨_, hrefers, h⟩
  rcases bind_eq_ok.mp h with ⟨keys, hinsert, h⟩
  cases h
  exact ⟨require_ok hrefers, keys, insertRow_ok hinsert, rfl⟩

def insertSecretVersion (row : SecretVersion) (db : Database) : Except Exn Database := do
  require row.payloadCheck .checkViolation
  require (db.hasSecret row.secretId) .foreignKeyViolation
  require (refers db.hasUser row.createdBy) .foreignKeyViolation
  require (row.objectKey.isNone || db.secretVersions.rows.all fun v => v.objectKey != row.objectKey)
    .uniqueViolation
  let versions ← insertRow db.secretVersions row
  return { db with secretVersions := versions }

theorem insertSecretVersion_ok {row : SecretVersion} {db db' : Database}
    (h : db.insertSecretVersion row = .ok db') :
    db.hasSecret row.secretId = true ∧ refers db.hasUser row.createdBy = true ∧
      ∃ versions, db.secretVersions.insert row = some versions ∧
        db' = { db with secretVersions := versions } := by
  rcases bind_eq_ok.mp h with ⟨_, _, h⟩
  rcases bind_eq_ok.mp h with ⟨_, hrefers, h⟩
  rcases bind_eq_ok.mp h with ⟨_, hcreator, h⟩
  rcases bind_eq_ok.mp h with ⟨_, _, h⟩
  rcases bind_eq_ok.mp h with ⟨versions, hinsert, h⟩
  cases h
  exact ⟨require_ok hrefers, require_ok hcreator, versions, insertRow_ok hinsert, rfl⟩

def insertRecipient (row : SecretRecipient) (db : Database) : Except Exn Database := do
  require (db.hasSecret row.secretId) .foreignKeyViolation
  let recipients ← insertRow db.secretRecipients row
  return { db with secretRecipients := recipients }

/-- `cur.executemany` of the recipients. -/
def insertRecipients (secretId : UUID) (emails : List String) (db : Database) :
    Except Exn Database :=
  emails.foldlM (fun db email => insertRecipient ⟨secretId, email⟩ db) db

theorem insertRecipients_frame {secretId : UUID} {emails : List String} {db db' : Database}
    (h : db.insertRecipients secretId emails = .ok db') :
    ∃ recipients, db' = { db with secretRecipients := recipients } := by
  unfold insertRecipients at h
  induction emails generalizing db with
  | nil =>
    cases h
    exact ⟨_, rfl⟩
  | cons email rest ih =>
    rw [List.foldlM_cons] at h
    rcases bind_eq_ok.mp h with ⟨mid, hmid, hrest⟩
    rcases bind_eq_ok.mp hmid with ⟨_, _, hmid⟩
    rcases bind_eq_ok.mp hmid with ⟨recipients, _, hmid⟩
    cases hmid
    rcases ih hrest with ⟨recipients', rfl⟩
    exact ⟨recipients', rfl⟩

def insertPolicy (row : SecretAccessPolicy) (db : Database) : Except Exn Database := do
  require (db.hasSecret row.secretId) .foreignKeyViolation
  let policies ← insertRow db.secretAccessPolicies row
  return { db with secretAccessPolicies := policies }

theorem insertPolicy_frame {row : SecretAccessPolicy} {db db' : Database}
    (h : db.insertPolicy row = .ok db') :
    ∃ policies, db' = { db with secretAccessPolicies := policies } := by
  rcases bind_eq_ok.mp h with ⟨_, _, h⟩
  rcases bind_eq_ok.mp h with ⟨policies, _, h⟩
  cases h
  exact ⟨policies, rfl⟩

/-- `INSERT INTO secret_tracking SELECT … FROM secrets WHERE id = …`. -/
def insertTracking (retentionDays : ℕ) (secretId : UUID) (db : Database) :
    Except Exn Database := do
  match db.secrets.find secretId with
  | none => return db
  | some secret =>
    match secret.ownerId with
    | none => throw (.sql .notNullViolation)
    | some ownerId =>
      require (db.hasUser ownerId) .foreignKeyViolation
      let tracking ← insertRow db.secretTracking
        ⟨secretId, ownerId, secret.expiresAt + days retentionDays⟩
      return { db with secretTracking := tracking }

theorem insertTracking_frame {retentionDays : ℕ} {secretId : UUID} {db db' : Database}
    (h : db.insertTracking retentionDays secretId = .ok db') :
    ∃ tracking, db' = { db with secretTracking := tracking } := by
  unfold insertTracking at h
  split at h
  · cases h
    exact ⟨_, rfl⟩
  · split at h
    · cases h
    · rcases bind_eq_ok.mp h with ⟨_, _, h⟩
      rcases bind_eq_ok.mp h with ⟨tracking, _, h⟩
      cases h
      exact ⟨tracking, rfl⟩

/-- `INSERT INTO secret_views SELECT … FROM secret_tracking WHERE secret_id = …`, with its row
count. -/
def insertView (row : SecretView) (db : Database) : Except Exn (ℕ × Database) := do
  match db.secretTracking.find row.secretId with
  | none => return (0, db)
  | some _ =>
    require (refers db.hasUser row.viewerId) .foreignKeyViolation
    return (1, { db with secretViews := db.secretViews ++ [row] })

/-- The view of a tracked secret names a known viewer, and adds one row. -/
theorem insertView_ok {row : SecretView} {db db' : Database} {n : ℕ}
    (htracked : (db.secretTracking.find row.secretId).isSome)
    (h : db.insertView row = .ok (n, db')) :
    refers db.hasUser row.viewerId = true ∧
      db' = { db with secretViews := db.secretViews ++ [row] } := by
  unfold insertView at h
  split at h
  · rename_i hnone
    rw [hnone] at htracked
    cases htracked
  · rcases bind_eq_ok.mp h with ⟨_, hviewer, hreturn⟩
    cases hreturn
    exact ⟨require_ok hviewer, rfl⟩

theorem insertView_frame {row : SecretView} {db db' : Database} {n : ℕ}
    (h : db.insertView row = .ok (n, db')) : ∃ views, db' = { db with secretViews := views } := by
  unfold insertView at h
  split at h
  · cases h
    exact ⟨_, rfl⟩
  · rcases bind_eq_ok.mp h with ⟨_, _, hreturn⟩
    cases hreturn
    exact ⟨_, rfl⟩

/-- Update one row of `secrets` by its id. -/
def updateSecret (id : UUID) (f : Secret → Secret) (hf : ∀ r, (f r).id = r.id) (db : Database) :
    Database :=
  { db with secrets := db.secrets.modify id f hf }

/-- One row of trigger `trg_enqueue_secret_objects`: `ON CONFLICT (object_key) DO NOTHING`. -/
def enqueueObject (now : Timestamp) (ownerId : Option UUID) (db : Database) (v : SecretVersion) :
    Database :=
  match v.objectKey with
  | none => db
  | some key =>
    match db.objectDeletionOutbox.insert
      ⟨db.outboxSequence, key, ownerId, v.plaintextSize, 0, now, none⟩ with
    | some outbox =>
      { db with objectDeletionOutbox := outbox, outboxSequence := db.outboxSequence + 1 }
    | none => { db with outboxSequence := db.outboxSequence + 1 }

/-- Trigger `trg_enqueue_secret_objects` on one deleted secret. -/
def enqueueSecretObjects (now : Timestamp) (db : Database) (secret : Secret) : Database :=
  (db.secretVersions.rows.filter fun v => v.secretId = secret.id).foldl
    (enqueueObject now secret.ownerId) db

/-- `DELETE FROM secrets WHERE …` with its trigger and referential actions. -/
def deleteSecrets (now : Timestamp) (p : Secret → Bool) (db : Database) : Database :=
  let doomed := db.secrets.rows.filter p
  let gone := fun id => doomed.any fun s => s.id = id
  let db := doomed.foldl (enqueueSecretObjects now) db
  { db with
    secrets := db.secrets.deleteWhere p
    secretKeys := db.secretKeys.deleteWhere fun k => gone k.secretId
    secretVersions := db.secretVersions.deleteWhere fun v => gone v.secretId
    secretRecipients := db.secretRecipients.deleteWhere fun r => gone r.secretId
    secretAccessPolicies := db.secretAccessPolicies.deleteWhere fun r => gone r.secretId
    auditLogs := db.auditLogs.map fun a =>
      { a with secretId := a.secretId.filter fun id => !gone id } }

theorem enqueueObject_frame (now : Timestamp) (ownerId : Option UUID) (db : Database)
    (v : SecretVersion) : ∃ outbox n, enqueueObject now ownerId db v =
      { db with objectDeletionOutbox := outbox, outboxSequence := n } := by
  unfold enqueueObject
  split
  · exact ⟨_, _, rfl⟩
  · split
    · exact ⟨_, _, rfl⟩
    · exact ⟨db.objectDeletionOutbox, _, rfl⟩

/-- Steps that only touch the outbox, one after the other. -/
theorem foldl_frame {α : Type} {f : Database → α → Database}
    (h : ∀ db a, ∃ outbox n, f db a =
      { db with objectDeletionOutbox := outbox, outboxSequence := n })
    (items : List α) (db : Database) : ∃ outbox n, items.foldl f db =
      { db with objectDeletionOutbox := outbox, outboxSequence := n } := by
  induction items generalizing db with
  | nil => exact ⟨_, _, rfl⟩
  | cons a rest ih =>
    rcases h db a with ⟨outbox, n, hstep⟩
    rcases ih (f db a) with ⟨outbox', n', hrest⟩
    refine ⟨outbox', n', ?_⟩
    rw [List.foldl_cons, hrest, hstep]

theorem enqueueSecretObjects_frame (now : Timestamp) (db : Database) (secret : Secret) :
    ∃ outbox n, enqueueSecretObjects now db secret =
      { db with objectDeletionOutbox := outbox, outboxSequence := n } :=
  foldl_frame (enqueueObject_frame now secret.ownerId) _ db

/-- A deletion of secrets touches nothing else but the outbox and the audit log. -/
theorem deleteSecrets_frame (now : Timestamp) (p : Secret → Bool) (db : Database) :
    ∃ outbox n logs, db.deleteSecrets now p =
      { db with
        secrets := db.secrets.deleteWhere p
        secretKeys := db.secretKeys.deleteWhere fun k =>
          (db.secrets.rows.filter p).any fun s => s.id = k.secretId
        secretVersions := db.secretVersions.deleteWhere fun v =>
          (db.secrets.rows.filter p).any fun s => s.id = v.secretId
        secretRecipients := db.secretRecipients.deleteWhere fun r =>
          (db.secrets.rows.filter p).any fun s => s.id = r.secretId
        secretAccessPolicies := db.secretAccessPolicies.deleteWhere fun r =>
          (db.secrets.rows.filter p).any fun s => s.id = r.secretId
        auditLogs := logs
        objectDeletionOutbox := outbox
        outboxSequence := n } := by
  rcases foldl_frame (enqueueSecretObjects_frame now) (db.secrets.rows.filter p) db with
    ⟨outbox, n, h⟩
  rw [deleteSecrets, h]
  exact ⟨outbox, n, _, rfl⟩

/-- `UPDATE secrets SET view_count = …, viewed = …` with trigger
`trg_delete_fully_viewed_secret`. -/
def updateViewCount (now : Timestamp) (id : UUID) (count : ℤ) (viewed : Bool) (db : Database) :
    Except Exn Database :=
  match db.secrets.find id with
  | none => .ok db
  | some row =>
    if row.maxViews < count then .error (.sql .checkViolation)
    else
      let db := db.updateSecret id (fun r => { r with viewCount := count, viewed := viewed })
        fun _ => rfl
      if row.maxViews ≤ count then do
        let db ← db.insertAuditLog now "secret_deleted" none none (some id)
          [("reason", .str "max_views_achieved"), ("source", .str "postgres_trigger"),
            ("view_count", .int count), ("max_views", .int row.maxViews)]
        return db.deleteSecrets now fun s => s.id = id
      else .ok db

/-- A count below the limit is stored, and nothing else happens. -/
theorem updateViewCount_below {now : Timestamp} {id : UUID} {count : ℤ} {viewed : Bool}
    {db : Database} {row : Secret} (hfind : db.secrets.find id = some row)
    (hlt : count < row.maxViews) :
    db.updateViewCount now id count viewed = .ok (db.updateSecret id
      (fun r => { r with viewCount := count, viewed := viewed }) fun _ => rfl) := by
  simp only [updateViewCount, hfind]
  rw [if_neg (not_lt.mpr hlt.le), if_neg (not_le.mpr hlt)]

theorem find_deleteSecrets (now : Timestamp) (id : UUID) (db : Database) :
    (db.deleteSecrets now fun s => s.id = id).secrets.find id = none := by
  rcases deleteSecrets_frame now (fun s => s.id = id) db with ⟨outbox, n, logs, h⟩
  rw [h, Table.find_deleteWhere]
  cases hfind : db.secrets.find id with
  | none => rfl
  | some secret =>
    have hid : secret.id = id := Table.key_of_find hfind
    simp [hid]

/-- A new count changes the row, or deletes it. -/
theorem updateViewCount_changes {now : Timestamp} {id : UUID} {count : ℤ} {viewed : Bool}
    {db db' : Database} {row : Secret} (hfind : db.secrets.find id = some row)
    (hne : row.viewCount ≠ count) (h : db.updateViewCount now id count viewed = .ok db') :
    db'.secrets.find id ≠ some row := by
  simp only [updateViewCount, hfind] at h
  split at h
  · cases h
  split at h
  · rcases bind_eq_ok.mp h with ⟨logged, _, hdelete⟩
    cases hdelete
    rw [find_deleteSecrets]
    simp
  · cases h
    rw [updateSecret, Table.find_modify, if_pos rfl, hfind, Option.map_some, ne_eq,
      Option.some.injEq]
    intro heq
    exact hne (congrArg Secret.viewCount heq).symm

/-- A count up to the limit is accepted. -/
theorem updateViewCount_accepted {id : UUID} {count : ℤ} {db : Database} {row : Secret}
    (now : Timestamp) (viewed : Bool) (hfind : db.secrets.find id = some row)
    (hle : count ≤ row.maxViews) : ∃ db', db.updateViewCount now id count viewed = .ok db' := by
  simp only [updateViewCount, hfind]
  rw [if_neg (not_lt.mpr hle)]
  split
  · have hsecret : (db.updateSecret id
        (fun r => { r with viewCount := count, viewed := viewed }) fun _ => rfl).hasSecret id =
        true := by
      simp [hasSecret, updateSecret, Table.find_modify, hfind]
    have haction : auditActions.contains "secret_deleted" = true := by decide
    simp only [insertAuditLog, refers, castInet, require, hsecret, haction, if_true]
    exact ⟨_, rfl⟩
  · exact ⟨_, rfl⟩

def insertPendingUpload (row : PendingUpload) (db : Database) : Except Exn Database := do
  require (db.hasUser row.userId) .foreignKeyViolation
  require (db.pendingUploads.rows.all fun r =>
    r.objectKey != row.objectKey && r.reservationId != row.reservationId) .uniqueViolation
  let pending ← insertRow db.pendingUploads row
  return { db with pendingUploads := pending }

theorem insertPendingUpload_ok {row : PendingUpload} {db db' : Database}
    (h : db.insertPendingUpload row = .ok db') :
    ∃ pending, db.pendingUploads.insert row = some pending ∧
      db' = { db with pendingUploads := pending } := by
  rcases bind_eq_ok.mp h with ⟨_, _, h⟩
  rcases bind_eq_ok.mp h with ⟨_, _, h⟩
  rcases bind_eq_ok.mp h with ⟨pending, hinsert, h⟩
  cases h
  exact ⟨pending, insertRow_ok hinsert, rfl⟩

def deletePendingUpload (id : UUID) (db : Database) : Database :=
  { db with pendingUploads := db.pendingUploads.deleteWhere fun r => r.id = id }

/-- `DELETE FROM users WHERE …` with its referential actions. -/
def deleteUsers (p : User → Bool) (db : Database) : Database :=
  let doomed := db.users.rows.filter p
  let gone := fun id => doomed.any fun u => u.id = id
  let kept := fun id : UUID => !gone id
  let untracked := db.secretTracking.rows.filter fun t => gone t.ownerId
  { db with
    users := db.users.deleteWhere p
    sessions := db.sessions.deleteWhere fun s => gone s.userId
    secrets := db.secrets.mapRows (fun s => { s with ownerId := s.ownerId.filter kept })
      fun _ => rfl
    secretVersions := db.secretVersions.mapRows
      (fun v => { v with createdBy := v.createdBy.filter kept }) fun _ => rfl
    secretTracking := db.secretTracking.deleteWhere fun t => gone t.ownerId
    secretViews := (db.secretViews.filter fun v =>
      !untracked.any fun t => t.secretId = v.secretId).map fun v =>
        { v with viewerId := v.viewerId.filter kept }
    auditLogs := db.auditLogs.map fun a => { a with actorId := a.actorId.filter kept }
    pendingUploads := db.pendingUploads.deleteWhere fun r => gone r.userId
    objectDeletionOutbox := db.objectDeletionOutbox.mapRows
      (fun r => { r with userId := r.userId.filter kept }) fun _ => rfl
    userQuotas := db.userQuotas.deleteWhere fun q => gone q.userId }

end Database
end PhantomShare
