import Mathlib.Logic.Function.Basic
import PhantomShare.Services.CleanupService
import PhantomShare.Services.KeyService

/-!
# The record of a secret

What the tables hold of one secret: its row, its keys and versions, its policy and
recipients, and what outlives it, its tracking row and its views. Every statement
of the service changes the records of the secrets that it names in its own way, and
leaves all others as they are.
-/
namespace PhantomShare.Lifecycle
open Foundations FileCrypto

@[ext] structure Record where
  secret : Option Secret
  keys : ℕ → Option SecretKey
  versions : ℕ → Option SecretVersion
  policy : Option SecretAccessPolicy
  tracking : Option SecretTracking
  recipients : List SecretRecipient
  views : List SecretView

def record (id : UUID) (db : Database) : Record where
  secret := db.secrets.find id
  keys n := db.secretKeys.find (id, n)
  versions n := db.secretVersions.find (id, n)
  policy := db.secretAccessPolicies.find id
  tracking := db.secretTracking.find id
  recipients := db.secretRecipients.rows.filter fun r => r.secretId = id
  views := db.secretViews.filter fun v => v.secretId = id

namespace Record

/-- The rows that go with the row of the secret are gone. -/
def removed (r : Record) : Record where
  secret := none
  keys _ := none
  versions _ := none
  policy := none
  tracking := r.tracking
  recipients := []
  views := r.views

def mapSecret (f : Secret → Secret) (r : Record) : Record := { r with secret := r.secret.map f }

def addKey (key : SecretKey) (r : Record) : Record :=
  { r with keys := Function.update r.keys key.version (some key) }

def setVersion (version : SecretVersion) (r : Record) : Record :=
  { r with versions := Function.update r.versions version.version (some version) }

def addView (view : SecretView) (r : Record) : Record :=
  if r.tracking.isSome then { r with views := r.views ++ [view] } else r

def mapVersion (n : ℕ) (f : SecretVersion → SecretVersion) (r : Record) : Record :=
  { r with versions := Function.update r.versions n ((r.versions n).map f) }

/-- The users in `gone` are deleted. -/
def disowned (gone : UUID → Bool) (r : Record) : Record where
  secret := r.secret.map fun s => { s with ownerId := s.ownerId.filter fun id => !gone id }
  keys := r.keys
  versions n := (r.versions n).map fun v => { v with createdBy := v.createdBy.filter fun id => !gone id }
  policy := r.policy
  tracking := r.tracking.filter fun t => !gone t.ownerId
  recipients := r.recipients
  views :=
    if r.tracking.any fun t => gone t.ownerId then []
    else r.views.map fun v => { v with viewerId := v.viewerId.filter fun id => !gone id }

/-- The history is no longer retained. -/
def untracked (r : Record) : Record := { r with tracking := none, views := [] }

@[simp] theorem mapSecret_secret (f : Secret → Secret) (r : Record) :
    (r.mapSecret f).secret = r.secret.map f := rfl
@[simp] theorem mapSecret_keys (f : Secret → Secret) (r : Record) :
    (r.mapSecret f).keys = r.keys := rfl
@[simp] theorem mapSecret_versions (f : Secret → Secret) (r : Record) :
    (r.mapSecret f).versions = r.versions := rfl
@[simp] theorem mapSecret_policy (f : Secret → Secret) (r : Record) :
    (r.mapSecret f).policy = r.policy := rfl
@[simp] theorem mapSecret_tracking (f : Secret → Secret) (r : Record) :
    (r.mapSecret f).tracking = r.tracking := rfl
@[simp] theorem mapSecret_recipients (f : Secret → Secret) (r : Record) :
    (r.mapSecret f).recipients = r.recipients := rfl
@[simp] theorem mapSecret_views (f : Secret → Secret) (r : Record) :
    (r.mapSecret f).views = r.views := rfl
@[simp] theorem addKey_secret (key : SecretKey) (r : Record) : (r.addKey key).secret = r.secret := rfl
@[simp] theorem addKey_versions (key : SecretKey) (r : Record) :
    (r.addKey key).versions = r.versions := rfl
@[simp] theorem setVersion_secret (version : SecretVersion) (r : Record) :
    (r.setVersion version).secret = r.secret := rfl
@[simp] theorem setVersion_keys (version : SecretVersion) (r : Record) :
    (r.setVersion version).keys = r.keys := rfl
@[simp] theorem mapVersion_keys (n : ℕ) (f : SecretVersion → SecretVersion) (r : Record) :
    (r.mapVersion n f).keys = r.keys := rfl

theorem addView_eq (view : SecretView) (r : Record) : r.addView view = { r with
    views := if r.tracking.isSome then r.views ++ [view] else r.views } := by
  unfold addView
  split <;> rfl

end Record

/-! ### Statements -/

section Statements
variable {id : UUID} {db db' : Database} {now : Timestamp}

theorem record_of_eq (hsecrets : db'.secrets = db.secrets) (hkeys : db'.secretKeys = db.secretKeys)
    (hversions : db'.secretVersions = db.secretVersions)
    (hpolicies : db'.secretAccessPolicies = db.secretAccessPolicies)
    (htracking : db'.secretTracking = db.secretTracking)
    (hrecipients : db'.secretRecipients = db.secretRecipients)
    (hviews : db'.secretViews = db.secretViews) : record id db' = record id db := by
  simp only [record, hsecrets, hkeys, hversions, hpolicies, htracking, hrecipients, hviews]

theorem record_insertAuditLog {action : String} {actorId : Option UUID} {actorIp : Option String}
    {secretId : Option UUID} {metadata : List (String × Json)}
    (h : db.insertAuditLog now action actorId actorIp secretId metadata = .ok db') :
    record id db' = record id db := by
  obtain ⟨_, _, row, rfl⟩ := Database.insertAuditLog_ok h
  exact record_of_eq rfl rfl rfl rfl rfl rfl rfl

theorem record_insertSecret {row : Secret} (hid : row.id = id) (h : db.insertSecret row = .ok db') :
    (record id db).secret = none ∧ 1 ≤ row.ttlHours ∧ row.ttlHours ≤ 168 ∧
      row.viewCount ≤ row.maxViews ∧ row.passwordProtected = row.accessPasswordHash.isSome ∧
      Database.refers db.hasUser row.ownerId = true ∧
      record id db' = { record id db with
        secret := some { row with expiresAt := row.createdAt + hours row.ttlHours } } := by
  subst hid
  obtain ⟨_, httl, h⟩ := bind_eq_ok.mp h
  obtain ⟨_, hviews, h⟩ := bind_eq_ok.mp h
  obtain ⟨_, hpassword, h⟩ := bind_eq_ok.mp h
  obtain ⟨_, howner, h⟩ := bind_eq_ok.mp h
  obtain ⟨secrets, hinsert, h⟩ := bind_eq_ok.mp h
  cases h
  have httl := require_ok httl
  have hviews := require_ok hviews
  have hpassword := require_ok hpassword
  simp only [Bool.and_eq_true, decide_eq_true_eq, beq_iff_eq] at httl hviews hpassword
  have hsecrets := insertRow_ok hinsert
  refine ⟨(Table.insert_eq_some hsecrets).1, httl.1, httl.2, hviews, hpassword, require_ok howner, ?_⟩
  simp only [record, Table.find_of_insert hsecrets, if_true]

theorem record_insertSecretKey {row : SecretKey} (hid : row.secretId = id)
    (h : db.insertSecretKey row = .ok db') :
    (record id db).keys row.version = none ∧
      record id db' = (record id db).addKey row := by
  subst hid
  obtain ⟨_, keys, hinsert, rfl⟩ := Database.insertSecretKey_ok h
  refine ⟨(Table.insert_eq_some hinsert).1, ?_⟩
  ext1 <;> try rfl
  funext n
  simp [record, Record.addKey, Table.find_of_insert hinsert, SecretKey.key, Function.update_apply]

theorem record_insertSecretVersion {row : SecretVersion} (hid : row.secretId = id)
    (h : db.insertSecretVersion row = .ok db') :
    row.payloadCheck = true ∧ (record id db).versions row.version = none ∧
      record id db' = (record id db).setVersion row := by
  subst hid
  obtain ⟨_, hpayload, _⟩ := bind_eq_ok.mp h
  obtain ⟨_, _, versions, hinsert, rfl⟩ := Database.insertSecretVersion_ok h
  refine ⟨require_ok hpayload, (Table.insert_eq_some hinsert).1, ?_⟩
  ext1 <;> try rfl
  funext n
  simp [record, Record.setVersion, Table.find_of_insert hinsert, SecretVersion.key,
    Function.update_apply]

theorem record_insertRecipient {row : SecretRecipient} (hid : row.secretId = id)
    (h : db.insertRecipient row = .ok db') :
    record id db' = { record id db with
      recipients := (record id db).recipients ++ [row] } := by
  subst hid
  obtain ⟨_, _, h⟩ := bind_eq_ok.mp h
  obtain ⟨recipients, hinsert, h⟩ := bind_eq_ok.mp h
  cases h
  simp [record, (Table.insert_eq_some (insertRow_ok hinsert)).2]

theorem record_insertRecipients {emails : List String}
    (h : db.insertRecipients id emails = .ok db') :
    record id db' = { record id db with
      recipients := (record id db).recipients ++ emails.map fun email => ⟨id, email⟩ } := by
  unfold Database.insertRecipients at h
  induction emails generalizing db with
  | nil =>
    cases h
    simp
  | cons email rest ih =>
    rw [List.foldlM_cons] at h
    obtain ⟨mid, hmid, hrest⟩ := bind_eq_ok.mp h
    rw [ih hrest, record_insertRecipient rfl hmid]
    simp

theorem record_insertPolicy {row : SecretAccessPolicy} (hid : row.secretId = id)
    (h : db.insertPolicy row = .ok db') :
    record id db' = { record id db with policy := some row } := by
  subst hid
  obtain ⟨_, _, h⟩ := bind_eq_ok.mp h
  obtain ⟨policies, hinsert, h⟩ := bind_eq_ok.mp h
  cases h
  simp [record, Table.find_of_insert (insertRow_ok hinsert)]

/-- The tracking row of a secret that is there. -/
theorem record_insertTracking {retentionDays : ℕ} {secret : Secret}
    (hsecret : (record id db).secret = some secret)
    (h : db.insertTracking retentionDays id = .ok db') : ∃ ownerId, secret.ownerId = some ownerId ∧
      (record id db).tracking = none ∧ record id db' = { record id db with
        tracking := some ⟨id, ownerId, secret.expiresAt + days retentionDays⟩ } := by
  have hfind : db.secrets.find id = some secret := hsecret
  simp only [Database.insertTracking, hfind] at h
  cases howner : secret.ownerId with
  | none =>
    rw [howner] at h
    cases h
  | some ownerId =>
    rw [howner] at h
    obtain ⟨_, _, h⟩ := bind_eq_ok.mp h
    obtain ⟨tracking, hinsert, h⟩ := bind_eq_ok.mp h
    cases h
    have htracking := insertRow_ok hinsert
    refine ⟨ownerId, rfl, (Table.insert_eq_some htracking).1, ?_⟩
    simp [record, Table.find_of_insert htracking]

theorem record_updateSecret (f : Secret → Secret) (hf : ∀ r, (f r).id = r.id) :
    record id (db.updateSecret id f hf) = (record id db).mapSecret f := by
  simp [record, Record.mapSecret, Database.updateSecret, Table.find_modify]

theorem record_updatePolicy (f : SecretAccessPolicy → SecretAccessPolicy)
    (hf : ∀ r, (f r).secretId = r.secretId) :
    record id { db with secretAccessPolicies := db.secretAccessPolicies.modify id f hf } =
      { record id db with policy := (record id db).policy.map f } := by
  simp [record, Table.find_modify]

theorem record_updateTextVersion {version keyVersion : ℕ} {content nonce : String}
    (h : db.updateTextVersion id version content nonce keyVersion = .ok db') :
    record id db' = (record id db).mapVersion version fun v =>
      { v with content := some content, nonce := some nonce, keyVersion := some keyVersion } := by
  obtain ⟨⟨versions, rfl⟩, hfind⟩ := Database.updateTextVersion_ok h
  ext1 <;> try rfl
  funext n
  simp [record, Record.mapVersion, hfind, Function.update_apply]

/-- A view goes on record while the secret is tracked. -/
theorem record_insertView {row : SecretView} {n : ℕ} (hid : row.secretId = id) (h : db.insertView row = .ok (n, db')) :
    n = (if (record id db).tracking.isSome then 1 else 0) ∧
      record id db' = (record id db).addView row := by
  subst hid
  unfold Database.insertView at h
  cases htracking : db.secretTracking.find row.secretId with
  | none =>
    rw [htracking] at h
    cases h
    simp [record, Record.addView, htracking]
  | some t =>
    rw [htracking] at h
    obtain ⟨_, _, h⟩ := bind_eq_ok.mp h
    cases h
    simp [record, Record.addView, htracking]

theorem record_deletePendingUpload (pendingId : UUID) :
    record id (db.deletePendingUpload pendingId) = record id db :=
  record_of_eq rfl rfl rfl rfl rfl rfl rfl

/-- Rows that go with an owner. -/
theorem filter_cascade {ρ : Type} (x : Option ρ) (owner : ρ → UUID) (gone : UUID → Bool)
    (h : ∀ r, x = some r → owner r = id) :
    (x.filter fun r => !gone (owner r)) = if gone id then none else x := by
  cases x with
  | none => simp
  | some r => cases hgone : gone id <;> simp [h r rfl, hgone]

/-- The rows of an owner among those whose owner is kept. -/
theorem filter_of_id {ρ : Type} (rows : List ρ) (owner : ρ → UUID) (gone : UUID → Bool) (id : UUID) :
    ((rows.filter fun r => !gone (owner r)).filter fun r => owner r = id) =
      if gone id then [] else rows.filter fun r => owner r = id := by
  rw [List.filter_filter]
  cases hgone : gone id with
  | true =>
    rw [if_pos rfl, List.filter_eq_nil_iff]
    intro r _
    by_cases hid : owner r = id <;> simp [hid, hgone]
  | false =>
    rw [if_neg (by decide)]
    apply List.filter_congr
    intro r _
    by_cases hid : owner r = id <;> simp [hid, hgone]

/-- A deletion of secrets removes the record of each of them. -/
theorem record_deleteSecrets (p : Secret → Bool) :
    record id (db.deleteSecrets now p) =
      if (record id db).secret.any p then (record id db).removed else record id db := by
  obtain ⟨outbox, n, logs, hframe⟩ := Database.deleteSecrets_frame now p db
  have hgone := db.secrets.any_filter_key p id
  have hkeys := fun n => filter_cascade (db.secretKeys.find (id, n)) SecretKey.secretId
    (fun k => (db.secrets.rows.filter p).any fun s => s.id = k)
    fun k hk => congrArg Prod.fst (Table.key_of_find hk)
  have hversions := fun n => filter_cascade (db.secretVersions.find (id, n)) SecretVersion.secretId
    (fun k => (db.secrets.rows.filter p).any fun s => s.id = k)
    fun v hv => congrArg Prod.fst (Table.key_of_find hv)
  have hpolicy := filter_cascade (db.secretAccessPolicies.find id) SecretAccessPolicy.secretId
    (fun k => (db.secrets.rows.filter p).any fun s => s.id = k) fun r hr => Table.key_of_find hr
  have hrecipients := filter_of_id db.secretRecipients.rows SecretRecipient.secretId
    (fun k => (db.secrets.rows.filter p).any fun s => s.id = k) id
  have hsecret : ((db.secrets.find id).filter fun s => !p s) =
      if (db.secrets.find id).any p then none else db.secrets.find id := by
    cases hfind : db.secrets.find id with
    | none => simp
    | some s => cases hp : p s <;> simp [hp]
  simp only [hgone] at hkeys hversions hpolicy hrecipients
  change record id (db.deleteSecrets now p) =
    if (db.secrets.find id).any p then (record id db).removed else record id db
  rw [hframe]
  cases hany : (db.secrets.find id).any p <;> simp only [hany, Bool.false_eq_true, if_true, if_false]
    at hkeys hversions hpolicy hrecipients hsecret ⊢
  all_goals simp only [record, Record.removed, Table.find_deleteWhere, Table.deleteWhere_rows,
    hsecret, hkeys, hversions, hpolicy, hrecipients]

/-- A deletion of users leaves the secrets without an owner and forgets their histories. -/
theorem record_deleteUsers (p : User → Bool) : record id (db.deleteUsers p) =
    (record id db).disowned fun k => (db.users.rows.filter p).any fun u => u.id = k := by
  have huntracked := db.secretTracking.any_filter_key
    (fun t => (db.users.rows.filter p).any fun u => u.id = t.ownerId)
  have hviews := filter_of_id db.secretViews SecretView.secretId (fun secretId =>
    (db.secretTracking.rows.filter fun t =>
      (db.users.rows.filter p).any fun u => u.id = t.ownerId).any fun t => t.secretId = secretId) id
  simp only [huntracked] at hviews
  ext1
  · simp only [record, Record.disowned, Database.deleteUsers, Table.find_mapRows]
  · rfl
  · funext n
    exact Table.find_mapRows db.secretVersions
      (fun v => { v with
        createdBy := v.createdBy.filter fun k => !(db.users.rows.filter p).any fun u => u.id = k })
      (fun _ => rfl) (id, n)
  · rfl
  · exact Table.find_deleteWhere db.secretTracking _ id
  · rfl
  · simp only [record, Record.disowned, Database.deleteUsers, List.filter_map, Function.comp_def,
      huntracked, hviews]
    split <;> simp_all

theorem record_deleteTracking : record id (db.deleteTracking now) =
    if (record id db).tracking.any fun t => t.retainUntil ≤ now then (record id db).untracked
    else record id db := by
  have huntracked := db.secretTracking.any_filter_key fun t => t.retainUntil ≤ now
  have hviews := filter_of_id db.secretViews SecretView.secretId (fun secretId =>
    (db.secretTracking.rows.filter fun t => t.retainUntil ≤ now).any
      fun t => t.secretId = secretId) id
  have htracking := Table.find_deleteWhere db.secretTracking (fun t => t.retainUntil ≤ now) id
  simp only [huntracked] at hviews
  change record id (db.deleteTracking now) =
    if (db.secretTracking.find id).any fun t => t.retainUntil ≤ now then (record id db).untracked
    else record id db
  cases hdue : (db.secretTracking.find id).any fun t => t.retainUntil ≤ now with
  | true =>
    rw [hdue] at hviews
    ext1 <;> try rfl
    · rw [record, Database.deleteTracking, htracking]
      cases hfind : db.secretTracking.find id <;> simp_all [Record.untracked]
    · simp [record, Database.deleteTracking, huntracked, hviews, Record.untracked]
  | false =>
    rw [hdue] at hviews
    ext1 <;> try rfl
    · simp only [record, Database.deleteTracking, htracking]
      cases hfind : db.secretTracking.find id <;> simp_all
    · simp [record, Database.deleteTracking, huntracked, hviews]

end Statements

/-! ### The records of the others -/

/-- No record but that of the secret has changed. -/
def Apart (id : UUID) (db db' : Database) : Prop := ∀ other, other ≠ id → record other db' = record other db

instance (id : UUID) : IsPreorder Database (Apart id) where
  refl _ _ _ := rfl
  trans _ _ _ hab hbc other hother := (hbc other hother).trans (hab other hother)

namespace Apart
variable {id : UUID} {db db' : Database} {now : Timestamp}

theorem refl (id : UUID) (db : Database) : Apart id db db := fun _ _ => rfl

theorem trans {a b c : Database} (hab : Apart id a b) (hbc : Apart id b c) : Apart id a c :=
  trans_of (Apart id) hab hbc

theorem of_same (h : ∀ other, record other db' = record other db) : Apart id db db' :=
  fun other _ => h other

theorem insertSecret {row : Secret} (hid : row.id = id) (h : db.insertSecret row = .ok db') :
    Apart id db db' := by
  obtain ⟨secrets, hinsert, rfl⟩ := Database.insertSecret_ok h
  intro other hother
  rw [← hid] at hother
  simp [record, Table.find_of_insert hinsert, hother]

theorem insertSecretKey {row : SecretKey} (hid : row.secretId = id)
    (h : db.insertSecretKey row = .ok db') : Apart id db db' := by
  obtain ⟨_, keys, hinsert, rfl⟩ := Database.insertSecretKey_ok h
  intro other hother
  rw [← hid] at hother
  simp [record, Table.find_of_insert hinsert, SecretKey.key, hother]

theorem insertSecretVersion {row : SecretVersion} (hid : row.secretId = id)
    (h : db.insertSecretVersion row = .ok db') : Apart id db db' := by
  obtain ⟨_, _, versions, hinsert, rfl⟩ := Database.insertSecretVersion_ok h
  intro other hother
  rw [← hid] at hother
  simp [record, Table.find_of_insert hinsert, SecretVersion.key, hother]

theorem insertRecipients {emails : List String} (h : db.insertRecipients id emails = .ok db') :
    Apart id db db' := by
  unfold Database.insertRecipients at h
  induction emails generalizing db with
  | nil =>
    cases h
    exact refl id _
  | cons email rest ih =>
    rw [List.foldlM_cons] at h
    obtain ⟨mid, hmid, hrest⟩ := bind_eq_ok.mp h
    obtain ⟨_, _, hmid⟩ := bind_eq_ok.mp hmid
    obtain ⟨recipients, hinsert, hmid⟩ := bind_eq_ok.mp hmid
    cases hmid
    apply trans _ (ih hrest)
    intro other hother
    simp [record, (Table.insert_eq_some (insertRow_ok hinsert)).2, hother.symm]

theorem insertPolicy {row : SecretAccessPolicy} (hid : row.secretId = id)
    (h : db.insertPolicy row = .ok db') : Apart id db db' := by
  obtain ⟨_, _, h⟩ := bind_eq_ok.mp h
  obtain ⟨policies, hinsert, h⟩ := bind_eq_ok.mp h
  cases h
  intro other hother
  rw [← hid] at hother
  simp [record, Table.find_of_insert (insertRow_ok hinsert), hother]

theorem insertTracking {retentionDays : ℕ} (h : db.insertTracking retentionDays id = .ok db') :
    Apart id db db' := by
  unfold Database.insertTracking at h
  split at h
  · cases h
    exact refl id db
  · split at h
    · cases h
    · obtain ⟨_, _, h⟩ := bind_eq_ok.mp h
      obtain ⟨tracking, hinsert, h⟩ := bind_eq_ok.mp h
      cases h
      intro other hother
      simp [record, Table.find_of_insert (insertRow_ok hinsert), hother]

theorem updateSecret (f : Secret → Secret) (hf : ∀ r, (f r).id = r.id) :
    Apart id db (db.updateSecret id f hf) := by
  intro other hother
  simp [record, Database.updateSecret, Table.find_modify, hother]

theorem updatePolicy (f : SecretAccessPolicy → SecretAccessPolicy)
    (hf : ∀ r, (f r).secretId = r.secretId) : Apart id db
      { db with secretAccessPolicies := db.secretAccessPolicies.modify id f hf } := by
  intro other hother
  simp [record, Table.find_modify, hother]

theorem updateTextVersion {version keyVersion : ℕ} {content nonce : String}
    (h : db.updateTextVersion id version content nonce keyVersion = .ok db') : Apart id db db' := by
  obtain ⟨⟨versions, rfl⟩, hfind⟩ := Database.updateTextVersion_ok h
  intro other hother
  simp [record, hfind, hother]

theorem insertView {row : SecretView} {n : ℕ} (hid : row.secretId = id)
    (h : db.insertView row = .ok (n, db')) : Apart id db db' := by
  unfold Database.insertView at h
  split at h
  · cases h
    exact refl id db
  · obtain ⟨_, _, h⟩ := bind_eq_ok.mp h
    cases h
    intro other hother
    simp [record, hid, hother.symm]

theorem deleteSecret (id : UUID) (db : Database) :
    Apart id db (db.deleteSecrets now fun s => s.id = id) := by
  intro other hother
  rw [record_deleteSecrets, if_neg]
  change ¬ (db.secrets.find other).any (fun s => s.id = id) = true
  cases hfind : db.secrets.find other with
  | none => simp
  | some s => simpa [Table.key_of_find hfind] using hother

end Apart

section Views
variable {id : UUID} {db db' : Database} {now : Timestamp} {count : ℤ} {viewed : Bool}

/-- A count below the limit is stored, and the last one removes the record. -/
theorem record_updateViewCount {s : Secret} (hs : (record id db).secret = some s)
    (h : db.updateViewCount now id count viewed = .ok db') : count ≤ s.maxViews ∧
      record id db' =
        if s.maxViews ≤ count then (record id db).removed
        else (record id db).mapSecret fun r => { r with viewCount := count, viewed := viewed } := by
  have hfind : db.secrets.find id = some s := hs
  simp only [Database.updateViewCount, hfind] at h
  split at h
  · cases h
  rename_i hle
  refine ⟨not_lt.mp hle, ?_⟩
  split at h
  · rename_i hlast
    obtain ⟨logged, hlog, h⟩ := bind_eq_ok.mp h
    cases h
    rw [if_pos hlast, record_deleteSecrets, record_insertAuditLog hlog, record_updateSecret, if_pos]
    · rfl
    · simp [Record.mapSecret, hs, Table.key_of_find hfind]
  · rename_i hmore
    cases h
    rw [if_neg hmore, record_updateSecret]

theorem Apart.updateViewCount (h : db.updateViewCount now id count viewed = .ok db') :
    Apart id db db' := by
  unfold Database.updateViewCount at h
  split at h
  · cases h
    exact refl id db
  split at h
  · cases h
  split at h
  · obtain ⟨logged, hlog, h⟩ := bind_eq_ok.mp h
    cases h
    apply (Apart.updateSecret _ _).trans
    apply (Apart.of_same fun _ => record_insertAuditLog hlog).trans
    exact .deleteSecret id logged
  · cases h
    exact .updateSecret _ _

end Views
end PhantomShare.Lifecycle
