import PhantomShare.Lifecycle.Transactions
import PhantomShare.Service.Outlines

/-!
# What a transaction may change

A step either keeps the current version and the policy of a secret, or ends a secret
whose time or whose views are over, or is permitted to change this secret.
-/
namespace PhantomShare.Service
open Foundations Lifecycle

/-- The secret is there with the same current version, and a policy that it had is the same. -/
structure Kept (s : Secret) (r r' : Record) : Prop where
  secret : ∃ s', r'.secret = some s' ∧ s'.currentVersion = s.currentVersion
  policy : ∀ policy, r.policy = some policy → r'.policy = some policy

/-- The time of the secret or its last permitted view is over. -/
def Over (now : Timestamp) (s : Secret) : Prop := s.expiresAt < now ∨ s.maxViews ≤ s.viewCount + 1

/-- What may happen to a secret that is there. -/
def Changes (permitted : UUID → Secret → Prop) (now : Timestamp) (db db' : Database) (id : UUID)
    (s : Secret) : Prop :=
  Kept s (record id db) (record id db') ∨ ((record id db').secret = none ∧ Over now s) ∨
    permitted id s

/-- Every secret that was there is kept or over, unless its change is permitted. -/
def Bounded (permitted : UUID → Secret → Prop) (now : Timestamp) (db db' : Database) : Prop :=
  ∀ id s, (record id db).secret = some s → Changes permitted now db db' id s

variable {P : Platform} {permitted : UUID → Secret → Prop} {now : Timestamp} {id : UUID}
  {db db' db₁ : Database}

theorem Kept.of_same {s : Secret} {r r' : Record} (hs : r.secret = some s)
    (hsecret : r'.secret = r.secret) (hpolicy : r'.policy = r.policy) : Kept s r r' where
  secret := ⟨s, hsecret.trans hs, rfl⟩
  policy _ h := hpolicy.trans h

namespace Bounded

theorem mono {permitted' : UUID → Secret → Prop} (h : Bounded permitted now db db')
    (hpermitted : ∀ id s, permitted id s → permitted' id s) : Bounded permitted' now db db' := by
  intro id s hs
  obtain hkept | hover | hpermits := h id s hs
  · exact .inl hkept
  · exact .inr (.inl hover)
  · exact .inr (.inr (hpermitted id s hpermits))

theorem of_same (h : ∀ id, record id db' = record id db) : Bounded permitted now db db' := by
  intro id s hs
  exact .inl (.of_same hs (by rw [h]) (by rw [h]))

/-- Only one secret may change. -/
theorem of_apart (id : UUID) (hapart : Apart id db db')
    (h : ∀ s, (record id db).secret = some s → Changes permitted now db db' id s) :
    Bounded permitted now db db' := by
  intro other s hs
  by_cases hother : other = id
  · subst hother
    exact h s hs
  · exact .inl (.of_same hs (by rw [hapart other hother]) (by rw [hapart other hother]))

theorem logged {action : String} {actorId : Option UUID} {actorIp : Option String}
    {secretId : Option UUID} {metadata : List (String × Json)} (h : Bounded permitted now db db₁)
    (hlog : db₁.insertAuditLog now action actorId actorIp secretId metadata = .ok db') :
    Bounded permitted now db db' := by
  intro id s hs
  have hchanges := h id s hs
  rwa [Changes, ← record_insertAuditLog hlog] at hchanges

end Bounded

/-! ### Creations -/

/-- A new row needs an id of its own. -/
theorem Bounded.insertSecret {row : Secret} (hid : row.id = id)
    (hsecret : db.insertSecret row = .ok db₁) (hapart : Apart id db db') :
    Bounded permitted now db db' := by
  apply of_apart id hapart
  intro s hs
  obtain ⟨secrets, hinsert, _⟩ := Database.insertSecret_ok hsecret
  have hfree := (Table.insert_eq_some hinsert).1
  have hs : db.secrets.find id = some s := hs
  simp [hid, hs] at hfree

theorem absent_of_birth {r r' : Record} (h : Birth P id r r') : r.secret = none := by
  cases h with
  | born absent untracked newborn => exact absent

theorem bounded_create (sound : P.Sound) {body : SecretCreate} {ownerId : UUID} {clientIp : String}
    {random : Random} {signedToken : String} (h : (Secrets.createTransaction P id body ownerId
      clientIp random now).run db = .ok (signedToken, some db')) :
    Bounded permitted now db db' := by
  have hcreates := (ensures_createTransaction sound).run h
  apply Bounded.of_apart id hcreates.apart
  intro s hs
  simp [absent_of_birth hcreates.birth] at hs

theorem bounded_createFile {pendingId : UUID} {objectKey : ObjectKey} {body : FileCreate}
    {access : Files.FileAccess} {encrypted : Files.Encrypted} {size encryptedSize : ℕ}
    {detail : String} {ownerId : UUID} {signedToken : String} :
    (Files.createTransaction P pendingId objectKey body access encrypted size encryptedSize detail
      ownerId signedToken now).Ensures db fun _ db' => Bounded permitted now db db' := by
  apply Tx.ensures_write_bind
  intro db₁ hsecret
  apply Tx.ensures_write_bind
  intro db₂ hkey
  apply Tx.ensures_write_bind
  intro db₃ hinsert
  apply Tx.ensures_write_bind
  intro db₄ hrecipients
  apply Tx.ensures_write_bind
  intro db₅ hpolicy
  apply Tx.ensures_write_bind
  intro db₆ htracking
  apply Tx.ensures_write
  intro db₇ hpending
  cases hpending
  apply Bounded.insertSecret (rfl : _ = objectKey.secretId) hsecret
  apply Apart.trans _ (.of_same fun _ => record_deletePendingUpload pendingId)
  apply Apart.trans _ (.insertTracking htracking)
  apply Apart.trans _ (.insertPolicy rfl hpolicy)
  apply Apart.trans _ (.insertRecipients hrecipients)
  apply Apart.trans _ (.insertSecretVersion rfl hinsert)
  exact (Apart.insertSecret rfl hsecret).trans (.insertSecretKey rfl hkey)

/-! ### Views -/

theorem bounded_view {s : Secret} {view : SecretView} {n : ℕ} {viewed : Bool}
    {viewedDb loggedDb : Database} (hs : db.secrets.find id = some s) (hid : view.secretId = id)
    (hinsert : db.insertView view = .ok (n, viewedDb))
    (hlogged : ∀ id, record id loggedDb = record id viewedDb)
    (hupdate : loggedDb.updateViewCount now id (s.viewCount + 1) viewed = .ok db') :
    Bounded permitted now db db' := by
  have hrecord := (record_insertView hid hinsert).2
  have hsecret : (record id loggedDb).secret = some s := by
    rw [hlogged, hrecord, Record.addView_eq]
    exact hs
  apply Bounded.of_apart id
  · apply Apart.trans _ (.updateViewCount hupdate)
    exact (Apart.insertView hid hinsert).trans (.of_same hlogged)
  intro s' hs'
  have hs' : db.secrets.find id = some s' := hs'
  rw [hs, Option.some.injEq] at hs'
  subst hs'
  have hresult := (record_updateViewCount hsecret hupdate).2
  by_cases hlast : s.maxViews ≤ s.viewCount + 1
  · rw [if_pos hlast] at hresult
    exact .inr (.inl ⟨by rw [hresult]; rfl, .inr hlast⟩)
  · left
    rw [if_neg hlast] at hresult
    constructor
    · rw [hresult, Record.mapSecret_secret, hsecret]
      exact ⟨_, rfl, rfl⟩
    · intro policy hpolicy
      rw [hresult, Record.mapSecret_policy, hlogged, hrecord, Record.addView_eq]
      exact hpolicy

theorem bounded_retrieve {policy : Option SecretAccessPolicy} {policyVersion : ℕ}
    {accessPassword : Option String} {clientIp : String} {currentUser : Option CurrentUser}
    {seen : Secrets.Seen} (h : (Secrets.retrieveTransaction P id policy policyVersion accessPassword
      clientIp currentUser now).run db = .ok (seen, some db')) : Bounded permitted now db db' := by
  obtain ⟨hs, _, _, _, viewedDb, logs, final, n, hinsert, hupdate, heq⟩ :=
    Secrets.retrieveTransaction_ok h
  cases heq
  have hlogged : ∀ id, record id { viewedDb with auditLogs := logs } = record id viewedDb :=
    fun _ => rfl
  exact bounded_view hs rfl hinsert hlogged hupdate

theorem bounded_download {policy : Option SecretAccessPolicy} {version policyVersion : ℕ}
    {encrypted : Bytes} {clientIp : String} {currentUser : Option CurrentUser}
    {opened : Files.Opened} (h : (Files.downloadTransaction P id policy version policyVersion
      encrypted clientIp currentUser now).run db = .ok (opened, some db')) :
    Bounded permitted now db db' := by
  obtain ⟨hs, _, _, _, viewedDb, n, updated, metadata, hinsert, hupdate, hcommitted⟩ :=
    Files.downloadTransaction_ok h
  have hbounded : Bounded permitted now db updated :=
    bounded_view hs rfl hinsert (fun _ => rfl) hupdate
  intro other s hother
  have hchanges := hbounded other s hother
  rwa [Changes, ← record_logged (c := ⟨updated, false⟩) hcommitted] at hchanges

/-! ### Changes by an owner -/

section Owner
variable {user : CurrentUser} {clientIp : String}

/-- The user owns the secret, or is an admin. -/
def Manages (user : CurrentUser) (_ : UUID) (s : Secret) : Prop :=
  Security.requireOwnsSecret s.ownerId user = .ok ()

theorem manages_of_isOk {s : Secret} (h : (Security.requireOwnsSecret s.ownerId user).isOk = true) :
    Manages user id s := by
  rw [Manages]
  cases hresult : Security.requireOwnsSecret s.ownerId user with
  | ok u => rfl
  | error error => simp [hresult, Except.isOk, Except.toBool] at h

theorem bounded_update (sound : P.Sound) {body : SecretUpdate} {random : Random} {newVersion : ℕ}
    (h : (SecretVersions.updateTransaction P id body user clientIp random now).run db =
      .ok (newVersion, some db')) : Bounded (Manages user) now db db' := by
  apply Bounded.of_apart id (extends_update sound h).apart
  intro s hs
  have hs : db.secrets.find id = some s := hs
  have hchecks := (SecretVersions.updateTransaction_ok h).1
  simp only [SecretVersions.updatable, hs, Option.any_some, Bool.and_eq_true] at hchecks
  exact .inr (.inr (manages_of_isOk hchecks.1.1.1.1.1.1))

theorem bounded_restore (sound : P.Sound) {version : ℤ} {random : Random} {newVersion : ℕ}
    (h : (SecretVersions.restoreTransaction P id version user clientIp random now).run db =
      .ok (newVersion, some db')) : Bounded (Manages user) now db db' := by
  apply Bounded.of_apart id (extends_restore sound h).apart
  intro s hs
  have hs : db.secrets.find id = some s := hs
  have hchecks := (SecretVersions.restoreTransaction_ok h).1
  simp only [SecretVersions.restorable, hs, Option.any_some, Bool.and_eq_true] at hchecks
  exact .inr (.inr (manages_of_isOk hchecks.1.1))

theorem bounded_updateFile {pendingId : UUID} {objectKey : ObjectKey} {body : FileUpdate}
    {encrypted : Files.Encrypted} {size encryptedSize : ℕ} {detail : String} :
    (FileVersions.updateTransaction pendingId objectKey body encrypted size encryptedSize detail
      user clientIp now).Ensures db fun _ db' => Bounded (Manages user) now db db' := by
  apply Tx.ensures_select_bind
  cases hs : db.secrets.find objectKey.secretId with
  | none => exact Tx.ensures_throw _
  | some s =>
    apply Tx.ensures_raiseIf_bind
    intro _
    apply Tx.ensures_ofExcept_bind
    intro _ howns
    apply Tx.ensures_select_bind
    apply Tx.ensures_write_bind
    intro db₁ hkey
    apply Tx.ensures_write_bind
    intro db₂ hinsert
    apply Tx.ensures_write_bind
    intro db₃ hupdate
    cases hupdate
    apply Tx.ensures_write_bind
    intro db₄ hpending
    cases hpending
    apply Tx.ensures_quietly
    intro db₅ hlog
    apply Bounded.logged _ hlog
    apply Bounded.of_apart objectKey.secretId
    · apply Apart.trans _ (.of_same fun _ => record_deletePendingUpload pendingId)
      apply Apart.trans _ (.updateSecret _ _)
      exact (Apart.insertSecretKey rfl hkey).trans (.insertSecretVersion rfl hinsert)
    · intro s' hs'
      cases hs.symm.trans hs'
      exact .inr (.inr howns)

theorem bounded_policy {body : LocationPolicyUpdate} :
    (SecretAccess.policyTransaction P id body user clientIp now).Ensures db
      fun _ db' => Bounded (Manages user) now db db' := by
  apply Tx.ensures_select_bind
  cases hs : db.secrets.find id with
  | none => exact Tx.ensures_throw _
  | some s =>
    apply Tx.ensures_select_bind
    cases hpolicy : db.secretAccessPolicies.find id with
    | none => exact Tx.ensures_throw _
    | some policy =>
      apply Tx.ensures_ofExcept_bind
      intro _ howns
      apply Tx.ensures_write_bind
      intro db₁ hmodify
      cases hmodify
      apply Tx.ensures_write_bind
      intro db₂ hupdate
      cases hupdate
      apply Tx.ensures_quietly_bind
      · exact Tx.sticky_pure _
      intro db₃ hlog
      apply Tx.ensures_pure
      apply Bounded.logged _ hlog
      apply Bounded.of_apart id ((Apart.updatePolicy _ _).trans (.updateSecret _ _))
      intro s' hs'
      cases hs.symm.trans hs'
      exact .inr (.inr howns)

theorem bounded_delete : (Secrets.deleteTransaction id user clientIp now).Ensures db
    fun _ db' => Bounded (Manages user) now db db' := by
  apply Tx.ensures_select_bind
  cases hs : db.secrets.find id with
  | none => exact Tx.ensures_throw _
  | some s =>
    apply Tx.ensures_ofExcept_bind
    intro _ howns
    apply Tx.ensures_quietly_bind
    · exact Tx.sticky_write _
    intro db₁ hlog
    apply Tx.ensures_write
    intro db₂ hdelete
    cases hdelete
    apply Bounded.of_apart id
    · apply Apart.trans _ (.deleteSecret id db₁)
      exact .of_same fun _ => record_insertAuditLog hlog
    · intro s' hs'
      cases hs.symm.trans hs'
      exact .inr (.inr howns)

/-- A rotation seals the current version again. -/
theorem bounded_rotate {random : Random} {keyVersion : ℕ}
    (h : (KeyService.rotateKey P id random now).run db = .ok (keyVersion, some db')) :
    Bounded permitted now db db' := by
  obtain ⟨rfl, s, key, dek, plaintext, keyed, db₁, hs, _, _, _, hkeyed, hwritten, heq⟩ :=
    KeyService.rotateKey_ok h
  cases heq
  obtain ⟨⟨versions, hframe⟩, _⟩ := Database.updateTextVersion_ok hwritten
  obtain ⟨_, keys, _, rfl⟩ := Database.insertSecretKey_ok hkeyed
  intro other s' hs'
  have hs' : db.secrets.find other = some s' := hs'
  left
  rw [hframe]
  constructor
  · simp only [record, Database.updateSecret, Table.find_modify]
    split
    · rename_i hother
      subst hother
      rw [hs']
      exact ⟨_, rfl, rfl⟩
    · exact ⟨s', hs', rfl⟩
  · exact fun _ hpolicy => hpolicy

end Owner

/-! ### The end of a secret -/

theorem bounded_expire : (CleanupService.expireTransaction id now).Ensures db
    fun _ db' => Bounded (fun other _ => other = id) now db db' := by
  apply Tx.ensures_select_bind
  apply Tx.ensures_write_bind
  intro db₁ hdelete
  cases hdelete
  apply Tx.ensures_pure
  apply Bounded.of_apart id (.deleteSecret id db)
  exact fun _ _ => .inr (.inr rfl)

theorem bounded_sweep : (CleanupService.sweepTransaction now).Ensures db
    fun _ db' => Bounded permitted now db db' := by
  apply Tx.ensures_select_bind
  apply Tx.ensures_write_bind
  intro db₁ hsecrets
  cases hsecrets
  apply Tx.ensures_select_bind
  apply Tx.ensures_write_bind
  intro db₂ husers
  cases husers
  apply Tx.ensures_write_bind
  intro db₃ htracking
  cases htracking
  apply Tx.ensures_select_bind
  apply Tx.ensures_write_bind
  intro db₄ hsessions
  cases hsessions
  apply Tx.ensures_pure
  intro id s hs
  -- the rows of the users and of the histories are not what a secret is read from
  have hsecret : ∀ base : Database, (record id ((base.deleteUsers
      (CleanupService.removable now)).deleteTracking now)).secret =
        (record id (base.deleteUsers (CleanupService.removable now))).secret := by
    intro base
    rw [record_deleteTracking]
    split <;> rfl
  have hpolicy : ∀ base : Database, (record id ((base.deleteUsers
      (CleanupService.removable now)).deleteTracking now)).policy =
        (record id (base.deleteUsers (CleanupService.removable now))).policy := by
    intro base
    rw [record_deleteTracking]
    split <;> rfl
  change Changes permitted now db (((db.deleteSecrets now (CleanupService.spent now)).deleteUsers
    (CleanupService.removable now)).deleteTracking now) id s
  have hdeleted : record id (db.deleteSecrets now (CleanupService.spent now)) = _ :=
    record_deleteSecrets (CleanupService.spent now)
  rw [hs, Option.any_some] at hdeleted
  cases hspent : CleanupService.spent now s with
  | true =>
    rw [if_pos hspent] at hdeleted
    refine .inr (.inl ⟨?_, ?_⟩)
    · rw [hsecret, record_deleteUsers, hdeleted]
      rfl
    · simp only [CleanupService.spent, Bool.or_eq_true, decide_eq_true_eq] at hspent
      obtain hexpired | hviewed := hspent
      · exact .inl hexpired
      · exact .inr (by omega)
  | false =>
    rw [if_neg (by simp [hspent])] at hdeleted
    left
    constructor
    · rw [hsecret, record_deleteUsers, hdeleted]
      exact ⟨_, congrArg (Option.map _) hs, rfl⟩
    · intro policy h
      rw [hpolicy, record_deleteUsers, hdeleted]
      exact h

end PhantomShare.Service
