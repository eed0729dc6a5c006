import PhantomShare.Outlines

/-!
# What a transaction leaves of secrets and users

Outside a creation no secret appears and no expiry moves, and outside a switch no
user's activation or deletion date does. A secret that a creation inserts gets its
expiry from the trigger.
-/
namespace PhantomShare.Background
open Foundations
open FileCrypto (bind_eq_ok)

/-- Every secret was there before, with the same expiry, or is `due`. -/
def SecretsFade (due : UUID → Timestamp → Prop) (db db' : Database) : Prop :=
  ∀ id s', db'.secrets.find id = some s' →
    (∃ s, db.secrets.find id = some s ∧ s.expiresAt = s'.expiresAt) ∨ due id s'.expiresAt

/-- Every user was there before, with the same activation and deletion date. -/
def UsersFade (db db' : Database) : Prop :=
  ∀ id u', db'.users.find id = some u' → ∃ u, db.users.find id = some u ∧
    u.isActive = u'.isActive ∧ u.deleteAfter = u'.deleteAfter

structure Fades (due : UUID → Timestamp → Prop) (db db' : Database) : Prop where
  secrets : SecretsFade due db db'
  users : UsersFade db db'

namespace Fades
variable {due : UUID → Timestamp → Prop} {db db' : Database}

theorem refl (db : Database) : Fades due db db where
  secrets _ s' h := Or.inl ⟨s', h, rfl⟩
  users _ u' h := ⟨u', h, rfl, rfl⟩

theorem trans {a b c : Database} (hab : Fades due a b) (hbc : Fades due b c) : Fades due a c where
  secrets id s₂ h₂ := by
    rcases hbc.secrets id s₂ h₂ with ⟨s₁, h₁, hsame⟩ | hdue
    · rw [← hsame]
      exact hab.secrets id s₁ h₁
    · exact Or.inr hdue
  users id u₂ h₂ := by
    rcases hbc.users id u₂ h₂ with ⟨u₁, h₁, hactive₁, hdelete₁⟩
    rcases hab.users id u₁ h₁ with ⟨u, h, hactive, hdelete⟩
    exact ⟨u, h, hactive.trans hactive₁, hdelete.trans hdelete₁⟩

instance : IsPreorder Database (Fades due) where
  refl := refl
  trans _ _ _ := trans

theorem of_eq (hsecrets : db'.secrets = db.secrets) (husers : db'.users = db.users) :
    Fades due db db' where
  secrets _ s' h := Or.inl ⟨s', hsecrets ▸ h, rfl⟩
  users _ u' h := ⟨u', husers ▸ h, rfl, rfl⟩

/-! ### Statements -/

theorem insertAuditLog {now : Timestamp} {action : String} {actorId : Option UUID}
    {actorIp : Option String} {secretId : Option UUID} {metadata : List (String × Json)}
    (h : db.insertAuditLog now action actorId actorIp secretId metadata = .ok db') :
    Fades due db db' := by
  rcases Database.insertAuditLog_ok h with ⟨_, _, row, rfl⟩
  exact of_eq rfl rfl

/-- The trigger computes the expiry of a new row. -/
theorem insertSecret {row : Secret} (h : db.insertSecret row = .ok db')
    (hdue : due row.id (row.createdAt + hours row.ttlHours)) : Fades due db db' := by
  rcases Database.insertSecret_ok h with ⟨secrets, hinsert, rfl⟩
  refine ⟨?_, fun _ u' h => ⟨u', h, rfl, rfl⟩⟩
  intro id s' hfind
  rw [Table.find_of_insert hinsert] at hfind
  split at hfind
  · rename_i hid
    cases hfind
    right
    rw [hid]
    exact hdue
  · exact Or.inl ⟨s', hfind, rfl⟩

theorem updateSecret (db : Database) (id : UUID) (f : Secret → Secret) (hf : ∀ r, (f r).id = r.id)
    (hexpiry : ∀ r, (f r).expiresAt = r.expiresAt) : Fades due db (db.updateSecret id f hf) := by
  refine ⟨?_, fun _ u' h => ⟨u', h, rfl, rfl⟩⟩
  intro id' s' hfind
  rw [Database.updateSecret, Table.find_modify] at hfind
  split at hfind
  · rename_i hid
    rcases Option.map_eq_some_iff.mp hfind with ⟨s, hs, rfl⟩
    rw [hid]
    exact Or.inl ⟨s, hs, (hexpiry s).symm⟩
  · exact Or.inl ⟨s', hfind, rfl⟩

theorem deleteSecrets (now : Timestamp) (p : Secret → Bool) (db : Database) :
    Fades due db (db.deleteSecrets now p) := by
  rcases Database.deleteSecrets_frame now p db with ⟨_, _, _, hframe⟩
  rw [hframe]
  refine ⟨?_, fun _ u' h => ⟨u', h, rfl, rfl⟩⟩
  intro id s' hfind
  rw [Table.find_deleteWhere] at hfind
  exact Or.inl ⟨s', (Option.filter_eq_some_iff.mp hfind).1, rfl⟩

theorem updateViewCount {now : Timestamp} {id : UUID} {count : ℤ} {viewed : Bool}
    (h : db.updateViewCount now id count viewed = .ok db') : Fades due db db' := by
  unfold Database.updateViewCount at h
  split at h
  · cases h
    exact refl db
  · split at h
    · cases h
    · split at h
      · rcases bind_eq_ok.mp h with ⟨logged, hlog, hdelete⟩
        rw [← Except.ok.inj hdelete]
        have hlogged : Fades due _ logged := insertAuditLog hlog
        apply trans _ (hlogged.trans (deleteSecrets now _ logged))
        exact updateSecret db id _ _ fun _ => rfl
      · rw [← Except.ok.inj h]
        exact updateSecret db id _ _ fun _ => rfl

theorem insertView {row : SecretView} {n : ℕ} (h : db.insertView row = .ok (n, db')) :
    Fades due db db' := by
  rcases Database.insertView_frame h with ⟨views, rfl⟩
  exact of_eq rfl rfl

theorem deleteUsers (p : User → Bool) (db : Database) : Fades due db (db.deleteUsers p) where
  secrets id s' h := by
    rw [Database.deleteUsers, Table.find_mapRows] at h
    rcases Option.map_eq_some_iff.mp h with ⟨s, hs, rfl⟩
    exact Or.inl ⟨s, hs, rfl⟩
  users id u' h := by
    rw [Database.deleteUsers, Table.find_deleteWhere] at h
    exact ⟨u', (Option.filter_eq_some_iff.mp h).1, rfl, rfl⟩

end Fades

/-! ### Transactions -/

section Transactions
variable {P : Platform} {due : UUID → Timestamp → Prop} {db db' : Database}

theorem fades_logWith (entry : AuditService.Entry) (now : Timestamp) :
    (AuditService.logWith entry now).Preserves (Fades due) := by
  apply Tx.Preserves.quietly
  apply Tx.preserves_write
  intro db db' h
  exact .insertAuditLog h

theorem fades_retrieve {id : UUID} {policy : Option SecretAccessPolicy} {policyVersion : ℕ}
    {accessPassword : Option String} {clientIp : String} {currentUser : Option CurrentUser}
    {now : Timestamp} {seen : Secrets.Seen}
    (h : (Secrets.retrieveTransaction P id policy policyVersion accessPassword clientIp currentUser
      now).run db = .ok (seen, some db')) : Fades due db db' := by
  rcases Secrets.retrieveTransaction_ok h with
    ⟨_, _, _, _, viewedDb, logs, _, _, hview, hcount, hcommitted⟩
  cases hcommitted
  have hlogged : Fades due viewedDb { viewedDb with auditLogs := logs } := .of_eq rfl rfl
  exact (Fades.insertView hview).trans (hlogged.trans (.updateViewCount hcount))

theorem fades_download {secretId : UUID} {policy : Option SecretAccessPolicy}
    {version policyVersion : ℕ} {encrypted : Bytes} {clientIp : String}
    {currentUser : Option CurrentUser} {now : Timestamp} {opened : Files.Opened}
    (h : (Files.downloadTransaction P secretId policy version policyVersion encrypted clientIp
      currentUser now).run db = .ok (opened, some db')) : Fades due db db' := by
  rcases Files.downloadTransaction_ok h with ⟨_, _, _, _, _, _, _, _, hview, hcount, hcommitted⟩
  apply (Fades.insertView hview).trans
  apply (Fades.updateViewCount hcount).trans
  cases hlog : Database.insertAuditLog _ _ _ _ _ _ _ with
  | error error =>
    rw [hlog] at hcommitted
    cases hcommitted
  | ok logged =>
    rw [hlog] at hcommitted
    cases hcommitted
    exact .insertAuditLog hlog

theorem fades_policy (id : UUID) (body : LocationPolicyUpdate) (user : CurrentUser)
    (clientIp : String) (now : Timestamp) :
    (SecretAccess.policyTransaction P id body user clientIp now).Preserves (Fades due) := by
  apply (Tx.preserves_select _).bind
  intro row
  cases row with
  | none => exact Tx.preserves_throw _
  | some secret =>
    apply (Tx.preserves_select _).bind
    intro policy
    cases policy with
    | none => exact Tx.preserves_throw _
    | some policy =>
      apply (Tx.preserves_ofExcept _).bind
      intro _
      apply Tx.Preserves.bind
      · apply Tx.preserves_write
        intro db db' h
        cases h
        exact .of_eq rfl rfl
      · intro _
        apply Tx.Preserves.bind
        · apply Tx.preserves_write
          intro db db' h
          cases h
          exact .updateSecret _ _ _ _ fun _ => rfl
        · intro _
          exact (fades_logWith _ now).bind fun _ => Tx.preserves_pure _

theorem fades_sweep (now : Timestamp) :
    (CleanupService.sweepTransaction now).Preserves (Fades due) := by
  apply preserves_sweepTransaction
  · exact Fades.deleteSecrets now _
  · exact Fades.deleteUsers _
  · exact fun db => .of_eq rfl rfl
  · exact fun db => .of_eq rfl rfl

theorem fades_expire (secretId : UUID) (now : Timestamp) :
    (CleanupService.expireTransaction secretId now).Preserves (Fades due) := by
  apply (Tx.preserves_select _).bind
  intro deleted
  apply Tx.Preserves.bind
  · apply Tx.preserves_write
    intro db db' h
    cases h
    exact .deleteSecrets now _ db
  · intro _
    exact Tx.preserves_pure _

/-- The secret of a creation is due after its lifetime. -/
theorem fades_create {id : UUID} {body : SecretCreate} {ownerId : UUID} {clientIp : String}
    {random : Random} {now : Timestamp} (hdue : due id (now + hours body.ttlHours)) :
    (Secrets.createTransaction P id body ownerId clientIp random now).Preserves (Fades due) := by
  apply (Tx.preserves_ofExcept _).bind
  intro prepared
  apply Tx.Preserves.bind
  · apply Tx.preserves_write
    intro db db' h
    exact .insertSecret h hdue
  intro _
  apply Tx.Preserves.bind
  · cases prepared.key with
    | none => exact Tx.preserves_pure ()
    | some key =>
      apply Tx.preserves_write
      intro db db' h
      rcases Database.insertSecretKey_ok h with ⟨_, keys, _, rfl⟩
      exact .of_eq rfl rfl
  intro _
  apply Tx.Preserves.bind
  · apply Tx.preserves_write
    intro db db' h
    rcases Database.insertSecretVersion_ok h with ⟨_, _, versions, _, rfl⟩
    exact .of_eq rfl rfl
  intro _
  apply Tx.Preserves.bind
  · cases body.allowedEmails with
    | none => exact Tx.preserves_pure ()
    | some emails =>
      apply Tx.preserves_write
      intro db db' h
      rcases Database.insertRecipients_frame h with ⟨recipients, rfl⟩
      exact .of_eq rfl rfl
  intro _
  apply Tx.Preserves.bind
  · apply Tx.preserves_write
    intro db db' h
    rcases Database.insertPolicy_frame h with ⟨policies, rfl⟩
    exact .of_eq rfl rfl
  intro _
  apply Tx.Preserves.bind
  · apply Tx.preserves_write
    intro db db' h
    rcases Database.insertTracking_frame h with ⟨tracking, rfl⟩
    exact .of_eq rfl rfl
  intro _
  apply Tx.Preserves.bind
  · apply Tx.preserves_write
    intro db db' h
    cases h
    exact .updateSecret _ _ _ _ fun _ => rfl
  intro _
  exact (fades_logWith _ now).bind fun _ => Tx.preserves_pure _

theorem fades_createFile {pendingId : UUID} {objectKey : ObjectKey} {body : FileCreate}
    {access : Files.FileAccess} {encrypted : Files.Encrypted} {size encryptedSize : ℕ}
    {detail : String} {ownerId : UUID} {signedToken : String} {now : Timestamp}
    (hdue : due objectKey.secretId (now + hours body.ttlHours)) :
    (Files.createTransaction P pendingId objectKey body access encrypted size encryptedSize detail
      ownerId signedToken now).Preserves (Fades due) := by
  apply Tx.Preserves.bind
  · apply Tx.preserves_write
    intro db db' h
    exact .insertSecret h hdue
  intro _
  apply Tx.Preserves.bind
  · apply Tx.preserves_write
    intro db db' h
    rcases Database.insertSecretKey_ok h with ⟨_, keys, _, rfl⟩
    exact .of_eq rfl rfl
  intro _
  apply Tx.Preserves.bind
  · apply Tx.preserves_write
    intro db db' h
    rcases Database.insertSecretVersion_ok h with ⟨_, _, versions, _, rfl⟩
    exact .of_eq rfl rfl
  intro _
  apply Tx.Preserves.bind
  · apply Tx.preserves_write
    intro db db' h
    rcases Database.insertRecipients_frame h with ⟨recipients, rfl⟩
    exact .of_eq rfl rfl
  intro _
  apply Tx.Preserves.bind
  · apply Tx.preserves_write
    intro db db' h
    rcases Database.insertPolicy_frame h with ⟨policies, rfl⟩
    exact .of_eq rfl rfl
  intro _
  apply Tx.Preserves.bind
  · apply Tx.preserves_write
    intro db db' h
    rcases Database.insertTracking_frame h with ⟨tracking, rfl⟩
    exact .of_eq rfl rfl
  intro _
  apply Tx.preserves_write
  intro db db' h
  cases h
  exact .of_eq rfl rfl

end Transactions
end PhantomShare.Background
