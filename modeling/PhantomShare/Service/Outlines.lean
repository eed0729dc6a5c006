import PhantomShare.Service.Requests

/-!
# The other handlers in outline

What is left of a handler when the bound already allows its calm steps and its audit
entries: the transactions that are its own.
-/
namespace PhantomShare
open Foundations

namespace Still
variable {T : ℕ → Label → World → World → Prop} {P : Platform} {α : Type} (still : Still T)
include still

/-! ### Who asks -/

theorem only_requireUser (credentials : Option String) :
    (Security.requireUser P credentials).Only T :=
  (still.only_getCurrentUser P credentials).bind fun _ => only_liftExcept _

theorem only_getCurrentUserOptional (credentials : Option String) :
    (Security.getCurrentUserOptional P credentials).Only T := by
  unfold Security.getCurrentUserOptional
  split
  · exact Program.only_pure none
  · apply (still.only_getCurrentUser P credentials).map.tryCatch
    intro error
    cases error with
    | http status detail =>
      simp only
      split
      · exact Program.only_pure none
      · exact Program.only_throw _
    | _ => exact Program.only_throw _

theorem only_asUser {credentials : Option String} {handler : CurrentUser → Handler α}
    (h : ∀ user, (handler user).Only T) : (Service.asUser P credentials handler).Only T :=
  (still.only_requireUser credentials).bind h

theorem only_asAnyone {credentials : Option String} {handler : Option CurrentUser → Handler α}
    (h : ∀ user, (handler user).Only T) : (Service.asAnyone P credentials handler).Only T :=
  (still.only_getCurrentUserOptional credentials).bind h

/-! ### Versions, keys and deletions -/

theorem only_updateSecret {id : UUID} {body : SecretUpdate} {user : CurrentUser} {clientIp : String}
    (hupdate : ∀ pid w (random : Random) newVersion db,
      (SecretVersions.updateTransaction P id body user clientIp random w.now).run w.db =
        .ok (newVersion, some db) →
        T pid (.updateSecret id) w (w.commit pid (.updated id body.content newVersion) db)) :
    (SecretVersions.updateSecret P id body user clientIp).Only T := by
  apply Program.Only.bind
  · apply still.only_transaction
    intro pid w choice newVersion db hrun
    exact hupdate pid w choice.random newVersion db hrun
  · intro newVersion
    exact still.only_clock.bind fun _ => Program.only_pure _

theorem only_restoreSecretVersion {id : UUID} {version : ℤ} {user : CurrentUser} {clientIp : String}
    (hrestore : ∀ pid w (random : Random) newVersion db,
      (SecretVersions.restoreTransaction P id version user clientIp random w.now).run w.db =
        .ok (newVersion, some db) →
        T pid (.restoreVersion id version) w (w.commit pid (.restored id version newVersion) db)) :
    (SecretVersions.restoreSecretVersion P id version user clientIp).Only T := by
  apply Program.Only.bind
  · apply still.only_transaction
    intro pid w choice newVersion db hrun
    exact hrestore pid w choice.random newVersion db hrun
  · intro newVersion
    exact still.only_clock.bind fun _ => Program.only_pure _

theorem only_storeUpdate {pendingId : UUID} {objectKey : ObjectKey} {body : FileUpdate}
    {encrypted : Files.Encrypted} {size : ℕ} {detail : String} {reservation : Reservation}
    {user : CurrentUser} {clientIp : String}
    (hpending : ∀ pid w (row : PendingUpload) db, w.db.insertPendingUpload row = .ok db →
      T pid (.pendingUpload row.objectKey) w (w.commit pid (.pendingUpload row.objectKey) db))
    (hupdate : ∀ pid w encryptedSize db, (FileVersions.updateTransaction pendingId objectKey body
      encrypted size encryptedSize detail user clientIp w.now).run w.db = .ok ((), some db) →
        T pid (.updateFile objectKey) w (w.commit pid (.updateFile objectKey) db)) :
    (FileVersions.storeUpdate pendingId objectKey body encrypted size detail reservation user
      clientIp).Only T := by
  apply Program.Only.bind
  · apply still.only_write
    intro pid w db hinsert
    exact hpending pid w _ db hinsert
  · intro _
    apply (still.only_upload _ _).bind
    intro encryptedSize
    apply still.only_transaction
    intro pid w choice value db hrun
    exact hupdate pid w encryptedSize db hrun

/-- The row is read and checked before the upload. -/
theorem only_updateFileSecret {secretId : UUID} {body : FileUpdate} {user : CurrentUser}
    {clientIp : String} (logs : Logs T)
    (hpending : ∀ pid w (row : PendingUpload) db, w.db.insertPendingUpload row = .ok db →
      T pid (.pendingUpload row.objectKey) w (w.commit pid (.pendingUpload row.objectKey) db))
    (hupdate : ∀ pid w pendingId objectKey encrypted size encryptedSize detail db,
      (FileVersions.updateTransaction pendingId objectKey body encrypted size encryptedSize detail
        user clientIp w.now).run w.db = .ok ((), some db) →
          T pid (.updateFile objectKey) w (w.commit pid (.updateFile objectKey) db)) :
    (FileVersions.updateFileSecret P secretId body user clientIp).Only T := by
  apply (still.only_query _ _).bind
  intro row
  cases row with
  | none => exact Program.only_throw _
  | some secret =>
    apply (only_liftExcept _).bind
    intro _
    apply still.only_uuid4.bind
    intro pendingId
    apply (only_liftExcept _).bind
    rintro ⟨plaintext, size⟩
    apply (still.only_scanUpload logs).bind
    intro detail
    apply (still.only_reserve _ _ _).bind
    intro reservation
    apply Program.Only.bind
    · apply Program.Only.tryCatch
      · apply still.only_urandom.bind
        intro random
        apply (only_liftExcept _).bind
        intro encrypted
        apply still.only_uuid4.bind
        intro nonce
        apply Program.Only.tryCatch
        · apply still.only_storeUpdate hpending
          intro pid w encryptedSize db hrun
          exact hupdate pid w pendingId _ encrypted size encryptedSize detail db hrun
        · intro error
          exact (still.only_discardObject _).bind fun _ => Program.only_throw _
      · intro error
        exact (still.only_release reservation).bind fun _ => Program.only_throw _
    · intro _
      apply Program.Only.bind
      · apply (still.only_commit _).tryCatch
        intro error
        exact (still.only_reconcileUser _).bind fun _ => Program.only_pure _
      · exact fun _ => Program.only_pure _

/-- The owner is checked on a row that is read before the transaction. -/
theorem only_rotateSecretKey {secretId : String} {user : CurrentUser} {clientIp : String}
    (logs : Logs T) (hrotate : ∀ pid w id (random : Random) keyVersion db,
      (KeyService.rotateKey P id random w.now).run w.db = .ok (keyVersion, some db) →
        T pid (.rotateKey id) w (w.commit pid (.rotateKey id) db)) :
    (Secrets.rotateSecretKey P secretId user clientIp).Only T := by
  apply (only_liftExcept _).bind
  intro id
  apply (still.only_query _ _).bind
  intro row
  cases row with
  | none => exact Program.only_throw _
  | some ownerId =>
    apply (only_liftExcept _).bind
    intro _
    apply Program.Only.bind
    · apply Program.Only.tryCatch
      · apply still.only_transaction
        intro pid w choice keyVersion db hrun
        exact hrotate pid w id choice.random keyVersion db hrun
      · exact fun error => Program.only_throw _
    · intro newVersion
      apply still.only_clock.bind
      intro now
      exact (still.only_auditLog logs _).bind fun _ => Program.only_pure _

theorem only_deleteByOwner {secretId : String} {user : CurrentUser} {clientIp : String}
    (hdelete : ∀ pid w id u db, (Secrets.deleteTransaction id user clientIp w.now).run w.db =
      .ok (u, some db) → T pid (.deleteSecret id) w (w.commit pid (.deleteSecret id) db)) :
    (Secrets.deleteSecret P secretId user clientIp).Only T := by
  apply (only_liftExcept _).bind
  intro id
  apply Program.Only.bind
  · apply still.only_transaction
    intro pid w choice value db hrun
    exact hdelete pid w id value db hrun
  · intro _
    apply Program.Only.tryCatch
    · exact (still.only_reconcileUser _).bind fun _ => Program.only_pure _
    · exact fun error => Program.only_pure _

theorem only_onExpired {secretId : UUID} (logs : Logs T)
    (hexpire : ∀ pid w deleted db, (CleanupService.expireTransaction secretId w.now).run w.db =
      .ok (deleted, some db) →
        T pid (.expireSecret secretId) w (w.commit pid (.expireSecret secretId) db)) :
    (CleanupService.onExpired secretId).Only T := by
  apply (still.only_expiredEvent secretId).bind
  intro _
  apply Program.Only.tryCatch
  · exact still.only_deleteSecret (still.only_auditLog logs) hexpire
  · exact fun error => Program.only_pure ()

/-! ### Accounts and sessions -/

theorem only_login {email password userAgent clientIp : String} (logs : Logs T)
    (hlogin : ∀ pid w hash sessions,
      T pid (.login hash) w (w.commit pid (.login hash) { w.db with sessions := sessions })) :
    (Auth.login P email password userAgent clientIp).Only T := by
  apply (still.only_query _ _).bind
  intro row
  cases row with
  | none => exact Program.only_throw _
  | some user =>
    apply (only_raiseIf _ _).bind
    intro _
    apply (only_raiseIf _ _).bind
    intro _
    apply still.only_uuid4.bind
    intro sessionId
    apply still.only_uuid4.bind
    intro accessJti
    apply still.only_uuid4.bind
    intro refreshJti
    apply still.only_clock.bind
    intro issuedAt
    apply Program.Only.bind
    · apply still.only_write
      intro pid w db hinsert
      obtain ⟨session, _, hinsert⟩ := FileCrypto.bind_eq_ok.mp hinsert
      obtain ⟨_, _, hinsert⟩ := FileCrypto.bind_eq_ok.mp hinsert
      obtain ⟨sessions, _, hdb⟩ := FileCrypto.bind_eq_ok.mp hinsert
      rw [← Except.ok.inj hdb]
      exact hlogin pid w _ sessions
    · intro _
      exact (still.only_auditLog logs _).bind fun _ => Program.only_pure _

theorem only_commitSession {label : Label} (hcommit : ∀ pid w sessions, T pid label w
      (Auth.discardWork pid (w.commit pid label { w.db with sessions := sessions }))) :
    (Auth.commitSession label).Only T := by
  apply Program.only_perform
  intro pid w choice w' r hact
  split at hact
  · cases hact
    exact still pid _ w w (Calm.refl pid w)
  · split at hact
    · cases hact
      exact still pid _ w w (Calm.refl pid w)
    · cases hact
      exact hcommit pid w _

/-- The body of a logout ends in a commit under the label of a logout. -/
theorem guarded_revoke (refreshes : Refreshes T) (sub : String) (sid : Option String)
    (hash : String) : (Auth.revoke P sub sid hash).Guarded (fun _ _ => True) T
      fun result => result.2 = .logout hash := by
  apply (only_liftExcept _).guarded.bind
  intro userId _
  apply (only_liftExcept _).guarded.bind
  intro sessionId _
  apply (still.only_revokeSession refreshes _ _).guarded.bind
  intro rowcount _
  apply (only_raiseIf _ _).guarded.bind
  intro _ _
  exact Program.guarded_pure rfl

theorem only_logout {refreshToken : String} {credentials : Option String} (logs : Logs T)
    (refreshes : Refreshes T) (hlogout : ∀ pid hash w sessions, T pid (.logout hash) w
      (Auth.discardWork pid (w.commit pid (.logout hash) { w.db with sessions := sessions }))) :
    (Auth.logout P refreshToken credentials).Only T := by
  apply (still.only_getCurrentUser P credentials).bind
  intro _
  apply still.only_clock.bind
  intro now
  apply (only_liftExcept _).bind
  intro payload
  apply (only_raiseIf _ _).bind
  intro _
  cases payload.sub with
  | none => exact Program.only_throw _
  | some sub =>
    apply (only_raiseIf _ _).bind
    intro _
    apply Program.Only.bind
    · apply Program.Only.tryCatch
      · apply (still.guarded_revoke refreshes sub payload.sid _).only_bind
        rintro ⟨value, label⟩ hlabel
        cases hlabel
        apply Program.Only.bind
        · exact still.only_commitSession fun pid w sessions => hlogout pid _ w sessions
        · exact fun _ => Program.only_pure _
      · intro error
        apply Program.Only.bind
        · apply Program.only_perform
          intro pid w choice w' r hact
          cases hact
          exact refreshes.work pid _ w _ _
        · exact fun _ => Program.only_throw _
    · exact fun _ => still.only_auditLog logs _

theorem only_changeRole {userId : UUID} {role : Role} {credentials : Option String}
    {clientIp : String} (logs : Logs T)
    (hchange : ∀ pid w callerId, T pid (.changeRole callerId userId role) w
      (w.commit pid (.changeRole callerId userId role) (w.db.updateRole userId role).2)) :
    (Admin.changeRole P userId role credentials clientIp).Only T := by
  apply (still.only_requireAdmin credentials).bind
  intro caller
  apply (only_raiseIf _ _).bind
  intro _
  apply Program.Only.bind
  · apply still.only_transaction
    intro pid w choice row db hrun
    cases hrun
    exact hchange pid w caller.id
  · intro row
    cases row with
    | none => exact Program.only_throw _
    | some user => exact (still.only_auditLog logs _).bind fun _ => Program.only_pure _

end Still
end PhantomShare
