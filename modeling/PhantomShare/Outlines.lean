import PhantomShare.Footprints
import PhantomShare.Routers.Admin
import PhantomShare.Routers.Auth
import PhantomShare.Routers.Files
import PhantomShare.Routers.SecretAccess

/-!
# Handlers in outline

Between its transactions a handler only does calm steps and writes audit entries.
A bound that allows these is a bound on the handler as soon as it is one on the
handler's own transactions.
-/
namespace PhantomShare
open Foundations

section
variable {T : ℕ → Label → World → World → Prop} {P : Platform}

/-- The bound allows every audit entry. -/
def Logs (T : ℕ → Label → World → World → Prop) : Prop :=
  ∀ pid w (entry : AuditService.Entry) db, entry.insert w.now w.db = .ok db →
    T pid .auditLog w (w.commit pid .auditLog db)

/-- The bound allows the statements of an open transaction on `sessions` and the commit of a
refresh. -/
structure Refreshes (T : ℕ → Label → World → World → Prop) : Prop where
  work : ∀ pid label w locks inserts,
    T pid label w { w with sessionLocks := locks, sessionInserts := inserts }
  commit : ∀ pid hash newHash w sessions, T pid (.refresh hash newHash) w (Auth.discardWork pid
    (w.commit pid (.refresh hash newHash) { w.db with sessions := sessions }))

namespace Still
variable (still : Still T)
include still

theorem only_auditLog (logs : Logs T) (entry : AuditService.Entry) :
    (AuditService.log entry).Only T :=
  only_log still fun pid w db => logs pid w entry db

/-- An audit entry in a transaction of its own on the handler's connection. -/
theorem only_logWith (logs : Logs T) (entry : AuditService.Entry) :
    (transaction .auditLog fun _ now => AuditService.logWith entry now).Only T := by
  apply still.only_transaction
  intro pid w choice value db hrun
  rcases Tx.run_ok hrun with ⟨c, hbody, hcommitted⟩
  rcases Tx.quietly_write_ok hbody with ⟨haborted, _⟩ | ⟨_, hlive, hinsert⟩
  · simp [haborted] at hcommitted
  · simp only [hlive, Bool.false_eq_true, if_false, Option.some.injEq] at hcommitted
    rw [hcommitted]
    exact logs pid w entry c.db hinsert

theorem only_reserve (userId : UUID) (secrets fileBytes : ℤ) :
    (QuotaService.reserve P userId secrets fileBytes).Only T := by
  apply (still.only_durableUsage userId).bind
  intro usage
  apply (still.only_query _ _).bind
  intro limits
  apply still.only_uuid4.bind
  intro reservationId
  apply (still.only_redisCall _ _).bind
  intro result
  apply (only_liftExcept _).bind
  intro reply
  apply (only_raiseIf _ _).bind
  intro _
  exact Program.only_pure _

theorem only_commit (reservation : Reservation) : (QuotaService.commit reservation).Only T :=
  still.only_redisCall _ _

theorem only_urandom : urandom.Only T := by
  apply Program.only_perform
  intro pid w choice w' r hact
  simp only [Option.some.injEq, Prod.mk.injEq] at hact
  exact still pid _ w w' (hact.1 ▸ Calm.refl pid w)

theorem only_scan (plaintext : Bytes) : (ClamavService.scan plaintext).Only T := by
  rw [ClamavService.scan, ClamavService.instream_eq]
  apply Program.only_perform
  intro pid w choice w' r hact
  apply still
  cases hfails : choice.fails <;> simp only [hfails, if_true, Bool.false_eq_true, if_false,
    Option.some.injEq, Prod.mk.injEq] at hact <;> rw [← hact.1] <;> exact Calm.refl pid w

theorem only_upload (content : Bytes) (key : ObjectKey) :
    (StorageService.upload content key).Only T := by
  apply Program.only_perform
  intro pid w choice w' r hact
  apply still
  cases hfails : choice.fails <;> cases hlanded : choice.landed <;> simp only [hfails, hlanded,
    if_true, Bool.false_eq_true, if_false, Option.some.injEq, Prod.mk.injEq] at hact <;>
    rw [← hact.1]
  · exact Calm.setObjects pid w _
  · exact Calm.setObjects pid w _
  · exact Calm.refl pid w
  · exact Calm.setObjects pid w _

theorem only_download (key : ObjectKey) : (StorageService.download key).Only T := by
  apply Program.only_perform
  intro pid w choice w' r hact
  apply still
  cases hfails : choice.fails <;> cases hfind : w.objects.find key <;> simp only [hfails, hfind,
    if_true, Bool.false_eq_true, if_false, Option.some.injEq, Prod.mk.injEq] at hact <;>
    rw [← hact.1] <;> exact Calm.refl pid w

theorem only_discardObject (key : ObjectKey) : (Files.discardObject key).Only T :=
  (still.only_delete key).tryCatch fun _ => Program.only_pure ()

theorem only_requireAdmin (credentials : Option String) :
    (Admin.requireAdmin P credentials).Only T := by
  apply (still.only_getCurrentUser P credentials).bind
  intro user
  exact only_liftExcept _

/-! ### Text secrets -/

theorem only_createSecret {body : SecretCreate} {user : CurrentUser} {clientIp : String}
    (hset : ∀ id, (CleanupService.scheduleExpiry id (body.ttlHours * 3600)).Only T)
    (hcreate : ∀ pid w (choice : Choice) id signedToken db, (Secrets.createTransaction P id body user.id clientIp
      choice.random w.now).run w.db = .ok (signedToken, some db) →
        T pid .createSecret w (w.commit pid (.created id body.content) db)) :
    (Secrets.createSecret P body user clientIp).Only T := by
  apply (still.only_reserve _ _ _).bind
  intro reservation
  apply still.only_uuid4.bind
  intro id
  apply Program.Only.bind
  · apply Program.Only.tryCatch
    · apply still.only_transaction
      intro pid w choice signedToken db hrun
      exact hcreate pid w choice id signedToken db hrun
    · intro error
      exact (still.only_release reservation).bind fun _ => Program.only_throw _
  · intro signedToken
    apply (still.only_commit reservation).bind
    intro _
    apply ((hset id).tryCatch fun _ => Program.only_pure ()).bind
    intro _
    apply (still.only_query _ _).bind
    intro row
    cases row with
    | none => exact Program.only_throw _
    | some expiresAt => exact Program.only_pure _

theorem only_retrieveSecret {secretId : String} {accessPassword token : Option String}
    {clientIp : String} {currentUser : Option CurrentUser}
    (hdenied : ∀ entry : AuditService.Entry, entry.action = "invalid_token" →
      (AuditService.log entry).Only T)
    (hretrieve : ∀ pid w id policy policyVersion seen db, (Secrets.retrieveTransaction P id policy
      policyVersion accessPassword clientIp currentUser w.now).run w.db = .ok (seen, some db) →
        T pid (.retrieve id policyVersion (policy.map SecretAccessPolicy.policyVersion)) w
          (w.commit pid (.retrieved id (seen.content.getD "") seen.secret.currentVersion) db)) :
    (Secrets.retrieveSecret P secretId accessPassword token clientIp currentUser).Only T := by
  apply Program.Only.bind
  · apply Program.Only.tryCatch
    · apply (only_liftExcept _).bind
      intro id
      exact (only_authorize' still hdenied P id token clientIp).bind fun _ => Program.only_pure _
    · intro error
      cases error <;> exact Program.only_throw _
  · intro authorized
    apply (still.only_query _ _).bind
    intro policy
    apply Program.Only.bind
    · apply still.only_transaction
      intro pid w choice seen db hrun
      exact hretrieve pid w _ policy _ seen db hrun
    · intro seen
      cases seen.content with
      | none => exact Program.only_throw _
      | some content => exact Program.only_pure _

theorem only_updateLocationPolicy {id : UUID} {body : LocationPolicyUpdate} {user : CurrentUser}
    {clientIp : String}
    (hpolicy : ∀ pid w result db, (SecretAccess.policyTransaction P id body user clientIp w.now).run
      w.db = .ok (result, some db) →
        T pid (.updatePolicy id) w (w.commit pid (.updatePolicy id) db)) :
    (SecretAccess.updateLocationPolicy P id body user clientIp).Only T := by
  apply Program.Only.bind
  · apply still.only_transaction
    intro pid w choice result db hrun
    exact hpolicy pid w result db hrun
  · rintro ⟨policyVersion, token, payloadType⟩
    exact Program.only_pure _

/-! ### File secrets -/

theorem only_downloadFileSecret {secretId : UUID} {token accessPassword : Option String}
    {clientIp : String} {currentUser : Option CurrentUser}
    (hdenied : ∀ entry : AuditService.Entry, entry.action = "invalid_token" →
      (AuditService.log entry).Only T)
    (hdownload : ∀ pid w policy version policyVersion encrypted opened db,
      (Files.downloadTransaction P secretId policy version policyVersion encrypted clientIp currentUser
        w.now).run w.db = .ok (opened, some db) →
        T pid (.download secretId version policyVersion
            (policy.map SecretAccessPolicy.policyVersion) encrypted) w
          (w.commit pid (.downloaded secretId opened.secret.currentVersion) db)) :
    (Files.downloadFileSecret P secretId token accessPassword clientIp currentUser).Only T := by
  apply (only_authorize' still hdenied P secretId token clientIp).bind
  intro policyVersion
  apply (still.only_query _ _).bind
  intro row
  cases row with
  | none => exact Program.only_throw _
  | some found =>
    apply Program.Only.bind
    · apply Program.Only.bind
      · unfold Files.checkRecipient
        split
        · cases currentUser with
          | none => exact Program.only_throw _
          | some user =>
            apply (only_raiseIf _ _).bind
            intro _
            exact (still.only_query _ _).bind fun _ => only_raiseIf _ _
        · exact Program.only_pure ()
      · intro _
        exact only_raiseIf _ _
    · intro _
      apply (only_raiseIf _ _).bind
      intro _
      apply still.only_clock.bind
      intro now
      apply (only_raiseIf _ _).bind
      intro _
      apply (still.only_query _ _).bind
      intro stored
      cases stored with
      | none => exact Program.only_throw _
      | some versionRow =>
        cases hkey : versionRow.objectKey with
        | none =>
          simp only [hkey]
          exact Program.only_throw _
        | some objectKey =>
          simp only [hkey]
          apply (still.only_download objectKey).bind
          intro encrypted
          apply (still.only_query _ _).bind
          intro policy
          apply Program.Only.bind
          · apply still.only_transaction
            intro pid w choice opened db hrun
            exact hdownload pid w policy _ _ encrypted opened db hrun
          · intro opened
            exact Program.only_pure _

theorem only_scanUpload {plaintext : Bytes} {size : ℕ} {user : CurrentUser} {clientIp : String}
    (logs : Logs T) : (Files.scanUpload plaintext size user clientIp).Only T := by
  apply (still.only_scan _).bind
  rintro ⟨status, detail⟩
  cases status with
  | clean => exact (Program.only_pure ()).bind fun _ => Program.only_pure _
  | infected =>
    apply (still.only_auditLog logs _).bind
    intro _
    exact (Program.only_throw _).bind fun _ => Program.only_pure _

theorem only_storeCreation {pendingId : UUID} {objectKey : ObjectKey} {body : FileCreate}
    {encrypted : Files.Encrypted} {size : ℕ} {detail : String} {reservation : Reservation}
    {user : CurrentUser} {clientIp : String} (logs : Logs T)
    (hpending : ∀ pid w (row : PendingUpload) db, w.db.insertPendingUpload row = .ok db →
      T pid (.pendingUpload row.objectKey) w (w.commit pid (.pendingUpload row.objectKey) db))
    (hcreate : ∀ pid w access encryptedSize signedToken db, (Files.createTransaction P pendingId
      objectKey body access encrypted size encryptedSize detail user.id signedToken w.now).run w.db =
        .ok ((), some db) → T pid (.createFile objectKey) w (w.commit pid (.createFile objectKey) db)) :
    (Files.storeCreation P pendingId objectKey body encrypted size detail reservation user
      clientIp).Only T := by
  apply Program.Only.bind
  · apply still.only_write
    intro pid w db hinsert
    exact hpending pid w _ db hinsert
  · intro _
    apply (still.only_upload _ _).bind
    intro encryptedSize
    apply (only_liftExcept _).bind
    intro access
    apply still.only_clock.bind
    intro now
    apply Program.Only.bind
    · apply still.only_transaction
      intro pid w choice value db hrun
      exact hcreate pid w access encryptedSize _ db hrun
    · intro _
      exact (still.only_logWith logs _).bind fun _ => Program.only_pure _

theorem only_createFileSecret {body : FileCreate} {user : CurrentUser} {clientIp : String}
    (logs : Logs T) (hset : ∀ id, (CleanupService.scheduleExpiry id (body.ttlHours * 3600)).Only T)
    (hpending : ∀ pid w (row : PendingUpload) db, w.db.insertPendingUpload row = .ok db →
      T pid (.pendingUpload row.objectKey) w (w.commit pid (.pendingUpload row.objectKey) db))
    (hcreate : ∀ pid w pendingId objectKey access encrypted size encryptedSize detail signedToken db,
      (Files.createTransaction P pendingId objectKey body access encrypted size encryptedSize detail
        user.id signedToken w.now).run w.db = .ok ((), some db) →
        T pid (.createFile objectKey) w (w.commit pid (.createFile objectKey) db)) :
    (Files.createFileSecret P body user clientIp).Only T := by
  apply (still.only_reserve _ _ _).bind
  intro secretReservation
  apply still.only_uuid4.bind
  intro pendingId
  apply Program.Only.bind
  · apply Program.Only.tryCatch
    · apply (only_liftExcept _).bind
      rintro ⟨plaintext, size⟩
      apply (still.only_scanUpload logs).bind
      intro detail
      apply (still.only_reserve _ _ _).bind
      intro reservation
      apply Program.Only.bind
      · apply Program.Only.tryCatch
        · apply still.only_uuid4.bind
          intro secretId
          apply still.only_urandom.bind
          intro random
          apply (only_liftExcept _).bind
          intro encrypted
          apply still.only_uuid4.bind
          intro nonce
          apply Program.Only.bind
          · apply Program.Only.tryCatch
            · apply still.only_storeCreation logs hpending
              intro pid w access encryptedSize signedToken db hrun
              exact hcreate pid w pendingId _ access encrypted size encryptedSize detail signedToken db
                hrun
            · intro error
              exact (still.only_discardObject _).bind fun _ => Program.only_throw _
          · intro signedToken
            exact Program.only_pure _
        · intro error
          exact (still.only_release _).bind fun _ => Program.only_throw _
      · intro created
        exact Program.only_pure _
    · intro error
      exact (still.only_release _).bind fun _ => Program.only_throw _
  · rintro ⟨secretId, signedToken, size, byteReservation⟩
    apply Program.Only.bind
    · apply Program.Only.tryCatch
      · exact (still.only_commit _).bind fun _ => still.only_commit _
      · intro error
        exact (still.only_reconcileUser _).bind fun _ => Program.only_pure _
    · intro _
      exact ((hset secretId).tryCatch fun _ => Program.only_pure ()).bind fun _ => Program.only_pure _

/-! ### Sessions and administration -/

theorem only_revokeSession (refreshes : Refreshes T) (label : Label) (wanted : Session → Bool) :
    (Auth.revokeSession label wanted).Only T := by
  apply Program.only_perform
  intro pid w choice w' r hact
  by_cases hfails : choice.fails = true
  · simp only [if_pos hfails, Option.some.injEq, Prod.mk.injEq] at hact
    exact still pid _ w w' (hact.1 ▸ Calm.refl pid w)
  · rw [if_neg hfails] at hact
    split at hact
    · cases hact
      exact still pid _ w w (Calm.refl pid w)
    · split at hact
      · cases hact
      · cases hact
        exact refreshes.work pid label w _ w.sessionInserts

theorem only_insertSessionStatement (refreshes : Refreshes T) (hash : String)
    (row : Timestamp → Except Exn Session) : (Auth.insertSessionStatement hash row).Only T := by
  apply Program.only_perform
  intro pid w choice w' r hact
  by_cases hfails : choice.fails = true
  · simp only [if_pos hfails, Option.some.injEq, Prod.mk.injEq] at hact
    exact still pid _ w w' (hact.1 ▸ Calm.refl pid w)
  · rw [if_neg hfails] at hact
    split at hact
    · cases hact
      exact still pid _ w w (Calm.refl pid w)
    · split at hact
      · cases hact
        exact still pid _ w w (Calm.refl pid w)
      · cases hact
        exact refreshes.work pid _ w w.sessionLocks _

theorem only_commitRefresh (refreshes : Refreshes T) (hash newHash : String) :
    (Auth.commitSession (.refresh hash newHash)).Only T := by
  apply Program.only_perform
  intro pid w choice w' r hact
  by_cases hfails : choice.fails = true
  · simp only [if_pos hfails, Option.some.injEq, Prod.mk.injEq] at hact
    exact still pid _ w w' (hact.1 ▸ Calm.refl pid w)
  · rw [if_neg hfails] at hact
    split at hact
    · cases hact
      exact still pid _ w w (Calm.refl pid w)
    · cases hact
      exact refreshes.commit pid hash newHash w _

/-- The body of a refresh ends in a commit under the label of a refresh. -/
theorem guarded_rotate (refreshes : Refreshes T) (hash userAgent clientIp : String) :
    (Auth.rotate P hash userAgent clientIp).Guarded (fun _ _ => True) T
      fun result => ∃ newHash, result.2 = .refresh hash newHash := by
  apply (still.only_query _ _).guarded.bind
  intro row _
  cases row with
  | none => exact Program.guarded_throw _
  | some found =>
    apply still.only_uuid4.guarded.bind
    intro newSessionId _
    apply still.only_uuid4.guarded.bind
    intro accessJti _
    apply still.only_uuid4.guarded.bind
    intro refreshJti _
    apply still.only_clock.guarded.bind
    intro issuedAt _
    apply (still.only_revokeSession refreshes _ _).guarded.bind
    intro _ _
    apply (still.only_insertSessionStatement refreshes _ _).guarded.bind
    intro _ _
    exact Program.guarded_pure ⟨_, rfl⟩

theorem only_refreshTokenEndpoint {refreshToken userAgent clientIp : String} (logs : Logs T)
    (refreshes : Refreshes T) :
    (Auth.refreshTokenEndpoint P refreshToken userAgent clientIp).Only T := by
  apply still.only_clock.bind
  intro now
  apply (only_liftExcept _).bind
  intro payload
  apply (only_raiseIf _ _).bind
  intro _
  apply Program.Only.bind
  · apply Program.Only.tryCatch
    · apply (still.guarded_rotate refreshes _ userAgent clientIp).only_bind
      rintro ⟨value, label⟩ ⟨newHash, hlabel⟩
      cases hlabel
      exact (still.only_commitRefresh refreshes _ newHash).bind fun _ => Program.only_pure _
    · intro error
      apply Program.Only.bind
      · apply Program.only_perform
        intro pid w choice w' r hact
        cases hact
        exact refreshes.work pid _ w _ _
      · intro _
        exact Program.only_throw _
  · rintro ⟨userId, response⟩
    exact (still.only_auditLog logs _).bind fun _ => Program.only_pure _

theorem only_switchUserActivation {userId : UUID} {credentials : Option String} {clientIp : String}
    (hlog : ∀ entry, (AuditService.log entry).Only T)
    (hswitch : ∀ pid w callerId started, T pid (.switchActivation callerId userId started) w
      (w.commit pid (.switchActivation callerId userId started) (w.db.switchActive started userId).2)) :
    (Admin.switchUserActivation P userId credentials clientIp).Only T := by
  apply (still.only_requireAdmin credentials).bind
  intro caller
  apply (only_raiseIf _ _).bind
  intro _
  apply still.only_startTransaction.bind
  intro started
  apply Program.Only.bind
  · apply still.only_transaction
    intro pid w choice row db hrun
    cases hrun
    exact hswitch pid w caller.id started
  · intro row
    cases row with
    | none => exact Program.only_throw _
    | some user => exact (hlog _).bind fun _ => Program.only_pure _

theorem only_cleanupExpired {credentials : Option String} {clientIp : String}
    (hlog : ∀ entry, (AuditService.log entry).Only T) (hsweep : CleanupService.fallbackSweep.Only T) :
    (Admin.cleanupExpired P credentials clientIp).Only T := by
  apply (still.only_requireAdmin credentials).bind
  intro caller
  apply hsweep.bind
  intro result
  exact (hlog _).bind fun _ => Program.only_pure _

/-! ### Expiry events -/

theorem only_expiredEvent (secretId : UUID) : (CleanupService.expiredEvent secretId).Only T := by
  apply Program.only_perform
  intro pid w choice w' r hact
  split at hact
  · cases hact
    exact still pid _ w w (Calm.refl pid w)
  · cases hact

theorem only_deleteSecret {secretId : UUID} (hlog : ∀ entry, (AuditService.log entry).Only T)
    (hexpire : ∀ pid w deleted db, (CleanupService.expireTransaction secretId w.now).run w.db =
      .ok (deleted, some db) →
        T pid (.expireSecret secretId) w (w.commit pid (.expireSecret secretId) db)) :
    (CleanupService.deleteSecret secretId).Only T := by
  apply (still.only_acquireLock _ _).bind
  intro token
  cases token with
  | none => exact Program.only_pure ()
  | some token =>
    apply Program.Only.ensuring
    · apply Program.Only.bind
      · apply still.only_transaction
        intro pid w choice deleted db hrun
        exact hexpire pid w deleted db hrun
      · intro deleted
        cases deleted with
        | none => exact Program.only_pure ()
        | some ownerId =>
          apply (hlog _).bind
          intro _
          cases ownerId with
          | none => exact Program.only_pure ()
          | some ownerId => exact (still.only_reconcileUser ownerId).bind fun _ => Program.only_pure ()
    · exact still.only_releaseLock _ token

end Still
end
end PhantomShare
