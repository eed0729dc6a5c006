import PhantomShare.FileCrypto.Integrity
import PhantomShare.Footprints
import PhantomShare.Foundations.Chronicle
import PhantomShare.Routers.FileVersions

/-!
# What an upload accounts for

Besides the scan, the upload of the object and the transactions that store rows,
a handler of an upload neither adds objects nor versions nor pending uploads. The
object is the encryption of the uploaded bytes under the key that was drawn, and
it is uploaded only after a clean reply.
-/
namespace PhantomShare.Uploads
open Foundations

/-- The steps of other kinds. -/
def aside : Label → Bool
  | .scan _ => false
  | .objectPut _ => false
  | _ => true

/-- New versions and pending uploads are of the given kinds. -/
structure Adds (version : SecretVersion → Prop) (pending : PendingUpload → Prop)
    (db db' : Database) : Prop where
  versions : ∀ row ∈ db'.secretVersions.rows, row ∈ db.secretVersions.rows ∨ version row
  pending : ∀ row ∈ db'.pendingUploads.rows, row ∈ db.pendingUploads.rows ∨ pending row

/-- Nothing is new. -/
abbrev AddsNothing : Database → Database → Prop := Adds (fun _ => False) fun _ => False

namespace Adds
variable {version : SecretVersion → Prop} {pending : PendingUpload → Prop} {a b c db db' : Database}

theorem refl (db : Database) : Adds version pending db db :=
  ⟨fun _ h => Or.inl h, fun _ h => Or.inl h⟩

theorem trans (hab : Adds version pending a b) (hbc : Adds version pending b c) :
    Adds version pending a c where
  versions row h := by
    rcases hbc.versions row h with hold | hnew
    · exact hab.versions row hold
    · exact Or.inr hnew
  pending row h := by
    rcases hbc.pending row h with hold | hnew
    · exact hab.pending row hold
    · exact Or.inr hnew

instance : IsPreorder Database (Adds version pending) where
  refl := refl
  trans _ _ _ := trans

theorem of_eq (hversions : db'.secretVersions = db.secretVersions)
    (hpending : db'.pendingUploads = db.pendingUploads) : Adds version pending db db' where
  versions _ h := Or.inl (hversions ▸ h)
  pending _ h := Or.inl (hpending ▸ h)

theorem insertAuditLog {entry : AuditService.Entry} {now : Timestamp}
    (h : entry.insert now db = .ok db') : Adds version pending db db' := by
  rcases Database.insertAuditLog_ok h with ⟨_, _, row, rfl⟩
  exact of_eq rfl rfl

theorem insertSecretVersion {row : SecretVersion} (h : db.insertSecretVersion row = .ok db')
    (hrow : version row) : Adds version pending db db' := by
  rcases Database.insertSecretVersion_ok h with ⟨_, _, versions, hinsert, rfl⟩
  refine ⟨?_, fun _ h => Or.inl h⟩
  intro other hmem
  change other ∈ versions.rows at hmem
  rw [(Table.insert_eq_some hinsert).2, List.mem_append, List.mem_singleton] at hmem
  rcases hmem with hold | rfl
  · exact Or.inl hold
  · exact Or.inr hrow

theorem insertPendingUpload {row : PendingUpload} (h : db.insertPendingUpload row = .ok db')
    (hrow : pending row) : Adds version pending db db' := by
  rcases Database.insertPendingUpload_ok h with ⟨rows, hinsert, rfl⟩
  refine ⟨fun _ h => Or.inl h, ?_⟩
  intro other hmem
  change other ∈ rows.rows at hmem
  rw [(Table.insert_eq_some hinsert).2, List.mem_append, List.mem_singleton] at hmem
  rcases hmem with hold | rfl
  · exact Or.inl hold
  · exact Or.inr hrow

theorem deletePendingUpload (id : UUID) (db : Database) :
    Adds version pending db (db.deletePendingUpload id) :=
  ⟨fun _ h => Or.inl h, fun _ h => Or.inl (List.mem_of_mem_filter h)⟩

end Adds

section Transactions
variable {P : Platform} {version : SecretVersion → Prop} {pending : PendingUpload → Prop}
  {pendingId : UUID} {objectKey : ObjectKey} {encrypted : Files.Encrypted} {size encryptedSize : ℕ}
  {detail : String} {now : Timestamp}

theorem adds_createFile {body : FileCreate} {access : Files.FileAccess} {ownerId : UUID}
    {signedToken : String} (hversion : version (Files.fileVersion objectKey 1 size encryptedSize
      encrypted body.upload detail ownerId body.changeNote now)) :
    (Files.createTransaction P pendingId objectKey body access encrypted size encryptedSize detail
      ownerId signedToken now).Preserves (Adds version pending) := by
  apply Tx.Preserves.bind
  · apply Tx.preserves_write
    intro db db' h
    rcases Database.insertSecret_ok h with ⟨secrets, _, rfl⟩
    exact .of_eq rfl rfl
  intro _
  apply Tx.Preserves.bind
  · apply Tx.preserves_write
    intro db db' h
    rcases Database.insertSecretKey_ok h with ⟨_, keys, _, rfl⟩
    exact .of_eq rfl rfl
  intro _
  apply Tx.Preserves.bind
  · apply Tx.preserves_write
    intro db db' h
    exact .insertSecretVersion h hversion
  intro _
  apply Tx.Preserves.bind
  · apply Tx.preserves_write
    intro db db' h
    rcases Database.insertRecipients_frame h with ⟨recipients, rfl⟩
    exact .of_eq rfl rfl
  intro _
  apply Tx.Preserves.bind
  · apply Tx.preserves_write
    intro db db' h
    rcases Database.insertPolicy_frame h with ⟨policies, rfl⟩
    exact .of_eq rfl rfl
  intro _
  apply Tx.Preserves.bind
  · apply Tx.preserves_write
    intro db db' h
    rcases Database.insertTracking_frame h with ⟨tracking, rfl⟩
    exact .of_eq rfl rfl
  intro _
  apply Tx.preserves_write
  intro db db' h
  cases h
  exact .deletePendingUpload _ _

theorem adds_updateFile {body : FileUpdate} {user : CurrentUser} {clientIp : String}
    (hversion : ∀ keyVersion, version (Files.fileVersion objectKey keyVersion size encryptedSize
      encrypted body.upload detail user.id body.changeNote now)) :
    (FileVersions.updateTransaction pendingId objectKey body encrypted size encryptedSize detail user
      clientIp now).Preserves (Adds version pending) := by
  apply (Tx.preserves_select _).bind
  intro row
  cases row with
  | none => exact Tx.preserves_throw _
  | some locked =>
    apply (Tx.preserves_raiseIf _ _).bind
    intro _
    apply (Tx.preserves_ofExcept _).bind
    intro _
    apply (Tx.preserves_select _).bind
    intro keyVersion
    apply Tx.Preserves.bind
    · apply Tx.preserves_write
      intro db db' h
      rcases Database.insertSecretKey_ok h with ⟨_, keys, _, rfl⟩
      exact .of_eq rfl rfl
    intro _
    apply Tx.Preserves.bind
    · apply Tx.preserves_write
      intro db db' h
      exact .insertSecretVersion h (hversion keyVersion)
    intro _
    apply Tx.Preserves.bind
    · apply Tx.preserves_write
      intro db db' h
      cases h
      exact .of_eq rfl rfl
    intro _
    apply Tx.Preserves.bind
    · apply Tx.preserves_write
      intro db db' h
      cases h
      exact .deletePendingUpload _ _
    intro _
    apply Tx.Preserves.quietly
    apply Tx.preserves_write
    intro db db' h
    exact .insertAuditLog h

end Transactions

/-! ### Steps besides the pipeline -/

/-- A step of another kind that adds nothing. -/
structure Aside (label : Label) (w w' : World) : Prop where
  label : aside label = true
  objects : w'.objects.rows ⊆ w.objects.rows
  db : AddsNothing w.db w'.db

theorem Aside.of_eq {label : Label} {w w' : World} (hlabel : aside label = true)
    (hobjects : w'.objects = w.objects) (hdb : w'.db = w.db) : Aside label w w' where
  label := hlabel
  objects := hobjects ▸ List.Subset.refl _
  db := hdb ▸ Adds.refl _

/-- Every step is besides the pipeline. -/
abbrev Apart {α : Type} (p : Handler α) : Prop := p.Only fun _ label w w' => Aside label w w'

section Asides
variable {α : Type} {P : Platform}

theorem apart_query {label : Label} (hlabel : aside label = true) (q : Timestamp → Database → α) :
    Apart (query label q) := by
  apply Program.only_perform
  intro pid w choice w' r hact
  cases hfails : choice.fails <;> simp only [hfails, if_true, Bool.false_eq_true, if_false,
    Option.some.injEq, Prod.mk.injEq] at hact <;> rw [← hact.1] <;> exact .of_eq hlabel rfl rfl

theorem apart_redisCall {label : Label} (hlabel : aside label = true)
    (script : Timestamp → Redis → α × Redis) : Apart (redisCall label script) := by
  apply Program.only_perform
  intro pid w choice w' r hact
  cases hfails : choice.fails <;> simp only [hfails, if_true, Bool.false_eq_true, if_false,
    Option.some.injEq, Prod.mk.injEq] at hact <;> rw [← hact.1] <;> exact .of_eq hlabel rfl rfl

theorem apart_uuid4 : Apart uuid4 := by
  apply Program.only_perform
  intro pid w choice w' r hact
  split at hact
  · cases hact
  · simp only [Option.some.injEq, Prod.mk.injEq] at hact
    rw [← hact.1]
    exact .of_eq rfl rfl rfl

theorem apart_clock : Apart clock := by
  apply Program.only_perform
  intro pid w choice w' r hact
  simp only [Option.some.injEq, Prod.mk.injEq] at hact
  rw [← hact.1]
  exact .of_eq rfl rfl rfl

theorem apart_auditLog (entry : AuditService.Entry) : Apart (AuditService.log entry) := by
  apply Program.Only.tryCatch
  · apply only_transaction' fun pid w => .of_eq rfl rfl rfl
    intro pid w choice value db hrun
    refine ⟨rfl, List.Subset.refl _, ?_⟩
    apply Tx.Preserves.run _ hrun
    apply Tx.preserves_write
    intro db db' h
    exact .insertAuditLog h
  · intro error
    exact Program.only_pure ()

theorem apart_logWith (entry : AuditService.Entry) :
    Apart (transaction .auditLog fun _ now => AuditService.logWith entry now) := by
  apply only_transaction' fun pid w => .of_eq rfl rfl rfl
  intro pid w choice value db hrun
  refine ⟨rfl, List.Subset.refl _, ?_⟩
  apply Tx.Preserves.run _ hrun
  apply Tx.Preserves.quietly
  apply Tx.preserves_write
  intro db db' h
  exact .insertAuditLog h

theorem apart_durableUsage (userId : UUID) : Apart (QuotaService.durableUsage userId) := by
  apply (apart_query rfl _).bind
  intro secretsCount
  apply (apart_query rfl _).bind
  intro activeBytes
  apply (apart_query rfl _).bind
  intro pendingBytes
  exact Program.only_pure _

theorem apart_reconcileUser (userId : UUID) : Apart (QuotaService.reconcileUser userId) := by
  apply (apart_durableUsage userId).bind
  intro usage
  exact apart_redisCall rfl _

theorem apart_reserve (userId : UUID) (secrets fileBytes : ℤ) :
    Apart (QuotaService.reserve P userId secrets fileBytes) := by
  apply (apart_durableUsage userId).bind
  intro usage
  apply (apart_query rfl _).bind
  intro limits
  apply apart_uuid4.bind
  intro reservationId
  apply (apart_redisCall rfl _).bind
  intro result
  apply (only_liftExcept _).bind
  intro reply
  apply (only_raiseIf _ _).bind
  intro _
  exact Program.only_pure _

theorem apart_commit (reservation : Reservation) : Apart (QuotaService.commit reservation) :=
  apart_redisCall rfl _

theorem apart_release (reservation : Reservation) : Apart (QuotaService.release reservation) :=
  (apart_redisCall rfl _).tryCatch fun _ => Program.only_pure ()

theorem apart_scheduleExpiry (secretId : UUID) (ttlSeconds : ℕ) :
    Apart (CleanupService.scheduleExpiry secretId ttlSeconds) :=
  only_scheduleExpiry' secretId ttlSeconds (fun _ _ => .of_eq rfl rfl rfl)
    fun _ _ => .of_eq rfl rfl rfl

theorem apart_discardObject (key : ObjectKey) : Apart (Files.discardObject key) := by
  apply Program.Only.tryCatch
  · apply Program.only_perform
    intro pid w choice w' r hact
    have hdeleted : Aside (.objectDelete key) w
        (w.setObjects (w.objects.deleteWhere fun object => object.key = key)) :=
      ⟨rfl, fun _ h => List.mem_of_mem_filter h, Adds.refl _⟩
    have hkept : Aside (.objectDelete key) w w := .of_eq rfl rfl rfl
    cases hfails : choice.fails <;> cases hlanded : choice.landed <;> simp only [hfails, hlanded,
      if_true, Bool.false_eq_true, if_false, Option.some.injEq, Prod.mk.injEq] at hact <;>
      rw [← hact.1]
    · exact hdeleted
    · exact hdeleted
    · exact hkept
    · exact hdeleted
  · intro error
    exact Program.only_pure ()

end Asides

end PhantomShare.Uploads
