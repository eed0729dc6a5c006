import PhantomShare.PlainPlatform
import PhantomShare.Uploads.Accounts

/-!
# The upload pipeline

Three loops cut an upload into pieces: the one that spools it, the one that
frames it for the scanner and the one that encrypts it. In every run, whatever
else goes on and whatever the scanner sends back, they agree on one byte string.
-/
namespace PhantomShare.Uploads
open Foundations

/-- The actions of a process. -/
abbrev Past := List (Action World Choice Label)

/-- A drawn key and nonce prefix. -/
def Drew (past : Past) (random : Random) : Prop :=
  ∃ drawn ∈ past, drawn.label = .urandom ∧ drawn.choice.random = random

/-- A scan has been answered by a reply that ends with `" OK"`. -/
def Cleared (past : Past) : Prop :=
  ∃ scan ∈ past, ∃ sent, scan.label = .scan sent ∧ scan.choice.fails = false ∧
    ClamavService.Clears scan.choice.reply

/-- The size is within the bounds and a scan has found the file clean. -/
structure Permitted (P : Platform) (upload : Upload) (past : Past) : Prop where
  nonempty : 1 ≤ upload.content.length
  bounded : upload.content.length ≤ P.settings.maxFileBytes
  cleared : Cleared past

/-- The object is an output of `encrypt_file` whose nonces are all different, and `decrypt_file`
returns the upload from it. -/
structure Seals (P : Platform) (upload : Upload) (random : Random) (key : ObjectKey)
    (object : Bytes) : Prop where
  encrypted : ∃ file, FileCrypto.encryptFile P.chacha P.fileSha256 random.dek random.noncePrefix
    key.secretId key.version upload.content = .ok file ∧ file.object = object ∧
    (file.calls.map SealCall.nonce).Nodup
  opens : FileCrypto.decryptFile P.chacha random.dek key.secretId key.version object =
    .ok upload.content

/-- The row of a version tells the size and the hash of the upload, and its object, which seals the
upload, has been stored under its key. -/
structure Describes (P : Platform) (upload : Upload) (past : Past) (row : SecretVersion) : Prop where
  size : row.plaintextSize = upload.content.length
  sha256 : row.contentSha256 = some (P.fileSha256 upload.content)
  stored : ∃ put ∈ past, ∃ random key object, Drew past random ∧ Seals P upload random key object ∧
    put.label = .objectPut key ∧ put.after.objects.find key = some ⟨key, object⟩ ∧
    row.objectKey = some key ∧ row.secretId = key.secretId ∧ row.version = key.version

/-- What an action of an upload may do after the actions before it. -/
structure Faithful (P : Platform) (upload : Upload) (past : Past)
    (action : Action World Choice Label) : Prop where
  frames : ∀ sent, action.label = .scan sent → ClamavService.Conveys upload.content sent
  puts : ∀ key, action.label = .objectPut key → Permitted P upload past ∧
    ∃ random object, Drew past random ∧ Seals P upload random key object ∧
      (action.after = action.before ∨
        action.after = action.before.setObjects (action.before.objects.put ⟨key, object⟩))
  objects : ∀ object ∈ action.after.objects.rows,
    object ∈ action.before.objects.rows ∨ action.label = .objectPut object.key
  versions : ∀ row ∈ action.after.db.secretVersions.rows,
    row ∈ action.before.db.secretVersions.rows ∨ Describes P upload past row
  pending : ∀ row ∈ action.after.db.pendingUploads.rows,
    row ∈ action.before.db.pendingUploads.rows ∨ row.plaintextSize = upload.content.length

section Facts
variable {P : Platform} {upload : Upload} {past past' : Past}

theorem Drew.mono {random : Random} (h : Drew past random) (hsub : past ⊆ past') :
    Drew past' random := by
  rcases h with ⟨drawn, hmem, hdrawn⟩
  exact ⟨drawn, hsub hmem, hdrawn⟩

theorem Permitted.mono (h : Permitted P upload past) (hsub : past ⊆ past') :
    Permitted P upload past' := by
  rcases h.cleared with ⟨scan, hmem, hscan⟩
  exact ⟨h.nonempty, h.bounded, scan, hsub hmem, hscan⟩

theorem Describes.mono {row : SecretVersion} (h : Describes P upload past row)
    (hsub : past ⊆ past') : Describes P upload past' row := by
  rcases h.stored with ⟨put, hmem, random, key, object, hdrew, hstored⟩
  exact ⟨h.size, h.sha256, put, hsub hmem, random, key, object, hdrew.mono hsub, hstored⟩

theorem seals_of_encryptFile (correct : P.chacha.Correct) {random : Random} {key : ObjectKey}
    {file : FileCrypto.EncryptedFile} (h : FileCrypto.encryptFile P.chacha P.fileSha256 random.dek
      random.noncePrefix key.secretId key.version upload.content = .ok file) :
    Seals P upload random key file.object where
  encrypted := ⟨file, h, rfl, FileCrypto.encryptFile_nonces h⟩
  opens := FileCrypto.decryptFile_encryptFile correct random.noncePrefix.property h

/-- A step besides the pipeline. -/
theorem Aside.faithful {action : Action World Choice Label}
    (h : Aside action.label action.before action.after) : Faithful P upload past action where
  frames sent hlabel := by
    have hfalse := h.label
    rw [hlabel] at hfalse
    cases hfalse
  puts key hlabel := by
    have hfalse := h.label
    rw [hlabel] at hfalse
    cases hfalse
  objects object hmem := Or.inl (h.objects hmem)
  versions row hmem := (h.db.versions row hmem).imp_right False.elim
  pending row hmem := (h.db.pending row hmem).imp_right False.elim

theorem accounts_apart {α : Type} {pid : ℕ} {p : Handler α} (h : Apart p) :
    p.Accounts pid (fun _ _ => True) (Faithful P upload) (fun _ _ => True) past :=
  Program.Only.accounts h fun _ _ _ => Aside.faithful

/-- A transaction that stores rows. -/
theorem accounts_transaction {α : Type} {pid : ℕ} {label : Label}
    {body : Choice → Timestamp → Tx Database Exn α} {record : α → Label}
    (version : SecretVersion → Prop) (pending : PendingUpload → Prop) (hlabel : aside label = true)
    (h : ∀ choice now, (body choice now).Preserves (Adds version pending))
    (hversion : ∀ row, version row → Describes P upload past row)
    (hpending : ∀ row, pending row → row.plaintextSize = upload.content.length) :
    (transaction label body record).Accounts pid (fun _ _ => True) (Faithful P upload) (fun _ _ => True) past := by
  have hstep : (transaction label body record).Only fun _ l w w' =>
      l = label ∧ w'.objects = w.objects ∧ Adds version pending w.db w'.db := by
    apply only_transaction'
    · intro pid w
      exact ⟨rfl, rfl, Adds.refl _⟩
    · intro pid w choice value db hrun
      exact ⟨rfl, rfl, (h choice w.now).run hrun⟩
  apply hstep.accounts
  rintro past' action hsub ⟨hsame, hobjects, hadds⟩
  rw [← hsame] at hlabel
  constructor
  · intro sent hscan
    rw [hscan] at hlabel
    cases hlabel
  · intro key hput
    rw [hput] at hlabel
    cases hlabel
  · intro object hmem
    exact Or.inl (hobjects ▸ hmem)
  · intro row hmem
    exact (hadds.versions row hmem).imp_right fun hnew => (hversion row hnew).mono hsub
  · intro row hmem
    exact (hadds.pending row hmem).imp_right (hpending row)

/-- The key of an object that seals the upload has been stored. -/
structure Stored (P : Platform) (upload : Upload) (random : Random) (key : ObjectKey)
    (object : Bytes) (past : Past) : Prop where
  drew : Drew past random
  seals : Seals P upload random key object
  put : ∃ put ∈ past, put.label = .objectPut key ∧ put.after.objects.find key = some ⟨key, object⟩

theorem Stored.mono {random : Random} {key : ObjectKey} {object : Bytes}
    (h : Stored P upload random key object past) (hsub : past ⊆ past') :
    Stored P upload random key object past' := by
  rcases h.put with ⟨put, hmem, hput⟩
  exact ⟨h.drew.mono hsub, h.seals, put, hsub hmem, hput⟩

/-- The row of a version whose object has been stored. -/
theorem Stored.describes {random : Random} {key : ObjectKey} {encrypted : Files.Encrypted}
    {keyVersion encryptedSize : ℕ} {detail : String} {actorId : UUID} {changeNote : Option String}
    {now : Timestamp} (h : Stored P upload random key encrypted.file.object past)
    (hdigest : encrypted.file.digest = P.fileSha256 upload.content) :
    Describes P upload past (Files.fileVersion key keyVersion upload.content.length encryptedSize
      encrypted upload detail actorId changeNote now) := by
  rcases h.put with ⟨put, hmem, hlabel, hfind⟩
  exact ⟨rfl, congrArg some hdigest, put, hmem, random, key, _, h.drew, h.seals, hlabel, hfind, rfl,
    rfl, rfl⟩

theorem accounts_urandom {pid : ℕ} :
    urandom.Accounts pid (fun _ _ => True) (Faithful P upload) Drew past := by
  apply Program.accounts_perform
  intro w choice w' r _ hact
  simp only [Option.some.injEq, Prod.mk.injEq] at hact
  rcases hact with ⟨rfl, rfl⟩
  refine ⟨Aside.faithful (.of_eq rfl rfl rfl), ?_⟩
  intro random hrandom
  cases hrandom
  exact ⟨_, List.mem_append_right _ (List.mem_singleton_self _), rfl, rfl⟩

/-- The frames convey the file, and a clean result comes from a reply that clears it. -/
theorem accounts_scan {pid : ℕ} : (ClamavService.scan upload.content).Accounts pid (fun _ _ => True)
    (Faithful P upload) (fun past' result => result.1 = .clean → Cleared past') past := by
  cases hsent : ClamavService.instream upload.content with
  | none =>
    rw [ClamavService.scan, hsent]
    exact Program.accounts_throw _
  | some sent =>
    rw [ClamavService.scan, hsent]
    apply Program.accounts_perform
    intro w choice w' r _ hact
    have hconveys := ClamavService.instream_conveys hsent
    have hsame : w' = w := by
      split at hact <;> cases hact <;> rfl
    refine ⟨?_, ?_⟩
    · rw [hsame]
      constructor
      · intro other hlabel
        cases hlabel
        exact hconveys
      · exact fun _ hlabel => nomatch hlabel
      · exact fun _ hmem => Or.inl hmem
      · exact fun _ hmem => Or.inl hmem
      · exact fun _ hmem => Or.inl hmem
    · rintro ⟨status, detail⟩ hr hclean
      cases hfails : choice.fails with
      | true =>
        rw [hfails, hr] at hact
        cases hact
      | false =>
        simp only [hfails, Bool.false_eq_true, if_false, Option.some.injEq, Prod.mk.injEq] at hact
        simp only at hclean
        have hreceived : ClamavService.received choice.reply = .ok (.clean, detail) := by
          rw [hact.2, hr, hclean]
        exact ⟨_, List.mem_append_right _ (List.mem_singleton_self _), sent, rfl, hfails,
          ClamavService.received_clean hreceived⟩

theorem accounts_scanUpload {pid size : ℕ} {user : CurrentUser} {clientIp : String}
    (hnonempty : 1 ≤ upload.content.length)
    (hbounded : upload.content.length ≤ P.settings.maxFileBytes) :
    (Files.scanUpload upload.content size user clientIp).Accounts pid (fun _ _ => True) (Faithful P upload)
      (fun past' _ => Permitted P upload past') past := by
  apply accounts_scan.bind
  rintro past' ⟨status, detail⟩ _ hclean
  cases status with
  | clean =>
    apply Program.Accounts.bind (K := fun _ _ => True) (Program.accounts_pure trivial)
    intro past'' _ hsub _
    rcases hclean rfl with ⟨scan, hmem, hscan⟩
    exact Program.accounts_pure ⟨hnonempty, hbounded, scan, hsub hmem, hscan⟩
  | infected =>
    apply (accounts_apart (apart_auditLog _)).bind
    intro past'' _ _ _
    apply Program.Accounts.bind (K := fun _ _ => False) (Program.accounts_throw _)
    exact fun _ _ _ => False.elim

/-- The object is put where that is permitted. -/
theorem accounts_upload {pid : ℕ} {random : Random} {key : ObjectKey} {object : Bytes}
    (hpermitted : Permitted P upload past) (hdrew : Drew past random)
    (hseals : Seals P upload random key object) :
    (StorageService.upload object key).Accounts pid (fun _ _ => True) (Faithful P upload)
      (fun past' _ => Stored P upload random key object past') past := by
  apply Program.accounts_perform
  intro w choice w' r _ hact
  have hcases : (w' = w ∧ ∀ size, r ≠ .ok size) ∨
      w' = w.setObjects (w.objects.put ⟨key, object⟩) := by
    cases hfails : choice.fails <;> cases hlanded : choice.landed <;> simp only [hfails, hlanded,
      if_true, Bool.false_eq_true, if_false, Option.some.injEq, Prod.mk.injEq] at hact <;>
      simp [← hact.1, ← hact.2]
  constructor
  · constructor
    · exact fun _ hlabel => nomatch hlabel
    · intro other hlabel
      cases hlabel
      exact ⟨hpermitted, random, object, hdrew, hseals, hcases.imp_left And.left⟩
    · intro stored hmem
      rcases hcases with ⟨rfl, _⟩ | rfl
      · exact Or.inl hmem
      · rcases List.mem_append.mp hmem with hold | hnew
        · exact Or.inl (List.mem_of_mem_filter hold)
        · rw [List.mem_singleton] at hnew
          rw [hnew]
          exact Or.inr rfl
    · intro row hmem
      rcases hcases with ⟨rfl, _⟩ | rfl <;> exact Or.inl hmem
    · intro row hmem
      rcases hcases with ⟨rfl, _⟩ | rfl <;> exact Or.inl hmem
  · intro size hr
    rcases hcases with ⟨_, hraised⟩ | rfl
    · exact absurd hr (hraised size)
    · refine ⟨hdrew.mono (List.subset_append_left _ _), hseals, _,
        List.mem_append_right _ (List.mem_singleton_self _), rfl, ?_⟩
      simp [Table.find_put]

theorem accounts_spoolUpload {pid : ℕ} : (liftExcept (Files.spoolUpload P upload)).Accounts pid (fun _ _ => True)
    (Faithful P upload) (fun _ file => file.1 = upload.content ∧ file.2 = upload.content.length ∧
      1 ≤ upload.content.length ∧ upload.content.length ≤ P.settings.maxFileBytes) past :=
  Program.accounts_ofExcept fun _ => Files.spoolUpload_ok

theorem accounts_encryptUpload {pid version : ℕ} {random : Random} {secretId : UUID}
    (correct : P.chacha.Correct) :
    (liftExcept (Files.encryptUpload P upload upload.content random secretId version)).Accounts pid (fun _ _ => True)
      (Faithful P upload) (fun _ encrypted =>
        (∀ nonce, Seals P upload random ⟨secretId, version, nonce⟩ encrypted.file.object) ∧
          encrypted.file.digest = P.fileSha256 upload.content) past := by
  apply Program.accounts_ofExcept
  intro encrypted h
  have hfile := (Files.encryptUpload_ok h).1
  constructor
  · intro nonce
    exact seals_of_encryptFile correct hfile
  · exact (FileCrypto.encryptFile_eq_ok _ hfile).2.2.2.2.1

theorem accounts_pendingUpload {pid : ℕ} {pendingId : UUID} {key : ObjectKey}
    {reservation : Reservation} :
    (transaction (.pendingUpload key) fun _ now => Tx.write fun db => db.insertPendingUpload
      (Files.pendingRow pendingId key reservation upload.content.length now)).Accounts pid (fun _ _ => True)
        (Faithful P upload) (fun _ _ => True) past := by
  apply accounts_transaction (fun _ => False)
    (fun row => row.plaintextSize = upload.content.length) rfl
  · intro choice now
    apply Tx.preserves_write
    intro db db' h
    exact .insertPendingUpload h rfl
  · exact fun _ => False.elim
  · exact fun _ => id

/-! ### The handlers -/

variable {pid : ℕ} {user : CurrentUser} {clientIp : String} {encrypted : Files.Encrypted}
  {pendingId : UUID} {key : ObjectKey} {random : Random} {detail : String}
  {reservation : Reservation}

theorem accounts_storeCreation {body : FileCreate} (hpermitted : Permitted P body.upload past)
    (hdrew : Drew past random) (hseals : Seals P body.upload random key encrypted.file.object)
    (hdigest : encrypted.file.digest = P.fileSha256 body.upload.content) :
    (Files.storeCreation P pendingId key body encrypted body.upload.content.length detail reservation
      user clientIp).Accounts pid (fun _ _ => True) (Faithful P body.upload) (fun _ _ => True) past := by
  apply accounts_pendingUpload.bind
  intro past₁ _ hsub₁ _
  apply (accounts_upload (hpermitted.mono hsub₁) (hdrew.mono hsub₁) hseals).bind
  intro past₂ encryptedSize _ hstored
  apply (accounts_apart (only_liftExcept _)).bind
  intro past₃ access hsub₃ _
  apply (accounts_apart apart_clock).bind
  intro past₄ now hsub₄ _
  apply Program.Accounts.bind
  · have hstored₄ := (hstored.mono hsub₃).mono hsub₄
    apply accounts_transaction (Describes P body.upload past₄) (fun _ => False) rfl
    · intro choice now
      exact adds_createFile (hstored₄.describes hdigest)
    · exact fun _ => id
    · exact fun _ => False.elim
  · intro past₅ _ _ _
    apply (accounts_apart (apart_logWith _)).bind
    intro past₆ _ _ _
    exact Program.accounts_pure trivial

theorem accounts_createFileSecret {body : FileCreate} (correct : P.chacha.Correct) :
    (Files.createFileSecret P body user clientIp).Accounts pid (fun _ _ => True) (Faithful P body.upload)
      (fun _ _ => True) past := by
  apply (accounts_apart (apart_reserve _ _ _)).bind
  intro past₁ secretReservation _ _
  apply (accounts_apart apart_uuid4).bind
  intro past₂ pendingId _ _
  apply Program.Accounts.bind (K := fun _ _ => True)
  · apply Program.Accounts.tryCatch
    · apply accounts_spoolUpload.bind
      rintro past₃ ⟨plaintext, size⟩ _ ⟨rfl, rfl, hnonempty, hbounded⟩
      apply (accounts_scanUpload hnonempty hbounded).bind
      intro past₄ detail _ hpermitted
      apply (accounts_apart (apart_reserve _ _ _)).bind
      intro past₅ reservation hsub₅ _
      apply Program.Accounts.bind (K := fun _ _ => True)
      · apply Program.Accounts.tryCatch
        · apply (accounts_apart apart_uuid4).bind
          intro past₆ secretId hsub₆ _
          apply accounts_urandom.bind
          intro past₇ random hsub₇ hdrew
          apply (accounts_encryptUpload correct).bind
          rintro past₈ encrypted hsub₈ ⟨hseals, hdigest⟩
          apply (accounts_apart apart_uuid4).bind
          intro past₉ nonce hsub₉ _
          apply Program.Accounts.bind (K := fun _ _ => True)
          · apply Program.Accounts.tryCatch
            · exact accounts_storeCreation
                (((((hpermitted.mono hsub₅).mono hsub₆).mono hsub₇).mono hsub₈).mono hsub₉)
                ((hdrew.mono hsub₈).mono hsub₉) (hseals nonce) hdigest
            · intro past₁₀ error _
              apply (accounts_apart (apart_discardObject _)).bind
              intro past₁₁ _ _ _
              exact Program.accounts_throw _
          · intro past₁₀ signedToken _ _
            exact Program.accounts_pure trivial
        · intro past₆ error _
          apply (accounts_apart (apart_release _)).bind
          intro past₇ _ _ _
          exact Program.accounts_throw _
      · intro past₆ created _ _
        exact Program.accounts_pure trivial
    · intro past₃ error _
      apply (accounts_apart (apart_release _)).bind
      intro past₄ _ _ _
      exact Program.accounts_throw _
  · rintro past₃ ⟨secretId, signedToken, size, byteReservation⟩ _ _
    apply Program.Accounts.bind (K := fun _ _ => True)
    · apply accounts_apart
      apply Program.Only.tryCatch
      · exact (apart_commit _).bind fun _ => apart_commit _
      · intro error
        exact (apart_reconcileUser _).bind fun _ => Program.only_pure _
    · intro past₄ _ _ _
      apply accounts_apart
      apply Program.Only.bind
      · exact (apart_scheduleExpiry _ _).tryCatch fun _ => Program.only_pure ()
      · intro _
        exact Program.only_pure _

theorem accounts_updateFileSecret {secretId : UUID} {body : FileUpdate}
    (correct : P.chacha.Correct) :
    (FileVersions.updateFileSecret P secretId body user clientIp).Accounts pid (fun _ _ => True)
      (Faithful P body.upload) (fun _ _ => True) past := by
  apply (accounts_apart (apart_query rfl _)).bind
  intro past₁ row _ _
  cases row with
  | none => exact Program.accounts_throw _
  | some secret =>
    apply (accounts_apart (only_liftExcept _)).bind
    intro past₂ _ _ _
    apply (accounts_apart apart_uuid4).bind
    intro past₃ pendingId _ _
    apply accounts_spoolUpload.bind
    rintro past₄ ⟨plaintext, size⟩ _ ⟨rfl, rfl, hnonempty, hbounded⟩
    apply (accounts_scanUpload hnonempty hbounded).bind
    intro past₅ detail _ hpermitted
    apply (accounts_apart (apart_reserve _ _ _)).bind
    intro past₆ reservation hsub₆ _
    apply Program.Accounts.bind (K := fun _ _ => True)
    · apply Program.Accounts.tryCatch
      · apply accounts_urandom.bind
        intro past₇ random hsub₇ hdrew
        apply (accounts_encryptUpload correct).bind
        rintro past₈ encrypted hsub₈ ⟨hseals, hdigest⟩
        apply (accounts_apart apart_uuid4).bind
        intro past₉ nonce hsub₉ _
        have hpermitted₉ := (((hpermitted.mono hsub₆).mono hsub₇).mono hsub₈).mono hsub₉
        have hdrew₉ := (hdrew.mono hsub₈).mono hsub₉
        apply Program.Accounts.tryCatch
        · apply accounts_pendingUpload.bind
          intro past₁₀ _ hsub₁₀ _
          apply (accounts_upload (hpermitted₉.mono hsub₁₀) (hdrew₉.mono hsub₁₀) (hseals nonce)).bind
          intro past₁₁ encryptedSize _ hstored
          apply accounts_transaction (Describes P body.upload past₁₁) (fun _ => False) rfl
          · intro choice now
            exact adds_updateFile fun keyVersion => hstored.describes hdigest
          · exact fun _ => id
          · exact fun _ => False.elim
        · intro past₁₀ error _
          apply (accounts_apart (apart_discardObject _)).bind
          intro past₁₁ _ _ _
          exact Program.accounts_throw _
      · intro past₇ error _
        apply (accounts_apart (apart_release _)).bind
        intro past₈ _ _ _
        exact Program.accounts_throw _
    · intro past₇ _ _ _
      apply accounts_apart
      apply Program.Only.bind
      · apply (apart_commit _).tryCatch
        intro error
        exact (apart_reconcileUser _).bind fun _ => Program.only_pure _
      · intro _
        exact Program.only_pure _

end Facts

/-! ### Runs -/

/-- The requests of uploads, next to any others. -/
inductive UploadRequest (ρ : Type) where
  | createFile (body : FileCreate) (user : CurrentUser) (clientIp : String)
  | updateFile (secretId : UUID) (body : FileUpdate) (user : CurrentUser) (clientIp : String)
  | other (request : ρ)
  deriving DecidableEq

inductive UploadResponse where
  | created (response : FileSecretResponse)
  | updated (response : FileUpdateResponse)
  | other
  deriving DecidableEq

def UploadRequest.upload {ρ : Type} : UploadRequest ρ → Option Upload
  | .createFile body _ _ => some body.upload
  | .updateFile _ body _ _ => some body.upload
  | .other _ => none

def uploadSystem {ρ : Type} (P : Platform) (others : ρ → Handler Unit)
    (recover : ℕ → World → World) :
    System World Choice Label (UploadRequest ρ) Exn UploadResponse where
  serve
    | .createFile body user clientIp => .created <$> Files.createFileSecret P body user clientIp
    | .updateFile secretId body user clientIp =>
      .updated <$> FileVersions.updateFileSecret P secretId body user clientIp
    | .other request => (fun _ => .other) <$> others request
  recover := recover

/-- Every action of a request with an upload is faithful to it. -/
def FaithfulTo {ρ : Type} (P : Platform) (request : UploadRequest ρ) (past : Past)
    (action : Action World Choice Label) : Prop :=
  ∀ upload, request.upload = some upload → Faithful P upload past action

/-- Whatever the other processes do, however the reads split the file and whatever the scanner
sends back, every action of an upload is faithful to the uploaded bytes. -/
theorem upload_pipeline {ρ : Type} (P : Platform) (correct : P.chacha.Correct)
    (others : ρ → Handler Unit) (recover : ℕ → World → World) (w : World)
    (past : ℕ → Past) (c : Pool World Choice Label (UploadRequest ρ) Exn UploadResponse)
    (told : (uploadSystem P others recover).Chronicle (.init w) past c) (pid : ℕ)
    (request : UploadRequest ρ) (phase : Phase Unit Exn UploadResponse) (upload : Upload)
    (htask : c.view.tasks[pid]? = some (request, phase)) (hupload : request.upload = some upload) :
    Throughout (Faithful P upload) (past pid) := by
  have haccounted : System.Accounted (fun _ _ => True) (FaithfulTo P) (fun _ _ _ => True) past c := by
    apply told.accounted (fun _ _ _ _ => trivial)
    intro pid request
    cases request with
    | createFile body user clientIp =>
      apply Program.Accounts.bind (K := fun _ _ => True)
      · apply Program.Accounts.relax (accounts_createFileSecret correct)
        rintro past action hfaithful upload hsome
        cases hsome
        exact hfaithful
      · exact fun _ _ _ _ => Program.accounts_pure trivial
    | updateFile secretId body user clientIp =>
      apply Program.Accounts.bind (K := fun _ _ => True)
      · apply Program.Accounts.relax (accounts_updateFileSecret correct)
        rintro past action hfaithful upload hsome
        cases hsome
        exact hfaithful
      · exact fun _ _ _ _ => Program.accounts_pure trivial
    | other request =>
      apply Program.accounts_of_forall
      exact fun _ _ _ => nofun
  rw [Pool.view_get, Option.map_eq_some_iff] at htask
  rcases htask with ⟨⟨own, current⟩, hget, hsame⟩
  cases hsame
  intro before action after hpast
  exact haccounted.done pid own current hget before action after hpast upload hupload

section Sample

/-- Three bytes in two reads. -/
def sampleUpload : Upload := ⟨none, none, [[97, 98], [99]]⟩

def sampleCreate : UploadRequest Empty :=
  .createFile { upload := sampleUpload } ⟨1, "ada@example.org", .user, true, true⟩ "203.0.113.9"

def sampleSystem : System World Choice Label (UploadRequest Empty) Exn UploadResponse :=
  uploadSystem samplePlatform (fun request => nomatch request) fun _ w => w

/-- A creation whose scan is answered by `stream: OK`, up to the answer of the request. -/
def createScanned : List (Event Choice (UploadRequest Empty)) :=
  .start sampleCreate :: List.replicate 6 (.act 0 { uuid := 6 }) ++
    [.act 0 { uuid := 7 }, .act 0 { reply := utf8Encode "stream: OK" ++ [0] }] ++
    List.replicate 6 (.act 0 { uuid := 8 }) ++ [.act 0 { uuid := 9 }, .act 0 {}] ++
    List.replicate 10 (.act 0 { uuid := 10 })

/-- The object is put, the version recorded and the request answered. -/
theorem upload_pipeline_sample :
    ∃ past c, (past 0).any (fun a => a.label = .objectPut ⟨9, 1, 10⟩) ∧
      c.view.shared.db.secretVersions.rows.length = 1 ∧ c.view.answered 0 sampleCreate = true ∧
      sampleSystem.Chronicle
        (.init (worldOf { Database.empty with users := sampleUsers } .empty .empty 0)) past c ∧
      Throughout (Faithful samplePlatform sampleUpload) (past 0) := by
  rcases sampleSystem.exists_chronicle
    (.init (worldOf { Database.empty with users := sampleUsers } .empty .empty 0)) createScanned
    (fun past v => (past 0).any (fun a => a.label = .objectPut ⟨9, 1, 10⟩) &&
      (v.shared.db.secretVersions.rows.length = 1 && v.answered 0 sampleCreate))
    (by decide +kernel) with ⟨past, c, told, h⟩
  rw [Bool.and_eq_true, Bool.and_eq_true, decide_eq_true_eq] at h
  rcases View.exists_of_answered h.2.2 with ⟨response, htask⟩
  refine ⟨past, c, h.1, h.2.1, h.2.2, told, ?_⟩
  exact upload_pipeline samplePlatform (Platform.plain_sound _).chacha_correct _ _ _ past c told 0
    sampleCreate _ sampleUpload htask rfl

end Sample

end PhantomShare.Uploads
