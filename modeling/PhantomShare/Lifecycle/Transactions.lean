import PhantomShare.Foundations.Postconditions
import PhantomShare.Lifecycle.Moves
import PhantomShare.Routers.Admin
import PhantomShare.Routers.SecretAccess

/-!
# What the transactions do to the records

A creation is the birth of its secret. Every other transaction makes moves with the
records of the secrets that it names, and leaves all others as they are.
-/
namespace PhantomShare.Lifecycle
open Foundations FileCrypto

/-- Every record makes steps of a kind. -/
def Each (R : UUID → Record → Record → Prop) (db db' : Database) : Prop :=
  ∀ id, Relation.ReflTransGen (R id) (record id db) (record id db')

/-- Every record makes moves. -/
abbrev Lives (P : Platform) (now : Timestamp) : Database → Database → Prop := Each (Move P now)

/-- Every record makes moves, none of which is a new version. -/
abbrev Rests (P : Platform) (now : Timestamp) : Database → Database → Prop := Each (Quiet P now)

variable {P : Platform} {id : UUID} {now : Timestamp} {db db' : Database}

namespace Each
variable {R : UUID → Record → Record → Prop}

theorem of_same (h : ∀ id, record id db' = record id db) : Each R db db' := by
  intro id
  rw [h]

theorem of_apart (hsteps : Relation.ReflTransGen (R id) (record id db) (record id db'))
    (hapart : Apart id db db') : Each R db db' := by
  intro other
  by_cases hother : other = id
  · subst hother
    exact hsteps
  · rw [hapart other hother]

end Each

theorem Rests.lives (h : Rests P now db db') : Lives P now db db' :=
  fun id => Relation.ReflTransGen.mono (fun _ _ hquiet => Or.inl hquiet) _ _ (h id)

/-- What rests keeps the number of its version. -/
theorem version_of_quiet {r r' : Record} (h : Relation.ReflTransGen (Quiet P now id) r r') :
    ∀ s', r'.secret = some s' →
      ∃ s, r.secret = some s ∧ s'.currentVersion = s.currentVersion := by
  induction h with
  | refl => exact fun s' hs' => ⟨s', hs', rfl⟩
  | tail _ hquiet ih =>
    intro s₂ h₂
    obtain ⟨s₁, h₁, hsame₁⟩ := hquiet.version h₂
    obtain ⟨s, hs, hsame⟩ := ih s₁ h₁
    exact ⟨s, hs, hsame₁.trans hsame⟩

/-- One record gets its next version, which is number `n`, and no other changes. -/
structure Extends (P : Platform) (now : Timestamp) (id : UUID) (n : ℕ) (db db' : Database) :
    Prop where
  append : Append P now id (record id db) (record id db')
  apart : Apart id db db'
  number : ∀ s, (record id db).secret = some s → n = s.currentVersion + 1

namespace Extends
variable {n : ℕ} {db₁ : Database}

theorem lives (h : Extends P now id n db db') : Lives P now db db' :=
  .of_apart (.single (.inr h.append)) h.apart

theorem of_same (h : Extends P now id n db db₁) (hsame : ∀ id, record id db' = record id db₁) :
    Extends P now id n db db' where
  append := hsame id ▸ h.append
  apart := h.apart.trans (.of_same hsame)
  number := h.number

end Extends

/-! ### Creations -/

/-- A secret is born, and no other record changes. -/
structure Creates (P : Platform) (id : UUID) (db db' : Database) : Prop where
  birth : Birth P id (record id db) (record id db')
  apart : Apart id db db'

/-- The inserts of a creation, one after the other, and a last change of the row. -/
theorem Birth.of_inserts {row : Secret} {v : SecretVersion} {key : Option SecretKey}
    {policy : SecretAccessPolicy} {recipients : List SecretRecipient} {ownerId : UUID}
    {f : Secret → Secret} {db₁ db₂ db₃ db₄ db₅ db₆ db₇ : Database} (hid : row.id = id)
    (hsecret : db.insertSecret row = .ok db₁)
    (hkey : record id db₂ = { record id db₁ with
      keys := key.elim (record id db₁).keys fun k =>
        Function.update (record id db₁).keys k.version (some k) })
    (hvid : v.secretId = id) (hversion : db₂.insertSecretVersion v = .ok db₃)
    (hrecipients : record id db₄ = { record id db₃ with
      recipients := (record id db₃).recipients ++ recipients })
    (hpid : policy.secretId = id) (hpolicy : db₄.insertPolicy policy = .ok db₅)
    (htracking : db₅.insertTracking P.settings.viewHistoryRetentionDays id = .ok db₆)
    (hlast : record id db₇ = (record id db₆).mapSecret f) (howner : row.ownerId = some ownerId)
    (hexpires : ∀ s, (f s).expiresAt = s.expiresAt)
    (newborn : 1 ≤ row.ttlHours ∧ row.ttlHours ≤ 168 → row.viewCount ≤ row.maxViews →
      row.passwordProtected = row.accessPasswordHash.isSome → v.payloadCheck = true →
        Newborn P id (f { row with expiresAt := row.createdAt + hours row.ttlHours }) v key policy
          recipients ownerId) :
    Birth P id (record id db) (record id db₇) := by
  obtain ⟨habsent, hlow, hhigh, hviews, hguarded, _, hrecord₁⟩ := record_insertSecret hid hsecret
  obtain ⟨hcheck, _, hrecord₃⟩ := record_insertSecretVersion hvid hversion
  have hrecord₅ := record_insertPolicy hpid hpolicy
  have hsecret₅ : (record id db₅).secret =
      some { row with expiresAt := row.createdAt + hours row.ttlHours } := by
    rw [hrecord₅, hrecipients, hrecord₃, Record.setVersion_secret, hkey, hrecord₁]
  obtain ⟨owner, hsome, huntracked, hrecord₆⟩ := record_insertTracking hsecret₅ htracking
  rw [howner, Option.some.injEq] at hsome
  subst hsome
  have huntracked : (record id db).tracking = none := by
    rw [hrecord₅, hrecipients, hrecord₃] at huntracked
    simpa [Record.setVersion, hkey, hrecord₁] using huntracked
  have hborn : record id db₇ = (record id db).born
      (f { row with expiresAt := row.createdAt + hours row.ttlHours }) v key policy recipients
        ⟨id, ownerId, (f { row with expiresAt := row.createdAt + hours row.ttlHours }).expiresAt +
          days P.settings.viewHistoryRetentionDays⟩ := by
    rw [hlast, hrecord₆, hrecord₅, hrecipients, hrecord₃, hkey, hrecord₁, hexpires]
    rfl
  rw [hborn]
  exact .born habsent huntracked (newborn ⟨hlow, hhigh⟩ hviews hguarded hcheck)

/-- The first key of a text, when the server holds one. -/
def firstKey (id : UUID) (key : Option (String × String)) : Option SecretKey :=
  key.map fun pair => ⟨id, pair.1, pair.2, 1, none⟩

theorem ensures_insertFirstKey {α : Type} {key : Option (String × String)}
    {f : Unit → Tx Database Exn α} {Q : α → Database → Prop}
    (h : ∀ db', Apart id db db' → record id db' = { record id db with
      keys := (firstKey id key).elim (record id db).keys fun k =>
        Function.update (record id db).keys k.version (some k) } → (f ()).Ensures db' Q) :
    (Secrets.insertFirstKey id key >>= f).Ensures db Q := by
  cases key with
  | none => exact h db (.refl id db) rfl
  | some pair =>
    apply Tx.ensures_write_bind
    intro db' hinsert
    exact h db' (.insertSecretKey rfl hinsert) (record_insertSecretKey rfl hinsert).2

theorem ensures_insertAllowedEmails {α : Type} {emails : Option (List String)}
    {f : Unit → Tx Database Exn α} {Q : α → Database → Prop}
    (h : ∀ db', Apart id db db' → record id db' = { record id db with
      recipients := (record id db).recipients ++ (emails.getD []).map fun email => ⟨id, email⟩ } →
        (f ()).Ensures db' Q) :
    (Secrets.insertAllowedEmails id emails >>= f).Ensures db Q := by
  cases emails with
  | none => exact h db (.refl id db) (by simp)
  | some emails =>
    apply Tx.ensures_write_bind
    intro db' hinsert
    exact h db' (.insertRecipients hinsert) (record_insertRecipients hinsert)

/-- A text opens with the key under which it was stored. -/
theorem opens_prepared (sound : P.Sound) {body : SecretCreate} {random : Random}
    {prepared : Secrets.Prepared} {ownerId : UUID} {key : SecretKey}
    (hprepare : Secrets.prepare P body random = .ok prepared)
    (hkey : firstKey id prepared.key = some key) :
    key.version = 1 ∧ Opens P (Secrets.firstVersion id body prepared ownerId now) key := by
  unfold Secrets.prepare at hprepare
  split at hprepare
  · split at hprepare <;> cases hprepare
    simp [firstKey] at hkey
  · cases hprepare
    cases hkey
    refine ⟨rfl, random.dek, Platform.unwrapDek_wrapDek sound _ _, body.content, ?_⟩
    exact Platform.decryptContent_encryptContent sound _ _ _

/-- A token that is signed no later than its secret is created expires no later. -/
theorem token_within {signed created : Timestamp} (h : signed ≤ created) (ttlHours : ℕ) :
    (signed / second + ttlHours * 3600) * second ≤ created + hours ttlHours := by
  rw [Nat.add_mul, hours]
  exact Nat.add_le_add_right ((Nat.div_mul_le_self signed second).trans h) _

theorem ensures_createTransaction (sound : P.Sound) {body : SecretCreate} {ownerId : UUID}
    {clientIp : String} {random : Random} : (Secrets.createTransaction P id body ownerId clientIp
      random now).Ensures db fun _ db' => Creates P id db db' := by
  apply Tx.ensures_ofExcept_bind
  intro prepared hprepare
  apply Tx.ensures_write_bind
  intro db₁ hsecret
  apply ensures_insertFirstKey
  intro db₂ hapart₂ hkey
  apply Tx.ensures_write_bind
  intro db₃ hversion
  apply ensures_insertAllowedEmails
  intro db₄ hapart₄ hrecipients
  apply Tx.ensures_write_bind
  intro db₅ hpolicy
  apply Tx.ensures_write_bind
  intro db₆ htracking
  apply Tx.ensures_write_bind
  intro db₇ htoken
  cases htoken
  apply Tx.ensures_quietly_bind
  · exact Tx.sticky_pure _
  intro db₈ hlog
  apply Tx.ensures_pure
  constructor
  · apply Birth.of_inserts rfl hsecret hkey rfl hversion hrecipients rfl hpolicy htracking
      ((record_insertAuditLog hlog).trans (record_updateSecret _ _)) rfl
    · exact fun _ => rfl
    · intro httl hviews hguarded hcheck
      constructor
      · rfl
      · exact httl
      · exact ⟨rfl, rfl⟩
      · exact hviews
      · exact hguarded
      · rfl
      · rfl
      · exact ⟨rfl, rfl, rfl, hcheck⟩
      · nofun
      · exact ⟨rfl, rfl⟩
      · nofun
      · cases hprepared : prepared.key <;> simp [Secrets.firstVersion, firstKey, hprepared]
      · intro key hkey
        exact opens_prepared sound hprepare hkey
      · exact fun _ => rfl
      · rfl
      · exact ⟨_, token_within (le_refl now) body.ttlHours, rfl⟩
      · intro hopen
        have hnone : body.allowedEmails = none := by simpa [Secrets.newSecret] using hopen
        simp [hnone]
  · apply Apart.trans _ (.of_same fun _ => record_insertAuditLog hlog)
    apply Apart.trans _ (.updateSecret _ _)
    apply Apart.trans _ (.insertTracking htracking)
    apply Apart.trans _ (.insertPolicy rfl hpolicy)
    apply Apart.trans _ hapart₄
    apply Apart.trans _ (.insertSecretVersion rfl hversion)
    exact (Apart.insertSecret rfl hsecret).trans hapart₂

/-! ### Files -/

/-- What was encrypted is an upload, for the place where the object is stored. -/
def Encloses (P : Platform) (upload : Upload) (objectKey : ObjectKey) (encrypted : Files.Encrypted)
    (size : ℕ) : Prop :=
  ∃ plaintext random, size = plaintext.length ∧
    Files.encryptUpload P upload plaintext random objectKey.secretId objectKey.version = .ok encrypted

theorem Encloses.opens (sound : P.Sound) {upload : Upload} {objectKey : ObjectKey}
    {encrypted : Files.Encrypted} {size encryptedSize keyVersion : ℕ} {detail : String}
    {actorId : UUID} {changeNote : Option String} {rotatedAt : Option Timestamp}
    (h : Encloses P upload objectKey encrypted size) :
    Opens P (Files.fileVersion objectKey keyVersion size encryptedSize encrypted upload detail actorId
      changeNote now) ⟨objectKey.secretId, encrypted.key.1, encrypted.key.2, keyVersion, rotatedAt⟩ := by
  obtain ⟨plaintext, random, hsize, hencrypt⟩ := h
  obtain ⟨_, hkey, _⟩ := Files.encryptUpload_ok hencrypt
  refine ⟨random.dek, ?_, upload, plaintext, encrypted, ?_⟩
  · rw [hkey]
    exact Platform.unwrapDek_wrapDek sound _ _
  · exact ⟨⟨random, rfl, hencrypt⟩, rfl, rfl, rfl, rfl, hsize⟩

/-- The first key of a file. -/
theorem record_firstKey {row : SecretKey} (hid : row.secretId = id)
    (h : db.insertSecretKey row = .ok db') : record id db' = { record id db with
      keys := (some row).elim (record id db).keys fun k =>
        Function.update (record id db).keys k.version (some k) } :=
  (record_insertSecretKey hid h).2

theorem ensures_createFileTransaction (sound : P.Sound) {pendingId : UUID} {objectKey : ObjectKey}
    {body : FileCreate} {access : Files.FileAccess} {encrypted : Files.Encrypted}
    {size encryptedSize : ℕ} {detail : String} {ownerId : UUID} {signed : Timestamp}
    (hversion : objectKey.version = 1) (hsigned : signed ≤ now)
    (hencloses : Encloses P body.upload objectKey encrypted size) :
    (Files.createTransaction P pendingId objectKey body access encrypted size encryptedSize detail
      ownerId (Security.createSignedToken P objectKey.secretId
        (signed / second + body.ttlHours * 3600) 1) now).Ensures db
      fun _ db' => Creates P objectKey.secretId db db' := by
  apply Tx.ensures_write_bind
  intro db₁ hsecret
  apply Tx.ensures_write_bind
  intro db₂ hkey
  apply Tx.ensures_write_bind
  intro db₃ hinsert
  apply Tx.ensures_write_bind
  intro db₄ hrecipients
  apply Tx.ensures_write_bind
  intro db₅ hpolicy
  apply Tx.ensures_write_bind
  intro db₆ htracking
  apply Tx.ensures_write
  intro db₇ hpending
  cases hpending
  constructor
  · apply Birth.of_inserts (f := fun s => s) rfl hsecret (record_firstKey rfl hkey) rfl hinsert
      (record_insertRecipients hrecipients) rfl hpolicy htracking _ rfl
    · exact fun _ => rfl
    · intro httl hviews hguarded hcheck
      constructor
      · rfl
      · exact httl
      · exact ⟨rfl, rfl⟩
      · exact hviews
      · exact hguarded
      · rfl
      · rfl
      · exact ⟨rfl, hversion, rfl, hcheck⟩
      · intro o ho
        cases ho
        exact ⟨rfl, hversion⟩
      · exact ⟨rfl, rfl⟩
      · exact fun _ => rfl
      · rfl
      · intro k hk
        cases hk
        exact ⟨rfl, hencloses.opens sound⟩
      · nofun
      · rfl
      · exact ⟨_, token_within hsigned body.ttlHours, rfl⟩
      · intro hopen
        have hnone : access.emails = [] := by simpa [Files.newFileSecret] using hopen
        simp [hnone]
    · rw [record_deletePendingUpload]
      simp [Record.mapSecret]
  · apply Apart.trans _ (.of_same fun _ => record_deletePendingUpload pendingId)
    apply Apart.trans _ (.insertTracking htracking)
    apply Apart.trans _ (.insertPolicy rfl hpolicy)
    apply Apart.trans _ (.insertRecipients hrecipients)
    apply Apart.trans _ (.insertSecretVersion rfl hinsert)
    exact (Apart.insertSecret rfl hsecret).trans (.insertSecretKey rfl hkey)

/-! ### New versions -/

theorem nextKey_max (id : UUID) (db : Database) : NextKey (record id db) (db.maxKeyVersion id + 1) where
  above _ hm := Nat.lt_succ_of_le (Database.version_le_maxKeyVersion hm)
  least _ hm := Nat.succ_le_succ (Database.maxKeyVersion_le hm)

/-- A new version of a text. -/
theorem extends_insertTextVersion (sound : P.Sound) {s : Secret} {plaintext : String} {actorId : UUID}
    {changeNote : Option String} {random : Random} {keyVersion : ℕ} {c : Connection Database}
    (hs : db.secrets.find id = some s) (hlimit : s.currentVersion < P.settings.maxSecretVersions)
    (hserver : ∃ n old, (record id db).versions n = some old ∧ old.keyVersion.isSome)
    (hkind : s.payloadType = .text ∨
      ∃ n old, (record id db).versions n = some old ∧ old.payloadType = .text)
    (h : SecretVersions.insertTextVersion P id (s.currentVersion + 1) plaintext actorId changeNote
      random now ⟨db, false⟩ = (.ok keyVersion, c)) :
    Extends P now id (s.currentVersion + 1) db c.db := by
  obtain ⟨rfl, _, keyed, stored, hkeyed, hstored, hdb⟩ := SecretVersions.insertTextVersion_ok h
  rw [hdb]
  constructor
  · obtain ⟨hcheck, _, hrecord⟩ : _ ∧ _ ∧ record id stored = _ :=
      record_insertSecretVersion rfl hstored
    have happended : Appended P id s
        (SecretVersions.textVersion id (s.currentVersion + 1) plaintext
          (P.encryptContent plaintext random.dek random.contentNonce).1
          (P.encryptContent plaintext random.dek random.contentNonce).2 (db.maxKeyVersion id + 1)
          actorId changeNote now)
        ⟨id, (P.wrapDek random.dek random.wrapNonce).1, (P.wrapDek random.dek random.wrapNonce).2,
          db.maxKeyVersion id + 1, some now⟩ (record id db) :=
      { present := hs
        limit := hlimit
        version := ⟨rfl, rfl, hcheck⟩
        object := nofun
        keyed := rfl
        next := nextKey_max id db
        opens := ⟨random.dek, Platform.unwrapDek_wrapDek sound _ _, plaintext,
          Platform.decryptContent_encryptContent sound _ _ _⟩ }
    have hkey : record id keyed = _ := (record_insertSecretKey rfl hkeyed).2
    rw [record_updateSecret, hrecord, hkey]
    exact .text happended rfl hserver hkind
  · apply Apart.trans _ (.updateSecret _ _)
    exact (Apart.insertSecretKey rfl hkeyed).trans (.insertSecretVersion rfl hstored)
  · intro s' hs'
    cases hs.symm.trans hs'
    rfl

/-- A silenced audit entry that is committed changes no record. -/
theorem record_logged {c : Connection Database} {action : String} {actorId : Option UUID}
    {actorIp : Option String} {secretId : Option UUID} {metadata : List (String × Json)}
    (h : some db' = (c.db.insertAuditLog now action actorId actorIp secretId metadata).toOption)
    (id : UUID) : record id db' = record id c.db := by
  cases hlog : c.db.insertAuditLog now action actorId actorIp secretId metadata with
  | error error => simp [hlog, Except.toOption] at h
  | ok logged =>
    rw [hlog, Except.toOption, Option.some.injEq] at h
    rw [h]
    exact record_insertAuditLog hlog

theorem extends_update (sound : P.Sound) {body : SecretUpdate} {user : CurrentUser} {clientIp : String}
    {random : Random} {newVersion : ℕ} (h : (SecretVersions.updateTransaction P id body user clientIp
      random now).run db = .ok (newVersion, some db')) : Extends P now id newVersion db db' := by
  obtain ⟨hchecks, s, keyVersion, c, metadata, hs, rfl, hinsert, hcommitted⟩ :=
    SecretVersions.updateTransaction_ok h
  simp only [SecretVersions.updatable, hs, Option.any_some, Bool.and_eq_true, decide_eq_true_eq]
    at hchecks
  obtain ⟨⟨⟨⟨⟨_, htext⟩, _⟩, hlimit⟩, hkey⟩, _⟩ := hchecks
  obtain ⟨m, hm⟩ := Option.isSome_iff_exists.mp hkey
  obtain ⟨old, hold, hkeyed⟩ := Option.bind_eq_some_iff.mp hm
  have hextends := extends_insertTextVersion sound hs hlimit ⟨_, old, hold, by simp [hkeyed]⟩
    (.inl htext) hinsert
  exact hextends.of_same (record_logged hcommitted)

theorem extends_restore (sound : P.Sound) {version : ℤ} {user : CurrentUser} {clientIp : String}
    {random : Random} {newVersion : ℕ} (h : (SecretVersions.restoreTransaction P id version user
      clientIp random now).run db = .ok (newVersion, some db')) : Extends P now id newVersion db db' := by
  obtain ⟨hchecks, s, old, key, dek, plaintext, keyVersion, c, metadata, hs, rfl, hold, hkeyed, _, _, _,
    hinsert, hcommitted⟩ := SecretVersions.restoreTransaction_ok h
  simp only [SecretVersions.restorable, hs, hold, Option.any_some, Bool.and_eq_true,
    decide_eq_true_eq] at hchecks
  obtain ⟨⟨_, hlimit⟩, ⟨htext, _⟩, _⟩ := hchecks
  have hfound : (record id db).versions version.toNat = some old := by
    unfold SecretVersions.versionRow at hold
    split at hold
    · exact hold
    · cases hold
  have hextends := extends_insertTextVersion sound hs hlimit ⟨_, old, hfound, hkeyed⟩
    (.inr ⟨_, old, hfound, htext⟩) hinsert
  exact hextends.of_same (record_logged hcommitted)

theorem ensures_updateFile (sound : P.Sound) {pendingId : UUID} {objectKey : ObjectKey}
    {body : FileUpdate} {encrypted : Files.Encrypted} {size encryptedSize : ℕ} {detail : String}
    {user : CurrentUser} {clientIp : String} (hversion : objectKey.version = body.expectedVersion + 1)
    (hlimit : body.expectedVersion < P.settings.maxSecretVersions)
    (hkind : ∀ s, db.secrets.find objectKey.secretId = some s → s.payloadType = .file)
    (hencloses : Encloses P body.upload objectKey encrypted size) :
    (FileVersions.updateTransaction pendingId objectKey body encrypted size encryptedSize detail user
      clientIp now).Ensures db
      fun _ db' => Extends P now objectKey.secretId objectKey.version db db' := by
  apply Tx.ensures_select_bind
  cases hs : db.secrets.find objectKey.secretId with
  | none => exact Tx.ensures_throw _
  | some s =>
    apply Tx.ensures_raiseIf_bind
    intro hexpected
    apply Tx.ensures_ofExcept_bind
    intro _ _
    apply Tx.ensures_select_bind
    apply Tx.ensures_write_bind
    intro db₁ hkey
    apply Tx.ensures_write_bind
    intro db₂ hinsert
    apply Tx.ensures_write_bind
    intro db₃ hupdate
    cases hupdate
    apply Tx.ensures_write_bind
    intro db₄ hpending
    cases hpending
    apply Tx.ensures_quietly
    intro db₅ hlog
    have hexpected : s.currentVersion = body.expectedVersion := by simpa using hexpected
    obtain ⟨hcheck, _, hrecord⟩ : _ ∧ _ ∧ record objectKey.secretId db₂ = _ :=
      record_insertSecretVersion rfl hinsert
    have happended : Appended P objectKey.secretId s
        (Files.fileVersion objectKey (db.maxKeyVersion objectKey.secretId + 1) size encryptedSize
          encrypted body.upload detail user.id body.changeNote now)
        ⟨objectKey.secretId, encrypted.key.1, encrypted.key.2,
          db.maxKeyVersion objectKey.secretId + 1, some now⟩ (record objectKey.secretId db) :=
      { present := hs
        limit := hexpected ▸ hlimit
        version := ⟨rfl, by rw [hexpected]; exact hversion, hcheck⟩
        object := by
          intro o ho
          cases ho
          exact ⟨rfl, rfl⟩
        keyed := rfl
        next := nextKey_max _ db
        opens := hencloses.opens sound }
    have hrecord₁ : record objectKey.secretId db₁ = _ := (record_insertSecretKey rfl hkey).2
    constructor
    · rw [record_insertAuditLog hlog, record_deletePendingUpload, record_updateSecret, hrecord,
        hrecord₁]
      exact .file happended rfl rfl (hkind s hs)
    · apply Apart.trans _ (.of_same fun _ => record_insertAuditLog hlog)
      apply Apart.trans _ (.of_same fun _ => record_deletePendingUpload pendingId)
      apply Apart.trans _ (.updateSecret _ _)
      exact (Apart.insertSecretKey rfl hkey).trans (.insertSecretVersion rfl hinsert)
    · intro s' hs'
      cases hs.symm.trans hs'
      rw [hversion, hexpected]

theorem rests_rotate (sound : P.Sound) {random : Random} {keyVersion : ℕ}
    (hcurrent : ∀ s, db.secrets.find id = some s →
      (db.secretVersions.find (id, s.currentVersion)).isSome)
    (h : (KeyService.rotateKey P id random now).run db = .ok (keyVersion, some db')) :
    Rests P now db db' := by
  obtain ⟨rfl, s, key, dek, plaintext, keyed, db₁, hs, hkey, hunwrap, hdecrypt, hkeyed, hwritten, heq⟩ :=
    KeyService.rotateKey_ok h
  cases heq
  obtain ⟨v, hv⟩ := Option.isSome_iff_exists.mp (hcurrent s hs)
  obtain ⟨_, versions, _, hsame⟩ := Database.insertSecretKey_ok hkeyed
  obtain ⟨_, hcheck, _⟩ := bind_eq_ok.mp hwritten
  have hcheck := require_ok hcheck
  rw [hsame] at hcheck
  simp only [Database.updateSecret, hv, Option.all_some] at hcheck
  apply Each.of_apart
  · have hrecord : record id keyed = _ := (record_insertSecretKey rfl hkeyed).2
    rw [record_updateTextVersion hwritten, record_updateSecret, hrecord]
    exact .single (.reseal hs hv (Database.latestKey_some hkey)
      (fun m hm => Database.version_le_latestKey hkey hm) (nextKey_max id db) hunwrap hdecrypt
      (Platform.unwrapDek_wrapDek sound _ _)
      (Platform.decryptContent_encryptContent sound _ _ _) hcheck)
  · apply Apart.trans _ (.updateTextVersion hwritten)
    exact (Apart.insertSecretKey rfl hkeyed).trans (.updateSecret _ _)

/-! ### Views -/

/-- A view and its new count, with an audit entry on either side. -/
theorem quiet_view {s : Secret} {view : SecretView} {n : ℕ} {viewed : Bool}
    {viewedDb loggedDb : Database} (hs : db.secrets.find id = some s)
    (hleft : s.viewCount < s.maxViews) (hid : view.secretId = id)
    (hcurrent : view.contentVersion = s.currentVersion)
    (hinsert : db.insertView view = .ok (n, viewedDb))
    (hlogged : ∀ id, record id loggedDb = record id viewedDb)
    (hviewed : viewed = decide (s.maxViews ≤ s.viewCount + 1))
    (hupdate : loggedDb.updateViewCount now id (s.viewCount + 1) viewed = .ok db') :
    Relation.ReflTransGen (Quiet P now id) (record id db) (record id db') ∧ Apart id db db' := by
  have hrecord := (record_insertView hid hinsert).2
  have hsecret : (record id loggedDb).secret = some s := by
    rw [hlogged, hrecord, Record.addView_eq]
    exact hs
  constructor
  · obtain ⟨_, hresult⟩ := record_updateViewCount hsecret hupdate
    rw [hresult]
    split
    · rename_i hlast
      rw [hlogged, hrecord]
      exact .single (.lastView hs (by omega) hcurrent)
    · rename_i hmore
      have hfalse : viewed = false := by simp [hviewed, hmore]
      rw [hlogged, hrecord, hfalse]
      have hsame : (((record id db).addView view).mapSecret fun r =>
          { r with viewCount := s.viewCount + 1, viewed := false }) =
          ((record id db).addView view).mapSecret fun r =>
            { r with viewCount := r.viewCount + 1, viewed := false } := by
        simp [Record.mapSecret, Record.addView_eq, show (record id db).secret = some s from hs]
      rw [hsame]
      exact .single (.view hs (by omega) hcurrent)
  · apply Apart.trans _ (.updateViewCount hupdate)
    exact (Apart.insertView hid hinsert).trans (.of_same hlogged)

theorem rests_retrieve {policy : Option SecretAccessPolicy} {policyVersion : ℕ}
    {accessPassword : Option String} {clientIp : String} {currentUser : Option CurrentUser}
    {seen : Secrets.Seen} (h : (Secrets.retrieveTransaction P id policy policyVersion accessPassword
      clientIp currentUser now).run db = .ok (seen, some db')) : Rests P now db db' := by
  obtain ⟨hs, _, hleft, _, viewedDb, logs, final, n, hinsert, hupdate, heq⟩ :=
    Secrets.retrieveTransaction_ok h
  cases heq
  have hlogged : ∀ id, record id { viewedDb with auditLogs := logs } = record id viewedDb :=
    fun _ => rfl
  have hmoves := quiet_view (P := P) hs hleft rfl rfl hinsert hlogged rfl hupdate
  exact .of_apart hmoves.1 hmoves.2

theorem rests_download {policy : Option SecretAccessPolicy} {version policyVersion : ℕ}
    {encrypted : Bytes} {clientIp : String} {currentUser : Option CurrentUser}
    {opened : Files.Opened} (h : (Files.downloadTransaction P id policy version policyVersion encrypted
      clientIp currentUser now).run db = .ok (opened, some db')) : Rests P now db db' := by
  obtain ⟨hs, hversion, havailable, _, viewedDb, n, updated, metadata, hinsert, hupdate, hcommitted⟩ :=
    Files.downloadTransaction_ok h
  simp only [Files.available, hs, Option.any_some, Bool.and_eq_true, decide_eq_true_eq] at havailable
  have hmoves := quiet_view (P := P) hs havailable.2.2 rfl hversion.symm hinsert
    (fun _ => rfl) rfl hupdate
  have hlogged := record_logged (c := ⟨updated, false⟩) hcommitted
  apply Each.of_apart
  · rw [hlogged]
    exact hmoves.1
  · exact hmoves.2.trans (.of_same hlogged)

/-! ### Policies and deletions -/

/-- A new policy, with the share token of the row that was read. -/
theorem quiet_policy {r : Record} {s : Secret} {policy : SecretAccessPolicy}
    {f : SecretAccessPolicy → SecretAccessPolicy} (hs : r.secret = some s)
    (hpolicy : r.policy = some policy) (hf : (f policy).policyVersion = policy.policyVersion + 1) :
    Quiet P now id r ({ r with policy := r.policy.map f }.mapSecret fun row => { row with
      signedToken := some (Security.createSignedToken P id (s.expiresAt / second)
        (policy.policyVersion + 1))
      updatedAt := now }) := by
  have hquiet : Quiet P now id r _ := .repolicy hpolicy hf
  simpa [Record.mapSecret, hs, hpolicy, hf] using hquiet

theorem ensures_policyTransaction {body : LocationPolicyUpdate} {user : CurrentUser}
    {clientIp : String} : (SecretAccess.policyTransaction P id body user clientIp now).Ensures db
      fun _ db' => Rests P now db db' := by
  apply Tx.ensures_select_bind
  cases hs : db.secrets.find id with
  | none => exact Tx.ensures_throw _
  | some s =>
    apply Tx.ensures_select_bind
    cases hpolicy : db.secretAccessPolicies.find id with
    | none => exact Tx.ensures_throw _
    | some policy =>
      apply Tx.ensures_ofExcept_bind
      intro _ _
      apply Tx.ensures_write_bind
      intro db₁ hmodify
      cases hmodify
      apply Tx.ensures_write_bind
      intro db₂ hupdate
      cases hupdate
      apply Tx.ensures_quietly_bind
      · exact Tx.sticky_pure _
      intro db₃ hlog
      apply Tx.ensures_pure
      apply Each.of_apart
      · rw [record_insertAuditLog hlog, record_updateSecret, record_updatePolicy]
        exact .single (quiet_policy hs hpolicy rfl)
      · apply Apart.trans _ (.of_same fun _ => record_insertAuditLog hlog)
        exact (Apart.updatePolicy _ _).trans (.updateSecret _ _)

theorem Rests.deleteSecrets (P : Platform) (now : Timestamp) (p : Secret → Bool) (db : Database) :
    Rests P now db (db.deleteSecrets now p) := by
  intro id
  rw [record_deleteSecrets]
  split
  · exact .single .remove
  · exact .refl

theorem ensures_deleteTransaction {user : CurrentUser} {clientIp : String} :
    (Secrets.deleteTransaction id user clientIp now).Ensures db fun _ db' => Rests P now db db' := by
  apply Tx.ensures_select_bind
  cases hs : db.secrets.find id with
  | none => exact Tx.ensures_throw _
  | some s =>
    apply Tx.ensures_ofExcept_bind
    intro _ _
    apply Tx.ensures_quietly_bind
    · exact Tx.sticky_write _
    intro db₁ hlog
    apply Tx.ensures_write
    intro db₂ hdelete
    cases hdelete
    intro other
    rw [← record_insertAuditLog hlog]
    exact Rests.deleteSecrets P now _ db₁ other

theorem ensures_expireTransaction :
    (CleanupService.expireTransaction id now).Ensures db fun _ db' => Rests P now db db' := by
  apply Tx.ensures_select_bind
  apply Tx.ensures_write_bind
  intro db₁ hdelete
  cases hdelete
  apply Tx.ensures_pure
  exact Rests.deleteSecrets P now _ db

/-- A sweep deletes histories after the secrets that are over. -/
theorem ensures_sweepTransaction :
    (CleanupService.sweepTransaction now).Ensures db fun _ db' => Rests P now db db' := by
  apply Tx.ensures_select_bind
  apply Tx.ensures_write_bind
  intro db₁ hsecrets
  cases hsecrets
  apply Tx.ensures_select_bind
  apply Tx.ensures_write_bind
  intro db₂ husers
  cases husers
  apply Tx.ensures_write_bind
  intro db₃ htracking
  cases htracking
  apply Tx.ensures_select_bind
  apply Tx.ensures_write_bind
  intro db₄ hsessions
  cases hsessions
  apply Tx.ensures_pure
  intro id
  apply Relation.ReflTransGen.trans (Rests.deleteSecrets P now (CleanupService.spent now) db id)
  have hover : ∀ s, (record id (db.deleteSecrets now (CleanupService.spent now))).secret = some s →
      now ≤ s.expiresAt := by
    intro s hs
    rw [record_deleteSecrets] at hs
    split at hs
    · cases hs
    · rename_i hkept
      simp only [hs, Option.any_some, CleanupService.spent, Bool.or_eq_true, decide_eq_true_eq,
        not_or, not_lt] at hkept
      exact hkept.1
  have hdisown : Relation.ReflTransGen (Quiet P now id) (record id (db.deleteSecrets now (CleanupService.spent now)))
      (record id ((db.deleteSecrets now (CleanupService.spent now)).deleteUsers
        (CleanupService.removable now))) := by
    rw [record_deleteUsers]
    exact .single (.disown _)
  apply hdisown.trans
  change Relation.ReflTransGen (Quiet P now id) _ (record id (((db.deleteSecrets now (CleanupService.spent now)).deleteUsers
    (CleanupService.removable now)).deleteTracking now))
  rw [record_deleteTracking]
  split
  · rename_i hdue
    apply Relation.ReflTransGen.single (Quiet.untrack _ _)
    · intro s' hs'
      rw [record_deleteUsers] at hs'
      obtain ⟨s, hs, rfl⟩ := Option.map_eq_some_iff.mp hs'
      exact hover s hs
    · intro t ht
      rw [ht] at hdue
      simpa using hdue
  · exact .refl

end PhantomShare.Lifecycle
