import PhantomShare.Access.Frozen
import PhantomShare.Store.History

/-!
# What an owner can do to a text secret

A text secret is a document: its owner, its expiry, and its plaintexts or what a
client sealed. An update, a restore and a rotation answer as the document tells, on
every database that stores it, whatever rows it is stored in.
-/
namespace PhantomShare.Store
open Foundations

inductive Payload where
  | server (texts : List String)
  | client (content : String) (nonce : Option String)
  deriving DecidableEq

structure Document where
  ownerId : Option UUID
  expiresAt : Timestamp
  payload : Payload
  deriving DecidableEq

namespace Document

/-- The number of the current version. -/
def version (doc : Document) : ℕ :=
  match doc.payload with
  | .server texts => texts.length
  | .client _ _ => 1

/-- What a reader gets, and whether the reader has to decrypt it. -/
def reading (doc : Document) : Option (String × Bool) :=
  match doc.payload with
  | .server texts => texts.getLast?.map fun text => (text, false)
  | .client content _ => some (content, true)

/-- The document of another owner. -/
def ownedBy (doc : Document) (ownerId : Option UUID) : Document := { doc with ownerId := ownerId }

end Document

/-! ### Answers -/

section Verdicts
variable (P : Platform) (doc : Document) (user : CurrentUser)

/-- A new last version, by a user that is in the table. -/
def appended (texts : List String) (text : String) (known : Bool) : Except Exn (ℕ × Document) :=
  if known then .ok (texts.length + 1, { doc with payload := .server (texts ++ [text]) })
  else .error (.sql .foreignKeyViolation)

end Verdicts

/-! ### Databases that store a document -/

/-- The columns of a row that managing it reads and leaves alone. -/
def management (s : Secret) : PayloadType × Option UUID × Timestamp :=
  (s.payloadType, s.ownerId, s.expiresAt)

/-- The versions of a secret are versions of a text. -/
def Textual (id : UUID) (db : Database) : Prop :=
  ∀ n row, db.secretVersions.find (id, n) = some row →
    row.payloadType = .text ∧ row.objectKey = none

/-- The content was sealed by a client, and the server has no key. -/
structure HoldsClient (id : UUID) (content : String) (nonce : Option String) (db : Database) :
    Prop where
  current : ∃ s, db.secrets.find id = some s ∧ contentOf s = ⟨some content, nonce, 1⟩
  first : ∃ row, db.secretVersions.find (id, 1) = some row ∧ row.content = some content ∧
    row.nonce = nonce ∧ row.keyVersion = none
  keyless : db.keysOf id = []
  single : ∀ n, (db.secretVersions.find (id, n)).isSome → n = 1

def HoldsPayload (P : Platform) (id : UUID) (db : Database) : Payload → Prop
  | .server texts => texts ≠ [] ∧ Holds P id texts db
  | .client content nonce => HoldsClient id content nonce db

structure Stored (P : Platform) (id : UUID) (doc : Document) (db : Database) : Prop where
  managed : (db.secrets.find id).map management = some (.text, doc.ownerId, doc.expiresAt)
  textual : Textual id db
  payload : HoldsPayload P id db doc.payload

/-- The result of a transaction is the given answer, and a commit stores the document that it
leaves. -/
def Complies (P : Platform) (id : UUID) (commits : Bool) :
    Except Exn (ℕ × Document) → Except Exn (ℕ × Option Database) → Prop
  | .ok (value, doc), .ok (value', committed) => value' = value ∧ committed.isSome = commits ∧
      ∀ db, committed = some db → Stored P id doc db
  | .error error, .error error' => error' = error
  | _, _ => False

section Stored
variable {P : Platform} {id : UUID} {doc : Document} {db : Database}

theorem Stored.row (h : Stored P id doc db) : ∃ s, db.secrets.find id = some s ∧
    s.payloadType = .text ∧ s.ownerId = doc.ownerId ∧ s.expiresAt = doc.expiresAt ∧
    s.currentVersion = doc.version := by
  obtain ⟨s, hs, hmanaged⟩ := Option.map_eq_some_iff.mp h.managed
  have hversion : s.currentVersion = doc.version := by
    have hpayload := h.payload
    rw [Document.version]
    cases hkind : doc.payload with
    | server texts =>
      rw [hkind] at hpayload
      exact hpayload.2.currentVersion_eq hs
    | client content nonce =>
      rw [hkind] at hpayload
      obtain ⟨s', hs', hcontent⟩ := hpayload.current
      rw [hs] at hs'
      cases hs'
      exact congrArg Content.currentVersion hcontent
  simp only [management, Prod.mk.injEq] at hmanaged
  exact ⟨s, hs, hmanaged.1, hmanaged.2.1, hmanaged.2.2, hversion⟩

end Stored

/-! ### What the operations leave alone -/

/-- The management columns are as they were, and text stays text. -/
structure Kept (id : UUID) (db db' : Database) : Prop where
  managed : (db'.secrets.find id).map management = (db.secrets.find id).map management
  textual : Textual id db → Textual id db'

section Kept
variable {P : Platform} {id : UUID} {db db' : Database}

theorem Kept.trans {a b c : Database} (hab : Kept id a b) (hbc : Kept id b c) : Kept id a c where
  managed := hbc.managed.trans hab.managed
  textual h := hbc.textual (hab.textual h)

theorem Kept.of_eq (hsecrets : db'.secrets = db.secrets)
    (hversions : db'.secretVersions = db.secretVersions) : Kept id db db' where
  managed := by rw [hsecrets]
  textual h n row hrow := h n row (by rwa [← hversions])

theorem Kept.updateSecret (db : Database) (f : Secret → Secret) (hf : ∀ r, (f r).id = r.id)
    (h : ∀ r, management (f r) = management r) : Kept id db (db.updateSecret id f hf) where
  managed := by
    rw [Database.updateSecret, Table.find_modify, if_pos rfl, Option.map_map]
    congr 1
    funext r
    exact h r
  textual htextual := htextual

theorem Kept.insertSecretKey {row : SecretKey} (h : db.insertSecretKey row = .ok db') :
    Kept id db db' := by
  obtain ⟨_, keys, _, rfl⟩ := Database.insertSecretKey_ok h
  exact .of_eq rfl rfl

theorem Kept.insertSecretVersion {row : SecretVersion} (htext : row.payloadType = .text)
    (hobject : row.objectKey = none) (h : db.insertSecretVersion row = .ok db') :
    Kept id db db' := by
  obtain ⟨_, _, versions, hinsert, rfl⟩ := Database.insertSecretVersion_ok h
  constructor
  · rfl
  · intro htextual n other hother
    rw [Table.find_of_insert hinsert] at hother
    split at hother
    · cases hother
      exact ⟨htext, hobject⟩
    · exact htextual n other hother

theorem Kept.insertAuditLog {now : Timestamp} {action : String} {actorId : Option UUID}
    {actorIp : Option String} {secretId : Option UUID} {metadata : List (String × Json)}
    (h : db.insertAuditLog now action actorId actorIp secretId metadata = .ok db') :
    Kept id db db' := by
  obtain ⟨_, _, row, rfl⟩ := Database.insertAuditLog_ok h
  exact .of_eq rfl rfl

theorem Kept.insertTextVersion {version keyVersion : ℕ} {plaintext : String} {actorId : UUID}
    {changeNote : Option String} {random : Random} {now : Timestamp} {c : Connection Database}
    (h : SecretVersions.insertTextVersion P id version plaintext actorId changeNote random now
      ⟨db, false⟩ = (.ok keyVersion, c)) : Kept id db c.db := by
  obtain ⟨_, _, keyed, stored, hkeyed, hstored, hdb⟩ := SecretVersions.insertTextVersion_ok h
  have hinserted : Kept id db stored :=
    (Kept.insertSecretKey hkeyed).trans (.insertSecretVersion rfl rfl hstored)
  rw [hdb]
  exact hinserted.trans (.updateSecret stored _ _ fun _ => rfl)

theorem Kept.updateTextVersion {version keyVersion : ℕ} {content nonce : String}
    (h : db.updateTextVersion id version content nonce keyVersion = .ok db') : Kept id db db' := by
  obtain ⟨⟨versions, rfl⟩, hfind⟩ := Database.updateTextVersion_ok h
  constructor
  · rfl
  · intro htextual n row hrow
    rw [hfind] at hrow
    split at hrow
    · obtain ⟨old, hold, rfl⟩ := Option.map_eq_some_iff.mp hrow
      exact htextual version old hold
    · exact htextual n row hrow

theorem Kept.rotateKey {keyVersion : ℕ} {random : Random} {now : Timestamp}
    (h : (KeyService.rotateKey P id random now).run db = .ok (keyVersion, some db')) :
    Kept id db db' := by
  obtain ⟨_, secret, key, dek, plaintext, keyed, written, _, _, _, _, hkeyed, hversion, hwritten⟩ :=
    KeyService.rotateKey_ok h
  cases hwritten
  have hversioned := Kept.updateTextVersion hversion
  apply (Kept.insertSecretKey hkeyed).trans
  apply Kept.trans _ hversioned
  exact .updateSecret keyed _ _ fun _ => rfl

/-- What an append leaves, after the audit entry that commits it. -/
theorem Kept.appended {version keyVersion : ℕ} {plaintext : String} {actorId : UUID}
    {changeNote : Option String} {random : Random} {now : Timestamp} {c : Connection Database}
    {action : String} {actorIp : Option String} {secretId : Option UUID}
    {metadata : List (String × Json)}
    (h : SecretVersions.insertTextVersion P id version plaintext actorId changeNote random now
      ⟨db, false⟩ = (.ok keyVersion, c))
    (hlog : some db' =
      (c.db.insertAuditLog now action (some actorId) actorIp secretId metadata).toOption) :
    Kept id db db' := by
  apply (Kept.insertTextVersion h).trans
  cases hentry : c.db.insertAuditLog now action (some actorId) actorIp secretId metadata with
  | error error =>
    rw [hentry] at hlog
    cases hlog
  | ok logged =>
    rw [hentry] at hlog
    cases hlog
    exact .insertAuditLog hentry

end Kept

/-! ### The operations comply -/

section Complies
variable {P : Platform} {id : UUID} {commits : Bool} {verdict : Except Exn (ℕ × Document)}
  {result : Except Exn (ℕ × Option Database)} {error : Exn}

theorem Complies.check (check : Except Exn Unit)
    (h : check = .ok () → Complies P id commits verdict result) :
    Complies P id commits (check.bind fun _ => verdict) (check.bind fun _ => result) := by
  cases check with
  | error error => rfl
  | ok _ => exact h rfl

theorem Complies.raiseIf (bad : Prop) [Decidable bad]
    (h : ¬ bad → Complies P id commits verdict result) :
    Complies P id commits (if bad then .error error else verdict)
      (if bad then .error error else result) := by
  by_cases hbad : bad
  · rw [if_pos hbad, if_pos hbad]
    rfl
  · rw [if_neg hbad, if_neg hbad]
    exact h hbad

variable {doc : Document} {db : Database} {user : CurrentUser} {clientIp : String} {random : Random}
  {now : Timestamp}

/-- The key of the current version is on record when the server holds one. -/
theorem Stored.currentKey {s : Secret} (h : Stored P id doc db) (hs : db.secrets.find id = some s) :
    ((db.secretVersions.find (id, s.currentVersion)).bind SecretVersion.keyVersion).isNone =
      match doc.payload with
      | .server _ => false
      | .client _ _ => true := by
  have hpayload := h.payload
  cases hkind : doc.payload with
  | server texts =>
    rw [hkind] at hpayload
    obtain ⟨s', row, key, hs', hcontent, hrow, hkeyed, _⟩ := hpayload.2.current
    rw [hs, Option.some.injEq] at hs'
    subst hs'
    have hversion : s.currentVersion = texts.length := congrArg Content.currentVersion hcontent
    rw [hversion, hrow, Option.bind_some, hkeyed]
    rfl
  | client content nonce =>
    rw [hkind] at hpayload
    obtain ⟨s', hs', hcontent⟩ := hpayload.current
    obtain ⟨row, hrow, _, _, hkeyless⟩ := hpayload.first
    rw [hs, Option.some.injEq] at hs'
    subst hs'
    have hversion : s.currentVersion = 1 := congrArg Content.currentVersion hcontent
    rw [hversion, hrow, Option.bind_some, hkeyless]
    rfl

/-- The row of a version of a server-encrypted secret opens to the text at its place. -/
theorem Holds.versionRow {texts : List String} {source : ℤ} {text : String}
    (h : Holds P id texts db) (hversion : Texts.version texts source = some text) :
    ∃ row key, SecretVersions.versionRow id source db = some row ∧
      OpensTo P id source.toNat text row key db := by
  rw [Texts.version] at hversion
  split at hversion
  · rename_i hpos
    obtain ⟨row, key, hopens⟩ := h.opens _ _ hversion
    have hplace : source.toNat - 1 + 1 = source.toNat := by omega
    rw [hplace] at hopens
    refine ⟨row, key, ?_, hopens⟩
    rw [SecretVersions.versionRow, if_pos (by omega), hopens.stored]
  · cases hversion

/-- The latest key opens the columns of the secret to the last text. -/
theorem Holds.current_opens {texts : List String} {s : Secret} (h : Holds P id texts db)
    (hne : texts ≠ []) (hs : db.secrets.find id = some s) :
    ∃ key dek text, db.latestKey id = some key ∧ P.unwrapDek key.wrappedDek key.dekNonce = .ok dek ∧
      KeyService.decryptColumns P s.content s.nonce dek = .ok text ∧
      texts.getLast? = some text := by
  obtain ⟨s', row, key, hs', hcontent, hrow, hkeyed, hlatest⟩ := h.current
  rw [hs, Option.some.injEq] at hs'
  subst hs'
  simp only [contentOf, Content.mk.injEq] at hcontent
  have hpos := List.length_pos_iff.mpr hne
  obtain ⟨last, hlast⟩ : ∃ last, texts[texts.length - 1]? = some last :=
    ⟨_, List.getElem?_eq_getElem (by omega)⟩
  obtain ⟨row', key', hopens⟩ := h.opens _ _ hlast
  rw [Nat.sub_add_cancel hpos] at hopens
  have hrows := hopens.stored
  rw [hrow, Option.some.injEq] at hrows
  subst hrows
  have hversions := hopens.keyed
  rw [hkeyed, Option.some.injEq] at hversions
  have hkeys := hopens.found
  rw [← hversions, Database.latestKey_some hlatest, Option.some.injEq] at hkeys
  subst hkeys
  obtain ⟨dek, hunwrap, hdecrypt⟩ := hopens.opens
  refine ⟨key, dek, last, hlatest, hunwrap, ?_, ?_⟩
  · rw [hcontent.1, hcontent.2.1, hdecrypt]
  · rw [List.getLast?_eq_getElem?, hlast]

/-- The row of a text takes new content. -/
theorem Textual.updateTextVersion (h : Textual id db) (version : ℕ) (content nonce : String)
    (keyVersion : ℕ) :
    ∃ db', db.updateTextVersion id version content nonce keyVersion = .ok db' := by
  have hcheck : ((db.secretVersions.find (id, version)).all fun v => SecretVersion.payloadCheck
      { v with content := some content, nonce := some nonce, keyVersion := some keyVersion }) =
        true := by
    cases hrow : db.secretVersions.find (id, version) with
    | none => rfl
    | some row =>
      obtain ⟨htext, hobject⟩ := h version row hrow
      simp [SecretVersion.payloadCheck, htext, hobject]
  rw [Database.updateTextVersion, hcheck]
  exact ⟨_, rfl⟩

/-- What a creation stores. -/
def payloadOf (body : SecretCreate) : Payload :=
  if body.clientEncrypted then .client body.content body.clientNonce else .server [body.content]

/-- The first version of a server-encrypted secret. -/
theorem Sealed.holds {db' : Database} {text : String} {row : SecretVersion} {key : SecretKey}
    (sound : P.Sound) (habsent : Absent id db) (htext : SealedText P id 1 text random row key)
    (h : Sealed id row key db db') : Holds P id [text] db' := by
  change SealedText P id [text].length text random row key at htext
  apply Holds.of_sealed sound h htext rfl
  · intro i other hi hlast
    have hlt := (List.getElem?_eq_some_iff.mp hi).1
    simp only [List.length_singleton] at hlt hlast
    omega
  · intro n hn
    rw [habsent.versions n] at hn
    cases hn

end Complies

/-! ### Two databases that store one document -/

section Alike
variable {P : Platform} {id : UUID} {doc : Document} {db db' : Database} {user : CurrentUser}
  {ownerId ownerId' : Option UUID}

/-- The answer behind the check of an owner, about the document of that owner. -/
def ownedVerdict (ownerId : Option UUID) (user : CurrentUser) (answer : Except Exn (ℕ × Document)) :
    Except Exn (ℕ × Document) :=
  (Security.requireOwnsSecret ownerId user).bind fun _ =>
    answer.map fun answered => (answered.1, answered.2.ownedBy ownerId)

/-- Each behind the check of its own owner, the same answer, and after a commit the same document
but for the owner. -/
def Alike (P : Platform) (id : UUID) (user : CurrentUser) (ownerId ownerId' : Option UUID)
    (result result' : Except Exn (ℕ × Option Database)) : Prop :=
  ∃ commits answer, Complies P id commits (ownedVerdict ownerId user answer) result ∧
    Complies P id commits (ownedVerdict ownerId' user answer) result'

end Alike

end PhantomShare.Store
