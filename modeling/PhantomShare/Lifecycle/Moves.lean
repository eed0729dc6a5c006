import Mathlib.Logic.Relation
import PhantomShare.Lifecycle.Record
import PhantomShare.Routers.FileVersions
import PhantomShare.Routers.SecretVersions

/-!
# The life of a secret

A secret is born whole: its row, its first version, its policy and its tracking row
come together. From then on it is viewed, gets new versions, is sealed again and gets
new policies, until it is removed; its owner may disappear before that, and its
history later. This machine is what the service does to each secret, whichever other
secrets there are.
-/
namespace PhantomShare.Lifecycle
open Foundations

/-- What a text version holds: a plaintext sealed under the key. -/
def SealsText (P : Platform) (v : SecretVersion) (dek : Bytes) (plaintext : String) : Prop :=
  KeyService.decryptColumns P v.content v.nonce dek = .ok plaintext

/-- What a file version holds: the object, the name and the type of an upload. -/
structure SealsFile (P : Platform) (v : SecretVersion) (dek : Bytes) (upload : Upload)
    (plaintext : Bytes) (encrypted : Files.Encrypted) : Prop where
  encrypts : ∃ random, random.dek = dek ∧
    Files.encryptUpload P upload plaintext random v.secretId v.version = .ok encrypted
  filename : v.filenameCiphertext = some encrypted.filename.1
  nonce : v.filenameNonce = some encrypted.filename.2
  mediaType : v.mediaType = upload.contentType
  digest : v.contentSha256 = some encrypted.file.digest
  size : v.plaintextSize = plaintext.length

/-- The key opens what the version holds. -/
def Opens (P : Platform) (v : SecretVersion) (key : SecretKey) : Prop :=
  ∃ dek, P.unwrapDek key.wrappedDek key.dekNonce = .ok dek ∧
    match v.payloadType with
    | .text => ∃ plaintext, SealsText P v dek plaintext
    | .file => ∃ upload plaintext encrypted, SealsFile P v dek upload plaintext encrypted

/-- `n` is one more than the number of the newest key. -/
structure NextKey (r : Record) (n : ℕ) : Prop where
  above : ∀ m, (r.keys m).isSome → m < n
  least : ∀ m, (∀ k, (r.keys k).isSome → k ≤ m) → n ≤ m + 1

/-- The share token of a policy, which expires with the secret or before. The token is stamped with
`time.time()` and the expiry with `NOW()`, which are one clock in a `World`. -/
def Signed (P : Platform) (id : UUID) (s : Secret) (policyVersion : ℕ) : Prop :=
  ∃ ts, ts * second ≤ s.expiresAt ∧
    s.signedToken = some (Security.createSignedToken P id ts policyVersion)

/-- What a creation inserts. -/
structure Newborn (P : Platform) (id : UUID) (s : Secret) (v : SecretVersion)
    (key : Option SecretKey) (policy : SecretAccessPolicy) (recipients : List SecretRecipient)
    (ownerId : UUID) : Prop where
  lifetime : s.expiresAt = s.createdAt + hours s.ttlHours
  ttl : 1 ≤ s.ttlHours ∧ s.ttlHours ≤ 168
  unseen : s.viewCount = 0 ∧ s.viewed = false
  views : 0 ≤ s.maxViews
  guarded : s.passwordProtected = s.accessPasswordHash.isSome
  owned : s.ownerId = some ownerId
  first : s.currentVersion = 1
  version : v.secretId = id ∧ v.version = 1 ∧ v.payloadType = s.payloadType ∧ v.payloadCheck = true
  object : ∀ o, v.objectKey = some o → o.secretId = id ∧ o.version = 1
  copy : s.content = v.content ∧ s.nonce = v.nonce
  uncopied : v.payloadType = .file → v.nonce = none
  keyed : v.keyVersion = key.map SecretKey.version
  opens : ∀ k, key = some k → k.version = 1 ∧ Opens P v k
  client : key = none → s.payloadType = .text
  policy : policy.policyVersion = 1
  signed : Signed P id s 1
  unrestricted : s.emailRestricted = false → recipients = []

def Record.born (s : Secret) (v : SecretVersion) (key : Option SecretKey)
    (policy : SecretAccessPolicy) (recipients : List SecretRecipient) (tracking : SecretTracking)
    (r : Record) : Record where
  secret := some s
  keys := key.elim r.keys fun k => Function.update r.keys k.version (some k)
  versions := Function.update r.versions v.version (some v)
  policy := some policy
  tracking := some tracking
  recipients := r.recipients ++ recipients
  views := r.views

/-- The birth of a secret under an id that has no record. -/
inductive Birth (P : Platform) (id : UUID) (r : Record) : Record → Prop
  | born {s : Secret} {v : SecretVersion} {key : Option SecretKey} {policy : SecretAccessPolicy}
      {recipients : List SecretRecipient} {ownerId : UUID} (absent : r.secret = none)
      (untracked : r.tracking = none) (newborn : Newborn P id s v key policy recipients ownerId) :
      Birth P id r (r.born s v key policy recipients
        ⟨id, ownerId, s.expiresAt + days P.settings.viewHistoryRetentionDays⟩)

/-- What a new version has to be. -/
structure Appended (P : Platform) (id : UUID) (s : Secret) (v : SecretVersion) (key : SecretKey)
    (r : Record) : Prop where
  present : r.secret = some s
  limit : s.currentVersion < P.settings.maxSecretVersions
  version : v.secretId = id ∧ v.version = s.currentVersion + 1 ∧ v.payloadCheck = true
  object : ∀ o, v.objectKey = some o → o.secretId = id ∧ o.version = v.version
  keyed : v.keyVersion = some key.version
  next : NextKey r key.version
  opens : Opens P v key

/-- A version whose plaintext is sealed again. -/
def reseal (content nonce : String) (keyVersion : ℕ) (v : SecretVersion) : SecretVersion :=
  { v with content := some content, nonce := some nonce, keyVersion := some keyVersion }

def Record.resealed (n : ℕ) (key : SecretKey) (content nonce : String) (r : Record) : Record :=
  ((r.addKey key).mapVersion n (reseal content nonce key.version)).mapSecret fun s =>
    { s with content := some content, nonce := some nonce }

/-- The steps that leave the number of the current version as it is. -/
inductive Quiet (P : Platform) (now : Timestamp) (id : UUID) (r : Record) : Record → Prop
  | view {s : Secret} {view : SecretView} (present : r.secret = some s)
      (left : s.viewCount + 1 < s.maxViews) (current : view.contentVersion = s.currentVersion) :
      Quiet P now id r ((r.addView view).mapSecret fun s =>
        { s with viewCount := s.viewCount + 1, viewed := false })
  | lastView {s : Secret} {view : SecretView} (present : r.secret = some s)
      (last : s.viewCount + 1 = s.maxViews) (current : view.contentVersion = s.currentVersion) :
      Quiet P now id r (r.addView view).removed
  | remove : Quiet P now id r r.removed
  | reseal {s : Secret} {v : SecretVersion} {old key : SecretKey} {dek dek' : Bytes}
      {plaintext content nonce : String} (present : r.secret = some s)
      (current : r.versions s.currentVersion = some v) (held : r.keys old.version = some old)
      (newest : ∀ m, (r.keys m).isSome → m ≤ old.version) (next : NextKey r key.version)
      (unwraps : P.unwrapDek old.wrappedDek old.dekNonce = .ok dek)
      (opens : KeyService.decryptColumns P s.content s.nonce dek = .ok plaintext)
      (unwraps' : P.unwrapDek key.wrappedDek key.dekNonce = .ok dek')
      (opens' : KeyService.decryptColumns P (some content) (some nonce) dek' = .ok plaintext)
      (check : (reseal content nonce key.version v).payloadCheck = true) :
      Quiet P now id r (r.resealed s.currentVersion key content nonce)
  | repolicy {policy policy' : SecretAccessPolicy} (present : r.policy = some policy)
      (next : policy'.policyVersion = policy.policyVersion + 1) :
      Quiet P now id r ({ r with policy := some policy' }.mapSecret fun s => { s with
        signedToken := some (Security.createSignedToken P id (s.expiresAt / second)
          policy'.policyVersion)
        updatedAt := now })
  | disown (gone : UUID → Bool) : Quiet P now id r (r.disowned gone)
  | untrack (running : ∀ s, r.secret = some s → now ≤ s.expiresAt)
      (due : ∀ t, r.tracking = some t → t.retainUntil ≤ now) : Quiet P now id r r.untracked

/-- The next version, with a key of its own. -/
inductive Append (P : Platform) (now : Timestamp) (id : UUID) (r : Record) : Record → Prop
  | text {s : Secret} {v : SecretVersion} {key : SecretKey}
      (appended : Appended P id s v key r) (text : v.payloadType = .text)
      (server : ∃ n old, r.versions n = some old ∧ old.keyVersion.isSome)
      (kind : s.payloadType = .text ∨ ∃ n old, r.versions n = some old ∧ old.payloadType = .text) :
      Append P now id r (((r.addKey key).setVersion v).mapSecret fun s => { s with
        content := v.content, nonce := v.nonce, currentVersion := v.version, updatedAt := now })
  | file {s : Secret} {v : SecretVersion} {key : SecretKey}
      (appended : Appended P id s v key r) (file : v.payloadType = .file) (uncopied : v.nonce = none)
      (kind : s.payloadType = .file) :
      Append P now id r (((r.addKey key).setVersion v).mapSecret fun s =>
        { s with currentVersion := v.version, updatedAt := now })

/-- The steps of a secret that has been born. -/
def Move (P : Platform) (now : Timestamp) (id : UUID) (r r' : Record) : Prop :=
  Quiet P now id r r' ∨ Append P now id r r'

/-- What one transaction does to a record. -/
def Moves (P : Platform) (now : Timestamp) (id : UUID) : Record → Record → Prop :=
  Relation.ReflTransGen (Move P now id)

section Versions
variable {P : Platform} {now : Timestamp} {id : UUID} {r r' : Record}

theorem Quiet.version (h : Quiet P now id r r') {s' : Secret} (hs' : r'.secret = some s') :
    ∃ s, r.secret = some s ∧ s'.currentVersion = s.currentVersion := by
  cases h with
  | lastView present last current => cases hs'
  | remove => cases hs'
  | untrack running due => exact ⟨s', hs', rfl⟩
  | disown gone =>
    obtain ⟨s, hs, rfl⟩ := Option.map_eq_some_iff.mp hs'
    exact ⟨s, hs, rfl⟩
  | view | reseal | repolicy =>
    obtain ⟨s, hs, rfl⟩ := Option.map_eq_some_iff.mp hs'
    exact ⟨s, by simpa [Record.addView_eq, Record.mapVersion] using hs, rfl⟩

theorem Append.version (h : Append P now id r r') : ∃ s s', r.secret = some s ∧
    r'.secret = some s' ∧ s'.currentVersion = s.currentVersion + 1 := by
  cases h with
  | @text s v key appended text server kind =>
    have hs' := congrArg (Option.map fun s => { s with
      content := v.content, nonce := v.nonce, currentVersion := v.version, updatedAt := now })
      appended.present
    exact ⟨s, _, appended.present, hs', appended.version.2.1⟩
  | @file s v key appended file uncopied kind =>
    have hs' := congrArg (Option.map fun s => { s with
      currentVersion := v.version, updatedAt := now }) appended.present
    exact ⟨s, _, appended.present, hs', appended.version.2.1⟩

theorem Birth.version (h : Birth P id r r') (s : Secret) (hs : r'.secret = some s) :
    s.currentVersion = 1 := by
  cases h with
  | born absent untracked newborn =>
    cases hs
    exact newborn.first

end Versions

end PhantomShare.Lifecycle
