import Mathlib.Data.List.MinMax
import PhantomShare.World

/-!
# Data keys

`key_service.py`: every secret has numbered data keys, wrapped under the master
key. The newest key encrypts the current content; every version row records the
number of its key.
-/
namespace PhantomShare
open Foundations

namespace Database

def keysOf (secretId : UUID) (db : Database) : List SecretKey :=
  db.secretKeys.rows.filter fun k => k.secretId = secretId

/-- `COALESCE(MAX(version), 0)`. -/
def maxKeyVersion (secretId : UUID) (db : Database) : ℕ :=
  ((db.keysOf secretId).map SecretKey.version).foldr max 0

/-- `ORDER BY version DESC LIMIT 1`. -/
def latestKey (secretId : UUID) (db : Database) : Option SecretKey :=
  (db.keysOf secretId).argmax SecretKey.version

/-- The key of a version number, or the latest one. -/
def keyRow (secretId : UUID) (keyVersion : Option ℕ) (db : Database) : Option SecretKey :=
  match keyVersion with
  | none => db.latestKey secretId
  | some version => db.secretKeys.find (secretId, version)

/-- `UPDATE secret_versions SET content = …, nonce = …, key_version = …`. -/
def updateTextVersion (secretId : UUID) (version : ℕ) (content nonce : String) (keyVersion : ℕ)
    (db : Database) : Except Exn Database := do
  let change := fun v : SecretVersion =>
    { v with content := some content, nonce := some nonce, keyVersion := some keyVersion }
  require ((db.secretVersions.find (secretId, version)).all fun v => (change v).payloadCheck)
    .checkViolation
  return { db with
    secretVersions := db.secretVersions.modify (secretId, version) change fun _ => rfl }

theorem updateTextVersion_ok {secretId : UUID} {version keyVersion : ℕ} {content nonce : String}
    {db db' : Database}
    (h : db.updateTextVersion secretId version content nonce keyVersion = .ok db') :
    (∃ versions, db' = { db with secretVersions := versions }) ∧
      ∀ k, db'.secretVersions.find k =
        if k = (secretId, version) then
          (db.secretVersions.find (secretId, version)).map fun v =>
            { v with content := some content, nonce := some nonce, keyVersion := some keyVersion }
        else db.secretVersions.find k := by
  rcases FileCrypto.bind_eq_ok.mp h with ⟨_, _, h⟩
  cases h
  refine ⟨⟨_, rfl⟩, ?_⟩
  intro k
  exact Table.find_modify db.secretVersions (secretId, version) (fun v =>
    { v with content := some content, nonce := some nonce, keyVersion := some keyVersion })
    (fun _ => rfl) k

theorem version_le_maxKeyVersion {secretId : UUID} {db : Database} {n : ℕ}
    (h : (db.secretKeys.find (secretId, n)).isSome) : n ≤ db.maxKeyVersion secretId := by
  rcases Option.isSome_iff_exists.mp h with ⟨key, hkey⟩
  have hkeyed := Table.key_of_find hkey
  have hmem : n ∈ (db.keysOf secretId).map SecretKey.version := by
    refine List.mem_map.mpr ⟨key, List.mem_filter.mpr ⟨Table.mem_of_find hkey, ?_⟩, ?_⟩
    · rw [decide_eq_true_eq]
      exact congrArg Prod.fst hkeyed
    · exact congrArg Prod.snd hkeyed
  rw [maxKeyVersion]
  generalize (db.keysOf secretId).map SecretKey.version = versions at hmem
  induction versions with
  | nil => cases hmem
  | cons m rest ih =>
    rcases List.mem_cons.mp hmem with rfl | hrest
    · exact Nat.le_max_left _ _
    · exact (ih hrest).trans (Nat.le_max_right _ _)

theorem maxKeyVersion_le {secretId : UUID} {db : Database} {n : ℕ}
    (h : ∀ m, (db.secretKeys.find (secretId, m)).isSome → m ≤ n) : db.maxKeyVersion secretId ≤ n := by
  have hall : ∀ m ∈ (db.keysOf secretId).map SecretKey.version, m ≤ n := by
    intro m hm
    rcases List.mem_map.mp hm with ⟨key, hkey, rfl⟩
    have hkey := List.mem_filter.mp hkey
    have hid : key.secretId = secretId := by simpa using hkey.2
    apply h
    rw [← hid]
    exact Option.isSome_iff_exists.mpr ⟨key, Table.find_of_mem hkey.1⟩
  rw [maxKeyVersion]
  generalize (db.keysOf secretId).map SecretKey.version = versions at hall
  induction versions with
  | nil => exact Nat.zero_le n
  | cons m rest ih =>
    apply Nat.max_le.mpr
    exact ⟨hall m (by simp), ih fun k hk => hall k (by simp [hk])⟩

/-- The newest key is the one with the greatest version. -/
theorem latestKey_eq {secretId : UUID} {db : Database} {key : SecretKey}
    (hkey : db.secretKeys.find (secretId, key.version) = some key)
    (hnewest : ∀ m, (db.secretKeys.find (secretId, m)).isSome → m ≤ key.version) :
    db.latestKey secretId = some key := by
  have hkeyed := congrArg Prod.fst (Table.key_of_find hkey)
  simp only [SecretKey.key] at hkeyed
  have hmem : key ∈ db.keysOf secretId :=
    List.mem_filter.mpr ⟨Table.mem_of_find hkey, by simpa using hkeyed⟩
  rw [latestKey]
  cases hmax : (db.keysOf secretId).argmax SecretKey.version with
  | none =>
    rw [List.argmax_eq_none] at hmax
    rw [hmax] at hmem
    cases hmem
  | some other =>
    have hother := List.mem_filter.mp (List.argmax_mem hmax)
    have hid : other.secretId = secretId := by simpa using hother.2
    have hle := List.le_of_mem_argmax hmem hmax
    have hge := hnewest other.version (by
      rw [← hid]
      exact Option.isSome_iff_exists.mpr ⟨other, Table.find_of_mem hother.1⟩)
    have hsame : other.key = key.key := by
      simp only [SecretKey.key]
      rw [hid, hkeyed, Nat.le_antisymm hge hle]
    rw [Table.eq_of_key_eq hother.1 (Table.mem_of_find hkey) hsame]

theorem latestKey_some {secretId : UUID} {db : Database} {key : SecretKey}
    (h : db.latestKey secretId = some key) :
    db.secretKeys.find (secretId, key.version) = some key := by
  have hmem := List.mem_filter.mp (List.argmax_mem h)
  have hid : key.secretId = secretId := by simpa using hmem.2
  rw [← hid]
  exact Table.find_of_mem hmem.1

theorem version_le_latestKey {secretId : UUID} {db : Database} {key : SecretKey} {n : ℕ}
    (h : db.latestKey secretId = some key) (hn : (db.secretKeys.find (secretId, n)).isSome) :
    n ≤ key.version := by
  rcases Option.isSome_iff_exists.mp hn with ⟨other, hother⟩
  have hkeyed := Table.key_of_find hother
  have hmem : other ∈ db.keysOf secretId :=
    List.mem_filter.mpr ⟨Table.mem_of_find hother, decide_eq_true (congrArg Prod.fst hkeyed)⟩
  have hversion : other.version = n := congrArg Prod.snd hkeyed
  rw [← hversion]
  exact List.le_of_mem_argmax hmem h

theorem latestKey_eq_none_iff {secretId : UUID} {db : Database} :
    db.latestKey secretId = none ↔ ∀ n, db.secretKeys.find (secretId, n) = none := by
  rw [latestKey, List.argmax_eq_none, keysOf, List.filter_eq_nil_iff]
  constructor
  · intro h n
    rw [Table.find_eq_none_iff]
    intro key hkey hfound
    exact h key hkey (decide_eq_true (congrArg Prod.fst hfound))
  · intro h key hkey hid
    have hnone := h key.version
    rw [Table.find_eq_none_iff] at hnone
    apply hnone key hkey
    have hid : key.secretId = secretId := by simpa using hid
    rw [SecretKey.key, hid]

end Database

namespace KeyService
variable (P : Platform)

/-- `create_version_key`, for a secret whose row is locked. -/
def createVersionKey (secretId : UUID) (random : Random) (now : Timestamp) :
    Tx Database Exn (Bytes × ℕ) := do
  let wrapped := P.wrapDek random.dek random.wrapNonce
  let version ← Tx.execute fun db => do
    let version := db.maxKeyVersion secretId + 1
    let db ← db.insertSecretKey ⟨secretId, wrapped.1, wrapped.2, version, some now⟩
    return (version, db)
  return (random.dek, version)

/-- `get_dek_for_secret`; without a key version the latest key is meant. -/
def getDekForSecret (secretId : UUID) (keyVersion : Option ℕ) : Tx Database Exn Bytes := do
  let row ← Tx.select fun db => db.keyRow secretId keyVersion
  let some key := row
    | throw (.valueError s!"No encryption key found for secret {P.uuidText secretId}")
  Tx.ofExcept (P.unwrapDek key.wrappedDek key.dekNonce)

/-- `decrypt_content` on two nullable columns. -/
def decryptColumns (content nonce : Option String) (dek : Bytes) : Except Exn String :=
  match content, nonce with
  | some content, some nonce => P.decryptContent content nonce dek
  | _, _ => .error (.typeError "argument should be a bytes-like object or ASCII string")

/-- The transaction of `rotate_key`. -/
def rotateKey (secretId : UUID) (random : Random) (now : Timestamp) : Tx Database Exn ℕ := do
  let row ← Tx.select fun db => db.secrets.find secretId
  let some secret := row | throw (.valueError s!"Secret {P.uuidText secretId} not found")
  let oldDek ← getDekForSecret P secretId none
  let plaintext ← Tx.ofExcept (decryptColumns P secret.content secret.nonce oldDek)
  let key ← createVersionKey P secretId random now
  let encrypted := P.encryptContent plaintext key.1 random.contentNonce
  Tx.write fun db => .ok (db.updateSecret secretId
    (fun s => { s with content := some encrypted.1, nonce := some encrypted.2 }) fun _ => rfl)
  Tx.write fun db =>
    match db.secrets.find secretId with
    | none => .ok db
    | some secret =>
      db.updateTextVersion secretId secret.currentVersion encrypted.1 encrypted.2 key.2
  return key.2

/-! ### What they do when they return -/

section Specs
variable {P} {secretId : UUID} {c c' : Connection Database}

theorem getDekForSecret_ok {keyVersion : Option ℕ} {dek : Bytes}
    (h : getDekForSecret P secretId keyVersion c = (.ok dek, c')) :
    c' = c ∧ ∃ key, P.unwrapDek key.wrappedDek key.dekNonce = .ok dek ∧
      c.db.keyRow secretId keyVersion = some key := by
  rcases Tx.bind_ok h with ⟨row, c₁, hselect, h⟩
  rcases Tx.select_ok hselect with ⟨_, hrow, rfl⟩
  cases row with
  | none => exact absurd h Tx.throw_ok
  | some key =>
    rcases Tx.ofExcept_ok h with ⟨hdek, rfl⟩
    exact ⟨rfl, key, hdek, hrow.symm⟩

theorem getDekForSecret_live {db : Database} {keyVersion : Option ℕ} {key : SecretKey} {dek : Bytes}
    (hkey : db.keyRow secretId keyVersion = some key)
    (hunwrap : P.unwrapDek key.wrappedDek key.dekNonce = .ok dek) :
    getDekForSecret P secretId keyVersion ⟨db, false⟩ = (.ok dek, ⟨db, false⟩) := by
  simp only [getDekForSecret, Tx.select_bind, hkey]
  rw [hunwrap]
  rfl

theorem createVersionKey_ok {random : Random} {now : Timestamp} {key : Bytes × ℕ}
    (h : createVersionKey P secretId random now c = (.ok key, c')) :
    key = (random.dek, c.db.maxKeyVersion secretId + 1) ∧ c'.failed = false ∧
      c.db.insertSecretKey ⟨secretId, (P.wrapDek random.dek random.wrapNonce).1,
        (P.wrapDek random.dek random.wrapNonce).2, c.db.maxKeyVersion secretId + 1, some now⟩ =
          .ok c'.db := by
  rcases Tx.bind_ok h with ⟨version, c₁, hexec, h⟩
  rcases Tx.pure_ok h with ⟨rfl, rfl⟩
  rcases Tx.execute_ok hexec with ⟨_, hfailed, hinsert⟩
  rcases FileCrypto.bind_eq_ok.mp hinsert with ⟨db, hdb, hinsert⟩
  cases hinsert
  exact ⟨rfl, hfailed, hdb⟩

/-- A rotation seals the plaintext again under a new key, in both copies. -/
theorem rotateKey_ok {random : Random} {now : Timestamp} {keyVersion : ℕ} {db : Database}
    {committed : Option Database}
    (h : (rotateKey P secretId random now).run db = .ok (keyVersion, committed)) :
    keyVersion = db.maxKeyVersion secretId + 1 ∧ ∃ secret key dek plaintext keyed db',
      db.secrets.find secretId = some secret ∧ db.latestKey secretId = some key ∧
      P.unwrapDek key.wrappedDek key.dekNonce = .ok dek ∧
      decryptColumns P secret.content secret.nonce dek = .ok plaintext ∧
      db.insertSecretKey ⟨secretId, (P.wrapDek random.dek random.wrapNonce).1,
        (P.wrapDek random.dek random.wrapNonce).2, keyVersion, some now⟩ = .ok keyed ∧
      (keyed.updateSecret secretId
        (fun s => { s with
          content := some (P.encryptContent plaintext random.dek random.contentNonce).1
          nonce := some (P.encryptContent plaintext random.dek random.contentNonce).2 })
        fun _ => rfl).updateTextVersion secretId secret.currentVersion
          (P.encryptContent plaintext random.dek random.contentNonce).1
          (P.encryptContent plaintext random.dek random.contentNonce).2 keyVersion = .ok db' ∧
      committed = some db' := by
  rcases Tx.run_ok h with ⟨c, hbody, hcommitted⟩
  rcases Tx.bind_ok hbody with ⟨row, _, hselect, hbody₁⟩
  rcases Tx.select_ok hselect with ⟨_, hrow, rfl⟩
  cases row with
  | none => exact absurd hbody₁ Tx.throw_ok
  | some secret =>
    rcases Tx.bind_ok hbody₁ with ⟨dek, _, hdek, hbody₂⟩
    rcases getDekForSecret_ok hdek with ⟨rfl, key, hunwrap, hkey⟩
    rcases Tx.bind_ok hbody₂ with ⟨plaintext, _, hplain, hbody₃⟩
    rcases Tx.ofExcept_ok hplain with ⟨hdecrypt, rfl⟩
    rcases Tx.bind_ok hbody₃ with ⟨newKey, c₁, hnew, hbody₄⟩
    rcases createVersionKey_ok hnew with ⟨rfl, _, hkeyed⟩
    rcases Tx.bind_ok hbody₄ with ⟨_, c₂, hupdate, hbody₅⟩
    rcases Tx.write_ok hupdate with ⟨_, _, hupdated⟩
    rcases Tx.bind_ok hbody₅ with ⟨_, c₃, hversion, hbody₆⟩
    rcases Tx.write_ok hversion with ⟨_, hfailed, hwritten⟩
    rcases Tx.pure_ok hbody₆ with ⟨rfl, rfl⟩
    have hdb := Except.ok.inj hupdated
    have hfind : c₂.db.secrets.find secretId =
        some { secret with
          content := some (P.encryptContent plaintext random.dek random.contentNonce).1
          nonce := some (P.encryptContent plaintext random.dek random.contentNonce).2 } := by
      rcases Database.insertSecretKey_ok hkeyed with ⟨_, keys, _, hc₁⟩
      rw [← hdb, Database.updateSecret, Table.find_modify, if_pos rfl, hc₁, ← hrow]
      rfl
    simp only [hfind] at hwritten
    rw [← hdb] at hwritten
    refine ⟨rfl, secret, key, dek, plaintext, c₁.db, c.db, hrow.symm, hkey, hunwrap, hdecrypt, hkeyed,
      hwritten, ?_⟩
    rw [hcommitted, hfailed]
    rfl

end Specs

end KeyService
end PhantomShare
