import PhantomShare.Routers.SecretVersions

/-!
# What the transactions do to one secret

A secret is its row, its keys and its versions. Every transaction on secrets does
one of three things to it: it leaves it as it is, it removes it, or it makes a
version current that is sealed under a new key.
-/
namespace PhantomShare.Store
open Foundations

/-- No row mentions the secret. -/
structure Absent (id : UUID) (db : Database) : Prop where
  secret : db.secrets.find id = none
  keys : ∀ n, db.secretKeys.find (id, n) = none
  versions : ∀ n, db.secretVersions.find (id, n) = none

/-- The columns of a row that hold its current version. -/
structure Content where
  content : Option String
  nonce : Option String
  currentVersion : ℕ
  deriving DecidableEq

def contentOf (s : Secret) : Content := ⟨s.content, s.nonce, s.currentVersion⟩

/-- The secret is as it was. -/
structure Same (id : UUID) (db db' : Database) : Prop where
  secret : (db'.secrets.find id).map contentOf = (db.secrets.find id).map contentOf
  keys : ∀ n, db'.secretKeys.find (id, n) = db.secretKeys.find (id, n)
  versions : ∀ n, db'.secretVersions.find (id, n) = db.secretVersions.find (id, n)

/-- Version `row` is current, under a key of its own; what else there was is as it was. -/
structure Sealed (id : UUID) (row : SecretVersion) (key : SecretKey) (db db' : Database) : Prop where
  secret : ∃ s, db'.secrets.find id = some s ∧ contentOf s = ⟨row.content, row.nonce, row.version⟩
  keys : ∀ n, db'.secretKeys.find (id, n) =
    if n = key.version then some key else db.secretKeys.find (id, n)
  versions : ∀ n, db'.secretVersions.find (id, n) =
    if n = row.version then some row else db.secretVersions.find (id, n)
  keyed : row.keyVersion = some key.version
  next : key.version = db.maxKeyVersion id + 1

namespace Same
variable {id : UUID}

theorem refl (db : Database) : Same id db db := ⟨rfl, fun _ => rfl, fun _ => rfl⟩

theorem trans {a b c : Database} (hab : Same id a b) (hbc : Same id b c) : Same id a c where
  secret := hbc.secret.trans hab.secret
  keys n := (hbc.keys n).trans (hab.keys n)
  versions n := (hbc.versions n).trans (hab.versions n)

instance : IsPreorder Database (Same id) where
  refl := refl
  trans _ _ _ := trans

theorem of_eq {db db' : Database} (hsecrets : db'.secrets = db.secrets)
    (hkeys : db'.secretKeys = db.secretKeys) (hversions : db'.secretVersions = db.secretVersions) :
    Same id db db' := by
  constructor
  · rw [hsecrets]
  · intro n
    rw [hkeys]
  · intro n
    rw [hversions]

theorem insertAuditLog {db db' : Database} {now : Timestamp} {action : String}
    {actorId : Option UUID} {actorIp : Option String} {secretId : Option UUID}
    {metadata : List (String × Json)}
    (h : db.insertAuditLog now action actorId actorIp secretId metadata = .ok db') :
    Same id db db' := by
  rcases Database.insertAuditLog_ok h with ⟨_, _, row, rfl⟩
  exact of_eq rfl rfl rfl

/-- An update of other columns, or of another secret. -/
theorem updateSecret (db : Database) (id' : UUID) (f : Secret → Secret) (hf : ∀ r, (f r).id = r.id)
    (h : id ≠ id' ∨ ∀ r, contentOf (f r) = contentOf r) : Same id db (db.updateSecret id' f hf) := by
  refine ⟨?_, fun _ => rfl, fun _ => rfl⟩
  rw [Database.updateSecret, Table.find_modify]
  by_cases hid : id = id'
  · subst hid
    rcases h with hne | hsame
    · exact (hne rfl).elim
    · rw [if_pos rfl, Option.map_map]
      congr 1
      funext r
      exact hsame r
  · rw [if_neg hid]

theorem insertSecretKey {db db' : Database} {row : SecretKey} (hid : id ≠ row.secretId)
    (h : db.insertSecretKey row = .ok db') : Same id db db' := by
  rcases Database.insertSecretKey_ok h with ⟨_, keys, hinsert, rfl⟩
  refine ⟨rfl, ?_, fun _ => rfl⟩
  intro n
  rw [Table.find_of_insert hinsert, if_neg]
  intro heq
  exact hid (congrArg Prod.fst heq)

theorem insertSecretVersion {db db' : Database} {row : SecretVersion} (hid : id ≠ row.secretId)
    (h : db.insertSecretVersion row = .ok db') : Same id db db' := by
  rcases Database.insertSecretVersion_ok h with ⟨_, _, versions, hinsert, rfl⟩
  refine ⟨rfl, fun _ => rfl, ?_⟩
  intro n
  rw [Table.find_of_insert hinsert, if_neg]
  intro heq
  exact hid (congrArg Prod.fst heq)

theorem updateTextVersion {db db' : Database} {id' : UUID} {version keyVersion : ℕ}
    {content nonce : String} (hid : id ≠ id')
    (h : db.updateTextVersion id' version content nonce keyVersion = .ok db') : Same id db db' := by
  rcases Database.updateTextVersion_ok h with ⟨⟨versions, rfl⟩, hfind⟩
  refine ⟨rfl, fun _ => rfl, ?_⟩
  intro n
  rw [hfind, if_neg]
  intro heq
  exact hid (congrArg Prod.fst heq)

theorem insertView {db db' : Database} {row : SecretView} {n : ℕ}
    (h : db.insertView row = .ok (n, db')) : Same id db db' := by
  unfold Database.insertView at h
  split at h
  · cases h
    exact refl db
  · rcases FileCrypto.bind_eq_ok.mp h with ⟨_, _, h⟩
    cases h
    exact of_eq rfl rfl rfl

/-- A deletion of other secrets. -/
theorem deleteSecrets (db : Database) (now : Timestamp) (p : Secret → Bool)
    (h : ∀ s, db.secrets.find id = some s → p s = false) : Same id db (db.deleteSecrets now p) := by
  rcases Database.deleteSecrets_frame now p db with ⟨outbox, n, logs, hdb⟩
  have hkept : ((db.secrets.rows.filter p).any fun s => s.id = id) = false := by
    rw [List.any_eq_false]
    intro s hs hsid
    rw [decide_eq_true_eq] at hsid
    have hs := List.mem_filter.mp hs
    have hp := h s (Table.find_eq_some_iff.mpr ⟨hs.1, hsid⟩)
    rw [hs.2] at hp
    cases hp
  rw [hdb]
  constructor
  · rw [Table.find_deleteWhere]
    cases hfind : db.secrets.find id with
    | none => rfl
    | some s => simp [h s hfind]
  · intro m
    rw [Table.find_deleteWhere]
    cases hfind : db.secretKeys.find (id, m) with
    | none => rfl
    | some k =>
      have hkey := congrArg Prod.fst (Table.key_of_find hfind)
      simp only [SecretKey.key] at hkey
      rw [Option.filter_some_pos]
      simp [hkey, hkept]
  · intro m
    rw [Table.find_deleteWhere]
    cases hfind : db.secretVersions.find (id, m) with
    | none => rfl
    | some v =>
      have hkey := congrArg Prod.fst (Table.key_of_find hfind)
      simp only [SecretVersion.key] at hkey
      rw [Option.filter_some_pos]
      simp [hkey, hkept]

theorem absent {db db' : Database} (h : Same id db db') (habsent : Absent id db) :
    Absent id db' := by
  refine ⟨?_, fun n => (h.keys n).trans (habsent.keys n),
    fun n => (h.versions n).trans (habsent.versions n)⟩
  have hsecret := h.secret
  rw [habsent.secret, Option.map_none, Option.map_eq_none_iff] at hsecret
  exact hsecret

end Same

/-- A deletion of the secret. -/
theorem Absent.deleteSecrets {id : UUID} {db : Database} {s : Secret} (now : Timestamp)
    {p : Secret → Bool} (hs : db.secrets.find id = some s) (hp : p s = true) :
    Absent id (db.deleteSecrets now p) := by
  rcases Database.deleteSecrets_frame now p db with ⟨outbox, n, logs, hdb⟩
  have hgone : ((db.secrets.rows.filter p).any fun s => s.id = id) = true := by
    rw [List.any_eq_true]
    exact ⟨s, List.mem_filter.mpr ⟨Table.mem_of_find hs, hp⟩, by simpa using Table.key_of_find hs⟩
  rw [hdb]
  constructor
  · rw [Table.find_deleteWhere, hs]
    simp [hp]
  · intro m
    rw [Table.find_deleteWhere, Option.filter_eq_none_iff]
    intro k hk
    have hkey := congrArg Prod.fst (Table.key_of_find hk)
    simp only [SecretKey.key] at hkey
    simp [hkey, hgone]
  · intro m
    rw [Table.find_deleteWhere, Option.filter_eq_none_iff]
    intro v hv
    have hkey := congrArg Prod.fst (Table.key_of_find hv)
    simp only [SecretVersion.key] at hkey
    simp [hkey, hgone]

/-! ### The transactions -/

section Transactions
variable {P : Platform} {id : UUID} {now : Timestamp} {db db' : Database}

theorem keys_of_insert {keys keys' : Table SecretKey.key} {key : SecretKey}
    (hid : key.secretId = id) (h : keys.insert key = some keys') (n : ℕ) :
    keys'.find (id, n) = if n = key.version then some key else keys.find (id, n) := by
  rw [Table.find_of_insert h]
  simp only [SecretKey.key, hid, Prod.mk.injEq, true_and]

theorem versions_of_insert {versions versions' : Table SecretVersion.key} {row : SecretVersion}
    (hid : row.secretId = id) (h : versions.insert row = some versions') (n : ℕ) :
    versions'.find (id, n) = if n = row.version then some row else versions.find (id, n) := by
  rw [Table.find_of_insert h]
  simp only [SecretVersion.key, hid, Prod.mk.injEq, true_and]

/-- A new key, then a version row that names it, then the copy in the row of the secret. -/
theorem sealed_of_insert {row : SecretVersion} {key : SecretKey} {keyed stored : Database}
    {f : Secret → Secret} {hf : ∀ r, (f r).id = r.id} (hkeyId : key.secretId = row.secretId)
    (hnext : key.version = db.maxKeyVersion row.secretId + 1)
    (hkeyed : db.insertSecretKey key = .ok keyed)
    (hstored : keyed.insertSecretVersion row = .ok stored)
    (hversion : row.keyVersion = some key.version)
    (hcontent : ∀ s, contentOf (f s) = ⟨row.content, row.nonce, row.version⟩) :
    Sealed row.secretId row key db (stored.updateSecret row.secretId f hf) := by
  rcases Database.insertSecretKey_ok hkeyed with ⟨hexists, keys, hkeys, rfl⟩
  rcases Database.insertSecretVersion_ok hstored with ⟨_, _, versions, hversions, rfl⟩
  rcases Option.isSome_iff_exists.mp (hkeyId ▸ hexists) with ⟨s, hs⟩
  constructor
  · refine ⟨f s, ?_, hcontent s⟩
    change (db.secrets.modify row.secretId f hf).find row.secretId = _
    rw [Table.find_modify, if_pos rfl, hs]
    rfl
  · exact keys_of_insert hkeyId hkeys
  · exact versions_of_insert rfl hversions
  · exact hversion
  · exact hnext

theorem same_of_insert {row : SecretVersion} {key : SecretKey} {keyed stored : Database}
    {f : Secret → Secret} {hf : ∀ r, (f r).id = r.id} (hkeyId : key.secretId = row.secretId)
    (hkeyed : db.insertSecretKey key = .ok keyed)
    (hstored : keyed.insertSecretVersion row = .ok stored) (hid : id ≠ row.secretId) :
    Same id db (stored.updateSecret row.secretId f hf) :=
  ((Same.insertSecretKey (hkeyId ▸ hid) hkeyed).trans (Same.insertSecretVersion hid hstored)).trans
    (Same.updateSecret stored row.secretId f hf (Or.inl hid))

theorem Sealed.trans_same {row : SecretVersion} {key : SecretKey} {mid : Database}
    (h : Sealed id row key db mid) (hsame : Same id mid db') : Sealed id row key db db' where
  secret := by
    rcases h.secret with ⟨s, hs, hcontent⟩
    have hmap := hsame.secret
    rw [hs, Option.map_some, Option.map_eq_some_iff] at hmap
    rcases hmap with ⟨s', hs', hcontent'⟩
    exact ⟨s', hs', hcontent'.trans hcontent⟩
  keys n := (hsame.keys n).trans (h.keys n)
  versions n := (hsame.versions n).trans (h.versions n)
  keyed := h.keyed
  next := h.next

/-- A text version under a key that wraps `dek`. -/
structure SealedText (P : Platform) (id : UUID) (n : ℕ) (plaintext : String) (random : Random)
    (row : SecretVersion) (key : SecretKey) : Prop where
  version : row.version = n
  content : row.content = some (P.encryptContent plaintext random.dek random.contentNonce).1
  nonce : row.nonce = some (P.encryptContent plaintext random.dek random.contentNonce).2
  wrapped : key.wrappedDek = (P.wrapDek random.dek random.wrapNonce).1
  wrapNonce : key.dekNonce = (P.wrapDek random.dek random.wrapNonce).2

theorem insertTextVersion_effect {version : ℕ} {plaintext : String} {actorId : UUID}
    {changeNote : Option String} {random : Random} {keyVersion : ℕ} {c : Connection Database}
    (h : SecretVersions.insertTextVersion P id version plaintext actorId changeNote random now
      ⟨db, false⟩ = (.ok keyVersion, c)) :
    (∃ row key, SealedText P id version plaintext random row key ∧ Sealed id row key db c.db) ∧
      ∀ other, other ≠ id → Same other db c.db := by
  rcases SecretVersions.insertTextVersion_ok h with ⟨hnext, _, keyed, stored, hkeyed, hstored, hdb⟩
  rw [hdb]
  constructor
  · exact ⟨_, _, ⟨rfl, rfl, rfl, rfl, rfl⟩,
      sealed_of_insert rfl hnext hkeyed hstored rfl fun _ => rfl⟩
  · intro other hother
    exact same_of_insert rfl hkeyed hstored hother

variable {user : CurrentUser} {clientIp : String} {random : Random} {newVersion : ℕ}

theorem same_of_toOption {mid : Database} {action : String} {actorId : Option UUID}
    {actorIp : Option String} {secretId : Option UUID} {metadata : List (String × Json)}
    (h : some db' = (mid.insertAuditLog now action actorId actorIp secretId metadata).toOption) :
    Same id mid db' := by
  cases hlog : mid.insertAuditLog now action actorId actorIp secretId metadata with
  | error error =>
    rw [hlog] at h
    cases h
  | ok logged =>
    rw [hlog] at h
    cases h
    exact Same.insertAuditLog hlog

/-- An update that commits appends its content. -/
theorem update_effect {body : SecretUpdate}
    (h : (SecretVersions.updateTransaction P id body user clientIp random now).run db =
      .ok (newVersion, some db')) :
    (∃ secret row key, db.secrets.find id = some secret ∧
      newVersion = secret.currentVersion + 1 ∧
      SealedText P id newVersion body.content random row key ∧ Sealed id row key db db') ∧
    ∀ other, other ≠ id → Same other db db' := by
  rcases SecretVersions.updateTransaction_ok h with
    ⟨_, secret, keyVersion, c, metadata, hfind, hnew, hinsert, hcommitted⟩
  rcases insertTextVersion_effect hinsert with ⟨⟨row, key, htext, hsealed⟩, hothers⟩
  constructor
  · exact ⟨secret, row, key, hfind, hnew, htext, hsealed.trans_same (same_of_toOption hcommitted)⟩
  · intro other hother
    exact (hothers other hother).trans (same_of_toOption hcommitted)

/-- A restore that commits appends what the recorded key of the old version opens. -/
theorem restore_effect {version : ℤ}
    (h : (SecretVersions.restoreTransaction P id version user clientIp random now).run db =
      .ok (newVersion, some db')) :
    (∃ secret old oldKey dek plaintext row key, db.secrets.find id = some secret ∧
      newVersion = secret.currentVersion + 1 ∧
      SecretVersions.versionRow id version db = some old ∧ old.keyVersion = some oldKey.version ∧
      db.secretKeys.find (id, oldKey.version) = some oldKey ∧
      P.unwrapDek oldKey.wrappedDek oldKey.dekNonce = .ok dek ∧
      KeyService.decryptColumns P old.content old.nonce dek = .ok plaintext ∧
      SealedText P id newVersion plaintext random row key ∧ Sealed id row key db db') ∧
    ∀ other, other ≠ id → Same other db db' := by
  rcases SecretVersions.restoreTransaction_ok h with
    ⟨_, secret, old, oldKey, dek, plaintext, keyVersion, c, metadata, hfind, hnew, hold, hsome, hkey,
      hunwrap, hdecrypt, hinsert, hcommitted⟩
  rcases insertTextVersion_effect hinsert with ⟨⟨row, key, htext, hsealed⟩, hothers⟩
  rcases Option.isSome_iff_exists.mp hsome with ⟨n, hn⟩
  rw [hn] at hkey
  have hkeyVersion : oldKey.version = n := congrArg Prod.snd (Table.key_of_find hkey)
  subst hkeyVersion
  constructor
  · exact ⟨secret, old, oldKey, dek, plaintext, row, key, hfind, hnew, hold, hn, hkey, hunwrap,
      hdecrypt, htext, hsealed.trans_same (same_of_toOption hcommitted)⟩
  · intro other hother
    exact (hothers other hother).trans (same_of_toOption hcommitted)

/-- A rotation seals the current version again. -/
theorem rotate_effect {keyVersion : ℕ}
    (h : (KeyService.rotateKey P id random now).run db = .ok (keyVersion, some db')) :
    (∃ secret oldKey dek plaintext, db.secrets.find id = some secret ∧
      db.latestKey id = some oldKey ∧ P.unwrapDek oldKey.wrappedDek oldKey.dekNonce = .ok dek ∧
      KeyService.decryptColumns P secret.content secret.nonce dek = .ok plaintext ∧
      ∀ old, db.secretVersions.find (id, secret.currentVersion) = some old →
        ∃ row key, SealedText P id secret.currentVersion plaintext random row key ∧
          Sealed id row key db db') ∧
    ∀ other, other ≠ id → Same other db db' := by
  rcases KeyService.rotateKey_ok h with
    ⟨hnext, secret, oldKey, dek, plaintext, keyed, written, hfind, hlatest, hunwrap, hdecrypt, hkeyed,
      hversion, hcommitted⟩
  cases hcommitted
  rcases Database.updateTextVersion_ok hversion with ⟨⟨versions, hframe⟩, hversions⟩
  constructor
  · refine ⟨secret, oldKey, dek, plaintext, hfind, hlatest, hunwrap, hdecrypt, ?_⟩
    intro old hold
    rcases Database.insertSecretKey_ok hkeyed with ⟨_, keys, hkeys, rfl⟩
    have holdId : old.secretId = id := congrArg Prod.fst (Table.key_of_find hold)
    have holdVersion : old.version = secret.currentVersion :=
      congrArg Prod.snd (Table.key_of_find hold)
    refine ⟨{ old with
      content := some (P.encryptContent plaintext random.dek random.contentNonce).1
      nonce := some (P.encryptContent plaintext random.dek random.contentNonce).2
      keyVersion := some keyVersion },
      ⟨id, (P.wrapDek random.dek random.wrapNonce).1, (P.wrapDek random.dek random.wrapNonce).2,
        keyVersion, some now⟩, ⟨holdVersion, rfl, rfl, rfl, rfl⟩, ?_, ?_, ?_, rfl, hnext⟩
    · refine ⟨{ secret with
        content := some (P.encryptContent plaintext random.dek random.contentNonce).1
        nonce := some (P.encryptContent plaintext random.dek random.contentNonce).2 }, ?_, ?_⟩
      · rw [hframe]
        simp only [Database.updateSecret, Table.find_modify, if_true, hfind, Option.map_some]
      · rw [contentOf, holdVersion]
    · rw [hframe]
      exact keys_of_insert rfl hkeys
    · intro n
      rw [hversions]
      by_cases hn : n = secret.currentVersion
      · subst hn
        rw [if_pos rfl, if_pos holdVersion.symm]
        simp only [Database.updateSecret, hold, Option.map_some]
      · have hcurrent : ¬ (id, n) = (id, secret.currentVersion) := by simpa using hn
        rw [if_neg hcurrent, if_neg (holdVersion ▸ hn)]
        rfl
  · intro other hother
    exact ((Same.insertSecretKey hother hkeyed).trans
      (Same.updateSecret keyed id _ _ (Or.inl hother))).trans (Same.updateTextVersion hother hversion)

/-- A creation of a server-encrypted secret stores its content as version 1 under key 1. -/
theorem create_effect {body : SecretCreate} {ownerId : UUID} {signedToken : String}
    (hserver : body.clientEncrypted = false)
    (h : (Secrets.createTransaction P id body ownerId clientIp random now).run db =
      .ok (signedToken, some db')) :
    (db.secrets.find id = none ∧ (Absent id db → ∃ row key,
      SealedText P id 1 body.content random row key ∧ Sealed id row key db db')) ∧
    ∀ other, other ≠ id → Same other db db' := by
  rcases Secrets.createTransaction_ok h with
    ⟨prepared, secrets, hprepare, hsecrets, hdb, hkeys, hversions⟩
  simp only [Secrets.prepare, hserver, Bool.false_eq_true, if_false, Except.ok.injEq] at hprepare
  subst hprepare
  have hfind : ∀ k, (db'.secrets.find k).map contentOf =
      if k = id then
        some ⟨some (P.encryptContent body.content random.dek random.contentNonce).1,
          some (P.encryptContent body.content random.dek random.contentNonce).2, 1⟩
      else (db.secrets.find k).map contentOf := by
    intro k
    rw [hdb, Table.find_modify]
    by_cases hk : k = id
    · rw [if_pos hk, if_pos hk, Table.find_of_insert hsecrets, if_pos (by rfl)]
      rfl
    · rw [if_neg hk, if_neg hk, Table.find_of_insert hsecrets, if_neg (by exact hk)]
  constructor
  · refine ⟨(Table.insert_eq_some hsecrets).1, ?_⟩
    intro habsent
    have hself := hfind id
    rw [if_pos rfl, Option.map_eq_some_iff] at hself
    have htext : SealedText P id 1 body.content random
        (Secrets.firstVersion id body
          ⟨(P.encryptContent body.content random.dek random.contentNonce).1,
            some (P.encryptContent body.content random.dek random.contentNonce).2,
            some (P.wrapDek random.dek random.wrapNonce)⟩ ownerId now)
        ⟨id, (P.wrapDek random.dek random.wrapNonce).1,
          (P.wrapDek random.dek random.wrapNonce).2, 1, none⟩ :=
      ⟨rfl, rfl, rfl, rfl, rfl⟩
    refine ⟨_, _, htext, hself, ?_, ?_, rfl, ?_⟩
    · exact keys_of_insert rfl hkeys
    · exact versions_of_insert rfl hversions
    · have hzero : db.maxKeyVersion id ≤ 0 := by
        apply Database.maxKeyVersion_le
        intro m hm
        rw [habsent.keys m] at hm
        cases hm
      rw [Nat.le_zero.mp hzero]
  · intro other hother
    refine ⟨?_, ?_, ?_⟩
    · rw [hfind, if_neg hother]
    · intro n
      rw [Table.find_of_insert hkeys, if_neg]
      intro heq
      exact hother (congrArg Prod.fst heq)
    · intro n
      rw [Table.find_of_insert hversions, if_neg]
      intro heq
      exact hother (congrArg Prod.fst heq)

/-- A view either leaves a secret as it is or, as its last one, removes it. -/
theorem same_or_absent_of_view {viewed : Bool} {count : ℤ}
    (h : db.updateViewCount now id count viewed = .ok db') :
    (Same id db db' ∨ Absent id db') ∧ ∀ other, other ≠ id → Same other db db' := by
  unfold Database.updateViewCount at h
  split at h
  · cases h
    exact ⟨Or.inl (Same.refl db), fun _ _ => Same.refl db⟩
  · rename_i s hfind
    split at h
    · cases h
    · have hcounted : ∀ k, Same k db (db.updateSecret id
          (fun r => { r with viewCount := count, viewed := viewed }) fun _ => rfl) :=
        fun k => Same.updateSecret db id _ _ (Or.inr fun _ => rfl)
      split at h
      · rcases FileCrypto.bind_eq_ok.mp h with ⟨logged, hlog, hdelete⟩
        cases hdelete
        have hbefore : ∀ k, Same k db logged := fun k => (hcounted k).trans (Same.insertAuditLog hlog)
        constructor
        · right
          have hsecret := (hbefore id).secret
          rw [hfind, Option.map_some, Option.map_eq_some_iff] at hsecret
          rcases hsecret with ⟨s', hs', _⟩
          exact Absent.deleteSecrets now hs' (by simpa using Table.key_of_find hs')
        · intro other hother
          apply (hbefore other).trans
          apply Same.deleteSecrets
          intro s' hs'
          simpa [Table.key_of_find hs'] using hother
      · cases h
        exact ⟨Or.inl (hcounted id), fun other _ => hcounted other⟩

theorem retrieve_effect {policy : Option SecretAccessPolicy} {policyVersion : ℕ}
    {accessPassword : Option String} {currentUser : Option CurrentUser} {seen : Secrets.Seen}
    (h : (Secrets.retrieveTransaction P id policy policyVersion accessPassword clientIp currentUser
      now).run db = .ok (seen, some db')) :
    (Same id db db' ∨ Absent id db') ∧ ∀ other, other ≠ id → Same other db db' := by
  rcases Secrets.retrieveTransaction_ok h with
    ⟨_, _, _, _, viewedDb, logs, written, n, hinsert, hupdate, hcommitted⟩
  cases hcommitted
  have hlogged : ∀ k, Same k db { viewedDb with auditLogs := logs } :=
    fun k => (Same.insertView hinsert).trans (Same.of_eq rfl rfl rfl)
  rcases same_or_absent_of_view hupdate with ⟨hself, hothers⟩
  constructor
  · rcases hself with hsame | habsent
    · exact Or.inl ((hlogged id).trans hsame)
    · exact Or.inr habsent
  · intro other hother
    exact (hlogged other).trans (hothers other hother)

end Transactions
end PhantomShare.Store
