import PhantomShare.Store.Effects

/-!
# Secrets as lists of plaintexts

The machine that the store of text secrets implements. A secret is the list of
its plaintexts, oldest first, and a secret that does not exist is the empty list.
The tables represent such a list when every version opens, under the key that its
row records, to the plaintext at its place.
-/
namespace PhantomShare.Store
open Foundations

/-- An operation with what it told its caller. -/
inductive Op where
  | create (id : UUID) (plaintext : String)
  | update (id : UUID) (plaintext : String) (version : ℕ)
  | restore (id : UUID) (source : ℤ) (version : ℕ)
  | rotate (id : UUID)
  | retrieve (id : UUID) (plaintext : String) (version : ℕ)
  deriving DecidableEq

abbrev Texts := UUID → List String

namespace Texts

def empty : Texts := fun _ => []

/-- A restore names its source by a number that need not be a version. -/
def version (texts : List String) (source : ℤ) : Option String :=
  if 1 ≤ source then texts[source.toNat - 1]? else none

/-- `burn` is the retrieval that uses up the last permitted view. -/
inductive Step (S : Texts) : Op → Texts → Prop
  | create {id : UUID} {plaintext : String} (fresh : S id = []) :
    Step S (.create id plaintext) (Function.update S id [plaintext])
  | update {id : UUID} {plaintext : String} (exists_ : S id ≠ []) :
    Step S (.update id plaintext ((S id).length + 1))
      (Function.update S id (S id ++ [plaintext]))
  | restore {id : UUID} {source : ℤ} {plaintext : String}
      (old : version (S id) source = some plaintext) :
    Step S (.restore id source ((S id).length + 1)) (Function.update S id (S id ++ [plaintext]))
  | rotate {id : UUID} (exists_ : S id ≠ []) : Step S (.rotate id) S
  | retrieve {id : UUID} {plaintext : String} (last : (S id).getLast? = some plaintext) :
    Step S (.retrieve id plaintext (S id).length) S
  | burn {id : UUID} {plaintext : String} (last : (S id).getLast? = some plaintext) :
    Step S (.retrieve id plaintext (S id).length) (Function.update S id [])

/-- Only its creation makes a secret exist. -/
theorem Step.created {S S' : Texts} {op : Op} {id : UUID} (h : Step S op S') (hne : S' id ≠ []) :
    S id ≠ [] ∨ ∃ plaintext, op = .create id plaintext := by
  cases h with
  | @create id' plaintext fresh =>
    by_cases hid : id = id'
    · exact Or.inr ⟨plaintext, by rw [hid]⟩
    · rw [Function.update_of_ne hid] at hne
      exact Or.inl hne
  | @update id' plaintext exists_ =>
    left
    by_cases hid : id = id'
    · rw [hid]
      exact exists_
    · rwa [Function.update_of_ne hid] at hne
  | @restore id' source plaintext old =>
    left
    by_cases hid : id = id'
    · rintro hnil
      rw [← hid, hnil] at old
      simp [version] at old
    · rwa [Function.update_of_ne hid] at hne
  | rotate exists_ => exact Or.inl hne
  | retrieve last => exact Or.inl hne
  | @burn id' plaintext last =>
    left
    by_cases hid : id = id'
    · rw [hid, Function.update_self] at hne
      exact (hne rfl).elim
    · rwa [Function.update_of_ne hid] at hne

end Texts

section
variable (P : Platform) (id : UUID)

/-- Version `n` opens to the plaintext under the key that its row records. -/
structure OpensTo (n : ℕ) (plaintext : String) (row : SecretVersion) (key : SecretKey)
    (db : Database) : Prop where
  stored : db.secretVersions.find (id, n) = some row
  keyed : row.keyVersion = some key.version
  found : db.secretKeys.find (id, key.version) = some key
  opens : ∃ dek, P.unwrapDek key.wrappedDek key.dekNonce = .ok dek ∧
    KeyService.decryptColumns P row.content row.nonce dek = .ok plaintext

/-- The last version is current: the row of the secret is a copy of it, and its key is the one that
`get_dek_for_secret` takes by default. -/
structure Holds (texts : List String) (db : Database) : Prop where
  current : ∃ s row key, db.secrets.find id = some s ∧
    contentOf s = ⟨row.content, row.nonce, texts.length⟩ ∧
    db.secretVersions.find (id, texts.length) = some row ∧
    row.keyVersion = some key.version ∧ db.latestKey id = some key
  opens : ∀ (i : ℕ) plaintext, texts[i]? = some plaintext →
    ∃ row key, OpensTo P id (i + 1) plaintext row key db
  bounded : ∀ n, (db.secretVersions.find (id, n)).isSome → 1 ≤ n ∧ n ≤ texts.length

/-- The tables hold the plaintexts of every secret. -/
def Represents (S : Texts) (db : Database) : Prop :=
  ∀ id, (S id = [] ∧ Absent id db) ∨ (S id ≠ [] ∧ Holds P id (S id) db)

end

section Rules
variable {P : Platform} {id : UUID} {db db' : Database} {n : ℕ} {plaintext : String}
  {texts : List String} {row : SecretVersion} {key : SecretKey} {random : Random}

theorem latestKey_of_same (h : Same id db db') : db'.latestKey id = db.latestKey id := by
  cases hold : db.latestKey id with
  | some key =>
    have hfound := Database.latestKey_some hold
    apply Database.latestKey_eq
    · rw [h.keys, hfound]
    · intro m hm
      rw [h.keys] at hm
      exact Database.version_le_latestKey hold hm
  | none =>
    rw [Database.latestKey_eq_none_iff] at hold ⊢
    intro m
    rw [h.keys, hold m]

theorem Absent.of_same (h : Same id db db') (habsent : Absent id db) : Absent id db' where
  secret := by
    have hsecret := h.secret
    rw [habsent.secret, Option.map_none, Option.map_eq_none_iff] at hsecret
    exact hsecret
  keys m := (h.keys m).trans (habsent.keys m)
  versions m := (h.versions m).trans (habsent.versions m)

theorem OpensTo.of_same (h : Same id db db') (hopens : OpensTo P id n plaintext row key db) :
    OpensTo P id n plaintext row key db' where
  stored := (h.versions n).trans hopens.stored
  keyed := hopens.keyed
  found := (h.keys _).trans hopens.found
  opens := hopens.opens

theorem Holds.of_same (h : Same id db db') (hholds : Holds P id texts db) :
    Holds P id texts db' where
  current := by
    rcases hholds.current with ⟨s, row, key, hs, hcontent, hrow, hkeyed, hlatest⟩
    have hsecret := h.secret
    rw [hs, Option.map_some, Option.map_eq_some_iff] at hsecret
    rcases hsecret with ⟨s', hs', hsame⟩
    exact ⟨s', row, key, hs', hsame.trans hcontent, (h.versions _).trans hrow, hkeyed,
      (latestKey_of_same h).trans hlatest⟩
  opens i plaintext hi := by
    rcases hholds.opens i plaintext hi with ⟨row, key, hopens⟩
    exact ⟨row, key, hopens.of_same h⟩
  bounded m hm := by
    rw [h.versions] at hm
    exact hholds.bounded m hm

/-- A version sealed under a new key opens to its plaintext, and its key is the newest. -/
theorem Sealed.opensTo (sound : P.Sound) (h : Sealed id row key db db')
    (htext : SealedText P id n plaintext random row key) :
    OpensTo P id n plaintext row key db' ∧ db'.latestKey id = some key := by
  have hkey : db'.secretKeys.find (id, key.version) = some key := by rw [h.keys, if_pos rfl]
  refine ⟨⟨?_, h.keyed, hkey, random.dek, ?_, ?_⟩, ?_⟩
  · rw [h.versions, if_pos htext.version.symm]
  · rw [htext.wrapped, htext.wrapNonce]
    exact Platform.unwrapDek_wrapDek sound _ _
  · rw [htext.content, htext.nonce]
    exact Platform.decryptContent_encryptContent sound _ _ _
  · apply Database.latestKey_eq hkey
    intro m hm
    rw [h.keys] at hm
    split at hm
    · exact Nat.le_of_eq ‹_›
    · have hle := Database.version_le_maxKeyVersion hm
      have hnext := h.next
      omega

/-- The other versions open as before. -/
theorem OpensTo.of_sealed {row' : SecretVersion} {key' : SecretKey} (h : Sealed id row' key' db db')
    (hn : n ≠ row'.version) (hopens : OpensTo P id n plaintext row key db) :
    OpensTo P id n plaintext row key db' where
  stored := by rw [h.versions, if_neg hn, hopens.stored]
  keyed := hopens.keyed
  found := by
    have hle := Database.version_le_maxKeyVersion (Option.isSome_of_mem hopens.found)
    have hnext := h.next
    rw [h.keys, if_neg (by omega), hopens.found]
  opens := hopens.opens

/-- Sealing version `n` of a list of `n` plaintexts. -/
theorem Holds.of_sealed (sound : P.Sound) (h : Sealed id row key db db')
    (htext : SealedText P id texts.length plaintext random row key)
    (hlast : texts.getLast? = some plaintext)
    (hold : ∀ (i : ℕ) plaintext, texts[i]? = some plaintext → i + 1 ≠ texts.length →
      ∃ row key, OpensTo P id (i + 1) plaintext row key db)
    (hbounded : ∀ n, (db.secretVersions.find (id, n)).isSome → 1 ≤ n ∧ n ≤ texts.length) :
    Holds P id texts db' where
  current := by
    rcases h.secret with ⟨s, hs, hcontent⟩
    have hopens := h.opensTo sound htext
    exact ⟨s, row, key, hs, htext.version ▸ hcontent, hopens.1.stored, h.keyed, hopens.2⟩
  opens i text hi := by
    by_cases hlength : i + 1 = texts.length
    · have hsame : text = plaintext := by
        rw [List.getLast?_eq_getElem?, ← hlength, Nat.add_sub_cancel, hi] at hlast
        exact Option.some.inj hlast
      rw [hlength, hsame]
      exact ⟨row, key, (h.opensTo sound htext).1⟩
    · rcases hold i text hi hlength with ⟨row', key', hopens⟩
      exact ⟨row', key', hopens.of_sealed h (by rw [htext.version]; exact hlength)⟩
  bounded m hm := by
    rw [h.versions] at hm
    split at hm
    · rename_i hversion
      rw [hversion, htext.version]
      have hpos : texts ≠ [] := by
        rintro rfl
        cases hlast
      exact ⟨List.length_pos_iff.mpr hpos, le_refl _⟩
    · exact hbounded m hm

/-- A new last version. -/
theorem Holds.append (sound : P.Sound) (h : Sealed id row key db db')
    (htext : SealedText P id (texts.length + 1) plaintext random row key)
    (hholds : Holds P id texts db) : Holds P id (texts ++ [plaintext]) db' := by
  apply Holds.of_sealed sound h
  · rw [List.length_append]
    exact htext
  · simp
  · intro i text hi hlast
    rw [List.length_append, List.length_singleton] at hlast
    have hlt : i < texts.length := by
      have hlength := (List.getElem?_eq_some_iff.mp hi).1
      rw [List.length_append, List.length_singleton] at hlength
      omega
    rw [List.getElem?_append_left hlt] at hi
    exact hholds.opens i text hi
  · intro m hm
    have hbounds := hholds.bounded m hm
    rw [List.length_append]
    omega

/-- The plaintext that a retrieval decrypts with the latest key. -/
theorem Holds.read {s : Secret} {dek : Bytes} {text : String} (hholds : Holds P id texts db)
    (hne : texts ≠ []) (hs : db.secrets.find id = some s) (hlatest : db.latestKey id = some key)
    (hunwrap : P.unwrapDek key.wrappedDek key.dekNonce = .ok dek)
    (hdecrypt : KeyService.decryptColumns P s.content s.nonce dek = .ok text) :
    s.currentVersion = texts.length ∧ texts.getLast? = some text := by
  rcases hholds.current with ⟨s', row, key', hs', hcontent, hrow, hkeyed, hlatest'⟩
  rw [hs, Option.some.injEq] at hs'
  rw [hlatest, Option.some.injEq] at hlatest'
  subst hs' hlatest'
  simp only [contentOf, Content.mk.injEq] at hcontent
  refine ⟨hcontent.2.2, ?_⟩
  rw [List.getLast?_eq_getElem?]
  have hpos := List.length_pos_iff.mpr hne
  cases hget : texts[texts.length - 1]? with
  | none =>
    rw [List.getElem?_eq_none_iff] at hget
    omega
  | some last =>
    rcases hholds.opens _ _ hget with ⟨row', key', hopens⟩
    rw [Nat.sub_add_cancel hpos] at hopens
    have hrows := hopens.stored
    rw [hrow, Option.some.injEq] at hrows
    subst hrows
    have hkeys := hopens.found
    have hversions := hopens.keyed
    rw [hkeyed, Option.some.injEq] at hversions
    rw [← hversions, Database.latestKey_some hlatest, Option.some.injEq] at hkeys
    subst hkeys
    rcases hopens.opens with ⟨dek', hunwrap', hdecrypt'⟩
    rw [hunwrap, Except.ok.injEq] at hunwrap'
    subst hunwrap'
    rw [hcontent.1, hcontent.2.1, hdecrypt', Except.ok.injEq] at hdecrypt
    rw [hdecrypt]

end Rules
end PhantomShare.Store
