import PhantomShare.Lifecycle.Moves

/-!
# What a record keeps

The rows of a secret agree with each other: the versions are numbered from one to the
current one and each opens with a key of its own, the row of the secret is a copy of the
current version, the share token is that of the current policy, and the history that is
retained has one entry for each view. A birth starts with this and every move keeps it.
-/
namespace PhantomShare.Lifecycle
open Foundations

/-- The bounds of the settings that count days and versions. -/
structure Settings.Valid (settings : Settings) : Prop where
  retention : 1 ≤ settings.viewHistoryRetentionDays
  versions : 1 ≤ settings.maxSecretVersions

/-! ### The parts -/

structure SoundRow (s : Secret) : Prop where
  lifetime : s.expiresAt = s.createdAt + hours s.ttlHours
  ttl : 1 ≤ s.ttlHours ∧ s.ttlHours ≤ 168
  views : 0 ≤ s.viewCount ∧ s.viewCount ≤ s.maxViews
  unseen : s.viewed = false
  guarded : s.passwordProtected = s.accessPasswordHash.isSome

structure StoredVersion (id : UUID) (n : ℕ) (kind : PayloadType) (v : SecretVersion) : Prop where
  named : v.secretId = id ∧ v.version = n
  kind : v.payloadType = kind
  check : v.payloadCheck = true
  object : ∀ o, v.objectKey = some o → o.secretId = id ∧ o.version = n
  nonce : v.payloadType = .file → v.nonce = none

/-- The versions are numbered without a gap, and the row of the secret is a copy of the last. -/
structure History (P : Platform) (id : UUID) (s : Secret) (r : Record) : Prop where
  current : 1 ≤ s.currentVersion ∧ s.currentVersion ≤ P.settings.maxSecretVersions
  numbers : ∀ n, (r.versions n).isSome ↔ 1 ≤ n ∧ n ≤ s.currentVersion
  rows : ∀ n v, r.versions n = some v → StoredVersion id n s.payloadType v
  copy : ∀ v, r.versions s.currentVersion = some v → s.content = v.content ∧ s.nonce = v.nonce

/-- The number of the key of a version. -/
def Record.keyOf (r : Record) (n : ℕ) : Option ℕ := (r.versions n).bind SecretVersion.keyVersion

/-- The keys are numbered without a gap, each version has one that opens it, later versions have
later ones, and the newest key is that of the current version. A text that its client has
encrypted has no key and no second version. -/
inductive Keyring (P : Platform) (s : Secret) (r : Record) : Prop
  | client (text : s.payloadType = .text) (single : s.currentVersion = 1)
      (unkeyed : ∀ n, r.keyOf n = none) (keyless : ∀ m, r.keys m = none)
  | server (count : ℕ) (numbers : ∀ m, (r.keys m).isSome ↔ 1 ≤ m ∧ m ≤ count)
      (named : ∀ m key, r.keys m = some key → key.version = m)
      (newest : r.keyOf s.currentVersion = some count)
      (opens : ∀ n v, r.versions n = some v → ∃ m key, v.keyVersion = some m ∧
        r.keys m = some key ∧ Opens P v key)
      (later : ∀ n n' m m', n < n' → r.keyOf n = some m → r.keyOf n' = some m' → m < m')

/-- There is a policy, and the share token is that of its version. -/
structure Shared (P : Platform) (id : UUID) (s : Secret) (r : Record) : Prop where
  policy : ∃ policy, r.policy = some policy ∧ 1 ≤ policy.policyVersion ∧
    Signed P id s policy.policyVersion
  unrestricted : s.emailRestricted = false → r.recipients = []

structure Whole (P : Platform) (id : UUID) (s : Secret) (r : Record) : Prop where
  row : SoundRow s
  history : History P id s r
  keyring : Keyring P s r
  shared : Shared P id s r

/-- A secret with an owner is tracked under its owner, and a tracked one has a view on record for
each time it was viewed. -/
structure Ledger (P : Platform) (id : UUID) (r : Record) : Prop where
  untracked : r.tracking = none → r.views = []
  owned : ∀ s ownerId, r.secret = some s → s.ownerId = some ownerId → r.tracking =
    some ⟨id, ownerId, s.expiresAt + days P.settings.viewHistoryRetentionDays⟩
  tracked : ∀ s t, r.secret = some s → r.tracking = some t → s.ownerId = some t.ownerId
  counted : ∀ s, r.secret = some s → r.tracking.isSome → (r.views.length : ℤ) = s.viewCount
  seen : ∀ s, r.secret = some s → ∀ view ∈ r.views,
    1 ≤ view.contentVersion ∧ view.contentVersion ≤ s.currentVersion

/-- A secret that is not there has left nothing but its history. -/
structure Intact (P : Platform) (id : UUID) (r : Record) : Prop where
  absent : r.secret = none →
    (∀ n, r.keys n = none) ∧ (∀ n, r.versions n = none) ∧ r.policy = none ∧ r.recipients = []
  whole : ∀ s, r.secret = some s → Whole P id s r
  ledger : Ledger P id r

variable {P : Platform} {now : Timestamp} {id : UUID} {r r' : Record} {s s' : Secret}

/-! ### Records whose contents stay -/

/-- The keys and versions stay as they are, but for who created the versions. -/
structure Unwritten (r r' : Record) : Prop where
  keys : r'.keys = r.keys
  versions : ∃ creator : Option UUID → Option UUID, ∀ n,
    r'.versions n = (r.versions n).map fun v => { v with createdBy := creator v.createdBy }

theorem Unwritten.of_eq (hkeys : r'.keys = r.keys) (hversions : r'.versions = r.versions) :
    Unwritten r r' where
  keys := hkeys
  versions := ⟨id, fun n => by simp [hversions]⟩

theorem Unwritten.keyOf (h : Unwritten r r') (n : ℕ) : r'.keyOf n = r.keyOf n := by
  obtain ⟨creator, hversions⟩ := h.versions
  cases hv : r.versions n <;> simp [Record.keyOf, hversions, hv]

theorem Unwritten.disowned (gone : UUID → Bool) (r : Record) : Unwritten r (r.disowned gone) where
  keys := rfl
  versions := ⟨fun creator => creator.filter fun id => !gone id, fun _ => rfl⟩

theorem Unwritten.addView (view : SecretView) (f : Secret → Secret) (r : Record) :
    Unwritten r ((r.addView view).mapSecret f) := by
  apply Unwritten.of_eq <;> simp [Record.addView_eq]

/-- The columns that go with the versions. -/
def SameText (s s' : Secret) : Prop :=
  s'.payloadType = s.payloadType ∧ s'.currentVersion = s.currentVersion ∧
    s'.content = s.content ∧ s'.nonce = s.nonce

theorem History.unwritten (h : History P id s r) (hr : Unwritten r r') (hsame : SameText s s') :
    History P id s' r' := by
  obtain ⟨creator, hversions⟩ := hr.versions
  obtain ⟨hkind, hcurrent, hcontent, hnonce⟩ := hsame
  constructor
  · rw [hcurrent]
    exact h.current
  · intro n
    rw [hversions, Option.isSome_map, hcurrent]
    exact h.numbers n
  · intro n v hv
    rw [hversions, Option.map_eq_some_iff] at hv
    obtain ⟨old, hold, rfl⟩ := hv
    have hrow := h.rows n old hold
    rw [hkind]
    exact ⟨hrow.named, hrow.kind, hrow.check, hrow.object, hrow.nonce⟩
  · intro v hv
    rw [hcurrent, hversions, Option.map_eq_some_iff] at hv
    obtain ⟨old, hold, rfl⟩ := hv
    rw [hcontent, hnonce]
    exact h.copy old hold

theorem Opens.creator {v : SecretVersion} {key : SecretKey} (h : Opens P v key)
    (creator : Option UUID) : Opens P { v with createdBy := creator } key := by
  obtain ⟨dek, hunwrap, hopens⟩ := h
  refine ⟨dek, hunwrap, ?_⟩
  cases hkind : v.payloadType with
  | text =>
    rw [hkind] at hopens
    exact hopens
  | file =>
    rw [hkind] at hopens
    obtain ⟨upload, plaintext, encrypted, hseals⟩ := hopens
    exact ⟨upload, plaintext, encrypted, ⟨hseals.encrypts, hseals.filename, hseals.nonce,
      hseals.mediaType, hseals.digest, hseals.size⟩⟩

theorem Keyring.unwritten (h : Keyring P s r) (hr : Unwritten r r') (hsame : SameText s s') :
    Keyring P s' r' := by
  obtain ⟨creator, hversions⟩ := hr.versions
  obtain ⟨hkind, hcurrent, _, _⟩ := hsame
  cases h with
  | client text single unkeyed keyless =>
    apply Keyring.client (hkind.trans text) (hcurrent.trans single)
    · simpa [hr.keyOf] using unkeyed
    · simpa [hr.keys] using keyless
  | server count numbers named newest opens later =>
    apply Keyring.server count
    · simpa [hr.keys] using numbers
    · simpa [hr.keys] using named
    · simpa [hr.keyOf, hcurrent] using newest
    · intro n v hv
      rw [hversions, Option.map_eq_some_iff] at hv
      obtain ⟨old, hold, rfl⟩ := hv
      obtain ⟨m, key, hm, hkey, hopens⟩ := opens n old hold
      exact ⟨m, key, hm, by rw [hr.keys, hkey], hopens.creator _⟩
    · simpa [hr.keyOf] using later

theorem Shared.of_eq (h : Shared P id s r) (hpolicy : r'.policy = r.policy)
    (hrecipients : r'.recipients = r.recipients) (hsigned : s'.signedToken = s.signedToken)
    (hexpires : s'.expiresAt = s.expiresAt) (hrestricted : s'.emailRestricted = s.emailRestricted) :
    Shared P id s' r' := by
  obtain ⟨policy, hfind, hversion, ts, hts, htoken⟩ := h.policy
  constructor
  · exact ⟨policy, hpolicy.trans hfind, hversion, ts, hexpires ▸ hts, hsigned.trans htoken⟩
  · rw [hrestricted, hrecipients]
    exact h.unrestricted

/-! ### Removal and birth -/

theorem Ledger.of_absent (h : r.tracking = none → r.views = []) (habsent : r.secret = none) :
    Ledger P id r where
  untracked := h
  owned s _ hs := by simp [habsent] at hs
  tracked s _ hs := by simp [habsent] at hs
  counted s hs := by simp [habsent] at hs
  seen s hs := by simp [habsent] at hs

theorem Intact.removed (h : Intact P id r) : Intact P id r.removed where
  absent _ := ⟨fun _ => rfl, fun _ => rfl, rfl, rfl⟩
  whole s hs := by
    rw [Record.removed] at hs
    cases hs
  ledger := .of_absent h.ledger.untracked rfl

theorem Newborn.soundRow {v : SecretVersion} {key : Option SecretKey} {policy : SecretAccessPolicy}
    {recipients : List SecretRecipient} {ownerId : UUID}
    (h : Newborn P id s v key policy recipients ownerId) : SoundRow s where
  lifetime := h.lifetime
  ttl := h.ttl
  views := by
    rw [h.unseen.1]
    exact ⟨le_refl _, h.views⟩
  unseen := h.unseen.2
  guarded := h.guarded

/-- A record without versions gets its first one. -/
theorem Newborn.history {v : SecretVersion} {key : Option SecretKey} {policy : SecretAccessPolicy}
    {recipients : List SecretRecipient} {ownerId : UUID} (valid : Settings.Valid P.settings)
    (h : Newborn P id s v key policy recipients ownerId) (hnone : ∀ n, r.versions n = none)
    (hversions : r'.versions = Function.update r.versions v.version (some v)) :
    History P id s r' := by
  obtain ⟨hid, hone, hkind, hcheck⟩ := h.version
  have hfind : ∀ n, r'.versions n = if n = 1 then some v else none := by
    intro n
    rw [hversions, Function.update_apply, hone, hnone]
  constructor
  · rw [h.first]
    exact ⟨le_refl _, valid.versions⟩
  · intro n
    rw [hfind, h.first]
    split <;> simp <;> omega
  · intro n w hw
    rw [hfind] at hw
    split at hw
    · rename_i hn
      cases hw
      subst hn
      exact ⟨⟨hid, hone⟩, hkind, hcheck, h.object, h.uncopied⟩
    · cases hw
  · intro w hw
    rw [h.first, hfind, if_pos rfl] at hw
    cases hw
    exact h.copy

theorem Newborn.keyring {v : SecretVersion} {key : Option SecretKey} {policy : SecretAccessPolicy}
    {recipients : List SecretRecipient} {ownerId : UUID}
    (h : Newborn P id s v key policy recipients ownerId) (hnone : ∀ n, r.versions n = none)
    (hkeyless : ∀ m, r.keys m = none)
    (hversions : r'.versions = Function.update r.versions v.version (some v))
    (hkeys : r'.keys = key.elim r.keys fun k => Function.update r.keys k.version (some k)) :
    Keyring P s r' := by
  have hfind : ∀ n, r'.versions n = if n = 1 then some v else none := by
    intro n
    rw [hversions, Function.update_apply, h.version.2.1, hnone]
  have hkeyOf : ∀ n, r'.keyOf n = if n = 1 then v.keyVersion else none := by
    intro n
    rw [Record.keyOf, hfind]
    split <;> rfl
  have hkeyed := h.keyed
  cases key with
  | none =>
    apply Keyring.client (h.client rfl) h.first
    · intro n
      rw [hkeyOf, hkeyed]
      split <;> rfl
    · intro m
      rw [hkeys]
      exact hkeyless m
  | some key =>
    obtain ⟨hone, hopens⟩ := h.opens key rfl
    have hfindKey : ∀ m, r'.keys m = if m = 1 then some key else none := by
      intro m
      rw [hkeys, Option.elim_some, Function.update_apply, hone, hkeyless]
    apply Keyring.server 1
    · intro m
      rw [hfindKey]
      split <;> simp <;> omega
    · intro m key' hkey'
      rw [hfindKey] at hkey'
      split at hkey'
      · rename_i hm
        cases hkey'
        rw [hone, hm]
      · cases hkey'
    · rw [h.first, hkeyOf, if_pos rfl, hkeyed, Option.map_some, hone]
    · intro n w hw
      rw [hfind] at hw
      split at hw
      · cases hw
        exact ⟨1, key, by rw [hkeyed, Option.map_some, hone], by rw [hfindKey, if_pos rfl], hopens⟩
      · cases hw
    · intro n n' m m' hlt hm hm'
      rw [hkeyOf] at hm hm'
      split at hm
      · split at hm'
        · omega
        · cases hm'
      · cases hm

theorem Intact.birth (valid : Settings.Valid P.settings) (h : Intact P id r)
    (hbirth : Birth P id r r') : Intact P id r' := by
  cases hbirth with
  | @born s v key policy recipients ownerId absent untracked newborn =>
    obtain ⟨hkeys, hversions, _, hrecipients⟩ := h.absent absent
    have hviews := h.ledger.untracked untracked
    constructor
    · nofun
    · intro s' hs'
      cases hs'
      constructor
      · exact newborn.soundRow
      · exact newborn.history valid hversions rfl
      · exact newborn.keyring hversions hkeys rfl rfl
      · constructor
        · exact ⟨policy, rfl, newborn.policy.ge, newborn.policy ▸ newborn.signed⟩
        · intro hrestricted
          simp [Record.born, hrecipients, newborn.unrestricted hrestricted]
    · constructor
      · nofun
      · intro s' owner hs' howner
        cases hs'
        rw [newborn.owned, Option.some.injEq] at howner
        subst howner
        rfl
      · intro s' t hs' ht
        cases hs'
        cases ht
        exact newborn.owned
      · intro s' hs' _
        cases hs'
        simp [Record.born, hviews, newborn.unseen.1]
      · intro s' _ view hview
        rw [Record.born, hviews] at hview
        cases hview

/-! ### Views -/

theorem Intact.counts_view {view : SecretView} {f : Secret → Secret} (h : Intact P id r)
    (hs : r.secret = some s) (hcurrent : view.contentVersion = s.currentVersion)
    (hf : (f s).ownerId = s.ownerId ∧ (f s).expiresAt = s.expiresAt ∧
      (f s).currentVersion = s.currentVersion ∧ (f s).viewCount = s.viewCount + 1) :
    Ledger P id ((r.addView view).mapSecret f) := by
  obtain ⟨howner, hexpires, hversion, hcount⟩ := hf
  rw [Record.addView_eq]
  constructor
  · intro hnone
    change r.tracking = none at hnone
    simp [hnone, h.ledger.untracked hnone]
  · intro s' ownerId hs' howner'
    simp only [Record.mapSecret, hs, Option.map_some, Option.some.injEq] at hs'
    subst hs'
    rw [hexpires]
    exact h.ledger.owned s ownerId hs (howner ▸ howner')
  · intro s' t hs' ht
    simp only [Record.mapSecret, hs, Option.map_some, Option.some.injEq] at hs'
    subst hs'
    exact howner.trans (h.ledger.tracked s t hs ht)
  · intro s' hs' htracked
    simp only [Record.mapSecret, hs, Option.map_some, Option.some.injEq] at hs'
    change r.tracking.isSome = true at htracked
    subst hs'
    simp [htracked, hcount, h.ledger.counted s hs htracked]
  · intro s' hs' seen hseen
    simp only [Record.mapSecret, hs, Option.map_some, Option.some.injEq] at hs'
    subst hs'
    rw [hversion]
    have hold := h.ledger.seen s hs
    have hlast := (h.whole s hs).history.current.1
    simp only [Record.mapSecret] at hseen
    split at hseen
    · obtain hseen | hseen := List.mem_append.mp hseen
      · exact hold seen hseen
      · rw [List.mem_singleton.mp hseen, hcurrent]
        exact ⟨hlast, le_refl _⟩
    · exact hold seen hseen

theorem Intact.view {view : SecretView} (h : Intact P id r) (hs : r.secret = some s)
    (hleft : s.viewCount + 1 < s.maxViews) (hcurrent : view.contentVersion = s.currentVersion) :
    Intact P id ((r.addView view).mapSecret fun s =>
      { s with viewCount := s.viewCount + 1, viewed := false }) := by
  have hwhole := h.whole s hs
  constructor
  · intro hnone
    simp [Record.addView_eq, Record.mapSecret, hs] at hnone
  · intro s' hs'
    simp only [Record.addView_eq, Record.mapSecret, hs, Option.map_some, Option.some.injEq] at hs'
    subst hs'
    constructor
    · obtain ⟨hlow, _⟩ := hwhole.row.views
      exact ⟨hwhole.row.lifetime, hwhole.row.ttl, ⟨by simp; omega, by simp; omega⟩, rfl,
        hwhole.row.guarded⟩
    · exact hwhole.history.unwritten (.addView view _ r) ⟨rfl, rfl, rfl, rfl⟩
    · exact hwhole.keyring.unwritten (.addView view _ r) ⟨rfl, rfl, rfl, rfl⟩
    · apply hwhole.shared.of_eq <;> simp [Record.addView_eq]
  · exact h.counts_view hs hcurrent ⟨rfl, rfl, rfl, rfl⟩

theorem Intact.lastView {view : SecretView} (h : Intact P id r) :
    Intact P id (r.addView view).removed where
  absent _ := ⟨fun _ => rfl, fun _ => rfl, rfl, rfl⟩
  whole s hs := by
    rw [Record.removed] at hs
    cases hs
  ledger := by
    apply Ledger.of_absent _ rfl
    intro hnone
    simp only [Record.addView_eq, Record.removed] at hnone ⊢
    simp [hnone, h.ledger.untracked hnone]

/-! ### New versions -/

theorem Keyring.eq_server (h : Keyring P s r) (hserver : ∃ m, (r.keys m).isSome) : ∃ count,
    1 ≤ count ∧ (∀ m, (r.keys m).isSome ↔ 1 ≤ m ∧ m ≤ count) ∧
      (∀ m key, r.keys m = some key → key.version = m) ∧ r.keyOf s.currentVersion = some count ∧
      (∀ n v, r.versions n = some v → ∃ m key, v.keyVersion = some m ∧ r.keys m = some key ∧
        Opens P v key) ∧
      ∀ n n' m m', n < n' → r.keyOf n = some m → r.keyOf n' = some m' → m < m' := by
  obtain ⟨m, hm⟩ := hserver
  cases h with
  | client text single unkeyed keyless => simp [keyless] at hm
  | server count numbers named newest opens later =>
    have hbound := (numbers m).mp hm
    exact ⟨count, by omega, numbers, named, newest, opens, later⟩

theorem NextKey.eq {n count : ℕ} (h : NextKey r n) (hpos : 1 ≤ count)
    (hnumbers : ∀ m, (r.keys m).isSome ↔ 1 ≤ m ∧ m ≤ count) : n = count + 1 := by
  have hleast := h.least count fun k hk => ((hnumbers k).mp hk).2
  have habove := h.above count ((hnumbers count).mpr ⟨hpos, le_refl _⟩)
  omega

/-- A version after the current one. -/
theorem History.append {v : SecretVersion} {key : SecretKey} {f : Secret → Secret}
    (h : History P id s r) (happended : Appended P id s v key r)
    (hkind : v.payloadType = s.payloadType) (hnonce : v.payloadType = .file → v.nonce = none)
    (hf : (f s).currentVersion = v.version ∧ (f s).payloadType = s.payloadType ∧
      (f s).content = v.content ∧ (f s).nonce = v.nonce) :
    History P id (f s) (((r.addKey key).setVersion v).mapSecret f) := by
  obtain ⟨hcurrent, htype, hcontent, hcopy⟩ := hf
  obtain ⟨hid, hversion, hcheck⟩ := happended.version
  have hlimit := happended.limit
  have hfind : ∀ n, (((r.addKey key).setVersion v).mapSecret f).versions n =
      if n = v.version then some v else r.versions n :=
    fun n => Function.update_apply r.versions v.version (some v) n
  constructor
  · omega
  · intro n
    rw [hfind, hcurrent]
    split
    · simp
      omega
    · rw [h.numbers]
      omega
  · intro n w hw
    rw [hfind] at hw
    rw [htype]
    split at hw
    · rename_i hn
      cases hw
      subst hn
      exact ⟨⟨hid, rfl⟩, hkind, hcheck, happended.object, hnonce⟩
    · exact h.rows n w hw
  · intro w hw
    rw [hfind, hcurrent, if_pos rfl] at hw
    cases hw
    exact ⟨hcontent, hcopy⟩

theorem Keyring.append {v : SecretVersion} {key : SecretKey} {f : Secret → Secret}
    (h : Keyring P s r) (hnumbers : ∀ n, (r.versions n).isSome → n ≤ s.currentVersion)
    (happended : Appended P id s v key r) (hserver : ∃ m, (r.keys m).isSome)
    (hcurrent : (f s).currentVersion = v.version) :
    Keyring P (f s) (((r.addKey key).setVersion v).mapSecret f) := by
  obtain ⟨count, hpos, numbers, named, newest, opens, later⟩ := h.eq_server hserver
  have hnext := happended.next.eq hpos numbers
  have hversion := happended.version.2.1
  have hfind : ∀ n, (((r.addKey key).setVersion v).mapSecret f).versions n =
      if n = v.version then some v else r.versions n :=
    fun n => Function.update_apply r.versions v.version (some v) n
  have hfindKey : ∀ m, (((r.addKey key).setVersion v).mapSecret f).keys m =
      if m = count + 1 then some key else r.keys m := by
    intro m
    rw [← hnext]
    exact Function.update_apply r.keys key.version (some key) m
  have hkeyOf : ∀ n, (((r.addKey key).setVersion v).mapSecret f).keyOf n =
      if n = v.version then some (count + 1) else r.keyOf n := by
    intro n
    rw [Record.keyOf, hfind, ← hnext]
    split
    · exact happended.keyed
    · rfl
  have hused : ∀ n m, r.keyOf n = some m → n ≤ s.currentVersion ∧ m ≤ count := by
    intro n m hm
    obtain ⟨w, hw, hkey⟩ := Option.bind_eq_some_iff.mp hm
    obtain ⟨m', key', hm', hfound, _⟩ := opens n w hw
    rw [hkey, Option.some.injEq] at hm'
    subst hm'
    exact ⟨hnumbers n (by simp [hw]), ((numbers m).mp (by simp [hfound])).2⟩
  apply Keyring.server (count + 1)
  · intro m
    rw [hfindKey]
    split
    · simp
      omega
    · rw [numbers]
      omega
  · intro m found hfound
    rw [hfindKey] at hfound
    split at hfound
    · cases hfound
      omega
    · exact named m found hfound
  · rw [hkeyOf, hcurrent, if_pos rfl]
  · intro n w hw
    rw [hfind] at hw
    split at hw
    · cases hw
      exact ⟨count + 1, key, hnext ▸ happended.keyed, by rw [hfindKey, if_pos rfl],
        happended.opens⟩
    · obtain ⟨m, found, hm, hfound, hopens⟩ := opens n w hw
      have hbound := (numbers m).mp (by simp [hfound])
      exact ⟨m, found, hm, by rw [hfindKey, if_neg (by omega), hfound], hopens⟩
  · intro n n' m m' hlt hm hm'
    rw [hkeyOf] at hm hm'
    split at hm' <;> split at hm
    · omega
    · have := hused n m hm
      simp at hm'
      omega
    · have := hused n' m' hm'
      omega
    · exact later n n' m m' hlt hm hm'

/-- The row of a secret with another text keeps what does not depend on it. -/
theorem Ledger.rewritten (h : Ledger P id r) (hs : r.secret = some s) (hr : r'.secret = some s')
    (htracking : r'.tracking = r.tracking) (hviews : r'.views = r.views)
    (howner : s'.ownerId = s.ownerId) (hexpires : s'.expiresAt = s.expiresAt)
    (hcount : s'.viewCount = s.viewCount) (hversion : s.currentVersion ≤ s'.currentVersion) :
    Ledger P id r' := by
  constructor
  · rw [htracking, hviews]
    exact h.untracked
  · intro _ ownerId hs' howner'
    rw [hr, Option.some.injEq] at hs'
    subst hs'
    rw [htracking, hexpires]
    exact h.owned s ownerId hs (howner ▸ howner')
  · intro _ t hs' ht
    rw [hr, Option.some.injEq] at hs'
    subst hs'
    exact howner.trans (h.tracked s t hs (htracking ▸ ht))
  · intro _ hs' htracked
    rw [hr, Option.some.injEq] at hs'
    subst hs'
    rw [hviews, hcount]
    exact h.counted s hs (htracking ▸ htracked)
  · intro _ hs' view hview
    rw [hr, Option.some.injEq] at hs'
    subst hs'
    obtain ⟨hlow, hhigh⟩ := h.seen s hs view (hviews ▸ hview)
    exact ⟨hlow, hhigh.trans hversion⟩

theorem Intact.append {v : SecretVersion} {key : SecretKey} {f : Secret → Secret}
    (h : Intact P id r) (happended : Appended P id s v key r)
    (hkind : v.payloadType = s.payloadType) (hnonce : v.payloadType = .file → v.nonce = none)
    (hserver : ∃ m, (r.keys m).isSome) (hrow : SoundRow s → SoundRow (f s))
    (htext : (f s).currentVersion = v.version ∧ (f s).payloadType = s.payloadType ∧
      (f s).content = v.content ∧ (f s).nonce = v.nonce)
    (hrest : (f s).ownerId = s.ownerId ∧ (f s).expiresAt = s.expiresAt ∧
      (f s).viewCount = s.viewCount ∧ (f s).signedToken = s.signedToken ∧
      (f s).emailRestricted = s.emailRestricted) :
    Intact P id (((r.addKey key).setVersion v).mapSecret f) := by
  have hs := happended.present
  have hwhole := h.whole s hs
  obtain ⟨howner, hexpires, hcount, hsigned, hrestricted⟩ := hrest
  have hr : (((r.addKey key).setVersion v).mapSecret f).secret = some (f s) := by simp [hs]
  constructor
  · intro hnone
    rw [hr] at hnone
    cases hnone
  · intro s' hs'
    rw [hr, Option.some.injEq] at hs'
    subst hs'
    constructor
    · exact hrow hwhole.row
    · exact hwhole.history.append happended hkind hnonce htext
    · exact hwhole.keyring.append (fun n hn => ((hwhole.history.numbers n).mp hn).2) happended
        hserver htext.1
    · exact hwhole.shared.of_eq rfl rfl hsigned hexpires hrestricted
  · apply h.ledger.rewritten hs hr rfl rfl howner hexpires hcount
    have := happended.version.2.1
    omega

/-- A file has no content of its own in the tables. -/
theorem StoredVersion.content_none {n : ℕ} {v : SecretVersion} (h : StoredVersion id n .file v) :
    v.content = none := by
  have hcheck := h.check
  simp only [SecretVersion.payloadCheck, h.kind, Bool.and_eq_true, Option.isNone_iff_eq_none]
    at hcheck
  exact hcheck.2

theorem decryptColumns_some {content nonce : Option String} {dek : Bytes} {plaintext : String}
    (h : KeyService.decryptColumns P content nonce dek = .ok plaintext) : content.isSome := by
  cases content with
  | none => cases h
  | some _ => rfl

theorem Whole.present (h : Whole P id s r) : ∃ v, r.versions s.currentVersion = some v :=
  Option.isSome_iff_exists.mp ((h.history.numbers _).mpr ⟨h.history.current.1, le_refl _⟩)

theorem Whole.text (h : Whole P id s r) (hcontent : s.content.isSome) : s.payloadType = .text := by
  obtain ⟨v, hv⟩ := h.present
  have hrow := h.history.rows _ v hv
  cases hkind : s.payloadType with
  | text => rfl
  | file =>
    rw [hkind] at hrow
    rw [(h.history.copy v hv).1, hrow.content_none] at hcontent
    cases hcontent

/-- A version with a key comes from a server that holds it. -/
theorem Whole.keyed (h : Whole P id s r) {n : ℕ} {v : SecretVersion} (hv : r.versions n = some v)
    (hkey : v.keyVersion.isSome) : ∃ m, (r.keys m).isSome := by
  cases h.keyring with
  | client text single unkeyed keyless =>
    have hnone := unkeyed n
    simp [Record.keyOf, hv] at hnone
    simp [hnone] at hkey
  | server count numbers named newest opens later =>
    obtain ⟨m, key, _, hfound, _⟩ := opens n v hv
    exact ⟨m, by simp [hfound]⟩

theorem Intact.appendText {v : SecretVersion} {key : SecretKey} (h : Intact P id r)
    (happended : Appended P id s v key r) (htext : v.payloadType = .text)
    (hserver : ∃ n old, r.versions n = some old ∧ old.keyVersion.isSome)
    (hkind : s.payloadType = .text ∨ ∃ n old, r.versions n = some old ∧ old.payloadType = .text) :
    Intact P id (((r.addKey key).setVersion v).mapSecret fun s => { s with
      content := v.content, nonce := v.nonce, currentVersion := v.version, updatedAt := now }) := by
  have hwhole := h.whole s happended.present
  obtain ⟨n, old, hold, hkeyed⟩ := hserver
  have hsecret : s.payloadType = .text := by
    obtain hsecret | ⟨n, old, hold, holdText⟩ := hkind
    · exact hsecret
    · rw [← (hwhole.history.rows n old hold).kind, holdText]
  apply h.append happended (htext.trans hsecret.symm)
  · simp [htext]
  · exact hwhole.keyed hold hkeyed
  · intro hrow
    exact ⟨hrow.lifetime, hrow.ttl, hrow.views, hrow.unseen, hrow.guarded⟩
  · exact ⟨rfl, rfl, rfl, rfl⟩
  · exact ⟨rfl, rfl, rfl, rfl, rfl⟩

theorem Intact.appendFile {v : SecretVersion} {key : SecretKey} (h : Intact P id r)
    (happended : Appended P id s v key r) (hfile : v.payloadType = .file) (hnonce : v.nonce = none)
    (hkind : s.payloadType = .file) :
    Intact P id (((r.addKey key).setVersion v).mapSecret fun s =>
      { s with currentVersion := v.version, updatedAt := now }) := by
  have hwhole := h.whole s happended.present
  obtain ⟨old, hold⟩ := hwhole.present
  have hrow := hwhole.history.rows _ old hold
  have hcopy := hwhole.history.copy old hold
  have hcheck := happended.version.2.2
  simp only [SecretVersion.payloadCheck, hfile, Bool.and_eq_true, Option.isNone_iff_eq_none] at hcheck
  rw [hkind] at hrow
  apply h.append happended (hfile.trans hkind.symm) fun _ => hnonce
  · cases hwhole.keyring with
    | client text single unkeyed keyless =>
      rw [hkind] at text
      cases text
    | server count numbers named newest opens later =>
      obtain ⟨m, key', _, hfound, _⟩ := opens _ old hold
      exact ⟨m, by simp [hfound]⟩
  · intro hsound
    exact ⟨hsound.lifetime, hsound.ttl, hsound.views, hsound.unseen, hsound.guarded⟩
  · exact ⟨rfl, rfl, by simp [hcopy.1, hrow.content_none, hcheck.2],
      by simp [hcopy.2, hrow.nonce hrow.kind, hnonce]⟩
  · exact ⟨rfl, rfl, rfl, rfl, rfl⟩

/-! ### Rotation -/

section Reseal
variable {v : SecretVersion} {old key : SecretKey} {content nonce : String}

theorem Record.versions_resealed (hcurrent : r.versions s.currentVersion = some v) (n : ℕ) :
    (r.resealed s.currentVersion key content nonce).versions n =
      if n = s.currentVersion then some (reseal content nonce key.version v) else r.versions n := by
  simp [Record.resealed, Record.mapVersion, Record.addKey, Function.update_apply, hcurrent]

theorem History.reseal (h : History P id s r) (htext : s.payloadType = .text)
    (hcurrent : r.versions s.currentVersion = some v)
    (hcheck : (reseal content nonce key.version v).payloadCheck = true) :
    History P id { s with content := some content, nonce := some nonce }
      (r.resealed s.currentVersion key content nonce) := by
  have hrow := h.rows _ v hcurrent
  constructor
  · exact h.current
  · intro n
    rw [Record.versions_resealed hcurrent]
    split
    · rename_i hn
      rw [hn, ← h.numbers, hcurrent]
      rfl
    · exact h.numbers n
  · intro n w hw
    rw [Record.versions_resealed hcurrent] at hw
    split at hw
    · rename_i hn
      cases hw
      subst hn
      refine ⟨hrow.named, hrow.kind, hcheck, hrow.object, ?_⟩
      intro hfile
      rw [show (Lifecycle.reseal content nonce key.version v).payloadType = v.payloadType from rfl,
        hrow.kind, htext] at hfile
      cases hfile
    · exact h.rows n w hw
  · intro w hw
    rw [Record.versions_resealed hcurrent, if_pos rfl] at hw
    cases hw
    exact ⟨rfl, rfl⟩

/-- The current version, which has the newest key, gets the next one. -/
theorem Keyring.reseal (h : Keyring P s r) (hnumbers : ∀ n, (r.versions n).isSome → n ≤ s.currentVersion)
    (hcurrent : r.versions s.currentVersion = some v) (hserver : ∃ m, (r.keys m).isSome)
    (hnext : NextKey r key.version) (hopens : Opens P (reseal content nonce key.version v) key) :
    Keyring P { s with content := some content, nonce := some nonce }
      (r.resealed s.currentVersion key content nonce) := by
  obtain ⟨count, hpos, numbers, named, newest, opens, later⟩ := h.eq_server hserver
  have hnext := hnext.eq hpos numbers
  have hfindKey : ∀ m, (r.resealed s.currentVersion key content nonce).keys m =
      if m = count + 1 then some key else r.keys m := by
    intro m
    rw [← hnext]
    exact Function.update_apply r.keys key.version (some key) m
  have hkeyOf : ∀ n, (r.resealed s.currentVersion key content nonce).keyOf n =
      if n = s.currentVersion then some (count + 1) else r.keyOf n := by
    intro n
    rw [Record.keyOf, Record.versions_resealed hcurrent, ← hnext]
    split <;> rfl
  have hused : ∀ n m, r.keyOf n = some m → n ≤ s.currentVersion ∧ m ≤ count := by
    intro n m hm
    obtain ⟨w, hw, hkey⟩ := Option.bind_eq_some_iff.mp hm
    obtain ⟨m', key', hm', hfound, _⟩ := opens n w hw
    rw [hkey, Option.some.injEq] at hm'
    subst hm'
    exact ⟨hnumbers n (by simp [hw]), ((numbers m).mp (by simp [hfound])).2⟩
  apply Keyring.server (count + 1)
  · intro m
    rw [hfindKey]
    split
    · simp
      omega
    · rw [numbers]
      omega
  · intro m found hfound
    rw [hfindKey] at hfound
    split at hfound
    · cases hfound
      omega
    · exact named m found hfound
  · rw [hkeyOf, if_pos rfl]
  · intro n w hw
    rw [Record.versions_resealed hcurrent] at hw
    split at hw
    · cases hw
      exact ⟨count + 1, key, hnext ▸ rfl, by rw [hfindKey, if_pos rfl], hopens⟩
    · obtain ⟨m, found, hm, hfound, hold⟩ := opens n w hw
      have hbound := (numbers m).mp (by simp [hfound])
      exact ⟨m, found, hm, by rw [hfindKey, if_neg (by omega), hfound], hold⟩
  · intro n n' m m' hlt hm hm'
    rw [hkeyOf] at hm hm'
    split at hm' <;> split at hm
    · omega
    · have := hused n m hm
      simp at hm'
      omega
    · have := hused n' m' hm'
      omega
    · exact later n n' m m' hlt hm hm'

theorem Intact.reseal {dek dek' : Bytes} {plaintext : String} (h : Intact P id r)
    (hs : r.secret = some s) (hcurrent : r.versions s.currentVersion = some v)
    (hheld : r.keys old.version = some old) (hnext : NextKey r key.version)
    (hold : KeyService.decryptColumns P s.content s.nonce dek = .ok plaintext)
    (hunwrap : P.unwrapDek key.wrappedDek key.dekNonce = .ok dek')
    (hnew : KeyService.decryptColumns P (some content) (some nonce) dek' = .ok plaintext)
    (hcheck : (Lifecycle.reseal content nonce key.version v).payloadCheck = true) :
    Intact P id (r.resealed s.currentVersion key content nonce) := by
  have hwhole := h.whole s hs
  have htext := hwhole.text (decryptColumns_some hold)
  have hrow := hwhole.row
  have hopens : Opens P (Lifecycle.reseal content nonce key.version v) key := by
    refine ⟨dek', hunwrap, ?_⟩
    rw [show (Lifecycle.reseal content nonce key.version v).payloadType = v.payloadType from rfl,
      (hwhole.history.rows _ v hcurrent).kind, htext]
    exact ⟨plaintext, hnew⟩
  have hr : (r.resealed s.currentVersion key content nonce).secret =
      some { s with content := some content, nonce := some nonce } := by
    simp [Record.resealed, Record.mapVersion, Record.mapSecret, hs]
  constructor
  · intro hnone
    rw [hr] at hnone
    cases hnone
  · intro s' hs'
    rw [hr, Option.some.injEq] at hs'
    subst hs'
    constructor
    · exact ⟨hrow.lifetime, hrow.ttl, hrow.views, hrow.unseen, hrow.guarded⟩
    · exact hwhole.history.reseal htext hcurrent hcheck
    · exact hwhole.keyring.reseal (fun n hn => ((hwhole.history.numbers n).mp hn).2) hcurrent
        ⟨old.version, by simp [hheld]⟩ hnext hopens
    · exact hwhole.shared.of_eq rfl rfl rfl rfl rfl
  · exact h.ledger.rewritten hs hr rfl rfl rfl rfl rfl (le_refl _)

end Reseal

/-! ### Policies, owners and histories -/

theorem Intact.repolicy {policy policy' : SecretAccessPolicy} (h : Intact P id r)
    (hpolicy : r.policy = some policy) (hnext : policy'.policyVersion = policy.policyVersion + 1) :
    Intact P id ({ r with policy := some policy' }.mapSecret fun s => { s with
      signedToken := some (Security.createSignedToken P id (s.expiresAt / second)
        policy'.policyVersion)
      updatedAt := now }) := by
  obtain hs | ⟨s, hs⟩ := Option.eq_none_or_eq_some r.secret
  · rw [(h.absent hs).2.2.1] at hpolicy
    cases hpolicy
  · have hwhole := h.whole s hs
    have hrow := hwhole.row
    constructor
    · intro hnone
      simp [Record.mapSecret, hs] at hnone
    · intro s' hs'
      simp only [Record.mapSecret, hs, Option.map_some, Option.some.injEq] at hs'
      subst hs'
      constructor
      · exact ⟨hrow.lifetime, hrow.ttl, hrow.views, hrow.unseen, hrow.guarded⟩
      · exact hwhole.history.unwritten (.of_eq rfl rfl) ⟨rfl, rfl, rfl, rfl⟩
      · exact hwhole.keyring.unwritten (.of_eq rfl rfl) ⟨rfl, rfl, rfl, rfl⟩
      · constructor
        · exact ⟨policy', rfl, by omega, s.expiresAt / second, Nat.div_mul_le_self _ _, rfl⟩
        · exact hwhole.shared.unrestricted
    · exact h.ledger.rewritten hs (congrArg (Option.map _) hs) rfl rfl rfl rfl rfl (le_refl _)

theorem Intact.disowned (h : Intact P id r) (gone : UUID → Bool) : Intact P id (r.disowned gone) := by
  constructor
  · intro hnone
    obtain ⟨hkeys, hversions, hrest⟩ := h.absent (by simpa [Record.disowned] using hnone)
    exact ⟨hkeys, by simp [Record.disowned, hversions], hrest⟩
  · intro s' hs'
    obtain ⟨s, hs, rfl⟩ := Option.map_eq_some_iff.mp hs'
    have hwhole := h.whole s hs
    have hrow := hwhole.row
    constructor
    · exact ⟨hrow.lifetime, hrow.ttl, hrow.views, hrow.unseen, hrow.guarded⟩
    · exact hwhole.history.unwritten (.disowned gone r) ⟨rfl, rfl, rfl, rfl⟩
    · exact hwhole.keyring.unwritten (.disowned gone r) ⟨rfl, rfl, rfl, rfl⟩
    · exact hwhole.shared.of_eq rfl rfl rfl rfl rfl
  · constructor
    · intro hnone
      simp only [Record.disowned] at hnone ⊢
      cases ht : r.tracking with
      | none => simp [h.ledger.untracked ht]
      | some t =>
        have hgone : gone t.ownerId = true := by simpa [ht] using hnone
        simp [hgone]
    · intro s' ownerId hs' howner
      obtain ⟨s, hs, rfl⟩ := Option.map_eq_some_iff.mp hs'
      obtain ⟨howned, hkept⟩ := Option.filter_eq_some_iff.mp howner
      rw [Record.disowned, h.ledger.owned s ownerId hs howned]
      simpa using hkept
    · intro s' t hs' ht
      obtain ⟨s, hs, rfl⟩ := Option.map_eq_some_iff.mp hs'
      obtain ⟨htracked, hkept⟩ := Option.filter_eq_some_iff.mp ht
      simp [h.ledger.tracked s t hs htracked, hkept]
    · intro s' hs' htracked
      obtain ⟨s, hs, rfl⟩ := Option.map_eq_some_iff.mp hs'
      simp only [Record.disowned] at htracked ⊢
      cases ht : r.tracking with
      | none => simp [ht] at htracked
      | some t =>
        have hcount := h.ledger.counted s hs (by simp [ht])
        cases hgone : gone t.ownerId with
        | true => simp [ht, hgone] at htracked
        | false => simpa [hgone] using hcount
    · intro s' hs' view hview
      obtain ⟨s, hs, rfl⟩ := Option.map_eq_some_iff.mp hs'
      simp only [Record.disowned] at hview
      split at hview
      · cases hview
      · obtain ⟨old, hold, rfl⟩ := List.mem_map.mp hview
        exact h.ledger.seen s hs old hold

/-- A history is retained for longer than its secret. -/
theorem Intact.untracked (valid : Settings.Valid P.settings) (h : Intact P id r)
    (hover : ∀ s, r.secret = some s → now ≤ s.expiresAt)
    (hdue : ∀ t, r.tracking = some t → t.retainUntil ≤ now) : Intact P id r.untracked := by
  have hunowned : ∀ s ownerId, r.secret = some s → s.ownerId ≠ some ownerId := by
    intro s ownerId hs howner
    have hretained := hdue _ (h.ledger.owned s ownerId hs howner)
    have hlater := hover s hs
    have hdays : 1 ≤ days P.settings.viewHistoryRetentionDays := by
      have := valid.retention
      simp only [days, second]
      omega
    exact absurd (hretained.trans hlater) (Nat.not_le_of_lt (Nat.lt_add_of_pos_right hdays))
  constructor
  · exact h.absent
  · intro s hs
    have hwhole := h.whole s hs
    exact ⟨hwhole.row, hwhole.history.unwritten (.of_eq rfl rfl) ⟨rfl, rfl, rfl, rfl⟩,
      hwhole.keyring.unwritten (.of_eq rfl rfl) ⟨rfl, rfl, rfl, rfl⟩,
      hwhole.shared.of_eq rfl rfl rfl rfl rfl⟩
  · constructor
    · simp [Record.untracked]
    · intro s ownerId hs howner
      exact absurd howner (hunowned s ownerId hs)
    · simp [Record.untracked]
    · simp [Record.untracked]
    · simp [Record.untracked]

/-! ### Every move -/

theorem Intact.quiet (valid : Settings.Valid P.settings) (h : Intact P id r)
    (hquiet : Quiet P now id r r') : Intact P id r' := by
  cases hquiet with
  | view present left current => exact h.view present left current
  | lastView present last current => exact h.lastView
  | remove => exact h.removed
  | reseal present current held newest next unwraps opens unwraps' opens' check =>
    exact h.reseal present current held next opens unwraps' opens' check
  | repolicy present next => exact h.repolicy present next
  | disown gone => exact h.disowned gone
  | untrack running due => exact h.untracked valid running due

theorem Intact.move (valid : Settings.Valid P.settings) (h : Intact P id r)
    (hmove : Move P now id r r') : Intact P id r' := by
  obtain hquiet | happend := hmove
  · exact h.quiet valid hquiet
  · cases happend with
    | text appended text server kind => exact h.appendText appended text server kind
    | file appended file uncopied kind => exact h.appendFile appended file uncopied kind

theorem Intact.moves (valid : Settings.Valid P.settings) (h : Intact P id r)
    (hmoves : Moves P now id r r') : Intact P id r' := by
  induction hmoves with
  | refl => exact h
  | tail _ hmove ih => exact ih.move valid hmove

end PhantomShare.Lifecycle
