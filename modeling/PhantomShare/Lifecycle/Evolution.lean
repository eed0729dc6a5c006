import PhantomShare.Lifecycle.Integrity

/-!
# What never changes

A record only grows. The terms of a secret are fixed at its birth, its counters never go
down, what a version says stays the same when it is sealed again, keys are never replaced,
a policy changes only with its number, and a view that is on record stays there for as long
as the history is retained. What is removed does not come back.
-/
namespace PhantomShare.Lifecycle
open Foundations

/-- What a reader of a version gets, with the key of the version. -/
def Record.contentOf (P : Platform) (r : Record) (n : ℕ) : Option String :=
  (r.versions n).bind fun v =>
    match v.keyVersion with
    | none => v.content
    | some m => (r.keys m).bind fun key => match P.unwrapDek key.wrappedDek key.dekNonce with
      | .ok dek => (KeyService.decryptColumns P v.content v.nonce dek).toOption
      | .error _ => none

/-- The later row of a secret: its terms are the same, and it may have lost its owner. -/
structure SameSecret (s s' : Secret) : Prop where
  terms : s' = { s with
    content := s'.content, nonce := s'.nonce, viewed := s'.viewed, ownerId := s'.ownerId
    viewCount := s'.viewCount, signedToken := s'.signedToken
    currentVersion := s'.currentVersion, updatedAt := s'.updatedAt }
  owner : s'.ownerId = s.ownerId ∨ s'.ownerId = none
  views : s.viewCount ≤ s'.viewCount
  version : s.currentVersion ≤ s'.currentVersion

/-- The later row of a version: it may be sealed anew, and have lost who created it. -/
structure SameVersion (v v' : SecretVersion) : Prop where
  facts : v' = { v with
    content := v'.content, nonce := v'.nonce, keyVersion := v'.keyVersion
    createdBy := v'.createdBy }
  creator : v'.createdBy = v.createdBy ∨ v'.createdBy = none
  sealed : v.payloadType = .file →
    v'.content = v.content ∧ v'.nonce = v.nonce ∧ v'.keyVersion = v.keyVersion

/-- A view without the link to the account of the viewer, which may be deleted. -/
def unlinked (view : SecretView) : SecretView := { view with viewerId := none }

structure Follows (P : Platform) (r r' : Record) : Prop where
  secret : ∀ s', r'.secret = some s' → ∃ s, r.secret = some s ∧ SameSecret s s'
  versions : r'.secret.isSome → ∀ n v, r.versions n = some v →
    ∃ v', r'.versions n = some v' ∧ SameVersion v v' ∧ r'.contentOf P n = r.contentOf P n
  keys : r'.secret.isSome → ∀ m key, r.keys m = some key → r'.keys m = some key
  policy : ∀ policy', r'.policy = some policy' → ∃ policy, r.policy = some policy ∧
    policy.policyVersion ≤ policy'.policyVersion ∧
      (policy'.policyVersion = policy.policyVersion → policy' = policy)
  recipients : r'.secret.isSome → r'.recipients = r.recipients
  tracking : ∀ t, r'.tracking = some t → r.tracking = some t
  views : r'.tracking.isSome → r.views.map unlinked <+: r'.views.map unlinked

variable {P : Platform} {now : Timestamp} {id : UUID} {a b c r r' : Record} {s s' : Secret}

theorem SameSecret.refl (s : Secret) : SameSecret s s := ⟨rfl, .inl rfl, le_refl _, le_refl _⟩

theorem SameSecret.trans {s₁ s₂ s₃ : Secret} (h₁₂ : SameSecret s₁ s₂) (h₂₃ : SameSecret s₂ s₃) :
    SameSecret s₁ s₃ where
  terms := by
    rw [h₂₃.terms, h₁₂.terms]
  owner := by
    obtain hsame | hnone := h₂₃.owner
    · rw [hsame]
      exact h₁₂.owner
    · exact .inr hnone
  views := h₁₂.views.trans h₂₃.views
  version := h₁₂.version.trans h₂₃.version

theorem SameVersion.refl (v : SecretVersion) : SameVersion v v :=
  ⟨rfl, .inl rfl, fun _ => ⟨rfl, rfl, rfl⟩⟩

theorem SameVersion.trans {v₁ v₂ v₃ : SecretVersion} (h₁₂ : SameVersion v₁ v₂)
    (h₂₃ : SameVersion v₂ v₃) : SameVersion v₁ v₃ where
  facts := by
    rw [h₂₃.facts, h₁₂.facts]
  creator := by
    obtain hsame | hnone := h₂₃.creator
    · rw [hsame]
      exact h₁₂.creator
    · exact .inr hnone
  sealed hfile := by
    obtain ⟨hcontent, hnonce, hkey⟩ := h₁₂.sealed hfile
    have hkind : v₂.payloadType = v₁.payloadType := by rw [h₁₂.facts]
    obtain ⟨hcontent', hnonce', hkey'⟩ := h₂₃.sealed (hkind.trans hfile)
    exact ⟨hcontent'.trans hcontent, hnonce'.trans hnonce, hkey'.trans hkey⟩

theorem Follows.refl (P : Platform) (r : Record) : Follows P r r where
  secret s hs := ⟨s, hs, .refl s⟩
  versions _ _ v hv := ⟨v, hv, .refl v, rfl⟩
  keys _ _ _ h := h
  policy policy h := ⟨policy, h, le_refl _, fun _ => rfl⟩
  recipients _ := rfl
  tracking _ h := h
  views _ := List.prefix_refl _

theorem Follows.present (h : Follows P r r') (hpresent : r'.secret.isSome) : r.secret.isSome := by
  obtain ⟨s', hs'⟩ := Option.isSome_iff_exists.mp hpresent
  obtain ⟨s, hs, _⟩ := h.secret s' hs'
  simp [hs]

theorem Follows.tracked (h : Follows P r r') (htracked : r'.tracking.isSome) :
    r.tracking.isSome := by
  obtain ⟨t, ht⟩ := Option.isSome_iff_exists.mp htracked
  simp [h.tracking t ht]

theorem Follows.trans (hab : Follows P a b) (hbc : Follows P b c) : Follows P a c where
  secret s₃ h₃ := by
    obtain ⟨s₂, h₂, hsame₂⟩ := hbc.secret s₃ h₃
    obtain ⟨s₁, h₁, hsame₁⟩ := hab.secret s₂ h₂
    exact ⟨s₁, h₁, hsame₁.trans hsame₂⟩
  versions hpresent n v₁ h₁ := by
    obtain ⟨v₂, h₂, hsame₂, hcontent₂⟩ := hab.versions (hbc.present hpresent) n v₁ h₁
    obtain ⟨v₃, h₃, hsame₃, hcontent₃⟩ := hbc.versions hpresent n v₂ h₂
    exact ⟨v₃, h₃, hsame₂.trans hsame₃, hcontent₃.trans hcontent₂⟩
  keys hpresent m key h := hbc.keys hpresent m key (hab.keys (hbc.present hpresent) m key h)
  policy p₃ h₃ := by
    obtain ⟨p₂, h₂, hle₂, heq₂⟩ := hbc.policy p₃ h₃
    obtain ⟨p₁, h₁, hle₁, heq₁⟩ := hab.policy p₂ h₂
    refine ⟨p₁, h₁, hle₁.trans hle₂, ?_⟩
    intro hsame
    rw [heq₂ (by omega), heq₁ (by omega)]
  recipients hpresent :=
    (hbc.recipients hpresent).trans (hab.recipients (hbc.present hpresent))
  tracking t h := hab.tracking t (hbc.tracking t h)
  views htracked := (hab.views (hbc.tracked htracked)).trans (hbc.views htracked)

instance (P : Platform) : IsPreorder Record (Follows P) where
  refl := Follows.refl P
  trans _ _ _ := Follows.trans

/-! ### Contents that stay -/

theorem Record.contentOf_eq {n : ℕ} {creator : Option UUID → Option UUID}
    (hversions : r'.versions n =
      (r.versions n).map fun v => { v with createdBy := creator v.createdBy })
    (hkeys : ∀ m, r.keyOf n = some m → r'.keys m = r.keys m) :
    r'.contentOf P n = r.contentOf P n := by
  rw [Record.contentOf, hversions, Record.contentOf]
  cases hv : r.versions n with
  | none => rfl
  | some v =>
    cases hkey : v.keyVersion with
    | none => simp [hkey]
    | some m =>
      have hm := hkeys m (by simp [Record.keyOf, hv, hkey])
      simp [hkey, hm]

theorem Record.contentOf_same {n : ℕ} (hversions : r'.versions n = r.versions n)
    (hkeys : ∀ m, r.keyOf n = some m → r'.keys m = r.keys m) :
    r'.contentOf P n = r.contentOf P n := by
  apply Record.contentOf_eq _ hkeys
  · exact fun creator => creator
  · simp [hversions]

/-- A move that writes no version and no key. -/
theorem Follows.of_unwritten (hunwritten : Unwritten r r') (hcreator : ∀ n v, r.versions n = some v →
      ∃ v', r'.versions n = some v' ∧ (v'.createdBy = v.createdBy ∨ v'.createdBy = none))
    (secret : ∀ s', r'.secret = some s' → ∃ s, r.secret = some s ∧ SameSecret s s')
    (policy : ∀ policy', r'.policy = some policy' → ∃ policy, r.policy = some policy ∧
      policy.policyVersion ≤ policy'.policyVersion ∧
        (policy'.policyVersion = policy.policyVersion → policy' = policy))
    (recipients : r'.recipients = r.recipients)
    (tracking : ∀ t, r'.tracking = some t → r.tracking = some t)
    (views : r'.tracking.isSome → r.views.map unlinked <+: r'.views.map unlinked) :
    Follows P r r' where
  secret := secret
  versions _ n v hv := by
    obtain ⟨creator, hversions⟩ := hunwritten.versions
    obtain ⟨v', hv', hgone⟩ := hcreator n v hv
    refine ⟨v', hv', ?_, Record.contentOf_eq (hversions n) fun m _ => by rw [hunwritten.keys]⟩
    rw [hversions, hv, Option.map_some, Option.some.injEq] at hv'
    subst hv'
    exact ⟨rfl, hgone, fun _ => ⟨rfl, rfl, rfl⟩⟩
  keys _ m key h := by rw [hunwritten.keys, h]
  policy := policy
  recipients _ := recipients
  tracking := tracking
  views := views

/-- What a removal leaves. -/
theorem Follows.of_absent (habsent : r'.secret = none) (hpolicy : r'.policy = none)
    (htracking : ∀ t, r'.tracking = some t → r.tracking = some t)
    (hviews : r'.tracking.isSome → r.views.map unlinked <+: r'.views.map unlinked) :
    Follows P r r' where
  secret s hs := by simp [habsent] at hs
  versions hpresent := by simp [habsent] at hpresent
  keys hpresent := by simp [habsent] at hpresent
  policy policy h := by simp [hpolicy] at h
  recipients hpresent := by simp [habsent] at hpresent
  tracking := htracking
  views := hviews

theorem addView_prefix (view : SecretView) (r : Record) :
    r.views.map unlinked <+: (r.addView view).views.map unlinked := by
  rw [Record.addView_eq]
  split <;> simp

/-! ### The moves -/

theorem Follows.view {view : SecretView} (hs : r.secret = some s) :
    Follows P r ((r.addView view).mapSecret fun s =>
      { s with viewCount := s.viewCount + 1, viewed := false }) := by
  apply Follows.of_unwritten (.addView view _ r)
  · intro n v hv
    exact ⟨v, by simp [Record.addView_eq, hv], .inl rfl⟩
  · intro s' hs'
    simp only [Record.addView_eq, Record.mapSecret, hs, Option.map_some, Option.some.injEq] at hs'
    subst hs'
    exact ⟨s, hs, rfl, .inl rfl, by simp, le_refl _⟩
  · intro policy hpolicy
    exact ⟨policy, by simpa [Record.addView_eq] using hpolicy, le_refl _, fun _ => rfl⟩
  · simp [Record.addView_eq]
  · simp [Record.addView_eq]
  · intro _
    exact addView_prefix view r

theorem Follows.lastView (view : SecretView) (r : Record) :
    Follows P r (r.addView view).removed := by
  apply Follows.of_absent rfl rfl
  · simp [Record.addView_eq, Record.removed]
  · intro _
    exact addView_prefix view r

/-- The key of a version that is there is not the new one. -/
theorem Whole.old_key (h : Whole P id s r) {n m next : ℕ} (hnext : NextKey r next)
    (hm : r.keyOf n = some m) : m ≠ next := by
  obtain ⟨v, hv, hkey⟩ := Option.bind_eq_some_iff.mp hm
  cases h.keyring with
  | client text single unkeyed keyless => simp [unkeyed] at hm
  | server count numbers named newest opens later =>
    obtain ⟨m', key, hm', hfound, _⟩ := opens n v hv
    rw [hkey, Option.some.injEq] at hm'
    have habove := hnext.above m (by simp [hm', hfound])
    omega

theorem Follows.append {v : SecretVersion} {key : SecretKey} {f : Secret → Secret}
    (h : Intact P id r) (happended : Appended P id s v key r)
    (hf : f s = { s with
      content := (f s).content, nonce := (f s).nonce, currentVersion := v.version
      updatedAt := (f s).updatedAt }) :
    Follows P r (((r.addKey key).setVersion v).mapSecret f) := by
  have hs := happended.present
  have hwhole := h.whole s hs
  have hversion := happended.version.2.1
  have hold : ∀ n, (r.versions n).isSome → n ≠ v.version := by
    intro n hn
    have := (hwhole.history.numbers n).mp hn
    omega
  constructor
  · intro s' hs'
    simp only [Record.mapSecret, Record.setVersion, Record.addKey, hs, Option.map_some,
      Option.some.injEq] at hs'
    subst hs'
    refine ⟨s, hs, ?_⟩
    rw [hf]
    exact ⟨rfl, .inl rfl, le_refl _, by simp; omega⟩
  · intro _ n old hn
    have hne := hold n (by simp [hn])
    have hsame : (((r.addKey key).setVersion v).mapSecret f).versions n = some old := by
      simp [Record.setVersion, hne, hn]
    refine ⟨old, hsame, .refl old, Record.contentOf_same (hsame.trans hn.symm) ?_⟩
    intro m hm
    have hother := hwhole.old_key happended.next hm
    simp [Record.addKey, hother]
  · intro _ m found hfound
    have habove := happended.next.above m (by simp [hfound])
    simp [Record.addKey, Function.update_apply, hfound]
    omega
  · intro policy hpolicy
    exact ⟨policy, hpolicy, le_refl _, fun _ => rfl⟩
  · intro _
    rfl
  · intro t ht
    exact ht
  · intro _
    exact List.prefix_refl _

/-- A text that is sealed again reads as before. -/
theorem Follows.reseal {v : SecretVersion} {old key : SecretKey} {dek dek' : Bytes}
    {plaintext content nonce : String} (h : Intact P id r) (hs : r.secret = some s)
    (hcurrent : r.versions s.currentVersion = some v) (hheld : r.keys old.version = some old)
    (hnewest : ∀ m, (r.keys m).isSome → m ≤ old.version) (hnext : NextKey r key.version)
    (hunwrap : P.unwrapDek old.wrappedDek old.dekNonce = .ok dek)
    (hold : KeyService.decryptColumns P s.content s.nonce dek = .ok plaintext)
    (hunwrap' : P.unwrapDek key.wrappedDek key.dekNonce = .ok dek')
    (hnew : KeyService.decryptColumns P (some content) (some nonce) dek' = .ok plaintext) :
    Follows P r (r.resealed s.currentVersion key content nonce) := by
  have hwhole := h.whole s hs
  have htext := hwhole.text (decryptColumns_some hold)
  have hrow := hwhole.history.rows _ v hcurrent
  have hkeys : ∀ m found, r.keys m = some found →
      (r.resealed s.currentVersion key content nonce).keys m = some found := by
    intro m found hfound
    have habove := hnext.above m (by simp [hfound])
    simp [Record.resealed, Record.addKey, Function.update_apply, hfound]
    omega
  constructor
  · intro s' hs'
    simp only [Record.resealed, Record.mapVersion, Record.mapSecret, Record.addKey, hs,
      Option.map_some, Option.some.injEq] at hs'
    subst hs'
    exact ⟨s, hs, rfl, .inl rfl, le_refl _, le_refl _⟩
  · intro _ n w hw
    have hversions : (r.resealed s.currentVersion key content nonce).versions n =
        if n = s.currentVersion then some (Lifecycle.reseal content nonce key.version v) else r.versions n :=
      Record.versions_resealed hcurrent n
    by_cases hn : n = s.currentVersion
    · subst hn
      rw [hcurrent, Option.some.injEq] at hw
      subst hw
      rw [if_pos rfl] at hversions
      refine ⟨_, hversions, ⟨rfl, .inl rfl, ?_⟩, ?_⟩
      · intro hfile
        rw [hrow.kind, htext] at hfile
        cases hfile
      · obtain ⟨count, _, numbers, _, newest, _⟩ :=
          hwhole.keyring.eq_server ⟨old.version, by simp [hheld]⟩
        obtain ⟨w, hw, hkeyed⟩ := Option.bind_eq_some_iff.mp newest
        rw [hcurrent, Option.some.injEq] at hw
        subst hw
        have hlast := hnewest count ((numbers count).mpr (by
          have := (numbers _).mp (show (r.keys old.version).isSome by simp [hheld])
          omega))
        have hbound := ((numbers _).mp (show (r.keys old.version).isSome by simp [hheld])).2
        have hcount : count = old.version := by omega
        have hcopy := hwhole.history.copy v hcurrent
        rw [hcopy.1, hcopy.2] at hold
        have hfound : (r.resealed s.currentVersion key content nonce).keys key.version = some key := by
          simp [Record.resealed, Record.addKey]
        simp [Record.contentOf, hversions, Lifecycle.reseal, hfound, hunwrap', hnew, hcurrent, hkeyed,
          hcount, hheld, hunwrap, hold, Except.toOption]
    · rw [if_neg hn] at hversions
      refine ⟨w, hversions.trans hw, .refl w, Record.contentOf_same hversions ?_⟩
      intro m hm
      have hother := hwhole.old_key hnext hm
      simp [Record.resealed, Record.addKey, hother]
  · intro _
    exact hkeys
  · intro policy hpolicy
    exact ⟨policy, hpolicy, le_refl _, fun _ => rfl⟩
  · intro _
    rfl
  · intro t ht
    exact ht
  · intro _
    exact List.prefix_refl _

theorem Follows.repolicy {policy policy' : SecretAccessPolicy} (hpolicy : r.policy = some policy)
    (hnext : policy'.policyVersion = policy.policyVersion + 1) :
    Follows P r ({ r with policy := some policy' }.mapSecret fun s => { s with
      signedToken := some (Security.createSignedToken P id (s.expiresAt / second)
        policy'.policyVersion)
      updatedAt := now }) := by
  apply Follows.of_unwritten
  · exact .of_eq rfl rfl
  · intro n v hv
    exact ⟨v, hv, .inl rfl⟩
  · intro s' hs'
    obtain ⟨s, hs, rfl⟩ := Option.map_eq_some_iff.mp hs'
    exact ⟨s, hs, rfl, .inl rfl, le_refl _, le_refl _⟩
  · intro other hother
    cases hother
    exact ⟨policy, hpolicy, by omega, by omega⟩
  · rfl
  · intro t ht
    exact ht
  · intro _
    exact List.prefix_refl _

theorem filter_owner (gone : UUID → Bool) (owner : Option UUID) :
    (owner.filter fun id => !gone id) = owner ∨ (owner.filter fun id => !gone id) = none := by
  cases owner with
  | none => exact .inl rfl
  | some id => cases hgone : gone id <;> simp [hgone]

theorem Follows.disowned (gone : UUID → Bool) (r : Record) : Follows P r (r.disowned gone) := by
  apply Follows.of_unwritten (.disowned gone r)
  · intro n v hv
    exact ⟨{ v with createdBy := v.createdBy.filter fun id => !gone id },
      by simp [Record.disowned, hv], filter_owner gone _⟩
  · intro s' hs'
    obtain ⟨s, hs, rfl⟩ := Option.map_eq_some_iff.mp hs'
    exact ⟨s, hs, rfl, filter_owner gone _, le_refl _, le_refl _⟩
  · intro policy hpolicy
    exact ⟨policy, hpolicy, le_refl _, fun _ => rfl⟩
  · rfl
  · intro t ht
    exact (Option.filter_eq_some_iff.mp ht).1
  · intro htracked
    obtain ⟨t, ht⟩ := Option.isSome_iff_exists.mp htracked
    obtain ⟨hfound, hkept⟩ := Option.filter_eq_some_iff.mp ht
    rw [Bool.not_eq_true'] at hkept
    have hviews : (r.disowned gone).views.map unlinked = r.views.map unlinked := by
      simp [Record.disowned, hfound, hkept, Function.comp_def, unlinked]
    rw [hviews]

theorem Follows.untracked (r : Record) : Follows P r r.untracked := by
  apply Follows.of_unwritten
  · exact .of_eq rfl rfl
  · intro n v hv
    exact ⟨v, hv, .inl rfl⟩
  · intro s hs
    exact ⟨s, hs, .refl s⟩
  · intro policy hpolicy
    exact ⟨policy, hpolicy, le_refl _, fun _ => rfl⟩
  · rfl
  · simp [Record.untracked]
  · simp [Record.untracked]

theorem Follows.quiet (h : Intact P id r) (hquiet : Quiet P now id r r') : Follows P r r' := by
  cases hquiet with
  | view present left current => exact Follows.view present
  | lastView present last current => exact Follows.lastView _ r
  | remove => exact Follows.of_absent rfl rfl (fun _ ht => ht) fun _ => List.prefix_refl _
  | reseal present current held newest next unwraps opens unwraps' opens' check =>
    exact Follows.reseal h present current held newest next unwraps opens unwraps' opens'
  | repolicy present next => exact Follows.repolicy present next
  | disown gone => exact Follows.disowned gone r
  | untrack running due => exact Follows.untracked r

theorem Follows.move (h : Intact P id r) (hmove : Move P now id r r') : Follows P r r' := by
  obtain hquiet | happend := hmove
  · exact Follows.quiet h hquiet
  · cases happend with
    | text appended text server kind => exact Follows.append h appended rfl
    | file appended file uncopied kind => exact Follows.append h appended rfl

theorem Follows.moves (valid : Settings.Valid P.settings) (h : Intact P id r)
    (hmoves : Moves P now id r r') : Follows P r r' := by
  induction hmoves with
  | refl => exact Follows.refl P r
  | tail hprior hmove ih => exact ih.trans (Follows.move (h.moves valid hprior) hmove)

end PhantomShare.Lifecycle
