import PhantomShare.Service.Handlers

/-!
# Creations and updates of files

What the steps before a transaction have established is still true when it starts: the
id that was drawn is unused, the clock has not gone back, and the secret that was read
is still a file if it is there at all.
-/
namespace PhantomShare.Service
open Foundations Lifecycle

variable {P : Platform} {pid : ℕ} {v : ServiceView} {id : UUID} {user : CurrentUser}
  {clientIp : String}

theorem Pending.stable (w w' : World) (h : Pending pid id w) (hkeeps : Keeps P pid w w') :
    Pending pid id w' := h.keeps hkeeps

theorem only_scheduleExpiry_lasts (id : UUID) (ttlSeconds : ℕ) :
    (Secrets.scheduleExpiry id ttlSeconds).Only (Lasts P) := by
  apply Program.Only.tryCatch
  · apply Program.only_perform
    intro pid w choice w' r hact
    have hset : ∀ sentinels, Lasts P pid (.setExpiry id) w (w.setSentinels sentinels) :=
      fun _ => .of_same (.inl rfl) (le_refl _) rfl rfl
    cases hfails : choice.fails <;> cases hlanded : choice.landed <;> simp only [hfails, hlanded,
      if_true, Bool.false_eq_true, if_false, Option.some.injEq, Prod.mk.injEq] at hact <;>
      rw [← hact.1]
    · exact hset _
    · exact hset _
    · exact .calm (.refl pid w)
    · exact hset _
  · exact fun error => Program.only_pure ()

/-! ### Texts -/

theorem wp_createSecret (sound : P.Sound) (valid : Settings.Valid P.settings) {body : SecretCreate} :
    (serviceRules P).wp pid (Secrets.createSecret P body user clientIp) (fun _ _ => True) v := by
  apply wp_lasts_then (A := fun _ => True) valid (still_lasts.only_reserve _ _ _)
    (fun _ _ _ _ => trivial) trivial fun _ _ => trivial
  intro reservation v₁ _
  apply wp_draw valid
  intro id v₂ h₂
  apply wp_followed valid
  · apply wp_rescued valid
    · apply wp_creates valid (fun _ => rfl) Pending.stable (fun _ h => h) h₂
      intro w choice signedToken db _ hrun
      exact (ensures_createTransaction sound).run hrun
    · intro error
      exact (still_lasts.only_release reservation).bind fun _ => Program.only_throw _
  · intro signedToken
    apply (still_lasts.only_commit reservation).bind
    intro _
    apply (only_scheduleExpiry_lasts _ _).bind
    intro _
    apply (still_lasts.only_query _ _).bind
    intro row
    cases row with
    | none => exact Program.only_throw _
    | some expiresAt => exact Program.only_pure _

/-! ### Files -/

theorem only_pendingUpload_lasts (pendingId : UUID) (objectKey : ObjectKey)
    (reservation : Reservation) (size : ℕ) : (transaction (.pendingUpload objectKey) fun _ now =>
      Tx.write fun db => db.insertPendingUpload
        (Files.pendingRow pendingId objectKey reservation size now)).Only (Lasts P) := by
  apply still_lasts.only_write
  intro pid w db hinsert
  obtain ⟨pending, _, hdb⟩ := Database.insertPendingUpload_ok hinsert
  rw [hdb]
  exact .aside rfl fun _ => rfl

/-- The share token is signed before the transaction that stores it. -/
theorem wp_storeCreation (sound : P.Sound) (valid : Settings.Valid P.settings) {pendingId : UUID}
    {objectKey : ObjectKey} {body : FileCreate} {encrypted : Files.Encrypted} {size : ℕ}
    {detail : String} {reservation : Reservation} (hversion : objectKey.version = 1)
    (hencloses : Encloses P body.upload objectKey encrypted size)
    (h : Pending pid objectKey.secretId v.shared) :
    (serviceRules P).wp pid (Files.storeCreation P pendingId objectKey body encrypted size detail
      reservation user clientIp) (fun _ _ => True) v := by
  apply wp_lasts_then valid (only_pendingUpload_lasts _ _ _ _) Pending.stable h fun _ _ => trivial
  intro _ v₁ h₁
  apply wp_lasts_then valid (still_lasts.only_upload _ _) Pending.stable h₁ fun _ _ => trivial
  intro encryptedSize v₂ h₂
  apply wp_liftExcept_bind fun _ _ => trivial
  intro access _
  apply wp_clock_bind keeps_refl
  intro v₃ henv₃ _
  apply wp_followed valid
  · apply wp_creates (A := fun w => Pending pid objectKey.secretId w ∧ v₃.shared.now ≤ w.now) valid
      (fun _ => by rw [stores, hversion]) _ (fun _ h => h.1) ⟨h₂.keeps henv₃.1, le_refl _⟩
    · intro w choice value db hA hrun
      exact (ensures_createFileTransaction sound hversion hA.2 hencloses).run hrun
    · exact fun w w' hA hkeeps => ⟨hA.1.keeps hkeeps, hA.2.trans hkeeps.now⟩
  · intro _
    exact (still_lasts.only_logWith logs_lasts _).bind fun _ => Program.only_pure _

theorem wp_encryptAndStore (sound : P.Sound) (valid : Settings.Valid P.settings) {pendingId : UUID}
    {body : FileCreate} {plaintext : Bytes} {size : ℕ} {detail : String} {reservation : Reservation}
    (hsize : size = plaintext.length) :
    (serviceRules P).wp pid (Files.encryptAndStore P pendingId body plaintext size detail reservation
      user clientIp) (fun _ _ => True) v := by
  apply wp_draw valid
  intro secretId v₁ h₁
  apply wp_lasts_then valid still_lasts.only_urandom Pending.stable h₁ fun _ _ => trivial
  intro random v₂ h₂
  apply wp_liftExcept_bind fun _ _ => trivial
  intro encrypted hencrypt
  apply wp_lasts_then valid still_lasts.only_uuid4 Pending.stable h₂ fun _ _ => trivial
  intro nonce v₃ h₃
  apply wp_followed valid
  · apply wp_rescued valid
    · exact wp_storeCreation sound valid rfl ⟨plaintext, random, hsize, hencrypt⟩ h₃
    · intro error
      exact (still_lasts.only_discardObject _).bind fun _ => Program.only_throw _
  · exact fun signedToken => Program.only_pure _

theorem wp_makeDurable (sound : P.Sound) (valid : Settings.Valid P.settings) {pendingId : UUID}
    {body : FileCreate} : (serviceRules P).wp pid (Files.makeDurable P pendingId body user clientIp)
      (fun _ _ => True) v := by
  apply wp_liftExcept_bind fun _ _ => trivial
  rintro ⟨plaintext, size⟩ hspool
  obtain ⟨rfl, rfl, _⟩ := Files.spoolUpload_ok hspool
  apply wp_lasts_then (A := fun _ => True) valid (still_lasts.only_scanUpload logs_lasts)
    (fun _ _ _ _ => trivial) trivial fun _ _ => trivial
  intro detail v₁ _
  apply wp_lasts_then (A := fun _ => True) valid (still_lasts.only_reserve _ _ _)
    (fun _ _ _ _ => trivial) trivial fun _ _ => trivial
  intro reservation v₂ _
  apply wp_followed valid
  · apply wp_rescued valid (wp_encryptAndStore sound valid rfl)
    intro error
    exact (still_lasts.only_release reservation).bind fun _ => Program.only_throw _
  · exact fun created => Program.only_pure _

theorem wp_createFileSecret (sound : P.Sound) (valid : Settings.Valid P.settings) {body : FileCreate} :
    (serviceRules P).wp pid (Files.createFileSecret P body user clientIp) (fun _ _ => True) v := by
  apply wp_lasts_then (A := fun _ => True) valid (still_lasts.only_reserve _ _ _)
    (fun _ _ _ _ => trivial) trivial fun _ _ => trivial
  intro secretReservation v₁ _
  apply wp_lasts_then (A := fun _ => True) valid still_lasts.only_uuid4 (fun _ _ _ _ => trivial)
    trivial fun _ _ => trivial
  intro pendingId v₂ _
  apply wp_followed valid
  · apply wp_rescued valid (wp_makeDurable sound valid)
    intro error
    exact (still_lasts.only_release secretReservation).bind fun _ => Program.only_throw _
  · rintro ⟨secretId, signedToken, size, byteReservation⟩
    apply Program.Only.bind
    · apply Program.Only.tryCatch
      · exact (still_lasts.only_commit _).bind fun _ => still_lasts.only_commit _
      · intro error
        exact (still_lasts.only_reconcileUser _).bind fun _ => Program.only_pure _
    · intro _
      exact (only_scheduleExpiry_lasts _ _).bind fun _ => Program.only_pure _

/-! ### Updates of files -/

/-- The secret was created, and is a file if it is there. -/
structure Filed (id : UUID) (w : World) : Prop where
  used : Used w id
  kind : ∀ s, w.db.secrets.find id = some s → s.payloadType = .file

theorem Filed.stable (w w' : World) (h : Filed id w) (hkeeps : Keeps P pid w w') : Filed id w' where
  used := hkeeps.used h.used
  kind s' hs' := by
    obtain ⟨s, hs, hsame⟩ := (hkeeps.follows id h.used).secret s' hs'
    rw [hsame.terms]
    exact h.kind s hs

/-- What the checks on the first row of an update say. -/
theorem checkRow_ok {secret : Secret} {body : FileUpdate} {u : Unit}
    (h : FileVersions.checkRow P secret body user = .ok u) :
    Security.requireOwnsSecret secret.ownerId user = .ok () ∧ secret.payloadType = .file ∧
      secret.currentVersion = body.expectedVersion ∧
      body.expectedVersion < P.settings.maxSecretVersions := by
  obtain ⟨_, howns, h⟩ := FileCrypto.bind_eq_ok.mp h
  by_cases hkind : secret.payloadType = .file
  · by_cases hexpected : secret.currentVersion = body.expectedVersion
    · by_cases hlimit : P.settings.maxSecretVersions ≤ body.expectedVersion
      · simp [hkind, hexpected, hlimit, throw, throwThe, MonadExceptOf.throw] at h
      · exact ⟨howns, hkind, hexpected, Nat.lt_of_not_le hlimit⟩
    · simp [hkind, hexpected, throw, throwThe, MonadExceptOf.throw, bind, Except.bind] at h
  · simp [hkind, throw, throwThe, MonadExceptOf.throw, bind, Except.bind] at h

theorem wp_storeUpdate (sound : P.Sound) (valid : Settings.Valid P.settings) {pendingId : UUID}
    {objectKey : ObjectKey} {body : FileUpdate} {encrypted : Files.Encrypted} {size : ℕ}
    {detail : String} {reservation : Reservation}
    (hversion : objectKey.version = body.expectedVersion + 1)
    (hlimit : body.expectedVersion < P.settings.maxSecretVersions)
    (hencloses : Encloses P body.upload objectKey encrypted size)
    (h : Filed objectKey.secretId v.shared) :
    (serviceRules P).wp pid (FileVersions.storeUpdate pendingId objectKey body encrypted size detail
      reservation user clientIp) (fun _ _ => True) v := by
  apply wp_lasts_then valid (only_pendingUpload_lasts _ _ _ _) Filed.stable h fun _ _ => trivial
  intro _ v₁ h₁
  apply wp_lasts_then valid (still_lasts.only_upload _ _) Filed.stable h₁ fun _ _ => trivial
  intro encryptedSize v₂ h₂
  apply wp_extends valid (fun _ => rfl) Filed.stable h₂
  intro w choice value db hfiled hrun
  exact (ensures_updateFile sound hversion hlimit hfiled.kind hencloses).run hrun

theorem wp_updateFileSecret (sound : P.Sound) (valid : Settings.Valid P.settings) {secretId : UUID}
    {body : FileUpdate} : (serviceRules P).wp pid
      (FileVersions.updateFileSecret P secretId body user clientIp) (fun _ _ => True) v := by
  apply wp_query_bind keeps_refl
  intro v₁ _ horderly _
  refine ⟨trivial, ?_⟩
  cases hs : v₁.shared.db.secrets.find secretId with
  | none => exact Rules.wp_throw trivial
  | some secret =>
    apply wp_liftExcept_bind fun _ _ => trivial
    intro _ hcheck
    obtain ⟨_, hkind, _, hlimit⟩ := checkRow_ok hcheck
    have hfiled : Filed secretId v₁.shared := by
      constructor
      · exact horderly.present hs
      · intro s hfind
        rw [hs, Option.some.injEq] at hfind
        rw [← hfind]
        exact hkind
    apply wp_lasts_then valid still_lasts.only_uuid4 Filed.stable hfiled fun _ _ => trivial
    intro pendingId v₂ h₂
    apply wp_liftExcept_bind fun _ _ => trivial
    rintro ⟨plaintext, size⟩ hspool
    obtain ⟨rfl, rfl, _⟩ := Files.spoolUpload_ok hspool
    apply wp_lasts_then valid (still_lasts.only_scanUpload logs_lasts) Filed.stable h₂
      fun _ _ => trivial
    intro detail v₃ h₃
    apply wp_lasts_then valid (still_lasts.only_reserve _ _ _) Filed.stable h₃ fun _ _ => trivial
    intro reservation v₄ h₄
    apply wp_followed valid
    · apply wp_rescued valid
      · apply wp_lasts_then valid still_lasts.only_urandom Filed.stable h₄ fun _ _ => trivial
        intro random v₅ h₅
        apply wp_liftExcept_bind fun _ _ => trivial
        intro encrypted hencrypt
        apply wp_lasts_then valid still_lasts.only_uuid4 Filed.stable h₅ fun _ _ => trivial
        intro nonce v₆ h₆
        apply wp_rescued valid
        · exact wp_storeUpdate sound valid rfl hlimit ⟨_, random, rfl, hencrypt⟩ h₆
        · intro error
          exact (still_lasts.only_discardObject _).bind fun _ => Program.only_throw _
      · intro error
        exact (still_lasts.only_release reservation).bind fun _ => Program.only_throw _
    · intro _
      apply Program.Only.bind
      · apply (still_lasts.only_commit _).tryCatch
        intro error
        exact (still_lasts.only_reconcileUser _).bind fun _ => Program.only_pure _
      · exact fun _ => Program.only_pure _

end PhantomShare.Service
