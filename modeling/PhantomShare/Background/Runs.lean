import PhantomShare.Background.Scheduling

/-!
# Expiry keys outlive their secrets

Creations, views, policy changes, switched users, refreshes, expiry events and
sweeps, in any order. A creation sets the expiry key after the trigger has set the
expiry of the row, so no key expires before its secret does; and a deletion that
an expiry event asks for comes after the expiry of the key.
-/
namespace PhantomShare.Background
open Foundations

inductive BackgroundRequest where
  | create (body : SecretCreate) (user : CurrentUser) (clientIp : String)
  | createFile (body : FileCreate) (user : CurrentUser) (clientIp : String)
  | retrieve (secretId : String) (accessPassword token : Option String) (clientIp : String)
      (currentUser : Option CurrentUser)
  | download (secretId : UUID) (token accessPassword : Option String) (clientIp : String)
      (currentUser : Option CurrentUser)
  | updatePolicy (id : UUID) (body : LocationPolicyUpdate) (user : CurrentUser) (clientIp : String)
  | switchActivation (userId : UUID) (credentials : Option String) (clientIp : String)
  | refresh (refreshToken userAgent clientIp : String)
  | expired (secretId : UUID)
  | sweep
  | cleanup (credentials : Option String) (clientIp : String)
  | wait
  deriving DecidableEq

inductive BackgroundResponse where
  | created (response : SecretCreateResponse)
  | fileCreated (response : FileSecretResponse)
  | content (response : SecretContent)
  | file (response : FileResponse)
  | policy (response : LocationPolicyResponse)
  | status (response : UserStatusResponse)
  | tokens (response : TokenResponse)
  | swept (result : CleanupService.SweepResult)
  | noContent

/-- The requests that no client makes, and the sweep on demand. -/
def BackgroundRequest.deletes : BackgroundRequest → Bool
  | .expired _ | .sweep | .cleanup _ _ => true
  | _ => false

/-- The requests that set expiry keys or are about one. -/
def BackgroundRequest.concernsKeys : BackgroundRequest → Bool
  | .create _ _ _ | .createFile _ _ _ | .expired _ => true
  | _ => false

/-- The connection of a crashed process is rolled back. -/
def backgroundSystem (P : Platform) :
    System World Choice Label BackgroundRequest Exn BackgroundResponse where
  serve
    | .create body user clientIp => .created <$> Secrets.createSecret P body user clientIp
    | .createFile body user clientIp => .fileCreated <$> Files.createFileSecret P body user clientIp
    | .retrieve secretId accessPassword token clientIp currentUser =>
      .content <$> Secrets.retrieveSecret P secretId accessPassword token clientIp currentUser
    | .download secretId token accessPassword clientIp currentUser =>
      .file <$> Files.downloadFileSecret P secretId token accessPassword clientIp currentUser
    | .updatePolicy id body user clientIp =>
      .policy <$> SecretAccess.updateLocationPolicy P id body user clientIp
    | .switchActivation userId credentials clientIp =>
      .status <$> Admin.switchUserActivation P userId credentials clientIp
    | .refresh refreshToken userAgent clientIp =>
      .tokens <$> Auth.refreshTokenEndpoint P refreshToken userAgent clientIp
    | .expired secretId => (fun _ => .noContent) <$> CleanupService.onExpired secretId
    | .sweep => .swept <$> CleanupService.fallbackSweep
    | .cleanup credentials clientIp => .swept <$> Admin.cleanupExpired P credentials clientIp
    | .wait => (fun _ => .noContent) <$> tick
  recover := Auth.discardWork

/-! ### The invariant -/

/-- The expiry key of the secret has expired. -/
def Announced (id : UUID) (w : World) : Prop :=
  ∃ key, w.sentinels.find id = some key ∧ key.expiresAt ≤ w.now

/-- Secrets and expiry keys have drawn ids, no secret outlives its key, and what expiry events have
deleted was announced. -/
structure Consistent (w : World) : Prop where
  distinct : DistinctIds w
  rows : ∀ id s, w.db.secrets.find id = some s → ∃ pid, (id, pid) ∈ w.issued
  keys : ∀ id key, w.sentinels.find id = some key → ∃ pid, (id, pid) ∈ w.issued
  outlived : ∀ id s key, w.db.secrets.find id = some s → w.sentinels.find id = some key →
    s.expiresAt ≤ key.expiresAt
  announced : ∀ k id, (k, .expireSecret id) ∈ w.commits → Announced id w

/-- What other processes leave of the secrets and expiry keys under the ids of process `k`. -/
structure Keeps (k : ℕ) (w w' : World) : Prop where
  issued : w.issued ⊆ w'.issued
  now : w.now ≤ w'.now
  keys : ∀ id key, w.sentinels.find id = some key → w'.sentinels.find id = some key
  ownRows : ∀ id, (id, k) ∈ w.issued → ∀ s', w'.db.secrets.find id = some s' →
    ∃ s, w.db.secrets.find id = some s ∧ s.expiresAt = s'.expiresAt
  ownKeys : ∀ id, (id, k) ∈ w.issued → w.sentinels.find id = none → w'.sentinels.find id = none

theorem Keeps.refl (k : ℕ) (w : World) : Keeps k w w where
  issued := List.Subset.refl _
  now := le_refl _
  keys _ _ h := h
  ownRows _ _ s h := ⟨s, h, rfl⟩
  ownKeys _ _ h := h

theorem Keeps.trans {k : ℕ} {a b c : World} (hab : Keeps k a b) (hbc : Keeps k b c) :
    Keeps k a c where
  issued := List.Subset.trans hab.issued hbc.issued
  now := hab.now.trans hbc.now
  keys id key h := hbc.keys id key (hab.keys id key h)
  ownRows id hid s h := by
    rcases hbc.ownRows id (hab.issued hid) s h with ⟨s₁, h₁, hsame₁⟩
    rcases hab.ownRows id hid s₁ h₁ with ⟨s₂, h₂, hsame₂⟩
    exact ⟨s₂, h₂, hsame₂.trans hsame₁⟩
  ownKeys id hid h := hbc.ownKeys id (hab.issued hid) (hab.ownKeys id hid h)

theorem Announced.keeps {id : UUID} {k : ℕ} {w w' : World} (h : Announced id w)
    (hkeeps : Keeps k w w') : Announced id w' := by
  rcases h with ⟨key, hfind, hexpired⟩
  exact ⟨key, hkeeps.keys id key hfind, hexpired.trans hkeeps.now⟩

/-- What a step of process `pid` has to show. -/
structure Turn (pid : ℕ) (w w' : World) : Prop where
  consistent : Consistent w'
  others : ∀ k, k ≠ pid → Keeps k w w'

section Turns
variable {due : World → UUID → Timestamp → Prop} {may : UUID → Prop} {pid : ℕ} {label : Label}
  {w w' : World}

/-- A bounded step, when what is due is the process's own and what may be deleted was announced. -/
theorem Turn.advance (h : Consistent w) (hstep : Advances due may pid label w w')
    (hdue : ∀ id t, due w id t → (id, pid) ∈ w.issued ∧ w.sentinels.find id = none)
    (hmay : ∀ id, may id → Announced id w) : Turn pid w w' := by
  have hissued : w.issued ⊆ w'.issued := Draws.subset hstep.issued
  have hkept : ∀ id, Announced id w → Announced id w' := by
    rintro id ⟨key, hfind, hexpired⟩
    exact ⟨key, hstep.sentinels ▸ hfind, hexpired.trans hstep.now⟩
  constructor
  · constructor
    · exact h.distinct.draws hstep.issued
    · intro id s' hfind
      rcases hstep.secrets id s' hfind with ⟨s, hs, _⟩ | hnew
      · rcases h.rows id s hs with ⟨k, hk⟩
        exact ⟨k, hissued hk⟩
      · exact ⟨pid, hissued (hdue id _ hnew).1⟩
    · intro id key hfind
      rw [hstep.sentinels] at hfind
      rcases h.keys id key hfind with ⟨k, hk⟩
      exact ⟨k, hissued hk⟩
    · intro id s' key hs' hkey
      rw [hstep.sentinels] at hkey
      rcases hstep.secrets id s' hs' with ⟨s, hs, hsame⟩ | hnew
      · rw [← hsame]
        exact h.outlived id s key hs hkey
      · rw [(hdue id _ hnew).2] at hkey
        cases hkey
    · intro k id hmem
      rcases hstep.commits k id hmem with hold | hnew
      · exact hkept id (h.announced k id hold)
      · exact hkept id (hmay id hnew)
  · intro k hk
    refine ⟨hissued, hstep.now, ?_, ?_, ?_⟩
    · intro id key hfind
      rw [hstep.sentinels]
      exact hfind
    · intro id hid s' hfind
      rcases hstep.secrets id s' hfind with hold | hnew
      · exact hold
      · exact absurd (h.distinct.owner hid (hdue id _ hnew).1) hk
    · intro id _ hfind
      rw [hstep.sentinels]
      exact hfind

/-- The expiry key of a secret of the process, which expires no earlier than the secret. -/
theorem Turn.setExpiry {id : UUID} {expiresAt : Timestamp} (h : Consistent w)
    (hdrawn : (id, pid) ∈ w.issued) (hunset : w.sentinels.find id = none)
    (hrows : ∀ s, w.db.secrets.find id = some s → s.expiresAt ≤ expiresAt) :
    Turn pid w (w.setSentinels (w.sentinels.put ⟨id, expiresAt⟩)) := by
  have hfind : ∀ other, (w.sentinels.put ⟨id, expiresAt⟩).find other =
      if other = id then some ⟨id, expiresAt⟩ else w.sentinels.find other :=
    Table.find_put w.sentinels ⟨id, expiresAt⟩
  have hold : ∀ other key, w.sentinels.find other = some key →
      (w.sentinels.put ⟨id, expiresAt⟩).find other = some key := by
    intro other key hkey
    rw [hfind, if_neg]
    · exact hkey
    · rintro rfl
      rw [hunset] at hkey
      cases hkey
  constructor
  · constructor
    · exact h.distinct
    · exact h.rows
    · intro other key hkey
      rw [World.setSentinels_sentinels, hfind] at hkey
      split at hkey
      · rename_i hid
        rw [hid]
        exact ⟨pid, hdrawn⟩
      · exact h.keys other key hkey
    · intro other s key hs hkey
      rw [World.setSentinels_sentinels, hfind] at hkey
      split at hkey
      · rename_i hid
        cases hkey
        exact hrows s (hid ▸ hs)
      · exact h.outlived other s key hs hkey
    · intro k other hmem
      rcases h.announced k other hmem with ⟨key, hkey, hexpired⟩
      exact ⟨key, hold other key hkey, hexpired⟩
  · intro k hk
    refine ⟨List.Subset.refl _, le_refl _, hold, fun _ _ s hs => ⟨s, hs, rfl⟩, ?_⟩
    intro other hother hnone
    rw [World.setSentinels_sentinels, hfind, if_neg]
    · exact hnone
    · rintro rfl
      exact hk (h.distinct.owner hother hdrawn)

end Turns

/-! ### Every transition keeps the invariant -/

abbrev BackgroundView := View World BackgroundRequest Exn BackgroundResponse

def backgroundRules : Rules World Label BackgroundRequest Exn BackgroundResponse where
  cond _ _ := True
  inv v := Consistent v.shared
  rely pid v v' := Keeps pid v.shared v'.shared

section Assertions
variable {P : Platform} {pid : ℕ} {v v' : BackgroundView} {γ δ : Type} {id : UUID} {lifetime : ℕ}

theorem moves_of_turn {w : World} (h : Turn pid v.shared w) :
    backgroundRules.Moves pid v (v.update w) := ⟨h.consistent, h.others⟩

/-- Every result may be delivered. -/
theorem finishing (result : Except Exn BackgroundResponse) (v : BackgroundView) :
    backgroundRules.Finishing pid result v :=
  fun _ _ hinv _ => ⟨hinv, fun k _ => Keeps.refl k _⟩

/-- Bounded steps under an assertion that gives them what they need. -/
theorem wp_advances {due : World → UUID → Timestamp → Prop} {may : UUID → Prop}
    {A : World → Prop} {p : Handler γ} (hp : p.Only (Advances due may))
    (stable : ∀ w w', A w → Keeps pid w w' → A w')
    (hdue : ∀ w id t, A w → due w id t → (id, pid) ∈ w.issued ∧ w.sentinels.find id = none)
    (hmay : ∀ w id, A w → may id → Announced id w)
    (hown : ∀ label w w', A w → Advances due may pid label w w' → A w') (h : A v.shared) :
    backgroundRules.wp pid p (fun _ v' => A v'.shared) v := by
  apply @Rules.wp_only _ _ _ _ _ _ _ backgroundRules pid p _ (fun v => A v.shared) v hp _ _ h
  · intro v v' hA henv _
    exact stable _ _ hA henv.1
  · intro v label w hinv hA _ hstep
    have hturn := Turn.advance hinv hstep (fun id t => hdue _ id t hA) fun id => hmay _ id hA
    exact ⟨moves_of_turn hturn, hown label _ _ hA hstep⟩

/-- Steps that create no secret and answer no expiry event. -/
theorem wp_mild {p : Handler γ} (hp : p.Only (Advances neverDue fun _ => False)) :
    backgroundRules.wp pid p (fun _ _ => True) v :=
  @wp_advances pid v γ _ _ (fun _ => True) p hp (fun _ _ _ _ => trivial)
    (fun _ _ _ _ h => h.elim) (fun _ _ _ h => h.elim) (fun _ _ _ _ _ => trivial) trivial

theorem wp_mild_then {p : Handler γ} {f : γ → Handler δ}
    {Q : Except Exn δ → BackgroundView → Prop} (hp : p.Only (Advances neverDue fun _ => False))
    (herror : ∀ error v', Q (.error error) v')
    (hok : ∀ value v', backgroundRules.wp pid (f value) Q v') :
    backgroundRules.wp pid (p >>= f) Q v := by
  apply Rules.wp_bind
  apply Rules.wp_mono (wp_mild hp)
  intro result v' _
  cases result with
  | ok value => exact hok value v'
  | error error => exact herror error v'

/-- The process has drawn an id for a secret. Its row, when there is one, expires within its
lifetime, and its expiry key is not set. -/
structure Pending (pid : ℕ) (id : UUID) (lifetime : ℕ) (w : World) : Prop where
  drawn : (id, pid) ∈ w.issued
  unset : w.sentinels.find id = none
  rows : ∀ s, w.db.secrets.find id = some s → s.expiresAt ≤ w.now + lifetime

theorem Pending.keeps {w w' : World} (h : Pending pid id lifetime w) (hkeeps : Keeps pid w w') :
    Pending pid id lifetime w' where
  drawn := hkeeps.issued h.drawn
  unset := hkeeps.ownKeys id h.drawn h.unset
  rows s' hs' := by
    rcases hkeeps.ownRows id h.drawn s' hs' with ⟨s, hs, hsame⟩
    rw [← hsame]
    exact (h.rows s hs).trans (Nat.add_le_add_right hkeeps.now _)

theorem Pending.advance {w w' : World} {label : Label} (h : Pending pid id lifetime w)
    (hstep : Advances (dueWithin id lifetime) (fun _ => False) pid label w w') :
    Pending pid id lifetime w' where
  drawn := Draws.subset hstep.issued h.drawn
  unset := hstep.sentinels ▸ h.unset
  rows s' hs' := by
    have hnow := Nat.add_le_add_right hstep.now lifetime
    rcases hstep.secrets id s' hs' with ⟨s, hs, hsame⟩ | hnew
    · rw [← hsame]
      exact (h.rows s hs).trans hnow
    · exact hnew.2.trans hnow

theorem wp_pending {p : Handler γ} (hp : p.Only (Advances (dueWithin id lifetime) fun _ => False))
    (h : Pending pid id lifetime v.shared) :
    backgroundRules.wp pid p (fun _ v' => Pending pid id lifetime v'.shared) v := by
  apply wp_advances hp (fun w w' => Pending.keeps) _ (fun _ _ _ h => h.elim)
    (fun _ _ _ => Pending.advance) h
  rintro w other t hpending ⟨rfl, _⟩
  exact ⟨hpending.drawn, hpending.unset⟩

theorem wp_pending_then {p : Handler γ} {f : γ → Handler δ}
    {Q : Except Exn δ → BackgroundView → Prop}
    (hp : p.Only (Advances (dueWithin id lifetime) fun _ => False))
    (h : Pending pid id lifetime v.shared) (herror : ∀ error v', Q (.error error) v')
    (hok : ∀ value v', Pending pid id lifetime v'.shared → backgroundRules.wp pid (f value) Q v') :
    backgroundRules.wp pid (p >>= f) Q v := by
  apply Rules.wp_bind
  apply Rules.wp_mono (wp_pending hp h)
  intro result v' h'
  cases result with
  | ok value => exact hok value v' h'
  | error error => exact herror error v'

/-- A new id has neither a row nor an expiry key. -/
theorem wp_draw {f : UUID → Handler δ} {Q : Except Exn δ → BackgroundView → Prop} (lifetime : ℕ)
    (hok : ∀ id v', Pending pid id lifetime v'.shared → backgroundRules.wp pid (f id) Q v') :
    backgroundRules.wp pid (uuid4 >>= f) Q v := by
  apply wp_uuid4_bind
  intro v₁ _ hinv id hfresh
  have hstep : Advances neverDue (fun _ => False) pid .uuid4 v₁.shared (v₁.shared.issue id pid) :=
    still_advances pid .uuid4 _ _ (Calm.issue hfresh)
  have hturn := Turn.advance hinv hstep (fun _ _ h => h.elim) fun _ h => h.elim
  refine ⟨moves_of_turn hturn, hok id _ ?_⟩
  constructor
  · exact List.mem_append_right _ (List.mem_singleton.mpr rfl)
  · cases hfind : v₁.shared.sentinels.find id with
    | none => exact hfind
    | some key =>
      rcases hinv.keys id key hfind with ⟨k, hk⟩
      exact absurd rfl (hfresh _ hk)
  · intro s hs
    rcases hinv.rows id s hs with ⟨k, hk⟩
    exact absurd rfl (hfresh _ hk)

theorem wp_scheduleExpiry {ttlSeconds : ℕ} (h : Pending pid id (ttlSeconds * second) v.shared) :
    backgroundRules.wp pid (Secrets.scheduleExpiry id ttlSeconds) (fun _ _ => True) v := by
  apply Rules.wp_tryCatch
  apply Rules.wp_perform
  intro v₁ henv hinv _ choice w r hact
  have h₁ := h.keeps henv.1
  have hset : backgroundRules.Moves pid v₁ (v₁.update (v₁.shared.setSentinels
      (v₁.shared.sentinels.put ⟨id, v₁.shared.now + ttlSeconds * second⟩))) :=
    moves_of_turn (Turn.setExpiry hinv h₁.drawn h₁.unset h₁.rows)
  have hkeep : backgroundRules.Moves pid v₁ (v₁.update v₁.shared) :=
    ⟨hinv, fun k _ => Keeps.refl k _⟩
  refine ⟨?_, by cases r <;> trivial⟩
  cases hfails : choice.fails <;> cases hlanded : choice.landed <;> simp only [hfails, hlanded,
    if_true, Bool.false_eq_true, if_false, Option.some.injEq, Prod.mk.injEq] at hact <;>
    rw [← hact.1]
  · exact hset
  · exact hset
  · exact hkeep
  · exact hset

end Assertions

/-! ### The requests -/

section Handlers
variable {P : Platform} {pid : ℕ} {v : BackgroundView}
  {due : World → UUID → Timestamp → Prop} {may : UUID → Prop}

theorem only_log_advances (entry : AuditService.Entry) :
    (AuditService.log entry).Only (Advances due may) := still_advances.only_auditLog logs_advances entry

theorem wp_createSecret {body : SecretCreate} {user : CurrentUser} {clientIp : String} :
    backgroundRules.wp pid (Secrets.createSecret P body user clientIp) (fun _ _ => True) v := by
  apply wp_mild_then (still_advances.only_reserve _ _ _) fun _ _ => trivial
  intro reservation v₁
  apply wp_draw (hours body.ttlHours)
  intro id v₂ h₂
  apply wp_pending_then _ h₂ fun _ _ => trivial
  · intro signedToken v₃ h₃
    apply wp_pending_then (still_advances.only_commit reservation) h₃ fun _ _ => trivial
    intro _ v₄ h₄
    apply Rules.wp_bind
    apply Rules.wp_mono (wp_scheduleExpiry h₄)
    intro result v₅ _
    cases result with
    | error error => trivial
    | ok _ =>
      simp only [Rules.orRaise]
      apply wp_mild_then (still_advances.only_query _ _) fun _ _ => trivial
      intro row v₆
      cases row <;> trivial
  · apply Program.Only.tryCatch
    · apply still_advances.only_transaction
      intro pid w choice signedToken db hrun
      have hfades : Fades (dueWithin id (hours body.ttlHours) w) w.db db :=
        (fades_create ⟨rfl, le_refl _⟩).run hrun
      exact hfades.advance (by simp)
    · intro error
      exact (still_advances.only_release reservation).bind fun _ => Program.only_throw _

/-- The steps between the draw of the id and the end of the connection of a file creation. -/
theorem only_storeCreation_advances {pendingId : UUID} {objectKey : ObjectKey} {body : FileCreate}
    {encrypted : Files.Encrypted} {size : ℕ} {detail : String} {reservation : Reservation}
    {user : CurrentUser} {clientIp : String} : (Files.storeCreation P pendingId objectKey body
      encrypted size detail reservation user clientIp).Only
        (Advances (dueWithin objectKey.secretId (hours body.ttlHours)) fun _ => False) := by
  apply still_advances.only_storeCreation logs_advances
  · intro pid w row db hinsert
    rcases Database.insertPendingUpload_ok hinsert with ⟨pending, _, rfl⟩
    have hfades : Fades (dueWithin objectKey.secretId (hours body.ttlHours) w) w.db
        { w.db with pendingUploads := pending } := .of_eq rfl rfl
    exact hfades.advance nofun
  · intro pid w access encryptedSize signedToken db hrun
    have hfades : Fades (dueWithin objectKey.secretId (hours body.ttlHours) w) w.db db :=
      (fades_createFile ⟨rfl, le_refl _⟩).run hrun
    exact hfades.advance nofun

/-- A file creation that returns has drawn the id of its secret. -/
def Created (pid : ℕ) (lifetime : ℕ) {γ : Type} (idOf : γ → UUID) (result : Except Exn γ)
    (v : BackgroundView) : Prop :=
  ∀ value, result = .ok value → Pending pid (idOf value) lifetime v.shared

theorem wp_encryptAndStore {pendingId : UUID} {body : FileCreate} {plaintext : Bytes} {size : ℕ}
    {detail : String} {reservation : Reservation} {user : CurrentUser} {clientIp : String} :
    backgroundRules.wp pid
      (Files.encryptAndStore P pendingId body plaintext size detail reservation user clientIp)
      (Created pid (hours body.ttlHours) Prod.fst) v := by
  apply wp_draw (hours body.ttlHours)
  intro secretId v₁ h₁
  apply wp_pending_then still_advances.only_urandom h₁ fun _ _ => nofun
  intro random v₂ h₂
  apply wp_pending_then (only_liftExcept _) h₂ fun _ _ => nofun
  intro encrypted v₃ h₃
  apply wp_pending_then still_advances.only_uuid4 h₃ fun _ _ => nofun
  intro nonce v₄ h₄
  apply wp_pending_then _ h₄ fun _ _ => nofun
  · intro signedToken v₅ h₅ value heq
    cases heq
    exact h₅
  · apply only_storeCreation_advances.tryCatch
    intro error
    exact (still_advances.only_discardObject _).bind fun _ => Program.only_throw _

theorem wp_makeDurable {pendingId : UUID} {body : FileCreate} {user : CurrentUser}
    {clientIp : String} :
    backgroundRules.wp pid (Files.makeDurable P pendingId body user clientIp)
      (Created pid (hours body.ttlHours) Prod.fst) v := by
  apply wp_mild_then (only_liftExcept _) fun _ _ => nofun
  rintro ⟨plaintext, size⟩ v₁
  apply wp_mild_then (still_advances.only_scanUpload logs_advances) fun _ _ => nofun
  intro detail v₂
  apply wp_mild_then (still_advances.only_reserve _ _ _) fun _ _ => nofun
  intro reservation v₃
  apply Rules.wp_bind
  apply Rules.wp_tryCatch
  apply Rules.wp_mono wp_encryptAndStore
  intro result v₄ h₄
  cases result with
  | ok created =>
    intro value heq
    cases heq
    exact h₄ created rfl
  | error error =>
    apply wp_mild_then (still_advances.only_release reservation) fun _ _ => nofun
    exact fun _ _ => nofun

theorem wp_createFileSecret {body : FileCreate} {user : CurrentUser} {clientIp : String} :
    backgroundRules.wp pid (Files.createFileSecret P body user clientIp) (fun _ _ => True) v := by
  apply wp_mild_then (still_advances.only_reserve _ _ _) fun _ _ => trivial
  intro secretReservation v₁
  apply wp_mild_then still_advances.only_uuid4 fun _ _ => trivial
  intro pendingId v₂
  apply Rules.wp_bind
  apply Rules.wp_tryCatch
  apply Rules.wp_mono wp_makeDurable
  intro result v₃ h₃
  cases result with
  | error error =>
    apply wp_mild_then (still_advances.only_release secretReservation) fun _ _ => trivial
    exact fun _ _ => trivial
  | ok created =>
    rcases created with ⟨secretId, signedToken, size, byteReservation⟩
    apply wp_pending_then _ (h₃ _ rfl) fun _ _ => trivial
    · intro _ v₄ h₄
      apply Rules.wp_bind
      apply Rules.wp_mono (wp_scheduleExpiry h₄)
      intro result v₅ _
      cases result <;> trivial
    · apply Program.Only.tryCatch
      · exact (still_advances.only_commit _).bind fun _ => still_advances.only_commit _
      · intro error
        exact (still_advances.only_reconcileUser _).bind fun _ => Program.only_pure _

/-- The deletion of an expiry event comes after the expiry of the key. -/
theorem wp_onExpired {secretId : UUID} :
    backgroundRules.wp pid (CleanupService.onExpired secretId) (fun _ _ => True) v := by
  apply Rules.wp_bind
  apply Rules.wp_perform
  intro v₁ _ hinv _ choice w r hact
  by_cases hexpired : ((v₁.shared.sentinels.find secretId).any fun key =>
      key.expiresAt ≤ v₁.shared.now) = true
  · simp only [if_pos hexpired, Option.some.injEq, Prod.mk.injEq] at hact
    rcases hact with ⟨rfl, rfl⟩
    refine ⟨⟨hinv, fun k _ => Keeps.refl k _⟩, ?_⟩
    have hannounced : Announced secretId v₁.shared := by
      rcases (Option.any_eq_true _ _).mp hexpired with ⟨key, hfind, hkey⟩
      exact ⟨key, hfind, of_decide_eq_true hkey⟩
    have honly : (tryCatch (CleanupService.deleteSecret secretId) fun _ => pure ()).Only
        (Advances neverDue fun id => id = secretId) := by
      apply Program.Only.tryCatch
      · apply still_advances.only_deleteSecret only_log_advances
        intro pid w deleted db hrun
        have hfades : Fades (neverDue w) w.db db := (fades_expire secretId w.now).run hrun
        apply Advances.commit hfades.secrets hfades.users.advance
        intro id heq
        cases heq
        rfl
      · intro error
        exact Program.only_pure ()
    apply Rules.wp_mono (wp_advances honly (fun _ _ h => h.keeps) (fun _ _ _ _ h => h.elim) _ _
      hannounced) fun _ _ _ => trivial
    · rintro w id h rfl
      exact h
    · rintro label w w' ⟨key, hfind, hkey⟩ hstep
      exact ⟨key, hstep.sentinels ▸ hfind, hkey.trans hstep.now⟩
  · rw [if_neg hexpired] at hact
    cases hact

/-- What is neither a creation nor an expiry event. -/
theorem only_others (request : BackgroundRequest) (h : request.concernsKeys = false) :
    ((backgroundSystem P).serve request).Only (Advances due may) := by
  cases request with
  | create body user clientIp => cases h
  | createFile body user clientIp => cases h
  | expired secretId => cases h
  | retrieve secretId accessPassword token clientIp currentUser =>
    apply Program.Only.map
    apply still_advances.only_retrieveSecret fun entry _ => only_log_advances entry
    intro pid w id policy policyVersion seen db hrun
    have hfades : Fades (due w) w.db db := fades_retrieve hrun
    exact hfades.advance nofun
  | download secretId token accessPassword clientIp currentUser =>
    apply Program.Only.map
    apply still_advances.only_downloadFileSecret fun entry _ => only_log_advances entry
    intro pid w policy version policyVersion encrypted opened db hrun
    have hfades : Fades (due w) w.db db := fades_download hrun
    exact hfades.advance nofun
  | updatePolicy id body user clientIp =>
    apply Program.Only.map
    apply still_advances.only_updateLocationPolicy
    intro pid w result db hrun
    have hfades : Fades (due w) w.db db := (fades_policy id body user clientIp w.now).run hrun
    exact hfades.advance nofun
  | switchActivation userId credentials clientIp =>
    apply Program.Only.map
    apply still_advances.only_switchUserActivation only_log_advances
    intro pid w callerId started
    exact advances_switch pid w callerId userId started
  | refresh refreshToken userAgent clientIp =>
    exact (still_advances.only_refreshTokenEndpoint logs_advances refreshes_advances).map
  | sweep => exact only_fallbackSweep_advances.map
  | cleanup credentials clientIp =>
    exact (still_advances.only_cleanupExpired only_log_advances only_fallbackSweep_advances).map
  | wait => exact still_advances.only_tick.map

theorem discardWork_consistent {w : World} (h : Consistent w) (pid : ℕ) :
    Consistent (Auth.discardWork pid w) :=
  ⟨h.distinct, h.rows, h.keys, h.outlived, h.announced⟩

theorem discardWork_keeps (k pid : ℕ) (w : World) : Keeps k w (Auth.discardWork pid w) where
  issued := List.Subset.refl _
  now := le_refl _
  keys _ _ h := h
  ownRows _ _ s h := ⟨s, h, rfl⟩
  ownKeys _ _ h := h

/-- Every result of a request may be delivered. -/
theorem wp_delivered {γ : Type} {p : Handler γ} {f : γ → BackgroundResponse}
    (h : backgroundRules.wp pid p (fun _ _ => True) v) :
    backgroundRules.wp pid (f <$> p) (backgroundRules.Finishing pid) v := by
  apply Rules.wp_map
  exact Rules.wp_mono h fun result v' _ => finishing _ v'

theorem wp_serve (request : BackgroundRequest) : backgroundRules.wp pid
    ((backgroundSystem P).serve request) (backgroundRules.Finishing pid) v := by
  cases hkeys : request.concernsKeys with
  | false =>
    apply Rules.wp_mono (wp_mild (only_others request hkeys))
    exact fun result v' _ => finishing result v'
  | true =>
    cases request with
    | create body user clientIp => exact wp_delivered wp_createSecret
    | createFile body user clientIp => exact wp_delivered wp_createFileSecret
    | expired secretId => exact wp_delivered wp_onExpired
    | _ => cases hkeys

theorem valid (P : Platform) : backgroundRules.Valid (backgroundSystem P) where
  rely_refl k v := Keeps.refl k v.shared
  rely_trans _ _ _ _ hab hbc := Keeps.trans hab hbc
  start _ request hinv _ := ⟨⟨hinv, fun k _ => Keeps.refl k _⟩, wp_serve request⟩
  crash v pid _ hinv _ _ :=
    ⟨discardWork_consistent hinv pid, fun k _ => discardWork_keeps k pid v.shared⟩

end Handlers
end PhantomShare.Background
