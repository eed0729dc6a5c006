import PhantomShare.Service.Orderly

/-!
# Every request keeps the world in order

A creation inserts under an id that its process has drawn. The update of a file relies
on what its first read says about the secret. Whatever else a handler commits makes moves.
-/
namespace PhantomShare.Service
open Foundations Lifecycle

variable {P : Platform} {pid : ℕ}

/-! ### Handlers that create nothing -/

/-- Neither a creation nor an update of a file. -/
def Request.mild : Request → Bool
  | .create _ _ _ | .createFile _ _ _ | .updateFile _ _ _ _ => false
  | _ => true

theorem only_auditLog_lasts (entry : AuditService.Entry) : (AuditService.log entry).Only (Lasts P) :=
  still_lasts.only_auditLog logs_lasts entry

theorem only_fallbackSweep_lasts : CleanupService.fallbackSweep.Only (Lasts P) := by
  apply only_fallbackSweep still_lasts sparing_lasts only_auditLog_lasts
  intro pid w swept db hrun
  exact .rests rfl fun _ => ensures_sweepTransaction.run hrun

theorem lasts_rotateKey {id : UUID} {random : Random} {keyVersion : ℕ} {w : World} {db : Database}
    (sound : P.Sound)
    (h : (KeyService.rotateKey P id random w.now).run w.db = .ok (keyVersion, some db)) :
    Lasts P pid (.rotateKey id) w (w.commit pid (.rotateKey id) db) := by
  apply Lasts.rests rfl
  intro horderly
  apply rests_rotate sound _ h
  intro s hs
  obtain ⟨v, hv⟩ := ((horderly.intact id).whole s hs).present
  exact Option.isSome_iff_exists.mpr ⟨v, hv⟩

theorem only_mild (sound : P.Sound) (request : Request) (h : request.mild = true) :
    (serve P request).Only (Lasts P) := by
  cases request with
  | create body credentials clientIp => cases h
  | createFile body credentials clientIp => cases h
  | updateFile secretId body credentials clientIp => cases h
  | retrieve secretId accessPassword token clientIp credentials =>
    apply Program.Only.map
    apply still_lasts.only_asAnyone
    intro user
    apply still_lasts.only_retrieveSecret fun entry _ => only_auditLog_lasts entry
    intro pid w id policy policyVersion seen db hrun
    exact .rests rfl fun _ => rests_retrieve hrun
  | download secretId token accessPassword clientIp credentials =>
    apply Program.Only.map
    apply still_lasts.only_asAnyone
    intro user
    apply still_lasts.only_downloadFileSecret fun entry _ => only_auditLog_lasts entry
    intro pid w policy version policyVersion encrypted opened db hrun
    exact .rests rfl fun _ => rests_download hrun
  | update id body credentials clientIp =>
    apply Program.Only.map
    apply still_lasts.only_asUser
    intro user
    apply still_lasts.only_updateSecret
    intro pid w random newVersion db hrun
    exact .appends rfl fun _ => extends_update sound hrun
  | restore id version credentials clientIp =>
    apply Program.Only.map
    apply still_lasts.only_asUser
    intro user
    apply still_lasts.only_restoreSecretVersion
    intro pid w random newVersion db hrun
    exact .appends rfl fun _ => extends_restore sound hrun
  | rotateKey secretId credentials clientIp =>
    apply Program.Only.map
    apply still_lasts.only_asUser
    intro user
    apply still_lasts.only_rotateSecretKey logs_lasts
    intro pid w id random keyVersion db hrun
    exact lasts_rotateKey sound hrun
  | updatePolicy id body credentials clientIp =>
    apply Program.Only.map
    apply still_lasts.only_asUser
    intro user
    apply still_lasts.only_updateLocationPolicy
    intro pid w result db hrun
    exact .rests rfl fun _ => ensures_policyTransaction.run hrun
  | delete secretId credentials clientIp =>
    apply Program.Only.map
    apply still_lasts.only_asUser
    intro user
    apply still_lasts.only_deleteByOwner
    intro pid w id u db hrun
    exact .rests rfl fun _ => ensures_deleteTransaction.run hrun
  | login email password userAgent clientIp =>
    apply Program.Only.map
    apply still_lasts.only_login logs_lasts
    exact fun pid w hash sessions => .sessions rfl sessions
  | refresh refreshToken userAgent clientIp =>
    exact (still_lasts.only_refreshTokenEndpoint logs_lasts refreshes_lasts).map
  | logout refreshToken credentials =>
    apply Program.Only.map
    apply still_lasts.only_logout logs_lasts refreshes_lasts
    exact fun pid hash w sessions => (Lasts.sessions rfl sessions).discardWork
  | changeRole userId role credentials clientIp =>
    apply Program.Only.map
    apply still_lasts.only_changeRole logs_lasts
    exact fun pid w callerId => .aside rfl fun _ => rfl
  | switchActivation userId credentials clientIp =>
    apply Program.Only.map
    apply still_lasts.only_switchUserActivation only_auditLog_lasts
    exact fun pid w callerId started => .aside rfl fun _ => rfl
  | cleanup credentials clientIp =>
    exact (still_lasts.only_cleanupExpired only_auditLog_lasts only_fallbackSweep_lasts).map
  | expired secretId =>
    apply Program.Only.map
    apply still_lasts.only_onExpired logs_lasts
    intro pid w deleted db hrun
    exact .rests rfl fun _ => ensures_expireTransaction.run hrun
  | sweep => exact only_fallbackSweep_lasts.map
  | wait => exact still_lasts.only_tick.map

/-! ### The rules -/

abbrev ServiceView := View World Request Exn Response

def serviceRules (P : Platform) : Rules World Label Request Exn Response where
  cond _ _ := True
  inv v := Orderly P v.shared
  rely pid v v' := Keeps P pid v.shared v'.shared

theorem keeps_refl (k : ℕ) (v : ServiceView) : (serviceRules P).rely k v v := Keeps.refl P k v.shared

theorem finishing (result : Except Exn Response) (v : ServiceView) :
    (serviceRules P).Finishing pid result v :=
  fun _ _ horderly _ => ⟨horderly, fun k _ => Keeps.refl P k _⟩

section Assertions
variable {v : ServiceView} {γ δ : Type} {A : World → Prop} {id : UUID}

theorem moves_of_turn {w : World} (h : Turn P pid v.shared w) :
    (serviceRules P).Moves pid v (v.update w) := ⟨h.orderly, h.others⟩

/-- An assertion that the others leave true stays true while the process creates nothing. -/
theorem wp_lasts {p : Handler γ} (valid : Settings.Valid P.settings) (hp : p.Only (Lasts P))
    (stable : ∀ w w', A w → Keeps P pid w w' → A w') (h : A v.shared) :
    (serviceRules P).wp pid p (fun _ v' => A v'.shared) v := by
  apply @Rules.wp_only _ _ _ _ _ _ _ (serviceRules P) pid p _ (fun v => A v.shared) v hp _ _ h
  · intro v v' hA henv _
    exact stable _ _ hA henv.1
  · intro v label w horderly hA _ hstep
    exact ⟨moves_of_turn (.lasts valid horderly hstep), stable _ _ hA (hstep.keeps valid horderly pid)⟩

theorem wp_lasts_then {p : Handler γ} {f : γ → Handler δ} {Q : Except Exn δ → ServiceView → Prop}
    (valid : Settings.Valid P.settings) (hp : p.Only (Lasts P))
    (stable : ∀ w w', A w → Keeps P pid w w' → A w') (h : A v.shared)
    (herror : ∀ error v', Q (.error error) v')
    (hok : ∀ value v', A v'.shared → (serviceRules P).wp pid (f value) Q v') :
    (serviceRules P).wp pid (p >>= f) Q v := by
  apply Rules.wp_bind
  apply Rules.wp_mono (wp_lasts valid hp stable h)
  intro result v' h'
  cases result with
  | ok value => exact hok value v' h'
  | error error => exact herror error v'

theorem wp_calm {p : Handler γ} (valid : Settings.Valid P.settings) (hp : p.Only (Lasts P)) :
    (serviceRules P).wp pid p (fun _ _ => True) v :=
  wp_lasts (A := fun _ => True) valid hp (fun _ _ _ _ => trivial) trivial

/-- A handler that cleans up after an exception. -/
theorem wp_rescued {p : Handler γ} {handler : Exn → Handler γ} (valid : Settings.Valid P.settings)
    (hp : (serviceRules P).wp pid p (fun _ _ => True) v)
    (hhandler : ∀ error, (handler error).Only (Lasts P)) :
    (serviceRules P).wp pid (tryCatch p handler) (fun _ _ => True) v := by
  apply Rules.wp_tryCatch
  apply Rules.wp_mono hp
  intro result v' _
  cases result with
  | ok value => trivial
  | error error => exact wp_calm valid (hhandler error)

/-- What comes after a part about which nothing is known keeps to itself. -/
theorem wp_followed {p : Handler γ} {f : γ → Handler δ} (valid : Settings.Valid P.settings)
    (hp : (serviceRules P).wp pid p (fun _ _ => True) v) (hf : ∀ value, (f value).Only (Lasts P)) :
    (serviceRules P).wp pid (p >>= f) (fun _ _ => True) v := by
  apply Rules.wp_bind
  apply Rules.wp_mono hp
  intro result v' _
  cases result with
  | ok value => exact wp_calm valid (hf value)
  | error error => trivial

/-- A transaction that stores the next version of a secret where the assertion holds. -/
theorem wp_extends {n : ℕ} {label : Label} {body : Choice → Timestamp → Tx Database Exn γ}
    {note : γ → Label} (valid : Settings.Valid P.settings)
    (hnote : ∀ value, stores (note value) = some (id, n))
    (stable : ∀ w w', A w → Keeps P pid w w' → A w') (h : A v.shared)
    (hbody : ∀ w choice value db, A w → (body choice w.now).run w.db = .ok (value, some db) →
      Extends P w.now id n w.db db) :
    (serviceRules P).wp pid (transaction label body note) (fun _ _ => True) v := by
  apply wp_transaction keeps_refl
  intro v₁ henv horderly _
  have hA := stable _ _ h henv.1
  refine ⟨fun _ => trivial, ?_⟩
  intro choice value committed hrun
  cases committed with
  | none => trivial
  | some db =>
    have hextends := hbody _ choice value db hA hrun
    have hlasts : Lasts P pid label v₁.shared (v₁.shared.commit pid (note value) db) :=
      .appends (hnote value) fun _ => hextends
    exact ⟨moves_of_turn (.lasts valid horderly hlasts), trivial⟩

/-- A transaction that creates a secret under an id of the process. -/
theorem wp_creates {label : Label} {body : Choice → Timestamp → Tx Database Exn γ}
    {note : γ → Label} (valid : Settings.Valid P.settings)
    (hnote : ∀ value, stores (note value) = some (id, 1))
    (stable : ∀ w w', A w → Keeps P pid w w' → A w') (hpending : ∀ w, A w → Pending pid id w)
    (h : A v.shared) (hbody : ∀ w choice value db, A w →
      (body choice w.now).run w.db = .ok (value, some db) → Creates P id w.db db) :
    (serviceRules P).wp pid (transaction label body note) (fun _ _ => True) v := by
  apply wp_transaction keeps_refl
  intro v₁ henv horderly _
  have hA := stable _ _ h henv.1
  refine ⟨fun _ => trivial, ?_⟩
  intro choice value committed hrun
  cases committed with
  | none => trivial
  | some db =>
    have hcreates := hbody _ choice value db hA hrun
    have hturn := Turn.creates valid horderly (hpending _ hA) (hnote value) hcreates
    exact ⟨moves_of_turn hturn, trivial⟩

/-- Nothing was created under a new id. -/
theorem wp_draw {f : UUID → Handler δ} {Q : Except Exn δ → ServiceView → Prop}
    (valid : Settings.Valid P.settings)
    (hok : ∀ id v', Pending pid id v'.shared → (serviceRules P).wp pid (f id) Q v') :
    (serviceRules P).wp pid (uuid4 >>= f) Q v := by
  apply wp_uuid4_bind
  intro v₁ _ horderly id hfresh
  have hstep : Lasts P pid .uuid4 v₁.shared (v₁.shared.issue id pid) := .calm (.issue hfresh)
  refine ⟨moves_of_turn (.lasts valid horderly hstep), hok id _ ?_⟩
  constructor
  · exact List.mem_append_right _ (List.mem_singleton.mpr rfl)
  · intro hused
    obtain ⟨k, hk⟩ := horderly.drawn id hused
    exact hfresh _ hk rfl

end Assertions

end PhantomShare.Service
