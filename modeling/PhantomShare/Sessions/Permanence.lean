import PhantomShare.Outlines
import PhantomShare.Sessions.Acceptance
import PhantomShare.Sessions.Register
import PhantomShare.Sessions.Rotation

/-!
# A revoked session stays revoked

Logins, refreshes, logouts, switched users and sweeps, in any order. A token is
accepted where the row of its session is; a refresh or a logout that commits
leaves its session without a row, and no later login or refresh gives the id of
that session to another row.
-/
namespace PhantomShare.Sessions
open Foundations

inductive SessionRequest where
  | login (email password userAgent clientIp : String)
  | refresh (refreshToken userAgent clientIp : String)
  | logout (refreshToken : String) (credentials : Option String)
  | switchActivation (userId : UUID) (credentials : Option String) (clientIp : String)
  | cleanup (credentials : Option String) (clientIp : String)
  | sweep
  | wait
  deriving DecidableEq

inductive SessionResponse where
  | tokens (response : TokenResponse)
  | status (response : UserStatusResponse)
  | swept (result : CleanupService.SweepResult)
  | noContent

/-- The connection of a crashed process is rolled back. -/
def sessionSystem (P : Platform) : System World Choice Label SessionRequest Exn SessionResponse where
  serve
    | .login email password userAgent clientIp =>
      .tokens <$> Auth.login P email password userAgent clientIp
    | .refresh refreshToken userAgent clientIp =>
      .tokens <$> Auth.refreshTokenEndpoint P refreshToken userAgent clientIp
    | .logout refreshToken credentials =>
      (fun _ => .noContent) <$> Auth.logout P refreshToken credentials
    | .switchActivation userId credentials clientIp =>
      .status <$> Admin.switchUserActivation P userId credentials clientIp
    | .cleanup credentials clientIp => .swept <$> Admin.cleanupExpired P credentials clientIp
    | .sweep => .swept <$> CleanupService.fallbackSweep
    | .wait => (fun _ => .noContent) <$> tick
  recover := Auth.discardWork

/-- A refresh or a logout that presented a refresh token of the session has committed. -/
def Revoked (P : Platform) (sessionId : UUID) (w : World) : Prop :=
  ∃ hash ∈ consumed w, TokenOf P sessionId hash

/-- A revoked session has no row. -/
theorem Register.no_row {P : Platform} {w : World} {sessionId : UUID} (h : Register P w)
    (hrevoked : Revoked P sessionId w) : w.db.sessions.find sessionId = none := by
  cases hfind : w.db.sessions.find sessionId with
  | none => rfl
  | some row =>
    rcases hrevoked with ⟨hash, hconsumed, htoken⟩
    have hrow := Table.mem_of_find hfind
    have hown := h.live_own row hrow
    rw [Table.key_of_find hfind] at hown
    have hsame := h.produced_unique sessionId _ (h.live_produced row hrow) hash
      (h.consumed_produced hash hconsumed) hown htoken
    exact (h.consumed_gone row hrow (hsame ▸ hconsumed)).elim

/-! ### Steps that at most delete sessions -/

theorem Prunes.of_calm {pid : ℕ} {label : Label} {w w' : World} (h : Calm pid w w') :
    Prunes pid label w w' where
  commits := by
    rw [h.commits]
    exact List.Subset.refl _
  consumed := by simp only [Sessions.consumed, h.commits]
  produced := by simp only [Sessions.produced, h.commits]
  issued := h.issued
  sessionLocks := h.sessionLocks
  sessionInserts := h.sessionInserts
  rows := by
    rw [h.db]
    exact List.Subset.refl _

theorem still_prunes : Still Prunes := fun _ _ _ _ h => .of_calm h

theorem Prunes.commit {pid : ℕ} {label record : Label} {w : World} {db : Database}
    (hc : consumes record = none) (hp : produces record = none)
    (hrows : db.sessions.rows ⊆ w.db.sessions.rows) : Prunes pid label w (w.commit pid record db) where
  commits := List.subset_append_left _ _
  consumed := by simp [Sessions.consumed, hc]
  produced := by simp [Sessions.produced, hp]
  issued := Or.inl rfl
  sessionLocks := rfl
  sessionInserts := rfl
  rows := hrows

section Quiet
variable {P : Platform}

theorem only_auditLog_prunes (entry : AuditService.Entry) : (AuditService.log entry).Only Prunes := by
  apply only_log still_prunes
  intro pid w db hinsert
  rcases Database.insertAuditLog_ok hinsert with ⟨_, _, row, rfl⟩
  exact .commit rfl rfl (List.Subset.refl _)

/-- No session that was not there before. -/
def FewerSessions (db db' : Database) : Prop := db'.sessions.rows ⊆ db.sessions.rows

instance : IsPreorder Database FewerSessions where
  refl _ := List.Subset.refl _
  trans _ _ _ hab hbc := List.Subset.trans hbc hab

theorem preserves_sweepTransaction_sessions (now : Timestamp) :
    (CleanupService.sweepTransaction now).Preserves FewerSessions := by
  apply preserves_sweepTransaction
  · intro db
    rcases Database.deleteSecrets_frame now (CleanupService.spent now) db with ⟨_, _, _, hframe⟩
    rw [hframe]
    exact List.Subset.refl _
  · intro db
    exact fun row hrow => (List.mem_filter.mp hrow).1
  · intro db
    exact List.Subset.refl _
  · intro db
    exact fun row hrow => (List.mem_filter.mp hrow).1

theorem only_fallbackSweep_prunes : CleanupService.fallbackSweep.Only Prunes := by
  apply only_fallbackSweep still_prunes _ only_auditLog_prunes
  · intro pid w swept db hrun
    exact .commit rfl rfl ((preserves_sweepTransaction_sessions w.now).run hrun)
  · intro pid label w outbox pending hlabel
    have hquiet : consumes label = none ∧ produces label = none := by
      cases label <;> first | exact ⟨rfl, rfl⟩ | cases hlabel
    exact .commit hquiet.1 hquiet.2 (List.Subset.refl _)

theorem only_switchUserActivation_prunes (userId : UUID) (credentials : Option String)
    (clientIp : String) : (Admin.switchUserActivation P userId credentials clientIp).Only Prunes := by
  apply still_prunes.only_switchUserActivation only_auditLog_prunes
  intro pid w callerId started
  exact .commit rfl rfl (List.Subset.refl _)

theorem only_cleanupExpired_prunes (credentials : Option String) (clientIp : String) :
    (Admin.cleanupExpired P credentials clientIp).Only Prunes :=
  still_prunes.only_cleanupExpired only_auditLog_prunes only_fallbackSweep_prunes

end Quiet

/-! ### Every transition keeps the register -/

structure Registered (P : Platform) (v : View World SessionRequest Exn SessionResponse) : Prop where
  register : Register P v.shared
  insert_started : ∀ entry ∈ v.shared.sessionInserts, entry.2 < v.tasks.length

def sessionRules (P : Platform) : Rules World Label SessionRequest Exn SessionResponse where
  cond _ _ := True
  inv := Registered P
  rely pid v v' := Undisturbed P pid v.shared v'.shared

section Assertions
variable {P : Platform} {pid : ℕ} {request : SessionRequest}
  {v v' : View World SessionRequest Exn SessionResponse}

theorem undisturbed_refl (k : ℕ) (w : View World SessionRequest Exn SessionResponse) :
    (sessionRules P).rely k w w :=
  Undisturbed.refl P k w.shared

/-- A process that waits outside any transaction. -/
structure Waiting (pid : ℕ) (request : SessionRequest)
    (v : View World SessionRequest Exn SessionResponse) : Prop where
  running : v.Running pid request
  inserts : Auth.ownInserts pid v.shared = []

theorem Waiting.env (h : Waiting pid request v) (henv : (sessionRules P).Env pid v v') :
    Waiting pid request v' where
  running := henv.2.trans h.running
  inserts := henv.1.inserts.trans h.inserts

theorem moves_of_turn {w : World} (hinv : Registered P v) (hrun : v.Running pid request)
    (hturn : Turn P pid v.shared w) : (sessionRules P).Moves pid v (v.update w) := by
  refine ⟨⟨hturn.register, ?_⟩, hturn.others⟩
  intro entry hentry
  rcases hturn.insert_owner entry hentry with hold | hnew
  · exact hinv.insert_started entry hold
  · rw [hnew]
    exact hrun.lt

/-- A program that at most deletes sessions. -/
theorem wp_prunes {γ : Type} {p : Handler γ} (hp : p.Only Prunes) (h : Waiting pid request v) :
    (sessionRules P).wp pid p (fun _ v' => Waiting pid request v') v := by
  apply Rules.wp_only hp _ _ h
  · intro v v' hwaiting henv _
    exact hwaiting.env henv
  · intro v label s hinv hwaiting _ hprunes
    refine ⟨moves_of_turn hinv hwaiting.running (Turn.prune hinv.register hprunes), ?_⟩
    refine ⟨hwaiting.running, ?_⟩
    have hinserts := hwaiting.inserts
    rw [Auth.ownInserts] at hinserts ⊢
    rw [View.update_shared, hprunes.sessionInserts, hinserts]

theorem wp_prunes_running {γ : Type} {p : Handler γ} (hp : p.Only Prunes)
    (hrun : v.Running pid request) :
    (sessionRules P).wp pid p (fun _ v' => v'.Running pid request) v := by
  apply Rules.wp_only hp _ _ hrun
  · intro v v' hrun henv _
    exact henv.2.trans hrun
  · intro v label s hinv hrun _ hprunes
    exact ⟨moves_of_turn hinv hrun (Turn.prune hinv.register hprunes), hrun⟩

theorem wp_audit_running {entry : AuditService.Entry} {γ : Type} {value : γ}
    (hrun : v.Running pid request) :
    (sessionRules P).wp pid (AuditService.log entry >>= fun _ => pure value : Handler γ)
      (fun _ v' => v'.Running pid request) v :=
  wp_prunes_running ((only_auditLog_prunes entry).bind fun _ => Program.only_pure value) hrun

/-- A transaction on `sessions` that is complete but not committed. -/
structure Complete (P : Platform) (pid : ℕ) (request : SessionRequest) (label : Label)
    (v : View World SessionRequest Exn SessionResponse) : Prop where
  running : v.Running pid request
  covered : ∀ hash, consumes label = some hash → Covered pid hash v.shared
  inserts : ∀ row ∈ Auth.ownInserts pid v.shared,
    produces label = some row.refreshTokenHash ∧ TokenOf P row.id row.refreshTokenHash
  fresh : Fresh P pid label v.shared

theorem Complete.env (telling : P.Telling) {label : Label} (h : Complete P pid request label v)
    (henv : (sessionRules P).Env pid v v') (hinv : Registered P v') :
    Complete P pid request label v' where
  running := henv.2.trans h.running
  covered hash hconsumes := (h.covered hash hconsumes).env henv.1
  inserts := by
    rw [henv.1.inserts]
    exact h.inserts
  fresh hash hproduces := by
    rcases h.fresh hash hproduces with ⟨id, htoken, hunused⟩
    exact ⟨id, htoken, hunused.env telling hinv.register henv.1⟩

theorem Complete.turn (telling : P.Telling) {label : Label} {sessions : Table Session.id}
    (h : Complete P pid request label v) (hregister : Register P v.shared)
    (hsessions : Auth.committedSessions pid v.shared = .ok sessions) :
    Turn P pid v.shared (Auth.discardWork pid
      (v.shared.commit pid label { v.shared.db with sessions := sessions })) := by
  apply Turn.commit telling hregister
  · rfl
  · rfl
  · intro k hk id hlock
    exact List.mem_filter.mpr ⟨hlock, by simpa using hk⟩
  · intro k hk
    exact ownInserts_discardWork hk _
  · exact List.filter_subset_self _
  · exact h.fresh
  · intro hash hconsumes
    exact (h.covered hash hconsumes).produced
  · intro row hrow
    change row ∈ sessions.rows at hrow
    rw [foldlM_insertRow_rows hsessions, List.mem_append, Table.deleteWhere_rows,
      List.mem_filter] at hrow
    rcases hrow with ⟨hold, hkept⟩ | hnew
    · left
      refine ⟨hold, ?_⟩
      intro hconsumes
      have hlock := (h.covered _ hconsumes).locked row hold rfl
      rw [Bool.not_eq_true', List.any_eq_false] at hkept
      exact hkept _ hlock (by simp)
    · exact Or.inr (h.inserts row hnew)

/-- What the body of a transaction on `sessions` establishes. -/
def Completes (P : Platform) (pid : ℕ) (request : SessionRequest) {γ : Type} :
    Except Exn (γ × Label) → View World SessionRequest Exn SessionResponse → Prop
  | .ok (_, label), v => Complete P pid request label v
  | .error _, v => v.Running pid request

theorem wp_complete (telling : P.Telling) {γ : Type} {body : Handler (γ × Label)}
    (h : (sessionRules P).wp pid body (Completes P pid request) v) :
    (sessionRules P).wp pid (Auth.sessionTransaction body) (fun _ v' => v'.Running pid request) v := by
  apply @wp_sessionTransaction_of _ _ _ (sessionRules P) pid v _ body (Complete P pid request)
    (fun v' => v'.Running pid request) undisturbed_refl
  · apply Rules.wp_mono h
    intro result v' hpost
    cases result with
    | ok result => exact hpost
    | error error => exact hpost
  · intro label v₁ v₂ hcomplete henv hinv
    have hcomplete₂ := hcomplete.env telling henv hinv
    refine ⟨hcomplete₂.running, ?_⟩
    intro sessions hsessions value
    exact ⟨moves_of_turn hinv hcomplete₂.running
      (hcomplete₂.turn telling hinv.register hsessions), hcomplete₂.running⟩
  · intro v₁ v₂ error hrun henv hinv
    have hrun₂ : v₂.Running pid request := henv.2.trans hrun
    exact ⟨moves_of_turn hinv hrun₂ (Turn.discard hinv.register), hrun₂⟩

end Assertions

section Endpoints
variable {P : Platform} {pid : ℕ} {request : SessionRequest}
  {v : View World SessionRequest Exn SessionResponse}

theorem moves_drawn {id : UUID} (hinv : Registered P v) (hrun : v.Running pid request)
    (hfresh : ∀ entry ∈ v.shared.issued, entry.1 ≠ id) :
    (sessionRules P).Moves pid v (v.update (v.shared.issue id pid)) := by
  apply moves_of_turn hinv hrun
  apply @Turn.prune P pid .uuid4 _ _ hinv.register
  exact .of_calm (Calm.issue hfresh)

theorem newSession_id {id userId : UUID} {hash userAgent clientIp : String}
    {now expiresAt : Timestamp} {session : Session}
    (h : Auth.newSession id userId hash userAgent clientIp now expiresAt = .ok session) :
    session.id = id := by
  unfold Auth.newSession at h
  cases hip : inet clientIp with
  | none => simp [hip] at h
  | some address =>
    simp only [hip, Except.ok.injEq] at h
    rw [← h]

/-- Every row that still has the token is the row that an update of it locked. -/
theorem Covered.lock (telling : P.Telling) (h : Register P v.shared) {row : Session}
    (hrow : row ∈ v.shared.db.sessions.rows) :
    Covered pid row.refreshTokenHash
      { v.shared with sessionLocks := v.shared.sessionLocks ++ [(row.id, pid)] } where
  produced := h.live_produced row hrow
  locked other hother hhash := by
    have hown := h.live_own other hother
    rw [hhash] at hown
    rw [hown.unique telling (h.live_own row hrow)]
    simp

/-- A process that has drawn the id of its new session. -/
structure Drew (P : Platform) (pid : ℕ) (request : SessionRequest) (id : UUID)
    (v : View World SessionRequest Exn SessionResponse) : Prop where
  waiting : Waiting pid request v
  unused : Unused P pid id v.shared

theorem Drew.env {v' : View World SessionRequest Exn SessionResponse} (telling : P.Telling)
    {id : UUID} (h : Drew P pid request id v) (henv : (sessionRules P).Env pid v v')
    (hinv : Registered P v') : Drew P pid request id v' where
  waiting := h.waiting.env henv
  unused := h.unused.env telling hinv.register henv.1

theorem Drew.issue {id : UUID} (h : Drew P pid request id v) (other : UUID) :
    Drew P pid request id (v.update (v.shared.issue other pid)) where
  waiting := ⟨h.waiting.running, h.waiting.inserts⟩
  unused := ⟨List.mem_append_left _ h.unused.issued, h.unused.unused⟩

theorem Waiting.draw (telling : P.Telling) {id : UUID} (h : Waiting pid request v)
    (hinv : Registered P v) (hfresh : ∀ entry ∈ v.shared.issued, entry.1 ≠ id) :
    Drew P pid request id (v.update (v.shared.issue id pid)) where
  waiting := ⟨h.running, h.inserts⟩
  unused := Unused.issue telling hinv.register hfresh

/-- The identifiers and the time that a new session takes. -/
theorem wp_newSession {γ : Type} {f : UUID → UUID → UUID → Timestamp → Handler γ}
    {Q : Except Exn γ → View World SessionRequest Exn SessionResponse → Prop} (telling : P.Telling)
    (h : Waiting pid request v)
    (hf : ∀ v' id, v.shared.commits ⊆ v'.shared.commits → Drew P pid request id v' →
      ∀ accessJti refreshJti issuedAt,
        (sessionRules P).wp pid (f id accessJti refreshJti issuedAt) Q v') :
    (sessionRules P).wp pid (do
      let sessionId ← uuid4
      let accessJti ← uuid4
      let refreshJti ← uuid4
      let issuedAt ← clock
      f sessionId accessJti refreshJti issuedAt) Q v := by
  apply wp_uuid4_bind
  intro v₁ henv₁ hinv₁ sessionId hfresh₁
  have hwaiting₁ := h.env henv₁
  refine ⟨moves_drawn hinv₁ hwaiting₁.running hfresh₁, ?_⟩
  have hdrew₁ := hwaiting₁.draw telling hinv₁ hfresh₁
  apply wp_uuid4_bind
  intro v₂ henv₂ hinv₂ accessJti hfresh₂
  have hdrew₂ := hdrew₁.env telling henv₂ hinv₂
  refine ⟨moves_drawn hinv₂ hdrew₂.waiting.running hfresh₂, ?_⟩
  apply wp_uuid4_bind
  intro v₃ henv₃ hinv₃ refreshJti hfresh₃
  have hdrew₃ := (hdrew₂.issue accessJti).env telling henv₃ hinv₃
  refine ⟨moves_drawn hinv₃ hdrew₃.waiting.running hfresh₃, ?_⟩
  apply wp_clock_bind undisturbed_refl
  intro v₄ henv₄ hinv₄
  have hdrew₄ := (hdrew₃.issue refreshJti).env telling henv₄ hinv₄
  apply hf v₄ sessionId _ hdrew₄
  have h₁ := henv₁.1.commits
  have h₂ : v₁.shared.commits ⊆ v₂.shared.commits := henv₂.1.commits
  have h₃ : v₂.shared.commits ⊆ v₃.shared.commits := henv₃.1.commits
  have h₄ : v₃.shared.commits ⊆ v₄.shared.commits := henv₄.1.commits
  exact fun entry hentry => h₄ (h₃ (h₂ (h₁ hentry)))

theorem sessionByHash_some {hash : String} {db : Database} {row : Session}
    (h : Auth.sessionByHash hash db = some row) :
    row ∈ db.sessions.rows ∧ row.refreshTokenHash = hash :=
  ⟨List.mem_of_find?_eq_some h, by simpa using List.find?_some h⟩

/-- The insert completes a transaction that covers the token it consumes. -/
theorem wp_insert_complete (telling : P.Telling) {hash newHash : String} {id : UUID}
    {row : Timestamp → Except Exn Session} {γ : Type} {value : γ} (h : Drew P pid request id v)
    (hcovered : Covered pid hash v.shared) (htoken : TokenOf P id newHash)
    (hrow : ∀ now session, row now = .ok session →
      session.id = id ∧ session.refreshTokenHash = newHash) :
    (sessionRules P).wp pid (do
      Auth.insertSessionStatement newHash row
      return (value, .refresh hash newHash)) (Completes P pid request) v := by
  apply wp_insertSessionStatement_bind undisturbed_refl
  intro v₁ henv hinv
  have hdrew := h.env telling henv hinv
  have hcovered₁ := hcovered.env henv.1
  constructor
  · intro _
    exact hdrew.waiting.running
  · intro session hsession
    rcases hrow _ _ hsession with ⟨hid, hhash⟩
    refine ⟨moves_of_turn hinv hdrew.waiting.running (Turn.insert hinv.register session), ?_⟩
    constructor
    · exact hdrew.waiting.running
    · intro hash' hconsumes
      cases hconsumes
      exact ⟨hcovered₁.produced, hcovered₁.locked⟩
    · intro other hother
      have hown := hdrew.waiting.inserts
      simp only [Auth.ownInserts, List.map_eq_nil_iff] at hown
      simp only [Auth.ownInserts, View.update_shared, List.filter_append, hown, List.nil_append,
        List.filter_cons, decide_true, if_true, List.filter_nil, List.map_cons, List.map_nil,
        List.mem_singleton] at hother
      rw [hother, hid, hhash]
      exact ⟨rfl, htoken⟩
    · intro hash' hproduces
      cases hproduces
      exact ⟨id, htoken, hdrew.unused.issued, hdrew.unused.unused⟩

/-- A refresh has read the session of its token; its update locks the row if it is still there. -/
theorem registered_rotate (telling : P.Telling) {hash userAgent clientIp : String}
    (h : Waiting pid request v) :
    (sessionRules P).wp pid (Auth.rotate P hash userAgent clientIp) (Completes P pid request) v := by
  apply wp_query_bind undisturbed_refl
  intro v₁ henv₁ hinv₁ _
  have hwaiting₁ := h.env henv₁
  refine ⟨hwaiting₁.running, ?_⟩
  split
  · rename_i userId role hrow
    have hproduced₁ : hash ∈ produced v₁.shared := by
      cases hsession : Auth.sessionByHash hash v₁.shared.db with
      | none => simp [hsession] at hrow
      | some session =>
        rcases sessionByHash_some hsession with ⟨hmem, hhash⟩
        exact hhash ▸ hinv₁.register.live_produced session hmem
    apply wp_newSession telling hwaiting₁
    intro v₂ newSessionId hcommits hdrew₂ accessJti refreshJti issuedAt
    have hproduced₂ := produced_mono hcommits hproduced₁
    have htoken : TokenOf P newSessionId (P.sha256Hex (P.jwtEncode
        (Security.refreshClaims P userId newSessionId refreshJti issuedAt))) :=
      ⟨userId, refreshJti, issuedAt, rfl⟩
    apply wp_revokeSession_bind undisturbed_refl
    intro v₃ henv₃ hinv₃ _
    have hdrew₃ := hdrew₂.env telling henv₃ hinv₃
    have hproduced₃ := produced_mono henv₃.1.commits hproduced₂
    refine ⟨hdrew₃.waiting.running, ?_, ?_⟩
    · -- the row is gone, so every row that has the token is locked
      intro hnone
      apply wp_insert_complete telling hdrew₃ ⟨hproduced₃, _⟩ htoken
      · intro now session hsession
        exact ⟨newSession_id hsession, newSession_hash hsession⟩
      · intro row hmem hhash
        have hmatch := List.find?_eq_none.mp hnone row hmem
        simp [hhash] at hmatch
    · intro row hmem hmatch _
      have hhash : row.refreshTokenHash = hash := by simpa using hmatch
      refine ⟨moves_of_turn hinv₃ hdrew₃.waiting.running (Turn.lock hinv₃.register row.id), ?_⟩
      apply wp_insert_complete telling _ (hhash ▸ Covered.lock telling hinv₃.register hmem) htoken
      · intro now session hsession
        exact ⟨newSession_id hsession, newSession_hash hsession⟩
      · exact ⟨⟨hdrew₃.waiting.running, hdrew₃.waiting.inserts⟩,
          hdrew₃.unused.issued, hdrew₃.unused.unused⟩
  · exact Rules.wp_throw hwaiting₁.running

/-- A logout that matched a row has locked all that its token has. -/
theorem registered_revoke (telling : P.Telling) {sub : String} {sid : Option String} {hash : String}
    (h : Waiting pid request v) :
    (sessionRules P).wp pid (Auth.revoke P sub sid hash) (Completes P pid request) v := by
  apply wp_liftExcept_bind
  · intro error _
    exact h.running
  intro userId _
  apply wp_liftExcept_bind
  · intro error _
    exact h.running
  intro sessionId _
  apply wp_revokeSession_bind undisturbed_refl
  intro v₁ henv hinv _
  have hwaiting := h.env henv
  refine ⟨hwaiting.running, ?_, ?_⟩
  · intro _
    exact wp_raiseIf_bind (fun _ => hwaiting.running) (fun hzero => absurd hzero (by decide))
  · intro row hrow hmatch _
    refine ⟨moves_of_turn hinv hwaiting.running (Turn.lock hinv.register row.id), ?_⟩
    apply wp_raiseIf_bind (fun hone => absurd hone (by decide))
    intro _
    have hhash : row.refreshTokenHash = hash := by
      simp only [Auth.logoutMatches, Bool.and_eq_true, decide_eq_true_eq] at hmatch
      exact hmatch.1.2
    constructor
    · exact hwaiting.running
    · intro hash' hconsumes
      cases hconsumes
      exact hhash ▸ Covered.lock telling hinv.register hrow
    · intro other hother
      have hown := hwaiting.inserts
      rw [Auth.ownInserts] at hown hother
      rw [View.update_shared, hown] at hother
      cases hother
    · intro hash' hproduces
      cases hproduces

theorem registered_refresh (telling : P.Telling) {refreshToken userAgent clientIp : String}
    (h : Waiting pid request v) :
    (sessionRules P).wp pid (Auth.refreshTokenEndpoint P refreshToken userAgent clientIp)
      (fun _ v' => v'.Running pid request) v := by
  apply wp_clock_bind undisturbed_refl
  intro v₁ henv₁ _
  have hwaiting₁ := h.env henv₁
  apply wp_liftExcept_bind
  · intro error _
    exact hwaiting₁.running
  intro payload _
  apply wp_raiseIf_bind
  · intro _
    exact hwaiting₁.running
  intro _
  apply Rules.wp_bind
  apply Rules.wp_mono (wp_complete telling (registered_rotate telling hwaiting₁))
  intro result v₂ hrun
  cases result with
  | error error => exact hrun
  | ok value => exact wp_audit_running hrun

theorem registered_logout (telling : P.Telling) {refreshToken : String} {credentials : Option String}
    (h : Waiting pid request v) :
    (sessionRules P).wp pid (Auth.logout P refreshToken credentials)
      (fun _ v' => v'.Running pid request) v := by
  apply Rules.wp_bind
  apply Rules.wp_mono (wp_prunes (still_prunes.only_getCurrentUser P credentials) h)
  intro result v₁ hwaiting₁
  cases result with
  | error error => exact hwaiting₁.running
  | ok currentUser =>
    apply wp_clock_bind undisturbed_refl
    intro v₂ henv₂ _
    have hwaiting₂ := hwaiting₁.env henv₂
    apply wp_liftExcept_bind (fun _ _ => hwaiting₂.running)
    intro payload _
    apply wp_raiseIf_bind (fun _ => hwaiting₂.running)
    intro _
    split
    · apply wp_raiseIf_bind (fun _ => hwaiting₂.running)
      intro _
      apply Rules.wp_bind
      apply Rules.wp_mono (wp_complete telling (registered_revoke telling hwaiting₂))
      intro result v₃ hrun
      cases result with
      | error error => exact hrun
      | ok value => exact wp_prunes_running (only_auditLog_prunes _) hrun
    · exact Rules.wp_throw hwaiting₂.running

theorem registered_login (telling : P.Telling) {email password userAgent clientIp : String}
    (h : Waiting pid request v) :
    (sessionRules P).wp pid (Auth.login P email password userAgent clientIp)
      (fun _ v' => v'.Running pid request) v := by
  apply wp_query_bind undisturbed_refl
  intro v₁ henv₁ hinv₁ _
  have hwaiting₁ := h.env henv₁
  refine ⟨hwaiting₁.running, ?_⟩
  split
  · rename_i user _
    apply wp_raiseIf_bind (fun _ => hwaiting₁.running)
    intro _
    apply wp_raiseIf_bind (fun _ => hwaiting₁.running)
    intro _
    apply wp_newSession telling hwaiting₁
    intro v₂ sessionId _ hdrew₂ accessJti refreshJti issuedAt
    apply wp_transaction_bind undisturbed_refl
    intro v₃ henv₃ hinv₃ _
    have hdrew₃ := hdrew₂.env telling henv₃ hinv₃
    constructor
    · intro _
      exact hdrew₃.waiting.running
    · intro choice value committed hrun
      rcases Tx.run_write_ok hrun with ⟨written, rfl, hinsert⟩
      rcases FileCrypto.bind_eq_ok.mp hinsert with ⟨session, hsession, hinsert⟩
      rcases FileCrypto.bind_eq_ok.mp hinsert with ⟨_, _, hinsert⟩
      rcases FileCrypto.bind_eq_ok.mp hinsert with ⟨sessions, hsessions, hdb⟩
      have hrows : written.sessions.rows = v₃.shared.db.sessions.rows ++ [session] := by
        rw [← Except.ok.inj hdb]
        exact (Table.insert_eq_some (insertRow_ok hsessions)).2
      have htoken : TokenOf P sessionId (P.sha256Hex (P.jwtEncode
          (Security.refreshClaims P user.id sessionId refreshJti issuedAt))) :=
        ⟨user.id, refreshJti, issuedAt, rfl⟩
      refine ⟨moves_of_turn hinv₃ hdrew₃.waiting.running ?_, wp_audit_running hdrew₃.waiting.running⟩
      apply Turn.commit telling hinv₃.register
      · rfl
      · rfl
      · exact fun k _ id hlock => hlock
      · exact fun k _ => rfl
      · exact List.Subset.refl _
      · intro hash hproduces
        cases hproduces
        exact ⟨sessionId, htoken, hdrew₃.unused⟩
      · intro hash hconsumes
        cases hconsumes
      · intro row hrow
        rw [World.commit_db, hrows, List.mem_append, List.mem_singleton] at hrow
        rcases hrow with hold | rfl
        · exact Or.inl ⟨hold, by simp [consumes]⟩
        · right
          rw [newSession_hash hsession, newSession_id hsession]
          exact ⟨rfl, htoken⟩
  · exact Rules.wp_throw hwaiting₁.running

end Endpoints

section Runs
variable {P : Platform}

theorem registered_setPhase {pid : ℕ} {v : View World SessionRequest Exn SessionResponse}
    {phase : Phase Unit Exn SessionResponse} (hinv : Registered P v) :
    Registered P (v.setPhase pid phase) where
  register := hinv.register
  insert_started := by
    rw [View.setPhase_length]
    exact hinv.insert_started

theorem finishing_session {pid : ℕ} {v : View World SessionRequest Exn SessionResponse}
    {result : Except Exn SessionResponse} : (sessionRules P).Finishing pid result v := by
  intro v₁ _ hinv _
  exact ⟨registered_setPhase hinv, fun k _ => Undisturbed.refl P k _⟩

theorem sessionRules_valid (telling : P.Telling) : (sessionRules P).Valid (sessionSystem P) where
  rely_refl := undisturbed_refl
  rely_trans pid _ _ _ hab hbc := Undisturbed.trans hab hbc
  start v request hinv _ := by
    have hwaiting : Waiting v.tasks.length request (v.start request) := by
      refine ⟨View.start_running v request, ?_⟩
      rw [Auth.ownInserts, List.map_eq_nil_iff, List.filter_eq_nil_iff]
      intro entry hentry howner
      have hlt := hinv.insert_started entry hentry
      simp only [decide_eq_true_eq] at howner
      omega
    refine ⟨⟨⟨hinv.register, ?_⟩, fun k _ => Undisturbed.refl P k _⟩, ?_⟩
    · intro entry hentry
      rw [View.start_length]
      exact Nat.lt_succ_of_lt (hinv.insert_started entry hentry)
    · have hmap : ∀ {γ : Type} {f : γ → SessionResponse} {p : Handler γ},
          (sessionRules P).wp v.tasks.length p
            (fun _ v' => v'.Running v.tasks.length request) (v.start request) →
          (sessionRules P).wp v.tasks.length (f <$> p)
            ((sessionRules P).Finishing v.tasks.length) (v.start request) :=
        fun h => Rules.wp_map (Rules.wp_mono h fun _ _ _ => finishing_session)
      cases request with
      | login email password userAgent clientIp => exact hmap (registered_login telling hwaiting)
      | refresh refreshToken userAgent clientIp => exact hmap (registered_refresh telling hwaiting)
      | logout refreshToken credentials => exact hmap (registered_logout telling hwaiting)
      | switchActivation userId credentials clientIp =>
        exact hmap (wp_prunes_running (only_switchUserActivation_prunes userId credentials clientIp)
          hwaiting.running)
      | cleanup credentials clientIp =>
        exact hmap (wp_prunes_running (only_cleanupExpired_prunes credentials clientIp)
          hwaiting.running)
      | sweep => exact hmap (wp_prunes_running only_fallbackSweep_prunes hwaiting.running)
      | wait => exact hmap (wp_prunes_running still_prunes.only_tick hwaiting.running)
  crash v pid request hinv hrun _ := by
    have hmoves := moves_of_turn hinv hrun (Turn.discard hinv.register)
    exact ⟨registered_setPhase hmoves.1, hmoves.2⟩

theorem registered_initial (users : Table User.id) (now : Timestamp) :
    Registered P ⟨initial users now, []⟩ := by
  constructor
  · constructor <;> simp [initial, consumed, produced, Database.empty]
  · simp [initial]

end Runs

/-- What was committed stays committed. -/
def Recorded (w w' : World) : Prop := w.commits ⊆ w'.commits

instance : IsPreorder World Recorded where
  refl _ := List.Subset.refl _
  trans _ _ _ hab hbc := List.Subset.trans hab hbc

theorem Revoked.recorded {P : Platform} {sessionId : UUID} {w w' : World} (h : Revoked P sessionId w)
    (hrecorded : Recorded w w') : Revoked P sessionId w' := by
  rcases h with ⟨hash, hconsumed, htoken⟩
  exact ⟨hash, consumed_mono hrecorded hconsumed, htoken⟩

/-- An access token names the user and the session that it was issued for. -/
theorem names_issued {P : Platform} (telling : P.Telling) {userId sessionId userId' sessionId' : UUID}
    {role : Role} {jti : UUID} {issuedAt : Timestamp}
    (h : Names P (Security.createAccessToken P userId role sessionId jti issuedAt) userId' sessionId') :
    userId' = userId ∧ sessionId' = sessionId := by
  rcases h with ⟨time, claims, sub, sid, hdecode, _, hsub, _, hsid, _, huser, hsession⟩
  rcases telling.decode_encode _ _ _ hdecode with ⟨hsub', hsid'⟩
  rw [hsub', Option.some.injEq] at hsub
  rw [hsid', Option.some.injEq] at hsid
  rw [← hsub, telling.parseUuid_text] at huser
  rw [← hsid, telling.parseUuid_text] at hsession
  exact ⟨(Option.some.inj huser).symm, (Option.some.inj hsession).symm⟩

/-- In every state that a run reaches, an access token is accepted only where its session admits its
user; and once a refresh or a logout of the session has committed, no later state accepts it. -/
theorem session_revoked_for_good (P : Platform) (telling : P.Telling) (users : Table User.id)
    (now : Timestamp) (c c' : Pool World Choice Label SessionRequest Exn SessionResponse)
    (hrun : (sessionSystem P).Run (fun _ _ => True) (Pool.init (initial users now)) c)
    (hlater : (sessionSystem P).Run (fun _ _ => True) c c') (userId sessionId jti : UUID)
    (role : Role) (issuedAt : Timestamp) :
    (Accepts P (Security.createAccessToken P userId role sessionId jti issuedAt) c'.shared →
      Admits userId sessionId c'.shared) ∧
    (Revoked P sessionId c.shared →
      ¬ Accepts P (Security.createAccessToken P userId role sessionId jti issuedAt) c'.shared) := by
  have hsafe : Rules.Safe (sessionRules P) c :=
    (Rules.safe_init (registered_initial users now)).run (sessionRules_valid telling) hrun
  have hinv : Registered P c'.view := (hsafe.run (sessionRules_valid telling) hlater).inv
  have hadmits : Accepts P (Security.createAccessToken P userId role sessionId jti issuedAt)
      c'.shared → Admits userId sessionId c'.shared := by
    intro haccepts
    rcases accepts_iff.mp haccepts with ⟨userId', sessionId', hnames, hadmits⟩
    rcases names_issued telling hnames with ⟨rfl, rfl⟩
    exact hadmits
  refine ⟨hadmits, ?_⟩
  intro hrevoked haccepts
  have hrecorded : Recorded c.shared c'.shared :=
    hsafe.run_rely (sessionRules_valid telling) hlater fun _ _ _ hrely => hrely.commits
  have hnone : c'.shared.db.sessions.find sessionId = none :=
    hinv.register.no_row (hrevoked.recorded hrecorded)
  rcases (hadmits haccepts).session with ⟨s, hfind, _⟩
  rw [hnone] at hfind
  cases hfind

section Sample

/-- The access token of a login that drew the UUIDs 1, 2 and 3 at time 0. -/
def sampleToken : String := Security.createAccessToken samplePlatform 1 .user 1 2 0

def sampleText : String := samplePlatform.uuidText 1

def sampleAccessClaims : Claims :=
  ⟨some sampleText, some "user", some sampleText, 2, minutes 15, 0, "access"⟩

def sampleRefreshClaims : Claims := Security.refreshClaims samplePlatform 1 1 3 0

def actsOf (pid : ℕ) (ids : List UUID) : List (Event Choice SessionRequest) :=
  ids.map fun id => .act pid { uuid := id }

/-- A login whose token is accepted, and a refresh after which it is not. -/
theorem session_revoked_for_good_sample :
    ∃ c c' : Pool World Choice Label SessionRequest Exn SessionResponse,
      (sessionSystem samplePlatform).Run (fun _ _ => True) (Pool.init (initial sampleUsers 0)) c ∧
      (sessionSystem samplePlatform).Run (fun _ _ => True) c c' ∧
      Accepts samplePlatform sampleToken c.shared ∧ Admits 1 1 c.shared ∧
      Revoked samplePlatform 1 c'.shared ∧ ¬ Accepts samplePlatform sampleToken c'.shared := by
  rcases (sessionSystem samplePlatform).exists_run_through (fun _ _ => True)
      (Pool.init (initial sampleUsers 0))
      (.start (.login "ada@example.org" "pw" "browser" "203.0.113.9") ::
        actsOf 0 [0, 1, 2, 3, 0, 0, 0])
      (.start (.refresh (samplePlatform.jwtEncode sampleRefreshClaims) "browser" "203.0.113.9"))
      (actsOf 1 [0, 0, 4, 5, 6, 0, 0, 0, 0])
      (fun v _ v' => (currentUserRow 1 1 v.shared.now v.shared.db).any User.isActive &&
        decide (tokenHash samplePlatform sampleRefreshClaims ∈ consumed v'.shared))
      (by decide +kernel) with ⟨c, o, c₂, c', hbefore, hnext, hafter, h⟩
  rw [Bool.and_eq_true, Option.any_eq_true, decide_eq_true_eq] at h
  have hlater := (System.Run.refl.tail hnext trivial).trans hafter
  have htelling := Platform.plain_telling samplePlatform.settings
  have hrevoked : Revoked samplePlatform 1 c'.shared := ⟨_, h.2, 1, 3, 0, rfl⟩
  have haccepts : Accepts samplePlatform sampleToken c.shared := by
    refine accepts_iff.mpr ⟨1, 1, ?_, admits_iff.mpr h.1⟩
    exact ⟨0, sampleAccessClaims, sampleText, sampleText, by decide +kernel⟩
  exact ⟨c, c', hbefore, hlater, haccepts,
    (session_revoked_for_good samplePlatform htelling sampleUsers 0 c c hbefore .refl 1 1 2 .user
      0).1 haccepts, hrevoked,
    (session_revoked_for_good samplePlatform htelling sampleUsers 0 c' c' (hbefore.trans hlater)
      .refl 1 1 2 .user 0).2 hrevoked⟩

end Sample
end PhantomShare.Sessions
