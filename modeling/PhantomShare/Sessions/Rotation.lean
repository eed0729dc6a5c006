import PhantomShare.Foundations.Log
import PhantomShare.PlainPlatform
import PhantomShare.Sessions.Ledger
import PhantomShare.Sessions.Statements

/-!
# A refresh token is consumed once as long as its row is there

`refresh_token_endpoint` does not look at the row count of its update. A refresh
whose update still finds the session row holds the row lock until it commits, so
nobody else consumes the token; a refresh whose update finds the row gone hands
out a second descendant. The runs below are those in which the row is there.
-/
namespace PhantomShare.Sessions
open Foundations

inductive Request where
  | login (email password userAgent clientIp : String)
  | refresh (refreshToken userAgent clientIp : String)
  | logout (refreshToken : String) (credentials : Option String)
  | wait
  deriving DecidableEq

inductive Response where
  | tokens (response : TokenResponse)
  | noContent

def serve (P : Platform) : Request → Handler Response
  | .login email password userAgent clientIp =>
    Response.tokens <$> Auth.login P email password userAgent clientIp
  | .refresh refreshToken userAgent clientIp =>
    Response.tokens <$> Auth.refreshTokenEndpoint P refreshToken userAgent clientIp
  | .logout refreshToken credentials =>
    (fun _ => Response.noContent) <$> Auth.logout P refreshToken credentials
  | .wait => (fun _ => Response.noContent) <$> tick

/-- The connection of a crashed process is rolled back. -/
def system (P : Platform) : System World Choice Label Request Exn Response where
  serve := serve P
  recover := Auth.discardWork

/-- Any users, and no session yet. -/
def initial (users : Table User.id) (now : Timestamp) : World where
  db := { Database.empty with users := users }
  redis := .empty
  sentinels := .empty
  objects := .empty
  now := now
  issued := []
  commits := []
  sessionLocks := []
  sessionInserts := []

/-- The hash of the refresh token that a request presents for consumption. -/
def presents (P : Platform) : Request → Option String
  | .refresh refreshToken _ _ => some (P.sha256Hex refreshToken)
  | .logout refreshToken _ => some (P.sha256Hex refreshToken)
  | _ => none

/-- The condition: the update of a refresh finds the session row of its token. -/
def RowPresent (v : View World Request Exn Response) : Occurrence Label Request Exn Response → Prop
  | .performed _ (.revokeForRefresh hash) => hash ∈ live v.shared
  | _ => True

instance (v : View World Request Exn Response) (o : Occurrence Label Request Exn Response) :
    Decidable (RowPresent v o) := by
  unfold RowPresent
  split <;> infer_instance

structure Inv (P : Platform) (v : View World Request Exn Response) : Prop where
  ledger : Ledger P v.shared
  lock_started : ∀ lock ∈ v.shared.sessionLocks, lock.2 < v.tasks.length
  insert_started : ∀ entry ∈ v.shared.sessionInserts, entry.2 < v.tasks.length
  succeeded : ∀ pid request value, v.tasks[pid]? = some (request, .finished (.ok value)) →
    ∀ hash, presents P request = some hash →
      ∃ label, (pid, label) ∈ v.shared.commits ∧ consumes label = some hash

def rules (P : Platform) : Rules World Label Request Exn Response where
  cond := RowPresent
  inv := Inv P
  rely pid v v' := Rely P pid v.shared v'.shared

section Assertions
variable {P : Platform} {pid : ℕ} {request : Request} {v v' : View World Request Exn Response}

theorem rely_refl (k : ℕ) (w : View World Request Exn Response) : (rules P).rely k w w :=
  Rely.refl P k w.shared

theorem running_env (h : v.Running pid request) (henv : (rules P).Env pid v v') :
    v'.Running pid request := henv.2.trans h

/-- A process that waits outside any transaction. -/
structure Idle (pid : ℕ) (request : Request) (v : View World Request Exn Response) : Prop where
  running : v.Running pid request
  inserts : Auth.ownInserts pid v.shared = []

theorem Idle.env (h : Idle pid request v) (henv : (rules P).Env pid v v') : Idle pid request v' where
  running := running_env h.running henv
  inserts := henv.1.inserts.trans h.inserts

theorem Idle.issue (h : Idle pid request v) (id : UUID) (k : ℕ) :
    Idle pid request (v.update (v.shared.issue id k)) := ⟨h.running, h.inserts⟩

/-- A process that has drawn the identifier of its new token. -/
structure Drawn (P : Platform) (pid : ℕ) (jti : UUID) (v : View World Request Exn Response) :
    Prop where
  issued : (jti, pid) ∈ v.shared.issued
  unused : ∀ claims : Claims, claims.jti = jti → tokenHash P claims ∉ produced v.shared

theorem Drawn.env (sound : P.Sound) {jti : UUID} (h : Drawn P pid jti v)
    (henv : (rules P).Env pid v v') (hinv : Inv P v') : Drawn P pid jti v' where
  issued := henv.1.issued _ h.issued
  unused claims hclaims :=
    henv.1.not_produced sound hinv.ledger (hclaims ▸ h.issued) (h.unused claims hclaims)

theorem Drawn.handout {jti : UUID} (h : Drawn P pid jti v) {claims : Claims}
    (hclaims : claims.jti = jti) : Handout P pid v.shared (tokenHash P claims) :=
  ⟨h.unused claims hclaims, claims, rfl, hclaims ▸ h.issued⟩

/-- A process that holds the row lock of a token. -/
def Holds (pid : ℕ) (hash : String) (v : View World Request Exn Response) : Prop :=
  ∃ row ∈ v.shared.db.sessions.rows, row.refreshTokenHash = hash ∧
    (row.id, pid) ∈ v.shared.sessionLocks

theorem Holds.env {hash : String} (h : Holds pid hash v) (henv : (rules P).Env pid v v') :
    Holds pid hash v' := by
  rcases h with ⟨row, hrow, hhash, hlock⟩
  exact ⟨row, henv.1.rows row hrow hlock, hhash, (henv.1.locks row.id).mpr hlock⟩

/-- A process whose transaction is complete but not committed. -/
structure Ready (P : Platform) (pid : ℕ) (request : Request) (label : Label)
    (v : View World Request Exn Response) : Prop where
  running : v.Running pid request
  presented : presents P request = consumes label
  holds : ∃ hash, consumes label = some hash ∧ Holds pid hash v
  inserts : (Auth.ownInserts pid v.shared).map Session.refreshTokenHash = (produces label).toList
  handout : ∀ hash, produces label = some hash → Handout P pid v.shared hash

theorem Ready.env (sound : P.Sound) {label : Label} (h : Ready P pid request label v)
    (henv : (rules P).Env pid v v') (hinv : Inv P v') : Ready P pid request label v' where
  running := running_env h.running henv
  presented := h.presented
  holds := by
    rcases h.holds with ⟨hash, hconsumes, hholds⟩
    exact ⟨hash, hconsumes, hholds.env henv⟩
  inserts := by rw [henv.1.inserts, h.inserts]
  handout hash hproduces := by
    rcases h.handout hash hproduces with ⟨hunused, claims, rfl, hissued⟩
    exact ⟨henv.1.not_produced sound hinv.ledger hissued hunused, claims, rfl,
      henv.1.issued _ hissued⟩

/-- A process whose transaction has committed. -/
structure Done (P : Platform) (pid : ℕ) (request : Request)
    (v : View World Request Exn Response) : Prop where
  running : v.Running pid request
  consumed : ∀ hash, presents P request = some hash →
    ∃ label, (pid, label) ∈ v.shared.commits ∧ consumes label = some hash

theorem Done.env (h : Done P pid request v) (henv : (rules P).Env pid v v') :
    Done P pid request v' where
  running := running_env h.running henv
  consumed hash hpresents := by
    rcases h.consumed hash hpresents with ⟨label, hmem, hconsumes⟩
    exact ⟨label, henv.1.commits _ hmem, hconsumes⟩

/-- What holds when a handler is through: only a committed consumption lets it return. -/
def Post (P : Platform) (pid : ℕ) (request : Request) {γ : Type} :
    Except Exn γ → View World Request Exn Response → Prop
  | .ok _, v => Done P pid request v
  | .error _, v => v.Running pid request

theorem running_lt (h : v.Running pid request) : pid < v.tasks.length :=
  (List.getElem?_eq_some_iff.mp h).1

/-- A legal transition keeps the invariant and what the others rely on. -/
theorem moves_of_step {w : World} (hinv : Inv P v) (hrun : v.Running pid request)
    (hstep : Step P pid v.shared w) : (rules P).Moves pid v (v.update w) := by
  constructor
  · constructor
    · exact hstep.ledger
    · intro lock hlock
      rcases hstep.lock_owner lock hlock with hold | hnew
      · exact hinv.lock_started lock hold
      · rw [hnew]
        exact running_lt hrun
    · intro entry hentry
      rcases hstep.insert_owner entry hentry with hold | hnew
      · exact hinv.insert_started entry hold
      · rw [hnew]
        exact running_lt hrun
    · intro k request' value hget hash hpresents
      rcases hinv.succeeded k request' value hget hash hpresents with ⟨label, hmem, hconsumes⟩
      exact ⟨label, hstep.commits _ hmem, hconsumes⟩
  · exact hstep.rely

end Assertions

section Operations
variable {P : Platform} {pid : ℕ} {request : Request} {v : View World Request Exn Response}

theorem moves_issue {id : UUID} (hinv : Inv P v) (hrun : v.Running pid request)
    (hfresh : ∀ entry ∈ v.shared.issued, entry.1 ≠ id) :
    (rules P).Moves pid v (v.update (v.shared.issue id pid)) :=
  moves_of_step hinv hrun (Step.issue hinv.ledger hfresh)

theorem drawn_issue (sound : P.Sound) {id : UUID} (hinv : Inv P v)
    (hfresh : ∀ entry ∈ v.shared.issued, entry.1 ≠ id) :
    Drawn P pid id (v.update (v.shared.issue id pid)) where
  issued := by simp
  unused claims hclaims := hinv.ledger.not_produced sound (hclaims ▸ hfresh)

/-- The entry of its own that follows a committed transaction. -/
theorem wp_audit {entry : AuditService.Entry} (h : Done P pid request v) :
    (rules P).wp pid (AuditService.log entry) (Post P pid request) v := by
  apply wp_auditLog rely_refl
  intro v₁ henv hinv
  have hdone := h.env henv
  constructor
  · exact hdone
  · intro logs
    have hstep : Step P pid v₁.shared
        (v₁.shared.commit pid .auditLog { v₁.shared.db with auditLogs := logs }) :=
      Step.commit_quiet hinv.ledger rfl rfl rfl
    refine ⟨moves_of_step hinv hdone.running hstep, ?_⟩
    constructor
    · exact hdone.running
    · intro hash hpresents
      rcases hdone.consumed hash hpresents with ⟨label, hmem, hconsumes⟩
      exact ⟨label, hstep.commits _ hmem, hconsumes⟩

theorem wp_audit_return {entry : AuditService.Entry} {γ : Type} {value : γ}
    (h : Done P pid request v) :
    (rules P).wp pid (AuditService.log entry >>= fun _ => pure value : Handler γ)
      (Post P pid request) v := by
  apply Rules.wp_bind
  apply Rules.wp_mono (wp_audit h)
  intro result v' hpost
  cases result with
  | ok u => exact hpost
  | error error => exact hpost

/-- What the body of a session transaction has to establish. -/
def BodyPost (P : Platform) (pid : ℕ) (request : Request) {γ : Type} :
    Except Exn (γ × Label) → View World Request Exn Response → Prop
  | .ok (_, label), v => Ready P pid request label v
  | .error _, v => v.Running pid request

/-- The commit of a complete transaction consumes its token. -/
theorem wp_sessionTransaction (sound : P.Sound) {γ : Type} {body : Handler (γ × Label)}
    (h : (rules P).wp pid body (BodyPost P pid request) v) :
    (rules P).wp pid (Auth.sessionTransaction body) (Post P pid request) v := by
  apply @wp_sessionTransaction_of _ _ _ (rules P) pid v _ body (Ready P pid request)
    (fun v' => v'.Running pid request) rely_refl
  · apply Rules.wp_mono h
    intro result v' hpost
    cases result with
    | ok result => exact hpost
    | error error => exact hpost
  · intro label v₁ v₂ hready henv hinv
    have hready₂ := hready.env sound henv hinv
    refine ⟨hready₂.running, ?_⟩
    intro sessions hsessions value
    rcases hready₂.holds with ⟨hash, hconsumes, row, hrow, hhash, hlock⟩
    have hstep := Step.consume hinv.ledger hconsumes hrow hhash hlock
      (foldlM_insertRow_rows hsessions) hready₂.inserts hready₂.handout
    refine ⟨moves_of_step hinv hready₂.running hstep, hready₂.running, ?_⟩
    intro hash' hpresents
    rw [hready₂.presented] at hpresents
    exact ⟨label, by simp [Auth.discardWork], hpresents⟩
  · intro v₁ v₂ error hrun henv hinv
    have hrun₂ := running_env hrun henv
    exact ⟨moves_of_step hinv hrun₂ (Step.discard hinv.ledger), hrun₂⟩

end Operations

section Endpoints
variable {P : Platform} {pid : ℕ} {request : Request} {v : View World Request Exn Response}

theorem newSession_hash {id userId : UUID} {hash userAgent clientIp : String}
    {now expiresAt : Timestamp} {session : Session}
    (h : Auth.newSession id userId hash userAgent clientIp now expiresAt = .ok session) :
    session.refreshTokenHash = hash := by
  unfold Auth.newSession at h
  cases hip : inet clientIp with
  | none => simp [hip] at h
  | some address =>
    simp only [hip, Except.ok.injEq] at h
    rw [← h]

/-- The transaction of a refresh holds the row of the presented token when it is complete. -/
theorem wp_rotate (sound : P.Sound) {hash userAgent clientIp : String}
    (hpresents : presents P request = some hash) (h : Idle pid request v) :
    (rules P).wp pid (Auth.rotate P hash userAgent clientIp) (BodyPost P pid request) v := by
  apply wp_query_bind rely_refl
  intro v₁ henv₁ _ _
  have hidle₁ := h.env henv₁
  refine ⟨hidle₁.running, ?_⟩
  split
  · rename_i userId role _
    apply wp_uuid4_bind
    intro v₂ henv₂ hinv₂ newSessionId hfresh₂
    have hidle₂ := hidle₁.env henv₂
    refine ⟨moves_issue hinv₂ hidle₂.running hfresh₂, ?_⟩
    apply wp_uuid4_bind
    intro v₃ henv₃ hinv₃ accessJti hfresh₃
    have hidle₃ := (hidle₂.issue _ pid).env henv₃
    refine ⟨moves_issue hinv₃ hidle₃.running hfresh₃, ?_⟩
    apply wp_uuid4_bind
    intro v₄ henv₄ hinv₄ refreshJti hfresh₄
    have hidle₄ := (hidle₃.issue _ pid).env henv₄
    refine ⟨moves_issue hinv₄ hidle₄.running hfresh₄, ?_⟩
    have hdrawn₄ : Drawn P pid refreshJti _ := drawn_issue sound hinv₄ hfresh₄
    apply wp_clock_bind rely_refl
    intro v₅ henv₅ hinv₅
    have hidle₅ := (hidle₄.issue _ pid).env henv₅
    have hdrawn₅ := hdrawn₄.env sound henv₅ hinv₅
    apply wp_revokeSession_bind rely_refl
    intro v₆ henv₆ hinv₆ hcond
    have hidle₆ := hidle₅.env henv₆
    have hdrawn₆ := hdrawn₅.env sound henv₆ hinv₆
    refine ⟨hidle₆.running, ?_, ?_⟩
    · -- the condition excludes an update that matches no row
      intro hnone
      rcases List.mem_map.mp hcond with ⟨row, hrow, hhash⟩
      have hmatch := List.find?_eq_none.mp hnone row hrow
      simp [hhash] at hmatch
    · intro row hrow hmatch hfree
      refine ⟨moves_of_step hinv₆ hidle₆.running (Step.lock hinv₆.ledger hfree), ?_⟩
      have hhash : row.refreshTokenHash = hash := by simpa using hmatch
      have hidleLocked : Idle pid request (v₆.update
          { v₆.shared with sessionLocks := v₆.shared.sessionLocks ++ [(row.id, pid)] }) :=
        ⟨hidle₆.running, hidle₆.inserts⟩
      have hholds : Holds pid hash (v₆.update
          { v₆.shared with sessionLocks := v₆.shared.sessionLocks ++ [(row.id, pid)] }) :=
        ⟨row, hrow, hhash, by simp⟩
      have hdrawnLocked : Drawn P pid refreshJti (v₆.update
          { v₆.shared with sessionLocks := v₆.shared.sessionLocks ++ [(row.id, pid)] }) :=
        ⟨hdrawn₆.issued, hdrawn₆.unused⟩
      apply wp_insertSessionStatement_bind rely_refl
      intro v₇ henv₇ hinv₇
      have hidle₇ := hidleLocked.env henv₇
      have hholds₇ := hholds.env henv₇
      have hdrawn₇ := hdrawnLocked.env sound henv₇ hinv₇
      constructor
      · intro _
        exact hidle₇.running
      · intro session hsession
        refine ⟨moves_of_step hinv₇ hidle₇.running (Step.insert hinv₇.ledger), ?_⟩
        constructor
        · exact hidle₇.running
        · exact hpresents
        · exact ⟨hash, rfl, hholds₇⟩
        · have hown := hidle₇.inserts
          simp only [Auth.ownInserts, List.map_eq_nil_iff] at hown
          simp [Auth.ownInserts, hown, produces, newSession_hash hsession]
        · intro newHash hnew
          cases hnew
          exact hdrawn₇.handout rfl
  · exact Rules.wp_throw hidle₁.running

/-- The transaction of a logout matched a row with the presented token. -/
theorem wp_revoke {sub : String} {sid : Option String} {hash : String}
    (hpresents : presents P request = some hash) (h : Idle pid request v) :
    (rules P).wp pid (Auth.revoke P sub sid hash) (BodyPost P pid request) v := by
  apply wp_liftExcept_bind
  · intro error _
    exact h.running
  intro userId _
  apply wp_liftExcept_bind
  · intro error _
    exact h.running
  intro sessionId _
  apply wp_revokeSession_bind rely_refl
  intro v₁ henv hinv _
  have hidle := h.env henv
  refine ⟨hidle.running, ?_, ?_⟩
  · intro _
    exact wp_raiseIf_bind (fun _ => hidle.running) (fun hzero => absurd hzero (by decide))
  · intro row hrow hmatch hfree
    refine ⟨moves_of_step hinv hidle.running (Step.lock hinv.ledger hfree), ?_⟩
    apply wp_raiseIf_bind (fun hone => absurd hone (by decide))
    intro _
    have hhash : row.refreshTokenHash = hash := by
      simp only [Auth.logoutMatches, Bool.and_eq_true, decide_eq_true_eq] at hmatch
      exact hmatch.1.2
    constructor
    · exact hidle.running
    · exact hpresents
    · exact ⟨hash, rfl, row, hrow, hhash, by simp⟩
    · have hown := hidle.inserts
      simp only [Auth.ownInserts, List.map_eq_nil_iff] at hown
      simp [Auth.ownInserts, hown, produces]
    · intro newHash hnew
      cases hnew

theorem wp_refresh (sound : P.Sound) {refreshToken userAgent clientIp : String}
    (hrequest : request = .refresh refreshToken userAgent clientIp) (h : Idle pid request v) :
    (rules P).wp pid (Auth.refreshTokenEndpoint P refreshToken userAgent clientIp)
      (Post P pid request) v := by
  apply wp_clock_bind rely_refl
  intro v₁ henv₁ _
  have hidle₁ := h.env henv₁
  apply wp_liftExcept_bind
  · intro error _
    exact hidle₁.running
  intro payload _
  apply wp_raiseIf_bind
  · intro _
    exact hidle₁.running
  intro _
  apply Rules.wp_bind
  have hpresents : presents P request = some (P.sha256Hex refreshToken) := by rw [hrequest]; rfl
  apply Rules.wp_mono (wp_sessionTransaction sound (wp_rotate sound hpresents hidle₁))
  intro result v₂ hpost
  cases result with
  | error error => exact hpost
  | ok value => exact wp_audit_return hpost

/-- Reading who calls changes nothing. -/
theorem wp_getCurrentUser {credentials : Option String} (h : Idle pid request v) :
    (rules P).wp pid (Security.getCurrentUser P credentials)
      (fun _ v' => Idle pid request v') v := by
  unfold Security.getCurrentUser
  split
  · apply wp_clock_bind rely_refl
    intro v₁ henv₁ _
    have hidle₁ := h.env henv₁
    apply wp_liftExcept_bind (fun _ _ => hidle₁)
    intro payload _
    apply wp_raiseIf_bind (fun _ => hidle₁)
    intro _
    split
    · apply wp_raiseIf_bind (fun _ => hidle₁)
      intro _
      split
      · apply wp_raiseIf_bind (fun _ => hidle₁)
        intro _
        apply wp_liftExcept_bind (fun _ _ => hidle₁)
        intro userId _
        apply wp_liftExcept_bind (fun _ _ => hidle₁)
        intro sessionId _
        apply wp_query_bind rely_refl
        intro v₂ henv₂ _ _
        have hidle₂ := hidle₁.env henv₂
        refine ⟨hidle₂, ?_⟩
        split
        · exact wp_raiseIf_bind (fun _ => hidle₂) (fun _ => Rules.wp_pure hidle₂)
        · exact Rules.wp_throw hidle₂
      · exact Rules.wp_throw hidle₁
    · exact Rules.wp_throw hidle₁
  · exact Rules.wp_throw h

theorem wp_logout (sound : P.Sound) {refreshToken : String} {credentials : Option String}
    (hrequest : request = .logout refreshToken credentials) (h : Idle pid request v) :
    (rules P).wp pid (Auth.logout P refreshToken credentials) (Post P pid request) v := by
  apply Rules.wp_bind
  apply Rules.wp_mono (wp_getCurrentUser h)
  intro result v₁ hidle₁
  cases result with
  | error error => exact hidle₁.running
  | ok currentUser =>
    apply wp_clock_bind rely_refl
    intro v₂ henv₂ _
    have hidle₂ := hidle₁.env henv₂
    apply wp_liftExcept_bind (fun _ _ => hidle₂.running)
    intro payload _
    apply wp_raiseIf_bind (fun _ => hidle₂.running)
    intro _
    split
    · rename_i sub _
      apply wp_raiseIf_bind (fun _ => hidle₂.running)
      intro _
      apply Rules.wp_bind
      have hpresents : presents P request = some (P.sha256Hex refreshToken) := by rw [hrequest]; rfl
      apply Rules.wp_mono (wp_sessionTransaction sound (wp_revoke hpresents hidle₂))
      intro result v₃ hpost
      cases result with
      | error error => exact hpost
      | ok value => exact wp_audit hpost
    · exact Rules.wp_throw hidle₂.running

theorem wp_login (sound : P.Sound) {email password userAgent clientIp : String}
    (hrequest : request = .login email password userAgent clientIp) (h : Idle pid request v) :
    (rules P).wp pid (Auth.login P email password userAgent clientIp) (Post P pid request) v := by
  apply wp_query_bind rely_refl
  intro v₁ henv₁ _ _
  have hidle₁ := h.env henv₁
  refine ⟨hidle₁.running, ?_⟩
  split
  · rename_i user _
    apply wp_raiseIf_bind (fun _ => hidle₁.running)
    intro _
    apply wp_raiseIf_bind (fun _ => hidle₁.running)
    intro _
    apply wp_uuid4_bind
    intro v₂ henv₂ hinv₂ sessionId hfresh₂
    have hidle₂ := hidle₁.env henv₂
    refine ⟨moves_issue hinv₂ hidle₂.running hfresh₂, ?_⟩
    apply wp_uuid4_bind
    intro v₃ henv₃ hinv₃ accessJti hfresh₃
    have hidle₃ := (hidle₂.issue _ pid).env henv₃
    refine ⟨moves_issue hinv₃ hidle₃.running hfresh₃, ?_⟩
    apply wp_uuid4_bind
    intro v₄ henv₄ hinv₄ refreshJti hfresh₄
    have hidle₄ := (hidle₃.issue _ pid).env henv₄
    refine ⟨moves_issue hinv₄ hidle₄.running hfresh₄, ?_⟩
    have hdrawn₄ : Drawn P pid refreshJti _ := drawn_issue sound hinv₄ hfresh₄
    apply wp_clock_bind rely_refl
    intro v₅ henv₅ hinv₅
    have hidle₅ := (hidle₄.issue _ pid).env henv₅
    have hdrawn₅ := hdrawn₄.env sound henv₅ hinv₅
    apply wp_transaction_bind rely_refl
    intro v₆ henv₆ hinv₆ _
    have hidle₆ := hidle₅.env henv₆
    have hdrawn₆ := hdrawn₅.env sound henv₆ hinv₆
    constructor
    · intro _
      exact hidle₆.running
    · intro choice value committed hrun
      rcases Tx.run_write_ok hrun with ⟨written, rfl, hinsert⟩
      rcases FileCrypto.bind_eq_ok.mp hinsert with ⟨session, hsession, hinsert⟩
      rcases FileCrypto.bind_eq_ok.mp hinsert with ⟨_, _, hinsert⟩
      rcases FileCrypto.bind_eq_ok.mp hinsert with ⟨sessions, hsessions, hdb⟩
      have hrows : written.sessions.rows = v₆.shared.db.sessions.rows ++ [session] := by
        rw [← Except.ok.inj hdb]
        exact (Table.insert_eq_some (insertRow_ok hsessions)).2
      have hstep := Step.login hinv₆.ledger (hdrawn₆.handout rfl) hrows (newSession_hash hsession)
      refine ⟨moves_of_step hinv₆ hidle₆.running hstep, wp_audit_return ?_⟩
      constructor
      · exact hidle₆.running
      · intro hash hpresents
        rw [hrequest] at hpresents
        cases hpresents
  · exact Rules.wp_throw hidle₁.running

theorem wp_wait (hrequest : request = .wait) (h : Idle pid request v) :
    (rules P).wp pid tick (Post P pid request) v := by
  apply wp_tick
  intro v₁ henv hinv now _
  have hidle := h.env henv
  have hstep : Step P pid v₁.shared (v₁.shared.setNow now) :=
    Step.quiet hinv.ledger rfl rfl rfl rfl rfl rfl fun _ hentry => hentry
  refine ⟨moves_of_step hinv hidle.running hstep, hidle.running, ?_⟩
  intro hash hpresents
  rw [hrequest] at hpresents
  cases hpresents

end Endpoints

section Runs
variable {P : Platform}

theorem inv_setPhase {pid : ℕ} {request : Request} {v : View World Request Exn Response}
    {phase : Phase Unit Exn Response} (hinv : Inv P v) (hrun : v.Running pid request)
    (h : ∀ value, phase = .finished (.ok value) → ∀ hash, presents P request = some hash →
      ∃ label, (pid, label) ∈ v.shared.commits ∧ consumes label = some hash) :
    Inv P (v.setPhase pid phase) := by
  have hlength : (v.setPhase pid phase).tasks.length = v.tasks.length := by simp [View.setPhase]
  constructor
  · exact hinv.ledger
  · rw [hlength]
    exact hinv.lock_started
  · rw [hlength]
    exact hinv.insert_started
  · intro k request' value hget hash hpresents
    by_cases hk : k = pid
    · subst hk
      rw [View.setPhase_get_self phase hrun] at hget
      cases hget
      exact h value rfl hash hpresents
    · rw [View.setPhase_get _ _ hk] at hget
      exact hinv.succeeded k request' value hget hash hpresents

/-- A result may be delivered: what its request consumed is on record. -/
theorem finishing {pid : ℕ} {request : Request} {v : View World Request Exn Response} {γ : Type}
    {f : γ → Response} {result : Except Exn γ} (h : Post P pid request result v) :
    (rules P).Finishing pid (result.map f) v := by
  intro v₁ henv hinv _
  cases result with
  | ok value =>
    have hdone := Done.env h henv
    refine ⟨inv_setPhase hinv hdone.running ?_, fun k _ => Rely.refl P k _⟩
    intro _ _ hash hpresents
    exact hdone.consumed hash hpresents
  | error error =>
    refine ⟨inv_setPhase hinv (running_env h henv) ?_, fun k _ => Rely.refl P k _⟩
    intro value hvalue
    cases hvalue

theorem inv_start {v : View World Request Exn Response} (hinv : Inv P v) (request : Request) :
    Inv P (v.start request) := by
  have hlength : (v.start request).tasks.length = v.tasks.length + 1 := by simp [View.start]
  constructor
  · exact hinv.ledger
  · intro lock hlock
    rw [hlength]
    exact Nat.lt_succ_of_lt (hinv.lock_started lock hlock)
  · intro entry hentry
    rw [hlength]
    exact Nat.lt_succ_of_lt (hinv.insert_started entry hentry)
  · intro k request' value hget hash hpresents
    by_cases hk : k < v.tasks.length
    · rw [View.start_get v request hk] at hget
      exact hinv.succeeded k request' value hget hash hpresents
    · have hlast : k = v.tasks.length := by
        have hlt := (List.getElem?_eq_some_iff.mp hget).1
        omega
      rw [hlast, View.start_running v request] at hget
      cases hget

theorem valid (sound : P.Sound) : (rules P).Valid (system P) where
  rely_refl := rely_refl
  rely_trans pid _ _ _ hab hbc := Rely.trans hab hbc
  start v request hinv _ := by
    have hidle : Idle v.tasks.length request (v.start request) := by
      refine ⟨View.start_running v request, ?_⟩
      rw [Auth.ownInserts, List.map_eq_nil_iff, List.filter_eq_nil_iff]
      intro entry hentry howner
      have hlt := hinv.insert_started entry hentry
      simp only [decide_eq_true_eq] at howner
      omega
    refine ⟨⟨inv_start hinv request, fun k _ => Rely.refl P k _⟩, ?_⟩
    cases request with
    | login email password userAgent clientIp =>
      exact Rules.wp_map (Rules.wp_mono (wp_login sound rfl hidle) fun _ _ => finishing)
    | refresh refreshToken userAgent clientIp =>
      exact Rules.wp_map (Rules.wp_mono (wp_refresh sound rfl hidle) fun _ _ => finishing)
    | logout refreshToken credentials =>
      exact Rules.wp_map (Rules.wp_mono (wp_logout sound rfl hidle) fun _ _ => finishing)
    | wait => exact Rules.wp_map (Rules.wp_mono (wp_wait rfl hidle) fun _ _ => finishing)
  crash v pid request hinv hrun _ := by
    have hstep : Step P pid _ _ := Step.discard hinv.ledger
    have hmoves := moves_of_step hinv hrun hstep
    refine ⟨inv_setPhase hmoves.1 hrun ?_, hmoves.2⟩
    intro value hvalue
    cases hvalue

theorem inv_initial (users : Table User.id) (now : Timestamp) :
    Inv P ⟨initial users now, []⟩ := by
  constructor
  · constructor <;> simp [initial, consumed, produced, live, Database.empty]
  · simp [initial]
  · simp [initial]
  · simp

end Runs

/-- The tokens that a chain of committed refreshes leads to. -/
inductive Descends (commits : List (ℕ × Label)) (root : String) : String → Prop
  | root : Descends commits root root
  | refresh {hash newHash : String} {pid : ℕ} (prior : Descends commits root hash)
      (committed : (pid, .refresh hash newHash) ∈ commits) : Descends commits root newHash

section Lineage
variable {P : Platform} {w : World} {root hash hash' : String}

/-- One committed transaction consumes a token. -/
theorem Ledger.consumer_unique (h : Ledger P w) {entry entry' : ℕ × Label}
    (hmem : entry ∈ w.commits) (hmem' : entry' ∈ w.commits) (hc : consumes entry.2 = some hash)
    (hc' : consumes entry'.2 = some hash) : entry = entry' :=
  eq_of_filterMap_nodup h.consumed_nodup hmem hmem' hc hc'

theorem Descends.head (h : Descends w.commits root hash) :
    hash = root ∨ ∃ pid next, (pid, .refresh root next) ∈ w.commits ∧
      Descends w.commits next hash := by
  induction h with
  | root => exact Or.inl rfl
  | refresh _ committed ih =>
    right
    rcases ih with rfl | ⟨pid, next, hnext, hrest⟩
    · exact ⟨_, _, committed, .root⟩
    · exact ⟨pid, next, hnext, hrest.refresh committed⟩

/-- The descendants of a token form one chain. -/
theorem Descends.comparable (h : Ledger P w) (ha : Descends w.commits root hash)
    (hb : Descends w.commits root hash') :
    Descends w.commits hash hash' ∨ Descends w.commits hash' hash := by
  induction hb with
  | root => exact Or.inr ha
  | refresh _ committed ih =>
    rcases ih with hab | hba
    · exact Or.inl (hab.refresh committed)
    · rcases hba.head with rfl | ⟨pid, next, hnext, hrest⟩
      · exact Or.inl (Descends.root.refresh committed)
      · have hsame := h.consumer_unique hnext committed rfl rfl
        cases hsame
        exact Or.inr hrest

/-- A live token has no descendant but itself. -/
theorem Descends.eq_of_live (h : Ledger P w) (hlive : hash ∈ live w)
    (hd : Descends w.commits hash hash') : hash' = hash := by
  rcases hd.head with heq | ⟨pid, next, hnext, _⟩
  · exact heq
  · have hconsumed : hash ∈ consumed w :=
      List.mem_filterMap.mpr ⟨(pid, .refresh hash next), hnext, rfl⟩
    exact (h.consumed_gone hash hconsumed hlive).elim

end Lineage

/-- At most one of the requests that present a token has succeeded. -/
def AtMostOneConsumer (P : Platform) (v : View World Request Exn Response) : Prop :=
  ∀ (pid pid' : ℕ) (request request' : Request) (value value' : Response) (hash : String),
    v.tasks[pid]? = some (request, .finished (.ok value)) →
    v.tasks[pid']? = some (request', .finished (.ok value')) →
    presents P request = some hash → presents P request' = some hash → pid = pid'

/-- A login has at most one live descendant session, and none after the logout of one. -/
def OneLiveDescendant (w : World) : Prop :=
  ∀ root, (∃ pid, (pid, .login root) ∈ w.commits) →
    (∀ s ∈ w.db.sessions.rows, ∀ s' ∈ w.db.sessions.rows,
      Descends w.commits root s.refreshTokenHash → Descends w.commits root s'.refreshTokenHash →
        s = s') ∧
    ∀ pid hash, (pid, .logout hash) ∈ w.commits → Descends w.commits root hash →
      ∀ s ∈ w.db.sessions.rows, ¬ Descends w.commits root s.refreshTokenHash

/-- As long as every refresh updates a row that is there, a token is consumed at most once and
the sessions of a login form one chain with one live end. -/
theorem refresh_consumed_once (P : Platform) (sound : P.Sound) (users : Table User.id)
    (now : Timestamp) (c : Pool World Choice Label Request Exn Response)
    (run : (system P).Run RowPresent (Pool.init (initial users now)) c) :
    AtMostOneConsumer P c.view ∧ OneLiveDescendant c.shared := by
  have hinv : Inv P c.view := (valid sound).inv_of_run (inv_initial users now) run
  constructor
  · intro pid pid' request request' value value' hash hfin hfin' hpresents hpresents'
    rcases hinv.succeeded pid request value hfin hash hpresents with ⟨label, hmem, hconsumes⟩
    rcases hinv.succeeded pid' request' value' hfin' hash hpresents' with
      ⟨label', hmem', hconsumes'⟩
    have hsame := hinv.ledger.consumer_unique hmem hmem' hconsumes hconsumes'
    exact congrArg Prod.fst hsame
  · intro root _
    constructor
    · intro s hs s' hs' hd hd'
      have hlive : s.refreshTokenHash ∈ live c.shared := List.mem_map_of_mem hs
      have hlive' : s'.refreshTokenHash ∈ live c.shared := List.mem_map_of_mem hs'
      apply List.inj_on_of_nodup_map hinv.ledger.live_nodup hs hs'
      rcases hd.comparable hinv.ledger hd' with hcmp | hcmp
      · exact (hcmp.eq_of_live hinv.ledger hlive).symm
      · exact hcmp.eq_of_live hinv.ledger hlive'
    · intro pid hash hlogout hd s hs hds
      have hlive : s.refreshTokenHash ∈ live c.shared := List.mem_map_of_mem hs
      have hconsumed : hash ∈ consumed c.shared :=
        List.mem_filterMap.mpr ⟨(pid, .logout hash), hlogout, rfl⟩
      rcases hds.comparable hinv.ledger hd with hcmp | hcmp
      · rw [hcmp.eq_of_live hinv.ledger hlive] at hconsumed
        exact hinv.ledger.consumed_gone _ hconsumed hlive
      · rcases hcmp.head with heq | ⟨pid', next, hnext, _⟩
        · rw [← heq] at hconsumed
          exact hinv.ledger.consumed_gone _ hconsumed hlive
        · -- a logout and a refresh cannot both consume the token
          have hsame := hinv.ledger.consumer_unique hlogout hnext rfl rfl
          cases hsame

section Sample

def sampleLogin : Request := .login "ada@example.org" "pw" "browser" "203.0.113.9"

/-- A refresh with the token of a login that drew the UUIDs 1, 2 and 3 at time 0. -/
def sampleRefresh : Request :=
  .refresh (samplePlatform.jwtEncode (Security.refreshClaims samplePlatform 1 1 3 0)) "browser"
    "203.0.113.9"

/-- The steps of one process that draws three UUIDs after `before` steps and takes `after` more. -/
def sampleSteps (pid before after : ℕ) (id : UUID) : List (Event Choice Request) :=
  List.replicate before (.act pid {}) ++
    [.act pid { uuid := id }, .act pid { uuid := id + 1 }, .act pid { uuid := id + 2 }] ++
    List.replicate after (.act pid {})

theorem refresh_consumed_once_sample :
    ∃ c : Pool World Choice Label Request Exn Response,
      (c.view.answered 0 sampleLogin && c.view.answered 1 sampleRefresh) = true ∧
      AtMostOneConsumer samplePlatform c.view ∧ OneLiveDescendant c.shared := by
  rcases (system samplePlatform).exists_run RowPresent (Pool.init (initial sampleUsers 0))
      (.start sampleLogin :: sampleSteps 0 1 4 1 ++ .start sampleRefresh :: sampleSteps 1 2 6 4)
      (fun v => v.answered 0 sampleLogin && v.answered 1 sampleRefresh)
      (by decide +kernel) with ⟨c, run, h⟩
  exact ⟨c, h, refresh_consumed_once samplePlatform (Platform.plain_sound _) sampleUsers 0 c run⟩

/-- Two refreshes that both read the session row before either of them updates it. -/
theorem refresh_consumed_twice :
    ∃ c : Pool World Choice Label Request Exn Response,
      (system samplePlatform).Run (fun _ _ => True) (Pool.init (initial sampleUsers 0)) c ∧
      ¬ AtMostOneConsumer samplePlatform c.view := by
  rcases (system samplePlatform).exists_run (fun _ _ => True) (Pool.init (initial sampleUsers 0))
      (.start sampleLogin :: sampleSteps 0 1 4 1 ++ .start sampleRefresh :: .start sampleRefresh ::
        List.replicate 2 (.act 1 {}) ++ sampleSteps 2 2 6 7 ++ sampleSteps 1 0 6 4)
      (fun v => v.answered 1 sampleRefresh && v.answered 2 sampleRefresh)
      (by decide +kernel) with ⟨c, run, h⟩
  refine ⟨c, run, ?_⟩
  intro honce
  rw [Bool.and_eq_true] at h
  rcases View.exists_of_answered h.1 with ⟨value, hvalue⟩
  rcases View.exists_of_answered h.2 with ⟨value', hvalue'⟩
  exact absurd (honce 1 2 _ _ _ _ _ hvalue hvalue' rfl rfl) (by decide)

end Sample

end PhantomShare.Sessions
