import PhantomShare.Burn.Accounting
import PhantomShare.PlainPlatform

/-!
# A text secret burns after its last permitted view

The requests on text secrets, run in any interleaving. Every transaction but the
one of a retrieval keeps the account of every secret; a retrieval that returns
counts one view, and one that raises counts none.
-/
namespace PhantomShare.Burn
open Foundations Journal

/-- The requests on existing text secrets. -/
inductive TextRequest where
  | retrieve (secretId : String) (accessPassword token : Option String) (clientIp : String)
      (currentUser : Option CurrentUser)
  | update (id : UUID) (body : SecretUpdate) (user : CurrentUser) (clientIp : String)
  | restore (id : UUID) (version : ℤ) (user : CurrentUser) (clientIp : String)
  | rotateKey (secretId : String) (user : CurrentUser) (clientIp : String)
  | updatePolicy (id : UUID) (body : LocationPolicyUpdate) (user : CurrentUser) (clientIp : String)
  | delete (secretId : String) (user : CurrentUser) (clientIp : String)
  | wait
  deriving DecidableEq

inductive TextResponse where
  | content (content : SecretContent)
  | updated (response : SecretUpdateResponse)
  | keyRotated (response : KeyRotateResponse)
  | policy (response : LocationPolicyResponse)
  | noContent

def serveText (P : Platform) : TextRequest → Handler TextResponse
  | .retrieve secretId accessPassword token clientIp currentUser =>
    TextResponse.content <$>
      Secrets.retrieveSecret P secretId accessPassword token clientIp currentUser
  | .update id body user clientIp =>
    TextResponse.updated <$> SecretVersions.updateSecret P id body user clientIp
  | .restore id version user clientIp =>
    TextResponse.updated <$> SecretVersions.restoreSecretVersion P id version user clientIp
  | .rotateKey secretId user clientIp =>
    TextResponse.keyRotated <$> Secrets.rotateSecretKey P secretId user clientIp
  | .updatePolicy id body user clientIp =>
    TextResponse.policy <$> SecretAccess.updateLocationPolicy P id body user clientIp
  | .delete secretId user clientIp =>
    (fun _ => TextResponse.noContent) <$> Secrets.deleteSecret P secretId user clientIp
  | .wait => (fun _ => TextResponse.noContent) <$> tick

def textSystem (P : Platform) : System World Choice Label TextRequest Exn TextResponse where
  serve := serveText P
  recover _ w := w

/-! ### Transactions that count no view -/

section Footprint
variable (P : Platform) {id : UUID}

theorem keeps_getDekForSecret (secretId : UUID) (keyVersion : Option ℕ) :
    (KeyService.getDekForSecret P secretId keyVersion).Preserves (Keeps id) := by
  apply Tx.Preserves.bind
  · exact Tx.preserves_select _
  · intro row
    cases row with
    | none => exact Tx.preserves_throw _
    | some key => exact Tx.preserves_ofExcept _

theorem keeps_createVersionKey (secretId : UUID) (random : Random) (now : Timestamp) :
    (KeyService.createVersionKey P secretId random now).Preserves (Keeps id) := by
  apply Tx.Preserves.bind
  · apply Tx.preserves_execute
    intro db version db' h
    rcases FileCrypto.bind_eq_ok.mp h with ⟨inserted, hinsert, hreturn⟩
    cases hreturn
    exact Keeps.insertSecretKey hinsert
  · intro version
    exact Tx.preserves_pure _

theorem keeps_logWith (entry : AuditService.Entry) (now : Timestamp) :
    (AuditService.logWith entry now).Preserves (Keeps id) := by
  apply Tx.Preserves.quietly
  apply Tx.preserves_write
  intro db db' h
  exact Keeps.insertAuditLog h

theorem keeps_rotateKey (secretId : UUID) (random : Random) (now : Timestamp) :
    (KeyService.rotateKey P secretId random now).Preserves (Keeps id) := by
  apply (Tx.preserves_select _).bind
  intro row
  cases row with
  | none => exact Tx.preserves_throw _
  | some secret =>
    apply (keeps_getDekForSecret P secretId none).bind
    intro oldDek
    apply (Tx.preserves_ofExcept _).bind
    intro plaintext
    apply (keeps_createVersionKey P secretId random now).bind
    intro key
    apply Tx.Preserves.bind
    · apply Tx.preserves_write
      intro db db' h
      cases h
      exact Keeps.updateSecret db secretId _ _ (fun _ => rfl) (fun _ => rfl) (fun _ => rfl)
        fun _ _ => rfl
    · intro _
      apply Tx.Preserves.bind
      · apply Tx.preserves_write
        intro db db' h
        split at h
        · cases h
          exact Keeps.refl db
        · exact Keeps.updateTextVersion h
      · intro _
        exact Tx.preserves_pure _

theorem keeps_insertTextVersion (secretId : UUID) (version : ℕ) (plaintext : String)
    (actorId : UUID) (changeNote : Option String) (random : Random) (now : Timestamp) :
    (SecretVersions.insertTextVersion P secretId version plaintext actorId changeNote random
      now).Preserves (Keeps id) := by
  apply (keeps_createVersionKey P secretId random now).bind
  intro key
  apply Tx.Preserves.bind
  · apply Tx.preserves_write
    intro db db' h
    exact Keeps.insertSecretVersion h
  · intro _
    apply Tx.Preserves.bind
    · apply Tx.preserves_write
      intro db db' h
      cases h
      exact Keeps.updateSecret db secretId _ _ (fun _ => rfl) (fun _ => rfl) (fun _ => rfl)
        fun _ _ => rfl
    · intro _
      exact Tx.preserves_pure _

theorem keeps_updateTransaction (secretId : UUID) (body : SecretUpdate) (user : CurrentUser)
    (clientIp : String) (random : Random) (now : Timestamp) :
    (SecretVersions.updateTransaction P secretId body user clientIp random now).Preserves
      (Keeps id) := by
  apply (Tx.preserves_select _).bind
  intro row
  cases row with
  | none => exact Tx.preserves_throw _
  | some secret =>
    apply (Tx.preserves_ofExcept _).bind
    intro _
    apply (Tx.preserves_raiseIf _ _).bind
    intro _
    apply (Tx.preserves_raiseIf _ _).bind
    intro _
    apply (Tx.preserves_raiseIf _ _).bind
    intro _
    apply (Tx.preserves_raiseIf _ _).bind
    intro _
    apply (Tx.preserves_select _).bind
    intro currentKey
    apply (Tx.preserves_raiseIf _ _).bind
    intro _
    apply (keeps_insertTextVersion P _ _ _ _ _ _ _).bind
    intro keyVersion
    apply (keeps_logWith _ _).bind
    intro _
    exact Tx.preserves_pure _

theorem keeps_restoreTransaction (secretId : UUID) (version : ℤ) (user : CurrentUser)
    (clientIp : String) (random : Random) (now : Timestamp) :
    (SecretVersions.restoreTransaction P secretId version user clientIp random now).Preserves
      (Keeps id) := by
  apply (Tx.preserves_select _).bind
  intro row
  cases row with
  | none => exact Tx.preserves_throw _
  | some secret =>
    apply (Tx.preserves_ofExcept _).bind
    intro _
    apply (Tx.preserves_raiseIf _ _).bind
    intro _
    apply (Tx.preserves_select _).bind
    intro old
    cases old with
    | none => exact Tx.preserves_throw _
    | some old =>
      apply (Tx.preserves_raiseIf _ _).bind
      intro _
      apply (keeps_getDekForSecret P secretId _).bind
      intro dek
      apply (Tx.preserves_ofExcept _).bind
      intro plaintext
      apply (keeps_insertTextVersion P _ _ _ _ _ _ _).bind
      intro keyVersion
      apply (keeps_logWith _ _).bind
      intro _
      exact Tx.preserves_pure _

theorem keeps_policyTransaction (secretId : UUID) (body : LocationPolicyUpdate)
    (user : CurrentUser) (clientIp : String) (now : Timestamp) :
    (SecretAccess.policyTransaction P secretId body user clientIp now).Preserves (Keeps id) := by
  apply (Tx.preserves_select _).bind
  intro row
  cases row with
  | none => exact Tx.preserves_throw _
  | some secret =>
    apply (Tx.preserves_select _).bind
    intro policy
    cases policy with
    | none => exact Tx.preserves_throw _
    | some policy =>
      apply (Tx.preserves_ofExcept _).bind
      intro _
      apply Tx.Preserves.bind
      · apply Tx.preserves_write
        intro db db' h
        cases h
        exact Keeps.updatePolicies db _
      · intro _
        apply Tx.Preserves.bind
        · apply Tx.preserves_write
          intro db db' h
          cases h
          exact Keeps.updateSecret db secretId _ _ (fun _ => rfl) (fun _ => rfl) (fun _ => rfl)
            fun _ h => h
        · intro _
          apply (keeps_logWith _ _).bind
          intro _
          exact Tx.preserves_pure _

theorem keeps_deleteTransaction (secretId : UUID) (user : CurrentUser) (clientIp : String)
    (now : Timestamp) :
    (Secrets.deleteTransaction secretId user clientIp now).Preserves (Keeps id) := by
  apply (Tx.preserves_select _).bind
  intro row
  cases row with
  | none => exact Tx.preserves_throw _
  | some secret =>
    apply (Tx.preserves_ofExcept _).bind
    intro _
    apply (keeps_logWith _ _).bind
    intro _
    apply Tx.preserves_write
    intro db db' h
    cases h
    exact Keeps.deleteSecrets db now _

end Footprint

section Handlers
variable (P : Platform)

theorem only_updateSecret (id : UUID) (body : SecretUpdate) (user : CurrentUser)
    (clientIp : String) :
    (SecretVersions.updateSecret P id body user clientIp).Only (Touches Uncounted) := by
  apply Program.Only.bind
  · apply only_transaction
    intro choice now db version db' hrun
    exact ⟨rfl, fun _ => (keeps_updateTransaction P id body user clientIp _ now).run hrun⟩
  · intro newVersion
    exact only_clock.bind fun _ => Program.only_pure _

theorem only_restoreSecretVersion (id : UUID) (version : ℤ) (user : CurrentUser)
    (clientIp : String) :
    (SecretVersions.restoreSecretVersion P id version user clientIp).Only (Touches Uncounted) := by
  apply Program.Only.bind
  · apply only_transaction
    intro choice now db value db' hrun
    exact ⟨rfl, fun _ => (keeps_restoreTransaction P id version user clientIp _ now).run hrun⟩
  · intro newVersion
    exact only_clock.bind fun _ => Program.only_pure _

theorem only_rotateSecretKey (secretId : String) (user : CurrentUser) (clientIp : String) :
    (Secrets.rotateSecretKey P secretId user clientIp).Only (Touches Uncounted) := by
  apply (only_liftExcept _).bind
  intro id
  apply (only_query _ _).bind
  intro row
  cases row with
  | none => exact Program.only_throw _
  | some ownerId =>
    apply (only_liftExcept _).bind
    intro _
    apply Program.Only.bind
    · apply Program.Only.tryCatch
      · apply only_transaction
        intro choice now db value db' hrun
        exact ⟨rfl, fun _ => (keeps_rotateKey P id choice.random now).run hrun⟩
      · intro error
        exact Program.only_throw _
    · intro newVersion
      apply only_clock.bind
      intro now
      exact (only_auditLog _).bind fun _ => Program.only_pure _

theorem only_updateLocationPolicy (id : UUID) (body : LocationPolicyUpdate) (user : CurrentUser)
    (clientIp : String) :
    (SecretAccess.updateLocationPolicy P id body user clientIp).Only (Touches Uncounted) := by
  apply Program.Only.bind
  · apply only_transaction
    intro choice now db value db' hrun
    exact ⟨rfl, fun _ => (keeps_policyTransaction P id body user clientIp now).run hrun⟩
  · intro result
    exact Program.only_pure _

theorem only_deleteSecret (secretId : String) (user : CurrentUser) (clientIp : String) :
    (Secrets.deleteSecret P secretId user clientIp).Only (Touches Uncounted) := by
  apply (only_liftExcept _).bind
  intro id
  apply Program.Only.bind
  · apply only_transaction
    intro choice now db value db' hrun
    exact ⟨rfl, fun _ => (keeps_deleteTransaction id user clientIp now).run hrun⟩
  · intro _
    apply Program.Only.tryCatch
    · exact (only_reconcileUser _).bind fun _ => Program.only_pure _
    · intro error
      exact Program.only_pure _

end Handlers

/-- A retrieval counts one view of its secret and none of any other. -/
theorem counts_of_retrieve {P : Platform} {id : UUID} {policy : Option SecretAccessPolicy}
    {policyVersion : ℕ} {accessPassword : Option String} {clientIp : String}
    {currentUser : Option CurrentUser} {now : Timestamp} {db : Database} {seen : Secrets.Seen}
    {committed : Option Database}
    (h : (Secrets.retrieveTransaction P id policy policyVersion accessPassword clientIp currentUser
      now).run db = .ok (seen, committed)) :
    ∃ db', committed = some db' ∧ Counts id seen.secret.currentVersion db db' ∧
      ∀ other, other ≠ id → Keeps other db db' := by
  rcases Secrets.retrieveTransaction_ok h with
    ⟨hfind, _, hlt, _, viewedDb, logs, db', n, hinsert, hupdate, hcommitted⟩
  have hrows := viewRows_insertView hinsert
  have hfind' : viewedDb.secrets.find id = some seen.secret := by rw [hrows.2.1, hfind]
  have hcount := updateViewCount_ok
    (show ({ viewedDb with auditLogs := logs } : Database).secrets.find id = _ from hfind') hlt
    hupdate
  refine ⟨db', hcommitted, ⟨⟨seen.secret, hfind, hlt, hcount.1⟩, ?_, ?_⟩, ?_⟩
  · exact hcount.2.1.trans hrows.1
  · exact hcount.2.2.trans (by rw [tracked, hrows.2.2.1, tracked])
  · intro other hother
    have hlogged : Keeps other viewedDb { viewedDb with auditLogs := logs } :=
      Keeps.of_eq rfl rfl rfl rfl rfl
    exact ((Keeps.insertView (Ne.symm hother) hinsert).trans hlogged).trans
      (Keeps.updateViewCount (Ne.symm hother) hupdate)

/-- The checks before the transaction of a retrieval are quiet, and parse the id of the path. -/
theorem wp_authorizeRetrieval {β ρ α : Type} {P : Platform}
    {cond : View World ρ Exn α → Occurrence Label ρ Exn α → Prop} {read : Label → Option β}
    {A : World → Prop} {told : ρ → Except Exn α → List β → Prop}
    {K : Label → Database → Database → Prop} {pid : ℕ} {request : ρ} {v : View World ρ Exn α}
    {bs : List β} (quiet : Quiet read A K) {secretId : String} {token : Option String}
    {clientIp : String} (h : Wrote read pid request bs v) :
    (rules cond read A told).wp pid (Secrets.authorizeRetrieval P secretId token clientIp)
      (fun result v' => Wrote read pid request bs v' ∧
        ∀ ready, result = .ok ready → P.parseUuid secretId = some ready.1) v := by
  have hraise : ∀ (raised : Exn) v', Wrote read pid request bs v' →
      (rules cond read A told).wp pid (throw raised : Handler (UUID × ℕ))
        (fun result v' => Wrote read pid request bs v' ∧
          ∀ ready, result = .ok ready → P.parseUuid secretId = some ready.1) v' :=
    fun raised v' h' => ⟨h', fun _ hready => by cases hready⟩
  apply Rules.wp_tryCatch
  apply wp_liftExcept_bind
  · intro error _
    cases error <;> exact hraise _ v h
  · intro id' hid
    have hparse : P.parseUuid secretId = some id' := by
      unfold Security.uuidOfText at hid
      split at hid
      · rename_i hsome
        cases hid
        exact hsome
      · cases hid
    apply wp_quiet_then quiet (only_authorize P id' token clientIp) h
    · intro error v' h'
      cases error <;> exact hraise _ v' h'
    · intro policyVersion v' h' _
      refine ⟨h', ?_⟩
      intro ready hready
      cases hready
      exact hparse

/-! ### Runs -/

/-- What a delivered answer tells about the views of its process: a retrieval has counted one view
of what it returned, anything else none; a failure has counted no view of the secret. -/
def Told (P : Platform) (id : UUID) (request : TextRequest) (result : Except Exn TextResponse)
    (views : List (UUID × ℕ)) : Prop :=
  match result, request with
  | .ok value, .retrieve secretId _ _ _ _ => ∃ shownId content, P.parseUuid secretId = some shownId ∧
      value = .content content ∧ views = [(shownId, content.version)]
  | .ok _, _ => views = []
  | .error _, _ => ∀ version, (id, version) ∉ views

def textRules (P : Platform) (start : Database) (id : UUID) (first : Secret) :
    Rules World Label TextRequest Exn TextResponse :=
  rules (fun _ _ => True) viewed (Account start id first) (Told P id)

section Steps
variable {P : Platform} {start : Database} {id : UUID} {first : Secret} {pid : ℕ}
  {request : TextRequest} {v v' : View World TextRequest Exn TextResponse}

/-- What a retrieval leaves: one view of what it returned, or no view of the secret. -/
def RetrievePost (P : Platform) (id : UUID) (pid : ℕ) (request : TextRequest) (secretId : String) :
    Except Exn SecretContent → View World TextRequest Exn TextResponse → Prop
  | .ok content, v => v.Running pid request ∧ ∃ shownId, P.parseUuid secretId = some shownId ∧
      viewsBy pid v.shared = [(shownId, content.version)]
  | .error _, v => v.Running pid request ∧ ∀ version, (id, version) ∉ viewsBy pid v.shared

theorem failed_of_silent (h : Silent viewed pid request v) :
    v.Running pid request ∧ ∀ version, (id, version) ∉ viewsBy pid v.shared := by
  refine ⟨h.running, ?_⟩
  intro version
  rw [viewsBy, h.entries]
  exact List.not_mem_nil

/-- The only transaction of a retrieval. -/
theorem wp_retrieveTransaction {id' : UUID} {policy : Option SecretAccessPolicy}
    {policyVersion : ℕ} {accessPassword : Option String} {clientIp : String}
    {currentUser : Option CurrentUser} (h : Silent viewed pid request v) :
    (textRules P start id first).wp pid
      (transaction (.retrieve id' policyVersion (policy.map SecretAccessPolicy.policyVersion))
        (fun _ now => Secrets.retrieveTransaction P id' policy policyVersion accessPassword clientIp
          currentUser now)
        (fun seen => .retrieved id' (seen.content.getD "") seen.secret.currentVersion))
      (fun result v' => match result with
        | .ok seen => v'.Running pid request ∧
            viewsBy pid v'.shared = [(id', seen.secret.currentVersion)] ∧
              (id' = id → first.content.isSome → seen.content.isSome)
        | .error _ => Silent viewed pid request v') v := by
  apply wp_transaction rely_refl
  intro v₁ henv hinv _
  have h₁ := h.env henv
  constructor
  · intro error
    exact h₁
  · intro choice seen committed hrun
    rcases counts_of_retrieve hrun with ⟨db, rfl, hcounts, hothers⟩
    have hrecord : viewed (.retrieved id' (seen.content.getD "") seen.secret.currentVersion) =
        some (id', seen.secret.currentVersion) := rfl
    refine ⟨?_, h₁.running, h₁.written hrecord, ?_⟩
    · by_cases hid : id' = id
      · subst hid
        exact moves_commit hinv h₁.running (hinv.account.count hcounts hrecord)
      · apply moves_commit hinv h₁.running
        apply hinv.account.keep (hothers id (Ne.symm hid))
        intro version hview
        rw [hrecord] at hview
        cases hview
        exact hid rfl
    rintro rfl hfirst
    rcases Secrets.retrieveTransaction_ok hrun with ⟨hfind, _, _, hread, _⟩
    rcases (Secrets.readContent_ok hread).2 with ⟨_, hcontent, _⟩ | ⟨_, _, _, _, _, _, hcontent, _⟩
    · rw [hcontent]
      exact (hinv.account.row _ hfind).2.2.2 hfirst
    · rw [hcontent]
      rfl

theorem wp_retrieveSecret (hcontent : first.content.isSome) {secretId : String}
    {accessPassword token : Option String} {clientIp : String} {currentUser : Option CurrentUser}
    (h : Silent viewed pid request v) :
    (textRules P start id first).wp pid
      (Secrets.retrieveSecret P secretId accessPassword token clientIp currentUser)
      (RetrievePost P id pid request secretId) v := by
  apply Rules.wp_bind
  apply Rules.wp_mono (wp_authorizeRetrieval quiet h.wrote)
  rintro result v₁ ⟨hwrote, hparse⟩
  have h₁ := hwrote.silent
  cases result with
  | error error => exact failed_of_silent h₁
  | ok ready =>
    rcases ready with ⟨id', policyVersion⟩
    have hid : P.parseUuid secretId = some id' := hparse _ rfl
    simp only [Rules.orRaise]
    apply wp_query_bind rely_refl
    intro v₂ henv hinv _
    have h₂ := h₁.env henv
    refine ⟨failed_of_silent h₂, ?_⟩
    apply Rules.wp_bind
    apply Rules.wp_mono (wp_retrieveTransaction h₂)
    intro result v₃ hpost
    cases result with
    | error error => exact failed_of_silent hpost
    | ok seen =>
      rcases hpost with ⟨hrun, hviews, hsome⟩
      simp only [Rules.orRaise]
      cases hseen : seen.content with
      | none =>
        refine ⟨hrun, ?_⟩
        intro version hmem
        rw [hviews, List.mem_singleton] at hmem
        cases hmem
        have hbad := hsome rfl hcontent
        rw [hseen] at hbad
        cases hbad
      | some content => exact ⟨hrun, id', hid, hviews⟩

end Steps

section Proof
variable {P : Platform} {start : Database} {id : UUID} {first : Secret}

/-- A request whose steps count no view may deliver any answer. -/
theorem wp_uncounted {pid : ℕ} {request : TextRequest} {v : View World TextRequest Exn TextResponse}
    {γ : Type} {p : Handler γ} {f : γ → TextResponse} (hp : p.Only (Touches Uncounted))
    (h : Silent viewed pid request v)
    (hrequest : ∀ secretId accessPassword token clientIp currentUser,
      request ≠ .retrieve secretId accessPassword token clientIp currentUser) :
    (textRules P start id first).wp pid (f <$> p) ((textRules P start id first).Finishing pid) v := by
  apply Rules.wp_map
  apply Rules.wp_mono (wp_quiet quiet hp h)
  intro result v' h'
  apply finishing h'.running
  cases result with
  | error error => exact (failed_of_silent h').2
  | ok value =>
    cases request with
    | retrieve secretId accessPassword token clientIp currentUser =>
      exact (hrequest _ _ _ _ _ rfl).elim
    | _ => exact h'.entries

theorem valid (hcontent : first.content.isSome) :
    (textRules P start id first).Valid (textSystem P) := by
  apply valid_of_requests fun _ _ => rfl
  intro pid request _ v _ h
  cases request with
  | retrieve secretId accessPassword token clientIp currentUser =>
    apply Rules.wp_map
    apply Rules.wp_mono (wp_retrieveSecret hcontent h)
    intro result v' hpost
    cases result with
    | error error => exact finishing hpost.1 hpost.2
    | ok content =>
      rcases hpost with ⟨hrun, shownId, hparse, hviews⟩
      exact finishing hrun ⟨shownId, content, hparse, rfl, hviews⟩
  | update id' body user clientIp =>
    exact wp_uncounted (only_updateSecret P id' body user clientIp) h (by simp)
  | restore id' version user clientIp =>
    exact wp_uncounted (only_restoreSecretVersion P id' version user clientIp) h (by simp)
  | rotateKey secretId user clientIp =>
    exact wp_uncounted (only_rotateSecretKey P secretId user clientIp) h (by simp)
  | updatePolicy id' body user clientIp =>
    exact wp_uncounted (only_updateLocationPolicy P id' body user clientIp) h (by simp)
  | delete secretId user clientIp =>
    exact wp_uncounted (only_deleteSecret P secretId user clientIp) h (by simp)
  | wait => exact wp_uncounted only_tick h (by simp)

end Proof

/-- The processes whose retrieval of the secret has returned its content. -/
def retrievals (P : Platform) (id : UUID) (v : View World TextRequest Exn TextResponse) : List ℕ :=
  (List.range v.tasks.length).filter fun pid =>
    match v.tasks[pid]? with
    | some (.retrieve secretId _ _ _ _, .finished (.ok _)) => P.parseUuid secretId = some id
    | _ => false

/-- The views of a text secret add up: `first` is its row in the tables that a run starts from. -/
structure Accounted (P : Platform) (start : Database) (id : UUID) (first : Secret)
    (v : View World TextRequest Exn TextResponse) : Prop where
  at_most : (retrievals P id v).length ≤ first.maxViews
  success : ∀ (pid : ℕ) secretId accessPassword token clientIp currentUser response,
    v.tasks[pid]? = some (.retrieve secretId accessPassword token clientIp currentUser,
      .finished (.ok response)) → P.parseUuid secretId = some id →
    ∃ content, response = .content content ∧ viewsBy pid v.shared = [(id, content.version)]
  failure : ∀ (pid : ℕ) request error, v.tasks[pid]? = some (request, .finished (.error error)) →
    ∀ version, (id, version) ∉ viewsBy pid v.shared
  count : ∀ s, v.shared.db.secrets.find id = some s →
    s.viewCount = first.viewCount + (viewsOf id v.shared).length
  rows : viewRows id v.shared.db =
    viewRows id start ++ if tracked id start then viewsOf id v.shared else []
  tracked : tracked id v.shared.db = tracked id start
  burned : viewsOf id v.shared ≠ [] →
    first.viewCount + (viewsOf id v.shared).length = first.maxViews → Gone id v.shared.db

/-- Each retrieval that returned has committed a view of its own. -/
theorem retrievals_le {P : Platform} {id : UUID} {v : View World TextRequest Exn TextResponse}
    (h : v.Delivered fun pid request result w => Told P id request result (viewsBy pid w)) :
    (retrievals P id v).length ≤ (viewsOf id v.shared).length := by
  apply length_le_viewsOf (List.nodup_range.filter _)
  intro pid hpid
  have hreturned := (List.mem_filter.mp hpid).2
  split at hreturned
  · rename_i secretId _ _ _ _ value hget
    rw [decide_eq_true_eq] at hreturned
    rcases h pid _ _ hget with ⟨shownId, content, hparse, _, hviews⟩
    rw [hreturned, Option.some.injEq] at hparse
    subst hparse
    exact ⟨content.version, by simp [hviews]⟩
  · cases hreturned

/-- In every run, the retrievals of a text secret are accounted for. -/
theorem retrieve_accounted (P : Platform) (start : Database) (redis : Redis)
    (objects : Table StoredObject.key) (now : Timestamp) (id : UUID) (first : Secret)
    (hfind : start.secrets.find id = some first)
    (hcontent : first.content.isSome) (hcount : 0 ≤ first.viewCount)
    (hbound : first.viewCount ≤ first.maxViews)
    (c : Pool World Choice Label TextRequest Exn TextResponse)
    (run : (textSystem P).Run (fun _ _ => True) (Pool.init (worldOf start redis objects now)) c) :
    Accounted P start id first c.view := by
  have hinv : Inv viewed (Account start id first) (Told P id) c.view :=
    (valid hcontent).inv_of_run (inv_initial rfl (account_initial rfl rfl hfind hbound)) run
  constructor
  · have hle := retrievals_le hinv.delivered
    have hviews := hinv.account.bound
    omega
  · intro pid secretId accessPassword token clientIp currentUser response hget hparse
    rcases hinv.delivered pid _ _ hget with ⟨shownId, content, hshown, hresponse, hviews⟩
    rw [hparse, Option.some.injEq] at hshown
    subst hshown
    exact ⟨content, hresponse, hviews⟩
  · intro pid request error hget
    exact hinv.delivered pid request _ hget
  · intro s hs
    exact (hinv.account.row s hs).1
  · exact hinv.account.rows
  · exact hinv.account.tracked
  · exact hinv.account.burned

section Sample

/-- A text that the client encrypted, for one view. -/
def sampleText : Secret where
  id := 7
  content := some "c2VjcmV0"
  nonce := some "bm9uY2U="
  passwordProtected := false
  accessPasswordHash := none
  ttlHours := 24
  createdAt := 0
  expiresAt := hours 24
  viewed := false
  ownerId := some 1
  maxViews := 1
  viewCount := 0
  signedToken := none
  notifyOnView := false
  notifyEmail := none
  webhookUrl := none
  emailRestricted := false
  currentVersion := 1
  updatedAt := 0
  payloadType := .text

def sampleTables : Database :=
  { Database.empty with
    users := sampleUsers
    secrets := ⟨[sampleText], List.nodup_singleton _⟩
    secretTracking := .single ⟨7, 1, days 30⟩
    secretAccessPolicies := .single ⟨7, [], [], .all, true, 1, 0⟩ }

def sampleRetrieval : TextRequest :=
  .retrieve (samplePlatform.uuidText 7) none none "203.0.113.9" none

/-- Two retrievals of a secret with one view: the second finds it gone. -/
theorem retrieve_accounted_sample :
    ∃ c : Pool World Choice Label TextRequest Exn TextResponse,
      retrievals samplePlatform 7 c.view = [0] ∧
      Accounted samplePlatform sampleTables 7 sampleText c.view := by
  rcases (textSystem samplePlatform).exists_run (fun _ _ => True)
      (Pool.init (worldOf sampleTables .empty .empty 0))
      (.start sampleRetrieval :: .start sampleRetrieval ::
        List.replicate 3 (.act 1 {}) ++ List.replicate 5 (.act 0 {}) ++ List.replicate 2 (.act 1 {}))
      (fun v => retrievals samplePlatform 7 v = [0]) (by decide +kernel) with ⟨c, run, h⟩
  refine ⟨c, by simpa using h, ?_⟩
  exact retrieve_accounted samplePlatform sampleTables .empty .empty 0 7 sampleText (by decide +kernel)
    (by decide) (by decide) (by decide) c run

end Sample

end PhantomShare.Burn
