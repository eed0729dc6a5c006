import PhantomShare.Access.Location
import PhantomShare.Foundations.Chronicle
import PhantomShare.Foundations.Decides
import PhantomShare.Lifecycle.Transactions
import PhantomShare.Outlines

/-!
# A policy update and the requests in flight

A request is authorised under one version of the location policy and reads the
version again in the statement that locks the secret. The lock covers the row of
the secret only: while the statement waits for it, the policy row that it has
read may be replaced. As long as no update commits in that time, the comparison
finds every version that has been superseded.
-/
namespace PhantomShare.Access
open Foundations

inductive PolicyRequest where
  | update (secretId : UUID) (body : LocationPolicyUpdate) (user : CurrentUser) (clientIp : String)
  | retrieve (secretId : String) (accessPassword token : Option String) (clientIp : String)
      (currentUser : Option CurrentUser)
  | download (secretId : UUID) (token accessPassword : Option String) (clientIp : String)
      (currentUser : Option CurrentUser)
  | wait
  deriving DecidableEq

inductive PolicyResponse where
  | policy (response : LocationPolicyResponse)
  | text (content : SecretContent)
  | file (response : FileResponse)
  | noContent

def servePolicy (P : Platform) : PolicyRequest → Handler PolicyResponse
  | .update secretId body user clientIp =>
    PolicyResponse.policy <$> SecretAccess.updateLocationPolicy P secretId body user clientIp
  | .retrieve secretId accessPassword token clientIp currentUser =>
    PolicyResponse.text <$>
      Secrets.retrieveSecret P secretId accessPassword token clientIp currentUser
  | .download secretId token accessPassword clientIp currentUser =>
    PolicyResponse.file <$>
      Files.downloadFileSecret P secretId token accessPassword clientIp currentUser
  | .wait => (fun _ => PolicyResponse.noContent) <$> tick

def policySystem (P : Platform) : System World Choice Label PolicyRequest Exn PolicyResponse where
  serve := servePolicy P
  recover _ w := w

/-- What a statement that locks a secret compares: the secret, the policy version that the request
was authorised under, and the one that the statement has read. -/
def recheck : Label → Option (UUID × ℕ × Option ℕ)
  | .retrieve secretId policyVersion seenVersion => some (secretId, policyVersion, seenVersion)
  | .download secretId _ policyVersion seenVersion _ => some (secretId, policyVersion, seenVersion)
  | _ => none

/-- The lock is obtained after an update to a later policy version has committed. -/
def superseded (label : Label) (db : Database) : Bool :=
  (recheck label).any fun (secretId, policyVersion, _) =>
    (db.secretAccessPolicies.find secretId).any fun policy => policyVersion < policy.policyVersion

/-- The kind of lock whose comparison fails. -/
def Recognised (label : Label) (_ : World) : Prop := ∃ secretId policyVersion seenVersion,
  recheck label = some (secretId, policyVersion, seenVersion) ∧ seenVersion ≠ some policyVersion

/-! ### What precedes the lock -/

section Steps
variable {P : Platform} {α : Type} {label : Label}

/-- A step that does not lock the secret. -/
def Unlocking (_ : ℕ) (label : Label) (_ _ : World) : Prop := recheck label = none

theorem only_step {act : ℕ → World → Choice → Option (World × Except Exn α)}
    (h : recheck label = none) : (Program.perform label act).Only Unlocking := by
  apply Program.only_perform
  intro _ _ _ _ _ _
  exact h

theorem only_condition (bad : Bool) (error : Exn) : (raiseIf bad error).Only Unlocking := by
  cases bad with
  | true => exact Program.only_throw error
  | false => exact Program.only_pure ()

theorem only_authorization (secretId : UUID) (token : Option String) (clientIp : String) :
    (LocationPolicy.authorize P secretId token clientIp).Only Unlocking := by
  apply (only_step rfl).bind
  intro row
  cases row with
  | none => exact Program.only_throw _
  | some policy =>
    apply (only_step rfl).bind
    intro now
    apply (Program.only_ofExcept _).bind
    intro _
    apply (Program.only_ofExcept _).bind
    intro verdict
    cases verdict.allowed with
    | true => exact Program.only_pure _
    | false =>
      apply Program.Only.bind
      · apply Program.Only.bind
        · exact (only_step rfl).tryCatch fun _ => Program.only_pure _
        · intro _
          exact Program.only_throw _
      · intro _
        exact Program.only_pure _

theorem only_authorizationOfText (secretId : String) (token : Option String) (clientIp : String) :
    (Secrets.authorizeRetrieval P secretId token clientIp).Only Unlocking := by
  apply Program.Only.tryCatch
  · apply (Program.only_ofExcept _).bind
    intro id
    exact (only_authorization id token clientIp).map
  · intro error
    cases error <;> exact Program.only_throw _

theorem only_permission (secret : Secret) (password : Option String)
    (currentUser : Option CurrentUser) :
    (Files.authorize P secret password currentUser).Only Unlocking := by
  apply Program.Only.bind
  · unfold Files.checkRecipient
    split
    · cases currentUser with
      | none => exact Program.only_throw _
      | some user =>
        apply (only_condition _ _).bind
        intro _
        apply (only_step rfl).bind
        intro allowed
        exact only_condition _ _
    · exact Program.only_pure ()
  · intro _
    exact only_condition _ _

/-- Locks of a kind come from the locking statements only. -/
theorem Unlocking.avoids {B : Label → World → Prop} {p : Handler α}
    (hB : ∀ label w, B label w → recheck label ≠ none) (hp : p.Only Unlocking) :
    p.Only fun _ label w _ => ¬ B label w := by
  apply hp.mono
  intro _ label w _ hnone hkind
  exact hB label w hkind hnone

end Steps

/-! ### The lock -/

section Locks
variable {P : Platform} {policy : Option SecretAccessPolicy} {policyVersion : ℕ}

/-- A locking transaction that raises whenever its lock is of the kind. -/
theorem stops_transaction {α : Type} {B : Label → World → Prop} {label : Label}
    {body : Choice → Timestamp → Tx Database Exn α} {record : α → Label}
    (h : ∀ w choice, B label w → ((body choice w.now).run w.db).isOk = false) :
    (transaction label body record).Stops B := by
  apply Program.stops_perform
  intro pid w choice w' r hact hB
  have hraises := h w choice hB
  by_cases hfails : choice.fails = true
  · simp only [if_pos hfails, Option.some.injEq, Prod.mk.injEq] at hact
    rw [← hact.2]
    rfl
  · simp only [if_neg hfails] at hact
    cases hrun : (body choice w.now).run w.db with
    | error error =>
      simp only [hrun, Option.some.injEq, Prod.mk.injEq] at hact
      rw [← hact.2]
      rfl
    | ok result =>
      rw [hrun] at hraises
      cases hraises

theorem retrieveTransaction_raises {id : UUID} {accessPassword : Option String}
    {clientIp : String} {currentUser : Option CurrentUser} {now : Timestamp} {db : Database}
    (h : policy.map SecretAccessPolicy.policyVersion ≠ some policyVersion) :
    ((Secrets.retrieveTransaction P id policy policyVersion accessPassword clientIp currentUser
      now).run db).isOk = false := by
  rw [Tx.run_isOk, Secrets.retrieveTransaction, Tx.select_bind]
  cases db.secrets.find id with
  | none => rfl
  | some secret =>
    cases policy with
    | none => rfl
    | some policy =>
      have hne : policy.policyVersion ≠ policyVersion := by simpa using h
      simp only [Tx.raiseIf_bind_isOk, hne, ne_eq, not_false_eq_true, decide_true, Bool.not_true,
        Bool.false_and]

theorem downloadTransaction_raises {secretId : UUID} {version : ℕ} {encrypted : Bytes}
    {clientIp : String} {currentUser : Option CurrentUser} {now : Timestamp} {db : Database}
    (h : policy.map SecretAccessPolicy.policyVersion ≠ some policyVersion) :
    ((Files.downloadTransaction P secretId policy version policyVersion encrypted clientIp currentUser
      now).run db).isOk = false := by
  cases hrun : (Files.downloadTransaction P secretId policy version policyVersion encrypted clientIp
      currentUser now).run db with
  | error error => rfl
  | ok result =>
    have havailable := (Files.downloadTransaction_ok hrun).2.2.1
    rw [Files.available, Bool.and_eq_true, decide_eq_true_eq] at havailable
    exact (h havailable.1).elim

theorem stops_retrieveSecret {B : Label → World → Prop} (secretId : String)
    (accessPassword token : Option String) (clientIp : String) (currentUser : Option CurrentUser)
    (hB : ∀ label w, B label w → recheck label ≠ none)
    (hlock : ∀ id policyVersion (policy : Option SecretAccessPolicy) w,
      B (.retrieve id policyVersion (policy.map SecretAccessPolicy.policyVersion)) w →
        ((Secrets.retrieveTransaction P id policy policyVersion accessPassword clientIp currentUser
          w.now).run w.db).isOk = false) :
    (Secrets.retrieveSecret P secretId accessPassword token clientIp currentUser).Stops B := by
  apply (Unlocking.avoids hB (only_authorizationOfText secretId token clientIp)).stops.bind
  rintro ⟨id, policyVersion⟩
  apply (Unlocking.avoids hB (only_step rfl)).stops.bind
  intro policy
  apply Program.Stops.bind
  · apply stops_transaction
    exact fun w _ => hlock id policyVersion policy w
  · intro seen
    cases seen.content with
    | none => exact Program.stops_throw _
    | some content => exact Program.stops_pure _

/-- A locking transaction decides when it is the last step. -/
theorem decides_transaction {α : Type} {B : Label → World → Prop} {G : Label → World → Choice → Prop}
    {label : Label} {body : Choice → Timestamp → Tx Database Exn α} {record : α → Label}
    (h : ∀ w choice, B label w →
      (choice.fails = false ∧ ((body choice w.now).run w.db).isOk = true ↔ G label w choice)) :
    (transaction label body record).Decides B G := by
  apply Program.decides_perform
  intro pid w choice w' r hact hB
  rw [← h w choice hB]
  cases hfails : choice.fails with
  | true =>
    simp only [hfails, if_true, Option.some.injEq, Prod.mk.injEq] at hact
    rw [← hact.2]
    simp [Except.isOk, Except.toBool]
  | false =>
    simp only [hfails, Bool.false_eq_true, if_false] at hact
    cases hrun : (body choice w.now).run w.db with
    | error error =>
      simp only [hrun, Option.some.injEq, Prod.mk.injEq] at hact
      rw [← hact.2]
      simp [Except.isOk, Except.toBool]
    | ok result =>
      rcases result with ⟨value, _ | db⟩
      all_goals
        simp only [hrun, Option.some.injEq, Prod.mk.injEq] at hact
        rw [← hact.2]
        simp [Except.isOk, Except.toBool]

theorem decides_downloadFileSecret {B : Label → World → Prop} {G : Label → World → Choice → Prop}
    (secretId : UUID) (token accessPassword : Option String) (clientIp : String)
    (currentUser : Option CurrentUser) (hB : ∀ label w, B label w → recheck label ≠ none)
    (hlock : ∀ version policyVersion (policy : Option SecretAccessPolicy) encrypted w choice,
      let label := Label.download secretId version policyVersion
        (policy.map SecretAccessPolicy.policyVersion) encrypted
      B label w → (choice.fails = false ∧ ((Files.downloadTransaction P secretId policy version
        policyVersion encrypted clientIp currentUser w.now).run w.db).isOk = true ↔
          G label w choice)) :
    (Files.downloadFileSecret P secretId token accessPassword clientIp currentUser).Decides B G := by
  apply (Unlocking.avoids hB (only_authorization secretId token clientIp)).decides_bind
  intro policyVersion
  apply (Unlocking.avoids hB (only_step rfl)).decides_bind
  intro row
  cases row with
  | none => exact Program.decides_throw _
  | some found =>
    apply (Unlocking.avoids hB (only_permission found.secret accessPassword currentUser)).decides_bind
    intro _
    apply (Unlocking.avoids hB (only_condition _ _)).decides_bind
    intro _
    apply (Unlocking.avoids hB (only_step rfl)).decides_bind
    intro now
    apply (Unlocking.avoids hB (only_condition _ _)).decides_bind
    intro _
    apply (Unlocking.avoids hB (only_step rfl)).decides_bind
    intro stored
    cases stored with
    | none => exact Program.decides_throw _
    | some versionRow =>
      cases hkey : versionRow.objectKey with
      | none =>
        simp only [hkey]
        exact Program.decides_throw _
      | some objectKey =>
        simp only [hkey]
        apply (Unlocking.avoids hB (only_step rfl)).decides_bind
        intro encrypted
        apply (Unlocking.avoids hB (only_step rfl)).decides_bind
        intro policy
        apply Program.Decides.map
        apply decides_transaction
        exact fun w choice => hlock found.secret.currentVersion policyVersion policy encrypted w choice

theorem recheck_of_recognised (label : Label) (w : World) (h : Recognised label w) :
    recheck label ≠ none := by
  rcases h with ⟨_, _, _, hsome, _⟩
  simp [hsome]

theorem stops_servePolicy (request : PolicyRequest) :
    (servePolicy P request).Stops Recognised := by
  cases request with
  | update secretId body user clientIp =>
    apply Program.Stops.map
    apply (Unlocking.avoids recheck_of_recognised (only_step rfl)).stops.bind
    intro updated
    exact Program.stops_pure _
  | retrieve secretId accessPassword token clientIp currentUser =>
    apply Program.Stops.map
    apply stops_retrieveSecret _ _ _ _ _ recheck_of_recognised
    rintro id policyVersion policy w ⟨_, _, _, hrecheck, hne⟩
    cases hrecheck
    exact retrieveTransaction_raises hne
  | download secretId token accessPassword clientIp currentUser =>
    apply Program.Stops.map
    rw [← Program.decides_iff_stops (G := fun _ _ _ => False) fun _ _ _ h => h]
    apply decides_downloadFileSecret _ _ _ _ _ recheck_of_recognised
    rintro version policyVersion policy encrypted w choice _ ⟨_, _, _, hrecheck, hne⟩
    cases hrecheck
    simp [downloadTransaction_raises hne]
  | wait => exact (Unlocking.avoids recheck_of_recognised (only_step rfl)).stops.map

end Locks

/-- The process has been answered with a value. -/
def Returned (pid : ℕ) (v : View World PolicyRequest Exn PolicyResponse) : Prop :=
  ∃ request value, v.tasks[pid]? = some (request, .finished (.ok value))

/-! ### What happens before the lock -/

/-- The actions of a process. -/
abbrev Past := List (Action World Choice Label)

/-- No update of the policy commits on the way from one state to a later one. -/
def Undisturbed (secretId : UUID) (w w' : World) : Prop :=
  ∀ entry ∈ w'.commits.drop w.commits.length, entry.2 ≠ .updatePolicy secretId

instance (secretId : UUID) (w w' : World) : Decidable (Undisturbed secretId w w') :=
  inferInstanceAs (Decidable (∀ entry ∈ _, _))

/-- The policy is as it was, or gone. -/
def Stays (secretId : UUID) (db db' : Database) : Prop :=
  db'.secretAccessPolicies.find secretId = db.secretAccessPolicies.find secretId ∨
    db'.secretAccessPolicies.find secretId = none

/-- Commits are added, and only updates change a policy. -/
structure Later (w w' : World) : Prop where
  commits : w.commits <+: w'.commits
  policy : ∀ secretId, Undisturbed secretId w w' → Stays secretId w.db w'.db

theorem Later.refl (w : World) : Later w w := ⟨List.prefix_rfl, fun _ _ => .inl rfl⟩

theorem Later.trans {w₁ w₂ w₃ : World} (h : Later w₁ w₂) (h' : Later w₂ w₃) : Later w₁ w₃ := by
  refine ⟨h.commits.trans h'.commits, ?_⟩
  intro secretId hundisturbed
  obtain ⟨more, hmore⟩ := h.commits
  obtain ⟨more', hmore'⟩ := h'.commits
  rw [Undisturbed, ← hmore', ← hmore, List.append_assoc, List.drop_left] at hundisturbed
  have hfirst : Stays secretId w₁.db w₂.db := by
    apply h.policy
    rw [Undisturbed, ← hmore, List.drop_left]
    exact fun entry hentry => hundisturbed entry (List.mem_append_left _ hentry)
  have hsecond : Stays secretId w₂.db w₃.db := by
    apply h'.policy
    rw [Undisturbed, ← hmore', List.drop_left]
    exact fun entry hentry => hundisturbed entry (List.mem_append_right _ hentry)
  rcases hsecond with hsame | hgone
  · rw [Stays, hsame]
    exact hfirst
  · exact .inr hgone

/-- A bound on steps: time goes on. -/
def Onward (_ : ℕ) (_ : Label) (w w' : World) : Prop := Later w w'

section Onward
variable {P : Platform} {pid : ℕ} {w : World} {label step : Label} {id : UUID}
  {db db' : Database}

theorem Later.commit (h : ∀ secretId, label ≠ .updatePolicy secretId → Stays secretId w.db db) :
    Onward pid step w (w.commit pid label db) := by
  refine ⟨List.prefix_append _ _, ?_⟩
  intro secretId hundisturbed
  apply h
  apply hundisturbed (pid, label)
  simp

theorem Stays.of_record (h : Lifecycle.record id db' = Lifecycle.record id db) : Stays id db db' :=
  .inl (congrArg Lifecycle.Record.policy h)

theorem still_onward : Still Onward := by
  intro pid label w w' hcalm
  refine ⟨by rw [hcalm.commits], fun secretId _ => ?_⟩
  rw [hcalm.db]
  exact .inl rfl

theorem logs_onward : Logs Onward := by
  intro pid w entry db hinsert
  exact Later.commit fun _ _ => .of_record (Lifecycle.record_insertAuditLog hinsert)

/-- A view keeps the policy, or deletes it with the secret. -/
theorem stays_view {s : Secret} {view : SecretView} {n : ℕ} {now : Timestamp} {viewed : Bool}
    {viewedDb loggedDb : Database} (hs : db.secrets.find id = some s) (hid : view.secretId = id)
    (hinsert : db.insertView view = .ok (n, viewedDb))
    (hlogged : ∀ id, Lifecycle.record id loggedDb = Lifecycle.record id viewedDb)
    (hupdate : loggedDb.updateViewCount now id (s.viewCount + 1) viewed = .ok db')
    (secretId : UUID) : Stays secretId db db' := by
  have hrecord := (Lifecycle.record_insertView hid hinsert).2
  by_cases hother : secretId = id
  · subst hother
    have hsecret : (Lifecycle.record secretId loggedDb).secret = some s := by
      rw [hlogged, hrecord, Lifecycle.Record.addView_eq]
      exact hs
    have hresult := congrArg Lifecycle.Record.policy
      (Lifecycle.record_updateViewCount hsecret hupdate).2
    by_cases hlast : s.maxViews ≤ s.viewCount + 1
    · rw [if_pos hlast] at hresult
      exact .inr hresult
    · rw [if_neg hlast, Lifecycle.Record.mapSecret_policy, hlogged, hrecord,
        Lifecycle.Record.addView_eq] at hresult
      exact .inl hresult
  · apply Stays.of_record
    rw [Lifecycle.Apart.updateViewCount hupdate secretId hother, hlogged,
      Lifecycle.Apart.insertView hid hinsert secretId hother]

theorem stays_retrieve {policy : Option SecretAccessPolicy} {policyVersion : ℕ}
    {accessPassword : Option String} {clientIp : String} {currentUser : Option CurrentUser}
    {now : Timestamp} {seen : Secrets.Seen} (h : (Secrets.retrieveTransaction P id policy
      policyVersion accessPassword clientIp currentUser now).run db = .ok (seen, some db'))
    (secretId : UUID) : Stays secretId db db' := by
  obtain ⟨hs, _, _, _, viewedDb, logs, final, n, hinsert, hupdate, heq⟩ :=
    Secrets.retrieveTransaction_ok h
  cases heq
  have hlogged : ∀ id, Lifecycle.record id { viewedDb with auditLogs := logs } =
      Lifecycle.record id viewedDb := fun _ => rfl
  exact stays_view hs rfl hinsert hlogged hupdate secretId

theorem stays_download {policy : Option SecretAccessPolicy} {version policyVersion : ℕ}
    {encrypted : Bytes} {clientIp : String} {currentUser : Option CurrentUser} {now : Timestamp}
    {opened : Files.Opened} (h : (Files.downloadTransaction P id policy version policyVersion
      encrypted clientIp currentUser now).run db = .ok (opened, some db')) (secretId : UUID) :
    Stays secretId db db' := by
  obtain ⟨hs, _, _, _, viewedDb, n, updated, metadata, hinsert, hupdate, hcommitted⟩ :=
    Files.downloadTransaction_ok h
  have hstays : Stays secretId db updated := stays_view hs rfl hinsert (fun _ => rfl) hupdate secretId
  have hlogged := congrArg Lifecycle.Record.policy
    (Lifecycle.record_logged (c := ⟨updated, false⟩) hcommitted secretId)
  exact hstays.imp hlogged.trans hlogged.trans

/-- An update changes the policy of its own secret. -/
theorem stays_policy {body : LocationPolicyUpdate} {user : CurrentUser} {clientIp : String}
    {now : Timestamp} : (SecretAccess.policyTransaction P id body user clientIp now).Ensures db
      fun _ db' => ∀ secretId, secretId ≠ id → Stays secretId db db' := by
  apply Tx.ensures_select_bind
  cases db.secrets.find id with
  | none => exact Tx.ensures_throw _
  | some s =>
    apply Tx.ensures_select_bind
    cases db.secretAccessPolicies.find id with
    | none => exact Tx.ensures_throw _
    | some policy =>
      apply Tx.ensures_ofExcept_bind
      intro _ _
      apply Tx.ensures_write_bind
      intro db₁ hmodify
      cases hmodify
      apply Tx.ensures_write_bind
      intro db₂ hupdate
      cases hupdate
      apply Tx.ensures_quietly_bind
      · exact Tx.sticky_pure _
      intro db₃ hlog
      apply Tx.ensures_pure
      intro secretId hother
      apply Stays.of_record
      rw [Lifecycle.record_insertAuditLog hlog]
      exact ((Lifecycle.Apart.updatePolicy _ _).trans (.updateSecret _ _)) secretId hother

theorem only_servePolicy (request : PolicyRequest) : (servePolicy P request).Only Onward := by
  have hlog : ∀ entry, (AuditService.log entry).Only Onward :=
    still_onward.only_auditLog logs_onward
  cases request with
  | update secretId body user clientIp =>
    apply Program.Only.map
    apply still_onward.only_updateLocationPolicy
    intro pid w result db hrun
    apply Later.commit
    intro other hother
    apply stays_policy.run hrun
    rintro rfl
    exact hother rfl
  | retrieve secretId accessPassword token clientIp currentUser =>
    apply Program.Only.map
    apply still_onward.only_retrieveSecret fun entry _ => hlog entry
    intro pid w id policy policyVersion seen db hrun
    exact Later.commit fun other _ => stays_retrieve hrun other
  | download secretId token accessPassword clientIp currentUser =>
    apply Program.Only.map
    apply still_onward.only_downloadFileSecret fun entry _ => hlog entry
    intro pid w policy version policyVersion encrypted opened db hrun
    exact Later.commit fun other _ => stays_download hrun other
  | wait => exact still_onward.only_tick.map

end Onward

/-! ### Snapshots -/

/-- The statement that locks the secret has read the policy in the action before. -/
def Snapshot (past : Past) (secretId : UUID) (policy : Option SecretAccessPolicy) : Prop :=
  ∃ snapshot, past.getLast? = some snapshot ∧ snapshot.label = .lockedPolicy secretId ∧
    policy = snapshot.before.db.secretAccessPolicies.find secretId

/-- An action that locks a secret compares with the policy of its snapshot, and takes place later. -/
def Compares (past : Past) (lock : Action World Choice Label) : Prop :=
  ∀ secretId policyVersion seenVersion,
    recheck lock.label = some (secretId, policyVersion, seenVersion) →
      ∃ snapshot, past.getLast? = some snapshot ∧ snapshot.label = .lockedPolicy secretId ∧
        seenVersion = (snapshot.before.db.secretAccessPolicies.find secretId).map
          SecretAccessPolicy.policyVersion ∧
        Later snapshot.before lock.before

/-- A process acts in states that come after its actions. -/
abbrev Ordered : Past → World → Prop := System.Situated (fun _ => True) Later

section Snapshots
variable {P : Platform} {pid : ℕ} {past : Past} {α : Type} {secretId : UUID}

theorem accounts_unlocking {p : Handler α} (hp : p.Only Unlocking) :
    p.Accounts pid Ordered Compares (fun _ _ => True) past := by
  apply hp.accounts
  intro _ action _ hnone secretId policyVersion seenVersion hsome
  rw [show recheck action.label = none from hnone] at hsome
  cases hsome

theorem accounts_snapshot (secretId : UUID) :
    (query (.lockedPolicy secretId) fun _ db => db.secretAccessPolicies.find secretId).Accounts pid
      Ordered Compares (fun past policy => Snapshot past secretId policy) past := by
  apply Program.accounts_perform
  intro w choice w' r _ hact
  constructor
  · rintro _ _ _ hsome
    cases hsome
  · rintro policy rfl
    refine ⟨_, List.getLast?_concat, rfl, ?_⟩
    cases hfails : choice.fails <;> simp only [hfails, if_true, Bool.false_eq_true, if_false,
      Option.some.injEq, Prod.mk.injEq, Except.ok.injEq, reduceCtorEq, and_false] at hact
    exact hact.2.symm

theorem accounts_lock {label : Label} {body : Choice → Timestamp → Tx Database Exn α}
    {record : α → Label} {policy : Option SecretAccessPolicy} {policyVersion : ℕ}
    (hsnapshot : Snapshot past secretId policy)
    (hlabel : recheck label =
      some (secretId, policyVersion, policy.map SecretAccessPolicy.policyVersion)) :
    (transaction label body record).Accounts pid Ordered Compares (fun _ _ => True) past := by
  apply Program.accounts_perform
  intro w choice w' r hordered _
  refine ⟨?_, fun _ _ => trivial⟩
  intro _ _ _ hsome
  obtain ⟨snapshot, hlast, hread, rfl⟩ := hsnapshot
  rw [hlabel] at hsome
  cases hsome
  exact ⟨snapshot, hlast, hread, rfl, hordered.2 snapshot (List.mem_of_getLast? hlast)⟩

theorem accounts_map {α β : Type} {f : α → β} {p : Handler α}
    (hp : p.Accounts pid Ordered Compares (fun _ _ => True) past) :
    (f <$> p).Accounts pid Ordered Compares (fun _ _ => True) past :=
  hp.bind fun _ _ _ _ => Program.accounts_pure trivial

theorem accounts_retrieveSecret (secretId : String) (accessPassword token : Option String)
    (clientIp : String) (currentUser : Option CurrentUser) :
    (Secrets.retrieveSecret P secretId accessPassword token clientIp currentUser).Accounts pid
      Ordered Compares (fun _ _ => True) past := by
  apply (accounts_unlocking (only_authorizationOfText secretId token clientIp)).bind
  rintro past₁ ⟨id, policyVersion⟩ _ _
  apply (accounts_snapshot id).bind
  intro past₂ policy _ hsnapshot
  apply (accounts_lock hsnapshot rfl).bind
  intro past₃ seen _ _
  cases seen.content with
  | none => exact Program.accounts_throw _
  | some content => exact Program.accounts_pure trivial

theorem accounts_downloadFileSecret (secretId : UUID) (token accessPassword : Option String)
    (clientIp : String) (currentUser : Option CurrentUser) :
    (Files.downloadFileSecret P secretId token accessPassword clientIp currentUser).Accounts pid
      Ordered Compares (fun _ _ => True) past := by
  apply (accounts_unlocking (only_authorization secretId token clientIp)).bind
  intro past₁ policyVersion _ _
  apply (accounts_unlocking (only_step rfl)).bind
  intro past₂ row _ _
  cases row with
  | none => exact Program.accounts_throw _
  | some found =>
    apply (accounts_unlocking (only_permission found.secret accessPassword currentUser)).bind
    intro past₃ _ _ _
    apply (accounts_unlocking (only_condition _ _)).bind
    intro past₄ _ _ _
    apply (accounts_unlocking (only_step rfl)).bind
    intro past₅ now _ _
    apply (accounts_unlocking (only_condition _ _)).bind
    intro past₆ _ _ _
    apply (accounts_unlocking (only_step rfl)).bind
    intro past₇ stored _ _
    cases stored with
    | none => exact Program.accounts_throw _
    | some versionRow =>
      cases hkey : versionRow.objectKey with
      | none =>
        simp only [hkey]
        exact Program.accounts_throw _
      | some objectKey =>
        simp only [hkey]
        apply (accounts_unlocking (only_step rfl)).bind
        intro past₈ encrypted _ _
        apply (accounts_snapshot secretId).bind
        intro past₉ policy _ hsnapshot
        exact accounts_map (accounts_lock hsnapshot rfl)

theorem accounts_servePolicy (pid : ℕ) (request : PolicyRequest) : (servePolicy P request).Accounts
    pid Ordered Compares (fun _ _ => True) [] := by
  cases request with
  | update secretId body user clientIp =>
    apply accounts_map
    apply (accounts_unlocking (only_step rfl)).bind
    exact fun _ _ _ _ => Program.accounts_pure trivial
  | retrieve secretId accessPassword token clientIp currentUser =>
    exact accounts_map (accounts_retrieveSecret _ _ _ _ _)
  | download secretId token accessPassword clientIp currentUser =>
    exact accounts_map (accounts_downloadFileSecret _ _ _ _ _)
  | wait => exact accounts_map (accounts_unlocking (only_step rfl))

/-- In every run each lock compares with the policy of the snapshot before it. -/
theorem throughout_compares {w : World} {told : ℕ → Past}
    {c : Pool World Choice Label PolicyRequest Exn PolicyResponse}
    (chronicle : (policySystem P).Chronicle (.init w) told c) (pid : ℕ) :
    Throughout Compares (told pid) := by
  have hordered : ∀ past c, (policySystem P).Chronicle (.init w) past c →
      ∀ pid, Ordered (past pid) c.shared := by
    intro past c chronicle
    have hsituated : c.All (Program.Only Onward) ∧ ∀ pid, Ordered (past pid) c.shared := by
      refine chronicle.situated ?_ Later.refl only_servePolicy ?_ ?_ ?_
      · exact fun _ _ _ => Later.trans
      · exact fun _ _ _ _ _ hlater => ⟨trivial, hlater⟩
      · exact fun _ a _ => ⟨trivial, Later.refl a⟩
      · trivial
    exact hsituated.2
  have haccounted : System.Accounted Ordered (fun _ => Compares) (fun _ _ _ => True) told c :=
    chronicle.accounted hordered accounts_servePolicy
  exact haccounted.throughout pid

/-- A version that was superseded before the snapshot, or before the lock with no update in between,
is not the one that the snapshot shows. -/
theorem recognised_of_superseded {label : Label} {w w' : World} {policyVersion : ℕ}
    {seenVersion : Option ℕ} (hrecheck : recheck label = some (secretId, policyVersion, seenVersion))
    (hseen : seenVersion =
      (w.db.secretAccessPolicies.find secretId).map SecretAccessPolicy.policyVersion)
    (hlater : Later w w') (late : superseded label w'.db = true)
    (known : superseded label w.db = true ∨ Undisturbed secretId w w') : Recognised label w' := by
  have hsuperseded : superseded label w.db = true := by
    rcases known with hknown | hundisturbed
    · exact hknown
    · rcases hlater.policy secretId hundisturbed with hsame | hgone
      · rw [superseded, hrecheck] at late ⊢
        simpa [hsame] using late
      · rw [superseded, hrecheck] at late
        simp [hgone] at late
  refine ⟨secretId, policyVersion, seenVersion, hrecheck, ?_⟩
  rw [superseded, hrecheck] at hsuperseded
  rw [hseen]
  cases hfind : w.db.secretAccessPolicies.find secretId with
  | none => simp
  | some policy =>
    simp only [hfind, Option.any_some, decide_eq_true_eq] at hsuperseded
    simp only [Option.map_some, ne_eq, Option.some.injEq]
    omega

end Snapshots

/-- In every run, a process that locks a secret after a later policy version has committed took the
snapshot of its statement in the action before; and when a later version had committed by then, or
no update of the policy has committed between the snapshot and the lock, it returns no content. -/
theorem superseded_not_returned (P : Platform) (w : World) {told : ℕ → Past}
    {c : Pool World Choice Label PolicyRequest Exn PolicyResponse}
    (chronicle : (policySystem P).Chronicle (.init w) told c) {pid : ℕ} {earlier later : Past}
    {lock : Action World Choice Label} (hlock : told pid = earlier ++ lock :: later)
    {secretId : UUID} {policyVersion : ℕ} {seenVersion : Option ℕ}
    (hrecheck : recheck lock.label = some (secretId, policyVersion, seenVersion))
    (late : superseded lock.label lock.before.db = true) :
    ∃ snapshot, earlier.getLast? = some snapshot ∧ snapshot.label = .lockedPolicy secretId ∧
      (superseded lock.label snapshot.before.db = true ∨
        Undisturbed secretId snapshot.before lock.before → ¬ Returned pid c.view) := by
  obtain ⟨snapshot, hlast, hread, hseen, hlater⟩ := throughout_compares chronicle pid earlier lock later
    hlock _ _ _ hrecheck
  refine ⟨snapshot, hlast, hread, ?_⟩
  rintro known ⟨request, value, hreturned⟩
  obtain ⟨c₁, c₂, e, before, hbefore, locks, after⟩ := chronicle.divide hlock
  have hrecognised := recognised_of_superseded hrecheck hseen hlater late known
  rw [← hbefore] at hrecognised
  exact System.never_returns stops_servePolicy before ((policySystem P).moved_of_next locks)
    hrecognised after request value hreturned

section Sample

/-- A request without a token, and an update of the policy of the same secret. -/
def sampleRequests : List (Event Choice PolicyRequest) :=
  [.start (.retrieve (samplePlatform.uuidText 7) none none sampleClient none),
    .start (.update 7 { allowedCidrs := ["192.0.2.0/24"] } sampleOwner sampleClient)]

/-- The process locks the secret after the update and answers. -/
def answersSuperseded (v : View World PolicyRequest Exn PolicyResponse)
    (o : Occurrence Label PolicyRequest Exn PolicyResponse)
    (v' : View World PolicyRequest Exn PolicyResponse) : Bool :=
  match o with
  | .performed 0 label => superseded label v.shared.db &&
    v'.answered 0 (.retrieve (samplePlatform.uuidText 7) none none sampleClient none)
  | _ => false

/-- The fourth action of the process is a late lock, and its third shows the new policy. -/
def informed (past : Past) : Bool :=
  (past[3]?).any fun lock => superseded lock.label lock.before.db &&
    (recheck lock.label).any fun compared => (past.take 3).getLast?.any fun snapshot =>
      decide (Undisturbed compared.1 snapshot.before lock.before)

/-- The update commits between the authorisation and the locking statement. -/
theorem superseded_not_returned_sample :
    ∃ told c, (policySystem samplePlatform).Chronicle (.init (linkedWorld 1)) told c ∧
      informed (told 0) = true ∧ ¬ Returned 0 c.view := by
  rcases System.exists_chronicle (policySystem samplePlatform) (Pool.init (linkedWorld 1))
      (sampleRequests ++ [.act 0 {}, .act 0 {}, .act 1 {}, .act 0 {}, .act 0 {}, .act 0 {}])
      (fun told _ => informed (told 0)) (by decide +kernel) with ⟨told, c, chronicle, h⟩
  refine ⟨told, c, chronicle, h, ?_⟩
  rw [informed, Option.any_eq_true] at h
  obtain ⟨lock, hlock, h⟩ := h
  rw [Bool.and_eq_true, Option.any_eq_true] at h
  obtain ⟨late, ⟨secretId, policyVersion, seenVersion⟩, hrecheck, h⟩ := h
  obtain ⟨hlt, hget⟩ := List.getElem?_eq_some_iff.mp hlock
  have hsplit : told 0 = (told 0).take 3 ++ lock :: (told 0).drop 4 := by
    rw [← hget, List.getElem_cons_drop, List.take_append_drop]
  obtain ⟨snapshot, hlast, -, hreturns⟩ := superseded_not_returned samplePlatform (linkedWorld 1)
    chronicle hsplit hrecheck late
  rw [hlast, Option.any_some, decide_eq_true_eq] at h
  exact hreturns (.inr h)

/-- The update commits between the locking statement and its lock, and the content is returned. -/
theorem superseded_returned :
    ∃ c₁ c₂ c₃ label,
      (policySystem samplePlatform).Run (fun _ _ => True) (Pool.init (linkedWorld 1)) c₁ ∧
      (policySystem samplePlatform).next c₁ (.act 0 {}) = some (.performed 0 label, c₂) ∧
      superseded label c₁.shared.db = true ∧
      (policySystem samplePlatform).Run (fun _ _ => True) c₂ c₃ ∧ Returned 0 c₃.view := by
  rcases (policySystem samplePlatform).exists_run_through (fun _ _ => True)
      (Pool.init (linkedWorld 1))
      (sampleRequests ++ [.act 0 {}, .act 0 {}, .act 0 {}, .act 1 {}]) (.act 0 {}) [.act 0 {}]
      answersSuperseded
      (by decide +kernel) with ⟨c₁, o, c₂, c₃, before, locks, after, h⟩
  unfold answersSuperseded at h
  split at h
  · rename_i label
    rw [Bool.and_eq_true] at h
    rcases View.exists_of_answered h.2 with ⟨value, hget⟩
    exact ⟨c₁, c₂, c₃, label, before, locks, h.1, after, _, value, hget⟩
  · cases h

end Sample

end PhantomShare.Access
