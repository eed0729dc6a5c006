import PhantomShare.EmailVerification.Commits
import PhantomShare.EmailVerification.Invariant
import PhantomShare.Foundations.Since
import PhantomShare.PlainPlatform

/-!
# Codes verify the users they were sent to, and only once

Registrations, requests for a code, confirmations and sweeps, in any order. A user
becomes verified by the commit of a confirmation that redeemed the code of the user's
last committed request; and nothing is left of a request whose mail could not be sent.
-/
namespace PhantomShare.EmailVerification
open Foundations Transactions
open Listings (UserRow)

/-! ### Assertions about one process -/

section Assertions
variable {P : Platform} {pid : ℕ} {request : AuthRequest} {v v' : AuthView}

/-- The process has committed nothing. -/
structure Open (pid : ℕ) (request : AuthRequest) (v : AuthView) : Prop where
  running : v.Running pid request
  unwritten : ∀ e, (pid, e) ∉ v.shared.store.history

/-- Its open transaction has done what is listed. -/
structure Working (pid : ℕ) (request : AuthRequest) (es : List Effect) (v : AuthView) : Prop
    extends Open pid request v where
  own : v.shared.store.own pid = es

/-- It has locked the row of a user. -/
structure Holding (pid : ℕ) (request : AuthRequest) (user : UserRow) (v : AuthView) : Prop
    extends Working pid request [] v where
  lock : (.user user.id, pid) ∈ v.shared.store.locks
  found : v.shared.tables.users.find user.id = some user

/-- It has drawn a code, too. -/
structure Drawing (pid : ℕ) (request : AuthRequest) (user : UserRow) (code : String)
    (v : AuthView) : Prop extends Holding pid request user v where
  issued : (code, pid) ∈ v.shared.codes

/-- It has redeemed a code. -/
structure Redeeming (pid : ℕ) (request : AuthRequest) (code : String) (userId : UUID)
    (v : AuthView) : Prop extends Open pid request v where
  own : ∃ row time rest, v.shared.store.own pid = .redeem row code time :: rest ∧
    row.userId = userId ∧ ∀ e ∈ rest, e = .verify userId

/-- It has registered unverified users and removed something. -/
structure Changing (pid : ℕ) (request : AuthRequest) (v : AuthView) : Prop
    extends Open pid request v where
  mild : ∀ e ∈ v.shared.store.own pid, e.Mild

/-- Its transaction has ended. -/
structure Ended (pid : ℕ) (request : AuthRequest) (v : AuthView) : Prop where
  running : v.Running pid request
  own : v.shared.store.own pid = []
  unlocked : ∀ row, (row, pid) ∉ v.shared.store.locks

/-- Its transaction has not begun. -/
structure Idle (pid : ℕ) (request : AuthRequest) (v : AuthView) : Prop
    extends Open pid request v, Ended pid request v

/-- An assertion that the other processes keep. -/
structure Stable (P : Platform) (pid : ℕ) (request : AuthRequest) (A : AuthView → Prop) : Prop where
  env : ∀ v v', A v → (authRules P).Env pid v v' → A v'
  running : ∀ v, A v → v.Running pid request

variable {es : List Effect} {user : UserRow} {code : String} {userId : UUID}

theorem Open.env (h : Open pid request v) (henv : (authRules P).Env pid v v') :
    Open pid request v' where
  running := henv.2.trans h.running
  unwritten e hmem := h.unwritten e (henv.1.undisturbed.mem_history.mp hmem)

theorem Working.env (h : Working pid request es v) (henv : (authRules P).Env pid v v') :
    Working pid request es v' :=
  { h.toOpen.env henv with own := henv.1.undisturbed.own.trans h.own }

theorem Holding.env (h : Holding pid request user v) (henv : (authRules P).Env pid v v') :
    Holding pid request user v' :=
  { h.toWorking.env henv with
    lock := (henv.1.undisturbed.locks _).mpr h.lock
    found := (find_user_of_lock h.lock henv.1).trans h.found }

theorem stable_running : Stable P pid request fun v => v.Running pid request :=
  ⟨fun _ _ h henv => henv.2.trans h, fun _ h => h⟩

theorem stable_open : Stable P pid request (Open pid request) :=
  ⟨fun _ _ => Open.env, fun _ h => h.running⟩

theorem stable_holding : Stable P pid request (Holding pid request user) :=
  ⟨fun _ _ => Holding.env, fun _ h => h.running⟩

theorem stable_working : Stable P pid request (Working pid request es) :=
  ⟨fun _ _ => Working.env, fun _ h => h.running⟩

theorem stable_drawing : Stable P pid request (Drawing pid request user code) where
  env _ _ h henv := { h.toHolding.env henv with issued := henv.1.codes h.issued }
  running _ h := h.running

theorem stable_redeeming : Stable P pid request (Redeeming pid request code userId) where
  env _ _ h henv :=
    { h.toOpen.env henv with
      own := by
        rw [henv.1.undisturbed.own]
        exact h.own }
  running _ h := h.running

theorem stable_changing : Stable P pid request (Changing pid request) where
  env _ _ h henv :=
    { h.toOpen.env henv with
      mild := by
        rw [henv.1.undisturbed.own]
        exact h.mild }
  running _ h := h.running

theorem Ended.env (h : Ended pid request v) (henv : (authRules P).Env pid v v') :
    Ended pid request v' where
  running := henv.2.trans h.running
  own := henv.1.undisturbed.own.trans h.own
  unlocked row hmem := h.unlocked row ((henv.1.undisturbed.locks row).mp hmem)

theorem stable_ended : Stable P pid request (Ended pid request) :=
  ⟨fun _ _ => Ended.env, fun _ h => h.running⟩

theorem stable_idle : Stable P pid request (Idle pid request) where
  env _ _ h henv := { h.toOpen.env henv, h.toEnded.env henv with }
  running _ h := h.toOpen.running

theorem Idle.working (h : Idle pid request v) : Working pid request [] v :=
  { h.toOpen with own := h.own }

theorem Idle.changing (h : Idle pid request v) : Changing pid request v :=
  { h.toOpen with
    mild := by
      rw [h.own]
      simp }

end Assertions

/-! ### Statements -/

section Statements
variable {P : Platform} {pid : ℕ} {request : AuthRequest} {v : AuthView} {γ : Type}
  {A : AuthView → Prop} {Q : Except Exn γ → AuthView → Prop} {label : AuthLabel}

/-- A step under an assertion. -/
theorem wp_act {act : ℕ → AuthWorld → AuthChoice → Option (AuthWorld × Except Exn γ)}
    (hA : Stable P pid request A) (h : A v)
    (hact : ∀ v₁ choice w r, A v₁ → Inv P v₁ → act pid v₁.shared choice = some (w, r) →
      (authRules P).Moves pid v₁ (v₁.update w) ∧ Q r (v₁.update w)) :
    (authRules P).wp pid (Program.perform label act) Q v := by
  apply Rules.wp_perform
  intro v₁ henv hinv _ choice w r happens
  exact hact v₁ choice w r (hA.env v v₁ h henv) hinv happens

/-- A step that leaves the transactions alone. -/
theorem wp_aside {act : ℕ → AuthWorld → AuthChoice → Option (AuthWorld × Except Exn γ)}
    (hA : Stable P pid request A) (h : A v)
    (hact : ∀ w choice w' r, act pid w choice = some (w', r) →
      w'.store = w.store ∧ w'.codes = w.codes)
    (hQ : ∀ r v₁, A v₁ → Q r v₁) : (authRules P).wp pid (Program.perform label act) Q v := by
  apply wp_act hA h
  intro v₁ choice w r hA₁ hinv happens
  obtain ⟨hstore, hcodes⟩ := hact v₁.shared choice w r happens
  refine ⟨moves_aside hinv (hA.running v₁ hA₁) hstore hcodes, hQ r _ (hA.env v₁ _ hA₁ ⟨?_, rfl⟩)⟩
  constructor
  · rw [View.update_shared, hstore]
    exact Undisturbed.refl pid _
  · rw [View.update_shared, hcodes]
    exact List.Subset.refl _

/-- A call that fails has no effect. -/
theorem wp_call {act : ℕ → AuthWorld → AuthChoice → Option (AuthWorld × Except Exn γ)}
    (hA : Stable P pid request A) (h : A v) (hfail : ∀ v₁, A v₁ → Q (.error .unavailable) v₁)
    (hact : ∀ v₁ choice w r, A v₁ → Inv P v₁ → act pid v₁.shared choice = some (w, r) →
      (authRules P).Moves pid v₁ (v₁.update w) ∧ Q r (v₁.update w)) :
    (authRules P).wp pid (call label act) Q v := by
  apply wp_act hA h
  intro v₁ choice w r hA₁ hinv happens
  split at happens
  · cases happens
    exact ⟨moves_same hinv (hA.running v₁ hA₁), hfail v₁ hA₁⟩
  · exact hact v₁ choice w r hA₁ hinv happens

theorem wp_select {q : Timestamp → Tables → γ} (hA : Stable P pid request A) (h : A v)
    (hQ : ∀ r v₁, A v₁ → Q r v₁) : (authRules P).wp pid (select label q) Q v := by
  apply wp_call hA h (hQ _)
  intro v₁ choice w r hA₁ hinv happens
  cases happens
  exact ⟨moves_same hinv (hA.running v₁ hA₁), hQ _ v₁ hA₁⟩

theorem wp_raiseIf {bad : Bool} {error : Exn} {Q : Except Exn Unit → AuthView → Prop}
    (herror : Q (.error error) v) (hok : bad = false → Q (.ok ()) v) :
    (authRules P).wp pid (raiseIf bad error) Q v := by
  cases bad with
  | true => exact herror
  | false => exact hok rfl

/-! ### Transactions -/

/-- What the body of a transaction leaves. -/
def Attempt (pid : ℕ) (request : AuthRequest) (L : List Effect → Prop) :
    Except Exn γ → AuthView → Prop
  | .ok _, v => Open pid request v ∧ L (v.shared.store.own pid)
  | .error _, v => Open pid request v

/-- What the transaction leaves: its work is committed, or nothing is, or that is unknown. -/
def Outcome (pid : ℕ) (request : AuthRequest) (L : List Effect → Prop) :
    Except Exn γ → AuthView → Prop
  | .ok _, v => Ended pid request v ∧ ∃ es, L es ∧ ∀ e ∈ es, (pid, e) ∈ v.shared.store.history
  | .error error, v => Ended pid request v ∧
      (error = .unavailable ∨ ∀ e, (pid, e) ∉ v.shared.store.history)

theorem Open.attempt {r : Except Exn γ} (h : Open pid request v) :
    Attempt pid request (fun _ => True) r v := by
  cases r with
  | ok value => exact ⟨h, trivial⟩
  | error error => exact h

theorem wp_abort {error : Exn} (hA : Stable P pid request A) (h : A v)
    (hQ : ∀ v₁, A v₁ → Ended pid request (v₁.update (v₁.shared.discard pid)) →
      Q (.error error) (v₁.update (v₁.shared.discard pid))) :
    (authRules P).wp pid (do rollback; throw error) Q v := by
  apply Rules.wp_bind
  apply wp_act hA h
  intro v₁ choice w r hA₁ hinv happens
  cases happens
  have hrun := hA.running v₁ hA₁
  exact ⟨moves_discard hinv hrun, hQ v₁ hA₁ ⟨hrun, own_discard, fun row hmem =>
    (mem_locks_discard.mp hmem).2 rfl⟩⟩

theorem wp_connection (hP : Function.Injective P.sha256Hex) {body : AuthHandler γ}
    {L : List Effect → Prop} (h : (authRules P).wp pid body (Attempt pid request L) v) :
    (authRules P).wp pid (connection body) (Outcome pid request L) v := by
  apply Rules.wp_tryCatch
  apply Rules.wp_bind
  apply Rules.wp_mono h
  intro r v' hr
  cases r with
  | error error =>
    apply wp_abort stable_open hr
    intro v₁ hopen hended
    exact ⟨hended, Or.inr hopen.unwritten⟩
  | ok value =>
    apply Rules.wp_bind
    apply wp_act stable_working (⟨hr.1, rfl⟩ : Working pid request (v'.shared.store.own pid) v')
    intro v₁ choice w r hworking hinv happens
    have hcommit := moves_commit hP hinv hworking.running
    split at happens
    · cases happens
      refine ⟨?_, ?_⟩
      · split
        · exact hcommit
        · exact moves_same hinv hworking.running
      · -- The answer to the commit is lost.
        have hrun : (v₁.update (if choice.landed then v₁.shared.commit pid else v₁.shared)).Running
            pid request := hworking.running
        apply wp_abort stable_running hrun
        intro v₂ _ hended
        exact ⟨hended, Or.inl rfl⟩
    · cases happens
      refine ⟨hcommit, ⟨hworking.running, own_discard, ?_⟩, v'.shared.store.own pid, hr.2, ?_⟩
      · intro row hmem
        exact (mem_locks_discard.mp hmem).2 rfl
      · intro e he
        rw [← hworking.own] at he
        exact List.mem_append_right _ (List.mem_map.mpr ⟨e, he, rfl⟩)

end Statements

/-! ### Registration and sweeps -/

section Changes
variable {P : Platform} {pid : ℕ} {request : AuthRequest} {v : AuthView} {e : Effect}

/-- A statement of a sweep or a registration writes one row. -/
theorem moves_change {row : Row} (h : Changing pid request v) (hinv : Inv P v)
    (hfree : v.shared.store.heldByOther row pid = false) (hrows : e.rows = [row]) (he : e.Mild) :
    (authRules P).Moves pid v (v.update (v.shared.write row pid e)) ∧
      Changing pid request (v.update (v.shared.write row pid e)) := by
  have hmild : ∀ e' ∈ v.shared.store.own pid ++ [e], e'.Mild := by
    intro e' he'
    rcases List.mem_append.mp he' with hold | hnew
    · exact h.mild e' hold
    · rw [List.mem_singleton.mp hnew]
      exact he
  constructor
  · apply moves_write hinv h.running hfree _ (.mild hmild)
    intro r hr
    rw [hrows] at hr
    exact Or.inl (List.mem_singleton.mp hr)
  · refine ⟨⟨h.running, h.unwritten⟩, ?_⟩
    rw [View.update_shared, AuthWorld.write, own_draft, own_lock]
    exact hmild

theorem wp_insertUser {email username passwordHash : String} (h : Changing pid request v) :
    (authRules P).wp pid (insertUser email username passwordHash)
      (fun _ => Changing pid request) v := by
  apply wp_call stable_changing h fun _ h₁ => h₁
  intro v₁ choice w r h₁ hinv happens
  simp only at happens
  split at happens
  · cases happens
  · rename_i hbusy
    split at happens
    · cases happens
      exact ⟨moves_same hinv h₁.running, h₁⟩
    · cases happens
      rw [Bool.or_eq_true, not_or, Bool.not_eq_true, Bool.not_eq_true] at hbusy
      exact moves_change h₁ hinv hbusy.2 rfl rfl

theorem wp_deleteInactive {started : Timestamp} {id : UUID} (h : Changing pid request v) :
    (authRules P).wp pid (deleteInactive started id) (fun _ => Changing pid request) v := by
  apply wp_call stable_changing h fun _ h₁ => h₁
  intro v₁ choice w r h₁ hinv happens
  split at happens
  · cases happens
    exact ⟨moves_same hinv h₁.running, h₁⟩
  · split at happens
    · split at happens
      · cases happens
      · rename_i hfree
        cases happens
        exact moves_change h₁ hinv (Bool.not_eq_true _ ▸ hfree) rfl trivial
    · cases happens
      exact ⟨moves_same hinv h₁.running, h₁⟩

theorem wp_deleteChallenge {label : AuthLabel} {p : Timestamp → Challenge → Bool} {userId : UUID}
    (h : Changing pid request v) :
    (authRules P).wp pid (deleteChallenge label p userId) (fun _ => Changing pid request) v := by
  apply wp_call stable_changing h fun _ h₁ => h₁
  intro v₁ choice w r h₁ hinv happens
  split at happens
  · cases happens
    exact ⟨moves_same hinv h₁.running, h₁⟩
  · split at happens
    · split at happens
      · cases happens
      · rename_i hfree
        cases happens
        exact moves_change h₁ hinv (Bool.not_eq_true _ ▸ hfree) rfl trivial
    · cases happens
      exact ⟨moves_same hinv h₁.running, h₁⟩

theorem wp_forEach {act : UUID → AuthHandler Unit} {ids : List UUID} (h : Changing pid request v)
    (hact : ∀ id v', Changing pid request v' →
      (authRules P).wp pid (act id) (fun _ => Changing pid request) v') :
    (authRules P).wp pid (forEach act ids) (fun _ => Changing pid request) v := by
  induction ids generalizing v with
  | nil => exact h
  | cons id ids ih =>
    apply Rules.wp_bind
    apply Rules.wp_mono (hact id v h)
    intro r v' h'
    cases r with
    | ok value => exact ih h'
    | error error => exact h'

theorem wp_deleteWithChallenge {started : Timestamp} {id : UUID} (h : Changing pid request v) :
    (authRules P).wp pid (deleteWithChallenge started id) (fun _ => Changing pid request) v := by
  apply Rules.wp_bind
  apply Rules.wp_mono (wp_deleteInactive h)
  intro r v' h'
  cases r with
  | error error => exact h'
  | ok deleted =>
    cases deleted with
    | false => exact h'
    | true => exact (wp_deleteChallenge h' : (authRules P).wp pid (cascade id) _ v')

theorem wp_changes (hP : Function.Injective P.sha256Hex) {γ : Type} {body : AuthHandler γ}
    (h : (authRules P).wp pid body (fun _ => Changing pid request) v) :
    (authRules P).wp pid (connection body) (fun _ => Ended pid request) v := by
  have hbody : (authRules P).wp pid body (Attempt pid request fun _ => True) v := by
    apply Rules.wp_mono h
    intro r v' h'
    exact h'.toOpen.attempt
  apply Rules.wp_mono (wp_connection hP hbody)
  intro r v' hr
  cases r with
  | ok value => exact hr.1
  | error error => exact hr.1

/-- An exception skips the rest. -/
theorem wp_then {γ δ : Type} {p : AuthHandler γ} {f : γ → AuthHandler δ} {A : AuthView → Prop}
    (hp : (authRules P).wp pid p (fun _ => A) v)
    (hf : ∀ value v', A v' → (authRules P).wp pid (f value) (fun _ => A) v') :
    (authRules P).wp pid (p >>= f) (fun _ => A) v := by
  apply Rules.wp_bind
  apply Rules.wp_mono hp
  intro r v' h'
  cases r with
  | ok value => exact hf value v' h'
  | error error => exact h'

theorem wp_sweep (hP : Function.Injective P.sha256Hex) (h : Idle pid request v) :
    (authRules P).wp pid sweep (fun _ => Ended pid request) v := by
  apply wp_changes hP
  apply wp_then (wp_select stable_changing h.changing fun _ _ h' => h')
  intro found v₁ h₁
  apply wp_then (wp_forEach h₁ fun id v' h' => wp_deleteWithChallenge h')
  intro _ v₂ h₂
  apply wp_then (wp_select stable_changing h₂ fun _ _ h' => h')
  intro challenges v₃ h₃
  exact wp_forEach h₃ fun id v' h' => wp_deleteChallenge h'

theorem wp_register (hP : Function.Injective P.sha256Hex) {email username : String}
    (h : Idle pid request v) :
    (authRules P).wp pid (register email username) (fun _ => Ended pid request) v := by
  apply Rules.wp_bind
  apply wp_aside stable_idle h
  · rintro w choice w' r ⟨⟩
    exact ⟨rfl, rfl⟩
  intro r v₁ h₁
  cases r with
  | error error => exact h₁.toEnded
  | ok passwordHash =>
    apply wp_then
    · apply wp_changes hP
      apply wp_then (wp_select stable_changing h₁.changing fun _ _ h' => h')
      intro taken v₂ h₂
      apply wp_then (wp_raiseIf h₂ fun _ => h₂)
      intro _ v₃ h₃
      exact wp_insertUser h₃
    · intro row v₂ h₂
      apply wp_then _ fun _ _ h' => h'
      apply wp_aside stable_ended h₂ _ fun _ _ h' => h'
      rintro w choice w' r ⟨⟩
      exact ⟨rfl, rfl⟩

end Changes

/-! ### Challenges -/

section Challenges
variable {P : Platform} {pid : ℕ} {request : AuthRequest} {v : AuthView} {user : UserRow}
  {code : String}

theorem wp_selectUserForUpdate {id : UUID} {Q : Except Exn (Option UserRow) → AuthView → Prop}
    (h : Working pid request [] v)
    (hfail : ∀ v₁, Open pid request v₁ → Q (.error .unavailable) v₁)
    (hnone : ∀ v₁, Open pid request v₁ → Q (.ok none) v₁)
    (hsome : ∀ user v₁, user.id = id → Holding pid request user v₁ → Q (.ok (some user)) v₁) :
    (authRules P).wp pid (selectUserForUpdate id) Q v := by
  apply wp_call stable_working h fun v₁ h₁ => hfail v₁ h₁.toOpen
  intro v₁ choice w r h₁ hinv happens
  split at happens
  · cases happens
    exact ⟨moves_same hinv h₁.running, hnone v₁ h₁.toOpen⟩
  · rename_i row hfind
    split at happens
    · cases happens
    · rename_i hfree
      cases happens
      have hid : UserRow.key row = id := Table.key_of_find hfind
      rw [UserRow.key] at hid
      refine ⟨moves_lock hinv h₁.running (Bool.not_eq_true _ ▸ hfree), hsome row _ hid ?_⟩
      subst hid
      exact ⟨⟨⟨h₁.running, h₁.unwritten⟩, h₁.own⟩,
        List.mem_append_right _ (List.mem_singleton_self _), hfind⟩

theorem wp_tokenHex {Q : Except Exn String → AuthView → Prop} (h : Holding pid request user v)
    (hQ : ∀ code v₁, Drawing pid request user code v₁ → Q (.ok code) v₁) :
    (authRules P).wp pid tokenHex Q v := by
  apply wp_act stable_holding h
  intro v₁ choice w r h₁ hinv happens
  split at happens
  · cases happens
  · rename_i hfresh
    cases happens
    simp only [List.any_eq_true, not_exists, not_and, decide_eq_true_eq] at hfresh
    refine ⟨moves_issue hinv h₁.running hfresh, hQ choice.code _ ?_⟩
    exact ⟨⟨⟨⟨h₁.running, h₁.unwritten⟩, h₁.own⟩, h₁.lock, h₁.found⟩,
      List.mem_append_right _ (List.mem_singleton_self _)⟩

theorem wp_storeChallenge {Q : Except Exn Unit → AuthView → Prop}
    (h : Drawing pid request user code v) (hQ : ∀ r v₁, Open pid request v₁ → Q r v₁) :
    (authRules P).wp pid (storeChallenge P user.id user.email code) Q v := by
  apply wp_call stable_drawing h fun v₁ h₁ => hQ _ v₁ h₁.toOpen
  intro v₁ choice w r h₁ hinv happens
  split at happens
  · cases happens
  · rename_i hfree
    split at happens
    · cases happens
      exact ⟨moves_same hinv h₁.running, hQ _ v₁ h₁.toOpen⟩
    · cases happens
      refine ⟨?_, hQ _ _ ⟨h₁.running, h₁.unwritten⟩⟩
      apply moves_write hinv h₁.running (Bool.not_eq_true _ ▸ hfree)
      · intro row hrow
        rcases List.mem_cons.mp hrow with rfl | hrow
        · exact Or.inr h₁.lock
        · exact Or.inl (List.mem_singleton.mp hrow)
      · rw [h₁.own]
        exact .store ⟨rfl, rfl⟩ h₁.issued h₁.unwritten

theorem wp_requestEmailVerification (hP : Function.Injective P.sha256Hex) {userId : UUID}
    (h : Idle pid (.request userId) v) :
    (authRules P).wp pid (requestEmailVerification P userId) (fun r v' =>
      Ended pid (.request userId) v' ∧ Told pid (.request userId) r v'.shared.store) v := by
  apply Rules.wp_bind
  refine Rules.wp_mono (@wp_connection P pid (.request userId) v Bool hP _ (fun _ => True) ?_) ?_
  · apply Rules.wp_mono (Q := fun _ => Open pid (.request userId)) _ fun r v' h' => h'.attempt
    apply Rules.wp_bind
    apply wp_selectUserForUpdate h.working
    · intro v₁ h₁
      exact h₁
    · intro v₁ h₁
      exact h₁
    · rintro user v₁ rfl h₁
      change (authRules P).wp pid (if user.isVerified then _ else _) _ v₁
      split
      · exact h₁.toOpen
      apply Rules.wp_bind
      apply wp_select stable_holding h₁
      intro r v₂ h₂
      cases r with
      | error error => exact h₂.toOpen
      | ok prior =>
        apply Rules.wp_bind
        apply wp_aside stable_holding h₂
        · rintro w choice w' r ⟨⟩
          exact ⟨rfl, rfl⟩
        intro r v₃ h₃
        cases r with
        | error error => exact h₃.toOpen
        | ok now =>
          apply Rules.wp_bind
          apply wp_raiseIf h₃.toOpen
          intro _
          apply Rules.wp_bind
          apply wp_tokenHex h₃
          intro code v₄ h₄
          apply Rules.wp_bind
          apply wp_storeChallenge h₄
          intro r v₅ h₅
          cases r with
          | error error => exact h₅
          | ok stored =>
            -- Whether the mail is sent or not, nothing is committed yet.
            apply Rules.wp_bind
            apply Rules.wp_tryCatch
            apply wp_aside stable_open h₅
            · intro w choice w' r happens
              split at happens <;> cases happens <;> exact ⟨rfl, rfl⟩
            intro r v₆ h₆
            cases r with
            | ok sent => exact h₆
            | error error => exact h₆
  · intro r v' hr
    cases r with
    | ok sent => exact ⟨hr.1, trivial⟩
    | error error =>
      refine ⟨hr.1, ?_⟩
      rintro rfl
      rcases hr.2 with hother | hunwritten
      · cases hother
      · exact ⟨hunwritten, hr.1.own, hr.1.unlocked⟩

theorem wp_redeemChallenge {Q : Except Exn Bool → AuthView → Prop}
    (h : Holding pid (.confirm user.id code) user v)
    (hfail : ∀ v₁, Open pid (.confirm user.id code) v₁ → Q (.error .unavailable) v₁)
    (hnot : ∀ v₁, Open pid (.confirm user.id code) v₁ → Q (.ok false) v₁)
    (hok : ∀ v₁, Redeeming pid (.confirm user.id code) code user.id v₁ → Q (.ok true) v₁) :
    (authRules P).wp pid (redeemChallenge P user.id user.email code) Q v := by
  apply wp_call stable_holding h fun v₁ h₁ => hfail v₁ h₁.toOpen
  intro v₁ choice w r h₁ hinv happens
  split at happens
  · cases happens
    exact ⟨moves_same hinv h₁.running, hnot v₁ h₁.toOpen⟩
  rename_i row hfind
  split at happens
  · rename_i hredeemable
    split at happens
    · cases happens
    · rename_i hfree
      cases happens
      have huser : row.userId = user.id := Table.key_of_find hfind
      simp only [redeemable, Bool.and_eq_true, decide_eq_true_eq] at hredeemable
      have hown : (v₁.shared.write (.challenge user.id) pid
          (.redeem row code v₁.shared.now)).store.own pid = [.redeem row code v₁.shared.now] := by
        rw [AuthWorld.write, own_draft, own_lock, h₁.own]
        rfl
      refine ⟨?_, hok _ ⟨⟨h₁.running, h₁.unwritten⟩, row, v₁.shared.now, [], hown, huser, by simp⟩⟩
      apply moves_write hinv h₁.running (Bool.not_eq_true _ ▸ hfree)
      · intro r hr
        rw [Effect.rows, huser] at hr
        rcases List.mem_cons.mp hr with rfl | hr
        · exact Or.inr h₁.lock
        · exact Or.inl (List.mem_singleton.mp hr)
      · rw [h₁.own]
        refine .redeem ⟨?_, ?_, hredeemable.1.2, hredeemable.2, user, ?_, hredeemable.1.1⟩ (by simp)
        · rw [huser]
          exact h₁.running
        · rw [huser]
          exact hfind
        · rw [huser]
          exact h₁.found
  · cases happens
    exact ⟨moves_same hinv h₁.running, hnot v₁ h₁.toOpen⟩

theorem wp_markVerified {userId : UUID} {Q : Except Exn Unit → AuthView → Prop}
    (h : Redeeming pid (.confirm userId code) code userId v)
    (hQ : ∀ r v₁, Redeeming pid (.confirm userId code) code userId v₁ → Q r v₁) :
    (authRules P).wp pid (markVerified userId) Q v := by
  apply wp_call stable_redeeming h fun v₁ h₁ => hQ _ v₁ h₁
  intro v₁ choice w r h₁ hinv happens
  split at happens
  · cases happens
    exact ⟨moves_same hinv h₁.running, hQ _ v₁ h₁⟩
  split at happens
  · cases happens
  rename_i hfree
  cases happens
  obtain ⟨row, time, rest, hown, huser, hrest⟩ := h₁.own
  have hmore : ∀ e ∈ rest ++ [.verify userId], e = .verify userId := by
    intro e he
    exact (List.mem_append.mp he).elim (hrest e) List.mem_singleton.mp
  constructor
  · apply moves_write hinv h₁.running (Bool.not_eq_true _ ▸ hfree)
    · intro r hr
      exact Or.inl (List.mem_singleton.mp hr)
    · have hbacked := hinv.backed pid
      rw [hown] at hbacked ⊢
      cases hbacked with
      | mild h => exact (h _ List.mem_cons_self).elim
      | redeem redemption _ =>
        refine .redeem ⟨redemption.request, redemption.found, redemption.hash, redemption.inTime,
          redemption.email⟩ ?_
        rw [huser]
        exact hmore
  · apply hQ
    refine ⟨⟨h₁.running, h₁.unwritten⟩, row, time, rest ++ [.verify userId], ?_, huser, hmore⟩
    rw [View.update_shared, AuthWorld.write, own_draft, own_lock, hown]
    rfl

/-- The confirmation has redeemed a code. -/
def Redeems (code : String) (es : List Effect) : Prop := ∃ row time, .redeem row code time ∈ es

theorem Redeeming.attempt {γ : Type} {r : Except Exn γ} {userId : UUID}
    (h : Redeeming pid request code userId v) : Attempt pid request (Redeems code) r v := by
  cases r with
  | ok value =>
    obtain ⟨row, time, rest, hown, _⟩ := h.own
    refine ⟨h.toOpen, row, time, ?_⟩
    rw [hown]
    exact List.mem_cons_self
  | error error => exact h.toOpen

theorem wp_confirmEmailVerification (hP : Function.Injective P.sha256Hex) {userId : UUID}
    (h : Idle pid (.confirm userId code) v) :
    (authRules P).wp pid (confirmEmailVerification P userId code) (fun r v' =>
      Ended pid (.confirm userId code) v' ∧
        Told pid (.confirm userId code) r v'.shared.store) v := by
  apply Rules.wp_bind
  refine Rules.wp_mono
    (@wp_connection P pid (.confirm userId code) v Unit hP _ (Redeems code) ?_) ?_
  · apply Rules.wp_bind
    apply wp_selectUserForUpdate h.working
    · intro v₁ h₁
      exact h₁
    · intro v₁ h₁
      exact h₁
    · rintro user v₁ rfl h₁
      apply Rules.wp_bind
      apply wp_redeemChallenge h₁
      · intro v₂ h₂
        exact h₂
      · intro v₂ h₂
        exact h₂
      · intro v₂ h₂
        apply wp_markVerified h₂
        intro r v₃ h₃
        exact h₃.attempt
  · intro r v' hr
    cases r with
    | ok value =>
      obtain ⟨hended, es, ⟨row, time, hmem⟩, hwritten⟩ := hr
      exact ⟨hended, row, time, hwritten _ hmem⟩
    | error error => exact ⟨hr.1, trivial⟩

end Challenges

/-! ### Every run -/

section Validity
variable {P : Platform} {pid : ℕ} {request : AuthRequest} {v : AuthView}

theorem Inv.setPhase {phase : Phase Unit Exn AuthResponse} (h : Inv P v)
    (hended : Ended pid request v)
    (htold : ∀ result, phase = .finished result → Told pid request result v.shared.store) :
    Inv P (v.setPhase pid phase) where
  locked := h.locked
  codes := h.codes
  record := h.record
  backed k := by
    by_cases hk : k = pid
    · rw [View.setPhase_shared, hk, hended.own]
      exact .mild (by simp)
    · exact (h.backed k).env h.locked rfl (Rely.refl k _) (View.setPhase_get v phase hk)
  running row k hmem := by
    have hk : k ≠ pid := by
      rintro rfl
      exact hended.unlocked row hmem
    obtain ⟨request', hrun⟩ := h.running row k hmem
    exact ⟨request', (View.setPhase_get v phase hk).trans hrun⟩
  known k e hmem := by
    rw [View.setPhase_length]
    exact h.known k e hmem
  delivered := h.delivered.setPhase hended.running htold

theorem finishing {result : Except Exn AuthResponse} (h : Ended pid request v)
    (htold : Told pid request result v.shared.store) : (authRules P).Finishing pid result v := by
  intro v₁ henv hinv _
  refine ⟨hinv.setPhase (h.env henv) ?_, fun k _ => Rely.refl k _⟩
  rintro result' ⟨⟩
  exact htold.env henv.1.undisturbed

theorem Inv.start (h : Inv P v) (request : AuthRequest) : Inv P (v.start request) where
  locked := h.locked
  codes := h.codes
  record := h.record
  backed k := by
    by_cases hk : k < v.tasks.length
    · exact (h.backed k).env h.locked rfl (Rely.refl k _) (View.start_get v request hk)
    · have hunlocked : ∀ row, (row, k) ∉ v.shared.store.locks := by
        intro row hmem
        obtain ⟨_, hrun⟩ := h.running row k hmem
        exact hk hrun.lt
      rw [View.start_shared, own_of_unlocked h.locked hunlocked]
      exact .mild (by simp)
  running row k hmem := by
    obtain ⟨request', hrun⟩ := h.running row k hmem
    exact ⟨request', (View.start_get v request hrun.lt).trans hrun⟩
  known k e hmem := by
    rw [View.start_length]
    exact Nat.lt_succ_of_lt (h.known k e hmem)
  delivered := h.delivered.start request

/-- A new process has done nothing. -/
theorem Inv.idle (h : Inv P v) (request : AuthRequest) :
    Idle v.tasks.length request (v.start request) := by
  have hunlocked : ∀ row, (row, v.tasks.length) ∉ v.shared.store.locks := by
    intro row hmem
    obtain ⟨_, hrun⟩ := h.running row _ hmem
    exact lt_irrefl _ hrun.lt
  exact ⟨⟨v.start_running request, fun e hmem => lt_irrefl _ (h.known _ e hmem)⟩,
    own_of_unlocked h.locked hunlocked, hunlocked⟩

theorem Told.map {γ δ : Type} {f : γ → δ} {result : Except Exn γ}
    {s : Transactions Row Effect Tables} (h : Told pid request result s) :
    Told pid request (result.map f) s := by
  cases request <;> cases result <;> exact h

theorem wp_serve (hP : Function.Injective P.sha256Hex) (h : Idle pid request v) :
    (authRules P).wp pid (serve P request) ((authRules P).Finishing pid) v := by
  cases request with
  | register email username =>
    apply Rules.wp_map
    apply Rules.wp_mono (wp_register hP h)
    intro r v' hended
    exact finishing hended trivial
  | request userId =>
    apply Rules.wp_map
    apply Rules.wp_mono (wp_requestEmailVerification hP h)
    intro r v' hr
    exact finishing hr.1 hr.2.map
  | confirm userId code =>
    apply Rules.wp_map
    apply Rules.wp_mono (wp_confirmEmailVerification hP h)
    intro r v' hr
    exact finishing hr.1 hr.2.map
  | sweep =>
    apply Rules.wp_map
    apply Rules.wp_mono (wp_sweep hP h)
    intro r v' hended
    exact finishing hended trivial
  | wait =>
    apply Rules.wp_map
    apply wp_aside stable_idle h
    · rintro w choice w' r ⟨⟩
      exact ⟨rfl, rfl⟩
    · intro r v' hidle
      exact finishing hidle.toEnded trivial

theorem valid (hP : Function.Injective P.sha256Hex) : (authRules P).Valid (system P) where
  rely_refl pid v := Rely.refl pid v.shared
  rely_trans _ _ _ _ := Rely.trans
  start v request hinv _ :=
    ⟨⟨hinv.start request, fun k _ => Rely.refl k _⟩, wp_serve hP (hinv.idle request)⟩
  crash v pid request hinv hrun _ := by
    have hdiscard := moves_discard hinv hrun
    refine ⟨hdiscard.1.setPhase ⟨hrun, own_discard, ?_⟩ nofun, hdiscard.2⟩
    intro row hmem
    exact (mem_locks_discard.mp hmem).2 rfl

theorem inv_initial (users : Table UserRow.key) (now : Timestamp) :
    Inv P ⟨initial users now, []⟩ where
  locked := ⟨nofun, nofun⟩
  codes := List.nodup_nil
  record := ⟨nofun, nofun, List.Subset.refl _, List.nodup_nil, List.nodup_nil⟩
  backed _ := .mild nofun
  running := nofun
  known := nofun
  delivered _ _ _ hget := by cases hget

end Validity

/-! ### The claim -/

section Runs
variable {P : Platform} {users : Table UserRow.key} {now : Timestamp} {userId : UUID}

abbrev AuthPool := Pool AuthWorld AuthChoice AuthLabel AuthRequest Exn AuthResponse

def Verified (userId : UUID) (t : Tables) : Prop :=
  ∃ user, t.users.find userId = some user ∧ user.isVerified = true

theorem verified_mild {t : Tables} {e : Effect} (he : e.Mild) (h : Verified userId (t.apply e)) :
    Verified userId t := by
  obtain ⟨user, hfind, hverified⟩ := h
  cases e with
  | register row =>
    rw [find_register] at hfind
    split at hfind
    · cases hfind
      rw [Effect.Mild] at he
      rw [he] at hverified
      cases hverified
    · exact ⟨user, hfind, hverified⟩
  | removeUser id =>
    have hdelete := (find_deleteUser t id userId).symm.trans hfind
    split at hdelete
    · cases hdelete
    · exact ⟨user, hdelete, hverified⟩
  | removeChallenge other => exact ⟨user, hfind, hverified⟩
  | verify id => exact he.elim
  | store row code => exact he.elim
  | redeem row code time => exact he.elim

theorem verified_foldl_mild {t : Tables} {es : List Effect} (hes : ∀ e ∈ es, e.Mild)
    (h : Verified userId (es.foldl Tables.apply t)) : Verified userId t := by
  induction es generalizing t with
  | nil => exact h
  | cons e es ih =>
    apply verified_mild (hes e List.mem_cons_self)
    exact ih (fun e' he' => hes e' (List.mem_cons_of_mem _ he')) h

theorem verified_foldl_verify {t : Tables} {other : UUID} {es : List Effect}
    (hes : ∀ e ∈ es, e = .verify other) (h : Verified userId (es.foldl Tables.apply t)) :
    Verified userId t ∨ userId = other := by
  induction es generalizing t with
  | nil => exact Or.inl h
  | cons e es ih =>
    have hrest := ih (fun e' he' => hes e' (List.mem_cons_of_mem _ he')) h
    rcases hrest with ⟨user, hfind, hverified⟩ | h
    · rw [hes e List.mem_cons_self] at hfind
      have hverify := (find_verifyUser t other userId).symm.trans hfind
      by_cases hother : userId = other
      · exact Or.inr hother
      · rw [if_neg hother] at hverify
        exact Or.inl ⟨user, hverify, hverified⟩
    · exact Or.inr h

/-- A process confirms the code that the user's last committed request stored for the user's
address, and has redeemed it within a quarter of an hour. -/
structure Confirming (v : AuthView) (pid : ℕ) (userId : UUID) (row : Challenge) (code : String)
    (time : Timestamp) : Prop where
  request : v.Running pid (.confirm userId code)
  redeemed : .redeem row code time ∈ v.shared.store.own pid
  latest : latest userId v.shared.store.history = some (row, code)
  email : ∃ user, v.shared.tables.users.find userId = some user ∧
    citextEq row.email user.email = true
  inTime : time < row.requestedAt + minutes 15

/-- What a commit verifies, its confirmation has redeemed. -/
theorem confirming_of_commit (hP : Function.Injective P.sha256Hex) {v : AuthView} {pid : ℕ}
    (hinv : Inv P v) (hbefore : ¬ Verified userId v.shared.tables)
    (hafter : Verified userId (v.shared.commit pid).tables) :
    ∃ row code time, Confirming v pid userId row code time := by
  change Verified userId ((v.shared.store.own pid).foldl Tables.apply v.shared.tables) at hafter
  have hbacked := hinv.backed pid
  generalize hown : v.shared.store.own pid = es at hbacked hafter
  cases hbacked with
  | mild h => exact absurd (verified_foldl_mild h hafter) hbefore
  | store => exact absurd hafter hbefore
  | @redeem row code time rest redemption hrest =>
    rcases verified_foldl_verify hrest hafter with hsame | rfl
    · exact absurd hsame hbefore
    · obtain ⟨hlatest, hsealed, _⟩ :=
        hinv.record.latest_of_hash hP redemption.found redemption.hash
      refine ⟨row, code, time, redemption.request, ?_, hlatest, redemption.email, ?_⟩
      · rw [hown]
        exact List.mem_cons_self
      · rw [← hsealed.expiry]
        exact redemption.inTime

theorem commit_of_next {c c' : AuthPool} {e : Event AuthChoice AuthRequest}
    {o : Occurrence AuthLabel AuthRequest Exn AuthResponse}
    (before : (system P).Run (fun _ _ => True) (.init (initial users now)) c)
    (happens : (system P).next c e = some (o, c')) :
    c'.shared.tables = c.shared.tables ∨
      ∃ pid, o = .performed pid .commit ∧ c'.shared = c.shared.commit pid := by
  have hall : c.All (Program.Only Commits) := before.only only_serve (Pool.all_init _)
  cases (system P).moved_of_next happens with
  | started request => exact Or.inl rfl
  | returned task => exact Or.inl rfl
  | raised task => exact Or.inl rfl
  | crashed task => exact Or.inl rfl
  | performed task hact =>
    rcases (hall _ _ _ task _ _ _ _ _ hact).1 with hsame | ⟨rfl, hcommit⟩
    · exact Or.inl hsame
    · exact Or.inr ⟨_, rfl, hcommit⟩

/-- What was committed stays on record. -/
def Grown (w w' : AuthWorld) : Prop := w.store.history <+: w'.store.history

instance : IsPreorder AuthWorld Grown where
  refl _ := List.prefix_refl _
  trans _ _ _ := List.IsPrefix.trans

/-- A confirmation has been answered with success. -/
def Accepted (v : AuthView) (pid : ℕ) (code : String) : Prop :=
  ∃ userId value, v.tasks[pid]? = some (.confirm userId code, .finished (.ok value))

/-- Whatever is under way at the same time: a user becomes verified by the commit of a confirmation
of the code stored last for the user's address, redeemed within a quarter of an hour; no code is
accepted twice; and a request that answers that the mail could not be sent changes no table. -/
theorem email_verification (hP : Function.Injective P.sha256Hex) {c c' c'' : AuthPool}
    {e : Event AuthChoice AuthRequest} {o : Occurrence AuthLabel AuthRequest Exn AuthResponse}
    (before : (system P).Run (fun _ _ => True) (.init (initial users now)) c)
    (happens : (system P).next c e = some (o, c'))
    (after : (system P).Run (fun _ _ => True) c' c'') :
    (∀ userId, ¬ Verified userId c.shared.tables → Verified userId c'.shared.tables →
      ∃ pid row code time, o = .performed pid .commit ∧
        Confirming c.view pid userId row code time) ∧
    ((redeemedCodes c''.shared.store.history).Nodup ∧
      ∀ p q code, Accepted c''.view p code → Accepted c''.view q code → p = q) ∧
    ∀ pid userId, c''.view.tasks[pid]? = some (.request userId, .finished (.error mailFailed)) →
      Untouched pid c''.shared.store ∧
      ∀ label, o = .performed pid label → c'.shared.tables = c.shared.tables := by
  have hsafe := Rules.Safe.run (valid hP) (Rules.safe_init (inv_initial users now)) before
  have hsafe' := (hsafe.step (valid hP) ((system P).moved_of_next happens) trivial).1
  have hinv := (hsafe'.run (valid hP) after).inv
  refine ⟨?_, ⟨hinv.record.redeemedOnce, ?_⟩, ?_⟩
  · intro userId hbefore hafter
    rcases commit_of_next before happens with hsame | ⟨pid, ho, hcommit⟩
    · rw [hsame] at hafter
      exact absurd hafter hbefore
    · rw [hcommit] at hafter
      obtain ⟨row, code, time, hconfirming⟩ := confirming_of_commit hP hsafe.inv hbefore hafter
      exact ⟨pid, row, code, time, ho, hconfirming⟩
  · rintro p q code ⟨user, value, hp⟩ ⟨user', value', hq⟩
    obtain ⟨row, time, hmem⟩ := hinv.delivered p _ _ hp
    obtain ⟨row', time', hmem'⟩ := hinv.delivered q _ _ hq
    have hsame := eq_of_filterMap_nodup hinv.record.redeemedOnce hmem hmem' rfl rfl
    exact congrArg Prod.fst hsame
  · intro pid userId hget
    have huntouched : Untouched pid c''.shared.store := hinv.delivered pid _ _ hget rfl
    refine ⟨huntouched, ?_⟩
    rintro label rfl
    rcases commit_of_next before happens with hsame | ⟨pid', ho, hcommit⟩
    · exact hsame
    · cases ho
      have hgrown : Grown c'.shared c''.shared :=
        hsafe'.run_rely (valid hP) after fun _ _ _ hrely => hrely.undisturbed.history_prefix
      have hnone : c.shared.store.own pid = [] := by
        rw [List.eq_nil_iff_forall_not_mem]
        intro e he
        apply huntouched.unwritten e
        apply hgrown.subset
        rw [hcommit]
        exact List.mem_append_right _ (List.mem_map.mpr ⟨e, he, rfl⟩)
      rw [hcommit]
      change (c.shared.store.own pid).foldl Tables.apply c.shared.tables = _
      rw [hnone]
      rfl

end Runs

section Sample

def sampleRow : UserRow :=
  ⟨⟨7, "ada@example.org", "pw", .user, true, false, none⟩, "ada", 0, 0⟩

def sampleRows : Table UserRow.key := ⟨[sampleRow], List.nodup_singleton _⟩

def isVerified (userId : UUID) (t : Tables) : Bool :=
  (t.users.find userId).any fun user => user.isVerified

theorem isVerified_iff {userId : UUID} {t : Tables} :
    isVerified userId t = true ↔ Verified userId t := by
  rw [isVerified, Option.any_eq_true]
  exact exists_congr fun user => Iff.rfl

/-- The first mail cannot be sent; the second one can, and its code is presented. -/
def sampleEvents : List (Event AuthChoice AuthRequest) :=
  [.start (.request 7), .act 0 {}, .act 0 {}, .act 0 {}, .act 0 { code := "2f" }, .act 0 {},
    .act 0 { fails := true }, .act 0 {}, .act 0 {},
    .start (.request 7), .act 1 {}, .act 1 {}, .act 1 {}, .act 1 { code := "c0" }, .act 1 {},
    .act 1 {}, .act 1 {}, .act 1 {},
    .start (.confirm 7 "c0"), .act 2 {}, .act 2 {}, .act 2 {}]

/-- The request has been answered that its mail could not be sent. -/
def unsent (v : AuthView) (pid : ℕ) (userId : UUID) : Bool :=
  match v.tasks[pid]? with
  | some (.request other, .finished (.error error)) => other = userId && error = mailFailed
  | _ => false

theorem unsent_get {v : AuthView} {pid : ℕ} {userId : UUID} (h : unsent v pid userId = true) :
    v.tasks[pid]? = some (.request userId, .finished (.error mailFailed)) := by
  unfold unsent at h
  split at h
  · rename_i other error hget
    rw [Bool.and_eq_true, decide_eq_true_eq, decide_eq_true_eq] at h
    rw [hget, h.1, h.2]
  · cases h

theorem email_verification_sample : ∃ c o c',
    (system samplePlatform).Run (fun _ _ => True) (.init (initial sampleRows 0)) c ∧
    (system samplePlatform).next c (.act 2 {}) = some (o, c') ∧ Verified 7 c'.shared.tables ∧
    (∃ pid row code time, o = .performed pid .commit ∧ Confirming c.view pid 7 row code time) ∧
    Untouched 0 c'.shared.store := by
  rcases (system samplePlatform).exists_run_next (fun _ _ => True) (.init (initial sampleRows 0))
    sampleEvents (.act 2 {}) (fun v _ v' => !isVerified 7 v.shared.tables &&
      isVerified 7 v'.shared.tables && unsent v' 0 7) (by decide +kernel) with
    ⟨c, o, c', before, happens, h⟩
  simp only [Bool.and_eq_true, Bool.not_eq_true'] at h
  have hclaim := email_verification (P := samplePlatform) (fun _ _ h => h) before happens .refl
  have hbefore : ¬ Verified 7 c.shared.tables := by
    rw [← isVerified_iff, Bool.not_eq_true]
    exact h.1.1
  have hafter : Verified 7 c'.shared.tables := isVerified_iff.mp h.1.2
  exact ⟨c, o, c', before, happens, hafter, hclaim.1 7 hbefore hafter,
    (hclaim.2.2 0 7 (unsent_get h.2)).1⟩

end Sample
end PhantomShare.EmailVerification
