import Mathlib.Order.Defs.Unbundled
import PhantomShare.Foundations.RelyGuarantee
import PhantomShare.Foundations.Transaction

/-!
# Footprints

A bound on what each step of a program, or the whole of a transaction, does to
the state. Bounds compose along the structure of a program, so they are found
without looking at its assertions; the rule `Rules.wp_only` then turns a bound
into a proof that an assertion survives the program.
-/
namespace PhantomShare.Foundations

namespace Program
variable {σ κ ℓ ε α β : Type} {T T' : ℕ → ℓ → σ → σ → Prop}

/-- Every step that the program can take satisfies the relation. -/
def Only (T : ℕ → ℓ → σ → σ → Prop) : Program σ κ ℓ ε α → Prop
  | done _ => True
  | raise _ => True
  | step label act next => ∀ pid s choice s' b, act pid s choice = some (s', b) →
      T pid label s s' ∧ (next b).Only T

theorem only_pure (value : α) : (pure value : Program σ κ ℓ ε α).Only T := trivial

theorem only_throw (error : ε) : (throw error : Program σ κ ℓ ε α).Only T := trivial

theorem only_ofExcept (result : Except ε α) : (ofExcept result : Program σ κ ℓ ε α).Only T := by
  cases result with
  | ok value => trivial
  | error error => trivial

theorem Only.bind {p : Program σ κ ℓ ε α} {f : α → Program σ κ ℓ ε β} (hp : p.Only T)
    (hf : ∀ a, (f a).Only T) : (p >>= f).Only T := by
  induction p with
  | done value => exact hf value
  | raise error => trivial
  | step label act next ih =>
    intro pid s choice s' b hact
    have hstep := hp pid s choice s' b hact
    exact ⟨hstep.1, ih b hstep.2⟩

theorem Only.map {p : Program σ κ ℓ ε α} {f : α → β} (hp : p.Only T) : (f <$> p).Only T :=
  hp.bind fun a => only_pure (f a)

theorem Only.tryCatch {p : Program σ κ ℓ ε α} {handler : ε → Program σ κ ℓ ε α} (hp : p.Only T)
    (hhandler : ∀ error, (handler error).Only T) : (tryCatch p handler).Only T := by
  induction p with
  | done value => trivial
  | raise error => exact hhandler error
  | step label act next ih =>
    intro pid s choice s' b hact
    have hstep := hp pid s choice s' b hact
    exact ⟨hstep.1, ih b hstep.2⟩

theorem Only.ensuring {p : Program σ κ ℓ ε α} {cleanup : Program σ κ ℓ ε Unit} (hp : p.Only T)
    (hcleanup : cleanup.Only T) : (p.ensuring cleanup).Only T := by
  apply Only.bind
  · apply hp.tryCatch
    intro error
    exact hcleanup.bind fun _ => only_throw error
  · intro value
    exact hcleanup.bind fun _ => only_pure value

theorem only_perform {label : ℓ} {act : ℕ → σ → κ → Option (σ × Except ε α)}
    (h : ∀ pid s choice s' r, act pid s choice = some (s', r) → T pid label s s') :
    (perform label act).Only T := by
  intro pid s choice s' r hact
  exact ⟨h pid s choice s' r hact, only_ofExcept r⟩

theorem Only.mono {p : Program σ κ ℓ ε α} (hp : p.Only T)
    (h : ∀ pid label s s', T pid label s s' → T' pid label s s') : p.Only T' := by
  induction p with
  | done value => trivial
  | raise error => trivial
  | step label act next ih =>
    intro pid s choice s' b hact
    have hstep := hp pid s choice s' b hact
    exact ⟨h pid label s s' hstep.1, ih b hstep.2⟩

end Program

/-- An assertion that the other processes and the bounded steps keep survives the program. -/
theorem Rules.wp_only {σ κ ℓ ρ ε α γ : Type} {R : Rules σ ℓ ρ ε α} {pid : ℕ}
    {p : Program σ κ ℓ ε γ} {T : ℕ → ℓ → σ → σ → Prop} {A : View σ ρ ε α → Prop}
    {v : View σ ρ ε α} (hp : p.Only T)
    (stable : ∀ v v', A v → R.Env pid v v' → R.inv v' → A v')
    (moves : ∀ v label s', R.inv v → A v → R.cond v (.performed pid label) →
      T pid label v.shared s' → R.Moves pid v (v.update s') ∧ A (v.update s'))
    (h : A v) : R.wp pid p (fun _ v' => A v') v := by
  induction p generalizing v with
  | done value => exact h
  | raise error => exact h
  | step label act next ih =>
    intro v₁ henv hinv hcond choice s b hact
    have hstep := hp pid v₁.shared choice s b hact
    have hmoves := moves v₁ label s hinv (stable v v₁ h henv hinv) hcond hstep.1
    exact ⟨hmoves.1, ih b hstep.2 hmoves.2⟩

namespace Tx
variable {δ ε α β : Type} {R : δ → δ → Prop}

/-- Whatever the outcome, the relation holds between the states before and after. -/
structure Preserves (R : δ → δ → Prop) (x : Tx δ ε α) : Prop where
  holds : ∀ c, R c.db (x c).2.db

section Preorder
variable [IsPreorder δ R]

theorem preserves_pure (value : α) : (pure value : Tx δ ε α).Preserves R :=
  ⟨fun c => refl_of R c.db⟩

theorem preserves_throw (error : ε) : (throw error : Tx δ ε α).Preserves R :=
  ⟨fun c => refl_of R c.db⟩

theorem preserves_ofExcept (result : Except ε α) : (ofExcept result : Tx δ ε α).Preserves R :=
  ⟨fun c => refl_of R c.db⟩

theorem preserves_raiseIf (bad : Bool) (error : ε) :
    (raiseIf bad error : Tx δ ε Unit).Preserves R := by
  cases bad with
  | true => exact preserves_throw error
  | false => exact preserves_pure ()

theorem Preserves.bind {x : Tx δ ε α} {f : α → Tx δ ε β} (hx : x.Preserves R)
    (hf : ∀ a, (f a).Preserves R) : (x >>= f).Preserves R := by
  constructor
  intro c
  have hstep := hx.holds c
  rw [bind_apply]
  cases hxc : x c with
  | mk r c' =>
    rw [hxc] at hstep
    cases r with
    | ok value => exact trans_of R hstep ((hf value).holds c')
    | error error => exact hstep

theorem Preserves.tryCatch {x : Tx δ ε α} {handler : ε → Tx δ ε α} (hx : x.Preserves R)
    (hhandler : ∀ error, (handler error).Preserves R) : (tryCatch x handler).Preserves R := by
  constructor
  intro c
  have hstep := hx.holds c
  rw [tryCatch_apply]
  cases hxc : x c with
  | mk r c' =>
    rw [hxc] at hstep
    cases r with
    | ok value => exact hstep
    | error error => exact trans_of R hstep ((hhandler error).holds c')

variable [TransactionAborted ε]

theorem preserves_execute {statement : δ → Except ε (α × δ)}
    (h : ∀ db value db', statement db = .ok (value, db') → R db db') :
    (execute statement).Preserves R := by
  constructor
  intro c
  unfold execute
  by_cases hfailed : c.failed = true
  · rw [if_pos hfailed]
    exact refl_of R c.db
  · rw [if_neg hfailed]
    cases hs : statement c.db with
    | error error => exact refl_of R c.db
    | ok result => exact h c.db result.1 result.2 hs

theorem preserves_select (query : δ → α) : (select query : Tx δ ε α).Preserves R := by
  apply preserves_execute
  intro db value db' h
  cases h
  exact refl_of R db

theorem preserves_write {statement : δ → Except ε δ}
    (h : ∀ db db', statement db = .ok db' → R db db') : (write statement).Preserves R := by
  apply preserves_execute
  intro db value db' hs
  apply h
  cases hst : statement db with
  | error error => simp [hst, Except.map] at hs
  | ok db₁ =>
    simp only [hst, Except.map, Except.ok.injEq, Prod.mk.injEq] at hs
    rw [hs.2]

end Preorder

theorem Preserves.quietly {x : Tx δ ε Unit} (h : x.Preserves R) : (quietly x).Preserves R :=
  ⟨h.holds⟩

theorem Preserves.apply {x : Tx δ ε α} (h : x.Preserves R) {c c' : Connection δ}
    {result : Except ε α} (hx : x c = (result, c')) : R c.db c'.db := by
  have hholds := h.holds c
  rwa [hx] at hholds

theorem Preserves.run {x : Tx δ ε α} (h : x.Preserves R) {db db' : δ} {value : α}
    (hrun : x.run db = .ok (value, some db')) : R db db' := by
  rcases run_ok hrun with ⟨c, hx, hcommitted⟩
  have hstep := h.holds ⟨db, false⟩
  rw [hx] at hstep
  cases hfailed : c.failed with
  | true => simp [hfailed] at hcommitted
  | false =>
    simp only [hfailed, Bool.false_eq_true, if_false, Option.some.injEq] at hcommitted
    rw [hcommitted]
    exact hstep

end Tx
end PhantomShare.Foundations
