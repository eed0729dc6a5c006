import PhantomShare.Foundations.Program

/-!
# Rely and guarantee for interleaved programs

A proof about all runs gives an invariant of what every process sees, and for
each process a relation that the transitions of the others satisfy. The weakest
precondition of a program lets the others move before each of its steps, so the
assertions it starts from are stable by construction. The rules hold for the
runs whose every transition meets the given condition.
-/
namespace PhantomShare.Foundations

structure Rules (σ ℓ ρ ε α : Type) where
  cond : View σ ρ ε α → Occurrence ℓ ρ ε α → Prop
  inv : View σ ρ ε α → Prop
  rely : ℕ → View σ ρ ε α → View σ ρ ε α → Prop

namespace Rules
variable {σ κ ℓ ρ ε α γ δ : Type} (R : Rules σ ℓ ρ ε α)

/-- What the transitions of the other processes do, as process `pid` sees it. -/
def Env (pid : ℕ) (v v' : View σ ρ ε α) : Prop :=
  R.rely pid v v' ∧ v'.tasks[pid]? = v.tasks[pid]?

/-- A transition of process `pid` keeps the invariant and what every other process relies on. -/
def Moves (pid : ℕ) (v v' : View σ ρ ε α) : Prop :=
  R.inv v' ∧ ∀ k, k ≠ pid → R.rely k v v'

/-- From `v`, all steps of the program are legal and its result satisfies `Q`. -/
def wp (pid : ℕ) : Program σ κ ℓ ε γ → (Except ε γ → View σ ρ ε α → Prop) →
    View σ ρ ε α → Prop
  | .done value, Q, v => Q (.ok value) v
  | .raise error, Q, v => Q (.error error) v
  | .step label act next, Q, v =>
    ∀ v₁, R.Env pid v v₁ → R.inv v₁ → R.cond v₁ (.performed pid label) →
      ∀ choice s b, act pid v₁.shared choice = some (s, b) →
        R.Moves pid v₁ (v₁.update s) ∧ wp pid (next b) Q (v₁.update s)

/-- The postcondition of the first of two programs: an exception skips the second. -/
def orRaise (K : γ → View σ ρ ε α → Prop) (Q : Except ε δ → View σ ρ ε α → Prop) :
    Except ε γ → View σ ρ ε α → Prop
  | .ok value, v => K value v
  | .error error, v => Q (.error error) v

/-- The postcondition of the body of `try`. -/
def orHandle (H : ε → View σ ρ ε α → Prop) (Q : Except ε γ → View σ ρ ε α → Prop) :
    Except ε γ → View σ ρ ε α → Prop
  | .ok value, v => Q (.ok value) v
  | .error error, v => H error v

/-- The result may be delivered, however long that takes. -/
def Finishing (pid : ℕ) (result : Except ε α) (v : View σ ρ ε α) : Prop :=
  ∀ v₁, R.Env pid v v₁ → R.inv v₁ → R.cond v₁ (.finished pid result) →
    R.Moves pid v₁ (v₁.setPhase pid (.finished result))

variable {R}

theorem wp_pure {pid : ℕ} {value : γ} {Q : Except ε γ → View σ ρ ε α → Prop}
    {v : View σ ρ ε α} (h : Q (.ok value) v) :
    R.wp pid (pure value : Program σ κ ℓ ε γ) Q v := h

theorem wp_throw {pid : ℕ} {error : ε} {Q : Except ε γ → View σ ρ ε α → Prop}
    {v : View σ ρ ε α} (h : Q (.error error) v) :
    R.wp pid (throw error : Program σ κ ℓ ε γ) Q v := h

theorem wp_mono {pid : ℕ} {p : Program σ κ ℓ ε γ} {Q Q' : Except ε γ → View σ ρ ε α → Prop}
    {v : View σ ρ ε α} (h : R.wp pid p Q v) (hQ : ∀ r v', Q r v' → Q' r v') :
    R.wp pid p Q' v := by
  induction p generalizing v with
  | done value => exact hQ _ _ h
  | raise error => exact hQ _ _ h
  | step label act next ih =>
    intro v₁ henv hinv hcond choice s b hact
    have hstep := h v₁ henv hinv hcond choice s b hact
    exact ⟨hstep.1, ih b hstep.2⟩

theorem wp_bind {pid : ℕ} {p : Program σ κ ℓ ε γ} {f : γ → Program σ κ ℓ ε δ}
    {Q : Except ε δ → View σ ρ ε α → Prop} {v : View σ ρ ε α}
    (h : R.wp pid p (orRaise (fun value => R.wp pid (f value) Q) Q) v) :
    R.wp pid (p >>= f) Q v := by
  induction p generalizing v with
  | done value => exact h
  | raise error => exact h
  | step label act next ih =>
    intro v₁ henv hinv hcond choice s b hact
    have hstep := h v₁ henv hinv hcond choice s b hact
    exact ⟨hstep.1, ih b hstep.2⟩

theorem wp_map {pid : ℕ} {p : Program σ κ ℓ ε γ} {f : γ → δ}
    {Q : Except ε δ → View σ ρ ε α → Prop} {v : View σ ρ ε α}
    (h : R.wp pid p (fun r => Q (r.map f)) v) : R.wp pid (f <$> p) Q v := by
  apply wp_bind
  apply wp_mono h
  intro r v' hQ
  cases r with
  | ok value => exact hQ
  | error error => exact hQ

theorem wp_tryCatch {pid : ℕ} {p : Program σ κ ℓ ε γ} {handler : ε → Program σ κ ℓ ε γ}
    {Q : Except ε γ → View σ ρ ε α → Prop} {v : View σ ρ ε α}
    (h : R.wp pid p (orHandle (fun error => R.wp pid (handler error) Q) Q) v) :
    R.wp pid (tryCatch p handler) Q v := by
  induction p generalizing v with
  | done value => exact h
  | raise error => exact h
  | step label act next ih =>
    intro v₁ henv hinv hcond choice s b hact
    have hstep := h v₁ henv hinv hcond choice s b hact
    exact ⟨hstep.1, ih b hstep.2⟩

theorem wp_perform {pid : ℕ} {label : ℓ} {act : ℕ → σ → κ → Option (σ × Except ε γ)}
    {Q : Except ε γ → View σ ρ ε α → Prop} {v : View σ ρ ε α}
    (h : ∀ v₁, R.Env pid v v₁ → R.inv v₁ → R.cond v₁ (.performed pid label) →
      ∀ choice s r, act pid v₁.shared choice = some (s, r) →
        R.Moves pid v₁ (v₁.update s) ∧ Q r (v₁.update s)) :
    R.wp pid (Program.perform label act) Q v := by
  intro v₁ henv hinv hcond choice s r hact
  have hstep := h v₁ henv hinv hcond choice s r hact
  refine ⟨hstep.1, ?_⟩
  cases r with
  | ok value => exact hstep.2
  | error error => exact hstep.2

variable (R)

/-- The obligations of a proof: the relation is a preorder, and starting a request, crashing
and every step of every program respect the invariant and the relation. -/
structure Valid (S : System σ κ ℓ ρ ε α) : Prop where
  rely_refl : ∀ pid v, R.rely pid v v
  rely_trans : ∀ pid {a b c}, R.rely pid a b → R.rely pid b c → R.rely pid a c
  start : ∀ v request, R.inv v → R.cond v (.started request) →
    R.Moves v.tasks.length v (v.start request) ∧
      R.wp v.tasks.length (S.serve request) (R.Finishing v.tasks.length) (v.start request)
  crash : ∀ v pid request, R.inv v → v.Running pid request → R.cond v (.crashed pid) →
    R.Moves pid v ((v.update (S.recover pid v.shared)).setPhase pid .crashed)

variable {R} {S : System σ κ ℓ ρ ε α}

namespace Valid
variable (valid : R.Valid S)
include valid

theorem env_trans {pid : ℕ} {a b c : View σ ρ ε α} (hab : R.Env pid a b) (hbc : R.Env pid b c) :
    R.Env pid a c :=
  ⟨valid.rely_trans pid hab.1 hbc.1, hbc.2.trans hab.2⟩

theorem env_refl (pid : ℕ) (v : View σ ρ ε α) : R.Env pid v v := ⟨valid.rely_refl pid v, rfl⟩

/-- What is left of a program stays safe while the others move. -/
theorem wp_env {pid : ℕ} {p : Program σ κ ℓ ε α} {v v' : View σ ρ ε α} (henv : R.Env pid v v')
    (h : R.wp pid p (R.Finishing pid) v) : R.wp pid p (R.Finishing pid) v' := by
  cases p with
  | done value => exact fun v₁ h₁ => h v₁ (valid.env_trans henv h₁)
  | raise error => exact fun v₁ h₁ => h v₁ (valid.env_trans henv h₁)
  | step label act next => exact fun v₁ h₁ => h v₁ (valid.env_trans henv h₁)

end Valid

/-- The invariant holds and what is left of every running program is safe. -/
structure Safe (R : Rules σ ℓ ρ ε α) (c : Pool σ κ ℓ ρ ε α) : Prop where
  inv : R.inv c.view
  wp : ∀ pid request p, c.tasks[pid]? = some (request, .running p) →
    R.wp pid p (R.Finishing pid) c.view

theorem safe_init {s : σ} (h : R.inv ⟨s, []⟩) : Safe R (Pool.init s : Pool σ κ ℓ ρ ε α) where
  inv := h
  wp pid request p hget := by simp [Pool.init] at hget

/-- A process that moved is safe when its new program is, the others because they rely on it. -/
theorem Safe.of_moves (valid : R.Valid S) {c : Pool σ κ ℓ ρ ε α} (hsafe : Safe R c) (s : σ)
    {pid : ℕ} {phase : Phase (Program σ κ ℓ ε α) ε α}
    (hmoves : R.Moves pid c.view (({ c with shared := s }.setPhase pid phase).view))
    (hwp : ∀ p, phase = .running p →
      R.wp pid p (R.Finishing pid) (({ c with shared := s }.setPhase pid phase).view)) :
    Safe R ({ c with shared := s }.setPhase pid phase) where
  inv := hmoves.1
  wp k request p hget := by
    by_cases hk : k = pid
    · subst hk
      apply hwp
      simp only [Pool.setPhase, List.getElem?_modify_eq] at hget
      cases htask : c.tasks[k]? with
      | none => simp [htask] at hget
      | some task =>
        simp only [htask, Option.map_eq_map, Option.map_some, Option.some.injEq,
          Prod.mk.injEq] at hget
        exact hget.2
    · have hold : c.tasks[k]? = some (request, .running p) := by
        simpa [Pool.setPhase, List.getElem?_modify, Ne.symm hk] using hget
      apply valid.wp_env _ (hsafe.wp k request p hold)
      refine ⟨hmoves.2 k hk, ?_⟩
      rw [Pool.view_setPhase, View.setPhase_get _ _ hk]
      rfl

/-- A transition of a safe pool is a legal move of one process and leads to a safe pool. -/
theorem Safe.step (valid : R.Valid S) {c c' : Pool σ κ ℓ ρ ε α} {o : Occurrence ℓ ρ ε α}
    (hsafe : Safe R c) (h : S.Moved c o c') (hcond : R.cond c.view o) :
    Safe R c' ∧ ∃ pid, R.Moves pid c.view c'.view := by
  cases h with
  | started request =>
    have hstart := valid.start c.view request hsafe.inv hcond
    have hview : ({ c with tasks := c.tasks ++ [(request, .running (S.serve request))] } :
        Pool σ κ ℓ ρ ε α).view = c.view.start request := by
      simp [Pool.view, View.start, Phase.forget]
    have hlength : c.view.tasks.length = c.tasks.length := by simp [Pool.view]
    rw [hlength] at hstart
    rw [hview]
    refine ⟨?_, c.tasks.length, hstart.1⟩
    constructor
    · rw [hview]
      exact hstart.1.1
    · intro pid request' p hget
      rw [hview]
      by_cases hpid : pid < c.tasks.length
      · rw [List.getElem?_append_left hpid] at hget
        apply valid.wp_env _ (hsafe.wp pid request' p hget)
        exact ⟨hstart.1.2 pid (Nat.ne_of_lt hpid), View.start_get _ _ (hlength ▸ hpid)⟩
      · have hlast : pid = c.tasks.length := by
          have hlt := (List.getElem?_eq_some_iff.mp hget).1
          simp at hlt
          omega
        subst hlast
        rw [List.getElem?_concat_length, Option.some.injEq, Prod.mk.injEq,
          Phase.running.injEq] at hget
        rw [← hget.2]
        exact hstart.2
  | @returned pid request value task =>
    have hmoves := hsafe.wp pid request _ task c.view (valid.env_refl pid _) hsafe.inv hcond
    have hview := Pool.view_setPhase c pid (.finished (.ok value))
    refine ⟨hsafe.of_moves valid c.shared (hview ▸ hmoves) ?_, pid, hview ▸ hmoves⟩
    intro p hp
    cases hp
  | @raised pid request error task =>
    have hmoves := hsafe.wp pid request _ task c.view (valid.env_refl pid _) hsafe.inv hcond
    have hview := Pool.view_setPhase c pid (.finished (.error error))
    refine ⟨hsafe.of_moves valid c.shared (hview ▸ hmoves) ?_, pid, hview ▸ hmoves⟩
    intro p hp
    cases hp
  | @performed pid request _ label act rest choice s b task happens =>
    have hstep := hsafe.wp pid request _ task c.view (valid.env_refl pid _) hsafe.inv hcond choice s
      b happens
    have hview : (({ c with shared := s }.setPhase pid (.running (rest b)) :
        Pool σ κ ℓ ρ ε α)).view = c.view.update s := by
      rw [Pool.view_setPhase]
      simp only [View.setPhase, View.update, Pool.view, Phase.forget, View.mk.injEq, true_and]
      apply List.ext_getElem?
      intro k
      by_cases hk : pid = k
      · subst hk
        simp [task]
      · simp [hk]
    rw [← hview] at hstep
    refine ⟨hsafe.of_moves valid s hstep.1 ?_, pid, hstep.1⟩
    intro p hp
    cases hp
    exact hstep.2
  | @crashed pid request p task =>
    have hrunning : c.view.Running pid request := by
      simp [View.Running, Pool.view_get, task, Phase.forget]
    have hmoves := valid.crash c.view pid request hsafe.inv hrunning hcond
    have hview := Pool.view_setPhase { c with shared := S.recover pid c.shared } pid .crashed
    refine ⟨hsafe.of_moves valid (S.recover pid c.shared) (hview ▸ hmoves) ?_, pid, hview ▸ hmoves⟩
    intro p hp
    cases hp

/-- A valid proof makes every state of every conditioned run safe. -/
theorem Safe.run (valid : R.Valid S) {c c' : Pool σ κ ℓ ρ ε α} (hsafe : Safe R c)
    (hrun : S.Run R.cond c c') : Safe R c' := by
  induction hrun with
  | refl => exact hsafe
  | tail _ happens meets ih => exact (ih.step valid (S.moved_of_next happens) meets).1

/-- The invariant holds in every state that a run from an idle system reaches. -/
theorem Valid.inv_of_run (valid : R.Valid S) {s : σ} {c : Pool σ κ ℓ ρ ε α} (h : R.inv ⟨s, []⟩)
    (hrun : S.Run R.cond (Pool.init s) c) : R.inv c.view :=
  (Safe.run valid (safe_init h) hrun).inv

/-- What all processes may rely on across one transition holds across a run. -/
theorem Safe.run_rely (valid : R.Valid S) {c c' : Pool σ κ ℓ ρ ε α} (hsafe : Safe R c)
    (hrun : S.Run R.cond c c') {Q : σ → σ → Prop} [IsPreorder σ Q]
    (h : ∀ pid v v', R.rely pid v v' → Q v.shared v'.shared) : Q c.shared c'.shared := by
  induction hrun with
  | refl => exact refl_of Q _
  | tail prior happens meets ih =>
    rcases ((hsafe.run valid prior).step valid (S.moved_of_next happens) meets).2 with ⟨pid, hmoves⟩
    exact trans_of Q ih (h (pid + 1) _ _ (hmoves.2 (pid + 1) (Nat.succ_ne_self pid)))

end Rules
end PhantomShare.Foundations
