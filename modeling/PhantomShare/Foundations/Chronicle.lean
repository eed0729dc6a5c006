import PhantomShare.Foundations.Log
import PhantomShare.Foundations.Since

/-!
# What a process has done

The actions of a process are the steps that it has performed, each with the
choice of the surroundings and the state before and after. Between two of them
the other processes do as they like. A chronicle of a run notes the actions of
every process.
-/
namespace PhantomShare.Foundations
variable {σ κ ℓ ρ ε α β : Type}

/-- A performed step. -/
structure Action (σ κ ℓ : Type) where
  label : ℓ
  before : σ
  choice : κ
  after : σ

namespace Program
variable {pid : ℕ} {E : List (Action σ κ ℓ) → σ → Prop}
  {R : List (Action σ κ ℓ) → Action σ κ ℓ → Prop}
  {K : List (Action σ κ ℓ) → α → Prop} {L : List (Action σ κ ℓ) → β → Prop}
  {past : List (Action σ κ ℓ)}

/-- Every action that is taken in a state which accords with the past by `E` stands in `R` to the
actions before it, and a returned value stands in `K` to all of them. -/
def Accounts (pid : ℕ) (E : List (Action σ κ ℓ) → σ → Prop)
    (R : List (Action σ κ ℓ) → Action σ κ ℓ → Prop) (K : List (Action σ κ ℓ) → α → Prop) :
    Program σ κ ℓ ε α → List (Action σ κ ℓ) → Prop
  | done value, past => K past value
  | raise _, _ => True
  | step label act next, past => ∀ s choice s' b, E past s → act pid s choice = some (s', b) →
      R past ⟨label, s, choice, s'⟩ ∧
        (next b).Accounts pid E R K (past ++ [⟨label, s, choice, s'⟩])

theorem accounts_pure {value : α} (h : K past value) :
    (pure value : Program σ κ ℓ ε α).Accounts pid E R K past := h

theorem accounts_throw (error : ε) : (throw error : Program σ κ ℓ ε α).Accounts pid E R K past :=
  trivial

theorem accounts_ofExcept {result : Except ε α} (h : ∀ value, result = .ok value → K past value) :
    (ofExcept result : Program σ κ ℓ ε α).Accounts pid E R K past := by
  cases result with
  | ok value => exact h value rfl
  | error error => trivial

/-- What was done before is still among the past actions later. -/
theorem Accounts.bind {p : Program σ κ ℓ ε α} {f : α → Program σ κ ℓ ε β}
    (hp : p.Accounts pid E R K past)
    (hf : ∀ past' value, past ⊆ past' → K past' value → (f value).Accounts pid E R L past') :
    (p >>= f).Accounts pid E R L past := by
  induction p generalizing past with
  | done value => exact hf past value (List.Subset.refl past) hp
  | raise error => trivial
  | step label act next ih =>
    intro s choice s' b hE hact
    have hstep := hp s choice s' b hE hact
    refine ⟨hstep.1, ih b hstep.2 ?_⟩
    intro past' value hsub
    exact hf past' value (List.Subset.trans (List.subset_append_left _ _) hsub)

theorem Accounts.tryCatch {p : Program σ κ ℓ ε α} {handler : ε → Program σ κ ℓ ε α}
    (hp : p.Accounts pid E R K past)
    (hhandler : ∀ past' error, past ⊆ past' → (handler error).Accounts pid E R K past') :
    (tryCatch p handler).Accounts pid E R K past := by
  induction p generalizing past with
  | done value => exact hp
  | raise error => exact hhandler past error (List.Subset.refl past)
  | step label act next ih =>
    intro s choice s' b hE hact
    have hstep := hp s choice s' b hE hact
    refine ⟨hstep.1, ih b hstep.2 ?_⟩
    intro past' error hsub
    exact hhandler past' error (List.Subset.trans (List.subset_append_left _ _) hsub)

theorem Accounts.ensuring {p : Program σ κ ℓ ε α} {cleanup : Program σ κ ℓ ε Unit}
    (hp : p.Accounts pid E R (fun _ _ => True) past)
    (hcleanup : ∀ past', past ⊆ past' → cleanup.Accounts pid E R (fun _ _ => True) past') :
    (p.ensuring cleanup).Accounts pid E R (fun _ _ => True) past := by
  apply Accounts.bind (K := fun _ _ => True)
  · apply hp.tryCatch
    intro past' error hsub
    apply (hcleanup past' hsub).bind
    exact fun _ _ _ _ => accounts_throw error
  · intro past' value hsub _
    apply (hcleanup past' hsub).bind
    exact fun _ _ _ _ => accounts_pure trivial

theorem Accounts.mono {K' : List (Action σ κ ℓ) → α → Prop} {p : Program σ κ ℓ ε α}
    (hp : p.Accounts pid E R K past) (h : ∀ past value, K past value → K' past value) :
    p.Accounts pid E R K' past := by
  induction p generalizing past with
  | done value => exact h past value hp
  | raise error => trivial
  | step label act next ih =>
    intro s choice s' b hE hact
    have hstep := hp s choice s' b hE hact
    exact ⟨hstep.1, ih b hstep.2⟩

theorem Accounts.relax {R' : List (Action σ κ ℓ) → Action σ κ ℓ → Prop} {p : Program σ κ ℓ ε α}
    (hp : p.Accounts pid E R K past) (h : ∀ past action, R past action → R' past action) :
    p.Accounts pid E R' K past := by
  induction p generalizing past with
  | done value => exact hp
  | raise error => trivial
  | step label act next ih =>
    intro s choice s' b hE hact
    have hstep := hp s choice s' b hE hact
    exact ⟨h past _ hstep.1, ih b hstep.2⟩

/-- A relation that always holds. -/
theorem accounts_of_forall {p : Program σ κ ℓ ε α} (h : ∀ past action, R past action) :
    p.Accounts pid E R (fun _ _ => True) past := by
  induction p generalizing past with
  | done value => trivial
  | raise error => trivial
  | step label act next ih =>
    intro s choice s' b _ hact
    exact ⟨h past _, ih b⟩

theorem accounts_perform {label : ℓ} {act : ℕ → σ → κ → Option (σ × Except ε α)}
    (h : ∀ s choice s' r, E past s → act pid s choice = some (s', r) → R past ⟨label, s, choice, s'⟩ ∧
      ∀ value, r = .ok value → K (past ++ [⟨label, s, choice, s'⟩]) value) :
    (perform label act).Accounts pid E R K past := by
  intro s choice s' r hE hact
  have hstep := h s choice s' r hE hact
  exact ⟨hstep.1, accounts_ofExcept hstep.2⟩

/-- The one action of a step is known exactly. -/
theorem accounts_action {label : ℓ} {act : ℕ → σ → κ → Option (σ × Except ε α)}
    (h : ∀ s choice s', R past ⟨label, s, choice, s'⟩) :
    (perform label act).Accounts pid E R (fun past' value => ∃ s choice s', E past s ∧
      act pid s choice = some (s', .ok value) ∧ past' = past ++ [⟨label, s, choice, s'⟩]) past := by
  apply accounts_perform
  intro s choice s' r hE hact
  refine ⟨h s choice s', ?_⟩
  intro value hr
  exact ⟨s, choice, s', hE, hr ▸ hact, rfl⟩

/-- Steps within a bound, when the bound is enough for the relation. -/
theorem Only.accounts {T : ℕ → ℓ → σ → σ → Prop} {p : Program σ κ ℓ ε α} (hp : p.Only T)
    (h : ∀ past' action, past ⊆ past' → T pid action.label action.before action.after →
      R past' action) :
    p.Accounts pid E R (fun _ _ => True) past := by
  induction p generalizing past with
  | done value => trivial
  | raise error => trivial
  | step label act next ih =>
    intro s choice s' b _ hact
    have hstep := hp pid s choice s' b hact
    refine ⟨h past _ (List.Subset.refl past) hstep.1, ih b hstep.2 ?_⟩
    intro past' action hsub
    exact h past' action (List.Subset.trans (List.subset_append_left _ _) hsub)

end Program

namespace System
variable {S : System σ κ ℓ ρ ε α} {c c' : Pool σ κ ℓ ρ ε α} {past : ℕ → List (Action σ κ ℓ)}

/-- The actions of all processes after a transition. -/
def note (past : ℕ → List (Action σ κ ℓ)) (s s' : σ) :
    Event κ ρ → Occurrence ℓ ρ ε α → ℕ → List (Action σ κ ℓ)
  | .act pid choice, .performed _ label =>
    Function.update past pid (past pid ++ [⟨label, s, choice, s'⟩])
  | _, _ => past

/-- A run from `c`, with the actions of its processes. -/
inductive Chronicle (S : System σ κ ℓ ρ ε α) (c : Pool σ κ ℓ ρ ε α) :
    (ℕ → List (Action σ κ ℓ)) → Pool σ κ ℓ ρ ε α → Prop
  | refl : Chronicle S c (fun _ => []) c
  | tail {past : ℕ → List (Action σ κ ℓ)} {c₁ c₂ : Pool σ κ ℓ ρ ε α} {e : Event κ ρ}
      {o : Occurrence ℓ ρ ε α} (prior : Chronicle S c past c₁)
      (happens : S.next c₁ e = some (o, c₂)) :
      Chronicle S c (note past c₁.shared c₂.shared e o) c₂

variable (past) in
/-- A transition is noted as an action of one process, or leaves the actions as they are. -/
theorem note_of_next {e : Event κ ρ} {o : Occurrence ℓ ρ ε α} (happens : S.next c e = some (o, c')) :
    (note past c.shared c'.shared e o = past ∧
      (c'.shared = c.shared ∨ ∃ pid, c'.shared = S.recover pid c.shared)) ∨
    ∃ pid label choice, o = .performed pid label ∧ note past c.shared c'.shared e o =
      Function.update past pid (past pid ++ [⟨label, c.shared, choice, c'.shared⟩]) := by
  have hmoved := S.moved_of_next happens
  cases hmoved with
  | started request => exact Or.inl ⟨by cases e <;> rfl, Or.inl rfl⟩
  | returned task => exact Or.inl ⟨by cases e <;> rfl, Or.inl rfl⟩
  | raised task => exact Or.inl ⟨by cases e <;> rfl, Or.inl rfl⟩
  | crashed task => exact Or.inl ⟨by cases e <;> rfl, Or.inr ⟨_, rfl⟩⟩
  | @performed pid request _ label act rest choice s b task hact =>
    right
    cases e with
    | start request => simp [System.next] at happens
    | act k choice =>
      rcases htask : c.tasks[k]? with _ | ⟨request, p | result | _⟩
      · simp [System.next, htask] at happens
      · cases p with
        | done value => simp [System.next, htask] at happens
        | raise error => simp [System.next, htask] at happens
        | step label act rest =>
          rcases hact : act k c.shared choice with _ | ⟨s, b⟩
          · simp [System.next, htask, hact] at happens
          · simp only [System.next, htask, hact, Option.some.injEq, Prod.mk.injEq,
              Occurrence.performed.injEq] at happens
            obtain ⟨⟨rfl, rfl⟩, _⟩ := happens
            exact ⟨_, _, choice, rfl, rfl⟩
      · simp [System.next, htask] at happens
      · simp [System.next, htask] at happens
    | crash k =>
      rcases htask : c.tasks[k]? with _ | ⟨request, p | result | _⟩ <;>
        simp [System.next, htask] at happens

/-- Every run has a chronicle. -/
theorem Run.chronicle {cond : View σ ρ ε α → Occurrence ℓ ρ ε α → Prop} (run : S.Run cond c c') :
    ∃ past, S.Chronicle c past c' := by
  induction run with
  | refl => exact ⟨_, .refl⟩
  | tail _ happens _ ih =>
    rcases ih with ⟨past, prior⟩
    exact ⟨_, prior.tail happens⟩

theorem Chronicle.run (told : S.Chronicle c past c') : S.Run (fun _ _ => True) c c' := by
  induction told with
  | refl => exact .refl
  | tail _ happens ih => exact ih.tail happens trivial

/-- A run divides at each of the actions that it took. -/
theorem Chronicle.divide (told : S.Chronicle c past c') {pid : ℕ}
    {earlier later : List (Action σ κ ℓ)} {action : Action σ κ ℓ}
    (hpast : past pid = earlier ++ action :: later) :
    ∃ c₁ c₂ e, S.Run (fun _ _ => True) c c₁ ∧ c₁.shared = action.before ∧
      S.next c₁ e = some (.performed pid action.label, c₂) ∧ S.Run (fun _ _ => True) c₂ c' := by
  induction told generalizing later with
  | refl => simp at hpast
  | @tail past c₁ c₂ e o prior happens ih =>
    rcases note_of_next past happens with ⟨hsame, -⟩ | ⟨actor, label, choice, rfl, hnote⟩
    · rw [hsame] at hpast
      obtain ⟨d₁, d₂, e', before, hbefore, hacts, after⟩ := ih hpast
      exact ⟨d₁, d₂, e', before, hbefore, hacts, after.tail happens trivial⟩
    · rw [hnote] at hpast
      by_cases hactor : pid = actor
      · subst hactor
        rw [Function.update_self] at hpast
        rcases place_in_snoc hpast with ⟨-, rfl, -⟩ | ⟨middle, -, hprior⟩
        · exact ⟨c₁, c₂, e, prior.run, rfl, happens, .refl⟩
        · obtain ⟨d₁, d₂, e', before, hbefore, hacts, after⟩ := ih hprior
          exact ⟨d₁, d₂, e', before, hbefore, hacts, after.tail happens trivial⟩
      · rw [Function.update_of_ne hactor] at hpast
        obtain ⟨d₁, d₂, e', before, hbefore, hacts, after⟩ := ih hpast
        exact ⟨d₁, d₂, e', before, hbefore, hacts, after.tail happens trivial⟩

/-- The chronicle of a list of events, when each of them can happen. -/
def retell (S : System σ κ ℓ ρ ε α) (past : ℕ → List (Action σ κ ℓ)) (c : Pool σ κ ℓ ρ ε α) :
    List (Event κ ρ) → Option ((ℕ → List (Action σ κ ℓ)) × Pool σ κ ℓ ρ ε α)
  | [] => some (past, c)
  | e :: events =>
    match S.next c e with
    | some (o, c') => retell S (note past c.shared c'.shared e o) c' events
    | none => none

theorem chronicle_of_retell {start : Pool σ κ ℓ ρ ε α} {past' : ℕ → List (Action σ κ ℓ)}
    {events : List (Event κ ρ)} (prior : S.Chronicle start past c)
    (h : S.retell past c events = some (past', c')) : S.Chronicle start past' c' := by
  induction events generalizing past c with
  | nil =>
    cases h
    exact prior
  | cons e events ih =>
    cases hnext : S.next c e with
    | none => simp [retell, hnext] at h
    | some oc =>
      simp only [retell, hnext] at h
      exact ih (prior.tail hnext) h

variable (S) in
/-- A computed chronicle. -/
theorem exists_chronicle (c : Pool σ κ ℓ ρ ε α) (events : List (Event κ ρ))
    (p : (ℕ → List (Action σ κ ℓ)) → View σ ρ ε α → Bool)
    (h : (S.retell (fun _ => []) c events).any (fun told => p told.1 told.2.view) = true) :
    ∃ past c', S.Chronicle c past c' ∧ p past c'.view = true := by
  rw [Option.any_eq_true] at h
  rcases h with ⟨⟨past, c'⟩, htold, hp⟩
  exact ⟨past, c', chronicle_of_retell .refl htold, hp⟩

/-- The actions of the processes so far, what is left of their programs and the returned values
accord with `E`, `R` and `K`. -/
structure Accounted (E : List (Action σ κ ℓ) → σ → Prop)
    (R : ρ → List (Action σ κ ℓ) → Action σ κ ℓ → Prop) (K : ρ → List (Action σ κ ℓ) → α → Prop)
    (past : ℕ → List (Action σ κ ℓ)) (c : Pool σ κ ℓ ρ ε α) : Prop where
  done : ∀ pid request phase, c.tasks[pid]? = some (request, phase) →
    Throughout (R request) (past pid)
  ahead : ∀ pid request (p : Program σ κ ℓ ε α), c.tasks[pid]? = some (request, .running p) →
    p.Accounts pid E (R request) (K request) (past pid)
  returned : ∀ pid request value, c.tasks[pid]? = some (request, .finished (.ok value)) →
    K request (past pid) value
  later : ∀ pid, c.tasks.length ≤ pid → past pid = []

section Accounted
variable {E : List (Action σ κ ℓ) → σ → Prop} {R : ρ → List (Action σ κ ℓ) → Action σ κ ℓ → Prop}
  {K : ρ → List (Action σ κ ℓ) → α → Prop}

/-- The actions of every process so far stand in the relation to those before. -/
theorem Accounted.throughout {R' : List (Action σ κ ℓ) → Action σ κ ℓ → Prop}
    (h : Accounted E (fun _ => R') K past c) (pid : ℕ) : Throughout R' (past pid) := by
  rcases htask : c.tasks[pid]? with _ | ⟨request, phase⟩
  · rw [h.later pid (List.getElem?_eq_none_iff.mp htask)]
    exact throughout_nil
  · exact h.done pid request phase htask

theorem Accounted.setPhase (h : Accounted E R K past c) {pid : ℕ} {own : ρ}
    {phase old : Phase (Program σ κ ℓ ε α) ε α} (s : σ) (more : List (Action σ κ ℓ))
    (htask : c.tasks[pid]? = some (own, old)) (hdone : Throughout (R own) (past pid ++ more))
    (hahead : ∀ p, phase = .running p → p.Accounts pid E (R own) (K own) (past pid ++ more))
    (hreturned : ∀ value, phase = .finished (.ok value) → K own (past pid ++ more) value) :
    Accounted E R K (Function.update past pid (past pid ++ more))
      ({ c with shared := s }.setPhase pid phase) := by
  have hother : ∀ k, k ≠ pid →
      ({ c with shared := s }.setPhase pid phase).tasks[k]? = c.tasks[k]? := by
    intro k hk
    simp [Pool.setPhase, hk.symm]
  have hself : ({ c with shared := s }.setPhase pid phase).tasks[pid]? = some (own, phase) := by
    simp [Pool.setPhase, htask]
  have hlength : ({ c with shared := s }.setPhase pid phase).tasks.length = c.tasks.length := by
    simp [Pool.setPhase]
  constructor
  · intro k request phase' hget
    by_cases hk : k = pid
    · subst hk
      rw [hself, Option.some.injEq, Prod.mk.injEq] at hget
      rw [Function.update_self, ← hget.1]
      exact hdone
    · rw [Function.update_of_ne hk]
      rw [hother k hk] at hget
      exact h.done k request phase' hget
  · intro k request p hget
    by_cases hk : k = pid
    · subst hk
      rw [hself, Option.some.injEq, Prod.mk.injEq] at hget
      rw [Function.update_self, ← hget.1]
      exact hahead p hget.2
    · rw [Function.update_of_ne hk]
      rw [hother k hk] at hget
      exact h.ahead k request p hget
  · intro k request value hget
    by_cases hk : k = pid
    · subst hk
      rw [hself, Option.some.injEq, Prod.mk.injEq] at hget
      rw [Function.update_self, ← hget.1]
      exact hreturned value hget.2
    · rw [Function.update_of_ne hk]
      rw [hother k hk] at hget
      exact h.returned k request value hget
  · intro k hk
    rw [hlength] at hk
    have hlt := (List.getElem?_eq_some_iff.mp htask).1
    rw [Function.update_of_ne (by omega)]
    exact h.later k hk

theorem Accounted.next {e : Event κ ρ} {o : Occurrence ℓ ρ ε α}
    (hserve : ∀ pid request, (S.serve request).Accounts pid E (R request) (K request) [])
    (happens : S.next c e = some (o, c')) (hE : ∀ pid, E (past pid) c.shared)
    (h : Accounted E R K past c) : Accounted E R K (note past c.shared c'.shared e o) c' := by
  -- a transition that performs no step leaves the actions as they are
  have hquiet {pid : ℕ} {own : ρ} {phase old : Phase (Program σ κ ℓ ε α) ε α} (s : σ)
      (htask : c.tasks[pid]? = some (own, old)) (hphase : ∀ p, phase ≠ .running p)
      (hreturned : ∀ value, phase = .finished (.ok value) → K own (past pid) value) :
      Accounted E R K past ({ c with shared := s }.setPhase pid phase) := by
    have hmore := h.setPhase s [] htask (by simpa using h.done pid own old htask)
      (fun p hp => absurd hp (hphase p)) (by simpa using hreturned)
    rwa [List.append_nil, Function.update_eq_self] at hmore
  cases e with
  | start request =>
    simp only [System.next, Option.some.injEq, Prod.mk.injEq] at happens
    rcases happens with ⟨rfl, rfl⟩
    have hget : ∀ pid task, (c.tasks ++ [(request, .running (S.serve request))])[pid]? = some task →
        c.tasks[pid]? = some task ∨
          past pid = [] ∧ task = (request, .running (S.serve request)) := by
      intro pid task hget
      rcases Nat.lt_or_ge pid c.tasks.length with hlt | hge
      · rw [List.getElem?_append_left hlt] at hget
        exact Or.inl hget
      · rw [List.getElem?_append_right hge, List.getElem?_singleton] at hget
        split at hget
        · cases hget
          exact Or.inr ⟨h.later pid hge, rfl⟩
        · cases hget
    constructor
    · intro pid request' phase htask
      rcases hget pid _ htask with hold | ⟨hnil, hnew⟩
      · exact h.done pid request' phase hold
      · simp only [note, hnil]
        exact throughout_nil
    · intro pid request' p htask
      rcases hget pid _ htask with hold | ⟨hnil, hnew⟩
      · exact h.ahead pid request' p hold
      · rw [Prod.mk.injEq, Phase.running.injEq] at hnew
        simp only [note, hnil, hnew.1, hnew.2]
        exact hserve pid request
    · intro pid request' value htask
      rcases hget pid _ htask with hold | ⟨_, hnew⟩
      · exact h.returned pid request' value hold
      · cases hnew
    · intro pid hpid
      rw [List.length_append] at hpid
      exact h.later pid (by omega)
  | act pid choice =>
    rcases htask : c.tasks[pid]? with _ | ⟨request, p | result | _⟩
    · simp [System.next, htask] at happens
    · cases p with
      | done value =>
        simp only [System.next, htask, Option.some.injEq, Prod.mk.injEq] at happens
        rcases happens with ⟨rfl, rfl⟩
        refine hquiet c.shared htask (by simp) ?_
        intro value' hvalue
        cases hvalue
        exact h.ahead pid request _ htask
      | raise error =>
        simp only [System.next, htask, Option.some.injEq, Prod.mk.injEq] at happens
        rcases happens with ⟨rfl, rfl⟩
        exact hquiet c.shared htask (by simp) (by simp)
      | step label act rest =>
        rcases hact : act pid c.shared choice with _ | ⟨s, b⟩
        · simp [System.next, htask, hact] at happens
        · simp only [System.next, htask, hact, Option.some.injEq, Prod.mk.injEq] at happens
          rcases happens with ⟨rfl, rfl⟩
          have hstep := h.ahead pid request _ htask c.shared choice s b (hE pid) hact
          apply h.setPhase s _ htask
          · exact (h.done pid request _ htask).snoc hstep.1
          · intro p hp
            cases hp
            exact hstep.2
          · simp
    · simp [System.next, htask] at happens
    · simp [System.next, htask] at happens
  | crash pid =>
    rcases htask : c.tasks[pid]? with _ | ⟨request, p | result | _⟩
    · simp [System.next, htask] at happens
    · simp only [System.next, htask, Option.some.injEq, Prod.mk.injEq] at happens
      rcases happens with ⟨rfl, rfl⟩
      exact hquiet _ htask (by simp) (by simp)
    · simp [System.next, htask] at happens
    · simp [System.next, htask] at happens

/-- When every program accounts for its actions in the states of a run, so does every process. -/
theorem Chronicle.accounted {s : σ} (told : S.Chronicle (.init s) past c)
    (hE : ∀ past c, S.Chronicle (.init s) past c → ∀ pid, E (past pid) c.shared)
    (hserve : ∀ pid request, (S.serve request).Accounts pid E (R request) (K request) []) :
    Accounted E R K past c := by
  induction told with
  | refl => exact ⟨by simp [Pool.init], by simp [Pool.init], by simp [Pool.init], fun _ _ => rfl⟩
  | tail prior happens ih => exact ih.next hserve happens (hE _ _ prior)

end Accounted

/-- A state keeps an invariant and is no earlier than the actions of the past. -/
def Situated (I : σ → Prop) (Le : σ → σ → Prop) (past : List (Action σ κ ℓ)) (s : σ) : Prop :=
  I s ∧ ∀ action ∈ past, Le action.before s

/-- What all bounded steps and crashes keep situates every process of a run. -/
theorem Chronicle.situated {I : σ → Prop} {Le : σ → σ → Prop} {T : ℕ → ℓ → σ → σ → Prop} {s : σ}
    (told : S.Chronicle (.init s) past c) (trans : ∀ a b d, Le a b → Le b d → Le a d)
    (refl : ∀ a, Le a a) (hserve : ∀ request, (S.serve request).Only T)
    (hstep : ∀ pid label a b, I a → T pid label a b → I b ∧ Le a b)
    (hrecover : ∀ pid a, I a → I (S.recover pid a) ∧ Le a (S.recover pid a)) (hinit : I s) :
    c.All (Program.Only T) ∧ ∀ pid, Situated I Le (past pid) c.shared := by
  induction told with
  | refl => exact ⟨Pool.all_init s, fun _ => ⟨hinit, by simp⟩⟩
  | @tail past c₁ c₂ e o prior happens ih =>
    have hmoved := S.moved_of_next happens
    have hI := (ih.2 0).1
    have hmove : I c₂.shared ∧ Le c₁.shared c₂.shared := by
      rcases hmoved.bounded ih.1 with hsame | ⟨pid, label, hT⟩ | ⟨pid, hcrash⟩
      · rw [hsame]
        exact ⟨hI, refl _⟩
      · exact hstep pid label _ _ hI hT
      · rw [hcrash]
        exact hrecover pid _ hI
    have hlater : ∀ pid, ∀ action ∈ past pid, Le action.before c₂.shared :=
      fun pid action hmem => trans _ _ _ ((ih.2 pid).2 action hmem) hmove.2
    constructor
    · apply hmoved.all hserve _ ih.1
      intro β pid label act rest choice a b _ hact hbound
      exact (hbound pid _ choice a b hact).2
    · intro pid
      refine ⟨hmove.1, ?_⟩
      intro action hmem
      cases e <;> cases o <;> try exact hlater pid action hmem
      rename_i k choice k' label
      simp only [note] at hmem
      by_cases hk : pid = k
      · subst hk
        rw [Function.update_self, List.mem_append, List.mem_singleton] at hmem
        rcases hmem with hold | rfl
        · exact hlater pid action hold
        · exact hmove.2
      · rw [Function.update_of_ne hk] at hmem
        exact hlater pid action hmem

end System
end PhantomShare.Foundations
