import Mathlib.Data.List.Basic

/-!
# Concurrent programs over a shared state

A program is a tree of atomic steps. A step reads and writes the shared state,
may depend on a choice of the surroundings, and is blocked where it has no
result. A system serves each request by a program of its own; the programs
interleave, and any of them may crash between two steps.
-/
namespace PhantomShare.Foundations

/-- `act` receives the number of the process that runs the program. -/
inductive Program (σ κ ℓ ε α : Type) : Type 1 where
  | done (value : α)
  | raise (error : ε)
  | step {β : Type} (label : ℓ) (act : ℕ → σ → κ → Option (σ × β))
      (next : β → Program σ κ ℓ ε α)

namespace Program
variable {σ κ ℓ ε α β : Type}

def bind : Program σ κ ℓ ε α → (α → Program σ κ ℓ ε β) → Program σ κ ℓ ε β
  | done value, f => f value
  | raise error, _ => raise error
  | step label act next, f => step label act fun b => (next b).bind f

/-- `try: … except: …`. -/
def handle : Program σ κ ℓ ε α → (ε → Program σ κ ℓ ε α) → Program σ κ ℓ ε α
  | done value, _ => done value
  | raise error, h => h error
  | step label act next, h => step label act fun b => (next b).handle h

instance : Monad (Program σ κ ℓ ε) where
  pure := done
  bind := bind

instance : MonadExcept ε (Program σ κ ℓ ε) where
  throw := raise
  tryCatch := handle

def ofExcept : Except ε α → Program σ κ ℓ ε α
  | .ok value => done value
  | .error error => raise error

/-- One atomic step that may raise. -/
def perform (label : ℓ) (act : ℕ → σ → κ → Option (σ × Except ε α)) : Program σ κ ℓ ε α :=
  step label act ofExcept

/-- `try: … finally: …`. -/
def ensuring (p : Program σ κ ℓ ε α) (cleanup : Program σ κ ℓ ε Unit) : Program σ κ ℓ ε α := do
  let value ← tryCatch p fun error => do
    cleanup
    throw error
  cleanup
  return value

end Program

inductive Phase.{u} (π : Type u) (ε α : Type) : Type u where
  | running (program : π)
  | finished (result : Except ε α)
  | crashed

/-- What assertions speak about: the shared state, and each request with its phase. -/
structure View (σ ρ ε α : Type) where
  shared : σ
  tasks : List (ρ × Phase Unit ε α)

namespace View
variable {σ ρ ε α : Type}

def start (v : View σ ρ ε α) (request : ρ) : View σ ρ ε α :=
  { v with tasks := v.tasks ++ [(request, .running ())] }

def update (v : View σ ρ ε α) (s : σ) : View σ ρ ε α := { v with shared := s }

def setPhase (v : View σ ρ ε α) (pid : ℕ) (phase : Phase Unit ε α) : View σ ρ ε α :=
  { v with tasks := v.tasks.modify pid fun task => (task.1, phase) }

def Running (v : View σ ρ ε α) (pid : ℕ) (request : ρ) : Prop :=
  v.tasks[pid]? = some (request, .running ())

/-- Whether a request has been answered without an exception. -/
def answered [DecidableEq ρ] (v : View σ ρ ε α) (pid : ℕ) (request : ρ) : Bool :=
  match v.tasks[pid]? with
  | some (r, .finished (.ok _)) => r = request
  | _ => false

@[simp] theorem start_shared (v : View σ ρ ε α) (request : ρ) :
    (v.start request).shared = v.shared := rfl
@[simp] theorem update_shared (v : View σ ρ ε α) (s : σ) : (v.update s).shared = s := rfl
@[simp] theorem update_tasks (v : View σ ρ ε α) (s : σ) : (v.update s).tasks = v.tasks := rfl
@[simp] theorem setPhase_shared (v : View σ ρ ε α) (pid : ℕ) (phase : Phase Unit ε α) :
    (v.setPhase pid phase).shared = v.shared := rfl

theorem start_get (v : View σ ρ ε α) (request : ρ) {pid : ℕ} (h : pid < v.tasks.length) :
    (v.start request).tasks[pid]? = v.tasks[pid]? := List.getElem?_append_left h

theorem start_running (v : View σ ρ ε α) (request : ρ) :
    (v.start request).Running v.tasks.length request := by
  simp [Running, start]

theorem setPhase_get (v : View σ ρ ε α) {pid k : ℕ} (phase : Phase Unit ε α) (h : k ≠ pid) :
    (v.setPhase pid phase).tasks[k]? = v.tasks[k]? := by
  simp [setPhase, h.symm]

theorem setPhase_get_self {v : View σ ρ ε α} {pid : ℕ} {request : ρ} {old : Phase Unit ε α}
    (phase : Phase Unit ε α) (h : v.tasks[pid]? = some (request, old)) :
    (v.setPhase pid phase).tasks[pid]? = some (request, phase) := by
  simp [setPhase, h]

@[simp] theorem start_length (v : View σ ρ ε α) (request : ρ) :
    (v.start request).tasks.length = v.tasks.length + 1 := by simp [start]

@[simp] theorem setPhase_length (v : View σ ρ ε α) (pid : ℕ) (phase : Phase Unit ε α) :
    (v.setPhase pid phase).tasks.length = v.tasks.length := by simp [setPhase]

theorem Running.lt {v : View σ ρ ε α} {pid : ℕ} {request : ρ} (h : v.Running pid request) :
    pid < v.tasks.length := (List.getElem?_eq_some_iff.mp h).1

/-- Every delivered result stands in the relation to its process, its request and the state. -/
def Delivered (told : ℕ → ρ → Except ε α → σ → Prop) (v : View σ ρ ε α) : Prop :=
  ∀ pid request result, v.tasks[pid]? = some (request, .finished result) →
    told pid request result v.shared

section Delivered
variable {told : ℕ → ρ → Except ε α → σ → Prop} {v : View σ ρ ε α} {pid : ℕ} {request : ρ}

theorem Delivered.start (h : v.Delivered told) (request : ρ) : (v.start request).Delivered told := by
  intro k request' result hget
  by_cases hk : k < v.tasks.length
  · rw [start_get v request hk] at hget
    exact h k request' result hget
  · have hlast : k = v.tasks.length := by
      have hlt := (List.getElem?_eq_some_iff.mp hget).1
      rw [start_length] at hlt
      omega
    rw [hlast, start_running v request] at hget
    cases hget

theorem Delivered.update (h : v.Delivered told) (hrun : v.Running pid request) {s : σ}
    (hothers : ∀ k request' result, k ≠ pid → told k request' result v.shared →
      told k request' result s) : (v.update s).Delivered told := by
  intro k request' result hget
  apply hothers k request' result
  · rintro rfl
    rw [update_tasks, hrun] at hget
    cases hget
  · exact h k request' result hget

theorem Delivered.setPhase (h : v.Delivered told) {phase old : Phase Unit ε α}
    (hrun : v.tasks[pid]? = some (request, old))
    (hown : ∀ result, phase = .finished result → told pid request result v.shared) :
    (v.setPhase pid phase).Delivered told := by
  intro k request' result hget
  by_cases hk : k = pid
  · subst hk
    rw [setPhase_get_self phase hrun] at hget
    cases hget
    exact hown result rfl
  · rw [setPhase_get _ _ hk] at hget
    exact h k request' result hget

end Delivered

theorem exists_of_answered [DecidableEq ρ] {v : View σ ρ ε α} {pid : ℕ} {request : ρ}
    (h : v.answered pid request = true) :
    ∃ value, v.tasks[pid]? = some (request, .finished (.ok value)) := by
  unfold answered at h
  split at h
  · rename_i r value hget
    rw [decide_eq_true_eq] at h
    exact ⟨value, h ▸ hget⟩
  · cases h

end View

/-- What happened in one transition of a system. -/
inductive Occurrence (ℓ ρ ε α : Type) where
  | started (request : ρ)
  | performed (pid : ℕ) (label : ℓ)
  | finished (pid : ℕ) (result : Except ε α)
  | crashed (pid : ℕ)

/-- What the scheduler asks for. -/
inductive Event (κ ρ : Type) where
  | start (request : ρ)
  | act (pid : ℕ) (choice : κ)
  | crash (pid : ℕ)

/-- `serve` is the program of a request; `recover` is what its crash does to the shared state. -/
structure System (σ κ ℓ ρ ε α : Type) : Type 1 where
  serve : ρ → Program σ κ ℓ ε α
  recover : ℕ → σ → σ

structure Pool (σ κ ℓ ρ ε α : Type) : Type 1 where
  shared : σ
  tasks : List (ρ × Phase (Program σ κ ℓ ε α) ε α)

variable {σ κ ℓ ρ ε α : Type}

def Phase.forget {π : Type*} : Phase π ε α → Phase Unit ε α
  | .running _ => .running ()
  | .finished result => .finished result
  | .crashed => .crashed

namespace Pool

def init (s : σ) : Pool σ κ ℓ ρ ε α := ⟨s, []⟩

def view (c : Pool σ κ ℓ ρ ε α) : View σ ρ ε α :=
  ⟨c.shared, c.tasks.map fun task => (task.1, task.2.forget)⟩

def setPhase (c : Pool σ κ ℓ ρ ε α) (pid : ℕ) (phase : Phase (Program σ κ ℓ ε α) ε α) :
    Pool σ κ ℓ ρ ε α :=
  { c with tasks := c.tasks.modify pid fun task => (task.1, phase) }

theorem view_get (c : Pool σ κ ℓ ρ ε α) (pid : ℕ) :
    c.view.tasks[pid]? = c.tasks[pid]?.map fun task => (task.1, task.2.forget) := by
  simp [view]

theorem view_setPhase (c : Pool σ κ ℓ ρ ε α) (pid : ℕ)
    (phase : Phase (Program σ κ ℓ ε α) ε α) :
    (c.setPhase pid phase).view = c.view.setPhase pid phase.forget := by
  simp only [view, setPhase, View.setPhase, View.mk.injEq, true_and]
  apply List.ext_getElem?
  intro k
  simp only [List.getElem?_map, List.getElem?_modify]
  cases c.tasks[k]? <;> by_cases h : pid = k <;> simp [h]

end Pool

namespace System
variable (S : System σ κ ℓ ρ ε α)

/-- One transition. A step whose `act` has no result does not happen. -/
def next (c : Pool σ κ ℓ ρ ε α) :
    Event κ ρ → Option (Occurrence ℓ ρ ε α × Pool σ κ ℓ ρ ε α)
  | .start request =>
    some (.started request, { c with tasks := c.tasks ++ [(request, .running (S.serve request))] })
  | .act pid choice =>
    match c.tasks[pid]? with
    | some (_, .running (.done value)) =>
      some (.finished pid (.ok value), c.setPhase pid (.finished (.ok value)))
    | some (_, .running (.raise error)) =>
      some (.finished pid (.error error), c.setPhase pid (.finished (.error error)))
    | some (_, .running (.step label act next)) =>
      match act pid c.shared choice with
      | some (s, b) =>
        some (.performed pid label, { c with shared := s }.setPhase pid (.running (next b)))
      | none => none
    | _ => none
  | .crash pid =>
    match c.tasks[pid]? with
    | some (_, .running _) =>
      some (.crashed pid, { c with shared := S.recover pid c.shared }.setPhase pid .crashed)
    | _ => none

/-- What a transition does to the pool. -/
inductive Moved (c : Pool σ κ ℓ ρ ε α) : Occurrence ℓ ρ ε α → Pool σ κ ℓ ρ ε α → Prop
  | started (request : ρ) : Moved c (.started request)
      { c with tasks := c.tasks ++ [(request, .running (S.serve request))] }
  | returned {pid : ℕ} {request : ρ} {value : α}
      (task : c.tasks[pid]? = some (request, .running (.done value))) :
      Moved c (.finished pid (.ok value))
        ({ c with shared := c.shared }.setPhase pid (.finished (.ok value)))
  | raised {pid : ℕ} {request : ρ} {error : ε}
      (task : c.tasks[pid]? = some (request, .running (.raise error))) :
      Moved c (.finished pid (.error error))
        ({ c with shared := c.shared }.setPhase pid (.finished (.error error)))
  | performed {pid : ℕ} {request : ρ} {β : Type} {label : ℓ}
      {act : ℕ → σ → κ → Option (σ × β)} {rest : β → Program σ κ ℓ ε α} {choice : κ} {s : σ} {b : β}
      (task : c.tasks[pid]? = some (request, .running (.step label act rest)))
      (happens : act pid c.shared choice = some (s, b)) :
      Moved c (.performed pid label) ({ c with shared := s }.setPhase pid (.running (rest b)))
  | crashed {pid : ℕ} {request : ρ} {p : Program σ κ ℓ ε α}
      (task : c.tasks[pid]? = some (request, .running p)) :
      Moved c (.crashed pid) ({ c with shared := S.recover pid c.shared }.setPhase pid .crashed)

theorem moved_of_next {c c' : Pool σ κ ℓ ρ ε α} {e : Event κ ρ} {o : Occurrence ℓ ρ ε α}
    (h : S.next c e = some (o, c')) : S.Moved c o c' := by
  cases e with
  | start request =>
    simp only [next, Option.some.injEq, Prod.mk.injEq] at h
    rcases h with ⟨rfl, rfl⟩
    exact .started request
  | act pid choice =>
    rcases htask : c.tasks[pid]? with _ | ⟨request, p | result | _⟩
    · simp [next, htask] at h
    · cases p with
      | done value =>
        simp only [next, htask, Option.some.injEq, Prod.mk.injEq] at h
        rcases h with ⟨rfl, rfl⟩
        exact .returned htask
      | raise error =>
        simp only [next, htask, Option.some.injEq, Prod.mk.injEq] at h
        rcases h with ⟨rfl, rfl⟩
        exact .raised htask
      | step label act rest =>
        rcases hact : act pid c.shared choice with _ | ⟨s, b⟩
        · simp [next, htask, hact] at h
        · simp only [next, htask, hact, Option.some.injEq, Prod.mk.injEq] at h
          rcases h with ⟨rfl, rfl⟩
          exact .performed htask hact
    · simp [next, htask] at h
    · simp [next, htask] at h
  | crash pid =>
    rcases htask : c.tasks[pid]? with _ | ⟨request, p | result | _⟩
    · simp [next, htask] at h
    · simp only [next, htask, Option.some.injEq, Prod.mk.injEq] at h
      rcases h with ⟨rfl, rfl⟩
      exact .crashed htask
    · simp [next, htask] at h
    · simp [next, htask] at h

/-- The runs from `c` whose every transition meets the condition. -/
inductive Run (cond : View σ ρ ε α → Occurrence ℓ ρ ε α → Prop) (c : Pool σ κ ℓ ρ ε α) :
    Pool σ κ ℓ ρ ε α → Prop
  | refl : Run cond c c
  | tail {c₁ c₂ : Pool σ κ ℓ ρ ε α} {e : Event κ ρ} {o : Occurrence ℓ ρ ε α}
      (prior : Run cond c c₁) (happens : S.next c₁ e = some (o, c₂)) (meets : cond c₁.view o) :
      Run cond c c₂

/-- The pool after a list of events, when each of them can happen and meets the condition. -/
def replay (cond : View σ ρ ε α → Occurrence ℓ ρ ε α → Prop) [∀ v o, Decidable (cond v o)]
    (c : Pool σ κ ℓ ρ ε α) : List (Event κ ρ) → Option (Pool σ κ ℓ ρ ε α)
  | [] => some c
  | e :: events =>
    match S.next c e with
    | some (o, c') => if cond c.view o then replay cond c' events else none
    | none => none

variable {S}

theorem Run.trans {cond : View σ ρ ε α → Occurrence ℓ ρ ε α → Prop}
    {a b c : Pool σ κ ℓ ρ ε α} (hab : S.Run cond a b) (hbc : S.Run cond b c) : S.Run cond a c := by
  induction hbc with
  | refl => exact hab
  | tail _ happens meets ih => exact ih.tail happens meets

theorem run_of_replay {cond : View σ ρ ε α → Occurrence ℓ ρ ε α → Prop}
    [∀ v o, Decidable (cond v o)] {c c' : Pool σ κ ℓ ρ ε α} {events : List (Event κ ρ)}
    (h : S.replay cond c events = some c') : S.Run cond c c' := by
  induction events generalizing c with
  | nil =>
    cases h
    exact .refl
  | cons e events ih =>
    cases hnext : S.next c e with
    | none => simp [replay, hnext] at h
    | some oc =>
      by_cases hcond : cond c.view oc.1
      · simp only [replay, hnext, if_pos hcond] at h
        exact (Run.refl.tail hnext hcond).trans (ih h)
      · simp [replay, hnext, hcond] at h

variable (S) in
/-- A computed run. -/
theorem exists_run (cond : View σ ρ ε α → Occurrence ℓ ρ ε α → Prop) [∀ v o, Decidable (cond v o)]
    (c : Pool σ κ ℓ ρ ε α) (events : List (Event κ ρ)) (p : View σ ρ ε α → Bool)
    (h : (S.replay cond c events).any (fun c' => p c'.view) = true) :
    ∃ c', S.Run cond c c' ∧ p c'.view = true := by
  rw [Option.any_eq_true] at h
  rcases h with ⟨c', hreplay, hp⟩
  exact ⟨c', run_of_replay hreplay, hp⟩

variable (S) in
/-- A computed run and the transition after it. -/
theorem exists_run_next (cond : View σ ρ ε α → Occurrence ℓ ρ ε α → Prop)
    [∀ v o, Decidable (cond v o)] (c : Pool σ κ ℓ ρ ε α) (events : List (Event κ ρ)) (e : Event κ ρ)
    (p : View σ ρ ε α → Occurrence ℓ ρ ε α → View σ ρ ε α → Bool)
    (h : ((S.replay cond c events).any fun c₁ => (S.next c₁ e).any fun step =>
      p c₁.view step.1 step.2.view) = true) :
    ∃ c₁ o c₂, S.Run cond c c₁ ∧ S.next c₁ e = some (o, c₂) ∧ p c₁.view o c₂.view = true := by
  rw [Option.any_eq_true] at h
  rcases h with ⟨c₁, hbefore, h⟩
  rw [Option.any_eq_true] at h
  rcases h with ⟨⟨o, c₂⟩, hnext, hp⟩
  exact ⟨c₁, o, c₂, run_of_replay hbefore, hnext, hp⟩

variable (S) in
/-- A computed run with one of its transitions. -/
theorem exists_run_through (cond : View σ ρ ε α → Occurrence ℓ ρ ε α → Prop)
    [∀ v o, Decidable (cond v o)] (c : Pool σ κ ℓ ρ ε α) (events : List (Event κ ρ)) (e : Event κ ρ)
    (events' : List (Event κ ρ)) (p : View σ ρ ε α → Occurrence ℓ ρ ε α → View σ ρ ε α → Bool)
    (h : ((S.replay cond c events).any fun c₁ => (S.next c₁ e).any fun step =>
      (S.replay cond step.2 events').any fun c₃ => p c₁.view step.1 c₃.view) = true) :
    ∃ c₁ o c₂ c₃, S.Run cond c c₁ ∧ S.next c₁ e = some (o, c₂) ∧ S.Run cond c₂ c₃ ∧
      p c₁.view o c₃.view = true := by
  rw [Option.any_eq_true] at h
  rcases h with ⟨c₁, hbefore, h⟩
  rw [Option.any_eq_true] at h
  rcases h with ⟨⟨o, c₂⟩, hnext, h⟩
  rw [Option.any_eq_true] at h
  rcases h with ⟨c₃, hafter, hp⟩
  exact ⟨c₁, o, c₂, c₃, run_of_replay hbefore, hnext, run_of_replay hafter, hp⟩

end System
end PhantomShare.Foundations
