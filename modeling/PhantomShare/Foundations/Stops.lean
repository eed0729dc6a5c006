import PhantomShare.Foundations.Guarded

/-!
# Steps that end a program

A step may be of a kind that leaves a program nothing but to raise. Where every
request of a system treats the kind in this way, no process that took such a step
is ever answered with a value, whatever the other processes do.
-/
namespace PhantomShare.Foundations
variable {σ κ ℓ ρ ε α β : Type}

namespace Program
variable {B : ℓ → σ → Prop}

/-- The program has nothing left but an exception. -/
def Raises : Program σ κ ℓ ε α → Prop
  | raise _ => True
  | _ => False

/-- After a step of the kind `B` the program raises. -/
def Stops (B : ℓ → σ → Prop) : Program σ κ ℓ ε α → Prop
  | done _ => True
  | raise _ => True
  | step label act next => ∀ pid s choice s' b, act pid s choice = some (s', b) →
      (B label s → (next b).Raises) ∧ (next b).Stops B

theorem raises_iff {p : Program σ κ ℓ ε α} : p.Raises ↔ ∃ error, p = raise error := by
  cases p <;> simp [Raises]

theorem Raises.bind {p : Program σ κ ℓ ε α} (h : p.Raises) (f : α → Program σ κ ℓ ε β) :
    (p >>= f).Raises := by
  rcases raises_iff.mp h with ⟨error, rfl⟩
  trivial

theorem stops_pure (value : α) : (pure value : Program σ κ ℓ ε α).Stops B := trivial

theorem stops_throw (error : ε) : (throw error : Program σ κ ℓ ε α).Stops B := trivial

theorem stops_ofExcept (result : Except ε α) : (ofExcept result : Program σ κ ℓ ε α).Stops B := by
  cases result with
  | ok value => trivial
  | error error => trivial

theorem Stops.bind {p : Program σ κ ℓ ε α} {f : α → Program σ κ ℓ ε β} (hp : p.Stops B)
    (hf : ∀ a, (f a).Stops B) : (p >>= f).Stops B := by
  induction p with
  | done value => exact hf value
  | raise error => trivial
  | step label act next ih =>
    intro pid s choice s' b hact
    have hstep := hp pid s choice s' b hact
    exact ⟨fun hB => (hstep.1 hB).bind f, ih b hstep.2⟩

theorem Stops.map {p : Program σ κ ℓ ε α} {f : α → β} (hp : p.Stops B) : (f <$> p).Stops B :=
  hp.bind fun a => stops_pure (f a)

/-- One atomic step of the kind has to raise. -/
theorem stops_perform {label : ℓ} {act : ℕ → σ → κ → Option (σ × Except ε α)}
    (h : ∀ pid s choice s' r, act pid s choice = some (s', r) → B label s → r.isOk = false) :
    (perform label act).Stops B := by
  intro pid s choice s' r hact
  refine ⟨?_, stops_ofExcept r⟩
  intro hB
  have hr := h pid s choice s' r hact hB
  cases r with
  | ok value => cases hr
  | error error => trivial

/-- A program that takes no step of the kind. -/
theorem Only.stops {p : Program σ κ ℓ ε α} (h : p.Only fun _ label s _ => ¬ B label s) :
    p.Stops B := by
  induction p with
  | done value => trivial
  | raise error => trivial
  | step label act next ih =>
    intro pid s choice s' b hact
    have hstep := h pid s choice s' b hact
    exact ⟨fun hB => absurd hB hstep.1, ih b hstep.2⟩

end Program

namespace Pool
open Program
variable {B : ℓ → σ → Prop} {c : Pool σ κ ℓ ρ ε α} {pid : ℕ}

/-- Every running program respects the kind. -/
def Stopping (B : ℓ → σ → Prop) (c : Pool σ κ ℓ ρ ε α) : Prop :=
  ∀ (pid : ℕ) (request : ρ) (p : Program σ κ ℓ ε α),
    c.tasks[pid]? = some (request, .running p) → p.Stops B

/-- The process will never be answered with a value. -/
def Ended (pid : ℕ) (c : Pool σ κ ℓ ρ ε α) : Prop :=
  ∃ (request : ρ) (phase : Phase (Program σ κ ℓ ε α) ε α),
    c.tasks[pid]? = some (request, phase) ∧
      (∀ p, phase = .running p → p.Raises) ∧ ∀ value, phase ≠ .finished (.ok value)

theorem Ended.setPhase {k : ℕ} {phase : Phase (Program σ κ ℓ ε α) ε α} (h : c.Ended pid) (s : σ)
    (hk : k ≠ pid) : ({ c with shared := s }.setPhase k phase).Ended pid := by
  rcases h with ⟨request, old, hget, hold⟩
  exact ⟨request, old, by simp [Pool.setPhase, hk, hget], hold⟩

theorem ended_setPhase {request : ρ} {old phase : Phase (Program σ κ ℓ ε α) ε α}
    (hget : c.tasks[pid]? = some (request, old)) (s : σ)
    (hraises : ∀ p, phase = .running p → p.Raises)
    (hvalue : ∀ value, phase ≠ .finished (.ok value)) :
    ({ c with shared := s }.setPhase pid phase).Ended pid :=
  ⟨request, phase, by simp [Pool.setPhase, hget], hraises, hvalue⟩

end Pool

namespace System
open Program
variable {S : System σ κ ℓ ρ ε α} {B : ℓ → σ → Prop} {c c' c₁ c₂ c₃ : Pool σ κ ℓ ρ ε α}
  {o : Occurrence ℓ ρ ε α} {pid : ℕ} {cond cond' : View σ ρ ε α → Occurrence ℓ ρ ε α → Prop}

theorem Moved.stopping (h : S.Moved c o c') (hserve : ∀ request, (S.serve request).Stops B)
    (hc : c.Stopping B) : c'.Stopping B := by
  apply h.all hserve _ hc
  intro β pid label act rest choice s b _ happens hstops
  exact (hstops pid c.shared choice s b happens).2

/-- A process that can only raise stays so. -/
theorem Moved.ended (h : S.Moved c o c') (hc : c.Ended pid) : c'.Ended pid := by
  cases h with
  | started request =>
    rcases hc with ⟨request', phase, hget, hphase⟩
    refine ⟨request', phase, ?_, hphase⟩
    rw [List.getElem?_append_left (List.getElem?_eq_some_iff.mp hget).1]
    exact hget
  | @returned k _ value task =>
    by_cases hk : k = pid
    · subst hk
      rcases hc with ⟨request', phase, hget, hraises, _⟩
      rw [task, Option.some.injEq, Prod.mk.injEq] at hget
      exact (hraises _ hget.2.symm).elim
    · exact hc.setPhase _ hk
  | @raised k request error task =>
    by_cases hk : k = pid
    · subst hk
      apply Pool.ended_setPhase task
      · intro p hp
        cases hp
      · intro value hvalue
        cases hvalue
    · exact hc.setPhase _ hk
  | @performed k request _ _ _ _ _ _ _ task _ =>
    by_cases hk : k = pid
    · subst hk
      rcases hc with ⟨request', phase, hget, hraises, _⟩
      rw [task, Option.some.injEq, Prod.mk.injEq] at hget
      exact (hraises _ hget.2.symm).elim
    · exact hc.setPhase _ hk
  | @crashed k request _ task =>
    by_cases hk : k = pid
    · subst hk
      apply Pool.ended_setPhase task
      · intro p hp
        cases hp
      · intro value hvalue
        cases hvalue
    · exact hc.setPhase _ hk

theorem Run.stopping (h : S.Run cond c c') (hserve : ∀ request, (S.serve request).Stops B)
    (hc : c.Stopping B) : c'.Stopping B := by
  induction h with
  | refl => exact hc
  | tail _ happens _ ih => exact (S.moved_of_next happens).stopping hserve ih

theorem Run.ended (h : S.Run cond c c') (hc : c.Ended pid) : c'.Ended pid := by
  induction h with
  | refl => exact hc
  | tail _ happens _ ih => exact (S.moved_of_next happens).ended ih

/-- No process that took a step of the kind is answered with a value in the rest of the run. -/
theorem never_returns (hserve : ∀ request, (S.serve request).Stops B) {s : σ}
    (before : S.Run cond (Pool.init s) c₁) {label : ℓ}
    (happens : S.Moved c₁ (.performed pid label) c₂) (hB : B label c₁.shared)
    (after : S.Run cond' c₂ c₃) (request : ρ) (value : α) :
    c₃.view.tasks[pid]? ≠ some (request, .finished (.ok value)) := by
  have hstop : c₁.Stopping B := before.stopping hserve (Pool.all_init s)
  have hended : c₂.Ended pid := by
    cases happens with
    | performed task happens =>
      apply Pool.ended_setPhase task
      · intro p hp
        cases hp
        exact (hstop _ _ _ task _ _ _ _ _ happens).1 hB
      · intro value hvalue
        cases hvalue
  rcases after.ended hended with ⟨request', phase, hget, _, hphase⟩
  intro hfinished
  rw [Pool.view_get, hget, Option.map_some, Option.some.injEq, Prod.mk.injEq] at hfinished
  cases phase with
  | running p => cases hfinished.2
  | crashed => cases hfinished.2
  | finished result => exact hphase value (congrArg Phase.finished (Phase.finished.inj hfinished.2))

end System
end PhantomShare.Foundations
