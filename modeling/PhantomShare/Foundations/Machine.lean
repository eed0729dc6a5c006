import Mathlib.Data.List.Basic
import Mathlib.Logic.Relation

/-!
# State machines

An event that is not enabled in a state has no result there. A run lists its events;
a condition on the state and the event of each step singles out some of the runs. An
abstract machine need not be a function: its trace is the list of the operations of a
run.
-/
namespace PhantomShare.Foundations
variable {σ ε : Type}

/-- The runs from a state whose every step meets the condition, with their events. -/
inductive Steps (next : σ → ε → Option σ) (cond : σ → ε → Prop) (s : σ) : List ε → σ → Prop
  | refl : Steps next cond s [] s
  | tail {events : List ε} {s₁ s₂ : σ} {e : ε} (prior : Steps next cond s events s₁)
      (happens : next s₁ e = some s₂) (meets : cond s₁ e) : Steps next cond s (events ++ [e]) s₂

namespace Steps
variable {next : σ → ε → Option σ} {cond : σ → ε → Prop} {s s' : σ} {events : List ε}

/-- What every step keeps holds at the end of a run. -/
theorem keeps {P : σ → Prop} (h : Steps next cond s events s') (init : P s)
    (step : ∀ {s₁ s₂ e}, P s₁ → cond s₁ e → next s₁ e = some s₂ → P s₂) : P s' := by
  induction h with
  | refl => exact init
  | tail _ happens meets ih => exact step ih meets happens

/-- When every step of a kind uses up some of what there was, a run has no more of them. -/
theorem countP_le {P : σ → Prop} (h : Steps next cond s events s') (init : P s)
    (step : ∀ {s₁ s₂ e}, P s₁ → cond s₁ e → next s₁ e = some s₂ → P s₂) (potential : σ → ℕ)
    (kind : ε → Bool)
    (uses : ∀ {s₁ s₂ e}, P s₁ → cond s₁ e → next s₁ e = some s₂ →
      potential s₂ + (if kind e then 1 else 0) ≤ potential s₁) :
    potential s' + events.countP kind ≤ potential s := by
  induction h with
  | refl => simp
  | tail prior happens meets ih =>
    have huse := uses (prior.keeps init step) meets happens
    rw [List.countP_append, List.countP_singleton]
    omega

end Steps

/-- The state after a list of events, when each of them can happen and meets the condition. -/
def replayed (next : σ → ε → Option σ) (cond : σ → ε → Prop) [∀ s e, Decidable (cond s e)] (s : σ) :
    List ε → Option σ
  | [] => some s
  | e :: events =>
    if cond s e then (next s e).bind fun s' => replayed next cond s' events else none

theorem Steps.head {next : σ → ε → Option σ} {cond : σ → ε → Prop} {s s₁ s' : σ} {e : ε}
    {events : List ε} (happens : next s e = some s₁) (meets : cond s e)
    (rest : Steps next cond s₁ events s') : Steps next cond s (e :: events) s' := by
  induction rest with
  | refl => exact Steps.tail .refl happens meets
  | tail _ happens' meets' ih => exact ih.tail happens' meets'

theorem steps_of_replayed {next : σ → ε → Option σ} {cond : σ → ε → Prop}
    [∀ s e, Decidable (cond s e)] {s s' : σ} {events : List ε}
    (h : replayed next cond s events = some s') : Steps next cond s events s' := by
  induction events generalizing s with
  | nil =>
    cases h
    exact .refl
  | cons e events ih =>
    rw [replayed] at h
    split at h
    · rename_i meets
      rcases Option.bind_eq_some_iff.mp h with ⟨s₁, happens, hrest⟩
      exact Steps.head happens meets (ih hrest)
    · cases h

/-- A computed run. -/
theorem exists_steps (next : σ → ε → Option σ) (cond : σ → ε → Prop)
    [∀ s e, Decidable (cond s e)] (s : σ) (events : List ε) (p : σ → Bool)
    (h : (replayed next cond s events).any p = true) :
    ∃ s', Steps next cond s events s' ∧ p s' = true := by
  rw [Option.any_eq_true] at h
  rcases h with ⟨s', hreplay, hp⟩
  exact ⟨s', steps_of_replayed hreplay, hp⟩

end PhantomShare.Foundations

/-! ### Traces of an abstract machine -/

namespace PhantomShare.Foundations

/-- `Trace step s ops s'`: the machine gets from `s` to `s'` by the operations, in their order. -/
inductive Trace {σ ω : Type} (step : σ → ω → σ → Prop) (s : σ) : List ω → σ → Prop
  | nil : Trace step s [] s
  | snoc {ops : List ω} {s' s'' : σ} {op : ω} (prior : Trace step s ops s')
      (last : step s' op s'') : Trace step s (ops ++ [op]) s''

namespace Trace
variable {σ ω : Type} {step : σ → ω → σ → Prop} {s s' : σ} {ops : List ω}

/-- A relation between the operations performed so far and the state. -/
theorem invariant {I : List ω → σ → Prop} (h : Trace step s ops s') (hinit : I [] s)
    (hstep : ∀ ops a op b, I ops a → step a op b → I (ops ++ [op]) b) : I ops s' := by
  induction h with
  | nil => exact hinit
  | snoc _ last ih => exact hstep _ _ _ _ ih last

end Trace
end PhantomShare.Foundations
