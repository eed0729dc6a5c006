import PhantomShare.Foundations.Stops

/-!
# Steps that decide a program

After a step of some kind a program has nothing left but to return, or nothing left
but to raise, and what decides is a condition on the state and the choice of that
step.
-/
namespace PhantomShare.Foundations
variable {σ κ ℓ ρ ε α β : Type}

namespace Program
variable {B : ℓ → σ → Prop} {G : ℓ → σ → κ → Prop}

/-- The program has nothing left but to return. -/
def Answers : Program σ κ ℓ ε α → Prop
  | done _ => True
  | _ => False

/-- A step of the kind `B` decides the program: it returns under `G` and raises otherwise. -/
def Decides (B : ℓ → σ → Prop) (G : ℓ → σ → κ → Prop) : Program σ κ ℓ ε α → Prop
  | done _ => True
  | raise _ => True
  | step label act next => ∀ pid s choice s' b, act pid s choice = some (s', b) →
      (B label s → (G label s choice → (next b).Answers) ∧ (¬ G label s choice → (next b).Raises)) ∧
        (next b).Decides B G

theorem answers_iff {p : Program σ κ ℓ ε α} : p.Answers ↔ ∃ value, p = done value := by
  cases p <;> simp [Answers]

theorem decides_throw (error : ε) : (throw error : Program σ κ ℓ ε α).Decides B G := trivial

/-- One atomic step of the kind decides by its result. -/
theorem decides_perform {label : ℓ} {act : ℕ → σ → κ → Option (σ × Except ε α)}
    (h : ∀ pid s choice s' r, act pid s choice = some (s', r) → B label s →
      (r.isOk = true ↔ G label s choice)) : (perform label act).Decides B G := by
  intro pid s choice s' r hact
  cases r with
  | ok value =>
    refine ⟨fun hB => ⟨fun _ => trivial, fun hG => ?_⟩, trivial⟩
    exact absurd ((h pid s choice s' _ hact hB).mp rfl) hG
  | error error =>
    refine ⟨fun hB => ⟨fun hG => ?_, fun _ => trivial⟩, trivial⟩
    cases (h pid s choice s' _ hact hB).mpr hG

/-- A decided program may still transform what it returns. -/
theorem Decides.map {f : α → β} {p : Program σ κ ℓ ε α} (hp : p.Decides B G) :
    (f <$> p).Decides B G := by
  induction p with
  | done value => trivial
  | raise error => trivial
  | step label act next ih =>
    intro pid s choice s' b hact
    have hstep := hp pid s choice s' b hact
    refine ⟨fun hB => ⟨fun hG => ?_, fun hG => ?_⟩, ih b hstep.2⟩
    · rcases answers_iff.mp ((hstep.1 hB).1 hG) with ⟨value, hvalue⟩
      change ((next b).bind fun a => done (f a)).Answers
      rw [hvalue]
      trivial
    · exact ((hstep.1 hB).2 hG).bind _

/-- What precedes the step of the kind does not matter. -/
theorem Only.decides_bind {p : Program σ κ ℓ ε α} {f : α → Program σ κ ℓ ε β}
    (hp : p.Only fun _ label s _ => ¬ B label s) (hf : ∀ a, (f a).Decides B G) :
    (p >>= f).Decides B G := by
  induction p with
  | done value => exact hf value
  | raise error => trivial
  | step label act next ih =>
    intro pid s choice s' b hact
    have hstep := hp pid s choice s' b hact
    exact ⟨fun hB => absurd hB hstep.1, ih b hstep.2⟩

/-- A step that always ends the program is never answered. -/
theorem decides_iff_stops {p : Program σ κ ℓ ε α} (hG : ∀ label s choice, ¬ G label s choice) :
    p.Decides B G ↔ p.Stops B := by
  induction p with
  | done value => exact Iff.rfl
  | raise error => exact Iff.rfl
  | step label act next ih =>
    constructor
    · intro h pid s choice s' b hact
      have hstep := h pid s choice s' b hact
      exact ⟨fun hB => (hstep.1 hB).2 (hG _ _ _), (ih b).mp hstep.2⟩
    · intro h pid s choice s' b hact
      have hstep := h pid s choice s' b hact
      refine ⟨fun hB => ⟨fun hyes => absurd hyes (hG _ _ _), fun _ => hstep.1 hB⟩, (ih b).mpr hstep.2⟩

end Program

namespace System
open Program
variable {S : System σ κ ℓ ρ ε α} {c c₁ c₂ : Pool σ κ ℓ ρ ε α} {pid : ℕ} {label : ℓ} {choice : κ}
  {kind : ρ → Prop} {B : ℓ → σ → Prop} {G : ρ → ℓ → σ → κ → Prop} {request : ρ}
  {cond : View σ ρ ε α → Occurrence ℓ ρ ε α → Prop}

theorem Run.each {L : ρ → Program σ κ ℓ ε α → Prop} (h : S.Run cond c c₁)
    (hserve : ∀ request, L request (S.serve request))
    (hstep : ∀ {β : Type} (request : ρ) (label : ℓ) (act : ℕ → σ → κ → Option (σ × β))
      (rest : β → Program σ κ ℓ ε α) (pid : ℕ) (s : σ) (choice : κ) (s' : σ) (b : β),
      act pid s choice = some (s', b) → L request (.step label act rest) → L request (rest b))
    (hc : c.Each L) : c₁.Each L := by
  induction h with
  | refl => exact hc
  | tail _ happens _ ih =>
    apply (S.moved_of_next happens).each hserve _ ih
    intro β request pid label act rest choice s b _ hact hL
    exact hstep request label act rest pid _ choice s b hact hL

/-- The step behind an event. -/
theorem performed_of_next
    (h : S.next c₁ (.act pid choice) = some (.performed pid label, c₂))
    (hrunning : c₁.view.Running pid request) :
    ∃ (β : Type) (act : ℕ → σ → κ → Option (σ × β)) (rest : β → Program σ κ ℓ ε α) (s : σ) (b : β),
      c₁.tasks[pid]? = some (request, .running (.step label act rest)) ∧
      act pid c₁.shared choice = some (s, b) ∧
      c₂ = { c₁ with shared := s }.setPhase pid (.running (rest b)) := by
  rw [View.Running, Pool.view_get] at hrunning
  rcases Option.map_eq_some_iff.mp hrunning with ⟨⟨own, phase⟩, htask, heq⟩
  cases phase with
  | finished result => cases heq
  | crashed => cases heq
  | running p =>
    cases heq
    cases p with
    | done value => simp [next, htask] at h
    | raise error => simp [next, htask] at h
    | @step β label' act rest =>
      cases hact : act pid c₁.shared choice with
      | none => simp [next, htask, hact] at h
      | some result =>
        simp only [next, htask, hact, Option.some.injEq, Prod.mk.injEq,
          Occurrence.performed.injEq, true_and] at h
        rcases h with ⟨rfl, rfl⟩
        exact ⟨β, act, rest, result.1, result.2, htask, hact, rfl⟩

/-- Whether a process is ever answered with a value is decided at its step of the kind. -/
theorem answered_iff [Inhabited κ] (hserve : ∀ request, kind request →
      (S.serve request).Decides B (G request)) {s : σ}
    (before : S.Run cond (Pool.init s) c₁) (hrunning : c₁.view.Running pid request)
    (hkind : kind request)
    (happens : S.next c₁ (.act pid choice) = some (.performed pid label, c₂))
    (hB : B label c₁.shared) :
    (∃ c₃, S.Run (fun _ _ => True) c₂ c₃ ∧
      ∃ value, c₃.view.tasks[pid]? = some (request, .finished (.ok value))) ↔
      G request label c₁.shared choice := by
  have hdecides : c₁.Each fun request p => kind request → p.Decides B (G request) := by
    refine Run.each before hserve ?_ (Pool.each_init s)
    intro β request label act rest pid s choice s' b hact hstep hk
    exact (hstep hk pid s choice s' b hact).2
  rcases performed_of_next happens hrunning with ⟨β, act, rest, s', b, htask, hact, rfl⟩
  have hdecided := (hdecides pid request _ htask hkind pid c₁.shared choice s' b hact).1 hB
  constructor
  · rintro ⟨c₃, after, value, hfinished⟩
    by_contra hG
    have hended := @Pool.ended_setPhase _ _ _ _ _ _ _ _ request _ (.running (rest b)) htask s'
      (fun p hp => by cases hp; exact hdecided.2 hG) nofun
    rcases after.ended hended with ⟨request', phase, hget, _, hphase⟩
    rw [Pool.view_get, hget, Option.map_some, Option.some.injEq, Prod.mk.injEq] at hfinished
    cases phase with
    | running p => cases hfinished.2
    | crashed => cases hfinished.2
    | finished result =>
      exact hphase value (congrArg Phase.finished (Phase.finished.inj hfinished.2))
  · intro hG
    rcases answers_iff.mp (hdecided.1 hG) with ⟨value, hvalue⟩
    have hget : ({ c₁ with shared := s' }.setPhase pid (.running (rest b))).tasks[pid]? =
        some (request, .running (.done value)) := by
      simp [Pool.setPhase, htask, hvalue]
    generalize { c₁ with shared := s' }.setPhase pid (.running (rest b)) = c at hget ⊢
    have hreturns : S.next c (.act pid default) =
        some (.finished pid (.ok value), c.setPhase pid (.finished (.ok value))) := by
      simp only [next, hget]
    refine ⟨_, Run.refl.tail hreturns trivial, value, ?_⟩
    rw [Pool.view_setPhase]
    apply View.setPhase_get_self
    rw [Pool.view_get, hget]
    rfl

end System
end PhantomShare.Foundations
