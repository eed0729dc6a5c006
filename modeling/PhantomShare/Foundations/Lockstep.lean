import Mathlib.Data.List.Forall2
import PhantomShare.Foundations.Program

/-!
# Two systems in lockstep

Programs over different states are alike when they have one shape and their steps,
taken in related states, give the same values. Two systems that serve every
request by programs alike are driven by the same events. They answer alike for as
long as the steps are taken where the relation can be kept.
-/
namespace PhantomShare.Foundations
variable {σ τ κ ℓ ρ ε α β : Type} {R : σ → τ → Prop} {G : ℓ → σ → τ → Prop}

namespace Program

/-- Steps taken in states that `R` relates and where `G` holds keep `R` and give the same values;
a value that both return has the property `K`. -/
inductive Alike (R : σ → τ → Prop) (G : ℓ → σ → τ → Prop) (K : α → Prop) :
    Program σ κ ℓ ε α → Program τ κ ℓ ε α → Prop
  | done {value : α} (h : K value) : Alike R G K (.done value) (.done value)
  | raise (error : ε) : Alike R G K (.raise error) (.raise error)
  | step {β : Type} {label : ℓ} {act : ℕ → σ → κ → Option (σ × β)}
      {act' : ℕ → τ → κ → Option (τ × β)} {rest : β → Program σ κ ℓ ε α}
      {rest' : β → Program τ κ ℓ ε α}
      (blocks : ∀ pid s t choice, R s t → (act pid s choice).isSome = (act' pid t choice).isSome)
      (moves : ∀ pid s t choice s' b, R s t → G label s t → act pid s choice = some (s', b) →
        ∃ t', act' pid t choice = some (t', b) ∧ R s' t')
      (onward : ∀ pid s t choice s' b, R s t → G label s t → act pid s choice = some (s', b) →
        Alike R G K (rest b) (rest' b)) :
      Alike R G K (.step label act rest) (.step label act' rest')

variable {K : α → Prop} {L : β → Prop}

theorem alike_ofExcept {result : Except ε α} (h : ∀ value, result = .ok value → K value) :
    Alike R G K (ofExcept result : Program σ κ ℓ ε α) (ofExcept result : Program τ κ ℓ ε α) := by
  cases result with
  | ok value => exact .done (h value rfl)
  | error error => exact .raise error

theorem Alike.bind {p : Program σ κ ℓ ε α} {q : Program τ κ ℓ ε α}
    {f : α → Program σ κ ℓ ε β} {g : α → Program τ κ ℓ ε β} (h : Alike R G K p q)
    (hrest : ∀ value, K value → Alike R G L (f value) (g value)) :
    Alike R G L (p >>= f) (q >>= g) := by
  induction h with
  | done hvalue => exact hrest _ hvalue
  | raise error => exact .raise error
  | step blocks moves _ ih => exact .step blocks moves ih

theorem Alike.tryCatch {p : Program σ κ ℓ ε α} {q : Program τ κ ℓ ε α}
    {handler : ε → Program σ κ ℓ ε α} {handler' : ε → Program τ κ ℓ ε α} (h : Alike R G K p q)
    (hhandler : ∀ error, Alike R G K (handler error) (handler' error)) :
    Alike R G K (tryCatch p handler) (tryCatch q handler') := by
  induction h with
  | done hvalue => exact .done hvalue
  | raise error => exact hhandler error
  | step blocks moves _ ih => exact .step blocks moves ih

theorem alike_perform {label : ℓ} {act : ℕ → σ → κ → Option (σ × Except ε α)}
    {act' : ℕ → τ → κ → Option (τ × Except ε α)}
    (blocks : ∀ pid s t choice, R s t → (act pid s choice).isSome = (act' pid t choice).isSome)
    (moves : ∀ pid s t choice s' r, R s t → G label s t → act pid s choice = some (s', r) →
      (∃ t', act' pid t choice = some (t', r) ∧ R s' t') ∧ ∀ value, r = .ok value → K value) :
    Alike R G K (perform label act : Program σ κ ℓ ε α) (perform label act') :=
  .step blocks (fun pid s t choice s' r hR hG hact => (moves pid s t choice s' r hR hG hact).1)
    fun pid s t choice s' r hR hG hact =>
      alike_ofExcept (moves pid s t choice s' r hR hG hact).2

end Program

/-- Phases of two processes, one in each system. -/
inductive Phase.Alike (R : σ → τ → Prop) (G : ℓ → σ → τ → Prop) :
    Phase (Program σ κ ℓ ε α) ε α → Phase (Program τ κ ℓ ε α) ε α → Prop
  | running {p : Program σ κ ℓ ε α} {q : Program τ κ ℓ ε α}
      (h : p.Alike R G (fun _ => True) q) : Phase.Alike R G (.running p) (.running q)
  | finished (result : Except ε α) : Phase.Alike R G (.finished result) (.finished result)
  | crashed : Phase.Alike R G .crashed .crashed

theorem Phase.Alike.forget_eq {phase : Phase (Program σ κ ℓ ε α) ε α}
    {phase' : Phase (Program τ κ ℓ ε α) ε α} (h : Phase.Alike R G phase phase') :
    phase.forget = phase'.forget := by
  cases h <;> rfl

/-- Related states, and the same requests in phases alike. -/
structure Pool.Matched (R : σ → τ → Prop) (G : ℓ → σ → τ → Prop) (c : Pool σ κ ℓ ρ ε α)
    (d : Pool τ κ ℓ ρ ε α) : Prop where
  shared : R c.shared d.shared
  tasks : List.Forall₂ (fun a b => a.1 = b.1 ∧ Phase.Alike R G a.2 b.2) c.tasks d.tasks

namespace Pool
variable {c : Pool σ κ ℓ ρ ε α} {d : Pool τ κ ℓ ρ ε α}

theorem Matched.init {s : σ} {t : τ} (h : R s t) :
    Matched R G (.init s : Pool σ κ ℓ ρ ε α) (.init t) := ⟨h, .nil⟩

/-- Both sides show the same requests, running, crashed or with the same results. -/
theorem Matched.view_tasks (h : Matched R G c d) : c.view.tasks = d.view.tasks := by
  have hshown : ∀ (tasks : List (ρ × Phase (Program σ κ ℓ ε α) ε α))
      (tasks' : List (ρ × Phase (Program τ κ ℓ ε α) ε α)),
      List.Forall₂ (fun a b => a.1 = b.1 ∧ Phase.Alike R G a.2 b.2) tasks tasks' →
      tasks.map (fun task => (task.1, task.2.forget)) =
        tasks'.map fun task => (task.1, task.2.forget) := by
    intro tasks tasks' halike
    induction halike with
    | nil => rfl
    | @cons a b _ _ hab _ ih =>
      rw [List.map_cons, List.map_cons, ih, hab.1, hab.2.forget_eq]
  exact hshown _ _ h.tasks

theorem Matched.getElem? (h : Matched R G c d) (pid : ℕ) :
    c.tasks[pid]? = none ∧ d.tasks[pid]? = none ∨
      ∃ request phase phase', c.tasks[pid]? = some (request, phase) ∧
        d.tasks[pid]? = some (request, phase') ∧ Phase.Alike R G phase phase' := by
  have hget : ∀ (tasks : List (ρ × Phase (Program σ κ ℓ ε α) ε α))
      (tasks' : List (ρ × Phase (Program τ κ ℓ ε α) ε α)),
      List.Forall₂ (fun a b => a.1 = b.1 ∧ Phase.Alike R G a.2 b.2) tasks tasks' → ∀ pid : ℕ,
      tasks[pid]? = none ∧ tasks'[pid]? = none ∨
        ∃ request phase phase', tasks[pid]? = some (request, phase) ∧
          tasks'[pid]? = some (request, phase') ∧ Phase.Alike R G phase phase' := by
    intro tasks tasks' halike
    induction halike with
    | nil => simp
    | @cons a b _ _ hab _ ih =>
      intro pid
      cases pid with
      | zero => exact Or.inr ⟨a.1, a.2, b.2, rfl, by rw [hab.1]; rfl, hab.2⟩
      | succ pid => exact ih pid
  exact hget _ _ h.tasks pid

theorem Matched.setPhase (h : Matched R G c d) {s : σ} {t : τ} (hR : R s t) (pid : ℕ)
    {phase : Phase (Program σ κ ℓ ε α) ε α} {phase' : Phase (Program τ κ ℓ ε α) ε α}
    (hphase : Phase.Alike R G phase phase') :
    Matched R G ({ c with shared := s }.setPhase pid phase)
      ({ d with shared := t }.setPhase pid phase') := by
  have hmodify : ∀ (tasks : List (ρ × Phase (Program σ κ ℓ ε α) ε α))
      (tasks' : List (ρ × Phase (Program τ κ ℓ ε α) ε α)),
      List.Forall₂ (fun a b => a.1 = b.1 ∧ Phase.Alike R G a.2 b.2) tasks tasks' → ∀ pid : ℕ,
      List.Forall₂ (fun a b => a.1 = b.1 ∧ Phase.Alike R G a.2 b.2)
        (tasks.modify pid fun task => (task.1, phase))
        (tasks'.modify pid fun task => (task.1, phase')) := by
    intro tasks tasks' halike
    induction halike with
    | nil => simp
    | cons hab hrest ih =>
      intro pid
      cases pid with
      | zero => exact .cons ⟨hab.1, hphase⟩ hrest
      | succ pid => exact .cons hab (ih pid)
  exact ⟨hR, hmodify _ _ h.tasks pid⟩

end Pool

namespace System
variable {S : System σ κ ℓ ρ ε α} {T : System τ κ ℓ ρ ε α} {c c' : Pool σ κ ℓ ρ ε α}
  {d d' : Pool τ κ ℓ ρ ε α}

/-- What both systems reach by the same events, where every step is taken under `G`. -/
inductive Lockstep (S : System σ κ ℓ ρ ε α) (T : System τ κ ℓ ρ ε α) (G : ℓ → σ → τ → Prop)
    (c : Pool σ κ ℓ ρ ε α) (d : Pool τ κ ℓ ρ ε α) : Pool σ κ ℓ ρ ε α → Pool τ κ ℓ ρ ε α → Prop
  | refl : Lockstep S T G c d c d
  | tail {c₁ c₂ : Pool σ κ ℓ ρ ε α} {d₁ d₂ : Pool τ κ ℓ ρ ε α} {e : Event κ ρ}
      {o o' : Occurrence ℓ ρ ε α} (prior : Lockstep S T G c d c₁ d₁)
      (left : S.next c₁ e = some (o, c₂)) (right : T.next d₁ e = some (o', d₂))
      (meets : ∀ pid label, o = .performed pid label → G label c₁.shared d₁.shared) :
      Lockstep S T G c d c₂ d₂

/-- Where the pools match, an event can happen on both sides or on neither, and is the same. -/
theorem next_fst_eq (h : Pool.Matched R G c d) (e : Event κ ρ) :
    (S.next c e).map Prod.fst = (T.next d e).map Prod.fst := by
  cases e with
  | start request => rfl
  | act pid choice =>
    rcases h.getElem? pid with ⟨hc, hd⟩ | ⟨request, phase, phase', hc, hd, halike⟩
    · simp [System.next, hc, hd]
    · cases halike with
      | finished result => simp [System.next, hc, hd]
      | crashed => simp [System.next, hc, hd]
      | running hp =>
        cases hp with
        | done => simp [System.next, hc, hd]
        | raise => simp [System.next, hc, hd]
        | @step _ label act act' _ _ blocks _ _ =>
          have hblocks := blocks pid c.shared d.shared choice h.shared
          cases hact : act pid c.shared choice <;> cases hact' : act' pid d.shared choice <;>
            simp_all [System.next]
  | crash pid =>
    rcases h.getElem? pid with ⟨hc, hd⟩ | ⟨request, phase, phase', hc, hd, halike⟩
    · simp [System.next, hc, hd]
    · cases halike <;> simp [System.next, hc, hd]

theorem Pool.Matched.next {e : Event κ ρ} {o o' : Occurrence ℓ ρ ε α}
    (hserve : ∀ request, (S.serve request).Alike R G (fun _ => True) (T.serve request))
    (hrecover : ∀ pid s t, R s t → R (S.recover pid s) (T.recover pid t))
    (h : Pool.Matched R G c d) (left : S.next c e = some (o, c'))
    (right : T.next d e = some (o', d'))
    (meets : ∀ pid label, o = .performed pid label → G label c.shared d.shared) :
    Pool.Matched R G c' d' := by
  cases e with
  | start request =>
    cases left
    cases right
    exact ⟨h.shared, List.rel_append h.tasks (.cons ⟨rfl, .running (hserve request)⟩ .nil)⟩
  | act pid choice =>
    rcases h.getElem? pid with ⟨hc, hd⟩ | ⟨request, phase, phase', hc, hd, halike⟩
    · simp [System.next, hc] at left
    · cases halike with
      | finished result => simp [System.next, hc] at left
      | crashed => simp [System.next, hc] at left
      | running hp =>
        cases hp with
        | done =>
          simp only [System.next, hc, hd, Option.some.injEq, Prod.mk.injEq] at left right
          rw [← left.2, ← right.2]
          exact h.setPhase h.shared pid (.finished _)
        | raise =>
          simp only [System.next, hc, hd, Option.some.injEq, Prod.mk.injEq] at left right
          rw [← left.2, ← right.2]
          exact h.setPhase h.shared pid (.finished _)
        | @step _ label act act' _ _ _ moves onward =>
          rcases hact : act pid c.shared choice with _ | ⟨s, b⟩
          · simp [System.next, hc, hact] at left
          · simp only [System.next, hc, hact, Option.some.injEq, Prod.mk.injEq] at left
            have hG := meets pid label left.1.symm
            obtain ⟨t, hact', hR⟩ := moves pid _ _ choice s b h.shared hG hact
            simp only [System.next, hd, hact', Option.some.injEq, Prod.mk.injEq] at right
            rw [← left.2, ← right.2]
            exact h.setPhase hR pid (.running (onward pid _ _ choice s b h.shared hG hact))
  | crash pid =>
    rcases h.getElem? pid with ⟨hc, hd⟩ | ⟨request, phase, phase', hc, hd, halike⟩
    · simp [System.next, hc] at left
    · cases halike with
      | finished result => simp [System.next, hc] at left
      | crashed => simp [System.next, hc] at left
      | running hp =>
        simp only [System.next, hc, hd, Option.some.injEq, Prod.mk.injEq] at left right
        rw [← left.2, ← right.2]
        exact h.setPhase (hrecover pid _ _ h.shared) pid .crashed

/-- Systems that start matched and serve every request by programs alike stay matched. -/
theorem Lockstep.matched
    (lock : Lockstep S T G c d c' d')
    (hserve : ∀ request, (S.serve request).Alike R G (fun _ => True) (T.serve request))
    (hrecover : ∀ pid s t, R s t → R (S.recover pid s) (T.recover pid t))
    (h : Pool.Matched R G c d) : Pool.Matched R G c' d' := by
  induction lock with
  | refl => exact h
  | tail _ left right meets ih => exact Pool.Matched.next hserve hrecover ih left right meets

/-- Whether a step that happened was taken under `G`. -/
def under (G : ℓ → σ → τ → Prop) [∀ label s t, Decidable (G label s t)] (s : σ) (t : τ) :
    Occurrence ℓ ρ ε α → Bool
  | .performed _ label => G label s t
  | _ => true

/-- What both systems reach by a list of events, when each of them can happen under `G`. -/
def drive (S : System σ κ ℓ ρ ε α) (T : System τ κ ℓ ρ ε α) (G : ℓ → σ → τ → Prop)
    [∀ label s t, Decidable (G label s t)] (c : Pool σ κ ℓ ρ ε α) (d : Pool τ κ ℓ ρ ε α) :
    List (Event κ ρ) → Option (Pool σ κ ℓ ρ ε α × Pool τ κ ℓ ρ ε α)
  | [] => some (c, d)
  | e :: events =>
    match S.next c e, T.next d e with
    | some (o, c'), some (_, d') =>
      if under G c.shared d.shared o then drive S T G c' d' events else none
    | _, _ => none

theorem lockstep_of_drive [∀ label s t, Decidable (G label s t)] {events : List (Event κ ρ)}
    {start : Pool σ κ ℓ ρ ε α} {start' : Pool τ κ ℓ ρ ε α}
    (prior : Lockstep S T G start start' c d) (h : drive S T G c d events = some (c', d')) :
    Lockstep S T G start start' c' d' := by
  induction events generalizing c d with
  | nil =>
    cases h
    exact prior
  | cons e events ih =>
    rcases hleft : S.next c e with _ | ⟨o, c₁⟩
    · simp [drive, hleft] at h
    · rcases hright : T.next d e with _ | ⟨o', d₁⟩
      · simp [drive, hleft, hright] at h
      · simp only [drive, hleft, hright] at h
        split at h
        · rename_i hunder
          refine ih (prior.tail hleft hright ?_) h
          rintro pid label rfl
          exact of_decide_eq_true hunder
        · cases h

variable (S T G) in
/-- A computed lockstep. -/
theorem exists_lockstep [∀ label s t, Decidable (G label s t)] (c : Pool σ κ ℓ ρ ε α)
    (d : Pool τ κ ℓ ρ ε α) (events : List (Event κ ρ)) (p : View σ ρ ε α → View τ ρ ε α → Bool)
    (h : (drive S T G c d events).any (fun both => p both.1.view both.2.view) = true) :
    ∃ c' d', Lockstep S T G c d c' d' ∧ p c'.view d'.view = true := by
  rw [Option.any_eq_true] at h
  rcases h with ⟨⟨c', d'⟩, hdrive, hp⟩
  exact ⟨c', d', lockstep_of_drive .refl hdrive, hp⟩

end System
end PhantomShare.Foundations
