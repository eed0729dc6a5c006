import PhantomShare.Foundations.Footprint

/-!
# Steps under a guard

A bound on the steps that a program takes where a condition holds. What earlier
steps returned under the condition is known to the later ones. In a run whose
steps all meet the condition, every step of every process keeps its bound.
-/
namespace PhantomShare.Foundations
variable {σ κ ℓ ρ ε α β : Type}

namespace Program
variable {C : ℓ → σ → Prop} {T : ℕ → ℓ → σ → σ → Prop} {K K' : α → Prop}

/-- Every step taken under the guard satisfies the relation, and a returned value satisfies `K`. -/
def Guarded (C : ℓ → σ → Prop) (T : ℕ → ℓ → σ → σ → Prop) (K : α → Prop) :
    Program σ κ ℓ ε α → Prop
  | done value => K value
  | raise _ => True
  | step label act next => ∀ pid s choice s' b, C label s → act pid s choice = some (s', b) →
      T pid label s s' ∧ (next b).Guarded C T K

theorem guarded_pure {value : α} (h : K value) :
    (pure value : Program σ κ ℓ ε α).Guarded C T K := h

theorem guarded_throw (error : ε) : (throw error : Program σ κ ℓ ε α).Guarded C T K := trivial

theorem guarded_ofExcept {result : Except ε α} (h : ∀ value, result = .ok value → K value) :
    (ofExcept result : Program σ κ ℓ ε α).Guarded C T K := by
  cases result with
  | ok value => exact h value rfl
  | error error => trivial

theorem Guarded.mono {p : Program σ κ ℓ ε α} (hp : p.Guarded C T K) (h : ∀ value, K value → K' value) :
    p.Guarded C T K' := by
  induction p with
  | done value => exact h value hp
  | raise error => trivial
  | step label act next ih =>
    intro pid s choice s' b hC hact
    have hstep := hp pid s choice s' b hC hact
    exact ⟨hstep.1, ih b hstep.2⟩

theorem Guarded.bind {L : β → Prop} {p : Program σ κ ℓ ε α} {f : α → Program σ κ ℓ ε β}
    (hp : p.Guarded C T K) (hf : ∀ a, K a → (f a).Guarded C T L) : (p >>= f).Guarded C T L := by
  induction p with
  | done value => exact hf value hp
  | raise error => trivial
  | step label act next ih =>
    intro pid s choice s' b hC hact
    have hstep := hp pid s choice s' b hC hact
    exact ⟨hstep.1, ih b hstep.2⟩

theorem Guarded.map {f : α → β} {p : Program σ κ ℓ ε α} (hp : p.Guarded C T K) :
    (f <$> p).Guarded C T fun _ => True :=
  hp.bind fun _ _ => guarded_pure trivial

theorem Guarded.tryCatch {p : Program σ κ ℓ ε α} {handler : ε → Program σ κ ℓ ε α}
    (hp : p.Guarded C T K) (hhandler : ∀ error, (handler error).Guarded C T K) :
    (tryCatch p handler).Guarded C T K := by
  induction p with
  | done value => exact hp
  | raise error => exact hhandler error
  | step label act next ih =>
    intro pid s choice s' b hC hact
    have hstep := hp pid s choice s' b hC hact
    exact ⟨hstep.1, ih b hstep.2⟩

theorem Guarded.ensuring {p : Program σ κ ℓ ε α} {cleanup : Program σ κ ℓ ε Unit}
    (hp : p.Guarded C T K) (hcleanup : cleanup.Guarded C T fun _ => True) :
    (p.ensuring cleanup).Guarded C T K := by
  apply Guarded.bind
  · apply hp.tryCatch
    intro error
    exact hcleanup.bind fun _ _ => guarded_throw error
  · intro value hvalue
    exact hcleanup.bind fun _ _ => guarded_pure hvalue

theorem guarded_perform {label : ℓ} {act : ℕ → σ → κ → Option (σ × Except ε α)}
    (h : ∀ pid s choice s' r, C label s → act pid s choice = some (s', r) →
      T pid label s s' ∧ ∀ value, r = .ok value → K value) :
    (perform label act).Guarded C T K := by
  intro pid s choice s' r hC hact
  have hstep := h pid s choice s' r hC hact
  exact ⟨hstep.1, guarded_ofExcept hstep.2⟩

/-- A bound that holds without the guard. -/
theorem Only.guarded {p : Program σ κ ℓ ε α} (hp : p.Only T) : p.Guarded C T fun _ => True := by
  induction p with
  | done value => trivial
  | raise error => trivial
  | step label act next ih =>
    intro pid s choice s' b _ hact
    have hstep := hp pid s choice s' b hact
    exact ⟨hstep.1, ih b hstep.2⟩

/-- A bound without a guard, and what is known of the value for the rest. -/
theorem Guarded.only_bind {p : Program σ κ ℓ ε α} {f : α → Program σ κ ℓ ε β}
    (hp : p.Guarded (fun _ _ => True) T K) (hf : ∀ a, K a → (f a).Only T) : (p >>= f).Only T := by
  induction p with
  | done value => exact hf value hp
  | raise error => trivial
  | step label act next ih =>
    intro pid s choice s' b hact
    have hstep := hp pid s choice s' b trivial hact
    exact ⟨hstep.1, ih b hstep.2⟩

end Program

namespace Pool
variable {c : Pool σ κ ℓ ρ ε α} {K : Program σ κ ℓ ε α → Prop} {L : ρ → Program σ κ ℓ ε α → Prop}

/-- Every running program satisfies `L` with its request. -/
def Each (L : ρ → Program σ κ ℓ ε α → Prop) (c : Pool σ κ ℓ ρ ε α) : Prop :=
  ∀ (pid : ℕ) (request : ρ) (p : Program σ κ ℓ ε α),
    c.tasks[pid]? = some (request, .running p) → L request p

/-- Every running program satisfies `K`. -/
def All (K : Program σ κ ℓ ε α → Prop) (c : Pool σ κ ℓ ρ ε α) : Prop :=
  ∀ (pid : ℕ) (request : ρ) (p : Program σ κ ℓ ε α),
    c.tasks[pid]? = some (request, .running p) → K p

theorem each_init (s : σ) : (init s : Pool σ κ ℓ ρ ε α).Each L := by
  intro pid request p hget
  simp [init] at hget

theorem all_init (s : σ) : (init s : Pool σ κ ℓ ρ ε α).All K := each_init s

theorem Each.setPhase {phase old : Phase (Program σ κ ℓ ε α) ε α} {pid : ℕ} {own : ρ} (h : c.Each L)
    (s : σ) (htask : c.tasks[pid]? = some (own, old)) (hphase : ∀ p, phase = .running p → L own p) :
    ({ c with shared := s }.setPhase pid phase).Each L := by
  intro k request p hget
  by_cases hk : pid = k
  · subst hk
    simp only [Pool.setPhase, List.getElem?_modify_eq, htask, Option.map_eq_map, Option.map_some,
      Option.some.injEq, Prod.mk.injEq] at hget
    rw [← hget.1]
    exact hphase p hget.2
  · apply h k request p
    simpa [Pool.setPhase, List.getElem?_modify, hk] using hget

end Pool

namespace System
variable {S : System σ κ ℓ ρ ε α} {c c' : Pool σ κ ℓ ρ ε α} {o : Occurrence ℓ ρ ε α}
  {K : Program σ κ ℓ ε α → Prop} {C : ℓ → σ → Prop} {T : ℕ → ℓ → σ → σ → Prop}
  {cond : View σ ρ ε α → Occurrence ℓ ρ ε α → Prop}

/-- What holds of every request and passes on to the rest of a program holds of all programs. -/
theorem Moved.each {L : ρ → Program σ κ ℓ ε α → Prop} (h : S.Moved c o c')
    (hserve : ∀ request, L request (S.serve request))
    (hstep : ∀ {β : Type} (request : ρ) (pid : ℕ) (label : ℓ) (act : ℕ → σ → κ → Option (σ × β))
      (rest : β → Program σ κ ℓ ε α) (choice : κ) (s : σ) (b : β), o = .performed pid label →
      act pid c.shared choice = some (s, b) → L request (.step label act rest) → L request (rest b))
    (hc : c.Each L) : c'.Each L := by
  cases h with
  | started request =>
    intro pid request' p hget
    have hmem := List.mem_of_getElem? hget
    rcases List.mem_append.mp hmem with hold | hnew
    · rcases List.getElem?_of_mem hold with ⟨k, hk⟩
      exact hc k request' p hk
    · rw [List.mem_singleton, Prod.mk.injEq, Phase.running.injEq] at hnew
      rw [hnew.1, hnew.2]
      exact hserve request
  | returned task => exact hc.setPhase _ task fun p hp => by cases hp
  | raised task => exact hc.setPhase _ task fun p hp => by cases hp
  | performed task happens =>
    apply hc.setPhase _ task
    intro p hp
    cases hp
    exact hstep _ _ _ _ _ _ _ _ rfl happens (hc _ _ _ task)
  | crashed task => exact hc.setPhase _ task fun p hp => by cases hp

theorem Moved.all (h : S.Moved c o c') (hserve : ∀ request, K (S.serve request))
    (hstep : ∀ {β : Type} (pid : ℕ) (label : ℓ) (act : ℕ → σ → κ → Option (σ × β))
      (rest : β → Program σ κ ℓ ε α) (choice : κ) (s : σ) (b : β), o = .performed pid label →
      act pid c.shared choice = some (s, b) → K (.step label act rest) → K (rest b))
    (hc : c.All K) : c'.All K := by
  apply h.each hserve _ hc
  exact fun _ => hstep

/-- The guard holds at the step that a transition performs. -/
def Allowed (C : ℓ → σ → Prop) (c : Pool σ κ ℓ ρ ε α) (o : Occurrence ℓ ρ ε α) : Prop :=
  ∀ pid label, o = .performed pid label → C label c.shared

theorem Moved.guarded (h : S.Moved c o c')
    (hserve : ∀ request, (S.serve request).Guarded C T fun _ => True) (hC : Allowed C c o)
    (hc : c.All (Program.Guarded C T fun _ => True)) :
    c'.All (Program.Guarded C T fun _ => True) := by
  apply h.all hserve _ hc
  intro β pid label act rest choice s b ho happens hstep
  exact (hstep pid c.shared choice s b (hC pid label ho) happens).2

/-- An allowed transition keeps what the bound and a crash keep. -/
theorem Moved.keeps (A : σ → Prop) (h : S.Moved c o c') (hC : Allowed C c o)
    (hc : c.All (Program.Guarded C T fun _ => True))
    (hstep : ∀ pid label, T pid label c.shared c'.shared → A c'.shared)
    (hrecover : ∀ pid, A (S.recover pid c.shared)) (hA : A c.shared) : A c'.shared := by
  cases h with
  | started request => exact hA
  | returned task => exact hA
  | raised task => exact hA
  | performed task happens =>
    exact hstep _ _ (hc _ _ _ task _ _ _ _ _ (hC _ _ rfl) happens).1
  | crashed task => exact hrecover _

theorem Run.guarded (h : S.Run cond c c')
    (hserve : ∀ request, (S.serve request).Guarded C T fun _ => True)
    (hcond : ∀ (c : Pool σ κ ℓ ρ ε α) o, cond c.view o → Allowed C c o)
    (hc : c.All (Program.Guarded C T fun _ => True)) :
    c'.All (Program.Guarded C T fun _ => True) := by
  induction h with
  | refl => exact hc
  | tail _ happens meets ih => exact (S.moved_of_next happens).guarded hserve (hcond _ _ meets) ih

/-- What every allowed step and every crash keep holds in all states of a run. -/
theorem Run.keeps (A : σ → Prop) (h : S.Run cond c c')
    (hserve : ∀ request, (S.serve request).Guarded C T fun _ => True)
    (hcond : ∀ (c : Pool σ κ ℓ ρ ε α) o, cond c.view o → Allowed C c o)
    (hc : c.All (Program.Guarded C T fun _ => True))
    (hstep : ∀ pid label s s', A s → T pid label s s' → A s')
    (hrecover : ∀ pid s, A s → A (S.recover pid s)) (hA : A c.shared) : A c'.shared := by
  induction h with
  | refl => exact hA
  | tail prior happens meets ih =>
    apply (S.moved_of_next happens).keeps A (hcond _ _ meets) (prior.guarded hserve hcond hc)
    · intro pid label hT
      exact hstep pid label _ _ ih hT
    · intro pid
      exact hrecover pid _ ih
    · exact ih

end System
end PhantomShare.Foundations
