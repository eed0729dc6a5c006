import PhantomShare.Foundations.Footprint

/-!
# Programs that run alone

Without other processes and without a crash, a program is a function of the
state and of the choices of the surroundings, one for each of its steps.
-/
namespace PhantomShare.Foundations.Program
variable {σ κ ℓ ε α β : Type}

/-- The result with the choices that are left and the final state, unless a step is blocked. -/
def alone (pid : ℕ) : Program σ κ ℓ ε α → (ℕ → κ) → σ → Option (Except ε α × (ℕ → κ) × σ)
  | done value, choices, s => some (.ok value, choices, s)
  | raise error, choices, s => some (.error error, choices, s)
  | step _ act next, choices, s =>
    match act pid s (choices 0) with
    | some (s', b) => (next b).alone pid (fun n => choices (n + 1)) s'
    | none => none

variable {pid : ℕ} {choices : ℕ → κ} {s : σ}

@[simp] theorem alone_pure (value : α) :
    (pure value : Program σ κ ℓ ε α).alone pid choices s = some (.ok value, choices, s) := rfl

@[simp] theorem alone_throw (error : ε) :
    (throw error : Program σ κ ℓ ε α).alone pid choices s = some (.error error, choices, s) := rfl

@[simp] theorem alone_ofExcept (result : Except ε α) :
    (ofExcept result : Program σ κ ℓ ε α).alone pid choices s = some (result, choices, s) := by
  cases result <;> rfl

theorem alone_bind (p : Program σ κ ℓ ε α) (f : α → Program σ κ ℓ ε β) :
    (p >>= f).alone pid choices s = (p.alone pid choices s).bind fun outcome =>
      match outcome with
      | (.ok value, choices', s') => (f value).alone pid choices' s'
      | (.error error, choices', s') => some (.error error, choices', s') := by
  change (p.bind f).alone pid choices s = _
  induction p generalizing choices s with
  | done value => rfl
  | raise error => rfl
  | step label act next ih =>
    simp only [Program.bind, alone]
    cases act pid s (choices 0) with
    | none => rfl
    | some r => exact ih r.2

theorem alone_tryCatch (p : Program σ κ ℓ ε α) (handler : ε → Program σ κ ℓ ε α) :
    (tryCatch p handler).alone pid choices s = (p.alone pid choices s).bind fun outcome =>
      match outcome with
      | (.ok value, choices', s') => some (.ok value, choices', s')
      | (.error error, choices', s') => (handler error).alone pid choices' s' := by
  change (p.handle handler).alone pid choices s = _
  induction p generalizing choices s with
  | done value => rfl
  | raise error => rfl
  | step label act next ih =>
    simp only [Program.handle, alone]
    cases act pid s (choices 0) with
    | none => rfl
    | some r => exact ih r.2

theorem alone_perform (label : ℓ) (act : ℕ → σ → κ → Option (σ × Except ε α)) :
    (perform label act).alone pid choices s =
      (act pid s (choices 0)).map fun r => (r.2, fun n => choices (n + 1), r.1) := by
  simp only [perform, alone]
  cases act pid s (choices 0) with
  | none => rfl
  | some r => exact alone_ofExcept r.2

/-- The program may end so when it runs alone and the surroundings choose as allowed. -/
def Ends (allow : ℓ → κ → Prop) (pid : ℕ) : Program σ κ ℓ ε α → σ → Except ε α → σ → Prop
  | done value, s, result, s' => result = .ok value ∧ s' = s
  | raise error, s, result, s' => result = .error error ∧ s' = s
  | step label act next, s, result, s' => ∃ choice s₁ b, allow label choice ∧
      act pid s choice = some (s₁, b) ∧ (next b).Ends allow pid s₁ result s'

section Ends
variable {allow : ℓ → κ → Prop} {s' : σ}

@[simp] theorem ends_pure {value : α} {result : Except ε α} :
    (pure value : Program σ κ ℓ ε α).Ends allow pid s result s' ↔ result = .ok value ∧ s' = s :=
  Iff.rfl

@[simp] theorem ends_ofExcept {value result : Except ε α} :
    (ofExcept value : Program σ κ ℓ ε α).Ends allow pid s result s' ↔ result = value ∧ s' = s := by
  cases value <;> rfl

theorem ends_perform {label : ℓ} {act : ℕ → σ → κ → Option (σ × Except ε α)}
    {result : Except ε α} : (perform label act).Ends allow pid s result s' ↔
      ∃ choice, allow label choice ∧ act pid s choice = some (s', result) := by
  simp only [perform, Ends, ends_ofExcept]
  constructor
  · rintro ⟨choice, s₁, b, hallow, hact, rfl, rfl⟩
    exact ⟨choice, hallow, hact⟩
  · rintro ⟨choice, hallow, hact⟩
    exact ⟨choice, s', result, hallow, hact, rfl, rfl⟩

/-- A chain ends where its second part does, or with the exception of its first. -/
theorem ends_bind {p : Program σ κ ℓ ε α} {f : α → Program σ κ ℓ ε β} {result : Except ε β} :
    (p >>= f).Ends allow pid s result s' ↔
      (∃ value s₁, p.Ends allow pid s (.ok value) s₁ ∧ (f value).Ends allow pid s₁ result s') ∨
        ∃ error, p.Ends allow pid s (.error error) s' ∧ result = .error error := by
  change (p.bind f).Ends allow pid s result s' ↔ _
  induction p generalizing s with
  | done value => simp [Program.bind, Ends]
  | raise error => simp [Program.bind, Ends, and_comm]
  | step label act next ih =>
    simp only [Program.bind, Ends, ih]
    constructor
    · rintro ⟨choice, s₁, b, hallow, hact, ⟨value, s₂, hp, hf⟩ | ⟨error, hp, hresult⟩⟩
      · exact .inl ⟨value, s₂, ⟨choice, s₁, b, hallow, hact, hp⟩, hf⟩
      · exact .inr ⟨error, ⟨choice, s₁, b, hallow, hact, hp⟩, hresult⟩
    · rintro (⟨value, s₂, ⟨choice, s₁, b, hallow, hact, hp⟩, hf⟩ |
        ⟨error, ⟨choice, s₁, b, hallow, hact, hp⟩, hresult⟩)
      · exact ⟨choice, s₁, b, hallow, hact, .inl ⟨value, s₂, hp, hf⟩⟩
      · exact ⟨choice, s₁, b, hallow, hact, .inr ⟨error, hp, hresult⟩⟩

theorem ends_bind_ok {p : Program σ κ ℓ ε α} {f : α → Program σ κ ℓ ε β} {value : β} :
    (p >>= f).Ends allow pid s (.ok value) s' ↔
      ∃ a s₁, p.Ends allow pid s (.ok a) s₁ ∧ (f a).Ends allow pid s₁ (.ok value) s' := by
  simp [ends_bind]

/-- A guarded program ends as its body does, or as the handler of its exception. -/
theorem ends_tryCatch {p : Program σ κ ℓ ε α} {handler : ε → Program σ κ ℓ ε α}
    {result : Except ε α} : (tryCatch p handler).Ends allow pid s result s' ↔
      (∃ value, p.Ends allow pid s (.ok value) s' ∧ result = .ok value) ∨
        ∃ error s₁, p.Ends allow pid s (.error error) s₁ ∧
          (handler error).Ends allow pid s₁ result s' := by
  change (p.handle handler).Ends allow pid s result s' ↔ _
  induction p generalizing s with
  | done value => simp [Program.handle, Ends, and_comm]
  | raise error => simp [Program.handle, Ends]
  | step label act next ih =>
    simp only [Program.handle, Ends, ih]
    constructor
    · rintro ⟨choice, s₁, b, hallow, hact, ⟨value, hp, hresult⟩ | ⟨error, s₂, hp, hhandler⟩⟩
      · exact .inl ⟨value, ⟨choice, s₁, b, hallow, hact, hp⟩, hresult⟩
      · exact .inr ⟨error, s₂, ⟨choice, s₁, b, hallow, hact, hp⟩, hhandler⟩
    · rintro (⟨value, ⟨choice, s₁, b, hallow, hact, hp⟩, hresult⟩ |
        ⟨error, s₂, ⟨choice, s₁, b, hallow, hact, hp⟩, hhandler⟩)
      · exact ⟨choice, s₁, b, hallow, hact, .inl ⟨value, hp, hresult⟩⟩
      · exact ⟨choice, s₁, b, hallow, hact, .inr ⟨error, s₂, hp, hhandler⟩⟩

/-- What every step keeps is kept when the program ends. -/
theorem Only.ends {T : ℕ → ℓ → σ → σ → Prop} {R : σ → σ → Prop} [IsPreorder σ R]
    {p : Program σ κ ℓ ε α} {result : Except ε α} (hp : p.Only T)
    (hT : ∀ pid label a b, T pid label a b → R a b) (h : p.Ends allow pid s result s') : R s s' := by
  induction p generalizing s with
  | done value =>
    rw [h.2]
    exact refl_of R s
  | raise error =>
    rw [h.2]
    exact refl_of R s
  | step label act next ih =>
    obtain ⟨choice, s₁, b, _, hact, hrest⟩ := h
    have hstep := hp pid s choice s₁ b hact
    exact trans_of R (hT pid label s s₁ hstep.1) (ih b hstep.2 hrest)

end Ends

/-- A program may be cut after any of its parts. -/
theorem bind_assoc' (p : Program σ κ ℓ ε α) {γ : Type} (f : α → Program σ κ ℓ ε β)
    (g : β → Program σ κ ℓ ε γ) : p >>= f >>= g = p >>= fun value => f value >>= g := by
  change (p.bind f).bind g = p.bind fun value => (f value).bind g
  induction p with
  | done value => rfl
  | raise error => rfl
  | step label act next ih =>
    simp only [Program.bind]
    congr 1
    funext b
    exact ih b

end PhantomShare.Foundations.Program
