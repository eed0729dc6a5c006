import PhantomShare.Foundations.Program
import PhantomShare.Foundations.Transaction

/-!
# The states in which a program takes its steps

A program that shares its state with others takes each of its steps in a state of
its own. What it may return depends on these states alone.
-/
namespace PhantomShare.Foundations.Program
variable {σ κ ℓ ε α β : Type}

/-- The program may take its steps in these states, one after the other, and return the value. -/
def Returns : Program σ κ ℓ ε α → List σ → α → Prop
  | done result, states, value => result = value ∧ states = []
  | raise _, _, _ => False
  | step _ _ _, [], _ => False
  | step _ act next, s :: states, value => ∃ pid choice s' b, act pid s choice = some (s', b) ∧
      (next b).Returns states value

variable {s : σ} {states : List σ}

@[simp] theorem returns_pure {result value : α} :
    (pure result : Program σ κ ℓ ε α).Returns states value ↔ result = value ∧ states = [] := Iff.rfl

@[simp] theorem returns_throw {error : ε} {value : α} :
    (throw error : Program σ κ ℓ ε α).Returns states value ↔ False := Iff.rfl

@[simp] theorem returns_ofExcept_bind {result : Except ε α} {f : α → Program σ κ ℓ ε β} {value : β} :
    (ofExcept result >>= f).Returns states value ↔
      ∃ a, result = .ok a ∧ (f a).Returns states value := by
  cases result with
  | ok a => simp [ofExcept, Bind.bind, bind]
  | error error => simp [ofExcept, Bind.bind, bind, Returns]

theorem returns_perform_bind {label : ℓ} {act : ℕ → σ → κ → Option (σ × Except ε α)}
    {f : α → Program σ κ ℓ ε β} {value : β} :
    (perform label act >>= f).Returns (s :: states) value ↔
      ∃ a, (∃ pid choice s', act pid s choice = some (s', .ok a)) ∧ (f a).Returns states value := by
  change (∃ pid choice s' b, act pid s choice = some (s', b) ∧
    (ofExcept b >>= f).Returns states value) ↔ _
  simp only [returns_ofExcept_bind]
  constructor
  · rintro ⟨pid, choice, s', b, hact, a, rfl, hf⟩
    exact ⟨a, ⟨pid, choice, s', hact⟩, hf⟩
  · rintro ⟨a, ⟨pid, choice, s', hact⟩, hf⟩
    exact ⟨pid, choice, s', _, hact, a, rfl, hf⟩

theorem not_returns_perform_bind {label : ℓ} {act : ℕ → σ → κ → Option (σ × Except ε α)}
    {f : α → Program σ κ ℓ ε β} {value : β} : ¬ (perform label act >>= f).Returns [] value :=
  fun h => h

/-! ### What a program may return at all -/

/-- Whatever the program returns, in whatever states it takes its steps, has the property. -/
def Yields : Program σ κ ℓ ε α → (α → Prop) → Prop
  | done result, Q => Q result
  | raise _, _ => True
  | step _ act next, Q => ∀ pid s choice s' b, act pid s choice = some (s', b) → (next b).Yields Q

variable {Q : α → Prop} {R : β → Prop}

theorem Yields.returns {p : Program σ κ ℓ ε α} {value : α} (hp : p.Yields Q)
    (h : p.Returns states value) : Q value := by
  induction p generalizing states with
  | done result => exact h.1 ▸ hp
  | raise error => exact h.elim
  | step label act next ih =>
    cases states with
    | nil => exact h.elim
    | cons s rest =>
      obtain ⟨pid, choice, s', b, hact, hnext⟩ := h
      exact ih b (hp pid s choice s' b hact) hnext

theorem yields_pure {result : α} (h : Q result) :
    (pure result : Program σ κ ℓ ε α).Yields Q := h

theorem yields_throw {error : ε} : (throw error : Program σ κ ℓ ε α).Yields Q := trivial

theorem yields_ofExcept {result : Except ε α} (h : ∀ value, result = .ok value → Q value) :
    (ofExcept result : Program σ κ ℓ ε α).Yields Q := by
  cases result with
  | ok value => exact h value rfl
  | error error => exact yields_throw

theorem yields_perform {label : ℓ} {act : ℕ → σ → κ → Option (σ × Except ε α)}
    (h : ∀ pid s choice s' value, act pid s choice = some (s', .ok value) → Q value) :
    (perform label act).Yields Q := by
  intro pid s choice s' b hact
  apply yields_ofExcept
  intro value hvalue
  exact h pid s choice s' value (hvalue ▸ hact)

theorem yields_any (p : Program σ κ ℓ ε α) : p.Yields fun _ => True := by
  induction p with
  | done result => trivial
  | raise error => trivial
  | step label act next ih =>
    intro _ _ _ _ b _
    exact ih b

theorem Yields.bind {p : Program σ κ ℓ ε β} {f : β → Program σ κ ℓ ε α} (hp : p.Yields R)
    (hf : ∀ a, R a → (f a).Yields Q) : (p >>= f).Yields Q := by
  induction p with
  | done result => exact hf result hp
  | raise error => trivial
  | step label act next ih =>
    intro pid s choice s' b hact
    exact ih b (hp pid s choice s' b hact)

/-- What the first part returns does not matter. -/
theorem yields_after {p : Program σ κ ℓ ε β} {f : β → Program σ κ ℓ ε α}
    (hf : ∀ a, (f a).Yields Q) : (p >>= f).Yields Q := (yields_any p).bind fun a _ => hf a

theorem Yields.tryCatch {p : Program σ κ ℓ ε α} {handler : ε → Program σ κ ℓ ε α}
    (hp : p.Yields Q) (hhandler : ∀ error, (handler error).Yields Q) :
    (tryCatch p handler).Yields Q := by
  induction p with
  | done result => exact hp
  | raise error => exact hhandler error
  | step label act next ih =>
    intro pid s choice s' b hact
    exact ih b (hp pid s choice s' b hact)

/-- A handler that raises again returns nothing. -/
theorem Yields.rethrow {p : Program σ κ ℓ ε α} {cleanup : ε → Program σ κ ℓ ε β} (hp : p.Yields Q) :
    (MonadExcept.tryCatch p fun error => cleanup error >>= fun _ => throw error).Yields Q :=
  hp.tryCatch fun _ => yields_after fun _ => yields_throw

end PhantomShare.Foundations.Program

/-! ### What the block of a transaction may return -/

namespace PhantomShare.Foundations.Tx
variable {δ ε α β : Type} {Q : α → Prop}

/-- Whatever the block returns, on whatever connection, has the property. -/
def Gives (x : Tx δ ε α) (Q : α → Prop) : Prop := ∀ c value c', x c = (.ok value, c') → Q value

theorem gives_pure {value : α} (h : Q value) : (pure value : Tx δ ε α).Gives Q := by
  intro c other c' hpure
  rw [(pure_ok hpure).1]
  exact h

theorem gives_after {x : Tx δ ε β} {f : β → Tx δ ε α} (h : ∀ b, (f b).Gives Q) :
    (x >>= f).Gives Q := by
  intro c value c' hbind
  rcases bind_ok hbind with ⟨b, c₁, _, hf⟩
  exact h b c₁ value c' hf

end PhantomShare.Foundations.Tx
