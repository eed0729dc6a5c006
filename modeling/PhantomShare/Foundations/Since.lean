import PhantomShare.Foundations.Guarded

/-!
# The past of a run

What has held since: the run came through a state of some kind, and a condition has
held in every state from then on. A tally notes for each transition of a run what it
adds, seen from the shared states before and after it.
-/
namespace PhantomShare.Foundations
variable {σ κ ℓ ρ ε α : Type} {S : System σ κ ℓ ρ ε α} {start c c' : Pool σ κ ℓ ρ ε α}
  {φ ψ : View σ ρ ε α → Prop} {e : Event κ ρ} {o : Occurrence ℓ ρ ε α}

namespace System

/-- A run from `start` to `c` came through a state with `ψ`, and `φ` has held since. -/
def Since (S : System σ κ ℓ ρ ε α) (start : Pool σ κ ℓ ρ ε α) (φ ψ : View σ ρ ε α → Prop)
    (c : Pool σ κ ℓ ρ ε α) : Prop :=
  ∃ c₀, S.Run (fun _ _ => True) start c₀ ∧ ψ c₀.view ∧ S.Run (fun v _ => φ v) c₀ c ∧ φ c.view

theorem Since.begins (run : S.Run (fun _ _ => True) start c) (hψ : ψ c.view) (hφ : φ c.view) :
    S.Since start φ ψ c :=
  ⟨c, run, hψ, .refl, hφ⟩

theorem Since.holds (h : S.Since start φ ψ c) : φ c.view := by
  rcases h with ⟨_, _, _, _, hφ⟩
  exact hφ

theorem Since.step (h : S.Since start φ ψ c) (happens : S.next c e = some (o, c'))
    (hφ : φ c'.view) : S.Since start φ ψ c' := by
  rcases h with ⟨c₀, before, hψ, since, hlast⟩
  exact ⟨c₀, before, hψ, since.tail happens hlast, hφ⟩

/-- What a transition of bounded programs does to the shared state. -/
theorem Moved.bounded {T : ℕ → ℓ → σ → σ → Prop} (h : S.Moved c o c') (hc : c.All (Program.Only T)) :
    c'.shared = c.shared ∨ (∃ pid label, T pid label c.shared c'.shared) ∨
      ∃ pid, c'.shared = S.recover pid c.shared := by
  cases h with
  | started request => exact Or.inl rfl
  | returned task => exact Or.inl rfl
  | raised task => exact Or.inl rfl
  | performed task happens => exact Or.inr (Or.inl ⟨_, _, (hc _ _ _ task _ _ _ _ _ happens).1⟩)
  | crashed task => exact Or.inr (Or.inr ⟨_, rfl⟩)

/-- Programs that are bounded from the start stay so. -/
theorem Run.only {T : ℕ → ℓ → σ → σ → Prop} {cond : View σ ρ ε α → Occurrence ℓ ρ ε α → Prop}
    (run : S.Run cond start c) (hserve : ∀ request, (S.serve request).Only T)
    (hstart : start.All (Program.Only T)) : c.All (Program.Only T) := by
  induction run with
  | refl => exact hstart
  | tail _ happens _ ih =>
    apply (S.moved_of_next happens).all hserve _ ih
    intro β pid label act rest choice s b _ hact hstep
    exact (hstep pid _ choice s b hact).2

end System
end PhantomShare.Foundations

/-! ### What a run adds up to -/

namespace PhantomShare.Foundations.System
variable {σ κ ℓ ρ ε α β : Type} {S : System σ κ ℓ ρ ε α} {marks : σ → σ → List β}
  {c c₁ c₂ : Pool σ κ ℓ ρ ε α} {tally : List β}

/-- A run together with everything that its transitions have added. -/
inductive Tallied (S : System σ κ ℓ ρ ε α) (marks : σ → σ → List β) (c : Pool σ κ ℓ ρ ε α) :
    Pool σ κ ℓ ρ ε α → List β → Prop
  | refl : Tallied S marks c c []
  | tail {c₁ c₂ : Pool σ κ ℓ ρ ε α} {e : Event κ ρ} {o : Occurrence ℓ ρ ε α} {tally : List β}
      (prior : Tallied S marks c c₁ tally) (happens : S.next c₁ e = some (o, c₂)) :
      Tallied S marks c c₂ (tally ++ marks c₁.shared c₂.shared)

theorem Tallied.trans {tally' : List β} (h : S.Tallied marks c c₁ tally)
    (h' : S.Tallied marks c₁ c₂ tally') : S.Tallied marks c c₂ (tally ++ tally') := by
  induction h' with
  | refl => simpa using h
  | tail _ happens ih =>
    rw [← List.append_assoc]
    exact ih.tail happens

/-- What holds of the state and the tally after every transition of bounded programs. -/
theorem Tallied.invariant {I : σ → List β → Prop} {T : ℕ → ℓ → σ → σ → Prop}
    (h : S.Tallied marks c c₁ tally) (hserve : ∀ request, (S.serve request).Only T)
    (hall : c.All (Program.Only T)) (hstart : I c.shared [])
    (hidle : ∀ s tally, I s tally → I s (tally ++ marks s s))
    (hstep : ∀ pid label s s' tally, T pid label s s' → I s tally → I s' (tally ++ marks s s'))
    (hcrash : ∀ pid s tally, I s tally → I (S.recover pid s) (tally ++ marks s (S.recover pid s))) :
    I c₁.shared tally := by
  have hboth : I c₁.shared tally ∧ c₁.All (Program.Only T) := by
    induction h with
    | refl => exact ⟨hstart, hall⟩
    | @tail c₁ c₂ e o tally prior happens ih =>
      have hmoved := S.moved_of_next happens
      constructor
      · rcases hmoved.bounded ih.2 with heq | ⟨pid, label, hT⟩ | ⟨pid, heq⟩
        · rw [heq]
          exact hidle _ _ ih.1
        · exact hstep pid label _ _ _ hT ih.1
        · rw [heq]
          exact hcrash pid _ _ ih.1
      · exact (Run.refl.tail happens trivial : S.Run (fun _ _ => True) c₁ c₂).only hserve ih.2
  exact hboth.1

/-- The pool and the tally after a list of events, when each of them can happen. -/
def recount (S : System σ κ ℓ ρ ε α) (marks : σ → σ → List β) (c : Pool σ κ ℓ ρ ε α)
    (tally : List β) : List (Event κ ρ) → Option (Pool σ κ ℓ ρ ε α × List β)
  | [] => some (c, tally)
  | e :: events =>
    match S.next c e with
    | some (_, c') => recount S marks c' (tally ++ marks c.shared c'.shared) events
    | none => none

theorem tallied_of_recount {events : List (Event κ ρ)} {tally' : List β}
    (prior : S.Tallied marks c c₁ tally)
    (h : S.recount marks c₁ tally events = some (c₂, tally')) : S.Tallied marks c c₂ tally' := by
  induction events generalizing c₁ tally with
  | nil =>
    cases h
    exact prior
  | cons e events ih =>
    cases hnext : S.next c₁ e with
    | none => simp [recount, hnext] at h
    | some step =>
      simp only [recount, hnext] at h
      exact ih (prior.tail hnext) h

variable (S) in
/-- A computed run with its tally. -/
theorem exists_tallied (marks : σ → σ → List β) (c : Pool σ κ ℓ ρ ε α) (events : List (Event κ ρ))
    (p : σ → List β → Bool)
    (h : ((S.recount marks c [] events).any fun told => p told.1.shared told.2) = true) :
    ∃ c' tally, S.Tallied marks c c' tally ∧ p c'.shared tally = true := by
  rw [Option.any_eq_true] at h
  rcases h with ⟨⟨c', tally⟩, hrecount, hp⟩
  exact ⟨c', tally, tallied_of_recount .refl hrecount, hp⟩

end PhantomShare.Foundations.System
