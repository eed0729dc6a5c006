import PhantomShare.Foundations.Transaction

/-!
# Postconditions of transactions

What a block has established by the time it commits, found statement by statement. Each
rule takes the first statement off a block and hands what it did to the rest. A block
that raises, or that reaches its end aborted, establishes nothing.
-/
namespace PhantomShare.Foundations.Tx
variable {δ ε α β γ : Type} {db : δ} {Q R : α → δ → Prop}

/-- Whenever the block returns on a live connection, its result and state satisfy `Q`. -/
def Ensures (x : Tx δ ε α) (db : δ) (Q : α → δ → Prop) : Prop :=
  ∀ value c, x ⟨db, false⟩ = (.ok value, c) → c.failed = false → Q value c.db

/-- A block that does not return alive on an aborted connection. -/
def Sticky (x : Tx δ ε α) : Prop :=
  ∀ db value c, x ⟨db, true⟩ = (.ok value, c) → c.failed = true

theorem Ensures.run {x : Tx δ ε α} (h : x.Ensures db Q) {value : α} {db' : δ}
    (hrun : x.run db = .ok (value, some db')) : Q value db' := by
  obtain ⟨c, hx, hcommitted⟩ := run_ok hrun
  cases hfailed : c.failed with
  | true => simp [hfailed] at hcommitted
  | false =>
    simp only [hfailed, Bool.false_eq_true, if_false, Option.some.injEq] at hcommitted
    rw [hcommitted]
    exact h value c hx hfailed

theorem Ensures.mono {x : Tx δ ε α} (h : x.Ensures db Q) (hQ : ∀ value db', Q value db' → R value db') :
    x.Ensures db R :=
  fun value c hx hfailed => hQ value c.db (h value c hx hfailed)

theorem ensures_pure {value : α} (h : Q value db) : (pure value : Tx δ ε α).Ensures db Q := by
  intro result c hx _
  obtain ⟨rfl, rfl⟩ := pure_ok hx
  exact h

theorem ensures_throw (error : ε) : (throw error : Tx δ ε α).Ensures db Q := by
  intro value c hx
  exact absurd hx throw_ok

theorem sticky_pure (value : α) : (pure value : Tx δ ε α).Sticky := by
  intro db result c hx
  rw [(pure_ok hx).2]

section Bind
variable {f : β → Tx δ ε α}

theorem ensures_ofExcept_bind {result : Except ε β}
    (h : ∀ value, result = .ok value → (f value).Ensures db Q) : (ofExcept result >>= f).Ensures db Q := by
  intro value c hx
  obtain ⟨b, c₁, hb, hf⟩ := bind_ok hx
  obtain ⟨hresult, rfl⟩ := ofExcept_ok hb
  exact h b hresult value c hf

theorem ensures_raiseIf_bind {bad : Bool} {error : ε} {f : Unit → Tx δ ε α}
    (h : bad = false → (f ()).Ensures db Q) : (raiseIf bad error >>= f).Ensures db Q := by
  intro value c hx
  obtain ⟨b, c₁, hb, hf⟩ := bind_ok hx
  obtain ⟨hbad, rfl⟩ := raiseIf_ok hb
  exact h hbad value c hf

variable [TransactionAborted ε]

theorem ensures_select_bind {query : δ → β} (h : (f (query db)).Ensures db Q) :
    (select query >>= f).Ensures db Q := by
  intro value c hx
  rw [select_bind] at hx
  exact h value c hx

theorem ensures_write_bind {statement : δ → Except ε δ} {f : Unit → Tx δ ε α}
    (h : ∀ db', statement db = .ok db' → (f ()).Ensures db' Q) :
    (write statement >>= f).Ensures db Q := by
  intro value c hx
  obtain ⟨b, c₁, hb, hf⟩ := bind_ok hx
  obtain ⟨_, hlive, hstatement⟩ := write_ok hb
  apply h c₁.db hstatement value c
  rw [← hf, ← hlive]

theorem ensures_write {statement : δ → Except ε δ} {Q : Unit → δ → Prop}
    (h : ∀ db', statement db = .ok db' → Q () db') : (write statement).Ensures db Q := by
  intro _ c hx _
  exact h c.db (write_ok hx).2.2

theorem sticky_write (statement : δ → Except ε δ) : (write statement).Sticky := by
  intro db _ c hx
  obtain ⟨hlive, _⟩ := write_ok hx
  cases hlive

/-- A silenced statement, when what follows it cannot revive the connection. -/
theorem ensures_quietly_bind {statement : δ → Except ε δ} {f : Unit → Tx δ ε α}
    (hsticky : (f ()).Sticky) (h : ∀ db', statement db = .ok db' → (f ()).Ensures db' Q) :
    (quietly (write statement) >>= f).Ensures db Q := by
  intro value c hx hfailed
  obtain ⟨u, c₁, hb, hf⟩ := bind_ok hx
  obtain ⟨haborted, _⟩ | ⟨_, hlive, hstatement⟩ := quietly_write_ok hb
  · have hstill := hsticky c₁.db value c (by rw [← hf, ← haborted])
    rw [hfailed] at hstill
    cases hstill
  · apply h c₁.db hstatement value c _ hfailed
    rw [← hf, ← hlive]

theorem ensures_quietly {statement : δ → Except ε δ} {Q : Unit → δ → Prop}
    (h : ∀ db', statement db = .ok db' → Q () db') : (quietly (write statement)).Ensures db Q := by
  intro value c hx hfailed
  obtain ⟨haborted, _⟩ | ⟨_, _, hstatement⟩ := quietly_write_ok hx
  · rw [haborted] at hfailed
    cases hfailed
  · exact h c.db hstatement

end Bind

end PhantomShare.Foundations.Tx
