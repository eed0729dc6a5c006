import Mathlib.Data.List.Basic

/-!
# Database transactions

A statement maps the state that the transaction sees to a result and a new
state, or fails. A failed statement aborts the transaction: every later
statement fails too, and `COMMIT` then rolls back without an error. An exception
that leaves the transaction block rolls back and is raised again.
-/
namespace PhantomShare.Foundations

/-- The exception of a statement sent in an aborted transaction. -/
class TransactionAborted (ε : Type) where
  aborted : ε

structure Connection (δ : Type) where
  db : δ
  failed : Bool

def Tx (δ ε α : Type) : Type := Connection δ → Except ε α × Connection δ

namespace Tx
variable {δ ε α β : Type}

instance : Monad (Tx δ ε) where
  pure value c := (.ok value, c)
  bind x f c :=
    match x c with
    | (.ok value, c') => f value c'
    | (.error error, c') => (.error error, c')

instance : MonadExcept ε (Tx δ ε) where
  throw error c := (.error error, c)
  tryCatch x handler c :=
    match x c with
    | (.ok value, c') => (.ok value, c')
    | (.error error, c') => handler error c'

/-- A result of pure code inside a transaction. -/
def ofExcept (result : Except ε α) : Tx δ ε α := fun c => (result, c)

/-- `raise` when a condition holds. -/
def raiseIf (bad : Bool) (error : ε) : Tx δ ε Unit := if bad then throw error else pure ()

/-- `cur.execute`. -/
def execute [TransactionAborted ε] (statement : δ → Except ε (α × δ)) : Tx δ ε α := fun c =>
  if c.failed then (.error TransactionAborted.aborted, c)
  else
    match statement c.db with
    | .ok (value, db) => (.ok value, { c with db := db })
    | .error error => (.error error, { c with failed := true })

/-- A query. -/
def select [TransactionAborted ε] (query : δ → α) : Tx δ ε α :=
  execute fun db => .ok (query db, db)

/-- A statement that returns no rows. -/
def write [TransactionAborted ε] (statement : δ → Except ε δ) : Tx δ ε Unit :=
  execute fun db => (statement db).map fun db' => ((), db')

/-- An exception is logged and forgotten; the transaction stays aborted. -/
def quietly (x : Tx δ ε Unit) : Tx δ ε Unit := fun c => (.ok (), (x c).2)

/-- The block of a transaction on `db`: its result and, when it commits, the new state. -/
def run (x : Tx δ ε α) (db : δ) : Except ε (α × Option δ) :=
  match x ⟨db, false⟩ with
  | (.ok value, c) => .ok (value, if c.failed then none else some c.db)
  | (.error error, _) => .error error

theorem bind_apply (x : Tx δ ε α) (f : α → Tx δ ε β) (c : Connection δ) :
    (x >>= f) c =
      match x c with
      | (.ok value, c') => f value c'
      | (.error error, c') => (.error error, c') := rfl

theorem tryCatch_apply (x : Tx δ ε α) (handler : ε → Tx δ ε α) (c : Connection δ) :
    (tryCatch x handler : Tx δ ε α) c =
      match x c with
      | (.ok value, c') => (.ok value, c')
      | (.error error, c') => handler error c' := rfl

/-- A block may be cut after any of its parts. -/
theorem bind_assoc' {γ : Type} (x : Tx δ ε α) (f : α → Tx δ ε β) (g : β → Tx δ ε γ) :
    x >>= f >>= g = x >>= fun value => f value >>= g := by
  funext c
  simp only [bind_apply]
  rcases x c with ⟨_ | _, c'⟩ <;> rfl

theorem bind_ok {x : Tx δ ε α} {f : α → Tx δ ε β} {c c' : Connection δ} {b : β}
    (h : (x >>= f) c = (.ok b, c')) : ∃ a c₁, x c = (.ok a, c₁) ∧ f a c₁ = (.ok b, c') := by
  rw [bind_apply] at h
  cases hx : x c with
  | mk r c₁ =>
    rw [hx] at h
    cases r with
    | ok a => exact ⟨a, c₁, rfl, h⟩
    | error e => simp at h

theorem bind_of_ok {x : Tx δ ε α} {c c₁ : Connection δ} {a : α} (h : x c = (.ok a, c₁))
    (f : α → Tx δ ε β) : (x >>= f) c = f a c₁ := by
  rw [bind_apply, h]

theorem ofExcept_bind_of_ok {result : Except ε α} {a : α} (h : result = .ok a) (f : α → Tx δ ε β)
    (c : Connection δ) : (ofExcept result >>= f) c = f a c := by
  rw [h]
  rfl

theorem pure_ok {value a : α} {c c' : Connection δ}
    (h : (pure value : Tx δ ε α) c = (.ok a, c')) : a = value ∧ c' = c := by
  cases h
  exact ⟨rfl, rfl⟩

theorem throw_ok {error : ε} {a : α} {c c' : Connection δ} :
    (throw error : Tx δ ε α) c ≠ (.ok a, c') := by
  intro h
  change ((.error error, c) : Except ε α × Connection δ) = _ at h
  simp at h

theorem ofExcept_ok {result : Except ε α} {a : α} {c c' : Connection δ}
    (h : (ofExcept result : Tx δ ε α) c = (.ok a, c')) : result = .ok a ∧ c' = c := by
  cases h
  exact ⟨rfl, rfl⟩

theorem raiseIf_ok {bad : Bool} {error : ε} {u : Unit} {c c' : Connection δ}
    (h : (raiseIf bad error : Tx δ ε Unit) c = (.ok u, c')) : bad = false ∧ c' = c := by
  cases bad with
  | true => exact absurd h throw_ok
  | false => exact ⟨rfl, (pure_ok h).2⟩

section Statements
variable [TransactionAborted ε]

theorem execute_ok {statement : δ → Except ε (α × δ)} {a : α} {c c' : Connection δ}
    (h : execute statement c = (.ok a, c')) :
    c.failed = false ∧ c'.failed = false ∧ statement c.db = .ok (a, c'.db) := by
  unfold execute at h
  cases hfailed : c.failed with
  | true => simp [hfailed] at h
  | false =>
    cases hs : statement c.db with
    | error e => simp [hfailed, hs] at h
    | ok r =>
      simp only [hfailed, hs, Bool.false_eq_true, if_false, Prod.mk.injEq,
        Except.ok.injEq] at h
      rcases h with ⟨rfl, rfl⟩
      exact ⟨rfl, rfl, rfl⟩

theorem select_ok {query : δ → α} {a : α} {c c' : Connection δ}
    (h : (select query : Tx δ ε α) c = (.ok a, c')) :
    c.failed = false ∧ a = query c.db ∧ c' = c := by
  have hexec := execute_ok h
  rcases hexec with ⟨hfailed, hfailed', hs⟩
  simp only [Except.ok.injEq, Prod.mk.injEq] at hs
  refine ⟨hfailed, hs.1.symm, ?_⟩
  cases c
  cases c'
  simp_all

theorem write_ok {statement : δ → Except ε δ} {u : Unit} {c c' : Connection δ}
    (h : (write statement : Tx δ ε Unit) c = (.ok u, c')) :
    c.failed = false ∧ c'.failed = false ∧ statement c.db = .ok c'.db := by
  have hexec := execute_ok h
  refine ⟨hexec.1, hexec.2.1, ?_⟩
  have hs := hexec.2.2
  cases hst : statement c.db with
  | error e => simp [hst, Except.map] at hs
  | ok db =>
    simp only [hst, Except.map, Except.ok.injEq, Prod.mk.injEq] at hs
    rw [hs.2]

/-- What a silenced statement leaves: its effect, or an aborted transaction. -/
theorem quietly_write_ok {statement : δ → Except ε δ} {u : Unit} {c c' : Connection δ}
    (h : quietly (write statement) c = (.ok u, c')) :
    (c'.failed = true ∧ c'.db = c.db) ∨
      (c.failed = false ∧ c'.failed = false ∧ statement c.db = .ok c'.db) := by
  have hc : c' = ((write statement : Tx δ ε Unit) c).2 := (congrArg Prod.snd h).symm
  cases hw : (write statement : Tx δ ε Unit) c with
  | mk r c₁ =>
    rw [hw] at hc
    subst hc
    cases r with
    | ok u' => exact Or.inr (write_ok hw)
    | error e =>
      left
      unfold write execute at hw
      cases hfailed : c.failed with
      | true =>
        simp only [hfailed, if_true, Prod.mk.injEq] at hw
        rw [← hw.2]
        exact ⟨hfailed, rfl⟩
      | false =>
        cases hs : statement c.db with
        | ok db => simp [hfailed, hs, Except.map] at hw
        | error e' =>
          simp only [hfailed, hs, Except.map, Bool.false_eq_true, if_false, Prod.mk.injEq] at hw
          rw [← hw.2]
          exact ⟨rfl, rfl⟩

/-- A block that ends with a silenced statement commits exactly when the statement succeeds. -/
theorem committed_quietly_write {statement : δ → Except ε δ} {u : Unit} {c c' : Connection δ}
    (hlive : c.failed = false) (h : quietly (write statement) c = (.ok u, c')) :
    (if c'.failed then none else some c'.db) = (statement c.db).toOption := by
  have hc : c' = ((write statement : Tx δ ε Unit) c).2 := (congrArg Prod.snd h).symm
  rw [hc, write, execute, hlive]
  cases hs : statement c.db with
  | ok db => simp [Except.map, Except.toOption]
  | error error => simp [Except.map, Except.toOption]

end Statements

section Live
variable [TransactionAborted ε]

/-- A statement of a transaction that is not aborted. -/
theorem execute_live (statement : δ → Except ε (α × δ)) (db : δ) :
    execute statement ⟨db, false⟩ =
      match statement db with
      | .ok (value, db') => (.ok value, ⟨db', false⟩)
      | .error error => (.error error, ⟨db, true⟩) := rfl

theorem write_live (statement : δ → Except ε δ) (db : δ) :
    (write statement : Tx δ ε Unit) ⟨db, false⟩ =
      match statement db with
      | .ok db' => (.ok (), ⟨db', false⟩)
      | .error error => (.error error, ⟨db, true⟩) := by
  rw [write, execute_live]
  cases statement db <;> rfl

theorem quietly_write_live (statement : δ → Except ε δ) (db : δ) :
    quietly (write statement) ⟨db, false⟩ =
      match statement db with
      | .ok db' => (.ok (), ⟨db', false⟩)
      | .error _ => (.ok (), ⟨db, true⟩) := by
  rw [quietly, write_live]
  cases statement db <;> rfl

end Live

/-- A block that only reads: it leaves a live connection as it is. -/
def Reads (x : Tx δ ε α) : Prop := ∀ db, (x ⟨db, false⟩).2 = ⟨db, false⟩

theorem Reads.bind {x : Tx δ ε α} {f : α → Tx δ ε β} (hx : x.Reads) (hf : ∀ a, (f a).Reads) :
    (x >>= f).Reads := by
  intro db
  have hstep := hx db
  rw [bind_apply]
  rcases hxc : x ⟨db, false⟩ with ⟨_ | value, c⟩
  · rw [hxc] at hstep
    exact hstep
  · rw [hxc] at hstep
    simp only at hstep
    subst hstep
    exact hf value db

theorem Reads.tryCatch {x : Tx δ ε α} {handler : ε → Tx δ ε α} (hx : x.Reads)
    (hhandler : ∀ error, (handler error).Reads) : (tryCatch x handler).Reads := by
  intro db
  have hstep := hx db
  rw [tryCatch_apply]
  rcases hxc : x ⟨db, false⟩ with ⟨error | _, c⟩
  · rw [hxc] at hstep
    simp only at hstep
    subst hstep
    exact hhandler error db
  · rw [hxc] at hstep
    exact hstep

theorem raiseIf_bind_isOk (bad : Bool) (error : ε) (f : Unit → Tx δ ε β) (c : Connection δ) :
    ((raiseIf bad error >>= f) c).1.isOk = (!bad && (f () c).1.isOk) := by
  cases bad <;> rfl

theorem ofExcept_bind_isOk (result : Except ε α) (value : β) (c : Connection δ) :
    ((ofExcept result >>= fun _ => pure value) c).1.isOk = result.isOk := by
  cases result <;> rfl

theorem select_bind [TransactionAborted ε] (query : δ → α) (f : α → Tx δ ε β) (db : δ) :
    (select query >>= f) ⟨db, false⟩ = f (query db) ⟨db, false⟩ := rfl

/-- A block returns when its program does. -/
theorem run_isOk (x : Tx δ ε α) (db : δ) : (x.run db).isOk = (x ⟨db, false⟩).1.isOk := by
  unfold run
  rcases x ⟨db, false⟩ with ⟨_ | _, c⟩ <;> rfl

/-- A block that returns either committed its last state or rolled back silently. -/
theorem run_ok {x : Tx δ ε α} {db : δ} {a : α} {committed : Option δ}
    (h : x.run db = .ok (a, committed)) :
    ∃ c, x ⟨db, false⟩ = (.ok a, c) ∧ committed = if c.failed then none else some c.db := by
  unfold run at h
  cases hx : x ⟨db, false⟩ with
  | mk r c =>
    rw [hx] at h
    cases r with
    | error e => simp at h
    | ok value =>
      simp only [Except.ok.injEq, Prod.mk.injEq] at h
      exact ⟨c, by rw [h.1], h.2.symm⟩

/-- A block of one statement commits what it wrote. -/
theorem run_write_ok [TransactionAborted ε] {statement : δ → Except ε δ} {db : δ} {u : Unit}
    {committed : Option δ}
    (h : (write statement : Tx δ ε Unit).run db = .ok (u, committed)) :
    ∃ db', committed = some db' ∧ statement db = .ok db' := by
  obtain ⟨c, hbody, hcommitted⟩ := run_ok h
  obtain ⟨_, hfailed, hwritten⟩ := write_ok hbody
  rw [hfailed, if_neg (by decide)] at hcommitted
  exact ⟨c.db, hcommitted, hwritten⟩

end Tx
end PhantomShare.Foundations
