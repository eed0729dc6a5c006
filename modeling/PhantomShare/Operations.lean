import PhantomShare.Foundations.Alone
import PhantomShare.Foundations.Returns
import PhantomShare.Services.AuditAndLocation
import PhantomShare.World

/-!
# What the atomic operations do

The operations of a request that runs alone, when no other request interferes, and
what an operation may return in any state. A program that returns takes each operation
in the first of the states in which it takes its steps; a check or pure code takes none.
-/
namespace PhantomShare
open Foundations

variable {α β : Type} {pid : ℕ} {choices : ℕ → Choice} {w : World}

theorem alone_query (label : Label) (q : Timestamp → Database → α) :
    (query label q).alone pid choices w = some
      (if (choices 0).fails then .error .unavailable else .ok (q w.now w.db),
        fun n => choices (n + 1), w) := by
  rw [query, Program.alone_perform]
  cases (choices 0).fails <;> rfl

theorem alone_query_bind (label : Label) (q : Timestamp → Database → α) (f : α → Handler β)
    (hlive : (choices 0).fails = false) : (query label q >>= f).alone pid choices w =
      (f (q w.now w.db)).alone pid (fun n => choices (n + 1)) w := by
  rw [Program.alone_bind, alone_query, hlive]
  rfl

theorem alone_clock_bind (f : Timestamp → Handler β) : (clock >>= f).alone pid choices w =
    (f w.now).alone pid (fun n => choices (n + 1)) w := rfl

theorem alone_raiseIf (bad : Bool) (error : Exn) : (raiseIf bad error).alone pid choices w =
    some (if bad then .error error else .ok (), choices, w) := by
  cases bad <;> rfl

theorem alone_raiseIf_bind (bad : Bool) (error : Exn) (f : Unit → Handler β) :
    (raiseIf bad error >>= f).alone pid choices w =
      if bad then some (.error error, choices, w) else (f ()).alone pid choices w := by
  cases bad <;> rfl

theorem alone_liftExcept_bind (result : Except Exn α) (f : α → Handler β) :
    (liftExcept result >>= f).alone pid choices w =
      match result with
      | .ok value => (f value).alone pid choices w
      | .error error => some (.error error, choices, w) := by
  cases result <;> rfl

/-- An audit entry of its own never raises. -/
theorem alone_log (entry : AuditService.Entry) :
    ∃ w', (AuditService.log entry).alone pid choices w =
      some (.ok (), fun n => choices (n + 1), w') := by
  rw [AuditService.log, Program.alone_tryCatch, transaction, Program.alone_perform]
  cases (choices 0).fails with
  | true => exact ⟨w, rfl⟩
  | false =>
    cases (Tx.write (entry.insert w.now) : Tx Database Exn Unit).run w.db with
    | error error => exact ⟨w, by simp⟩
    | ok result =>
      rcases result with ⟨value, _ | db⟩
      · exact ⟨w, by simp⟩
      · exact ⟨_, by simp; rfl⟩

end PhantomShare

/-! ### What the atomic operations may return -/

namespace PhantomShare
open Foundations

variable {α β : Type} {w : World} {states : List World} {value : β}

@[simp] theorem returns_query_bind {label : Label} {q : Timestamp → Database → α}
    {f : α → Handler β} : (query label q >>= f).Returns (w :: states) value ↔
      (f (q w.now w.db)).Returns states value := by
  rw [query, Program.returns_perform_bind]
  constructor
  · rintro ⟨a, ⟨_, choice, s', hact⟩, hf⟩
    cases hfails : choice.fails with
    | true => simp [hfails] at hact
    | false =>
      simp only [hfails, Bool.false_eq_true, if_false, Option.some.injEq, Prod.mk.injEq,
        Except.ok.injEq] at hact
      exact hact.2 ▸ hf
  · intro hf
    exact ⟨_, ⟨0, {}, w, rfl⟩, hf⟩

@[simp] theorem returns_clock_bind {f : Timestamp → Handler β} :
    (clock >>= f).Returns (w :: states) value ↔ (f w.now).Returns states value := by
  rw [clock, Program.returns_perform_bind]
  constructor
  · rintro ⟨a, ⟨_, _, s', hact⟩, hf⟩
    cases hact
    exact hf
  · intro hf
    exact ⟨_, ⟨0, {}, w, rfl⟩, hf⟩

@[simp] theorem returns_raiseIf_bind {bad : Bool} {error : Exn} {f : Unit → Handler β} :
    (raiseIf bad error >>= f).Returns states value ↔
      bad = false ∧ (f ()).Returns states value := by
  cases bad with
  | true => simp [raiseIf, Bind.bind, Program.bind, throw, MonadExcept.throw, Program.Returns]
  | false => simp [raiseIf, Bind.bind, Pure.pure, Program.bind]

@[simp] theorem returns_liftExcept_bind {result : Except Exn α} {f : α → Handler β} :
    (liftExcept result >>= f).Returns states value ↔
      ∃ a, result = .ok a ∧ (f a).Returns states value :=
  Program.returns_ofExcept_bind

end PhantomShare
