import PhantomShare.Foundations.RelyGuarantee
import PhantomShare.Services.AuditAndLocation

/-!
# The rules of the atomic operations

What a proof about runs has to show for each operation of the handlers. An
operation that leaves the world as it is asks nothing but its postcondition.
-/
namespace PhantomShare
open Foundations

section
variable {ρ α γ δ : Type} {R : Rules World Label ρ Exn α} {pid : ℕ} {v : View World ρ Exn α}

theorem wp_raiseIf {bad : Bool} {error : Exn} {Q : Except Exn Unit → View World ρ Exn α → Prop}
    (herror : bad = true → Q (.error error) v) (hok : bad = false → Q (.ok ()) v) :
    R.wp pid (raiseIf bad error) Q v := by
  cases bad with
  | true => exact herror rfl
  | false => exact hok rfl

theorem wp_liftExcept {result : Except Exn γ} {Q : Except Exn γ → View World ρ Exn α → Prop}
    (h : Q result v) : R.wp pid (liftExcept result) Q v := by
  cases result with
  | ok value => exact h
  | error error => exact h

theorem moves_self (refl : ∀ k w, R.rely k w w) (hinv : R.inv v) : R.Moves pid v v :=
  ⟨hinv, fun k _ => refl k v⟩

theorem wp_query {label : Label} {q : Timestamp → Database → γ}
    {Q : Except Exn γ → View World ρ Exn α → Prop} (refl : ∀ k w, R.rely k w w)
    (h : ∀ v₁, R.Env pid v v₁ → R.inv v₁ → R.cond v₁ (.performed pid label) →
      Q (.error .unavailable) v₁ ∧ Q (.ok (q v₁.shared.now v₁.shared.db)) v₁) :
    R.wp pid (query label q) Q v := by
  apply Rules.wp_perform
  intro v₁ henv hinv hcond choice s r hact
  have hpost := h v₁ henv hinv hcond
  by_cases hfails : choice.fails = true
  · simp only [if_pos hfails, Option.some.injEq, Prod.mk.injEq] at hact
    rcases hact with ⟨rfl, rfl⟩
    exact ⟨moves_self refl hinv, hpost.1⟩
  · simp only [if_neg hfails, Option.some.injEq, Prod.mk.injEq] at hact
    rcases hact with ⟨rfl, rfl⟩
    exact ⟨moves_self refl hinv, hpost.2⟩

theorem wp_clock {Q : Except Exn Timestamp → View World ρ Exn α → Prop}
    (refl : ∀ k w, R.rely k w w)
    (h : ∀ v₁, R.Env pid v v₁ → R.inv v₁ → Q (.ok v₁.shared.now) v₁) :
    R.wp pid clock Q v := by
  apply Rules.wp_perform
  intro v₁ henv hinv hcond choice s r hact
  simp only [Option.some.injEq, Prod.mk.injEq] at hact
  rcases hact with ⟨rfl, rfl⟩
  exact ⟨moves_self refl hinv, h v₁ henv hinv⟩

theorem wp_tick {Q : Except Exn Unit → View World ρ Exn α → Prop}
    (h : ∀ v₁, R.Env pid v v₁ → R.inv v₁ → ∀ now, v₁.shared.now ≤ now →
      R.Moves pid v₁ (v₁.update (v₁.shared.setNow now)) ∧
        Q (.ok ()) (v₁.update (v₁.shared.setNow now))) :
    R.wp pid tick Q v := by
  apply Rules.wp_perform
  intro v₁ henv hinv hcond choice s r hact
  simp only [Option.some.injEq, Prod.mk.injEq] at hact
  rcases hact with ⟨rfl, rfl⟩
  exact h v₁ henv hinv _ (Nat.le_add_right _ _)

/-- A drawn UUID was never drawn before. -/
theorem wp_uuid4 {Q : Except Exn UUID → View World ρ Exn α → Prop}
    (h : ∀ v₁, R.Env pid v v₁ → R.inv v₁ → ∀ id, (∀ entry ∈ v₁.shared.issued, entry.1 ≠ id) →
      R.Moves pid v₁ (v₁.update (v₁.shared.issue id pid)) ∧
        Q (.ok id) (v₁.update (v₁.shared.issue id pid))) :
    R.wp pid uuid4 Q v := by
  apply Rules.wp_perform
  intro v₁ henv hinv hcond choice s r hact
  by_cases hany : (v₁.shared.issued.any fun entry => entry.1 = choice.uuid) = true
  · simp [hany] at hact
  · simp only [if_neg hany, Option.some.injEq, Prod.mk.injEq] at hact
    rcases hact with ⟨rfl, rfl⟩
    apply h v₁ henv hinv
    intro entry hentry heq
    exact hany (List.any_eq_true.mpr ⟨entry, hentry, by simpa using heq⟩)

/-- A transaction fails outright, raises, returns after a silent rollback, or commits. -/
theorem wp_transaction {label : Label} {body : Choice → Timestamp → Tx Database Exn γ}
    {record : γ → Label} {Q : Except Exn γ → View World ρ Exn α → Prop} (refl : ∀ k w, R.rely k w w)
    (h : ∀ v₁, R.Env pid v v₁ → R.inv v₁ → R.cond v₁ (.performed pid label) →
      (∀ error, Q (.error error) v₁) ∧
      ∀ choice value committed,
        (body choice v₁.shared.now).run v₁.shared.db = .ok (value, committed) →
        match committed with
        | none => Q (.ok value) v₁
        | some db =>
          R.Moves pid v₁ (v₁.update (v₁.shared.commit pid (record value) db)) ∧
          Q (.ok value) (v₁.update (v₁.shared.commit pid (record value) db))) :
    R.wp pid (transaction label body record) Q v := by
  apply Rules.wp_perform
  intro v₁ henv hinv hcond choice s r hact
  have hpost := h v₁ henv hinv hcond
  by_cases hfails : choice.fails = true
  · simp only [if_pos hfails, Option.some.injEq, Prod.mk.injEq] at hact
    rcases hact with ⟨rfl, rfl⟩
    exact ⟨moves_self refl hinv, hpost.1 _⟩
  · simp only [if_neg hfails] at hact
    cases hrun : (body choice v₁.shared.now).run v₁.shared.db with
    | error error =>
      simp only [hrun, Option.some.injEq, Prod.mk.injEq] at hact
      rcases hact with ⟨rfl, rfl⟩
      exact ⟨moves_self refl hinv, hpost.1 _⟩
    | ok result =>
      rcases result with ⟨value, committed⟩
      have hcase := hpost.2 choice value committed hrun
      cases committed with
      | none =>
        simp only [hrun, Option.some.injEq, Prod.mk.injEq] at hact
        rcases hact with ⟨rfl, rfl⟩
        exact ⟨moves_self refl hinv, hcase⟩
      | some db =>
        simp only [hrun, Option.some.injEq, Prod.mk.injEq] at hact
        rcases hact with ⟨rfl, rfl⟩
        exact hcase

/-- An audit entry of its own never raises; it appends one row or changes nothing. -/
theorem wp_auditLog {entry : AuditService.Entry} {Q : Except Exn Unit → View World ρ Exn α → Prop}
    (refl : ∀ k w, R.rely k w w)
    (h : ∀ v₁, R.Env pid v v₁ → R.inv v₁ → Q (.ok ()) v₁ ∧
      ∀ logs,
        R.Moves pid v₁ (v₁.update
          (v₁.shared.commit pid .auditLog { v₁.shared.db with auditLogs := logs })) ∧
        Q (.ok ()) (v₁.update
          (v₁.shared.commit pid .auditLog { v₁.shared.db with auditLogs := logs }))) :
    R.wp pid (AuditService.log entry) Q v := by
  apply Rules.wp_tryCatch
  apply wp_transaction refl
  intro v₁ henv hinv _
  have hpost := h v₁ henv hinv
  constructor
  · intro error
    exact hpost.1
  · intro choice value committed hrun
    rcases Tx.run_write_ok hrun with ⟨written, rfl, hinsert⟩
    rcases Database.insertAuditLog_ok hinsert with ⟨_, _, row, hdb⟩
    rw [hdb]
    exact hpost.2 _

/-! ### The same rules with what follows the operation -/

section Bind
variable {Q : Except Exn δ → View World ρ Exn α → Prop}

theorem wp_raiseIf_bind {bad : Bool} {error : Exn} {f : Unit → Handler δ}
    (herror : bad = true → Q (.error error) v) (hok : bad = false → R.wp pid (f ()) Q v) :
    R.wp pid (raiseIf bad error >>= f) Q v :=
  Rules.wp_bind (wp_raiseIf herror hok)

theorem wp_liftExcept_bind {result : Except Exn γ} {f : γ → Handler δ}
    (herror : ∀ error, result = .error error → Q (.error error) v)
    (hok : ∀ value, result = .ok value → R.wp pid (f value) Q v) :
    R.wp pid (liftExcept result >>= f) Q v := by
  apply Rules.wp_bind
  apply wp_liftExcept
  cases result with
  | ok value => exact hok value rfl
  | error error => exact herror error rfl

theorem wp_query_bind {label : Label} {q : Timestamp → Database → γ} {f : γ → Handler δ}
    (refl : ∀ k w, R.rely k w w)
    (h : ∀ v₁, R.Env pid v v₁ → R.inv v₁ → R.cond v₁ (.performed pid label) →
      Q (.error .unavailable) v₁ ∧ R.wp pid (f (q v₁.shared.now v₁.shared.db)) Q v₁) :
    R.wp pid (query label q >>= f) Q v :=
  Rules.wp_bind (wp_query refl h)

theorem wp_clock_bind {f : Timestamp → Handler δ} (refl : ∀ k w, R.rely k w w)
    (h : ∀ v₁, R.Env pid v v₁ → R.inv v₁ → R.wp pid (f v₁.shared.now) Q v₁) :
    R.wp pid (clock >>= f) Q v :=
  Rules.wp_bind (wp_clock refl h)

theorem wp_uuid4_bind {f : UUID → Handler δ}
    (h : ∀ v₁, R.Env pid v v₁ → R.inv v₁ → ∀ id, (∀ entry ∈ v₁.shared.issued, entry.1 ≠ id) →
      R.Moves pid v₁ (v₁.update (v₁.shared.issue id pid)) ∧
        R.wp pid (f id) Q (v₁.update (v₁.shared.issue id pid))) :
    R.wp pid (uuid4 >>= f) Q v :=
  Rules.wp_bind (wp_uuid4 h)

theorem wp_transaction_bind {label : Label} {body : Choice → Timestamp → Tx Database Exn γ}
    {record : γ → Label} {f : γ → Handler δ} (refl : ∀ k w, R.rely k w w)
    (h : ∀ v₁, R.Env pid v v₁ → R.inv v₁ → R.cond v₁ (.performed pid label) →
      (∀ error, Q (.error error) v₁) ∧
      ∀ choice value committed,
        (body choice v₁.shared.now).run v₁.shared.db = .ok (value, committed) →
        match committed with
        | none => R.wp pid (f value) Q v₁
        | some db =>
          R.Moves pid v₁ (v₁.update (v₁.shared.commit pid (record value) db)) ∧
          R.wp pid (f value) Q (v₁.update (v₁.shared.commit pid (record value) db))) :
    R.wp pid (transaction label body record >>= f) Q v :=
  Rules.wp_bind (wp_transaction refl h)

theorem wp_auditLog_bind {entry : AuditService.Entry} {f : Unit → Handler δ}
    (refl : ∀ k w, R.rely k w w)
    (h : ∀ v₁, R.Env pid v v₁ → R.inv v₁ → R.wp pid (f ()) Q v₁ ∧
      ∀ logs,
        R.Moves pid v₁ (v₁.update
          (v₁.shared.commit pid .auditLog { v₁.shared.db with auditLogs := logs })) ∧
        R.wp pid (f ()) Q (v₁.update
          (v₁.shared.commit pid .auditLog { v₁.shared.db with auditLogs := logs }))) :
    R.wp pid (AuditService.log entry >>= f) Q v :=
  Rules.wp_bind (wp_auditLog refl h)

end Bind
end
end PhantomShare
