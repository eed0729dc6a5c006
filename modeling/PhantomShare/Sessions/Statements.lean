import PhantomShare.Routers.Auth
import PhantomShare.Rules

/-!
# The rules of the statements on `sessions`

What a proof about runs has to show for an update that locks a row, for an insert,
and for the end of the transaction that they belong to.
-/
namespace PhantomShare
open Foundations

variable {ρ α δ : Type} {R : Rules World Label ρ Exn α} {pid : ℕ} {v : View World ρ Exn α}
  {Q : Except Exn δ → View World ρ Exn α → Prop}

/-- An update fails, matches no row, or locks a row that it matches and that nobody else holds. -/
theorem wp_revokeSession_bind {label : Label} {wanted : Session → Bool} {f : ℕ → Handler δ}
    (refl : ∀ k w, R.rely k w w)
    (h : ∀ v₁, R.Env pid v v₁ → R.inv v₁ → R.cond v₁ (.performed pid label) →
      Q (.error .unavailable) v₁ ∧
      (v₁.shared.db.sessions.rows.find? wanted = none → R.wp pid (f 0) Q v₁) ∧
      ∀ row ∈ v₁.shared.db.sessions.rows, wanted row = true →
        (∀ j, (row.id, j) ∈ v₁.shared.sessionLocks → j = pid) →
        R.Moves pid v₁ (v₁.update
          { v₁.shared with sessionLocks := v₁.shared.sessionLocks ++ [(row.id, pid)] }) ∧
        R.wp pid (f 1) Q (v₁.update
          { v₁.shared with sessionLocks := v₁.shared.sessionLocks ++ [(row.id, pid)] })) :
    R.wp pid (Auth.revokeSession label wanted >>= f) Q v := by
  apply Rules.wp_bind
  apply Rules.wp_perform
  intro v₁ henv hinv hcond choice s r hact
  have hpost := h v₁ henv hinv hcond
  by_cases hfails : choice.fails = true
  · simp only [if_pos hfails, Option.some.injEq, Prod.mk.injEq] at hact
    rcases hact with ⟨rfl, rfl⟩
    exact ⟨moves_self refl hinv, hpost.1⟩
  · simp only [if_neg hfails] at hact
    cases hfind : v₁.shared.db.sessions.rows.find? wanted with
    | none =>
      simp only [hfind, Option.some.injEq, Prod.mk.injEq] at hact
      rcases hact with ⟨rfl, rfl⟩
      exact ⟨moves_self refl hinv, hpost.2.1 hfind⟩
    | some row =>
      simp only [hfind] at hact
      by_cases hlocked : (v₁.shared.sessionLocks.any fun lock =>
          lock.1 = row.id ∧ lock.2 ≠ pid) = true
      · rw [if_pos hlocked] at hact
        cases hact
      · simp only [if_neg hlocked, Option.some.injEq, Prod.mk.injEq] at hact
        rcases hact with ⟨rfl, rfl⟩
        have hfree : ∀ j, (row.id, j) ∈ v₁.shared.sessionLocks → j = pid := by
          intro j hj
          by_contra hne
          exact hlocked (List.any_eq_true.mpr ⟨_, hj, by simp [hne]⟩)
        exact hpost.2.2 row (List.mem_of_find?_eq_some hfind) (List.find?_some hfind) hfree

/-- An insert fails, is refused, or adds its row to the open transaction. -/
theorem wp_insertSessionStatement_bind {hash : String} {row : Timestamp → Except Exn Session}
    {f : Unit → Handler δ} (refl : ∀ k w, R.rely k w w)
    (h : ∀ v₁, R.Env pid v v₁ → R.inv v₁ → (∀ error, Q (.error error) v₁) ∧
      ∀ session, row v₁.shared.now = .ok session →
        R.Moves pid v₁ (v₁.update
          { v₁.shared with sessionInserts := v₁.shared.sessionInserts ++ [(session, pid)] }) ∧
        R.wp pid (f ()) Q (v₁.update
          { v₁.shared with sessionInserts := v₁.shared.sessionInserts ++ [(session, pid)] })) :
    R.wp pid (Auth.insertSessionStatement hash row >>= f) Q v := by
  apply Rules.wp_bind
  apply Rules.wp_perform
  intro v₁ henv hinv _ choice s r hact
  have hpost := h v₁ henv hinv
  by_cases hfails : choice.fails = true
  · simp only [if_pos hfails, Option.some.injEq, Prod.mk.injEq] at hact
    rcases hact with ⟨rfl, rfl⟩
    exact ⟨moves_self refl hinv, hpost.1 _⟩
  · simp only [if_neg hfails] at hact
    cases hrow : row v₁.shared.now with
    | error error =>
      simp only [hrow, Option.some.injEq, Prod.mk.injEq] at hact
      rcases hact with ⟨rfl, rfl⟩
      exact ⟨moves_self refl hinv, hpost.1 _⟩
    | ok session =>
      simp only [hrow] at hact
      cases hcheck : Auth.checkSession session v₁.shared.db with
      | error error =>
        simp only [hcheck, Option.some.injEq, Prod.mk.injEq] at hact
        rcases hact with ⟨rfl, rfl⟩
        exact ⟨moves_self refl hinv, hpost.1 _⟩
      | ok u =>
        simp only [hcheck, Option.some.injEq, Prod.mk.injEq] at hact
        rcases hact with ⟨rfl, rfl⟩
        exact hpost.2 session hrow

/-- A transaction rolls back when its body raises or its commit fails; otherwise it commits what
the body did. -/
theorem wp_sessionTransaction_of {body : Handler (δ × Label)} {B : Label → View World ρ Exn α → Prop}
    {E : View World ρ Exn α → Prop} (refl : ∀ k w, R.rely k w w)
    (hbody : R.wp pid body
      (fun result v' => match result with | .ok (_, label) => B label v' | .error _ => E v') v)
    (hcommit : ∀ label v₁ v₂, B label v₁ → R.Env pid v₁ v₂ → R.inv v₂ → E v₂ ∧
      ∀ sessions, Auth.committedSessions pid v₂.shared = .ok sessions → ∀ value,
        R.Moves pid v₂ (v₂.update (Auth.discardWork pid
          (v₂.shared.commit pid label { v₂.shared.db with sessions := sessions }))) ∧
        Q (.ok value) (v₂.update (Auth.discardWork pid
          (v₂.shared.commit pid label { v₂.shared.db with sessions := sessions }))))
    (hrollback : ∀ v₁ v₂ error, E v₁ → R.Env pid v₁ v₂ → R.inv v₂ →
      R.Moves pid v₂ (v₂.update (Auth.discardWork pid v₂.shared)) ∧
        Q (.error error) (v₂.update (Auth.discardWork pid v₂.shared))) :
    R.wp pid (Auth.sessionTransaction body) Q v := by
  have hthrow : ∀ error v₁, E v₁ → R.wp pid (do
      Auth.rollbackSession
      throw error : Handler δ) Q v₁ := by
    intro error v₁ hE
    apply Rules.wp_bind
    apply Rules.wp_perform
    intro v₂ henv hinv _ choice s r hact
    simp only [Option.some.injEq, Prod.mk.injEq] at hact
    rcases hact with ⟨rfl, rfl⟩
    exact hrollback v₁ v₂ error hE henv hinv
  apply Rules.wp_tryCatch
  apply Rules.wp_bind
  apply Rules.wp_mono hbody
  intro result v₁ hpost
  cases result with
  | error error => exact hthrow error v₁ hpost
  | ok result =>
    rcases result with ⟨value, label⟩
    apply Rules.wp_bind
    apply Rules.wp_perform
    intro v₂ henv hinv _ choice s r hact
    have hB := hcommit label v₁ v₂ hpost henv hinv
    by_cases hfails : choice.fails = true
    · simp only [if_pos hfails, Option.some.injEq, Prod.mk.injEq] at hact
      rcases hact with ⟨rfl, rfl⟩
      exact ⟨moves_self refl hinv, hthrow _ v₂ hB.1⟩
    · simp only [if_neg hfails] at hact
      cases hsessions : Auth.committedSessions pid v₂.shared with
      | error error =>
        simp only [hsessions, Option.some.injEq, Prod.mk.injEq] at hact
        rcases hact with ⟨rfl, rfl⟩
        exact ⟨moves_self refl hinv, hthrow _ v₂ hB.1⟩
      | ok sessions =>
        simp only [hsessions, Option.some.injEq, Prod.mk.injEq] at hact
        rcases hact with ⟨rfl, rfl⟩
        exact hB.2 sessions hsessions value

end PhantomShare
