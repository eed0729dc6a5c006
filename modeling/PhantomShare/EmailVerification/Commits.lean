import PhantomShare.Foundations.Footprint
import PhantomShare.Routers.EmailVerification

/-!
# Only commits change the tables

What a statement writes stays in its transaction.
-/
namespace PhantomShare.EmailVerification
open Foundations

/-- Only a commit changes what is committed. -/
def Commits (pid : ℕ) (label : AuthLabel) (w w' : AuthWorld) : Prop :=
  w'.tables = w.tables ∨ label = .commit ∧ w' = w.commit pid

section Commits
variable {P : Platform} {γ : Type} {label : AuthLabel}

theorem only_call {act : ℕ → AuthWorld → AuthChoice → Option (AuthWorld × Except Exn γ)}
    (h : ∀ pid w choice w' r, act pid w choice = some (w', r) → w'.tables = w.tables) :
    (call label act).Only Commits := by
  apply Program.only_perform
  intro pid w choice w' r happens
  split at happens
  · cases happens
    exact Or.inl rfl
  · exact Or.inl (h pid w choice w' r happens)

theorem only_select {q : Timestamp → Tables → γ} : (select label q).Only Commits := by
  apply only_call
  rintro pid w choice w' r ⟨⟩
  rfl

theorem only_connection {body : AuthHandler γ} (h : body.Only Commits) :
    (connection body).Only Commits := by
  apply Program.Only.tryCatch
  · apply h.bind
    intro value
    apply Program.Only.bind _ fun _ => Program.only_pure _
    apply Program.only_perform
    intro pid w choice w' r happens
    split at happens
    · cases happens
      split
      · exact Or.inr ⟨rfl, rfl⟩
      · exact Or.inl rfl
    · cases happens
      exact Or.inr ⟨rfl, rfl⟩
  · intro error
    apply Program.Only.bind _ fun _ => Program.only_throw _
    apply Program.only_perform
    rintro pid w choice w' r ⟨⟩
    exact Or.inl rfl

theorem only_raiseIf {bad : Bool} {error : Exn} : (raiseIf bad error).Only Commits := by
  cases bad <;> trivial

theorem only_selectUserForUpdate {id : UUID} : (selectUserForUpdate id).Only Commits := by
  apply only_call
  intro pid w choice w' r happens
  split at happens
  · cases happens
    rfl
  · split at happens <;> cases happens
    rfl

theorem only_register {email username : String} : (register email username).Only Commits := by
  apply Program.Only.bind
  · apply Program.only_perform
    rintro pid w choice w' r ⟨⟩
    exact Or.inl rfl
  intro passwordHash
  apply Program.Only.bind
  · apply only_connection
    apply only_select.bind
    intro taken
    apply only_raiseIf.bind
    intro _
    apply only_call
    intro pid w choice w' r happens
    simp only at happens
    split at happens
    · cases happens
    · split at happens <;> cases happens <;> rfl
  · intro row
    apply Program.Only.bind _ fun _ => Program.only_pure _
    apply Program.only_perform
    rintro pid w choice w' r ⟨⟩
    exact Or.inl rfl

theorem only_requestEmailVerification {userId : UUID} :
    (requestEmailVerification P userId).Only Commits := by
  apply Program.Only.bind _ fun _ => Program.only_pure _
  apply only_connection
  apply only_selectUserForUpdate.bind
  rintro (_ | user)
  · exact Program.only_throw _
  change Program.Only _ (if user.isVerified then _ else _)
  split
  · exact Program.only_pure _
  apply only_select.bind
  intro prior
  apply Program.Only.bind
  · apply Program.only_perform
    rintro pid w choice w' r ⟨⟩
    exact Or.inl rfl
  intro now
  apply only_raiseIf.bind
  intro _
  apply Program.Only.bind
  · apply Program.only_perform
    intro pid w choice w' r happens
    split at happens <;> cases happens
    exact Or.inl rfl
  intro code
  apply Program.Only.bind
  · apply only_call
    intro pid w choice w' r happens
    split at happens
    · cases happens
    · split at happens <;> cases happens <;> rfl
  intro _
  apply Program.Only.bind _ fun _ => Program.only_pure _
  apply Program.Only.tryCatch _ fun _ => Program.only_throw _
  apply Program.only_perform
  intro pid w choice w' r happens
  split at happens <;> cases happens <;> exact Or.inl rfl

theorem only_confirmEmailVerification {userId : UUID} {code : String} :
    (confirmEmailVerification P userId code).Only Commits := by
  apply Program.Only.bind _ fun _ => Program.only_pure _
  apply only_connection
  apply only_selectUserForUpdate.bind
  rintro (_ | user)
  · exact Program.only_throw _
  apply Program.Only.bind
  · apply only_call
    intro pid w choice w' r happens
    split at happens
    · cases happens
      rfl
    · split at happens
      · split at happens <;> cases happens
        rfl
      · cases happens
        rfl
  intro redeemed
  apply only_raiseIf.bind
  intro _
  apply only_call
  intro pid w choice w' r happens
  split at happens
  · cases happens
    rfl
  · split at happens <;> cases happens
    rfl

theorem only_deleteChallenge {p : Timestamp → Challenge → Bool} {userId : UUID} :
    (deleteChallenge label p userId).Only Commits := by
  apply only_call
  intro pid w choice w' r happens
  split at happens
  · cases happens
    rfl
  · split at happens
    · split at happens <;> cases happens
      rfl
    · cases happens
      rfl

theorem only_forEach {act : UUID → AuthHandler Unit} {ids : List UUID}
    (h : ∀ id, (act id).Only Commits) : (forEach act ids).Only Commits := by
  induction ids with
  | nil => exact Program.only_pure _
  | cons id ids ih => exact (h id).bind fun _ => ih

theorem only_deleteWithChallenge {started : Timestamp} {id : UUID} :
    (deleteWithChallenge started id).Only Commits := by
  apply Program.Only.bind
  · apply only_call
    intro pid w choice w' r happens
    split at happens
    · cases happens
      rfl
    · split at happens
      · split at happens <;> cases happens
        rfl
      · cases happens
        rfl
  · rintro (_ | _)
    · exact Program.only_pure _
    · exact (only_deleteChallenge : (cascade id).Only Commits)

theorem only_sweep : sweep.Only Commits := by
  apply only_connection
  apply only_select.bind
  intro found
  apply (only_forEach fun _ => only_deleteWithChallenge).bind
  intro _
  apply only_select.bind
  intro challenges
  exact only_forEach fun _ => only_deleteChallenge

theorem only_serve (request : AuthRequest) : (serve P request).Only Commits := by
  cases request with
  | register email username => exact only_register.map
  | request userId => exact only_requestEmailVerification.map
  | confirm userId code => exact only_confirmEmailVerification.map
  | sweep => exact only_sweep.map
  | wait =>
    apply Program.Only.map
    apply Program.only_perform
    rintro pid w choice w' r ⟨⟩
    exact Or.inl rfl

end Commits
end PhantomShare.EmailVerification
