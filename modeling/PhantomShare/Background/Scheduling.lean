import PhantomShare.Background.Fading

/-!
# Steps that keep the schedule

A bound on what one step does to secrets, expiry keys and users: a new secret is
`due`, the deletion that an expiry event asked for is one that `may` happen, and a
user's deletion date is set when the user is deactivated, to two days after the
start of the transaction.
-/
namespace PhantomShare.Background
open Foundations

/-- The last commit was a switch of the user, in a transaction that started two days before. -/
def Switched (id : UUID) (t : Timestamp) (w : World) : Prop :=
  ∃ pid callerId started, w.commits.getLast? = some (pid, .switchActivation callerId id started) ∧
    started + days 2 ≤ t

/-- A user with a deletion date had it before, or has just been deactivated. -/
def UsersAdvance (w w' : World) : Prop :=
  ∀ id u' t, w'.db.users.find id = some u' → u'.deleteAfter = some t →
    (∃ u, w.db.users.find id = some u ∧ u.isActive = u'.isActive ∧ u.deleteAfter = some t) ∨
      (u'.isActive = false ∧ Switched id t w')

/-- No secret is new. -/
def neverDue (_ : World) (_ : UUID) (_ : Timestamp) : Prop := False

/-- One new secret, with an expiry within its lifetime. -/
def dueWithin (id : UUID) (lifetime : ℕ) (w : World) (other : UUID) (expiresAt : Timestamp) : Prop :=
  other = id ∧ expiresAt ≤ w.now + lifetime

structure Advances (due : World → UUID → Timestamp → Prop) (may : UUID → Prop) (pid : ℕ)
    (_label : Label) (w w' : World) : Prop where
  issued : w'.issued = w.issued ∨
    ∃ id, (∀ entry ∈ w.issued, entry.1 ≠ id) ∧ w'.issued = w.issued ++ [(id, pid)]
  now : w.now ≤ w'.now
  sentinels : w'.sentinels = w.sentinels
  secrets : SecretsFade (due w) w.db w'.db
  users : UsersAdvance w w'
  commits : ∀ k id, (k, .expireSecret id) ∈ w'.commits →
    (k, .expireSecret id) ∈ w.commits ∨ may id

theorem UsersFade.advance {w w' : World} (h : UsersFade w.db w'.db) : UsersAdvance w w' := by
  intro id u' t hfind hdelete
  rcases h id u' hfind with ⟨u, hu, hactive, hsame⟩
  exact Or.inl ⟨u, hu, hactive, hsame.trans hdelete⟩

section
variable {due : World → UUID → Timestamp → Prop} {may : UUID → Prop} {pid : ℕ} {label : Label}
  {w w' : World}

theorem still_advances : Still (Advances due may) := by
  intro pid label w w' h
  have hfades : Fades (due w) w.db w'.db := .of_eq (by rw [h.db]) (by rw [h.db])
  refine ⟨h.issued, h.now, h.sentinels, hfades.secrets, hfades.users.advance, ?_⟩
  intro k id hmem
  exact Or.inl (h.commits ▸ hmem)

/-- A commit that leaves the clock and the expiry keys alone. -/
theorem Advances.commit {record : Label} {db : Database} (hsecrets : SecretsFade (due w) w.db db)
    (husers : UsersAdvance w (w.commit pid record db))
    (hrecord : ∀ id, record = .expireSecret id → may id) :
    Advances due may pid label w (w.commit pid record db) where
  issued := Or.inl rfl
  now := le_refl _
  sentinels := rfl
  secrets := hsecrets
  users := husers
  commits k id hmem := by
    rcases List.mem_append.mp hmem with hold | hnew
    · exact Or.inl hold
    · rw [List.mem_singleton, Prod.mk.injEq] at hnew
      exact Or.inr (hrecord id hnew.2.symm)

theorem Fades.advance {record : Label} {db : Database} (h : Fades (due w) w.db db)
    (hrecord : ∀ id, record ≠ .expireSecret id) :
    Advances due may pid label w (w.commit pid record db) :=
  .commit h.secrets h.users.advance fun id heq => absurd heq (hrecord id)

theorem logs_advances : Logs (Advances due may) := by
  intro pid w entry db hinsert
  exact (Fades.insertAuditLog hinsert).advance nofun

theorem sparing_advances : Sparing (Advances due may) := by
  intro pid label w outbox pending hlabel
  have hfades : Fades (due w) w.db
      { w.db with objectDeletionOutbox := outbox, pendingUploads := pending } := .of_eq rfl rfl
  apply hfades.advance
  rintro id rfl
  cases hlabel

theorem refreshes_advances : Refreshes (Advances due may) where
  work pid label w locks inserts := by
    have hfades : Fades (due w) w.db w.db := .refl _
    exact ⟨Or.inl rfl, le_refl _, rfl, hfades.secrets, hfades.users.advance, fun _ _ => Or.inl⟩
  commit pid hash newHash w sessions := by
    have hfades : Fades (due w) w.db { w.db with sessions := sessions } := .of_eq rfl rfl
    have hadvance : Advances due may pid (.refresh hash newHash) w
        (w.commit pid (.refresh hash newHash) { w.db with sessions := sessions }) :=
      hfades.advance nofun
    exact ⟨hadvance.issued, hadvance.now, hadvance.sentinels, hadvance.secrets, hadvance.users,
      hadvance.commits⟩

/-- The trigger `trg_schedule_user_deletion` on a switch. -/
theorem advances_switch (pid : ℕ) (w : World) (callerId userId : UUID) (started : Timestamp) :
    Advances due may pid (.switchActivation callerId userId started) w
      (w.commit pid (.switchActivation callerId userId started)
        (w.db.switchActive started userId).2) := by
  have hsecrets : SecretsFade (due w) w.db (w.db.switchActive started userId).2 :=
    fun id s' h => Or.inl ⟨s', h, rfl⟩
  apply Advances.commit hsecrets _ nofun
  intro id u' t hfind hdelete
  rw [World.commit_db, Database.find_switchActive] at hfind
  split at hfind
  · rename_i hid
    rcases Option.map_eq_some_iff.mp hfind with ⟨u, hu, rfl⟩
    cases hactive : u.isActive with
    | true =>
      right
      rw [Database.scheduleUserDeletion, if_pos (by simp [hactive])] at hdelete ⊢
      cases hdelete
      rw [hid]
      exact ⟨by simp, pid, callerId, started, by simp, le_rfl⟩
    | false =>
      rw [Database.scheduleUserDeletion, if_neg (by simp [hactive]), if_pos (by simp [hactive])]
        at hdelete
      cases hdelete
  · exact Or.inl ⟨u', hfind, rfl, hdelete⟩

theorem only_fallbackSweep_advances : CleanupService.fallbackSweep.Only (Advances due may) := by
  apply only_fallbackSweep still_advances sparing_advances (still_advances.only_auditLog logs_advances)
  intro pid w swept db hrun
  exact ((fades_sweep w.now).run hrun).advance nofun

end
end PhantomShare.Background
