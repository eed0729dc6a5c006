import PhantomShare.Access.Location
import PhantomShare.Deletion.Accounting
import PhantomShare.Outlines

/-!
# Runs of deletions

Deletions by owners and admins, burning views, expiry events and sweeps in any
interleaving. An expiry event and a sweep write their audit entries after the
`DELETE` has committed, when the foreign keys of `audit_logs` refuse them.
-/
namespace PhantomShare.Deletion
open Foundations

inductive DeletionRequest where
  | delete (secretId : String) (user : CurrentUser) (clientIp : String)
  | retrieve (secretId : String) (accessPassword token : Option String) (clientIp : String)
      (currentUser : Option CurrentUser)
  | expired (secretId : UUID)
  | sweep
  | tick
  deriving DecidableEq

inductive DeletionResponse where
  | done
  | content (response : SecretContent)
  | swept (result : CleanupService.SweepResult)

def deletionSystem (P : Platform) :
    System World Choice Label DeletionRequest Exn DeletionResponse where
  serve
    | .delete secretId user clientIp =>
      (fun _ => .done) <$> Secrets.deleteSecret P secretId user clientIp
    | .retrieve secretId accessPassword token clientIp currentUser =>
      .content <$> Secrets.retrieveSecret P secretId accessPassword token clientIp currentUser
    | .expired secretId => (fun _ => .done) <$> CleanupService.deleteSecret secretId
    | .sweep => .swept <$> CleanupService.fallbackSweep
    | .tick => (fun _ => .done) <$> tick
  recover _ w := w

/-- A step of an expiry event or of a sweep that has nothing to delete. -/
def removesNothing (label : Label) (w : World) : Bool :=
  match label with
  | .expireSecret secretId => (w.db.secrets.find secretId).isNone
  | .sweep => (w.db.secrets.rows.all fun s => !CleanupService.spent w.now s) &&
      w.db.users.rows.all fun u => !CleanupService.removable w.now u
  | _ => true

/-- No expiry event and no sweep deletes a secret or a user. -/
def undisturbed (v : View World DeletionRequest Exn DeletionResponse)
    (o : Occurrence Label DeletionRequest Exn DeletionResponse) : Bool :=
  match o with
  | .performed _ label => removesNothing label v.shared
  | _ => true

/-- A step is accounted for, and removes one secret at most. -/
def Audited (_pid : ℕ) (_label : Label) (w w' : World) : Prop := ∃ id, Removes id w.db w'.db

theorem still_audited : Still Audited := by
  intro pid label w w' hcalm
  refine ⟨0, ?_⟩
  rw [hcalm.db]
  exact .refl w.db

theorem sparing_audited : Sparing Audited := by
  intro pid label w outbox pending _
  exact ⟨0, .of_eq rfl rfl rfl rfl⟩

section Parts
variable {P : Platform} {α : Type} {id : UUID}

/-! ### Owners and viewers -/

theorem only_deleteSecret (secretId : String) (user : CurrentUser) (clientIp : String) :
    (Secrets.deleteSecret P secretId user clientIp).Only Audited := by
  apply (only_liftExcept _).bind
  intro id
  apply Program.Only.bind
  · apply still_audited.only_transaction
    intro pid w choice value db h
    exact ⟨id, removes_delete h⟩
  · intro _
    apply Program.Only.tryCatch
    · exact (still_audited.only_reconcileUser user.id).bind fun _ => Program.only_pure ()
    · intro error
      exact Program.only_pure ()

theorem only_retrieveSecret (secretId : String) (accessPassword token : Option String)
    (clientIp : String) (currentUser : Option CurrentUser) :
    (Secrets.retrieveSecret P secretId accessPassword token clientIp currentUser).Only Audited := by
  apply still_audited.only_retrieveSecret
  · intro entry haction
    apply only_log still_audited
    intro pid w db hinsert
    exact ⟨0, removes_insertAuditLog (by simp [haction]) (by simp [haction]) hinsert⟩
  · intro pid w id policy policyVersion seen db hrun
    exact ⟨id, preserves_retrieve.run hrun⟩

/-! ### Expiry events and sweeps that find nothing -/

theorem expireTransaction_none {now : Timestamp} {db : Database} (h : db.secrets.find id = none) :
    (CleanupService.expireTransaction id now).run db = .ok (none, some db) := by
  have hrows : ∀ s ∈ db.secrets.rows, decide (s.id = id) = false := by
    intro s hs
    rw [decide_eq_false_iff_not]
    exact Table.find_eq_none_iff.mp h s hs
  simp only [CleanupService.expireTransaction, Tx.run, Tx.bind_apply, Tx.select, Tx.execute_live,
    Tx.write_live, h, deleteSecrets_none hrows]
  rfl

/-- Without secrets and users to remove, a sweep deletes sessions and tracking rows only. -/
theorem sweepTransaction_none {now : Timestamp} {db : Database}
    (hsecrets : ∀ s ∈ db.secrets.rows, CleanupService.spent now s = false)
    (husers : ∀ u ∈ db.users.rows, CleanupService.removable now u = false) :
    ∃ sessions table, (CleanupService.sweepTransaction now).run db =
      .ok (⟨[], [], sessions⟩, some { db.deleteTracking now with sessions := table }) := by
  have hspent : db.secrets.rows.filter (CleanupService.spent now) = [] := by
    rw [List.filter_eq_nil_iff]
    intro s hs
    simp [hsecrets s hs]
  have hremovable : db.users.rows.filter (CleanupService.removable now) = [] := by
    rw [List.filter_eq_nil_iff]
    intro u hu
    simp [husers u hu]
  simp only [CleanupService.sweepTransaction, Tx.run, Tx.bind_apply, Tx.select, Tx.execute_live,
    Tx.write_live, deleteSecrets_none hsecrets, deleteUsers_none husers, hspent, hremovable]
  exact ⟨_, _, rfl⟩

/-- An expiry event whose secret is gone, and a sweep that finds nothing, are accounted for. -/
theorem guarded_deleteSecret (secretId : UUID) :
    (CleanupService.deleteSecret secretId).Guarded (fun label w => removesNothing label w = true)
      Audited fun _ => True := by
  apply (still_audited.only_acquireLock _ _).guarded.bind
  intro token _
  cases token with
  | none => exact Program.guarded_pure trivial
  | some token =>
    apply Program.Guarded.ensuring
    · apply Program.Guarded.bind
      · apply @Still.guarded_transaction _ _ still_audited _ fun deleted => deleted = none
        intro pid w choice value committed hnone h
        have hfind : w.db.secrets.find secretId = none := Option.isNone_iff_eq_none.mp hnone
        rw [expireTransaction_none hfind] at h
        cases h
        refine ⟨rfl, ?_⟩
        intro db hdb
        cases hdb
        exact ⟨0, .refl w.db⟩
      · intro deleted hdeleted
        rw [hdeleted]
        exact Program.guarded_pure trivial
    · exact (still_audited.only_releaseLock _ token).guarded

theorem found_nothing {w : World} (h : removesNothing .sweep w = true) :
    (∀ s ∈ w.db.secrets.rows, CleanupService.spent w.now s = false) ∧
      ∀ u ∈ w.db.users.rows, CleanupService.removable w.now u = false := by
  change ((w.db.secrets.rows.all fun s => !CleanupService.spent w.now s) &&
    w.db.users.rows.all fun u => !CleanupService.removable w.now u) = true at h
  simpa using h

theorem guarded_fallbackSweep :
    CleanupService.fallbackSweep.Guarded (fun label w => removesNothing label w = true) Audited
      fun _ => True := by
  apply (still_audited.only_acquireLock _ _).guarded.bind
  intro token _
  cases token with
  | none => exact Program.guarded_pure trivial
  | some token =>
    apply Program.Guarded.ensuring
    · apply Program.Guarded.bind
      · apply @Still.guarded_transaction _ _ still_audited _
          fun swept => swept.secrets = [] ∧ swept.users = []
        intro pid w choice value committed hnone h
        rcases found_nothing hnone with ⟨hsecrets, husers⟩
        rcases sweepTransaction_none hsecrets husers with ⟨sessions, table, hrun⟩
        rw [hrun, Except.ok.injEq, Prod.mk.injEq] at h
        rcases h with ⟨rfl, rfl⟩
        refine ⟨⟨rfl, rfl⟩, ?_⟩
        intro db hdb
        rw [Option.some.injEq] at hdb
        rw [← hdb]
        exact ⟨0, .of_eq rfl rfl rfl rfl⟩
      · rintro ⟨secrets, users, sessions⟩ ⟨rfl, rfl⟩
        apply Program.Only.guarded
        apply (Program.only_pure ()).bind
        intro _
        apply (Program.only_pure ()).bind
        intro _
        apply (only_processStorageCleanup still_audited sparing_audited).bind
        intro cleaned
        apply (Program.only_pure ()).bind
        intro _
        exact Program.only_pure _
    · exact (still_audited.only_releaseLock _ token).guarded

theorem guarded_serve (request : DeletionRequest) :
    ((deletionSystem P).serve request).Guarded (fun label w => removesNothing label w = true) Audited
      fun _ => True := by
  cases request with
  | delete secretId user clientIp =>
    exact (only_deleteSecret secretId user clientIp).map.guarded
  | retrieve secretId accessPassword token clientIp currentUser =>
    exact (only_retrieveSecret secretId accessPassword token clientIp currentUser).map.guarded
  | expired secretId => exact (guarded_deleteSecret secretId).map
  | sweep => exact guarded_fallbackSweep.map
  | tick => exact still_audited.only_tick.map.guarded

theorem allowed_of_undisturbed (c : Pool World Choice Label DeletionRequest Exn DeletionResponse)
    (o : Occurrence Label DeletionRequest Exn DeletionResponse)
    (h : undisturbed c.view o = true) :
    System.Allowed (fun label w => removesNothing label w = true) c o := by
  rintro pid label rfl
  exact h

end Parts

/-- In a run in which expiry events and sweeps find nothing to delete, there is one audit row for each
secret and each user that is gone, and a step that removes a secret removes only one, and commits its
row with it. -/
theorem deletions_audited (P : Platform) (w : World)
    (c : Pool World Choice Label DeletionRequest Exn DeletionResponse)
    (hrun : (deletionSystem P).Run (fun v o => undisturbed v o = true) (Pool.init w) c) :
    Accounted w.db c.shared.db ∧
      ∀ e o c', (deletionSystem P).next c e = some (o, c') → undisturbed c.view o = true →
        Accounted c.shared.db c'.shared.db ∧
          (secretIds c.shared.db \ secretIds c'.shared.db).card ≤ 1 := by
  constructor
  · apply hrun.keeps (fun s => Accounted w.db s.db) guarded_serve allowed_of_undisturbed
      (Pool.all_init w)
    · rintro pid label s s' haccounted ⟨id, hremoves⟩
      exact haccounted.trans hremoves.accounted
    · intro pid s haccounted
      exact haccounted
    · exact .refl w.db
  · intro e o c' hnext hcond
    have hall := hrun.guarded guarded_serve allowed_of_undisturbed (Pool.all_init w)
    have haudited : ∃ id, Removes id c.shared.db c'.shared.db := by
      apply ((deletionSystem P).moved_of_next hnext).keeps (fun s => ∃ id, Removes id c.shared.db s.db)
        (allowed_of_undisturbed c o hcond) hall
      · intro pid label haudited
        exact haudited
      · intro pid
        exact ⟨0, .refl _⟩
      · exact ⟨0, .refl _⟩
    rcases haudited with ⟨id, hremoves⟩
    exact ⟨hremoves.accounted, hremoves.single⟩

section Sample
open Access

/-- The linked secret, its owner, and a user who was deactivated two days ago. -/
def deletionWorld : World :=
  worldOf { Database.empty with
    users := ⟨[⟨1, "ada@example.org", "", .user, true, true, none⟩,
      ⟨2, "bob@example.org", "", .user, false, true, some 0⟩], by decide⟩
    secrets := .single linkedSecret }
    .empty .empty 0

/-- Whether every request has been answered. -/
def settled (v : View World DeletionRequest Exn DeletionResponse) : Bool :=
  v.tasks.all fun task => match task.2 with
    | .finished (.ok _) => true
    | _ => false

def steps (pid n : ℕ) : List (Event Choice DeletionRequest) :=
  List.replicate n (.act pid { uuid := 100 + pid })

theorem deletions_audited_sample : ∃ c,
    (deletionSystem samplePlatform).Run (fun v o => undisturbed v o = true) (Pool.init deletionWorld) c ∧
      secretIds c.shared.db = ∅ ∧ Accounted deletionWorld.db c.shared.db := by
  rcases (deletionSystem samplePlatform).exists_run (fun v o => undisturbed v o = true)
    (Pool.init deletionWorld)
    ([.start (.delete (samplePlatform.uuidText 7) sampleOwner sampleClient), .start (.expired 7)] ++
      steps 0 6 ++ steps 1 5)
    (fun v => settled v && decide (secretIds v.shared.db = ∅)) (by decide +kernel) with ⟨c, hrun, h⟩
  rw [Bool.and_eq_true, decide_eq_true_eq] at h
  exact ⟨c, hrun, h.2, (deletions_audited samplePlatform deletionWorld c hrun).1⟩

/-- An expiry event and a sweep remove a secret and a user, and neither leaves a row. -/
theorem deletions_unaudited : ∃ c,
    (deletionSystem samplePlatform).Run (fun _ _ => True) (Pool.init deletionWorld) c ∧
      settled c.view = true ∧ 7 ∈ secretIds deletionWorld.db \ secretIds c.shared.db ∧
      rowsOf "secret_deleted" c.shared.db = 0 ∧ 2 ∈ userIds deletionWorld.db \ userIds c.shared.db ∧
      rowsOf "user_removed" c.shared.db = 0 := by
  rcases (deletionSystem samplePlatform).exists_run (fun _ _ => True) (Pool.init deletionWorld)
    ([.start (.expired 7), .start .sweep] ++ steps 0 10 ++ steps 1 9)
    (fun v => settled v && decide (7 ∈ secretIds deletionWorld.db \ secretIds v.shared.db ∧
      rowsOf "secret_deleted" v.shared.db = 0 ∧ 2 ∈ userIds deletionWorld.db \ userIds v.shared.db ∧
      rowsOf "user_removed" v.shared.db = 0)) (by decide +kernel) with ⟨c, hrun, h⟩
  rw [Bool.and_eq_true, decide_eq_true_eq] at h
  exact ⟨c, hrun, h.1, h.2⟩

end Sample
end PhantomShare.Deletion
