import PhantomShare.Outlines
import PhantomShare.PlainPlatform

/-!
# The last administrator

An admin cannot change their own role or activation. While the caller of a
request is still an admin when its `UPDATE` runs, that leaves the system an admin;
but the role is checked in an earlier connection, and two admins who have both
been checked can remove each other.
-/
namespace PhantomShare.Administration
open Foundations

def isAdmin (u : User) : Bool := u.isActive && u.role = .admin

/-- The user is an active admin. -/
def administers (id : UUID) (db : Database) : Bool := (db.users.find id).any isAdmin

def hasAdmin (db : Database) : Bool := db.users.rows.any isAdmin

theorem hasAdmin_iff {db : Database} : hasAdmin db = true ↔ ∃ id, administers id db = true := by
  rw [hasAdmin, List.any_eq_true]
  constructor
  · rintro ⟨u, hu, hadmin⟩
    refine ⟨u.id, ?_⟩
    rw [administers, Table.find_of_mem hu]
    exact hadmin
  · rintro ⟨id, h⟩
    rcases (Option.any_eq_true _ _).mp h with ⟨u, hfind, hadmin⟩
    exact ⟨u, Table.mem_of_find hfind, hadmin⟩

/-- A change of one user leaves an admin if another user is one or the changed user stays one. -/
theorem hasAdmin_modify {db db' : Database} {target : UUID} {f : User → User}
    {hf : ∀ u, (f u).id = u.id} (husers : db'.users = db.users.modify target f hf)
    (h : (∃ id, id ≠ target ∧ administers id db = true) ∨
      administers target db = true ∧ ∀ u, isAdmin u = true → isAdmin (f u) = true) :
    hasAdmin db' = true := by
  rw [hasAdmin_iff]
  rcases h with ⟨id, hne, hadmin⟩ | ⟨hadmin, hstays⟩
  · refine ⟨id, ?_⟩
    rw [administers, husers, Table.find_modify, if_neg hne]
    exact hadmin
  · refine ⟨target, ?_⟩
    rcases (Option.any_eq_true _ _).mp hadmin with ⟨u, hfind, hu⟩
    rw [administers, husers, Table.find_modify, if_pos rfl, hfind]
    exact hstays u hu

/-- The step removes no active admin, or its caller is still one. -/
def authorised (label : Label) (w : World) : Bool :=
  match label with
  | .changeRole callerId userId role =>
    administers callerId w.db || role = .admin || !administers userId w.db
  | .switchActivation callerId userId _ => administers callerId w.db || !administers userId w.db
  | _ => true

inductive AdminRequest where
  | changeRole (userId : UUID) (role : Role) (credentials : Option String) (clientIp : String)
  | switchActivation (userId : UUID) (credentials : Option String) (clientIp : String)
  | cleanup (credentials : Option String) (clientIp : String)
  | sweep
  | tick
  deriving DecidableEq

inductive AdminResponse where
  | user (response : AdminUserResponse)
  | status (response : UserStatusResponse)
  | swept (result : CleanupService.SweepResult)
  | done

def adminSystem (P : Platform) : System World Choice Label AdminRequest Exn AdminResponse where
  serve
    | .changeRole userId role credentials clientIp =>
      .user <$> Admin.changeRole P userId role credentials clientIp
    | .switchActivation userId credentials clientIp =>
      .status <$> Admin.switchUserActivation P userId credentials clientIp
    | .cleanup credentials clientIp => .swept <$> Admin.cleanupExpired P credentials clientIp
    | .sweep => .swept <$> CleanupService.fallbackSweep
    | .tick => (fun _ => .done) <$> tick
  recover _ w := w

/-- Every `UPDATE` that removes an active admin is made by one who still is one. -/
def checked (v : View World AdminRequest Exn AdminResponse)
    (o : Occurrence Label AdminRequest Exn AdminResponse) : Bool :=
  match o with
  | .performed _ label => authorised label v.shared
  | _ => true

/-- A change after which there still is an admin. -/
def Lasts (db db' : Database) : Prop := hasAdmin db = true → hasAdmin db' = true

instance : IsPreorder Database Lasts where
  refl _ h := h
  trans _ _ _ hab hbc h := hbc (hab h)

theorem Lasts.of_users {db db' : Database} (h : db'.users = db.users) : Lasts db db' := by
  intro hadmin
  rw [hasAdmin, h]
  exact hadmin

/-- A step after which there still is an admin. -/
def Lasting (_pid : ℕ) (_label : Label) (w w' : World) : Prop := Lasts w.db w'.db

theorem still_lasting : Still Lasting := by
  intro pid label w w' hcalm
  exact .of_users (by rw [hcalm.db])

theorem sparing_lasting : Sparing Lasting := by
  intro pid label w outbox pending _
  exact .of_users rfl

section Parts
variable {P : Platform}

theorem only_auditLog_lasting (entry : AuditService.Entry) : (AuditService.log entry).Only Lasting := by
  apply only_log still_lasting
  intro pid w db hinsert
  rcases Database.insertAuditLog_ok hinsert with ⟨_, _, row, rfl⟩
  exact .of_users rfl

/-- A sweep removes inactive users only. -/
theorem lasts_deleteUsers (now : Timestamp) (db : Database) :
    Lasts db (db.deleteUsers (CleanupService.removable now)) := by
  intro hadmin
  rw [hasAdmin_iff] at hadmin ⊢
  rcases hadmin with ⟨id, hadmin⟩
  rcases (Option.any_eq_true _ _).mp hadmin with ⟨u, hfind, hu⟩
  refine ⟨id, ?_⟩
  have hactive : u.isActive = true := by
    rw [isAdmin, Bool.and_eq_true] at hu
    exact hu.1
  have hkept : CleanupService.removable now u = false := by simp [CleanupService.removable, hactive]
  have husers : (db.deleteUsers (CleanupService.removable now)).users =
      db.users.deleteWhere (CleanupService.removable now) := rfl
  rw [administers, husers, Table.find_deleteWhere, hfind]
  simpa [hkept] using hu

theorem preserves_sweepTransaction_lasts (now : Timestamp) :
    (CleanupService.sweepTransaction now).Preserves Lasts := by
  apply preserves_sweepTransaction
  · intro db
    rcases Database.deleteSecrets_frame now (CleanupService.spent now) db with ⟨_, _, _, hframe⟩
    rw [hframe]
    exact .of_users rfl
  · exact lasts_deleteUsers now
  · intro db
    exact .of_users rfl
  · intro db
    exact .of_users rfl

theorem only_fallbackSweep_lasting : CleanupService.fallbackSweep.Only Lasting := by
  apply only_fallbackSweep still_lasting sparing_lasting only_auditLog_lasting
  intro pid w swept db hrun
  exact (preserves_sweepTransaction_lasts w.now).run hrun

/-- A caller who is still an admin leaves the system an admin, since the target is another user. -/
theorem lasts_changeRole {w : World} {callerId userId : UUID} {role : Role}
    (hne : userId ≠ callerId) (hcond : authorised (.changeRole callerId userId role) w = true) :
    Lasts w.db (w.db.updateRole userId role).2 := by
  intro hadmin
  rcases hasAdmin_iff.mp hadmin with ⟨id, hid⟩
  apply @hasAdmin_modify w.db (w.db.updateRole userId role).2 userId
    (fun u => { u with role := role }) (fun _ => rfl) rfl
  by_cases htarget : id = userId
  · subst htarget
    change (administers callerId w.db || role = .admin || !administers id w.db) = true at hcond
    rw [hid, Bool.not_true, Bool.or_false, Bool.or_eq_true, decide_eq_true_eq] at hcond
    rcases hcond with hcaller | hrole
    · exact Or.inl ⟨callerId, Ne.symm hne, hcaller⟩
    · right
      refine ⟨hid, ?_⟩
      intro u hu
      rw [isAdmin, Bool.and_eq_true] at hu ⊢
      exact ⟨hu.1, by simp [hrole]⟩
  · exact Or.inl ⟨id, htarget, hid⟩

theorem lasts_switchActivation {w : World} {callerId userId : UUID} {started : Timestamp}
    (hne : userId ≠ callerId)
    (hcond : authorised (.switchActivation callerId userId started) w = true) :
    Lasts w.db (w.db.switchActive started userId).2 := by
  intro hadmin
  rcases hasAdmin_iff.mp hadmin with ⟨id, hid⟩
  apply @hasAdmin_modify w.db (w.db.switchActive started userId).2 userId
    (fun u => Database.scheduleUserDeletion started u.isActive { u with isActive := !u.isActive })
    (fun _ => Database.scheduleUserDeletion_id _ _ _) rfl
  left
  by_cases htarget : id = userId
  · subst htarget
    change (administers callerId w.db || !administers id w.db) = true at hcond
    rw [hid, Bool.not_true, Bool.or_false] at hcond
    exact ⟨callerId, Ne.symm hne, hcond⟩
  · exact ⟨id, htarget, hid⟩

theorem guarded_changeRole (userId : UUID) (role : Role) (credentials : Option String)
    (clientIp : String) : (Admin.changeRole P userId role credentials clientIp).Guarded
      (fun label w => authorised label w = true) Lasting fun _ => True := by
  apply (still_lasting.only_requireAdmin credentials).guarded.bind
  intro caller _
  apply (guarded_raiseIf _ _).bind
  intro _ hne
  rw [decide_eq_false_iff_not] at hne
  apply Program.Guarded.bind
  · apply @Still.guarded_transaction _ _ still_lasting _ fun _ => True
    intro pid w choice value committed hcond hrun
    refine ⟨trivial, ?_⟩
    rintro db rfl
    cases hrun
    exact lasts_changeRole hne hcond
  · intro row _
    cases row with
    | none => exact Program.guarded_throw _
    | some user =>
      exact ((only_auditLog_lasting _).bind fun _ => Program.only_pure _).guarded

theorem guarded_switchUserActivation (userId : UUID) (credentials : Option String)
    (clientIp : String) : (Admin.switchUserActivation P userId credentials clientIp).Guarded
      (fun label w => authorised label w = true) Lasting fun _ => True := by
  apply (still_lasting.only_requireAdmin credentials).guarded.bind
  intro caller _
  apply (guarded_raiseIf _ _).bind
  intro _ hne
  rw [decide_eq_false_iff_not] at hne
  apply still_lasting.only_startTransaction.guarded.bind
  intro started _
  apply Program.Guarded.bind
  · apply @Still.guarded_transaction _ _ still_lasting _ fun _ => True
    intro pid w choice value committed hcond hrun
    refine ⟨trivial, ?_⟩
    rintro db rfl
    cases hrun
    exact lasts_switchActivation hne hcond
  · intro row _
    cases row with
    | none => exact Program.guarded_throw _
    | some user =>
      exact ((only_auditLog_lasting _).bind fun _ => Program.only_pure _).guarded

theorem only_cleanupExpired (credentials : Option String) (clientIp : String) :
    (Admin.cleanupExpired P credentials clientIp).Only Lasting :=
  still_lasting.only_cleanupExpired only_auditLog_lasting only_fallbackSweep_lasting

theorem guarded_serve (request : AdminRequest) : ((adminSystem P).serve request).Guarded
    (fun label w => authorised label w = true) Lasting fun _ => True := by
  cases request with
  | changeRole userId role credentials clientIp =>
    exact (guarded_changeRole userId role credentials clientIp).map
  | switchActivation userId credentials clientIp =>
    exact (guarded_switchUserActivation userId credentials clientIp).map
  | cleanup credentials clientIp => exact (only_cleanupExpired credentials clientIp).map.guarded
  | sweep => exact only_fallbackSweep_lasting.map.guarded
  | tick => exact still_lasting.only_tick.map.guarded

end Parts

/-- While every `UPDATE` that removes an active admin is made by one who still is one, an active admin
remains. -/
theorem admin_remains (P : Platform) (w : World) (c : Pool World Choice Label AdminRequest Exn AdminResponse)
    (hadmin : hasAdmin w.db = true)
    (hrun : (adminSystem P).Run (fun v o => checked v o = true) (Pool.init w) c) :
    hasAdmin c.shared.db = true := by
  apply hrun.keeps (fun s => hasAdmin s.db = true) guarded_serve _ (Pool.all_init w)
  · intro pid label s s' hs hlasting
    exact hlasting hs
  · intro pid s hs
    exact hs
  · exact hadmin
  · rintro c o hchecked pid label rfl
    exact hchecked

/-! ### Two admins who remove each other -/

section Sample

def sampleAdmins : Table User.id :=
  ⟨[⟨1, "ada@example.org", "", .admin, true, true, none⟩,
    ⟨2, "bob@example.org", "", .admin, true, true, none⟩], by decide⟩

/-- Both admins are logged in. -/
def adminWorld : World :=
  worldOf { Database.empty with
    users := sampleAdmins
    sessions := ⟨[⟨11, 1, "a", "", none, 0, days 7, false⟩, ⟨12, 2, "b", "", none, 0, days 7, false⟩],
      by decide⟩ }
    .empty .empty 0

def credentialsOf (userId sessionId : UUID) : Option String :=
  some (Security.createAccessToken samplePlatform userId .admin sessionId 0 0)

/-- Each admin demotes or deactivates the other. -/
def removals : List (Event Choice AdminRequest) :=
  [.start (.changeRole 2 .user (credentialsOf 1 11) "203.0.113.9"),
    .start (.switchActivation 1 (credentialsOf 2 12) "203.0.113.9")]

def actOf (pid : ℕ) : Event Choice AdminRequest := .act pid {}

theorem admin_remains_sample : ∃ c,
    (adminSystem samplePlatform).Run (fun v o => checked v o = true) (Pool.init adminWorld) c ∧
      administers 2 c.shared.db = false ∧ hasAdmin c.shared.db = true := by
  rcases (adminSystem samplePlatform).exists_run (fun v o => checked v o = true)
    (Pool.init adminWorld) (removals ++ List.replicate 5 (actOf 0) ++ List.replicate 3 (actOf 1))
    (fun v => !administers 2 v.shared.db) (by decide +kernel) with ⟨c, hrun, h⟩
  rw [Bool.not_eq_true'] at h
  exact ⟨c, hrun, h, admin_remains samplePlatform adminWorld c (by decide +kernel) hrun⟩

/-- Both have passed the check before either is removed. -/
theorem admins_gone : hasAdmin adminWorld.db = true ∧ ∃ c,
    (adminSystem samplePlatform).Run (fun _ _ => True) (Pool.init adminWorld) c ∧
      hasAdmin c.shared.db = false := by
  refine ⟨by decide +kernel, ?_⟩
  rcases (adminSystem samplePlatform).exists_run (fun _ _ => True) (Pool.init adminWorld)
    (removals ++ List.replicate 2 (actOf 0) ++ List.replicate 4 (actOf 1) ++ [actOf 0])
    (fun v => !hasAdmin v.shared.db) (by decide +kernel) with ⟨c, hrun, h⟩
  rw [Bool.not_eq_true'] at h
  exact ⟨c, hrun, h⟩

end Sample
end PhantomShare.Administration
