import PhantomShare.Administration.Admins
import PhantomShare.Background.Runs
import PhantomShare.Foundations.Decides
import PhantomShare.Foundations.Since

/-!
# Only dead data is deleted

Every step of an expiry event or of a sweep, in any run. The statements of a sweep
name what they delete; an expiry event deletes by the id, and the invariant of the
expiry keys says that the secret has expired. That a user who may be deleted has been
inactive ever since a transaction that started two days before is a fact about the
states that the run has passed; the transaction may have waited before it
deactivated the user.
-/
namespace PhantomShare.Background
open Foundations

/-! ### What one step deletes -/

/-- Every row that is gone met the condition of the statement that deleted it. -/
structure Reaps (now : Timestamp) (db db' : Database) : Prop where
  secrets : ∀ id s, db.secrets.find id = some s →
    (∃ s', db'.secrets.find id = some s' ∧ s'.expiresAt = s.expiresAt ∧ s'.maxViews = s.maxViews ∧
      s'.viewCount = s.viewCount) ∨ CleanupService.spent now s = true
  users : ∀ id u, db.users.find id = some u →
    db'.users.find id = some u ∨ CleanupService.removable now u = true
  strangers : ∀ id, db.users.find id = none → db'.users.find id = none
  sessions : ∀ id s, db.sessions.find id = some s → db'.sessions.find id = some s ∨
    CleanupService.stale now s = true ∨ db'.users.find s.userId = none

namespace Reaps
variable {now : Timestamp}

theorem refl (db : Database) : Reaps now db db where
  secrets _ s h := Or.inl ⟨s, h, rfl, rfl, rfl⟩
  users _ _ h := Or.inl h
  strangers _ h := h
  sessions _ _ h := Or.inl h

theorem trans {a b c : Database} (hab : Reaps now a b) (hbc : Reaps now b c) : Reaps now a c where
  secrets id s h := by
    rcases hab.secrets id s h with ⟨s₁, h₁, hexpiry₁, hmax₁, hcount₁⟩ | hspent
    · rcases hbc.secrets id s₁ h₁ with ⟨s₂, h₂, hexpiry₂, hmax₂, hcount₂⟩ | hspent
      · exact Or.inl ⟨s₂, h₂, hexpiry₂.trans hexpiry₁, hmax₂.trans hmax₁, hcount₂.trans hcount₁⟩
      · right
        rw [CleanupService.spent, ← hexpiry₁, ← hmax₁, ← hcount₁]
        exact hspent
    · exact Or.inr hspent
  users id u h := by
    rcases hab.users id u h with h₁ | hremovable
    · exact hbc.users id u h₁
    · exact Or.inr hremovable
  strangers id h := hbc.strangers id (hab.strangers id h)
  sessions id s h := by
    rcases hab.sessions id s h with h₁ | hstale | hgone
    · exact hbc.sessions id s h₁
    · exact Or.inr (Or.inl hstale)
    · exact Or.inr (Or.inr (hbc.strangers _ hgone))

instance : IsPreorder Database (Reaps now) where
  refl := refl
  trans _ _ _ := trans

theorem of_eq {db db' : Database} (hsecrets : db'.secrets = db.secrets)
    (husers : db'.users = db.users) (hsessions : db'.sessions = db.sessions) : Reaps now db db' where
  secrets _ s h := Or.inl ⟨s, hsecrets ▸ h, rfl, rfl, rfl⟩
  users _ _ h := Or.inl (husers ▸ h)
  strangers _ h := husers ▸ h
  sessions _ _ h := Or.inl (hsessions ▸ h)

theorem deleteSecrets (db : Database) :
    Reaps now db (db.deleteSecrets now (CleanupService.spent now)) := by
  rcases Database.deleteSecrets_frame now (CleanupService.spent now) db with ⟨_, _, _, hframe⟩
  rw [hframe]
  refine ⟨?_, fun _ _ h => Or.inl h, fun _ h => h, fun _ _ h => Or.inl h⟩
  intro id s hfind
  rw [Table.find_deleteWhere, hfind]
  cases hspent : CleanupService.spent now s with
  | true => exact Or.inr rfl
  | false => exact Or.inl ⟨s, by simp [hspent], rfl, rfl, rfl⟩

theorem deleteUsers (db : Database) :
    Reaps now db (db.deleteUsers (CleanupService.removable now)) where
  secrets id s h := by
    left
    rw [Database.deleteUsers, Table.find_mapRows, h]
    exact ⟨_, rfl, rfl, rfl, rfl⟩
  users id u h := by
    rw [Database.deleteUsers, Table.find_deleteWhere, h]
    cases hremovable : CleanupService.removable now u with
    | true => exact Or.inr rfl
    | false => exact Or.inl (by simp [hremovable])
  strangers id h := by
    rw [Database.deleteUsers, Table.find_deleteWhere, h]
    rfl
  sessions id s h := by
    rw [Database.deleteUsers, Table.find_deleteWhere, Table.find_deleteWhere, h]
    cases hgone : (db.users.rows.filter (CleanupService.removable now)).any
      fun u => u.id = s.userId with
    | false =>
      left
      rw [Option.filter_some]
      exact if_pos ((Bool.not_eq_true' _).mpr hgone)
    | true =>
      right
      right
      rcases List.any_eq_true.mp hgone with ⟨u, hu, hid⟩
      rw [List.mem_filter] at hu
      rw [decide_eq_true_eq] at hid
      rw [← hid, Table.find_of_mem hu.1]
      simp [hu.2]

theorem deleteSessions (db : Database) :
    Reaps now db { db with sessions := db.sessions.deleteWhere (CleanupService.stale now) } := by
  refine ⟨fun _ s h => Or.inl ⟨s, h, rfl, rfl, rfl⟩, fun _ _ h => Or.inl h, fun _ h => h, ?_⟩
  intro id s hfind
  rw [Table.find_deleteWhere, hfind]
  cases hstale : CleanupService.stale now s with
  | true => exact Or.inr (Or.inl rfl)
  | false => exact Or.inl (by simp [hstale])

end Reaps

/-- A step that deletes dead rows, or the deletion of an expiry event. -/
def Clears (pid : ℕ) (label : Label) (w w' : World) : Prop :=
  Reaps w.now w.db w'.db ∨ ∃ id, label = .expireSecret id ∧ w' = w.commit pid (.expireSecret id)
    (w.db.deleteSecrets w.now fun s => s.id = id)

theorem still_clears : Still Clears := by
  intro pid label w w' h
  rw [Clears, h.db]
  exact Or.inl (.refl _)

theorem sparing_clears : Sparing Clears := fun _ _ _ _ _ _ => Or.inl (.of_eq rfl rfl rfl)

theorem only_log_clears (entry : AuditService.Entry) : (AuditService.log entry).Only Clears := by
  apply only_log still_clears
  intro pid w db hinsert
  rcases Database.insertAuditLog_ok hinsert with ⟨_, _, row, rfl⟩
  exact Or.inl (.of_eq rfl rfl rfl)

theorem only_fallbackSweep_clears : CleanupService.fallbackSweep.Only Clears := by
  apply only_fallbackSweep still_clears sparing_clears only_log_clears
  intro pid w swept db hrun
  have hreaps : (CleanupService.sweepTransaction w.now).Preserves (Reaps w.now) := by
    apply preserves_sweepTransaction Reaps.deleteSecrets Reaps.deleteUsers _ Reaps.deleteSessions
    exact fun db => .of_eq rfl rfl rfl
  exact Or.inl (hreaps.run hrun)

theorem expireTransaction_ok {id : UUID} {now : Timestamp} {db db' : Database}
    {deleted : Option (Option UUID)}
    (h : (CleanupService.expireTransaction id now).run db = .ok (deleted, some db')) :
    db' = db.deleteSecrets now fun s => s.id = id := by
  rcases Tx.run_ok h with ⟨c, hbody, hcommitted⟩
  rcases Tx.bind_ok hbody with ⟨_, c₁, hselect, hbody₁⟩
  rcases Tx.select_ok hselect with ⟨_, _, rfl⟩
  rcases Tx.bind_ok hbody₁ with ⟨_, c₂, hwrite, hbody₂⟩
  rcases Tx.write_ok hwrite with ⟨_, hfailed, hdelete⟩
  rcases Tx.pure_ok hbody₂ with ⟨_, rfl⟩
  simp only [hfailed, Bool.false_eq_true, if_false, Option.some.injEq] at hcommitted
  rw [hcommitted, ← Except.ok.inj hdelete]

theorem only_deletes {P : Platform} (request : BackgroundRequest) (h : request.deletes = true) :
    ((backgroundSystem P).serve request).Only Clears := by
  cases request with
  | expired secretId =>
    apply Program.Only.map
    apply (still_clears.only_expiredEvent secretId).bind
    intro _
    apply Program.Only.tryCatch
    · apply still_clears.only_deleteSecret only_log_clears
      intro pid w deleted db hrun
      exact Or.inr ⟨secretId, rfl, by rw [expireTransaction_ok hrun]⟩
    · intro error
      exact Program.only_pure ()
  | sweep => exact only_fallbackSweep_clears.map
  | cleanup credentials clientIp =>
    exact (still_clears.only_cleanupExpired only_log_clears only_fallbackSweep_clears).map
  | _ => cases h

/-! ### The past of the users -/

section Users
variable {P : Platform}

def Inactive (id : UUID) (v : BackgroundView) : Prop :=
  ∃ u, v.shared.db.users.find id = some u ∧ u.isActive = false

/-- Whatever a request does to users, a deletion date is set on deactivation only. -/
theorem only_usersAdvance (request : BackgroundRequest) :
    ((backgroundSystem P).serve request).Only fun _ _ w w' => UsersAdvance w w' := by
  have hstill : Still fun _ _ w w' => UsersAdvance w w' := fun pid label w w' h =>
    (@still_advances neverDue (fun _ => False) pid label w w' h).users
  have hlogs : Logs fun _ _ w w' => UsersAdvance w w' := fun pid w entry db h =>
    (@logs_advances neverDue (fun _ => False) pid w entry db h).users
  have hset : ∀ id ttlSeconds, (CleanupService.scheduleExpiry id ttlSeconds).Only
      fun _ _ w w' => UsersAdvance w w' := by
    intro id ttlSeconds
    apply only_scheduleExpiry'
    · exact fun pid w => hstill pid (.setExpiry id) w w (Calm.refl pid w)
    · intro pid w
      have hsame : Fades (neverDue w) w.db w.db := .refl _
      exact hsame.users.advance
  cases hkeys : request.concernsKeys with
  | false =>
    apply (@only_others P neverDue (fun _ => False) request hkeys).mono
    exact fun _ _ _ _ h => h.users
  | true =>
    cases request with
    | create body user clientIp =>
      apply Program.Only.map
      apply hstill.only_createSecret fun id => hset id _
      intro pid w choice id signedToken db hrun
      have hfades : Fades (dueWithin id (hours body.ttlHours) w) w.db db :=
        (fades_create ⟨rfl, le_refl _⟩).run hrun
      exact hfades.users.advance
    | createFile body user clientIp =>
      apply Program.Only.map
      apply hstill.only_createFileSecret hlogs fun id => hset id _
      · intro pid w row db hinsert
        rcases Database.insertPendingUpload_ok hinsert with ⟨pending, _, rfl⟩
        exact fun id u' t hfind hdelete => Or.inl ⟨u', hfind, rfl, hdelete⟩
      · intro pid w pendingId objectKey access encrypted size encryptedSize detail signedToken db hrun
        have hfades : Fades (dueWithin objectKey.secretId (hours body.ttlHours) w) w.db db :=
          (fades_createFile ⟨rfl, le_refl _⟩).run hrun
        exact hfades.users.advance
    | expired secretId =>
      apply Program.Only.map
      apply (hstill.only_expiredEvent secretId).bind
      intro _
      apply Program.Only.tryCatch
      · apply hstill.only_deleteSecret (hstill.only_auditLog hlogs)
        intro pid w deleted db hrun
        have hfades : Fades (neverDue w) w.db db := (fades_expire secretId w.now).run hrun
        exact hfades.users.advance
      · intro error
        exact Program.only_pure ()
    | _ => cases hkeys

variable {w : World} {c c' : Pool World Choice Label BackgroundRequest Exn BackgroundResponse}

/-- A user with a deletion date has been inactive since a switch that started two days before it. -/
def Deactivated (P : Platform) (w : World)
    (c : Pool World Choice Label BackgroundRequest Exn BackgroundResponse) : Prop :=
  ∀ id u t, c.shared.db.users.find id = some u → u.deleteAfter = some t →
    (backgroundSystem P).Since (Pool.init w) (Inactive id) (fun v => Switched id t v.shared) c

/-- One transition. -/
theorem Deactivated.step {e : Event Choice BackgroundRequest}
    {o : Occurrence Label BackgroundRequest Exn BackgroundResponse} (h : Deactivated P w c)
    (run : (backgroundSystem P).Run (fun _ _ => True) (Pool.init w) c)
    (happens : (backgroundSystem P).next c e = some (o, c'))
    (hstep : UsersAdvance c.shared c'.shared) : Deactivated P w c' := by
  intro id u' t hfind hdelete
  rcases hstep id u' t hfind hdelete with ⟨u, hu, hactive, hold⟩ | ⟨hinactive, hswitched⟩
  · have hsince := h id u t hu hold
    rcases hsince.holds with ⟨u₁, hu₁, hinactive⟩
    have hsame : u₁ = u := Option.some.inj (hu₁.symm.trans hu)
    exact hsince.step happens ⟨u', hfind, by rw [← hactive, ← hsame, hinactive]⟩
  · apply System.Since.begins (run.tail happens trivial) hswitched
    exact ⟨u', hfind, hinactive⟩

theorem deactivated_of_run
    (hstart : ∀ id u, w.db.users.find id = some u → u.deleteAfter = none)
    (run : (backgroundSystem P).Run (fun _ _ => True) (Pool.init w) c) : Deactivated P w c := by
  induction run with
  | refl =>
    intro id u t hfind hdelete
    rw [hstart id u hfind] at hdelete
    cases hdelete
  | tail prior happens _ ih =>
    apply ih.step prior happens
    have hsame : ∀ s : World, Fades (neverDue s) s.db s.db := fun s => .refl _
    have hall := prior.only only_usersAdvance (Pool.all_init w)
    rcases (System.moved_of_next _ happens).bounded hall with heq | ⟨pid, label, hstep⟩ | ⟨pid, heq⟩
    · rw [heq]
      exact (hsame _).users.advance
    · exact hstep
    · rw [heq]
      exact (hsame _).users.advance

end Users

/-! ### Every deletion of the background -/

section Deletions
variable {P : Platform} {w : World}
  {c c' : Pool World Choice Label BackgroundRequest Exn BackgroundResponse}

/-- What a transition of a run has deleted was dead. -/
structure OnlyDead (P : Platform) (w : World)
    (c c' : Pool World Choice Label BackgroundRequest Exn BackgroundResponse) : Prop where
  secrets : ∀ id s, c.shared.db.secrets.find id = some s → c'.shared.db.secrets.find id = none →
    s.expiresAt ≤ c.shared.now ∨ s.maxViews ≤ s.viewCount
  users : ∀ id u, c.shared.db.users.find id = some u → c'.shared.db.users.find id = none →
    (backgroundSystem P).Since (Pool.init w) (Inactive id)
      (fun v => Switched id c.shared.now v.shared) c
  sessions : ∀ id s, c.shared.db.sessions.find id = some s → c'.shared.db.sessions.find id = none →
    s.revoked = true ∨ s.expiresAt ≤ c.shared.now ∨ c'.shared.db.users.find s.userId = none

/-- The statements of a sweep. -/
theorem Reaps.onlyDead (h : Reaps c.shared.now c.shared.db c'.shared.db) (hpast : Deactivated P w c) :
    OnlyDead P w c c' where
  secrets id s hfind hgone := by
    rcases h.secrets id s hfind with ⟨s', hfind', _⟩ | hspent
    · rw [hgone] at hfind'
      cases hfind'
    · simp only [CleanupService.spent, Bool.or_eq_true, decide_eq_true_eq] at hspent
      exact hspent.imp_left le_of_lt
  users id u hfind hgone := by
    rcases h.users id u hfind with hfind' | hremovable
    · rw [hgone] at hfind'
      cases hfind'
    · rw [CleanupService.removable, Bool.and_eq_true] at hremovable
      rcases (Option.any_eq_true _ _).mp hremovable.2 with ⟨t, hdelete, hdue⟩
      obtain ⟨c₀, before, ⟨pid, callerId, started, hswitch, hdate⟩, since, hlast⟩ :=
        hpast id u t hfind hdelete
      exact ⟨c₀, before, ⟨pid, callerId, started, hswitch, hdate.trans (of_decide_eq_true hdue)⟩,
        since, hlast⟩
  sessions id s hfind hgone := by
    rcases h.sessions id s hfind with hfind' | hstale | huser
    · rw [hgone] at hfind'
      cases hfind'
    · rw [CleanupService.stale, Bool.or_eq_true, decide_eq_true_eq] at hstale
      exact hstale.imp_right Or.inl
    · exact Or.inr (Or.inr huser)

/-- An expiry event deletes one secret, whose key has expired. -/
theorem onlyDead_expired {id : UUID} (h : Consistent c.shared) (hannounced : Announced id c.shared)
    (hdb : c'.shared.db = c.shared.db.deleteSecrets c.shared.now fun s => s.id = id) :
    OnlyDead P w c c' := by
  rcases Database.deleteSecrets_frame c.shared.now (fun s => s.id = id) c.shared.db with
    ⟨_, _, _, hframe⟩
  rw [hframe] at hdb
  constructor
  · intro other s hfind hgone
    left
    rw [hdb, Table.find_deleteWhere, hfind] at hgone
    have hid : s.id = id := by simpa using hgone
    rcases hannounced with ⟨key, hkey, hexpired⟩
    rw [← Table.key_of_find hfind, hid] at hfind
    exact (h.outlived id s key hfind hkey).trans hexpired
  · intro other u hfind hgone
    rw [hdb, hfind] at hgone
    cases hgone
  · intro other session hfind hgone
    rw [hdb, hfind] at hgone
    cases hgone

theorem consistent_initial {db : Database} {redis : Redis} {objects : Table StoredObject.key}
    {now : Timestamp} (hsecrets : db.secrets = .empty) :
    Consistent (worldOf db redis objects now) := by
  have hrows : ∀ id s, (worldOf db redis objects now).db.secrets.find id ≠ some s := by
    intro id s hfind
    change db.secrets.find id = some s at hfind
    rw [hsecrets] at hfind
    cases hfind
  constructor
  · exact List.nodup_nil
  · exact fun id s hfind => absurd hfind (hrows id s)
  · exact nofun
  · exact fun id s key hfind => absurd hfind (hrows id s)
  · exact nofun

end Deletions

/-- In every run from a store without secrets in which no user waits for deletion, each step of an
expiry event or of a sweep deletes dead rows only. -/
theorem background_deletion (P : Platform) (db : Database) (redis : Redis)
    (objects : Table StoredObject.key) (now : Timestamp) (hsecrets : db.secrets = .empty)
    (husers : ∀ id u, db.users.find id = some u → u.deleteAfter = none)
    {c c' : Pool World Choice Label BackgroundRequest Exn BackgroundResponse} {pid : ℕ}
    {request : BackgroundRequest} {choice : Choice} {label : Label}
    (run : (backgroundSystem P).Run (fun _ _ => True) (Pool.init (worldOf db redis objects now)) c)
    (running : c.view.Running pid request) (deletes : request.deletes = true)
    (happens : (backgroundSystem P).next c (.act pid choice) = some (.performed pid label, c')) :
    OnlyDead P (worldOf db redis objects now) c c' := by
  have hbefore : Consistent c.shared :=
    (valid P).inv_of_run (consistent_initial hsecrets) run
  have hafter : Consistent c'.shared :=
    (valid P).inv_of_run (consistent_initial hsecrets) (run.tail happens trivial)
  have heach : c.Each fun request p => request.deletes = true → p.Only Clears := by
    refine System.Run.each run only_deletes ?_ (Pool.each_init _)
    intro β request label act rest pid s choice s' b hact hstep hdeletes
    exact (hstep hdeletes pid s choice s' b hact).2
  rcases System.performed_of_next happens running with ⟨β, act, rest, s, b, htask, hact, rfl⟩
  rcases (heach pid request _ htask deletes pid _ choice s b hact).1 with hreaps | ⟨id, _, hcommit⟩
  · exact Reaps.onlyDead hreaps (deactivated_of_run husers run)
  · change s = _ at hcommit
    change Consistent s at hafter
    rw [hcommit] at hafter
    have hannounced : Announced id c.shared :=
      hafter.announced pid id (List.mem_append_right _ (List.mem_singleton.mpr rfl))
    apply onlyDead_expired hbefore hannounced
    change s.db = _
    rw [hcommit]
    rfl

section Sample
open Administration (sampleAdmins credentialsOf)

/-- Two admins, of whom the first is logged in. -/
def sampleStore : Database := { Database.empty with
  users := sampleAdmins
  sessions := ⟨[⟨11, 1, "a", "", none, 0, days 7, false⟩, ⟨12, 2, "b", "", none, 0, days 1, false⟩],
    by decide⟩ }

def sampleRandom : Random := { dek := [1], wrapNonce := [2], contentNonce := [3] }

/-- A secret is created and a user deactivated; two days later a sweep has taken its lock. -/
def createSwitchSweep : List (Event Choice BackgroundRequest) :=
  .start (.create { content := "a" } ⟨1, "ada@example.org", .admin, true, true⟩ "203.0.113.9") ::
    List.replicate 6 (.act 0 { uuid := 6, random := sampleRandom }) ++
    List.replicate 5 (.act 0 { uuid := 7, random := sampleRandom }) ++
  .start (.switchActivation 2 (credentialsOf 1 11) "203.0.113.9") :: List.replicate 5 (.act 1 {}) ++
  [.start .wait, .act 2 { delay := days 2 }, .start .sweep, .act 3 { uuid := 8 }, .act 3 {}]

/-- The fourth process sweeps. -/
def sweeps (v : BackgroundView) (o : Occurrence Label BackgroundRequest Exn BackgroundResponse) :
    Bool :=
  match v.tasks[3]?, o with
  | some (BackgroundRequest.sweep, Phase.running _), Occurrence.performed 3 Label.sweep => true
  | _, _ => false

theorem background_deletion_sample :
    ∃ c c', (backgroundSystem samplePlatform).next c (.act 3 {}) = some (.performed 3 .sweep, c') ∧
      (c.shared.db.secrets.find 7).isSome ∧ c'.shared.db.secrets.find 7 = none ∧
      (c.shared.db.users.find 2).isSome ∧ c'.shared.db.users.find 2 = none ∧
      (c.shared.db.sessions.find 12).isSome ∧ c'.shared.db.sessions.find 12 = none ∧
      OnlyDead samplePlatform (worldOf sampleStore .empty .empty 0) c c' := by
  rcases (backgroundSystem samplePlatform).exists_run_next (fun _ _ => True)
      (Pool.init (worldOf sampleStore .empty .empty 0)) createSwitchSweep (.act 3 {})
      (fun v o v' => sweeps v o &&
        ((v.shared.db.secrets.find 7).isSome && (v'.shared.db.secrets.find 7).isNone) &&
        ((v.shared.db.users.find 2).isSome && (v'.shared.db.users.find 2).isNone) &&
        ((v.shared.db.sessions.find 12).isSome && (v'.shared.db.sessions.find 12).isNone))
      (by decide +kernel) with ⟨c, o, c', before, happens, h⟩
  simp only [Bool.and_eq_true, Option.isNone_iff_eq_none] at h
  rcases h with ⟨⟨⟨hmatch, hsecret⟩, huser⟩, hsession⟩
  unfold sweeps at hmatch
  split at hmatch
  · rename_i running
    refine ⟨c, c', happens, hsecret.1, hsecret.2, huser.1, huser.2, hsession.1, hsession.2, ?_⟩
    apply background_deletion samplePlatform sampleStore .empty .empty 0 rfl _ before running rfl
      happens
    intro id u hfind
    have hall : sampleAdmins.rows.all fun u => u.deleteAfter.isNone := by decide
    exact Option.isNone_iff_eq_none.mp (List.all_eq_true.mp hall u (Table.mem_of_find hfind))
  · cases hmatch

/-- The transaction of a switch starts, and a day later its `UPDATE` gets the row. -/
def startSwitch : List (Event Choice BackgroundRequest) :=
  .start (.switchActivation 2 (credentialsOf 1 11) "203.0.113.9") :: List.replicate 3 (.act 0 {}) ++
    [.start .wait, .act 1 { delay := days 1 }, .act 1 {}]

/-- Another day later a sweep begins. -/
def sweepSoon : List (Event Choice BackgroundRequest) :=
  [.act 0 {}, .start .wait, .act 2 { delay := days 1 }, .act 2 {}, .start .sweep,
    .act 3 { uuid := 8 }, .act 3 {}, .act 3 {}]

/-- A user is active when the `UPDATE` runs and is deleted a day later. -/
theorem deleted_after_a_day : ∃ c₁ c₂ o c₃,
    (backgroundSystem samplePlatform).Run (fun _ _ => True)
      (Pool.init (worldOf sampleStore .empty .empty 0)) c₁ ∧
    (backgroundSystem samplePlatform).next c₁ (.act 0 {}) = some (o, c₂) ∧
    (backgroundSystem samplePlatform).Run (fun _ _ => True) c₂ c₃ ∧
    (c₁.shared.db.users.find 2).any User.isActive = true ∧
    c₃.shared.now < c₁.shared.now + days 2 ∧ c₃.shared.db.users.find 2 = none ∧
    c₃.shared.commits.getLast? = some (3, .sweep) := by
  rcases (backgroundSystem samplePlatform).exists_run_through (fun _ _ => True)
      (Pool.init (worldOf sampleStore .empty .empty 0)) startSwitch (.act 0 {}) sweepSoon
      (fun v _ v' => (v.shared.db.users.find 2).any User.isActive &&
        decide (v'.shared.now < v.shared.now + days 2) && (v'.shared.db.users.find 2).isNone &&
        decide (v'.shared.commits.getLast? = some (3, .sweep)))
      (by decide +kernel) with ⟨c₁, o, c₂, c₃, before, switches, after, h⟩
  simp only [Bool.and_eq_true, decide_eq_true_eq, Option.isNone_iff_eq_none] at h
  exact ⟨c₁, c₂, o, c₃, before, switches, after, h.1.1.1, h.1.1.2, h.1.2, h.2⟩

end Sample
end PhantomShare.Background
