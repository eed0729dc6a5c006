import PhantomShare.Foundations.Chronicle
import PhantomShare.Service.Changes
import PhantomShare.Service.Runs
import PhantomShare.Sessions.Acceptance

/-!
# Who changes a secret

A process ends a secret that is not over, or changes its policy or its current version,
only after a read of the database has authenticated a user who may manage the secret,
or after Redis has announced that the time of the secret is over.
-/
namespace PhantomShare.Service
open Foundations Lifecycle

variable {P : Platform} {permitted : UUID → Secret → Prop} {pid : ℕ} {label : Label} {w w' : World}

/-! ### What a request may change -/

/-- A step that changes a secret only as permitted. -/
def Permits (permitted : UUID → Secret → Prop) (_pid : ℕ) (_label : Label) (w w' : World) : Prop :=
  Bounded permitted w.now w.db w'.db

theorem Permits.of_same (h : ∀ id, record id w'.db = record id w.db) :
    Permits permitted pid label w w' := Bounded.of_same h

theorem still_permits : Still (Permits permitted) := by
  intro pid label w w' hcalm
  exact .of_same fun id => by rw [hcalm.db]

theorem logs_permits : Logs (Permits permitted) := by
  intro pid w entry db hinsert
  exact .of_same fun id => record_insertAuditLog hinsert

theorem sparing_permits : Sparing (Permits permitted) :=
  fun _ _ _ _ _ _ => .of_same fun _ => rfl

theorem refreshes_permits : Refreshes (Permits permitted) where
  work _ _ _ _ _ := .of_same fun _ => rfl
  commit _ _ _ _ _ := .of_same fun _ => rfl

theorem only_auditLog_permits (entry : AuditService.Entry) :
    (AuditService.log entry).Only (Permits permitted) :=
  still_permits.only_auditLog logs_permits entry

theorem only_fallbackSweep_permits : CleanupService.fallbackSweep.Only (Permits permitted) := by
  apply only_fallbackSweep still_permits sparing_permits only_auditLog_permits
  intro pid w swept db hrun
  exact bounded_sweep.run hrun

theorem only_scheduleExpiry_permits (id : UUID) (ttlSeconds : ℕ) :
    (CleanupService.scheduleExpiry id ttlSeconds).Only (Permits permitted) :=
  only_scheduleExpiry' id ttlSeconds (fun _ _ => .of_same fun _ => rfl)
    fun _ _ => .of_same fun _ => rfl

theorem pendingUpload_permits (pid : ℕ) (w : World) (row : PendingUpload) (db : Database)
    (h : w.db.insertPendingUpload row = .ok db) :
    Permits permitted pid (.pendingUpload row.objectKey) w
      (w.commit pid (.pendingUpload row.objectKey) db) := by
  obtain ⟨pending, _, rfl⟩ := Database.insertPendingUpload_ok h
  exact .of_same fun _ => rfl

/-- The requests behind `require_user` and the messages about sentinels. -/
def Request.manages : Request → Bool
  | .create _ _ _ | .createFile _ _ _ | .update _ _ _ _ | .restore _ _ _ _ | .updateFile _ _ _ _ |
    .rotateKey _ _ _ | .updatePolicy _ _ _ _ | .delete _ _ _ | .expired _ => true
  | _ => false

/-- The credentials of the header. -/
def Request.credentials : Request → Option String
  | .create _ credentials _ | .createFile _ credentials _ | .retrieve _ _ _ _ credentials |
    .download _ _ _ _ credentials | .update _ _ credentials _ | .restore _ _ credentials _ |
    .updateFile _ _ credentials _ | .rotateKey _ credentials _ | .updatePolicy _ _ credentials _ |
    .delete _ credentials _ | .logout _ credentials | .changeRole _ _ credentials _ |
    .switchActivation _ credentials _ | .cleanup credentials _ => credentials
  | _ => none

/-- Whoever reads a secret, manages users or sessions or sweeps changes no secret before its end. -/
theorem only_harmless (request : Request) (h : request.manages = false) :
    (serve P request).Only (Permits fun _ _ => False) := by
  cases request with
  | create body credentials clientIp => cases h
  | createFile body credentials clientIp => cases h
  | update id body credentials clientIp => cases h
  | restore id version credentials clientIp => cases h
  | updateFile secretId body credentials clientIp => cases h
  | rotateKey secretId credentials clientIp => cases h
  | updatePolicy id body credentials clientIp => cases h
  | delete secretId credentials clientIp => cases h
  | expired secretId => cases h
  | retrieve secretId accessPassword token clientIp credentials =>
    apply Program.Only.map
    apply still_permits.only_asAnyone
    intro user
    apply still_permits.only_retrieveSecret fun entry _ => only_auditLog_permits entry
    intro pid w id policy policyVersion seen db hrun
    exact bounded_retrieve hrun
  | download secretId token accessPassword clientIp credentials =>
    apply Program.Only.map
    apply still_permits.only_asAnyone
    intro user
    apply still_permits.only_downloadFileSecret fun entry _ => only_auditLog_permits entry
    intro pid w policy version policyVersion encrypted opened db hrun
    exact bounded_download hrun
  | login email password userAgent clientIp =>
    apply Program.Only.map
    apply still_permits.only_login logs_permits
    exact fun pid w hash sessions => .of_same fun _ => rfl
  | refresh refreshToken userAgent clientIp =>
    exact (still_permits.only_refreshTokenEndpoint logs_permits refreshes_permits).map
  | logout refreshToken credentials =>
    apply Program.Only.map
    apply still_permits.only_logout logs_permits refreshes_permits
    exact fun pid hash w sessions => .of_same fun _ => rfl
  | changeRole userId role credentials clientIp =>
    apply Program.Only.map
    apply still_permits.only_changeRole logs_permits
    exact fun pid w callerId => .of_same fun _ => rfl
  | switchActivation userId credentials clientIp =>
    apply Program.Only.map
    apply still_permits.only_switchUserActivation only_auditLog_permits
    exact fun pid w callerId started => .of_same fun _ => rfl
  | cleanup credentials clientIp =>
    exact (still_permits.only_cleanupExpired only_auditLog_permits only_fallbackSweep_permits).map
  | sweep => exact only_fallbackSweep_permits.map
  | wait => exact still_permits.only_tick.map

/-! ### Who asks -/

/-- The action reads a row of an active user with a live session, as the credentials name them. -/
structure Authenticated (P : Platform) (credentials : Option String) (user : CurrentUser)
    (action : Action World Choice Label) : Prop where
  label : action.label = .currentUser
  named : ∃ token sessionId, credentials = some token ∧ Sessions.Names P token user.id sessionId ∧
    Sessions.Admits user.id sessionId action.before
  row : ∃ u, action.before.db.users.find user.id = some u ∧
    user = ⟨u.id, u.email, u.role, u.isActive, u.isVerified⟩

/-- The action is the message that the sentinel of the secret has expired. -/
structure Announced (id : UUID) (action : Action World Choice Label) : Prop where
  label : action.label = .expiredEvent id
  due : ∃ sentinel, action.before.sentinels.find id = some sentinel ∧
    sentinel.expiresAt ≤ action.before.now

/-- A user whom an earlier action has authenticated may manage the secret, or an earlier action has
announced its end. -/
def Entitled (P : Platform) (request : Request) (past : List (Action World Choice Label))
    (id : UUID) (s : Secret) : Prop :=
  ∃ earlier ∈ past, Announced id earlier ∨
    ∃ user, Authenticated P request.credentials user earlier ∧ Manages user id s

/-- The action changes only what its process is entitled to change. -/
def Mediated (P : Platform) (request : Request) (past : List (Action World Choice Label))
    (action : Action World Choice Label) : Prop :=
  Bounded (Entitled P request past) action.before.now action.before.db action.after.db

section Accounts
variable {α : Type} {request : Request} {credentials : Option String}
  {past : List (Action World Choice Label)}

theorem accounts_still {p : Handler α} (hp : p.Only (Permits fun _ _ => False)) :
    p.Accounts pid (fun _ _ => True) (Mediated P request) (fun _ _ => True) past :=
  hp.accounts fun _ _ _ hbounded => Bounded.mono hbounded fun _ _ => False.elim

theorem accounts_raiseIf {E : List (Action World Choice Label) → World → Prop}
    {R : List (Action World Choice Label) → Action World Choice Label → Prop} {bad : Bool}
    {error : Exn} : (raiseIf bad error).Accounts pid E R (fun _ _ => bad = false) past := by
  cases bad with
  | true => exact Program.accounts_throw error
  | false => exact Program.accounts_pure rfl

theorem accounts_liftExcept {E : List (Action World Choice Label) → World → Prop}
    {R : List (Action World Choice Label) → Action World Choice Label → Prop}
    {result : Except Exn α} :
    (liftExcept result).Accounts pid E R (fun _ value => result = .ok value) past :=
  Program.accounts_ofExcept fun _ h => h

/-- The query of `get_current_user`. -/
theorem accounts_currentUser {userId sessionId : UUID} :
    (query .currentUser (Sessions.currentUserRow userId sessionId)).Accounts pid (fun _ _ => True)
      (Mediated P request) (fun past row => ∃ earlier ∈ past, earlier.label = .currentUser ∧
        Sessions.currentUserRow userId sessionId earlier.before.now earlier.before.db = row)
      past := by
  apply Program.accounts_perform
  intro w choice w' r _ hact
  have hsame : w' = w ∧ ∀ value, r = .ok value →
      Sessions.currentUserRow userId sessionId w.now w.db = value := by
    cases hfails : choice.fails <;> simp only [hfails, if_true, Bool.false_eq_true, if_false,
      Option.some.injEq, Prod.mk.injEq] at hact <;> obtain ⟨rfl, rfl⟩ := hact
    · exact ⟨rfl, fun value hvalue => Except.ok.inj hvalue⟩
    · exact ⟨rfl, fun value hvalue => by cases hvalue⟩
  obtain ⟨rfl, hrow⟩ := hsame
  refine ⟨Bounded.of_same fun _ => rfl, ?_⟩
  intro value hvalue
  exact ⟨_, List.mem_append_right _ (List.mem_singleton_self _), rfl, hrow value hvalue⟩

theorem accounts_getCurrentUser :
    (Security.getCurrentUser P credentials).Accounts pid (fun _ _ => True) (Mediated P request)
      (fun past user => ∃ earlier ∈ past, Authenticated P credentials user earlier) past := by
  cases credentials with
  | none => exact Program.accounts_throw _
  | some token =>
    apply (accounts_still still_permits.only_clock).bind
    intro past₁ now _ _
    apply accounts_liftExcept.bind
    intro past₂ claims _ hdecode
    apply accounts_raiseIf.bind
    intro past₃ _ _ htype
    cases hsub : claims.sub with
    | none => exact Program.accounts_throw _
    | some sub =>
      apply accounts_raiseIf.bind
      intro past₄ _ _ hsub'
      cases hsid : claims.sid with
      | none => exact Program.accounts_throw _
      | some sid =>
        apply accounts_raiseIf.bind
        intro past₅ _ _ hsid'
        apply accounts_liftExcept.bind
        intro past₆ userId _ huser
        apply accounts_liftExcept.bind
        intro past₇ sessionId _ hsession
        apply accounts_currentUser.bind
        rintro past₈ row _ ⟨earlier, hmem, hlabel, hrow⟩
        cases row with
        | none => exact Program.accounts_throw _
        | some u =>
          apply accounts_raiseIf.bind
          intro past₉ _ hsub₉ hactive
          apply Program.accounts_pure
          have hadmits : Sessions.Admits userId sessionId earlier.before :=
            Sessions.admits_iff.mpr ⟨u, hrow, by simpa using hactive⟩
          have hfind := Sessions.find_of_currentUserRow hrow
          have hid : u.id = userId := Table.key_of_find hfind
          have hnames : Sessions.Names P token userId sessionId :=
            ⟨now, claims, sub, sid, Sessions.decodeToken_ok.mp hdecode, by simpa using htype, hsub,
              by simpa using hsub', hsid, by simpa using hsid', Sessions.castUuid_ok_iff.mp huser,
              Sessions.castUuid_ok_iff.mp hsession⟩
          rw [← hid] at hadmits hfind hnames
          exact ⟨earlier, hsub₉ hmem, hlabel, ⟨token, sessionId, rfl, hnames, hadmits⟩, u, hfind,
            rfl⟩

/-- What follows the check of the user changes what the user may manage. -/
theorem accounts_asUser {handler : CurrentUser → Handler α} (h : ∀ user,
    (handler user).Only (Permits (Manages user))) : (asUser P request.credentials handler).Accounts
      pid (fun _ _ => True) (Mediated P request) (fun _ _ => True) past := by
  apply Program.Accounts.bind (K := fun past user =>
    ∃ earlier ∈ past, Authenticated P request.credentials user earlier)
  · apply accounts_getCurrentUser.bind
    rintro past₁ user _ hearlier
    apply Program.accounts_ofExcept
    intro user' hrole
    rw [(Security.requireRole_ok hrole).1]
    exact hearlier
  · rintro past₁ user _ ⟨earlier, hmem, hauthenticated⟩
    apply (h user).accounts
    intro past₂ action hsub hbounded
    apply Bounded.mono hbounded
    exact fun id s hmanages => ⟨earlier, hsub hmem, .inr ⟨user, hauthenticated, hmanages⟩⟩

/-- What follows the message ends the secret. -/
theorem accounts_onExpired {secretId : UUID} : (CleanupService.onExpired secretId).Accounts pid
    (fun _ _ => True) (Mediated P request) (fun _ _ => True) past := by
  apply Program.Accounts.bind (K := fun past _ => ∃ earlier ∈ past, Announced secretId earlier)
  · apply Program.accounts_perform
    intro w choice w' r _ hact
    split at hact
    · rename_i hdue
      cases hact
      rw [Option.any_eq_true] at hdue
      obtain ⟨sentinel, hfind, hdue⟩ := hdue
      refine ⟨Bounded.of_same fun _ => rfl, ?_⟩
      intro _ _
      exact ⟨_, List.mem_append_right _ (List.mem_singleton_self _), rfl, sentinel, hfind,
        of_decide_eq_true hdue⟩
    · cases hact
  · rintro past₁ _ _ ⟨earlier, hmem, hannounced⟩
    have hdelete : (CleanupService.deleteSecret secretId).Only
        (Permits fun other _ => other = secretId) := by
      apply still_permits.only_deleteSecret only_auditLog_permits
      intro pid w deleted db hrun
      exact bounded_expire.run hrun
    apply (hdelete.tryCatch fun _ => Program.only_pure ()).accounts
    intro past₂ action hsub hbounded
    apply Bounded.mono hbounded
    rintro id s rfl
    exact ⟨earlier, hsub hmem, .inl hannounced⟩

theorem accounts_served {p : Handler α} {f : α → Response}
    (hp : p.Accounts pid (fun _ _ => True) (Mediated P request) (fun _ _ => True) past) :
    (f <$> p).Accounts pid (fun _ _ => True) (Mediated P request) (fun _ _ => True) past :=
  hp.bind fun _ _ _ _ => Program.accounts_pure trivial

end Accounts

/-! ### Runs -/

theorem serve_mediated (sound : P.Sound) (request : Request) : (serve P request).Accounts pid
    (fun _ _ => True) (Mediated P request) (fun _ _ => True) [] := by
  cases hmanages : request.manages with
  | false => exact accounts_still (only_harmless request hmanages)
  | true =>
    cases request with
    | create body credentials clientIp =>
      apply accounts_served
      apply accounts_asUser
      intro user
      apply still_permits.only_createSecret fun id => only_scheduleExpiry_permits id _
      intro pid w choice id signedToken db hrun
      exact bounded_create sound hrun
    | createFile body credentials clientIp =>
      apply accounts_served
      apply accounts_asUser
      intro user
      apply still_permits.only_createFileSecret logs_permits fun id =>
        only_scheduleExpiry_permits id _
      · exact pendingUpload_permits
      · intro pid w pendingId objectKey access encrypted size encryptedSize detail signedToken db
          hrun
        exact bounded_createFile.run hrun
    | update id body credentials clientIp =>
      apply accounts_served
      apply accounts_asUser
      intro user
      apply still_permits.only_updateSecret
      intro pid w random newVersion db hrun
      exact bounded_update sound hrun
    | restore id version credentials clientIp =>
      apply accounts_served
      apply accounts_asUser
      intro user
      apply still_permits.only_restoreSecretVersion
      intro pid w random newVersion db hrun
      exact bounded_restore sound hrun
    | updateFile secretId body credentials clientIp =>
      apply accounts_served
      apply accounts_asUser
      intro user
      apply still_permits.only_updateFileSecret logs_permits pendingUpload_permits
      intro pid w pendingId objectKey encrypted size encryptedSize detail db hrun
      exact bounded_updateFile.run hrun
    | rotateKey secretId credentials clientIp =>
      apply accounts_served
      apply accounts_asUser
      intro user
      apply still_permits.only_rotateSecretKey logs_permits
      intro pid w id random keyVersion db hrun
      exact bounded_rotate hrun
    | updatePolicy id body credentials clientIp =>
      apply accounts_served
      apply accounts_asUser
      intro user
      apply still_permits.only_updateLocationPolicy
      intro pid w result db hrun
      exact bounded_policy.run hrun
    | delete secretId credentials clientIp =>
      apply accounts_served
      apply accounts_asUser
      intro user
      apply still_permits.only_deleteByOwner
      intro pid w id u db hrun
      exact bounded_delete.run hrun
    | expired secretId => exact accounts_served accounts_onExpired
    | _ => cases hmanages

/-- Whatever requests come in whatever order, and whichever of them fail or crash: an action that
gives a secret another current version or policy, or ends it before its time and its views are over,
is taken by a process that has authenticated its owner or an admin before, or that was told that the
time of the secret is over. -/
theorem changes_mediated (sound : P.Sound) {past : ℕ → List (Action World Choice Label)}
    {c : ServicePool} (told : (service P).Chronicle (.init w) past c) {request : Request}
    {phase : Phase Unit Exn Response} (htask : c.view.tasks[pid]? = some (request, phase)) :
    Throughout (Mediated P request) (past pid) := by
  have haccounted : System.Accounted (fun _ _ => True) (Mediated P) (fun _ _ _ => True) past c :=
    told.accounted (fun _ _ _ _ => trivial) fun _ request => serve_mediated sound request
  rw [Pool.view_get, Option.map_eq_some_iff] at htask
  obtain ⟨⟨own, current⟩, hget, hsame⟩ := htask
  cases hsame
  exact haccounted.done pid own current hget

section Sample

def sampleDeletion : Request :=
  .delete (samplePlatform.uuidText 9) sampleCredentials "203.0.113.9"

/-- The owner deletes a secret that is not over. -/
theorem changes_mediated_sample : ∃ past c,
    (service samplePlatform).Chronicle (.init sampleStart) past c ∧
      (past 1).any (fun a => (a.before.db.secrets.find 9).any (fun s =>
        a.before.now ≤ s.expiresAt && s.viewCount + 1 < s.maxViews) &&
          (a.after.db.secrets.find 9).isNone) = true ∧
      Throughout (Mediated samplePlatform sampleDeletion) (past 1) := by
  obtain ⟨past, c, told, h⟩ := (service samplePlatform).exists_chronicle (.init sampleStart)
    (sampleCreation ++ .start sampleDeletion :: actsOf 1 [0, 0, 0, 0, 0, 0, 0, 0])
    (fun past v => (past 1).any (fun a => (a.before.db.secrets.find 9).any (fun s =>
      a.before.now ≤ s.expiresAt && s.viewCount + 1 < s.maxViews) &&
        (a.after.db.secrets.find 9).isNone) && v.answered 1 sampleDeletion)
    (by decide +kernel)
  rw [Bool.and_eq_true] at h
  obtain ⟨response, htask⟩ := View.exists_of_answered h.2
  exact ⟨past, c, told, h.1, changes_mediated (Platform.plain_sound _) told htask⟩

end Sample

end PhantomShare.Service
