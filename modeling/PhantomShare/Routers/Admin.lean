import PhantomShare.Core.Security
import PhantomShare.Services.CleanupService

/-!
# Administration

`routers/admin.py`: the role and the activation of a user, and the sweep on
demand. `require_admin` reads the caller's row in a connection of its own, before
the request does its work.
-/
namespace PhantomShare
open Foundations

structure AdminUserResponse where
  id : UUID
  email : String
  role : Role
  isActive : Bool
  deleteAfter : Option Timestamp
  deriving DecidableEq, Repr

structure UserStatusResponse where
  userId : UUID
  isActive : Bool
  deleteAfter : Option Timestamp
  deriving DecidableEq, Repr

namespace Database

/-- `UPDATE users SET role = … WHERE id = … RETURNING …`. -/
def updateRole (userId : UUID) (role : Role) (db : Database) : Option User × Database :=
  let db := { db with users := db.users.modify userId (fun u => { u with role := role }) fun _ => rfl }
  (db.users.find userId, db)

/-- Trigger `trg_schedule_user_deletion` on a row whose `is_active` was written. -/
def scheduleUserDeletion (now : Timestamp) (wasActive : Bool) (u : User) : User :=
  if u.isActive = false ∧ wasActive = true then { u with deleteAfter := some (now + days 2) }
  else if u.isActive then { u with deleteAfter := none }
  else u

theorem scheduleUserDeletion_id (now : Timestamp) (wasActive : Bool) (u : User) :
    (scheduleUserDeletion now wasActive u).id = u.id := by
  rw [scheduleUserDeletion]
  split
  · rfl
  · split <;> rfl

/-- `UPDATE users SET is_active = NOT is_active WHERE id = … RETURNING …`; `now` is the time at which
its transaction started. -/
def switchActive (now : Timestamp) (userId : UUID) (db : Database) : Option User × Database :=
  let switched := fun u : User => scheduleUserDeletion now u.isActive { u with isActive := !u.isActive }
  let db := { db with
    users := db.users.modify userId switched fun _ => scheduleUserDeletion_id _ _ _ }
  (db.users.find userId, db)

theorem find_switchActive (now : Timestamp) (userId id : UUID) (db : Database) :
    (db.switchActive now userId).2.users.find id =
      if id = userId then (db.users.find userId).map fun u =>
        scheduleUserDeletion now u.isActive { u with isActive := !u.isActive }
      else db.users.find id :=
  Table.find_modify db.users userId
    (fun u => scheduleUserDeletion now u.isActive { u with isActive := !u.isActive })
    (fun _ => scheduleUserDeletion_id _ _ _) id

end Database

namespace Admin
variable (P : Platform)

/-- `Depends(require_admin)`. -/
def requireAdmin (credentials : Option String) : Handler CurrentUser := do
  let user ← Security.getCurrentUser P credentials
  liftExcept (Security.requireRole .admin user)

def changeRole (userId : UUID) (role : Role) (credentials : Option String) (clientIp : String) :
    Handler AdminUserResponse := do
  let caller ← requireAdmin P credentials
  raiseIf (userId = caller.id) (httpError 400 "Cannot change your own role")
  let row ← transaction (.changeRole caller.id userId role) fun _ _ =>
    Tx.execute fun db => .ok (db.updateRole userId role)
  let some user := row | throw (httpError 404 "User not found")
  AuditService.log
    { action := "admin_role_change", actorId := some caller.id, actorIp := some clientIp
      metadata := [("target_user_id", .str (P.uuidText userId)), ("new_role", .str role.name)]
      severity := "critical" }
  return ⟨user.id, user.email, user.role, user.isActive, user.deleteAfter⟩

/-- The `UPDATE` can wait for another transaction that holds the row, while `NOW()` stands still. -/
def switchUserActivation (userId : UUID) (credentials : Option String) (clientIp : String) :
    Handler UserStatusResponse := do
  let caller ← requireAdmin P credentials
  raiseIf (userId = caller.id) (httpError 400 "Cannot change your own activation status")
  let started ← startTransaction
  let row ← transaction (.switchActivation caller.id userId started) fun _ _ =>
    Tx.execute fun db => .ok (db.switchActive started userId)
  let some user := row | throw (httpError 404 "User not found")
  AuditService.log
    { action := "admin_user_toggle", actorId := some caller.id, actorIp := some clientIp
      metadata := [("target_user_id", .str (P.uuidText userId)), ("is_active", .bool user.isActive)]
      severity := "warning" }
  return ⟨user.id, user.isActive, user.deleteAfter⟩

def cleanupExpired (credentials : Option String) (clientIp : String) :
    Handler CleanupService.SweepResult := do
  let caller ← requireAdmin P credentials
  let result ← CleanupService.fallbackSweep
  AuditService.log
    { action := "admin_cleanup", actorId := some caller.id, actorIp := some clientIp
      severity := "warning" }
  return result

end Admin
end PhantomShare
