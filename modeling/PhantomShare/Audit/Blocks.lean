import PhantomShare.Audit.Twins
import PhantomShare.Routers.FileVersions
import PhantomShare.Routers.SecretAccess
import PhantomShare.Routers.SecretVersions

/-!
# The transactions that write an audit entry

When each of them gets to its entry, as a predicate on its arguments and the
tables that it starts from.
-/
namespace PhantomShare.Audit
open Foundations AuditService

theorem outside_ne {τ : Type} {db db' : Database} (f : Database → τ)
    (hf : ∀ db, f (outside db) = f db) (h : f db ≠ f db') : outside db ≠ outside db' := by
  intro heq
  apply h
  rw [← hf db, ← hf db', heq]

section
variable {P : Platform} {id : UUID} {user : CurrentUser} {clientIp : String} {random : Random}
  {now : Timestamp} {db : Database}

/-! ### Deletion and policy -/

/-- The caller may manage the secret. -/
def manages (id : UUID) (user : CurrentUser) (db : Database) : Bool :=
  (db.secrets.find id).any fun secret => (Security.requireOwnsSecret secret.ownerId user).isOk

/-- The key of a new text secret, unless the client encrypted it. -/
def firstKey (id : UUID) : Option (String × String) → Database → Except Exn Database
  | none, db => .ok db
  | some key, db => db.insertSecretKey ⟨id, key.1, key.2, 1, none⟩

/-- The recipients of a new text secret, when it names any. -/
def recipients (id : UUID) : Option (List String) → Database → Except Exn Database
  | none, db => .ok db
  | some emails, db => db.insertRecipients id emails

/-- A view that is left can be counted, and changes the row of the secret. -/
theorem counted {secret : Secret} {views : List SecretView} {logs : List AuditLog}
    (hrow : db.secrets.find id = some secret) (hlt : secret.viewCount < secret.maxViews) :
    ∃ db', ({ db with secretViews := views, auditLogs := logs } : Database).updateViewCount now id
        (secret.viewCount + 1) (secret.maxViews ≤ secret.viewCount + 1) = .ok db' ∧
      outside db' ≠ outside db := by
  have hviewed : ({ db with secretViews := views, auditLogs := logs } : Database).secrets.find id =
      some secret := hrow
  rcases Database.updateViewCount_accepted now (decide (secret.maxViews ≤ secret.viewCount + 1))
    hviewed (show secret.viewCount + 1 ≤ secret.maxViews by omega) with ⟨db', hcounted⟩
  refine ⟨db', hcounted, outside_ne (fun db => db.secrets.find id) (fun _ => rfl) ?_⟩
  rw [hrow]
  exact Database.updateViewCount_changes hviewed (by omega) hcounted

/-- A download finds the version that it has fetched, opens it, and its view is recorded. -/
def downloads (P : Platform) (secretId : UUID) (policy : Option SecretAccessPolicy)
    (version policyVersion : ℕ) (encrypted : Bytes) (currentUser : Option CurrentUser)
    (now : Timestamp) (db : Database) : Bool :=
  Files.available secretId version policyVersion (policy.map SecretAccessPolicy.policyVersion) db &&
    Files.opens P secretId version encrypted db &&
      (db.insertView (Secrets.viewBy currentUser secretId version now)).isOk

end
end PhantomShare.Audit
