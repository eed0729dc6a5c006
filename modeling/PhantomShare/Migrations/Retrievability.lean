import PhantomShare.Migrations.Rollback
import PhantomShare.Store.Reading

/-!
# Migrated secrets

The initial schema has no versions, no tracking and no policies, and its keys are
numbered without a constraint. The up sections fill in what the present queries join
with. A secret whose newest key opens its content is stored, after them, as the
document that it was before.
-/
namespace PhantomShare.Migrations
open Foundations Access Store

/-! ### Before -/

section
variable (P : Platform)

end

/-! ### What the up sections leave -/

section Tables
variable {now : Timestamp} {initial : InitialDatabase} {db : Database} {id : UUID}

/-- The row that a secret becomes. -/
def migrated (now : Timestamp) (s : InitialSecret) : Secret := textSecret ⟨⟨s, false⟩, 1, now⟩

end Tables

/-- The conditions of the secret, under the default policy. -/
structure Allowed (P : Platform) (s : InitialSecret) (caller : Caller) (db : Database)
    (now : Timestamp) : Prop where
  token : (LocationPolicy.checkToken P s.id 1 now caller.token).isOk = true
  password : s.passwordProtected = true →
    ∃ text, Secrets.nonempty caller.accessPassword = some text ∧
      some (P.sha256Hex text) = s.accessPasswordHash
  unexpired : now ≤ s.expiresAt
  views : s.viewCount < s.maxViews
  viewer : Database.refers db.hasUser (caller.currentUser.map CurrentUser.id) = true

/-- A database that the present code has left after creating the secret with this content, for an
owner. -/
def Created (P : Platform) (s : InitialSecret) (payload : Payload) (ownerId : UUID)
    (created : Database) : Prop :=
  ∃ body clientIp random start now token, Absent s.id start ∧
    (Secrets.createTransaction P s.id body ownerId clientIp random now).run start =
      .ok (token, some created) ∧
    s.expiresAt = now + hours body.ttlHours ∧ payloadOf body = payload

section Retrievable
variable {P : Platform} {now : Timestamp} {initial : InitialDatabase} {db : Database} {id : UUID}
  {s : InitialSecret} {payload : Payload}

/-- Whoever meets the conditions of the secret passes its gate. -/
theorem Allowed.isOpen {caller : Caller} {w : World} (hallowed : Allowed P s caller w.db w.now)
    (migratedAt : Timestamp) :
    (accessState (migrated migratedAt s) (defaultPolicy migratedAt s.id) w.db).isOpen P s.id
      caller.token caller.accessPassword caller.clientIp caller.currentUser w.now = true := by
  have hadmits : admits P s.id caller.token caller.clientIp (defaultPolicy migratedAt s.id) w.now =
      true := by
    rw [admits, Bool.and_eq_true]
    exact ⟨hallowed.token, rfl⟩
  have hunlocked : (accessState (migrated migratedAt s) (defaultPolicy migratedAt s.id)
      w.db).unlocked P caller.accessPassword = true := by
    rw [AccessState.unlocked, Bool.or_eq_true, Bool.not_eq_true', Option.any_eq_true]
    cases hprotected : s.passwordProtected with
    | false => exact Or.inl hprotected
    | true =>
      obtain ⟨text, htext, hhash⟩ := hallowed.password hprotected
      exact Or.inr ⟨text, htext, decide_eq_true hhash⟩
  have hknows : (accessState (migrated migratedAt s) (defaultPolicy migratedAt s.id)
      w.db).knows caller.currentUser = true := rfl
  rw [AccessState.isOpen, hknows, hunlocked]
  simp only [accessState, hadmits, Bool.true_and, Bool.and_eq_true]
  exact ⟨decide_eq_true hallowed.unexpired, decide_eq_true hallowed.views⟩

end Retrievable

section Sample

end Sample

end PhantomShare.Migrations
