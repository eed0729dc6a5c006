import PhantomShare.Foundations.Alone
import PhantomShare.PlainPlatform
import PhantomShare.Services.CleanupService

/-!
# The sweep while Redis is down

`fallback_loop` is meant to catch what the expiry events miss, also when there is
no Redis. A sweep takes its lock from Redis before it opens a connection to
PostgreSQL, so that without Redis a turn of the loop reads and writes no table.
-/
namespace PhantomShare.Cleanup
open Foundations CleanupService

/-- The operations that reach Redis. -/
def reachesRedis : Label → Bool
  | .redisReserve .. | .redisCommit _ | .redisRelease _ | .redisReconcile .. | .redisExpired
  | .redisDiscard _ | .setExpiry _ | .acquireLock _ | .releaseLock _ => true
  | _ => false

/-- Every call of Redis raises. -/
def RedisDown (label : Label) (choice : Choice) : Prop :=
  reachesRedis label = true → choice.fails = true

/-- Of the rows that a sweep is for at a time, none is left. -/
structure Cleared (now : Timestamp) (before after : Database) : Prop where
  secrets : ∀ s ∈ before.secrets.rows, spent now s = true → after.secrets.find s.id = none
  users : ∀ u ∈ before.users.rows, removable now u = true → after.users.find u.id = none
  sessions : ∀ s ∈ before.sessions.rows, stale now s = true → after.sessions.find s.id = none

/-- Nothing has expired, is used up or revoked, and no user is past `delete_after`. -/
structure NothingDue (now : Timestamp) (db : Database) : Prop where
  secrets : ∀ s ∈ db.secrets.rows, spent now s = false
  users : ∀ u ∈ db.users.rows, removable now u = false
  sessions : ∀ s ∈ db.sessions.rows, stale now s = false

theorem cleared_self_iff {now : Timestamp} {db : Database} :
    Cleared now db db ↔ NothingDue now db := by
  constructor
  · intro h
    constructor
    · intro s hs
      by_contra hdue
      have hfind := Table.find_of_mem hs
      rw [h.secrets s hs (Bool.not_eq_false _ ▸ hdue)] at hfind
      cases hfind
    · intro u hu
      by_contra hdue
      have hfind := Table.find_of_mem hu
      rw [h.users u hu (Bool.not_eq_false _ ▸ hdue)] at hfind
      cases hfind
    · intro s hs
      by_contra hdue
      have hfind := Table.find_of_mem hs
      rw [h.sessions s hs (Bool.not_eq_false _ ▸ hdue)] at hfind
      cases hfind
  · intro h
    constructor
    · intro s hs hdue
      simp [h.secrets s hs] at hdue
    · intro u hu hdue
      simp [h.users u hu] at hdue
    · intro s hs hdue
      simp [h.sessions s hs] at hdue

/-- The transaction that the loop does not reach clears every database. -/
theorem sweepTransaction_clears (now : Timestamp) (db : Database) : ∃ swept db',
    (sweepTransaction now).run db = .ok (swept, some db') ∧ Cleared now db db' := by
  rcases Database.deleteSecrets_frame now (spent now) db with ⟨outbox, n, logs, hframe⟩
  simp only [sweepTransaction, Tx.run, Tx.bind_apply, Tx.select, Tx.execute_live, Tx.write_live,
    hframe]
  refine ⟨_, _, rfl, ?_⟩
  constructor
  · intro s hs hdue
    simp only [Database.deleteTracking, Database.deleteUsers, Table.find_mapRows,
      Table.find_deleteWhere, Table.find_of_mem hs]
    simp [hdue]
  · intro u hu hdue
    simp only [Database.deleteTracking, Database.deleteUsers, Table.find_deleteWhere,
      Table.find_of_mem hu]
    simp [hdue]
  · intro s hs hdue
    simp only [Database.deleteTracking, Database.deleteUsers, Table.find_deleteWhere,
      Table.find_of_mem hs, Option.filter_filter]
    simp [hdue]

section Steps
variable {α : Type} {pid : ℕ} {w w' : World}

theorem ends_redisCall {label : Label} {script : Timestamp → Redis → α × Redis}
    {result : Except Exn α} (hlabel : reachesRedis label = true)
    (h : (redisCall label script).Ends RedisDown pid w result w') :
    result = .error .unavailable ∧ w' = w := by
  rw [redisCall, Program.ends_perform] at h
  rcases h with ⟨choice, hdown, hact⟩
  rw [if_pos (hdown hlabel), Option.some.injEq, Prod.mk.injEq] at hact
  exact ⟨hact.2.symm, hact.1.symm⟩

theorem ends_uuid4 {result : Except Exn UUID} (h : uuid4.Ends RedisDown pid w result w') :
    ∃ id, w' = w.issue id pid := by
  rw [uuid4, Program.ends_perform] at h
  rcases h with ⟨choice, _, hact⟩
  split at hact
  · cases hact
  · rw [Option.some.injEq, Prod.mk.injEq] at hact
    exact ⟨choice.uuid, hact.1.symm⟩

/-- No lock is taken without Redis. -/
theorem ends_acquireLock {key : LockKey} {ttl : ℕ} {result : Except Exn (Option UUID)}
    (h : (acquireLock key ttl).Ends RedisDown pid w result w') :
    (∃ error, result = .error error) ∧ ∃ id, w' = w.issue id pid := by
  rw [acquireLock, Program.ends_bind] at h
  rcases h with ⟨token, w₁, htoken, hrest⟩ | ⟨error, htoken, rfl⟩
  · rw [Program.ends_bind] at hrest
    rcases hrest with ⟨acquired, w₂, hcall, _⟩ | ⟨error, hcall, rfl⟩
    · cases (ends_redisCall rfl hcall).1
    · rw [(ends_redisCall rfl hcall).2]
      exact ⟨⟨error, rfl⟩, ends_uuid4 htoken⟩
  · exact ⟨⟨error, rfl⟩, ends_uuid4 htoken⟩

theorem ends_fallbackSweep {result : Except Exn SweepResult}
    (h : fallbackSweep.Ends RedisDown pid w result w') :
    (∃ error, result = .error error) ∧ ∃ id, w' = w.issue id pid := by
  rw [fallbackSweep, Program.ends_bind] at h
  rcases h with ⟨token, w₁, hlock, _⟩ | ⟨error, hlock, rfl⟩
  · rcases (ends_acquireLock hlock).1 with ⟨error, herror⟩
    cases herror
  · exact ⟨⟨error, rfl⟩, (ends_acquireLock hlock).2⟩

/-- Without Redis a turn of the loop leaves the database and the clock as they were. -/
theorem fallbackCycle_keeps {initialized : Bool} {result : Except Exn Unit}
    (h : (fallbackCycle initialized).Ends RedisDown pid w result w') :
    w'.db = w.db ∧ w'.now = w.now := by
  have hbody : ∀ {r : Except Exn Unit} {w₁ : World},
      (do getRedis initialized; let _ ← fallbackSweep; return ()).Ends RedisDown pid w r w₁ →
        w₁.db = w.db ∧ w₁.now = w.now := by
    intro r w₁ hends
    rw [Program.ends_bind] at hends
    rcases hends with ⟨_, w₂, hclient, hsweep⟩ | ⟨error, hclient, _⟩
    · have hsame : w₂ = w := by
        cases initialized with
        | true => exact hclient.2
        | false => cases hclient.1
      subst hsame
      rw [Program.ends_bind] at hsweep
      rcases hsweep with ⟨value, w₃, hends, _⟩ | ⟨error, hends, _⟩
      · rcases (ends_fallbackSweep hends).1 with ⟨error, herror⟩
        cases herror
      · rcases (ends_fallbackSweep hends).2 with ⟨id, rfl⟩
        exact ⟨rfl, rfl⟩
    · cases initialized with
      | true => cases hclient.1
      | false => rw [hclient.2]; exact ⟨rfl, rfl⟩
  rw [fallbackCycle, Program.ends_tryCatch] at h
  rcases h with ⟨value, hends, _⟩ | ⟨error, w₁, hends, hhandler⟩
  · exact hbody hends
  · rw [Program.ends_pure] at hhandler
    rw [hhandler.2]
    exact hbody hends

end Steps

/-- Without Redis a turn of the loop deletes all that is due exactly when nothing is due. -/
theorem fallbackCycle_clears_iff {initialized : Bool} {pid : ℕ} {w w' : World}
    {result : Except Exn Unit}
    (h : (fallbackCycle initialized).Ends RedisDown pid w result w') :
    Cleared w.now w.db w'.db ↔ NothingDue w.now w.db := by
  rw [(fallbackCycle_keeps h).1, cleared_self_iff]

section Sample

/-- A revoked session of the sample user. -/
def revokedSession : Session := ⟨2, 1, "hash", "", none, 0, 10, true⟩

def sweepable : World :=
  worldOf
    { Database.empty with
      users := sampleUsers, sessions := ⟨[revokedSession], List.nodup_singleton _⟩ }
    .empty .empty 0

/-- What is due survives a turn of the loop, without a client and with calls that raise. -/
theorem revoked_session_stays :
    (∃ w', (fallbackCycle false).Ends RedisDown 0 sweepable (.ok ()) w' ∧
      ¬ Cleared sweepable.now sweepable.db w'.db) ∧
    ∃ w', (fallbackCycle true).Ends RedisDown 0 sweepable (.ok ()) w' ∧
      ¬ Cleared sweepable.now sweepable.db w'.db := by
  have hdue : ¬ NothingDue sweepable.now sweepable.db := by
    intro h
    have hsession := h.sessions revokedSession (List.mem_singleton_self _)
    simp [stale, revokedSession] at hsession
  constructor
  · exact ⟨sweepable, ⟨rfl, rfl⟩, fun h => hdue (cleared_self_iff.mp h)⟩
  · refine ⟨sweepable.issue 0 0, ?_, fun h => hdue (cleared_self_iff.mp h)⟩
    -- the token of the lock is drawn, and `SET NX EX` raises
    exact ⟨{}, _, _, nofun, rfl, { fails := true }, _, _, fun _ => rfl, rfl, rfl, rfl⟩

theorem fallbackCycle_clears_iff_sample :
    Cleared sweepable.now sweepable.db sweepable.db ↔ NothingDue sweepable.now sweepable.db :=
  @fallbackCycle_clears_iff false 0 sweepable sweepable (.ok ()) ⟨rfl, rfl⟩

end Sample
end PhantomShare.Cleanup
