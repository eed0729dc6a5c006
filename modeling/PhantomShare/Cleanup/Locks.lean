import PhantomShare.Footprints
import PhantomShare.Foundations.Chronicle
import PhantomShare.Routers.Auth
import PhantomShare.Services.CleanupService

/-!
# What the lock operations account for

Any program that calls `acquire_lock` and `release_lock`, and the deletions and
sweeps that do. A lock is put under a key with the UUID that the process has just
drawn, where no other lock is alive, and is removed only with a UUID that the
process has drawn.
-/
namespace PhantomShare.Cleanup
open Foundations CleanupService

abbrev LockAction := Action World Choice Label
abbrev LockPast := List LockAction

/-- The locks of a world. -/
abbrev locksOf (w : World) : Table Lock.key := w.redis.locks

/-! ### Steps -/

/-- A step that leaves the locks alone. -/
structure Lockless (pid : ℕ) (_label : Label) (w w' : World) : Prop where
  now : w.now ≤ w'.now
  draws : Draws pid w w'
  locks : locksOf w' = locksOf w

theorem Lockless.refl (pid : ℕ) (label : Label) (w : World) : Lockless pid label w w :=
  ⟨le_refl _, Or.inl rfl, rfl⟩

/-- `id` is drawn in a step. -/
def Drew (a : LockAction) (id : UUID) : Prop :=
  (∀ entry ∈ a.before.issued, entry.1 ≠ id) ∧
    ∃ pid, a.after.issued = a.before.issued ++ [(id, pid)]

/-- No lock under the key is alive. -/
def Free (key : LockKey) (w : World) : Prop :=
  ∀ lock, (locksOf w).find key = some lock → lock.expiresAt ≤ w.now

/-- The action puts a lock where none is alive, with the UUID that the process has just drawn. -/
def Takes (past : LockPast) (a : LockAction) : Prop :=
  ∃ key token ttl, a.label = .acquireLock key ∧
    (∃ earlier u, past = earlier ++ [u] ∧ Drew u token) ∧ Free key a.before ∧
    locksOf a.after = (locksOf a.before).put ⟨key, token, a.before.now + ttl * second⟩

/-- The action removes a living lock whose token the process has drawn. -/
def Removes (past : LockPast) (a : LockAction) : Prop :=
  ∃ key lock, a.label = .releaseLock key ∧ (locksOf a.before).find key = some lock ∧
    a.before.now < lock.expiresAt ∧ (∃ u ∈ past, Drew u lock.token) ∧
    locksOf a.after = (locksOf a.before).deleteWhere fun other => other.key = key

/-- What every action of a process is, given its earlier actions. -/
structure LockTurn (past : LockPast) (a : LockAction) : Prop where
  now : a.before.now ≤ a.after.now
  draws : ∃ pid, Draws pid a.before a.after
  locks : locksOf a.after = locksOf a.before ∨ Takes past a ∨ Removes past a

theorem Lockless.turn {pid : ℕ} {a : LockAction} (h : Lockless pid a.label a.before a.after)
    (past : LockPast) : LockTurn past a := ⟨h.now, ⟨pid, h.draws⟩, .inl h.locks⟩

/-! ### Handlers without locks -/

section Lockless
variable {α : Type}

theorem lockless_query (label : Label) (q : Timestamp → Database → α) :
    (query label q).Only Lockless := by
  apply Program.only_perform
  intro pid w choice w' r hact
  cases hfails : choice.fails <;> simp only [hfails, if_true, Bool.false_eq_true, if_false,
    Option.some.injEq, Prod.mk.injEq] at hact <;> rw [← hact.1] <;> exact .refl pid label w

/-- A script that is about quotas. -/
theorem lockless_redisCall {label : Label} {script : Timestamp → Redis → α × Redis}
    (h : ∀ now r, (script now r).2.locks = r.locks) : (redisCall label script).Only Lockless := by
  apply Program.only_perform
  intro pid w choice w' r hact
  cases hfails : choice.fails <;> simp only [hfails, if_true, Bool.false_eq_true, if_false,
    Option.some.injEq, Prod.mk.injEq] at hact <;> rw [← hact.1]
  · exact ⟨le_refl _, Or.inl rfl, h _ _⟩
  · exact .refl pid label w

theorem lockless_transaction (label : Label) (body : Choice → Timestamp → Tx Database Exn α)
    (record : α → Label) : (transaction label body record).Only Lockless := by
  apply only_transaction'
  · exact fun pid w => .refl pid label w
  · exact fun _ _ _ _ _ _ => ⟨le_refl _, Or.inl rfl, rfl⟩

theorem lockless_log (entry : AuditService.Entry) : (AuditService.log entry).Only Lockless :=
  (lockless_transaction _ _ _).tryCatch fun _ => Program.only_pure ()

theorem lockless_tick : tick.Only Lockless := by
  apply Program.only_perform
  intro pid w choice w' r hact
  simp only [Option.some.injEq, Prod.mk.injEq] at hact
  rw [← hact.1]
  exact ⟨Nat.le_add_right _ _, Or.inl rfl, rfl⟩

theorem lockless_delete (key : ObjectKey) : (StorageService.delete key).Only Lockless := by
  apply Program.only_perform
  intro pid w choice w' r hact
  cases hfails : choice.fails <;> cases hlanded : choice.landed <;> simp only [hfails, hlanded,
    if_true, Bool.false_eq_true, if_false, Option.some.injEq, Prod.mk.injEq] at hact <;>
    rw [← hact.1] <;> exact ⟨le_refl _, Or.inl rfl, rfl⟩

theorem lockless_reconcileUser (userId : UUID) :
    (QuotaService.reconcileUser userId).Only Lockless := by
  apply Program.Only.bind
  · apply (lockless_query _ _).bind
    intro secretsCount
    apply (lockless_query _ _).bind
    intro activeBytes
    apply (lockless_query _ _).bind
    exact fun _ => Program.only_pure _
  · intro usage
    exact lockless_redisCall fun _ _ => rfl

theorem release_locks (userId reservationId : UUID) (r : Redis) :
    (r.release userId reservationId).locks = r.locks := by
  have hincrease : ∀ secrets bytes, (r.increase userId secrets bytes).2.locks = r.locks := by
    intro secrets bytes
    simp only [Redis.increase]
    split
    · split <;> rfl
    · rfl
  rw [Redis.release]
  split
  · rfl
  · split
    · rfl
    · simp only
      split <;> simp [Redis.dropReservation, hincrease]

theorem lockless_release (reservation : Reservation) :
    (QuotaService.release reservation).Only Lockless :=
  (lockless_redisCall fun _ r => release_locks _ _ r).tryCatch fun _ => Program.only_pure ()

theorem lockless_reapAll (ids : List UUID) : (QuotaService.reapAll ids).Only Lockless := by
  induction ids with
  | nil => exact Program.only_pure 0
  | cons id rest ih =>
    apply Program.Only.bind
    · apply (lockless_redisCall fun _ _ => rfl).bind
      intro hash
      cases hash with
      | none => exact (lockless_redisCall fun _ _ => rfl).bind fun _ => Program.only_pure 0
      | some hash => exact (lockless_release _).bind fun _ => Program.only_pure 1
    · intro released
      exact ih.bind fun _ => Program.only_pure _

theorem lockless_reconcileEach (users : List UUID) : (reconcileEach users).Only Lockless := by
  induction users with
  | nil => exact Program.only_pure ()
  | cons userId rest ih =>
    apply Program.Only.bind
    · apply Program.Only.tryCatch
      · exact (lockless_reconcileUser userId).bind fun _ => Program.only_pure ()
      · exact fun _ => Program.only_pure ()
    · exact fun _ => ih

theorem lockless_reconcileAll (users : List UUID) : (reconcileAll users).Only Lockless := by
  induction users with
  | nil => exact Program.only_pure ()
  | cons userId rest ih => exact (lockless_reconcileUser userId).bind fun _ => ih

theorem lockless_processObject (row : ObjectDeletion) : (processObject row).Only Lockless := by
  apply Program.Only.tryCatch
  · apply (lockless_delete _).bind
    intro _
    exact (lockless_transaction _ _ _).bind fun _ => Program.only_pure true
  · intro error
    exact (lockless_transaction _ _ _).bind fun _ => Program.only_pure false

theorem lockless_processUpload (row : PendingUpload) : (processUpload row).Only Lockless := by
  apply Program.Only.tryCatch
  · apply (lockless_delete _).bind
    intro _
    apply (lockless_transaction _ _ _).bind
    intro _
    exact (lockless_release _).bind fun _ => Program.only_pure true
  · exact fun _ => Program.only_pure false

theorem lockless_processStorageCleanup : processStorageCleanup.Only Lockless := by
  apply (lockless_query _ _).bind
  intro outbox
  apply (lockless_query _ _).bind
  intro pending
  apply (only_eachRow lockless_processObject outbox).bind
  intro objects
  apply (only_eachRow lockless_processUpload pending).bind
  intro uploads
  apply Program.Only.bind
  · apply Program.Only.tryCatch
    · apply Program.Only.bind
      · exact (lockless_redisCall fun _ _ => rfl).bind lockless_reapAll
      · exact fun _ => Program.only_pure ()
    · exact fun _ => Program.only_pure ()
  · intro _
    exact (lockless_reconcileEach _).bind fun _ => Program.only_pure _

end Lockless

/-! ### Lock calls -/

section Calls
variable {pid : ℕ} {past : LockPast} {α : Type}

theorem accounts_lockless {p : Handler α} (hp : p.Only Lockless) :
    p.Accounts pid (fun _ _ => True) LockTurn (fun _ _ => True) past :=
  hp.accounts fun past' _ _ h => h.turn past'

theorem find_unlock_any {r : Redis} {key : LockKey} {token : UUID} {now : Timestamp} :
    ((r.locks.find key).any fun lock => now < lock.expiresAt ∧ lock.token = token) = true ↔
      ∃ lock, r.locks.find key = some lock ∧ now < lock.expiresAt ∧ lock.token = token := by
  simp [Option.any_eq_true]

/-- The token of a lock is the UUID that was drawn for it. -/
theorem accounts_acquireLock (key : LockKey) (ttl : ℕ) :
    (acquireLock key ttl).Accounts pid (fun _ _ => True) LockTurn
      (fun past' result => ∀ token ∈ result, ∃ u ∈ past', Drew u token) past := by
  apply Program.Accounts.bind (K := fun past' token => ∃ earlier u, past' = earlier ++ [u] ∧ Drew u token)
  · apply Program.accounts_perform
    intro w choice w' r _ hact
    by_cases hany : (w.issued.any fun entry => entry.1 = choice.uuid) = true
    · rw [if_pos hany] at hact
      cases hact
    · simp only [if_neg hany, Option.some.injEq, Prod.mk.injEq] at hact
      obtain ⟨rfl, rfl⟩ := hact
      have hfresh : ∀ entry ∈ w.issued, entry.1 ≠ choice.uuid := by
        intro entry hentry heq
        exact hany (List.any_eq_true.mpr ⟨entry, hentry, by simpa using heq⟩)
      refine ⟨⟨le_refl _, ⟨pid, Or.inr ⟨_, hfresh, rfl⟩⟩, Or.inl rfl⟩, ?_⟩
      intro token htoken
      cases htoken
      exact ⟨past, _, rfl, hfresh, pid, rfl⟩
  intro past₁ token _ hdrew
  apply Program.Accounts.bind (K := fun past' _ => ∃ u ∈ past', Drew u token)
  · apply Program.accounts_perform
    intro w choice w' r _ hact
    have hdrawn : ∀ a : LockAction, ∃ u ∈ past₁ ++ [a], Drew u token := by
      intro a
      obtain ⟨earlier, u, rfl, hu⟩ := hdrew
      exact ⟨u, by simp, hu⟩
    refine ⟨?_, fun _ _ => hdrawn _⟩
    cases hfails : choice.fails with
    | true =>
      simp only [hfails, if_true, Option.some.injEq, Prod.mk.injEq] at hact
      rw [← hact.1]
      exact (Lockless.refl pid _ w).turn _
    | false =>
      simp only [hfails, Bool.false_eq_true, if_false, Option.some.injEq, Prod.mk.injEq] at hact
      rw [← hact.1]
      refine ⟨le_refl _, ⟨pid, Or.inl rfl⟩, ?_⟩
      by_cases halive : ((locksOf w).find key).any (fun lock => w.now < lock.expiresAt) = true
      · left
        simp [locksOf, Redis.acquire, halive]
      · right
        left
        refine ⟨key, token, ttl, rfl, hdrew, ?_, ?_⟩
        · intro lock hfind
          simpa [hfind] using halive
        · simp [locksOf, Redis.acquire, halive]
  · intro past₂ acquired _ hdrawn
    apply Program.accounts_pure
    intro other hother
    cases acquired with
    | true =>
      cases hother
      exact hdrawn
    | false => cases hother

theorem accounts_releaseLock {token : UUID} (hdrew : ∃ u ∈ past, Drew u token) (key : LockKey) :
    (releaseLock key token).Accounts pid (fun _ _ => True) LockTurn (fun _ _ => True) past := by
  apply Program.accounts_perform
  intro w choice w' r _ hact
  refine ⟨?_, fun _ _ => trivial⟩
  cases hfails : choice.fails with
  | true =>
    simp only [hfails, if_true, Option.some.injEq, Prod.mk.injEq] at hact
    rw [← hact.1]
    exact (Lockless.refl pid _ w).turn _
  | false =>
    simp only [hfails, Bool.false_eq_true, if_false, Option.some.injEq, Prod.mk.injEq] at hact
    rw [← hact.1]
    refine ⟨le_refl _, ⟨pid, Or.inl rfl⟩, ?_⟩
    by_cases hown : ((locksOf w).find key).any
        (fun lock => w.now < lock.expiresAt ∧ lock.token = token) = true
    · right
      right
      obtain ⟨lock, hfind, hlive, rfl⟩ := find_unlock_any.mp hown
      refine ⟨key, lock, rfl, hfind, hlive, hdrew, ?_⟩
      simp only [locksOf, World.setRedis_redis, Redis.unlock]
      rw [if_pos hown]
    · left
      simp only [locksOf, World.setRedis_redis, Redis.unlock]
      rw [if_neg hown]

/-- Whatever is done under a lock that was acquired, the lock is released with its own token. -/
theorem accounts_locked {p : Handler α} {key : LockKey} {token : UUID} (hp : p.Only Lockless)
    (hdrew : ∃ u ∈ past, Drew u token) :
    (p.ensuring (releaseLock key token)).Accounts pid (fun _ _ => True) LockTurn (fun _ _ => True)
      past := by
  apply (accounts_lockless hp).ensuring
  intro past' hsub
  obtain ⟨u, hu, htoken⟩ := hdrew
  exact accounts_releaseLock ⟨u, hsub hu, htoken⟩ key

theorem accounts_deleteSecret (secretId : UUID) :
    (deleteSecret secretId).Accounts pid (fun _ _ => True) LockTurn (fun _ _ => True) past := by
  apply (accounts_acquireLock _ _).bind
  intro past₁ token _ hdrew
  cases token with
  | none => exact Program.accounts_pure trivial
  | some token =>
    apply accounts_locked _ (hdrew token rfl)
    apply (lockless_transaction _ _ _).bind
    intro deleted
    cases deleted with
    | none => exact Program.only_pure ()
    | some ownerId =>
      apply (lockless_log _).bind
      intro _
      cases ownerId with
      | none => exact Program.only_pure ()
      | some ownerId => exact (lockless_reconcileUser ownerId).bind fun _ => Program.only_pure ()

theorem accounts_fallbackSweep :
    fallbackSweep.Accounts pid (fun _ _ => True) LockTurn (fun _ _ => True) past := by
  apply (accounts_acquireLock _ _).bind
  intro past₁ token _ hdrew
  cases token with
  | none => exact Program.accounts_pure trivial
  | some token =>
    apply accounts_locked _ (hdrew token rfl)
    apply (lockless_transaction _ _ _).bind
    intro swept
    apply (only_logEach lockless_log _ _).bind
    intro _
    apply (lockless_reconcileAll _).bind
    intro _
    apply lockless_processStorageCleanup.bind
    intro _
    apply (only_logEach lockless_log _ _).bind
    exact fun _ => Program.only_pure _

end Calls
end PhantomShare.Cleanup
