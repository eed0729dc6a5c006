import PhantomShare.Foundations.Guarded
import PhantomShare.Rules
import PhantomShare.Services.CleanupService
import PhantomShare.Services.AuditAndLocation
import PhantomShare.Services.QuotaService
import PhantomShare.Services.FileServices

/-!
# What the services touch

Most of what a handler does besides its transactions is neutral for the tables
and the object store: reads, the clock, drawn UUIDs, Redis and audit entries. The
footprint of a handler is then a bound on the transactions that it may commit.
-/
namespace PhantomShare
open Foundations

/-- A step that leaves the objects and all tables but the audit log as they are. -/
structure Neutral (pid : ℕ) (w w' : World) : Prop where
  db : ∃ logs, w'.db = { w.db with auditLogs := logs }
  objects : w'.objects = w.objects
  issued : w'.issued = w.issued ∨
    ∃ id, (∀ entry ∈ w.issued, entry.1 ≠ id) ∧ w'.issued = w.issued ++ [(id, pid)]
  commits : w'.commits = w.commits ∨ w'.commits = w.commits ++ [(pid, .auditLog)]

/-- A neutral step, or the commit of a transaction within the bound `K`. -/
def Touches (K : Label → Database → Database → Prop) (pid : ℕ) (_label : Label) (w w' : World) :
    Prop :=
  Neutral pid w w' ∨ ∃ record db, K record w.db db ∧ w' = w.commit pid record db

theorem Neutral.refl (pid : ℕ) (w : World) : Neutral pid w w where
  db := ⟨_, rfl⟩
  objects := rfl
  issued := Or.inl rfl
  commits := Or.inl rfl

/-- What a step does to the drawn UUIDs. -/
def Draws (pid : ℕ) (w w' : World) : Prop :=
  w'.issued = w.issued ∨
    ∃ id, (∀ entry ∈ w.issued, entry.1 ≠ id) ∧ w'.issued = w.issued ++ [(id, pid)]

theorem Draws.subset {pid : ℕ} {w w' : World} (h : Draws pid w w') : w.issued ⊆ w'.issued := by
  rcases h with hsame | ⟨id, _, hissued⟩
  · rw [hsame]
    exact List.Subset.refl _
  · rw [hissued]
    exact List.subset_append_left _ _

theorem Neutral.issued_subset {pid : ℕ} {w w' : World} (h : Neutral pid w w') :
    w.issued ⊆ w'.issued := Draws.subset h.issued

/-- No UUID was drawn twice. -/
def DistinctIds (w : World) : Prop := (w.issued.map Prod.fst).Nodup

theorem DistinctIds.draws {pid : ℕ} {w w' : World} (h : DistinctIds w) (hdraws : Draws pid w w') :
    DistinctIds w' := by
  rcases hdraws with hsame | ⟨id, hfresh, hissued⟩
  · rw [DistinctIds, hsame]
    exact h
  · rw [DistinctIds, hissued, List.map_append, List.nodup_append']
    refine ⟨h, List.nodup_singleton _, ?_⟩
    intro other hmem hid
    rcases List.mem_map.mp hmem with ⟨entry, hentry, rfl⟩
    exact hfresh entry hentry (List.mem_singleton.mp hid)

theorem DistinctIds.neutral {pid : ℕ} {w w' : World} (h : DistinctIds w) (hneutral : Neutral pid w w') :
    DistinctIds w' := h.draws hneutral.issued

/-- A drawn UUID belongs to one process. -/
theorem DistinctIds.owner {w : World} {id : UUID} {p q : ℕ} (h : DistinctIds w)
    (hp : (id, p) ∈ w.issued) (hq : (id, q) ∈ w.issued) : p = q :=
  congrArg Prod.snd (List.inj_on_of_nodup_map h hp hq rfl)

theorem Neutral.setRedis (pid : ℕ) (w : World) (redis : Redis) :
    Neutral pid w (w.setRedis redis) where
  db := ⟨_, rfl⟩
  objects := rfl
  issued := Or.inl rfl
  commits := Or.inl rfl

theorem Neutral.setNow (pid : ℕ) (w : World) (now : Timestamp) : Neutral pid w (w.setNow now) where
  db := ⟨_, rfl⟩
  objects := rfl
  issued := Or.inl rfl
  commits := Or.inl rfl

theorem Neutral.setSentinels (pid : ℕ) (w : World) (sentinels : Table Sentinel.secretId) :
    Neutral pid w (w.setSentinels sentinels) where
  db := ⟨_, rfl⟩
  objects := rfl
  issued := Or.inl rfl
  commits := Or.inl rfl

section Operations
variable {K : Label → Database → Database → Prop} {α β : Type}

theorem only_raiseIf {T : ℕ → Label → World → World → Prop} (bad : Bool) (error : Exn) :
    (raiseIf bad error).Only T := by
  cases bad with
  | true => exact Program.only_throw error
  | false => exact Program.only_pure ()

theorem only_liftExcept {T : ℕ → Label → World → World → Prop} (result : Except Exn α) :
    (liftExcept result).Only T :=
  Program.only_ofExcept result

theorem only_query (label : Label) (q : Timestamp → Database → α) :
    (query label q).Only (Touches K) := by
  apply Program.only_perform
  intro pid w choice w' r hact
  left
  by_cases hfails : choice.fails = true
  · simp only [if_pos hfails, Option.some.injEq, Prod.mk.injEq] at hact
    rw [← hact.1]
    exact Neutral.refl pid w
  · simp only [if_neg hfails, Option.some.injEq, Prod.mk.injEq] at hact
    rw [← hact.1]
    exact Neutral.refl pid w

theorem only_clock : clock.Only (Touches K) := by
  apply Program.only_perform
  intro pid w choice w' r hact
  simp only [Option.some.injEq, Prod.mk.injEq] at hact
  rw [← hact.1]
  exact Or.inl (Neutral.refl pid w)

theorem only_tick : tick.Only (Touches K) := by
  apply Program.only_perform
  intro pid w choice w' r hact
  simp only [Option.some.injEq, Prod.mk.injEq] at hact
  rw [← hact.1]
  exact Or.inl (Neutral.setNow pid w _)

theorem only_uuid4 : uuid4.Only (Touches K) := by
  apply Program.only_perform
  intro pid w choice w' r hact
  by_cases hany : (w.issued.any fun entry => entry.1 = choice.uuid) = true
  · rw [if_pos hany] at hact
    cases hact
  · simp only [if_neg hany, Option.some.injEq, Prod.mk.injEq] at hact
    rw [← hact.1]
    left
    refine ⟨⟨_, rfl⟩, rfl, Or.inr ⟨choice.uuid, ?_, rfl⟩, Or.inl rfl⟩
    intro entry hentry heq
    exact hany (List.any_eq_true.mpr ⟨entry, hentry, by simpa using heq⟩)

theorem only_redisCall (label : Label) (script : Timestamp → Redis → α × Redis) :
    (redisCall label script).Only (Touches K) := by
  apply Program.only_perform
  intro pid w choice w' r hact
  left
  by_cases hfails : choice.fails = true
  · simp only [if_pos hfails, Option.some.injEq, Prod.mk.injEq] at hact
    rw [← hact.1]
    exact Neutral.refl pid w
  · simp only [if_neg hfails, Option.some.injEq, Prod.mk.injEq] at hact
    rw [← hact.1]
    exact Neutral.setRedis pid w _

/-- A transaction commits within the bound, or leaves the world as it is. -/
theorem only_transaction' {T : ℕ → Label → World → World → Prop} {label : Label}
    {body : Choice → Timestamp → Tx Database Exn α} {record : α → Label}
    (refl : ∀ pid w, T pid label w w)
    (h : ∀ pid w choice value db, (body choice w.now).run w.db = .ok (value, some db) →
      T pid label w (w.commit pid (record value) db)) :
    (transaction label body record).Only T := by
  apply Program.only_perform
  intro pid w choice w' r hact
  by_cases hfails : choice.fails = true
  · simp only [if_pos hfails, Option.some.injEq, Prod.mk.injEq] at hact
    rw [← hact.1]
    exact refl pid w
  · simp only [if_neg hfails] at hact
    cases hrun : (body choice w.now).run w.db with
    | error error =>
      simp only [hrun, Option.some.injEq, Prod.mk.injEq] at hact
      rw [← hact.1]
      exact refl pid w
    | ok result =>
      rcases result with ⟨value, committed⟩
      cases committed with
      | none =>
        simp only [hrun, Option.some.injEq, Prod.mk.injEq] at hact
        rw [← hact.1]
        exact refl pid w
      | some db =>
        simp only [hrun, Option.some.injEq, Prod.mk.injEq] at hact
        rw [← hact.1]
        exact h pid w choice value db hrun

theorem only_transaction {label : Label} {body : Choice → Timestamp → Tx Database Exn α}
    {record : α → Label}
    (h : ∀ choice now db value db', (body choice now).run db = .ok (value, some db') →
      K (record value) db db') :
    (transaction label body record).Only (Touches K) := by
  apply only_transaction'
  · intro pid w
    exact Or.inl (Neutral.refl pid w)
  · intro pid w choice value db hrun
    exact Or.inr ⟨record value, db, h choice w.now w.db value db hrun, rfl⟩

end Operations

section Services
variable {K : Label → Database → Database → Prop}

theorem only_auditLog (entry : AuditService.Entry) : (AuditService.log entry).Only (Touches K) := by
  apply Program.Only.tryCatch
  · apply only_transaction'
    · intro pid w
      exact Or.inl (Neutral.refl pid w)
    · intro pid w choice value db hrun
      rcases Tx.run_write_ok hrun with ⟨db', hcommitted, hinsert⟩
      rcases Database.insertAuditLog_ok hinsert with ⟨_, _, row, hdb⟩
      left
      rw [Option.some.inj hcommitted, hdb]
      exact ⟨⟨_, rfl⟩, rfl, Or.inl rfl, Or.inr rfl⟩
  · intro error
    exact Program.only_pure ()

theorem only_durableUsage (userId : UUID) : (QuotaService.durableUsage userId).Only (Touches K) := by
  apply (only_query _ _).bind
  intro secretsCount
  apply (only_query _ _).bind
  intro activeBytes
  apply (only_query _ _).bind
  intro pendingBytes
  exact Program.only_pure _

theorem only_reconcileUser (userId : UUID) :
    (QuotaService.reconcileUser userId).Only (Touches K) := by
  apply (only_durableUsage userId).bind
  intro usage
  exact only_redisCall _ _

theorem only_limitsForUser (P : Platform) (userId : UUID) :
    (QuotaService.limitsForUser P userId).Only (Touches K) := only_query _ _

theorem only_reserve (P : Platform) (userId : UUID) (secrets fileBytes : ℤ) :
    (QuotaService.reserve P userId secrets fileBytes).Only (Touches K) := by
  apply (only_durableUsage userId).bind
  intro usage
  apply (only_limitsForUser P userId).bind
  intro limits
  apply only_uuid4.bind
  intro reservationId
  apply (only_redisCall _ _).bind
  intro result
  apply (only_liftExcept _).bind
  intro reply
  apply (only_raiseIf _ _).bind
  intro _
  exact Program.only_pure _

theorem only_commit (reservation : Reservation) :
    (QuotaService.commit reservation).Only (Touches K) := only_redisCall _ _

theorem only_release (reservation : Reservation) :
    (QuotaService.release reservation).Only (Touches K) :=
  (only_redisCall _ _).tryCatch fun _ => Program.only_pure ()

theorem only_reap (id : UUID) : (QuotaService.reap id).Only (Touches K) := by
  apply (only_redisCall _ _).bind
  intro hash
  cases hash with
  | none => exact (only_redisCall _ _).bind fun _ => Program.only_pure 0
  | some hash => exact (only_release _).bind fun _ => Program.only_pure 1

theorem only_reapAll (ids : List UUID) : (QuotaService.reapAll ids).Only (Touches K) := by
  induction ids with
  | nil => exact Program.only_pure 0
  | cons id rest ih =>
    apply (only_reap id).bind
    intro released
    exact ih.bind fun others => Program.only_pure _

theorem only_reapExpiredReservations :
    QuotaService.reapExpiredReservations.Only (Touches K) :=
  (only_redisCall _ _).bind only_reapAll

theorem only_download (key : ObjectKey) : (StorageService.download key).Only (Touches K) := by
  apply Program.only_perform
  intro pid w choice w' r hact
  left
  by_cases hfails : choice.fails = true
  · simp only [if_pos hfails, Option.some.injEq, Prod.mk.injEq] at hact
    rw [← hact.1]
    exact Neutral.refl pid w
  · rw [if_neg hfails] at hact
    cases hfind : w.objects.find key with
    | some object =>
      simp only [hfind, Option.some.injEq, Prod.mk.injEq] at hact
      rw [← hact.1]
      exact Neutral.refl pid w
    | none =>
      simp only [hfind, Option.some.injEq, Prod.mk.injEq] at hact
      rw [← hact.1]
      exact Neutral.refl pid w

/-- The only step of `schedule_expiry` sets the key or does nothing. -/
theorem only_scheduleExpiry' {T : ℕ → Label → World → World → Prop} (secretId : UUID)
    (ttlSeconds : ℕ) (refl : ∀ pid w, T pid (.setExpiry secretId) w w)
    (hset : ∀ pid w, T pid (.setExpiry secretId) w
      (w.setSentinels (w.sentinels.put ⟨secretId, w.now + ttlSeconds * second⟩))) :
    (CleanupService.scheduleExpiry secretId ttlSeconds).Only T := by
  apply Program.only_perform
  intro pid w choice w' r hact
  cases hfails : choice.fails <;> cases hlanded : choice.landed <;> simp only [hfails, hlanded,
    if_true, Bool.false_eq_true, if_false, Option.some.injEq, Prod.mk.injEq] at hact <;>
    rw [← hact.1]
  · exact hset pid w
  · exact hset pid w
  · exact refl pid w
  · exact hset pid w

theorem only_scheduleExpiry (secretId : UUID) (ttlSeconds : ℕ) :
    (CleanupService.scheduleExpiry secretId ttlSeconds).Only (Touches K) :=
  only_scheduleExpiry' secretId ttlSeconds (fun pid w => Or.inl (Neutral.refl pid w))
    fun pid w => Or.inl (Neutral.setSentinels pid w _)

theorem only_authorize (P : Platform) (secretId : UUID) (token : Option String)
    (clientIp : String) : (LocationPolicy.authorize P secretId token clientIp).Only (Touches K) := by
  apply (only_query _ _).bind
  intro row
  cases row with
  | none => exact Program.only_throw _
  | some policy =>
    apply only_clock.bind
    intro now
    apply (only_liftExcept _).bind
    intro _
    apply (only_liftExcept _).bind
    intro verdict
    cases verdict.allowed with
    | true => exact Program.only_pure _
    | false =>
      apply Program.Only.bind
      · exact (only_auditLog _).bind fun _ => Program.only_throw _
      · intro _
        exact Program.only_pure _

end Services

/-! ### Bounds on the tables alone -/

section Tables
variable {T : ℕ → Label → World → World → Prop} {α : Type}

/-- A step that leaves the tables, the expiry keys and the open transactions as they are. -/
structure Calm (pid : ℕ) (w w' : World) : Prop where
  db : w'.db = w.db
  sentinels : w'.sentinels = w.sentinels
  now : w.now ≤ w'.now
  commits : w'.commits = w.commits
  issued : w'.issued = w.issued ∨
    ∃ id, (∀ entry ∈ w.issued, entry.1 ≠ id) ∧ w'.issued = w.issued ++ [(id, pid)]
  sessionLocks : w'.sessionLocks = w.sessionLocks
  sessionInserts : w'.sessionInserts = w.sessionInserts

theorem Calm.refl (pid : ℕ) (w : World) : Calm pid w w :=
  ⟨rfl, rfl, le_refl _, rfl, Or.inl rfl, rfl, rfl⟩

theorem Calm.setRedis (pid : ℕ) (w : World) (redis : Redis) : Calm pid w (w.setRedis redis) :=
  ⟨rfl, rfl, le_refl _, rfl, Or.inl rfl, rfl, rfl⟩

theorem Calm.setNow (pid : ℕ) (w : World) {now : Timestamp} (h : w.now ≤ now) :
    Calm pid w (w.setNow now) :=
  ⟨rfl, rfl, h, rfl, Or.inl rfl, rfl, rfl⟩

theorem Calm.setObjects (pid : ℕ) (w : World) (objects : Table StoredObject.key) :
    Calm pid w (w.setObjects objects) :=
  ⟨rfl, rfl, le_refl _, rfl, Or.inl rfl, rfl, rfl⟩

theorem Calm.issue {pid : ℕ} {w : World} {id : UUID} (hfresh : ∀ entry ∈ w.issued, entry.1 ≠ id) :
    Calm pid w (w.issue id pid) :=
  ⟨rfl, rfl, le_refl _, rfl, Or.inr ⟨id, hfresh, rfl⟩, rfl, rfl⟩

/-- The bound allows every calm step. -/
def Still (T : ℕ → Label → World → World → Prop) : Prop :=
  ∀ pid label w w', Calm pid w w' → T pid label w w'

namespace Still
variable (still : Still T)
include still

theorem only_query (label : Label) (q : Timestamp → Database → α) : (query label q).Only T := by
  apply Program.only_perform
  intro pid w choice w' r hact
  apply still
  cases hfails : choice.fails <;> simp only [hfails, if_true, Bool.false_eq_true, if_false,
    Option.some.injEq, Prod.mk.injEq] at hact <;> rw [← hact.1] <;> exact Calm.refl pid w

theorem only_redisCall (label : Label) (script : Timestamp → Redis → α × Redis) :
    (redisCall label script).Only T := by
  apply Program.only_perform
  intro pid w choice w' r hact
  apply still
  cases hfails : choice.fails <;> simp only [hfails, if_true, Bool.false_eq_true, if_false,
    Option.some.injEq, Prod.mk.injEq] at hact <;> rw [← hact.1]
  · exact Calm.setRedis pid w _
  · exact Calm.refl pid w

theorem only_uuid4 : uuid4.Only T := by
  apply Program.only_perform
  intro pid w choice w' r hact
  apply still
  by_cases hany : (w.issued.any fun entry => entry.1 = choice.uuid) = true
  · rw [if_pos hany] at hact
    cases hact
  · simp only [if_neg hany, Option.some.injEq, Prod.mk.injEq] at hact
    rw [← hact.1]
    apply Calm.issue
    intro entry hentry heq
    exact hany (List.any_eq_true.mpr ⟨entry, hentry, by simpa using heq⟩)

theorem only_clock : clock.Only T := by
  apply Program.only_perform
  intro pid w choice w' r hact
  simp only [Option.some.injEq, Prod.mk.injEq] at hact
  exact still pid _ w w' (hact.1 ▸ Calm.refl pid w)

theorem only_startTransaction : startTransaction.Only T := by
  apply Program.only_perform
  intro pid w choice w' r hact
  simp only [Option.some.injEq, Prod.mk.injEq] at hact
  exact still pid _ w w' (hact.1 ▸ Calm.refl pid w)

theorem only_tick : tick.Only T := by
  apply Program.only_perform
  intro pid w choice w' r hact
  simp only [Option.some.injEq, Prod.mk.injEq] at hact
  exact still pid _ w w' (hact.1 ▸ Calm.setNow pid w (Nat.le_add_right _ _))

theorem only_delete (key : ObjectKey) : (StorageService.delete key).Only T := by
  apply Program.only_perform
  intro pid w choice w' r hact
  apply still
  cases hfails : choice.fails <;> cases hlanded : choice.landed <;> simp only [hfails, hlanded,
    if_true, Bool.false_eq_true, if_false, Option.some.injEq, Prod.mk.injEq] at hact <;>
    rw [← hact.1]
  · exact Calm.setObjects pid w _
  · exact Calm.setObjects pid w _
  · exact Calm.refl pid w
  · exact Calm.setObjects pid w _

/-- A transaction whose commits are within the bound. -/
theorem only_transaction {label : Label} {body : Choice → Timestamp → Tx Database Exn α}
    {record : α → Label}
    (h : ∀ pid w choice value db, (body choice w.now).run w.db = .ok (value, some db) →
      T pid label w (w.commit pid (record value) db)) :
    (transaction label body record).Only T :=
  only_transaction' (fun pid w => still pid label w w (Calm.refl pid w)) h

/-- A transaction of one statement. -/
theorem only_write {label : Label} {statement : Timestamp → Database → Except Exn Database}
    (h : ∀ pid w db, statement w.now w.db = .ok db → T pid label w (w.commit pid label db)) :
    (transaction label fun _ now => Tx.write (statement now)).Only T := by
  apply still.only_transaction
  intro pid w choice value db hrun
  rcases Tx.run_write_ok hrun with ⟨db', hcommitted, hwritten⟩
  rw [Option.some.inj hcommitted]
  exact h pid w db' hwritten

theorem only_durableUsage (userId : UUID) : (QuotaService.durableUsage userId).Only T := by
  apply (still.only_query _ _).bind
  intro secretsCount
  apply (still.only_query _ _).bind
  intro activeBytes
  apply (still.only_query _ _).bind
  intro pendingBytes
  exact Program.only_pure _

theorem only_reconcileUser (userId : UUID) : (QuotaService.reconcileUser userId).Only T := by
  apply (still.only_durableUsage userId).bind
  intro usage
  exact still.only_redisCall _ _

theorem only_release (reservation : Reservation) : (QuotaService.release reservation).Only T :=
  (still.only_redisCall _ _).tryCatch fun _ => Program.only_pure ()

theorem only_reap (id : UUID) : (QuotaService.reap id).Only T := by
  apply (still.only_redisCall _ _).bind
  intro hash
  cases hash with
  | none => exact (still.only_redisCall _ _).bind fun _ => Program.only_pure 0
  | some hash => exact (still.only_release _).bind fun _ => Program.only_pure 1

theorem only_reapAll (ids : List UUID) : (QuotaService.reapAll ids).Only T := by
  induction ids with
  | nil => exact Program.only_pure 0
  | cons id rest ih =>
    apply (still.only_reap id).bind
    intro released
    exact ih.bind fun others => Program.only_pure _

theorem only_reapExpiredReservations : QuotaService.reapExpiredReservations.Only T :=
  (still.only_redisCall _ _).bind still.only_reapAll

end Still

/-- An entry of its own either is not written or is one more row. -/
theorem only_log {entry : AuditService.Entry} (still : Still T)
    (h : ∀ pid w db, entry.insert w.now w.db = .ok db → T pid .auditLog w (w.commit pid .auditLog db)) :
    (AuditService.log entry).Only T := by
  apply Program.Only.tryCatch
  · exact still.only_write h
  · intro error
    exact Program.only_pure ()

/-- A denial is logged; nothing else that `authorize` does reaches the tables. -/
theorem only_authorize' (still : Still T)
    (hdenied : ∀ entry : AuditService.Entry, entry.action = "invalid_token" →
      (AuditService.log entry).Only T)
    (P : Platform) (secretId : UUID) (token : Option String) (clientIp : String) :
    (LocationPolicy.authorize P secretId token clientIp).Only T := by
  apply (still.only_query _ _).bind
  intro row
  cases row with
  | none => exact Program.only_throw _
  | some policy =>
    apply still.only_clock.bind
    intro now
    apply (only_liftExcept _).bind
    intro _
    apply (only_liftExcept _).bind
    intro verdict
    cases verdict.allowed with
    | true => exact Program.only_pure _
    | false =>
      apply Program.Only.bind
      · exact (hdenied _ rfl).bind fun _ => Program.only_throw _
      · intro _
        exact Program.only_pure _

theorem guarded_raiseIf {C : Label → World → Prop} (bad : Bool) (error : Exn) :
    (raiseIf bad error).Guarded C T fun _ => bad = false := by
  cases bad with
  | true => exact Program.guarded_throw error
  | false => exact Program.guarded_pure rfl

/-- A transaction under a guard. -/
theorem Still.guarded_transaction (still : Still T) {C : Label → World → Prop} {K : α → Prop}
    {label : Label} {body : Choice → Timestamp → Tx Database Exn α} {record : α → Label}
    (h : ∀ pid w choice value committed, C label w →
      (body choice w.now).run w.db = .ok (value, committed) → K value ∧
        ∀ db, committed = some db → T pid label w (w.commit pid (record value) db)) :
    (transaction label body record).Guarded C T K := by
  apply Program.guarded_perform
  intro pid w choice w' r hC hact
  by_cases hfails : choice.fails = true
  · simp only [if_pos hfails, Option.some.injEq, Prod.mk.injEq] at hact
    rcases hact with ⟨rfl, rfl⟩
    exact ⟨still pid label w w (Calm.refl pid w), fun value hvalue => by cases hvalue⟩
  · simp only [if_neg hfails] at hact
    cases hrun : (body choice w.now).run w.db with
    | error error =>
      simp only [hrun, Option.some.injEq, Prod.mk.injEq] at hact
      rcases hact with ⟨rfl, rfl⟩
      exact ⟨still pid label w w (Calm.refl pid w), fun value hvalue => by cases hvalue⟩
    | ok result =>
      rcases result with ⟨value, committed⟩
      have hresult := h pid w choice value committed hC hrun
      cases committed with
      | none =>
        simp only [hrun, Option.some.injEq, Prod.mk.injEq] at hact
        rcases hact with ⟨rfl, rfl⟩
        exact ⟨still pid label w w (Calm.refl pid w), fun other hother => Except.ok.inj hother ▸ hresult.1⟩
      | some db =>
        simp only [hrun, Option.some.injEq, Prod.mk.injEq] at hact
        rcases hact with ⟨rfl, rfl⟩
        exact ⟨hresult.2 db rfl, fun other hother => Except.ok.inj hother ▸ hresult.1⟩

/-! ### Cleanup -/

theorem Still.only_acquireLock (still : Still T) (key : LockKey) (ttl : ℕ) :
    (CleanupService.acquireLock key ttl).Only T := by
  apply still.only_uuid4.bind
  intro token
  exact (still.only_redisCall _ _).bind fun _ => Program.only_pure _

theorem Still.only_releaseLock (still : Still T) (key : LockKey) (token : UUID) :
    (CleanupService.releaseLock key token).Only T := still.only_redisCall _ _

theorem only_eachRow {β : Type} {round : β → Handler Bool} (h : ∀ row, (round row).Only T)
    (rows : List β) : (CleanupService.eachRow round rows).Only T := by
  induction rows with
  | nil => exact Program.only_pure []
  | cons row rows ih =>
    apply (h row).bind
    intro done
    exact ih.bind fun others => Program.only_pure _

theorem Still.only_reconcileEach (still : Still T) (users : List UUID) :
    (CleanupService.reconcileEach users).Only T := by
  induction users with
  | nil => exact Program.only_pure ()
  | cons userId rest ih =>
    apply Program.Only.bind
    · apply Program.Only.tryCatch
      · exact (still.only_reconcileUser userId).bind fun _ => Program.only_pure ()
      · intro error
        exact Program.only_pure ()
    · intro _
      exact ih

theorem Still.only_reconcileAll (still : Still T) (users : List UUID) :
    (CleanupService.reconcileAll users).Only T := by
  induction users with
  | nil => exact Program.only_pure ()
  | cons userId rest ih => exact (still.only_reconcileUser userId).bind fun _ => ih

theorem only_logEach (hlog : ∀ entry, (AuditService.log entry).Only T)
    (entry : UUID → AuditService.Entry) (ids : List UUID) :
    (CleanupService.logEach entry ids).Only T := by
  induction ids with
  | nil => exact Program.only_pure ()
  | cons id rest ih => exact (hlog _).bind fun _ => ih

/-- The transactions of the storage cleanup. -/
def cleansStorage : Label → Bool
  | .markProcessed _ | .retryObject _ | .deleteUpload _ => true
  | _ => false

/-- The bound allows the storage cleanup every change of the outbox and of the pending uploads. -/
def Sparing (T : ℕ → Label → World → World → Prop) : Prop :=
  ∀ pid label w outbox pending, cleansStorage label = true → T pid label w (w.commit pid label
    { w.db with objectDeletionOutbox := outbox, pendingUploads := pending })

section
variable (still : Still T) (sparing : Sparing T)
include still sparing

theorem only_storageWrite {label : Label} {effect : Timestamp → Database → Database}
    (hlabel : cleansStorage label = true) (h : ∀ now db, ∃ outbox pending, effect now db =
      { db with objectDeletionOutbox := outbox, pendingUploads := pending }) :
    (transaction label fun _ now => Tx.write fun db => .ok (effect now db)).Only T := by
  apply still.only_write
  intro pid w db heffect
  rcases h w.now w.db with ⟨outbox, pending, heq⟩
  rw [← Except.ok.inj heffect, heq]
  exact sparing pid label w outbox pending hlabel

theorem only_processObject (row : ObjectDeletion) : (CleanupService.processObject row).Only T := by
  apply Program.Only.tryCatch
  · apply (still.only_delete _).bind
    intro _
    apply Program.Only.bind
    · exact only_storageWrite still sparing rfl fun now db => ⟨_, _, rfl⟩
    · intro _
      exact Program.only_pure true
  · intro error
    apply Program.Only.bind
    · exact only_storageWrite still sparing rfl fun now db => ⟨_, _, rfl⟩
    · intro _
      exact Program.only_pure false

theorem only_processUpload (row : PendingUpload) : (CleanupService.processUpload row).Only T := by
  apply Program.Only.tryCatch
  · apply (still.only_delete _).bind
    intro _
    apply Program.Only.bind
    · exact only_storageWrite still sparing rfl fun now db => ⟨_, _, rfl⟩
    · intro _
      exact (still.only_release _).bind fun _ => Program.only_pure true
  · intro error
    exact Program.only_pure false

theorem only_processStorageCleanup : CleanupService.processStorageCleanup.Only T := by
  apply (still.only_query _ _).bind
  intro outbox
  apply (still.only_query _ _).bind
  intro pending
  apply (only_eachRow (only_processObject still sparing) outbox).bind
  intro objects
  apply (only_eachRow (only_processUpload still sparing) pending).bind
  intro uploads
  apply Program.Only.bind
  · apply Program.Only.tryCatch
    · exact still.only_reapExpiredReservations.bind fun _ => Program.only_pure ()
    · intro error
      exact Program.only_pure ()
  · intro _
    exact (still.only_reconcileEach _).bind fun _ => Program.only_pure _

omit still sparing in
/-- The transaction of a sweep preserves what each of its statements does. -/
theorem preserves_sweepTransaction {R : Database → Database → Prop} [IsPreorder Database R]
    {now : Timestamp} (hsecrets : ∀ db, R db (db.deleteSecrets now (CleanupService.spent now)))
    (husers : ∀ db, R db (db.deleteUsers (CleanupService.removable now)))
    (htracking : ∀ db, R db (db.deleteTracking now))
    (hsessions : ∀ db : Database,
      R db { db with sessions := db.sessions.deleteWhere (CleanupService.stale now) }) :
    (CleanupService.sweepTransaction now).Preserves R := by
  have hwrite : ∀ {effect : Database → Database}, (∀ db, R db (effect db)) →
      (Tx.write fun db => .ok (effect db) : Tx Database Exn Unit).Preserves R := by
    intro effect heffect
    apply Tx.preserves_write
    intro db db' hok
    rw [← Except.ok.inj hok]
    exact heffect db
  apply (Tx.preserves_select _).bind
  intro secrets
  apply (hwrite hsecrets).bind
  intro _
  apply (Tx.preserves_select _).bind
  intro users
  apply (hwrite husers).bind
  intro _
  apply (hwrite htracking).bind
  intro _
  apply (Tx.preserves_select _).bind
  intro sessions
  apply (hwrite hsessions).bind
  intro _
  exact Tx.preserves_pure _

/-- A sweep is bounded by its transaction and its audit entries. -/
theorem only_fallbackSweep (hlog : ∀ entry, (AuditService.log entry).Only T)
    (hsweep : ∀ pid w swept db, (CleanupService.sweepTransaction w.now).run w.db =
      .ok (swept, some db) → T pid .sweep w (w.commit pid .sweep db)) :
    CleanupService.fallbackSweep.Only T := by
  apply (still.only_acquireLock _ _).bind
  intro token
  cases token with
  | none => exact Program.only_pure _
  | some token =>
    apply Program.Only.ensuring
    · apply Program.Only.bind
      · apply still.only_transaction
        intro pid w choice swept db hrun
        exact hsweep pid w swept db hrun
      · intro swept
        apply (only_logEach hlog _ _).bind
        intro _
        apply (still.only_reconcileAll _).bind
        intro _
        apply (only_processStorageCleanup still sparing).bind
        intro cleaned
        apply (only_logEach hlog _ _).bind
        intro _
        exact Program.only_pure _
    · exact still.only_releaseLock _ token

end

theorem Still.only_getCurrentUser (still : Still T) (P : Platform) (credentials : Option String) :
    (Security.getCurrentUser P credentials).Only T := by
  cases credentials with
  | none => exact Program.only_throw _
  | some token =>
    apply still.only_clock.bind
    intro now
    apply (only_liftExcept _).bind
    intro payload
    apply (only_raiseIf _ _).bind
    intro _
    cases payload.sub with
    | none => exact Program.only_throw _
    | some sub =>
      apply (only_raiseIf _ _).bind
      intro _
      cases payload.sid with
      | none => exact Program.only_throw _
      | some sid =>
        apply (only_raiseIf _ _).bind
        intro _
        apply (only_liftExcept _).bind
        intro userId
        apply (only_liftExcept _).bind
        intro sessionId
        apply (still.only_query _ _).bind
        intro row
        cases row with
        | none => exact Program.only_throw _
        | some user =>
          apply (only_raiseIf _ _).bind
          intro _
          exact Program.only_pure _

end Tables
end PhantomShare
