import Mathlib.Algebra.Order.BigOperators.Group.List
import Mathlib.Algebra.Order.Ring.Int
import PhantomShare.Foundations.Log
import PhantomShare.Foundations.Counting
import PhantomShare.Foundations.Machine
import PhantomShare.Services.QuotaService

/-!
# The quota ledger

The scripts `_RESERVE`, `_COMMIT` and `_RELEASE`, run one after the other in any
order by requests, the cleanup and the reaper. A ledger of the accepted
reservations says what they amount to: each is open until the first script that
settles it, and counts for its user unless that script releases it. Below 2 ^ 53
the doubles of the scripts are exact, and a sum that is not is above every limit.
-/
namespace PhantomShare.Quotas
open Foundations

/-! ### Ledgers -/

inductive Fate where
  | pending
  | committed
  | released
  deriving DecidableEq, Repr

/-- An accepted reservation. -/
structure Grant where
  id : UUID
  userId : UUID
  secretDelta : ℤ
  byteDelta : ℤ
  fate : Fate
  deriving DecidableEq, Repr

abbrev Ledger := Table Grant.id

namespace Ledger

/-- Settle a reservation, unless it has been settled already. -/
def settle (ledger : Ledger) (id : UUID) (fate : Fate) : Ledger :=
  ledger.modify id (fun g => if g.fate = .pending then { g with fate := fate } else g) fun g => by
    by_cases h : g.fate = .pending
    · rw [if_pos h]
    · rw [if_neg h]

/-- What a reservation that is not released adds to an amount of a user. -/
def share (amount : Grant → ℤ) (userId : UUID) (g : Grant) : ℤ :=
  if g.userId = userId ∧ g.fate ≠ .released then amount g else 0

/-- The total of a user. -/
def held (ledger : Ledger) (amount : Grant → ℤ) (userId : UUID) : ℤ :=
  ledger.total (share amount userId)

end Ledger

/-! ### Scripts -/

inductive Script where
  | reserve (userId reservationId : UUID)
      (secretDelta byteDelta durableSecrets durableBytes : ℤ) (expiresAt : ℕ)
  | commit (reservationId : UUID)
  | release (userId reservationId : UUID)
  deriving DecidableEq, Repr

/-- Run a script under the limits of the users. The result is whether it accepted or settled. -/
def Script.run (limits : UUID → ℤ × ℤ) : Script → Redis → Bool × Redis
  | .reserve userId id secretDelta byteDelta durableSecrets durableBytes expiresAt, r =>
    let ran := r.reserve userId id secretDelta byteDelta (limits userId).1 (limits userId).2
      durableSecrets durableBytes expiresAt
    (ran.1.any Redis.ReserveReply.accepted, ran.2)
  | .commit id, r => ((r.reservations.find id).isSome, r.commit id)
  | .release userId id, r => ((r.reservations.find id).isSome, r.release userId id)

/-- A script that ran, with its result. -/
abbrev Entry := Script × Bool

def Ran (limits : UUID → ℤ × ℤ) (r : Redis) (e : Entry) (r' : Redis) : Prop :=
  e.1.run limits r = (e.2, r')

/-- The reservation that a script asks for, with its user. -/
def Script.asks : Script → Option (UUID × UUID)
  | .reserve userId id .. => some (id, userId)
  | _ => none

/-- Numbers that doubles show exactly. -/
def Small (n : ℤ) : Prop := |n| < 2 ^ 53

/-- The amounts of a reservation, or two counts of secrets and bytes. -/
@[mk_iff]
structure Modest (counts : ℤ × ℤ) : Prop where
  secrets : Small counts.1
  bytes : Small counts.2

/-- Amounts are not negative and small, as is the durable usage; ids are fresh, and a reservation is
released for its own user. -/
def Careful (before : List Entry) (e : Entry) : Prop :=
  match e.1 with
  | .reserve _ id secretDelta byteDelta durableSecrets durableBytes _ =>
      (0 ≤ secretDelta ∧ 0 ≤ byteDelta) ∧ Modest (secretDelta, byteDelta) ∧
      Modest (durableSecrets, durableBytes) ∧
      ∀ e' ∈ before, ∀ userId, e'.1.asks ≠ some (id, userId)
  | .commit _ => True
  | .release userId id => ∀ e' ∈ before, ∀ userId', e'.1.asks = some (id, userId') → userId' = userId

/-- What a script that ran means for the ledger. -/
def record (ledger : Ledger) : Entry → Ledger
  | (.reserve userId id secretDelta byteDelta _ _ _, true) =>
    ledger.put ⟨id, userId, secretDelta, byteDelta, .pending⟩
  | (.reserve .., false) => ledger
  | (.commit id, _) => ledger.settle id .committed
  | (.release _ id, _) => ledger.settle id .released

def ledgerOf (log : List Entry) : Ledger := log.foldl record .empty

/-- Whether a script settled a reservation. -/
def Settles (id : UUID) : Entry → Bool
  | (.commit id', true) => id' = id
  | (.release _ id', true) => id' = id
  | _ => false

/-- The durable usage that a script brings for a user without a usage hash. -/
def seedFor (userId : UUID) (e : Entry) : Option (ℤ × ℤ) :=
  match e.1 with
  | .reserve userId' _ _ _ durableSecrets durableBytes _ =>
    if userId' = userId then some (durableSecrets, durableBytes) else none
  | _ => none

/-- The numbers of a usage hash. -/
def usageOf (r : Redis) (userId : UUID) : Option (ℤ × ℤ) :=
  (r.usage.find userId).map fun u => (u.secrets, u.bytes)

/-- The usage that a user starts with: what the hash held before the scripts, or what the first
reservation brought. -/
def startOf (r₀ : Redis) (log : List Entry) (userId : UUID) : Option (ℤ × ℤ) :=
  (usageOf r₀ userId).or (log.findSome? (seedFor userId))

/-- Redis shows what the ledger says. -/
structure Agrees (r₀ : Redis) (log : List Entry) (r : Redis) : Prop where
  hashes : ∀ id, r.reservations.find id = ((ledgerOf log).find id).bind fun g =>
    if g.fate = .pending then some ⟨id, g.secretDelta, g.byteDelta, g.userId, false⟩ else none
  queue : ∀ id, (r.reservationQueue.find id).isSome = (r.reservations.find id).isSome
  usage : ∀ userId, usageOf r userId =
    (startOf r₀ log userId).map fun start =>
      (start.1 + (ledgerOf log).held Grant.secretDelta userId,
        start.2 + (ledgerOf log).held Grant.byteDelta userId)
  asked : ∀ id g, (ledgerOf log).find id = some g → ∃ e ∈ log, e.1.asks = some (id, g.userId)
  nonneg : ∀ g ∈ (ledgerOf log).rows, 0 ≤ g.secretDelta ∧ 0 ≤ g.byteDelta
  modest : ∀ g ∈ (ledgerOf log).rows, Modest (g.secretDelta, g.byteDelta)
  settled : ∀ id, log.countP (Settles id) =
    if ((ledgerOf log).find id).any (fun g => g.fate ≠ .pending) then 1 else 0

section Ledger
variable {ledger : Ledger} {id : UUID} {g : Grant} {fate : Fate} {amount : Grant → ℤ} {userId : UUID}

theorem find_settle (ledger : Ledger) (id : UUID) (fate : Fate) (id' : UUID) :
    (ledger.settle id fate).find id' = if id' = id then (ledger.find id).map fun g =>
      if g.fate = .pending then { g with fate := fate } else g else ledger.find id' := by
  rw [Ledger.settle, Table.find_modify]

/-- Settling a reservation releases what it held, or nothing. -/
theorem held_settle (hamount : ∀ g fate, amount { g with fate := fate } = amount g)
    (hfate : fate ≠ .pending) :
    (ledger.settle id fate).held amount userId = ledger.held amount userId -
      (ledger.find id).elim 0 fun g =>
        if g.userId = userId ∧ g.fate = .pending ∧ fate = .released then amount g else 0 := by
  rw [Ledger.held, Ledger.settle, Table.total_modify, Ledger.held]
  cases ledger.find id with
  | none => simp
  | some g =>
    by_cases hpending : g.fate = .pending
    · have hsame := hamount g fate
      simp only [Option.elim_some, Ledger.share, hpending]
      cases fate with
      | pending => exact absurd rfl hfate
      | committed => simp [hsame]
      | released =>
        by_cases huser : g.userId = userId
        · simp [huser, sub_eq_add_neg]
        · simp [huser]
    · simp [hpending]

/-- A reservation that is not pending is settled already. -/
theorem settle_of_settled (h : ∀ g, ledger.find id = some g → g.fate ≠ .pending) (fate : Fate) :
    ledger.settle id fate = ledger := by
  apply Table.ext
  rw [Ledger.settle, Table.modify_rows, List.map_congr_left, List.map_id]
  intro g hg
  by_cases hid : g.id = id
  · have hfate := h g (hid ▸ Table.find_of_mem hg)
    simp [hid, hfate]
  · simp [hid]

theorem ledgerOf_snoc (log : List Entry) (e : Entry) :
    ledgerOf (log ++ [e]) = record (ledgerOf log) e := by
  simp [ledgerOf, List.foldl_append]

theorem startOf_snoc (r₀ : Redis) (log : List Entry) (e : Entry) (userId : UUID) :
    startOf r₀ (log ++ [e]) userId = (startOf r₀ log userId).or (seedFor userId e) := by
  rw [startOf, startOf, List.findSome?_append, Option.or_assoc]
  cases hseed : seedFor userId e <;> simp [hseed]

theorem held_put (hfresh : ledger.find g.id = none) :
    Ledger.held (ledger.put g) amount userId =
      ledger.held amount userId + Ledger.share amount userId g :=
  Table.total_put_of_fresh hfresh _

end Ledger

/-! ### Numbers -/

section Numbers
variable {n limit : ℤ}

instance (n : ℤ) : Decidable (Small n) := inferInstanceAs (Decidable (_ < _))

instance (counts : ℤ × ℤ) : Decidable (Modest counts) :=
  decidable_of_iff _ (modest_iff counts).symm

theorem tonumber_eq (h : Small n) : Redis.tonumber n = n := by
  rw [Redis.tonumber, Binary64.rounded_intCast h, Int.floor_intCast]

/-- What is not small does not become so by rounding. -/
theorem le_tonumber (h : 2 ^ 53 ≤ n) : 2 ^ 53 ≤ Redis.tonumber n := by
  have hle : (2 : ℚ) ^ (53 : ℤ) ≤ Binary64.rounded n := by
    apply Binary64.zpow_le_rounded
    exact_mod_cast h
  rw [Redis.tonumber, Int.le_floor]
  exact_mod_cast hle

/-- The comparison with a limit comes out as if the sum were exact. -/
theorem tonumber_lt_tonumber_iff (hlimit : Small limit) (hlow : -2 ^ 53 < n) :
    Redis.tonumber limit < Redis.tonumber n ↔ limit < n := by
  rw [tonumber_eq hlimit]
  rw [Small, abs_lt] at hlimit
  by_cases hn : n < 2 ^ 53
  · rw [tonumber_eq (abs_lt.mpr ⟨hlow, hn⟩)]
  · have hrounded := le_tonumber (not_lt.mp hn)
    constructor <;> intro _ <;> omega

/-- The sums and differences of small numbers have 64 bits. -/
theorem fits64_add {m : ℤ} (hm : Small m) (hn : Small n) : Fits64 (m + n) := by
  rw [Small, abs_lt] at hm hn
  unfold Fits64
  omega

theorem Small.neg (h : Small n) : Small (-n) := by rwa [Small, abs_neg]

end Numbers

section Redis
variable {r : Redis} {id userId : UUID}

theorem usageOf_seed (r : Redis) (userId : UUID) {durable : ℤ × ℤ} (h : Modest durable)
    (userId' : UUID) : usageOf (r.seed userId durable.1 durable.2) userId' =
      if userId' = userId then some ((usageOf r userId).getD durable)
      else usageOf r userId' := by
  rw [Redis.seed, usageOf, usageOf, usageOf]
  cases hfind : r.usage.find userId with
  | none =>
    by_cases huser : userId' = userId
    · simp [Table.find_put, huser, tonumber_eq h.secrets, tonumber_eq h.bytes]
    · simp [Table.find_put, huser]
  | some u => by_cases huser : userId' = userId <;> simp [huser, hfind]

theorem counted_eq {start : ℤ × ℤ} (h : usageOf r userId = some start) :
    (r.counted userId).secrets = start.1 ∧ (r.counted userId).bytes = start.2 := by
  rw [usageOf, Option.map_eq_some_iff] at h
  obtain ⟨u, hfind, rfl⟩ := h
  simp [Redis.counted, hfind]

theorem usageOf_put (r : Redis) (userId : UUID) (secrets bytes : ℤ) (userId' : UUID) :
    usageOf { r with usage := r.usage.put ⟨userId, secrets, bytes⟩ } userId' =
      if userId' = userId then some (secrets, bytes) else usageOf r userId' := by
  rw [usageOf, usageOf]
  by_cases huser : userId' = userId <;> simp [Table.find_put, huser]

/-- Small amounts do not make `HINCRBY` fail on a small usage. -/
theorem increase_eq {start delta : ℤ × ℤ} (h : usageOf r userId = some start) (hstart : Modest start)
    (hdelta : Modest delta) : r.increase userId delta.1 delta.2 =
      (true, { r with usage := r.usage.put ⟨userId, start.1 + delta.1, start.2 + delta.2⟩ }) := by
  obtain ⟨hsecrets, hbytes⟩ := counted_eq h
  simp only [Redis.increase, hsecrets, hbytes, if_pos (fits64_add hstart.secrets hdelta.secrets),
    if_pos (fits64_add hstart.bytes hdelta.bytes)]

@[simp] theorem seed_reservations (r : Redis) (userId : UUID) (secrets bytes : ℤ) :
    (r.seed userId secrets bytes).reservations = r.reservations := by
  rw [Redis.seed]
  split <;> rfl

@[simp] theorem seed_queue (r : Redis) (userId : UUID) (secrets bytes : ℤ) :
    (r.seed userId secrets bytes).reservationQueue = r.reservationQueue := by
  rw [Redis.seed]
  split <;> rfl

/-- On small numbers `_RESERVE` adds and compares exactly, and does not raise. -/
theorem reserve_eq {delta limit durable : ℤ × ℤ} {expiresAt : ℕ}
    (hused : ∀ used, usageOf r userId = some used → Modest used) (hdurable : Modest durable)
    (hnonneg : 0 ≤ delta) (hdelta : Modest delta) (hlimit : Modest limit) :
    let start := (usageOf r userId).getD durable
    let seeded := r.seed userId durable.1 durable.2
    r.reserve userId id delta.1 delta.2 limit.1 limit.2 durable.1 durable.2 expiresAt =
      if limit.1 < start.1 + delta.1 then (some ⟨false, 1, start.1, start.2⟩, seeded)
      else if limit.2 < start.2 + delta.2 then (some ⟨false, 2, start.1, start.2⟩, seeded)
      else (some ⟨true, 0, start.1 + delta.1, start.2 + delta.2⟩,
        { seeded with
          usage := seeded.usage.put ⟨userId, start.1 + delta.1, start.2 + delta.2⟩
          reservations := seeded.reservations.put ⟨id, delta.1, delta.2, userId, false⟩
          reservationQueue := seeded.reservationQueue.put ⟨id, expiresAt⟩ }) := by
  intro start seeded
  have hseeded : usageOf seeded userId = some start := by
    rw [usageOf_seed r userId hdurable, if_pos rfl]
  have hstart : Modest start := by
    change Modest ((usageOf r userId).getD durable)
    cases hfind : usageOf r userId with
    | none => exact hdurable
    | some used => exact hused used hfind
  obtain ⟨hsecrets, hbytes⟩ := counted_eq hseeded
  have hlow : -2 ^ 53 < start.1 + delta.1 ∧ -2 ^ 53 < start.2 + delta.2 :=
    ⟨lt_add_of_lt_of_nonneg (abs_lt.mp hstart.secrets).1 hnonneg.1,
      lt_add_of_lt_of_nonneg (abs_lt.mp hstart.bytes).1 hnonneg.2⟩
  have hroom := tonumber_lt_tonumber_iff hlimit.secrets hlow.1
  have hspace := tonumber_lt_tonumber_iff hlimit.bytes hlow.2
  have hsum : ∀ {limit sum : ℤ}, Small limit → -2 ^ 53 < sum → ¬limit < sum →
      Redis.tonumber sum = sum := by
    intro limit sum hsmall hbelow hle
    rw [Small, abs_lt] at hsmall
    apply tonumber_eq
    rw [Small, abs_lt]
    omega
  rw [Redis.reserve]
  simp only [tonumber_eq hdelta.secrets, tonumber_eq hdelta.bytes]
  change (if Redis.tonumber limit.1 < Redis.tonumber
    (Redis.tonumber (seeded.counted userId).secrets + delta.1) then _ else _) = _
  rw [hsecrets, hbytes, tonumber_eq hstart.secrets, tonumber_eq hstart.bytes]
  by_cases hover : limit.1 < start.1 + delta.1
  · rw [if_pos (hroom.mpr hover), if_pos hover]
  · rw [if_neg (mt hroom.mp hover), if_neg hover]
    by_cases hfull : limit.2 < start.2 + delta.2
    · rw [if_pos (hspace.mpr hfull), if_pos hfull]
    · rw [if_neg (mt hspace.mp hfull), if_neg hfull]
      have hincrease := increase_eq hseeded hstart hdelta
      rw [hincrease, hsum hlimit.secrets hlow.1 hover, hsum hlimit.bytes hlow.2 hfull]
      rfl

theorem find_dropReservation (r : Redis) (id id' : UUID) :
    (r.dropReservation id).reservations.find id' =
      if id' = id then none else r.reservations.find id' := by
  rw [Redis.dropReservation, Table.find_deleteWhere]
  cases hfind : r.reservations.find id' with
  | none => simp
  | some h => simp [Option.filter_some, Table.key_of_find hfind]

theorem isSome_queue_dropReservation (r : Redis) (id id' : UUID) :
    ((r.dropReservation id).reservationQueue.find id').isSome =
      if id' = id then false else (r.reservationQueue.find id').isSome := by
  rw [Redis.dropReservation, Table.find_deleteWhere]
  cases hfind : r.reservationQueue.find id' with
  | none => simp
  | some h => by_cases hid : id' = id <;> simp [Option.filter_some, Table.key_of_find hfind, hid]

end Redis

section Steps
variable {limits : UUID → ℤ × ℤ} {r₀ r : Redis} {log : List Entry} {id userId : UUID}

/-- A user who has asked for a reservation has a usage to start with. -/
theorem startOf_of_asks {e : Entry} (he : e ∈ log) (hasks : e.1.asks = some (id, userId)) :
    startOf r₀ log userId ≠ none := by
  intro hnone
  have hseed := List.findSome?_eq_none_iff.mp (Option.or_eq_none_iff.mp hnone).2 e he
  rcases e with ⟨script, effective⟩
  cases script with
  | reserve userId' id secretDelta byteDelta durableSecrets durableBytes expiresAt =>
    simp only [Script.asks, Option.some.injEq, Prod.mk.injEq] at hasks
    simp [seedFor, hasks.2] at hseed
  | commit id => cases hasks
  | release userId' id => cases hasks

/-- A user who has asked for nothing holds nothing. -/
theorem Agrees.held_zero (h : Agrees r₀ log r) (hnone : startOf r₀ log userId = none)
    (amount : Grant → ℤ) : (ledgerOf log).held amount userId = 0 := by
  rw [Ledger.held, Table.total]
  apply List.sum_eq_zero
  intro share hshare
  obtain ⟨g, hg, rfl⟩ := List.mem_map.mp hshare
  have hother : g.userId ≠ userId := by
    rintro rfl
    obtain ⟨e, he, hasks⟩ := h.asked g.id g (Table.find_of_mem hg)
    exact startOf_of_asks he hasks hnone
  simp [Ledger.share, hother]

/-- The usage after a script that seeds it, when the ledger stays as it is. -/
theorem Agrees.seeded (h : Agrees r₀ log r) (e : Entry) (userId : UUID) :
    (usageOf r userId).or (seedFor userId e) = (startOf r₀ (log ++ [e]) userId).map fun start =>
      (start.1 + (ledgerOf log).held Grant.secretDelta userId,
        start.2 + (ledgerOf log).held Grant.byteDelta userId) := by
  rw [h.usage, startOf_snoc]
  cases hstart : startOf r₀ log userId with
  | some start => rfl
  | none =>
    rw [h.held_zero hstart, h.held_zero hstart]
    cases seedFor userId e <;> simp

/-- A script that is not effective leaves the ledger as it is. -/
theorem Agrees.idle (h : Agrees r₀ log r) {e : Entry} {r' : Redis}
    (hreservations : r'.reservations = r.reservations)
    (hqueue : r'.reservationQueue = r.reservationQueue)
    (hledger : record (ledgerOf log) e = ledgerOf log) (hsettles : ∀ id, Settles id e = false)
    (husage : ∀ userId, usageOf r' userId = (usageOf r userId).or (seedFor userId e)) :
    Agrees r₀ (log ++ [e]) r' where
  hashes id := by
    rw [hreservations, ledgerOf_snoc, hledger]
    exact h.hashes id
  queue id := by
    rw [hreservations, hqueue]
    exact h.queue id
  usage userId := by
    rw [husage, ledgerOf_snoc, hledger]
    exact h.seeded e userId
  asked id g hfind := by
    rw [ledgerOf_snoc, hledger] at hfind
    obtain ⟨e', he', hasks⟩ := h.asked id g hfind
    exact ⟨e', List.mem_append_left _ he', hasks⟩
  nonneg := by
    rw [ledgerOf_snoc, hledger]
    exact h.nonneg
  modest := by
    rw [ledgerOf_snoc, hledger]
    exact h.modest
  settled id := by
    rw [List.countP_append, ledgerOf_snoc, hledger, h.settled]
    simp [hsettles]

/-- A reservation that is accepted. -/
theorem Agrees.accept (h : Agrees r₀ log r) {secretDelta byteDelta durableSecrets durableBytes : ℤ}
    {expiresAt : ℕ} {r' : Redis} (hnonneg : 0 ≤ secretDelta ∧ 0 ≤ byteDelta)
    (hmodest : Modest (secretDelta, byteDelta)) (hfresh : (ledgerOf log).find id = none)
    (hreservations : r'.reservations =
      r.reservations.put ⟨id, secretDelta, byteDelta, userId, false⟩)
    (hqueue : r'.reservationQueue = r.reservationQueue.put ⟨id, expiresAt⟩)
    (husage : ∀ userId', usageOf r' userId' = ((usageOf r userId').or
      (if userId = userId' then some (durableSecrets, durableBytes) else none)).map fun u =>
        if userId = userId' then (u.1 + secretDelta, u.2 + byteDelta) else u) :
    Agrees r₀ (log ++ [(.reserve userId id secretDelta byteDelta durableSecrets durableBytes
      expiresAt, true)]) r' where
  hashes id' := by
    rw [hreservations, ledgerOf_snoc, record, Table.find_put, Table.find_put]
    by_cases hid : id' = id
    · simp [hid]
    · rw [if_neg hid, if_neg hid]
      exact h.hashes id'
  queue id' := by
    rw [hreservations, hqueue, Table.find_put, Table.find_put]
    by_cases hid : id' = id
    · simp [hid]
    · rw [if_neg hid, if_neg hid]
      exact h.queue id'
  usage userId' := by
    have hseeded := h.seeded (.reserve userId id secretDelta byteDelta durableSecrets durableBytes
      expiresAt, true) userId'
    rw [seedFor] at hseeded
    simp only at hseeded
    rw [husage, hseeded, Option.map_map, ledgerOf_snoc, record, held_put hfresh, held_put hfresh]
    congr 1
    funext start
    by_cases huser : userId = userId'
    · simp [Ledger.share, huser, add_assoc]
    · simp [Ledger.share, huser]
  asked id' g hfind := by
    rw [ledgerOf_snoc, record, Table.find_put] at hfind
    by_cases hid : id' = id
    · rw [if_pos hid, Option.some.injEq] at hfind
      refine ⟨_, List.mem_append_right _ (List.mem_singleton_self _), ?_⟩
      rw [← hfind, hid]
      rfl
    · rw [if_neg hid] at hfind
      obtain ⟨e', he', hasks⟩ := h.asked id' g hfind
      exact ⟨e', List.mem_append_left _ he', hasks⟩
  nonneg := by
    rw [ledgerOf_snoc, record, Table.rows_put_of_fresh hfresh]
    intro g hg
    rw [List.mem_append, List.mem_singleton] at hg
    rcases hg with hg | rfl
    · exact h.nonneg g hg
    · exact hnonneg
  modest := by
    rw [ledgerOf_snoc, record, Table.rows_put_of_fresh hfresh]
    intro g hg
    rw [List.mem_append, List.mem_singleton] at hg
    rcases hg with hg | rfl
    · exact h.modest g hg
    · exact hmodest
  settled id' := by
    rw [List.countP_append, ledgerOf_snoc, record, Table.find_put, h.settled]
    by_cases hid : id' = id
    · simp [hid, hfresh, Settles]
    · simp [hid, Settles]

/-- A script that settles a reservation which is pending. -/
theorem Agrees.close (h : Agrees r₀ log r) (fate : Fate) (hfate : fate ≠ .pending) {g : Grant}
    (hfind : (ledgerOf log).find id = some g) (hpending : g.fate = .pending) {e : Entry}
    (hrecord : record (ledgerOf log) e = (ledgerOf log).settle id fate)
    (hsettles : ∀ id', Settles id' e = decide (id = id')) (hseed : ∀ userId, seedFor userId e = none)
    {r' : Redis} (hreservations : ∀ id', r'.reservations.find id' =
      if id' = id then none else r.reservations.find id')
    (hqueue : ∀ id', (r'.reservationQueue.find id').isSome =
      if id' = id then false else (r.reservationQueue.find id').isSome)
    (husage : ∀ userId, usageOf r' userId = (usageOf r userId).map fun u =>
      if g.userId = userId ∧ fate = .released then (u.1 - g.secretDelta, u.2 - g.byteDelta) else u) :
    Agrees r₀ (log ++ [e]) r' where
  hashes id' := by
    rw [hreservations, ledgerOf_snoc, hrecord, find_settle]
    by_cases hid : id' = id
    · simp [hid, hfind, hpending, hfate]
    · rw [if_neg hid, if_neg hid]
      exact h.hashes id'
  queue id' := by
    rw [hreservations, hqueue]
    by_cases hid : id' = id
    · simp [hid]
    · rw [if_neg hid, if_neg hid]
      exact h.queue id'
  usage userId := by
    rw [husage, h.usage, startOf_snoc, hseed, Option.or_none, Option.map_map, ledgerOf_snoc, hrecord,
      held_settle (fun _ _ => rfl) hfate, held_settle (fun _ _ => rfl) hfate, hfind]
    congr 1
    funext start
    by_cases hown : g.userId = userId ∧ fate = .released
    · simp [hown, hpending, add_sub_assoc]
    · have hnone : ¬(g.userId = userId ∧ g.fate = .pending ∧ fate = .released) :=
        fun hall => hown ⟨hall.1, hall.2.2⟩
      simp [hown, hnone]
  asked id' g' hfind' := by
    have hold : ∃ old, (ledgerOf log).find id' = some old ∧ old.userId = g'.userId := by
      rw [ledgerOf_snoc, hrecord, find_settle] at hfind'
      by_cases hid : id' = id
      · rw [if_pos hid, hfind, Option.map_some, Option.some.injEq, if_pos hpending] at hfind'
        exact ⟨g, hid ▸ hfind, by rw [← hfind']⟩
      · rw [if_neg hid] at hfind'
        exact ⟨g', hfind', rfl⟩
    obtain ⟨old, hfindOld, huser⟩ := hold
    obtain ⟨e', he', hasks⟩ := h.asked id' old hfindOld
    exact ⟨e', List.mem_append_left _ he', huser ▸ hasks⟩
  nonneg := by
    intro g' hg'
    rw [ledgerOf_snoc, hrecord, Ledger.settle, Table.modify_rows] at hg'
    obtain ⟨old, hmem, rfl⟩ := List.mem_map.mp hg'
    have hold := h.nonneg old hmem
    split
    · split
      · exact hold
      · exact hold
    · exact hold
  modest := by
    intro g' hg'
    rw [ledgerOf_snoc, hrecord, Ledger.settle, Table.modify_rows] at hg'
    obtain ⟨old, hmem, rfl⟩ := List.mem_map.mp hg'
    have hold := h.modest old hmem
    split
    · split
      · exact hold
      · exact hold
    · exact hold
  settled id' := by
    rw [List.countP_append, ledgerOf_snoc, hrecord, find_settle, h.settled]
    by_cases hid : id' = id
    · simp [hid, hfind, hpending, hfate, hsettles]
    · have hne : id ≠ id' := Ne.symm hid
      simp [hid, hsettles, hne]

/-- What the hash of a reservation says about the ledger. -/
theorem Agrees.pending (h : Agrees r₀ log r) {hash : ReservationHash}
    (hhash : r.reservations.find id = some hash) : ∃ g, (ledgerOf log).find id = some g ∧
      g.fate = .pending ∧ hash = ⟨id, g.secretDelta, g.byteDelta, g.userId, false⟩ := by
  rw [h.hashes, Option.bind_eq_some_iff] at hhash
  obtain ⟨g, hfind, hpending⟩ := hhash
  split at hpending
  · rename_i hfate
    exact ⟨g, hfind, hfate, (Option.some.inj hpending).symm⟩
  · cases hpending

/-- Without a hash the reservation is settled, or was never accepted. -/
theorem Agrees.not_pending (h : Agrees r₀ log r) (hnone : r.reservations.find id = none) (g : Grant)
    (hfind : (ledgerOf log).find id = some g) : g.fate ≠ .pending := by
  intro hpending
  rw [h.hashes, hfind] at hnone
  simp [hpending] at hnone

theorem Agrees.commit (h : Agrees r₀ log r) :
    Agrees r₀ (log ++ [(.commit id, (r.reservations.find id).isSome)]) (r.commit id) := by
  rw [Redis.commit]
  cases hhash : r.reservations.find id with
  | none =>
    exact h.idle rfl rfl (settle_of_settled (h.not_pending hhash) _) (fun _ => rfl)
      fun _ => Option.or_none.symm
  | some hash =>
    obtain ⟨g, hfind, hpending, rfl⟩ := h.pending hhash
    apply h.close .committed nofun hfind hpending rfl (fun _ => rfl) (fun _ => rfl)
      (find_dropReservation r id) (isSome_queue_dropReservation r id)
    intro userId
    simp [usageOf, Redis.dropReservation, Function.comp_def]

theorem Agrees.release (h : Agrees r₀ log r)
    (hused : ∀ userId used, usageOf r userId = some used → Modest used)
    (hown : ∀ e ∈ log, ∀ userId', e.1.asks = some (id, userId') → userId' = userId) :
    Agrees r₀ (log ++ [(.release userId id, (r.reservations.find id).isSome)])
      (r.release userId id) := by
  rw [Redis.release]
  cases hhash : r.reservations.find id with
  | none =>
    exact h.idle rfl rfl (settle_of_settled (h.not_pending hhash) _) (fun _ => rfl)
      fun _ => Option.or_none.symm
  | some hash =>
    obtain ⟨g, hfind, hpending, rfl⟩ := h.pending hhash
    obtain ⟨e, he, hasks⟩ := h.asked id g hfind
    have huser : g.userId = userId := hown e he g.userId hasks
    have hstart : usageOf r userId ≠ none := by
      rw [h.usage, ne_eq, Option.map_eq_none_iff]
      exact startOf_of_asks he (huser ▸ hasks)
    obtain ⟨start, hstart⟩ := Option.ne_none_iff_exists'.mp hstart
    have hmodest := h.modest g (Table.mem_of_find hfind)
    have hlowered : Modest (-g.secretDelta, -g.byteDelta) :=
      ⟨hmodest.secrets.neg, hmodest.bytes.neg⟩
    let lowered := { r with
      usage := r.usage.put ⟨userId, start.1 + -g.secretDelta, start.2 + -g.byteDelta⟩ }
    have hincrease : r.increase userId (-g.secretDelta) (-g.byteDelta) = (true, lowered) :=
      increase_eq hstart (hused userId start hstart) hlowered
    simp only [Bool.false_eq_true, if_false, tonumber_eq hmodest.secrets, tonumber_eq hmodest.bytes,
      hincrease, if_true]
    apply h.close .released nofun hfind hpending rfl (fun _ => rfl) (fun _ => rfl)
      (find_dropReservation lowered id) (isSome_queue_dropReservation lowered id)
    intro userId'
    change usageOf lowered userId' = _
    rw [usageOf_put, huser]
    by_cases hsame : userId' = userId
    · subst hsame
      simp [hstart, sub_eq_add_neg]
    · have hother : ¬userId = userId' := Ne.symm hsame
      simp [hsame, hother]

/-- A reservation, accepted or not. -/
theorem Agrees.reserve (h : Agrees r₀ log r) (hlimits : ∀ userId, Modest (limits userId))
    (hused : ∀ userId used, usageOf r userId = some used → Modest used)
    {secretDelta byteDelta durableSecrets durableBytes : ℤ} {expiresAt : ℕ} {effective : Bool}
    {r' : Redis} (hcareful : Careful log (.reserve userId id secretDelta byteDelta durableSecrets
      durableBytes expiresAt, effective))
    (hran : Ran limits r (.reserve userId id secretDelta byteDelta durableSecrets durableBytes
      expiresAt, effective) r') :
    Agrees r₀ (log ++ [(.reserve userId id secretDelta byteDelta durableSecrets durableBytes
      expiresAt, effective)]) r' ∧
    (effective = true → ∀ used, usageOf r' userId = some used →
      used.1 ≤ (limits userId).1 ∧ used.2 ≤ (limits userId).2) := by
  obtain ⟨hnonneg, hmodest, hdurable, hids⟩ := hcareful
  have hfresh : (ledgerOf log).find id = none := by
    rw [Option.eq_none_iff_forall_not_mem]
    intro g hg
    obtain ⟨e, he, hasks⟩ := h.asked id g hg
    exact hids e he g.userId hasks
  -- the usage from which the script counts
  let start := (usageOf r userId).getD (durableSecrets, durableBytes)
  let seeded := r.seed userId durableSecrets durableBytes
  have hseed : ∀ userId', usageOf seeded userId' =
      (usageOf r userId').or (if userId = userId' then some (durableSecrets, durableBytes) else none) := by
    intro userId'
    rw [usageOf_seed r userId hdurable]
    by_cases huser : userId' = userId
    · subst huser
      cases usageOf r userId' <;> simp
    · have hother : ¬userId = userId' := Ne.symm huser
      simp [huser, hother]
  have hstart : usageOf seeded userId = some start := by
    rw [usageOf_seed r userId hdurable, if_pos rfl]
  have hidle : ∀ {effective'}, effective' = false → Agrees r₀ (log ++ [(.reserve userId id secretDelta
      byteDelta durableSecrets durableBytes expiresAt, effective')]) seeded := by
    rintro _ rfl
    exact h.idle (seed_reservations _ _ _ _) (seed_queue _ _ _ _) rfl (fun _ => rfl) hseed
  have hreserve := @reserve_eq r id userId (secretDelta, byteDelta) (limits userId)
    (durableSecrets, durableBytes) expiresAt (hused userId) hdurable hnonneg hmodest (hlimits userId)
  rw [Ran, Script.run] at hran
  simp only [hreserve] at hran
  split at hran
  · rw [Prod.mk.injEq] at hran
    rw [← hran.2]
    exact ⟨hidle hran.1.symm, fun heffective => absurd (hran.1.trans heffective) Bool.false_ne_true⟩
  · split at hran
    · rw [Prod.mk.injEq] at hran
      rw [← hran.2]
      exact ⟨hidle hran.1.symm, fun heffective => absurd (hran.1.trans heffective) Bool.false_ne_true⟩
    · rename_i hroom hspace
      rw [Prod.mk.injEq] at hran
      obtain ⟨rfl, rfl⟩ := hran
      have husage := usageOf_put seeded userId (start.1 + secretDelta) (start.2 + byteDelta)
      constructor
      · apply h.accept hnonneg hmodest hfresh
        · simp
        · simp
        · intro userId'
          refine (husage userId').trans ?_
          rw [← hseed]
          by_cases huser : userId' = userId
          · subst huser
            simp [hstart]
          · have hother : ¬userId = userId' := Ne.symm huser
            simp [huser, hother]
      · intro _ used hfind
        have hsame := hfind.symm.trans (husage userId)
        rw [if_pos rfl, Option.some.injEq] at hsame
        subst hsame
        exact ⟨not_lt.mp hroom, not_lt.mp hspace⟩

/-- What is settled does not add to what a user holds. -/
theorem held_settle_le {amount : Grant → ℤ}
    (hamount : ∀ g fate, amount { g with fate := fate } = amount g)
    (hnonneg : ∀ g ∈ (ledgerOf log).rows, 0 ≤ amount g) {fate : Fate} (hfate : fate ≠ .pending) :
    ((ledgerOf log).settle id fate).held amount userId ≤ (ledgerOf log).held amount userId := by
  rw [held_settle hamount hfate, sub_le_self_iff]
  cases hfind : (ledgerOf log).find id with
  | none => exact le_rfl
  | some g =>
    rw [Option.elim_some]
    split
    · exact hnonneg g (Table.mem_of_find hfind)
    · exact le_rfl

/-- What a user holds is not negative. -/
theorem Agrees.held_nonneg (h : Agrees r₀ log r) (userId : UUID) :
    0 ≤ (ledgerOf log).held Grant.secretDelta userId ∧
      0 ≤ (ledgerOf log).held Grant.byteDelta userId := by
  have hall : ∀ amount : Grant → ℤ, (∀ g ∈ (ledgerOf log).rows, 0 ≤ amount g) →
      0 ≤ (ledgerOf log).held amount userId := by
    intro amount hnonneg
    apply List.sum_nonneg
    intro share hshare
    obtain ⟨g, hg, rfl⟩ := List.mem_map.mp hshare
    rw [Ledger.share]
    split
    · exact hnonneg g hg
    · exact le_rfl
  exact ⟨hall _ fun g hg => (h.nonneg g hg).1, hall _ fun g hg => (h.nonneg g hg).2⟩

end Steps

/-! ### Runs -/

/-- Users who started within their limits are within them. -/
def Within (limits : UUID → ℤ × ℤ) (r₀ : Redis) (log : List Entry) (r : Redis) : Prop :=
  ∀ userId start used, startOf r₀ log userId = some start → start ≤ limits userId →
    usageOf r userId = some used → used ≤ limits userId

/-- What the scripts add and compare is exact. -/
structure Exact (limits : UUID → ℤ × ℤ) (r₀ : Redis) (log : List Entry) (r : Redis) : Prop where
  limits : ∀ userId, Modest (limits userId)
  start : ∀ userId start, startOf r₀ log userId = some start → Modest start
  usage : ∀ userId used, usageOf r userId = some used → Modest used

section Runs
variable {limits : UUID → ℤ × ℤ} {r₀ r r' : Redis} {log : List Entry} {e : Entry}

theorem agrees_step (h : Agrees r₀ log r) (hexact : Exact limits r₀ log r) (hcareful : Careful log e)
    (hran : Ran limits r e r') : Agrees r₀ (log ++ [e]) r' := by
  rcases e with ⟨script, effective⟩
  cases script with
  | reserve => exact (h.reserve hexact.limits hexact.usage hcareful hran).1
  | commit id =>
    cases hran
    exact h.commit
  | release userId id =>
    cases hran
    exact h.release hexact.usage hcareful

/-- Only an accepted reservation adds to what its user holds. -/
theorem held_record_le (h : Agrees r₀ log r) (hcareful : Careful log e) (userId : UUID)
    (hother : ∀ id, e.1.asks = some (id, userId) → e.2 = false) {amount : Grant → ℤ}
    (hamount : ∀ g fate, amount { g with fate := fate } = amount g)
    (hnonneg : ∀ g ∈ (ledgerOf log).rows, 0 ≤ amount g) :
    (record (ledgerOf log) e).held amount userId ≤ (ledgerOf log).held amount userId := by
  rcases e with ⟨script, effective⟩
  cases script with
  | commit id => exact held_settle_le hamount hnonneg nofun
  | release userId' id => exact held_settle_le hamount hnonneg nofun
  | reserve userId' id secretDelta byteDelta durableSecrets durableBytes expiresAt =>
    cases effective with
    | false => exact le_rfl
    | true =>
      have hfresh : (ledgerOf log).find id = none := by
        rw [Option.eq_none_iff_forall_not_mem]
        intro g hg
        obtain ⟨e, he, hasks⟩ := h.asked id g hg
        exact hcareful.2.2.2 e he g.userId hasks
      have hne : userId' ≠ userId := by
        rintro rfl
        exact Bool.false_ne_true (hother id rfl).symm
      rw [record, held_put hfresh]
      simp [Ledger.share, hne]

/-- A script takes a usage up to the limits at most, or leaves it below what it was or started with. -/
theorem usage_step (h : Agrees r₀ log r) (hexact : Exact limits r₀ log r) (hcareful : Careful log e)
    (hran : Ran limits r e r') {userId : UUID} {start used : ℤ × ℤ}
    (hstart : startOf r₀ (log ++ [e]) userId = some start) (hused : usageOf r' userId = some used) :
    used ≤ limits userId ∨ used ≤ start ∨
      ∃ before, startOf r₀ log userId = some start ∧ usageOf r userId = some before ∧ used ≤ before := by
  by_cases hother : ∀ id, e.1.asks = some (id, userId) → e.2 = false
  · have husage := (agrees_step h hexact hcareful hran).usage userId
    rw [hused, hstart, Option.map_some, Option.some.injEq, ledgerOf_snoc] at husage
    have hsecrets : (record (ledgerOf log) e).held Grant.secretDelta userId ≤ _ :=
      held_record_le h hcareful userId hother (fun _ _ => rfl) fun g hg => (h.nonneg g hg).1
    have hbytes : (record (ledgerOf log) e).held Grant.byteDelta userId ≤ _ :=
      held_record_le h hcareful userId hother (fun _ _ => rfl) fun g hg => (h.nonneg g hg).2
    have hle : used ≤ (start.1 + (ledgerOf log).held Grant.secretDelta userId,
        start.2 + (ledgerOf log).held Grant.byteDelta userId) := by
      rw [husage]
      exact ⟨add_le_add_right hsecrets _, add_le_add_right hbytes _⟩
    right
    rw [startOf_snoc] at hstart
    cases hold : startOf r₀ log userId with
    | none =>
      left
      rwa [h.held_zero hold, h.held_zero hold, add_zero, add_zero] at hle
    | some start' =>
      right
      rw [hold, Option.some_or, Option.some.injEq] at hstart
      subst hstart
      exact ⟨_, rfl, by rw [h.usage, hold, Option.map_some], hle⟩
  · left
    rcases e with ⟨script, effective⟩
    push Not at hother
    obtain ⟨id, hasks, heffective⟩ := hother
    cases script with
    | reserve userId' id' =>
      simp only [Script.asks, Option.some.injEq, Prod.mk.injEq] at hasks
      obtain ⟨-, rfl⟩ := hasks
      exact (h.reserve hexact.limits hexact.usage hcareful hran).2
        (Bool.eq_true_of_not_eq_false heffective) used hused
    | commit => cases hasks
    | release => cases hasks

theorem within_step (h : Agrees r₀ log r) (hexact : Exact limits r₀ log r)
    (hwithin : Within limits r₀ log r) (hcareful : Careful log e) (hran : Ran limits r e r') :
    Within limits r₀ (log ++ [e]) r' := by
  intro userId start used hstart hlimits hused
  rcases usage_step h hexact hcareful hran hstart hused with hle | hle | ⟨before, hold, hbefore, hle⟩
  · exact hle
  · exact hle.trans hlimits
  · exact hle.trans (hwithin userId start before hold hlimits hbefore)

/-- A usage is no less than its start. -/
theorem Agrees.start_le (h : Agrees r₀ log r) {userId : UUID} {start used : ℤ × ℤ}
    (hstart : startOf r₀ log userId = some start) (hused : usageOf r userId = some used) :
    start ≤ used := by
  have husage := h.usage userId
  rw [hused, hstart, Option.map_some, Option.some.injEq] at husage
  have hheld := h.held_nonneg userId
  rw [husage]
  exact ⟨le_add_of_nonneg_right hheld.1, le_add_of_nonneg_right hheld.2⟩

/-- What lies between small numbers is small. -/
theorem Modest.between {low counts high : ℤ × ℤ} (hlow : Modest low) (hhigh : Modest high)
    (hle : low ≤ counts) (hge : counts ≤ high) : Modest counts :=
  ⟨abs_lt.mpr ⟨(abs_lt.mp hlow.secrets).1.trans_le hle.1, hge.1.trans_lt (abs_lt.mp hhigh.secrets).2⟩,
    abs_lt.mpr ⟨(abs_lt.mp hlow.bytes).1.trans_le hle.2, hge.2.trans_lt (abs_lt.mp hhigh.bytes).2⟩⟩

theorem exact_step (h : Agrees r₀ log r) (hexact : Exact limits r₀ log r) (hcareful : Careful log e)
    (hran : Ran limits r e r') : Exact limits r₀ (log ++ [e]) r' := by
  have hstarts : ∀ userId start, startOf r₀ (log ++ [e]) userId = some start → Modest start := by
    intro userId start hstart
    rw [startOf_snoc] at hstart
    cases hold : startOf r₀ log userId with
    | some start' =>
      rw [hold, Option.some_or, Option.some.injEq] at hstart
      exact hstart ▸ hexact.start userId start' hold
    | none =>
      rw [hold, Option.none_or] at hstart
      rcases e with ⟨script, effective⟩
      cases script with
      | commit => cases hstart
      | release => cases hstart
      | reserve userId' =>
        simp only [seedFor] at hstart
        split at hstart
        · cases hstart
          exact hcareful.2.2.1
        · cases hstart
  refine ⟨hexact.limits, hstarts, ?_⟩
  intro userId used hused
  have hagrees := agrees_step h hexact hcareful hran
  have hsome : startOf r₀ (log ++ [e]) userId ≠ none := by
    intro hnone
    have husage := hagrees.usage userId
    rw [hused, hnone] at husage
    cases husage
  obtain ⟨start, hstart⟩ := Option.ne_none_iff_exists'.mp hsome
  have hlow := hstarts userId start hstart
  have hle := hagrees.start_le hstart hused
  rcases usage_step h hexact hcareful hran hstart hused with hge | hge | ⟨before, -, hbefore, hge⟩
  · exact hlow.between (hexact.limits userId) hle hge
  · exact hlow.between hlow hle hge
  · exact hlow.between (hexact.usage userId before hbefore) hle hge

theorem agrees_nil (hempty : r₀.reservations = .empty) (hqueue : r₀.reservationQueue = .empty) :
    Agrees r₀ [] r₀ where
  hashes id := by
    rw [hempty]
    rfl
  queue id := by
    rw [hempty, hqueue]
    rfl
  usage userId := by
    have hstart : startOf r₀ [] userId = usageOf r₀ userId := Option.or_none
    rw [hstart]
    cases usageOf r₀ userId <;> simp [ledgerOf, Ledger.held, Table.total]
  asked id g hfind := by cases hfind
  nonneg g hg := by cases hg
  modest g hg := by cases hg
  settled id := rfl

theorem startOf_nil (userId : UUID) : startOf r₀ [] userId = usageOf r₀ userId := Option.or_none

/-- In any order of scripts Redis shows what the ledger says. -/
theorem agrees_of_trace (hempty : r₀.reservations = .empty) (hqueue : r₀.reservationQueue = .empty)
    (hlimits : ∀ userId, Modest (limits userId))
    (husage : ∀ userId used, usageOf r₀ userId = some used → Modest used)
    (trace : Trace (Ran limits) r₀ log r) (careful : Throughout Careful log) :
    Agrees r₀ log r ∧ Exact limits r₀ log r ∧ Within limits r₀ log r := by
  induction trace with
  | nil =>
    refine ⟨agrees_nil hempty hqueue, ⟨hlimits, ?_, husage⟩, ?_⟩
    · intro userId start hstart
      exact husage userId start (startOf_nil userId ▸ hstart)
    · intro userId start used hstart hle hused
      rw [startOf_nil, hused, Option.some.injEq] at hstart
      rwa [hstart]
  | snoc prior last ih =>
    obtain ⟨hagrees, hexact, hwithin⟩ := ih careful.init
    exact ⟨agrees_step hagrees hexact careful.last last, exact_step hagrees hexact careful.last last,
      within_step hagrees hexact hwithin careful.last last⟩

end Runs

/-- After any scripts in any order, on amounts, limits and first usages below 2 ^ 53, a user's usage
is what it started with and the amounts of the accepted reservations that were not released before
they were committed; each reservation has been settled at most once; the sorted set lists those that
are pending; and a usage that started within the limits has stayed between its start and them. -/
theorem quota_ledger (limits : UUID → ℤ × ℤ) {r₀ r : Redis} {log : List Entry}
    (hempty : r₀.reservations = .empty) (hqueue : r₀.reservationQueue = .empty)
    (hlimits : ∀ userId, Modest (limits userId))
    (husage : ∀ userId used, usageOf r₀ userId = some used → Modest used)
    (trace : Trace (Ran limits) r₀ log r) (careful : Throughout Careful log) :
    (∀ userId, usageOf r userId = (startOf r₀ log userId).map fun start =>
      (start.1 + (ledgerOf log).held Grant.secretDelta userId,
        start.2 + (ledgerOf log).held Grant.byteDelta userId)) ∧
    (∀ id, log.countP (Settles id) ≤ 1) ∧
    (∀ id, id ∈ r.reservationQueue.rows.map QueuedReservation.id ↔
      ∃ g, (ledgerOf log).find id = some g ∧ g.fate = .pending) ∧
    ∀ userId start used, startOf r₀ log userId = some start → start ≤ limits userId →
      usageOf r userId = some used → start ≤ used ∧ used ≤ limits userId := by
  obtain ⟨hagrees, -, hwithin⟩ := agrees_of_trace hempty hqueue hlimits husage trace careful
  refine ⟨hagrees.usage, ?_, ?_, ?_⟩
  · intro id
    rw [hagrees.settled]
    split <;> simp
  · intro id
    have hlisted : id ∈ r.reservationQueue.rows.map QueuedReservation.id ↔
        (r.reservationQueue.find id).isSome = true := by
      simp [Table.find]
    rw [hlisted, hagrees.queue, hagrees.hashes]
    cases (ledgerOf log).find id with
    | none => simp
    | some g => by_cases hpending : g.fate = .pending <;> simp [hpending]
  · intro userId start used hstart hle hused
    exact ⟨hagrees.start_le hstart hused, hwithin userId start used hstart hle hused⟩

section Sample

/-- Two secrets and ten bytes for everybody. -/
def sampleLimits : UUID → ℤ × ℤ := fun _ => (2, 10)

/-- The scripts on one list, one after the other. -/
def runAll (limits : UUID → ℤ × ℤ) (log : List Entry) (r : Redis) : List Script → List Entry × Redis
  | [] => (log, r)
  | script :: rest =>
    runAll limits (log ++ [(script, (script.run limits r).1)]) (script.run limits r).2 rest

theorem trace_runAll {limits : UUID → ℤ × ℤ} {r₀ r : Redis} {log : List Entry}
    (trace : Trace (Ran limits) r₀ log r) (scripts : List Script) :
    Trace (Ran limits) r₀ (runAll limits log r scripts).1 (runAll limits log r scripts).2 := by
  induction scripts generalizing log r with
  | nil => exact trace
  | cons script rest ih => exact ih (trace.snoc rfl)

/-- A reservation that is released after its commit, one that is released twice, a third that is
too large, and a fourth. -/
def sampleScripts : List Script :=
  [.reserve 1 10 1 4 1 2 600, .commit 10, .release 1 10, .reserve 1 11 0 3 0 0 600, .release 1 11,
    .release 1 11, .reserve 1 12 0 8 0 0 600, .reserve 1 13 0 4 0 0 600]

def sampleLog : List Entry := (runAll sampleLimits [] .empty sampleScripts).1

theorem careful_sampleLog : Throughout Careful sampleLog := by
  have hlog : sampleLog = [(.reserve 1 10 1 4 1 2 600, true), (.commit 10, true),
      (.release 1 10, false), (.reserve 1 11 0 3 0 0 600, true), (.release 1 11, true),
      (.release 1 11, false), (.reserve 1 12 0 8 0 0 600, false),
      (.reserve 1 13 0 4 0 0 600, true)] := by decide +kernel
  rw [hlog]
  refine Throughout.snoc (.snoc (.snoc (.snoc (.snoc (.snoc (.snoc (.snoc throughout_nil
    ?_) ?_) ?_) ?_) ?_) ?_) ?_) ?_ <;> simp [Careful, Script.asks, modest_iff, Small]

theorem quota_ledger_sample :
    usageOf (runAll sampleLimits [] .empty sampleScripts).2 1 = some (1 + 1, 2 + 8) ∧
      ∀ id, sampleLog.countP (Settles id) ≤ 1 := by
  obtain ⟨husage, hsettled, -⟩ := quota_ledger sampleLimits rfl rfl
    (fun _ => (by decide : Modest (2, 10))) (fun _ _ h => by cases h)
    (trace_runAll .nil sampleScripts) careful_sampleLog
  refine ⟨(husage 1).trans ?_, hsettled⟩
  decide +kernel

/-- As many bytes as doubles tell apart. -/
def wideLimits : UUID → ℤ × ℤ := fun _ => (2, 2 ^ 53)

/-- A byte more than the limit: its sum with the usage is rounded down to the limit, and the usage
grows by the byte all the same. -/
def passingScript : Script := .reserve 1 10 0 1 0 (2 ^ 53) 600

theorem limit_passed : ∃ log r, Trace (Ran wideLimits) .empty log r ∧
    log = [(passingScript, true)] ∧ startOf .empty log 1 = some (0, 2 ^ 53) ∧
    (0, 2 ^ 53) ≤ wideLimits 1 ∧ usageOf r 1 = some (0, 2 ^ 53 + 1) ∧
    ¬((0, 2 ^ 53 + 1) : ℤ × ℤ) ≤ wideLimits 1 := by
  refine ⟨_, _, trace_runAll .nil [passingScript], ?_⟩
  decide +kernel

end Sample

end PhantomShare.Quotas
