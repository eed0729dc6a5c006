import PhantomShare.Foundations.Log
import PhantomShare.Routers.EmailVerification

/-!
# The record of stored and redeemed codes

The effects that transactions committed, in their order, explain the challenges: each
row is what its user's last request stored, and its code has not been redeemed. Every
effect that a transaction may commit keeps the record in this shape.
-/
namespace PhantomShare.EmailVerification
open Foundations
open Listings (UserRow)

section Tables
variable (t : Tables) (id userId other : UUID)

/-- When a row is the same in two states of the tables. -/
def SameRow : Row → Tables → Tables → Prop
  | .user id, t, t' => t.users.find id = t'.users.find id
  | .challenge userId, t, t' => t.challenges.find userId = t'.challenges.find userId

theorem find_deleteChallenge : (t.deleteChallenge userId).challenges.find other =
    if other = userId then none else t.challenges.find other := by
  rw [Tables.deleteChallenge, Table.find_deleteWhere]
  cases hfind : t.challenges.find other with
  | none => simp
  | some row =>
    have hkey : row.userId = other := Table.key_of_find hfind
    by_cases hother : other = userId <;> simp [hkey, hother]

theorem find_deleteUser : (t.deleteUser id).users.find other =
    if other = id then none else t.users.find other := by
  rw [Tables.deleteUser, Table.find_deleteWhere]
  cases hfind : t.users.find other with
  | none => simp
  | some row =>
    have hkey : UserRow.key row = other := Table.key_of_find hfind
    rw [UserRow.key] at hkey
    by_cases hother : other = id <;> simp [hkey, hother]

theorem find_verifyUser : (t.verifyUser id).users.find other =
    if other = id then (t.users.find id).map UserRow.verify else t.users.find other :=
  Table.find_modify t.users id UserRow.verify (fun _ => rfl) other

theorem find_register (row : UserRow) : (t.apply (.register row)).users.find other =
    if other = row.id ∧ t.users.find row.id = none then some row else t.users.find other := by
  simp only [Tables.apply]
  cases hinsert : t.users.insert row with
  | none =>
    have htaken : t.users.find row.id ≠ none := by
      intro hfree
      obtain ⟨users, husers⟩ := Table.insert_of_fresh hfree
      rw [hinsert] at husers
      cases husers
    simp [htaken]
  | some users =>
    have hfree : t.users.find row.id = none := (Table.insert_eq_some hinsert).1
    have hfind := Table.find_of_insert hinsert other
    by_cases hother : other = row.id <;> simp_all [UserRow.key]

theorem challenges_register (row : UserRow) :
    (t.apply (.register row)).challenges = t.challenges := by
  simp only [Tables.apply]
  cases t.users.insert row <;> rfl

end Tables

def lockedRows : Transactions.Rows Row Effect Tables where
  apply := Tables.apply
  rows := Effect.rows
  same := SameRow
  same_refl row t := by cases row <;> rfl
  same_trans {row} _ _ _ hab hbc := by cases row <;> exact hab.trans hbc
  same_apply {row e} t h := by
    cases row with
    | user id =>
      cases e <;> simp only [Effect.rows, List.mem_cons, Row.user.injEq, reduceCtorEq,
        List.not_mem_nil, or_false] at h
      case register row => exact ((find_register t id row).trans (if_neg fun h' => h h'.1)).symm
      case verify userId => exact ((find_verifyUser t userId id).trans (if_neg h)).symm
      case removeUser userId => exact ((find_deleteUser t userId id).trans (if_neg h)).symm
      all_goals rfl
    | challenge userId =>
      cases e <;> simp only [Effect.rows, List.mem_cons, Row.challenge.injEq, reduceCtorEq,
        List.not_mem_nil, or_false, false_or] at h
      case register row => exact congrArg (·.find userId) (challenges_register t row).symm
      case store row code => exact ((Table.find_put t.challenges row userId).trans (if_neg h)).symm
      case redeem row code time =>
        exact ((find_deleteChallenge t row.userId userId).trans (if_neg h)).symm
      case removeChallenge user =>
        exact ((find_deleteChallenge t user userId).trans (if_neg h)).symm
      all_goals rfl

/-! ### Codes -/

/-- What an effect stores for a user. -/
def storedFor (userId : UUID) : ℕ × Effect → Option (Challenge × String)
  | (_, .store row code) => if row.userId = userId then some (row, code) else none
  | _ => none

/-- The challenge that a user's last committed request stored, with its code. -/
def latest (userId : UUID) (history : List (ℕ × Effect)) : Option (Challenge × String) :=
  (history.filterMap (storedFor userId)).getLast?

def storedCode : ℕ × Effect → Option String
  | (_, .store _ code) => some code
  | _ => none

def redeemedCode : ℕ × Effect → Option String
  | (_, .redeem _ code _) => some code
  | _ => none

def storedCodes (history : List (ℕ × Effect)) : List String := history.filterMap storedCode

def redeemedCodes (history : List (ℕ × Effect)) : List String := history.filterMap redeemedCode

section Codes
variable {userId : UUID} {row : Challenge} {code : String} {history : List (ℕ × Effect)} {p : ℕ}
  {time : Timestamp} {e : Effect}

theorem mem_of_latest (h : latest userId history = some (row, code)) :
    ∃ p, (p, .store row code) ∈ history ∧ row.userId = userId := by
  obtain ⟨⟨p, e⟩, hmem, hstored⟩ := List.mem_filterMap.mp (List.mem_of_getLast? h)
  cases e with
  | store row' code' =>
    simp only [storedFor] at hstored
    split at hstored
    · rename_i huser
      cases hstored
      exact ⟨p, hmem, huser⟩
    · cases hstored
  | _ => cases hstored

theorem mem_storedCodes (h : (p, .store row code) ∈ history) : code ∈ storedCodes history :=
  List.mem_filterMap.mpr ⟨_, h, rfl⟩

theorem latest_store : latest userId (history ++ [(p, .store row code)]) =
    if row.userId = userId then some (row, code) else latest userId history := by
  by_cases huser : row.userId = userId <;> simp [latest, storedFor, huser]

theorem storedCodes_store :
    storedCodes (history ++ [(p, .store row code)]) = storedCodes history ++ [code] := by
  simp [storedCodes, storedCode]

theorem redeemedCodes_store :
    redeemedCodes (history ++ [(p, .store row code)]) = redeemedCodes history := by
  simp [redeemedCodes, redeemedCode]

theorem latest_redeem :
    latest userId (history ++ [(p, .redeem row code time)]) = latest userId history := by
  simp [latest, storedFor]

theorem storedCodes_redeem :
    storedCodes (history ++ [(p, .redeem row code time)]) = storedCodes history := by
  simp [storedCodes, storedCode]

theorem redeemedCodes_redeem :
    redeemedCodes (history ++ [(p, .redeem row code time)]) = redeemedCodes history ++ [code] := by
  simp [redeemedCodes, redeemedCode]

/-- Neither stores nor redeems a code. -/
def Effect.Codeless : Effect → Prop
  | .store _ _ | .redeem _ _ _ => False
  | _ => True

theorem latest_codeless (h : e.Codeless) :
    latest userId (history ++ [(p, e)]) = latest userId history := by
  cases e <;> first | exact h.elim | simp [latest, storedFor]

theorem storedCodes_codeless (h : e.Codeless) :
    storedCodes (history ++ [(p, e)]) = storedCodes history := by
  cases e <;> first | exact h.elim | simp [storedCodes, storedCode]

theorem redeemedCodes_codeless (h : e.Codeless) :
    redeemedCodes (history ++ [(p, e)]) = redeemedCodes history := by
  cases e <;> first | exact h.elim | simp [redeemedCodes, redeemedCode]

theorem challenge_of_codeless {t : Tables} (h : e.Codeless)
    (hfind : (t.apply e).challenges.find userId = some row) :
    t.challenges.find userId = some row := by
  cases e with
  | register user => rwa [challenges_register] at hfind
  | verify id => exact hfind
  | removeUser id => exact hfind
  | removeChallenge other =>
    have hdelete := (find_deleteChallenge t other userId).symm.trans hfind
    split at hdelete
    · cases hdelete
    · exact hdelete
  | store _ _ => exact h.elim
  | redeem _ _ _ => exact h.elim

end Codes

/-! ### The record -/

/-- The row holds the hash of the code for a quarter of an hour. -/
structure Sealed (P : Platform) (row : Challenge) (code : String) : Prop where
  hash : row.tokenHash = P.sha256Hex code
  expiry : row.expiresAt = row.requestedAt + minutes 15

structure Record (P : Platform) (codes : List (String × ℕ)) (history : List (ℕ × Effect))
    (t : Tables) : Prop where
  stored : ∀ p row code, (p, .store row code) ∈ history → Sealed P row code ∧ (code, p) ∈ codes
  found : ∀ userId row, t.challenges.find userId = some row →
    ∃ code, latest userId history = some (row, code) ∧ code ∉ redeemedCodes history
  redeemed : redeemedCodes history ⊆ storedCodes history
  storedOnce : (storedCodes history).Nodup
  redeemedOnce : (redeemedCodes history).Nodup

namespace Record
variable {P : Platform} {codes codes' : List (String × ℕ)} {history : List (ℕ × Effect)}
  {t : Tables} {p : ℕ} {row : Challenge} {code : String} {time : Timestamp} {e : Effect}

theorem mono (h : Record P codes history t) (hcodes : codes ⊆ codes') :
    Record P codes' history t :=
  { h with
    stored p row code hmem := by
      obtain ⟨hsealed, hissued⟩ := h.stored p row code hmem
      exact ⟨hsealed, hcodes hissued⟩ }

theorem codeless (h : Record P codes history t) (he : e.Codeless) :
    Record P codes (history ++ [(p, e)]) (t.apply e) where
  stored q row code hmem := by
    apply h.stored q row code
    rcases List.mem_append.mp hmem with hold | hnew
    · exact hold
    · cases List.mem_singleton.mp hnew
      exact he.elim
  found userId row hfind := by
    rw [latest_codeless he, redeemedCodes_codeless he]
    exact h.found userId row (challenge_of_codeless he hfind)
  redeemed := by
    rw [storedCodes_codeless he, redeemedCodes_codeless he]
    exact h.redeemed
  storedOnce := by
    rw [storedCodes_codeless he]
    exact h.storedOnce
  redeemedOnce := by
    rw [redeemedCodes_codeless he]
    exact h.redeemedOnce

/-- A request stores a code that was not stored before. -/
theorem store (h : Record P codes history t) (hsealed : Sealed P row code)
    (hissued : (code, p) ∈ codes) (hfresh : code ∉ storedCodes history) :
    Record P codes (history ++ [(p, .store row code)]) (t.apply (.store row code)) where
  stored q row' code' hmem := by
    rcases List.mem_append.mp hmem with hold | hnew
    · exact h.stored q row' code' hold
    · cases List.mem_singleton.mp hnew
      exact ⟨hsealed, hissued⟩
  found userId row' hfind := by
    rw [latest_store, redeemedCodes_store]
    have hput := (Table.find_put t.challenges row userId).symm.trans hfind
    by_cases huser : row.userId = userId
    · rw [if_pos huser.symm] at hput
      cases hput
      exact ⟨code, if_pos huser, fun hmem => hfresh (h.redeemed hmem)⟩
    · rw [if_neg (Ne.symm huser)] at hput
      obtain ⟨code', hlatest, hopen⟩ := h.found userId row' hput
      exact ⟨code', (if_neg huser).trans hlatest, hopen⟩
  redeemed := by
    rw [storedCodes_store, redeemedCodes_store]
    exact List.subset_append_of_subset_left _ h.redeemed
  storedOnce := by
    rw [storedCodes_store]
    exact h.storedOnce.append (List.nodup_singleton _) (by simpa using hfresh)
  redeemedOnce := by
    rw [redeemedCodes_store]
    exact h.redeemedOnce

section Redemption
variable (hP : Function.Injective P.sha256Hex)
include hP

/-- The code that matches the hash of a challenge is the one that its user's last request stored. -/
theorem latest_of_hash (h : Record P codes history t)
    (hfind : t.challenges.find row.userId = some row) (hhash : row.tokenHash = P.sha256Hex code) :
    latest row.userId history = some (row, code) ∧ Sealed P row code ∧
      code ∉ redeemedCodes history := by
  obtain ⟨code', hlatest, hopen⟩ := h.found _ row hfind
  obtain ⟨q, hmem, _⟩ := mem_of_latest hlatest
  obtain ⟨hsealed, _⟩ := h.stored q row code' hmem
  have hcode : code' = code := hP (hsealed.hash.symm.trans hhash)
  subst hcode
  exact ⟨hlatest, hsealed, hopen⟩

theorem redeem (h : Record P codes history t)
    (hfind : t.challenges.find row.userId = some row) (hhash : row.tokenHash = P.sha256Hex code) :
    Record P codes (history ++ [(p, .redeem row code time)]) (t.apply (.redeem row code time)) := by
  obtain ⟨hlatest, _, hopen⟩ := h.latest_of_hash hP hfind hhash
  obtain ⟨q, hmem, _⟩ := mem_of_latest hlatest
  constructor
  · intro q' row' code' hmem'
    apply h.stored q' row' code'
    simpa using hmem'
  · intro userId row' hfind'
    have hdelete := (find_deleteChallenge t row.userId userId).symm.trans hfind'
    by_cases huser : userId = row.userId
    · rw [if_pos huser] at hdelete
      cases hdelete
    · rw [if_neg huser] at hdelete
      obtain ⟨code', hlatest', hopen'⟩ := h.found userId row' hdelete
      obtain ⟨q', hmem', huser'⟩ := mem_of_latest hlatest'
      rw [latest_redeem, redeemedCodes_redeem]
      refine ⟨code', hlatest', ?_⟩
      -- Two users' codes differ, since a code is stored once.
      rw [List.mem_append, List.mem_singleton, not_or]
      refine ⟨hopen', ?_⟩
      rintro rfl
      have hsame := eq_of_filterMap_nodup h.storedOnce hmem hmem' rfl rfl
      cases hsame
      exact huser huser'.symm
  · rw [storedCodes_redeem, redeemedCodes_redeem]
    apply List.append_subset.mpr ⟨h.redeemed, _⟩
    intro code' hcode'
    rw [List.mem_singleton.mp hcode']
    exact mem_storedCodes hmem
  · rw [storedCodes_redeem]
    exact h.storedOnce
  · rw [redeemedCodes_redeem]
    exact h.redeemedOnce.append (List.nodup_singleton _) (by simpa using hopen)

end Redemption
end Record
end PhantomShare.EmailVerification
