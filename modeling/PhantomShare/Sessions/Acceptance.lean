import PhantomShare.Operations
import PhantomShare.Core.Security

/-!
# When a token is accepted

`get_current_user` decodes a token against one reading of the clock and reads the
user and the session in a later step. What it returns is decided in the state of
that step.
-/
namespace PhantomShare.Sessions
open Foundations

/-- The token is, or was at some time, an access token of the user and the session. -/
def Names (P : Platform) (token : String) (userId sessionId : UUID) : Prop :=
  ∃ time claims sub sid, P.jwtDecode token time = some claims ∧ claims.type = "access" ∧
    claims.sub = some sub ∧ sub ≠ "" ∧ claims.sid = some sid ∧ sid ≠ "" ∧
    P.parseUuid sub = some userId ∧ P.parseUuid sid = some sessionId

/-- The session is there, belongs to the user and is neither revoked nor expired, and the user is
active. -/
structure Admits (userId sessionId : UUID) (w : World) : Prop where
  user : ∃ u, w.db.users.find userId = some u ∧ u.isActive = true
  session : ∃ s, w.db.sessions.find sessionId = some s ∧ s.userId = userId ∧
    s.revoked = false ∧ w.now < s.expiresAt

/-- In this state a request may find itself authenticated by the token, whenever it read the
clock. -/
def Accepts (P : Platform) (token : String) (w : World) : Prop :=
  ∃ before user, (Security.getCurrentUser P (some token)).Returns [before, w] user

section Accepts
variable {P : Platform} {token : String} {w : World}

theorem decodeToken_ok {now : Timestamp} {claims : Claims} :
    Security.decodeToken P token now = .ok claims ↔ P.jwtDecode token now = some claims := by
  unfold Security.decodeToken
  cases P.jwtDecode token now <;> simp

theorem castUuid_ok_iff {text : String} {id : UUID} :
    Security.castUuid P text = .ok id ↔ P.parseUuid text = some id := by
  unfold Security.castUuid
  cases P.parseUuid text <;> simp

/-- The query of `get_current_user`. -/
def currentUserRow (userId sessionId : UUID) (now : Timestamp) (db : Database) : Option User :=
  match db.users.find userId, db.sessions.find sessionId with
  | some user, some session =>
    if session.userId = userId ∧ session.revoked = false ∧ now < session.expiresAt then some user
    else none
  | _, _ => none

theorem find_of_currentUserRow {userId sessionId : UUID} {now : Timestamp} {db : Database} {u : User}
    (h : currentUserRow userId sessionId now db = some u) : db.users.find userId = some u := by
  unfold currentUserRow at h
  cases huser : db.users.find userId with
  | none => simp [huser] at h
  | some user =>
    cases hsession : db.sessions.find sessionId with
    | none => simp [huser, hsession] at h
    | some session =>
      simp only [huser, hsession, Option.ite_none_right_eq_some] at h
      exact h.2

theorem admits_iff {userId sessionId : UUID} : Admits userId sessionId w ↔
    ∃ u, currentUserRow userId sessionId w.now w.db = some u ∧ u.isActive = true := by
  unfold currentUserRow
  constructor
  · rintro ⟨⟨u, huser, hactive⟩, s, hsession, hvalid⟩
    rw [huser, hsession]
    exact ⟨u, if_pos hvalid, hactive⟩
  · rintro ⟨u, hrow, hactive⟩
    cases huser : w.db.users.find userId with
    | none => simp [huser] at hrow
    | some user =>
      cases hsession : w.db.sessions.find sessionId with
      | none => simp [huser, hsession] at hrow
      | some session =>
        simp only [huser, hsession, Option.ite_none_right_eq_some, Option.some.injEq] at hrow
        exact ⟨⟨user, huser, hrow.2 ▸ hactive⟩, session, hsession, hrow.1⟩

/-- What becomes of the row that the query finds. -/
def admission (row : Option User) : Handler CurrentUser := do
  let some user := row
    | throw (httpError 401 "Session revoked, expired, or user inactive")
  raiseIf (!user.isActive) (httpError 401 "Session revoked, expired, or user inactive")
  return ⟨user.id, user.email, user.role, user.isActive, user.isVerified⟩

/-- A token is accepted where its session admits its user. -/
theorem accepts_iff :
    Accepts P token w ↔ ∃ userId sessionId, Names P token userId sessionId ∧
      Admits userId sessionId w := by
  unfold Accepts Security.getCurrentUser
  simp only [returns_clock_bind, returns_liftExcept_bind, returns_raiseIf_bind, decodeToken_ok,
    decide_eq_false_iff_not, not_not]
  constructor
  · rintro ⟨before, user, claims, hdecode, htype, h⟩
    rcases hsub : claims.sub with _ | sub
    · simp [hsub] at h
    rcases hsid : claims.sid with _ | sid
    · simp [hsub, hsid] at h
    simp only [hsub, hsid, returns_raiseIf_bind, returns_liftExcept_bind, returns_query_bind,
      castUuid_ok_iff, decide_eq_false_iff_not] at h
    rcases h with ⟨hsub', hsid', userId, huser, sessionId, hsession, h⟩
    change Program.Returns (admission (currentUserRow userId sessionId w.now w.db)) [] user at h
    cases hrow : currentUserRow userId sessionId w.now w.db with
    | none => simp [hrow, admission] at h
    | some u =>
      simp only [hrow, admission, returns_raiseIf_bind, Bool.not_eq_false'] at h
      exact ⟨userId, sessionId,
        ⟨before.now, claims, sub, sid, hdecode, htype, hsub, hsub', hsid, hsid', huser, hsession⟩,
        admits_iff.mpr ⟨u, hrow, h.1⟩⟩
  · rintro ⟨userId, sessionId, ⟨time, claims, sub, sid, hdecode, htype, hsub, hsub', hsid, hsid',
      huser, hsession⟩, hadmits⟩
    rcases admits_iff.mp hadmits with ⟨u, hrow, hactive⟩
    refine ⟨w.setNow time, ⟨u.id, u.email, u.role, u.isActive, u.isVerified⟩, claims, hdecode, htype,
      ?_⟩
    simp only [hsub, hsid, returns_raiseIf_bind, returns_liftExcept_bind, returns_query_bind,
      castUuid_ok_iff, decide_eq_false_iff_not]
    refine ⟨hsub', hsid', userId, huser, sessionId, hsession, ?_⟩
    change Program.Returns (admission (currentUserRow userId sessionId w.now w.db)) [] _
    rw [hrow]
    simp [admission, hactive]

end Accepts
end PhantomShare.Sessions
