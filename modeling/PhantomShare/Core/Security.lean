import PhantomShare.World

/-!
# Tokens and permissions

The functions of `security.py` and `permissions.py`: access, refresh and share
tokens, the user of a request, and who may manage a secret.
-/
namespace PhantomShare
open Foundations

structure CurrentUser where
  id : UUID
  email : String
  role : Role
  isActive : Bool
  isVerified : Bool
  deriving DecidableEq, Repr

namespace Security
variable (P : Platform)

/-- `create_access_token`. -/
def createAccessToken (userId : UUID) (role : Role) (sessionId jti : UUID) (now : Timestamp) :
    String :=
  P.jwtEncode
    { sub := some (P.uuidText userId)
      role := some (match role with | .admin => "admin" | .user => "user" | .readonly => "readonly")
      sid := some (P.uuidText sessionId)
      jti := jti
      exp := now + minutes P.settings.jwtAccessTokenExpireMinutes
      iat := now
      type := "access" }

/-- The payload of `create_refresh_token`. -/
def refreshClaims (userId sessionId jti : UUID) (now : Timestamp) : Claims where
  sub := some (P.uuidText userId)
  role := none
  sid := some (P.uuidText sessionId)
  jti := jti
  exp := now + days P.settings.jwtRefreshTokenExpireDays
  iat := now
  type := "refresh"

/-- `decode_token`. -/
def decodeToken (token : String) (now : Timestamp) : Except Exn Claims :=
  match P.jwtDecode token now with
  | some claims => .ok claims
  | none => .error (httpError 401 "Invalid or expired token.")

/-- A text parameter compared with a UUID column. -/
def castUuid (text : String) : Except Exn UUID :=
  match P.parseUuid text with
  | some id => .ok id
  | none => .error (.sql .invalidTextRepresentation)

theorem castUuid_ok {text : String} {id : UUID} (h : castUuid P text = .ok id) :
    P.parseUuid text = some id := by
  unfold castUuid at h
  cases hparse : P.parseUuid text with
  | none => simp [hparse] at h
  | some other =>
    simp only [hparse, Except.ok.injEq] at h
    rw [h]

/-- `get_current_user`, given the credentials of the bearer header. -/
def getCurrentUser (credentials : Option String) : Handler CurrentUser := do
  let some token := credentials | throw (httpError 401 "Not authenticated")
  let now ← clock
  let payload ← liftExcept (decodeToken P token now)
  raiseIf (payload.type ≠ "access") (httpError 401 "Wrong token type")
  let some sub := payload.sub | throw (httpError 401 "Invalid user ID")
  raiseIf (sub = "") (httpError 401 "Invalid user ID")
  let some sid := payload.sid | throw (httpError 401 "Invalid or expired token")
  raiseIf (sid = "") (httpError 401 "Invalid or expired token")
  let userId ← liftExcept (castUuid P sub)
  let sessionId ← liftExcept (castUuid P sid)
  let row ← query .currentUser fun now db =>
    match db.users.find userId, db.sessions.find sessionId with
    | some user, some session =>
      if session.userId = userId ∧ session.revoked = false ∧ now < session.expiresAt then
        some user
      else none
    | _, _ => none
  let some user := row
    | throw (httpError 401 "Session revoked, expired, or user inactive")
  raiseIf (!user.isActive) (httpError 401 "Session revoked, expired, or user inactive")
  return ⟨user.id, user.email, user.role, user.isActive, user.isVerified⟩

/-! ### Share tokens -/

/-- `create_signed_token`, given the expiry in seconds. -/
def createSignedToken (secretId : UUID) (ts policyVersion : ℕ) : String :=
  let payload := s!"{P.uuidText secretId}.{ts}.{policyVersion}"
  s!"{payload}.{P.hmacSha256Hex P.settings.signedUrlSecret payload}"

/-- `str.split(sep, n)`. -/
def split (sep : Char) : ℕ → List Char → List (List Char)
  | 0, text => [text]
  | n + 1, text =>
    match text.span (· ≠ sep) with
    | (part, []) => [part]
    | (part, _ :: rest) => part :: split sep n rest

/-- `str.rsplit(sep, n)`. -/
def rsplit (sep : Char) (n : ℕ) (text : List Char) : List (List Char) :=
  ((split sep n text.reverse).map List.reverse).reverse

/-- What `verify_signed_token` reads off a token. -/
structure SignedToken where
  secretId : String
  ts : String
  policyVersion : ℤ
  payload : String
  sig : String

/-- Tokens issued before location policies existed map to policy version 1. -/
def parseSignedToken (token : String) : Option SignedToken :=
  match (rsplit '.' 3 token.toList).map String.ofList with
  | [secretId, ts, policy, sig] =>
    (P.parseInt policy).map fun version =>
      ⟨secretId, ts, version, s!"{secretId}.{ts}.{version}", sig⟩
  | [secretId, ts, sig] => some ⟨secretId, ts, 1, s!"{secretId}.{ts}", sig⟩
  | _ => none

/-- `verify_signed_token`. -/
def verifySignedToken (token : String) (expectedPolicyVersion : ℕ) (now : Timestamp) :
    Except Exn String := do
  let some parts := parseSignedToken P token | throw (httpError 403 "Invalid share token")
  let some ts := P.parseInt parts.ts | throw (httpError 403 "Invalid share token")
  if ts * second < now then throw (httpError 403 "Share token has expired")
  if parts.sig.toList.any fun c => 128 ≤ c.toNat then
    throw (.typeError "comparing strings with non-ASCII characters is not supported")
  if parts.sig ≠ P.hmacSha256Hex P.settings.signedUrlSecret parts.payload then
    throw (httpError 403 "Invalid share token signature")
  if parts.policyVersion ≠ expectedPolicyVersion then
    throw (httpError 403 "Share token policy is no longer current")
  return parts.secretId

/-- What the verification of a token comes down to. -/
theorem verifySignedToken_ok_iff {token text : String} {version : ℕ} {now : Timestamp} :
    verifySignedToken P token version now = .ok text ↔
      ∃ parts ts, parseSignedToken P token = some parts ∧ P.parseInt parts.ts = some ts ∧
        now ≤ ts * second ∧ (parts.sig.toList.any fun c => 128 ≤ c.toNat) = false ∧
        parts.sig = P.hmacSha256Hex P.settings.signedUrlSecret parts.payload ∧
        parts.policyVersion = version ∧ text = parts.secretId := by
  unfold verifySignedToken
  cases hparts : parseSignedToken P token with
  | none => simp [throw, throwThe, MonadExceptOf.throw]
  | some parts =>
    cases hts : P.parseInt parts.ts with
    | none => simp [hts, throw, throwThe, MonadExceptOf.throw]
    | some ts =>
      simp only [hts, Option.some.injEq, exists_and_left, exists_eq_left']
      constructor
      · intro h
        split at h
        · cases h
        split at h
        · cases h
        split at h
        · cases h
        split at h
        · cases h
        rename_i hexpired hascii hsig hversion
        cases h
        exact ⟨by omega, by simpa using hascii, by simpa using hsig, by simpa using hversion, rfl⟩
      · rintro ⟨hlive, hascii, hsig, hversion, rfl⟩
        rw [if_neg (by omega), if_neg (by simpa using hascii), if_neg (by simpa using hsig),
          if_neg (by simpa using hversion)]
        rfl

/-- `UUID(text)`. -/
def uuidOfText (text : String) : Except Exn UUID :=
  match P.parseUuid text with
  | some id => .ok id
  | none => .error (.valueError "badly formed hexadecimal UUID string")

/-! ### Permissions -/

/-- The dependency that `_require_role` makes, given the current user. -/
def requireRole (minimum : Role) (user : CurrentUser) : Except Exn CurrentUser :=
  if !user.isActive then .error (httpError 403 "Account is deactivated")
  else if user.role.value < minimum.value then
    .error (httpError 403 s!"Requires '{minimum.name}' role or higher")
  else .ok user

theorem requireRole_ok {minimum : Role} {user admitted : CurrentUser}
    (h : requireRole minimum user = .ok admitted) :
    admitted = user ∧ user.isActive = true ∧ minimum.value ≤ user.role.value := by
  unfold requireRole at h
  split at h
  · cases h
  split at h
  · cases h
  rename_i hactive hrole
  cases h
  exact ⟨rfl, by simpa using hactive, by omega⟩

/-- `Depends(require_user)`. -/
def requireUser (credentials : Option String) : Handler CurrentUser := do
  let user ← getCurrentUser P credentials
  liftExcept (requireRole .user user)

/-- `get_current_user_optional`: whoever is refused is anonymous. -/
def getCurrentUserOptional (credentials : Option String) : Handler (Option CurrentUser) :=
  if credentials.isNone then pure none
  else
    tryCatch (some <$> getCurrentUser P credentials) fun error =>
      match error with
      | .http status _ => if status = 401 ∨ status = 403 then pure none else throw error
      | _ => throw error

/-- `require_owns_secret`. -/
def requireOwnsSecret (ownerId : Option UUID) (user : CurrentUser) : Except Exn Unit :=
  if Role.admin.value ≤ user.role.value then .ok ()
  else
    match ownerId with
    | none =>
      .error (httpError 403 "This secret was created anonymously and cannot be managed")
    | some owner =>
      if owner = user.id then .ok ()
      else .error (httpError 403 "You do not have permission to access this secret")

end Security
end PhantomShare
