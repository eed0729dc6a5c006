import PhantomShare.Core.Security
import PhantomShare.Services.AuditAndLocation

/-!
# Login, refresh and logout

The sessions table is read and written statement by statement. An `UPDATE`
that revokes a session locks the row, and its trigger deletes it; both become
visible to others when the transaction commits. A second `UPDATE` of a locked
row waits, and then sees what the first transaction left.
-/
namespace PhantomShare
open Foundations
open Security

structure TokenResponse where
  accessToken : String
  refreshToken : String
  deriving DecidableEq, Repr

namespace Auth
variable (P : Platform)

/-! ### Statements on `sessions` -/

def sessionByHash (hash : String) (db : Database) : Option Session :=
  db.sessions.rows.find? fun s => s.refreshTokenHash = hash

/-- The checks of `INSERT INTO sessions`. -/
def checkSession (row : Session) (db : Database) : Except Exn Unit := do
  require (db.hasUser row.userId) .foreignKeyViolation
  require (db.sessions.rows.all fun s =>
    s.id != row.id && s.refreshTokenHash != row.refreshTokenHash) .uniqueViolation

/-- The columns of a new session; `%s::inet` may refuse the client address. -/
def newSession (id userId : UUID) (hash userAgent clientIp : String) (now expiresAt : Timestamp) :
    Except Exn Session :=
  match inet clientIp with
  | none => .error (.sql .invalidTextRepresentation)
  | some address =>
    .ok ⟨id, userId, hash, String.ofList (userAgent.toList.take 256), some address, now, expiresAt, false⟩

def insertSession (row : Session) (db : Database) : Except Exn Database := do
  checkSession row db
  let sessions ← insertRow db.sessions row
  return { db with sessions := sessions }

/-- Forget what the open transaction of a process did. -/
def discardWork (pid : ℕ) (w : World) : World :=
  { w with
    sessionLocks := w.sessionLocks.filter fun lock => lock.2 ≠ pid
    sessionInserts := w.sessionInserts.filter fun entry => entry.2 ≠ pid }

/-- `UPDATE sessions SET revoked = TRUE WHERE …`, with its row count. It waits while another
transaction holds the row. -/
def revokeSession (label : Label) (wanted : Session → Bool) : Handler ℕ :=
  Program.perform label fun pid w choice =>
    if choice.fails then some (w, .error .unavailable)
    else
      match w.db.sessions.rows.find? wanted with
      | none => some (w, .ok 0)
      | some row =>
        if w.sessionLocks.any fun lock => lock.1 = row.id ∧ lock.2 ≠ pid then none
        else some ({ w with sessionLocks := w.sessionLocks ++ [(row.id, pid)] }, .ok 1)

/-- `INSERT INTO sessions` inside an open transaction. -/
def insertSessionStatement (hash : String) (row : Timestamp → Except Exn Session) : Handler Unit :=
  Program.perform (.insertSession hash) fun pid w choice =>
    if choice.fails then some (w, .error .unavailable)
    else
      match row w.now with
      | .error error => some (w, .error error)
      | .ok session =>
        match checkSession session w.db with
        | .error error => some (w, .error error)
        | .ok () => some ({ w with sessionInserts := w.sessionInserts ++ [(session, pid)] }, .ok ())

/-- The rows that the open transaction of `pid` inserted. -/
def ownInserts (pid : ℕ) (w : World) : List Session :=
  (w.sessionInserts.filter fun entry => entry.2 = pid).map Prod.fst

/-- The state of `sessions` after the open transaction of `pid` commits. -/
def committedSessions (pid : ℕ) (w : World) : Except Exn (Table Session.id) :=
  let kept := w.db.sessions.deleteWhere fun s =>
    w.sessionLocks.any fun lock => lock.1 = s.id ∧ lock.2 = pid
  (ownInserts pid w).foldlM insertRow kept

def commitSession (label : Label) : Handler Unit :=
  Program.perform label fun pid w choice =>
    if choice.fails then some (w, .error .unavailable)
    else
      match committedSessions pid w with
      | .error error => some (w, .error error)
      | .ok sessions =>
        some (discardWork pid (w.commit pid label { w.db with sessions := sessions }), .ok ())

def rollbackSession : Handler Unit :=
  Program.perform .rollbackSession fun pid w _ => some (discardWork pid w, .ok ())

/-- `async with pool.connection() as conn`: commit at the end, roll back on an exception. -/
def sessionTransaction {α : Type} (body : Handler (α × Label)) : Handler α :=
  tryCatch
    (do
      let (value, label) ← body
      commitSession label
      return value)
    fun error => do
      rollbackSession
      throw error

/-! ### Endpoints -/

def login (email password userAgent clientIp : String) : Handler TokenResponse := do
  let row ← query .userByEmail fun _ db => db.users.rows.find? fun u => citextEq u.email email
  let some user := row | throw (httpError 401 "Invalid credentials")
  raiseIf (!P.verifyPassword password user.passwordHash) (httpError 401 "Invalid credentials")
  raiseIf (!user.isActive) (httpError 403 "Account is deactivated")
  let sessionId ← uuid4
  let accessJti ← uuid4
  let refreshJti ← uuid4
  let issuedAt ← clock
  let claims := refreshClaims P user.id sessionId refreshJti issuedAt
  let refreshToken := P.jwtEncode claims
  let hash := P.sha256Hex refreshToken
  transaction (.login hash) fun _ now => Tx.write fun db => do
    let session ← newSession sessionId user.id hash userAgent clientIp now claims.exp
    insertSession session db
  AuditService.log { action := "user_login", actorId := some user.id, actorIp := some clientIp }
  return ⟨createAccessToken P user.id user.role sessionId accessJti issuedAt, refreshToken⟩

/-- The transaction of `refresh_token_endpoint`: a read, an update whose row count is not looked
at, and an insert. -/
def rotate (hash userAgent clientIp : String) : Handler ((UUID × TokenResponse) × Label) := do
  let row ← query (.selectSession hash) fun now db =>
    match sessionByHash hash db with
    | none => none
    | some session =>
      match db.users.find session.userId with
      | none => none
      | some user =>
        if session.revoked = false ∧ now < session.expiresAt ∧ user.isActive then
          some (session.userId, user.role)
        else none
  let some (userId, role) := row | throw (httpError 401 "Refresh token invalid or expired")
  let newSessionId ← uuid4
  let accessJti ← uuid4
  let refreshJti ← uuid4
  let issuedAt ← clock
  let claims := refreshClaims P userId newSessionId refreshJti issuedAt
  let newRefresh := P.jwtEncode claims
  let newHash := P.sha256Hex newRefresh
  let _ ← revokeSession (.revokeForRefresh hash) fun s => s.refreshTokenHash = hash
  insertSessionStatement newHash fun now =>
    newSession newSessionId userId newHash userAgent clientIp now claims.exp
  return ((userId, ⟨createAccessToken P userId role newSessionId accessJti issuedAt, newRefresh⟩),
    .refresh hash newHash)

def refreshTokenEndpoint (refreshToken userAgent clientIp : String) : Handler TokenResponse := do
  let now ← clock
  let payload ← liftExcept (decodeToken P refreshToken now)
  raiseIf (payload.type ≠ "refresh") (httpError 401 "Wrong token type")
  let (userId, response) ← sessionTransaction
    (rotate P (P.sha256Hex refreshToken) userAgent clientIp)
  AuditService.log { action := "token_refresh", actorId := some userId, actorIp := some clientIp }
  return response

/-- The `WHERE` clause of `logout`, with or without a session id in the token. -/
def logoutMatches (userId : UUID) (sessionId : Option UUID) (hash : String) (s : Session) : Bool :=
  (sessionId.isNone || sessionId = some s.id) && s.userId = userId && s.refreshTokenHash = hash &&
    s.revoked = false

/-- The session id of the token, when it has one. -/
def castSid : Option String → Except Exn (Option UUID)
  | none => .ok none
  | some "" => .ok none
  | some text => (castUuid P text).map some

/-- The transaction of `logout`. -/
def revoke (sub : String) (sid : Option String) (hash : String) : Handler (Unit × Label) := do
  let userId ← liftExcept (castUuid P sub)
  let sessionId ← liftExcept (castSid P sid)
  let rowcount ← revokeSession (.revokeForLogout hash) (logoutMatches userId sessionId hash)
  raiseIf (rowcount = 0)
    (httpError 401 "Session not found, already revoked, or refresh token was rotated")
  return ((), .logout hash)

def logout (refreshToken : String) (credentials : Option String) : Handler Unit := do
  let _ ← getCurrentUser P credentials
  let now ← clock
  let payload ← liftExcept (decodeToken P refreshToken now)
  raiseIf (payload.type ≠ "refresh") (httpError 401 "Wrong token type")
  let some sub := payload.sub | throw (httpError 401 "Invalid token subject")
  raiseIf (sub = "") (httpError 401 "Invalid token subject")
  sessionTransaction (revoke P sub payload.sid (P.sha256Hex refreshToken))
  AuditService.log { action := "user_logout", actorId := P.parseUuid sub }

end Auth
end PhantomShare
