import PhantomShare.Foundations.Program
import PhantomShare.Foundations.RowLocks
import PhantomShare.Routers.Listings

/-!
# Email verification

`register`, `request_email_verification`, `confirm_email_verification` and the
statements of the sweep that touch users and challenges, statement by statement. The
mail is sent while the transaction of its request is open. A statement waits while
another transaction holds a row that it writes, and then acts on what was committed.
-/
namespace PhantomShare.EmailVerification
open Foundations
open Listings (UserRow)

/-- A row of `email_verifications`. -/
structure Challenge where
  userId : UUID
  email : String
  tokenHash : String
  expiresAt : Timestamp
  requestedAt : Timestamp
  deriving DecidableEq, Repr

structure Tables where
  users : Table UserRow.key
  challenges : Table Challenge.userId

inductive Row where
  | user (id : UUID)
  | challenge (userId : UUID)
  deriving DecidableEq, Repr

/-- What a statement writes. The code of a challenge, which no table holds, and the time of its
redemption are noted for the record. -/
inductive Effect where
  | register (row : UserRow)
  | verify (userId : UUID)
  | removeUser (userId : UUID)
  | store (row : Challenge) (code : String)
  | redeem (row : Challenge) (code : String) (time : Timestamp)
  | removeChallenge (userId : UUID)
  deriving DecidableEq, Repr

def UserRow.verify (row : UserRow) : UserRow := { row with isVerified := true }

namespace Tables

def verifyUser (id : UUID) (t : Tables) : Tables :=
  { t with users := t.users.modify id UserRow.verify fun _ => rfl }

def deleteUser (id : UUID) (t : Tables) : Tables :=
  { t with users := t.users.deleteWhere fun row => row.id = id }

def deleteChallenge (userId : UUID) (t : Tables) : Tables :=
  { t with challenges := t.challenges.deleteWhere fun row => row.userId = userId }

def apply (t : Tables) : Effect → Tables
  | .register row =>
    match t.users.insert row with
    | some users => { t with users := users }
    | none => t
  | .verify userId => t.verifyUser userId
  | .removeUser userId => t.deleteUser userId
  | .store row _ => { t with challenges := t.challenges.put row }
  | .redeem row _ _ => t.deleteChallenge row.userId
  | .removeChallenge userId => t.deleteChallenge userId

end Tables

/-- The rows that an effect writes or relies on. -/
def Effect.rows : Effect → List Row
  | .register row => [.user row.id]
  | .verify userId => [.user userId]
  | .removeUser userId => [.user userId]
  | .store row _ => [.user row.userId, .challenge row.userId]
  | .redeem row _ _ => [.user row.userId, .challenge row.userId]
  | .removeChallenge userId => [.challenge userId]

structure AuthWorld where
  now : Timestamp
  store : Transactions Row Effect Tables
  codes : List (String × ℕ)

structure AuthChoice where
  fails : Bool := false
  landed : Bool := false
  code : String := ""
  uuid : UUID := 0
  passwordHash : String := ""
  delay : ℕ := 0

inductive AuthLabel where
  | hashPassword
  | selectTaken
  | insertUser
  | auditLog
  | selectUserForUpdate (id : UUID)
  | selectChallenge (userId : UUID)
  | clock
  | tokenHex
  | storeChallenge (userId : UUID)
  | sendCode (email : String)
  | redeemChallenge (userId : UUID)
  | markVerified (userId : UUID)
  | selectInactive
  | deleteInactive (id : UUID)
  | cascade (userId : UUID)
  | selectExpired
  | deleteExpired (userId : UUID)
  | commit
  | rollback
  | tick
  deriving DecidableEq, Repr

abbrev AuthHandler := Program AuthWorld AuthChoice AuthLabel Exn

namespace AuthWorld

def tables (w : AuthWorld) : Tables := w.store.committed

/-- A statement locks a row and writes. -/
def write (w : AuthWorld) (row : Row) (pid : ℕ) (e : Effect) : AuthWorld :=
  { w with store := (w.store.lock row pid).draft pid e }

def lock (w : AuthWorld) (row : Row) (pid : ℕ) : AuthWorld :=
  { w with store := w.store.lock row pid }

def commit (w : AuthWorld) (pid : ℕ) : AuthWorld :=
  { w with store := w.store.commit Tables.apply pid }

def discard (w : AuthWorld) (pid : ℕ) : AuthWorld := { w with store := w.store.discard pid }

end AuthWorld

/-! ### Statements -/

section Statements
variable {α : Type}

/-- A call to PostgreSQL, which may fail. -/
def call (label : AuthLabel)
    (act : ℕ → AuthWorld → AuthChoice → Option (AuthWorld × Except Exn α)) : AuthHandler α :=
  Program.perform label fun pid w choice =>
    if choice.fails then some (w, .error .unavailable) else act pid w choice

def select (label : AuthLabel) (q : Timestamp → Tables → α) : AuthHandler α :=
  call label fun _ w _ => some (w, .ok (q w.now w.tables))

/-- `SELECT … FROM users WHERE id = … FOR UPDATE`. -/
def selectUserForUpdate (id : UUID) : AuthHandler (Option UserRow) :=
  call (.selectUserForUpdate id) fun pid w _ =>
    match w.tables.users.find id with
    | none => some (w, .ok none)
    | some row =>
      if w.store.heldByOther (.user id) pid then none
      else some (w.lock (.user id) pid, .ok (some row))

/-- The `COMMIT` of a connection; when it fails, it may have taken effect. -/
def commit : AuthHandler Unit :=
  Program.perform .commit fun pid w choice =>
    if choice.fails then
      some (if choice.landed then w.commit pid else w, .error .unavailable)
    else some (w.commit pid, .ok ())

def rollback : AuthHandler Unit :=
  Program.perform .rollback fun pid w _ => some (w.discard pid, .ok ())

/-- `async with pool.connection() as conn`: commit at the end, roll back on an exception. -/
def connection (body : AuthHandler α) : AuthHandler α :=
  tryCatch
    (do
      let value ← body
      commit
      return value)
    fun error => do
      rollback
      throw error

def clock : AuthHandler Timestamp := Program.perform .clock fun _ w _ => some (w, .ok w.now)

def raiseIf (bad : Bool) (error : Exn) : AuthHandler Unit := if bad then throw error else pure ()

/-- Time passes. -/
def tick : AuthHandler Unit :=
  Program.perform .tick fun _ w choice => some ({ w with now := w.now + choice.delay }, .ok ())

end Statements

/-! ### Registration -/

/-- `hash_password`. -/
def hashPassword : AuthHandler String :=
  Program.perform .hashPassword fun _ w choice => some (w, .ok choice.passwordHash)

/-- `email = … OR username = …`. -/
def takes (email username : String) (row : UserRow) : Bool :=
  citextEq row.email email || row.username = username

/-- `INSERT INTO users … RETURNING …`; it waits for an open transaction that inserted such a row. -/
def insertUser (email username passwordHash : String) : AuthHandler UserRow :=
  call .insertUser fun pid w choice =>
    let row : UserRow :=
      { id := choice.uuid, email := email, passwordHash := passwordHash, role := .user
        isActive := true, isVerified := false, deleteAfter := none, username := username
        createdAt := w.now, updatedAt := w.now }
    let conflicts (other : UserRow) : Bool := other.id = row.id || takes email username other
    let pending := w.store.drafts.any fun draft =>
      match draft.2 with
      | .register other => draft.1 ≠ pid && conflicts other
      | _ => false
    if pending || w.store.heldByOther (.user row.id) pid then none
    else if w.tables.users.rows.any conflicts then some (w, .error (.sql .uniqueViolation))
    else some (w.write (.user row.id) pid (.register row), .ok row)

/-- The audit entry of a registration is written on a connection of its own, and never raises. -/
def auditLog : AuthHandler Unit := Program.perform .auditLog fun _ w _ => some (w, .ok ())

def register (email username : String) : AuthHandler UserRow := do
  let passwordHash ← hashPassword
  let row ← connection do
    let taken ← select .selectTaken fun _ t => t.users.rows.any (takes email username)
    raiseIf taken (httpError 409 "Email or username already taken")
    insertUser email username passwordHash
  auditLog
  return row

/-! ### Challenges -/

section Challenges
variable (P : Platform)

/-- `secrets.token_hex(32)`, which never returns a value twice. -/
def tokenHex : AuthHandler String :=
  Program.perform .tokenHex fun pid w choice =>
    if w.codes.any fun issued => issued.1 = choice.code then none
    else some ({ w with codes := w.codes ++ [(choice.code, pid)] }, .ok choice.code)

/-- The row that a request stores. -/
def newChallenge (userId : UUID) (email code : String) (now : Timestamp) : Challenge :=
  ⟨userId, email, P.sha256Hex code, now + minutes 15, now⟩

/-- `INSERT INTO email_verifications … ON CONFLICT (user_id) DO UPDATE …`. -/
def storeChallenge (userId : UUID) (email code : String) : AuthHandler Unit :=
  call (.storeChallenge userId) fun pid w _ =>
    if w.store.heldByOther (.challenge userId) pid then none
    else if (w.tables.users.find userId).isNone then some (w, .error (.sql .foreignKeyViolation))
    else
      let row := newChallenge P userId email code w.now
      some (w.write (.challenge userId) pid (.store row code), .ok ())

/-- `verification_service.send_code`. -/
def sendCode (email : String) : AuthHandler Unit :=
  Program.perform (.sendCode email) fun _ w choice =>
    if choice.fails then some (w, .error .unavailable) else some (w, .ok ())

def mailFailed : Exn := httpError 503 "Verification email could not be sent; try again later"

def requestEmailVerification (userId : UUID) : AuthHandler String := do
  let sent ← connection do
    let user ← selectUserForUpdate userId
    let some user := user | throw (httpError 401 "User not found")
    if user.isVerified then return false
    else
      let prior ← select (.selectChallenge userId) fun _ t => t.challenges.find userId
      let now ← clock
      raiseIf (prior.any fun row => now < row.requestedAt + minutes 1)
        (httpError 429 "Wait 60 seconds before requesting another code")
      let code ← tokenHex
      storeChallenge P userId user.email code
      tryCatch (sendCode user.email) fun _ => throw mailFailed
      return true
  return if sent then "Verification code sent; expires in 15 minutes"
    else "Email is already verified"

/-- The conditions of the `DELETE` of a confirmation. -/
def redeemable (email code : String) (now : Timestamp) (row : Challenge) : Bool :=
  citextEq row.email email && row.tokenHash = P.sha256Hex code && now < row.expiresAt

/-- `DELETE FROM email_verifications … RETURNING user_id`. -/
def redeemChallenge (userId : UUID) (email code : String) : AuthHandler Bool :=
  call (.redeemChallenge userId) fun pid w _ =>
    match w.tables.challenges.find userId with
    | none => some (w, .ok false)
    | some row =>
      if redeemable P email code w.now row then
        if w.store.heldByOther (.challenge userId) pid then none
        else some (w.write (.challenge userId) pid (.redeem row code w.now), .ok true)
      else some (w, .ok false)

/-- `UPDATE users SET is_verified = TRUE WHERE id = …`. -/
def markVerified (userId : UUID) : AuthHandler Unit :=
  call (.markVerified userId) fun pid w _ =>
    if (w.tables.users.find userId).isNone then some (w, .ok ())
    else if w.store.heldByOther (.user userId) pid then none
    else some (w.write (.user userId) pid (.verify userId), .ok ())

def confirmEmailVerification (userId : UUID) (code : String) : AuthHandler String := do
  connection do
    let user ← selectUserForUpdate userId
    let some user := user | throw (httpError 401 "User not found")
    let redeemed ← redeemChallenge P userId user.email code
    raiseIf (!redeemed) (httpError 400 "Invalid or expired verification code")
    markVerified userId
  return "Email verified"

end Challenges

/-! ### The sweep -/

/-- `WHERE is_active = FALSE AND delete_after <= NOW()`. -/
def removable (now : Timestamp) (row : UserRow) : Bool :=
  !row.isActive && row.deleteAfter.any fun time => time ≤ now

/-- The `DELETE` of one user, which `NOW()` found inactive; whether it is there and still is. -/
def deleteInactive (started : Timestamp) (id : UUID) : AuthHandler Bool :=
  call (.deleteInactive id) fun pid w _ =>
    match w.tables.users.find id with
    | none => some (w, .ok false)
    | some row =>
      if removable started row then
        if w.store.heldByOther (.user id) pid then none
        else some (w.write (.user id) pid (.removeUser id), .ok true)
      else some (w, .ok false)

/-- The `DELETE` of one challenge under a condition. -/
def deleteChallenge (label : AuthLabel) (p : Timestamp → Challenge → Bool) (userId : UUID) :
    AuthHandler Unit :=
  call label fun pid w _ =>
    match w.tables.challenges.find userId with
    | none => some (w, .ok ())
    | some row =>
      if p w.now row then
        if w.store.heldByOther (.challenge userId) pid then none
        else some (w.write (.challenge userId) pid (.removeChallenge userId), .ok ())
      else some (w, .ok ())

/-- `ON DELETE CASCADE`. -/
def cascade (userId : UUID) : AuthHandler Unit :=
  deleteChallenge (.cascade userId) (fun _ _ => true) userId

/-- `WHERE expires_at <= clock_timestamp()`. -/
def expired (now : Timestamp) (row : Challenge) : Bool := row.expiresAt ≤ now

def deleteExpired (userId : UUID) : AuthHandler Unit :=
  deleteChallenge (.deleteExpired userId) expired userId

def forEach (act : UUID → AuthHandler Unit) : List UUID → AuthHandler Unit
  | [] => pure ()
  | id :: ids => do
    act id
    forEach act ids

def deleteWithChallenge (started : Timestamp) (id : UUID) : AuthHandler Unit := do
  let deleted ← deleteInactive started id
  if deleted then cascade id else pure ()

/-- The statements of `_fallback_sweep` on users and challenges, each row by row. -/
def sweep : AuthHandler Unit :=
  connection do
    let (started, users) ← select .selectInactive fun now t =>
      (now, (t.users.rows.filter (removable now)).map UserRow.key)
    forEach (deleteWithChallenge started) users
    let challenges ← select .selectExpired fun now t =>
      (t.challenges.rows.filter (expired now)).map Challenge.userId
    forEach deleteExpired challenges

/-! ### The system -/

inductive AuthRequest where
  | register (email username : String)
  | request (userId : UUID)
  | confirm (userId : UUID) (code : String)
  | sweep
  | wait
  deriving DecidableEq, Repr

inductive AuthResponse where
  | user (row : UserRow)
  | message (text : String)
  | done

def serve (P : Platform) : AuthRequest → AuthHandler AuthResponse
  | .register email username => AuthResponse.user <$> register email username
  | .request userId => AuthResponse.message <$> requestEmailVerification P userId
  | .confirm userId code => AuthResponse.message <$> confirmEmailVerification P userId code
  | .sweep => (fun _ => AuthResponse.done) <$> sweep
  | .wait => (fun _ => AuthResponse.done) <$> tick

/-- The connection of a crashed process is rolled back. -/
def system (P : Platform) :
    System AuthWorld AuthChoice AuthLabel AuthRequest Exn AuthResponse where
  serve := serve P
  recover pid w := w.discard pid

/-- Any users, and no challenge yet. -/
def initial (users : Table UserRow.key) (now : Timestamp) : AuthWorld where
  now := now
  store := ⟨⟨users, .empty⟩, [], [], []⟩
  codes := []

end PhantomShare.EmailVerification
