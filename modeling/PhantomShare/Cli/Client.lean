import PhantomShare.Foundations.Program
import PhantomShare.Internet.Address

/-!
# The HTTP client of the command line

`client.go`. Goroutines share one client; whatever reads or writes its tokens runs
under a mutex and is one step. Times are in nanoseconds, and the log records the
calls that leave the client.
-/
namespace PhantomShare.Cli
open Foundations Internet

/-- What `sendOnce` gets from the server; a body that breaks off cannot be read. -/
structure Response where
  status : ℕ
  challenges : List Text := []
  body : Option Text := some []
  deriving DecidableEq

structure TokenResponse where
  accessToken : Text
  refreshToken : Text
  deriving DecidableEq

/-- The callbacks of a client may be missing. -/
structure Client where
  accessToken : Text
  refreshToken : Text
  persistTokens : Bool
  clearTokens : Bool
  deriving DecidableEq

/-- The JSON texts that the client reads: the payload of an access token in base64, whose missing
`exp` reads 0, and the body of a token response. -/
structure Codec where
  expiresAt : Text → Option ℤ
  tokens : Text → Option TokenResponse

inductive RefreshError where
  | connection
  | unreadable
  | api (status : ℕ)
  | parse
  deriving DecidableEq

inductive ClientError where
  | build
  | connection
  | sessionExpired
  | couldNotRefresh (cause : RefreshError)
  | savingFailed
  deriving DecidableEq

/-- A refresh: the token that its caller had used, the access token that the client held by then,
whether this one was about to expire, and the refresh token that was presented. -/
structure Refreshing where
  failed : Text
  held : Text
  expiring : Bool
  presented : Text
  result : Except RefreshError TokenResponse

inductive Call where
  | request (pid : ℕ) (token : Text)
  | refresh (refreshing : Refreshing)
  | persist (tokens : TokenResponse) (saved : Bool)
  | clear

structure State where
  client : Client
  log : List Call

def State.record (s : State) (call : Call) : State := { s with log := s.log ++ [call] }

/-- What the surroundings decide: the reading of the clock, whether the request can be built, the
answer to it, if there is one, and whether the tokens can be saved. -/
structure Choice where
  now : ℤ := 0
  builds : Bool := true
  answer : Option Response := none
  saves : Bool := true

inductive Label where
  | accessTokenSnapshot
  | autoRefreshEnabled
  | now
  | refreshAccessToken (failedToken : Text)
  | sendOnce (accessToken : Text)
  deriving DecidableEq

abbrev Command (α : Type) := Program State Choice Label ClientError α

def second : ℤ := 1000000000

def minute : ℤ := 60 * second

/-- `unicode.IsSpace`. -/
def isSpace (c : Char) : Bool :=
  (9 ≤ c.toNat && c.toNat ≤ 13) || (0x2000 ≤ c.toNat && c.toNat ≤ 0x200a) ||
    [0x20, 0x85, 0xa0, 0x1680, 0x2028, 0x2029, 0x202f, 0x205f, 0x3000].contains c.toNat

/-- `strings.Fields`. -/
def fields (text : Text) : List Text := (text.splitOnP isSpace).filter fun field => !field.isEmpty

/-- No letter outside ASCII folds to one of these. -/
def isBearerChallenge (resp : Response) : Bool :=
  resp.challenges.any fun challenge =>
    (fields challenge).head?.any fun scheme => scheme.map Char.toLower = "bearer".toList

def tokenExpiresSoon (C : Codec) (token : Text) (deadline : ℤ) : Bool :=
  match token.splitOn '.' with
  | [_, payload, _] =>
    match C.expiresAt payload with
    | some expiresAt => expiresAt != 0 && !decide (expiresAt * second > deadline)
    | none => false
  | _ => false

/-- `Refresh`, whose client has no tokens of its own and sends once. -/
def refresh (C : Codec) : Option Response → Except RefreshError TokenResponse
  | none => .error .connection
  | some resp =>
    match resp.body with
    | none => .error .unreadable
    | some body =>
      if 400 ≤ resp.status then .error (.api resp.status)
      else if body = [] then .ok ⟨[], []⟩
      else match C.tokens body with
        | some tokens => .ok tokens
        | none => .error .parse

/-- The session ends: the stored credentials are cleared, and the client forgets its tokens. -/
def State.forget (s : State) : State :=
  let s := if s.client.clearTokens then s.record .clear else s
  { s with client := { s.client with accessToken := [], refreshToken := [] } }

/-- The critical section of `refreshAccessToken`. -/
def refreshLocked (C : Codec) (failedToken : Text) (choice : Choice) (s : State) :
    State × Except ClientError Unit :=
  let expiring := tokenExpiresSoon C s.client.accessToken (choice.now + minute)
  -- another request may already have refreshed while this one waited
  if s.client.accessToken ≠ failedToken ∧ expiring = false then (s, .ok ())
  else
    let refreshToken := s.client.refreshToken
    if refreshToken = [] then (s, .error .sessionExpired)
    else
      let result := refresh C choice.answer
      let s := s.record (.refresh ⟨failedToken, s.client.accessToken, expiring, refreshToken, result⟩)
      match result with
      | .error cause =>
        if cause = .api 400 ∨ cause = .api 401 then (s.forget, .error .sessionExpired)
        else (s, .error (.couldNotRefresh cause))
      | .ok tokens =>
        let s := s.record (.persist tokens choice.saves)
        if choice.saves then
          ({ s with client := { s.client with
              accessToken := tokens.accessToken
              refreshToken := tokens.refreshToken } }, .ok ())
        else (s.forget, .error .savingFailed)

def accessTokenSnapshot : Command Text :=
  Program.perform .accessTokenSnapshot fun _ s _ => some (s, .ok s.client.accessToken)

def autoRefreshEnabled : Command Bool :=
  Program.perform .autoRefreshEnabled fun _ s _ =>
    some (s, .ok (s.client.refreshToken != [] && s.client.persistTokens))

/-- `time.Now`. -/
def now : Command ℤ := Program.perform .now fun _ s choice => some (s, .ok choice.now)

def refreshAccessToken (C : Codec) (failedToken : Text) : Command Unit :=
  Program.perform (.refreshAccessToken failedToken) fun _ s choice =>
    some (refreshLocked C failedToken choice s)

/-- The answer comes with the request, as nothing else depends on when it arrives. -/
def sendOnce (accessToken : Text) : Command Response :=
  Program.perform (.sendOnce accessToken) fun pid s choice =>
    if !choice.builds then some (s, .error .build)
    else
      some (s.record (.request pid accessToken),
        match choice.answer with
        | some resp => .ok resp
        | none => .error .connection)

/-- The condition of the refresh before the request. -/
def expiresSoon (C : Codec) (accessToken : Text) : Command Bool := do
  let enabled ← autoRefreshEnabled
  if enabled then
    let time ← now
    return tokenExpiresSoon C accessToken (time + minute)
  else return false

def send (C : Codec) : Command Response := do
  let snapshot ← accessTokenSnapshot
  let expires ← expiresSoon C snapshot
  let accessToken ← if expires then do
      refreshAccessToken C snapshot
      accessTokenSnapshot
    else pure snapshot
  let resp ← sendOnce accessToken
  if resp.status ≠ 401 || !isBearerChallenge resp then return resp
  else
    let enabled ← autoRefreshEnabled
    if !enabled then return resp
    else
      refreshAccessToken C accessToken
      let renewed ← accessTokenSnapshot
      sendOnce renewed

/-- Every process is one call of `send`. -/
def system (C : Codec) : System State Choice Label Unit ClientError Response where
  serve _ := send C
  recover _ s := s

end PhantomShare.Cli
