import PhantomShare.Core.Security
import PhantomShare.Internet.ClientIp
import PhantomShare.World

/-!
# Audit entries and location policies

`audit_service.log` writes one row and swallows every exception. With the connection
of the caller it is a statement of the caller's transaction, which stays aborted after
a failure; without one it is a transaction of its own. `location_policy_service.py`:
whether the address of a client may read a secret, and the check of a share token
against the current policy version.
-/
namespace PhantomShare.AuditService
open Foundations

structure Entry where
  action : String
  actorId : Option UUID := none
  actorIp : Option String := none
  secretId : Option UUID := none
  metadata : List (String × Json) := []
  severity : String := "info"

/-- `meta_payload`. -/
def Entry.payload (entry : Entry) (now : Timestamp) : List (String × Json) :=
  entry.metadata.filter (fun item => item.1 ≠ "severity" ∧ item.1 ≠ "ts") ++
    [("severity", .str entry.severity), ("ts", .time now)]

def Entry.insert (entry : Entry) (now : Timestamp) (db : Database) : Except Exn Database :=
  db.insertAuditLog now entry.action entry.actorId entry.actorIp entry.secretId
    (entry.payload now)

/-- `log` as a handler calls it with its connection. -/
abbrev Logger := Entry → Timestamp → Tx Database Exn Unit

/-- `log(…, conn=conn)`. -/
def logWith (entry : Entry) (now : Timestamp) : Tx Database Exn Unit :=
  Tx.quietly (Tx.write (entry.insert now))

/-- `log_warning(…, conn=conn)`. -/
def logWarningWith (entry : Entry) (now : Timestamp) : Tx Database Exn Unit :=
  logWith { entry with severity := "warning" } now

/-- `log_critical(…, conn=conn)`. -/
def logCriticalWith (entry : Entry) (now : Timestamp) : Tx Database Exn Unit :=
  logWith { entry with severity := "critical" } now

/-- `log(…)`. -/
def log (entry : Entry) : Handler Unit :=
  tryCatch (transaction .auditLog fun _ now => Tx.write (entry.insert now)) fun _ => pure ()

end PhantomShare.AuditService

/-! ### Location policies -/

namespace PhantomShare.LocationPolicy
open Foundations Internet

variable (P : Platform)

/-- `any(address in ip_network(value) for value in cidrs)`. -/
def inAny (address : Address) : List String → Except Exn Bool
  | [] => .ok false
  | cidr :: rest =>
    match ipNetwork cidr.toList with
    | none =>
      .error (.valueError s!"{cidr} does not appear to be an IPv4 or IPv6 network")
    | some network => if network.contains address then .ok true else inAny address rest

/-- The result of `evaluate`: allowed, country and the reason of a denial. -/
structure Verdict where
  allowed : Bool
  country : Option String
  reason : Option String
  deriving DecidableEq, Repr

def denial (policy : SecretAccessPolicy) : String :=
  if policy.allowedCidrs ≠ [] ∧ policy.allowedCountries ≠ [] then "LOCATION_NOT_ALLOWED"
  else if policy.allowedCidrs ≠ [] then "CIDR_NOT_ALLOWED"
  else "COUNTRY_NOT_ALLOWED"

/-- The checks that a policy makes, in order; an empty list of them makes none. -/
def combine (policy : SecretAccessPolicy) (cidrCheck : List Bool) (country : Option String)
    (countryCheck : List Bool) : Verdict :=
  let checks := cidrCheck ++ countryCheck
  let allowed :=
    match policy.locationPolicyMode with
    | .all => checks.all id
    | .any => checks.any id
  if allowed then ⟨true, country, none⟩ else ⟨false, country, some (denial policy)⟩

def evaluate (clientIp : String) (policy : SecretAccessPolicy) : Except Exn Verdict := do
  if policy.allowedCidrs = [] ∧ policy.allowedCountries = [] then
    return ⟨true, none, none⟩
  let some address := normalizeAddress clientIp.toList
    | return ⟨false, none, some "CLIENT_IP_INVALID"⟩
  let cidrCheck ← if policy.allowedCidrs = [] then .ok [] else
    (inAny address policy.allowedCidrs).map fun found => [found]
  if policy.allowedCountries = [] then return combine policy cidrCheck none []
  let country := P.countryForIp (String.ofList address.toText)
  match country with
  | none =>
    if policy.geoipFailClosed then return ⟨false, none, some "GEOIP_LOOKUP_FAILED"⟩
    else return combine policy cidrCheck none [true]
  | some code =>
    return combine policy cidrCheck (some code)
      [code = "" || policy.allowedCountries.contains code]

/-- The check of a share token; an empty token counts as none. -/
def checkToken (secretId : UUID) (policyVersion : ℕ) (now : Timestamp) :
    Option String → Except Exn Unit
  | none => .ok ()
  | some "" => .ok ()
  | some token => do
    let text ← Security.verifySignedToken P token policyVersion now
    let id ← Security.uuidOfText P text
    if id ≠ secretId then throw (httpError 403 "Share token does not match this secret")

/-- Log the denial and raise. -/
def deny (secretId : UUID) (clientIp : String) (policyVersion : ℕ) (verdict : Verdict) :
    Handler Unit := do
  let text := fun value : Option String => value.elim Json.null Json.str
  AuditService.log
    { action := "invalid_token"
      actorIp := some clientIp
      secretId := some secretId
      metadata := [("reason", text verdict.reason), ("country", text verdict.country),
        ("policy_version", .int policyVersion)]
      severity := "warning" }
  throw (.http 403 (.fields [("error_code", text verdict.reason),
    ("message", .str "Access from this location is not allowed")]))

/-- `authorize`, which returns the policy version. -/
def authorize (secretId : UUID) (token : Option String) (clientIp : String) : Handler ℕ := do
  let row ← query (.policy secretId) fun _ db => db.secretAccessPolicies.find secretId
  let some policy := row | throw (httpError 404 "Secret not found")
  let now ← clock
  liftExcept (checkToken P secretId policy.policyVersion now token)
  let verdict ← liftExcept (evaluate P clientIp policy)
  if verdict.allowed then return policy.policyVersion
  else do
    deny secretId clientIp policy.policyVersion verdict
    return policy.policyVersion

end PhantomShare.LocationPolicy
