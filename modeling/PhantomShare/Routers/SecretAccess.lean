import PhantomShare.Routers.Secrets

/-!
# Access policies

`routers/secret_access.py`: the owner of a secret replaces its location policy,
which invalidates the share tokens of the policy before.
-/
namespace PhantomShare
open Foundations

structure LocationPolicyUpdate where
  allowedCidrs : List String := []
  allowedCountries : List String := []
  locationPolicyMode : PolicyMode := .all
  geoipFailClosed : Bool := true
  deriving DecidableEq, Repr

structure LocationPolicyResponse where
  secretId : UUID
  policy : LocationPolicyUpdate
  policyVersion : ℕ
  signedToken : String
  shareUrl : String
  deriving DecidableEq, Repr

namespace SecretAccess
variable (P : Platform)

/-- The transaction of `update_location_policy`, which locks the secret and its policy: the new
policy version, the new share token and whether the secret holds a file. -/
def policyTransaction (id : UUID) (body : LocationPolicyUpdate) (user : CurrentUser)
    (clientIp : String) (now : Timestamp) (log : AuditService.Logger := AuditService.logWith) :
    Tx Database Exn (ℕ × String × PayloadType) := do
  let row ← Tx.select fun db => db.secrets.find id
  let some secret := row | throw (httpError 404 "Secret not found")
  let policy ← Tx.select fun db => db.secretAccessPolicies.find id
  let some policy := policy | throw (httpError 404 "Secret not found")
  Tx.ofExcept (Security.requireOwnsSecret secret.ownerId user)
  let newPolicyVersion := policy.policyVersion + 1
  Tx.write fun db => .ok { db with
    secretAccessPolicies := db.secretAccessPolicies.modify id (fun p => { p with
      allowedCidrs := body.allowedCidrs
      allowedCountries := body.allowedCountries
      locationPolicyMode := body.locationPolicyMode
      geoipFailClosed := body.geoipFailClosed
      policyVersion := newPolicyVersion
      updatedAt := now }) fun _ => rfl }
  let token := Security.createSignedToken P id (secret.expiresAt / second) newPolicyVersion
  Tx.write fun db => .ok (db.updateSecret id
    (fun s => { s with signedToken := some token, updatedAt := now }) fun _ => rfl)
  log
    { action := "secret_updated", actorId := some user.id, actorIp := some clientIp
      secretId := some id
      metadata := [("change", .str "location_policy"),
        ("policy_version", .int newPolicyVersion)] } now
  return (newPolicyVersion, token, secret.payloadType)

def updateLocationPolicy (id : UUID) (body : LocationPolicyUpdate) (user : CurrentUser)
    (clientIp : String) (log : AuditService.Logger := AuditService.logWith) :
    Handler LocationPolicyResponse := do
  let (policyVersion, token, payloadType) ← transaction (.updatePolicy id)
    fun _ now => policyTransaction P id body user clientIp now log
  let suffix := match payloadType with
    | .file => "/file"
    | .text => ""
  return ⟨id, body, policyVersion, token,
    s!"{P.settings.baseUrl}/api/secrets/{P.uuidText id}{suffix}?token={token}"⟩

end SecretAccess
end PhantomShare
