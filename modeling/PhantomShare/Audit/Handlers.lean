import PhantomShare.Audit.Blocks
import PhantomShare.Access.Location

/-!
# The handlers that lend their connection to the audit log

Each of the eight handlers writes its entry in one transaction, after a part
that other connections do. What follows that transaction leaves the tables as
they are.
-/
namespace PhantomShare.Audit
open Foundations AuditService

/-- A request to a handler that passes its own connection to `log`. -/
inductive AuditedRequest where
  | createSecret (body : SecretCreate) (user : CurrentUser) (clientIp : String)
  | retrieveSecret (secretId : String) (accessPassword token : Option String) (clientIp : String)
      (currentUser : Option CurrentUser)
  | deleteSecret (secretId : String) (user : CurrentUser) (clientIp : String)
  | updateSecret (id : UUID) (body : SecretUpdate) (user : CurrentUser) (clientIp : String)
  | restoreSecretVersion (id : UUID) (version : ℤ) (user : CurrentUser) (clientIp : String)
  | updateLocationPolicy (id : UUID) (body : LocationPolicyUpdate) (user : CurrentUser)
      (clientIp : String)
  | updateFileSecret (secretId : UUID) (body : FileUpdate) (user : CurrentUser) (clientIp : String)
  | downloadFileSecret (secretId : UUID) (token accessPassword : Option String) (clientIp : String)
      (currentUser : Option CurrentUser)

namespace AuditedRequest

abbrev Response : AuditedRequest → Type
  | createSecret .. => SecretCreateResponse
  | retrieveSecret .. => SecretContent
  | deleteSecret .. => Unit
  | updateSecret .. => SecretUpdateResponse
  | restoreSecretVersion .. => SecretUpdateResponse
  | updateLocationPolicy .. => LocationPolicyResponse
  | updateFileSecret .. => FileUpdateResponse
  | downloadFileSecret .. => FileResponse

/-- The handler of a request. -/
def serve (P : Platform) (log : Logger) : (request : AuditedRequest) → Handler request.Response
  | createSecret body user clientIp => Secrets.createSecret P body user clientIp log
  | retrieveSecret secretId accessPassword token clientIp currentUser =>
    Secrets.retrieveSecret P secretId accessPassword token clientIp currentUser log
  | deleteSecret secretId user clientIp => Secrets.deleteSecret P secretId user clientIp log
  | updateSecret id body user clientIp => SecretVersions.updateSecret P id body user clientIp log
  | restoreSecretVersion id version user clientIp =>
    SecretVersions.restoreSecretVersion P id version user clientIp log
  | updateLocationPolicy id body user clientIp =>
    SecretAccess.updateLocationPolicy P id body user clientIp log
  | updateFileSecret secretId body user clientIp =>
    FileVersions.updateFileSecret P secretId body user clientIp log
  | downloadFileSecret secretId token accessPassword clientIp currentUser =>
    Files.downloadFileSecret P secretId token accessPassword clientIp currentUser log

end AuditedRequest

/-! ### What comes before the entry -/

section
variable {P : Platform} {pid : ℕ} {choices : ℕ → Choice} {w : World}

end

/-! ### An update that is lost -/

section Sample
open Access

end Sample
end PhantomShare.Audit
