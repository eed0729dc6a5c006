import PhantomShare.Outlines
import PhantomShare.Routers.FileVersions
import PhantomShare.Routers.SecretVersions

/-!
# The service

Every request that reaches the secrets, the users or the sessions, the events that
Redis sends, the background loops and the clock, in any interleaving. A request
comes with the credentials of its header, and its handler first asks who it is.
-/
namespace PhantomShare.Service
open Foundations

inductive Request where
  | create (body : SecretCreate) (credentials : Option String) (clientIp : String)
  | createFile (body : FileCreate) (credentials : Option String) (clientIp : String)
  | retrieve (secretId : String) (accessPassword token : Option String) (clientIp : String)
      (credentials : Option String)
  | download (secretId : UUID) (token accessPassword : Option String) (clientIp : String)
      (credentials : Option String)
  | update (id : UUID) (body : SecretUpdate) (credentials : Option String) (clientIp : String)
  | restore (id : UUID) (version : ℤ) (credentials : Option String) (clientIp : String)
  | updateFile (secretId : UUID) (body : FileUpdate) (credentials : Option String)
      (clientIp : String)
  | rotateKey (secretId : String) (credentials : Option String) (clientIp : String)
  | updatePolicy (id : UUID) (body : LocationPolicyUpdate) (credentials : Option String)
      (clientIp : String)
  | delete (secretId : String) (credentials : Option String) (clientIp : String)
  | login (email password userAgent clientIp : String)
  | refresh (refreshToken userAgent clientIp : String)
  | logout (refreshToken : String) (credentials : Option String)
  | changeRole (userId : UUID) (role : Role) (credentials : Option String) (clientIp : String)
  | switchActivation (userId : UUID) (credentials : Option String) (clientIp : String)
  | cleanup (credentials : Option String) (clientIp : String)
  | expired (secretId : UUID)
  | sweep
  | wait
  deriving DecidableEq

inductive Response where
  | created (response : SecretCreateResponse)
  | fileCreated (response : FileSecretResponse)
  | content (response : SecretContent)
  | file (response : FileResponse)
  | updated (response : SecretUpdateResponse)
  | fileUpdated (response : FileUpdateResponse)
  | keyRotated (response : KeyRotateResponse)
  | policy (response : LocationPolicyResponse)
  | tokens (response : TokenResponse)
  | user (response : AdminUserResponse)
  | status (response : UserStatusResponse)
  | swept (result : CleanupService.SweepResult)
  | noContent
  deriving DecidableEq

variable (P : Platform)

/-- A handler behind `Depends(require_user)`. -/
def asUser {α : Type} (credentials : Option String) (handler : CurrentUser → Handler α) :
    Handler α :=
  Security.requireUser P credentials >>= handler

/-- A handler behind `Depends(get_current_user_optional)`. -/
def asAnyone {α : Type} (credentials : Option String)
    (handler : Option CurrentUser → Handler α) : Handler α :=
  Security.getCurrentUserOptional P credentials >>= handler

def serve : Request → Handler Response
  | .create body credentials clientIp =>
    .created <$> asUser P credentials fun user => Secrets.createSecret P body user clientIp
  | .createFile body credentials clientIp =>
    .fileCreated <$> asUser P credentials fun user => Files.createFileSecret P body user clientIp
  | .retrieve secretId accessPassword token clientIp credentials =>
    .content <$> asAnyone P credentials fun user =>
      Secrets.retrieveSecret P secretId accessPassword token clientIp user
  | .download secretId token accessPassword clientIp credentials =>
    .file <$> asAnyone P credentials fun user =>
      Files.downloadFileSecret P secretId token accessPassword clientIp user
  | .update id body credentials clientIp =>
    .updated <$> asUser P credentials fun user =>
      SecretVersions.updateSecret P id body user clientIp
  | .restore id version credentials clientIp =>
    .updated <$> asUser P credentials fun user =>
      SecretVersions.restoreSecretVersion P id version user clientIp
  | .updateFile secretId body credentials clientIp =>
    .fileUpdated <$> asUser P credentials fun user =>
      FileVersions.updateFileSecret P secretId body user clientIp
  | .rotateKey secretId credentials clientIp =>
    .keyRotated <$> asUser P credentials fun user =>
      Secrets.rotateSecretKey P secretId user clientIp
  | .updatePolicy id body credentials clientIp =>
    .policy <$> asUser P credentials fun user =>
      SecretAccess.updateLocationPolicy P id body user clientIp
  | .delete secretId credentials clientIp =>
    (fun _ => .noContent) <$> asUser P credentials fun user =>
      Secrets.deleteSecret P secretId user clientIp
  | .login email password userAgent clientIp =>
    .tokens <$> Auth.login P email password userAgent clientIp
  | .refresh refreshToken userAgent clientIp =>
    .tokens <$> Auth.refreshTokenEndpoint P refreshToken userAgent clientIp
  | .logout refreshToken credentials =>
    (fun _ => .noContent) <$> Auth.logout P refreshToken credentials
  | .changeRole userId role credentials clientIp =>
    .user <$> Admin.changeRole P userId role credentials clientIp
  | .switchActivation userId credentials clientIp =>
    .status <$> Admin.switchUserActivation P userId credentials clientIp
  | .cleanup credentials clientIp => .swept <$> Admin.cleanupExpired P credentials clientIp
  | .expired secretId => (fun _ => .noContent) <$> CleanupService.onExpired secretId
  | .sweep => .swept <$> CleanupService.fallbackSweep
  | .wait => (fun _ => .noContent) <$> tick

/-- The connection of a crashed process is rolled back. -/
def service : System World Choice Label Request Exn Response where
  serve := serve P
  recover := Auth.discardWork

end PhantomShare.Service
