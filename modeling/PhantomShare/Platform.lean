import PhantomShare.Database.Schema

/-!
# Settings, third-party functions and the cryptographic helpers

`Platform` collects the settings and the library functions that the program
calls. `Platform.Sound` states what their documentation promises and the program
relies on. The functions below it are those of `helper.py` and the token
helpers of `security.py`.
-/
namespace PhantomShare
open Foundations

structure Settings where
  viewHistoryRetentionDays : ℕ := 30
  maxSecretVersions : ℕ := 100
  defaultMaxActiveSecrets : ℤ := 100
  defaultMaxFileStorageBytes : ℤ := 1073741824
  maxFileBytes : ℕ := 52428800
  signedUrlSecret : String
  baseUrl : String
  jwtAccessTokenExpireMinutes : ℕ
  jwtRefreshTokenExpireDays : ℕ

/-- The payload of a JSON web token. -/
structure Claims where
  sub : Option String
  role : Option String
  sid : Option String
  jti : UUID
  exp : Timestamp
  iat : Timestamp
  type : String
  deriving DecidableEq, Repr

structure Platform where
  settings : Settings
  kek : Bytes
  chacha : Aead Bytes
  b64encode : Bytes → String
  b64decode : String → Option Bytes
  b64decodeStrict : String → Option Bytes
  sha256Hex : String → String
  fileSha256 : Bytes → String
  hmacSha256Hex : String → String → String
  parseInt : String → Option ℤ
  uuidText : UUID → String
  parseUuid : String → Option UUID
  jwtEncode : Claims → String
  jwtDecode : String → Timestamp → Option Claims
  verifyPassword : String → String → Bool
  countryForIp : String → Option String
  validateEmails : List String → Option (List String)
  upper : String → String

/-- The cipher opens what it sealed, base64 and the text of a UUID round-trip, and the hashes of
different tokens differ. -/
structure Platform.Sound (P : Platform) : Prop where
  chacha_correct : P.chacha.Correct
  b64decode_encode : ∀ bytes, P.b64decode (P.b64encode bytes) = some bytes
  parseUuid_text : ∀ id, P.parseUuid (P.uuidText id) = some id
  tokenHash_injective : Function.Injective fun claims => P.sha256Hex (P.jwtEncode claims)

/-- A token that decodes tells its user and session as they were encoded, and hashes of tokens of
different sessions differ. -/
structure Platform.Telling (P : Platform) : Prop where
  parseUuid_text : ∀ id, P.parseUuid (P.uuidText id) = some id
  sid_of_hash : ∀ claims claims', P.sha256Hex (P.jwtEncode claims) = P.sha256Hex (P.jwtEncode claims') →
    claims.sid = claims'.sid
  decode_encode : ∀ claims now decoded, P.jwtDecode (P.jwtEncode claims) now = some decoded →
    decoded.sub = claims.sub ∧ decoded.sid = claims.sid

/-- `str.encode()`. -/
def utf8Encode (s : String) : Bytes := s.toByteArray.data.toList

/-- `bytes.decode()`. -/
def utf8Decode (bytes : Bytes) : Option String :=
  if h : (ByteArray.mk bytes.toArray).IsValidUTF8 then some ⟨_, h⟩ else none

theorem utf8Decode_encode (s : String) : utf8Decode (utf8Encode s) = some s := by
  have h : ByteArray.mk (utf8Encode s).toArray = s.toByteArray := by simp [utf8Encode]
  unfold utf8Decode
  simp only [h]
  rw [dif_pos s.isValidUTF8]

namespace Platform
variable (P : Platform)

/-- `wrap_dek`; the nonce is the result of `os.urandom(12)`. -/
def wrapDek (dek nonce : Bytes) : String × String :=
  (P.b64encode (P.chacha.encrypt P.kek nonce dek []), P.b64encode nonce)

def unwrapDek (wrappedDek nonceText : String) : Except Exn Bytes :=
  match P.b64decode wrappedDek, P.b64decode nonceText with
  | some wrapped, some nonce =>
    match P.chacha.decrypt P.kek nonce wrapped [] with
    | some dek => .ok dek
    | none => .error (.valueError "DEK unwrap failed - wrong KEK or corrupt data")
  | _, _ => .error (.valueError "Invalid base64-encoded string")

/-- `encrypt_content`; the nonce is the result of `os.urandom(12)`. -/
def encryptContent (content : String) (dek nonce : Bytes) : String × String :=
  (P.b64encode (P.chacha.encrypt dek nonce (utf8Encode content) []), P.b64encode nonce)

def decryptContent (encrypted nonceText : String) (dek : Bytes) : Except Exn String :=
  match P.b64decode encrypted, P.b64decode nonceText with
  | some ciphertext, some nonce =>
    match (P.chacha.decrypt dek nonce ciphertext []).bind utf8Decode with
    | some content => .ok content
    | none => .error (.valueError "Content decryption failed")
  | _, _ => .error (.valueError "Invalid base64-encoded string")

/-- `validate_client_encrypted`. -/
def validateClientEncrypted (ciphertext nonceText : String) : Except Exn Unit :=
  match P.b64decodeStrict nonceText with
  | none => .error (.valueError "nonce_b64 is not valid base64")
  | some nonce =>
    if nonce.length ≠ 12 then
      .error (.valueError s!"nonce must be 12 bytes; got {nonce.length}")
    else
      match P.b64decodeStrict ciphertext with
      | none => .error (.valueError "ciphertext_b64 is not valid base64")
      | some _ => .ok ()

variable {P}

theorem unwrapDek_wrapDek (sound : P.Sound) (dek nonce : Bytes) :
    P.unwrapDek (P.wrapDek dek nonce).1 (P.wrapDek dek nonce).2 = .ok dek := by
  simp only [unwrapDek, wrapDek, sound.b64decode_encode, sound.chacha_correct P.kek nonce dek []]

theorem decryptContent_encryptContent (sound : P.Sound) (content : String) (dek nonce : Bytes) :
    P.decryptContent (P.encryptContent content dek nonce).1 (P.encryptContent content dek nonce).2
      dek = .ok content := by
  simp only [decryptContent, encryptContent, sound.b64decode_encode,
    sound.chacha_correct dek nonce _ [], Option.bind_some, utf8Decode_encode]

end Platform
end PhantomShare
