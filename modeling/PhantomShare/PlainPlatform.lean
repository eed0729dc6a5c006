import Mathlib.Data.Nat.Digits.Defs
import PhantomShare.Platform

/-!
# A platform that keeps its promises

Transparent stand-ins for the third-party functions: texts that spell out their
data, hashes that are the hashed text, and a cipher that appends a tag. They keep
every promise of `Platform.Sound`, which is therefore consistent, and they
compute, so that runs on concrete requests can be evaluated.
-/
namespace PhantomShare.Plain
open Foundations

/-- Every character of a word stands behind `=`, and a dot ends the word. -/
def spellWord (word : List Char) : List Char := word.flatMap (fun c => ['=', c]) ++ ['.']

def readWords : List Char → Option (List (List Char))
  | [] => some []
  | '.' :: rest => (readWords rest).map ([] :: ·)
  | '=' :: c :: rest =>
    match readWords rest with
    | some (word :: words) => some ((c :: word) :: words)
    | _ => none
  | _ => none

theorem readWords_spellWord (word : List Char) (rest : List Char) (words : List (List Char))
    (h : readWords rest = some words) :
    readWords (spellWord word ++ rest) = some (word :: words) := by
  induction word with
  | nil => simp [spellWord, readWords, h]
  | cons c word ih =>
    have hcons : spellWord (c :: word) ++ rest = '=' :: c :: (spellWord word ++ rest) := by
      simp [spellWord]
    rw [hcons, readWords, ih]

theorem readWords_spell (words : List (List Char)) :
    readWords (words.flatMap spellWord) = some words := by
  induction words with
  | nil => rfl
  | cons word words ih =>
    rw [List.flatMap_cons]
    exact readWords_spellWord word _ words ih

def spellNat (n : ℕ) : List Char := (Nat.digits 10 n).map Char.ofNat

def readNat (word : List Char) : ℕ := Nat.ofDigits 10 (word.map Char.toNat)

theorem toNat_ofNat {n : ℕ} (h : n < 256) : (Char.ofNat n).toNat = n := by
  have hvalid : n.isValidChar := Or.inl (by omega)
  rw [Char.ofNat, dif_pos hvalid]
  rfl

theorem readNat_spellNat (n : ℕ) : readNat (spellNat n) = n := by
  have hdigits : (Nat.digits 10 n).map (Char.toNat ∘ Char.ofNat) = Nat.digits 10 n := by
    nth_rewrite 2 [← List.map_id (Nat.digits 10 n)]
    apply List.map_congr_left
    intro d hd
    apply toNat_ofNat
    have hlt := Nat.digits_lt_base (by decide) hd
    omega
  rw [readNat, spellNat, List.map_map, hdigits, Nat.ofDigits_digits]

def spellOption : Option String → List Char
  | none => []
  | some text => 's' :: text.toList

def readOption : List Char → Option String
  | [] => none
  | _ :: text => some (String.ofList text)

theorem readOption_spellOption (text : Option String) : readOption (spellOption text) = text := by
  cases text with
  | none => rfl
  | some text => simp [spellOption, readOption]

def spellClaims (claims : Claims) : String :=
  String.ofList ([spellOption claims.sub, spellOption claims.role, spellOption claims.sid,
    spellNat claims.jti.toNat, spellNat claims.exp, spellNat claims.iat,
    claims.type.toList].flatMap spellWord)

def readClaims (text : String) : Option Claims :=
  match readWords text.toList with
  | some [sub, role, sid, jti, exp, iat, type] =>
    some ⟨readOption sub, readOption role, readOption sid, BitVec.ofNat 128 (readNat jti),
      readNat exp, readNat iat, String.ofList type⟩
  | _ => none

theorem readClaims_spellClaims (claims : Claims) :
    readClaims (spellClaims claims) = some claims := by
  simp only [readClaims, spellClaims, String.toList_ofList, readWords_spell,
    readOption_spellOption, readNat_spellNat, String.ofList_toList, BitVec.ofNat_toNat,
    BitVec.setWidth_eq]

def spellBytes (bytes : Bytes) : String :=
  String.ofList (bytes.map fun b => Char.ofNat b.toNat)

def readBytes (text : String) : Option Bytes :=
  text.toList.mapM fun c => if c.toNat < 256 then some (UInt8.ofNat c.toNat) else none

theorem readBytes_spellBytes (bytes : Bytes) : readBytes (spellBytes bytes) = some bytes := by
  rw [readBytes, spellBytes, String.toList_ofList]
  induction bytes with
  | nil => rfl
  | cons b bytes ih =>
    have hb := b.toNat_lt
    rw [List.map_cons, List.mapM_cons, ih]
    simp [toNat_ofNat hb, hb]

def readUuid (text : String) : Option UUID := some (BitVec.ofNat 128 (readNat text.toList))

/-- A nonempty row of decimal digits, with an optional sign. -/
def readDigits (n : ℕ) : List Char → Option ℕ
  | [] => some n
  | c :: rest =>
    if '0' ≤ c ∧ c ≤ '9' then readDigits (10 * n + (c.toNat - '0'.toNat)) rest else none

def readInt : List Char → Option ℤ
  | [] => none
  | ['-'] => none
  | '-' :: digits => (readDigits 0 digits).map fun n => -(n : ℤ)
  | digits => (readDigits 0 digits).map Int.ofNat

/-- Two letters for a byte. -/
def spellByte (b : UInt8) : List Char :=
  [Char.ofNat (97 + b.toNat / 16), Char.ofNat (97 + b.toNat % 16)]

def readByte (high low : Char) : UInt8 :=
  UInt8.ofNat ((high.toNat - 97) * 16 + (low.toNat - 97))

theorem readByte_spellByte (b : UInt8) :
    readByte (Char.ofNat (97 + b.toNat / 16)) (Char.ofNat (97 + b.toNat % 16)) = b := by
  have hb := b.toNat_lt
  have hmod := Nat.mod_lt b.toNat (show 0 < 16 by decide)
  rw [readByte, toNat_ofNat (by omega), toNat_ofNat (by omega), Nat.add_sub_cancel_left,
    Nat.add_sub_cancel_left, Nat.div_add_mod', UInt8.ofNat_toNat]

def readLetters : List Char → Bytes
  | high :: low :: rest => readByte high low :: readLetters rest
  | _ => []

/-- A text of letters for every byte string. -/
def spellLetters (bytes : Bytes) : String := String.ofList (bytes.flatMap spellByte)

theorem spellLetters_injective : Function.Injective spellLetters := by
  apply @Function.LeftInverse.injective _ _ (fun text => readLetters text.toList)
  intro bytes
  simp only [spellLetters, String.toList_ofList]
  induction bytes with
  | nil => rfl
  | cons b bytes ih =>
    rw [List.flatMap_cons, spellByte, List.cons_append, List.cons_append, List.nil_append,
      readLetters, readByte_spellByte, ih]

/-- A cipher that appends a tag of sixteen zeros. -/
def cipher : Aead Bytes where
  encrypt _ _ data _ := data ++ List.replicate 16 0
  decrypt _ _ data _ := some (data.take (data.length - 16))

theorem cipher_correct : cipher.Correct := by
  intro key nonce plaintext aad
  simp [cipher]

end Plain

open Plain

/-- The stand-ins; passwords are their own hashes, and a token is valid until it expires. -/
def Platform.plain (settings : Settings) : Platform where
  settings := settings
  kek := []
  chacha := cipher
  b64encode := spellBytes
  b64decode := readBytes
  b64decodeStrict := readBytes
  sha256Hex := id
  fileSha256 := spellBytes
  hmacSha256Hex key message := spellLetters (utf8Encode (key ++ message))
  parseInt text := readInt text.toList
  uuidText id := String.ofList (spellNat id.toNat)
  parseUuid := readUuid
  jwtEncode := spellClaims
  jwtDecode text now := (readClaims text).filter fun claims => now < claims.exp
  verifyPassword password hash := password = hash
  countryForIp _ := none
  validateEmails emails := some emails
  upper := String.toUpper

theorem Platform.plain_sound (settings : Settings) : (Platform.plain settings).Sound where
  chacha_correct := cipher_correct
  b64decode_encode := readBytes_spellBytes
  parseUuid_text id := by
    change readUuid (String.ofList (spellNat id.toNat)) = some id
    simp [readUuid, readNat_spellNat]
  tokenHash_injective := by
    intro a b hab
    have hread := congrArg readClaims (show spellClaims a = spellClaims b from hab)
    rw [readClaims_spellClaims, readClaims_spellClaims] at hread
    exact Option.some.inj hread

theorem Platform.plain_telling (settings : Settings) : (Platform.plain settings).Telling where
  parseUuid_text := (plain_sound settings).parseUuid_text
  sid_of_hash claims claims' h := by rw [(plain_sound settings).tokenHash_injective h]
  decode_encode claims now decoded h := by
    change (readClaims (spellClaims claims)).filter (fun c => now < c.exp) = some decoded at h
    rw [readClaims_spellClaims, Option.filter_eq_some_iff, Option.some.injEq] at h
    rw [h.1]
    exact ⟨rfl, rfl⟩

/-- The stand-ins under the default settings. -/
def samplePlatform : Platform :=
  .plain
    { signedUrlSecret := "s", baseUrl := "", jwtAccessTokenExpireMinutes := 15
      jwtRefreshTokenExpireDays := 7 }

def sampleUser : User := ⟨1, "ada@example.org", "pw", .user, true, true, none⟩

def sampleUsers : Foundations.Table User.id := ⟨[sampleUser], List.nodup_singleton _⟩

end PhantomShare
