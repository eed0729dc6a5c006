import PhantomShare.Core.Security
import PhantomShare.PlainPlatform

/-!
# What the verification of a share token raises

A Python string is a list of code points, lone surrogates included, while a Lean string holds
none. `verify_signed_token` is therefore stated here on code points, agrees with the model on
strings wherever a token has no surrogate, and refuses every token with 403 unless a token of the
right shape is exposed: its signature is not ASCII, or its secret id cannot be encoded.
-/
namespace PhantomShare.Access
open Foundations Security

abbrev CodePoint := Fin 0x110000

/-- A Python string. -/
abbrev Text := List CodePoint

def CodePoint.IsSurrogate (c : CodePoint) : Prop := ¬ c.val.isValidChar

instance (c : CodePoint) : Decidable c.IsSurrogate := by
  unfold CodePoint.IsSurrogate
  infer_instance

def pointOf (c : Char) : CodePoint :=
  ⟨c.toNat, by rcases c.valid with h | h <;> simp only [Char.toNat] <;> omega⟩

def textOf (s : String) : Text := s.toList.map pointOf

def charOf (c : CodePoint) : Option Char :=
  if h : c.val.isValidChar then some (Char.ofNatAux c.val h) else none

/-- The characters of a string, where every code point is one. -/
def stringOf (text : Text) : Option String := (text.mapM charOf).map String.ofList

@[simp] theorem charOf_pointOf (c : Char) : charOf (pointOf c) = some c := by
  have hvalid : (pointOf c).val.isValidChar := c.valid
  rw [charOf, dif_pos hvalid]
  rfl

theorem pointOf_injective : Function.Injective pointOf := by
  intro c d h
  have hchars := congrArg charOf h
  rwa [charOf_pointOf, charOf_pointOf, Option.some.injEq] at hchars

theorem charOf_eq_none_iff (c : CodePoint) : charOf c = none ↔ c.IsSurrogate := by
  unfold charOf CodePoint.IsSurrogate
  by_cases hvalid : c.val.isValidChar
  · rw [dif_pos hvalid]
    exact iff_of_false (Option.some_ne_none _) (not_not.mpr hvalid)
  · rw [dif_neg hvalid]
    exact iff_of_true rfl hvalid

theorem mapM_charOf (chars : List Char) : (chars.map pointOf).mapM charOf = some chars := by
  induction chars with
  | nil => rfl
  | cons c chars ih => simp [ih]

@[simp] theorem stringOf_textOf (s : String) : stringOf (textOf s) = some s := by
  rw [stringOf, textOf, mapM_charOf, Option.map_some, String.ofList_toList]

theorem textOf_injective : Function.Injective textOf := by
  intro s t h
  have hstrings := congrArg stringOf h
  rwa [stringOf_textOf, stringOf_textOf, Option.some.injEq] at hstrings

theorem textOf_append (s t : String) : textOf (s ++ t) = textOf s ++ textOf t := by
  simp [textOf]

/-- Only a surrogate keeps a text from being encoded. -/
theorem stringOf_eq_none_iff (text : Text) : stringOf text = none ↔ ∃ c ∈ text, c.IsSurrogate := by
  unfold stringOf
  rw [Option.map_eq_none_iff]
  induction text with
  | nil => simp
  | cons c text ih =>
    have hhead := charOf_eq_none_iff c
    rw [List.mapM_cons]
    simp only [List.mem_cons, exists_eq_or_imp, ← ih, ← hhead]
    cases charOf c <;> cases text.mapM charOf <;> simp

theorem not_surrogate_of_string {text : Text} {s : String} (h : stringOf text = some s) :
    ∀ c ∈ text, ¬ c.IsSurrogate := by
  have hnone : stringOf text ≠ none := by simp [h]
  rw [Ne, stringOf_eq_none_iff] at hnone
  push Not at hnone
  exact hnone

theorem not_surrogate_of_textOf (s : String) : ∀ c ∈ textOf s, ¬ c.IsSurrogate :=
  not_surrogate_of_string (stringOf_textOf s)

/-! ### The parser on code points -/

/-- `str.split(sep, n)`. -/
def splitText (sep : CodePoint) : ℕ → Text → List Text
  | 0, text => [text]
  | n + 1, text =>
    match text.span (· ≠ sep) with
    | (part, []) => [part]
    | (part, _ :: rest) => part :: splitText sep n rest

/-- `str.rsplit(sep, n)`. -/
def rsplitText (sep : CodePoint) (n : ℕ) (text : Text) : List Text :=
  ((splitText sep n text.reverse).map List.reverse).reverse

def dot : CodePoint := pointOf '.'

variable (P : Platform)

/-- `int(text)`; a surrogate is no digit. -/
def intOfText (text : Text) : Option ℤ := (stringOf text).bind P.parseInt

/-- What `verify_signed_token` reads off a token of code points. -/
structure SignedText where
  secretId : Text
  ts : Text
  policyVersion : ℤ
  payload : Text
  sig : Text

/-- Tokens issued before location policies existed map to policy version 1. -/
def parseSignedText (token : Text) : Option SignedText :=
  match rsplitText dot 3 token with
  | [secretId, ts, policy, sig] =>
    (intOfText P policy).map fun version =>
      ⟨secretId, ts, version,
        secretId ++ dot :: ts ++ dot :: textOf (toString version), sig⟩
  | [secretId, ts, sig] => some ⟨secretId, ts, 1, secretId ++ dot :: ts, sig⟩
  | _ => none

/-- `verify_signed_token`: `payload.encode()` raises on a surrogate, and `hmac.compare_digest` on a
text that is not ASCII. -/
def verifySignedText (token : Text) (expectedPolicyVersion : Option ℤ) (now : Timestamp) :
    Except Exn Text := do
  let some parts := parseSignedText P token | throw (httpError 403 "Invalid share token")
  let some ts := intOfText P parts.ts | throw (httpError 403 "Invalid share token")
  if ts * second < now then throw (httpError 403 "Share token has expired")
  let some payload := stringOf parts.payload
    | throw (.valueError "'utf-8' codec can't encode characters: surrogates not allowed")
  if parts.sig.any fun c => 128 ≤ c.val then
    throw (.typeError "comparing strings with non-ASCII characters is not supported")
  if parts.sig ≠ textOf (P.hmacSha256Hex P.settings.signedUrlSecret payload) then
    throw (httpError 403 "Invalid share token signature")
  if ∃ version ∈ expectedPolicyVersion, parts.policyVersion ≠ version then
    throw (httpError 403 "Share token policy is no longer current")
  return parts.secretId

/-! ### Agreement with the model on strings -/

theorem textOf_joined (s t : String) :
    textOf (toString s ++ toString "." ++ toString t) = textOf s ++ dot :: textOf t := by
  have hdot : textOf "." = [dot] := by decide
  change textOf (s ++ "." ++ t) = _
  rw [textOf_append, textOf_append, hdot, List.append_assoc, List.singleton_append]

theorem span_map_pointOf (sep : Char) (chars : List Char) :
    (chars.map pointOf).span (· ≠ pointOf sep) =
      ((chars.span (· ≠ sep)).1.map pointOf, (chars.span (· ≠ sep)).2.map pointOf) := by
  simp only [List.span_eq_takeWhile_dropWhile, List.takeWhile_map, List.dropWhile_map]
  have hsame : (fun c => decide (c ≠ pointOf sep)) ∘ pointOf = fun c => decide (c ≠ sep) := by
    funext c
    simp [pointOf_injective.eq_iff]
  rw [hsame]

theorem splitText_map (sep : Char) (n : ℕ) (chars : List Char) :
    splitText (pointOf sep) n (chars.map pointOf) = (split sep n chars).map (List.map pointOf) := by
  induction n generalizing chars with
  | zero => rfl
  | succ n ih =>
    rw [splitText, split, span_map_pointOf]
    rcases chars.span (· ≠ sep) with ⟨part, _ | ⟨c, rest⟩⟩
    · rfl
    · simp [ih]

theorem rsplitText_textOf (token : String) :
    rsplitText dot 3 (textOf token) =
      ((rsplit '.' 3 token.toList).map String.ofList).map textOf := by
  have hreverse : (textOf token).reverse = token.toList.reverse.map pointOf := by simp [textOf]
  rw [rsplitText, hreverse, dot, splitText_map, rsplit]
  simp [textOf, Function.comp_def]

@[simp] theorem intOfText_textOf (s : String) : intOfText P (textOf s) = P.parseInt s := by
  simp [intOfText]

/-- The code points of what is read off a string. -/
def SignedText.ofString (parts : SignedToken) : SignedText where
  secretId := textOf parts.secretId
  ts := textOf parts.ts
  policyVersion := parts.policyVersion
  payload := textOf parts.payload
  sig := textOf parts.sig

theorem parseSignedText_textOf (token : String) :
    parseSignedText P (textOf token) = (parseSignedToken P token).map SignedText.ofString := by
  rw [parseSignedText, parseSignedToken, rsplitText_textOf]
  generalize (rsplit '.' 3 token.toList).map String.ofList = pieces
  match pieces with
  | [] => rfl
  | [_] => rfl
  | [_, _] => rfl
  | [_, _, _] => simp only [List.map_cons, List.map_nil, Option.map_some, SignedText.ofString,
      textOf_joined]
  | [secretId, ts, policy, _] =>
    simp only [List.map_cons, List.map_nil, intOfText_textOf]
    cases P.parseInt policy with
    | none => rfl
    | some version =>
      have hwhole : textOf s!"{secretId}.{ts}.{version}" =
          textOf s!"{secretId}.{ts}" ++ dot :: textOf (toString version) :=
        textOf_joined s!"{secretId}.{ts}" (toString version)
      simp only [Option.map_some, SignedText.ofString, hwhole, textOf_joined]
  | _ :: _ :: _ :: _ :: _ :: _ => rfl

theorem any_textOf (s : String) :
    ((textOf s).any fun c => 128 ≤ c.val) = s.toList.any fun c => 128 ≤ c.toNat := by
  simp only [textOf, List.any_map]
  rfl

/-- On a token without surrogates both models give the same. -/
theorem verifySignedText_textOf (token : String) (version : ℕ) (now : Timestamp) :
    verifySignedText P (textOf token) (some (version : ℤ)) now =
      (verifySignedToken P token version now).map textOf := by
  rw [verifySignedText, verifySignedToken, parseSignedText_textOf]
  cases parseSignedToken P token with
  | none => rfl
  | some parts =>
    simp only [Option.map_some, SignedText.ofString, intOfText_textOf, stringOf_textOf, any_textOf,
      textOf_injective.ne_iff, Option.mem_some_iff, exists_eq_left']
    cases P.parseInt parts.ts with
    | none => rfl
    | some ts =>
      simp only
      split_ifs <;> rfl

/-! ### The exact condition -/

/-- The token splits into a secret id, a timestamp and a signature, and its policy version, if it
has one, is a number. -/
def Splits (token secretId ts sig : Text) : Prop :=
  rsplitText dot 3 token = [secretId, ts, sig] ∨
    ∃ policy, rsplitText dot 3 token = [secretId, ts, policy, sig] ∧
      (intOfText P policy).isSome = true

/-- A token of the right shape, not past, whose secret id holds a lone surrogate or whose signature
is not ASCII. -/
def Exposed (token : Text) (now : Timestamp) : Prop :=
  ∃ secretId ts sig, Splits P token secretId ts sig ∧
    (∃ n, intOfText P ts = some n ∧ (now : ℤ) ≤ n * second) ∧
    ((∃ c ∈ secretId, c.IsSurrogate) ∨ ∃ c ∈ sig, 128 ≤ c.val)

/-- Refusals and successes: what a caller of `verify_signed_token` is told to expect. -/
def Proper (result : Except Exn Text) : Prop :=
  (∃ secretId, result = .ok secretId) ∨ ∃ detail, result = .error (.http 403 detail)

theorem proper_ok (secretId : Text) : Proper (.ok secretId) := .inl ⟨secretId, rfl⟩

theorem proper_refusal (message : String) : Proper (.error (httpError 403 message)) :=
  .inr ⟨.text message, rfl⟩

theorem not_proper_valueError (message : String) : ¬ Proper (.error (.valueError message)) := by
  rintro (⟨_, h⟩ | ⟨_, h⟩) <;> cases h

theorem not_proper_typeError (message : String) : ¬ Proper (.error (.typeError message)) := by
  rintro (⟨_, h⟩ | ⟨_, h⟩) <;> cases h

theorem exists_parse_iff (token secretId ts sig : Text) :
    (∃ parts, parseSignedText P token = some parts ∧
      parts.secretId = secretId ∧ parts.ts = ts ∧ parts.sig = sig) ↔
      Splits P token secretId ts sig := by
  unfold parseSignedText Splits
  match rsplitText dot 3 token with
  | [] => simp
  | [_] => simp
  | [_, _] => simp
  | [_, _, _] => simp
  | [_, _, policy, _] => cases hpolicy : intOfText P policy <;> simp [hpolicy]
  | _ :: _ :: _ :: _ :: _ :: _ => simp

/-- The payload cannot be encoded exactly where the secret id cannot. -/
theorem payload_surrogate_iff {token : Text} {parts : SignedText} {ts : ℤ}
    (hparts : parseSignedText P token = some parts) (hts : intOfText P parts.ts = some ts) :
    stringOf parts.payload = none ↔ ∃ c ∈ parts.secretId, c.IsSurrogate := by
  rw [stringOf_eq_none_iff]
  have hdot : ¬ dot.IsSurrogate := by decide
  have hclean : ∀ c ∈ parts.ts, ¬ c.IsSurrogate := by
    rw [intOfText, Option.bind_eq_some_iff] at hts
    rcases hts with ⟨text, htext, _⟩
    exact not_surrogate_of_string htext
  unfold parseSignedText at hparts
  split at hparts
  · rw [Option.map_eq_some_iff] at hparts
    rcases hparts with ⟨version, _, rfl⟩
    have hversion := not_surrogate_of_textOf (toString version)
    simp only [List.mem_append, List.mem_cons] at *
    grind
  · cases hparts
    simp only [List.mem_append, List.mem_cons] at *
    grind
  · cases hparts

/-- Verification returns the secret id or refuses with 403 exactly for the tokens that are not
exposed. -/
theorem verifySignedText_proper_iff (token : Text) (expectedPolicyVersion : Option ℤ)
    (now : Timestamp) :
    Proper (verifySignedText P token expectedPolicyVersion now) ↔ ¬ Exposed P token now := by
  have hexposed : Exposed P token now ↔ ∃ parts, parseSignedText P token = some parts ∧
      (∃ n, intOfText P parts.ts = some n ∧ (now : ℤ) ≤ n * second) ∧
      ((∃ c ∈ parts.secretId, c.IsSurrogate) ∨ ∃ c ∈ parts.sig, 128 ≤ c.val) := by
    simp only [Exposed, ← exists_parse_iff]
    constructor
    · rintro ⟨_, _, _, ⟨parts, hparts, rfl, rfl, rfl⟩, hbad⟩
      exact ⟨parts, hparts, hbad⟩
    · rintro ⟨parts, hparts, hbad⟩
      exact ⟨_, _, _, ⟨parts, hparts, rfl, rfl, rfl⟩, hbad⟩
  rw [hexposed, verifySignedText]
  cases hparts : parseSignedText P token with
  | none => exact iff_of_true (proper_refusal _) (by simp)
  | some parts =>
    cases hts : intOfText P parts.ts with
    | none =>
      simp only [hts]
      exact iff_of_true (proper_refusal _) (by simp [hts])
    | some ts =>
      have hpayload := payload_surrogate_iff P hparts hts
      simp only [hts, Option.some.injEq, exists_eq_left', ← hpayload]
      by_cases hpast : ts * second < now
      · rw [if_pos hpast]
        exact iff_of_true (proper_refusal _) (by omega)
      rw [if_neg hpast]
      cases hencoded : stringOf parts.payload with
      | none =>
        exact iff_of_false (not_proper_valueError _) (by simpa using hpast)
      | some payload =>
        by_cases hascii : (parts.sig.any fun c => 128 ≤ c.val) = true
        · simp only [if_pos hascii]
          have hexists : ∃ c ∈ parts.sig, 128 ≤ c.val := by simpa using hascii
          exact iff_of_false (not_proper_typeError _) (not_not.mpr ⟨by omega, .inr hexists⟩)
        simp only [if_neg hascii]
        have hlive : ¬ ∃ c ∈ parts.sig, 128 ≤ c.val := by simpa using hascii
        have hsafe : ¬ ((now : ℤ) ≤ ts * second ∧
            (some payload = none ∨ ∃ c ∈ parts.sig, 128 ≤ c.val)) := by
          simp [hlive]
        split
        · exact iff_of_true (proper_refusal _) hsafe
        split
        · exact iff_of_true (proper_refusal _) hsafe
        · exact iff_of_true (proper_ok _) hsafe

/-- A signature with a character outside ASCII escapes as a `TypeError`. -/
theorem nonAscii_signature_escapes :
    ¬ Proper (verifySignedText samplePlatform (textOf "a.9999999999.é") (some 1) 0) := by
  have hraised : verifySignedText samplePlatform (textOf "a.9999999999.é") (some 1) 0 =
      .error (.typeError "comparing strings with non-ASCII characters is not supported") := by
    decide +kernel
  rw [hraised]
  exact not_proper_typeError _

end PhantomShare.Access
