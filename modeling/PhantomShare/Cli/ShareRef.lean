import Mathlib.Tactic.IntervalCases
import PhantomShare.Operations
import PhantomShare.Internet.NetUrl
import PhantomShare.PlainPlatform
import PhantomShare.Routers.Files
import PhantomShare.Routers.SecretAccess

/-!
# Share links and the command line

`parseShareRef` reads the id and the token back from the links that the server
builds, and from the link to the view page that `ping` makes of one.
-/
namespace PhantomShare.Cli
open Foundations NetUrl

def secretsPath : Bytes := ascii "/api/secrets/"

/-- The spaces of `unicode.IsSpace` in UTF-8. -/
def spaces : List Bytes :=
  [[0x09], [0x0A], [0x0B], [0x0C], [0x0D], [0x20], [0xC2, 0x85], [0xC2, 0xA0], [0xE1, 0x9A, 0x80],
    [0xE2, 0x80, 0xA8], [0xE2, 0x80, 0xA9], [0xE2, 0x80, 0xAF], [0xE2, 0x81, 0x9F],
    [0xE3, 0x80, 0x80]] ++ (List.range 11).map fun n => [0xE2, 0x80, 0x80 + UInt8.ofNat n]

/-- Drops the spaces at the front; each round drops one. -/
def trimFront (spaces : List Bytes) : ℕ → Bytes → Bytes
  | 0, text => text
  | rounds + 1, text =>
    match spaces.find? fun space => space.isPrefixOf text with
    | some space => trimFront spaces rounds (text.drop space.length)
    | none => text

/-- `strings.TrimSpace`. -/
def trimSpaceBytes (text : Bytes) : Bytes :=
  (trimFront (spaces.map List.reverse) text.length
    (trimFront spaces text.length text).reverse).reverse

/-- The id in what follows `/api/secrets/`, and whether it is the id of a file. -/
def parseSegments : List Bytes → Option (Bytes × Bool)
  | [] => none
  | first :: others =>
    match others with
    | second :: _ =>
      if first = ascii "view" then some (second, false) else some (first, second = ascii "file")
    | [] => some (first, false)

/-- `parseShareRef`: the id, the token and whether the link is that of a file. -/
def parseShareRef (raw : Bytes) : Bytes × Bytes × Bool :=
  let found : Option (Bytes × Bytes × Bool) := do
    let parsed ← NetUrl.parse raw
    let idx ← index secretsPath parsed.path
    let rest := trim (byte '/') (parsed.path.drop (idx + secretsPath.length))
    let (secretId, isFile) ← parseSegments (split (byte '/') rest)
    return (secretId, parsed.get (ascii "token"), isFile)
  found.getD (trimSpaceBytes raw, [], false)

/-- The link that `ping` sends. -/
def viewUrl (shareUrl : Bytes) : Bytes :=
  if (parseShareRef shareUrl).2.2 then shareUrl
  else replaceFirst secretsPath (ascii "/api/secrets/view/") shareUrl

example : parseShareRef (ascii "https://example.test/api/secrets/view/abc?token=signed%20token") =
    (ascii "abc", ascii "signed token", false) ∧
    parseShareRef (ascii "  abc-123  ") = (ascii "abc-123", [], false) ∧
    parseShareRef (ascii "/api/secrets/abc/file") = (ascii "abc", [], true) := by decide +kernel

/-! ### Links below a base -/

/-- The bytes of the text of a UUID. -/
def idByte (c : UInt8) : Bool := isHex c || c = byte '-'

theorem idByte_plain {c : UInt8} (h : idByte c = true) :
    isPlain c = true ∧ c ≠ byte '/' ∧ c ≠ byte 'v' := by
  have hall := @forall_byte (fun c => !idByte c || (isPlain c && c ≠ byte '/' && c ≠ byte 'v'))
    (by decide +kernel) c
  rw [h, Bool.not_true, Bool.false_or] at hall
  simpa [and_assoc] using hall

/-- No occurrence of `/api/secrets/` ends within what follows its first byte. -/
theorem infix_secretsPath {text : Bytes}
    (h : secretsPath <:+: (text ++ secretsPath).dropLast) : secretsPath <:+: text ++ [byte '/'] := by
  have hsplit : (text ++ secretsPath).dropLast = (text ++ [byte '/']) ++ ascii "api/secrets" := by
    rw [List.dropLast_append_of_ne_nil (by decide), List.append_assoc]
    rfl
  rw [hsplit] at h
  exact infix_of_append (by decide +kernel) h

section Links
variable (b : Base) {id token : Bytes}

/-- What follows `/api/secrets/` in the path of a link. -/
def segments (id : Bytes) (isFile : Bool) : Bytes := id ++ if isFile then ascii "/file" else []

def link (id token : Bytes) (isFile : Bool) : Bytes :=
  b.text ++ (secretsPath ++ segments id isFile) ++ byte '?' :: (ascii "token" ++ byte '=' :: token)

/-- The path of a link decides how it is read. -/
theorem parseShareRef_below {rest id : Bytes} {isFile : Bool}
    (hclear : ¬ secretsPath <:+: b.decoded ++ [byte '/'])
    (hplain : ∀ c ∈ rest, isPlain c = true) (htoken : ∀ c ∈ token, isPlain c = true)
    (hsegments : parseSegments (split (byte '/') (trim (byte '/') rest)) = some (id, isFile)) :
    parseShareRef (b.text ++ (secretsPath ++ rest) ++
      byte '?' :: (ascii "token" ++ byte '=' :: token)) = (id, token, isFile) := by
  have hpath : ∀ c ∈ secretsPath ++ rest, isPlain c = true := by
    intro c hc
    rcases List.mem_append.mp hc with hc | hc
    · exact (forall_mem_of_all (by decide) : ∀ c ∈ secretsPath, isPlain c = true) c hc
    · exact hplain c hc
  have hquery : ∀ c ∈ ascii "token" ++ byte '=' :: token, isVisible c = true := by
    intro c hc
    simp only [List.mem_append, List.mem_cons] at hc
    rcases hc with hc | rfl | hc
    · exact (forall_mem_of_all (by decide) : ∀ c ∈ ascii "token", isVisible c = true) c hc
    · decide
    · exact (isVisible_of_isPlain (htoken c hc)).1
  have hindex : index secretsPath (b.decoded ++ (secretsPath ++ rest)) = some b.decoded.length := by
    rw [← List.append_assoc]
    exact index_append fun h => hclear (infix_secretsPath h)
  have hdrop : (b.decoded ++ (secretsPath ++ rest)).drop (b.decoded.length + secretsPath.length) =
      rest := by
    rw [← List.append_assoc, ← List.length_append, List.drop_left]
  rw [parseShareRef, b.parse_below rfl hpath hquery]
  simp only [Option.bind_eq_bind, Option.bind_some, hindex, hdrop, hsegments,
    get_single (forall_mem_of_all (by decide) : ∀ c ∈ ascii "token", isPlain c = true) htoken]
  rfl

theorem segments_parse (hid : ∀ c ∈ id, idByte c = true) (hne : id ≠ []) (isFile : Bool) :
    parseSegments (split (byte '/') (trim (byte '/') (segments id isFile))) = some (id, isFile) := by
  have hslash : byte '/' ∉ id := fun hc => (idByte_plain (hid _ hc)).2.1 rfl
  have hhead : id.head? ≠ some (byte '/') := fun h => hslash (List.mem_of_head? h)
  cases isFile with
  | false =>
    have hlast : id.getLast? ≠ some (byte '/') := fun h => hslash (List.mem_of_getLast? h)
    have hsegments : segments id false = id := List.append_nil _
    rw [hsegments, trim_eq hhead hlast, split_single hslash]
    rfl
  | true =>
    have hsegments : segments id true = id ++ byte '/' :: ascii "file" := rfl
    have hview : id ≠ ascii "view" := by
      rintro rfl
      exact absurd (hid (byte 'v') (by decide)) (by decide)
    have htrim : trim (byte '/') (segments id true) = segments id true := by
      apply trim_eq
      · rw [segments, List.head?_append_of_ne_nil _ hne]
        exact hhead
      · rw [hsegments, List.getLast?_append_of_ne_nil _ (List.cons_ne_nil _ _)]
        decide
    rw [htrim, hsegments, split_pair hslash (by decide)]
    simp only [parseSegments, if_neg hview]
    rfl

theorem parseShareRef_link (hclear : ¬ secretsPath <:+: b.decoded ++ [byte '/'])
    (hid : ∀ c ∈ id, idByte c = true) (hne : id ≠ []) (htoken : ∀ c ∈ token, isPlain c = true)
    (isFile : Bool) : parseShareRef (link b id token isFile) = (id, token, isFile) := by
  apply parseShareRef_below b hclear _ htoken (segments_parse hid hne isFile)
  intro c hc
  rcases List.mem_append.mp hc with hc | hc
  · exact (idByte_plain (hid c hc)).1
  · cases isFile
    · exact absurd hc List.not_mem_nil
    · exact (forall_mem_of_all (by decide) : ∀ c ∈ ascii "/file", isPlain c = true) c hc

theorem view_parse (hid : ∀ c ∈ id, idByte c = true) (hne : id ≠ []) :
    parseSegments (split (byte '/') (trim (byte '/') (ascii "view/" ++ id))) = some (id, false) := by
  have hslash : byte '/' ∉ id := fun hc => (idByte_plain (hid _ hc)).2.1 rfl
  have htrim : trim (byte '/') (ascii "view/" ++ id) = ascii "view/" ++ id := by
    have hhead : (ascii "view/" ++ id).head? = some (byte 'v') := rfl
    apply trim_eq
    · rw [hhead]
      decide
    · rw [List.getLast?_append_of_ne_nil _ hne]
      exact fun h => hslash (List.mem_of_getLast? h)
  have hsplit : ascii "view/" ++ id = ascii "view" ++ byte '/' :: id := rfl
  rw [htrim, hsplit, split_pair (by decide) hslash]
  rfl

/-- A base that ends in `/api/secrets`, of which `ping` replaces the end. -/
theorem replaceFirst_overlap {before after : Bytes} (htext : b.text = before ++ ascii "/api/secrets")
    (hraw : ¬ secretsPath <:+: b.text) :
    replaceFirst secretsPath (ascii "/api/secrets/view/") (b.text ++ secretsPath ++ after) =
      b.text ++ ascii "/view" ++ (secretsPath ++ after) := by
  have hdrop : (before ++ secretsPath).dropLast = b.text := by
    rw [List.dropLast_append_of_ne_nil (by decide), htext]
    rfl
  have hsplit : b.text ++ secretsPath ++ after =
      before ++ secretsPath ++ (ascii "api/secrets/" ++ after) := by
    rw [htext]
    simp [secretsPath, ascii]
  rw [hsplit, replaceFirst_append (hdrop ▸ hraw), htext]
  simp [secretsPath, ascii]

theorem parseShareRef_view (hclear : ¬ secretsPath <:+: b.decoded ++ [byte '/'])
    (hraw : ¬ secretsPath <:+: b.text) (hid : ∀ c ∈ id, idByte c = true) (hne : id ≠ [])
    (htoken : ∀ c ∈ token, isPlain c = true) :
    parseShareRef (viewUrl (link b id token false)) = (id, token, false) := by
  have hlink := parseShareRef_link b hclear hid hne htoken false
  have hsplit : link b id token false =
      b.text ++ secretsPath ++ (id ++ byte '?' :: (ascii "token" ++ byte '=' :: token)) := by
    simp [link, segments]
  rw [viewUrl, hlink, if_neg Bool.false_ne_true, hsplit]
  by_cases hfirst : secretsPath <:+: (b.text ++ secretsPath).dropLast
  · -- the base ends in `/api/secrets`: the view link is a share link below another base
    have hconcat := List.infix_concat_iff.mp (infix_secretsPath hfirst)
    obtain ⟨before, hbefore⟩ := hconcat.resolve_right hraw
    have htext : b.text = before ++ ascii "/api/secrets" := by
      have hparts : before ++ secretsPath = before ++ ascii "/api/secrets" ++ [byte '/'] := by
        rw [List.append_assoc]
        rfl
      rw [hparts] at hbefore
      exact (List.append_cancel_right hbefore).symm
    have hrooted : (ascii "/view").head? = some (byte '/') := by decide
    have hview : ∀ c ∈ ascii "/view", isPlain c = true := forall_mem_of_all (by decide)
    have hbelow : ¬ secretsPath <:+: (b.below (ascii "/view") hrooted hview).decoded ++ [byte '/'] := by
      intro hinfix
      have hdecoded : (b.below (ascii "/view") hrooted hview).decoded ++ [byte '/'] =
          (b.decoded ++ [byte '/']) ++ ascii "view/" := by
        simp [Base.below, ascii, byte]
      rw [hdecoded] at hinfix
      exact hclear (infix_of_append (by decide +kernel) hinfix)
    have hparse := parseShareRef_link (b.below (ascii "/view") hrooted hview) hbelow hid hne htoken false
    rw [replaceFirst_overlap b htext hraw]
    rw [link, Base.below_text, segments] at hparse
    simpa using hparse
  · rw [replaceFirst_append hfirst]
    have hplain : ∀ c ∈ ascii "view/" ++ id, isPlain c = true := by
      intro c hc
      rcases List.mem_append.mp hc with hc | hc
      · exact (forall_mem_of_all (by decide) : ∀ c ∈ ascii "view/", isPlain c = true) c hc
      · exact (idByte_plain (hid c hc)).1
    have hparse := parseShareRef_below b hclear hplain htoken (view_parse hid hne)
    have hview : ascii "/api/secrets/view/" = secretsPath ++ ascii "view/" := rfl
    rw [hview]
    simpa using hparse

end Links

/-! ### The links of the server -/

theorem utf8Encode_append (s t : String) : utf8Encode (s ++ t) = utf8Encode s ++ utf8Encode t := by
  simp [utf8Encode, String.toByteArray_append]

/-- In ASCII every character is one byte. -/
theorem utf8Encode_ascii {s : String} (h : ∀ c ∈ s.toList, c.toNat < 0x80) :
    utf8Encode s = ascii s := by
  have hflat : ∀ l : List Char, (∀ c ∈ l, c.toNat < 0x80) →
      l.flatMap String.utf8EncodeChar = l.map fun c => UInt8.ofNat c.toNat := by
    intro l hl
    induction l with
    | nil => rfl
    | cons c l ih =>
      have hc : c.val.toNat ≤ 127 := Nat.lt_succ_iff.mp (hl c List.mem_cons_self)
      rw [List.flatMap_cons, ih fun d hd => hl d (List.mem_cons_of_mem _ hd),
        String.utf8EncodeChar, if_pos hc]
      rfl
  have hs : s = String.ofList s.toList := String.ofList_toList.symm
  rw [utf8Encode, hs, String.toByteArray_ofList, List.utf8Encode, List.toList_data_toByteArray,
    hflat _ h, ascii, String.toList_ofList]

variable (P : Platform)

/-- What the texts of UUIDs and the digests in hexadecimal are made of. -/
structure Spelled : Prop where
  uuid_chars : ∀ id, ∀ c ∈ (P.uuidText id).toList, c ∈ "0123456789abcdef-".toList
  uuid_nonempty : ∀ id, P.uuidText id ≠ ""
  digest_chars : ∀ key message, ∀ c ∈ (P.hmacSha256Hex key message).toList,
    c ∈ "0123456789abcdef".toList

/-- `share_url`. -/
def shareUrl (id : UUID) (payload : PayloadType) (token : String) : String :=
  let suffix := match payload with
    | .file => "/file"
    | .text => ""
  s!"{P.settings.baseUrl}/api/secrets/{P.uuidText id}{suffix}?token={token}"

/-- The command line reads a link of a secret, and the view link of a text secret. -/
def ReadsBack (id : UUID) (payload : PayloadType) (token url : String) : Prop :=
  parseShareRef (utf8Encode url) =
      (utf8Encode (P.uuidText id), utf8Encode token, decide (payload = .file)) ∧
    (payload = .text → parseShareRef (viewUrl (utf8Encode url)) =
      (utf8Encode (P.uuidText id), utf8Encode token, false))

/-! ### The characters of a token -/

def tokenChars : List Char := "0123456789abcdef-.".toList

/-- A text of the characters of a token. -/
def TokenText (text : String) : Prop := ∀ c ∈ text.toList, c ∈ tokenChars

theorem TokenText.append {a b : String} (ha : TokenText a) (hb : TokenText b) :
    TokenText (a ++ b) := by
  intro c hc
  rw [String.toList_append, List.mem_append] at hc
  exact hc.elim (ha c) (hb c)

theorem digit_mem {c : Char} (h : c.isDigit = true) : c ∈ tokenChars := by
  obtain ⟨hlow, hhigh⟩ := Char.isDigit_iff_toNat.mp h
  change 48 ≤ c.toNat at hlow
  change c.toNat ≤ 57 at hhigh
  rw [← Char.ofNat_toNat c]
  interval_cases c.toNat <;> decide

theorem tokenText_nat (n : ℕ) : TokenText (toString n) := by
  intro c hc
  rw [Nat.toString_eq_ofList_toDigits, String.toList_ofList] at hc
  exact digit_mem (Nat.isDigit_of_mem_toDigits (by decide) (by decide) hc)

variable {P}

theorem tokenText_signedToken (hP : Spelled P) (id : UUID) (ts version : ℕ) :
    TokenText (Security.createSignedToken P id ts version) := by
  have hdot : TokenText "." := by
    intro c hc
    rw [List.mem_singleton.mp hc]
    decide
  have huuid : TokenText (P.uuidText id) := by
    intro c hc
    exact (forall_mem_of_all (by decide) : ∀ c ∈ "0123456789abcdef-".toList, c ∈ tokenChars) c
      (hP.uuid_chars id c hc)
  have hpayload : TokenText s!"{P.uuidText id}.{ts}.{version}" :=
    (((huuid.append hdot).append (tokenText_nat ts)).append hdot).append (tokenText_nat version)
  have hdigest : TokenText
      (P.hmacSha256Hex P.settings.signedUrlSecret s!"{P.uuidText id}.{ts}.{version}") := by
    intro c hc
    exact (forall_mem_of_all (by decide) : ∀ c ∈ "0123456789abcdef".toList, c ∈ tokenChars) c
      (hP.digest_chars _ _ c hc)
  exact (hpayload.append hdot).append hdigest

theorem TokenText.bytes {text : String} (h : TokenText text) :
    utf8Encode text = ascii text ∧ ∀ c ∈ utf8Encode text, isPlain c = true := by
  have hascii : utf8Encode text = ascii text := by
    apply utf8Encode_ascii
    intro c hc
    exact (forall_mem_of_all (by decide) : ∀ c ∈ tokenChars, c.toNat < 0x80) c (h c hc)
  refine ⟨hascii, ?_⟩
  intro b hb
  rw [hascii] at hb
  obtain ⟨c, hc, rfl⟩ := List.mem_map.mp hb
  exact (forall_mem_of_all (by decide) : ∀ c ∈ tokenChars, isPlain (UInt8.ofNat c.toNat) = true) c
    (h c hc)

theorem uuid_bytes (hP : Spelled P) (id : UUID) :
    utf8Encode (P.uuidText id) ≠ [] ∧ ∀ b ∈ utf8Encode (P.uuidText id), idByte b = true := by
  have hascii : utf8Encode (P.uuidText id) = ascii (P.uuidText id) := by
    apply utf8Encode_ascii
    intro c hc
    exact (forall_mem_of_all (by decide) : ∀ c ∈ "0123456789abcdef-".toList, c.toNat < 0x80) c
      (hP.uuid_chars id c hc)
  rw [hascii]
  constructor
  · intro hnil
    apply hP.uuid_nonempty id
    rw [← String.toList_eq_nil_iff]
    exact List.map_eq_nil_iff.mp hnil
  · intro b hb
    obtain ⟨c, hc, rfl⟩ := List.mem_map.mp hb
    exact (forall_mem_of_all (by decide) :
      ∀ c ∈ "0123456789abcdef-".toList, idByte (UInt8.ofNat c.toNat) = true) c
      (hP.uuid_chars id c hc)

/-! ### The links that handlers return -/

section Handlers

theorem utf8Encode_shareUrl {b : Base} (hbase : utf8Encode P.settings.baseUrl = b.text) (id : UUID)
    (payload : PayloadType) (token : String) :
    utf8Encode (shareUrl P id payload token) =
      link b (utf8Encode (P.uuidText id)) (utf8Encode token) (decide (payload = .file)) := by
  have hpath : utf8Encode "/api/secrets/" = secretsPath := by decide +kernel
  have hquery : utf8Encode "?token=" = byte '?' :: (ascii "token" ++ [byte '=']) := by
    decide +kernel
  have hfile : utf8Encode "/file" = ascii "/file" := by decide +kernel
  cases payload with
  | file =>
    change utf8Encode (P.settings.baseUrl ++ "/api/secrets/" ++ P.uuidText id ++ "/file" ++
      "?token=" ++ token) = _
    simp [utf8Encode_append, hbase, hpath, hquery, hfile, link, segments]
  | text =>
    change utf8Encode (P.settings.baseUrl ++ "/api/secrets/" ++ P.uuidText id ++ "" ++
      "?token=" ++ token) = _
    simp [utf8Encode_append, hbase, hpath, hquery, link, segments]

theorem readsBack_shareUrl (hP : Spelled P) {b : Base}
    (hbase : utf8Encode P.settings.baseUrl = b.text)
    (hclear : ¬ secretsPath <:+: b.decoded ++ [byte '/']) (hraw : ¬ secretsPath <:+: b.text)
    (id : UUID) (payload : PayloadType) (ts version : ℕ) :
    ReadsBack P id payload (Security.createSignedToken P id ts version)
      (shareUrl P id payload (Security.createSignedToken P id ts version)) := by
  have hid := uuid_bytes hP id
  have htoken := (tokenText_signedToken hP id ts version).bytes.2
  constructor
  · rw [utf8Encode_shareUrl hbase]
    exact parseShareRef_link b hclear hid.2 hid.1 htoken _
  · rintro rfl
    rw [utf8Encode_shareUrl hbase]
    exact parseShareRef_view b hclear hraw hid.2 hid.1 htoken

/-- A transaction returns what its block returns. -/
theorem yields_transaction {α : Type} {label : PhantomShare.Label}
    {body : PhantomShare.Choice → Timestamp → Tx Database Exn α}
    {record : α → PhantomShare.Label} {Q : α → Prop}
    (h : ∀ choice now db value result, (body choice now).run db = .ok (value, result) → Q value) :
    (transaction label body record).Yields Q := by
  apply Program.yields_perform
  intro pid w choice w' value hact
  split at hact
  · cases hact
  · split at hact
    · rename_i hrun
      cases hact
      exact h choice w.now w.db _ _ hrun
    · rename_i hrun
      cases hact
      exact h choice w.now w.db _ _ hrun
    · cases hact

theorem yields_transaction_gives {α : Type} {label : PhantomShare.Label}
    {body : PhantomShare.Choice → Timestamp → Tx Database Exn α}
    {record : α → PhantomShare.Label} {Q : α → Prop}
    (h : ∀ choice now, (body choice now).Gives Q) : (transaction label body record).Yields Q := by
  apply yields_transaction
  intro choice now db value result hrun
  rcases Tx.run_ok hrun with ⟨c, hbody, _⟩
  exact h choice now _ _ _ hbody

/-- The tokens that are signed for a secret. -/
def IsToken (P : Platform) (id : UUID) (token : String) : Prop :=
  ∃ ts version, token = Security.createSignedToken P id ts version

theorem createTransaction_gives (id : UUID) (body : SecretCreate) (ownerId : UUID)
    (clientIp : String) (random : Random) (now : Timestamp) (log : AuditService.Logger) :
    (Secrets.createTransaction P id body ownerId clientIp random now log).Gives (IsToken P id) := by
  iterate 9
    apply Tx.gives_after
    intro _
  exact Tx.gives_pure ⟨_, _, rfl⟩

theorem createSecret_yields (body : SecretCreate) (user : CurrentUser) (clientIp : String)
    (log : AuditService.Logger) :
    (Secrets.createSecret P body user clientIp log).Yields fun response =>
      IsToken P response.secretId response.signedToken ∧
        response.shareUrl = shareUrl P response.secretId .text response.signedToken := by
  apply Program.yields_after
  intro reservation
  apply Program.yields_after
  intro id
  have htoken : (transaction .createSecret
      (fun choice now => Secrets.createTransaction P id body user.id clientIp choice.random now log)
      fun _ => .created id body.content).Yields (IsToken P id) := by
    apply yields_transaction_gives
    intro choice now
    exact createTransaction_gives id body user.id clientIp choice.random now log
  apply htoken.rethrow.bind
  intro token htoken
  apply Program.yields_after
  intro _
  apply Program.yields_after
  intro _
  apply Program.yields_after
  intro row
  cases row with
  | none => exact Program.yields_throw
  | some expiresAt => exact Program.yields_pure ⟨htoken, by simp [shareUrl, toString]⟩

theorem storeCreation_yields (pendingId : UUID) (objectKey : ObjectKey) (body : FileCreate)
    (encrypted : Files.Encrypted) (size : ℕ) (detail : String) (reservation : Reservation)
    (user : CurrentUser) (clientIp : String) :
    (Files.storeCreation P pendingId objectKey body encrypted size detail reservation user
      clientIp).Yields (IsToken P objectKey.secretId) := by
  iterate 6
    apply Program.yields_after
    intro _
  exact Program.yields_pure ⟨_, _, rfl⟩

theorem encryptAndStore_yields (pendingId : UUID) (body : FileCreate) (plaintext : Bytes)
    (size : ℕ) (detail : String) (reservation : Reservation) (user : CurrentUser)
    (clientIp : String) :
    (Files.encryptAndStore P pendingId body plaintext size detail reservation user clientIp).Yields
      fun stored => IsToken P stored.1 stored.2 := by
  apply Program.yields_after
  intro secretId
  apply Program.yields_after
  intro random
  apply Program.yields_after
  intro encrypted
  apply Program.yields_after
  intro nonce
  apply (storeCreation_yields pendingId ⟨secretId, 1, nonce⟩ body encrypted size detail reservation
    user clientIp).rethrow.bind
  intro token htoken
  exact Program.yields_pure htoken

theorem makeDurable_yields (pendingId : UUID) (body : FileCreate) (user : CurrentUser)
    (clientIp : String) :
    (Files.makeDurable P pendingId body user clientIp).Yields
      fun stored => IsToken P stored.1 stored.2.1 := by
  apply Program.yields_after
  rintro ⟨plaintext, size⟩
  apply Program.yields_after
  intro detail
  apply Program.yields_after
  intro reservation
  apply (encryptAndStore_yields pendingId body plaintext size detail reservation user
    clientIp).rethrow.bind
  rintro ⟨secretId, token⟩ htoken
  exact Program.yields_pure htoken

theorem createFileSecret_yields (body : FileCreate) (user : CurrentUser) (clientIp : String) :
    (Files.createFileSecret P body user clientIp).Yields fun response =>
      IsToken P response.secretId response.signedToken ∧
        response.shareUrl = shareUrl P response.secretId .file response.signedToken := by
  apply Program.yields_after
  intro reservation
  apply Program.yields_after
  intro pendingId
  apply (makeDurable_yields pendingId body user clientIp).rethrow.bind
  rintro ⟨secretId, token, size, byteReservation⟩ htoken
  apply Program.yields_after
  intro _
  apply Program.yields_after
  intro _
  have hurl : shareUrl P secretId .file token =
      P.settings.baseUrl ++ "/api/secrets/" ++ P.uuidText secretId ++ "/file?token=" ++ token := by
    change P.settings.baseUrl ++ "/api/secrets/" ++ P.uuidText secretId ++ "/file" ++ "?token=" ++
      token = _
    rw [@String.append_assoc _ "/file" "?token="]
    rfl
  exact Program.yields_pure ⟨htoken, hurl.symm⟩

theorem policyTransaction_gives {id : UUID} {body : LocationPolicyUpdate} {user : CurrentUser}
    {clientIp : String} {now : Timestamp} {log : AuditService.Logger} {db : Database}
    {version : ℕ} {token : String} {payload : PayloadType} {result : Option Database}
    (h : (SecretAccess.policyTransaction P id body user clientIp now log).run db =
      .ok ((version, token, payload), result)) :
    IsToken P id token ∧ ∃ secret, db.secrets.find id = some secret ∧
      payload = secret.payloadType := by
  rcases Tx.run_ok h with ⟨c, hbody, _⟩
  rcases Tx.bind_ok hbody with ⟨row, c₁, hrow, hbody⟩
  cases hrow
  dsimp only at hbody
  cases hfind : db.secrets.find id with
  | none =>
    rw [hfind] at hbody
    exact (Tx.throw_ok hbody).elim
  | some secret =>
    rw [hfind] at hbody
    rcases Tx.bind_ok hbody with ⟨row, c₂, _, hbody⟩
    cases row with
    | none => exact (Tx.throw_ok hbody).elim
    | some policy =>
      rcases Tx.bind_ok hbody with ⟨_, _, _, hbody⟩
      rcases Tx.bind_ok hbody with ⟨_, _, _, hbody⟩
      rcases Tx.bind_ok hbody with ⟨_, _, _, hbody⟩
      rcases Tx.bind_ok hbody with ⟨_, _, _, hbody⟩
      cases (Tx.pure_ok hbody).1
      exact ⟨⟨_, _, rfl⟩, secret, rfl, rfl⟩

theorem updateLocationPolicy_returns {id : UUID} {body : LocationPolicyUpdate} {user : CurrentUser}
    {clientIp : String} {log : AuditService.Logger} {states : List World}
    {response : LocationPolicyResponse}
    (h : (SecretAccess.updateLocationPolicy P id body user clientIp log).Returns states response) :
    ∃ w secret, states = [w] ∧ w.db.secrets.find id = some secret ∧ response.secretId = id ∧
      IsToken P id response.signedToken ∧
      response.shareUrl = shareUrl P id secret.payloadType response.signedToken := by
  cases states with
  | nil => exact (Program.not_returns_perform_bind h).elim
  | cons w rest =>
    obtain ⟨⟨version, token, payload⟩, ⟨pid, choice, w', hact⟩, hpure⟩ :=
      Program.returns_perform_bind.mp h
    obtain ⟨rfl, rfl⟩ := hpure
    have hrun : ∃ result, (SecretAccess.policyTransaction P id body user clientIp w.now log).run w.db =
        .ok ((version, token, payload), result) := by
      split at hact
      · cases hact
      · split at hact
        · rename_i hrun
          cases hact
          exact ⟨_, hrun⟩
        · rename_i hrun
          cases hact
          exact ⟨_, hrun⟩
        · cases hact
    obtain ⟨result, hrun⟩ := hrun
    obtain ⟨htoken, secret, hfind, rfl⟩ := policyTransaction_gives hrun
    refine ⟨w, secret, rfl, hfind, rfl, htoken, ?_⟩
    cases secret.payloadType <;> rfl

/-- Below a base whose decoded path does not contain `/api/secrets/`, ended by a slash, the command
line reads every link that the server builds. -/
theorem links_read_back (hP : Spelled P) {b : Base} (hbase : utf8Encode P.settings.baseUrl = b.text)
    (hclear : ¬ secretsPath <:+: b.decoded ++ [byte '/']) (hraw : ¬ secretsPath <:+: b.text) :
    (∀ id payload ts version,
      ReadsBack P id payload (Security.createSignedToken P id ts version)
        (shareUrl P id payload (Security.createSignedToken P id ts version))) ∧
    (∀ body user clientIp states response,
      (Secrets.createSecret P body user clientIp).Returns states response →
      ReadsBack P response.secretId .text response.signedToken response.shareUrl) ∧
    (∀ body user clientIp states response,
      (Files.createFileSecret P body user clientIp).Returns states response →
      ReadsBack P response.secretId .file response.signedToken response.shareUrl) ∧
    ∀ id body user clientIp states response,
      (SecretAccess.updateLocationPolicy P id body user clientIp).Returns states response →
      ∃ w secret, states = [w] ∧ w.db.secrets.find id = some secret ∧
        ReadsBack P id secret.payloadType response.signedToken response.shareUrl := by
  have hlinks := readsBack_shareUrl hP hbase hclear hraw
  refine ⟨hlinks, ?_, ?_, ?_⟩
  · intro body user clientIp states response h
    obtain ⟨⟨ts, version, htoken⟩, hurl⟩ := (createSecret_yields body user clientIp _).returns h
    rw [hurl, htoken]
    exact hlinks _ _ _ _
  · intro body user clientIp states response h
    obtain ⟨⟨ts, version, htoken⟩, hurl⟩ := (createFileSecret_yields body user clientIp).returns h
    rw [hurl, htoken]
    exact hlinks _ _ _ _
  · intro id body user clientIp states response h
    obtain ⟨w, secret, hstates, hfind, hid, ⟨ts, version, htoken⟩, hurl⟩ :=
      updateLocationPolicy_returns h
    refine ⟨w, secret, hstates, hfind, ?_⟩
    rw [hurl, htoken]
    exact hlinks _ _ _ _

end Handlers

section Sample

def hexChar (n : ℕ) : Char := "0123456789abcdef".toList.getD n '0'

/-- `str(UUID)`. -/
def spellUuid (id : UUID) : String :=
  let digits := (List.range 32).map fun i => hexChar (id.toNat / 16 ^ (31 - i) % 16)
  String.ofList (digits.take 8 ++ '-' :: (digits.drop 8).take 4 ++ '-' :: (digits.drop 12).take 4 ++
    '-' :: (digits.drop 16).take 4 ++ '-' :: digits.drop 20)

/-- The digest is that of the payload of `sampleToken`. -/
def linkPlatform (baseUrl : String) : Platform :=
  { samplePlatform with
    settings := { samplePlatform.settings with baseUrl := baseUrl }
    uuidText := spellUuid
    hmacSha256Hex := fun _ _ => "bf3030a30c0519bf70b9aa2809a960cf079a490c259a2b2a1f09f478f18da10e" }

def sampleToken : String := Security.createSignedToken (linkPlatform "") 7 86400 1

theorem spellUuid_chars (id : UUID) :
    ∀ c ∈ (spellUuid id).toList, c ∈ "0123456789abcdef-".toList := by
  have hdigit : ∀ n < 16, hexChar n ∈ "0123456789abcdef-".toList := by decide
  have hdigits : ∀ c ∈ (List.range 32).map fun i => hexChar (id.toNat / 16 ^ (31 - i) % 16),
      c ∈ "0123456789abcdef-".toList := by
    intro c hc
    obtain ⟨i, _, rfl⟩ := List.mem_map.mp hc
    exact hdigit _ (Nat.mod_lt _ (by decide))
  have hhyphen : '-' ∈ "0123456789abcdef-".toList := by decide
  intro c hc
  simp only [spellUuid, String.toList_ofList, List.mem_append, List.mem_cons, or_assoc] at hc
  rcases hc with hc | rfl | hc | rfl | hc | rfl | hc | rfl | hc
  · exact hdigits c (List.mem_of_mem_take hc)
  · exact hhyphen
  · exact hdigits c (List.mem_of_mem_drop (List.mem_of_mem_take hc))
  · exact hhyphen
  · exact hdigits c (List.mem_of_mem_drop (List.mem_of_mem_take hc))
  · exact hhyphen
  · exact hdigits c (List.mem_of_mem_drop (List.mem_of_mem_take hc))
  · exact hhyphen
  · exact hdigits c (List.mem_of_mem_drop hc)

theorem linkPlatform_spelled (baseUrl : String) : Spelled (linkPlatform baseUrl) where
  uuid_chars := spellUuid_chars
  uuid_nonempty id h := by
    have hnil : (spellUuid id).toList = [] := String.toList_eq_nil_iff.mpr h
    simp [spellUuid] at hnil
  digest_chars _ _ := by
    change ∀ c ∈ "bf3030a30c0519bf70b9aa2809a960cf079a490c259a2b2a1f09f478f18da10e".toList, _
    exact forall_mem_of_all (by decide)

/-- A base with a path that decodes to the given one. -/
def sampleBase (path decoded : Bytes) (hrooted : path = [] ∨ path.head? = some (byte '/'))
    (hbytes : ∀ c ∈ path, c ≠ byte '?' ∧ c ≠ byte '#' ∧ isControl c = false)
    (hdecoded : unescape .path path = some decoded) : Base where
  scheme := ascii "https"
  host := ascii "example.test"
  path := path
  decoded := decoded
  scheme_valid := ⟨_, _, rfl, by decide, forall_mem_of_all (by decide)⟩
  host_valid := by decide +kernel
  path_rooted := hrooted
  path_bytes := hbytes
  path_decoded := hdecoded

theorem links_read_back_sample :
    ReadsBack (linkPlatform "https://example.test/share") 7 .text sampleToken
      (shareUrl (linkPlatform "https://example.test/share") 7 .text sampleToken) := by
  have hlinks := links_read_back (linkPlatform_spelled "https://example.test/share")
    (show utf8Encode "https://example.test/share" = (sampleBase (ascii "/share") (ascii "/share")
      (by decide) (forall_mem_of_all (by decide)) (by decide +kernel)).text by decide +kernel)
    (by decide +kernel) (by decide +kernel)
  exact hlinks.1 7 .text 86400 1

/-- The id is not read where the path of the base ends in `/api/secrets` or decodes to a path with
`/api/secrets/`. -/
theorem base_not_read :
    (∃ b : Base, utf8Encode "https://example.test/api/secrets" = b.text ∧
      ¬ secretsPath <:+: b.text ∧
      ¬ ReadsBack (linkPlatform "https://example.test/api/secrets") 7 .text sampleToken
        (shareUrl (linkPlatform "https://example.test/api/secrets") 7 .text sampleToken)) ∧
    ∃ b : Base, utf8Encode "https://example.test/%61pi/secrets/x" = b.text ∧
      ¬ secretsPath <:+: b.text ∧
      ¬ ReadsBack (linkPlatform "https://example.test/%61pi/secrets/x") 7 .text sampleToken
        (shareUrl (linkPlatform "https://example.test/%61pi/secrets/x") 7 .text sampleToken) := by
  refine ⟨⟨sampleBase (ascii "/api/secrets") (ascii "/api/secrets") (by decide)
      (forall_mem_of_all (by decide)) (by decide +kernel), by decide +kernel, by decide +kernel, ?_⟩,
    ⟨sampleBase (ascii "/%61pi/secrets/x") (ascii "/api/secrets/x") (by decide)
      (forall_mem_of_all (by decide)) (by decide +kernel), by decide +kernel, by decide +kernel, ?_⟩⟩
  · rintro ⟨h, _⟩
    revert h
    decide +kernel
  · rintro ⟨h, _⟩
    revert h
    decide +kernel

end Sample
end PhantomShare.Cli
