import Mathlib.Data.List.DropRight
import PhantomShare.Foundations.Bytes

/-!
# URLs as Go's `net/url` reads them

Texts are byte strings. `Parse` splits a URL into its parts and decodes the path;
the query is decoded on demand. Besides, the functions of `strings` that look for a
text in another one.
-/
namespace PhantomShare.NetUrl
open Foundations

/-- The bytes of a text in ASCII. -/
def ascii (text : String) : Bytes := text.toList.map fun c => UInt8.ofNat c.toNat

def byte (c : Char) : UInt8 := UInt8.ofNat c.toNat

/-! ### `strings` -/

/-- `strings.Index`. -/
def index (needle : Bytes) : Bytes → Option ℕ
  | [] => if needle = [] then some 0 else none
  | b :: text => if needle.isPrefixOf (b :: text) then some 0 else (index needle text).map (· + 1)

/-- `strings.Cut` at one byte. -/
def cut (sep : UInt8) (text : Bytes) : Bytes × Bytes :=
  (text.takeWhile (· ≠ sep), (text.dropWhile (· ≠ sep)).drop 1)

/-- `strings.Trim` of one byte. -/
def trim (c : UInt8) (text : Bytes) : Bytes := (text.dropWhile (· = c)).rdropWhile (· = c)

/-- `strings.Split` at one byte. -/
def split (sep : UInt8) (text : Bytes) : List Bytes := text.splitOn sep

/-- `strings.Replace` of the first occurrence. -/
def replaceFirst (old new text : Bytes) : Bytes :=
  match index old text with
  | some i => text.take i ++ new ++ text.drop (i + old.length)
  | none => text

/-- What precedes the last occurrence of a byte, and the rest from it on. -/
def cutLast (c : UInt8) (text : Bytes) : Option (Bytes × Bytes) :=
  if text.contains c then
    some ((text.rdropWhile (· ≠ c)).dropLast, c :: text.rtakeWhile (· ≠ c))
  else none

/-! ### Encodings -/

/-- The part of a URL that is decoded. -/
inductive Part where
  | path
  | host
  | zone
  | userPassword
  | queryComponent
  | fragment
  deriving DecidableEq, Repr

def isLetter (c : UInt8) : Bool := (0x61 ≤ c && c ≤ 0x7A) || (0x41 ≤ c && c ≤ 0x5A)

def isDigit (c : UInt8) : Bool := 0x30 ≤ c && c ≤ 0x39

def isHex (c : UInt8) : Bool := isDigit c || (0x61 ≤ c && c ≤ 0x66) || (0x41 ≤ c && c ≤ 0x46)

def unhex (c : UInt8) : UInt8 :=
  if isDigit c then c - 0x30 else if 0x61 ≤ c then c - 0x61 + 10 else c - 0x41 + 10

/-- The ASCII bytes that may stand unescaped in a host. -/
def hostByte (c : UInt8) : Bool :=
  isLetter c || isDigit c || (ascii "!$&'()*+,;=:[]<>\"-_.~").contains c

/-- Whether `%ab` may stand in a part. -/
def escapeAllowed (part : Part) (a b : UInt8) : Bool :=
  let value := unhex a * 16 + unhex b
  match part with
  | .host => 8 ≤ unhex a || value = byte '%'
  | .zone => value = byte '%' || value = byte ' ' || hostByte value
  | _ => true

/-- What a byte that begins no escape stands for. -/
def unescapeByte (part : Part) (c : UInt8) : Option UInt8 :=
  if c = byte '+' then some (if part = .queryComponent then byte ' ' else c)
  else if (part = .host || part = .zone) && c < 0x80 && !hostByte c then none
  else some c

/-- `unescape`. -/
def unescape (part : Part) : Bytes → Option Bytes
  | [] => some []
  | c :: rest =>
    if c = byte '%' then
      match rest with
      | a :: b :: rest =>
        if isHex a && isHex b && escapeAllowed part a b then
          (unescape part rest).map fun text => (unhex a * 16 + unhex b) :: text
        else none
      | _ => none
    else do
      let c ← unescapeByte part c
      let text ← unescape part rest
      return c :: text

/-! ### `Parse` -/

/-- The decoded path and the query as it stands. -/
structure Url where
  path : Bytes
  rawQuery : Bytes
  deriving DecidableEq, Repr

def isControl (c : UInt8) : Bool := c < 0x20 || c = 0x7F

/-- `getScheme`, with what it has passed: the scheme and what follows its colon. -/
def getSchemeFrom (raw : Bytes) (passed : Bytes) : Bytes → Option (Bytes × Bytes)
  | [] => some ([], raw)
  | c :: rest =>
    if isLetter c then getSchemeFrom raw (passed ++ [c]) rest
    else if isDigit c || (ascii "+-.").contains c then
      if passed = [] then some ([], raw) else getSchemeFrom raw (passed ++ [c]) rest
    else if c = byte ':' then
      if passed = [] then none else some (passed, rest)
    else some ([], raw)

def getScheme (raw : Bytes) : Option (Bytes × Bytes) := getSchemeFrom raw [] raw

def validOptionalPort : Bytes → Bool
  | [] => true
  | c :: digits => c = byte ':' && digits.all isDigit

/-- `parseHost`. -/
def parseHost (host : Bytes) : Option Bytes :=
  if host.head? = some (byte '[') then do
    let (literal, colonPort) ← cutLast (byte ']') host
    if validOptionalPort (colonPort.drop 1) then
      match index (ascii "%25") literal with
      | some zone =>
        let host₁ ← unescape .host (host.take zone)
        let host₂ ← unescape .zone (literal.drop zone)
        let host₃ ← unescape .host colonPort
        return host₁ ++ host₂ ++ host₃
      | none => unescape .host host
    else none
  else
    match cutLast (byte ':') host with
    | some (_, colonPort) => if validOptionalPort colonPort then unescape .host host else none
    | none => unescape .host host

def validUserinfo (userinfo : Bytes) : Bool :=
  userinfo.all fun c => isLetter c || isDigit c || (ascii "-._:~!$&'()*+,;=%@").contains c

/-- `parseAuthority`; the user information is decoded and dropped. -/
def parseAuthority (authority : Bytes) : Option Bytes :=
  match cutLast (byte '@') authority with
  | none => parseHost authority
  | some (userinfo, atHost) => do
    let host ← parseHost (atHost.drop 1)
    if validUserinfo userinfo then
      let (username, password) := cut (byte ':') userinfo
      let _ ← unescape .userPassword username
      let _ ← unescape .userPassword password
      return host
    else none

/-- The path in what follows the scheme, without the query; a path without root is not decoded. -/
def parseHierarchy (scheme rest : Bytes) : Option Bytes :=
  if rest.head? ≠ some (byte '/') then
    if scheme ≠ [] then some []
    else if (cut (byte '/') rest).1.contains (byte ':') then none
    else unescape .path rest
  else if (scheme ≠ [] || !(ascii "///").isPrefixOf rest) && (ascii "//").isPrefixOf rest then do
    let _ ← parseAuthority ((rest.drop 2).takeWhile (· ≠ byte '/'))
    unescape .path ((rest.drop 2).dropWhile (· ≠ byte '/'))
  else unescape .path rest

/-- `parse`. -/
def parseWithoutFragment (raw : Bytes) : Option Url :=
  if raw.any isControl then none
  else if raw = ascii "*" then some ⟨raw, []⟩
  else do
    let (scheme, rest) ← getScheme raw
    let (rest, rawQuery) := cut (byte '?') rest
    let path ← parseHierarchy scheme rest
    return ⟨path, rawQuery⟩

/-- `Parse`. -/
def parse (raw : Bytes) : Option Url := do
  let (raw, fragment) := cut (byte '#') raw
  let url ← parseWithoutFragment raw
  let _ ← unescape .fragment fragment
  return url

/-! ### `Query` -/

/-- A key and its value; what cannot be read is skipped. -/
def parsePair (pair : Bytes) : Option (Bytes × Bytes) :=
  if pair = [] || pair.contains (byte ';') then none
  else do
    let (key, value) := cut (byte '=') pair
    let key ← unescape .queryComponent key
    let value ← unescape .queryComponent value
    return (key, value)

def parseQuery (query : Bytes) : List (Bytes × Bytes) :=
  (split (byte '&') query).filterMap parsePair

/-- `Query().Get`: the first value, or none at all. -/
def Url.get (url : Url) (key : Bytes) : Bytes :=
  (((parseQuery url.rawQuery).find? fun pair => pair.1 = key).map Prod.snd).getD []

/-! ### The first occurrence of a text -/

section Occurrences
variable {needle text before after : Bytes}

theorem index_le {i : ℕ} (h : index needle text = some i) : i ≤ text.length := by
  induction text generalizing i with
  | nil =>
    rw [index] at h
    split at h <;> cases h
    rfl
  | cons b text ih =>
    rw [index] at h
    split at h
    · cases h
      exact Nat.zero_le _
    · obtain ⟨j, hj, rfl⟩ := Option.map_eq_some_iff.mp h
      exact Nat.succ_le_succ (ih hj)

/-- A text is found where nothing of it lies across the end of what precedes it. -/
theorem index_append (h : ¬ needle <:+: (before ++ needle).dropLast) :
    index needle (before ++ needle ++ after) = some before.length := by
  induction before with
  | nil =>
    cases hneedle : needle with
    | nil =>
      subst hneedle
      exact absurd List.nil_infix h
    | cons c rest =>
      have hprefix : (c :: rest).isPrefixOf (c :: (rest ++ after)) = true :=
        List.isPrefixOf_iff_prefix.mpr (List.prefix_append (c :: rest) after)
      simp only [List.nil_append, List.cons_append, index, hprefix, if_true, List.length_nil]
  | cons b before ih =>
    have hnot : ¬ needle.isPrefixOf (b :: (before ++ needle ++ after)) = true := by
      intro hprefix
      apply h
      have hp := List.isPrefixOf_iff_prefix.mp hprefix
      have htake : (b :: before ++ needle).dropLast <+: b :: (before ++ needle ++ after) :=
        (List.dropLast_prefix _).trans (by simp)
      have hlength : needle.length ≤ (b :: before ++ needle).dropLast.length := by
        simp only [List.length_dropLast, List.length_append, List.length_cons]
        omega
      exact (List.prefix_of_prefix_length_le hp htake hlength).isInfix
    have hbefore : ¬ needle <:+: (before ++ needle).dropLast := by
      intro hinfix
      apply h
      cases hlist : before ++ needle with
      | nil =>
        rw [(List.append_eq_nil_iff.mp hlist).2]
        exact List.nil_infix
      | cons c rest =>
        rw [List.cons_append, hlist, List.dropLast_cons_cons]
        rw [hlist] at hinfix
        exact List.infix_cons hinfix
    rw [List.cons_append, List.cons_append, index, if_neg hnot, ih hbefore]
    rfl

/-- Where no beginning of an appended text ends an occurrence, there is none that the text had not
before. -/
theorem infix_of_append {added : Bytes}
    (hadded : ∀ i < added.length,
      (needle.reverse.take (i + 1)).isPrefixOf (added.take (i + 1)).reverse = false)
    (h : needle <:+: text ++ added) : needle <:+: text := by
  induction added using List.reverseRecOn with
  | nil => simpa using h
  | append_singleton added c ih =>
    rw [← List.append_assoc, List.infix_concat_iff] at h
    rcases h with hsuffix | hinfix
    · have hi := hadded added.length (by simp)
      have htake : (added ++ [c]).take (added.length + 1) = added ++ [c] := by simp
      have hreverse := List.reverse_prefix.mpr hsuffix
      rw [List.append_assoc, List.reverse_append] at hreverse
      have hprefix : needle.reverse.take (added.length + 1) <+: (added ++ [c]).reverse := by
        apply List.prefix_of_prefix_length_le ((List.take_prefix _ _).trans hreverse)
          (List.prefix_append _ _)
        simp
      rw [htake, List.isPrefixOf_iff_prefix.mpr hprefix] at hi
      cases hi
    · apply ih _ hinfix
      intro i hlt
      have hi := hadded i (by rw [List.length_append]; omega)
      rwa [List.take_append_of_le_length (by omega)] at hi

theorem replaceFirst_append {new : Bytes} (h : ¬ needle <:+: (before ++ needle).dropLast) :
    replaceFirst needle new (before ++ needle ++ after) = before ++ new ++ after := by
  rw [replaceFirst, index_append h]
  simp

end Occurrences

/-! ### Decoding -/

section Decoding
variable {part : Part} {text after decoded : Bytes}

theorem unescape_escape (a b : UInt8) (rest : Bytes) :
    unescape part (byte '%' :: a :: b :: rest) =
      if isHex a && isHex b && escapeAllowed part a b then
        (unescape part rest).map fun text => (unhex a * 16 + unhex b) :: text
      else none := by
  rw [unescape]
  rfl

theorem unescape_cons {c : UInt8} (hc : c ≠ byte '%') (rest : Bytes) :
    unescape part (c :: rest) = (unescapeByte part c).bind fun c =>
      (unescape part rest).map fun text => c :: text := by
  rw [unescape.eq_def]
  simp only [if_neg hc]
  cases unescapeByte part c <;> cases unescape part rest <;> rfl

theorem unescape_append (h : unescape part text = some decoded) :
    unescape part (text ++ after) = (unescape part after).map fun rest => decoded ++ rest := by
  induction text using unescape.induct part generalizing decoded with
  | case1 =>
    cases h
    simp
  | case2 a b rest hok ih =>
    rw [unescape_escape, if_pos hok] at h
    obtain ⟨decoded, hrest, rfl⟩ := Option.map_eq_some_iff.mp h
    change unescape part (byte '%' :: a :: b :: (rest ++ after)) = _
    rw [unescape_escape, if_pos hok, ih hrest, Option.map_map]
    rfl
  | case3 a b rest hbad =>
    rw [unescape_escape, if_neg hbad] at h
    cases h
  | case4 rest hshort =>
    rw [unescape, if_pos rfl] at h
    · cases h
    · exact hshort
  | case5 c rest hc ih =>
    rw [unescape_cons hc] at h
    obtain ⟨d, hd, h⟩ := Option.bind_eq_some_iff.mp h
    obtain ⟨decoded, hrest, rfl⟩ := Option.map_eq_some_iff.mp h
    rw [List.cons_append, unescape_cons hc, hd, ih hrest, Option.bind_some, Option.map_map]
    rfl

/-- Bytes that stand for themselves in every part. -/
def isPlain (c : UInt8) : Bool := isLetter c || isDigit c || (ascii "-./").contains c

theorem unescape_plain (hpart : part = .path ∨ part = .queryComponent)
    (h : ∀ c ∈ text, isPlain c = true) : unescape part text = some text := by
  induction text with
  | nil => rfl
  | cons c text ih =>
    have hc := h c List.mem_cons_self
    have hpercent : c ≠ byte '%' := by
      rintro rfl
      exact absurd hc (by decide)
    have hplus : c ≠ byte '+' := by
      rintro rfl
      exact absurd hc (by decide)
    have hbyte : unescapeByte part c = some c := by
      rw [unescapeByte, if_neg hplus]
      rcases hpart with rfl | rfl <;> rfl
    rw [unescape_cons hpercent, hbyte, ih fun d hd => h d (List.mem_cons_of_mem _ hd)]
    rfl

/-- What may stand in a host. -/
def inHost (c : UInt8) : Bool := hostByte c || c = byte '%' || 0x80 ≤ c

/-- A property of all bytes that has been tried on each. -/
theorem forall_byte {p : UInt8 → Bool} (h : (List.range 256).all fun n => p (UInt8.ofNat n))
    (c : UInt8) : p c = true := by
  have hc := List.all_eq_true.mp h c.toNat (List.mem_range.mpr c.toNat_lt)
  rwa [UInt8.ofNat_toNat] at hc

/-- A property of a list's members that has been tried on each. -/
theorem forall_mem_of_all {α : Type} {p : α → Prop} [DecidablePred p] {l : List α}
    (h : l.all (fun a => p a) = true) : ∀ a ∈ l, p a := by
  intro a ha
  exact of_decide_eq_true (List.all_eq_true.mp h a ha)

theorem inHost_of_isHex {c : UInt8} (h : isHex c = true) : inHost c = true := by
  have hall := @forall_byte (fun c => !isHex c || inHost c) (by decide +kernel) c
  rwa [h, Bool.not_true, Bool.false_or] at hall

theorem inHost_of_unescapeByte {c : UInt8} (hpart : part = .host ∨ part = .zone)
    (h : (unescapeByte part c).isSome) : inHost c = true := by
  rw [unescapeByte] at h
  by_cases hplus : c = byte '+'
  · rw [hplus]
    decide
  · rw [if_neg hplus] at h
    have hpart' : (decide (part = .host) || decide (part = .zone)) = true := by
      simpa using hpart
    rw [hpart', Bool.true_and] at h
    by_cases hhost : hostByte c = true
    · simp [inHost, hhost]
    · by_cases hascii : c < 0x80
      · simp [hascii, hhost] at h
      · simp only [inHost, Bool.or_eq_true, decide_eq_true_eq]
        exact Or.inr (UInt8.not_lt.mp hascii)

theorem unescape_inHost (hpart : part = .host ∨ part = .zone)
    (h : (unescape part text).isSome) : ∀ c ∈ text, inHost c = true := by
  induction text using unescape.induct part with
  | case1 => simp
  | case2 a b rest hok ih =>
    rw [unescape_escape, if_pos hok, Option.isSome_map] at h
    simp only [Bool.and_eq_true] at hok
    intro c hc
    simp only [List.mem_cons] at hc
    rcases hc with rfl | rfl | rfl | hc
    · decide
    · exact inHost_of_isHex hok.1.1
    · exact inHost_of_isHex hok.1.2
    · exact ih h c hc
  | case3 a b rest hbad =>
    rw [unescape_escape, if_neg hbad] at h
    cases h
  | case4 rest hshort =>
    rw [unescape, if_pos rfl] at h
    · cases h
    · exact hshort
  | case5 c rest hc ih =>
    rw [unescape_cons hc, Option.isSome_bind, Option.any_eq_true] at h
    obtain ⟨d, hd, hrest⟩ := h
    rw [Option.isSome_map] at hrest
    intro b hb
    rcases List.mem_cons.mp hb with rfl | hb
    · exact inHost_of_unescapeByte hpart (Option.isSome_of_mem hd)
    · exact ih hrest b hb

end Decoding

/-! ### The parts of a URL -/

section Parts
variable {before after : Bytes}

theorem cut_append {sep : UInt8} (h : sep ∉ before) :
    cut sep (before ++ sep :: after) = (before, after) := by
  have hne : ∀ c ∈ before, decide (c ≠ sep) = true := by
    intro c hc
    exact decide_eq_true fun heq => h (heq ▸ hc)
  rw [cut, List.takeWhile_append_of_pos hne, List.dropWhile_append_of_pos hne]
  simp

theorem cut_none {sep : UInt8} (h : sep ∉ before) : cut sep before = (before, []) := by
  have hne : ∀ c ∈ before, decide (c ≠ sep) = true := by
    intro c hc
    exact decide_eq_true fun heq => h (heq ▸ hc)
  rw [cut, List.takeWhile_eq_self_iff.mpr hne, List.dropWhile_eq_nil_iff.mpr hne]
  rfl

theorem cutLast_eq {c : UInt8} {text : Bytes} (h : cutLast c text = some (before, after)) :
    text = before ++ after := by
  rw [cutLast] at h
  split at h
  · rename_i hc
    have hne : text.rdropWhile (· ≠ c) ≠ [] := by
      rw [Ne, List.rdropWhile_eq_nil_iff]
      intro hall
      simpa using hall c (by simpa using hc)
    have hlast : (text.rdropWhile (· ≠ c)).getLast hne = c := by
      simpa using List.rdropWhile_last_not (· ≠ c) text hne
    have hends := List.dropLast_append_getLast hne
    rw [hlast] at hends
    cases h
    calc text = text.rdropWhile (· ≠ c) ++ text.rtakeWhile (· ≠ c) :=
        List.rdropWhile_append_rtakeWhile.symm
      _ = ((text.rdropWhile (· ≠ c)).dropLast ++ [c]) ++ text.rtakeWhile (· ≠ c) := by rw [hends]
      _ = (text.rdropWhile (· ≠ c)).dropLast ++ (c :: text.rtakeWhile (· ≠ c)) := by simp
  · cases h

theorem cutLast_none {c : UInt8} {text : Bytes} (h : c ∉ text) : cutLast c text = none := by
  simp [cutLast, h]

theorem parseHost_inHost {host parsed : Bytes} (h : parseHost host = some parsed) :
    ∀ c ∈ host, inHost c = true := by
  rw [parseHost] at h
  split at h
  · obtain ⟨⟨literal, colonPort⟩, hcut, h⟩ := Option.bind_eq_some_iff.mp h
    have hhost := cutLast_eq hcut
    dsimp only at h
    split at h
    · split at h
      · rename_i zone hzone
        obtain ⟨_, hbefore, h⟩ := Option.bind_eq_some_iff.mp h
        obtain ⟨_, hinside, h⟩ := Option.bind_eq_some_iff.mp h
        obtain ⟨_, hafter, _⟩ := Option.bind_eq_some_iff.mp h
        have hsplit : host = host.take zone ++ (literal.drop zone ++ colonPort) := by
          rw [hhost, List.take_append_of_le_length (index_le hzone), ← List.append_assoc,
            List.take_append_drop]
        intro c hc
        rw [hsplit, List.mem_append, List.mem_append] at hc
        rcases hc with hc | hc | hc
        · exact unescape_inHost (Or.inl rfl) (Option.isSome_of_mem hbefore) c hc
        · exact unescape_inHost (Or.inr rfl) (Option.isSome_of_mem hinside) c hc
        · exact unescape_inHost (Or.inl rfl) (Option.isSome_of_mem hafter) c hc
      · exact unescape_inHost (Or.inl rfl) (Option.isSome_of_mem h)
    · cases h
  · split at h
    · split at h
      · exact unescape_inHost (Or.inl rfl) (Option.isSome_of_mem h)
      · cases h
    · exact unescape_inHost (Or.inl rfl) (Option.isSome_of_mem h)

/-- What may follow the first letter of a scheme. -/
def schemeByte (c : UInt8) : Bool := isLetter c || isDigit c || (ascii "+-.").contains c

theorem getSchemeFrom_append {raw passed rest scheme : Bytes} (hpassed : passed ≠ [])
    (h : ∀ c ∈ scheme, schemeByte c = true) :
    getSchemeFrom raw passed (scheme ++ byte ':' :: rest) = some (passed ++ scheme, rest) := by
  induction scheme generalizing passed with
  | nil =>
    rw [List.nil_append, getSchemeFrom, if_neg (by decide), if_neg (by decide), if_pos rfl,
      if_neg hpassed, List.append_nil]
  | cons c scheme ih =>
    have hc := h c List.mem_cons_self
    have hnext := @ih (passed ++ [c]) (by simp) fun d hd => h d (List.mem_cons_of_mem _ hd)
    rw [List.append_assoc] at hnext
    rw [List.cons_append, getSchemeFrom, if_neg hpassed, hnext]
    simp only [schemeByte, Bool.or_eq_true] at hc
    split
    · rfl
    · rename_i hletter
      rw [if_pos (by simpa [hletter] using hc)]
      rfl

end Parts

/-! ### URLs below a base -/

/-- A scheme, a host and a path that may be empty. -/
structure Base where
  scheme : Bytes
  host : Bytes
  path : Bytes
  decoded : Bytes
  scheme_valid : ∃ c rest, scheme = c :: rest ∧ isLetter c = true ∧ ∀ d ∈ rest, schemeByte d = true
  host_valid : (parseHost host).isSome = true
  path_rooted : path = [] ∨ path.head? = some (byte '/')
  path_bytes : ∀ c ∈ path, c ≠ byte '?' ∧ c ≠ byte '#' ∧ isControl c = false
  path_decoded : unescape .path path = some decoded

/-- What ends no URL before its fragment. -/
def isVisible (c : UInt8) : Bool := c ≠ byte '#' && !isControl c

theorem isVisible_of_schemeByte {c : UInt8} (h : schemeByte c = true) : isVisible c = true := by
  have hall := @forall_byte (fun c => !schemeByte c || isVisible c) (by decide +kernel) c
  rwa [h, Bool.not_true, Bool.false_or] at hall

theorem isVisible_of_isPlain {c : UInt8} (h : isPlain c = true) :
    isVisible c = true ∧ c ≠ byte '?' := by
  have hall := @forall_byte (fun c => !isPlain c || (isVisible c && c ≠ byte '?'))
    (by decide +kernel) c
  rw [h, Bool.not_true, Bool.false_or] at hall
  simpa using hall

/-- Neither a delimiter nor a control byte stands in a host. -/
theorem isVisible_of_inHost {c : UInt8} (h : inHost c = true) :
    isVisible c = true ∧ c ≠ byte '?' ∧ c ≠ byte '/' ∧ c ≠ byte '@' := by
  have hall := @forall_byte (fun c => !inHost c ||
    (isVisible c && c ≠ byte '?' && c ≠ byte '/' && c ≠ byte '@')) (by decide +kernel) c
  rw [h, Bool.not_true, Bool.false_or] at hall
  simpa [and_assoc] using hall

namespace Base
variable (b : Base)

def text : Bytes := b.scheme ++ ascii "://" ++ b.host ++ b.path

/-- A base one path below. -/
def below (path : Bytes) (hrooted : path.head? = some (byte '/'))
    (hplain : ∀ c ∈ path, isPlain c = true) : Base where
  scheme := b.scheme
  host := b.host
  path := b.path ++ path
  decoded := b.decoded ++ path
  scheme_valid := b.scheme_valid
  host_valid := b.host_valid
  path_rooted := by
    right
    rcases b.path_rooted with hnil | hhead
    · rw [hnil, List.nil_append, hrooted]
    · rw [List.head?_append, hhead]
      rfl
  path_bytes := by
    intro c hc
    rcases List.mem_append.mp hc with hc | hc
    · exact b.path_bytes c hc
    · have hvisible := isVisible_of_isPlain (hplain c hc)
      simp only [isVisible, Bool.and_eq_true, decide_eq_true_eq, Bool.not_eq_true'] at hvisible
      exact ⟨hvisible.2, hvisible.1⟩
  path_decoded := by
    rw [unescape_append b.path_decoded, unescape_plain (Or.inl rfl) hplain]
    rfl

theorem below_text (path : Bytes) (hrooted : path.head? = some (byte '/'))
    (hplain : ∀ c ∈ path, isPlain c = true) : (b.below path hrooted hplain).text = b.text ++ path := by
  simp [text, below]

theorem text_visible : ∀ c ∈ b.text, isVisible c = true := by
  obtain ⟨letter, rest, hscheme, hletter, hrest⟩ := b.scheme_valid
  obtain ⟨host, hhost⟩ := Option.isSome_iff_exists.mp b.host_valid
  intro c hc
  rw [text, hscheme] at hc
  simp only [List.mem_append, List.mem_cons, List.cons_append, or_assoc] at hc
  rcases hc with rfl | hc | hc | hc | hc
  · exact isVisible_of_schemeByte (by simp [schemeByte, hletter])
  · exact isVisible_of_schemeByte (hrest c hc)
  · revert c
    exact forall_mem_of_all (by decide)
  · exact (isVisible_of_inHost (parseHost_inHost hhost c hc)).1
  · have hbyte := b.path_bytes c hc
    simp [isVisible, hbyte.2.1, hbyte.2.2]

theorem getScheme_text (rest : Bytes) :
    getScheme (b.text ++ rest) = some (b.scheme, ascii "//" ++ b.host ++ b.path ++ rest) := by
  obtain ⟨letter, others, hscheme, hletter, hothers⟩ := b.scheme_valid
  have hsplit : b.text ++ rest =
      letter :: (others ++ byte ':' :: (ascii "//" ++ b.host ++ b.path ++ rest)) := by
    have hcolon : ascii "://" = byte ':' :: ascii "//" := rfl
    rw [text, hscheme, hcolon]
    simp
  rw [getScheme]
  nth_rewrite 2 [hsplit]
  rw [getSchemeFrom, if_pos hletter, List.nil_append,
    getSchemeFrom_append (List.cons_ne_nil _ _) hothers, hscheme]
  rfl

theorem host_bytes : ∀ c ∈ b.host, isVisible c = true ∧ c ≠ byte '?' ∧ c ≠ byte '/' ∧ c ≠ byte '@' := by
  obtain ⟨parsed, hparsed⟩ := Option.isSome_iff_exists.mp b.host_valid
  intro c hc
  exact isVisible_of_inHost (parseHost_inHost hparsed c hc)

/-- The path begins where the host ends. -/
theorem cut_host : (b.host ++ b.path).takeWhile (· ≠ byte '/') = b.host ∧
    (b.host ++ b.path).dropWhile (· ≠ byte '/') = b.path := by
  have hhost : ∀ c ∈ b.host, decide (c ≠ byte '/') = true := by
    intro c hc
    exact decide_eq_true (b.host_bytes c hc).2.2.1
  rw [List.takeWhile_append_of_pos hhost, List.dropWhile_append_of_pos hhost]
  cases hpath : b.path with
  | nil => simp
  | cons c rest =>
    have hc : c = byte '/' := by
      have hrooted := b.path_rooted
      rw [hpath] at hrooted
      simpa using hrooted
    simp [hc]

theorem parseHierarchy_text :
    parseHierarchy b.scheme (ascii "//" ++ b.host ++ b.path) = some b.decoded := by
  obtain ⟨letter, others, hscheme, _, _⟩ := b.scheme_valid
  obtain ⟨parsed, hparsed⟩ := Option.isSome_iff_exists.mp b.host_valid
  have hauthority : parseAuthority b.host = some parsed := by
    have hat : byte '@' ∉ b.host := fun hc => (b.host_bytes _ hc).2.2.2 rfl
    rw [parseAuthority, cutLast_none hat, hparsed]
  have hdrop : (ascii "//" ++ b.host ++ b.path).drop 2 = b.host ++ b.path := by
    rw [List.append_assoc]
    rfl
  have hslashes : (ascii "//").isPrefixOf (ascii "//" ++ b.host ++ b.path) = true := by
    rw [List.isPrefixOf_iff_prefix, List.append_assoc]
    exact List.prefix_append _ _
  have hhead : (ascii "//" ++ b.host ++ b.path).head? = some (byte '/') := by
    rw [List.append_assoc]
    rfl
  have hne : b.scheme ≠ [] := hscheme ▸ List.cons_ne_nil _ _
  rw [parseHierarchy, if_neg (not_not_intro hhead), hslashes, hdrop, b.cut_host.1, b.cut_host.2,
    hauthority, if_pos (by simp [hne])]
  exact b.path_decoded

/-- A URL that is the base and a query. -/
theorem parse_text {query : Bytes} (hquery : ∀ c ∈ query, isVisible c = true) :
    parse (b.text ++ byte '?' :: query) = some ⟨b.decoded, query⟩ := by
  obtain ⟨letter, others, hscheme, hletter, _⟩ := b.scheme_valid
  have hvisible : ∀ c ∈ b.text ++ byte '?' :: query, isVisible c = true := by
    intro c hc
    simp only [List.mem_append, List.mem_cons] at hc
    rcases hc with hc | rfl | hc
    · exact b.text_visible c hc
    · decide
    · exact hquery c hc
  have hfragment : byte '#' ∉ b.text ++ byte '?' :: query := by
    intro hc
    exact absurd (hvisible _ hc) (by decide)
  have hcontrol : (b.text ++ byte '?' :: query).any isControl = false := by
    rw [List.any_eq_false]
    intro c hc hcontrol
    have hc' := hvisible c hc
    simp [isVisible, hcontrol] at hc'
  have hstar : b.text ++ byte '?' :: query ≠ ascii "*" := by
    intro heq
    rw [text, hscheme] at heq
    injection heq with hhead _
    rw [hhead] at hletter
    exact absurd hletter (by decide)
  have hquestion : byte '?' ∉ ascii "//" ++ b.host ++ b.path := by
    intro hc
    simp only [List.mem_append] at hc
    rcases hc with (hc | hc) | hc
    · exact absurd hc (by decide)
    · exact (b.host_bytes _ hc).2.1 rfl
    · exact (b.path_bytes _ hc).1 rfl
  rw [parse, cut_none hfragment]
  simp only [parseWithoutFragment, hcontrol, hstar, b.getScheme_text, cut_append hquestion,
    b.parseHierarchy_text, Option.bind_eq_bind, Option.bind_some, Bool.false_eq_true, if_false]
  rfl

/-- The path of a URL below the base follows that of the base. -/
theorem parse_below {path query : Bytes} (hrooted : path.head? = some (byte '/'))
    (hplain : ∀ c ∈ path, isPlain c = true) (hquery : ∀ c ∈ query, isVisible c = true) :
    parse (b.text ++ path ++ byte '?' :: query) = some ⟨b.decoded ++ path, query⟩ := by
  rw [← b.below_text path hrooted hplain]
  exact (b.below path hrooted hplain).parse_text hquery

end Base

/-! ### A query of one pair, a path of few segments -/

section Segments
variable {sep : UInt8} {text : Bytes}

theorem split_single (h : sep ∉ text) : split sep text = [text] := by
  have hsplit := @List.splitOn_intercalate _ [text] _ _ sep (by simpa using h) (List.cons_ne_nil _ _)
  rw [List.intercalate_singleton] at hsplit
  exact hsplit

theorem split_pair {other : Bytes} (h : sep ∉ text) (hother : sep ∉ other) :
    split sep (text ++ sep :: other) = [text, other] := by
  have hsplit := @List.splitOn_intercalate _ [text, other] _ _ sep (by simp [h, hother])
    (List.cons_ne_nil _ _)
  rw [List.intercalate_cons_cons, List.intercalate_singleton, List.append_assoc] at hsplit
  exact hsplit

theorem trim_eq (hhead : text.head? ≠ some sep) (hlast : text.getLast? ≠ some sep) :
    trim sep text = text := by
  have hdrop : text.dropWhile (· = sep) = text := by
    cases text with
    | nil => rfl
    | cons c text => simpa using hhead
  rw [trim, hdrop, List.rdropWhile_eq_self_iff]
  intro hne
  rw [List.getLast?_eq_some_getLast hne] at hlast
  simpa using hlast

theorem get_single {path key value : Bytes} (hkey : ∀ c ∈ key, isPlain c = true)
    (hvalue : ∀ c ∈ value, isPlain c = true) :
    (⟨path, key ++ byte '=' :: value⟩ : Url).get key = value := by
  have hbytes : ∀ c ∈ key ++ byte '=' :: value, isPlain c = true ∨ c = byte '=' := by
    intro c hc
    simp only [List.mem_append, List.mem_cons] at hc
    rcases hc with hc | hc | hc
    · exact Or.inl (hkey c hc)
    · exact Or.inr hc
    · exact Or.inl (hvalue c hc)
  have hamp : byte '&' ∉ key ++ byte '=' :: value := fun hc => absurd (hbytes _ hc) (by decide)
  have hsemicolon : byte ';' ∉ key ++ byte '=' :: value :=
    fun hc => absurd (hbytes _ hc) (by decide)
  have hequals : byte '=' ∉ key := fun hc => absurd (hkey _ hc) (by decide)
  have hpair : parsePair (key ++ byte '=' :: value) = some (key, value) := by
    have hcond : (decide (key ++ byte '=' :: value = []) ||
        (key ++ byte '=' :: value).contains (byte ';')) = false := by
      simpa using hsemicolon
    rw [parsePair, hcond, cut_append hequals]
    simp [unescape_plain (Or.inr rfl) hkey, unescape_plain (Or.inr rfl) hvalue]
  simp [Url.get, parseQuery, split_single hamp, hpair]

end Segments

end PhantomShare.NetUrl
