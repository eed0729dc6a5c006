import Mathlib.Data.List.Basic
import Mathlib.Tactic.Ring

/-!
# Internet addresses and networks as text

The reading and writing of IPv4 and IPv6 addresses follows the `ipaddress`
module of the Python standard library, its strictness included: no leading
zeros in an octet, at most one `::`, an IPv4 suffix of an IPv6 address, and
netmasks or hostmasks for IPv4 networks. A failed parse raises `ValueError`
there and is `none` here. Scope identifiers are read and dropped.
-/
namespace PhantomShare.Internet

abbrev Text := List Char

inductive Address where
  | v4 (ip : BitVec 32)
  | v6 (ip : BitVec 128)
  deriving DecidableEq, Repr

/-- The number with the given digits, most significant first. -/
def valueBE (base : ℕ) (digits : List ℕ) : ℕ := digits.foldl (fun acc d => acc * base + d) 0

/-- The last `count` digits of a number, most significant first. -/
def digitsBE (base : ℕ) : ℕ → ℕ → List ℕ
  | 0, _ => []
  | count + 1, n => digitsBE base count (n / base) ++ [n % base]

/-- The value of a hexadecimal digit in either case. -/
def hexValue (c : Char) : Option ℕ :=
  if '0' ≤ c ∧ c ≤ '9' then some (c.toNat - 48)
  else if 'a' ≤ c ∧ c ≤ 'f' then some (c.toNat - 87)
  else if 'A' ≤ c ∧ c ≤ 'F' then some (c.toNat - 55)
  else none

/-- `int(s, 10)` on a nonempty string of ASCII digits. -/
def decimalValue (s : Text) : ℕ := s.foldl (fun acc c => acc * 10 + (c.toNat - 48)) 0

/-- `s.isascii() and s.isdigit()`. -/
def isAsciiDigits (s : Text) : Bool := !s.isEmpty && s.all Char.isDigit

/-- `IPv4Address._parse_octet`. -/
def parseOctet (s : Text) : Option ℕ :=
  if !isAsciiDigits s then none
  else if 3 < s.length then none
  else if s ≠ ['0'] ∧ s.head? = some '0' then none
  else if 255 < decimalValue s then none
  else some (decimalValue s)

/-- `IPv4Address._ip_int_from_string`. -/
def ipv4FromString (s : Text) : Option (BitVec 32) :=
  let octets := s.splitOn '.'
  if octets.length ≠ 4 then none
  else (octets.mapM parseOctet).map fun values => BitVec.ofNat 32 (valueBE 256 values)

/-- `IPv6Address._parse_hextet`. -/
def parseHextet (s : Text) : Option ℕ :=
  if s = [] ∨ 4 < s.length then none
  else (s.mapM hexValue).map (valueBE 16)

/-- A dotted last part stands for two hextets. -/
def expandIpv4Suffix (parts : List Text) : Option (List Text) :=
  match parts.getLast? with
  | none => none
  | some last =>
    if '.' ∈ last then
      (ipv4FromString last).map fun ip =>
        parts.dropLast ++ [Nat.toDigits 16 (ip.toNat / 2 ^ 16 % 2 ^ 16),
          Nat.toDigits 16 (ip.toNat % 2 ^ 16)]
    else some parts

/-- The positions strictly inside the list where `::` left an empty part. -/
def interiorEmpty (parts : List Text) : List ℕ :=
  (List.range parts.length).filter fun i =>
    1 ≤ i ∧ i + 1 < parts.length ∧ parts[i]? = some []

/-- The parts to read before and after `::`, and the number of hextets it skips. -/
def layout (parts : List Text) : Option (List Text × ℕ × List Text) :=
  match interiorEmpty parts with
  | [] =>
    if parts.length ≠ 8 ∨ parts.head? = some [] ∨ parts.getLast? = some [] then none
    else some (parts, 0, [])
  | [skip] =>
    let hi := if parts.head? = some [] then skip - 1 else skip
    let lo := if parts.getLast? = some [] then parts.length - skip - 2
      else parts.length - skip - 1
    if (parts.head? = some [] ∧ hi ≠ 0) ∨ (parts.getLast? = some [] ∧ lo ≠ 0) then none
    else if 8 < hi + lo + 1 then none
    else some (parts.take hi, 8 - (hi + lo), parts.drop (parts.length - lo))
  | _ => none

/-- `IPv6Address._ip_int_from_string`. -/
def ipv6FromString (s : Text) : Option (BitVec 128) := do
  let parts := s.splitOn ':'
  if parts.length < 3 then none
  else
    let parts ← expandIpv4Suffix parts
    if 9 < parts.length then none
    else
      let (hi, skipped, lo) ← layout parts
      let hiValues ← hi.mapM parseHextet
      let loValues ← lo.mapM parseHextet
      return BitVec.ofNat 128
        (valueBE 65536 (hiValues ++ List.replicate skipped 0 ++ loValues))

/-- `IPv6Address(str)`: the part after `%` is the scope identifier. -/
def ipv6Address (s : Text) : Option (BitVec 128) :=
  let addr := s.takeWhile (· ≠ '%')
  let rest := s.dropWhile (· ≠ '%')
  if '/' ∈ s then none
  else if rest ≠ [] ∧ (rest.tail = [] ∨ '%' ∈ rest.tail) then none
  else ipv6FromString addr

/-- `ip_address(str)`: IPv4 first, then IPv6. -/
def ipAddress (s : Text) : Option Address :=
  match ipv4FromString s with
  | some ip => some (.v4 ip)
  | none => (ipv6Address s).map Address.v6

/-- The text of the four octets. -/
def ipv4ToString (ip : BitVec 32) : Text :=
  ['.'].intercalate ((digitsBE 256 4 ip.toNat).map (Nat.toDigits 10))

/-- The scan of `_compress_hextets`: the longest run of `'0'` so far and the current one. -/
structure ZeroRun where
  index : ℕ
  start : ℕ
  length : ℕ
  bestStart : ℕ
  bestLength : ℕ

def ZeroRun.step (run : ZeroRun) (hextet : Text) : ZeroRun :=
  if hextet = ['0'] then
    let start := if run.length = 0 then run.index else run.start
    let length := run.length + 1
    if run.bestLength < length then ⟨run.index + 1, start, length, start, length⟩
    else ⟨run.index + 1, start, length, run.bestStart, run.bestLength⟩
  else { run with index := run.index + 1, length := 0 }

/-- `_compress_hextets`. -/
def compressHextets (hextets : List Text) : List Text :=
  let run := hextets.foldl ZeroRun.step ⟨0, 0, 0, 0, 0⟩
  if 1 < run.bestLength then
    let stop := run.bestStart + run.bestLength
    (if run.bestStart = 0 then [[]] else []) ++ hextets.take run.bestStart ++ [[]] ++
      hextets.drop stop ++ (if stop = hextets.length then [[]] else [])
  else hextets

/-- `IPv6Address._string_from_ip_int`. -/
def ipv6ToString (ip : BitVec 128) : Text :=
  [':'].intercalate (compressHextets ((digitsBE 65536 8 ip.toNat).map (Nat.toDigits 16)))

/-- `str(address)`. -/
def Address.toText : Address → Text
  | .v4 ip => ipv4ToString ip
  | .v6 ip => ipv6ToString ip

/-- A network: its masked address and its mask. -/
inductive Network where
  | v4 (address mask : BitVec 32)
  | v6 (address mask : BitVec 128)
  deriving DecidableEq, Repr

/-- `_prefix_from_prefix_string`. -/
def prefixFromString (maxPrefix : ℕ) (s : Text) : Option ℕ :=
  if isAsciiDigits s ∧ decimalValue s ≤ maxPrefix then some (decimalValue s) else none

/-- `_ip_int_from_prefix`: a mask of leading ones. -/
def maskOfPrefix (width len : ℕ) : BitVec width := BitVec.ofNat width (2 ^ width - 2 ^ (width - len))

/-- `_prefix_from_ip_int`: the length of the mask when it is a block of ones then zeros. -/
def prefixFromMask (ip : BitVec 32) : Option ℕ :=
  (List.range 33).find? fun len => maskOfPrefix 32 len = ip

/-- `IPv4Network._make_netmask` on the text after the slash. -/
def ipv4Netmask (s : Text) : Option (BitVec 32) :=
  match prefixFromString 32 s with
  | some len => some (maskOfPrefix 32 len)
  | none => do
    let ip ← ipv4FromString s
    let len ← (prefixFromMask ip).or (prefixFromMask (~~~ip))
    return maskOfPrefix 32 len

/-- `_split_optional_netmask`. -/
def splitNetmask (s : Text) : Option (Text × Option Text) :=
  match s.splitOn '/' with
  | [addr] => some (addr, none)
  | [addr, mask] => some (addr, some mask)
  | _ => none

/-- `IPv4Network(str, strict=False)`. -/
def ipv4Network (s : Text) : Option Network := do
  let (addr, mask) ← splitNetmask s
  let ip ← ipv4FromString addr
  let netmask ← match mask with
    | none => some (maskOfPrefix 32 32)
    | some m => ipv4Netmask m
  return .v4 (ip &&& netmask) netmask

/-- `IPv6Network(str, strict=False)`. -/
def ipv6Network (s : Text) : Option Network := do
  let (addr, mask) ← splitNetmask s
  let ip ← ipv6Address addr
  let len ← match mask with
    | none => some 128
    | some m => prefixFromString 128 m
  return .v6 (ip &&& maskOfPrefix 128 len) (maskOfPrefix 128 len)

/-- `ip_network(str, strict=False)`. -/
def ipNetwork (s : Text) : Option Network := (ipv4Network s).or (ipv6Network s)

/-- `network.prefixlen`. -/
def prefixLength {width : ℕ} (mask : BitVec width) : ℕ :=
  ((List.range (width + 1)).find? fun len => maskOfPrefix width len = mask).getD width

/-- `str(network)`. -/
def Network.toText : Network → Text
  | .v4 address mask => (Address.v4 address).toText ++ '/' :: Nat.toDigits 10 (prefixLength mask)
  | .v6 address mask => (Address.v6 address).toText ++ '/' :: Nat.toDigits 10 (prefixLength mask)

/-- `address in network`. -/
def Network.contains : Network → Address → Bool
  | .v4 address mask, .v4 ip => ip &&& mask = address
  | .v6 address mask, .v6 ip => ip &&& mask = address
  | _, _ => false

/-- `address.ipv4_mapped` of an IPv6 address. -/
def ipv4Mapped (ip : BitVec 128) : Option (BitVec 32) :=
  if ip.toNat / 2 ^ 32 = 0xFFFF then some (BitVec.ofNat 32 ip.toNat) else none

end PhantomShare.Internet
