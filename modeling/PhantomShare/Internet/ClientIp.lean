import PhantomShare.Internet.RoundTrip

/-!
# The client address behind trusted proxies

`resolve_client_ip` reads `X-Forwarded-For` only when the peer is a trusted
proxy, and then takes the first untrusted entry from the right. It normalises
every entry before the scan, so an entry that does not parse, wherever it
stands, gives the address of the peer instead.
-/
namespace PhantomShare.Internet

/-- The characters that `str.strip` removes. -/
def isSpace (c : Char) : Bool :=
  (9 ≤ c.toNat ∧ c.toNat ≤ 13) ∨ (28 ≤ c.toNat ∧ c.toNat ≤ 32) ∨ c.toNat = 0x85 ∨
    c.toNat = 0xA0 ∨ c.toNat = 0x1680 ∨ (0x2000 ≤ c.toNat ∧ c.toNat ≤ 0x200A) ∨
    c.toNat = 0x2028 ∨ c.toNat = 0x2029 ∨ c.toNat = 0x202F ∨ c.toNat = 0x205F ∨
    c.toNat = 0x3000

/-- `str.strip`. -/
def strip (s : Text) : Text := ((s.dropWhile isSpace).reverse.dropWhile isSpace).reverse

/-- An IPv4-mapped IPv6 address counts as the IPv4 address. -/
def Address.unmap : Address → Address
  | .v4 ip => .v4 ip
  | .v6 ip => match ipv4Mapped ip with
    | some mapped => .v4 mapped
    | none => .v6 ip

/-- The address that `normalize_ip` writes out again. -/
def normalizeAddress (value : Text) : Option Address :=
  (ipAddress ((strip value).takeWhile (· ≠ '%'))).map Address.unmap

def normalizeIp (value : Text) : Option Text := (normalizeAddress value).map Address.toText

/-- `any(address in network for network in trusted)`. -/
def isTrusted (trusted : List Network) (address : Address) : Bool :=
  trusted.any fun network => network.contains address

/-- The loop over `reversed(chain)`; `none` is a `ValueError` of `ip_address`. -/
def firstUntrusted (trusted : List Network) (otherwise : Text) : List Text → Option Text
  | [] => some otherwise
  | value :: rest => do
    let address ← ipAddress value
    if isTrusted trusted address then firstUntrusted trusted otherwise rest
    else some value

def unknown : Text := "unknown".toList

/-- `resolve_client_ip`; the outer `none` is an exception that leaves the function. -/
def resolveClientIp (trustedProxyCidrs : List Text) (peer forwardedFor : Option Text) :
    Option Text :=
  match peer with
  | none => some unknown
  | some [] => some unknown
  | some peer =>
    match normalizeIp peer with
    | none => some unknown
    | some normalizedPeer =>
      match ipAddress normalizedPeer, trustedProxyCidrs.mapM ipNetwork with
      | some peerAddress, some trusted =>
        let header := forwardedFor.getD []
        if header = [] ∨ ¬ isTrusted trusted peerAddress then some normalizedPeer
        else
          match (header.splitOn ',').mapM normalizeIp with
          | none => some normalizedPeer
          | some entries =>
            let chain := entries ++ [normalizedPeer]
            firstUntrusted trusted (chain.headD []) chain.reverse
      | _, _ => some unknown

/-- Every comma-separated entry of the text is an address that `normalize_ip` reads. -/
def EntriesValid (header : Text) : Prop :=
  ∀ entry ∈ header.splitOn ',', (normalizeAddress entry).isSome

instance (header : Text) : Decidable (EntriesValid header) :=
  inferInstanceAs (Decidable (∀ entry ∈ header.splitOn ',', (normalizeAddress entry).isSome))

/-- The addresses that the entries of a header name, in their order. -/
def entryAddresses (header : Text) : List Address := (header.splitOn ',').filterMap normalizeAddress

/-- What the proxies vouch for: the last address of the header that no trusted network holds. -/
def rightmostUntrusted (trusted : List Network) (header : Text) : Option Address :=
  (entryAddresses header).reverse.find? fun address => !isTrusted trusted address

theorem Address.toText_injective : Function.Injective Address.toText := by
  intro a b h
  have ha := ipAddress_toText a
  rw [h, ipAddress_toText b] at ha
  exact (Option.some.inj ha).symm

theorem splitOn_append_comma (front back : Text) :
    (front ++ ',' :: back).splitOn ',' = front.splitOn ',' ++ back.splitOn ',' :=
  List.splitOn_append_cons_self front back

theorem entriesValid_append (front back : Text) :
    EntriesValid (front ++ ',' :: back) ↔ EntriesValid front ∧ EntriesValid back := by
  simp only [EntriesValid, splitOn_append_comma, List.forall_mem_append]

theorem entryAddresses_append (front back : Text) :
    entryAddresses (front ++ ',' :: back) = entryAddresses front ++ entryAddresses back := by
  simp only [entryAddresses, splitOn_append_comma, List.filterMap_append]

theorem mapM_normalizeIp (values : List Text) :
    values.mapM normalizeIp =
      if ∀ value ∈ values, (normalizeAddress value).isSome then
        some ((values.filterMap normalizeAddress).map Address.toText)
      else none := by
  induction values with
  | nil => rfl
  | cons value rest ih =>
    rw [List.mapM_cons, ih]
    cases hvalue : normalizeAddress value with
    | none => simp [normalizeIp, hvalue]
    | some address =>
      by_cases hrest : ∀ v ∈ rest, (normalizeAddress v).isSome
      · have hall : ∀ v ∈ value :: rest, (normalizeAddress v).isSome := by
          simpa [hvalue] using hrest
        rw [if_pos hrest, if_pos hall]
        simp [normalizeIp, hvalue]
      · have hnot : ¬ ∀ v ∈ value :: rest, (normalizeAddress v).isSome := by
          simpa [hvalue] using hrest
        rw [if_neg hrest, if_neg hnot]
        simp [normalizeIp, hvalue]

/-- The loop over the texts of addresses is a search over the addresses. -/
theorem firstUntrusted_map_toText (trusted : List Network) (otherwise : Text)
    (addresses : List Address) :
    firstUntrusted trusted otherwise (addresses.map Address.toText) =
      some (((addresses.find? fun address => !isTrusted trusted address).map
        Address.toText).getD otherwise) := by
  induction addresses with
  | nil => rfl
  | cons address rest ih =>
    rw [List.map_cons, firstUntrusted, ipAddress_toText]
    by_cases htrusted : isTrusted trusted address = true
    · simp [htrusted, ih]
    · simp [htrusted]

theorem normalizeAddress_nil : normalizeAddress [] = none := by decide

/-- The two outcomes of a nonempty header from a trusted peer. -/
theorem resolveClientIp_trusted {trustedProxyCidrs : List Text} {trusted : List Network}
    {peer : Text} {peerAddress : Address} {header : Text}
    (hcidrs : trustedProxyCidrs.mapM ipNetwork = some trusted)
    (hpeer : normalizeAddress peer = some peerAddress)
    (htrusted : isTrusted trusted peerAddress = true) (hheader : header ≠ []) :
    resolveClientIp trustedProxyCidrs (some peer) (some header) =
      if EntriesValid header then
        some ((((entryAddresses header ++ [peerAddress]).reverse.find? fun address =>
          !isTrusted trusted address).map Address.toText).getD
            (((entryAddresses header ++ [peerAddress]).map Address.toText).headD []))
      else some peerAddress.toText := by
  have hnormal : normalizeIp peer = some peerAddress.toText := by
    rw [normalizeIp, hpeer, Option.map_some]
  cases peer with
  | nil =>
    rw [normalizeAddress_nil] at hpeer
    cases hpeer
  | cons c cs =>
    have hread : ¬ (header = [] ∨ ¬ isTrusted trusted peerAddress = true) := by
      simp [hheader, htrusted]
    simp only [resolveClientIp, hnormal, ipAddress_toText, hcidrs, Option.getD_some,
      if_neg hread, mapM_normalizeIp]
    by_cases hvalid : EntriesValid header
    · have hall : ∀ value ∈ header.splitOn ',', (normalizeAddress value).isSome := hvalid
      have hchain : (((header.splitOn ',').filterMap normalizeAddress).map Address.toText ++
          [peerAddress.toText]) = (entryAddresses header ++ [peerAddress]).map Address.toText := by
        rw [List.map_append]
        rfl
      simp only [if_pos hall, if_pos hvalid, hchain, ← List.map_reverse,
        firstUntrusted_map_toText]
    · have hnot : ¬ ∀ value ∈ header.splitOn ',', (normalizeAddress value).isSome := hvalid
      simp only [if_neg hnot, if_neg hvalid]

/-- A peer outside the trusted networks is the client, whatever the header says. -/
theorem resolveClientIp_untrusted {trustedProxyCidrs : List Text} {peer : Option Text}
    (h : ∀ text trusted peerAddress, peer = some text → normalizeAddress text = some peerAddress →
      trustedProxyCidrs.mapM ipNetwork = some trusted → isTrusted trusted peerAddress = false)
    (forwardedFor : Option Text) :
    resolveClientIp trustedProxyCidrs peer forwardedFor =
      resolveClientIp trustedProxyCidrs peer none := by
  match peer, h with
  | none, _ => rfl
  | some [], _ => rfl
  | some (c :: cs), h =>
    cases hpeer : normalizeAddress (c :: cs) with
    | none => simp only [resolveClientIp, normalizeIp, hpeer, Option.map_none]
    | some peerAddress =>
      simp only [resolveClientIp, normalizeIp, hpeer, Option.map_some, ipAddress_toText]
      cases hcidrs : trustedProxyCidrs.mapM ipNetwork with
      | none => rfl
      | some trusted =>
        have hfalse := h _ trusted peerAddress rfl hpeer hcidrs
        simp [hfalse]

/-- The scan stops inside what the proxies added when an untrusted address stands there. -/
theorem find?_reverse_append_of_some {trusted : List Network} {back : Text} {hop : Address}
    {peerAddress : Address} (hpeer : isTrusted trusted peerAddress = true)
    (hhop : rightmostUntrusted trusted back = some hop) (front : List Address) :
    ((front ++ entryAddresses back) ++ [peerAddress]).reverse.find?
      (fun address => !isTrusted trusted address) = some hop := by
  rw [rightmostUntrusted] at hhop
  rw [List.reverse_append, List.reverse_singleton, List.singleton_append,
    List.find?_cons_of_neg (by simp [hpeer]), List.reverse_append, List.find?_append, hhop]
  rfl

/-- `resolve_client_ip` returns the text of an address, or that the client is unknown. -/
theorem resolveClientIp_cases (trustedProxyCidrs : List Text) (peer forwardedFor : Option Text) :
    resolveClientIp trustedProxyCidrs peer forwardedFor = some unknown ∨
      ∃ address : Address,
        resolveClientIp trustedProxyCidrs peer forwardedFor = some address.toText := by
  match peer with
  | none => exact .inl rfl
  | some [] => exact .inl rfl
  | some (c :: cs) =>
    cases hpeer : normalizeAddress (c :: cs) with
    | none => exact .inl (by simp only [resolveClientIp, normalizeIp, hpeer, Option.map_none])
    | some peerAddress =>
      cases hcidrs : trustedProxyCidrs.mapM ipNetwork with
      | none =>
        left
        simp only [resolveClientIp, normalizeIp, hpeer, Option.map_some, ipAddress_toText, hcidrs]
      | some trusted =>
        right
        by_cases hread : forwardedFor.getD [] = [] ∨ ¬ isTrusted trusted peerAddress = true
        · exact ⟨peerAddress, by simp only [resolveClientIp, normalizeIp, hpeer, Option.map_some,
            ipAddress_toText, hcidrs, if_pos hread]⟩
        · rw [not_or, not_not] at hread
          cases forwardedFor with
          | none => exact absurd rfl hread.1
          | some header =>
            have hheader : header ≠ [] := hread.1
            rw [resolveClientIp_trusted hcidrs hpeer hread.2 hheader]
            by_cases hvalid : EntriesValid header
            · rw [if_pos hvalid]
              cases hfind : (entryAddresses header ++ [peerAddress]).reverse.find?
                fun address => !isTrusted trusted address with
              | some address => exact ⟨address, rfl⟩
              | none =>
                cases hentries : entryAddresses header with
                | nil => exact ⟨peerAddress, rfl⟩
                | cons first rest => exact ⟨first, rfl⟩
            · rw [if_neg hvalid]
              exact ⟨peerAddress, rfl⟩

/-- `resolve_client_ip` never raises. -/
theorem resolveClientIp_isSome (trustedProxyCidrs : List Text) (peer forwardedFor : Option Text) :
    (resolveClientIp trustedProxyCidrs peer forwardedFor).isSome := by
  rcases resolveClientIp_cases trustedProxyCidrs peer forwardedFor with h | ⟨address, h⟩
  · rw [h]
    rfl
  · rw [h]
    rfl

/-- Behind a trusted peer the client's part of the header has no influence exactly as long as
all its entries parse; the header of an untrusted peer never has any. -/
theorem resolveClientIp_forwarded_iff (trustedProxyCidrs : List Text) (trusted : List Network)
    (hcidrs : trustedProxyCidrs.mapM ipNetwork = some trusted) (peer : Text) :
    (∀ peerAddress, normalizeAddress peer = some peerAddress →
      isTrusted trusted peerAddress = true →
      ∀ front back hop, EntriesValid back → rightmostUntrusted trusted back = some hop →
        (resolveClientIp trustedProxyCidrs (some peer) (some (front ++ ',' :: back)) =
          some hop.toText ↔ EntriesValid front)) ∧
    ((∀ peerAddress, normalizeAddress peer = some peerAddress →
      isTrusted trusted peerAddress = false) →
      ∀ forwardedFor forwardedFor', resolveClientIp trustedProxyCidrs (some peer) forwardedFor =
        resolveClientIp trustedProxyCidrs (some peer) forwardedFor') := by
  constructor
  · intro peerAddress hpeer htrusted front back hop hback hhop
    rw [resolveClientIp_trusted hcidrs hpeer htrusted (by simp)]
    constructor
    · -- a malformed entry gives the peer, which is trusted and so is not the hop
      intro h
      by_contra hfront
      have hinvalid : ¬ EntriesValid (front ++ ',' :: back) := by
        rw [entriesValid_append]
        exact fun hboth => hfront hboth.1
      rw [if_neg hinvalid, Option.some_inj] at h
      have huntrusted := List.find?_some hhop
      rw [← Address.toText_injective h, htrusted] at huntrusted
      cases huntrusted
    · intro hfront
      rw [if_pos ((entriesValid_append front back).mpr ⟨hfront, hback⟩), entryAddresses_append,
        find?_reverse_append_of_some htrusted hhop]
      rfl
  · intro huntrusted forwardedFor forwardedFor'
    have h : ∀ text networks peerAddress, some peer = some text →
        normalizeAddress text = some peerAddress →
        trustedProxyCidrs.mapM ipNetwork = some networks →
        isTrusted networks peerAddress = false := by
      intro text networks peerAddress htext hpeer hnetworks
      rw [← Option.some.inj htext] at hpeer
      rw [hcidrs, Option.some_inj] at hnetworks
      rw [← hnetworks]
      exact huntrusted peerAddress hpeer
    rw [resolveClientIp_untrusted h forwardedFor, resolveClientIp_untrusted h forwardedFor']

theorem resolveClientIp_forwarded_iff_sample :
    isTrusted [.v4 0x0A000000 0xFF000000] (.v4 0x0A000004) = true ∧
      (resolveClientIp ["10.0.0.0/8".toList] (some "10.0.0.4".toList)
        (some ("198.51.100.1".toList ++ ',' :: " 203.0.113.9,10.0.0.3".toList)) =
          some (Address.v4 0xCB007109).toText ↔ EntriesValid "198.51.100.1".toList) :=
  ⟨by decide, (resolveClientIp_forwarded_iff ["10.0.0.0/8".toList] [.v4 0x0A000000 0xFF000000]
    (by decide) "10.0.0.4".toList).1 (.v4 0x0A000004) (by decide) (by decide)
      "198.51.100.1".toList " 203.0.113.9,10.0.0.3".toList (.v4 0xCB007109) (by decide)
        (by decide)⟩

/-- One letter in front of the proxies' entries turns the client into the proxy. -/
theorem resolveClientIp_malformed_entry :
    ¬ ∀ trustedProxyCidrs trusted peer peerAddress front back hop,
      trustedProxyCidrs.mapM ipNetwork = some trusted →
      normalizeAddress peer = some peerAddress → isTrusted trusted peerAddress = true →
      EntriesValid back → rightmostUntrusted trusted back = some hop →
      resolveClientIp trustedProxyCidrs (some peer) (some (front ++ ',' :: back)) =
        some hop.toText := by
  intro h
  have hclaim := h ["10.0.0.0/8".toList] [.v4 0x0A000000 0xFF000000] "10.0.0.4".toList
    (.v4 0x0A000004) "x".toList "203.0.113.9".toList (.v4 0xCB007109) (by decide) (by decide)
    (by decide) (by decide) (by decide)
  have hpeer : resolveClientIp ["10.0.0.0/8".toList] (some "10.0.0.4".toList)
      (some ("x".toList ++ ',' :: "203.0.113.9".toList)) = some "10.0.0.4".toList := by
    decide
  rw [hpeer] at hclaim
  exact absurd hclaim (by decide)

end PhantomShare.Internet
