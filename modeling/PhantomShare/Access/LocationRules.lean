import Mathlib.Data.BitVec
import PhantomShare.Access.Location

/-!
# The rules of a location policy

Each list of a policy is one rule, and an empty list is no rule. `evaluate` is
compared here with the rules alone: what the lists hold as sets, combined by the
mode. Two things stand outside the combination: an address that does not parse, and
a failed country lookup under a policy that fails closed, which denies in both modes.
-/
namespace PhantomShare.Access
open Foundations Internet LocationPolicy

/-- Whether some listed network contains the address. -/
def InListedNetwork (policy : SecretAccessPolicy) (address : Address) : Prop :=
  ∃ cidr ∈ policy.allowedCidrs, ∃ network, ipNetwork cidr.toList = some network ∧
    network.contains address = true

/-- The country rule: an unknown country is let in unless the policy fails closed, and an empty
code is let in by every policy. -/
def CountryAdmitted (policy : SecretAccessPolicy) : Option String → Prop
  | none => policy.geoipFailClosed = false
  | some code => code = "" ∨ code ∈ policy.allowedCountries

/-- The rules that are not empty, combined by the mode. -/
def RulesAdmit (policy : SecretAccessPolicy) (address : Address) (country : Option String) : Prop :=
  match policy.locationPolicyMode with
  | .all =>
    (policy.allowedCidrs ≠ [] → InListedNetwork policy address) ∧
      (policy.allowedCountries ≠ [] → CountryAdmitted policy country)
  | .any =>
    (policy.allowedCidrs ≠ [] ∧ InListedNetwork policy address) ∨
      (policy.allowedCountries ≠ [] ∧ CountryAdmitted policy country)

/-- A country list, a lookup that finds none, and a policy that fails closed. -/
def LookupFails (policy : SecretAccessPolicy) (country : Option String) : Prop :=
  policy.allowedCountries ≠ [] ∧ country = none ∧ policy.geoipFailClosed = true

/-- The lookup of the country of an address. -/
def countryOf (P : Platform) (address : Address) : Option String :=
  P.countryForIp (String.ofList address.toText)

/-- Two policies that list the same entries, in whatever order and however often. -/
structure SameEntries (policy other : SecretAccessPolicy) : Prop where
  cidrs : ∀ cidr, cidr ∈ policy.allowedCidrs ↔ cidr ∈ other.allowedCidrs
  countries : ∀ code, code ∈ policy.allowedCountries ↔ code ∈ other.allowedCountries
  mode : policy.locationPolicyMode = other.locationPolicyMode
  failClosed : policy.geoipFailClosed = other.geoipFailClosed

/-- Every entry is a network, as the column type demands. -/
def WellListed (policy : SecretAccessPolicy) : Prop :=
  ∀ cidr ∈ policy.allowedCidrs, (ipNetwork cidr.toList).isSome = true

section
variable {P : Platform} {policy : SecretAccessPolicy} {clientIp : String} {address : Address}

/-- On networks `any(address in ip_network(value) for value in cidrs)` never raises. -/
theorem inAny_ok (address : Address) {cidrs : List String} (h : ∀ cidr ∈ cidrs, (ipNetwork cidr.toList).isSome = true) :
    ∃ found, inAny address cidrs = .ok found ∧
      (found = true ↔ ∃ cidr ∈ cidrs, ∃ network, ipNetwork cidr.toList = some network ∧
        network.contains address = true) := by
  induction cidrs with
  | nil => exact ⟨false, rfl, by simp⟩
  | cons cidr rest ih =>
    obtain ⟨network, hnetwork⟩ := Option.isSome_iff_exists.mp (h cidr (by simp))
    obtain ⟨found, hrest, hfound⟩ := ih fun other hother => h other (by simp [hother])
    by_cases hcontains : network.contains address = true
    · exact ⟨true, by simp [inAny, hnetwork, hcontains], by simp [hnetwork, hcontains]⟩
    · exact ⟨found, by simp [inAny, hnetwork, hcontains, hrest], by simp [hnetwork, hcontains, hfound]⟩

theorem combine_allowed {cidrCheck countryCheck : List Bool} {country : Option String} :
    (combine policy cidrCheck country countryCheck).allowed = true ↔
      match policy.locationPolicyMode with
      | .all => (∀ check ∈ cidrCheck, check = true) ∧ ∀ check ∈ countryCheck, check = true
      | .any => (∃ check ∈ cidrCheck, check = true) ∨ ∃ check ∈ countryCheck, check = true := by
  cases hmode : policy.locationPolicyMode <;> simp only [combine, hmode] <;> split <;> simp_all

/-- The check of the CIDR list, which is made when the list is not empty. -/
theorem cidrCheck_ok (address : Address) (h : WellListed policy) :
    ∃ cidrCheck, (if policy.allowedCidrs = [] then .ok []
        else (inAny address policy.allowedCidrs).map fun found => [found]) =
          (.ok cidrCheck : Except Exn (List Bool)) ∧
      ((∀ check ∈ cidrCheck, check = true) ↔
        (policy.allowedCidrs ≠ [] → InListedNetwork policy address)) ∧
      ((∃ check ∈ cidrCheck, check = true) ↔
        policy.allowedCidrs ≠ [] ∧ InListedNetwork policy address) := by
  by_cases hempty : policy.allowedCidrs = []
  · exact ⟨[], by simp [hempty], by simp [hempty], by simp [hempty]⟩
  · obtain ⟨found, hok, hfound⟩ := inAny_ok address h
    have hrule : found = true ↔ InListedNetwork policy address := hfound
    exact ⟨[found], by simp [hempty, hok, Except.map], by simp [hempty, hrule],
      by simp [hempty, hrule]⟩

/-- The verdict on an address under a policy that has a rule. -/
theorem evaluate_address (hlisted : WellListed policy)
    (hrules : ¬(policy.allowedCidrs = [] ∧ policy.allowedCountries = []))
    (haddress : normalizeAddress clientIp.toList = some address) :
    ∃ verdict, evaluate P clientIp policy = .ok verdict ∧
      (verdict.allowed = true ↔ ¬LookupFails policy (countryOf P address) ∧
        RulesAdmit policy address (countryOf P address)) := by
  obtain ⟨cidrCheck, hcheck, hall, hany⟩ := cidrCheck_ok address hlisted
  have hrun : ∀ verdict,
      (if policy.allowedCountries = [] then .ok (combine policy cidrCheck none [])
        else match countryOf P address with
          | none =>
            if policy.geoipFailClosed then .ok ⟨false, none, some "GEOIP_LOOKUP_FAILED"⟩
            else .ok (combine policy cidrCheck none [true])
          | some code => .ok (combine policy cidrCheck (some code)
              [code = "" || policy.allowedCountries.contains code])) =
        (.ok verdict : Except Exn Verdict) → evaluate P clientIp policy = .ok verdict := by
    intro verdict hverdict
    rw [evaluate, if_neg hrules, haddress]
    by_cases hempty : policy.allowedCidrs = []
    · rw [if_pos hempty, Except.ok.injEq] at hcheck
      subst hcheck
      simp only [if_pos hempty]
      exact hverdict
    · rw [if_neg hempty] at hcheck
      simp only [if_neg hempty, hcheck]
      exact hverdict
  by_cases hcountries : policy.allowedCountries = []
  · refine ⟨_, hrun _ (if_pos hcountries), ?_⟩
    rw [combine_allowed, RulesAdmit, LookupFails]
    cases policy.locationPolicyMode <;> simp only [hall, hany] <;> simp [hcountries]
  · cases hcountry : countryOf P address with
    | none =>
      by_cases hclosed : policy.geoipFailClosed = true
      · exact ⟨_, hrun _ (by rw [if_neg hcountries, hcountry]; exact if_pos hclosed),
          by simp [LookupFails, hcountries, hclosed]⟩
      · refine ⟨_, hrun _ (by rw [if_neg hcountries, hcountry]; exact if_neg hclosed), ?_⟩
        rw [combine_allowed, RulesAdmit, LookupFails]
        cases policy.locationPolicyMode <;> simp only [hall, hany] <;>
          simp [hcountries, hclosed, CountryAdmitted]
    | some code =>
      refine ⟨_, hrun _ (by rw [if_neg hcountries, hcountry]), ?_⟩
      rw [combine_allowed, RulesAdmit, LookupFails]
      cases policy.locationPolicyMode <;> simp only [hall, hany] <;>
        simp [hcountries, CountryAdmitted]

theorem SameEntries.inAny_eq {other : SecretAccessPolicy} (h : SameEntries policy other)
    (hlisted : WellListed policy) :
    inAny address policy.allowedCidrs = inAny address other.allowedCidrs := by
  obtain ⟨found, hok, hfound⟩ := inAny_ok address hlisted
  obtain ⟨found', hok', hfound'⟩ := inAny_ok address
    fun cidr hcidr => hlisted cidr ((h.cidrs cidr).mpr hcidr)
  have hsame : found = found' := by
    rw [Bool.eq_iff_iff, hfound, hfound']
    simp only [h.cidrs]
  rw [hok, hok', hsame]

/-- A verdict is about the sets of the entries. -/
theorem SameEntries.evaluate_eq {other : SecretAccessPolicy} (h : SameEntries policy other)
    (hlisted : WellListed policy) :
    evaluate P clientIp policy = evaluate P clientIp other := by
  have hcidrs : policy.allowedCidrs = [] ↔ other.allowedCidrs = [] := by
    simp only [List.eq_nil_iff_forall_not_mem, h.cidrs]
  have hcountries : policy.allowedCountries = [] ↔ other.allowedCountries = [] := by
    simp only [List.eq_nil_iff_forall_not_mem, h.countries]
  have hcontains : ∀ code, policy.allowedCountries.contains code =
      other.allowedCountries.contains code := by
    intro code
    rw [Bool.eq_iff_iff, List.contains_iff_mem, List.contains_iff_mem, h.countries]
  have hdenial : denial policy = denial other := by
    simp only [denial, ne_eq, hcidrs, hcountries]
  have hcombine : ∀ cidrCheck country countryCheck,
      combine policy cidrCheck country countryCheck =
        combine other cidrCheck country countryCheck := by
    intro cidrCheck country countryCheck
    rw [combine, combine, h.mode, hdenial]
  simp only [evaluate, hcidrs, hcountries, hcontains, hcombine, h.failClosed, h.inAny_eq hlisted]

end

/-- `evaluate` lets a client in exactly when the policy has no rule, or the address parses, no
lookup fails closed, and the rules that are not empty combine to true by the mode; and its verdict
does not depend on the order or the repetition of entries. -/
theorem evaluate_iff (P : Platform) (clientIp : String) (policy : SecretAccessPolicy)
    (hlisted : WellListed policy) :
    (∃ verdict, evaluate P clientIp policy = .ok verdict ∧
      (verdict.allowed = true ↔
        (policy.allowedCidrs = [] ∧ policy.allowedCountries = []) ∨
        ∃ address, normalizeAddress clientIp.toList = some address ∧
          ¬LookupFails policy (countryOf P address) ∧
          RulesAdmit policy address (countryOf P address))) ∧
    (∀ address, normalizeAddress clientIp.toList = some address →
      policy.locationPolicyMode = .any → InListedNetwork policy address →
      ¬LookupFails policy (countryOf P address) →
        locationAllows P clientIp policy = true) ∧
    ∀ other, SameEntries policy other → evaluate P clientIp policy = evaluate P clientIp other := by
  refine ⟨?_, ?_, fun other h => h.evaluate_eq hlisted⟩
  · by_cases hrules : policy.allowedCidrs = [] ∧ policy.allowedCountries = []
    · exact ⟨⟨true, none, none⟩, by rw [evaluate, if_pos hrules]; rfl, by simp [hrules]⟩
    · cases haddress : normalizeAddress clientIp.toList with
      | none =>
        refine ⟨⟨false, none, some "CLIENT_IP_INVALID"⟩, ?_, by simp [hrules]⟩
        rw [evaluate, if_neg hrules, haddress]
        rfl
      | some address =>
        obtain ⟨verdict, hok, hallowed⟩ := evaluate_address (P := P) hlisted hrules haddress
        exact ⟨verdict, hok, by simp [hrules, hallowed]⟩
  · intro address haddress hmode hnetwork hlookup
    have hcidrs : policy.allowedCidrs ≠ [] := by
      obtain ⟨cidr, hcidr, -⟩ := hnetwork
      exact List.ne_nil_of_mem hcidr
    obtain ⟨verdict, hok, hallowed⟩ :=
      evaluate_address (P := P) hlisted (fun hrules => hcidrs hrules.1) haddress
    rw [locationAllows, hok]
    apply hallowed.mpr
    rw [RulesAdmit, hmode]
    exact ⟨hlookup, Or.inl ⟨hcidrs, hnetwork⟩⟩

section Sample

/-- One network, one country, either of them enough, and a failed lookup denies. -/
def officePolicy : SecretAccessPolicy where
  secretId := 7
  allowedCidrs := ["203.0.113.0/24", "203.0.113.0/24"]
  allowedCountries := ["IN"]
  locationPolicyMode := .any
  geoipFailClosed := true
  policyVersion := 1
  updatedAt := 0

/-- A platform whose country database gives this answer for every address. -/
def lookupPlatform (country : Option String) : Platform :=
  { samplePlatform with countryForIp := fun _ => country }

theorem wellListed_officePolicy : WellListed officePolicy := by
  unfold WellListed
  decide +kernel

def sampleAddress : Address := .v4 (203 * 2 ^ 24 + 113 * 2 ^ 8 + 9)

theorem normalizeAddress_sampleClient :
    normalizeAddress sampleClient.toList = some sampleAddress := by decide +kernel

theorem inListedNetwork_sample : InListedNetwork officePolicy sampleAddress := by
  have hnetwork : (ipNetwork "203.0.113.0/24".toList).any (·.contains sampleAddress) = true := by
    decide +kernel
  obtain ⟨network, hparse, hcontains⟩ := (Option.any_eq_true _ _).mp hnetwork
  exact ⟨"203.0.113.0/24", by simp [officePolicy], network, hparse, hcontains⟩

theorem evaluate_iff_sample :
    locationAllows (lookupPlatform (some "DE")) sampleClient officePolicy = true ∧
    evaluate (lookupPlatform (some "DE")) sampleClient officePolicy =
      evaluate (lookupPlatform (some "DE")) sampleClient
        { officePolicy with allowedCidrs := ["203.0.113.0/24"] } := by
  obtain ⟨-, hany, hsame⟩ :=
    evaluate_iff (lookupPlatform (some "DE")) sampleClient officePolicy wellListed_officePolicy
  constructor
  · apply hany sampleAddress normalizeAddress_sampleClient rfl inListedNetwork_sample
    simp [LookupFails, countryOf, lookupPlatform]
  · apply hsame
    constructor <;> simp [officePolicy]

/-- A client inside the listed network of a policy with mode `any` is denied when the lookup finds
no country; and a country that the policy does not list is let in when its code is empty. -/
theorem listed_network_denied :
    (officePolicy.locationPolicyMode = .any ∧ InListedNetwork officePolicy sampleAddress ∧
      evaluate (lookupPlatform none) sampleClient officePolicy =
        .ok ⟨false, none, some "GEOIP_LOOKUP_FAILED"⟩) ∧
    ("" ∉ officePolicy.allowedCountries ∧
      evaluate (lookupPlatform (some "")) sampleClient
        { officePolicy with allowedCidrs := [], locationPolicyMode := .all } =
          .ok ⟨true, some "", none⟩) := by
  refine ⟨⟨rfl, inListedNetwork_sample, ?_⟩, by decide, ?_⟩ <;> decide +kernel

end Sample

end PhantomShare.Access
