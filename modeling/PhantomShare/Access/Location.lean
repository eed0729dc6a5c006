import PhantomShare.Operations
import PhantomShare.PlainPlatform
import PhantomShare.Routers.SecretAccess

/-!
# A share token is optional

`authorize` checks the token that a request presents, and the address of its
client in any case. A token that fails its check is refused whatever the address
is; a request without one is decided by the location policy alone.
-/
namespace PhantomShare.Access
open Foundations

/-- Whether the location policy lets the address of the client in. -/
def locationAllows (P : Platform) (clientIp : String) (policy : SecretAccessPolicy) : Bool :=
  match LocationPolicy.evaluate P clientIp policy with
  | .ok verdict => verdict.allowed
  | .error _ => false

/-- Whether the policy lets a request with this token in. -/
def admits (P : Platform) (id : UUID) (token : Option String) (clientIp : String)
    (policy : SecretAccessPolicy) (now : Timestamp) : Bool :=
  (LocationPolicy.checkToken P id policy.policyVersion now token).isOk &&
    locationAllows P clientIp policy

section
variable {P : Platform} {id : UUID} {token : Option String} {clientIp : String} {pid : ℕ}
  {choices : ℕ → Choice} {w : World}

/-- A request that the policy admits gets its version, and leaves the world as it is. -/
theorem alone_authorize_ok {policy : SecretAccessPolicy}
    (hfind : w.db.secretAccessPolicies.find id = some policy) (hlive : (choices 0).fails = false)
    (hadmits : admits P id token clientIp policy w.now = true) :
    (LocationPolicy.authorize P id token clientIp).alone pid choices w =
      some (.ok policy.policyVersion, fun n => choices (n + 2), w) := by
  rw [admits, Bool.and_eq_true] at hadmits
  rw [LocationPolicy.authorize, alone_query_bind _ _ _ hlive]
  simp only [hfind]
  rw [alone_clock_bind, alone_liftExcept_bind]
  cases htoken : LocationPolicy.checkToken P id policy.policyVersion w.now token with
  | error error =>
    rw [htoken] at hadmits
    cases hadmits.1
  | ok _ =>
    simp only
    rw [alone_liftExcept_bind]
    cases hevaluate : LocationPolicy.evaluate P clientIp policy with
    | error error =>
      rw [locationAllows, hevaluate] at hadmits
      cases hadmits.2
    | ok verdict =>
      have hallowed : verdict.allowed = true := by
        rw [locationAllows, hevaluate] at hadmits
        exact hadmits.2
      simp only [hallowed, if_true]
      rfl

/-- Any other request is refused. -/
theorem alone_authorize_error
    (hrefused : ∀ policy, w.db.secretAccessPolicies.find id = some policy →
      admits P id token clientIp policy w.now = false) :
    ∃ error choices' w', (LocationPolicy.authorize P id token clientIp).alone pid choices w =
      some (.error error, choices', w') := by
  cases hlive : (choices 0).fails with
  | true =>
    rw [LocationPolicy.authorize, Program.alone_bind, alone_query, hlive]
    exact ⟨_, _, _, rfl⟩
  | false =>
    rw [LocationPolicy.authorize, alone_query_bind _ _ _ hlive]
    cases hfind : w.db.secretAccessPolicies.find id with
    | none => exact ⟨_, _, _, rfl⟩
    | some policy =>
      have hadmits := hrefused policy hfind
      simp only
      rw [alone_clock_bind, alone_liftExcept_bind]
      cases htoken : LocationPolicy.checkToken P id policy.policyVersion w.now token with
      | error error => exact ⟨_, _, _, rfl⟩
      | ok _ =>
        simp only
        rw [alone_liftExcept_bind]
        cases hevaluate : LocationPolicy.evaluate P clientIp policy with
        | error error => exact ⟨_, _, _, rfl⟩
        | ok verdict =>
          have hallowed : verdict.allowed = false := by
            simpa [admits, htoken, locationAllows, hevaluate, Except.isOk, Except.toBool] using hadmits
          simp only [hallowed, Bool.false_eq_true, if_false]
          rw [Program.alone_bind, LocationPolicy.deny, Program.alone_bind]
          rcases alone_log _ with ⟨w', hlog⟩
          rw [hlog]
          exact ⟨_, _, _, rfl⟩

end

/-- `authorize`, running alone, refuses the request. -/
def Refuses (P : Platform) (id : UUID) (token : Option String) (clientIp : String) (pid : ℕ)
    (choices : ℕ → Choice) (w : World) : Prop :=
  ∃ error choices' w', (LocationPolicy.authorize P id token clientIp).alone pid choices w =
    some (.error error, choices', w')

/-- A token that verifies under one policy version is refused under every other. -/
theorem checkToken_other_version {P : Platform} {id : UUID} {token text : String}
    {version other : ℕ} {now now' : Timestamp}
    (h : Security.verifySignedToken P token version now = .ok text) (hne : version ≠ other) :
    (LocationPolicy.checkToken P id other now' (some token)).isOk = false := by
  rcases (Security.verifySignedToken_ok_iff P).mp h with
    ⟨parts, ts, hparts, _, _, _, _, hversion, _⟩
  have hnonempty : token ≠ "" := by
    rintro rfl
    simp [Security.parseSignedToken, Security.rsplit, Security.split] at hparts
  rw [LocationPolicy.checkToken.eq_3 _ _ _ _ _ (by simpa using hnonempty)]
  cases hverify : Security.verifySignedToken P token other now' with
  | error error => rfl
  | ok text' =>
    rcases (Security.verifySignedToken_ok_iff P).mp hverify with
      ⟨parts', _, hparts', _, _, _, _, hversion', _⟩
    rw [hparts, Option.some.injEq] at hparts'
    subst hparts'
    rw [hversion] at hversion'
    exact (hne (by exact_mod_cast hversion')).elim

/-- A request with a refused token is refused, and the same request without the token is refused
exactly when the location policy does not let its address in. A token of an earlier policy version
is refused. -/
theorem tokenless_refused_iff (P : Platform) (w : World) (id : UUID) (clientIp token : String)
    (policy : SecretAccessPolicy) (hfind : w.db.secretAccessPolicies.find id = some policy) :
    ((LocationPolicy.checkToken P id policy.policyVersion w.now (some token)).isOk = false →
      (∀ pid choices, Refuses P id (some token) clientIp pid choices w) ∧
      ∀ pid (choices : ℕ → Choice), (choices 0).fails = false →
        (Refuses P id none clientIp pid choices w ↔ locationAllows P clientIp policy = false)) ∧
    ∀ text version now, Security.verifySignedToken P token version now = .ok text →
      version ≠ policy.policyVersion →
        (LocationPolicy.checkToken P id policy.policyVersion w.now (some token)).isOk = false := by
  constructor
  · intro htoken
    constructor
    · intro pid choices
      apply alone_authorize_error
      intro other hother
      rw [hfind, Option.some.injEq] at hother
      rw [admits, ← hother, htoken, Bool.false_and]
    · intro pid choices hlive
      have hadmits : admits P id none clientIp policy w.now = locationAllows P clientIp policy := rfl
      constructor
      · rintro ⟨error, choices', w', hrun⟩
        cases hallows : locationAllows P clientIp policy with
        | false => rfl
        | true =>
          rw [alone_authorize_ok hfind hlive (hadmits.trans hallows)] at hrun
          cases hrun
      · intro hdenied
        apply alone_authorize_error
        intro other hother
        rw [hfind, Option.some.injEq] at hother
        rw [← hother, hadmits, hdenied]
  · intro text version now hverify hne
    exact checkToken_other_version hverify hne

section Sample

def sampleClient : String := "203.0.113.9"

def sampleOwner : CurrentUser := ⟨1, "ada@example.org", .user, true, true⟩

/-- The link that the creation of the secret has returned. -/
def earlierLink : String := Security.createSignedToken samplePlatform 7 86400 1

def linkedSecret : Secret where
  id := 7
  content := some "c2VjcmV0"
  nonce := some "bm9uY2U="
  passwordProtected := false
  accessPasswordHash := none
  ttlHours := 24
  createdAt := 0
  expiresAt := hours 24
  viewed := false
  ownerId := some 1
  maxViews := 1
  viewCount := 0
  signedToken := some earlierLink
  notifyOnView := false
  notifyEmail := none
  webhookUrl := none
  emailRestricted := false
  currentVersion := 1
  updatedAt := 0
  payloadType := .text

/-- The secret under the policy with this version. -/
def linkedWorld (policyVersion : ℕ) : World :=
  worldOf { Database.empty with
    users := sampleUsers
    secrets := ⟨[linkedSecret], List.nodup_singleton _⟩
    secretAccessPolicies := ⟨[⟨7, [], [], .all, true, policyVersion, 0⟩], List.nodup_singleton _⟩ }
    .empty .empty 0

theorem tokenless_refused_iff_sample :
    Refuses samplePlatform 7 (some earlierLink) sampleClient 0 (fun _ => {}) (linkedWorld 2) := by
  have hrefused := (tokenless_refused_iff samplePlatform (linkedWorld 2) 7 sampleClient earlierLink
    ⟨7, [], [], .all, true, 2, 0⟩ (by decide +kernel)).1 (by decide +kernel)
  exact hrefused.1 0 fun _ => {}

/-- After an update of the policy the earlier link is refused, and without its token the same request
passes. -/
theorem tokenless_admitted :
    (LocationPolicy.checkToken samplePlatform 7 1 0 (some earlierLink)).isOk = true ∧
    ∃ response choices w,
      (SecretAccess.updateLocationPolicy samplePlatform 7 {} sampleOwner sampleClient).alone 0
        (fun _ => {}) (linkedWorld 1) = some (.ok response, choices, w) ∧
      (∀ pid choices, Refuses samplePlatform 7 (some earlierLink) sampleClient pid choices w) ∧
      ∀ pid, ¬ Refuses samplePlatform 7 none sampleClient pid (fun _ => {}) w := by
  refine ⟨by decide +kernel, ?_⟩
  have hrun : ((SecretAccess.updateLocationPolicy samplePlatform 7 {} sampleOwner sampleClient).alone 0
      (fun _ => {}) (linkedWorld 1)).any (fun outcome => outcome.1.isOk &&
        outcome.2.2.db.secretAccessPolicies.find 7 = some ⟨7, [], [], .all, true, 2, 0⟩ &&
        outcome.2.2.now = 0) = true := by decide +kernel
  rcases (Option.any_eq_true _ _).mp hrun with ⟨⟨result, choices, w⟩, hrun, houtcome⟩
  simp only [Bool.and_eq_true, decide_eq_true_eq] at houtcome
  rcases houtcome with ⟨⟨hok, hfind⟩, hnow⟩
  cases result with
  | error error => cases hok
  | ok response =>
    refine ⟨response, choices, w, hrun, ?_, ?_⟩
    · intro pid choices
      apply alone_authorize_error
      intro policy hpolicy
      rw [hfind, Option.some.injEq] at hpolicy
      rw [← hpolicy, hnow]
      decide +kernel
    · rintro pid ⟨error, choices', w', hrefused⟩
      have hadmits : admits samplePlatform 7 none sampleClient ⟨7, [], [], .all, true, 2, 0⟩ w.now =
          true := by
        rw [hnow]
        decide +kernel
      rw [alone_authorize_ok hfind rfl hadmits] at hrefused
      cases hrefused

end Sample

end PhantomShare.Access
