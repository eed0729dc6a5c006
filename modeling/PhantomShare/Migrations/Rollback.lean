import PhantomShare.Access.Gates
import PhantomShare.Database.Migrations

/-!
# Rollbacks and restrictions

The down section of email access refuses to run while a secret is restricted. The
down section of location policies drops the table, and the up section gives every
secret a policy without restrictions. Whoever passes the other checks of a
restricted secret may then read it.
-/
namespace PhantomShare.Migrations
open Foundations Access

/-- What a request brings. -/
structure Caller where
  token : Option String := none
  accessPassword : Option String := none
  clientIp : String
  currentUser : Option CurrentUser := none

section
variable (P : Platform)

/-- Whether the endpoint for its kind lets the caller read a secret. -/
def retrievable (id : UUID) (caller : Caller) (w : World) : Bool :=
  match (w.db.secrets.find id).map Secret.payloadType with
  | some .text => grantsText P (P.uuidText id) caller.accessPassword caller.token caller.clientIp
      caller.currentUser w
  | some .file => grantsFile P id caller.accessPassword caller.token caller.clientIp
      caller.currentUser w
  | none => false

/-- A secret whose policy lists a network or a country. -/
def Restricted (id : UUID) (db : Database) : Prop :=
  ∃ s policy, db.secrets.find id = some s ∧ db.secretAccessPolicies.find id = some policy ∧
    (policy.allowedCidrs ≠ [] ∨ policy.allowedCountries ≠ [])

/-- The world after `location_access_policies` has been rolled back and applied again. -/
def reapplied (w : World) : World :=
  { w with db := locationAccessPoliciesUp w.now (locationAccessPoliciesDown w.db) }

/-- The secret has not expired, has views left, and somebody can answer what it asks for besides the
location. -/
structure Live (s : Secret) (db : Database) (now : Timestamp) : Prop where
  unexpired : now ≤ s.expiresAt
  before : s.payloadType = .file → now ≠ s.expiresAt
  views : s.viewCount < s.maxViews
  recipient : s.emailRestricted = true → ∃ r ∈ db.secretRecipients.rows, r.secretId = s.id
  password : s.passwordProtected = true →
    ∃ text, text ≠ "" ∧ some (P.sha256Hex text) = s.accessPasswordHash

/-- The policy refuses a client with an address that the default policy lets in. -/
def TurnsAway (id : UUID) (policy : SecretAccessPolicy) (now : Timestamp) : Prop :=
  ∃ token clientIp, (inet clientIp).isSome ∧
    admits P id token clientIp (defaultPolicy now id) now = true ∧
    admits P id token clientIp policy now = false

end

section
variable {P : Platform} {id : UUID} {w : World} {s : Secret} {policy : SecretAccessPolicy}
  {caller : Caller}

theorem reapplied_policy (hs : w.db.secrets.find id = some s) :
    (reapplied w).db.secretAccessPolicies.find id = some (defaultPolicy w.now id) := by
  have hfind := find_locationAccessPoliciesUp w.now (locationAccessPoliciesDown w.db) id
  have hs' : (locationAccessPoliciesDown w.db).secrets.find id = some s := hs
  rw [hs'] at hfind
  exact hfind

/-- What the endpoint decides, from the access state. -/
theorem retrievable_eq (hparse : P.parseUuid (P.uuidText id) = some id)
    (hs : w.db.secrets.find id = some s)
    (hpolicy : w.db.secretAccessPolicies.find id = some policy) :
    retrievable P id caller w = ((accessState s policy w.db).isOpen P id caller.token
      caller.accessPassword caller.clientIp caller.currentUser w.now &&
        (s.payloadType = .text || w.now ≠ s.expiresAt &&
          !(accessState s policy w.db).superfluous P caller.accessPassword)) := by
  rw [retrievable, hs]
  cases hkind : s.payloadType with
  | text => simp [hkind, grantsText_eq hparse hs hkind hpolicy]
  | file => simp [hkind, grantsFile_eq hs hkind hpolicy, Bool.and_assoc]

/-- The default policy lets every address in. -/
theorem admits_default (now : Timestamp) (clientIp : String) :
    admits P id none clientIp (defaultPolicy now id) now = true := rfl

/-- A policy with a list refuses a client without an address. -/
theorem refuses_unknown {token : Option String} {now : Timestamp}
    (h : policy.allowedCidrs ≠ [] ∨ policy.allowedCountries ≠ []) :
    admits P id token "unknown" policy now = false := by
  have hlisted : ¬ (policy.allowedCidrs = [] ∧ policy.allowedCountries = []) := by
    rintro ⟨hcidrs, hcountries⟩
    rcases h with h | h
    · exact h hcidrs
    · exact h hcountries
  have haddress : Internet.normalizeAddress "unknown".toList = none := by decide +kernel
  have hverdict : LocationPolicy.evaluate P "unknown" policy =
      .ok ⟨false, none, some "CLIENT_IP_INVALID"⟩ := by
    rw [LocationPolicy.evaluate, if_neg hlisted]
    simp only [haddress]
    rfl
  rw [admits, locationAllows, hverdict, Bool.and_false]

theorem nonempty_ne {given : Option String} {text : String}
    (h : Secrets.nonempty given = some text) : text ≠ "" := by
  rintro rfl
  unfold Secrets.nonempty at h
  split at h
  · cases h
  · rename_i hne
    exact hne h

/-- Whoever may read the secret shows that it is live. -/
theorem live_of_retrievable (hparse : P.parseUuid (P.uuidText id) = some id)
    (hs : w.db.secrets.find id = some s)
    (hpolicy : w.db.secretAccessPolicies.find id = some policy)
    (h : retrievable P id caller w = true) : Live P s w.db w.now := by
  rw [retrievable_eq hparse hs hpolicy, AccessState.isOpen] at h
  simp only [Bool.and_eq_true, Bool.or_eq_true, decide_eq_true_eq, accessState] at h
  obtain ⟨⟨⟨⟨⟨_, hknows⟩, hunlocked⟩, hunexpired⟩, hviews⟩, hkind⟩ := h
  constructor
  · exact of_decide_eq_true hunexpired
  · intro hfile
    rcases hkind with htext | ⟨hbefore, _⟩
    · rw [hfile] at htext
      cases htext
    · simpa using hbefore
  · exact of_decide_eq_true hviews
  · intro hrestricted
    simp only [AccessState.knows, hrestricted, Bool.not_true, Bool.false_or] at hknows
    obtain ⟨user, _, huser⟩ := (Option.any_eq_true _ _).mp hknows
    rw [Bool.and_eq_true, List.any_eq_true] at huser
    obtain ⟨email, hemail, _⟩ := huser.2
    obtain ⟨r, hr, _⟩ := List.mem_map.mp hemail
    exact ⟨r, (List.mem_filter.mp hr).1, by simpa using (List.mem_filter.mp hr).2⟩
  · intro hprotected
    simp only [AccessState.unlocked, hprotected, Bool.not_true, Bool.false_or] at hunlocked
    obtain ⟨text, hpassword, hhash⟩ := (Option.any_eq_true _ _).mp hunlocked
    exact ⟨text, nonempty_ne hpassword, by simpa using hhash⟩

/-- A user and a password that answer everything else. -/
theorem exists_answers (policy : SecretAccessPolicy) (hlive : Live P s w.db w.now) :
    ∃ currentUser accessPassword, (accessState s policy w.db).knows currentUser = true ∧
      (accessState s policy w.db).unlocked P accessPassword = true ∧
      (accessState s policy w.db).superfluous P accessPassword = false := by
  have huser : ∃ user, (accessState s policy w.db).knows user = true := by
    cases hrestricted : s.emailRestricted with
    | false => exact ⟨none, by simp [AccessState.knows, accessState, hrestricted]⟩
    | true =>
      obtain ⟨r, hr, hid⟩ := hlive.recipient hrestricted
      refine ⟨some ⟨0, r.email, .user, true, true⟩, ?_⟩
      have hmem : r.email ∈ (accessState s policy w.db).recipients :=
        List.mem_map.mpr ⟨r, List.mem_filter.mpr ⟨hr, by simpa using hid⟩, rfl⟩
      simp only [AccessState.knows, Option.any_some, Bool.true_and, Bool.or_eq_true,
        List.any_eq_true]
      exact .inr ⟨r.email, hmem, by simp [citextEq]⟩
  have hpassword : ∃ password, (accessState s policy w.db).unlocked P password = true ∧
      (accessState s policy w.db).superfluous P password = false := by
    cases hprotected : s.passwordProtected with
    | false =>
      exact ⟨none, by simp [AccessState.unlocked, accessState, hprotected], by
        simp [AccessState.superfluous, Secrets.nonempty]⟩
    | true =>
      obtain ⟨text, hne, hhash⟩ := hlive.password hprotected
      have hgiven : Secrets.nonempty (some text) = some text := by simp [Secrets.nonempty, hne]
      exact ⟨some text, by simp [AccessState.unlocked, accessState, hgiven, hhash],
        by simp [AccessState.superfluous, accessState, hprotected]⟩
  obtain ⟨user, huser⟩ := huser
  obtain ⟨password, hunlocked, hsuperfluous⟩ := hpassword
  exact ⟨user, password, huser, hunlocked, hsuperfluous⟩

/-- After the rollback somebody reads a live secret with any token and from any address that the
default policy lets in. -/
theorem exists_reader (hparse : P.parseUuid (P.uuidText id) = some id)
    (hs : w.db.secrets.find id = some s) (hlive : Live P s w.db w.now) {token : Option String}
    {clientIp : String} (hadmits : admits P id token clientIp (defaultPolicy w.now id) w.now = true) :
    ∃ currentUser accessPassword,
      retrievable P id ⟨token, accessPassword, clientIp, currentUser⟩ (reapplied w) = true := by
  obtain ⟨currentUser, accessPassword, hknows, hunlocked, hsuperfluous⟩ :=
    exists_answers (defaultPolicy w.now id) hlive
  have hs' : (reapplied w).db.secrets.find id = some s := hs
  have hstate : accessState s (defaultPolicy w.now id) (reapplied w).db =
      accessState s (defaultPolicy w.now id) w.db := rfl
  have hkind : (s.payloadType = .text || w.now ≠ s.expiresAt) = true := by
    cases hkind : s.payloadType with
    | text => rfl
    | file => simpa using hlive.before hkind
  refine ⟨currentUser, accessPassword, ?_⟩
  rw [retrievable_eq hparse hs' (reapplied_policy hs), hstate, AccessState.isOpen, hknows, hunlocked,
    hsuperfluous]
  simp only [Bool.and_true, Bool.not_false, Bool.and_eq_true, decide_eq_true_eq]
  exact ⟨⟨⟨hadmits, hlive.unexpired⟩, hlive.views⟩, hkind⟩

/-- Besides the policy, the rollback leaves all that decides. -/
theorem retrievable_reapplied (hparse : P.parseUuid (P.uuidText id) = some id)
    (hs : w.db.secrets.find id = some s)
    (hpolicy : w.db.secretAccessPolicies.find id = some policy)
    (hopen : retrievable P id caller (reapplied w) = true) :
    retrievable P id caller w = admits P id caller.token caller.clientIp policy w.now := by
  have hs' : (reapplied w).db.secrets.find id = some s := hs
  rw [retrievable_eq hparse hs' (reapplied_policy hs), AccessState.isOpen] at hopen
  simp only [Bool.and_eq_true] at hopen
  obtain ⟨⟨⟨⟨⟨_, hknows⟩, hunlocked⟩, hunexpired⟩, hviews⟩, hkind⟩ := hopen
  rw [retrievable_eq hparse hs hpolicy, AccessState.isOpen]
  have hknows' : (accessState s policy w.db).knows caller.currentUser = true := hknows
  have hunlocked' : (accessState s policy w.db).unlocked P caller.accessPassword = true := hunlocked
  have hunexpired' : decide (w.now ≤ (accessState s policy w.db).expiresAt) = true := hunexpired
  have hviews' : decide ((accessState s policy w.db).viewCount <
      (accessState s policy w.db).maxViews) = true := hviews
  have hkind' : (s.payloadType = .text || w.now ≠ s.expiresAt &&
      !(accessState s policy w.db).superfluous P caller.accessPassword) = true := hkind
  rw [hknows', hunlocked', hunexpired', hviews', hkind']
  simp only [Bool.and_true]
  rfl

end

/-- Rolling back email access aborts while a secret is restricted. Rolling back location policies
and applying them again opens no restricted secret to anybody new exactly when none is live, and to
nobody new with an address exactly when none that is live turns such a client away. -/
theorem rollback_never_widens_iff (P : Platform)
    (hparse : ∀ id, P.parseUuid (P.uuidText id) = some id) :
    (∀ db : EmailDatabase, (∃ s ∈ db.secrets.rows, s.emailRestricted = true) →
      ∃ message, emailAccessAndViewsDown db = .error (.raiseException message)) ∧
    (∀ w : World, (∀ id, Restricted id w.db → ∀ caller,
        retrievable P id caller (reapplied w) = true → retrievable P id caller w = true) ↔
      ∀ id s, Restricted id w.db → w.db.secrets.find id = some s → ¬ Live P s w.db w.now) ∧
    ∀ w : World, (∀ id, Restricted id w.db → ∀ caller, (inet caller.clientIp).isSome →
        retrievable P id caller (reapplied w) = true → retrievable P id caller w = true) ↔
      ∀ id s policy, Restricted id w.db → w.db.secrets.find id = some s →
        w.db.secretAccessPolicies.find id = some policy → Live P s w.db w.now →
          ¬ TurnsAway P id policy w.now := by
  refine ⟨?_, ?_, ?_⟩
  · rintro db ⟨s, hs, hrestricted⟩
    have hany : (db.secrets.rows.any fun s => s.emailRestricted) = true :=
      List.any_eq_true.mpr ⟨s, hs, hrestricted⟩
    exact ⟨_, if_pos hany⟩
  · intro w
    constructor
    · rintro hnever id s ⟨_, policy, _, hpolicy, hlisted⟩ hs hlive
      have hadmits : admits P id none "unknown" (defaultPolicy w.now id) w.now = true :=
        admits_default w.now "unknown"
      obtain ⟨currentUser, accessPassword, hopen⟩ := exists_reader (hparse id) hs hlive hadmits
      have hclosed := retrievable_reapplied (hparse id) hs hpolicy hopen
      rw [hnever id ⟨s, policy, hs, hpolicy, hlisted⟩ _ hopen, refuses_unknown hlisted] at hclosed
      cases hclosed
    · rintro hdead id ⟨s, policy, hs, hpolicy, hlisted⟩ caller hopen
      have hs' : (reapplied w).db.secrets.find id = some s := hs
      have hlive := live_of_retrievable (hparse id) hs' (reapplied_policy hs) hopen
      exact absurd ⟨hlive.unexpired, hlive.before, hlive.views, hlive.recipient, hlive.password⟩
        (hdead id s ⟨s, policy, hs, hpolicy, hlisted⟩ hs)
  · intro w
    constructor
    · rintro hnever id s policy hrestricted hs hpolicy hlive
        ⟨token, clientIp, haddress, hadmits, hrefused⟩
      obtain ⟨currentUser, accessPassword, hopen⟩ := exists_reader (hparse id) hs hlive hadmits
      have hclosed := retrievable_reapplied (hparse id) hs hpolicy hopen
      rw [hnever id hrestricted ⟨token, accessPassword, clientIp, currentUser⟩ haddress hopen,
        hrefused] at hclosed
      cases hclosed
    · rintro hkept id ⟨s, policy, hs, hpolicy, hlisted⟩ caller haddress hopen
      have hs' : (reapplied w).db.secrets.find id = some s := hs
      have hlive := live_of_retrievable (hparse id) hs' (reapplied_policy hs) hopen
      rw [retrievable_reapplied (hparse id) hs hpolicy hopen]
      by_contra hrefused
      rw [Bool.not_eq_true] at hrefused
      rw [retrievable_eq (hparse id) hs' (reapplied_policy hs), AccessState.isOpen] at hopen
      simp only [Bool.and_eq_true] at hopen
      have hdefault : admits P id caller.token caller.clientIp (defaultPolicy w.now id) w.now =
          true := hopen.1.1.1.1.1
      exact hkept id s policy ⟨s, policy, hs, hpolicy, hlisted⟩ hs hpolicy
        ⟨hlive.unexpired, hlive.before, hlive.views, hlive.recipient, hlive.password⟩
        ⟨caller.token, caller.clientIp, haddress, hdefault, hrefused⟩

section Sample

/-- A secret for the clients of one network. -/
def listedWorld : World :=
  worldOf { Database.empty with
    users := sampleUsers
    secrets := .single linkedSecret
    secretAccessPolicies := .single ⟨7, ["203.0.113.0/24"], [], .all, true, 1, 0⟩ } .empty .empty 0

theorem restricted_listed : Restricted 7 listedWorld.db :=
  ⟨linkedSecret, ⟨7, ["203.0.113.0/24"], [], .all, true, 1, 0⟩, by decide, by decide,
    .inl (List.cons_ne_nil _ _)⟩

/-- The content that a request without token and password gets when it runs alone. -/
def contentFor (clientIp : String) (w : World) : Option String :=
  ((Secrets.retrieveSecret samplePlatform (samplePlatform.uuidText 7) none none clientIp none).alone
    0 (fun _ => {}) w).bind fun outcome =>
      match outcome.1 with
      | .ok response => some response.content
      | .error _ => none

/-- A client of another network is refused, and gets the content after the rollback. -/
theorem rollback_opens :
    contentFor "198.51.100.1" listedWorld = none ∧
    contentFor "198.51.100.1" (reapplied listedWorld) = some "c2VjcmV0" ∧
    ¬ ∀ id, Restricted id listedWorld.db → ∀ caller,
      retrievable samplePlatform id caller (reapplied listedWorld) = true →
        retrievable samplePlatform id caller listedWorld = true := by
  refine ⟨by decide +kernel, by decide +kernel, ?_⟩
  intro hnever
  have hkept := hnever 7 restricted_listed ⟨none, none, "198.51.100.1", none⟩ (by decide +kernel)
  exact absurd hkept (by decide +kernel)

theorem linkedSecret_live : Live samplePlatform linkedSecret listedWorld.db listedWorld.now :=
  ⟨by decide, by decide, by decide, by decide, fun hprotected => Bool.noConfusion hprotected⟩

/-- Of a live secret for one network, the rollback opens it to a client of another. The same secret
stays closed after its expiry. -/
theorem rollback_never_widens_sample :
    (¬ ∀ id, Restricted id listedWorld.db → ∀ caller, (inet caller.clientIp).isSome →
      retrievable samplePlatform id caller (reapplied listedWorld) = true →
        retrievable samplePlatform id caller listedWorld = true) ∧
    ∀ id, Restricted id (listedWorld.setNow (hours 25)).db → ∀ caller,
      retrievable samplePlatform id caller (reapplied (listedWorld.setNow (hours 25))) = true →
        retrievable samplePlatform id caller (listedWorld.setNow (hours 25)) = true := by
  have hiff := rollback_never_widens_iff samplePlatform (Platform.plain_telling _).parseUuid_text
  constructor
  · intro hnever
    have hkept := (hiff.2.2 listedWorld).mp hnever 7 linkedSecret
      ⟨7, ["203.0.113.0/24"], [], .all, true, 1, 0⟩ restricted_listed (by decide) (by decide)
    apply hkept linkedSecret_live
    exact ⟨none, "198.51.100.1", by decide +kernel, by decide +kernel, by decide +kernel⟩
  · apply (hiff.2.1 _).mpr
    intro id s _ hs hlive
    have hexpires : s.expiresAt = hours 24 := by
      have hmem : s ∈ [linkedSecret] := Table.mem_of_find hs
      rw [List.mem_singleton.mp hmem]
      rfl
    have hunexpired := hlive.unexpired
    rw [hexpires] at hunexpired
    exact absurd hunexpired (by decide)

end Sample

end PhantomShare.Migrations
