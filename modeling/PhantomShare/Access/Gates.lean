import PhantomShare.Access.Location
import PhantomShare.Routers.Files

/-!
# Who may read a secret

Text and file secrets have the same access columns, and each kind has its own
code that reads them. The gates below are the parts of the two handlers before
they touch the content; what they decide is a function of the access state.
-/
namespace PhantomShare.Access
open Foundations

/-! ### The gates of the handlers -/

section Gates
variable (P : Platform)

/-- The checks of `_retrieve_secret` on the row that it has locked. -/
def retrieveGate (id : UUID) (policy : Option SecretAccessPolicy) (policyVersion : ℕ)
    (accessPassword : Option String) (currentUser : Option CurrentUser) (now : Timestamp) :
    Tx Database Exn Secret := do
  let row ← Tx.select fun db => db.secrets.find id
  let some secret := row | throw (httpError 404 "Secret not found or has expired")
  let some policy := policy | throw (httpError 404 "Secret not found or has expired")
  Tx.raiseIf (policy.policyVersion ≠ policyVersion)
    (httpError 403 "Share token policy is no longer current")
  Tx.raiseIf (secret.expiresAt < now) (httpError 410 "Secret has expired")
  Tx.raiseIf (secret.maxViews ≤ secret.viewCount)
    (httpError 410 "Secret has reached its maximum view count")
  Tx.raiseIf (secret.payloadType ≠ .text)
    (httpError 409 "This secret contains a file; use the file download endpoint")
  Secrets.checkRecipient secret currentUser
  Tx.ofExcept (Secrets.checkPassword P secret accessPassword)
  return secret

/-- What follows the gate in the transaction of a retrieval. -/
def retrieveGranted (id : UUID) (clientIp : String) (currentUser : Option CurrentUser)
    (now : Timestamp) (secret : Secret) : Tx Database Exn Secrets.Seen := do
  let (content, clientEncrypted) ← Secrets.readContent P secret
  let newViewCount := secret.viewCount + 1
  let rowcount ← Tx.execute fun db =>
    db.insertView (Secrets.viewBy currentUser id secret.currentVersion now)
  Tx.raiseIf (secret.emailRestricted && rowcount ≠ 1)
    (httpError 500 "Unable to record secret access")
  AuditService.logWith
    { action := "secret_viewed", actorId := currentUser.map CurrentUser.id
      actorIp := some clientIp, secretId := some id
      metadata := [("view_count", .int newViewCount), ("max_views", .int secret.maxViews)] } now
  Tx.write fun db => db.updateViewCount now id newViewCount (secret.maxViews ≤ newViewCount)
  return ⟨secret, content, clientEncrypted⟩

theorem retrieveTransaction_eq (id : UUID) (policy : Option SecretAccessPolicy)
    (policyVersion : ℕ) (accessPassword : Option String) (clientIp : String)
    (currentUser : Option CurrentUser) (now : Timestamp) :
    Secrets.retrieveTransaction P id policy policyVersion accessPassword clientIp currentUser now =
      retrieveGate P id policy policyVersion accessPassword currentUser now >>=
        retrieveGranted P id clientIp currentUser now := by
  unfold Secrets.retrieveTransaction retrieveGate
  rw [Tx.bind_assoc']
  congr 1
  funext row
  cases row with
  | none => rfl
  | some secret =>
    cases policy with
    | none => rfl
    | some policy =>
      simp only [Tx.bind_assoc']
      rfl

/-- The checks of `download_file_secret` before it reads the file. -/
def downloadGate (secretId : UUID) (token accessPassword : Option String) (clientIp : String)
    (currentUser : Option CurrentUser) : Handler (Files.FileRow × ℕ) := do
  let policyVersion ← LocationPolicy.authorize P secretId token clientIp
  let row ← query (.fileSecret secretId) fun _ db => Files.fileRow secretId db
  let some found := row | throw (httpError 404 "File secret not found")
  Files.authorize P found.secret accessPassword currentUser
  raiseIf (found.policyVersion ≠ policyVersion)
    (httpError 403 "Share token policy is no longer current")
  let now ← clock
  raiseIf (found.secret.expiresAt ≤ now || found.secret.maxViews ≤ found.secret.viewCount)
    (httpError 410 "Secret is no longer available")
  return (found, policyVersion)

/-- What follows the gate of a download. -/
def downloadGranted (secretId : UUID) (clientIp : String) (currentUser : Option CurrentUser)
    (granted : Files.FileRow × ℕ) : Handler FileResponse := do
  let version := granted.1.secret.currentVersion
  let stored ← query (.objectKey secretId version) fun _ db =>
    db.secretVersions.find (secretId, version)
  let some versionRow := stored
    | throw (httpError 404 "Did not find a file for provided secret id and version")
  let some objectKey := versionRow.objectKey | throw .validation
  let encrypted ← StorageService.download objectKey
  let policy ← query (.lockedPolicy secretId) fun _ db => db.secretAccessPolicies.find secretId
  let opened ← transaction
    (.download secretId version granted.2 (policy.map SecretAccessPolicy.policyVersion) encrypted)
    (fun _ now => Files.downloadTransaction P secretId policy version granted.2 encrypted clientIp
      currentUser now)
    fun opened => .downloaded secretId opened.secret.currentVersion
  return ⟨opened.content, Files.orElse (some (Files.pathName opened.filename)) "download",
    Files.orElse opened.version.mediaType "application/octet-stream"⟩

theorem downloadFileSecret_eq (secretId : UUID) (token accessPassword : Option String)
    (clientIp : String) (currentUser : Option CurrentUser) :
    Files.downloadFileSecret P secretId token accessPassword clientIp currentUser =
      downloadGate P secretId token accessPassword clientIp currentUser >>=
        downloadGranted P secretId clientIp currentUser := by
  unfold Files.downloadFileSecret downloadGate
  rw [Program.bind_assoc']
  congr 1
  funext policyVersion
  rw [Program.bind_assoc']
  congr 1
  funext row
  cases row with
  | none => rfl
  | some found =>
    simp only [Program.bind_assoc']
    rfl

/-- The checks of the transaction of a download on the row that it has locked. -/
def lockedGate (secretId : UUID) (policy : Option SecretAccessPolicy) (version policyVersion : ℕ) :
    Tx Database Exn Secret := do
  let row ← Tx.select fun db => (db.secrets.find secretId).bind fun s =>
    policy.map fun p => (s, p.policyVersion)
  let some locked := row | throw (httpError 409 "Secret changed; retry download")
  Tx.raiseIf (locked.1.currentVersion ≠ version) (httpError 409 "Secret changed; retry download")
  Tx.raiseIf (locked.2 ≠ policyVersion) (httpError 403 "Share token policy is no longer current")
  Tx.raiseIf (locked.1.maxViews ≤ locked.1.viewCount) (httpError 410 "Secret is no longer available")
  return locked.1

/-- What follows the gate in the transaction of a download. -/
def downloadOpened (secretId : UUID) (version : ℕ) (encrypted : Bytes) (clientIp : String)
    (currentUser : Option CurrentUser) (now : Timestamp) (locked : Secret) :
    Tx Database Exn Files.Opened := do
  let stored ← Tx.select fun db => db.secretVersions.find (secretId, locked.currentVersion)
  let some versionRow := stored | throw (httpError 404 "Key not found for the secret version")
  let dek ← KeyService.getDekForSecret P secretId versionRow.keyVersion
  let filename ← Tx.ofExcept
    (KeyService.decryptColumns P versionRow.filenameCiphertext versionRow.filenameNonce dek)
  let content ← Tx.ofExcept (Files.decryptObject P encrypted dek secretId version)
  let newCount := locked.viewCount + 1
  let _ ← Tx.execute fun db =>
    db.insertView (Secrets.viewBy currentUser secretId locked.currentVersion now)
  Tx.write fun db => db.updateViewCount now secretId newCount (locked.maxViews ≤ newCount)
  AuditService.logWith
    { action := "secret_viewed", actorId := currentUser.map CurrentUser.id
      actorIp := some clientIp, secretId := some secretId
      metadata := [("version", .int locked.currentVersion), ("payload_type", .str "file")] } now
  return ⟨locked, versionRow, filename, content⟩

theorem downloadTransaction_eq (secretId : UUID) (policy : Option SecretAccessPolicy)
    (version policyVersion : ℕ) (encrypted : Bytes) (clientIp : String)
    (currentUser : Option CurrentUser) (now : Timestamp) :
    Files.downloadTransaction P secretId policy version policyVersion encrypted clientIp currentUser
        now =
      lockedGate secretId policy version policyVersion >>=
        downloadOpened P secretId version encrypted clientIp currentUser now := by
  unfold Files.downloadTransaction lockedGate
  rw [Tx.bind_assoc']
  congr 1
  funext row
  cases row with
  | none => rfl
  | some locked =>
    simp only [Tx.bind_assoc']
    rfl

/-! ### What the gates decide -/

/-- Whether a retrieval that runs alone is granted. -/
def grantsText (secretId : String) (accessPassword token : Option String) (clientIp : String)
    (currentUser : Option CurrentUser) (w : World) : Bool :=
  match (Secrets.authorizeRetrieval P secretId token clientIp).alone 0 (fun _ => {}) w with
  | some (.ok (id, policyVersion), _, w') =>
    ((retrieveGate P id (w'.db.secretAccessPolicies.find id) policyVersion accessPassword currentUser
      w'.now).run w'.db).isOk
  | _ => false

/-- Whether a download that runs alone is granted. -/
def grantsFile (secretId : UUID) (accessPassword token : Option String) (clientIp : String)
    (currentUser : Option CurrentUser) (w : World) : Bool :=
  match (downloadGate P secretId token accessPassword clientIp currentUser).alone 0 (fun _ => {}) w with
  | some (.ok (found, policyVersion), _, w') =>
    ((lockedGate secretId (w'.db.secretAccessPolicies.find secretId) found.secret.currentVersion
      policyVersion).run w'.db).isOk
  | _ => false

end Gates

/-- The columns and rows that decide who may read a secret. -/
structure AccessState where
  passwordProtected : Bool
  accessPasswordHash : Option String
  emailRestricted : Bool
  recipients : List String
  expiresAt : Timestamp
  viewCount : ℤ
  maxViews : ℤ
  policy : SecretAccessPolicy
  deriving DecidableEq

def accessState (s : Secret) (policy : SecretAccessPolicy) (db : Database) : AccessState where
  passwordProtected := s.passwordProtected
  accessPasswordHash := s.accessPasswordHash
  emailRestricted := s.emailRestricted
  recipients := (db.secretRecipients.rows.filter fun r => r.secretId = s.id).map SecretRecipient.email
  expiresAt := s.expiresAt
  viewCount := s.viewCount
  maxViews := s.maxViews
  policy := policy

namespace AccessState
variable (P : Platform) (state : AccessState)

/-- The caller is a verified recipient, where that is asked for. -/
def knows (currentUser : Option CurrentUser) : Bool :=
  !state.emailRestricted || currentUser.any fun user =>
    user.isVerified && state.recipients.any fun email => citextEq email user.email

/-- A password that is asked for is given. -/
def unlocked (accessPassword : Option String) : Bool :=
  !state.passwordProtected || (Secrets.nonempty accessPassword).any fun text =>
    some (P.sha256Hex text) = state.accessPasswordHash

/-- A password is given that is not asked for and not the stored one. -/
def superfluous (accessPassword : Option String) : Bool :=
  !state.passwordProtected && (Secrets.nonempty accessPassword).any fun text =>
    some (P.sha256Hex text) ≠ state.accessPasswordHash

/-- The checks that both gates make. -/
def isOpen (id : UUID) (token accessPassword : Option String) (clientIp : String)
    (currentUser : Option CurrentUser) (now : Timestamp) : Bool :=
  admits P id token clientIp state.policy now && state.knows currentUser &&
    state.unlocked P accessPassword && now ≤ state.expiresAt && state.viewCount < state.maxViews

end AccessState

section Decisions
variable {P : Platform} {id : UUID} {w : World} {s : Secret} {policy : SecretAccessPolicy}
  {accessPassword token : Option String} {clientIp : String} {currentUser : Option CurrentUser}

theorem knows_eq (db : Database) (user : CurrentUser) (hrestricted : s.emailRestricted = true) :
    (accessState s policy db).knows (some user) = (user.isVerified &&
      db.secretRecipients.rows.any fun r => r.secretId = s.id ∧ citextEq r.email user.email) := by
  simp [AccessState.knows, accessState, hrestricted, List.any_map, List.any_filter,
    Function.comp_def]

/-- The recipient check of a retrieval passes or raises, and changes nothing. -/
theorem checkRecipient_bind_isOk {α : Type} (f : Unit → Tx Database Exn α) (db : Database) :
    ((Secrets.checkRecipient s currentUser >>= f) ⟨db, false⟩).1.isOk =
      ((accessState s policy db).knows currentUser && (f () ⟨db, false⟩).1.isOk) := by
  unfold Secrets.checkRecipient
  cases hrestricted : s.emailRestricted with
  | false =>
    have hknows : (accessState s policy db).knows currentUser = true := by
      simp [AccessState.knows, accessState, hrestricted]
    rw [hknows, Bool.true_and]
    rfl
  | true =>
    cases currentUser with
    | none =>
      have hknows : (accessState s policy db).knows none = false := by
        simp [AccessState.knows, accessState, hrestricted]
      rw [hknows, Bool.false_and]
      rfl
    | some user =>
      rw [knows_eq db user hrestricted, if_pos rfl]
      simp only [Tx.bind_assoc', Tx.raiseIf_bind_isOk, Tx.select_bind, Bool.not_not, Bool.and_assoc]

theorem checkPassword_isOk : (Secrets.checkPassword P s accessPassword).isOk =
    (accessState s policy w.db).unlocked P accessPassword := by
  unfold Secrets.checkPassword
  cases hprotected : s.passwordProtected with
  | false => simp [AccessState.unlocked, accessState, hprotected, Except.isOk, Except.toBool]
  | true =>
    cases hpassword : Secrets.nonempty accessPassword with
    | none =>
      simp [AccessState.unlocked, accessState, hprotected, hpassword, Except.isOk, Except.toBool]
    | some text =>
      by_cases hhash : some (P.sha256Hex text) = s.accessPasswordHash
      · simp [AccessState.unlocked, accessState, hpassword, hhash, Except.isOk, Except.toBool]
      · simp [AccessState.unlocked, accessState, hprotected, hpassword, hhash, Except.isOk,
          Except.toBool]

/-- The gate of a retrieval, once its request is authorised. -/
theorem retrieveGate_isOk (hs : w.db.secrets.find id = some s) (htext : s.payloadType = .text)
    (now : Timestamp) : ((retrieveGate P id (some policy) policy.policyVersion accessPassword
      currentUser now).run w.db).isOk = (now ≤ s.expiresAt && s.viewCount < s.maxViews &&
        (accessState s policy w.db).knows currentUser &&
          (accessState s policy w.db).unlocked P accessPassword) := by
  rw [Tx.run_isOk, retrieveGate, Tx.select_bind, hs]
  simp only [Tx.raiseIf_bind_isOk, @checkRecipient_bind_isOk s policy currentUser,
    Tx.ofExcept_bind_isOk, @checkPassword_isOk P w s policy accessPassword, htext, ne_eq, not_true,
    decide_false, Bool.not_false, Bool.true_and, not_lt, not_le, ← decide_not, Bool.and_assoc]

/-- The checks before the transaction of a retrieval, for an id that parses. -/
theorem alone_authorizeRetrieval {secretId : String} {pid : ℕ} {choices : ℕ → Choice}
    (hparse : P.parseUuid secretId = some id) :
    (Secrets.authorizeRetrieval P secretId token clientIp).alone pid choices w =
      ((LocationPolicy.authorize P id token clientIp).alone pid choices w).map fun outcome =>
        match outcome with
        | (.ok policyVersion, choices', w') => (.ok (id, policyVersion), choices', w')
        | (.error (.valueError _), choices', w') =>
          (.error (httpError 403 "Invalid share token"), choices', w')
        | (.error error, choices', w') => (.error error, choices', w') := by
  have hid : Security.uuidOfText P secretId = .ok id := by rw [Security.uuidOfText, hparse]
  rw [Secrets.authorizeRetrieval, Program.alone_tryCatch, alone_liftExcept_bind, hid]
  simp only
  rw [Program.alone_bind]
  cases (LocationPolicy.authorize P id token clientIp).alone pid choices w with
  | none => rfl
  | some outcome =>
    rcases outcome with ⟨_ | _, choices', w'⟩
    · rename_i error
      cases error <;> rfl
    · rfl

theorem grantsText_eq {secretId : String} (hparse : P.parseUuid secretId = some id)
    (hs : w.db.secrets.find id = some s) (htext : s.payloadType = .text)
    (hpolicy : w.db.secretAccessPolicies.find id = some policy) :
    grantsText P secretId accessPassword token clientIp currentUser w =
      (accessState s policy w.db).isOpen P id token accessPassword clientIp currentUser w.now := by
  rw [grantsText, alone_authorizeRetrieval hparse]
  cases hadmits : admits P id token clientIp policy w.now with
  | false =>
    rcases @alone_authorize_error P id token clientIp 0 (fun _ => {}) w (by
      intro other hother
      rw [hpolicy, Option.some.injEq] at hother
      rw [← hother, hadmits]) with ⟨error, choices', w', hrun⟩
    have hclosed : (accessState s policy w.db).isOpen P id token accessPassword clientIp currentUser
        w.now = false := by
      simp only [AccessState.isOpen, accessState, hadmits, Bool.false_and]
    rw [hrun, hclosed]
    cases error <;> rfl
  | true =>
    rw [alone_authorize_ok hpolicy rfl hadmits]
    simp only [Option.map_some, hpolicy]
    rw [retrieveGate_isOk hs htext]
    simp only [AccessState.isOpen, hadmits, Bool.true_and, accessState]
    ac_rfl

/-- The recipient check of `_authorize`, running alone. -/
theorem alone_checkRecipient : ∃ error,
    (Files.checkRecipient s currentUser).alone 0 (fun _ => {}) w = some
      (if (accessState s policy w.db).knows currentUser then .ok () else .error error,
        fun _ => {}, w) := by
  unfold Files.checkRecipient
  cases hrestricted : s.emailRestricted with
  | false =>
    have hknows : (accessState s policy w.db).knows currentUser = true := by
      simp [AccessState.knows, accessState, hrestricted]
    rw [hknows]
    exact ⟨.validation, rfl⟩
  | true =>
    cases currentUser with
    | none =>
      have hknows : (accessState s policy w.db).knows none = false := by
        simp [AccessState.knows, accessState, hrestricted]
      rw [hknows]
      exact ⟨_, rfl⟩
    | some user =>
      rw [knows_eq w.db user hrestricted, if_pos rfl]
      simp only [alone_raiseIf_bind]
      cases user.isVerified with
      | false => exact ⟨_, rfl⟩
      | true =>
        simp only [Bool.not_true, Bool.false_eq_true, if_false, Bool.true_and]
        rw [alone_query_bind _ _ _ rfl, alone_raiseIf]
        cases w.db.secretRecipients.rows.any
          (fun r => r.secretId = s.id ∧ citextEq r.email user.email) with
        | false => exact ⟨_, rfl⟩
        | true => exact ⟨.validation, rfl⟩

theorem passwordRefused_eq : Files.passwordRefused P s accessPassword =
    !((accessState s policy w.db).unlocked P accessPassword &&
      !(accessState s policy w.db).superfluous P accessPassword) := by
  cases hpassword : Secrets.nonempty accessPassword with
  | none =>
    simp [Files.passwordRefused, AccessState.unlocked, AccessState.superfluous, accessState, hpassword]
  | some text =>
    by_cases hhash : some (P.sha256Hex text) = s.accessPasswordHash
    · simp [Files.passwordRefused, AccessState.unlocked, AccessState.superfluous, accessState,
        hpassword, hhash]
    · cases hprotected : s.passwordProtected <;>
        simp [Files.passwordRefused, AccessState.unlocked, AccessState.superfluous, accessState,
          hpassword, hhash, hprotected]

theorem lockedGate_isOk (hs : w.db.secrets.find id = some s) :
    ((lockedGate id (some policy) s.currentVersion policy.policyVersion).run w.db).isOk =
      (s.viewCount < s.maxViews : Bool) := by
  rw [Tx.run_isOk, lockedGate, Tx.select_bind, hs]
  simp only [Option.bind_some, Option.map_some, Tx.raiseIf_bind_isOk, ne_eq, not_true, decide_false,
    Bool.not_false, Bool.true_and, ← decide_not, not_le]
  exact Bool.and_true _

theorem grantsFile_eq (hs : w.db.secrets.find id = some s) (hfile : s.payloadType = .file)
    (hpolicy : w.db.secretAccessPolicies.find id = some policy) :
    grantsFile P id accessPassword token clientIp currentUser w =
      ((accessState s policy w.db).isOpen P id token accessPassword clientIp currentUser w.now &&
        w.now ≠ s.expiresAt && !(accessState s policy w.db).superfluous P accessPassword) := by
  have hpolicy' : (accessState s policy w.db).policy = policy := rfl
  rw [grantsFile, downloadGate, Program.alone_bind]
  cases hadmits : admits P id token clientIp policy w.now with
  | false =>
    rcases @alone_authorize_error P id token clientIp 0 (fun _ => {}) w (by
      intro other hother
      rw [hpolicy, Option.some.injEq] at hother
      rw [← hother, hadmits]) with ⟨error, choices', w', hrun⟩
    rw [hrun]
    simp only [AccessState.isOpen, hpolicy', hadmits, Bool.false_and, Option.bind_some]
  | true =>
    rw [alone_authorize_ok hpolicy rfl hadmits]
    have hrow : Files.fileRow id w.db = some ⟨s, policy.policyVersion⟩ := by
      simp [Files.fileRow, hs, hpolicy, hfile]
    rcases @alone_checkRecipient w s policy currentUser with ⟨error, hrecipient⟩
    simp only [Option.bind_some]
    rw [alone_query_bind _ _ _ rfl, hrow]
    simp only [Files.authorize]
    rw [Program.bind_assoc', Program.alone_bind, hrecipient]
    simp only [AccessState.isOpen, hpolicy', hadmits, Bool.true_and]
    cases hknows : (accessState s policy w.db).knows currentUser with
    | false => simp
    | true =>
      simp only [if_true, Option.bind_some, Bool.true_and, alone_raiseIf_bind,
        @passwordRefused_eq P w s policy accessPassword]
      have hexpires : (accessState s policy w.db).expiresAt = s.expiresAt := rfl
      have hcount : (accessState s policy w.db).viewCount = s.viewCount := rfl
      have hmax : (accessState s policy w.db).maxViews = s.maxViews := rfl
      rw [hexpires, hcount, hmax]
      generalize (accessState s policy w.db).unlocked P accessPassword = unlocked
      generalize (accessState s policy w.db).superfluous P accessPassword = superfluous
      by_cases hpassword : unlocked = true ∧ superfluous = false
      · rcases hpassword with ⟨rfl, rfl⟩
        simp only [Bool.not_false, Bool.and_true, Bool.not_true, Bool.false_eq_true, if_false, ne_eq,
          not_true, decide_false, Bool.true_and]
        rw [alone_clock_bind, alone_raiseIf_bind]
        have hlive : (decide (w.now ≤ s.expiresAt) && decide (s.viewCount < s.maxViews) &&
            decide (¬ w.now = s.expiresAt)) =
            !(decide (s.expiresAt ≤ w.now) || decide (s.maxViews ≤ s.viewCount)) := by
          rw [Bool.eq_iff_iff]
          simp only [Bool.and_eq_true, decide_eq_true_eq, Bool.not_eq_true', Bool.or_eq_false_iff,
            decide_eq_false_iff_not, not_le, lt_iff_le_and_ne]
          tauto
        rw [hlive]
        cases hgone : (decide (s.expiresAt ≤ w.now) || decide (s.maxViews ≤ s.viewCount)) with
        | true => rfl
        | false =>
          rw [Bool.or_eq_false_iff] at hgone
          simp only [Bool.false_eq_true, if_false, Program.alone_pure]
          rw [hpolicy, lockedGate_isOk hs]
          simpa using hgone.2
      · have hrefused : (!(unlocked && !superfluous)) = true := by
          cases unlocked <;> cases superfluous <;> simp_all
        rw [if_pos hrefused]
        cases unlocked with
        | false => simp
        | true =>
          cases superfluous with
          | true => simp
          | false => exact (hpassword ⟨rfl, rfl⟩).elim

end Decisions

/-- In the same access state and at the same time, a text secret and a file secret decide alike,
except for a request that passes every check that both make: a text secret lets it in at the moment
of its expiry, and with a password that nobody asked for. -/
theorem gates_agree_iff (P : Platform) (w w' : World) (id : UUID) (secretId : String)
    (hparse : P.parseUuid secretId = some id) (s s' : Secret) (policy policy' : SecretAccessPolicy)
    (hs : w.db.secrets.find id = some s) (hs' : w'.db.secrets.find id = some s')
    (htext : s.payloadType = .text) (hfile : s'.payloadType = .file)
    (hpolicy : w.db.secretAccessPolicies.find id = some policy)
    (hpolicy' : w'.db.secretAccessPolicies.find id = some policy')
    (hstate : accessState s policy w.db = accessState s' policy' w'.db) (hnow : w.now = w'.now)
    (accessPassword token : Option String) (clientIp : String) (currentUser : Option CurrentUser) :
    (grantsText P secretId accessPassword token clientIp currentUser w = true ↔
      grantsFile P id accessPassword token clientIp currentUser w' = true) ↔
    ¬ ((accessState s policy w.db).isOpen P id token accessPassword clientIp currentUser w.now = true ∧
      (w.now = s.expiresAt ∨ (accessState s policy w.db).superfluous P accessPassword = true)) := by
  have hexpires : s.expiresAt = s'.expiresAt := congrArg AccessState.expiresAt hstate
  rw [grantsText_eq hparse hs htext hpolicy, grantsFile_eq hs' hfile hpolicy', ← hstate, ← hnow,
    ← hexpires]
  cases (accessState s policy w.db).isOpen P id token accessPassword clientIp currentUser w.now with
  | false => simp
  | true =>
    by_cases hexpired : w.now = s.expiresAt
    · simp [hexpired]
    · simp [hexpired]

section Sample

def fileSecret : Secret := { linkedSecret with content := none, nonce := none, payloadType := .file }

/-- A secret for one view without password, recipients or restrictions. -/
def secretWorld (s : Secret) (now : Timestamp) : World :=
  worldOf { Database.empty with
    users := sampleUsers
    secrets := ⟨[s], List.nodup_singleton _⟩
    secretAccessPolicies := ⟨[⟨7, [], [], .all, true, 1, 0⟩], List.nodup_singleton _⟩ } .empty .empty now

theorem gates_agree_iff_sample :
    grantsText samplePlatform (samplePlatform.uuidText 7) none (some earlierLink) sampleClient none
        (secretWorld linkedSecret 5) = true ↔
      grantsFile samplePlatform 7 none (some earlierLink) sampleClient none
        (secretWorld fileSecret 5) = true := by
  apply (gates_agree_iff samplePlatform (secretWorld linkedSecret 5) (secretWorld fileSecret 5) 7
    (samplePlatform.uuidText 7) (by decide +kernel) linkedSecret fileSecret
    ⟨7, [], [], .all, true, 1, 0⟩ ⟨7, [], [], .all, true, 1, 0⟩ (by decide +kernel)
    (by decide +kernel) rfl rfl (by decide +kernel) (by decide +kernel) rfl rfl none
    (some earlierLink) sampleClient none).mpr
  decide +kernel

/-- A password that nobody asked for opens the text and not the file, and so does the moment of
expiry. -/
theorem gates_disagree :
    accessState linkedSecret ⟨7, [], [], .all, true, 1, 0⟩ (secretWorld linkedSecret 5).db =
      accessState fileSecret ⟨7, [], [], .all, true, 1, 0⟩ (secretWorld fileSecret 5).db ∧
    grantsText samplePlatform (samplePlatform.uuidText 7) (some "word") none sampleClient none
      (secretWorld linkedSecret 5) = true ∧
    grantsFile samplePlatform 7 (some "word") none sampleClient none
      (secretWorld fileSecret 5) = false ∧
    grantsText samplePlatform (samplePlatform.uuidText 7) none none sampleClient none
      (secretWorld linkedSecret (hours 24)) = true ∧
    grantsFile samplePlatform 7 none none sampleClient none
      (secretWorld fileSecret (hours 24)) = false := by
  decide +kernel

end Sample

end PhantomShare.Access
