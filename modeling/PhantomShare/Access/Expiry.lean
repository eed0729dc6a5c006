import PhantomShare.Access.Revocation
import PhantomShare.Burn.FileSecrets
import PhantomShare.Services.CleanupService

/-!
# Expiry and the requests in flight

The content is handed out by the transaction that counts the view, and this is the
moment that the expiry has to be compared with. A retrieval compares them under the
row lock; a download does so before it fetches the object, and not again.
-/
namespace PhantomShare.Access
open Foundations

/-- Requests for content among any others. -/
inductive ReadRequest (ρ : Type) where
  | retrieve (secretId : String) (accessPassword token : Option String) (clientIp : String)
      (currentUser : Option CurrentUser)
  | download (secretId : UUID) (token accessPassword : Option String) (clientIp : String)
      (currentUser : Option CurrentUser)
  | other (request : ρ)
  deriving DecidableEq

inductive ReadResponse where
  | text (content : SecretContent)
  | file (response : FileResponse)
  | noContent

section System
variable (P : Platform) {ρ : Type} (others : ρ → Handler Unit) (recover : ℕ → World → World)

def serveRead : ReadRequest ρ → Handler ReadResponse
  | .retrieve secretId accessPassword token clientIp currentUser =>
    ReadResponse.text <$>
      Secrets.retrieveSecret P secretId accessPassword token clientIp currentUser
  | .download secretId token accessPassword clientIp currentUser =>
    ReadResponse.file <$>
      Files.downloadFileSecret P secretId token accessPassword clientIp currentUser
  | .other request => (fun _ => ReadResponse.noContent) <$> others request

/-- The other requests, and what a crash does, are arbitrary: time passes, workers delete. -/
def readSystem : System World Choice Label (ReadRequest ρ) Exn ReadResponse where
  serve := serveRead P others
  recover := recover

end System

def ReadRequest.reads {ρ : Type} : ReadRequest ρ → Bool
  | .other _ => false
  | _ => true

/-- The lock is obtained strictly after the secret has expired. -/
def expired (label : Label) (w : World) : Bool :=
  (recheck label).any fun (secretId, _) =>
    (w.db.secrets.find secretId).any fun secret => secret.expiresAt < w.now

/-- The row of a view can be stored. -/
def viewerKnown (currentUser : Option CurrentUser) (secretId : UUID) (db : Database) : Bool :=
  (db.secretTracking.find secretId).isNone ||
    Database.refers db.hasUser (currentUser.map CurrentUser.id)

/-- What else the transaction of a download depends on: the row is the one that the request has
read and has views left, the key, the file name and the object are authentic, and the viewer is
known. -/
def stillServed {ρ : Type} (P : Platform) (request : ReadRequest ρ) (label : Label)
    (db : Database) : Bool :=
  match request, label with
  | .download _ _ _ _ currentUser, .download secretId version policyVersion seenVersion encrypted =>
    Files.available secretId version policyVersion seenVersion db &&
      Files.opens P secretId version encrypted db && viewerKnown currentUser secretId db
  | _, _ => false

section Locks
variable {P : Platform} {secretId : UUID} {policy : Option SecretAccessPolicy}
  {version policyVersion : ℕ} {clientIp : String} {currentUser : Option CurrentUser}
  {now : Timestamp} {db : Database}

theorem retrieveTransaction_expired {accessPassword : Option String} {secret : Secret}
    (hfind : db.secrets.find secretId = some secret) (hlate : secret.expiresAt < now) :
    ((Secrets.retrieveTransaction P secretId policy policyVersion accessPassword clientIp currentUser
      now).run db).isOk = false := by
  rw [Tx.run_isOk, Secrets.retrieveTransaction, Tx.select_bind, hfind]
  cases policy with
  | none => rfl
  | some policy => simp [Tx.raiseIf_bind_isOk, hlate]

/-- A count within the limit is accepted, with the entry of the trigger. -/
theorem updateViewCount_accepts {count : ℤ} {viewed : Bool} {secret : Secret}
    (hfind : db.secrets.find secretId = some secret) (hle : count ≤ secret.maxViews) :
    ∃ db', db.updateViewCount now secretId count viewed = .ok db' := by
  by_cases hlast : secret.maxViews ≤ count
  · have hkept : Database.refers (db.updateSecret secretId
        (fun r => { r with viewCount := count, viewed := viewed }) fun _ => rfl).hasSecret
          (some secretId) = true := by
      simp [Database.refers, Database.hasSecret, Database.updateSecret, Table.find_modify, hfind]
    have haction : Database.auditActions.contains "secret_deleted" = true := by decide
    simp only [Database.updateViewCount, hfind, if_neg (not_lt.mpr hle), if_pos hlast,
      Database.insertAuditLog, require, castInet, haction, hkept, if_true]
    exact ⟨_, rfl⟩
  · exact ⟨_, Database.updateViewCount_below hfind (not_le.mp hlast)⟩

theorem insertView_accepts {row : SecretView} : (∃ n db', db.insertView row = .ok (n, db')) ↔
    ((db.secretTracking.find row.secretId).isNone ||
      Database.refers db.hasUser row.viewerId) = true := by
  unfold Database.insertView
  cases db.secretTracking.find row.secretId with
  | none => simp [pure, Except.pure]
  | some tracking =>
    cases hviewer : Database.refers db.hasUser row.viewerId with
    | true => simp [require, pure, Except.pure, bind, Except.bind]
    | false =>
      simp only [require, Option.isNone_some, Bool.or_false, Bool.false_eq_true, if_false,
        iff_false, not_exists]
      intro n db' h
      cases h

theorem downloadTransaction_isOk (encrypted : Bytes) :
    ((Files.downloadTransaction P secretId policy version policyVersion encrypted clientIp
      currentUser now).run db).isOk =
      (Files.available secretId version policyVersion (policy.map SecretAccessPolicy.policyVersion) db &&
        Files.opens P secretId version encrypted db && viewerKnown currentUser secretId db) := by
  rw [Bool.eq_iff_iff]
  simp only [Bool.and_eq_true]
  constructor
  · intro hok
    cases hrun : (Files.downloadTransaction P secretId policy version policyVersion encrypted clientIp
        currentUser now).run db with
    | error error =>
      rw [hrun] at hok
      cases hok
    | ok result =>
      rcases Files.downloadTransaction_ok hrun with
        ⟨_, _, havailable, hopens, viewedDb, n, _, _, hinsert, _, _⟩
      exact ⟨⟨havailable, hopens⟩, insertView_accepts.mp ⟨n, viewedDb, hinsert⟩⟩
  · rintro ⟨⟨havailable, hopens⟩, hviewer⟩
    rw [Files.available, Bool.and_eq_true, decide_eq_true_eq, Option.any_eq_true] at havailable
    rcases havailable with ⟨hseen, secret, hfind, hrow⟩
    rcases Option.map_eq_some_iff.mp hseen with ⟨policy, rfl, rfl⟩
    rw [Bool.and_eq_true, decide_eq_true_eq, decide_eq_true_eq] at hrow
    rcases hrow with ⟨rfl, hcount⟩
    rw [Files.opens, Option.any_eq_true] at hopens
    rcases hopens with ⟨versionRow, hversion, hopens⟩
    rw [Option.any_eq_true] at hopens
    rcases hopens with ⟨key, hkey, hopens⟩
    have hinserts : ∃ n viewedDb, db.insertView
        (Secrets.viewBy currentUser secretId secret.currentVersion now) = .ok (n, viewedDb) :=
      insertView_accepts.mpr hviewer
    rcases hinserts with ⟨n, viewedDb, hinsert⟩
    have hviewed : viewedDb.secrets.find secretId = some secret := by
      rcases Database.insertView_frame hinsert with ⟨views, rfl⟩
      exact hfind
    have hbelow : secret.viewCount + 1 ≤ secret.maxViews := by omega
    rcases @updateViewCount_accepts secretId now viewedDb _
      (decide (secret.maxViews ≤ secret.viewCount + 1)) secret hviewed hbelow with ⟨updated, hupdate⟩
    cases hunwrap : P.unwrapDek key.wrappedDek key.dekNonce with
    | error error => simp [hunwrap] at hopens
    | ok dek =>
      simp only [hunwrap, Bool.and_eq_true] at hopens
      cases hfilename : KeyService.decryptColumns P versionRow.filenameCiphertext
          versionRow.filenameNonce dek with
      | error error => simp [hfilename, Except.isOk, Except.toBool] at hopens
      | ok filename =>
        cases hcontent : Files.decryptObject P encrypted dek secretId secret.currentVersion with
        | error error => simp [hcontent, Except.isOk, Except.toBool] at hopens
        | ok content =>
          rw [Tx.run_isOk, Files.downloadTransaction, Tx.select_bind, hfind]
          simp only [Option.bind_some, Option.map_some, Tx.raiseIf_bind_isOk, ne_eq, not_true,
            decide_false, Bool.not_false, Bool.true_and, not_le.mpr hcount]
          rw [Tx.select_bind, hversion]
          simp only [Tx.bind_apply, KeyService.getDekForSecret_live hkey hunwrap, Tx.ofExcept, hfilename, hcontent,
            Tx.execute_live, hinsert, Tx.write_live, hupdate]
          rfl

end Locks

instance : Inhabited Choice := ⟨{}⟩

section Theorem
variable {P : Platform} {ρ : Type} {others : ρ → Handler Unit} {recover : ℕ → World → World}

theorem recheck_of_expired (label : Label) (w : World) (h : expired label w = true) :
    recheck label ≠ none := by
  intro hnone
  simp [expired, hnone] at h

/-- What a late lock leads to: the retrieval raises, the download looks at everything else. -/
theorem decides_serveRead (request : ReadRequest ρ) (hreads : request.reads = true) :
    (serveRead P others request).Decides (fun label w => expired label w = true)
      (fun label w choice => choice.fails = false ∧ stillServed P request label w.db = true) := by
  cases request with
  | retrieve secretId accessPassword token clientIp currentUser =>
    apply Program.Decides.map
    rw [Program.decides_iff_stops (by simp [stillServed])]
    apply stops_retrieveSecret _ _ _ _ _ recheck_of_expired
    intro id policyVersion policy w hlate
    simp only [expired, recheck, Option.any_some, Option.any_eq_true, decide_eq_true_eq] at hlate
    rcases hlate with ⟨secret, hfind, hlate⟩
    exact retrieveTransaction_expired hfind hlate
  | download secretId token accessPassword clientIp currentUser =>
    apply Program.Decides.map
    apply decides_downloadFileSecret _ _ _ _ _ recheck_of_expired
    intro version policyVersion policy encrypted w choice _ _
    rw [downloadTransaction_isOk]
    rfl
  | other request => cases hreads

/-- Whatever else runs and however long the steps take: a retrieval or download that obtains the row
lock after the expiry is never answered with content, if and only if its transaction fails or it is
not a download that would still be served. -/
theorem nothing_after_expiry_iff (P : Platform) (others : ρ → Handler Unit)
    (recover : ℕ → World → World) (w : World)
    {c₁ c₂ : Pool World Choice Label (ReadRequest ρ) Exn ReadResponse} {pid : ℕ} {label : Label}
    {choice : Choice} {request : ReadRequest ρ}
    (before : (readSystem P others recover).Run (fun _ _ => True) (Pool.init w) c₁)
    (running : c₁.view.Running pid request) (reads : request.reads = true)
    (locks : (readSystem P others recover).next c₁ (.act pid choice) =
      some (.performed pid label, c₂)) (late : expired label c₁.shared = true) :
    (∀ c₃, (readSystem P others recover).Run (fun _ _ => True) c₂ c₃ →
      ∀ content, c₃.view.tasks[pid]? ≠ some (request, .finished (.ok content))) ↔
      choice.fails = true ∨ stillServed P request label c₁.shared.db = false := by
  have hdecides : ∀ request : ReadRequest ρ, request.reads = true →
      (((readSystem P others recover).serve request).Decides (fun label w => expired label w = true)
        fun label w choice => choice.fails = false ∧ stillServed P request label w.db = true) :=
    decides_serveRead
  have hanswered := System.answered_iff hdecides before running reads locks late
  rw [← not_iff_not, not_or, Bool.not_eq_true, Bool.not_eq_false, ← hanswered]
  simp only [not_forall, ne_eq, not_not, exists_prop]

end Theorem

section Sample

/-- What runs beside the requests. -/
inductive Background where
  | wait
  | expire (secretId : UUID)
  | sweep
  deriving DecidableEq

def background : Background → Handler Unit
  | .wait => tick
  | .expire secretId => CleanupService.deleteSecret secretId
  | .sweep => (fun _ => ()) <$> CleanupService.fallbackSweep

/-- The clock moves on by two days. -/
def twoDays (pid : ℕ) : List (Event Choice (ReadRequest Background)) :=
  [.start (.other .wait), .act pid { delay := days 2 }]

def sampleRetrieval : ReadRequest Background :=
  .retrieve (samplePlatform.uuidText 7) none none sampleClient none

/-- The retrieval takes its lock after the expiry. -/
def locksLate (v : View World (ReadRequest Background) Exn ReadResponse)
    (o : Occurrence Label (ReadRequest Background) Exn ReadResponse) : Bool :=
  match v.tasks[0]?, o with
  | some (request, Phase.running _), .performed 0 label =>
    request = sampleRetrieval && expired label v.shared
  | _, _ => false

/-- A retrieval that is authorised in time and locks the row after the expiry. -/
theorem nothing_after_expiry_sample :
    ∃ c₁ c₂ label, (readSystem samplePlatform background fun _ w => w).next c₁ (.act 0 {}) =
        some (.performed 0 label, c₂) ∧ expired label c₁.shared = true ∧
      ∀ c₃, (readSystem samplePlatform background fun _ w => w).Run (fun _ _ => True) c₂ c₃ →
        ∀ content, c₃.view.tasks[0]? ≠ some (sampleRetrieval, .finished (.ok content)) := by
  rcases (readSystem samplePlatform background fun _ w => w).exists_run_through
      (fun _ _ => True) (Pool.init (linkedWorld 1))
      (.start sampleRetrieval :: .act 0 {} :: .act 0 {} :: twoDays 1 ++ [.act 0 {}]) (.act 0 {}) []
      (fun v o _ => locksLate v o)
      (by decide +kernel) with ⟨c₁, o, c₂, _, before, locks, _, h⟩
  unfold locksLate at h
  split at h
  · rename_i request _ label hget
    rw [Bool.and_eq_true, decide_eq_true_eq] at h
    rcases h with ⟨rfl, hlate⟩
    exact ⟨c₁, c₂, label, locks, hlate,
      (nothing_after_expiry_iff samplePlatform background (fun _ w => w) (linkedWorld 1) before hget rfl
        locks hlate).mpr (.inr rfl)⟩
  · cases h

def sampleDownload : ReadRequest Background := .download 7 none none "203.0.113.9" none

/-- The download locks the row after the expiry and is answered. -/
def servedLate (v : View World (ReadRequest Background) Exn ReadResponse)
    (o : Occurrence Label (ReadRequest Background) Exn ReadResponse)
    (v' : View World (ReadRequest Background) Exn ReadResponse) : Bool :=
  match o with
  | .performed 0 label => expired label v.shared && v'.answered 0 sampleDownload
  | _ => false

/-- A download that was checked in time is answered two days later. -/
theorem expired_file_served :
    ∃ c₁ c₂ c₃ label content,
      (readSystem samplePlatform background fun _ w => w).Run (fun _ _ => True)
        (Pool.init (worldOf (Burn.fileTables 3) .empty Burn.sampleObjects 0)) c₁ ∧
      (readSystem samplePlatform background fun _ w => w).next c₁ (.act 0 {}) =
        some (.performed 0 label, c₂) ∧ expired label c₁.shared = true ∧
      (readSystem samplePlatform background fun _ w => w).Run (fun _ _ => True) c₂ c₃ ∧
      c₃.view.tasks[0]? =
        some (.download 7 none none "203.0.113.9" none, .finished (.ok content)) := by
  rcases (readSystem samplePlatform background fun _ w => w).exists_run_through
      (fun _ _ => True) (Pool.init (worldOf (Burn.fileTables 3) .empty Burn.sampleObjects 0))
      (.start (.download 7 none none "203.0.113.9" none) ::
        List.replicate 7 (.act 0 {}) ++ twoDays 1) (.act 0 {}) [.act 0 {}]
      servedLate
      (by decide +kernel) with ⟨c₁, o, c₂, c₃, before, locks, after, h⟩
  unfold servedLate at h
  split at h
  · rename_i label
    rw [Bool.and_eq_true] at h
    rcases View.exists_of_answered h.2 with ⟨content, hget⟩
    exact ⟨c₁, c₂, c₃, label, content, before, locks, h.1, after, hget⟩
  · cases h

end Sample

end PhantomShare.Access
