import PhantomShare.Burn.Accounting
import PhantomShare.PlainPlatform
import PhantomShare.Routers.Files

/-!
# A file secret and its last permitted view

Downloads of file secrets, run in any interleaving. The audit entry of a download
comes after the update of `view_count`. When that update was the last permitted
one, its trigger has deleted the row that the entry refers to; the entry is
refused, the refusal is swallowed, and the whole transaction rolls back without
an error while the file is returned.
-/
namespace PhantomShare.Burn
open Foundations Journal

inductive FileRequest where
  | download (secretId : UUID) (token accessPassword : Option String) (clientIp : String)
      (currentUser : Option CurrentUser)
  | wait
  deriving DecidableEq

inductive DownloadResponse where
  | file (response : FileResponse)
  | noContent

def serveFile (P : Platform) : FileRequest → Handler DownloadResponse
  | .download secretId token accessPassword clientIp currentUser =>
    DownloadResponse.file <$>
      Files.downloadFileSecret P secretId token accessPassword clientIp currentUser
  | .wait => (fun _ => DownloadResponse.noContent) <$> tick

def fileSystem (P : Platform) : System World Choice Label FileRequest Exn DownloadResponse where
  serve := serveFile P
  recover _ w := w

/-- What decides whether a view of a tracked secret is recorded: unless the viewer is unknown, the
view is not the last one and the address of the client is one. -/
def recordable (id : UUID) (clientIp : String) (currentUser : Option CurrentUser) (db : Database) :
    Bool :=
  !Database.refers db.hasUser (currentUser.map CurrentUser.id) ||
    ((db.secrets.find id).any fun s => s.viewCount + 1 < s.maxViews) && (inet clientIp).isSome

/-- No download transaction that is about to hand out the file is unable to record it. -/
def Recordable (P : Platform) (id : UUID) (v : View World FileRequest Exn DownloadResponse) :
    Occurrence Label FileRequest Exn DownloadResponse → Prop
  | .performed pid (.download secretId version policyVersion seenVersion encrypted) =>
    match v.tasks[pid]? with
    | some (.download _ _ _ clientIp currentUser, _) => secretId = id →
      Files.available id version policyVersion seenVersion v.shared.db = true →
        Files.opens P id version encrypted v.shared.db = true →
          recordable id clientIp currentUser v.shared.db = true
    | _ => True
  | _ => True

instance (P : Platform) (id : UUID) (v : View World FileRequest Exn DownloadResponse)
    (o : Occurrence Label FileRequest Exn DownloadResponse) : Decidable (Recordable P id v o) := by
  unfold Recordable
  split
  · split <;> infer_instance
  · infer_instance

/-- What a delivered answer tells about the views of its process. -/
def FileTold (id : UUID) (request : FileRequest) (result : Except Exn DownloadResponse)
    (views : List (UUID × ℕ)) : Prop :=
  match result, request with
  | .ok _, .download secretId _ _ _ _ => secretId = id → ∃ version, views = [(id, version)]
  | _, _ => views = []

def fileRules (P : Platform) (start : Database) (id : UUID) (first : Secret) :
    Rules World Label FileRequest Exn DownloadResponse :=
  rules (Recordable P id) viewed (Account start id first) (FileTold id)

section Transactions
variable {P : Platform} {secretId : UUID} {policy : Option SecretAccessPolicy}
  {version policyVersion : ℕ} {encrypted : Bytes} {clientIp : String}
  {currentUser : Option CurrentUser} {now : Timestamp} {db : Database}
  {opened : Files.Opened} {committed : Option Database}

/-- A download that can be recorded commits one view of its secret. -/
theorem counts_of_download (h : (Files.downloadTransaction P secretId policy version policyVersion
      encrypted clientIp currentUser now).run db = .ok (opened, committed))
    (htracked : tracked secretId db = true)
    (hrecordable : Files.available secretId version policyVersion
      (policy.map SecretAccessPolicy.policyVersion) db = true →
        Files.opens P secretId version encrypted db = true →
        recordable secretId clientIp currentUser db = true) :
    ∃ db', committed = some db' ∧ Counts secretId opened.secret.currentVersion db db' := by
  rcases Files.downloadTransaction_ok h with
    ⟨hfind, hversion, havailable, hopens, viewedDb, n, updated, metadata, hinsert, hupdate,
      hcommitted⟩
  have hrow : (db.secretTracking.find
      (Secrets.viewBy currentUser secretId version now).secretId).isSome := htracked
  rcases Database.insertView_ok hrow hinsert with ⟨hviewer, hviewed⟩
  have hknown : Database.refers db.hasUser (currentUser.map CurrentUser.id) = true := hviewer
  have hcan := hrecordable havailable hopens
  simp only [recordable, hknown, hfind, Bool.not_true, Bool.false_or, Option.any_some,
    Bool.and_eq_true, decide_eq_true_eq] at hcan
  have hfind' : viewedDb.secrets.find secretId = some opened.secret := by rw [hviewed, hfind]
  have hlt : opened.secret.viewCount < opened.secret.maxViews := by omega
  have hcount := updateViewCount_ok hfind' hlt hupdate
  have hrows := viewRows_insertView hinsert
  have hupdated := hupdate
  rw [Database.updateViewCount_below hfind' hcan.1, Except.ok.injEq] at hupdated
  -- the row is still there, so the audit entry is accepted
  have hsecret : Database.refers updated.hasSecret (some secretId) = true := by
    rw [← hupdated]
    simp [Database.refers, Database.hasSecret, Database.updateSecret, Table.find_modify, hfind']
  have hactor : Database.refers updated.hasUser (currentUser.map CurrentUser.id) = true := by
    rw [← hupdated, hviewed]
    exact hknown
  rcases Database.insertAuditLog_accepted metadata
    (show "secret_viewed" ∈ Database.auditActions by decide) hcan.2 hactor hsecret with ⟨row, hlog⟩
  rw [hlog] at hcommitted
  refine ⟨_, hcommitted, ⟨opened.secret, hfind, hlt, ?_⟩, ?_, ?_⟩
  · rcases hcount.1 with hmore | ⟨hlast, _⟩
    · exact Or.inl hmore
    · omega
  · rw [hversion]
    exact hcount.2.1.trans hrows.1
  · exact hcount.2.2.trans (by rw [tracked, hrows.2.2.1, tracked])

/-- A download leaves every other secret alone. -/
theorem keeps_of_download {db' : Database} {other : UUID}
    (h : (Files.downloadTransaction P secretId policy version policyVersion encrypted clientIp
      currentUser now).run db = .ok (opened, some db')) (hother : secretId ≠ other) : Keeps other db db' := by
  rcases Files.downloadTransaction_ok h with
    ⟨_, _, _, _, viewedDb, n, updated, metadata, hinsert, hupdate, hcommitted⟩
  have hcounted : Keeps other db updated :=
    (Keeps.insertView hother hinsert).trans (Keeps.updateViewCount hother hupdate)
  cases hlog : updated.insertAuditLog now "secret_viewed" (currentUser.map CurrentUser.id)
      (some clientIp) (some secretId) metadata with
  | error error =>
    rw [hlog] at hcommitted
    cases hcommitted
  | ok logged =>
    rw [hlog] at hcommitted
    cases hcommitted
    exact hcounted.trans (Keeps.insertAuditLog hlog)

end Transactions

theorem only_checkRecipient (secret : Secret) (currentUser : Option CurrentUser) :
    (Files.checkRecipient secret currentUser).Only (Touches Uncounted) := by
  unfold Files.checkRecipient
  split
  · cases currentUser with
    | none => exact Program.only_throw _
    | some user =>
      apply (only_raiseIf _ _).bind
      intro _
      apply (only_query _ _).bind
      intro allowed
      exact only_raiseIf _ _
  · exact Program.only_pure ()

theorem only_authorizeFile (P : Platform) (secret : Secret) (password : Option String)
    (currentUser : Option CurrentUser) :
    (Files.authorize P secret password currentUser).Only (Touches Uncounted) :=
  (only_checkRecipient secret currentUser).bind fun _ => only_raiseIf _ _

/-! ### Runs -/

section Steps
variable {P : Platform} {start : Database} {id : UUID} {first : Secret} {pid : ℕ}
  {secretId : UUID} {token accessPassword : Option String} {clientIp : String}
  {currentUser : Option CurrentUser} {v : View World FileRequest Exn DownloadResponse}

/-- What a download leaves: a view of the secret that it returned, or none. -/
def DownloadPost (id secretId : UUID) (pid : ℕ) (request : FileRequest) :
    Except Exn FileResponse → View World FileRequest Exn DownloadResponse → Prop
  | .ok _, v => v.Running pid request ∧
      (secretId = id → ∃ version, viewsBy pid v.shared = [(id, version)])
  | .error _, v => Silent viewed pid request v

/-- The only transaction of a download. -/
theorem wp_downloadTransaction (htracked : tracked id start = true)
    {policy : Option SecretAccessPolicy} {version policyVersion : ℕ} {encrypted : Bytes} {request : FileRequest}
    (hrequest : request = .download secretId token accessPassword clientIp currentUser)
    (h : Silent viewed pid request v) :
    (fileRules P start id first).wp pid
      (transaction (.download secretId version policyVersion
          (policy.map SecretAccessPolicy.policyVersion) encrypted)
        (fun _ now => Files.downloadTransaction P secretId policy version policyVersion encrypted
          clientIp currentUser now)
        (fun opened => .downloaded secretId opened.secret.currentVersion))
      (fun result v' => match result with
        | .ok _ => v'.Running pid request ∧
            (secretId = id → ∃ version, viewsBy pid v'.shared = [(id, version)])
        | .error _ => Silent viewed pid request v') v := by
  apply wp_transaction rely_refl
  intro v₁ henv hinv hcond
  have h₁ := h.env henv
  constructor
  · intro error
    exact h₁
  · intro choice opened committed hrun
    by_cases hid : secretId = id
    · subst hid
      have hrecordable : Files.available secretId version policyVersion
          (policy.map SecretAccessPolicy.policyVersion) v₁.shared.db = true →
            Files.opens P secretId version encrypted v₁.shared.db = true →
            recordable secretId clientIp currentUser v₁.shared.db = true := by
        have hget := h₁.running
        rw [View.Running, hrequest] at hget
        simp only [rules, Recordable, hget] at hcond
        exact hcond trivial
      rcases counts_of_download hrun (hinv.account.tracked.trans htracked) hrecordable with
        ⟨db, rfl, hcounts⟩
      have hrecord : viewed (.downloaded secretId opened.secret.currentVersion) =
          some (secretId, opened.secret.currentVersion) := rfl
      exact ⟨moves_commit hinv h₁.running (hinv.account.count hcounts hrecord), h₁.running,
        fun _ => ⟨_, h₁.written hrecord⟩⟩
    · cases committed with
      | none => exact ⟨h₁.running, fun heq => (hid heq).elim⟩
      | some db =>
        refine ⟨?_, h₁.running, fun heq => (hid heq).elim⟩
        apply moves_commit hinv h₁.running
        apply hinv.account.keep (keeps_of_download hrun hid)
        intro version' hview
        cases hview
        exact hid rfl

theorem wp_downloadFileSecret (htracked : tracked id start = true) {request : FileRequest}
    (hrequest : request = .download secretId token accessPassword clientIp currentUser)
    (h : Silent viewed pid request v) :
    (fileRules P start id first).wp pid
      (Files.downloadFileSecret P secretId token accessPassword clientIp currentUser)
      (DownloadPost id secretId pid request) v := by
  have herror : ∀ error v', Silent viewed pid request v' →
      DownloadPost id secretId pid request (.error error) v' := fun _ _ h' => h'
  apply wp_quiet_bind quiet (only_authorize P secretId token clientIp) h herror
  intro policyVersion v₁ h₁
  apply wp_quiet_bind quiet (only_query _ _) h₁ herror
  intro row v₂ h₂
  cases row with
  | none => exact h₂
  | some found =>
    apply wp_quiet_bind quiet (only_authorizeFile P _ _ _) h₂ herror
    intro _ v₃ h₃
    apply wp_quiet_bind quiet (only_raiseIf _ _) h₃ herror
    intro _ v₄ h₄
    apply wp_quiet_bind quiet only_clock h₄ herror
    intro now v₅ h₅
    apply wp_quiet_bind quiet (only_raiseIf _ _) h₅ herror
    intro _ v₆ h₆
    apply wp_quiet_bind quiet (only_query _ _) h₆ herror
    intro stored v₇ h₇
    cases stored with
    | none => exact h₇
    | some versionRow =>
      cases hkey : versionRow.objectKey with
      | none =>
        simp only [hkey]
        exact h₇
      | some objectKey =>
        simp only [hkey]
        apply wp_quiet_bind quiet (only_download objectKey) h₇ herror
        intro encrypted v₈ h₈
        apply wp_quiet_bind quiet (only_query _ _) h₈ herror
        intro policy v₉ h₉
        apply Rules.wp_bind
        apply Rules.wp_mono (wp_downloadTransaction htracked hrequest h₉)
        intro result v₁₀ hpost
        cases result with
        | error error => exact hpost
        | ok opened => exact hpost

theorem valid_downloads (htracked : tracked id start = true) :
    (fileRules P start id first).Valid (fileSystem P) := by
  apply valid_of_requests fun _ _ => rfl
  intro pid request _ v _ h
  cases request with
  | download secretId token accessPassword clientIp currentUser =>
    apply Rules.wp_map
    apply Rules.wp_mono (wp_downloadFileSecret htracked rfl h)
    intro result v' hpost
    cases result with
    | error error => exact finishing hpost.running hpost.entries
    | ok response => exact finishing hpost.1 hpost.2
  | wait =>
    apply Rules.wp_map
    apply Rules.wp_mono (wp_quiet quiet only_tick h)
    intro result v' h'
    cases result with
    | error error => exact finishing h'.running h'.entries
    | ok value => exact finishing h'.running h'.entries

end Steps

/-- The processes whose download of the secret has returned the file. -/
def downloads (id : UUID) (v : View World FileRequest Exn DownloadResponse) : List ℕ :=
  (List.range v.tasks.length).filter fun pid =>
    match v.tasks[pid]? with
    | some (.download secretId _ _ _ _, .finished (.ok _)) => secretId = id
    | _ => false

/-- The downloads of a file secret add up: `first` is its row in the tables that a run starts
from. -/
structure FileAccounted (start : Database) (id : UUID) (first : Secret)
    (v : View World FileRequest Exn DownloadResponse) : Prop where
  at_most : (downloads id v).length ≤ first.maxViews
  success : ∀ pid ∈ downloads id v, ∃ version, viewsBy pid v.shared = [(id, version)]
  count : ∀ s, v.shared.db.secrets.find id = some s →
    s.viewCount = first.viewCount + (viewsOf id v.shared).length
  rows : viewRows id v.shared.db = viewRows id start ++ viewsOf id v.shared
  burned : viewsOf id v.shared ≠ [] →
    first.viewCount + (viewsOf id v.shared).length = first.maxViews → Gone id v.shared.db

theorem viewsBy_of_downloads {id : UUID} {v : View World FileRequest Exn DownloadResponse}
    (h : v.Delivered fun pid request result w => FileTold id request result (viewsBy pid w)) :
    ∀ pid ∈ downloads id v, ∃ version, viewsBy pid v.shared = [(id, version)] := by
  intro pid hpid
  have hreturned := (List.mem_filter.mp hpid).2
  split at hreturned
  · rename_i secretId _ _ _ _ value hget
    rw [decide_eq_true_eq] at hreturned
    exact h pid _ _ hget hreturned
  · cases hreturned

/-- In every run whose download transactions can record what they hand out, the downloads of a
tracked file secret are accounted for. -/
theorem download_accounted (P : Platform) (start : Database) (redis : Redis)
    (objects : Table StoredObject.key) (now : Timestamp) (id : UUID) (first : Secret)
    (hfind : start.secrets.find id = some first) (htracked : tracked id start = true)
    (hcount : 0 ≤ first.viewCount) (hbound : first.viewCount ≤ first.maxViews)
    (c : Pool World Choice Label FileRequest Exn DownloadResponse)
    (run : (fileSystem P).Run (Recordable P id) (Pool.init (worldOf start redis objects now)) c) :
    FileAccounted start id first c.view := by
  have hinv : Inv viewed (Account start id first) (FileTold id) c.view :=
    (valid_downloads htracked).inv_of_run (inv_initial rfl (account_initial rfl rfl hfind hbound)) run
  have hviews := viewsBy_of_downloads hinv.delivered
  constructor
  · have hle : (downloads id c.view).length ≤ (viewsOf id c.view.shared).length := by
      apply length_le_viewsOf (List.nodup_range.filter _)
      intro pid hpid
      rcases hviews pid hpid with ⟨version, hview⟩
      exact ⟨version, by simp [hview]⟩
    have hlimit := hinv.account.bound
    omega
  · exact hviews
  · intro s hs
    exact (hinv.account.row s hs).1
  · rw [hinv.account.rows, if_pos htracked]
  · exact hinv.account.burned

section Sample

/-- A file for three views, and the object that encryption produced for its one byte. -/
def sampleFile : Secret where
  id := 7
  content := none
  nonce := none
  passwordProtected := false
  accessPasswordHash := none
  ttlHours := 24
  createdAt := 0
  expiresAt := hours 24
  viewed := false
  ownerId := some 1
  maxViews := 3
  viewCount := 0
  signedToken := none
  notifyOnView := false
  notifyEmail := none
  webhookUrl := none
  emailRestricted := false
  currentVersion := 1
  updatedAt := 0
  payloadType := .file

def sampleKey : ObjectKey := ⟨7, 1, 9⟩

def sampleObject : Bytes :=
  match FileCrypto.encryptFile samplePlatform.chacha samplePlatform.fileSha256 [] (List.replicate 8 0)
    7 1 [42] with
  | .ok file => file.object
  | .error _ => []

def sampleVersion : SecretVersion where
  secretId := 7
  version := 1
  payloadType := .file
  content := none
  nonce := none
  keyVersion := some 1
  objectKey := some sampleKey
  plaintextSize := 1
  encryptedSize := sampleObject.length
  filenameCiphertext := some (samplePlatform.encryptContent "notes.txt" [] []).1
  filenameNonce := some (samplePlatform.encryptContent "notes.txt" [] []).2
  mediaType := none
  contentSha256 := none
  clamavVersion := none
  createdBy := some 1
  changeNote := none
  createdAt := 0

/-- The tables of a file secret with a number of permitted views. -/
def fileTables (maxViews : ℤ) : Database :=
  { Database.empty with
    users := sampleUsers
    secrets := ⟨[{ sampleFile with maxViews := maxViews }], List.nodup_singleton _⟩
    secretKeys := ⟨[⟨7, (samplePlatform.wrapDek [] []).1, (samplePlatform.wrapDek [] []).2, 1, none⟩],
      List.nodup_singleton _⟩
    secretVersions := ⟨[sampleVersion], List.nodup_singleton _⟩
    secretTracking := .single ⟨7, 1, days 30⟩
    secretAccessPolicies := .single ⟨7, [], [], .all, true, 1, 0⟩ }

def sampleObjects : Table StoredObject.key :=
  ⟨[⟨sampleKey, sampleObject⟩], List.nodup_singleton _⟩

def sampleDownload : FileRequest := .download 7 none none "203.0.113.9" none

/-- Two downloads of a file with three views. -/
theorem download_accounted_sample :
    ∃ c : Pool World Choice Label FileRequest Exn DownloadResponse,
      downloads 7 c.view = [0, 1] ∧
      FileAccounted (fileTables 3) 7 { sampleFile with maxViews := 3 } c.view := by
  rcases (fileSystem samplePlatform).exists_run (Recordable samplePlatform 7)
      (Pool.init (worldOf (fileTables 3) .empty sampleObjects 0))
      (.start sampleDownload :: .start sampleDownload ::
        List.replicate 9 (.act 0 {}) ++ List.replicate 9 (.act 1 {}))
      (fun v => downloads 7 v = [0, 1]) (by decide +kernel) with ⟨c, run, h⟩
  refine ⟨c, by simpa using h, ?_⟩
  exact download_accounted samplePlatform (fileTables 3) .empty sampleObjects 0 7 _
    (by decide +kernel) (by decide) (by decide) (by decide) c run

/-- A file with one view is handed out twice, and nothing is recorded. -/
theorem download_unrecorded :
    ∃ c : Pool World Choice Label FileRequest Exn DownloadResponse,
      (fileSystem samplePlatform).Run (fun _ _ => True)
        (Pool.init (worldOf (fileTables 1) .empty sampleObjects 0)) c ∧
      downloads 7 c.view = [0, 1] ∧ viewRows 7 c.view.shared.db = [] ∧
      (c.view.shared.db.secrets.find 7).map Secret.viewCount = some 0 ∧
      ¬ FileAccounted (fileTables 1) 7 { sampleFile with maxViews := 1 } c.view := by
  rcases (fileSystem samplePlatform).exists_run (fun _ _ => True)
      (Pool.init (worldOf (fileTables 1) .empty sampleObjects 0))
      (.start sampleDownload :: .start sampleDownload ::
        List.replicate 9 (.act 0 {}) ++ List.replicate 9 (.act 1 {}))
      (fun v => downloads 7 v = [0, 1] ∧ viewRows 7 v.shared.db = [] ∧
        (v.shared.db.secrets.find 7).map Secret.viewCount = some 0)
      (by decide +kernel) with ⟨c, run, h⟩
  have hfacts := of_decide_eq_true h
  refine ⟨c, run, hfacts.1, hfacts.2.1, hfacts.2.2, ?_⟩
  intro haccounted
  have hlimit := haccounted.at_most
  rw [hfacts.1] at hlimit
  exact absurd hlimit (by decide)

end Sample

end PhantomShare.Burn
