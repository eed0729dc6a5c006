import PhantomShare.Access.Frozen
import PhantomShare.Background.Deletion
import PhantomShare.Foundations.Since
import PhantomShare.World

/-!
# What the statistics count

A row of `secrets` lives from the creation of the secret until a burn, a delete or
a sweep. The totals of `get_stats` count rows, so they are the numbers of a
lifetime as long as no row has been removed; the statement that sets the `viewed`
flag of a row is the one whose trigger removes it.
-/

/-! ### The service statistics

`get_stats` counts rows of `secrets` in three statements, each with its own view of the table. -/

namespace PhantomShare.Stats

structure StatsResponse where
  totalSecretsCreated : ℕ
  totalSecretsViewed : ℕ
  activeSecrets : ℕ
  deriving DecidableEq, Repr

/-- `expires_at > NOW() AND view_count < max_views`. -/
def active (now : Timestamp) (s : Secret) : Bool := now < s.expiresAt && s.viewCount < s.maxViews

def getStats : Handler StatsResponse := do
  let active ← query .countActive fun now db => db.secrets.rows.countP (active now)
  let totalCreated ← query .countCreated fun _ db => db.secrets.rows.length
  let totalViewed ← query .countViewed fun _ db => db.secrets.rows.countP Secret.viewed
  return ⟨totalCreated, totalViewed, active⟩

end PhantomShare.Stats

namespace PhantomShare.Stats
open Foundations Background

/-! ### Rows that come and go -/

def Unviewed (db : Database) : Prop := ∀ s ∈ db.secrets.rows, s.viewed = false

/-- A change by which `gained` rows of `secrets` come and `lost` rows go, and no flag is set. -/
structure Shifts (gained lost : ℕ) (db db' : Database) : Prop where
  rows : db'.secrets.rows.length + lost = db.secrets.rows.length + gained
  unviewed : Unviewed db → Unviewed db'

namespace Shifts
variable {gained lost gained' lost' : ℕ} {db db' : Database}

theorem trans {a b c : Database} (hab : Shifts gained lost a b) (hbc : Shifts gained' lost' b c) :
    Shifts (gained + gained') (lost + lost') a c where
  rows := by
    have h := hab.rows
    have h' := hbc.rows
    omega
  unviewed h := hbc.unviewed (hab.unviewed h)

theorem after {a b c : Database} (hab : Shifts 0 0 a b) (hbc : Shifts gained lost b c) :
    Shifts gained lost a c := by simpa using hab.trans hbc

theorem of_eq (h : db'.secrets = db.secrets) : Shifts 0 0 db db' where
  rows := by rw [h]
  unviewed hdb := by rwa [Unviewed, h]

instance : IsPreorder Database (Shifts 0 0) where
  refl _ := of_eq rfl
  trans _ _ _ := trans

theorem insertAuditLog {now : Timestamp} {action : String} {actorId : Option UUID}
    {actorIp : Option String} {secretId : Option UUID} {metadata : List (String × Json)}
    (h : db.insertAuditLog now action actorId actorIp secretId metadata = .ok db') :
    Shifts 0 0 db db' := by
  rcases Database.insertAuditLog_ok h with ⟨_, _, row, rfl⟩
  exact of_eq rfl

theorem of_insert {row : Secret} (h : db.secrets.insert row = some db'.secrets)
    (hrow : row.viewed = false) : Shifts 1 0 db db' := by
  have hrows := (Table.insert_eq_some h).2
  constructor
  · simp [hrows]
  · intro hdb s hs
    rw [hrows, List.mem_append, List.mem_singleton] at hs
    rcases hs with hs | rfl
    · exact hdb s hs
    · exact hrow

theorem updateSecret (db : Database) (id : UUID) (f : Secret → Secret) (hf : ∀ r, (f r).id = r.id)
    (hviewed : ∀ r, r.viewed = false → (f r).viewed = false) :
    Shifts 0 0 db (db.updateSecret id f hf) where
  rows := by simp [Database.updateSecret, Table.modify]
  unviewed h s hs := by
    simp only [Database.updateSecret, Table.modify, Table.mapRows_rows, List.mem_map] at hs
    rcases hs with ⟨r, hr, rfl⟩
    split
    · exact hviewed r (h r hr)
    · exact h r hr

theorem of_deleteWhere {p : Secret → Bool} (h : db'.secrets = db.secrets.deleteWhere p) :
    Shifts 0 (db.secrets.rows.countP p) db db' where
  rows := by
    rw [h, Table.deleteWhere_rows, ← List.countP_eq_length_filter]
    have hsplit := db.secrets.rows.length_eq_countP_add_countP p
    simp only [Bool.not_eq_true, Bool.decide_eq_false] at hsplit
    omega
  unviewed hdb s hs := by
    rw [h] at hs
    exact hdb s (List.mem_filter.mp hs).1

theorem deleteSecrets (now : Timestamp) (p : Secret → Bool) (db : Database) :
    Shifts 0 (db.secrets.rows.countP p) db (db.deleteSecrets now p) := by
  rcases Database.deleteSecrets_frame now p db with ⟨_, _, _, hframe⟩
  apply of_deleteWhere
  rw [hframe]

theorem deleteUsers (p : User → Bool) (db : Database) : Shifts 0 0 db (db.deleteUsers p) where
  rows := by simp [Database.deleteUsers]
  unviewed h s hs := by
    simp only [Database.deleteUsers, Table.mapRows_rows, List.mem_map] at hs
    rcases hs with ⟨r, hr, rfl⟩
    exact h r hr

/-- The count of a view goes into the row, or removes it when it was the last one. -/
theorem updateViewCount {now : Timestamp} {id : UUID} {count : ℤ} {row : Secret}
    (hfind : db.secrets.find id = some row)
    (h : db.updateViewCount now id count (row.maxViews ≤ count) = .ok db') :
    Shifts 0 (if row.maxViews ≤ count then 1 else 0) db db' := by
  simp only [Database.updateViewCount, hfind] at h
  split at h
  · cases h
  split at h
  · rename_i hlast
    rcases FileCrypto.bind_eq_ok.mp h with ⟨logged, hlog, hdelete⟩
    rcases Database.insertAuditLog_ok hlog with ⟨_, _, entry, hlogged⟩
    cases hdelete
    have hone : db.secrets.rows.countP (fun s => s.id = id) = 1 := by
      rw [Table.countP_key, hfind]
      rfl
    rw [if_pos hlast, ← hone]
    apply of_deleteWhere
    rcases Database.deleteSecrets_frame now (fun s => s.id = id) logged with ⟨_, _, _, hframe⟩
    rw [hframe, hlogged]
    exact Table.deleteWhere_modify db.secrets id
      (fun r => { r with viewCount := count, viewed := decide (row.maxViews ≤ count) }) fun _ => rfl
  · rename_i hmore
    cases h
    rw [if_neg hmore]
    apply Shifts.updateSecret
    intro _ _
    exact decide_eq_false hmore

theorem insertView {row : SecretView} {n : ℕ} (h : db.insertView row = .ok (n, db')) :
    Shifts 0 0 db db' := by
  rcases Database.insertView_frame h with ⟨views, rfl⟩
  exact of_eq rfl

end Shifts

theorem shifts_logWith (entry : AuditService.Entry) (now : Timestamp) :
    (AuditService.logWith entry now).Preserves (Shifts 0 0) := by
  apply Tx.Preserves.quietly
  apply Tx.preserves_write
  intro db db' h
  exact .insertAuditLog h

/-! ### Transactions -/

section Transactions
variable {P : Platform} {db db' : Database} {now : Timestamp}

theorem shifts_create {id : UUID} {body : SecretCreate} {ownerId : UUID} {clientIp : String}
    {random : Random} {signedToken : String}
    (h : (Secrets.createTransaction P id body ownerId clientIp random now).run db =
      .ok (signedToken, some db')) : Shifts 1 0 db db' := by
  rcases Secrets.createTransaction_ok h with ⟨prepared, secrets, _, hinsert, hsecrets, _, _⟩
  have hinserted : Shifts 1 0 db { db with secrets := secrets } := .of_insert hinsert rfl
  have hsigned := Shifts.updateSecret { db with secrets := secrets } id
    (fun s => { s with signedToken := some signedToken }) (fun _ => rfl) fun _ hviewed => hviewed
  exact hinserted.trans (hsigned.trans (.of_eq hsecrets))

/-- The insertion comes first, and no other statement of the transaction moves a row. -/
theorem shifts_createFile {pendingId : UUID} {objectKey : ObjectKey} {body : FileCreate}
    {access : Files.FileAccess} {encrypted : Files.Encrypted} {size encryptedSize : ℕ}
    {detail : String} {ownerId : UUID} {signedToken : String}
    (h : (Files.createTransaction P pendingId objectKey body access encrypted size encryptedSize
      detail ownerId signedToken now).run db = .ok ((), some db')) : Shifts 1 0 db db' := by
  rcases Tx.run_ok h with ⟨c, hbody, hcommitted⟩
  rcases Tx.bind_ok hbody with ⟨_, c₁, hinsert, hrest⟩
  rcases Database.insertSecret_ok (Tx.write_ok hinsert).2.2 with ⟨secrets, hsecrets, hc₁⟩
  have hinserted : Shifts 1 0 db c₁.db := by
    rw [hc₁]
    exact .of_insert hsecrets rfl
  have hkeep : Shifts 0 0 c₁.db c.db := by
    apply Tx.Preserves.apply _ hrest
    apply Tx.Preserves.bind
    · apply Tx.preserves_write
      intro _ _ h
      rcases Database.insertSecretKey_ok h with ⟨_, keys, _, rfl⟩
      exact .of_eq rfl
    intro _
    apply Tx.Preserves.bind
    · apply Tx.preserves_write
      intro _ _ h
      rcases Database.insertSecretVersion_ok h with ⟨_, _, versions, _, rfl⟩
      exact .of_eq rfl
    intro _
    apply Tx.Preserves.bind
    · apply Tx.preserves_write
      intro _ _ h
      rcases Database.insertRecipients_frame h with ⟨recipients, rfl⟩
      exact .of_eq rfl
    intro _
    apply Tx.Preserves.bind
    · apply Tx.preserves_write
      intro _ _ h
      rcases Database.insertPolicy_frame h with ⟨policies, rfl⟩
      exact .of_eq rfl
    intro _
    apply Tx.Preserves.bind
    · apply Tx.preserves_write
      intro _ _ h
      rcases Database.insertTracking_frame h with ⟨tracking, rfl⟩
      exact .of_eq rfl
    intro _
    apply Tx.preserves_write
    intro _ _ h
    cases h
    exact .of_eq rfl
  split at hcommitted
  · cases hcommitted
  · cases hcommitted
    exact hinserted.trans hkeep

/-- How many rows a view of a secret removes. -/
def lostBy (s : Secret) : ℕ := if s.maxViews ≤ s.viewCount + 1 then 1 else 0

theorem shifts_retrieve {id : UUID} {policy : Option SecretAccessPolicy} {policyVersion : ℕ}
    {accessPassword : Option String} {clientIp : String} {currentUser : Option CurrentUser}
    {seen : Secrets.Seen}
    (h : (Secrets.retrieveTransaction P id policy policyVersion accessPassword clientIp currentUser
      now).run db = .ok (seen, some db')) : db.secrets.find id = some seen.secret ∧
        Shifts 0 (lostBy seen.secret) db db' := by
  rcases Secrets.retrieveTransaction_ok h with
    ⟨hfind, _, _, _, viewedDb, logs, _, _, hview, hcount, hcommitted⟩
  cases hcommitted
  refine ⟨hfind, ?_⟩
  rcases Database.insertView_frame hview with ⟨views, rfl⟩
  have hlogged : Shifts 0 0 db { db with secretViews := views, auditLogs := logs } := .of_eq rfl
  exact hlogged.after (.updateViewCount hfind hcount)

theorem shifts_download {secretId : UUID} {policy : Option SecretAccessPolicy}
    {version policyVersion : ℕ} {encrypted : Bytes} {clientIp : String}
    {currentUser : Option CurrentUser} {opened : Files.Opened}
    (h : (Files.downloadTransaction P secretId policy version policyVersion encrypted clientIp
      currentUser now).run db = .ok (opened, some db')) :
    db.secrets.find secretId = some opened.secret ∧ Shifts 0 (lostBy opened.secret) db db' := by
  rcases Files.downloadTransaction_ok h with
    ⟨hfind, _, _, _, viewedDb, _, updated, metadata, hview, hcount, hcommitted⟩
  refine ⟨hfind, ?_⟩
  rcases Database.insertView_frame hview with ⟨views, rfl⟩
  have hviewed : Shifts 0 0 db { db with secretViews := views } := .of_eq rfl
  have hcounted : Shifts 0 (lostBy opened.secret) db updated :=
    hviewed.after (.updateViewCount hfind hcount)
  cases hlog : updated.insertAuditLog now "secret_viewed" (currentUser.map CurrentUser.id)
      (some clientIp) (some secretId) metadata with
  | error error =>
    rw [hlog] at hcommitted
    cases hcommitted
  | ok logged =>
    rw [hlog] at hcommitted
    cases hcommitted
    exact hcounted.trans (.insertAuditLog hlog)

theorem shifts_expire {id : UUID} {deleted : Option (Option UUID)}
    (h : (CleanupService.expireTransaction id now).run db = .ok (deleted, some db')) :
    Shifts 0 (if db.hasSecret id then 1 else 0) db db' := by
  rw [expireTransaction_ok h, Database.hasSecret, ← Table.countP_key]
  exact Shifts.deleteSecrets now _ db

/-- The entry of the audit log comes before the deletion. -/
theorem shifts_delete {id : UUID} {user : CurrentUser} {clientIp : String}
    (h : (Secrets.deleteTransaction id user clientIp now).run db = .ok ((), some db')) :
    Shifts 0 (if db.hasSecret id then 1 else 0) db db' := by
  rcases Tx.run_ok h with ⟨c, hbody, hcommitted⟩
  rcases Tx.bind_ok hbody with ⟨row, c₁, hselect, hbody₁⟩
  rcases Tx.select_ok hselect with ⟨_, hrow, rfl⟩
  cases row with
  | none => exact absurd hbody₁ Tx.throw_ok
  | some secret =>
    rcases Tx.bind_ok hbody₁ with ⟨_, _, howns, hbody₂⟩
    rcases Tx.ofExcept_ok howns with ⟨_, rfl⟩
    rcases Tx.bind_ok hbody₂ with ⟨_, c₂, hlog, hdelete⟩
    rcases Tx.write_ok hdelete with ⟨hlive, hfailed, heffect⟩
    rcases Tx.quietly_write_ok hlog with ⟨haborted, _⟩ | ⟨_, _, hinsert⟩
    · rw [hlive] at haborted
      cases haborted
    · rcases Database.insertAuditLog_ok hinsert with ⟨_, _, entry, hc₂⟩
      have hsame : c₂.db.secrets = db.secrets := by rw [hc₂]
      have hlogged : Shifts 0 0 db c₂.db := .of_eq hsame
      have hdeleted := Shifts.deleteSecrets now (fun s => s.id = id) c₂.db
      rw [Except.ok.inj heffect, hsame] at hdeleted
      rw [hfailed, if_neg (by decide), Option.some.injEq] at hcommitted
      rw [Database.hasSecret, ← Table.countP_key, hcommitted]
      exact hlogged.after hdeleted

theorem shifts_sweep {swept : CleanupService.Swept}
    (h : (CleanupService.sweepTransaction now).run db = .ok (swept, some db')) :
    Shifts 0 (db.secrets.rows.countP (CleanupService.spent now)) db db' := by
  rcases Tx.run_ok h with ⟨c, hbody, hcommitted⟩
  rcases Tx.bind_ok hbody with ⟨_, c₁, hselect, hbody₁⟩
  rcases Tx.select_ok hselect with ⟨_, _, rfl⟩
  rcases Tx.bind_ok hbody₁ with ⟨_, c₂, hdelete, hrest⟩
  have hdeleted : Shifts 0 (db.secrets.rows.countP (CleanupService.spent now)) db c₂.db := by
    rw [← Except.ok.inj (Tx.write_ok hdelete).2.2]
    exact Shifts.deleteSecrets now _ db
  have hkeep : Shifts 0 0 c₂.db c.db := by
    apply Tx.Preserves.apply _ hrest
    apply (Tx.preserves_select _).bind
    intro users
    apply Tx.Preserves.bind
    · apply Tx.preserves_write
      intro _ _ h
      cases h
      exact Shifts.deleteUsers _ _
    intro _
    apply Tx.Preserves.bind
    · apply Tx.preserves_write
      intro _ _ h
      cases h
      exact .of_eq rfl
    intro _
    apply (Tx.preserves_select _).bind
    intro sessions
    apply Tx.Preserves.bind
    · apply Tx.preserves_write
      intro _ _ h
      cases h
      exact .of_eq rfl
    intro _
    exact Tx.preserves_pure _
  split at hcommitted
  · cases hcommitted
  · cases hcommitted
    exact hdeleted.trans hkeep

theorem shifts_policy (id : UUID) (body : LocationPolicyUpdate) (user : CurrentUser)
    (clientIp : String) :
    (SecretAccess.policyTransaction P id body user clientIp now).Preserves (Shifts 0 0) := by
  apply (Tx.preserves_select _).bind
  intro row
  cases row with
  | none => exact Tx.preserves_throw _
  | some secret =>
    apply (Tx.preserves_select _).bind
    intro policy
    cases policy with
    | none => exact Tx.preserves_throw _
    | some policy =>
      apply (Tx.preserves_ofExcept _).bind
      intro _
      apply Tx.Preserves.bind
      · apply Tx.preserves_write
        intro _ _ h
        cases h
        exact .of_eq rfl
      intro _
      apply Tx.Preserves.bind
      · apply Tx.preserves_write
        intro _ _ h
        cases h
        exact .updateSecret _ _ _ _ fun _ hviewed => hviewed
      intro _
      exact (shifts_logWith _ now).bind fun _ => Tx.preserves_pure _

end Transactions

/-! ### Steps -/

/-- What happens to secrets in the lifetime of the service. -/
inductive Mark where
  | created (id : UUID)
  | viewed (id : UUID)
  | removed (id : UUID)
  deriving DecidableEq, Repr

def Mark.isCreated : Mark → Bool
  | .created _ => true
  | _ => false

def Mark.isViewed : Mark → Bool
  | .viewed _ => true
  | _ => false

def Mark.isRemoved : Mark → Bool
  | .removed _ => true
  | _ => false

/-- The value that a committed view writes into the flag of its secret. -/
def setsViewed (id : UUID) (db : Database) : Bool :=
  (db.secrets.find id).any fun s => s.maxViews ≤ s.viewCount + 1

/-- What a committed transaction adds, seen from the state before it. -/
def adds (w : World) : Label → List Mark
  | .created id _ => [.created id]
  | .createFile key => [.created key.secretId]
  | .retrieved id _ _ | .downloaded id _ =>
    if setsViewed id w.db then [.viewed id, .removed id] else []
  | .deleteSecret id | .expireSecret id => if w.db.hasSecret id then [.removed id] else []
  | .sweep => (w.db.secrets.rows.filter (CleanupService.spent w.now)).map fun s => .removed s.id
  | _ => []

/-- What the transactions that committed in between add. -/
def marks (w w' : World) : List Mark :=
  (w'.commits.drop w.commits.length).flatMap fun entry => adds w entry.2

def createdSoFar (tally : List Mark) : ℕ := tally.countP Mark.isCreated
def viewedSoFar (tally : List Mark) : ℕ := tally.countP Mark.isViewed
def removedSoFar (tally : List Mark) : ℕ := tally.countP Mark.isRemoved

/-- The rows come and go as the marks of the step say, and a flag is set only with a removal. -/
structure Tallies (pid : ℕ) (label : Label) (w w' : World) : Prop where
  shifts : Shifts (createdSoFar (marks w w')) (removedSoFar (marks w w')) w.db w'.db
  viewed : viewedSoFar (marks w w') ≤ removedSoFar (marks w w')

section Steps
variable {pid : ℕ} {label : Label} {w w' : World}

theorem marks_of_commits (h : w'.commits = w.commits) : marks w w' = [] := by
  simp [marks, h]

theorem marks_commit (record : Label) (db : Database) :
    marks w (w.commit pid record db) = adds w record := by
  simp [marks]

theorem adds_sweep : adds w .sweep =
    (w.db.secrets.rows.filter (CleanupService.spent w.now)).map fun s => .removed s.id := rfl

theorem countP_adds_sweep (p : Mark → Bool) {b : Bool} (hp : ∀ id, p (.removed id) = b) :
    (adds w .sweep).countP p =
      if b then w.db.secrets.rows.countP (CleanupService.spent w.now) else 0 := by
  rw [adds_sweep, List.countP_map]
  have hconst : (p ∘ fun s : Secret => .removed s.id) = fun _ => b := by
    funext s
    exact hp s.id
  rw [hconst]
  cases b <;> simp [List.countP_eq_length_filter]

theorem viewedSoFar_adds_le (record : Label) :
    viewedSoFar (adds w record) ≤ removedSoFar (adds w record) := by
  have hview : ∀ id, viewedSoFar (if setsViewed id w.db then [.viewed id, .removed id] else []) ≤
      removedSoFar (if setsViewed id w.db then [.viewed id, .removed id] else []) := by
    intro id
    split <;> exact le_refl _
  have hgone : ∀ id, viewedSoFar (if w.db.hasSecret id then [.removed id] else []) ≤
      removedSoFar (if w.db.hasSecret id then [.removed id] else []) := by
    intro id
    split <;> exact Nat.zero_le _
  cases record with
  | retrieved id content version => exact hview id
  | downloaded id version => exact hview id
  | deleteSecret id => exact hgone id
  | expireSecret id => exact hgone id
  | sweep =>
    rw [viewedSoFar, countP_adds_sweep Mark.isViewed fun _ => rfl]
    exact Nat.zero_le _
  | _ => exact Nat.zero_le _

theorem tallies_commit {record : Label} {db : Database}
    (h : Shifts (createdSoFar (adds w record)) (removedSoFar (adds w record)) w.db db) :
    Tallies pid label w (w.commit pid record db) where
  shifts := by rwa [marks_commit]
  viewed := by
    rw [marks_commit]
    exact viewedSoFar_adds_le record

/-- A step that commits nothing and leaves the rows. -/
theorem tallies_of_commits (hcommits : w'.commits = w.commits)
    (hsecrets : w'.db.secrets = w.db.secrets) : Tallies pid label w w' := by
  have hmarks := marks_of_commits hcommits
  constructor
  · rw [hmarks]
    exact .of_eq hsecrets
  · rw [hmarks]
    exact le_refl _

theorem still_tallies : Still Tallies := by
  intro pid label w w' h
  exact tallies_of_commits h.commits (by rw [h.db])

theorem logs_tallies : Logs Tallies := fun _ _ _ _ h => tallies_commit (Shifts.insertAuditLog h)

theorem sparing_tallies : Sparing Tallies := by
  intro pid label w outbox pending hlabel
  apply tallies_commit
  have hadds : adds w label = [] := by
    cases label <;> first | rfl | cases hlabel
  rw [hadds]
  exact .of_eq rfl

theorem refreshes_tallies : Refreshes Tallies where
  work pid label w locks inserts := tallies_of_commits rfl rfl
  commit pid hash newHash w sessions := by
    have htallies : Tallies pid (.refresh hash newHash) w
        (w.commit pid (.refresh hash newHash) { w.db with sessions := sessions }) :=
      tallies_commit (.of_eq rfl)
    exact ⟨htallies.shifts, htallies.viewed⟩

/-- A committed view of a secret. -/
theorem shifts_view {id : UUID} {db : Database} {s : Secret} {record : Label}
    (hadds : adds w record = if setsViewed id w.db then [.viewed id, .removed id] else [])
    (hfind : w.db.secrets.find id = some s) (h : Shifts 0 (lostBy s) w.db db) :
    Tallies pid label w (w.commit pid record db) := by
  apply tallies_commit
  rw [hadds, setsViewed, hfind, Option.any_some]
  unfold lostBy at h
  split at h
  · rename_i hlast
    rw [if_pos (by simpa using hlast)]
    exact h
  · rename_i hmore
    rw [if_neg (by simpa using hmore)]
    exact h

/-- A deletion by the id. -/
theorem shifts_removal {id : UUID} {db : Database} {record : Label}
    (hadds : adds w record = if w.db.hasSecret id then [.removed id] else [])
    (h : Shifts 0 (if w.db.hasSecret id then 1 else 0) w.db db) :
    Tallies pid label w (w.commit pid record db) := by
  apply tallies_commit
  rw [hadds]
  split at h
  · rename_i hthere
    rw [if_pos hthere]
    exact h
  · rename_i hgone
    rw [if_neg hgone]
    exact h

end Steps

/-! ### Requests -/

inductive LifetimeRequest where
  | background (request : BackgroundRequest)
  | delete (secretId : String) (user : CurrentUser) (clientIp : String)
  deriving DecidableEq

inductive LifetimeResponse where
  | background (response : BackgroundResponse)
  | noContent

/-- Creations, retrievals, downloads, expiry events and sweeps, and deletions. -/
def lifetimeSystem (P : Platform) :
    System World Choice Label LifetimeRequest Exn LifetimeResponse where
  serve
    | .background request => .background <$> (backgroundSystem P).serve request
    | .delete secretId user clientIp =>
      (fun _ => .noContent) <$> Secrets.deleteSecret P secretId user clientIp
  recover := Auth.discardWork

section Handlers
variable {P : Platform}

theorem only_log_tallies (entry : AuditService.Entry) : (AuditService.log entry).Only Tallies :=
  still_tallies.only_auditLog logs_tallies entry

theorem only_fallbackSweep_tallies : CleanupService.fallbackSweep.Only Tallies := by
  apply only_fallbackSweep still_tallies sparing_tallies only_log_tallies
  intro pid w swept db hrun
  apply tallies_commit
  rw [createdSoFar, removedSoFar, countP_adds_sweep Mark.isCreated fun _ => rfl,
    countP_adds_sweep Mark.isRemoved fun _ => rfl]
  exact shifts_sweep hrun

theorem only_scheduleExpiry_tallies (id : UUID) (ttlSeconds : ℕ) :
    (CleanupService.scheduleExpiry id ttlSeconds).Only Tallies := by
  apply only_scheduleExpiry'
  · exact fun pid w => still_tallies pid _ w w (Calm.refl pid w)
  · intro pid w
    exact tallies_of_commits rfl rfl

theorem only_background (request : BackgroundRequest) :
    ((backgroundSystem P).serve request).Only Tallies := by
  cases request with
  | create body user clientIp =>
    apply Program.Only.map
    apply still_tallies.only_createSecret fun id => only_scheduleExpiry_tallies id _
    intro pid w choice id signedToken db hrun
    exact tallies_commit (shifts_create hrun)
  | createFile body user clientIp =>
    apply Program.Only.map
    apply still_tallies.only_createFileSecret logs_tallies fun id =>
      only_scheduleExpiry_tallies id _
    · intro pid w row db hinsert
      rcases Database.insertPendingUpload_ok hinsert with ⟨pending, _, rfl⟩
      exact tallies_commit (.of_eq rfl)
    · intro pid w pendingId objectKey access encrypted size encryptedSize detail signedToken db
        hrun
      exact tallies_commit (shifts_createFile hrun)
  | retrieve secretId accessPassword token clientIp currentUser =>
    apply Program.Only.map
    apply still_tallies.only_retrieveSecret fun entry _ => only_log_tallies entry
    intro pid w id policy policyVersion seen db hrun
    have hshifts := shifts_retrieve hrun
    exact shifts_view rfl hshifts.1 hshifts.2
  | download secretId token accessPassword clientIp currentUser =>
    apply Program.Only.map
    apply still_tallies.only_downloadFileSecret fun entry _ => only_log_tallies entry
    intro pid w policy version policyVersion encrypted opened db hrun
    have hshifts := shifts_download hrun
    exact shifts_view rfl hshifts.1 hshifts.2
  | updatePolicy id body user clientIp =>
    apply Program.Only.map
    apply still_tallies.only_updateLocationPolicy
    intro pid w result db hrun
    exact tallies_commit ((shifts_policy id body user clientIp).run hrun)
  | switchActivation userId credentials clientIp =>
    apply Program.Only.map
    apply still_tallies.only_switchUserActivation only_log_tallies
    intro pid w callerId started
    exact tallies_commit (.of_eq rfl)
  | refresh refreshToken userAgent clientIp =>
    exact (still_tallies.only_refreshTokenEndpoint logs_tallies refreshes_tallies).map
  | expired secretId =>
    apply Program.Only.map
    apply (still_tallies.only_expiredEvent secretId).bind
    intro _
    apply Program.Only.tryCatch
    · apply still_tallies.only_deleteSecret only_log_tallies
      intro pid w deleted db hrun
      exact shifts_removal rfl (shifts_expire hrun)
    · intro error
      exact Program.only_pure ()
  | sweep => exact only_fallbackSweep_tallies.map
  | cleanup credentials clientIp =>
    exact (still_tallies.only_cleanupExpired only_log_tallies only_fallbackSweep_tallies).map
  | wait => exact still_tallies.only_tick.map

theorem only_lifetime (request : LifetimeRequest) :
    ((lifetimeSystem P).serve request).Only Tallies := by
  cases request with
  | background request => exact (only_background request).map
  | delete secretId user clientIp =>
    apply Program.Only.map
    apply (only_liftExcept _).bind
    intro id
    apply Program.Only.bind
    · apply still_tallies.only_transaction
      intro pid w choice value db hrun
      exact shifts_removal rfl (shifts_delete hrun)
    · intro _
      apply Program.Only.tryCatch
      · exact (still_tallies.only_reconcileUser user.id).bind fun _ => Program.only_pure ()
      · exact fun _ => Program.only_pure ()

end Handlers

/-! ### Runs -/

section Runs
variable {P : Platform} {w : World}
  {c c' : Pool World Choice Label LifetimeRequest Exn LifetimeResponse} {tally tally' : List Mark}

/-- The rows and the tally of a run from an empty table. -/
structure Counted (w : World) (tally : List Mark) : Prop where
  rows : w.db.secrets.rows.length + removedSoFar tally = createdSoFar tally
  unviewed : Unviewed w.db
  viewed : viewedSoFar tally ≤ removedSoFar tally

theorem Counted.tallies {pid : ℕ} {label : Label} {w' : World} (h : Counted w tally)
    (hstep : Tallies pid label w w') : Counted w' (tally ++ marks w w') where
  rows := by
    have hrows := h.rows
    have hshifts := hstep.shifts.rows
    simp only [removedSoFar, createdSoFar, List.countP_append] at *
    omega
  unviewed := hstep.shifts.unviewed h.unviewed
  viewed := by
    have hviewed := h.viewed
    have hmore := hstep.viewed
    simp only [viewedSoFar, removedSoFar, List.countP_append] at *
    omega

theorem counted_of_run (hempty : w.db.secrets = .empty)
    (run : (lifetimeSystem P).Tallied marks (Pool.init w) c tally) : Counted c.shared tally := by
  apply run.invariant (I := Counted) only_lifetime (Pool.all_init w)
  · constructor
    · simp [Pool.init, hempty, removedSoFar, createdSoFar]
    · simp [Unviewed, Pool.init, hempty]
    · exact le_refl _
  · intro s tally h
    exact h.tallies (@tallies_of_commits 0 .tick _ _ rfl rfl)
  · intro pid label s s' tally hstep h
    exact h.tallies hstep
  · intro pid s tally h
    exact h.tallies (@tallies_of_commits pid .tick _ _ rfl rfl)

/-- What the statements of `get_stats` count. -/
def counts (now : Timestamp) (db : Database) : StatsResponse :=
  ⟨db.secrets.rows.length, db.secrets.rows.countP Secret.viewed,
    db.secrets.rows.countP (active now)⟩

theorem ends_getStats_ok {pid : ℕ} {w' : World} {response : StatsResponse} :
    Access.Ends getStats pid w (.ok response) w' ↔ response = counts w.now w.db ∧ w' = w := by
  simp only [Access.Ends, getStats, Program.ends_bind_ok, Program.ends_pure]
  constructor
  · rintro ⟨active, _, hactive, created, _, hcreated, viewed, _, hviewed, hresponse, rfl⟩
    obtain ⟨rfl, rfl⟩ := Access.ends_query_ok.mp hactive
    obtain ⟨rfl, rfl⟩ := Access.ends_query_ok.mp hcreated
    obtain ⟨rfl, rfl⟩ := Access.ends_query_ok.mp hviewed
    exact ⟨Except.ok.inj hresponse, rfl⟩
  · rintro ⟨rfl, rfl⟩
    exact ⟨_, _, Access.ends_query_ok.mpr ⟨rfl, rfl⟩, _, _, Access.ends_query_ok.mpr ⟨rfl, rfl⟩,
      _, _, Access.ends_query_ok.mpr ⟨rfl, rfl⟩, rfl, rfl⟩

/-- The totals that `get_stats` returns are those of the lifetime. -/
def CountsLifetime (w : World) (tally : List Mark) : Prop :=
  ∀ pid response w', Access.Ends getStats pid w (.ok response) w' →
    response.totalSecretsCreated = createdSoFar tally ∧
      response.totalSecretsViewed = viewedSoFar tally

def CountsActive (w : World) : Prop :=
  ∀ pid response w', Access.Ends getStats pid w (.ok response) w' →
    response.activeSecrets =
      (w.db.secrets.rows.filter fun s => w.now < s.expiresAt ∧ s.viewCount < s.maxViews).length

theorem countsActive (w : World) : CountsActive w := by
  intro pid response w' h
  obtain ⟨rfl, _⟩ := ends_getStats_ok.mp h
  have hactive : active w.now =
      fun s => decide (w.now < s.expiresAt ∧ s.viewCount < s.maxViews) := by
    funext s
    simp [active]
  rw [← hactive, ← List.countP_eq_length_filter]
  rfl

/-- In a state that a run has reached, the totals are those of the lifetime exactly when no row has
been removed. -/
theorem countsLifetime_iff (h : Counted c.shared tally) :
    CountsLifetime c.shared tally ↔ ∀ id, .removed id ∉ tally := by
  have hnone : (∀ id, .removed id ∉ tally) ↔ removedSoFar tally = 0 := by
    rw [removedSoFar, List.countP_eq_zero]
    constructor
    · intro h mark hmark
      cases mark with
      | removed id => exact absurd hmark (h id)
      | _ => exact Bool.false_ne_true
    · intro h id hmem
      exact h _ hmem rfl
  have hrows := h.rows
  have hviewed := h.viewed
  rw [hnone]
  constructor
  · intro hcounts
    have htotals := hcounts 0 _ _ (ends_getStats_ok.mpr ⟨rfl, rfl⟩)
    have hcreated : c.shared.db.secrets.rows.length = createdSoFar tally := htotals.1
    omega
  · intro hremoved pid response w' hends
    obtain ⟨rfl, _⟩ := ends_getStats_ok.mp hends
    have hflags : c.shared.db.secrets.rows.countP Secret.viewed = 0 := by
      rw [List.countP_eq_zero]
      intro s hs
      simp [h.unviewed s hs]
    constructor
    · change c.shared.db.secrets.rows.length = _
      omega
    · change c.shared.db.secrets.rows.countP Secret.viewed = _
      omega

end Runs

/-- The totals of `get_stats` are those of the lifetime exactly as long as the run has removed no
row of `secrets`, and do not decrease as long as it removes none; the number of active secrets is
right in any case. -/
theorem get_stats_lifetime_iff (P : Platform) (w : World) (hempty : w.db.secrets = .empty)
    (c : Pool World Choice Label LifetimeRequest Exn LifetimeResponse) (tally : List Mark)
    (run : (lifetimeSystem P).Tallied marks (Pool.init w) c tally) :
    (CountsLifetime c.shared tally ↔ ∀ id, .removed id ∉ tally) ∧ CountsActive c.shared ∧
    ∀ c' tally', (lifetimeSystem P).Tallied marks c c' tally' →
      (∀ id, .removed id ∉ tally ++ tally') →
      ∀ pid response w₁ pid' response' w₂, Access.Ends getStats pid c.shared (.ok response) w₁ →
        Access.Ends getStats pid' c'.shared (.ok response') w₂ →
        response.totalSecretsCreated ≤ response'.totalSecretsCreated ∧
          response.totalSecretsViewed ≤ response'.totalSecretsViewed := by
  have hcounted := counted_of_run hempty run
  refine ⟨countsLifetime_iff hcounted, countsActive c.shared, ?_⟩
  intro c' tally' run' hnone pid response w₁ pid' response' w₂ h h'
  have hbefore : CountsLifetime c.shared tally := by
    apply (countsLifetime_iff hcounted).mpr
    intro id hmem
    exact hnone id (List.mem_append_left _ hmem)
  have hafter : CountsLifetime c'.shared (tally ++ tally') :=
    (countsLifetime_iff (counted_of_run hempty (run.trans run'))).mpr hnone
  have hfirst := hbefore pid response w₁ h
  have hlast := hafter pid' response' w₂ h'
  simp only [createdSoFar, viewedSoFar, List.countP_append] at hfirst hlast
  omega

section Sample

/-- A secret with one view is created and retrieved. -/
def createRetrieve : List (Event Choice LifetimeRequest) :=
  .start (.background (.create { content := "a", maxViews := 1 }
      ⟨1, "ada@example.org", .admin, true, true⟩ "203.0.113.9")) ::
    List.replicate 6 (.act 0 { uuid := 6, random := sampleRandom }) ++
    List.replicate 5 (.act 0 { uuid := 7, random := sampleRandom }) ++
  .start (.background (.retrieve (samplePlatform.uuidText 7) none none "203.0.113.9" none)) ::
    List.replicate 5 (.act 1 {})

theorem get_stats_lifetime_sample :
    ∃ c tally, (lifetimeSystem samplePlatform).Tallied marks
        (Pool.init (worldOf sampleStore .empty .empty 0)) c tally ∧
      tally = [.created 7] ∧ CountsLifetime c.shared tally := by
  rcases (lifetimeSystem samplePlatform).exists_tallied marks
      (Pool.init (worldOf sampleStore .empty .empty 0)) (createRetrieve.take 12)
      (fun _ tally => tally = [.created 7]) (by decide +kernel) with ⟨c, tally, run, h⟩
  rw [decide_eq_true_eq] at h
  have hnone : ∀ id, .removed id ∉ tally := by simp [h]
  exact ⟨c, tally, run, h, (get_stats_lifetime_iff samplePlatform _ rfl c tally run).1.mpr hnone⟩

/-- After its last view a secret counts neither as created nor as viewed. -/
theorem get_stats_forgets : ∃ c tally,
    (lifetimeSystem samplePlatform).Tallied marks
      (Pool.init (worldOf sampleStore .empty .empty 0)) c tally ∧
    createdSoFar tally = 1 ∧ viewedSoFar tally = 1 ∧ ¬ CountsLifetime c.shared tally ∧
    Access.Ends getStats 2 c.shared (.ok ⟨0, 0, 0⟩) c.shared := by
  rcases (lifetimeSystem samplePlatform).exists_tallied marks
      (Pool.init (worldOf sampleStore .empty .empty 0)) createRetrieve
      (fun w tally => tally = [.created 7, .viewed 7, .removed 7] && counts w.now w.db = ⟨0, 0, 0⟩)
      (by decide +kernel) with ⟨c, tally, run, h⟩
  rw [Bool.and_eq_true, decide_eq_true_eq, decide_eq_true_eq] at h
  obtain ⟨rfl, hcounts⟩ := h
  have hends : Access.Ends getStats 2 c.shared (.ok ⟨0, 0, 0⟩) c.shared :=
    ends_getStats_ok.mpr ⟨hcounts.symm, rfl⟩
  refine ⟨c, _, run, rfl, rfl, ?_, hends⟩
  intro hlifetime
  exact absurd (hlifetime 2 _ _ hends).1 (by decide)

end Sample
end PhantomShare.Stats
