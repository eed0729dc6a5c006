import PhantomShare.Access.Location
import PhantomShare.Routers.Listings

/-!
# Listings page by page

Three of the listings order their rows by `created_at` alone, which rows that were
inserted in one transaction share. They are complete exactly when no such rows lie
across the end of a page. The listing of views breaks ties by the id and is complete
in any case.
-/
namespace PhantomShare.Listings
open Foundations

section Pages
variable {ρ α κ : Type} [LinearOrder κ] {key : ρ → κ} {item : ρ → α} {matching : List ρ}
  {pageSize : ℕ} {answer : ℕ → List ρ → Except Exn (Listing α)}

/-- The pages 1, 2, … up to the last one show every matching row once, whatever order of the rows
that tie the database chooses for each of them. -/
def Lists (key : ρ → κ) (item : ρ → α) (matching : List ρ) (pageSize : ℕ)
    (answer : ℕ → List ρ → Except Exn (Listing α)) : Prop :=
  ∀ sorted : ℕ → List ρ, (∀ n, Ordered key matching (sorted n)) →
    ∃ pages : ℕ → Listing α, (∀ n, answer (n + 1) (sorted n) = .ok (pages n)) ∧
      ((List.range (((pages 0).total + pageSize - 1) / pageSize)).flatMap
        fun n => (pages n).items).Perm (matching.map item)

theorem lists_iff_complete
    (h : ∀ page sorted, answer page sorted = .ok (listing item matching sorted page pageSize)) :
    Lists key item matching pageSize answer ↔ Complete key item pageSize matching := by
  constructor
  · intro hlists sorted hsorted
    obtain ⟨pages, hpages, hperm⟩ := hlists sorted hsorted
    have heq : pages = fun n => listing item matching (sorted n) (n + 1) pageSize := by
      funext n
      have hpage := hpages n
      rw [h] at hpage
      exact (Except.ok.inj hpage).symm
    rw [heq] at hperm
    exact hperm
  · intro hcomplete sorted hsorted
    exact ⟨_, fun n => h (n + 1) (sorted n), hcomplete sorted hsorted⟩

theorem lists_iff (hsize : 0 < pageSize) (hnodup : (matching.map item).Nodup)
    (h : ∀ page sorted, answer page sorted = .ok (listing item matching sorted page pageSize)) :
    Lists key item matching pageSize answer ↔ Separated key pageSize matching :=
  (lists_iff_complete h).trans (complete_iff hsize hnodup)

end Pages

/-! ### The items of a listing are distinct -/

/-- Items of which a part tells the rows apart. -/
theorem nodup_items {ρ α ι : Type} {rows : List ρ} (item : ρ → α) (idOf : α → ι)
    (h : (rows.map (idOf ∘ item)).Nodup) : (rows.map item).Nodup := by
  rw [← List.map_map] at h
  exact h.of_map _

theorem nodup_ownedSecrets (user : CurrentUser) (viewed expired : Option Bool) (now : Timestamp)
    (db : Database) : ((ownedSecrets user viewed expired now db).map secretListItem).Nodup := by
  apply nodup_items _ SecretListItem.id
  have hids : ((db.secrets.rows.filter (secretMatches user viewed expired now)).map
      Secret.id).Sublist (db.secrets.rows.map Secret.id) := List.filter_sublist.map _
  exact hids.nodup db.secrets.keys_nodup

theorem nodup_numbers {ρ : Type} (rows : List ρ) : ((rows.zipIdx 1).map Prod.snd).Nodup := by
  rw [List.zipIdx_map_snd]
  exact List.nodup_range'

theorem nodup_auditRows (db : Database) (p : AuditLog × ℕ → Bool) :
    (((auditRows db).filter p).map auditLogItem).Nodup := by
  apply nodup_items _ AuditLogItem.id
  have hids : (((auditRows db).filter p).map Prod.snd).Sublist ((auditRows db).map Prod.snd) :=
    List.filter_sublist.map _
  exact hids.nodup (nodup_numbers db.auditLogs)

theorem nodup_users (users : Table UserRow.key) : (users.rows.map adminUserItem).Nodup :=
  nodup_items _ AdminUserItem.id users.keys_nodup

theorem nodup_viewRows (secretId : UUID) (db : Database) :
    ((viewRows secretId db).map Prod.snd).Nodup := by
  have hids : ((viewRows secretId db).map Prod.snd).Sublist
      ((db.secretViews.zipIdx 1).map Prod.snd) := List.filter_sublist.map _
  exact hids.nodup (nodup_numbers db.secretViews)

/-- Views with their ids in the order do not tie. -/
theorem separated_viewRows (pageSize : ℕ) (secretId : UUID) (db : Database) :
    Separated viewOrder pageSize (viewRows secretId db) := by
  apply separated_of_nodup
  exact nodup_items viewOrder (fun k => (ofLex k).2) (nodup_viewRows secretId db)

/-- Of the four listings only that of the views is always complete. The other three are complete
exactly when no rows with one `created_at` lie across the end of a page. -/
theorem listings_complete_iff (pageSize : ℕ) (hsize : 1 ≤ pageSize) (now : Timestamp)
    (db : Database) (users : Table UserRow.key) :
    (∀ user viewed expired,
      Lists Secret.createdAt secretListItem (ownedSecrets user viewed expired now db) pageSize
          (fun page sorted => .ok (listSecrets user viewed expired page pageSize now db sorted)) ↔
        Separated Secret.createdAt pageSize (ownedSecrets user viewed expired now db)) ∧
    (∀ f condition, AuditFilter.conditions f = .ok condition →
      (Lists (fun row => row.1.createdAt) auditLogItem
          ((auditRows db).filter fun row => condition row.1) pageSize
          (fun page sorted => auditLogs f page pageSize db sorted) ↔
        Separated (fun row => row.1.createdAt) pageSize
          ((auditRows db).filter fun row => condition row.1))) ∧
    (Lists UserRow.createdAt adminUserItem users.rows pageSize
        (fun page sorted => .ok (listUsers page pageSize users sorted)) ↔
      Separated UserRow.createdAt pageSize users.rows) ∧
    ∀ secretId tracking user, db.secretTracking.find secretId = some tracking →
      tracking.ownerId = user.id → now < tracking.retainUntil →
      Lists viewOrder secretViewItem (viewRows secretId db) pageSize fun page sorted =>
        (secretViews secretId page pageSize user now db sorted).map SecretViewsResponse.toListing := by
  refine ⟨?_, ?_, ?_, ?_⟩
  · intro user viewed expired
    exact lists_iff hsize (nodup_ownedSecrets user viewed expired now db) fun _ _ => rfl
  · intro f condition hcondition
    apply lists_iff hsize (nodup_auditRows db _)
    intro page sorted
    rw [auditLogs, hcondition]
    rfl
  · exact lists_iff hsize (nodup_users users) fun _ _ => rfl
  · intro secretId tracking user hfind howner hretained
    have hitems : ((viewRows secretId db).map secretViewItem).Nodup :=
      nodup_items _ SecretViewItem.id (nodup_viewRows secretId db)
    apply (lists_iff hsize hitems _).mpr (separated_viewRows pageSize secretId db)
    intro page sorted
    rw [secretViews, hfind]
    simp only [howner, hretained, and_self, if_true]
    rfl

section Sample
open Access

/-- A secret of which two views have one time, and three entries of which two have one time. -/
def viewedDatabase : Database :=
  { Database.empty with
    secretTracking := ⟨[⟨7, 1, 10⟩], List.nodup_singleton _⟩
    secretViews := [⟨7, none, none, false, 1, 3⟩, ⟨7, none, none, false, 1, 3⟩]
    auditLogs := [⟨"secret_viewed", none, none, .info, none, [], 3⟩,
      ⟨"secret_viewed", none, none, .info, none, [], 3⟩,
      ⟨"user_login", none, none, .info, none, [], 5⟩] }

/-- Views on pages of one row, and entries of which the tie lies on one page or is filtered out. -/
theorem listings_complete_sample :
    Lists viewOrder secretViewItem (viewRows 7 viewedDatabase) 1 (fun page sorted =>
      (secretViews 7 page 1 sampleOwner 0 viewedDatabase sorted).map
        SecretViewsResponse.toListing) ∧
    Lists (fun row => row.1.createdAt) auditLogItem
      ((auditRows viewedDatabase).filter fun row => row.1.action = "user_login") 1
      (fun page sorted => auditLogs { action := some "user_login" } page 1 viewedDatabase sorted) ∧
    Lists (fun row => row.1.createdAt) auditLogItem
      ((auditRows viewedDatabase).filter fun _ => true) 3
      (fun page sorted => auditLogs {} page 3 viewedDatabase sorted) := by
  have hlistings := listings_complete_iff 1 le_rfl 0 viewedDatabase .empty
  have hlistings' := listings_complete_iff 3 (by decide) 0 viewedDatabase .empty
  refine ⟨?_, ?_, ?_⟩
  · exact hlistings.2.2.2 7 ⟨7, 1, 10⟩ sampleOwner (by decide +kernel) rfl (by decide)
  · have hcondition : AuditFilter.conditions { action := some "user_login" } =
        .ok fun row => row.action = "user_login" := by
      have hgiven : given (some "user_login") = some "user_login" := by decide
      have haction : castAction "user_login" = .ok "user_login" := by decide
      have hnone : given none = none := rfl
      simp only [AuditFilter.conditions, hgiven, hnone]
      simp [haction]
    apply (hlistings.2.1 { action := some "user_login" } _ hcondition).mpr
    have hrows : ((auditRows viewedDatabase).filter fun row => row.1.action = "user_login") =
        [(⟨"user_login", none, none, .info, none, [], 5⟩, 3)] := by decide +kernel
    rw [hrows]
    simp [Separated, above, through]
    omega
  · apply (hlistings'.2.1 {} (fun _ => true) rfl).mpr
    have hrows : ((auditRows viewedDatabase).filter fun _ => true) =
        [(⟨"secret_viewed", none, none, .info, none, [], 3⟩, 1),
          (⟨"secret_viewed", none, none, .info, none, [], 3⟩, 2),
          (⟨"user_login", none, none, .info, none, [], 5⟩, 3)] := by decide +kernel
    rw [hrows]
    intro row hrow page
    simp only [List.mem_cons, List.not_mem_nil, or_false] at hrow
    rcases hrow with rfl | rfl | rfl <;> simp [above, through] <;> omega

/-- With one row on a page, the two rows of a tie lie across the end of the first page. -/
theorem not_separated_pair {ρ κ : Type} [LinearOrder κ] {key : ρ → κ} {a b : ρ}
    (htie : key a = key b) : ¬ Separated key 1 [a, b] := by
  intro h
  apply h a List.mem_cons_self 1
  simp [above, through, htie]

/-- Without parameters all rows match. -/
theorem auditLogs_unfiltered (page pageSize : ℕ) (db : Database) (sorted : List (AuditLog × ℕ)) :
    auditLogs {} page pageSize db sorted =
      .ok (listing auditLogItem (auditRows db) sorted page pageSize) := by
  have hall : ((auditRows db).filter fun _ => true) = auditRows db :=
    List.filter_eq_self.mpr fun _ _ => rfl
  change Except.ok (listing auditLogItem ((auditRows db).filter fun _ => true) sorted page
    pageSize) = _
  rw [hall]

/-- A transaction that logs a view and a deletion at one time. -/
def logsBurn (result : Except Exn (Secrets.Seen × Option Database)) : Bool :=
  match result with
  | .ok (_, some db) => decide (db.auditLogs.map AuditLog.action =
      ["secret_viewed", "secret_deleted"]) && decide (db.auditLogs.map AuditLog.createdAt = [0, 0])
  | _ => false

/-- The view and the deletion that the last retrieval of a secret logs have one time, and need not
both be listed. -/
theorem burn_not_listed : ∃ seen db, (Secrets.retrieveTransaction samplePlatform 7
      (some ⟨7, [], [], .all, true, 1, 0⟩) 1 none sampleClient none 0).run (linkedWorld 1).db =
        .ok (seen, some db) ∧
    db.auditLogs.map AuditLog.action = ["secret_viewed", "secret_deleted"] ∧
    ¬ Lists (fun row => row.1.createdAt) auditLogItem (auditRows db) 1
      fun page sorted => auditLogs {} page 1 db sorted := by
  have hrun : logsBurn ((Secrets.retrieveTransaction samplePlatform 7
      (some ⟨7, [], [], .all, true, 1, 0⟩) 1 none sampleClient none 0).run (linkedWorld 1).db) =
        true := by decide +kernel
  unfold logsBurn at hrun
  split at hrun
  · rename_i seen db hok
    simp only [Bool.and_eq_true, decide_eq_true_eq] at hrun
    refine ⟨seen, db, hok, hrun.1, ?_⟩
    rw [lists_iff Nat.one_pos (nodup_items _ AuditLogItem.id (nodup_numbers db.auditLogs))
      fun page sorted => auditLogs_unfiltered page 1 db sorted]
    obtain ⟨a, logs, hlogs, ha, htimes⟩ := List.map_eq_cons_iff.mp hrun.2
    obtain ⟨b, rest, rfl, hb, hrest⟩ := List.map_eq_cons_iff.mp htimes
    cases List.map_eq_nil_iff.mp hrest
    rw [auditRows, hlogs]
    exact not_separated_pair (ha.trans hb.symm)
  · cases hrun

end Sample
end PhantomShare.Listings
