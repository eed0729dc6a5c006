import PhantomShare.Journal
import PhantomShare.Routers.SecretAccess
import PhantomShare.Routers.SecretVersions

/-!
# Counting the views of a secret

The committed views of a secret are read off the journal. The account of a
secret links them to `view_count`, to the rows of `secret_views` and to the
presence of the row. A transaction either keeps the account of a secret or adds
one view to it.
-/
namespace PhantomShare.Burn
open Foundations

/-- The secret and the version that a committed transaction showed to a viewer. -/
def viewed : Label → Option (UUID × ℕ)
  | .retrieved id _ version => some (id, version)
  | .downloaded id version => some (id, version)
  | _ => none

/-- The committed views, each with its process. -/
def views (w : World) : List (ℕ × UUID × ℕ) := Journal.entries viewed w

/-- The versions of a secret that were shown, in the order of the commits. -/
def viewsOf (id : UUID) (w : World) : List ℕ :=
  ((views w).filter fun view => view.2.1 = id).map fun view => view.2.2

/-- What one process has shown. -/
def viewsBy (pid : ℕ) (w : World) : List (UUID × ℕ) := Journal.entriesBy viewed pid w

/-- The versions in the rows of `secret_views`. -/
def viewRows (id : UUID) (db : Database) : List ℕ :=
  (db.secretViews.filter fun v => v.secretId = id).map SecretView.contentVersion

def tracked (id : UUID) (db : Database) : Bool := (db.secretTracking.find id).isSome

/-- The row of a secret is gone, and with it the rows that refer to it. -/
structure Gone (id : UUID) (db : Database) : Prop where
  secret : db.secrets.find id = none
  keys : ∀ k ∈ db.secretKeys.rows, k.secretId ≠ id
  versions : ∀ v ∈ db.secretVersions.rows, v.secretId ≠ id

/-- A change that counts no view of the secret. -/
structure Keeps (id : UUID) (db db' : Database) : Prop where
  secret : ∀ s', db'.secrets.find id = some s' → ∃ s, db.secrets.find id = some s ∧
    s'.viewCount = s.viewCount ∧ s'.maxViews = s.maxViews ∧ s'.payloadType = s.payloadType ∧
      (s.content.isSome → s'.content.isSome)
  gone : (db.secrets.find id = none → Gone id db) → db'.secrets.find id = none → Gone id db'
  rows : viewRows id db' = viewRows id db
  tracked : tracked id db' = tracked id db

/-- A change that counts one view of the secret, and deletes it when that was the last one. -/
structure Counts (id : UUID) (version : ℕ) (db db' : Database) : Prop where
  secret : ∃ s, db.secrets.find id = some s ∧ s.viewCount < s.maxViews ∧
    ((s.viewCount + 1 < s.maxViews ∧ ∃ s', db'.secrets.find id = some s' ∧
        s'.viewCount = s.viewCount + 1 ∧ s'.maxViews = s.maxViews ∧
          s'.payloadType = s.payloadType ∧ s'.content = s.content) ∨
      (s.viewCount + 1 = s.maxViews ∧ Gone id db'))
  rows : viewRows id db' = viewRows id db ++ if tracked id db then [version] else []
  tracked : tracked id db' = tracked id db

/-- A deleted row takes the rows that refer to it along. -/
theorem Gone.deleteSecrets {id : UUID} {db : Database} {s : Secret} {now : Timestamp}
    {p : Secret → Bool} (hs : db.secrets.find id = some s) (hp : p s = true) :
    Gone id (db.deleteSecrets now p) := by
  rcases Database.deleteSecrets_frame now p db with ⟨outbox, n, logs, hdb⟩
  have hdoomed : s ∈ db.secrets.rows.filter p :=
    List.mem_filter.mpr ⟨Table.mem_of_find hs, hp⟩
  have hid : s.id = id := Table.key_of_find hs
  rw [hdb]
  constructor
  · change (db.secrets.deleteWhere p).find id = none
    rw [Table.find_deleteWhere, hs]
    simp [hp]
  · intro k hk hkid
    have hkept := (List.mem_filter.mp hk).2
    rw [Bool.not_eq_true', List.any_eq_false] at hkept
    exact hkept s hdoomed (by simp [hid, hkid])
  · intro v hv hvid
    have hkept := (List.mem_filter.mp hv).2
    rw [Bool.not_eq_true', List.any_eq_false] at hkept
    exact hkept s hdoomed (by simp [hid, hvid])

namespace Keeps
variable {id : UUID}

theorem refl (db : Database) : Keeps id db db where
  secret s h := ⟨s, h, rfl, rfl, rfl, fun h => h⟩
  gone h := h
  rows := rfl
  tracked := rfl

theorem trans {a b c : Database} (hab : Keeps id a b) (hbc : Keeps id b c) : Keeps id a c where
  secret s'' h := by
    rcases hbc.secret s'' h with ⟨s', hs', hcount', hmax', htype', hcontent'⟩
    rcases hab.secret s' hs' with ⟨s, hs, hcount, hmax, htype, hcontent⟩
    exact ⟨s, hs, hcount'.trans hcount, hmax'.trans hmax, htype'.trans htype,
      fun h => hcontent' (hcontent h)⟩
  gone h := hbc.gone (hab.gone h)
  rows := hbc.rows.trans hab.rows
  tracked := hbc.tracked.trans hab.tracked

instance : IsPreorder Database (Keeps id) where
  refl := refl
  trans _ _ _ := trans

/-- A change outside the tables of the account. -/
theorem of_eq {db db' : Database} (hsecrets : db'.secrets = db.secrets)
    (hkeys : db'.secretKeys = db.secretKeys) (hversions : db'.secretVersions = db.secretVersions)
    (hviews : db'.secretViews = db.secretViews) (htracking : db'.secretTracking = db.secretTracking) :
    Keeps id db db' where
  secret s h := ⟨s, hsecrets ▸ h, rfl, rfl, rfl, fun h => h⟩
  gone h hnone := by
    rw [hsecrets] at hnone
    have hgone := h hnone
    exact ⟨hsecrets ▸ hnone, hkeys ▸ hgone.keys, hversions ▸ hgone.versions⟩
  rows := by rw [viewRows, hviews, viewRows]
  tracked := by rw [Burn.tracked, htracking, Burn.tracked]

theorem insertAuditLog {db db' : Database} {now : Timestamp} {action : String}
    {actorId : Option UUID} {actorIp : Option String} {secretId : Option UUID}
    {metadata : List (String × Json)}
    (h : db.insertAuditLog now action actorId actorIp secretId metadata = .ok db') :
    Keeps id db db' := by
  rcases Database.insertAuditLog_ok h with ⟨_, _, row, rfl⟩
  exact of_eq rfl rfl rfl rfl rfl

theorem insertSecretKey {db db' : Database} {row : SecretKey} (h : db.insertSecretKey row = .ok db') :
    Keeps id db db' := by
  rcases Database.insertSecretKey_ok h with ⟨hrefers, keys, hkeys, rfl⟩
  have hrows := (Table.insert_eq_some hkeys).2
  refine ⟨(refl db).secret, ?_, rfl, rfl⟩
  intro hgone hnone
  have hold := hgone hnone
  refine ⟨hnone, ?_, hold.versions⟩
  intro k hk hid
  rw [hrows, List.mem_append, List.mem_singleton] at hk
  rcases hk with hk | rfl
  · exact hold.keys k hk hid
  · rw [Database.hasSecret, hid, hold.secret] at hrefers
    cases hrefers

theorem insertSecretVersion {db db' : Database} {row : SecretVersion}
    (h : db.insertSecretVersion row = .ok db') : Keeps id db db' := by
  rcases Database.insertSecretVersion_ok h with ⟨hrefers, _, versions, hversions, rfl⟩
  have hrows := (Table.insert_eq_some hversions).2
  refine ⟨(refl db).secret, ?_, rfl, rfl⟩
  intro hgone hnone
  have hold := hgone hnone
  refine ⟨hnone, hold.keys, ?_⟩
  intro v hv hid
  rw [hrows, List.mem_append, List.mem_singleton] at hv
  rcases hv with hv | rfl
  · exact hold.versions v hv hid
  · rw [Database.hasSecret, hid, hold.secret] at hrefers
    cases hrefers

/-- An update of columns that the account does not read. -/
theorem updateSecret (db : Database) (id' : UUID) (f : Secret → Secret) (hf : ∀ r, (f r).id = r.id)
    (hcount : ∀ r, (f r).viewCount = r.viewCount) (hmax : ∀ r, (f r).maxViews = r.maxViews)
    (htype : ∀ r, (f r).payloadType = r.payloadType)
    (hcontent : ∀ r : Secret, r.content.isSome → (f r).content.isSome) :
    Keeps id db (db.updateSecret id' f hf) := by
  have hfind : (db.updateSecret id' f hf).secrets.find id =
      if id = id' then (db.secrets.find id').map f else db.secrets.find id :=
    Table.find_modify db.secrets id' f hf id
  constructor
  · intro s' hs'
    rw [hfind] at hs'
    by_cases hid : id = id'
    · subst hid
      rw [if_pos rfl, Option.map_eq_some_iff] at hs'
      rcases hs' with ⟨s, hs, rfl⟩
      exact ⟨s, hs, hcount s, hmax s, htype s, hcontent s⟩
    · rw [if_neg hid] at hs'
      exact ⟨s', hs', rfl, rfl, rfl, fun h => h⟩
  · intro hgone hnone
    have hold : db.secrets.find id = none := by
      rw [hfind] at hnone
      by_cases hid : id = id'
      · subst hid
        rw [if_pos rfl, Option.map_eq_none_iff] at hnone
        exact hnone
      · rwa [if_neg hid] at hnone
    exact ⟨hnone, (hgone hold).keys, (hgone hold).versions⟩
  · rfl
  · rfl

theorem updateTextVersion {db db' : Database} {id' : UUID} {version keyVersion : ℕ}
    {content nonce : String}
    (h : db.updateTextVersion id' version content nonce keyVersion = .ok db') : Keeps id db db' := by
  rcases FileCrypto.bind_eq_ok.mp h with ⟨_, _, h⟩
  cases h
  refine ⟨(refl db).secret, ?_, rfl, rfl⟩
  intro hgone hnone
  have hold := hgone hnone
  refine ⟨hnone, hold.keys, ?_⟩
  intro v hv
  rcases List.mem_map.mp hv with ⟨u, hu, rfl⟩
  have hkeep := hold.versions u hu
  split
  · exact hkeep
  · exact hkeep

theorem deleteSecrets (db : Database) (now : Timestamp) (p : Secret → Bool) :
    Keeps id db (db.deleteSecrets now p) := by
  have hframe := Database.deleteSecrets_frame now p db
  rcases hframe with ⟨outbox, n, logs, hdb⟩
  have hfind : (db.deleteSecrets now p).secrets.find id =
      (db.secrets.find id).filter fun s => !p s := by
    rw [hdb]
    exact Table.find_deleteWhere _ _ _
  constructor
  · intro s' hs'
    rw [hfind, Option.filter_eq_some_iff] at hs'
    exact ⟨s', hs'.1, rfl, rfl, rfl, fun h => h⟩
  · intro hgone hnone
    cases hold : db.secrets.find id with
    | none =>
      have hclear := hgone hold
      refine ⟨hnone, ?_, ?_⟩
      · rw [hdb]
        intro k hk
        exact hclear.keys k (List.mem_filter.mp hk).1
      · rw [hdb]
        intro v hv
        exact hclear.versions v (List.mem_filter.mp hv).1
    | some s =>
      rw [hfind, Option.filter_eq_none_iff] at hnone
      exact Gone.deleteSecrets hold (by simpa using hnone s hold)
  · rw [hdb]
    rfl
  · rw [hdb]
    rfl

theorem updatePolicies (db : Database) (policies : Table SecretAccessPolicy.secretId) :
    Keeps id db { db with secretAccessPolicies := policies } := of_eq rfl rfl rfl rfl rfl

theorem insertView {db db' : Database} {row : SecretView} {n : ℕ} (hid : row.secretId ≠ id)
    (h : db.insertView row = .ok (n, db')) : Keeps id db db' := by
  unfold Database.insertView at h
  split at h
  · cases h
    exact refl db
  · rcases FileCrypto.bind_eq_ok.mp h with ⟨_, _, h⟩
    cases h
    refine ⟨(refl db).secret, ?_, ?_, rfl⟩
    · intro hgone hnone
      exact ⟨hnone, (hgone hnone).keys, (hgone hnone).versions⟩
    · simp [viewRows, hid]

theorem updateViewCount {db db' : Database} {now : Timestamp} {id' : UUID} {count : ℤ} {viewed : Bool}
    (hid : id' ≠ id) (h : db.updateViewCount now id' count viewed = .ok db') : Keeps id db db' := by
  have hkeep : Keeps id db (db.updateSecret id'
      (fun r => { r with viewCount := count, viewed := viewed }) fun _ => rfl) := by
    have hfind : (db.updateSecret id' (fun r => { r with viewCount := count, viewed := viewed })
        fun _ => rfl).secrets.find id = db.secrets.find id := by
      rw [Database.updateSecret, Table.find_modify, if_neg (Ne.symm hid)]
    constructor
    · intro s hs
      rw [hfind] at hs
      exact ⟨s, hs, rfl, rfl, rfl, fun h => h⟩
    · intro hgone hnone
      have hold := hgone (hfind ▸ hnone)
      exact ⟨hnone, hold.keys, hold.versions⟩
    · rfl
    · rfl
  unfold Database.updateViewCount at h
  split at h
  · cases h
    exact refl db
  · split at h
    · cases h
    · split at h
      · rcases FileCrypto.bind_eq_ok.mp h with ⟨logged, hlog, h⟩
        cases h
        exact (hkeep.trans (insertAuditLog hlog)).trans (deleteSecrets logged now _)
      · cases h
        exact hkeep

end Keeps

/-- `INSERT INTO secret_views … FROM secret_tracking`. -/
theorem viewRows_insertView {db db' : Database} {row : SecretView} {n : ℕ}
    (h : db.insertView row = .ok (n, db')) :
    viewRows row.secretId db' = viewRows row.secretId db ++
        (if tracked row.secretId db then [row.contentVersion] else []) ∧
      db'.secrets = db.secrets ∧ db'.secretTracking = db.secretTracking ∧
      db'.secretKeys = db.secretKeys ∧ db'.secretVersions = db.secretVersions := by
  unfold Database.insertView at h
  split at h
  · rename_i hnone
    cases h
    simp [tracked, hnone]
  · rename_i t hsome
    rcases FileCrypto.bind_eq_ok.mp h with ⟨_, _, h⟩
    cases h
    simp [tracked, hsome, viewRows]

/-- The last permitted view deletes the secret, every other one raises the count. -/
theorem updateViewCount_ok {db db' : Database} {now : Timestamp} {id : UUID} {s : Secret}
    {viewed : Bool} (hs : db.secrets.find id = some s) (hlt : s.viewCount < s.maxViews)
    (h : db.updateViewCount now id (s.viewCount + 1) viewed = .ok db') :
    ((s.viewCount + 1 < s.maxViews ∧ ∃ s', db'.secrets.find id = some s' ∧
        s'.viewCount = s.viewCount + 1 ∧ s'.maxViews = s.maxViews ∧
          s'.payloadType = s.payloadType ∧ s'.content = s.content) ∨
      (s.viewCount + 1 = s.maxViews ∧ Gone id db')) ∧
    viewRows id db' = viewRows id db ∧ tracked id db' = tracked id db := by
  have hfind : (db.updateSecret id
      (fun r => { r with viewCount := s.viewCount + 1, viewed := viewed })
        fun _ => rfl).secrets.find id =
      some { s with viewCount := s.viewCount + 1, viewed := viewed } := by
    rw [Database.updateSecret, Table.find_modify, if_pos rfl, hs]
    rfl
  unfold Database.updateViewCount at h
  simp only [hs, if_neg (show ¬ s.maxViews < s.viewCount + 1 by omega)] at h
  split at h
  · rename_i hlast
    rcases FileCrypto.bind_eq_ok.mp h with ⟨logged, hlog, hdelete⟩
    rcases Database.insertAuditLog_ok hlog with ⟨_, _, row, rfl⟩
    cases hdelete
    refine ⟨Or.inr ⟨by omega, ?_⟩, ?_, ?_⟩
    · refine @Gone.deleteSecrets id _ _ now _ hfind ?_
      simpa using Table.key_of_find hs
    · exact (Keeps.deleteSecrets _ _ _).rows
    · exact (Keeps.deleteSecrets _ _ _).tracked
  · rename_i hmore
    cases h
    exact ⟨Or.inl ⟨by omega, _, hfind, rfl, rfl, rfl, rfl⟩, rfl, rfl⟩

/-! ### The account -/

/-- The account of a secret that a run found as `first`. -/
structure Account (start : Database) (id : UUID) (first : Secret) (w : World) : Prop where
  row : ∀ s, w.db.secrets.find id = some s →
    s.viewCount = first.viewCount + (viewsOf id w).length ∧ s.maxViews = first.maxViews ∧
      s.payloadType = first.payloadType ∧ (first.content.isSome → s.content.isSome)
  bound : first.viewCount + (viewsOf id w).length ≤ first.maxViews
  burned : viewsOf id w ≠ [] → first.viewCount + (viewsOf id w).length = first.maxViews →
    Gone id w.db
  gone : w.db.secrets.find id = none → Gone id w.db
  rows : viewRows id w.db =
    viewRows id start ++ if tracked id start then viewsOf id w else []
  tracked : tracked id w.db = tracked id start

theorem viewsOf_commit (id : UUID) (w : World) (pid : ℕ) (label : Label) (db : Database) :
    viewsOf id (w.commit pid label db) = viewsOf id w ++
      (((viewed label).filter fun view => view.1 = id).map Prod.snd).toList := by
  rw [viewsOf, views, Journal.entries_commit, List.filter_append, List.map_append, viewsOf, views]
  cases hview : viewed label with
  | none => simp
  | some view => by_cases hid : view.1 = id <;> simp [hid, Option.filter]

theorem views_of_neutral {pid : ℕ} {w w' : World} (h : Neutral pid w w') : views w' = views w :=
  Journal.entries_of_neutral rfl h

namespace Account
variable {start : Database} {id : UUID} {first : Secret} {w : World}

theorem keep {pid : ℕ} {label : Label} {db : Database} (h : Account start id first w)
    (hkeeps : Keeps id w.db db) (hlabel : ∀ version, viewed label ≠ some (id, version)) :
    Account start id first (w.commit pid label db) := by
  have hviews : viewsOf id (w.commit pid label db) = viewsOf id w := by
    rw [viewsOf_commit]
    cases hview : viewed label with
    | none => simp
    | some view =>
      have hne : view.1 ≠ id := by
        rintro rfl
        exact hlabel view.2 hview
      simp [Option.filter, hne]
  constructor
  · intro s' hs'
    rw [hviews]
    rcases hkeeps.secret s' hs' with ⟨s, hs, hcount, hmax, htype, hcontent⟩
    have hrow := h.row s hs
    exact ⟨hcount.trans hrow.1, hmax.trans hrow.2.1, htype.trans hrow.2.2.1,
      fun hfirst => hcontent (hrow.2.2.2 hfirst)⟩
  · rw [hviews]
    exact h.bound
  · rw [hviews]
    intro hsome hlast
    have hgone := h.burned hsome hlast
    apply hkeeps.gone h.gone
    cases hfind : db.secrets.find id with
    | none => rfl
    | some s' =>
      rcases hkeeps.secret s' hfind with ⟨s, hs, _⟩
      rw [hgone.secret] at hs
      cases hs
  · exact hkeeps.gone h.gone
  · rw [hviews]
    exact hkeeps.rows.trans h.rows
  · exact hkeeps.tracked.trans h.tracked

theorem count {pid : ℕ} {label : Label} {version : ℕ} {db : Database}
    (h : Account start id first w) (hcounts : Counts id version w.db db)
    (hlabel : viewed label = some (id, version)) :
    Account start id first (w.commit pid label db) := by
  have hviews : viewsOf id (w.commit pid label db) = viewsOf id w ++ [version] := by
    rw [viewsOf_commit, hlabel]
    simp
  rcases hcounts.secret with ⟨s, hs, hlt, hcase⟩
  have hrow := h.row s hs
  have hrows : viewRows id db = viewRows id start ++
      if Burn.tracked id start then viewsOf id w ++ [version] else [] := by
    rw [hcounts.rows, h.rows, h.tracked]
    cases Burn.tracked id start with
    | true => simp
    | false => simp
  rcases hcase with ⟨hmore, s', hs', hcount', hmax', htype', hcontent'⟩ | ⟨hlast, hgone⟩
  · constructor
    · intro s'' hs''
      rw [World.commit_db, hs'] at hs''
      cases hs''
      rw [hviews, List.length_append, List.length_singleton]
      refine ⟨by push_cast; omega, by omega, htype'.trans hrow.2.2.1, ?_⟩
      rw [hcontent']
      exact hrow.2.2.2
    · rw [hviews, List.length_append, List.length_singleton]
      push_cast
      omega
    · intro _ hfull
      rw [hviews, List.length_append, List.length_singleton] at hfull
      push_cast at hfull
      omega
    · intro hnone
      rw [World.commit_db, hs'] at hnone
      cases hnone
    · rw [hviews]
      exact hrows
    · exact hcounts.tracked.trans h.tracked
  · constructor
    · intro s'' hs''
      rw [World.commit_db, hgone.secret] at hs''
      cases hs''
    · rw [hviews, List.length_append, List.length_singleton]
      push_cast
      omega
    · intro _ _
      exact hgone
    · intro _
      exact hgone
    · rw [hviews]
      exact hrows
    · exact hcounts.tracked.trans h.tracked

theorem neutral {pid : ℕ} {w' : World} (h : Account start id first w) (hneutral : Neutral pid w w') :
    Account start id first w' := by
  have hviews : viewsOf id w' = viewsOf id w := by
    rw [viewsOf, views_of_neutral hneutral, viewsOf]
  rcases hneutral.db with ⟨logs, hdb⟩
  constructor
  · rw [hdb, hviews]
    exact h.row
  · rw [hviews]
    exact h.bound
  · rw [hdb, hviews]
    intro hsome hlast
    have hgone := h.burned hsome hlast
    exact ⟨hgone.secret, hgone.keys, hgone.versions⟩
  · rw [hdb]
    intro hnone
    have hgone := h.gone hnone
    exact ⟨hgone.secret, hgone.keys, hgone.versions⟩
  · rw [hdb, hviews]
    exact h.rows
  · rw [hdb]
    exact h.tracked

end Account
end PhantomShare.Burn

/-! ### Runs that keep an account

The rules of the journal for the views of secrets, with the account of one secret as their
invariant. -/

namespace PhantomShare.Burn
open Foundations Journal

/-- A transaction that counts no view of any secret. -/
def Uncounted (label : Label) (db db' : Database) : Prop :=
  viewed label = none ∧ ∀ id, Keeps id db db'

section
variable {start : Database} {id : UUID} {first : Secret} {pid : ℕ} {w : World}

theorem quiet : Quiet viewed (Account start id first) Uncounted where
  neutral _ _ _ haccount hneutral := haccount.neutral hneutral
  keep _ _ _ _ haccount hK := haccount.keep (hK.2 id) (by simp [hK.1])
  unread _ _ _ hK := hK.1
  audit := rfl

theorem account_initial (hdb : w.db = start) (hcommits : w.commits = [])
    (hfind : start.secrets.find id = some first) (hbound : first.viewCount ≤ first.maxViews) :
    Account start id first w := by
  subst hdb
  have hviews : viewsOf id w = [] := by
    rw [viewsOf, views, entries, hcommits]
    rfl
  constructor
  · intro s hs
    rw [hfind] at hs
    cases hs
    simp [hviews]
  · simpa [hviews] using hbound
  · simp [hviews]
  · intro hnone
    rw [hfind] at hnone
    cases hnone
  · simp [hviews]
  · rfl

/-- Processes that have each shown the secret are at most as many as its views. -/
theorem length_le_viewsOf {pids : List ℕ} (hnodup : pids.Nodup)
    (h : ∀ pid ∈ pids, ∃ version, (id, version) ∈ viewsBy pid w) :
    pids.length ≤ (viewsOf id w).length := by
  have hsubset : pids ⊆ ((views w).filter fun view => view.2.1 = id).map Prod.fst := by
    intro pid hpid
    rcases h pid hpid with ⟨version, hview⟩
    exact List.mem_map.mpr
      ⟨_, List.mem_filter.mpr ⟨mem_entriesBy.mp hview, by simp⟩, rfl⟩
  have hlength := (List.subperm_of_subset hnodup hsubset).length_le
  rw [List.length_map] at hlength
  rw [viewsOf, List.length_map]
  exact hlength

end
end PhantomShare.Burn
