import PhantomShare.PlainPlatform
import PhantomShare.Service.Creations

/-!
# Runs of the service

Whatever requests come in whatever order, and whichever of them fail or crash, every
record is intact in every state, and follows from what it was in every earlier one.
-/
namespace PhantomShare.Service
open Foundations Lifecycle

variable {P : Platform} {pid : ℕ} {v : ServiceView}

/-! ### Every transition keeps the invariant -/

theorem wp_asUser {α : Type} {credentials : Option String} {handler : CurrentUser → Handler α}
    (valid : Settings.Valid P.settings)
    (h : ∀ user v', (serviceRules P).wp pid (handler user) (fun _ _ => True) v') :
    (serviceRules P).wp pid (asUser P credentials handler) (fun _ _ => True) v :=
  wp_lasts_then (A := fun _ => True) valid (still_lasts.only_requireUser _) (fun _ _ _ _ => trivial)
    trivial (fun _ _ => trivial) fun user v' _ => h user v'

/-- Every result of a request may be delivered. -/
theorem wp_delivered {γ : Type} {p : Handler γ} {f : γ → Response}
    (h : (serviceRules P).wp pid p (fun _ _ => True) v) :
    (serviceRules P).wp pid (f <$> p) ((serviceRules P).Finishing pid) v := by
  apply Rules.wp_map
  exact Rules.wp_mono h fun result v' _ => finishing _ v'

theorem wp_serve (sound : P.Sound) (valid : Settings.Valid P.settings) (request : Request) :
    (serviceRules P).wp pid (serve P request) ((serviceRules P).Finishing pid) v := by
  cases hmild : request.mild with
  | true =>
    apply Rules.wp_mono (wp_calm valid (only_mild sound request hmild))
    exact fun result v' _ => finishing result v'
  | false =>
    cases request with
    | create body credentials clientIp =>
      exact wp_delivered (wp_asUser valid fun user v' => wp_createSecret sound valid)
    | createFile body credentials clientIp =>
      exact wp_delivered (wp_asUser valid fun user v' => wp_createFileSecret sound valid)
    | updateFile secretId body credentials clientIp =>
      exact wp_delivered (wp_asUser valid fun user v' => wp_updateFileSecret sound valid)
    | _ => cases hmild

theorem discardWork_orderly {w : World} (h : Orderly P w) (pid : ℕ) :
    Orderly P (Auth.discardWork pid w) :=
  ⟨h.distinct, h.drawn, h.blank, h.numbered, h.current, h.intact⟩

theorem discardWork_keeps (k pid : ℕ) (w : World) : Keeps P k w (Auth.discardWork pid w) where
  issued := List.Subset.refl _
  now := le_refl _
  own _ _ h := h
  stored _ := List.prefix_refl _
  follows id _ := .refl P (record id w.db)

theorem serviceRules_valid (sound : P.Sound) (valid : Settings.Valid P.settings) :
    (serviceRules P).Valid (service P) where
  rely_refl := keeps_refl
  rely_trans _ _ _ _ hab hbc := Keeps.trans hab hbc
  start _ request horderly _ :=
    ⟨⟨horderly, fun k _ => Keeps.refl P k _⟩, wp_serve sound valid request⟩
  crash v pid _ horderly _ _ :=
    ⟨discardWork_orderly horderly pid, fun k _ => discardWork_keeps k pid v.shared⟩

/-! ### Runs from a service without secrets -/

/-- No secret was ever stored. -/
structure Unopened (w : World) : Prop where
  distinct : DistinctIds w
  unstored : ∀ entry ∈ w.commits, stores entry.2 = none
  secrets : w.db.secrets.rows = []
  keys : w.db.secretKeys.rows = []
  versions : w.db.secretVersions.rows = []
  policies : w.db.secretAccessPolicies.rows = []
  recipients : w.db.secretRecipients.rows = []
  tracking : w.db.secretTracking.rows = []
  views : w.db.secretViews = []

theorem find_of_rows_nil {ρ κ : Type} [DecidableEq κ] {key : ρ → κ} {t : Table key}
    (h : t.rows = []) (k : κ) : t.find k = none := by simp [Table.find, h]

theorem Unopened.orderly {w : World} (h : Unopened w) : Orderly P w := by
  have hstored : ∀ id, stored id w = [] := by
    intro id
    apply List.filterMap_eq_nil_iff.mpr
    intro entry hentry
    simp [h.unstored entry hentry]
  have hsecret : ∀ id, (record id w.db).secret = none := fun id => find_of_rows_nil h.secrets id
  have htracking : ∀ id, (record id w.db).tracking = none := fun id => find_of_rows_nil h.tracking id
  constructor
  · exact h.distinct
  · exact fun id hused => absurd (hstored id) hused
  · exact fun id _ => ⟨hsecret id, htracking id⟩
  · intro id
    rw [hstored]
    rfl
  · intro id s hs
    simp [hsecret] at hs
  · intro id
    constructor
    · intro _
      exact ⟨fun n => find_of_rows_nil h.keys (id, n), fun n => find_of_rows_nil h.versions (id, n),
        find_of_rows_nil h.policies id, by simp [record, h.recipients]⟩
    · intro s hs
      simp [hsecret] at hs
    · apply Ledger.of_absent _ (hsecret id)
      simp [record, h.views]

/-- What one state of a run leaves to the later ones. -/
def Later (P : Platform) (w w' : World) : Prop :=
  ∀ id, stored id w <+: stored id w' ∧
    (Used w id → Follows P (record id w.db) (record id w'.db))

instance (P : Platform) : IsPreorder World (Later P) where
  refl w id := ⟨List.prefix_refl _, fun _ => .refl P _⟩
  trans a b c hab hbc id := by
    refine ⟨(hab id).1.trans (hbc id).1, fun hused => ?_⟩
    apply ((hab id).2 hused).trans ((hbc id).2 _)
    intro hnone
    have hprefix := (hab id).1
    rw [hnone, List.prefix_nil] at hprefix
    exact hused hprefix

abbrev ServicePool := Pool World Choice Label Request Exn Response

section Reached
variable {w : World} {c c' : ServicePool}

theorem safe_of_run (sound : P.Sound) (valid : Settings.Valid P.settings) (hstart : Unopened w)
    (hrun : (service P).Run (fun _ _ => True) (Pool.init w) c) : Rules.Safe (serviceRules P) c :=
  Rules.Safe.run (serviceRules_valid sound valid) (Rules.safe_init hstart.orderly) hrun

/-- In every state that the service reaches the rows of every secret agree with each other. -/
theorem records_intact (sound : P.Sound) (valid : Settings.Valid P.settings) (hstart : Unopened w)
    (hrun : (service P).Run (fun _ _ => True) (Pool.init w) c) (id : UUID) :
    Intact P id (record id c.shared.db) :=
  (safe_of_run sound valid hstart hrun).inv.intact id

/-- The transactions that stored versions of a secret stored the versions 1, 2, 3, …, each once and
in this order; while the secret is there, these are its rows and the last is the current one. -/
theorem versions_linear (sound : P.Sound) (valid : Settings.Valid P.settings) (hstart : Unopened w)
    (hrun : (service P).Run (fun _ _ => True) (Pool.init w) c) (id : UUID) :
    stored id c.shared = List.range' 1 (stored id c.shared).length ∧
      ∀ s, c.shared.db.secrets.find id = some s →
        s.currentVersion = (stored id c.shared).length ∧
        ∀ n, (c.shared.db.secretVersions.find (id, n)).isSome ↔ n ∈ stored id c.shared := by
  have horderly : Orderly P c.shared := (safe_of_run sound valid hstart hrun).inv
  refine ⟨horderly.numbered id, ?_⟩
  intro s hs
  have hcurrent := horderly.current id s hs
  refine ⟨hcurrent, ?_⟩
  intro n
  rw [horderly.numbered id, List.mem_range'_1, ← hcurrent, Nat.add_comm, Nat.lt_succ_iff]
  exact ((horderly.intact id).whole s hs).history.numbers n

/-- Whatever happens between two states of a run, the record of a secret that was created before the
first only follows from what it was: a removed secret stays away, versions and keys stay and open
as before, counters only grow, and the history on record only gets longer until it is dropped. -/
theorem records_follow (sound : P.Sound) (valid : Settings.Valid P.settings) (hstart : Unopened w)
    (hrun : (service P).Run (fun _ _ => True) (Pool.init w) c)
    (hlater : (service P).Run (fun _ _ => True) c c') (id : UUID) :
    stored id c.shared <+: stored id c'.shared ∧ (stored id c.shared ≠ [] →
      Follows P (record id c.shared.db) (record id c'.shared.db)) := by
  have hsafe := safe_of_run sound valid hstart hrun
  have hlater : Later P c.shared c'.shared := by
    apply hsafe.run_rely (serviceRules_valid sound valid) hlater
    exact fun pid v v' hkeeps id => ⟨hkeeps.stored id, hkeeps.follows id⟩
  exact hlater id

end Reached

section Sample

/-- A user with a session, and the access token that goes with it. -/
def sampleStart : World :=
  worldOf { Database.empty with
    users := sampleUsers
    sessions := ⟨[⟨1, 1, "h", "", none, 0, days 7, false⟩], List.nodup_singleton _⟩ }
    .empty .empty 0

def sampleCredentials : Option String :=
  some (Security.createAccessToken samplePlatform 1 .user 1 2 0)

def actsOf (pid : ℕ) (ids : List UUID) : List (Event Choice Request) :=
  ids.map fun id => .act pid { uuid := id }

def sampleCreation : List (Event Choice Request) :=
  .start (.create { content := "a", maxViews := 3 } sampleCredentials "203.0.113.9") ::
    actsOf 0 [0, 0, 0, 0, 0, 0, 7, 0, 9, 0, 0, 0, 0, 0]

theorem unopened_sample : Unopened sampleStart :=
  ⟨List.nodup_nil, nofun, rfl, rfl, rfl, rfl, rfl, rfl, rfl⟩

theorem settings_sample : Settings.Valid samplePlatform.settings := ⟨by decide, by decide⟩

/-- A secret with a second version. -/
theorem exists_update_sample : ∃ c c' : ServicePool,
    (service samplePlatform).Run (fun _ _ => True) (Pool.init sampleStart) c ∧
      (service samplePlatform).Run (fun _ _ => True) c c' ∧ stored 9 c.shared = [1] ∧
      stored 9 c'.shared = [1, 2] ∧ (c'.shared.db.secrets.find 9).isSome := by
  obtain ⟨c, o, c₂, c', hbefore, hnext, hafter, h⟩ := (service samplePlatform).exists_run_through
    (fun _ _ => True) (Pool.init sampleStart) sampleCreation
    (.start (.update 9 { content := "b", expectedVersion := 1 } sampleCredentials "203.0.113.9"))
    (actsOf 1 [0, 0, 0, 0, 0])
    (fun v _ v' => stored 9 v.shared = [1] && stored 9 v'.shared = [1, 2] &&
      (v'.shared.db.secrets.find 9).isSome)
    (by decide +kernel)
  simp only [Bool.and_eq_true, decide_eq_true_eq] at h
  exact ⟨c, c', hbefore, (System.Run.refl.tail hnext trivial).trans hafter, h.1.1, h.1.2, h.2⟩

theorem records_intact_sample : ∃ c : ServicePool,
    (service samplePlatform).Run (fun _ _ => True) (Pool.init sampleStart) c ∧
      (c.shared.db.secrets.find 9).isSome ∧ Lifecycle.Intact samplePlatform 9 (record 9 c.shared.db) := by
  obtain ⟨c, c', hrun, hlater, _, _, hpresent⟩ := exists_update_sample
  have hrun' := hrun.trans hlater
  exact ⟨c', hrun', hpresent,
    records_intact (Platform.plain_sound _) settings_sample unopened_sample hrun' 9⟩

theorem versions_linear_sample : ∃ c : ServicePool,
    (service samplePlatform).Run (fun _ _ => True) (Pool.init sampleStart) c ∧
      stored 9 c.shared = [1, 2] ∧ ∀ s, c.shared.db.secrets.find 9 = some s → s.currentVersion = 2 := by
  obtain ⟨c, c', hrun, hlater, _, hstored, _⟩ := exists_update_sample
  have hrun' := hrun.trans hlater
  refine ⟨c', hrun', hstored, ?_⟩
  intro s hs
  have hlinear := versions_linear (Platform.plain_sound _) settings_sample unopened_sample hrun' 9
  rw [(hlinear.2 s hs).1, hstored]
  rfl

theorem records_follow_sample : ∃ c c' : ServicePool,
    (service samplePlatform).Run (fun _ _ => True) (Pool.init sampleStart) c ∧
      (service samplePlatform).Run (fun _ _ => True) c c' ∧ stored 9 c'.shared = [1, 2] ∧
      Follows samplePlatform (record 9 c.shared.db) (record 9 c'.shared.db) := by
  obtain ⟨c, c', hrun, hlater, hbefore, hstored, _⟩ := exists_update_sample
  have hused : stored 9 c.shared ≠ [] := hbefore ▸ List.cons_ne_nil 1 []
  exact ⟨c, c', hrun, hlater, hstored, (records_follow (Platform.plain_sound _) settings_sample
    unopened_sample hrun hlater 9).2 hused⟩

end Sample

end PhantomShare.Service
