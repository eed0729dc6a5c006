import PhantomShare.Audit.Twins
import PhantomShare.PlainPlatform
import PhantomShare.Routers.Listings

/-!
# The severity of audit entries

`log` puts the severity of an entry into its metadata only, while `audit_logs` filters
and shows the column, which has its default in every row. What the endpoint selects is
what was logged exactly when no call that the other filters admit had another severity
than `info` to show, or one to be found by.
-/
namespace PhantomShare.Audit
open Foundations AuditService Listings

/-- The three ways to write an entry. -/
inductive Call where
  | log (entry : Entry)
  | logWarning (entry : Entry)
  | logCritical (entry : Entry)

namespace Call

def run : Call → Timestamp → Tx Database Exn Unit
  | log entry => logWith entry
  | logWarning entry => logWarningWith entry
  | logCritical entry => logCriticalWith entry

/-- The arguments of a call, with the severity that it logs. -/
def entry : Call → Entry
  | log entry => entry
  | logWarning entry => { entry with severity := "warning" }
  | logCritical entry => { entry with severity := "critical" }

theorem run_eq (call : Call) (now : Timestamp) : call.run now = logWith call.entry now := by
  cases call <;> rfl

/-- A call that succeeds appends its row. -/
theorem run_ok {call : Call} {now : Timestamp} {db db' : Database}
    (h : call.run now ⟨db, false⟩ = (.ok (), ⟨db', false⟩)) :
    call.entry.insert now db = .ok db' := by
  rw [run_eq] at h
  rcases Tx.quietly_write_ok h with ⟨hfailed, _⟩ | ⟨_, _, hinsert⟩
  · cases hfailed
  · exact hinsert

end Call

/-- The successful calls since the audit log was empty. Between them the other tables may change. -/
inductive History : List Call → Database → Prop
  | start {db : Database} (h : db.auditLogs = []) : History [] db
  | call {calls : List Call} {db db' : Database} (call : Call) (now : Timestamp)
      (past : History calls db) (h : call.run now ⟨db, false⟩ = (.ok (), ⟨db', false⟩)) :
      History (calls ++ [call]) db'
  | other {calls : List Call} {db db' : Database} (past : History calls db)
      (h : db'.auditLogs = db.auditLogs) : History calls db'

/-- The columns of a row that the filters and the calls have in common. -/
structure Logged where
  action : String
  severity : String
  actorId : Option UUID
  secretId : Option UUID
  deriving DecidableEq, Repr

def severityText : AuditSeverity → String
  | .info => "info"
  | .warning => "warning"
  | .critical => "critical"

theorem severityOfText_text (severity : AuditSeverity) :
    severityOfText (severityText severity) = some severity := by
  cases severity <;> rfl

def loggedRow (row : AuditLog) : Logged :=
  ⟨row.action, severityText row.severity, row.actorId, row.secretId⟩

def loggedItem (item : AuditLogItem) : Logged :=
  ⟨item.action, severityText item.severity, item.actorId, item.secretId⟩

def loggedEntry (entry : Entry) : Logged :=
  ⟨entry.action, entry.severity, entry.actorId, entry.secretId⟩

/-- The filters other than that on the severity, on the arguments of a call. -/
def admits (f : AuditFilter) (entry : Entry) : Bool :=
  (given f.action).all (fun wanted => entry.action = wanted) &&
    f.actorId.all (fun wanted => entry.actorId = some wanted) &&
    f.secretId.all fun wanted => entry.secretId = some wanted

/-- All filters, on the arguments of a call. -/
def matchesCall (f : AuditFilter) (entry : Entry) : Bool :=
  admits f entry && (given f.severity).all fun wanted => entry.severity = wanted

/-- The rows that `audit_logs` selects, over all pages. -/
def selected (f : AuditFilter) (db : Database) : List AuditLogItem :=
  match f.conditions with
  | .ok condition => ((auditRows db).filter fun row => condition row.1).map auditLogItem
  | .error _ => []

/-! ### The rows of a history -/

/-- What the log keeps of a call. -/
def kept (call : Call) : Logged := { loggedEntry call.entry with severity := "info" }

theorem History.action_mem {calls : List Call} {db : Database} (h : History calls db) :
    ∀ call ∈ calls, call.entry.action ∈ Database.auditActions := by
  induction h with
  | start => simp
  | @call calls db db' call now past hrun ih =>
    have hinsert := Call.run_ok hrun
    rcases FileCrypto.bind_eq_ok.mp hinsert with ⟨_, haction, _⟩
    have hmem : call.entry.action ∈ Database.auditActions := by simpa using require_ok haction
    intro other hother
    rcases List.mem_append.mp hother with hpast | hlast
    · exact ih other hpast
    · rw [List.mem_singleton.mp hlast]
      exact hmem
  | other _ _ ih => exact ih

theorem History.rows {calls : List Call} {db : Database} (h : History calls db) :
    db.auditLogs.map loggedRow = calls.map kept := by
  induction h with
  | start h => simp [h]
  | @call calls db db' call now past hrun ih =>
    rw [insert_ok (Call.run_ok hrun), List.map_append, List.map_append, ih]
    rfl
  | other _ h ih => rw [h, ih]

/-! ### What is selected -/

/-- The conditions of the query on the columns that the calls know. -/
def condition (f : AuditFilter) (logged : Logged) : Bool :=
  (given f.action).all (fun wanted => logged.action = wanted) &&
    (given f.severity).all (fun wanted => logged.severity = wanted) &&
    f.actorId.all (fun wanted => logged.actorId = some wanted) &&
    f.secretId.all fun wanted => logged.secretId = some wanted

theorem castAction_ok {text action : String} (h : castAction text = .ok action) :
    text ∈ Database.auditActions ∧ action = text := by
  rw [castAction] at h
  split at h
  · rename_i hcontains
    exact ⟨by simpa using hcontains, (Except.ok.inj h).symm⟩
  · cases h

theorem severityOfText_some {text : String} {severity : AuditSeverity}
    (h : severityOfText text = some severity) : text = severityText severity := by
  unfold severityOfText at h
  split at h <;> cases h <;> rfl

theorem castSeverity_ok {text : String} {severity : AuditSeverity}
    (h : castSeverity text = .ok severity) : text = severityText severity := by
  rw [castSeverity] at h
  split at h
  · rename_i hsome
    cases h
    exact severityOfText_some hsome
  · cases h

theorem severityText_injective : Function.Injective severityText := by
  intro a b h
  have hsome := severityOfText_text a
  rw [h, severityOfText_text] at hsome
  exact (Option.some.inj hsome).symm

/-- A cast of a parameter that may be absent. -/
theorem mapM_ok {α β : Type} {cast : α → Except Exn β} {parameter : Option α} {result : Option β}
    (h : parameter.mapM cast = .ok result) :
    (parameter = none ∧ result = none) ∨
      ∃ a b, parameter = some a ∧ cast a = .ok b ∧ result = some b := by
  cases parameter with
  | none => exact Or.inl ⟨rfl, (Except.ok.inj h).symm⟩
  | some a =>
    rcases FileCrypto.bind_eq_ok.mp h with ⟨b, hcast, hb⟩
    exact Or.inr ⟨a, b, rfl, hcast, (Except.ok.inj hb).symm⟩

theorem mapM_error {α β : Type} {cast : α → Except Exn β} {parameter : Option α} {error : Exn}
    (h : parameter.mapM cast = .error error) : ∃ a, parameter = some a ∧ cast a = .error error := by
  cases parameter with
  | none => cases h
  | some a =>
    cases hcast : cast a with
    | ok b =>
      change (cast a >>= fun b => pure (some b)) = .error error at h
      rw [hcast] at h
      cases h
    | error other =>
      change (cast a >>= fun b => pure (some b)) = .error error at h
      rw [hcast] at h
      cases h
      exact ⟨a, rfl, hcast⟩

theorem conditions_ok {f : AuditFilter} {holds : AuditLog → Bool} (h : f.conditions = .ok holds)
    (row : AuditLog) : holds row = condition f (loggedRow row) := by
  rcases FileCrypto.bind_eq_ok.mp h with ⟨action, haction, h⟩
  rcases FileCrypto.bind_eq_ok.mp h with ⟨severity, hseverity, h⟩
  cases h
  have hsame : action = given f.action := by
    rcases mapM_ok haction with ⟨hnone, rfl⟩ | ⟨text, other, hsome, hcast, rfl⟩
    · exact hnone.symm
    · rw [hsome, (castAction_ok hcast).2]
  have hall : severity.all (fun wanted => row.severity = wanted) =
      (given f.severity).all fun wanted => severityText row.severity = wanted := by
    rcases mapM_ok hseverity with ⟨hnone, rfl⟩ | ⟨text, wanted, hsome, hcast, rfl⟩
    · rw [hnone]
      rfl
    · rw [hsome, castSeverity_ok hcast]
      simp [severityText_injective.eq_iff]
  subst hsame
  rw [condition]
  beta_reduce
  rw [hall]
  rfl

/-- A parameter that is not of its enumeration matches no call. -/
theorem conditions_error {f : AuditFilter} {error : Exn} (h : f.conditions = .error error)
    {call : Call} (haction : call.entry.action ∈ Database.auditActions) :
    condition f (kept call) = false := by
  cases haction' : (given f.action).mapM castAction with
  | error other =>
    rcases mapM_error haction' with ⟨text, hsome, hcast⟩
    have hne : call.entry.action ≠ text := by
      rintro rfl
      rw [castAction, if_pos (by simpa using haction)] at hcast
      cases hcast
    simp [condition, kept, loggedEntry, hsome, hne]
  | ok action =>
    cases hseverity : (given f.severity).mapM castSeverity with
    | error other =>
      rcases mapM_error hseverity with ⟨text, hsome, hcast⟩
      have hne : "info" ≠ text := by
        rintro rfl
        cases hcast
      simp [condition, kept, loggedEntry, hsome, hne]
    | ok severity =>
      rw [AuditFilter.conditions, haction'] at h
      change ((given f.severity).mapM castSeverity >>= _) = _ at h
      rw [hseverity] at h
      cases h

theorem selected_logged {calls : List Call} {db : Database} (h : History calls db)
    (f : AuditFilter) :
    (selected f db).map loggedItem = (calls.map kept).filter (condition f) := by
  cases hconditions : f.conditions with
  | error error =>
    have hnone : (calls.map kept).filter (condition f) = [] := by
      rw [List.filter_eq_nil_iff]
      intro logged hlogged
      obtain ⟨call, hcall, rfl⟩ := List.mem_map.mp hlogged
      simp [conditions_error hconditions (h.action_mem call hcall)]
    rw [selected, hconditions, hnone]
    rfl
  | ok holds =>
    have hrow : (fun row : AuditLog × ℕ => holds row.1) =
        (condition f ∘ loggedRow) ∘ Prod.fst := by
      funext row
      exact conditions_ok hconditions row.1
    have hitem : loggedItem ∘ auditLogItem = loggedRow ∘ Prod.fst := rfl
    rw [selected, hconditions]
    change (((auditRows db).filter fun row => holds row.1).map auditLogItem).map loggedItem = _
    rw [List.map_map, hitem, hrow, ← List.map_map, ← List.filter_map, auditRows,
      List.zipIdx_map_fst, ← List.filter_map, h.rows]

/-- What the endpoint selects is what was logged with matching arguments. -/
def Survives (f : AuditFilter) (calls : List Call) (db : Database) : Prop :=
  (selected f db).map loggedItem =
    (calls.filter fun call => matchesCall f call.entry).map (loggedEntry ∘ Call.entry)

/-- The filter on the severity, on the column of every row. -/
theorem condition_kept (f : AuditFilter) (call : Call) :
    condition f (kept call) =
      (admits f call.entry && (given f.severity).all fun wanted => "info" = wanted) := by
  simp only [condition, kept, loggedEntry, admits]
  grind

theorem survives_iff {calls : List Call} {db : Database} (h : History calls db)
    (f : AuditFilter) :
    Survives f calls db ↔ ((calls.filter (condition f ∘ kept)).map kept =
      (calls.filter fun call => matchesCall f call.entry).map (loggedEntry ∘ Call.entry)) := by
  rw [Survives, selected_logged h, List.filter_map]

/-- Of calls with the severity `info` nothing is lost. -/
theorem kept_eq_iff (call : Call) :
    kept call = loggedEntry call.entry ↔ call.entry.severity = "info" := by
  simp [kept, loggedEntry, eq_comm]

theorem map_kept_iff (calls : List Call) :
    calls.map kept = calls.map (loggedEntry ∘ Call.entry) ↔
      ∀ call ∈ calls, call.entry.severity = "info" := by
  rw [List.map_inj_left]
  exact forall₂_congr fun call _ => kept_eq_iff call

/-- What `audit_logs` selects of a history is what was logged with matching arguments exactly when,
among the calls that the other filters admit, those to be shown have the severity `info` and no other
has the severity asked for. -/
theorem severity_survives_iff {calls : List Call} {db : Database} (h : History calls db)
    (f : AuditFilter) :
    Survives f calls db ↔ ∀ call ∈ calls, admits f call.entry = true →
      match given f.severity with
      | none => call.entry.severity = "info"
      | some wanted => call.entry.severity = wanted ↔ wanted = "info" := by
  have hcondition : condition f ∘ kept = fun call =>
      admits f call.entry && (given f.severity).all fun wanted => "info" = wanted :=
    funext (condition_kept f)
  rw [survives_iff h, hcondition]
  simp only [matchesCall]
  cases given f.severity with
  | none =>
    simp only [Option.all_none, Bool.and_true]
    rw [map_kept_iff]
    simp only [List.mem_filter, and_imp]
  | some wanted =>
    by_cases hinfo : wanted = "info"
    · subst hinfo
      simp only [Option.all_some, decide_true, Bool.and_true, iff_true]
      -- every admitted call is selected, those with the severity `info` should be
      have hfilter : (calls.filter fun call => admits f call.entry && call.entry.severity = "info") =
          (calls.filter fun call => admits f call.entry).filter
            fun call => call.entry.severity = "info" := by
        rw [List.filter_filter]
        congr 1
        funext call
        exact Bool.and_comm _ _
      rw [hfilter]
      constructor
      · intro hsame call hcall hadmits
        have hlength := congrArg List.length hsame
        rw [List.length_map, List.length_map] at hlength
        have hall := List.length_filter_eq_length_iff.mp hlength.symm
        simpa using hall call (List.mem_filter.mpr ⟨hcall, hadmits⟩)
      · intro hall
        have hmem : ∀ call ∈ calls.filter fun call => admits f call.entry,
            call.entry.severity = "info" := by
          intro call hcall
          exact hall call (List.mem_filter.mp hcall).1 (List.mem_filter.mp hcall).2
        rw [List.filter_eq_self.mpr fun call hcall => decide_eq_true (hmem call hcall)]
        exact (map_kept_iff _).mpr hmem
    · have hne : "info" ≠ wanted := Ne.symm hinfo
      simp only [Option.all_some, hne, hinfo, decide_false, Bool.and_false, iff_false]
      rw [List.filter_eq_nil_iff.mpr (by simp), List.map_nil, eq_comm, List.map_eq_nil_iff,
        List.filter_eq_nil_iff]
      simp

section Sample

/-- The warning of a cleanup that an administrator starts. -/
def sampleWarning : Call := .logWarning { action := "admin_cleanup", actorId := some 1 }

def sampleInfo : Call := .log { action := "user_login", actorId := some 1 }

def unlogged : Database := { Database.empty with users := sampleUsers }

def afterCall (call : Call) (db : Database) : Database :=
  { db with auditLogs := db.auditLogs ++ [call.entry.row 0] }

theorem sampleInfo_run : sampleInfo.run 0 ⟨afterCall sampleWarning unlogged, false⟩ =
    (.ok (), ⟨afterCall sampleInfo (afterCall sampleWarning unlogged), false⟩) := rfl

theorem sampleWarning_run : sampleWarning.run 0 ⟨unlogged, false⟩ =
    (.ok (), ⟨afterCall sampleWarning unlogged, false⟩) := rfl

/-- A login after the warning of a cleanup, selected by its action. -/
theorem severity_survives_sample :
    Survives { action := some "user_login" } [sampleWarning, sampleInfo]
      (afterCall sampleInfo (afterCall sampleWarning unlogged)) := by
  apply (severity_survives_iff (.call sampleInfo 0 (.call sampleWarning 0 (.start rfl)
    sampleWarning_run) sampleInfo_run) _).mpr
  intro call hcall hadmits
  rcases List.mem_pair.mp hcall with rfl | rfl
  · cases hadmits
  · rfl

/-- A warning is not found under its severity. -/
theorem warning_lost :
    History [sampleWarning] (afterCall sampleWarning unlogged) ∧
    selected { severity := some "warning" } (afterCall sampleWarning unlogged) = [] ∧
    ¬ Survives { severity := some "warning" } [sampleWarning] (afterCall sampleWarning unlogged) := by
  refine ⟨.call sampleWarning 0 (.start rfl) sampleWarning_run, rfl, ?_⟩
  unfold Survives
  decide +kernel

end Sample
end PhantomShare.Audit
