import PhantomShare.Footprints
import PhantomShare.Foundations.Machine

/-!
# Runs read off the journal

A reading picks the entries of the journal that a development cares about. The
rules below are for systems in which an account of these entries is invariant, a
process writes only entries of its own, and what an answer tells about the
entries of its process stays true.
-/
namespace PhantomShare.Journal
open Foundations

variable {β ρ α : Type}

/-- The entries that a reading picks, each with its process. -/
def entries (read : Label → Option β) (w : World) : List (ℕ × β) :=
  w.commits.filterMap fun entry => (read entry.2).map fun b => (entry.1, b)

def entriesBy (read : Label → Option β) (pid : ℕ) (w : World) : List β :=
  ((entries read w).filter fun entry => entry.1 = pid).map Prod.snd

theorem entries_commit (read : Label → Option β) (w : World) (pid : ℕ) (label : Label)
    (db : Database) : entries read (w.commit pid label db) =
      entries read w ++ ((read label).map fun b => (pid, b)).toList := by
  rw [entries, World.commit_commits, List.filterMap_append, entries]
  cases hread : read label with
  | none => simp [hread]
  | some b => simp [hread]

theorem entriesBy_commit (read : Label → Option β) (k : ℕ) (w : World) (pid : ℕ) (label : Label)
    (db : Database) : entriesBy read k (w.commit pid label db) =
      entriesBy read k w ++ if pid = k then (read label).toList else [] := by
  rw [entriesBy, entries_commit, List.filter_append, List.map_append, entriesBy]
  cases hread : read label with
  | none => simp
  | some b => by_cases hk : pid = k <;> simp [hk]

theorem mem_entriesBy {read : Label → Option β} {pid : ℕ} {b : β} {w : World} :
    b ∈ entriesBy read pid w ↔ (pid, b) ∈ entries read w := by
  simp [entriesBy]

/-- `told` says what an answer to a request tells about the entries of its process. -/
structure Inv (read : Label → Option β) (A : World → Prop)
    (told : ρ → Except Exn α → List β → Prop) (v : View World ρ Exn α) : Prop where
  account : A v.shared
  started : ∀ entry ∈ entries read v.shared, entry.1 < v.tasks.length
  delivered : v.Delivered fun pid request result w => told request result (entriesBy read pid w)

def rules (cond : View World ρ Exn α → Occurrence Label ρ Exn α → Prop) (read : Label → Option β)
    (A : World → Prop) (told : ρ → Except Exn α → List β → Prop) : Rules World Label ρ Exn α where
  cond := cond
  inv := Inv read A told
  rely pid v v' := entriesBy read pid v'.shared = entriesBy read pid v.shared ∧
    v.shared.issued ⊆ v'.shared.issued

/-- A running process and the entries that it has written. -/
structure Wrote (read : Label → Option β) (pid : ℕ) (request : ρ) (bs : List β)
    (v : View World ρ Exn α) : Prop where
  running : v.Running pid request
  entries : entriesBy read pid v.shared = bs

/-- A process that has written no entry yet. -/
structure Silent (read : Label → Option β) (pid : ℕ) (request : ρ) (v : View World ρ Exn α) :
    Prop where
  running : v.Running pid request
  entries : entriesBy read pid v.shared = []

/-- Transactions within the bound keep the account and are not picked by the reading. -/
structure Quiet (read : Label → Option β) (A : World → Prop)
    (K : Label → Database → Database → Prop) : Prop where
  neutral : ∀ pid w w', A w → Neutral pid w w' → A w'
  keep : ∀ pid w record db, A w → K record w.db db → A (w.commit pid record db)
  unread : ∀ record db db', K record db db' → read record = none
  audit : read .auditLog = none

/-- The entries so far are a trace of an abstract machine that ends in a state which the tables
represent. -/
def Refines {σ : Type} (read : Label → Option β) (step : σ → β → σ → Prop)
    (represents : σ → Database → Prop) (s₀ : σ) (w : World) : Prop :=
  ∃ s, Trace step s₀ ((entries read w).map Prod.snd) s ∧ represents s w.db

section Refines
variable {σ : Type} {read : Label → Option β} {step : σ → β → σ → Prop}
  {represents : σ → Database → Prop} {s₀ : σ} {pid : ℕ} {w : World} {record : Label} {db : Database}

theorem Refines.initial (hcommits : w.commits = []) (h : represents s₀ w.db) :
    Refines read step represents s₀ w := by
  refine ⟨s₀, ?_, h⟩
  rw [entries, hcommits]
  exact .nil

/-- A commit that the reading picks is one operation of the machine. -/
theorem Refines.commit {op : β} (h : Refines read step represents s₀ w)
    (hread : read record = some op)
    (hstep : ∀ s, represents s w.db → ∃ s', step s op s' ∧ represents s' db) :
    Refines read step represents s₀ (w.commit pid record db) := by
  rcases h with ⟨s, htrace, hrepresents⟩
  rcases hstep s hrepresents with ⟨s', hs', hrepresents'⟩
  refine ⟨s', ?_, hrepresents'⟩
  rw [entries_commit, hread, List.map_append]
  exact htrace.snoc hs'

/-- A commit that the reading does not pick may change what represents the state. -/
theorem Refines.keep (h : Refines read step represents s₀ w) (hread : read record = none)
    (hkeep : ∀ s, represents s w.db → represents s db) :
    Refines read step represents s₀ (w.commit pid record db) := by
  rcases h with ⟨s, htrace, hrepresents⟩
  refine ⟨s, ?_, hkeep s hrepresents⟩
  rw [entries_commit, hread, Option.map_none, Option.toList_none, List.append_nil]
  exact htrace

end Refines

section Steps
variable {cond : View World ρ Exn α → Occurrence Label ρ Exn α → Prop} {read : Label → Option β}
  {A : World → Prop} {told : ρ → Except Exn α → List β → Prop}
  {K : Label → Database → Database → Prop} {pid : ℕ} {request : ρ} {v v' : View World ρ Exn α}

theorem running_env (h : v.Running pid request) (henv : (rules cond read A told).Env pid v v') :
    v'.Running pid request := henv.2.trans h

theorem Silent.env (h : Silent read pid request v)
    (henv : (rules cond read A told).Env pid v v') : Silent read pid request v' where
  running := running_env h.running henv
  entries := henv.1.1.trans h.entries

theorem Wrote.env {bs : List β} (h : Wrote read pid request bs v)
    (henv : (rules cond read A told).Env pid v v') : Wrote read pid request bs v' where
  running := running_env h.running henv
  entries := henv.1.1.trans h.entries

theorem Silent.wrote (h : Silent read pid request v) : Wrote read pid request [] v :=
  ⟨h.running, h.entries⟩

theorem Wrote.silent (h : Wrote read pid request [] v) : Silent read pid request v :=
  ⟨h.running, h.entries⟩

theorem rely_refl (k : ℕ) (w : View World ρ Exn α) : (rules cond read A told).rely k w w := ⟨rfl, List.Subset.refl _⟩

/-- A step of a running process that keeps the account and writes only entries of its own. -/
theorem moves_of_account {w : World} (hinv : Inv read A told v) (hrun : v.Running pid request)
    (haccount : A w) (hothers : ∀ k, k ≠ pid → entriesBy read k w = entriesBy read k v.shared)
    (howner : ∀ entry ∈ entries read w, entry ∈ entries read v.shared ∨ entry.1 = pid)
    (hissued : v.shared.issued ⊆ w.issued) :
    (rules cond read A told).Moves pid v (v.update w) := by
  refine ⟨⟨haccount, ?_, ?_⟩, fun k hk => ⟨hothers k hk, hissued⟩⟩
  · intro entry hentry
    rcases howner entry hentry with hold | hown
    · exact hinv.started entry hold
    · rw [hown]
      exact hrun.lt
  · apply hinv.delivered.update hrun
    intro k request' result hk htold
    rw [hothers k hk]
    exact htold

theorem moves_commit {record : Label} {db : Database} (hinv : Inv read A told v)
    (hrun : v.Running pid request) (haccount : A (v.shared.commit pid record db)) :
    (rules cond read A told).Moves pid v (v.update (v.shared.commit pid record db)) := by
  apply moves_of_account hinv hrun haccount
  · intro k hk
    rw [entriesBy_commit, if_neg (Ne.symm hk), List.append_nil]
  · intro entry hentry
    rw [entries_commit, List.mem_append] at hentry
    rcases hentry with hold | hnew
    · exact Or.inl hold
    · right
      rw [Option.mem_toList, Option.map_eq_some_iff] at hnew
      rcases hnew with ⟨_, _, rfl⟩
      rfl
  · exact List.Subset.refl _

theorem entries_of_neutral {w w' : World} (haudit : read .auditLog = none)
    (h : Neutral pid w w') : entries read w' = entries read w := by
  rcases h.commits with hcommits | hcommits
  · rw [entries, hcommits, entries]
  · rw [entries, hcommits, List.filterMap_append, entries]
    simp [haudit]

theorem Refines.neutral {σ : Type} {step : σ → β → σ → Prop} {represents : σ → Database → Prop}
    {s₀ : σ} {w w' : World} (h : Refines read step represents s₀ w) (hneutral : Neutral pid w w')
    (haudit : read .auditLog = none)
    (hlogs : ∀ s db logs, represents s db → represents s { db with auditLogs := logs }) :
    Refines read step represents s₀ w' := by
  rcases h with ⟨s, htrace, hrepresents⟩
  rcases hneutral.db with ⟨logs, hdb⟩
  refine ⟨s, ?_, ?_⟩
  · rw [entries_of_neutral haudit hneutral]
    exact htrace
  · rw [hdb]
    exact hlogs s _ logs hrepresents

theorem entriesBy_of_neutral {w w' : World} (k : ℕ) (haudit : read .auditLog = none)
    (h : Neutral pid w w') : entriesBy read k w' = entriesBy read k w := by
  rw [entriesBy, entries_of_neutral haudit h, entriesBy]

theorem moves_quiet_wrote (quiet : Quiet read A K) {w : World} {label : Label} {bs : List β}
    (hinv : Inv read A told v) (h : Wrote read pid request bs v)
    (htouches : Touches K pid label v.shared w) :
    (rules cond read A told).Moves pid v (v.update w) ∧ Wrote read pid request bs (v.update w) := by
  rcases htouches with hneutral | ⟨record, db, hK, rfl⟩
  · constructor
    · apply moves_of_account hinv h.running (quiet.neutral _ _ _ hinv.account hneutral)
      · intro k _
        exact entriesBy_of_neutral k quiet.audit hneutral
      · intro entry hentry
        rw [entries_of_neutral quiet.audit hneutral] at hentry
        exact Or.inl hentry
      · exact hneutral.issued_subset
    · exact ⟨h.running, (entriesBy_of_neutral pid quiet.audit hneutral).trans h.entries⟩
  · constructor
    · exact moves_commit hinv h.running (quiet.keep _ _ _ _ hinv.account hK)
    · refine ⟨h.running, ?_⟩
      rw [View.update_shared, entriesBy_commit, quiet.unread _ _ _ hK, h.entries]
      simp

/-- Quiet steps leave the entries of their process as they are, and forget no drawn UUID. -/
theorem wp_quiet_wrote (quiet : Quiet read A K) {γ : Type} {p : Handler γ} {bs : List β}
    (hp : p.Only (Touches K)) (h : Wrote read pid request bs v) :
    (rules cond read A told).wp pid p (fun _ v' => Wrote read pid request bs v' ∧
      v.shared.issued ⊆ v'.shared.issued) v := by
  apply Rules.wp_only hp
  · intro v₁ v₂ h₁ henv _
    exact ⟨h₁.1.env henv, List.Subset.trans h₁.2 henv.1.2⟩
  · intro v₁ label w hinv h₁ _ htouches
    have hmoves : (rules cond read A told).Moves pid v₁ (v₁.update w) ∧ _ :=
      moves_quiet_wrote quiet hinv h₁.1 htouches
    refine ⟨hmoves.1, hmoves.2, List.Subset.trans h₁.2 ?_⟩
    rcases htouches with hneutral | ⟨record, db, _, rfl⟩
    · exact hneutral.issued_subset
    · exact List.Subset.refl _
  · exact ⟨h, List.Subset.refl _⟩

theorem wp_quiet (quiet : Quiet read A K) {γ : Type} {p : Handler γ} (hp : p.Only (Touches K))
    (h : Silent read pid request v) :
    (rules cond read A told).wp pid p (fun _ v' => Silent read pid request v') v := by
  apply Rules.wp_mono (wp_quiet_wrote quiet hp h.wrote)
  intro _ v' h'
  exact ⟨h'.1.running, h'.1.entries⟩

theorem wp_quiet_bind (quiet : Quiet read A K) {γ δ : Type} {p : Handler γ} {f : γ → Handler δ}
    {Q : Except Exn δ → View World ρ Exn α → Prop} (hp : p.Only (Touches K))
    (h : Silent read pid request v)
    (herror : ∀ error v', Silent read pid request v' → Q (.error error) v')
    (hok : ∀ value v', Silent read pid request v' → (rules cond read A told).wp pid (f value) Q v') :
    (rules cond read A told).wp pid (p >>= f) Q v := by
  apply Rules.wp_bind
  apply Rules.wp_mono (wp_quiet quiet hp h)
  intro result v' h'
  cases result with
  | error error => exact herror error v' h'
  | ok value => exact hok value v' h'

/-- The one entry of a process. -/
theorem Silent.written {record : Label} {db : Database} {b : β} (h : Silent read pid request v)
    (hrecord : read record = some b) : entriesBy read pid (v.shared.commit pid record db) = [b] := by
  rw [entriesBy_commit, hrecord, h.entries]
  simp

theorem inv_setPhase {phase : Phase Unit Exn α} (hinv : Inv read A told v)
    (hrun : v.Running pid request)
    (htold : ∀ result, phase = .finished result →
      told request result (entriesBy read pid v.shared)) :
    Inv read A told (v.setPhase pid phase) where
  account := hinv.account
  started := by
    rw [View.setPhase_length]
    exact hinv.started
  delivered := hinv.delivered.setPhase hrun htold

theorem finishing {result : Except Exn α} (hrun : v.Running pid request)
    (htold : told request result (entriesBy read pid v.shared)) :
    (rules cond read A told).Finishing pid result v := by
  intro v₁ henv hinv _
  refine ⟨inv_setPhase hinv (running_env hrun henv) ?_, fun k _ => ⟨rfl, List.Subset.refl _⟩⟩
  intro result' hresult
  cases hresult
  rw [henv.1.1]
  exact htold

/-- The answer of a request may be delivered: what it tells about the entries is so. -/
def Ready (read : Label → Option β) (told : ρ → Except Exn α → List β → Prop) (pid : ℕ)
    (request : ρ) {γ : Type} (f : γ → α) (result : Except Exn γ) (v : View World ρ Exn α) : Prop :=
  v.Running pid request ∧ told request (result.map f) (entriesBy read pid v.shared)

theorem Wrote.ready {γ : Type} {f : γ → α} {result : Except Exn γ} {bs : List β}
    (h : Wrote read pid request bs v) (htold : told request (result.map f) bs) :
    Ready read told pid request f result v :=
  ⟨h.running, h.entries.symm ▸ htold⟩

theorem wp_ready {γ : Type} {f : γ → α} {p : Handler γ}
    (h : (rules cond read A told).wp pid p (Ready read told pid request f) v) :
    (rules cond read A told).wp pid (f <$> p) ((rules cond read A told).Finishing pid) v := by
  apply Rules.wp_map
  apply Rules.wp_mono h
  intro result v' hready
  cases result with
  | ok value => exact finishing hready.1 hready.2
  | error error => exact finishing hready.1 hready.2

/-- Quiet steps before the rest of a request. -/
theorem wp_quiet_then (quiet : Quiet read A K) {γ δ : Type} {p : Handler γ} {f : γ → Handler δ}
    {Q : Except Exn δ → View World ρ Exn α → Prop} {bs : List β} (hp : p.Only (Touches K))
    (h : Wrote read pid request bs v)
    (herror : ∀ error v', Wrote read pid request bs v' → Q (.error error) v')
    (hok : ∀ value v', Wrote read pid request bs v' → v.shared.issued ⊆ v'.shared.issued →
      (rules cond read A told).wp pid (f value) Q v') :
    (rules cond read A told).wp pid (p >>= f) Q v := by
  apply Rules.wp_bind
  apply Rules.wp_mono (wp_quiet_wrote quiet hp h)
  intro result v' h'
  cases result with
  | error error => exact herror error v' h'.1
  | ok value => exact hok value v' h'.1 h'.2

/-- A drawn UUID stands in `issued` under its process. -/
theorem wp_uuid4_then (quiet : Quiet read A K) {δ : Type} {f : UUID → Handler δ}
    {Q : Except Exn δ → View World ρ Exn α → Prop} {bs : List β}
    (h : Wrote read pid request bs v)
    (hok : ∀ id v', Wrote read pid request bs v' → (id, pid) ∈ v'.shared.issued →
      (rules cond read A told).wp pid (f id) Q v') :
    (rules cond read A told).wp pid (uuid4 >>= f) Q v := by
  apply wp_uuid4_bind
  intro v₁ henv hinv id hfresh
  have htouches : Touches K pid .uuid4 v₁.shared (v₁.shared.issue id pid) :=
    Or.inl ⟨⟨_, rfl⟩, rfl, Or.inr ⟨id, hfresh, rfl⟩, Or.inl rfl⟩
  have hmoves : (rules cond read A told).Moves pid v₁ (v₁.update (v₁.shared.issue id pid)) ∧ _ :=
    moves_quiet_wrote quiet hinv (h.env henv) htouches
  exact ⟨hmoves.1, hok id _ hmoves.2 (by simp)⟩

/-- An audit entry of its own never raises. -/
theorem wp_auditLog_then (quiet : Quiet read A K) {δ : Type} {entry : AuditService.Entry}
    {f : Unit → Handler δ} {Q : Except Exn δ → View World ρ Exn α → Prop} {bs : List β}
    (h : Wrote read pid request bs v)
    (hok : ∀ v', Wrote read pid request bs v' → (rules cond read A told).wp pid (f ()) Q v') :
    (rules cond read A told).wp pid (AuditService.log entry >>= f) Q v := by
  apply wp_auditLog_bind rely_refl
  intro v₁ henv hinv
  have h₁ := h.env henv
  refine ⟨hok v₁ h₁, ?_⟩
  intro logs
  have htouches : Touches K pid .auditLog v₁.shared
      (v₁.shared.commit pid .auditLog { v₁.shared.db with auditLogs := logs }) :=
    Or.inl ⟨⟨logs, rfl⟩, rfl, Or.inl rfl, Or.inr rfl⟩
  have hmoves : (rules cond read A told).Moves pid v₁ (v₁.update
      (v₁.shared.commit pid .auditLog { v₁.shared.db with auditLogs := logs })) ∧ _ :=
    moves_quiet_wrote quiet hinv h₁ htouches
  exact ⟨hmoves.1, hok _ hmoves.2⟩

/-- The transaction of a request that has written nothing: one that raises or rolls back writes
nothing either, and one that commits writes its entry. -/
theorem wp_recorded {γ : Type} {label : Label} {body : Choice → Timestamp → Tx Database Exn γ}
    {record : γ → Label} {Q : Except Exn γ → View World ρ Exn α → Prop}
    (h : Wrote read pid request [] v)
    (htx : ∀ v₁, (rules cond read A told).Env pid v v₁ → Inv read A told v₁ →
      cond v₁ (.performed pid label) → Wrote read pid request [] v₁ →
      (∀ error, Q (.error error) v₁) ∧
      ∀ choice value committed,
        (body choice v₁.shared.now).run v₁.shared.db = .ok (value, committed) →
        match committed with
        | none => Q (.ok value) v₁
        | some db => ∃ op, read (record value) = some op ∧
            A (v₁.shared.commit pid (record value) db) ∧
            ∀ v₂, Wrote read pid request [op] v₂ → Q (.ok value) v₂) :
    (rules cond read A told).wp pid (transaction label body record) Q v := by
  apply wp_transaction rely_refl
  intro v₁ henv hinv hcond
  have h₁ := h.env henv
  have hcases := htx v₁ henv hinv hcond h₁
  refine ⟨hcases.1, ?_⟩
  intro choice value committed hrun
  have hcase := hcases.2 choice value committed hrun
  cases committed with
  | none => exact hcase
  | some db =>
    rcases hcase with ⟨op, hread, haccount, hrest⟩
    refine ⟨moves_commit hinv h₁.running haccount, hrest _ ⟨h₁.running, ?_⟩⟩
    rw [View.update_shared, entriesBy_commit, hread, h₁.entries]
    simp

theorem inv_start (hinv : Inv read A told v) (request : ρ) : Inv read A told (v.start request) where
  account := hinv.account
  started := by
    intro entry hentry
    rw [View.start_length]
    exact Nat.lt_succ_of_lt (hinv.started entry hentry)
  delivered := hinv.delivered.start request

theorem silent_start (hinv : Inv read A told v) (request : ρ) :
    Silent read v.tasks.length request (v.start request) where
  running := View.start_running v request
  entries := by
    rw [entriesBy, List.map_eq_nil_iff, List.filter_eq_nil_iff]
    intro entry hentry howner
    have hlt := hinv.started entry hentry
    simp only [decide_eq_true_eq] at howner
    omega

/-- What is left to prove of a system: each request, from its start to its answer. -/
theorem valid_of_requests {S : System World Choice Label ρ Exn α} (hrecover : ∀ k w, S.recover k w = w)
    (h : ∀ (pid : ℕ) (request : ρ) (v₀ v : View World ρ Exn α), cond v₀ (.started request) →
      Silent read pid request v →
      (rules cond read A told).wp pid (S.serve request) ((rules cond read A told).Finishing pid) v) :
    (rules cond read A told).Valid S where
  rely_refl := rely_refl
  rely_trans _ _ _ _ hab hbc := ⟨hbc.1.trans hab.1, List.Subset.trans hab.2 hbc.2⟩
  start v request hinv hcond :=
    ⟨⟨inv_start hinv request, fun k _ => ⟨rfl, List.Subset.refl _⟩⟩, h _ request v _ hcond (silent_start hinv request)⟩
  crash v pid request hinv hrun _ := by
    rw [hrecover]
    refine ⟨inv_setPhase hinv hrun ?_, fun k _ => ⟨rfl, List.Subset.refl _⟩⟩
    intro result hresult
    cases hresult

theorem inv_initial {w : World} (hcommits : w.commits = []) (haccount : A w) :
    Inv read A told ⟨w, []⟩ := by
  refine ⟨haccount, ?_, ?_⟩
  · rw [entries, hcommits]
    simp
  · intro pid request result hget
    simp at hget

end Steps
end PhantomShare.Journal
