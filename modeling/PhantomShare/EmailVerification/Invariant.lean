import PhantomShare.EmailVerification.Record
import PhantomShare.Foundations.RelyGuarantee

/-!
# What open transactions may commit

At any time, the work of an open transaction is one that keeps the record when it is
committed: a request has sealed a code of its own that nobody stored, a confirmation
has found the challenge whose hash its code has. The rows that this rests on are
locked, so it stays true until the transaction ends.
-/
namespace PhantomShare.EmailVerification
open Foundations Transactions

abbrev AuthView := View AuthWorld AuthRequest Exn AuthResponse

/-- What a confirmation relies on when it redeems a code. -/
structure Redemption (P : Platform) (v : AuthView) (pid : ℕ) (row : Challenge) (code : String)
    (time : Timestamp) : Prop where
  request : v.Running pid (.confirm row.userId code)
  found : v.shared.tables.challenges.find row.userId = some row
  hash : row.tokenHash = P.sha256Hex code
  inTime : time < row.expiresAt
  email : ∃ user, v.shared.tables.users.find row.userId = some user ∧
    citextEq row.email user.email = true

/-- Registers an unverified user, or removes something. -/
def Effect.Mild : Effect → Prop
  | .register row => row.isVerified = false
  | .removeUser _ | .removeChallenge _ => True
  | _ => False

/-- What process `pid` may have done in its open transaction. -/
inductive Backed (P : Platform) (v : AuthView) (pid : ℕ) : List Effect → Prop
  | mild {es : List Effect} (h : ∀ e ∈ es, e.Mild) : Backed P v pid es
  | store {row : Challenge} {code : String} (sealing : Sealed P row code)
      (issued : (code, pid) ∈ v.shared.codes) (unwritten : ∀ e, (pid, e) ∉ v.shared.store.history) :
      Backed P v pid [.store row code]
  | redeem {row : Challenge} {code : String} {time : Timestamp} {rest : List Effect}
      (redemption : Redemption P v pid row code time) (hrest : ∀ e ∈ rest, e = .verify row.userId) :
      Backed P v pid (.redeem row code time :: rest)

/-- Nothing of the process is committed, open or locked. -/
structure Untouched (pid : ℕ) (s : Transactions Row Effect Tables) : Prop where
  unwritten : ∀ e, (pid, e) ∉ s.history
  own : s.own pid = []
  unlocked : ∀ row, (row, pid) ∉ s.locks

/-- What an answer tells about the record. -/
def Told {γ : Type} (pid : ℕ) :
    AuthRequest → Except Exn γ → Transactions Row Effect Tables → Prop
  | .confirm _ code, .ok _, s => ∃ row time, (pid, .redeem row code time) ∈ s.history
  | .request _, .error error, s => error = mailFailed → Untouched pid s
  | _, _, _ => True

structure Inv (P : Platform) (v : AuthView) : Prop where
  locked : Locked lockedRows v.shared.store
  codes : (v.shared.codes.map Prod.fst).Nodup
  record : Record P v.shared.codes v.shared.store.history v.shared.tables
  backed : ∀ pid, Backed P v pid (v.shared.store.own pid)
  running : ∀ row pid, (row, pid) ∈ v.shared.store.locks → ∃ request, v.Running pid request
  known : ∀ pid e, (pid, e) ∈ v.shared.store.history → pid < v.tasks.length
  delivered : v.Delivered fun pid request result w => Told pid request result w.store

/-- What the others leave to a process. -/
structure Rely (pid : ℕ) (w w' : AuthWorld) : Prop where
  undisturbed : Undisturbed lockedRows pid w.store w'.store
  codes : w.codes ⊆ w'.codes

theorem Rely.refl (pid : ℕ) (w : AuthWorld) : Rely pid w w :=
  ⟨Undisturbed.refl pid w.store, List.Subset.refl _⟩

theorem Rely.trans {pid : ℕ} {a b c : AuthWorld} (hab : Rely pid a b) (hbc : Rely pid b c) :
    Rely pid a c :=
  ⟨hab.undisturbed.trans hbc.undisturbed, List.Subset.trans hab.codes hbc.codes⟩

def authRules (P : Platform) : Rules AuthWorld AuthLabel AuthRequest Exn AuthResponse where
  cond _ _ := True
  inv := Inv P
  rely pid v v' := Rely pid v.shared v'.shared

section Stability
variable {P : Platform} {v v' : AuthView} {pid : ℕ} {es : List Effect}

theorem find_user_of_lock {id : UUID} (hlock : (.user id, pid) ∈ v.shared.store.locks)
    (h : Rely pid v.shared v'.shared) :
    v'.shared.tables.users.find id = v.shared.tables.users.find id :=
  (h.undisturbed.rows _ hlock).symm

theorem find_challenge_of_lock {userId : UUID}
    (hlock : (.challenge userId, pid) ∈ v.shared.store.locks) (h : Rely pid v.shared v'.shared) :
    v'.shared.tables.challenges.find userId = v.shared.tables.challenges.find userId :=
  (h.undisturbed.rows _ hlock).symm

theorem Backed.env (h : Backed P v pid es) (hlocked : Locked lockedRows v.shared.store)
    (hown : v.shared.store.own pid = es) (hrely : Rely pid v.shared v'.shared)
    (htask : v'.tasks[pid]? = v.tasks[pid]?) : Backed P v' pid es := by
  cases h with
  | mild h => exact .mild h
  | store sealing issued unwritten =>
    apply Backed.store sealing (hrely.codes issued)
    intro e hmem
    exact unwritten e (hrely.undisturbed.mem_history.mp hmem)
  | @redeem row code time rest redemption hrest =>
    have hlocks : ∀ r ∈ lockedRows.rows (.redeem row code time),
        (r, pid) ∈ v.shared.store.locks := by
      apply hlocked.backed pid
      rw [← mem_own, hown]
      exact List.mem_cons_self
    have huser := find_user_of_lock (hlocks _ List.mem_cons_self) hrely
    have hchallenge := find_challenge_of_lock
      (hlocks _ (List.mem_cons_of_mem _ List.mem_cons_self)) hrely
    have hrunning := htask.trans redemption.request
    refine .redeem ⟨hrunning, ?_, redemption.hash, redemption.inTime, ?_⟩ hrest
    · rw [hchallenge]
      exact redemption.found
    · rw [huser]
      exact redemption.email

theorem Untouched.env {s s' : Transactions Row Effect Tables} (h : Untouched pid s)
    (hs : Undisturbed lockedRows pid s s') : Untouched pid s' where
  unwritten e hmem := h.unwritten e (hs.mem_history.mp hmem)
  own := hs.own.trans h.own
  unlocked row hmem := h.unlocked row ((hs.locks row).mp hmem)

theorem Told.env {γ : Type} {request : AuthRequest} {result : Except Exn γ}
    {s s' : Transactions Row Effect Tables} (h : Told pid request result s)
    (hs : Undisturbed lockedRows pid s s') : Told pid request result s' := by
  match request, result with
  | .confirm _ _, .ok _ =>
    obtain ⟨row, time, hmem⟩ := h
    exact ⟨row, time, hs.mem_history.mpr hmem⟩
  | .request _, .error _ => exact fun herror => (h herror).env hs
  | .confirm _ _, .error _ => trivial
  | .request _, .ok _ => trivial
  | .register _ _, _ => trivial
  | .sweep, _ => trivial
  | .wait, _ => trivial

theorem Effect.rows_ne_nil (e : Effect) : ∃ row, row ∈ lockedRows.rows e := by
  cases e <;> exact ⟨_, List.mem_cons_self⟩

/-- A transaction that has locked nothing has done nothing. -/
theorem own_of_unlocked {s : Transactions Row Effect Tables} (h : Locked lockedRows s)
    (hunlocked : ∀ row, (row, pid) ∉ s.locks) : s.own pid = [] := by
  rw [List.eq_nil_iff_forall_not_mem]
  intro e he
  obtain ⟨row, hrow⟩ := e.rows_ne_nil
  exact hunlocked row (h.backed pid e (mem_own.mp he) row hrow)

end Stability

/-! ### What a step of a process has to show -/

section Moves
variable {P : Platform} {v : AuthView} {pid : ℕ} {request : AuthRequest} {w : AuthWorld}

theorem moves (hinv : Inv P v) (hrun : v.Running pid request)
    (hothers : ∀ k, k ≠ pid → Rely k v.shared w) (hlocked : Locked lockedRows w.store)
    (hcodes : (w.codes.map Prod.fst).Nodup) (hrecord : Record P w.codes w.store.history w.tables)
    (hbacked : Backed P (v.update w) pid (w.store.own pid)) :
    (authRules P).Moves pid v (v.update w) := by
  refine ⟨⟨hlocked, hcodes, hrecord, ?_, ?_, ?_, ?_⟩, hothers⟩
  · intro k
    by_cases hk : k = pid
    · rw [hk]
      exact hbacked
    · rw [View.update_shared, (hothers k hk).undisturbed.own]
      exact (hinv.backed k).env hinv.locked rfl (hothers k hk) rfl
  · intro row k hmem
    by_cases hk : k = pid
    · rw [hk]
      exact ⟨request, hrun⟩
    · exact hinv.running row k (((hothers k hk).undisturbed.locks row).mp hmem)
  · intro k e hmem
    by_cases hk : k = pid
    · rw [hk]
      exact hrun.lt
    · exact hinv.known k e ((hothers k hk).undisturbed.mem_history.mp hmem)
  · apply hinv.delivered.update hrun
    intro k request' result hk htold
    exact htold.env (hothers k hk).undisturbed

/-- Nothing happens to the transactions. -/
theorem moves_aside (hinv : Inv P v) (hrun : v.Running pid request)
    (hstore : w.store = v.shared.store) (hcodes : w.codes = v.shared.codes) :
    (authRules P).Moves pid v (v.update w) := by
  have hothers : ∀ k, Rely k v.shared w := by
    intro k
    constructor
    · rw [hstore]
      exact Undisturbed.refl k _
    · rw [hcodes]
      exact List.Subset.refl _
  apply moves hinv hrun fun k _ => hothers k
  · rw [hstore]
    exact hinv.locked
  · rw [hcodes]
    exact hinv.codes
  · rw [AuthWorld.tables, hstore, hcodes]
    exact hinv.record
  · rw [hstore]
    exact (hinv.backed pid).env hinv.locked rfl (hothers pid) rfl

theorem moves_same (hinv : Inv P v) (hrun : v.Running pid request) :
    (authRules P).Moves pid v (v.update v.shared) := moves_aside hinv hrun rfl rfl

/-- A fresh code. -/
theorem moves_issue {code : String} (hinv : Inv P v) (hrun : v.Running pid request)
    (hfresh : ∀ issued ∈ v.shared.codes, issued.1 ≠ code) :
    (authRules P).Moves pid v
      (v.update { v.shared with codes := v.shared.codes ++ [(code, pid)] }) := by
  have hsub : v.shared.codes ⊆ v.shared.codes ++ [(code, pid)] := List.subset_append_left _ _
  have hothers : ∀ k, Rely k v.shared { v.shared with codes := v.shared.codes ++ [(code, pid)] } :=
    fun k => ⟨Undisturbed.refl k _, hsub⟩
  apply moves hinv hrun (fun k _ => hothers k) hinv.locked _ (hinv.record.mono hsub)
  · exact (hinv.backed pid).env hinv.locked rfl (hothers pid) rfl
  · rw [List.map_append]
    apply hinv.codes.append (List.nodup_singleton _)
    simpa using fun k hmem => hfresh (code, k) hmem rfl

theorem moves_lock {row : Row} (hinv : Inv P v) (hrun : v.Running pid request)
    (hfree : v.shared.store.heldByOther row pid = false) :
    (authRules P).Moves pid v (v.update (v.shared.lock row pid)) := by
  apply moves (w := v.shared.lock row pid) hinv hrun _ (hinv.locked.lock hfree) hinv.codes
    hinv.record
  · have hbacked := hinv.backed pid
    rw [AuthWorld.lock, own_lock]
    generalize v.shared.store.own pid = es at hbacked ⊢
    cases hbacked with
    | mild h => exact .mild h
    | store sealing issued unwritten => exact .store sealing issued unwritten
    | redeem redemption hrest =>
      exact .redeem ⟨redemption.request, redemption.found, redemption.hash, redemption.inTime,
        redemption.email⟩ hrest
  · intro k hk
    exact ⟨undisturbed_lock hk, List.Subset.refl _⟩

/-- A statement writes: the rows of the effect were locked before, except the one that it locks. -/
theorem moves_write {row : Row} {e : Effect} (hinv : Inv P v) (hrun : v.Running pid request)
    (hfree : v.shared.store.heldByOther row pid = false)
    (hrows : ∀ r ∈ e.rows, r = row ∨ (r, pid) ∈ v.shared.store.locks)
    (hbacked : Backed P (v.update (v.shared.write row pid e)) pid (v.shared.store.own pid ++ [e])) :
    (authRules P).Moves pid v (v.update (v.shared.write row pid e)) := by
  apply moves (w := v.shared.write row pid e) hinv hrun _ _ hinv.codes hinv.record
  · rw [AuthWorld.write, own_draft, own_lock]
    exact hbacked
  · intro k hk
    exact ⟨(undisturbed_lock hk).trans (undisturbed_draft hk), List.Subset.refl _⟩
  · apply (hinv.locked.lock hfree).draft
    intro r hr
    rcases hrows r hr with rfl | hmem
    · exact List.mem_append_right _ (List.mem_singleton_self _)
    · exact List.mem_append_left _ hmem

theorem moves_discard (hinv : Inv P v) (hrun : v.Running pid request) :
    (authRules P).Moves pid v (v.update (v.shared.discard pid)) := by
  apply moves (w := v.shared.discard pid) hinv hrun _ hinv.locked.discard hinv.codes hinv.record
  · rw [AuthWorld.discard, own_discard]
    exact .mild (by simp)
  · intro k hk
    exact ⟨undisturbed_discard hk, List.Subset.refl _⟩

theorem Effect.Mild.codeless {e : Effect} (h : e.Mild) : e.Codeless := by
  cases e <;> first | exact h.elim | trivial

/-- Effects that store and redeem nothing keep the record. -/
theorem Record.foldl_codeless {codes : List (String × ℕ)} {history : List (ℕ × Effect)} {t : Tables}
    {es : List Effect} (h : Record P codes history t) (hes : ∀ e ∈ es, e.Codeless) :
    Record P codes (history ++ es.map fun e => (pid, e)) (es.foldl Tables.apply t) := by
  induction es generalizing history t with
  | nil => simpa using h
  | cons e es ih =>
    have hstep := h.codeless (p := pid) (hes e List.mem_cons_self)
    have hrest := ih hstep fun e' he' => hes e' (List.mem_cons_of_mem _ he')
    simpa using hrest

/-- A code that was issued to a process which committed nothing is not stored. -/
theorem Inv.unstored {code : String} (hinv : Inv P v) (hissued : (code, pid) ∈ v.shared.codes)
    (hunwritten : ∀ e, (pid, e) ∉ v.shared.store.history) :
    code ∉ storedCodes v.shared.store.history := by
  intro hmem
  obtain ⟨⟨q, e⟩, hentry, hcode⟩ := List.mem_filterMap.mp hmem
  cases e with
  | store row code' =>
    cases hcode
    obtain ⟨_, hissued'⟩ := hinv.record.stored q row code hentry
    have hsame := List.inj_on_of_nodup_map hinv.codes hissued hissued' rfl
    cases hsame
    exact hunwritten _ hentry
  | _ => cases hcode

/-- A commit keeps the record. -/
theorem Inv.record_commit (hP : Function.Injective P.sha256Hex) (hinv : Inv P v) :
    Record P v.shared.codes (v.shared.commit pid).store.history (v.shared.commit pid).tables := by
  change Record P v.shared.codes
    (v.shared.store.history ++ (v.shared.store.own pid).map fun e => (pid, e))
    ((v.shared.store.own pid).foldl Tables.apply v.shared.tables)
  have hbacked := hinv.backed pid
  generalize v.shared.store.own pid = es at hbacked ⊢
  cases hbacked with
  | mild h => exact hinv.record.foldl_codeless fun e he => (h e he).codeless
  | store sealing issued unwritten =>
    exact hinv.record.store sealing issued (hinv.unstored issued unwritten)
  | @redeem row code time rest redemption hrest =>
    have hredeemed : Record P v.shared.codes
        (v.shared.store.history ++ [(pid, .redeem row code time)])
        (v.shared.tables.apply (.redeem row code time)) :=
      hinv.record.redeem hP redemption.found redemption.hash
    have hcodeless : ∀ e ∈ rest, e.Codeless := by
      intro e he
      rw [hrest e he]
      trivial
    simpa using @Record.foldl_codeless P pid _ _ _ _ hredeemed hcodeless

theorem moves_commit (hP : Function.Injective P.sha256Hex) (hinv : Inv P v)
    (hrun : v.Running pid request) :
    (authRules P).Moves pid v (v.update (v.shared.commit pid)) := by
  apply moves (w := v.shared.commit pid) hinv hrun _ hinv.locked.commit hinv.codes
    (hinv.record_commit hP)
  · have hown : (v.shared.commit pid).store.own pid = [] := own_discard
    rw [hown]
    exact .mild (by simp)
  · intro k hk
    exact ⟨undisturbed_commit hinv.locked hk, List.Subset.refl _⟩

end Moves
end PhantomShare.EmailVerification
