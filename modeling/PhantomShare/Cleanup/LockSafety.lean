import PhantomShare.Cleanup.Locks

/-!
# Lock safety

Any number of processes acquire and release locks, delete secrets and sweep, in
any order and at any time. The history of a process tells which locks it has taken
and given back; a lock that is not given back stays under its key until it expires.
-/
namespace PhantomShare.Cleanup
open Foundations CleanupService

/-! ### Histories -/

/-- The lock that an action put under its key, with the time. -/
def taken (a : LockAction) : Option (Lock × Timestamp) :=
  match a.label with
  | .acquireLock key =>
    if (locksOf a.after).find key = (locksOf a.before).find key then none
    else ((locksOf a.after).find key).map fun lock => (lock, a.before.now)
  | _ => none

/-- The lock that an action removed. -/
def givenBack (a : LockAction) : Option Lock :=
  match a.label with
  | .releaseLock key =>
    if ((locksOf a.after).find key).isSome then none else (locksOf a.before).find key
  | _ => none

def tenures (past : LockPast) : List (Lock × Timestamp) := past.filterMap taken

def returned (past : LockPast) : List Lock := past.filterMap givenBack

/-- A process with this history has taken the lock and not given it back. -/
def Keeping (past : LockPast) (lock : Lock) (since : Timestamp) : Prop :=
  (lock, since) ∈ tenures past ∧ lock ∉ returned past

/-- A process with this history holds the lock, which has not expired. -/
def Holds (past : LockPast) (w : World) (lock : Lock) : Prop :=
  (∃ since, Keeping past lock since) ∧ w.now < lock.expiresAt

/-- A process with this history has taken the lock and not called `release_lock` since: it is in the
section that the lock guards. -/
def InSection (past : LockPast) (lock : Lock) (since : Timestamp) : Prop :=
  ∃ earlier a later, past = earlier ++ a :: later ∧ taken a = some (lock, since) ∧
    ∀ b ∈ later, b.label ≠ .releaseLock lock.key

theorem tenures_snoc (past : LockPast) (a : LockAction) :
    tenures (past ++ [a]) = tenures past ++ (taken a).toList := by
  cases h : taken a <;> simp [tenures, h]

theorem returned_snoc (past : LockPast) (a : LockAction) :
    returned (past ++ [a]) = returned past ++ (givenBack a).toList := by
  cases h : givenBack a <;> simp [returned, h]

section Turns
variable {past : LockPast} {a : LockAction} {lock : Lock} {since : Timestamp}

theorem taken_eq_some (h : taken a = some (lock, since)) :
    ∃ key, a.label = .acquireLock key ∧ (locksOf a.after).find key = some lock ∧
      (locksOf a.before).find key ≠ some lock ∧ since = a.before.now := by
  unfold taken at h
  split at h
  · rename_i key hlabel
    split at h
    · cases h
    · rename_i hchanged
      rw [Option.map_eq_some_iff] at h
      obtain ⟨other, hfind, heq⟩ := h
      cases heq
      exact ⟨key, hlabel, hfind, fun hsame => hchanged (hfind.trans hsame.symm), rfl⟩
  · cases h

theorem givenBack_eq_some (h : givenBack a = some lock) :
    ∃ key, a.label = .releaseLock key ∧ (locksOf a.before).find key = some lock ∧
      (locksOf a.after).find key = none := by
  unfold givenBack at h
  split at h
  · rename_i key hlabel
    split at h
    · cases h
    · rename_i hnone
      exact ⟨key, hlabel, h, by simpa using hnone⟩
  · cases h

/-- A lock is taken with the UUID of the last action, where no other lock is alive. -/
theorem LockTurn.takes (h : LockTurn past a) (htaken : taken a = some (lock, since)) :
    (∃ earlier u, past = earlier ++ [u] ∧ Drew u lock.token) ∧ since = a.before.now ∧
      Free lock.key a.before ∧ (locksOf a.after).find lock.key = some lock := by
  obtain ⟨key, hlabel, hafter, hbefore, rfl⟩ := taken_eq_some htaken
  rcases h.locks with hsame | ⟨key', token, ttl, hlabel', hdrew, hfree, hput⟩ | ⟨key', _, hlabel', _⟩
  · rw [hsame] at hafter
    exact absurd hafter hbefore
  · rw [hlabel] at hlabel'
    cases hlabel'
    have hlock : lock = ⟨key, token, a.before.now + ttl * second⟩ := by
      rw [hput, Table.find_put, if_pos rfl, Option.some.injEq] at hafter
      exact hafter.symm
    subst hlock
    exact ⟨hdrew, rfl, hfree, hafter⟩
  · rw [hlabel] at hlabel'
    cases hlabel'

/-- A lock is given back with a UUID that the process has drawn. -/
theorem LockTurn.givesBack (h : LockTurn past a) (hback : givenBack a = some lock) :
    ∃ u ∈ past, Drew u lock.token := by
  obtain ⟨key, hlabel, hbefore, hafter⟩ := givenBack_eq_some hback
  rcases h.locks with hsame | ⟨_, _, _, hlabel', _⟩ | ⟨key', other, hlabel', hfind, _, hdrew, _⟩
  · rw [hsame, hbefore] at hafter
    cases hafter
  · rw [hlabel] at hlabel'
    cases hlabel'
  · rw [hlabel] at hlabel'
    cases hlabel'
    rw [hbefore] at hfind
    cases hfind
    exact hdrew

/-- A living lock stays under its key, unless it is given back. -/
theorem LockTurn.kept (h : LockTurn past a) (hfind : (locksOf a.before).find lock.key = some lock)
    (hlive : a.before.now < lock.expiresAt) :
    (locksOf a.after).find lock.key = some lock ∨ givenBack a = some lock := by
  rcases h.locks with hsame | ⟨key, token, ttl, _, _, hfree, hput⟩ |
    ⟨key, other, hlabel, hother, _, _, hdelete⟩
  · left
    rw [hsame, hfind]
  · left
    have hkey : lock.key ≠ key := by
      rintro rfl
      exact absurd hlive (not_lt.mpr (hfree lock hfind))
    rw [hput, Table.find_put, if_neg hkey, hfind]
  · by_cases hkey : lock.key = key
    · right
      subst hkey
      have hgone : (locksOf a.after).find lock.key = none := by
        rw [hdelete, Table.find_deleteWhere, hfind]
        simp
      simp [givenBack, hlabel, hgone, hfind]
    · left
      rw [hdelete, Table.find_deleteWhere, hfind]
      simp [hkey]

end Turns

/-! ### The invariant -/

/-- What the histories say about the locks. -/
structure Custody (past : ℕ → LockPast) (w : World) : Prop where
  drawn : ∀ p u id, u ∈ past p → Drew u id → ∃ entry ∈ w.issued, entry.1 = id
  drawnOnce : ∀ p q u u' id, u ∈ past p → u' ∈ past q → Drew u id → Drew u' id → p = q
  tenured : ∀ p lock since, (lock, since) ∈ tenures (past p) → ∃ u ∈ past p, Drew u lock.token
  resigned : ∀ p lock, lock ∈ returned (past p) → ∃ u ∈ past p, Drew u lock.token
  unused : ∀ p earlier u id, past p = earlier ++ [u] → Drew u id →
    ∀ lock ∈ returned (past p), lock.token ≠ id
  once : ∀ p, Throughout
    (fun earlier a => ∀ lock since, taken a = some (lock, since) →
      lock ∉ returned earlier) (past p)
  present : ∀ p lock since, Keeping (past p) lock since → w.now < lock.expiresAt →
    (locksOf w).find lock.key = some lock
  order : ∀ p q lock lock' since since', Keeping (past p) lock since →
    Keeping (past q) lock' since' → lock.key = lock'.key → (p, lock) ≠ (q, lock') →
    lock.expiresAt ≤ since' ∨ lock'.expiresAt ≤ since

/-- The histories after an action of one process. -/
abbrev noted (past : ℕ → LockPast) (pid : ℕ) (a : LockAction) : ℕ → LockPast :=
  Function.update past pid (past pid ++ [a])

section Custody
variable {past : ℕ → LockPast} {pid p q : ℕ} {a u : LockAction} {lock lock' : Lock}
  {since since' : Timestamp}

theorem mem_noted (h : u ∈ noted past pid a p) : u ∈ past p ∨ p = pid ∧ u = a := by
  by_cases hp : p = pid
  · subst hp
    simpa using h
  · rw [noted, Function.update_of_ne hp] at h
    exact Or.inl h

theorem subset_noted (past : ℕ → LockPast) (pid p : ℕ) (a : LockAction) :
    past p ⊆ noted past pid a p := by
  by_cases hp : p = pid
  · subst hp
    simp
  · rw [noted, Function.update_of_ne hp]
    exact List.Subset.refl _

theorem mem_tenures_noted (h : (lock, since) ∈ tenures (noted past pid a p)) :
    (lock, since) ∈ tenures (past p) ∨ p = pid ∧ taken a = some (lock, since) := by
  by_cases hp : p = pid
  · subst hp
    rw [noted, Function.update_self, tenures_snoc, List.mem_append, Option.mem_toList] at h
    exact h.imp_right fun h => ⟨rfl, h⟩
  · rw [noted, Function.update_of_ne hp] at h
    exact Or.inl h

theorem mem_returned_noted : lock ∈ returned (noted past pid a p) ↔
    lock ∈ returned (past p) ∨ p = pid ∧ givenBack a = some lock := by
  by_cases hp : p = pid
  · subst hp
    rw [noted, Function.update_self, returned_snoc, List.mem_append, Option.mem_toList]
    simp
  · rw [noted, Function.update_of_ne hp]
    simp [hp]

theorem keeping_noted (h : Keeping (noted past pid a p) lock since) :
    (Keeping (past p) lock since ∨ p = pid ∧ taken a = some (lock, since)) ∧
      ¬ (p = pid ∧ givenBack a = some lock) := by
  rw [Keeping, mem_returned_noted, not_or] at h
  constructor
  · exact (mem_tenures_noted h.1).imp_left fun hold => ⟨hold, h.2.1⟩
  · exact h.2.2

theorem Custody.empty (w : World) : Custody (fun _ => []) w where
  drawn _ _ _ h := by cases h
  drawnOnce _ _ _ _ _ h := by cases h
  tenured _ _ _ h := by cases h
  resigned _ _ h := by cases h
  unused _ _ _ _ h := by simp at h
  once _ := throughout_nil
  present _ _ _ h := by cases h.1
  order _ _ _ _ _ _ h := by cases h.1

/-- An action of any process keeps the histories in accord with the locks. -/
theorem Custody.step (h : Custody past a.before) (hturn : LockTurn (past pid) a) :
    Custody (noted past pid a) a.after := by
  obtain ⟨k, hdraws⟩ := hturn.draws
  have hissued := Draws.subset hdraws
  -- a UUID that is drawn now was not drawn before
  have hnew : ∀ id u p, Drew a id → u ∈ past p → ¬ Drew u id := by
    intro id u p ha hu hold
    obtain ⟨entry, hentry, hid⟩ := h.drawn p u id hu hold
    exact ha.1 entry hentry hid
  have hback : ∀ lock, givenBack a = some lock → ∃ u ∈ past pid, Drew u lock.token :=
    fun lock => hturn.givesBack
  have htaken : ∀ p lock since, (lock, since) ∈ tenures (noted past pid a p) →
      ∃ u ∈ past p, Drew u lock.token := by
    intro p lock since hmem
    rcases mem_tenures_noted hmem with hold | ⟨rfl, hnew⟩
    · exact h.tenured p lock since hold
    · obtain ⟨⟨earlier, u, hpast, hu⟩, _⟩ := hturn.takes hnew
      exact ⟨u, by simp [hpast], hu⟩
  have hreturned : ∀ p lock, lock ∈ returned (noted past pid a p) →
      ∃ u ∈ past p, Drew u lock.token := by
    intro p lock hmem
    rcases mem_returned_noted.mp hmem with hold | ⟨rfl, hnew⟩
    · exact h.resigned p lock hold
    · exact hback lock hnew
  -- a lock that is alive when another is taken would be in its way
  have hwaits : ∀ p lock since, Keeping (past p) lock since → ∀ lock' since',
      taken a = some (lock', since') → lock.key = lock'.key → lock.expiresAt ≤ since' := by
    intro p lock since hkeeping lock' since' htakes hkey
    obtain ⟨_, rfl, hfree, _⟩ := hturn.takes htakes
    by_contra hlive
    have hfind := h.present p lock since hkeeping (not_le.mp hlive)
    exact hlive (hfree lock (hkey ▸ hfind))
  constructor
  · intro p u id hu hdrew
    rcases mem_noted hu with hold | ⟨rfl, rfl⟩
    · obtain ⟨entry, hentry, hid⟩ := h.drawn p u id hold hdrew
      exact ⟨entry, hissued hentry, hid⟩
    · obtain ⟨_, k, hafter⟩ := hdrew
      exact ⟨(id, k), by simp [hafter], rfl⟩
  · intro p q u u' id hu hu' hdrew hdrew'
    rcases mem_noted hu with hold | ⟨rfl, rfl⟩ <;> rcases mem_noted hu' with hold' | ⟨rfl, rfl⟩
    · exact h.drawnOnce p q u u' id hold hold' hdrew hdrew'
    · exact absurd hdrew (hnew id u p hdrew' hold)
    · exact absurd hdrew' (hnew id u' q hdrew hold')
    · rfl
  · intro p lock since hmem
    obtain ⟨u, hu, hdrew⟩ := htaken p lock since hmem
    exact ⟨u, subset_noted past pid p a hu, hdrew⟩
  · intro p lock hmem
    obtain ⟨u, hu, hdrew⟩ := hreturned p lock hmem
    exact ⟨u, subset_noted past pid p a hu, hdrew⟩
  · intro p earlier u id hpast hdrew lock hmem htoken
    by_cases hp : p = pid
    · subst hp
      rw [noted, Function.update_self] at hpast
      obtain ⟨_, hlast⟩ := List.append_inj' hpast rfl
      cases hlast
      obtain ⟨u, hu, hold⟩ := hreturned p lock hmem
      exact hnew id u p hdrew hu (htoken ▸ hold)
    · rw [noted, Function.update_of_ne hp] at hpast hmem
      exact h.unused p earlier u id hpast hdrew lock hmem htoken
  · intro p
    by_cases hp : p = pid
    · subst hp
      rw [noted, Function.update_self]
      apply (h.once p).snoc
      intro lock since htakes hmem
      obtain ⟨⟨earlier, u, hpast, hu⟩, _⟩ := hturn.takes htakes
      exact h.unused p earlier u lock.token hpast hu lock hmem rfl
    · rw [noted, Function.update_of_ne hp]
      exact h.once p
  · intro p lock since hkeeping hlive
    obtain ⟨hold | ⟨rfl, htakes⟩, hkept⟩ := keeping_noted hkeeping
    · have hbefore : a.before.now < lock.expiresAt := lt_of_le_of_lt hturn.now hlive
      have hfind := h.present p lock since hold hbefore
      rcases hturn.kept hfind hbefore with hafter | hgiven
      · exact hafter
      · obtain ⟨u, hu, hdrew⟩ := h.tenured p lock since hold.1
        obtain ⟨u', hu', hdrew'⟩ := hback lock hgiven
        exact absurd ⟨h.drawnOnce p pid u u' lock.token hu hu' hdrew hdrew', hgiven⟩ hkept
    · exact (hturn.takes htakes).2.2.2
  · intro p q lock lock' since since' hkeeping hkeeping' hkey hne
    obtain ⟨hold | ⟨rfl, htakes⟩, _⟩ := keeping_noted hkeeping <;>
      obtain ⟨hold' | ⟨hq, htakes'⟩, _⟩ := keeping_noted hkeeping'
    · exact h.order p q lock lock' since since' hold hold' hkey hne
    · exact Or.inl (hwaits p lock since hold lock' since' htakes' hkey)
    · exact Or.inr (hwaits q lock' since' hold' lock since htakes hkey.symm)
    · rw [htakes] at htakes'
      cases htakes'
      exact absurd (by rw [hq]) hne

/-- A process in a section has not given the lock back. -/
theorem InSection.keeping {w : World} (h : InSection (past p) lock since) (custody : Custody past w) :
    Keeping (past p) lock since := by
  obtain ⟨earlier, a, later, hpast, htakes, hlater⟩ := h
  have honce := custody.once p earlier a later hpast lock since htakes
  have hself : givenBack a = none := by
    obtain ⟨key, hlabel, _⟩ := taken_eq_some htakes
    simp [givenBack, hlabel]
  constructor
  · rw [hpast, tenures, List.mem_filterMap]
    exact ⟨a, by simp, htakes⟩
  · rw [hpast, returned, List.filterMap_append, List.mem_append, not_or]
    refine ⟨honce, ?_⟩
    rw [List.mem_filterMap]
    rintro ⟨b, hb, hgiven⟩
    rcases List.mem_cons.mp hb with rfl | hb
    · rw [hself] at hgiven
      cases hgiven
    · obtain ⟨key, hlabel, hfind, _⟩ := givenBack_eq_some hgiven
      exact hlater b hb (Table.key_of_find hfind ▸ hlabel)

end Custody

/-! ### Runs -/

/-- A call of a client. It can release only with a token that it got, which it names by its place
among them. -/
inductive LockCall where
  | acquire (key : LockKey) (ttl : ℕ)
  | release (key : LockKey) (turn : ℕ)
  deriving DecidableEq

/-- A client that has got the tokens makes its calls, whether or not they fail. -/
def lockCalls : List UUID → List LockCall → Handler Unit
  | _, [] => return ()
  | tokens, .acquire key ttl :: calls => do
    let token ← tryCatch (acquireLock key ttl) fun _ => pure none
    lockCalls (tokens ++ token.toList) calls
  | tokens, .release key turn :: calls => do
    match tokens[turn]? with
    | none => lockCalls tokens calls
    | some token => do
      tryCatch (releaseLock key token) fun _ => pure ()
      lockCalls tokens calls

inductive LockRequest (ρ : Type) where
  | calls (script : List LockCall)
  | deleteSecret (secretId : UUID)
  | fallbackSweep
  | other (request : ρ)
  deriving DecidableEq

/-- Clients of the locks next to any other requests. -/
def lockSystem {ρ : Type} (others : ρ → Handler Unit) :
    System World Choice Label (LockRequest ρ) Exn Unit where
  serve
    | .calls script => lockCalls [] script
    | .deleteSecret secretId => deleteSecret secretId
    | .fallbackSweep => (fun _ => ()) <$> fallbackSweep
    | .other request => others request
  recover := Auth.discardWork

theorem accounts_lockCalls {pid : ℕ} (calls : List LockCall) {tokens : List UUID} {past : LockPast}
    (htokens : ∀ token ∈ tokens, ∃ u ∈ past, Drew u token) :
    (lockCalls tokens calls).Accounts pid (fun _ _ => True) LockTurn (fun _ _ => True) past := by
  induction calls generalizing tokens past with
  | nil => exact Program.accounts_pure trivial
  | cons call calls ih =>
    cases call with
    | acquire key ttl =>
      apply Program.Accounts.bind
      · apply (accounts_acquireLock key ttl).tryCatch
        intro past' error _
        exact Program.accounts_pure nofun
      · intro past' result hsub hdrew
        apply ih
        intro token htoken
        rcases List.mem_append.mp htoken with hold | hnew
        · obtain ⟨u, hu, htoken⟩ := htokens token hold
          exact ⟨u, hsub hu, htoken⟩
        · exact hdrew token (Option.mem_toList.mp hnew)
    | release key turn =>
      cases hget : tokens[turn]? with
      | none =>
        simp only [lockCalls, hget]
        exact ih htokens
      | some token =>
        simp only [lockCalls, hget]
        apply Program.Accounts.bind (K := fun _ _ => True)
        · apply (accounts_releaseLock (htokens token (List.mem_of_getElem? hget)) key).tryCatch
          intro past' error _
          exact Program.accounts_pure trivial
        · intro past' _ hsub _
          apply ih
          intro token' htoken'
          obtain ⟨u, hu, hdrew⟩ := htokens token' htoken'
          exact ⟨u, hsub hu, hdrew⟩

/-- What a call of `release_lock` with a token may do. -/
def ReleasesToken (key : LockKey) (token : UUID) (w w' : World) : Prop :=
  w' = w ∨ ∃ lock, (locksOf w).find key = some lock ∧ lock.token = token ∧
    w.now < lock.expiresAt ∧ w' = w.setRedis { w.redis with
      locks := (locksOf w).deleteWhere fun other => other.key = key }

theorem releaseLock_only (key : LockKey) (token : UUID) :
    (releaseLock key token).Only fun _ _ => ReleasesToken key token := by
  apply Program.only_perform
  intro pid w choice w' r hact
  cases hfails : choice.fails with
  | true =>
    simp only [hfails, if_true, Option.some.injEq, Prod.mk.injEq] at hact
    exact Or.inl hact.1.symm
  | false =>
    simp only [hfails, Bool.false_eq_true, if_false, Option.some.injEq, Prod.mk.injEq] at hact
    rw [← hact.1]
    by_cases hown : ((locksOf w).find key).any
        (fun lock => w.now < lock.expiresAt ∧ lock.token = token) = true
    · right
      obtain ⟨lock, hfind, hlive, htoken⟩ := find_unlock_any.mp hown
      refine ⟨lock, hfind, htoken, hlive, ?_⟩
      rw [Redis.unlock, if_pos hown]
    · left
      rw [Redis.unlock, if_neg hown]
      rfl

/-- What is true of the locks at every moment. -/
structure LockSafety {ρ : Type} (S : System World Choice Label (LockRequest ρ) Exn Unit)
    (past : ℕ → LockPast) (c : Pool World Choice Label (LockRequest ρ) Exn Unit) : Prop where
  exclusive : ∀ p q lock lock', Holds (past p) c.shared lock → Holds (past q) c.shared lock' →
    lock.key = lock'.key → p = q ∧ lock = lock'
  own : ∀ p, Throughout (fun earlier a => ∀ key, a.label = .releaseLock key →
    locksOf a.after = locksOf a.before ∨ Removes earlier a) (past p)
  undisturbed : ∀ e o c' p lock, S.next c e = some (o, c') → Holds (past p) c.shared lock →
    (locksOf c'.shared).find lock.key = some lock ∨ o = .performed p (.releaseLock lock.key)
  overlap : ∀ p q lock lock' since since', InSection (past p) lock since →
    InSection (past q) lock' since' → lock.key = lock'.key → (p, lock) ≠ (q, lock') →
    lock.expiresAt ≤ since' ∨ lock'.expiresAt ≤ since

section Runs
variable {ρ : Type} {others : ρ → Handler Unit} {w : World} {past : ℕ → LockPast}
  {c : Pool World Choice Label (LockRequest ρ) Exn Unit}

theorem lock_turns (apart : ∀ request, (others request).Only Lockless)
    (told : (lockSystem others).Chronicle (.init w) past c) (pid : ℕ) :
    Throughout LockTurn (past pid) := by
  have haccounted : System.Accounted (fun _ _ => True) (fun _ => LockTurn) (fun _ _ _ => True) past c := by
    apply told.accounted (fun _ _ _ _ => trivial)
    intro pid request
    cases request with
    | calls script => exact accounts_lockCalls script (by simp)
    | deleteSecret secretId => exact accounts_deleteSecret secretId
    | fallbackSweep =>
      apply accounts_fallbackSweep.bind
      exact fun _ _ _ _ => Program.accounts_pure trivial
    | other request => exact accounts_lockless (apart request)
  exact haccounted.throughout pid

theorem lock_custody (apart : ∀ request, (others request).Only Lockless)
    (told : (lockSystem others).Chronicle (.init w) past c) : Custody past c.shared := by
  induction told with
  | refl => exact Custody.empty w
  | @tail past c₁ c₂ e o prior happens ih =>
    have hturns := lock_turns apart (prior.tail happens)
    rcases System.note_of_next past happens with
      ⟨hnote, hsame | ⟨pid, hrecover⟩⟩ | ⟨pid, label, choice, _, hnote⟩
    · rw [hnote, hsame]
      exact ih
    · rw [hnote, hrecover]
      exact ⟨ih.drawn, ih.drawnOnce, ih.tenured, ih.resigned, ih.unused, ih.once, ih.present, ih.order⟩
    · rw [hnote] at hturns ⊢
      have hturn := hturns pid
      rw [Function.update_self] at hturn
      exact ih.step hturn.last

end Runs

/-- At every moment of every run, no two processes hold living locks under one key, a lock is removed
only by the process whose token it has and only with that token, other processes leave a living lock
alone, and two sections overlap only where the lock of one had expired before the other's was
taken. -/
theorem lock_safety {ρ : Type} (others : ρ → Handler Unit)
    (apart : ∀ request, (others request).Only Lockless) (w : World) (past : ℕ → LockPast)
    (c : Pool World Choice Label (LockRequest ρ) Exn Unit)
    (told : (lockSystem others).Chronicle (.init w) past c) :
    LockSafety (lockSystem others) past c ∧
      ∀ key token, (releaseLock key token).Only fun _ _ => ReleasesToken key token := by
  have hcustody := lock_custody apart told
  refine ⟨?_, releaseLock_only⟩
  constructor
  · rintro p q lock lock' ⟨⟨since, hkeeping⟩, hlive⟩ ⟨⟨since', hkeeping'⟩, hlive'⟩ hkey
    have hfind := hcustody.present p lock since hkeeping hlive
    have hfind' := hcustody.present q lock' since' hkeeping' hlive'
    rw [hkey, hfind', Option.some.injEq] at hfind
    subst hfind
    obtain ⟨u, hu, hdrew⟩ := hcustody.tenured p lock' since hkeeping.1
    obtain ⟨u', hu', hdrew'⟩ := hcustody.tenured q lock' since' hkeeping'.1
    exact ⟨hcustody.drawnOnce p q u u' _ hu hu' hdrew hdrew', rfl⟩
  · intro p earlier a later hpast key hlabel
    rcases (lock_turns apart told p earlier a later hpast).locks with hsame | ⟨_, _, _, htakes, _⟩ | hremoves
    · exact Or.inl hsame
    · rw [hlabel] at htakes
      cases htakes
    · exact Or.inr hremoves
  · rintro e o c' p lock happens ⟨⟨since, hkeeping⟩, hlive⟩
    have hfind := hcustody.present p lock since hkeeping hlive
    have hturns := lock_turns apart (told.tail happens)
    rcases System.note_of_next past happens with
      ⟨_, hsame | ⟨pid, hrecover⟩⟩ | ⟨pid, label, choice, ho, hnote⟩
    · rw [hsame]
      exact Or.inl hfind
    · rw [hrecover]
      exact Or.inl hfind
    · have hturn := hturns pid
      rw [hnote, Function.update_self] at hturn
      rcases hturn.last.kept hfind hlive with hafter | hgiven
      · exact Or.inl hafter
      · right
        obtain ⟨u, hu, hdrew⟩ := hcustody.tenured p lock since hkeeping.1
        obtain ⟨u', hu', hdrew'⟩ := hturn.last.givesBack hgiven
        obtain ⟨key, hlabel, hkey, _⟩ := givenBack_eq_some hgiven
        rw [ho, hcustody.drawnOnce p pid u u' _ hu hu' hdrew hdrew', Table.key_of_find hkey]
        exact congrArg _ hlabel
  · intro p q lock lock' since since' hsection hsection' hkey hne
    exact hcustody.order p q lock lock' since since' (hsection.keeping hcustody)
      (hsection'.keeping hcustody) hkey hne

section Sample

def waitSystem : System World Choice Label (LockRequest Unit) Exn Unit := lockSystem fun _ => tick

def sampleStart : Pool World Choice Label (LockRequest Unit) Exn Unit :=
  .init (worldOf .empty .empty .empty 0)

/-- A lock of thirty seconds outlives its holder's patience, a deletion takes it over, and the first
holder releases late. -/
def takeover : List (Event Choice (LockRequest Unit)) :=
  [.start (.calls [.acquire (.secret 5) 30, .release (.secret 5) 0]), .start (.other ()),
    .start (.deleteSecret 5), .act 0 { uuid := 6 }, .act 0 {}, .act 1 { delay := 31 * second },
    .act 2 { uuid := 7 }, .act 2 {}, .act 0 {}]

/-- The lock of the deletion. -/
def sampleLock : Lock := ⟨.secret 5, 7, 61 * second⟩

theorem lock_safety_sample :
    ∃ past c, (tenures (past 0)).length = 1 ∧
      (past 0).any (fun a => a.label = .releaseLock (.secret 5)) = true ∧
      (locksOf c.shared).find (.secret 5) = some sampleLock ∧
      waitSystem.Chronicle sampleStart past c ∧
      LockSafety waitSystem past c ∧
      ∀ key token, (releaseLock key token).Only fun _ _ => ReleasesToken key token := by
  rcases waitSystem.exists_chronicle sampleStart takeover
    (fun past v => (tenures (past 0)).length = 1 &&
      ((past 0).any (fun a => a.label = .releaseLock (.secret 5)) &&
        (locksOf v.shared).find (.secret 5) = some sampleLock))
    (by decide +kernel) with ⟨past, c, told, h⟩
  rw [Bool.and_eq_true, Bool.and_eq_true, decide_eq_true_eq, decide_eq_true_eq] at h
  exact ⟨past, c, h.1, h.2.1, h.2.2, told,
    lock_safety (fun _ => tick) (fun _ => lockless_tick) _ past c told⟩

end Sample

end PhantomShare.Cleanup
