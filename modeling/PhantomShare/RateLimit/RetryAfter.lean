import Mathlib.Data.Rat.Floor
import PhantomShare.Foundations.Since
import PhantomShare.RateLimit.Keying
import PhantomShare.RateLimit.Reference

/-!
# Retry-After

A rejected call is told how long to wait: the time until its oldest entry leaves
the window, in whole seconds. The time is rounded down, so that a call that waits
as long as it was told can come too early, by less than a second.
-/
namespace PhantomShare.RateLimit
open Foundations Internet

/-- What `rate_limit` makes of the reply of the script, when it read `now` from the clock. -/
def outcome (limits : Text → ℕ × ℤ) (key : Text) (now : ℚ) (s : Server) : Except Exn Unit :=
  let reply := (slidingWindow key now (now - (limits key).2) (limits key).2 (limits key).1 0
    s.time s.store).1
  if reply.accepted then .ok () else .error (rejection reply now (limits key).1 (limits key).2)

/-- The smallest score that the script of a call finds after it has pruned. -/
def oldestFor (limits : Text → ℕ × ℤ) (key : Text) (now : ℚ) (s : Server) : Option ℚ :=
  ((s.store.counted key now (limits key).2 s.time).rows.map Entry.score).min?

/-- The time until the oldest entry leaves the window is whole, or at most a second; or the oldest
score is 0, which counts as none. -/
def Exact (limits : Text → ℕ × ℤ) (key : Text) (now : ℚ) (s : Server) : Prop :=
  ∃ oldest, oldestFor limits key now s = some oldest ∧
    (oldest = 0 ∨ oldest + (limits key).2 - now ≤ 1 ∨
      ∃ n : ℤ, oldest + (limits key).2 - now = n)

/-- The members of a sorted set, of which there are no more than allowed, are none older than the
last acceptance by more than the time to live. -/
structure Sound (maxRequests : ℕ) (windowSeconds : ℤ) (time : ℚ) (bucket : Bucket) : Prop where
  few : bucket.entries.rows.length ≤ maxRequests
  ne_nil : bucket.entries.rows ≠ []
  nonneg : ∀ e ∈ bucket.entries.rows, 0 ≤ e.score
  lasting : ∀ e ∈ bucket.entries.rows, e.score + windowSeconds ≤ bucket.expiresAt
  set : bucket.expiresAt ≤ time + windowSeconds

structure Lasting (limits : Text → ℕ × ℤ) (s : Server) : Prop where
  nonneg : 0 ≤ s.time
  sound : ∀ key bucket, s.store.find key = some bucket →
    Sound (limits key).1 (limits key).2 s.time bucket

section Scripts
variable {limits : Text → ℕ × ℤ} {s s' : Server} {key other : Text} {now time : ℚ} {token : Token}
  {bucket : Bucket} {maxRequests : ℕ} {windowSeconds : ℤ}

theorem Sound.later (h : Sound maxRequests windowSeconds time bucket) {time' : ℚ}
    (hle : time ≤ time') : Sound maxRequests windowSeconds time' bucket :=
  ⟨h.few, h.ne_nil, h.nonneg, h.lasting, h.set.trans (by linarith)⟩

/-- What a script counts is in the sorted set, and the set has not expired. -/
theorem exists_of_mem_counted {store : Store} {e : Entry}
    (he : e ∈ (store.counted key now windowSeconds time).rows) :
    ∃ bucket, store.find key = some bucket ∧ time ≤ bucket.expiresAt ∧ e ∈ bucket.entries.rows := by
  have hmem := (mem_counted.mp he).1
  rw [Store.entries] at hmem
  cases hfind : store.find key with
  | none => simp [hfind] at hmem
  | some bucket =>
    simp only [hfind] at hmem
    split at hmem
    · simp at hmem
    · rename_i hexpired
      exact ⟨bucket, rfl, not_lt.mp hexpired, hmem⟩

theorem counted_length_le {store : Store} (hfind : store.find key = some bucket) :
    (store.counted key now windowSeconds time).rows.length ≤ bucket.entries.rows.length := by
  rw [Store.counted, prune, Table.deleteWhere_rows]
  apply (List.length_filter_le _ _).trans
  rw [Store.entries, hfind]
  simp only
  split
  · exact Nat.zero_le _
  · exact le_rfl

/-- Pruning keeps a sorted set sound, or leaves none. -/
theorem Lasting.pruned (h : Lasting limits s)
    (hfind : (s.store.pruned key (s.store.counted key now (limits key).2 s.time)).find key =
      some bucket) : Sound (limits key).1 (limits key).2 s.time bucket := by
  rw [Store.pruned] at hfind
  cases hold : s.store.find key with
  | none =>
    simp only [hold] at hfind
    cases hfind
  | some old =>
    have hsound := h.sound key old hold
    simp only [hold] at hfind
    split at hfind
    · rw [find_delete_self] at hfind
      cases hfind
    · rename_i hne
      rw [Table.find_put, if_pos rfl, Option.some.injEq] at hfind
      subst hfind
      have hmem : ∀ e ∈ (s.store.counted key now (limits key).2 s.time).rows,
          e ∈ old.entries.rows := by
        intro e he
        obtain ⟨bucket, hbucket, -, hin⟩ := exists_of_mem_counted he
        rw [hold, Option.some.injEq] at hbucket
        rwa [hbucket]
      exact ⟨(counted_length_le hold).trans hsound.few, hne,
        fun e he => hsound.nonneg e (hmem e he), fun e he => hsound.lasting e (hmem e he),
        hsound.set⟩

/-- An acceptance sets the time to live anew. -/
theorem Lasting.expire (h : Lasting limits s) (hnow : 0 ≤ now) (hpast : now ≤ s.time)
    (hroom : (s.store.counted key now (limits key).2 s.time).rows.length < (limits key).1)
    (hfind : (s.store.expire key ((s.store.counted key now (limits key).2 s.time).put ⟨token, now⟩)
      (limits key).2 s.time).find key = some bucket) :
    Sound (limits key).1 (limits key).2 s.time bucket := by
  rw [Store.expire] at hfind
  split at hfind
  · rw [find_delete_self] at hfind
    cases hfind
  · rw [Table.find_put, if_pos rfl, Option.some.injEq] at hfind
    subst hfind
    constructor
    · exact (length_put_le _ _).trans hroom
    · exact List.ne_nil_of_mem (mem_put.mpr (Or.inl rfl))
    · intro e he
      rcases mem_put.mp he with rfl | ⟨he, -⟩
      · exact hnow
      · obtain ⟨old, hold, -, hin⟩ := exists_of_mem_counted he
        exact (h.sound key old hold).nonneg e hin
    · intro e he
      rcases mem_put.mp he with rfl | ⟨he, -⟩
      · simpa using hpast
      · obtain ⟨old, hold, -, hin⟩ := exists_of_mem_counted he
        have hsound := h.sound key old hold
        exact (hsound.lasting e hin).trans hsound.set
    · exact le_rfl

/-- A script whose reading lies in the past keeps the sorted sets sound. -/
theorem Lasting.script (h : Lasting limits s) (hnow : 0 ≤ now) (hpast : now ≤ s.time)
    (htime : s'.time = s.time)
    (hstore : s'.store = (slidingWindow key now (now - (limits key).2) (limits key).2
      (limits key).1 token s.time s.store).2) : Lasting limits s' := by
  refine ⟨htime ▸ h.nonneg, ?_⟩
  intro other bucket hfind
  rw [htime]
  rw [hstore, slidingWindow_eq] at hfind
  by_cases hroom : (limits key).1 ≤ (s.store.counted key now (limits key).2 s.time).rows.length
  · rw [if_pos hroom] at hfind
    by_cases hother : other = key
    · subst hother
      exact h.pruned hfind
    · rw [find_pruned_of_ne hother] at hfind
      exact h.sound other bucket hfind
  · rw [if_neg hroom] at hfind
    by_cases hother : other = key
    · subst hother
      exact h.expire hnow hpast (not_le.mp hroom) hfind
    · rw [find_expire_of_ne hother] at hfind
      exact h.sound other bucket hfind

theorem Lasting.of_eq (h : Lasting limits s) (htime : s.time ≤ s'.time) (hstore : s'.store = s.store) :
    Lasting limits s' := by
  refine ⟨h.nonneg.trans htime, ?_⟩
  intro key bucket hfind
  rw [hstore] at hfind
  exact (h.sound key bucket hfind).later htime

theorem Lasting.reap (h : Lasting limits s) (key : Text) (time : ℚ) :
    Lasting limits { s with store := s.store.reap key time } := by
  refine ⟨h.nonneg, ?_⟩
  intro other bucket hfind
  rw [Store.reap, Table.find_deleteWhere] at hfind
  exact h.sound other bucket (Option.eq_some_of_filter_eq_some hfind)

end Scripts

/-! ### The sorted sets of any run -/

section Rules
variable (limits : Text → ℕ × ℤ)

def lastingRules : Rules Server Label Traffic Exn Unit where
  cond _ _ := True
  inv v := Lasting limits v.shared
  rely _ v v' := v.shared.time ≤ v'.shared.time

variable {limits} {pid : ℕ} {v : View Server Traffic Exn Unit} {α : Type} {key : Text} {now : ℚ}
  {token : Token}

/-- A step that leaves the sorted sets alone. -/
theorem wp_aside {label : Label} {act : ℕ → Server → Choice → Option (Server × Except Exn α)}
    {Q : Except Exn α → View Server Traffic Exn Unit → Prop}
    (aside : ∀ k s choice s' r, act k s choice = some (s', r) →
      s.time ≤ s'.time ∧ s'.store = s.store)
    (h : ∀ r v', v.shared.time ≤ v'.shared.time → Q r v') :
    (lastingRules limits).wp pid (Program.perform label act) Q v := by
  apply Rules.wp_perform
  intro v₁ henv hinv _ choice s r hact
  have hsame := aside pid v₁.shared choice s r hact
  exact ⟨⟨hinv.of_eq hsame.1 hsame.2, fun k _ => hsame.1⟩, h r _ (henv.1.trans hsame.1)⟩

theorem wp_clock_lasting {Q : Except Exn ℚ → View Server Traffic Exn Unit → Prop}
    (h : ∀ now v', 0 ≤ now → now ≤ v'.shared.time → Q (.ok now) v') :
    (lastingRules limits).wp pid clock Q v := by
  apply Rules.wp_perform
  intro v₁ _ hinv _ choice s r hact
  rw [Option.some.injEq, Prod.mk.injEq] at hact
  rcases hact with ⟨rfl, rfl⟩
  exact ⟨⟨hinv, fun k _ => le_rfl⟩, h _ _ hinv.nonneg le_rfl⟩

theorem wp_evalsha_lasting {Q : Except Exn Reply → View Server Traffic Exn Unit → Prop}
    (hnow : 0 ≤ now) (hpast : now ≤ v.shared.time)
    (h : ∀ r v', now ≤ v'.shared.time → Q r v') :
    (lastingRules limits).wp pid
      (evalsha key now (now - (limits key).2) (limits key).2 (limits key).1 token) Q v := by
  apply Rules.wp_perform
  intro v₁ henv hinv _ choice s r hact
  have hpast₁ : now ≤ v₁.shared.time := hpast.trans henv.1
  cases hfails : choice.fails with
  | true =>
    simp only [hfails, if_true, Option.some.injEq, Prod.mk.injEq] at hact
    rcases hact with ⟨rfl, rfl⟩
    cases choice.landed with
    | true => exact ⟨⟨hinv.script hnow hpast₁ rfl rfl, fun k _ => le_rfl⟩, h _ _ hpast₁⟩
    | false => exact ⟨⟨hinv, fun k _ => le_rfl⟩, h _ _ hpast₁⟩
  | false =>
    simp only [hfails, Bool.false_eq_true, if_false, Option.some.injEq, Prod.mk.injEq] at hact
    rcases hact with ⟨rfl, rfl⟩
    exact ⟨⟨hinv.script hnow hpast₁ rfl rfl, fun k _ => le_rfl⟩, h _ _ hpast₁⟩

theorem wp_scriptLoad_lasting {Q : Except Exn Unit → View Server Traffic Exn Unit → Prop}
    (h : ∀ r v', v.shared.time ≤ v'.shared.time → Q r v') :
    (lastingRules limits).wp pid scriptLoad Q v := by
  apply wp_aside _ h
  intro k s choice s' r hact
  split at hact <;> cases hact <;> exact ⟨le_rfl, rfl⟩

theorem wp_evalScript_lasting {Q : Except Exn Reply → View Server Traffic Exn Unit → Prop}
    (hnow : 0 ≤ now) (hpast : now ≤ v.shared.time) (h : ∀ r v', Q r v') :
    (lastingRules limits).wp pid
      (evalScript key now (now - (limits key).2) (limits key).2 (limits key).1 token) Q v := by
  have hrun : ∀ v', now ≤ v'.shared.time → (lastingRules limits).wp pid
      (tryCatch (evalsha key now (now - (limits key).2) (limits key).2 (limits key).1 token)
        fun _ => do
          scriptLoad
          evalsha key now (now - (limits key).2) (limits key).2 (limits key).1 token) Q v' := by
    intro v' hpast'
    apply Rules.wp_tryCatch
    apply wp_evalsha_lasting hnow hpast'
    intro r v₁ hpast₁
    cases r with
    | ok reply => exact h _ _
    | error error =>
      apply Rules.wp_bind
      apply wp_scriptLoad_lasting
      intro r v₂ hle
      cases r with
      | error error => exact h _ _
      | ok _ => exact wp_evalsha_lasting hnow (hpast₁.trans hle) fun _ _ _ => h _ _
  apply Rules.wp_bind
  apply wp_aside
  · intro k s choice s' r hact
    cases hact
    exact ⟨le_rfl, rfl⟩
  intro r v₁ hle
  cases r with
  | error error => exact h _ _
  | ok cached =>
    cases cached with
    | true => exact hrun v₁ (hpast.trans hle)
    | false =>
      apply Rules.wp_bind
      apply wp_scriptLoad_lasting
      intro r v₂ hle₂
      cases r with
      | error error => exact h _ _
      | ok _ => exact hrun v₂ ((hpast.trans hle).trans hle₂)

theorem finishing_lasting (result : Except Exn Unit) (v : View Server Traffic Exn Unit) :
    (lastingRules limits).Finishing pid result v :=
  fun _ _ hinv _ => ⟨hinv, fun _ _ => le_rfl⟩

theorem wp_rateLimit_lasting (key : Text) :
    (lastingRules limits).wp pid (rateLimit key (limits key).1 (limits key).2)
      ((lastingRules limits).Finishing pid) v := by
  apply Rules.wp_bind
  apply Rules.wp_tryCatch
  apply Rules.wp_bind
  apply wp_aside
  · intro k s choice s' r hact
    split at hact <;> cases hact <;> exact ⟨le_rfl, rfl⟩
  intro r v₁ _
  cases r with
  | error error => exact finishing_lasting _ _
  | ok _ =>
    apply Rules.wp_bind
    apply wp_clock_lasting
    intro now v₂ hnow hpast
    apply Rules.wp_bind
    apply wp_aside
    · intro k s choice s' r hact
      split at hact
      · cases hact
      · cases hact
        exact ⟨le_rfl, rfl⟩
    intro r v₃ hle
    cases r with
    | error error => exact finishing_lasting _ _
    | ok token =>
      apply Rules.wp_bind
      apply wp_evalScript_lasting hnow (hpast.trans hle)
      intro r v₄
      cases r with
      | error error => exact finishing_lasting _ _
      | ok reply =>
        rcases reply with ⟨accepted, count, oldest⟩
        cases accepted with
        | true => exact finishing_lasting _ _
        | false => exact finishing_lasting _ _

theorem valid_lasting : (lastingRules limits).Valid (limiterSystem limits) where
  rely_refl _ _ := le_rfl
  rely_trans _ _ _ _ hab hbc := le_trans hab hbc
  start v request hinv _ := by
    refine ⟨⟨hinv, fun k _ => le_rfl⟩, ?_⟩
    cases request with
    | call key => exact wp_rateLimit_lasting key
    | tick =>
      apply wp_aside
      · intro k s choice s' r hact
        split at hact
        · cases hact
        · rename_i hdelay
          cases hact
          exact ⟨by simpa using hdelay, rfl⟩
      · exact fun r v' _ => finishing_lasting _ _
    | expire key =>
      apply Rules.wp_perform
      intro v₁ _ hinv₁ _ choice s r hact
      rw [Option.some.injEq, Prod.mk.injEq] at hact
      rcases hact with ⟨rfl, rfl⟩
      exact ⟨⟨hinv₁.reap key _, fun k _ => le_rfl⟩, finishing_lasting _ _⟩
  crash _ _ _ hinv _ _ := ⟨hinv, fun _ _ => le_rfl⟩

end Rules

/-! ### A run that accepts nothing -/

/-- A step that is neither a script nor a passing of time. -/
structure Aside (s s' : Server) : Prop where
  time : s'.time = s.time
  store : s'.store = s.store
  scripts : s'.scripts = s.scripts

/-- A script has run, and its call may have learnt of it. -/
structure RanScript (limits : Text → ℕ × ℤ) (key : Text) (now : ℚ) (token : Token)
    (s s' : Server) : Prop where
  time : s'.time = s.time
  store : s'.store = (slidingWindow key now (now - (limits key).2) (limits key).2 (limits key).1
    token s.time s.store).2
  scripts : s'.scripts = (s.ran key now (slidingWindow key now (now - (limits key).2)
    (limits key).2 (limits key).1 token s.time s.store)).scripts

/-- Time has passed, and Redis may have deleted an expired key. -/
structure Passed (s s' : Server) : Prop where
  time : s.time ≤ s'.time
  store : s'.store = s.store ∨ ∃ key, s'.store = s.store.reap key s.time
  scripts : s'.scripts = s.scripts

/-- What one step does to the clock and the sorted sets. -/
def Effect (limits : Text → ℕ × ℤ) (_ : ℕ) : Label → Server → Server → Prop
  | .evalsha key now, s, s' => Aside s s' ∨ ∃ token, RanScript limits key now token s s'
  | .tick, s, s' => Passed s s'
  | _, s, s' => Aside s s'

/-- The sorted set is as it was, or gone because its time to live is over. -/
def Unmoved (bucket : Bucket) (s : Server) : Prop :=
  s.store.find bucket.key = some bucket ∨
    (s.store.find bucket.key = none ∧ bucket.expiresAt < s.time)

section Quiet
variable {limits : Text → ℕ × ℤ} {key : Text} {bucket : Bucket} {s s' : Server}

theorem only_evalsha {now : ℚ} {token : Token} :
    (evalsha key now (now - (limits key).2) (limits key).2 (limits key).1 token).Only
      (Effect limits) := by
  apply Program.only_perform
  intro pid s choice s' r hact
  split at hact
  · cases hact
    split
    · exact Or.inr ⟨token, rfl, rfl, rfl⟩
    · exact Or.inl ⟨rfl, rfl, rfl⟩
  · cases hact
    exact Or.inr ⟨token, rfl, rfl, rfl⟩

/-- A step of a call that is not its script. -/
theorem only_aside {α : Type} {label : Label}
    {act : ℕ → Server → Choice → Option (Server × Except Exn α)}
    (hlabel : ∀ pid s s', Aside s s' → Effect limits pid label s s')
    (aside : ∀ pid s choice s' r, act pid s choice = some (s', r) → Aside s s') :
    (Program.perform label act).Only (Effect limits) :=
  Program.only_perform fun pid s choice s' r hact => hlabel pid s s' (aside pid s choice s' r hact)

theorem only_scriptLoad : scriptLoad.Only (Effect limits) := by
  apply only_aside (by exact fun _ _ _ h => h)
  intro pid s choice s' r hact
  split at hact <;> cases hact <;> exact ⟨rfl, rfl, rfl⟩

theorem only_evalScript {now : ℚ} {token : Token} :
    (evalScript key now (now - (limits key).2) (limits key).2 (limits key).1 token).Only
      (Effect limits) := by
  apply Program.Only.bind
  · apply only_aside (by exact fun _ _ _ h => h)
    intro pid s choice s' r hact
    cases hact
    exact ⟨rfl, rfl, rfl⟩
  · intro cached
    cases cached with
    | true => exact only_evalsha.tryCatch fun _ => only_scriptLoad.bind fun _ => only_evalsha
    | false =>
      apply only_scriptLoad.bind
      intro _
      exact only_evalsha.tryCatch fun _ => only_scriptLoad.bind fun _ => only_evalsha

theorem only_rateLimit (key : Text) :
    (rateLimit key (limits key).1 (limits key).2).Only (Effect limits) := by
  have hgetRedis : getRedis.Only (Effect limits) := by
    apply only_aside (by exact fun _ _ _ h => h)
    intro pid s choice s' r hact
    split at hact <;> cases hact <;> exact ⟨rfl, rfl, rfl⟩
  have hclock : clock.Only (Effect limits) := by
    apply only_aside (by exact fun _ _ _ h => h)
    intro pid s choice s' r hact
    cases hact
    exact ⟨rfl, rfl, rfl⟩
  have htoken : tokenHex.Only (Effect limits) := by
    apply only_aside (by exact fun _ _ _ h => h)
    intro pid s choice s' r hact
    split at hact
    · cases hact
    · cases hact
      exact ⟨rfl, rfl, rfl⟩
  apply ((hgetRedis.bind fun _ => Program.only_pure true).tryCatch
    fun _ => Program.only_pure false).bind
  intro available
  cases available with
  | false => trivial
  | true =>
    apply hclock.bind
    intro now
    apply htoken.bind
    intro token
    apply only_evalScript.bind
    intro reply
    rcases reply with ⟨accepted, count, oldest⟩
    cases accepted with
    | true => trivial
    | false => trivial

theorem only_serve (request : Traffic) :
    ((limiterSystem limits).serve request).Only (Effect limits) := by
  cases request with
  | call key => exact only_rateLimit key
  | tick =>
    apply Program.only_perform
    intro pid s choice s' r hact
    split at hact
    · cases hact
    · rename_i hdelay
      cases hact
      exact ⟨by simpa using hdelay, Or.inl rfl, rfl⟩
  | expire key =>
    apply Program.only_perform
    intro pid s choice s' r hact
    cases hact
    exact ⟨le_rfl, Or.inr ⟨key, rfl⟩, rfl⟩

/-- A script that finds as many calls as there may be finds all that were in the sorted set. -/
theorem counted_eq_of_full {store : Store} {maxRequests : ℕ} {windowSeconds : ℤ} {now time : ℚ}
    (hfind : store.find key = some bucket) (hlive : time ≤ bucket.expiresAt)
    (hfew : bucket.entries.rows.length ≤ maxRequests)
    (hfull : maxRequests ≤ (store.counted key now windowSeconds time).rows.length) :
    store.counted key now windowSeconds time = bucket.entries := by
  have hentries : store.entries key time = bucket.entries := by
    simp [Store.entries, hfind, not_lt.mpr hlive]
  have hsub : (store.counted key now windowSeconds time).rows.Sublist bucket.entries.rows := by
    rw [Store.counted, prune, Table.deleteWhere_rows, hentries]
    exact List.filter_sublist
  exact Table.ext (hsub.eq_of_length_le (hfew.trans hfull))

/-- A script that accepts nothing keeps a full sorted set as it is. -/
theorem Unmoved.script {now : ℚ} {token : Token} (h : Unmoved bucket s)
    (hkey : bucket.key = key) (hfew : bucket.entries.rows.length ≤ (limits key).1)
    (hroom : 0 < (limits key).1)
    (hfull : (limits key).1 ≤ (s.store.counted key now (limits key).2 s.time).rows.length) :
    (slidingWindow key now (now - (limits key).2) (limits key).2 (limits key).1 token
      s.time s.store).2.find key = some bucket := by
  have hcounted : (s.store.counted key now (limits key).2 s.time).rows ≠ [] := by
    rw [← List.length_pos_iff]
    omega
  obtain ⟨e, he⟩ := List.exists_mem_of_ne_nil _ hcounted
  obtain ⟨old, hold, hlive, -⟩ := exists_of_mem_counted he
  subst hkey
  have hsame : old = bucket := by
    rcases h with hfind | ⟨hnone, -⟩
    · rw [hold, Option.some.injEq] at hfind
      exact hfind
    · rw [hold] at hnone
      cases hnone
  subst hsame
  have hkept := counted_eq_of_full hold hlive hfew hfull
  rw [slidingWindow_eq, if_pos hfull, Store.pruned, hold]
  simp only
  rw [if_neg hcounted, Table.find_put, if_pos rfl, hkept]

/-- A script that finds room adds itself to those that accepted a call. -/
theorem RanScript.full {now : ℚ} {token : Token} (h : RanScript limits key now token s s')
    (hnone : s'.scriptsOn key = s.scriptsOn key) :
    (limits key).1 ≤ (s.store.counted key now (limits key).2 s.time).rows.length := by
  by_contra hroom
  have hscripts := h.scripts
  rw [slidingWindow_eq, if_neg hroom] at hscripts
  rw [Server.scriptsOn, hscripts] at hnone
  simp [Server.ran, Server.scriptsOn] at hnone

/-- No step forgets a script that accepted a call. -/
theorem Effect.scriptsOn {pid : ℕ} {label : Label} (h : Effect limits pid label s s') :
    s.scriptsOn key <+: s'.scriptsOn key := by
  have hsame (hscripts : s'.scripts = s.scripts) : s.scriptsOn key <+: s'.scriptsOn key := by
    rw [Server.scriptsOn, Server.scriptsOn, hscripts]
  cases label with
  | evalsha other now =>
    rcases h with haside | ⟨token, hran⟩
    · exact hsame haside.scripts
    · rw [Server.scriptsOn, Server.scriptsOn, hran.scripts, Server.ran]
      simp only
      split
      · exact (List.prefix_append _ _).filter _
      · exact List.prefix_rfl
  | tick => exact hsame h.scripts
  | getRedis => exact hsame h.scripts
  | clock => exact hsame h.scripts
  | tokenHex => exact hsame h.scripts
  | cachedSha => exact hsame h.scripts
  | scriptLoad => exact hsame h.scripts

theorem Unmoved.effect {pid : ℕ} {label : Label} (h : Unmoved bucket s)
    (heffect : Effect limits pid label s s') (hkey : bucket.key = key)
    (hfew : bucket.entries.rows.length ≤ (limits key).1) (hroom : 0 < (limits key).1)
    (hnone : s'.scriptsOn key = s.scriptsOn key) : Unmoved bucket s' := by
  have hfound (htime : s.time ≤ s'.time) (hstore : s'.store.find bucket.key =
      s.store.find bucket.key) : Unmoved bucket s' := by
    rw [Unmoved, hstore]
    exact h.imp_right fun hgone => ⟨hgone.1, lt_of_lt_of_le hgone.2 htime⟩
  have haside (haside : Aside s s') : Unmoved bucket s' :=
    hfound haside.time.ge (by rw [haside.store])
  cases label with
  | evalsha other now =>
    rcases heffect with hquiet | ⟨token, hran⟩
    · exact haside hquiet
    · by_cases hother : key = other
      · subst hother
        left
        rw [hran.store, hkey]
        exact h.script hkey hfew hroom (hran.full hnone)
      · apply hfound hran.time.ge
        rw [hran.store, slidingWindow_eq, hkey]
        split
        · exact find_pruned_of_ne hother
        · exact find_expire_of_ne hother
  | tick =>
    rcases heffect with ⟨htime, hstore | ⟨other, hstore⟩, -⟩
    · exact hfound htime (by rw [hstore])
    · by_cases hother : bucket.key = other
      · subst hother
        rcases h with hfind | ⟨hgone, hexpired⟩
        · rw [Unmoved, hstore, find_reap, hfind]
          by_cases hexpired : bucket.expiresAt < s.time
          · right
            exact ⟨Option.filter_some_neg (by simpa using hexpired), lt_of_lt_of_le hexpired htime⟩
          · left
            exact Option.filter_some_pos (by simpa using hexpired)
        · right
          rw [hstore, find_reap, hgone]
          exact ⟨rfl, lt_of_lt_of_le hexpired htime⟩
      · exact hfound htime (by rw [hstore, find_reap_of_ne hother])
  | getRedis => exact haside heffect
  | clock => exact haside heffect
  | tokenHex => exact haside heffect
  | cachedSha => exact haside heffect
  | scriptLoad => exact haside heffect

/-- The scripts that accepted a call only grow in number, and as long as they do not, the sorted set
is as it was. -/
theorem Unmoved.run {c c' : Pool Server Choice Label Traffic Exn Unit}
    (run : (limiterSystem limits).Run (fun _ _ => True) c c')
    (honly : c.All (Program.Only (Effect limits))) (hkey : bucket.key = key)
    (hfew : bucket.entries.rows.length ≤ (limits key).1) (hroom : 0 < (limits key).1)
    (h : Unmoved bucket c.shared) :
    c.shared.scriptsOn key <+: c'.shared.scriptsOn key ∧
      (c'.shared.scriptsOn key = c.shared.scriptsOn key → Unmoved bucket c'.shared) := by
  induction run with
  | refl => exact ⟨List.prefix_rfl, fun _ => h⟩
  | tail prior happens _ ih =>
    have hbounded := prior.only only_serve honly
    cases System.moved_of_next _ happens with
    | started request => exact ih
    | returned task => exact ih
    | raised task => exact ih
    | performed task hact =>
      have heffect := (hbounded _ _ _ task _ _ _ _ _ hact).1
      have hgrows := @Effect.scriptsOn limits key _ _ _ _ heffect
      refine ⟨ih.1.trans hgrows, ?_⟩
      intro hnone
      have hbetween := hgrows.eq_of_length_le (hnone ▸ ih.1.length_le)
      exact (ih.2 (hbetween.trans hnone)).effect heffect hkey hfew hroom hbetween.symm
    | crashed task => exact ih

end Quiet

/-! ### The end of the wait -/

/-- On numbers that are not negative, `int` rounds down. -/
theorem truncate_eq_floor {q : ℚ} (h : 0 ≤ q) : truncate q = ⌊q⌋ := by
  rw [truncate, Int.tdiv_eq_ediv_of_nonneg (Rat.num_nonneg.mpr h), Rat.floor_def']

/-- Rounding down to whole seconds, and up to the first of them, is enough for whole numbers and
for all up to 1. -/
theorem le_max_truncate_iff {q : ℚ} (h : 0 ≤ q) :
    q ≤ ((max 1 (truncate q) : ℤ) : ℚ) ↔ q ≤ 1 ∨ ∃ n : ℤ, q = n := by
  rw [truncate_eq_floor h, Int.cast_max, le_max_iff, Int.cast_one]
  apply or_congr_right
  constructor
  · intro hle
    exact ⟨⌊q⌋, le_antisymm hle (Int.floor_le q)⟩
  · rintro ⟨n, rfl⟩
    rw [Int.floor_intCast]

section Wait
variable {limits : Text → ℕ × ℤ} {key : Text} {now : ℚ} {s : Server}

theorem outcome_eq : outcome limits key now s =
    if (limits key).1 ≤ (s.store.counted key now (limits key).2 s.time).rows.length then
      .error (rejection ⟨false, (s.store.counted key now (limits key).2 s.time).rows.length,
        oldestFor limits key now s⟩ now (limits key).1 (limits key).2)
    else .ok () := by
  rw [outcome, slidingWindow_eq, oldestFor]
  split <;> rfl

theorem outcome_ok_iff : outcome limits key now s = .ok () ↔
    (s.store.counted key now (limits key).2 s.time).rows.length < (limits key).1 := by
  rw [outcome_eq]
  split <;> simp_all

/-- The header of a rejected call. -/
def retryAfter (windowSeconds : ℤ) (now : ℚ) : Option ℚ → ℤ
  | some oldest => if oldest = 0 then windowSeconds else max 1 (truncate (oldest + windowSeconds - now))
  | none => windowSeconds

theorem outcome_error {detail : String} {r limit reset : ℤ}
    (h : outcome limits key now s = .error (.tooManyRequests detail r limit reset)) :
    (limits key).1 ≤ (s.store.counted key now (limits key).2 s.time).rows.length ∧
      r = retryAfter (limits key).2 now (oldestFor limits key now s) := by
  rw [outcome_eq] at h
  split at h
  · rename_i hfull
    rw [Except.error.injEq, rejection, Exn.tooManyRequests.injEq] at h
    refine ⟨hfull, ?_⟩
    rw [← h.2.1]
    rfl
  · cases h

/-- The wait reaches the moment at which the oldest entry leaves the window. -/
theorem wait_reaches_iff {windowSeconds : ℤ} {oldest : ℚ} (hnow : 0 ≤ now)
    (hin : now - windowSeconds < oldest) :
    oldest ≤ now + retryAfter windowSeconds now (some oldest) - windowSeconds ↔
      oldest = 0 ∨ oldest + windowSeconds - now ≤ 1 ∨
        ∃ n : ℤ, oldest + windowSeconds - now = n := by
  by_cases hzero : oldest = 0
  · simp only [retryAfter, hzero, if_true, true_or, iff_true]
    linarith
  · simp only [retryAfter, hzero, if_false, false_or]
    rw [← le_max_truncate_iff (by linarith : 0 ≤ oldest + windowSeconds - now)]
    constructor <;> intro h <;> linarith

/-- On a full set that has not expired, a script finds room once its oldest member has left. -/
theorem counted_lt_iff {bucket : Bucket} {maxRequests : ℕ} {windowSeconds : ℤ} {oldest : ℚ}
    (hfind : s.store.find key = some bucket) (hlive : s.time ≤ bucket.expiresAt)
    (hfull : bucket.entries.rows.length = maxRequests)
    (hnonneg : ∀ e ∈ bucket.entries.rows, 0 ≤ e.score)
    (holdest : (bucket.entries.rows.map Entry.score).min? = some oldest) :
    (s.store.counted key now windowSeconds s.time).rows.length < maxRequests ↔
      oldest ≤ now - windowSeconds := by
  have hentries : s.store.entries key s.time = bucket.entries := by
    simp [Store.entries, hfind, not_lt.mpr hlive]
  rw [List.min?_eq_some_iff, List.mem_map] at holdest
  obtain ⟨⟨first, hfirst, hscore⟩, hleast⟩ := holdest
  rw [Store.counted, prune, Table.deleteWhere_rows, hentries, ← hfull,
    List.length_filter_lt_length_iff_exists]
  constructor
  · rintro ⟨e, he, hpruned⟩
    have hle := hleast e.score (List.mem_map_of_mem he)
    simp only [Bool.not_eq_true', decide_eq_false_iff_not, not_not] at hpruned
    exact hle.trans hpruned.2
  · intro hle
    refine ⟨first, hfirst, ?_⟩
    simp only [Bool.not_eq_true', decide_eq_false_iff_not, not_not]
    exact ⟨hnonneg first hfirst, hscore ▸ hle⟩

/-- A call that nothing delays or fails ends with the outcome at its time. -/
theorem rateLimit_outcome {pid : ℕ} {choices : ℕ → Choice}
    (hworks : ∀ n, (choices n).fails = false) (hsha : s.scriptSha = true)
    (hfresh : (s.drawn.any fun entry => entry.1 = (choices 2).token) = false) :
    ((rateLimit key (limits key).1 (limits key).2).alone pid choices s).map Prod.fst =
      some (outcome limits key s.time s) := by
  obtain ⟨rest, s', halone, -⟩ := rateLimit_alone hworks hsha hfresh
  rw [halone, outcome_eq, slidingWindow_eq, oldestFor]
  split <;> rfl

end Wait

/-- After any history, a call that was rejected at `t` with `Retry-After: r` is accepted at `t + r`,
when no script has accepted a call on its key in between, exactly when the oldest entry of its window
was a whole number of seconds, or at most one second, from leaving it. -/
theorem retry_after_iff (limits : Text → ℕ × ℤ) (key : Text) (time : ℚ) (scriptSha : Bool)
    (hepoch : 0 ≤ time) {c c' : Pool Server Choice Label Traffic Exn Unit}
    (run : (limiterSystem limits).Run (fun _ _ => True) (.init (serverOf .empty time scriptSha)) c)
    {t : ℚ} (ht : 0 ≤ t) {detail : String} {r limit reset : ℤ}
    (hrejected : outcome limits key t c.shared = .error (.tooManyRequests detail r limit reset))
    (waited : (limiterSystem limits).Run (fun _ _ => True) c c')
    (hnone : c'.shared.scriptsOn key = c.shared.scriptsOn key)
    (htime : c'.shared.time = t + r) :
    outcome limits key (t + r) c'.shared = .ok () ↔ Exact limits key t c.shared := by
  have hlasting : Lasting limits c.shared := by
    apply Rules.Valid.inv_of_run valid_lasting _ run
    exact ⟨hepoch, by simp [serverOf]⟩
  have honly : c.All (Program.Only (Effect limits)) := run.only only_serve (Pool.all_init _)
  obtain ⟨hfull, hr⟩ := outcome_error hrejected
  rw [outcome_ok_iff]
  by_cases hroom : (limits key).1 = 0
  -- nothing is ever accepted, and no entry is the oldest
  · have hempty : (c.shared.store.counted key t (limits key).2 c.shared.time).rows = [] := by
      rw [List.eq_nil_iff_forall_not_mem]
      intro e he
      obtain ⟨bucket, hbucket, -, hin⟩ := exists_of_mem_counted he
      have hfew := (hlasting.sound key bucket hbucket).few
      have hpos := List.length_pos_of_mem hin
      omega
    simp [Exact, oldestFor, hempty, hroom]
  · have hpos : 0 < (limits key).1 := Nat.pos_of_ne_zero hroom
    have hsome : (c.shared.store.counted key t (limits key).2 c.shared.time).rows ≠ [] := by
      rw [← List.length_pos_iff]
      omega
    obtain ⟨e, he⟩ := List.exists_mem_of_ne_nil _ hsome
    obtain ⟨bucket, hfind, hlive, -⟩ := exists_of_mem_counted he
    have hkey := Table.key_of_find hfind
    have hsound := hlasting.sound key bucket hfind
    have hunmoved : Unmoved bucket c'.shared :=
      (Unmoved.run waited honly hkey hsound.few hpos (Or.inl (hkey.symm ▸ hfind))).2 hnone
    rw [Unmoved, hkey] at hunmoved
    have hkept := counted_eq_of_full hfind hlive hsound.few hfull
    rw [hkept] at hfull
    have hlength := le_antisymm hsound.few hfull
    obtain ⟨oldest, holdest⟩ := Option.ne_none_iff_exists'.mp
      (mt List.min?_eq_none_iff.mp (mt List.map_eq_nil_iff.mp hsound.ne_nil) :
        (bucket.entries.rows.map Entry.score).min? ≠ none)
    have holdestFor : oldestFor limits key t c.shared = some oldest := by
      rw [oldestFor, hkept, holdest]
    -- the oldest member lies in the window of the rejected call, and the key outlives it there
    obtain ⟨first, hfirst, hscore⟩ := List.mem_map.mp (List.min?_mem holdest)
    have hin : t - (limits key).2 < oldest := by
      rw [← hkept, mem_counted] at hfirst
      rw [← hscore]
      by_contra hle
      exact hfirst.2 ⟨hsound.nonneg first (hkept ▸ mem_counted.mpr hfirst), not_lt.mp hle⟩
    have hlasts : oldest + (limits key).2 ≤ bucket.expiresAt := hscore ▸ hsound.lasting first hfirst
    have hreaches := wait_reaches_iff ht hin
    rw [← holdestFor, ← hr] at hreaches
    have hexact : Exact limits key t c.shared ↔ oldest ≤ t + r - (limits key).2 := by
      rw [hreaches, Exact, holdestFor]
      simp
    rw [hexact]
    by_cases hgone : bucket.expiresAt < c'.shared.time
    · have hempty : c'.shared.store.entries key c'.shared.time = .empty := by
        rcases hunmoved with hsome | ⟨hnone, -⟩
        · simp [Store.entries, hsome, hgone]
        · simp [Store.entries, hnone]
      have hleft : oldest ≤ t + r - (limits key).2 := by linarith
      simp [Store.counted, prune, hempty, hpos, hleft]
    · have hstill := hunmoved.resolve_right fun h => hgone h.2
      exact counted_lt_iff hstill (not_lt.mp hgone) hlength hsound.nonneg holdest

section Sample

/-- Calls at 5 and 6, and then the clock moves on. -/
def fullWindow (delay : ℚ) : List (Event Choice Traffic) :=
  callAfter 5 0 1 ++ callAfter 1 2 2 ++ [.start .tick, .act 4 { delay := delay }, .act 4 {}]

/-- The clock moves on again, and two scripts of a call do not get through. -/
def waiting (delay : ℚ) : List (Event Choice Traffic) :=
  [.start .tick, .act 5 { delay := delay }, .act 5 {}, .start (.call sampleKey), .act 6 {}, .act 6 {},
    .act 6 { token := 9 }, .act 6 {}, .act 6 { fails := true }, .act 6 {}, .act 6 { fails := true }]

/-- The rejection of a call in `twoInTen`. -/
def refusal (retryAfter reset : ℤ) : Except Exn Unit :=
  .error (.tooManyRequests "Rate limit exceeded. Max 2 requests per 10s." retryAfter 2 reset)

/-- A computed run that fills the window, and one that waits. -/
theorem exists_wait (delay delay' : ℚ) (p : Server → Server → Bool)
    (h : (((limiterSystem twoInTen).replay (fun _ _ => True) (.init (serverOf .empty 0 true))
      (fullWindow delay)).any fun c => ((limiterSystem twoInTen).replay (fun _ _ => True) c
        (waiting delay')).any fun c' => c'.shared.scriptsOn sampleKey = c.shared.scriptsOn sampleKey ∧
          p c.shared c'.shared) = true) :
    ∃ c c' : Pool Server Choice Label Traffic Exn Unit,
      (limiterSystem twoInTen).Run (fun _ _ => True) (.init (serverOf .empty 0 true)) c ∧
      (limiterSystem twoInTen).Run (fun _ _ => True) c c' ∧
      c'.shared.scriptsOn sampleKey = c.shared.scriptsOn sampleKey ∧
      p c.shared c'.shared = true := by
  rw [Option.any_eq_true] at h
  obtain ⟨c, hfirst, h⟩ := h
  rw [Option.any_eq_true] at h
  obtain ⟨c', hthen, h⟩ := h
  rw [decide_eq_true_eq] at h
  exact ⟨c, c', System.run_of_replay hfirst, System.run_of_replay hthen, h.1, h.2⟩

/-- A call at 7.5 is told to wait for 7 seconds, and is rejected when it does. -/
theorem retry_after_early : ∃ c c' : Pool Server Choice Label Traffic Exn Unit,
    (limiterSystem twoInTen).Run (fun _ _ => True) (.init (serverOf .empty 0 true)) c ∧
    outcome twoInTen sampleKey (15 / 2) c.shared = refusal 7 14 ∧
    (limiterSystem twoInTen).Run (fun _ _ => True) c c' ∧
    c'.shared.scriptsOn sampleKey = c.shared.scriptsOn sampleKey ∧
    c'.shared.time = 15 / 2 + (7 : ℤ) ∧
    outcome twoInTen sampleKey (15 / 2 + (7 : ℤ)) c'.shared ≠ .ok () := by
  rcases exists_wait (3 / 2) 7 (fun s s' => outcome twoInTen sampleKey (15 / 2) s = refusal 7 14 ∧
    s'.time = 15 / 2 + (7 : ℤ) ∧ outcome twoInTen sampleKey (15 / 2 + (7 : ℤ)) s' ≠ .ok ())
    (by decide +kernel) with ⟨c, c', run, waited, hnone, h⟩
  rw [decide_eq_true_eq] at h
  exact ⟨c, c', run, h.1, waited, hnone, h.2.1, h.2.2⟩

/-- A call at 7 is told to wait for 8 seconds, and is accepted when it does. -/
theorem retry_after_iff_sample : ∃ c c' : Pool Server Choice Label Traffic Exn Unit,
    outcome twoInTen sampleKey 7 c.shared = refusal 8 15 ∧ c'.shared.time = 7 + (8 : ℤ) ∧
    outcome twoInTen sampleKey (7 + (8 : ℤ)) c'.shared = .ok () := by
  rcases exists_wait 1 8 (fun s s' => outcome twoInTen sampleKey 7 s = refusal 8 15 ∧
    s'.time = 7 + (8 : ℤ) ∧ oldestFor twoInTen sampleKey 7 s = some 5)
    (by decide +kernel) with ⟨c, c', run, waited, hnone, h⟩
  rw [decide_eq_true_eq] at h
  refine ⟨c, c', h.1, h.2.1, ?_⟩
  apply (retry_after_iff twoInTen sampleKey 0 true le_rfl run (by norm_num) h.1 waited hnone
    h.2.1).mpr
  exact ⟨5, h.2.2, Or.inr (Or.inr ⟨8, by norm_num [twoInTen]⟩)⟩

end Sample

end PhantomShare.RateLimit
