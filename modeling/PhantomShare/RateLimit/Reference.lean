import PhantomShare.Foundations.Lockstep
import PhantomShare.RateLimit.Window

/-!
# The plain sliding window

The reference of the script keeps every accepted call and never forgets one. The
limiter forgets twice, by pruning and by the expiry of the key. It answers like
the reference for as long as no script runs with an earlier reading than the last
accepted call, and none that reads less than a window later runs more than a
window later: the time to live counts from the run of a script, not from its
reading, so that a script which is held up longer than the last one can find the
key gone.
-/
namespace PhantomShare.RateLimit
open Foundations Internet

/-- What a call asks of a script, in the order of `slidingWindow`. -/
abbrev Script := Text → ℚ → ℚ → ℤ → ℕ → Token → ℚ → Store → Reply × Store

/-- `evalsha`, of any script. -/
def evalshaBy (script : Script) (key : Text) (now windowStart : ℚ) (windowSeconds : ℤ)
    (maxRequests : ℕ) (token : Token) : Call Reply :=
  Program.perform (.evalsha key now) fun _ s choice =>
    let ran := script key now windowStart windowSeconds maxRequests token s.time s.store
    if choice.fails then
      some (if choice.landed then s.ran key now ran else s, .error .redis)
    else
      some ({ s.ran key now ran with
        accepted := if ran.1.accepted then s.accepted ++ [⟨key, token, now⟩] else s.accepted },
        .ok ran.1)

def evalScriptBy (script : Script) (key : Text) (now windowStart : ℚ) (windowSeconds : ℤ)
    (maxRequests : ℕ) (token : Token) : Call Reply := do
  let cached ← cachedSha
  if !cached then
    scriptLoad
  tryCatch (evalshaBy script key now windowStart windowSeconds maxRequests token) fun _ => do
    scriptLoad
    evalshaBy script key now windowStart windowSeconds maxRequests token

/-- `rateLimit` around any script. -/
def rateLimitBy (script : Script) (key : Text) (maxRequests : ℕ) (windowSeconds : ℤ) :
    Call Unit := do
  let available ← tryCatch (do getRedis; return true) fun _ => pure false
  if available then
    let now ← clock
    let token ← tokenHex
    let reply ← evalScriptBy script key now (now - windowSeconds) windowSeconds maxRequests token
    if !reply.accepted then
      throw (rejection reply now maxRequests windowSeconds)

theorem rateLimit_eq : rateLimit = rateLimitBy slidingWindow := rfl

/-- All accepted calls on a key. -/
def Store.history (store : Store) (key : Text) : Table Entry.member :=
  match store.find key with
  | some bucket => bucket.entries
  | none => .empty

/-- The reference: a call is accepted when fewer than `maxRequests` accepted calls lie in the window
that ends at its reading. It notes when the key expires, and takes no notice of it. -/
def plainWindow : Script :=
  fun key now windowStart windowSeconds maxRequests token time store =>
    let recent := (store.history key).rows.filter fun e => windowStart < e.score ∧ e.score ≤ now
    if maxRequests ≤ recent.length then
      (⟨false, recent.length, (recent.map Entry.score).min?⟩, store)
    else
      (⟨true, recent.length + 1, none⟩,
        store.put ⟨key, (store.history key).put ⟨token, now⟩, time + windowSeconds⟩)

/-- Redis deletes a key whose time to live is over. -/
def Store.reap (store : Store) (key : Text) (time : ℚ) : Store :=
  store.deleteWhere fun bucket => bucket.key = key ∧ bucket.expiresAt < time

inductive Traffic where
  | call (key : Text)
  | tick
  | expire (key : Text)
  deriving DecidableEq

/-- The limiter, with the expiry of keys at any time after their time to live. -/
def limiterSystem (limits : Text → ℕ × ℤ) : System Server Choice Label Traffic Exn Unit where
  serve
    | .call key => rateLimit key (limits key).1 (limits key).2
    | .tick => tick
    | .expire key => Program.perform .tick fun _ s _ =>
        some ({ s with store := s.store.reap key s.time }, .ok ())
  recover _ s := s

/-- The same calls, decided by the reference. -/
def referenceSystem (limits : Text → ℕ × ℤ) : System Server Choice Label Traffic Exn Unit where
  serve
    | .call key => rateLimitBy plainWindow key (limits key).1 (limits key).2
    | .tick => tick
    | .expire _ => Program.perform .tick fun _ s _ => some (s, .ok ())
  recover _ s := s

/-- The scripts that accepted a call on the key. -/
def Server.scriptsOn (s : Server) (key : Text) : List Ran := s.scripts.filter fun r => r.key = key

/-- The last script that accepted a call on the key. -/
def Server.lastRan (s : Server) (key : Text) : Option Ran := (s.scriptsOn key).getLast?

/-- A call on the key has read no earlier time than the call of the last script that accepted one;
and when it has read a time less than a window later, its script runs at most a window later. -/
structure Orderly (windowSeconds : ℤ) (key : Text) (now : ℚ) (s : Server) : Prop where
  latest : ∀ r ∈ s.lastRan key, r.timestamp ≤ now
  prompt : ∀ r ∈ s.lastRan key, now - windowSeconds < r.timestamp → s.time ≤ r.time + windowSeconds

/-- The scripts of the limiter run in order. -/
def InOrder (limits : Text → ℕ × ℤ) : Label → Server → Server → Prop
  | .evalsha key now, s, _ => Orderly (limits key).2 key now s
  | _, _, _ => True

/-- No accepted call is later than the reading, and the key has not expired over one that lies in
the window. -/
structure Remembered (windowSeconds : ℤ) (key : Text) (now time : ℚ) (store : Store) : Prop where
  latest : ∀ e ∈ (store.history key).rows, e.score ≤ now
  prompt : (∃ e ∈ (store.history key).rows, now - windowSeconds < e.score) →
    ∀ bucket ∈ store.find key, time ≤ bucket.expiresAt

/-- What the reference has of a key, against the last script that accepted a call on it. -/
inductive Noted (windowSeconds : ℤ) : Option Ran → Option Bucket → Prop
  | none : Noted windowSeconds none none
  | last {r : Ran} {full : Bucket} (expiresAt : full.expiresAt = r.time + windowSeconds)
      (latest : ∀ e ∈ full.entries.rows, e.score ≤ r.timestamp) :
      Noted windowSeconds (some r) (some full)

/-- What is left of the accepted calls on a key. -/
structure Holds (maxRequests : ℕ) (windowSeconds : ℤ) (kept full : Bucket) : Prop where
  expiresAt : kept.expiresAt = full.expiresAt
  subset : kept.entries.rows ⊆ full.entries.rows
  few : kept.entries.rows.length ≤ maxRequests
  ne_nil : kept.entries.rows ≠ []
  gone : ∀ e ∈ full.entries.rows, e ∉ kept.entries.rows →
    ∃ a ∈ full.entries.rows, e.score + windowSeconds ≤ a.score
  nonneg : ∀ e ∈ kept.entries.rows, 0 ≤ e.score

/-- The sorted set of a key against all accepted calls on it. -/
inductive Kept (maxRequests : ℕ) (windowSeconds : ℤ) (time : ℚ) :
    Option Bucket → Option Bucket → Prop
  | none : Kept maxRequests windowSeconds time none none
  | expired {full : Bucket} (h : full.expiresAt < time ∨ windowSeconds ≤ 0) :
      Kept maxRequests windowSeconds time none (some full)
  | held {kept full : Bucket} (h : Holds maxRequests windowSeconds kept full) :
      Kept maxRequests windowSeconds time (some kept) (some full)

/-- The limiter and the reference differ in the sorted sets only. -/
structure Matches (limits : Text → ℕ × ℤ) (s t : Server) : Prop where
  time : s.time = t.time
  scriptSha : s.scriptSha = t.scriptSha
  drawn : s.drawn = t.drawn
  scripts : s.scripts = t.scripts
  nonneg : 0 ≤ s.time
  noted : ∀ key, Noted (limits key).2 (s.lastRan key) (t.store.find key)
  kept : ∀ key, Kept (limits key).1 (limits key).2 s.time (s.store.find key) (t.store.find key)

section Sets
variable {maxRequests : ℕ} {windowSeconds : ℤ} {time now : ℚ} {kept full : Option Bucket}
  {key : Text} {token : Token} {s t : Server} {store store' : Store}

theorem mem_put {entries : Table Entry.member} {x e : Entry} :
    e ∈ (entries.put x).rows ↔ e = x ∨ (e ∈ entries.rows ∧ e.member ≠ x.member) := by
  simp only [Table.put, List.mem_append, List.mem_filter, List.mem_singleton, decide_eq_true_eq]
  tauto

theorem length_put_le (entries : Table Entry.member) (x : Entry) :
    (entries.put x).rows.length ≤ entries.rows.length + 1 := by
  simp only [Table.put, List.length_append, List.length_singleton, add_le_add_iff_right]
  exact List.length_filter_le _ _

/-- The smallest of some numbers depends on their set only. -/
theorem min?_congr {xs ys : List ℚ} (h : ∀ x, x ∈ xs ↔ x ∈ ys) : xs.min? = ys.min? := by
  cases hmin : xs.min? with
  | none =>
    rw [List.min?_eq_none_iff] at hmin
    have hys : ys = [] := List.eq_nil_iff_forall_not_mem.mpr fun y hy => by
      simpa [hmin] using (h y).mpr hy
    rw [hys, List.min?_nil]
  | some a =>
    rw [List.min?_eq_some_iff] at hmin
    symm
    rw [List.min?_eq_some_iff]
    exact ⟨(h a).mp hmin.1, fun b hb => hmin.2 b ((h b).mpr hb)⟩

/-- Distinct members make a sorted set. -/
theorem rows_nodup (entries : Table Entry.member) : entries.rows.Nodup :=
  entries.keys_nodup.of_map

/-- The calls that the script counts. -/
def Store.counted (store : Store) (key : Text) (now : ℚ) (windowSeconds : ℤ) (time : ℚ) :
    Table Entry.member :=
  prune (now - windowSeconds) (store.entries key time)

/-- The calls that the reference counts. -/
def Store.recent (store : Store) (key : Text) (now : ℚ) (windowSeconds : ℤ) : List Entry :=
  (store.history key).rows.filter fun e => now - windowSeconds < e.score ∧ e.score ≤ now

/-- The script in terms of what it counts. -/
theorem slidingWindow_eq : slidingWindow key now (now - windowSeconds) windowSeconds maxRequests token
    time store =
      if maxRequests ≤ (store.counted key now windowSeconds time).rows.length then
        (⟨false, (store.counted key now windowSeconds time).rows.length,
          ((store.counted key now windowSeconds time).rows.map Entry.score).min?⟩,
          store.pruned key (store.counted key now windowSeconds time))
      else
        (⟨true, (store.counted key now windowSeconds time).rows.length + 1, none⟩,
          store.expire key ((store.counted key now windowSeconds time).put ⟨token, now⟩)
            windowSeconds time) := rfl

theorem plainWindow_eq : plainWindow key now (now - windowSeconds) windowSeconds maxRequests token
    time store =
      if maxRequests ≤ (store.recent key now windowSeconds).length then
        (⟨false, (store.recent key now windowSeconds).length,
          ((store.recent key now windowSeconds).map Entry.score).min?⟩, store)
      else
        (⟨true, (store.recent key now windowSeconds).length + 1, none⟩,
          store.put ⟨key, (store.history key).put ⟨token, now⟩, time + windowSeconds⟩) := rfl

theorem mem_counted {e : Entry} : e ∈ (store.counted key now windowSeconds time).rows ↔
    e ∈ (store.entries key time).rows ∧ ¬(0 ≤ e.score ∧ e.score ≤ now - windowSeconds) := by
  rw [Store.counted, prune, Table.deleteWhere_rows, List.mem_filter, Bool.not_eq_true',
    decide_eq_false_iff_not]

theorem mem_recent {e : Entry} : e ∈ store.recent key now windowSeconds ↔
    e ∈ (store.history key).rows ∧ now - windowSeconds < e.score ∧ e.score ≤ now := by
  simp [Store.recent]

/-- The script counts what the reference counts. -/
theorem mem_counted_iff (h : Kept maxRequests windowSeconds time (store.find key) (store'.find key))
    (horder : Remembered windowSeconds key now time store') (e : Entry) :
    e ∈ (store.counted key now windowSeconds time).rows ↔
      e ∈ store'.recent key now windowSeconds := by
  rw [mem_counted, mem_recent]
  generalize hkept : store.find key = kept at h
  generalize hfull : store'.find key = full at h
  cases h with
  | none => simp [Store.entries, Store.history, hkept, hfull]
  | @expired full h =>
    have hhistory : store'.history key = full.entries := by simp [Store.history, hfull]
    have hentries : store.entries key time = .empty := by simp [Store.entries, hkept]
    rw [hentries, hhistory]
    constructor
    · rintro ⟨hmem, -⟩
      simp at hmem
    · rintro ⟨hmem, hlow, hhigh⟩
      rcases h with h | h
      · have hprompt := horder.prompt ⟨e, hhistory ▸ hmem, hlow⟩ full (by simp [hfull])
        linarith
      · have hwindow : (windowSeconds : ℚ) ≤ 0 := by exact_mod_cast h
        linarith
  | @held kept full h =>
    have hhistory : store'.history key = full.entries := by simp [Store.history, hfull]
    have hlatest := horder.latest
    have hprompt := horder.prompt
    rw [hhistory] at hlatest hprompt
    rw [hhistory]
    by_cases hexpired : kept.expiresAt < time
    · have hentries : store.entries key time = .empty := by
        simp [Store.entries, hkept, hexpired]
      rw [hentries]
      constructor
      · rintro ⟨hmem, -⟩
        simp at hmem
      · rintro ⟨hmem, hlow, hhigh⟩
        have hle := hprompt ⟨e, hmem, hlow⟩ full (by simp [hfull])
        rw [h.expiresAt] at hexpired
        linarith
    · have hentries : store.entries key time = kept.entries := by
        simp [Store.entries, hkept, hexpired]
      rw [hentries]
      constructor
      · rintro ⟨hmem, hnot⟩
        have hlow : now - windowSeconds < e.score :=
          lt_of_not_ge fun hle => hnot ⟨h.nonneg e hmem, hle⟩
        exact ⟨h.subset hmem, hlow, hlatest e (h.subset hmem)⟩
      · rintro ⟨hmem, hlow, hhigh⟩
        constructor
        · by_contra hgone
          obtain ⟨a, ha, hle⟩ := h.gone e hmem hgone
          have hafter := hlatest a ha
          linarith
        · rintro ⟨-, hle⟩
          linarith

theorem counted_perm (h : Kept maxRequests windowSeconds time (store.find key) (store'.find key))
    (horder : Remembered windowSeconds key now time store') :
    (store.counted key now windowSeconds time).rows.Perm (store'.recent key now windowSeconds) :=
  (List.perm_ext_iff_of_nodup (rows_nodup _) ((rows_nodup _).filter _)).mpr
    (mem_counted_iff h horder)

/-- The script and the reference give the same reply. -/
theorem reply_eq (token : Token) (h : Kept maxRequests windowSeconds time (store.find key) (store'.find key))
    (horder : Remembered windowSeconds key now time store') :
    (slidingWindow key now (now - windowSeconds) windowSeconds maxRequests token time store).1 =
      (plainWindow key now (now - windowSeconds) windowSeconds maxRequests token time store').1 := by
  have hlength := (counted_perm h horder).length_eq
  have hmin : ((store.counted key now windowSeconds time).rows.map Entry.score).min? =
      ((store'.recent key now windowSeconds).map Entry.score).min? := by
    apply min?_congr
    simp [mem_counted_iff h horder]
  rw [slidingWindow_eq, plainWindow_eq, hlength, hmin]
  split <;> rfl

theorem Kept.nonneg (h : Kept maxRequests windowSeconds time (store.find key) full) :
    ∀ e ∈ (store.entries key time).rows, 0 ≤ e.score := by
  intro e he
  generalize hkept : store.find key = kept at h
  rw [Store.entries, hkept] at he
  cases h with
  | none => simp at he
  | expired => simp at he
  | held h =>
    simp only at he
    split at he
    · simp at he
    · exact h.nonneg e he

theorem find_delete_self : (store.deleteWhere fun bucket => bucket.key = key).find key = none := by
  rw [Table.find_deleteWhere, Option.filter_eq_none_iff]
  intro bucket hbucket
  simp [Table.key_of_find hbucket]

/-- An accepted call is put into both. What the script has dropped lies outside its window. -/
theorem kept_accept (token : Token) (h : Kept maxRequests windowSeconds time (store.find key) (store'.find key))
    (horder : Remembered windowSeconds key now time store') (hnow : 0 ≤ now)
    (hroom : (store.counted key now windowSeconds time).rows.length < maxRequests) :
    Kept maxRequests windowSeconds time
      ((store.expire key ((store.counted key now windowSeconds time).put ⟨token, now⟩)
        windowSeconds time).find key)
      (some ⟨key, (store'.history key).put ⟨token, now⟩, time + windowSeconds⟩) := by
  by_cases hwindow : windowSeconds ≤ 0
  · rw [Store.expire, if_pos hwindow, find_delete_self]
    exact .expired (Or.inr hwindow)
  · rw [Store.expire, if_neg hwindow, Table.find_put, if_pos rfl]
    apply Kept.held
    constructor
    · rfl
    · intro e he
      rw [mem_put] at he ⊢
      rcases he with rfl | ⟨he, hne⟩
      · exact Or.inl rfl
      · exact Or.inr ⟨(mem_recent.mp ((mem_counted_iff h horder e).mp he)).1, hne⟩
    · exact (length_put_le _ _).trans hroom
    · exact List.ne_nil_of_mem (mem_put.mpr (Or.inl rfl))
    · intro e he hgone
      rw [mem_put] at he hgone
      push Not at hgone
      rcases he with rfl | ⟨he, hne⟩
      · exact absurd rfl hgone.1
      -- an entry that the script does not count is a window older than the call
      · refine ⟨⟨token, now⟩, mem_put.mpr (Or.inl rfl), ?_⟩
        have hnot : e ∉ store'.recent key now windowSeconds := fun hmem =>
          hne (hgone.2 ((mem_counted_iff h horder e).mpr hmem))
        rw [mem_recent] at hnot
        by_contra hlow
        exact hnot ⟨he, by linarith, horder.latest e he⟩
    · intro e he
      rw [mem_put] at he
      rcases he with rfl | ⟨he, -⟩
      · exact hnow
      · exact h.nonneg e (mem_counted.mp he).1

/-- A rejected call has found as many calls as there may be, so that it prunes none. -/
theorem kept_reject (h : Kept maxRequests windowSeconds time (store.find key) (store'.find key))
    (hfull : maxRequests ≤ (store.counted key now windowSeconds time).rows.length) :
    Kept maxRequests windowSeconds time
      ((store.pruned key (store.counted key now windowSeconds time)).find key)
      (store'.find key) := by
  generalize hkept : store.find key = kept at h
  generalize store'.find key = full at h
  cases h with
  | none =>
    rw [Store.pruned, hkept]
    simp only [hkept]
    exact .none
  | expired h =>
    rw [Store.pruned, hkept]
    simp only [hkept]
    exact .expired h
  | @held kept full h =>
    rw [Store.pruned, hkept]
    by_cases hexpired : kept.expiresAt < time
    · have hempty : (store.counted key now windowSeconds time).rows = [] := by
        simp [Store.counted, prune, Store.entries, hkept, hexpired]
      simp only [hempty, if_true, Table.find_deleteWhere, hkept, Option.filter_some]
      rw [if_neg (by simp [Table.key_of_find hkept])]
      exact .expired (Or.inl (h.expiresAt ▸ hexpired))
    · have hentries : store.entries key time = kept.entries := by
        simp [Store.entries, hkept, hexpired]
      have hsame : store.counted key now windowSeconds time = kept.entries := by
        have hsub : (store.counted key now windowSeconds time).rows.Sublist kept.entries.rows := by
          rw [Store.counted, prune, Table.deleteWhere_rows, hentries]
          exact List.filter_sublist
        exact Table.ext (hsub.eq_of_length_le (h.few.trans hfull))
      simp only [hsame, if_neg h.ne_nil, Table.find_put, if_true]
      exact .held ⟨h.expiresAt, h.subset, h.few, h.ne_nil, h.gone, h.nonneg⟩

theorem find_delete_of_ne {other : Text} (hne : other ≠ key) :
    (store.deleteWhere fun bucket => bucket.key = key).find other = store.find other := by
  rw [Table.find_deleteWhere]
  cases hfind : store.find other with
  | none => rfl
  | some bucket => exact Option.filter_some_pos (by simpa [Table.key_of_find hfind] using hne)

theorem find_expire_of_ne {entries : Table Entry.member} {other : Text} (hne : other ≠ key) :
    (store.expire key entries windowSeconds time).find other = store.find other := by
  rw [Store.expire]
  split
  · exact find_delete_of_ne hne
  · rw [Table.find_put, if_neg hne]

theorem find_pruned_of_ne {entries : Table Entry.member} {other : Text} (hne : other ≠ key) :
    (store.pruned key entries).find other = store.find other := by
  rw [Store.pruned]
  split
  · split
    · exact find_delete_of_ne hne
    · rw [Table.find_put, if_neg hne]
  · rfl

theorem Kept.later (h : Kept maxRequests windowSeconds time kept full) {time' : ℚ}
    (hle : time ≤ time') : Kept maxRequests windowSeconds time' kept full := by
  cases h with
  | none => exact .none
  | expired h => exact .expired (h.imp_left fun hlt => lt_of_lt_of_le hlt hle)
  | held h => exact .held h

theorem Kept.reap (h : Kept maxRequests windowSeconds time kept full) :
    Kept maxRequests windowSeconds time
      (kept.filter fun bucket => ¬bucket.expiresAt < time) full := by
  cases h with
  | none => exact .none
  | expired h => exact .expired h
  | @held kept full h =>
    by_cases hexpired : kept.expiresAt < time
    · rw [Option.filter_some_neg (by simpa using hexpired)]
      exact .expired (Or.inl (h.expiresAt ▸ hexpired))
    · rw [Option.filter_some_pos (by simpa using hexpired)]
      exact .held h

theorem find_reap :
    (store.reap key time).find key = (store.find key).filter fun bucket => ¬bucket.expiresAt < time := by
  rw [Store.reap, Table.find_deleteWhere]
  cases hfind : store.find key with
  | none => rfl
  | some bucket => simp [Option.filter_some, Table.key_of_find hfind]

theorem find_reap_of_ne {other : Text} (hne : other ≠ key) :
    (store.reap key time).find other = store.find other := by
  rw [Store.reap, Table.find_deleteWhere]
  cases hfind : store.find other with
  | none => rfl
  | some bucket => exact Option.filter_some_pos (by simp [Table.key_of_find hfind, hne])

end Sets

section Alike
variable {limits : Text → ℕ × ℤ} {key : Text} {now : ℚ} {token : Token} {s t : Server}

/-- What the order of the scripts says about the calls that the reference has. -/
theorem Matches.remembered (h : Matches limits s t) (horder : Orderly (limits key).2 key now s) :
    Remembered (limits key).2 key now s.time t.store := by
  have hnoted := h.noted key
  rcases horder with ⟨hlatest, hprompt⟩
  generalize s.lastRan key = last at hnoted hlatest hprompt
  generalize hfind : t.store.find key = full at hnoted
  cases hnoted with
  | none =>
    constructor
    · simp [Store.history, hfind]
    · simp [hfind]
  | @last r full hexpires hscores =>
    have hhistory : t.store.history key = full.entries := by simp [Store.history, hfind]
    constructor
    · intro e he
      rw [hhistory] at he
      exact (hscores e he).trans (hlatest r rfl)
    · rintro ⟨e, he, hlow⟩ bucket hbucket
      rw [hhistory] at he
      rw [hfind, Option.mem_some_iff] at hbucket
      rw [← hbucket, hexpires]
      exact hprompt r rfl (hlow.trans_le (hscores e he))

theorem lastRan_ran {reply : Reply} {store : Store} {other : Text} :
    (s.ran key now (reply, store)).lastRan other =
      if reply.accepted = true ∧ other = key then some ⟨key, now, s.time⟩ else s.lastRan other := by
  by_cases haccepted : reply.accepted = true
  · by_cases hother : other = key
    · simp [Server.lastRan, Server.scriptsOn, Server.ran, haccepted, hother]
    · simp [Server.lastRan, Server.scriptsOn, Server.ran, haccepted, hother, Ne.symm hother]
  · simp [Server.lastRan, Server.scriptsOn, Server.ran, haccepted]

/-- An accepted call is the last one, and it is no earlier than the others. -/
theorem Matches.noted_plainWindow (h : Matches limits s t) (token : Token)
    (hremembered : Remembered (limits key).2 key now s.time t.store) (other : Text) :
    Noted (limits other).2
      ((t.ran key now (plainWindow key now (now - (limits key).2) (limits key).2 (limits key).1 token
        t.time t.store)).lastRan other)
      ((plainWindow key now (now - (limits key).2) (limits key).2 (limits key).1 token t.time
        t.store).2.find other) := by
  have hnoted : Noted (limits other).2 (t.lastRan other) (t.store.find other) := by
    have hlast : s.lastRan other = t.lastRan other := by
      rw [Server.lastRan, Server.lastRan, Server.scriptsOn, Server.scriptsOn, h.scripts]
    exact hlast ▸ h.noted other
  rw [plainWindow_eq, lastRan_ran]
  split
  · simpa using hnoted
  · by_cases hother : other = key
    · subst hother
      simp only [true_and, if_true, Table.find_put]
      constructor
      · rfl
      · intro e he
        rcases mem_put.mp he with rfl | ⟨he, -⟩
        · exact le_rfl
        · exact hremembered.latest e he
    · simpa [Table.find_put, hother] using hnoted

/-- The sorted sets after a script has run in both. -/
theorem Matches.kept_script (h : Matches limits s t) (token : Token) (hnow : 0 ≤ now)
    (hremembered : Remembered (limits key).2 key now s.time t.store) (other : Text) :
    Kept (limits other).1 (limits other).2 s.time
      ((slidingWindow key now (now - (limits key).2) (limits key).2 (limits key).1 token s.time
        s.store).2.find other)
      ((plainWindow key now (now - (limits key).2) (limits key).2 (limits key).1 token t.time
        t.store).2.find other) := by
  have hkept := h.kept key
  have hlength := (counted_perm hkept hremembered).length_eq
  by_cases hroom : (limits key).1 ≤
      (s.store.counted key now (limits key).2 s.time).rows.length
  · have hroom' : (limits key).1 ≤ (t.store.recent key now (limits key).2).length :=
      hlength ▸ hroom
    rw [slidingWindow_eq, plainWindow_eq, if_pos hroom, if_pos hroom']
    by_cases hother : other = key
    · rw [hother]
      exact kept_reject hkept hroom
    · rw [find_pruned_of_ne hother]
      exact h.kept other
  · have hroom' : ¬(limits key).1 ≤ (t.store.recent key now (limits key).2).length :=
      hlength ▸ hroom
    have haccept := kept_accept token hkept hremembered hnow (not_le.mp hroom)
    rw [slidingWindow_eq, plainWindow_eq, if_neg hroom, if_neg hroom']
    by_cases hother : other = key
    · rw [hother, Table.find_put, if_pos rfl, ← h.time]
      exact haccept
    · rw [find_expire_of_ne hother, Table.find_put, if_neg hother]
      exact h.kept other

/-- The two servers after a script has run in both. -/
theorem Matches.script (h : Matches limits s t) (token : Token) (hnow : 0 ≤ now)
    (hremembered : Remembered (limits key).2 key now s.time t.store) :
    Matches limits
      (s.ran key now (slidingWindow key now (now - (limits key).2) (limits key).2 (limits key).1
        token s.time s.store))
      (t.ran key now (plainWindow key now (now - (limits key).2) (limits key).2 (limits key).1
        token t.time t.store)) := by
  have hscripts : (s.ran key now (slidingWindow key now (now - (limits key).2) (limits key).2
      (limits key).1 token s.time s.store)).scripts = (t.ran key now (plainWindow key now
        (now - (limits key).2) (limits key).2 (limits key).1 token t.time t.store)).scripts := by
    simp only [Server.ran]
    rw [h.time] at hremembered ⊢
    rw [reply_eq token (h.time ▸ h.kept key) hremembered, h.scripts]
  refine ⟨h.time, h.scriptSha, h.drawn, hscripts, h.nonneg, fun other => ?_,
    h.kept_script token hnow hremembered⟩
  rw [Server.lastRan, Server.scriptsOn, hscripts]
  exact h.noted_plainWindow token hremembered other

/-- Which calls have learnt of their acceptance does not matter. -/
theorem Matches.accepted (h : Matches limits s t) (accepted accepted' : List Accepted) :
    Matches limits { s with accepted := accepted } { t with accepted := accepted' } :=
  ⟨h.time, h.scriptSha, h.drawn, h.scripts, h.nonneg, h.noted, h.kept⟩

/-- A step that both take in the same way. -/
theorem alike_same {α : Type} {K : α → Prop} {label : Label}
    {act act' : ℕ → Server → Choice → Option (Server × Except Exn α)}
    (same : ∀ pid s t choice, Matches limits s t →
      act pid s choice = none ∧ act' pid t choice = none ∨
        ∃ s' t' r, act pid s choice = some (s', r) ∧ act' pid t choice = some (t', r) ∧
          Matches limits s' t' ∧ ∀ value, r = .ok value → K value) :
    (Program.perform label act).Alike (Matches limits) (InOrder limits) K
      (Program.perform label act') := by
  apply Program.alike_perform
  · intro pid s t choice h
    rcases same pid s t choice h with ⟨hs, ht⟩ | ⟨s', t', r, hs, ht, -⟩ <;> simp [hs, ht]
  · intro pid s t choice s' r h _ hact
    rcases same pid s t choice h with ⟨hs, ht⟩ | ⟨s₁, t', r', hs, ht, hmatches, hvalue⟩
    · rw [hs] at hact
      cases hact
    · rw [hs] at hact
      cases hact
      exact ⟨⟨t', ht, hmatches⟩, hvalue⟩

theorem alike_evalsha (key : Text) (token : Token) (hnow : 0 ≤ now) :
    (evalshaBy slidingWindow key now (now - (limits key).2) (limits key).2 (limits key).1
      token).Alike (Matches limits) (InOrder limits) (fun _ => True)
        (evalshaBy plainWindow key now (now - (limits key).2) (limits key).2 (limits key).1
          token) := by
  apply Program.alike_perform
  · intro pid s t choice _
    cases choice.fails <;> rfl
  · intro pid s t choice s' r h horder hact
    have hremembered := h.remembered horder
    have hscript := h.script token hnow hremembered
    cases hfails : choice.fails with
    | true =>
      simp only [hfails, if_true, Option.some.injEq, Prod.mk.injEq] at hact ⊢
      rcases hact with ⟨rfl, rfl⟩
      refine ⟨⟨_, ⟨rfl, rfl⟩, ?_⟩, fun _ _ => trivial⟩
      cases choice.landed with
      | true => exact hscript
      | false => exact h
    | false =>
      simp only [hfails, Bool.false_eq_true, if_false, Option.some.injEq, Prod.mk.injEq] at hact ⊢
      rcases hact with ⟨rfl, rfl⟩
      have hreply := reply_eq token (h.kept key) hremembered
      refine ⟨⟨_, ⟨rfl, ?_⟩, hscript.accepted _ _⟩, fun _ _ => trivial⟩
      rw [hreply, h.time]

theorem alike_scriptLoad :
    scriptLoad.Alike (Matches limits) (InOrder limits) (fun _ => True) scriptLoad := by
  apply alike_same
  intro pid s t choice h
  by_cases hfails : choice.fails = true
  · exact Or.inr ⟨s, t, _, if_pos hfails, if_pos hfails, h, fun _ _ => trivial⟩
  · exact Or.inr ⟨{ s with scriptSha := true }, { t with scriptSha := true }, _, if_neg hfails,
      if_neg hfails, ⟨h.time, rfl, h.drawn, h.scripts, h.nonneg, h.noted, h.kept⟩, fun _ _ => trivial⟩

theorem alike_evalScript (key : Text) (token : Token) (hnow : 0 ≤ now) :
    (evalScriptBy slidingWindow key now (now - (limits key).2) (limits key).2 (limits key).1
      token).Alike (Matches limits) (InOrder limits) (fun _ => True)
        (evalScriptBy plainWindow key now (now - (limits key).2) (limits key).2 (limits key).1
          token) := by
  have hcached : cachedSha.Alike (Matches limits) (InOrder limits) (fun _ => True) cachedSha := by
    apply alike_same
    intro pid s t choice h
    exact Or.inr ⟨s, t, .ok s.scriptSha, rfl, by rw [h.scriptSha], h, fun _ _ => trivial⟩
  have hrun : (evalshaBy slidingWindow key now (now - (limits key).2) (limits key).2 (limits key).1
      token).Alike (Matches limits) (InOrder limits) (fun _ => True) (evalshaBy plainWindow key now
        (now - (limits key).2) (limits key).2 (limits key).1 token) := alike_evalsha key token hnow
  apply hcached.bind
  intro cached _
  cases cached with
  | true => exact hrun.tryCatch fun _ => alike_scriptLoad.bind fun _ _ => hrun
  | false =>
    apply alike_scriptLoad.bind
    intro _ _
    exact hrun.tryCatch fun _ => alike_scriptLoad.bind fun _ _ => hrun

theorem alike_rateLimit (key : Text) :
    (rateLimit key (limits key).1 (limits key).2).Alike (Matches limits) (InOrder limits)
      (fun _ => True) (rateLimitBy plainWindow key (limits key).1 (limits key).2) := by
  have hgetRedis : getRedis.Alike (Matches limits) (InOrder limits) (fun _ => True) getRedis := by
    apply alike_same
    intro pid s t choice h
    by_cases hfails : choice.fails = true
    · exact Or.inr ⟨s, t, _, if_pos hfails, if_pos hfails, h, fun _ _ => trivial⟩
    · exact Or.inr ⟨s, t, _, if_neg hfails, if_neg hfails, h, fun _ _ => trivial⟩
  have hclock : clock.Alike (Matches limits) (InOrder limits) (fun now => 0 ≤ now) clock := by
    apply alike_same
    intro pid s t choice h
    refine Or.inr ⟨s, t, .ok s.time, rfl, by rw [h.time], h, ?_⟩
    intro now hnow
    cases hnow
    exact h.nonneg
  have htoken : tokenHex.Alike (Matches limits) (InOrder limits) (fun _ => True) tokenHex := by
    apply alike_same
    intro pid s t choice h
    rw [h.drawn]
    by_cases hdrawn : (t.drawn.any fun entry => entry.1 = choice.token) = true
    · exact Or.inl ⟨if_pos hdrawn, if_pos hdrawn⟩
    · exact Or.inr ⟨_, _, _, if_neg hdrawn, if_neg hdrawn,
        ⟨h.time, h.scriptSha, rfl, h.scripts, h.nonneg, h.noted, h.kept⟩, fun _ _ => trivial⟩
  rw [rateLimit_eq]
  have havailable : (tryCatch (do getRedis; return true) fun _ => pure false : Call Bool).Alike
      (Matches limits) (InOrder limits) (fun _ => True)
      (tryCatch (do getRedis; return true) fun _ => pure false) :=
    (hgetRedis.bind fun _ _ => .done trivial).tryCatch fun _ => .done trivial
  apply havailable.bind
  intro available _
  cases available with
  | false => exact .done trivial
  | true =>
    apply hclock.bind
    intro now hnow
    apply htoken.bind
    intro token _
    apply (alike_evalScript key token hnow).bind
    intro reply _
    rcases reply with ⟨accepted, count, oldest⟩
    cases accepted with
    | true => exact .done trivial
    | false => exact .raise _

theorem alike_serve (request : Traffic) :
    ((limiterSystem limits).serve request).Alike (Matches limits) (InOrder limits)
      (fun _ => True) ((referenceSystem limits).serve request) := by
  cases request with
  | call key => exact alike_rateLimit key
  | tick =>
    apply alike_same
    intro pid s t choice h
    by_cases hdelay : choice.delay < 0
    · exact Or.inl ⟨if_pos hdelay, if_pos hdelay⟩
    · refine Or.inr ⟨_, _, _, if_neg hdelay, if_neg hdelay, ?_, fun _ _ => trivial⟩
      have hlater : s.time ≤ s.time + choice.delay := by linarith
      exact ⟨by simp [h.time], h.scriptSha, h.drawn, h.scripts, h.nonneg.trans hlater, h.noted,
        fun key => (h.kept key).later hlater⟩
  | expire key =>
    apply alike_same
    intro pid s t choice h
    refine Or.inr ⟨_, _, _, rfl, rfl, ?_, fun _ _ => trivial⟩
    refine ⟨h.time, h.scriptSha, h.drawn, h.scripts, h.nonneg, h.noted, fun other => ?_⟩
    by_cases hother : other = key
    · rw [hother, find_reap]
      exact (h.kept key).reap
    · rw [find_reap_of_ne hother]
      exact h.kept other

end Alike

/-- In lockstep with the reference, the limiter shows the same calls with the same results and takes
the same events; and a script that runs in order accepts exactly when fewer than the maximum of the
accepted calls on its key lie in the window that ends at its reading. -/
theorem limiter_eq_reference (limits : Text → ℕ × ℤ) (time : ℚ) (scriptSha : Bool) (hepoch : 0 ≤ time)
    {c d : Pool Server Choice Label Traffic Exn Unit}
    (lock : (limiterSystem limits).Lockstep (referenceSystem limits) (InOrder limits)
      (.init (serverOf .empty time scriptSha)) (.init (serverOf .empty time scriptSha)) c d) :
    c.view.tasks = d.view.tasks ∧
    (∀ e, ((limiterSystem limits).next c e).map Prod.fst =
      ((referenceSystem limits).next d e).map Prod.fst) ∧
    ∀ key now token, Orderly (limits key).2 key now c.shared →
      ((slidingWindow key now (now - (limits key).2) (limits key).2 (limits key).1 token
          c.shared.time c.shared.store).1.accepted = true ↔
        ((d.shared.store.history key).rows.filter fun e =>
          now - (limits key).2 < e.score ∧ e.score ≤ now).length < (limits key).1) := by
  have hstart : Matches limits (serverOf .empty time scriptSha) (serverOf .empty time scriptSha) :=
    ⟨rfl, rfl, rfl, rfl, hepoch, fun _ => .none, fun _ => .none⟩
  have hmatched := lock.matched alike_serve (fun _ _ _ h => h) (Pool.Matched.init hstart)
  refine ⟨hmatched.view_tasks, System.next_fst_eq hmatched, ?_⟩
  intro key now token horder
  have hremembered := hmatched.shared.remembered horder
  rw [reply_eq token (hmatched.shared.kept key) hremembered, plainWindow]
  split <;> simp_all

section Sample

instance (windowSeconds : ℤ) (key : Text) (now : ℚ) (s : Server) :
    Decidable (Orderly windowSeconds key now s) :=
  decidable_of_iff
    ((∀ r ∈ s.lastRan key, r.timestamp ≤ now) ∧
      ∀ r ∈ s.lastRan key, now - windowSeconds < r.timestamp → s.time ≤ r.time + windowSeconds)
    ⟨fun h => ⟨h.1, h.2⟩, fun h => ⟨h.latest, h.prompt⟩⟩

instance (limits : Text → ℕ × ℤ) (label : Label) (s t : Server) :
    Decidable (InOrder limits label s t) := by
  unfold InOrder
  split <;> infer_instance

/-- A call, `delay` after what came before. -/
def callAfter (delay : ℚ) (pid : ℕ) (token : Token) : List (Event Choice Traffic) :=
  [.start .tick, .act pid { delay := delay }, .act pid {}, .start (.call sampleKey),
    .act (pid + 1) {}, .act (pid + 1) {}, .act (pid + 1) { token := token }, .act (pid + 1) {},
    .act (pid + 1) {}, .act (pid + 1) {}]

/-- One call in ten seconds. -/
def oneInTen : Text → ℕ × ℤ := fun _ => (1, 10)

/-- The scripts run in the order of what their calls read, and each of them less than the time to
live later than its call did. -/
def WithinTtl (limits : Text → ℕ × ℤ) : Label → Server → Server → Prop
  | .evalsha key now, s, _ =>
    (∀ r ∈ s.scriptsOn key, r.timestamp ≤ now) ∧ s.time - now < (limits key).2
  | _, _, _ => True

instance (limits : Text → ℕ × ℤ) (label : Label) (s t : Server) :
    Decidable (WithinTtl limits label s t) := by
  unfold WithinTtl
  split <;> infer_instance

/-- A call at 0, and one that reads 5 and whose script runs at 14. -/
def heldUp : List (Event Choice Traffic) :=
  callAfter 0 0 1 ++ [.start .tick, .act 2 { delay := 5 }, .act 2 {}, .start (.call sampleKey),
    .act 3 {}, .act 3 {}, .act 3 { token := 2 }, .act 3 {}, .start .tick, .act 4 { delay := 9 },
    .act 4 {}, .act 3 {}, .act 3 {}]

/-- The key has expired over the call at 0 when the second script runs, so that the limiter accepts
it, although the call at 0 lies in its window. -/
theorem expired_in_window : ∃ c d : Pool Server Choice Label Traffic Exn Unit,
    (limiterSystem oneInTen).Lockstep (referenceSystem oneInTen) (WithinTtl oneInTen)
      (.init (serverOf .empty 0 true)) (.init (serverOf .empty 0 true)) c d ∧
    c.shared.scripts = [⟨sampleKey, 0, 0⟩, ⟨sampleKey, 5, 14⟩] ∧
    d.shared.scripts = [⟨sampleKey, 0, 0⟩] := by
  rcases System.exists_lockstep (WithinTtl oneInTen) (limiterSystem oneInTen)
    (referenceSystem oneInTen) (.init (serverOf .empty 0 true)) (.init (serverOf .empty 0 true))
    heldUp (fun s t => s.shared.scripts = [⟨sampleKey, 0, 0⟩, ⟨sampleKey, 5, 14⟩] ∧
      t.shared.scripts = [⟨sampleKey, 0, 0⟩]) (by decide +kernel) with ⟨c, d, lock, h⟩
  exact ⟨c, d, lock, of_decide_eq_true h⟩

/-- Calls at 5, 6, 9 and 16, and at 27, when Redis has deleted the key. -/
def sampleTraffic : List (Event Choice Traffic) :=
  callAfter 5 0 1 ++ callAfter 1 2 2 ++ callAfter 3 4 3 ++ callAfter 7 6 4 ++
    [.start .tick, .act 8 { delay := 11 }, .act 8 {}, .start (.expire sampleKey), .act 9 {}, .act 9 {}] ++
    callAfter 0 10 5

theorem limiter_eq_reference_sample : ∃ c d : Pool Server Choice Label Traffic Exn Unit,
    (limiterSystem twoInTen).Lockstep (referenceSystem twoInTen) (InOrder twoInTen)
      (.init (serverOf .empty 0 true)) (.init (serverOf .empty 0 true)) c d ∧
    (d.shared.store.history sampleKey).rows.length = 4 ∧ c.view.tasks = d.view.tasks := by
  rcases System.exists_lockstep (InOrder twoInTen) (limiterSystem twoInTen)
    (referenceSystem twoInTen) (.init (serverOf .empty 0 true)) (.init (serverOf .empty 0 true))
    sampleTraffic (fun _ t => (t.shared.store.history sampleKey).rows.length = 4)
    (by decide +kernel) with ⟨c, d, lock, hcount⟩
  exact ⟨c, d, lock, of_decide_eq_true hcount,
    (limiter_eq_reference twoInTen 0 true le_rfl lock).1⟩

end Sample

end PhantomShare.RateLimit
