import Mathlib.Data.List.Perm.Subperm
import PhantomShare.Core.RateLimit
import PhantomShare.Foundations.RelyGuarantee
import PhantomShare.Foundations.Counting

/-!
# The bound of the sliding window

The script runs alone, but its time is read before it. A call with a later
reading may have pruned, and the expiry of the key may have dropped, what lies in
the window of a call with an earlier reading. The bound holds in the runs whose
scripts still find what lies in their windows.
-/
namespace PhantomShare.RateLimit
open Foundations Internet

inductive Request where
  | call (key : Text)
  | tick
  deriving DecidableEq

/-- Calls on any keys, each with the maximum and the window of its key, and the clock. -/
def system (limits : Text → ℕ × ℤ) : System Server Choice Label Request Exn Unit where
  serve
    | .call key => rateLimit key (limits key).1 (limits key).2
    | .tick => tick
  recover _ s := s

/-- What the accepted calls on a key read from the clock. -/
def Server.timestamps (s : Server) (key : Text) : List ℚ :=
  (s.accepted.filter fun a => a.key = key).map Accepted.timestamp

def Server.tokens (s : Server) : List Token := s.accepted.map Accepted.token

/-- The sorted set holds every accepted timestamp that is less than a window away from `now`. -/
def Server.HoldsAround (s : Server) (key : Text) (windowSeconds : ℤ) (now : ℚ) : Prop :=
  ∀ a ∈ s.accepted, a.key = key → |a.timestamp - now| < windowSeconds →
    ⟨a.token, a.timestamp⟩ ∈ (s.store.entries key s.time).rows

instance (s : Server) (key : Text) (windowSeconds : ℤ) (now : ℚ) :
    Decidable (s.HoldsAround key windowSeconds now) :=
  inferInstanceAs (Decidable (∀ a ∈ s.accepted, _ → _ → _))

/-- Nothing that a script has to count is missing where it finds room. -/
def Complete (limits : Text → ℕ × ℤ) (v : View Server Request Exn Unit) :
    Occurrence Label Request Exn Unit → Prop
  | .performed _ (.evalsha key now) =>
    (prune (now - (limits key).2) (v.shared.store.entries key v.shared.time)).rows.length <
      (limits key).1 → v.shared.HoldsAround key (limits key).2 now
  | _ => True

instance (limits : Text → ℕ × ℤ) (v : View Server Request Exn Unit)
    (o : Occurrence Label Request Exn Unit) : Decidable (Complete limits v o) := by
  unfold Complete
  split <;> infer_instance

/-- Tokens are drawn once, and no window holds more accepted calls than allowed. -/
structure Tracked (limits : Text → ℕ × ℤ) (s : Server) : Prop where
  drawn_nodup : (s.drawn.map Prod.fst).Nodup
  tokens_nodup : s.tokens.Nodup
  tokens_drawn : ∀ token ∈ s.tokens, token ∈ s.drawn.map Prod.fst
  bound : ∀ key, WindowBound (limits key).1 ((limits key).2 : ℚ) (s.timestamps key)

theorem tracked_serverOf (limits : Text → ℕ × ℤ) (store : Store) (time : ℚ) (scriptSha : Bool) :
    Tracked limits (serverOf store time scriptSha) where
  drawn_nodup := List.nodup_nil
  tokens_nodup := List.nodup_nil
  tokens_drawn := by simp [Server.tokens, serverOf]
  bound key := windowBound_nil _ _

/-- The tokens of a call stay its own: the others do not use them. -/
structure Leaves (pid : ℕ) (s s' : Server) : Prop where
  drawn : ∀ token, (token, pid) ∈ s.drawn → (token, pid) ∈ s'.drawn
  unused : ∀ token, (token, pid) ∈ s.drawn → token ∈ s'.tokens → token ∈ s.tokens

theorem Leaves.of_eq {pid : ℕ} {s s' : Server} (hdrawn : s'.drawn = s.drawn)
    (haccepted : s'.accepted = s.accepted) : Leaves pid s s' where
  drawn token h := hdrawn ▸ h
  unused token _ h := by rwa [Server.tokens, ← haccepted]

theorem Leaves.trans {pid : ℕ} {a b c : Server} (hab : Leaves pid a b) (hbc : Leaves pid b c) :
    Leaves pid a c where
  drawn token h := hbc.drawn token (hab.drawn token h)
  unused token h hc := hab.unused token h (hbc.unused token (hab.drawn token h) hc)

/-- A token that a call drew and that no accepted call has. -/
structure Unused (pid : ℕ) (token : Token) (s : Server) : Prop where
  drawn : (token, pid) ∈ s.drawn
  fresh : token ∉ s.tokens

theorem Unused.leaves {pid : ℕ} {token : Token} {s s' : Server} (h : Unused pid token s)
    (hleaves : Leaves pid s s') : Unused pid token s' where
  drawn := hleaves.drawn token h.drawn
  fresh hused := h.fresh (hleaves.unused token h.drawn hused)

/-- Who draws a token is determined by it. -/
theorem drawn_inj {limits : Text → ℕ × ℤ} {s : Server} (tracked : Tracked limits s)
    {token : Token} {pid k : ℕ} (hpid : (token, pid) ∈ s.drawn) (hk : (token, k) ∈ s.drawn) :
    k = pid :=
  congrArg Prod.snd (List.inj_on_of_nodup_map tracked.drawn_nodup hk hpid rfl)

theorem Tracked.of_eq {limits : Text → ℕ × ℤ} {s s' : Server} (tracked : Tracked limits s)
    (hdrawn : s'.drawn = s.drawn) (haccepted : s'.accepted = s.accepted) : Tracked limits s' where
  drawn_nodup := hdrawn ▸ tracked.drawn_nodup
  tokens_nodup := by rw [Server.tokens, haccepted]; exact tracked.tokens_nodup
  tokens_drawn := by rw [Server.tokens, haccepted, hdrawn]; exact tracked.tokens_drawn
  bound key := by rw [Server.timestamps, haccepted]; exact tracked.bound key

theorem Tracked.draw {limits : Text → ℕ × ℤ} {s : Server} (tracked : Tracked limits s)
    {token : Token} {pid : ℕ} (fresh : token ∉ s.drawn.map Prod.fst) :
    Tracked limits { s with drawn := s.drawn ++ [(token, pid)] } where
  drawn_nodup := by
    rw [List.map_append, List.map_singleton]
    exact List.nodup_append.mpr ⟨tracked.drawn_nodup, List.nodup_singleton _, by
      intro a ha b hb hab
      rw [List.mem_singleton] at hb
      rw [hab, hb] at ha
      exact fresh ha⟩
  tokens_nodup := tracked.tokens_nodup
  tokens_drawn t ht := by
    rw [List.map_append]
    exact List.mem_append_left _ (tracked.tokens_drawn t ht)
  bound := tracked.bound

/-- What lies less than a window away survives the pruning. -/
theorem mem_prune {entries : Table Entry.member} {token : Token} {t now length : ℚ}
    (hmem : ⟨token, t⟩ ∈ entries.rows) (hnear : |t - now| < length) :
    ⟨token, t⟩ ∈ (prune (now - length) entries).rows := by
  rw [prune, Table.deleteWhere_rows, List.mem_filter]
  refine ⟨hmem, ?_⟩
  have hlate : now - length < t := by
    have hlow := (abs_lt.mp hnear).1
    linarith
  simp [not_le.mpr hlate]

/-- The script counts every accepted timestamp less than a window away from its own. -/
theorem near_le_entries {s : Server} {key : Text} {windowSeconds : ℤ} {now : ℚ}
    (hnodup : s.tokens.Nodup) (hholds : s.HoldsAround key windowSeconds now) :
    ((s.timestamps key).filter fun t => |t - now| < windowSeconds).length ≤
      (prune (now - windowSeconds) (s.store.entries key s.time)).rows.length := by
  let near := s.accepted.filter fun a => a.key = key ∧ |a.timestamp - now| < windowSeconds
  have hlength : ((s.timestamps key).filter fun t => |t - now| < windowSeconds).length =
      (near.map fun a => (⟨a.token, a.timestamp⟩ : Entry)).length := by
    rw [Server.timestamps, List.filter_map, List.length_map, List.filter_filter, List.length_map]
    congr 2
    funext a
    simp [Bool.and_comm]
  have hdistinct : (near.map fun a => (⟨a.token, a.timestamp⟩ : Entry)).Nodup := by
    apply List.Nodup.of_map Entry.member
    rw [List.map_map]
    exact hnodup.sublist (List.filter_sublist.map _)
  have hsubset : (near.map fun a => (⟨a.token, a.timestamp⟩ : Entry)) ⊆
      (prune (now - windowSeconds) (s.store.entries key s.time)).rows := by
    intro e he
    rcases List.mem_map.mp he with ⟨a, ha, rfl⟩
    simp only [near, List.mem_filter, decide_eq_true_eq] at ha
    exact mem_prune (hholds a ha.1 ha.2.1 ha.2.2) ha.2.2
  rw [hlength]
  exact (List.subperm_of_subset hdistinct hsubset).length_le

/-- A call that is accepted where its script finds what lies in its window keeps the bounds. -/
theorem Tracked.accept {limits : Text → ℕ × ℤ} {s : Server} (tracked : Tracked limits s)
    {pid : ℕ} {token : Token} (hunused : Unused pid token s) {key : Text} {now : ℚ}
    (hroom : (prune (now - (limits key).2) (s.store.entries key s.time)).rows.length <
      (limits key).1) (hholds : s.HoldsAround key (limits key).2 now)
    {s' : Server} (hdrawn : s'.drawn = s.drawn)
    (haccepted : s'.accepted = s.accepted ++ [⟨key, token, now⟩]) : Tracked limits s' where
  drawn_nodup := hdrawn ▸ tracked.drawn_nodup
  tokens_nodup := by
    rw [Server.tokens, haccepted, List.map_append, List.map_singleton]
    exact List.nodup_append.mpr ⟨tracked.tokens_nodup, List.nodup_singleton _, by
      intro a ha b hb hab
      rw [List.mem_singleton] at hb
      rw [hab, hb] at ha
      exact hunused.fresh ha⟩
  tokens_drawn t ht := by
    rw [Server.tokens, haccepted, List.map_append, List.mem_append] at ht
    rw [hdrawn]
    rcases ht with ht | ht
    · exact tracked.tokens_drawn t ht
    · rw [List.map_singleton, List.mem_singleton] at ht
      rw [ht]
      exact List.mem_map_of_mem hunused.drawn
  bound key' := by
    by_cases hkey : key = key'
    · subst hkey
      simp only [Server.timestamps, haccepted, List.filter_append, List.filter_cons,
        List.filter_nil, decide_true, if_true, List.map_append, List.map_singleton]
      apply (tracked.bound key).snoc
      exact lt_of_le_of_lt (near_le_entries tracked.tokens_nodup hholds) hroom
    · simp only [Server.timestamps, haccepted, List.filter_append, List.filter_cons,
        List.filter_nil, hkey, decide_false, Bool.false_eq_true, if_false, List.append_nil]
      exact tracked.bound key'

section Rules
variable (limits : Text → ℕ × ℤ)

def rules : Rules Server Label Request Exn Unit where
  cond := Complete limits
  inv v := Tracked limits v.shared
  rely pid v v' := Leaves pid v.shared v'.shared

variable {limits} {pid : ℕ} {v : View Server Request Exn Unit} {α β : Type}

/-- A step that neither draws a token nor accepts a call. -/
theorem wp_quiet {label : Label} {act : ℕ → Server → Choice → Option (Server × Except Exn α)}
    {Q : Except Exn α → View Server Request Exn Unit → Prop}
    (quiet : ∀ k s choice s' r, act k s choice = some (s', r) →
      s'.drawn = s.drawn ∧ s'.accepted = s.accepted)
    (h : ∀ r v', Leaves pid v.shared v'.shared → Q r v') :
    (rules limits).wp pid (Program.perform label act) Q v := by
  apply Rules.wp_perform
  intro v₁ henv hinv _ choice s r hact
  have hsame := quiet pid v₁.shared choice s r hact
  refine ⟨⟨hinv.of_eq hsame.1 hsame.2, fun k _ => .of_eq hsame.1 hsame.2⟩, ?_⟩
  exact h r _ (henv.1.trans (.of_eq hsame.1 hsame.2))

theorem wp_tokenHex {Q : Except Exn Token → View Server Request Exn Unit → Prop}
    (h : ∀ token v', Unused pid token v'.shared → Q (.ok token) v') :
    (rules limits).wp pid tokenHex Q v := by
  apply Rules.wp_perform
  intro v₁ _ hinv _ choice s r hact
  split at hact
  · cases hact
  · rename_i hnew
    rw [Option.some.injEq, Prod.mk.injEq] at hact
    rcases hact with ⟨rfl, rfl⟩
    have hfresh : choice.token ∉ v₁.shared.drawn.map Prod.fst := by
      intro hmem
      rcases List.mem_map.mp hmem with ⟨entry, hentry, heq⟩
      exact hnew (List.any_eq_true.mpr ⟨entry, hentry, by simpa using heq⟩)
    refine ⟨⟨hinv.draw hfresh, fun k hk => ⟨fun t ht => List.mem_append_left _ ht, ?_⟩⟩, ?_⟩
    · exact fun t _ ht => ht
    · apply h
      exact ⟨List.mem_append_right _ (List.mem_singleton_self _),
        fun hmem => hfresh (hinv.tokens_drawn _ hmem)⟩

/-- The script may accept the call once; when its reply is lost, the token stays unused. -/
theorem wp_evalsha {key : Text} {now : ℚ} {token : Token}
    {Q : Except Exn Reply → View Server Request Exn Unit → Prop} (hunused : Unused pid token v.shared)
    (hok : ∀ reply v', Q (.ok reply) v')
    (herror : ∀ error v', Unused pid token v'.shared → Q (.error error) v') :
    (rules limits).wp pid
      (evalsha key now (now - (limits key).2) (limits key).2 (limits key).1 token) Q v := by
  apply Rules.wp_perform
  intro v₁ henv hinv hcond choice s r hact
  have hunused₁ := hunused.leaves henv.1
  cases hfails : choice.fails with
  | true =>
    have hsame : s.drawn = v₁.shared.drawn ∧ s.accepted = v₁.shared.accepted := by
      simp only [hfails, if_true, Option.some.injEq, Prod.mk.injEq] at hact
      rw [← hact.1]
      cases choice.landed with
      | true => exact ⟨rfl, rfl⟩
      | false => exact ⟨rfl, rfl⟩
    simp only [hfails, if_true, Option.some.injEq, Prod.mk.injEq] at hact
    refine ⟨⟨hinv.of_eq hsame.1 hsame.2, fun k _ => .of_eq hsame.1 hsame.2⟩, ?_⟩
    rw [← hact.2]
    exact herror _ _ (hunused₁.leaves (.of_eq hsame.1 hsame.2))
  | false =>
    simp only [hfails, Bool.false_eq_true, if_false, Option.some.injEq, Prod.mk.injEq] at hact
    rcases hact with ⟨rfl, rfl⟩
    refine ⟨⟨?_, ?_⟩, hok _ _⟩
    · by_cases hroom : (limits key).1 ≤
        (prune (now - (limits key).2) (v₁.shared.store.entries key v₁.shared.time)).rows.length
      · exact hinv.of_eq rfl (by simp [slidingWindow, hroom])
      · exact hinv.accept hunused₁ (not_le.mp hroom) (hcond (not_le.mp hroom)) rfl
          (by simp [slidingWindow, hroom])
    · intro k hk
      refine ⟨fun t ht => ht, fun t ht hused => ?_⟩
      have hne : t ≠ token := by
        rintro rfl
        exact hk (drawn_inj hinv hunused₁.drawn ht)
      simp only [View.update_shared, Server.tokens] at hused ⊢
      split at hused
      · rw [List.map_append, List.mem_append, List.map_singleton, List.mem_singleton] at hused
        exact hused.resolve_right hne
      · exact hused

theorem wp_scriptLoad {Q : Except Exn Unit → View Server Request Exn Unit → Prop}
    (h : ∀ r v', Leaves pid v.shared v'.shared → Q r v') :
    (rules limits).wp pid scriptLoad Q v := by
  apply wp_quiet _ h
  intro k s choice s' r hact
  split at hact
  · cases hact
    exact ⟨rfl, rfl⟩
  · cases hact
    exact ⟨rfl, rfl⟩

theorem wp_evalScript {key : Text} {now : ℚ} {token : Token}
    {Q : Except Exn Reply → View Server Request Exn Unit → Prop}
    (hunused : Unused pid token v.shared) (h : ∀ r v', Q r v') :
    (rules limits).wp pid
      (evalScript key now (now - (limits key).2) (limits key).2 (limits key).1 token) Q v := by
  have hrun : ∀ v', Unused pid token v'.shared → (rules limits).wp pid
      (tryCatch (evalsha key now (now - (limits key).2) (limits key).2 (limits key).1 token)
        fun _ => do
          scriptLoad
          evalsha key now (now - (limits key).2) (limits key).2 (limits key).1 token) Q v' := by
    intro v' hunused'
    apply Rules.wp_tryCatch
    apply wp_evalsha hunused'
    · exact fun reply v'' => h (.ok reply) v''
    intro error v'' hunused''
    -- the script is loaded again, and a second call has the last word
    apply Rules.wp_bind
    apply wp_scriptLoad
    intro r v₃ hleaves
    cases r with
    | error error => exact h _ _
    | ok _ =>
      exact wp_evalsha (hunused''.leaves hleaves) (fun _ _ => h _ _) fun _ _ _ => h _ _
  apply Rules.wp_bind
  apply wp_quiet
  · intro k s choice s' r hact
    cases hact
    exact ⟨rfl, rfl⟩
  intro r v' hleaves
  cases r with
  | error error => exact h _ _
  | ok cached =>
    cases cached with
    | true => exact hrun v' (hunused.leaves hleaves)
    | false =>
      apply Rules.wp_bind
      apply wp_scriptLoad
      intro r v'' hleaves'
      cases r with
      | error error => exact h _ _
      | ok _ => exact hrun v'' ((hunused.leaves hleaves).leaves hleaves')

theorem finishing (result : Except Exn Unit) (v : View Server Request Exn Unit) :
    (rules limits).Finishing pid result v := by
  intro v₁ _ hinv _
  exact ⟨hinv, fun k _ => .of_eq rfl rfl⟩

theorem wp_rateLimit (key : Text) :
    (rules limits).wp pid (rateLimit key (limits key).1 (limits key).2)
      ((rules limits).Finishing pid) v := by
  apply Rules.wp_bind
  apply Rules.wp_tryCatch
  apply Rules.wp_bind
  apply wp_quiet
  · intro k s choice s' r hact
    split at hact <;> cases hact <;> exact ⟨rfl, rfl⟩
  intro r v₁ _
  cases r with
  | error error => exact finishing _ _
  | ok _ =>
    apply Rules.wp_bind
    apply wp_quiet
    · intro k s choice s' r hact
      cases hact
      exact ⟨rfl, rfl⟩
    intro r v₂ _
    cases r with
    | error error => exact finishing _ _
    | ok now =>
      apply Rules.wp_bind
      apply wp_tokenHex
      intro token v₃ hunused
      apply Rules.wp_bind
      apply wp_evalScript hunused
      intro r v₄
      cases r with
      | error error => exact finishing _ _
      | ok reply =>
        cases haccepted : reply.accepted with
        | true =>
          simp only [Rules.orRaise, haccepted]
          exact finishing _ _
        | false =>
          simp only [Rules.orRaise, haccepted]
          exact finishing _ _

theorem wp_tick : (rules limits).wp pid tick ((rules limits).Finishing pid) v := by
  apply wp_quiet
  · intro k s choice s' r hact
    split at hact
    · cases hact
    · cases hact
      exact ⟨rfl, rfl⟩
  · exact fun r v' _ => finishing _ _

theorem valid : (rules limits).Valid (system limits) where
  rely_refl pid v := .of_eq rfl rfl
  rely_trans pid _ _ _ hab hbc := hab.trans hbc
  start v request hinv _ := by
    refine ⟨⟨hinv, fun k _ => .of_eq rfl rfl⟩, ?_⟩
    cases request with
    | call key => exact wp_rateLimit key
    | tick => exact wp_tick
  crash v pid request hinv _ _ := ⟨hinv, fun k _ => .of_eq rfl rfl⟩

end Rules

/-- Where no script that finds room misses an accepted timestamp less than a window away, every
half-open window holds at most the allowed number of timestamps. -/
theorem window_bound (limits : Text → ℕ × ℤ) (store : Store) (time : ℚ) (scriptSha : Bool)
    {c : Pool Server Choice Label Request Exn Unit}
    (run : (system limits).Run (Complete limits) (Pool.init (serverOf store time scriptSha)) c)
    (key : Text) (T : ℚ) :
    (inWindow ((limits key).2 : ℚ) T (c.shared.timestamps key)).length ≤ (limits key).1 :=
  (valid.inv_of_run (tracked_serverOf limits store time scriptSha) run).bound key T

section Sample

/-- Two requests in ten seconds on every key. -/
def twoInTen : Text → ℕ × ℤ := fun _ => (2, 10)

def sampleKey : Text := "phantom:ratelimit:login:ip:203.0.113.9".toList

/-- The events of a call up to its script: the client, the clock, the token and the digest. -/
def upToScript (pid : ℕ) (token : Token) : List (Event Choice Request) :=
  [.act pid {}, .act pid {}, .act pid { token := token }, .act pid {}]

/-- A call that is not delayed, `delay` after what came before. -/
def promptly (delay : ℚ) (pid : ℕ) (token : Token) : List (Event Choice Request) :=
  [.start .tick, .act pid { delay := delay }, .act pid {}, .start (.call sampleKey)] ++
    upToScript (pid + 1) token ++ [.act (pid + 1) {}, .act (pid + 1) {}]

/-- Calls at 5 and 6, one that reads 7 and waits, a call at 16 that prunes, and the waiting one. -/
def delayedScript : List (Event Choice Request) :=
  promptly 5 0 1 ++ promptly 1 2 2 ++
    [.start .tick, .act 4 { delay := 1 }, .act 4 {}, .start (.call sampleKey)] ++
    upToScript 5 3 ++ promptly 9 6 4 ++ [.act 5 {}, .act 5 {}]

/-- Three accepted calls in the ten seconds up to 7. -/
theorem window_overrun : ∃ c : Pool Server Choice Label Request Exn Unit,
    (system twoInTen).Run (fun _ _ => True) (Pool.init (serverOf .empty 0 true)) c ∧
      (inWindow (10 : ℚ) 7 (c.shared.timestamps sampleKey)).length = 3 := by
  rcases System.exists_run (system twoInTen) (fun _ _ => True) (Pool.init (serverOf .empty 0 true))
    delayedScript
    (fun v => (inWindow (10 : ℚ) 7 (v.shared.timestamps sampleKey)).length = 3)
    (by decide +kernel) with ⟨c, run, hcount⟩
  exact ⟨c, run, of_decide_eq_true hcount⟩

/-- Without the delayed call the condition is met, and the windows hold what they may. -/
theorem window_bound_sample : ∃ c : Pool Server Choice Label Request Exn Unit,
    (system twoInTen).Run (Complete twoInTen) (Pool.init (serverOf .empty 0 true)) c ∧
      (c.shared.timestamps sampleKey).length = 3 ∧
      (inWindow (10 : ℚ) 16 (c.shared.timestamps sampleKey)).length ≤ 2 := by
  rcases System.exists_run (system twoInTen) (Complete twoInTen)
    (Pool.init (serverOf .empty 0 true)) (promptly 5 0 1 ++ promptly 1 2 2 ++ promptly 10 4 4)
    (fun v => (v.shared.timestamps sampleKey).length = 3)
    (by decide +kernel) with ⟨c, run, hcount⟩
  exact ⟨c, run, of_decide_eq_true hcount,
    window_bound twoInTen .empty 0 true run sampleKey 16⟩

end Sample
end PhantomShare.RateLimit
