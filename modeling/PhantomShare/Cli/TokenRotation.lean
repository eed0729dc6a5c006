import Mathlib.Data.List.Infix
import PhantomShare.Cli.Client
import PhantomShare.Foundations.Log
import PhantomShare.Foundations.RelyGuarantee

/-!
# Rotation of the tokens of a client

A goroutine works with a copy of the access token and may enter a refresh long after
it has read it. The pair in memory is the last one that was issued, so a caller with
an older token either finds a newer one or renews one that is about to expire.
-/
namespace PhantomShare.Cli
open Foundations Internet

def Client.tokens (client : Client) : TokenResponse := ⟨client.accessToken, client.refreshToken⟩

def Call.refreshing : Call → Option Refreshing
  | .refresh refreshing => some refreshing
  | _ => none

/-- The pair that a call has made durable. -/
def Call.saved : Call → Option TokenResponse
  | .persist tokens true => some tokens
  | _ => none

/-- The server rejects the refresh token, or the new pair is lost. -/
def Call.endsSession : Call → Bool
  | .refresh refreshing =>
    match refreshing.result with
    | .error cause => cause = .api 400 ∨ cause = .api 401
    | .ok _ => false
  | .persist _ saved => !saved
  | _ => false

def Call.requestedBy (pid : ℕ) : Call → Bool
  | .request k _ => k = pid
  | _ => false

def refreshes (log : List Call) : List Refreshing := log.filterMap Call.refreshing

/-- The pairs that the client has received. -/
def issued (log : List Call) : List TokenResponse :=
  (refreshes log).filterMap fun refreshing => refreshing.result.toOption

def persisted (log : List Call) : List TokenResponse := log.filterMap Call.saved

def ended (log : List Call) : Bool := log.any Call.endsSession

def requests (pid : ℕ) (log : List Call) : ℕ := log.countP (Call.requestedBy pid)

/-- The pairs that the client has known, the one it started with first. -/
def generations (start : Client) (log : List Call) : List TokenResponse :=
  start.tokens :: issued log

/-- The server repeats neither a token of its own nor one that the client started with. -/
def Fresh (start : Client) (log : List Call) : Prop :=
  ((generations start log).map TokenResponse.accessToken).Nodup ∧
    ((generations start log).map TokenResponse.refreshToken).Nodup

/-- A refresh token is not presented again after it has brought a new pair. -/
def SpentOnce (log : List Call) : Prop :=
  (refreshes log).Pairwise fun a b => a.result.isOk = true → b.presented ≠ a.presented

/-- Of two successful refreshes after requests that failed with the same token, the second renews a
token that the first or a later one has brought and that is about to expire. -/
def OnceForEach (log : List Call) : Prop :=
  (refreshes log).Pairwise fun a b => a.result.isOk = true → b.result.isOk = true →
    b.failed = a.failed → b.held ∈ (issued log).map TokenResponse.accessToken ∧ b.expiring = true

/-- A request carries no new token before the pair of the token is durable. -/
def CarriesPersisted (start : Client) : List Call → Call → Prop
  | before, .request _ token => token = start.accessToken ∨ token = [] ∨
      token ∈ (persisted before).map TokenResponse.accessToken
  | _, _ => True

section Log
variable {start : Client} {log log' : List Call}

@[simp] theorem refreshes_append : refreshes (log ++ log') = refreshes log ++ refreshes log' := by
  simp [refreshes]

@[simp] theorem issued_append : issued (log ++ log') = issued log ++ issued log' := by simp [issued]

@[simp] theorem persisted_append : persisted (log ++ log') = persisted log ++ persisted log' := by
  simp [persisted]

@[simp] theorem ended_append : ended (log ++ log') = (ended log || ended log') := by simp [ended]

@[simp] theorem requests_append (pid : ℕ) :
    requests pid (log ++ log') = requests pid log + requests pid log' := by simp [requests]

@[simp] theorem refreshes_cons (call : Call) :
    refreshes (call :: log) = call.refreshing.toList ++ refreshes log := by
  cases call <;> rfl

@[simp] theorem persisted_cons (call : Call) :
    persisted (call :: log) = call.saved.toList ++ persisted log := by
  rw [persisted, List.filterMap_cons]
  cases call.saved <;> rfl

@[simp] theorem ended_cons (call : Call) : ended (call :: log) = (call.endsSession || ended log) := rfl

/-- A refresh issues the pair in its result. -/
@[simp] theorem issued_refresh (r : Refreshing) :
    issued (.refresh r :: log) = r.result.toOption.toList ++ issued log := by
  cases h : r.result <;> simp [issued, Call.refreshing, h, Except.toOption]

@[simp] theorem issued_persist (tokens : TokenResponse) (saved : Bool) :
    issued (.persist tokens saved :: log) = issued log := rfl

@[simp] theorem requests_cons (pid : ℕ) (call : Call) :
    requests pid (call :: log) = (if call.requestedBy pid then 1 else 0) + requests pid log := by
  rw [requests, List.countP_cons, Nat.add_comm]
  rfl

@[simp] theorem requests_nil (pid : ℕ) : requests pid [] = 0 := rfl

@[simp] theorem logs_nil : refreshes [] = [] ∧ issued [] = [] ∧ persisted [] = [] ∧ ended [] = false :=
  ⟨rfl, rfl, rfl, rfl⟩

theorem generations_append : generations start (log ++ log') = generations start log ++ issued log' := by
  simp [generations]

/-- The pair that the client holds unless its session has ended. -/
def latest (start : Client) (log : List Call) : TokenResponse :=
  (start.tokens :: issued log).getLast (List.cons_ne_nil _ _)

theorem generations_eq (start : Client) (log : List Call) :
    generations start log = (generations start log).dropLast ++ [latest start log] :=
  (List.dropLast_append_getLast _).symm

theorem latest_mem : latest start log ∈ generations start log := List.getLast_mem _

/-- Only the first pair has not been issued. -/
theorem latest_issued {tokens : TokenResponse} (h : tokens ∈ (generations start log).dropLast) :
    latest start log ∈ issued log := by
  have hne : issued log ≠ [] := by
    intro hnil
    simp [generations, hnil] at h
  rw [latest, List.getLast_cons hne]
  exact List.getLast_mem hne

theorem Fresh.of_append (h : Fresh start (log ++ log')) : Fresh start log := by
  simp only [Fresh, generations_append, List.map_append] at h
  exact ⟨(List.nodup_append.mp h.1).1, (List.nodup_append.mp h.2).1⟩

theorem Fresh.latest_access (h : Fresh start log) {token : Text}
    (htoken : token ∈ (generations start log).dropLast.map TokenResponse.accessToken) :
    (latest start log).accessToken ≠ token := by
  have hnodup := h.1
  rw [generations_eq, List.map_append] at hnodup
  exact ((List.nodup_append.mp hnodup).2.2 token htoken _ (by simp)).symm

theorem Fresh.latest_refresh (h : Fresh start log) {token : Text}
    (htoken : token ∈ (generations start log).dropLast.map TokenResponse.refreshToken) :
    (latest start log).refreshToken ≠ token := by
  have hnodup := h.2
  rw [generations_eq, List.map_append] at hnodup
  exact ((List.nodup_append.mp hnodup).2.2 token htoken _ (by simp)).symm

/-- What a refresh starts from while the session lasts. -/
structure Attempt (start : Client) (log : List Call) (r : Refreshing) : Prop where
  held : r.held = (latest start log).accessToken
  presented : r.presented = (latest start log).refreshToken
  known : r.failed ∈ (generations start log).map TokenResponse.accessToken
  wanted : r.held ≠ r.failed → r.expiring = true

/-- What the refreshes and requests of a log satisfy. The tokens of a successful refresh are older
than the pair it has brought. -/
structure Ledger (start : Client) (log : List Call) : Prop where
  spent : ∀ a ∈ refreshes log, a.result.isOk = true →
    a.presented ∈ (generations start log).dropLast.map TokenResponse.refreshToken ∧
      a.failed ∈ (generations start log).dropLast.map TokenResponse.accessToken
  spentOnce : Fresh start log → SpentOnce log
  onceForEach : Fresh start log → OnceForEach log
  carries : Throughout (CarriesPersisted start) log

theorem ledger_nil (start : Client) : Ledger start [] where
  spent _ ha := absurd ha List.not_mem_nil
  spentOnce _ := List.Pairwise.nil
  onceForEach _ := List.Pairwise.nil
  carries := throughout_nil

theorem Ledger.quiet {call : Call} (h : Ledger start log) (hquiet : call.refreshing = none)
    (hcarries : CarriesPersisted start log call) : Ledger start (log ++ [call]) := by
  have hrefreshes : refreshes (log ++ [call]) = refreshes log := by simp [hquiet]
  have hissued : issued (log ++ [call]) = issued log := by rw [issued, hrefreshes, ← issued]
  constructor
  · rw [hrefreshes, generations, hissued]
    exact h.spent
  · intro hfresh
    rw [SpentOnce, hrefreshes]
    exact h.spentOnce hfresh.of_append
  · intro hfresh
    rw [OnceForEach, hrefreshes, hissued]
    exact h.onceForEach hfresh.of_append
  · exact h.carries.snoc hcarries

/-- A pair that is not the last one stays so. -/
theorem dropLast_subset : (generations start log).dropLast ⊆
    (generations start (log ++ log')).dropLast := by
  intro tokens htokens
  rw [generations_append]
  rcases List.eq_nil_or_concat (issued log') with hnil | ⟨middle, last, hlast⟩
  · rwa [hnil, List.append_nil]
  · rw [hlast, List.concat_eq_append, ← List.append_assoc, List.dropLast_concat]
    exact List.mem_append_left _ (List.dropLast_subset _ htokens)

theorem Ledger.refresh {r : Refreshing} (h : Ledger start log) (attempt : Attempt start log r) :
    Ledger start (log ++ [.refresh r]) := by
  have hrefreshes : refreshes (log ++ [.refresh r]) = refreshes log ++ [r] := by
    simp [Call.refreshing]
  constructor
  · intro a ha hok
    rw [hrefreshes, List.mem_append, List.mem_singleton] at ha
    rcases ha with ha | rfl
    · rcases h.spent a ha hok with ⟨hpresented, hfailed⟩
      exact ⟨List.map_subset _ dropLast_subset hpresented, List.map_subset _ dropLast_subset hfailed⟩
    · -- the new pair comes after all that the client has known
      have hall : (generations start (log ++ [.refresh a])).dropLast = generations start log := by
        rw [generations_append, issued_refresh]
        cases hresult : a.result with
        | ok tokens => simp [Except.toOption]
        | error cause => simp [hresult, Except.isOk, Except.toBool] at hok
      rw [hall]
      refine ⟨?_, attempt.known⟩
      rw [attempt.presented]
      exact List.mem_map_of_mem latest_mem
  · intro hfresh
    have hold := hfresh.of_append
    rw [SpentOnce, hrefreshes, List.pairwise_append]
    refine ⟨h.spentOnce hold, List.pairwise_singleton _ _, ?_⟩
    intro a ha b hb hok
    rw [List.mem_singleton.mp hb, attempt.presented]
    exact hold.latest_refresh (h.spent a ha hok).1
  · intro hfresh
    have hold := hfresh.of_append
    rw [OnceForEach, hrefreshes, List.pairwise_append]
    refine ⟨?_, List.pairwise_singleton _ _, ?_⟩
    · apply (h.onceForEach hold).imp
      intro a b hab hoka hokb hfailed
      rw [issued_append, List.map_append]
      exact ⟨List.mem_append_left _ (hab hoka hokb hfailed).1, (hab hoka hokb hfailed).2⟩
    · intro a ha b hb hoka hokb hfailed
      rw [List.mem_singleton.mp hb] at hfailed ⊢
      have hspent := (h.spent a ha hoka).2
      rw [← hfailed] at hspent
      refine ⟨?_, attempt.wanted ?_⟩
      · rcases List.mem_map.mp hspent with ⟨tokens, htokens, _⟩
        rw [attempt.held, issued_append, List.map_append]
        exact List.mem_append_left _ (List.mem_map_of_mem (latest_issued htokens))
      · rw [attempt.held]
        exact hold.latest_access hspent
  · exact h.carries.snoc trivial

end Log

section Step
variable {C : Codec} {start : Client} {s s' : State}

/-- The pair in memory is the last one that was made durable, until the session ends. -/
structure Tracked (start : Client) (s : State) : Prop extends Ledger start s.log where
  current : ended s.log = false → s.client.tokens = latest start s.log
  saved : ended s.log = false → persisted s.log = issued s.log
  stored : ∀ tokens ∈ persisted s.log, tokens ∈ issued s.log
  cleared : ended s.log = true → s.client.tokens = ⟨[], []⟩

theorem tracked_start (client : Client) : Tracked client ⟨client, []⟩ where
  toLedger := ledger_nil client
  current _ := rfl
  saved _ := rfl
  stored _ h := absurd h List.not_mem_nil
  cleared h := by cases h

/-- Where a token in the hands of a goroutine comes from. -/
def Known (start : Client) (token : Text) (s : State) : Prop :=
  token = start.accessToken ∨ token ∈ (persisted s.log).map TokenResponse.accessToken ∨
    token = [] ∧ s.client.refreshToken = []

theorem Tracked.known (h : Tracked start s) : Known start s.client.accessToken s := by
  cases hended : ended s.log with
  | true =>
    have hover := h.cleared hended
    simp only [Client.tokens, TokenResponse.mk.injEq] at hover
    exact .inr (.inr hover)
  | false =>
    have hcurrent := congrArg TokenResponse.accessToken (h.current hended)
    have hmem : latest start s.log ∈ start.tokens :: issued s.log := List.getLast_mem _
    rw [← h.saved hended] at hmem
    rcases List.mem_cons.mp hmem with hstart | hpersisted
    · exact .inl (hcurrent.trans (congrArg TokenResponse.accessToken hstart))
    · exact .inr (.inl (List.mem_map.mpr ⟨_, hpersisted, hcurrent.symm⟩))

/-- Outside the session nothing is refreshed. -/
theorem Tracked.attempt (h : Tracked start s) {r : Refreshing} (hsession : s.client.refreshToken ≠ [])
    (hheld : r.held = s.client.accessToken) (hpresented : r.presented = s.client.refreshToken)
    (hknown : Known start r.failed s) (hwanted : r.held ≠ r.failed → r.expiring = true) :
    ended s.log = false ∧ Attempt start s.log r := by
  have hended : ended s.log = false := by
    rw [← Bool.not_eq_true]
    intro hover
    exact hsession (congrArg TokenResponse.refreshToken (h.cleared hover))
  have hcurrent := h.current hended
  refine ⟨hended, ?_, ?_, ?_, hwanted⟩
  · rw [hheld, ← hcurrent]
    rfl
  · rw [hpresented, ← hcurrent]
    rfl
  · rcases hknown with hstart | hpersisted | ⟨_, hgone⟩
    · exact List.mem_map.mpr ⟨start.tokens, List.mem_cons_self, hstart.symm⟩
    · rcases List.mem_map.mp hpersisted with ⟨tokens, htokens, htoken⟩
      exact List.mem_map.mpr ⟨tokens, List.mem_cons_of_mem _ (h.stored tokens htokens), htoken⟩
    · exact absurd hgone hsession

/-- A call that neither refreshes nor saves nor ends the session. -/
theorem Tracked.quiet {call : Call} (h : Tracked start s) (hrefreshing : call.refreshing = none)
    (hsaved : call.saved = none) (hends : call.endsSession = false)
    (hcarries : CarriesPersisted start s.log call) : Tracked start (s.record call) := by
  have hissued : issued (s.log ++ [call]) = issued s.log := by simp [issued, hrefreshing]
  have hpersisted : persisted (s.log ++ [call]) = persisted s.log := by simp [hsaved]
  have hended : ended (s.log ++ [call]) = ended s.log := by simp [hends]
  constructor
  · exact h.toLedger.quiet hrefreshing hcarries
  all_goals simp only [State.record, hissued, hpersisted, hended, latest]
  · exact h.current
  · exact h.saved
  · exact h.stored
  · exact h.cleared

/-- A session that ends leaves no tokens behind. -/
theorem Tracked.of_ended (h : Ledger start s.log)
    (hstored : ∀ tokens ∈ persisted s.log, tokens ∈ issued s.log) (hended : ended s.log = true) :
    Tracked start s.forget := by
  have hlog : s.forget.log = s.log ∨ s.forget.log = s.log ++ [.clear] := by
    cases hclear : s.client.clearTokens <;> simp [State.forget, hclear, State.record]
  have hended' : ended s.forget.log = true := by
    rcases hlog with hlog | hlog <;> simp [hlog, hended]
  constructor
  · rcases hlog with hlog | hlog
    · rwa [hlog]
    · rw [hlog]
      exact h.quiet rfl trivial
  · simp [hended']
  · simp [hended']
  · intro tokens
    rcases hlog with hlog | hlog
    · rw [hlog]
      exact hstored tokens
    · simpa [hlog, Call.saved, issued, Call.refreshing] using hstored tokens
  · intro _
    simp [State.forget, Client.tokens]

/-- The record of a refresh in which the server answers so. -/
def State.refreshing (C : Codec) (s : State) (failedToken : Text) (choice : Choice) : Refreshing :=
  ⟨failedToken, s.client.accessToken,
    tokenExpiresSoon C s.client.accessToken (choice.now + minute), s.client.refreshToken,
    refresh C choice.answer⟩

/-- The ways out of the critical section; `r` is the refresh that may have happened. -/
inductive Refreshed (s : State) (r : Refreshing) : State → Prop
  | failed {cause : RefreshError} (result : r.result = .error cause)
      (goes_on : ¬ (cause = .api 400 ∨ cause = .api 401)) : Refreshed s r (s.record (.refresh r))
  | rejected {cause : RefreshError} (result : r.result = .error cause)
      (is_over : cause = .api 400 ∨ cause = .api 401) : Refreshed s r (s.record (.refresh r)).forget
  | lost {tokens : TokenResponse} (result : r.result = .ok tokens) :
      Refreshed s r ((s.record (.refresh r)).record (.persist tokens false)).forget
  | rotated {tokens : TokenResponse} (result : r.result = .ok tokens) :
      Refreshed s r
        ⟨⟨tokens.accessToken, tokens.refreshToken, s.client.persistTokens, s.client.clearTokens⟩,
          s.log ++ [.refresh r, .persist tokens true]⟩

/-- A refresh is tried in a session only, and only for the token held or when that one expires. -/
theorem refreshLocked_cases (C : Codec) (failedToken : Text) (choice : Choice) (s : State) :
    (refreshLocked C failedToken choice s).1 = s ∨
      Refreshed s (s.refreshing C failedToken choice) (refreshLocked C failedToken choice s).1 ∧
        s.client.refreshToken ≠ [] ∧ (s.client.accessToken ≠ failedToken →
          tokenExpiresSoon C s.client.accessToken (choice.now + minute) = true) := by
  unfold refreshLocked
  by_cases hother : s.client.accessToken ≠ failedToken ∧
      tokenExpiresSoon C s.client.accessToken (choice.now + minute) = false
  · exact .inl (by rw [if_pos hother])
  · simp only [if_neg hother]
    by_cases hgone : s.client.refreshToken = []
    · exact .inl (by rw [if_pos hgone])
    · simp only [if_neg hgone]
      refine .inr ⟨?_, hgone, ?_⟩
      · rw [← State.refreshing]
        have hresult : (s.refreshing C failedToken choice).result = refresh C choice.answer := rfl
        generalize s.refreshing C failedToken choice = r at hresult ⊢
        rw [← hresult]
        cases hr : r.result with
        | error cause =>
          by_cases hcause : cause = .api 400 ∨ cause = .api 401
          · simpa only [if_pos hcause] using .rejected hr hcause
          · simpa only [if_neg hcause] using .failed hr hcause
        | ok tokens =>
          cases hsaves : choice.saves with
          | true => simpa [State.record] using .rotated hr
          | false => simpa using .lost hr
      · intro hne
        rw [← Bool.not_eq_false]
        exact fun hlater => hother ⟨hne, hlater⟩

theorem Tracked.refreshed {r : Refreshing} (h : Tracked start s) (hended : ended s.log = false)
    (attempt : Attempt start s.log r) (hcases : Refreshed s r s') : Tracked start s' := by
  have hledger := h.toLedger.refresh attempt
  cases hcases with
  | @failed cause hresult hcause =>
    have hissued : r.result.toOption = none := by rw [hresult]; rfl
    constructor
    · exact hledger
    · simpa [State.record, latest, hissued, hended] using fun _ => h.current hended
    · simpa [State.record, hissued, Call.saved] using fun _ _ => h.saved hended
    · simpa [State.record, hissued, Call.saved] using h.stored
    · simp [State.record, hended, Call.endsSession, hresult, not_or.mp hcause]
  | rejected hresult hcause =>
    apply Tracked.of_ended hledger
    · intro tokens htokens
      simp only [State.record, persisted_append, persisted_cons, logs_nil, Call.saved,
        Option.toList_none, List.append_nil] at htokens
      simp [State.record, h.stored tokens htokens]
    · simp [State.record, Call.endsSession, hresult, hcause]
  | lost hresult =>
    apply Tracked.of_ended
    · exact hledger.quiet rfl trivial
    · intro tokens htokens
      simp only [State.record, persisted_append, persisted_cons, logs_nil, Call.saved,
        Option.toList_none, List.append_nil] at htokens
      simp [State.record, h.stored tokens htokens]
    · simp [State.record, Call.endsSession]
  | @rotated tokens hresult =>
    have hissued : r.result.toOption = some tokens := by rw [hresult]; rfl
    constructor
    · have hpersist : Ledger start (_ ++ [.persist tokens true]) := hledger.quiet rfl trivial
      rwa [List.append_assoc] at hpersist
    · simp [latest, hissued, Client.tokens]
    · simp [hissued, h.saved hended, Call.saved]
    · intro t ht
      simp only [persisted_append, persisted_cons, logs_nil, Call.saved, List.append_nil,
        Option.toList_none, Option.toList_some, List.nil_append, List.mem_append,
        List.mem_singleton] at ht
      rcases ht with ht | rfl
      · simp [h.stored t ht]
      · simp [hissued]
    · simp [hended, hresult, Call.endsSession]

/-- A refresh only adds to the log, and no request of a resource. -/
theorem Refreshed.log {r : Refreshing} (h : Refreshed s r s') :
    ∃ calls, s'.log = s.log ++ calls ∧ ∀ pid, requests pid calls = 0 := by
  have hforget : ∀ s : State,
      s.forget.log = s.log ++ if s.client.clearTokens then [.clear] else [] := by
    intro s
    cases hclear : s.client.clearTokens <;> simp [State.forget, hclear, State.record]
  cases h with
  | failed => exact ⟨_, rfl, by simp [Call.requestedBy]⟩
  | rejected =>
    rw [hforget, State.record, List.append_assoc]
    refine ⟨_, rfl, fun pid => ?_⟩
    split <;> simp [Call.requestedBy]
  | lost =>
    rw [hforget, State.record, State.record, List.append_assoc, List.append_assoc]
    refine ⟨_, rfl, fun pid => ?_⟩
    split <;> simp [Call.requestedBy]
  | rotated => exact ⟨_, rfl, by simp [Call.requestedBy]⟩

/-- A goroutine may keep its token while the session lasts. -/
theorem Known.of_append {token : Text} {calls : List Call} (h : Known start token s)
    (hsession : s.client.refreshToken ≠ []) (hlog : s'.log = s.log ++ calls) :
    Known start token s' := by
  rcases h with hstart | hpersisted | ⟨_, hgone⟩
  · exact .inl hstart
  · right; left
    rw [hlog, persisted_append, List.map_append]
    exact List.mem_append_left _ hpersisted
  · exact absurd hgone hsession

end Step

section Rules
variable {C : Codec} {start : Client} {pid n : ℕ} {token : Text}
  {v v' : View State Unit ClientError Response}

/-- Every process has the tokens it knows and the number of its requests to itself. -/
def rules (start : Client) : Rules State Label Unit ClientError Response where
  cond _ _ := True
  inv v := Tracked start v.shared ∧
    ∀ pid, requests pid v.shared.log ≤ if pid < v.tasks.length then 2 else 0
  rely pid v v' := (∀ token, Known start token v.shared → Known start token v'.shared) ∧
    requests pid v'.shared.log = requests pid v.shared.log

/-- What a process knows between two steps: a token and how many requests it has sent. -/
structure Holds (start : Client) (pid n : ℕ) (token : Text)
    (v : View State Unit ClientError Response) : Prop where
  known : Known start token v.shared
  sent : requests pid v.shared.log = n
  runs : pid < v.tasks.length

theorem Holds.stable (h : Holds start pid n token v) (henv : (rules start).Env pid v v') :
    Holds start pid n token v' where
  known := henv.1.1 token h.known
  sent := henv.1.2.trans h.sent
  runs := by
    have hget := List.getElem?_eq_getElem h.runs
    rw [← henv.2] at hget
    exact (List.getElem?_eq_some_iff.mp hget).1

/-- A step that reads the state. -/
theorem wp_read {α : Type} {label : Label} {f : State → Choice → Except ClientError α}
    {Q : Except ClientError α → View State Unit ClientError Response → Prop}
    (h : ∀ v₁, (rules start).Env pid v v₁ → (rules start).inv v₁ → ∀ choice, Q (f v₁.shared choice) v₁) :
    (rules start).wp pid (Program.perform label fun _ s choice => some (s, f s choice)) Q v := by
  apply Rules.wp_perform
  intro v₁ henv hinv _ choice s r hact
  cases hact
  exact ⟨⟨hinv, fun k _ => ⟨fun _ h => h, rfl⟩⟩, h v₁ henv hinv choice⟩

theorem finishing (result : Except ClientError Response) :
    (rules start).Finishing pid result v := by
  intro v₁ _ hinv _
  refine ⟨⟨hinv.1, ?_⟩, fun k _ => ⟨fun _ h => h, rfl⟩⟩
  simpa using hinv.2

theorem wp_accessTokenSnapshot
    {Q : Except ClientError Text → View State Unit ClientError Response → Prop}
    (hold : Holds start pid n token v) (h : ∀ t v', Holds start pid n t v' → Q (.ok t) v') :
    (rules start).wp pid accessTokenSnapshot Q v := by
  apply wp_read
  intro v₁ henv hinv _
  exact h _ _ ⟨hinv.1.known, (hold.stable henv).sent, (hold.stable henv).runs⟩

theorem wp_autoRefreshEnabled
    {Q : Except ClientError Bool → View State Unit ClientError Response → Prop}
    (hold : Holds start pid n token v) (h : ∀ b v', Holds start pid n token v' → Q (.ok b) v') :
    (rules start).wp pid autoRefreshEnabled Q v := by
  apply wp_read
  intro v₁ henv _ _
  exact h _ _ (hold.stable henv)

theorem wp_expiresSoon
    {Q : Except ClientError Bool → View State Unit ClientError Response → Prop}
    (hold : Holds start pid n token v) (h : ∀ b v', Holds start pid n token v' → Q (.ok b) v') :
    (rules start).wp pid (expiresSoon C token) Q v := by
  apply Rules.wp_bind
  apply wp_autoRefreshEnabled hold
  intro enabled v₁ hold₁
  cases enabled with
  | false => exact h false v₁ hold₁
  | true =>
    apply Rules.wp_bind
    apply wp_read
    intro v₂ henv _ _
    exact h _ _ (hold₁.stable henv)

/-- A refresh for a token that the process knows. -/
theorem wp_refreshAccessToken
    {Q : Except ClientError Unit → View State Unit ClientError Response → Prop}
    (hold : Holds start pid n token v) (h : ∀ r v', Holds start pid n token v' → Q r v') :
    (rules start).wp pid (refreshAccessToken C token) Q v := by
  apply Rules.wp_perform
  intro v₁ henv hinv _ choice s r hact
  have hold₁ := hold.stable henv
  have hs : s = (refreshLocked C token choice v₁.shared).1 := by
    rw [Option.some.injEq] at hact
    rw [hact]
  rcases refreshLocked_cases C token choice v₁.shared with hsame | ⟨hcases, hsession, hwanted⟩
  · rw [← hs] at hsame
    subst hsame
    exact ⟨⟨hinv, fun k _ => ⟨fun _ h => h, rfl⟩⟩, h r _ hold₁⟩
  · rw [← hs] at hcases
    rcases hinv.1.attempt (r := v₁.shared.refreshing C token choice) hsession rfl rfl hold₁.known
      hwanted with ⟨hended, attempt⟩
    rcases hcases.log with ⟨calls, hlog, hquiet⟩
    have hrequests : ∀ k, requests k s.log = requests k v₁.shared.log := by
      intro k
      rw [hlog, requests_append, hquiet, Nat.add_zero]
    refine ⟨⟨⟨hinv.1.refreshed hended attempt hcases, ?_⟩, ?_⟩, ?_⟩
    · intro k
      rw [View.update_shared, hrequests]
      exact hinv.2 k
    · exact fun k _ => ⟨fun t ht => ht.of_append hsession hlog, hrequests k⟩
    · exact h r _ ⟨hold₁.known.of_append hsession hlog, (hrequests pid).trans hold₁.sent, hold₁.runs⟩

theorem wp_sendOnce
    {Q : Except ClientError Response → View State Unit ClientError Response → Prop}
    (hold : Holds start pid n token v) (hn : n < 2) (herror : ∀ e v', Q (.error e) v')
    (hok : ∀ resp v', Holds start pid (n + 1) token v' → Q (.ok resp) v') :
    (rules start).wp pid (sendOnce token) Q v := by
  apply Rules.wp_perform
  intro v₁ henv hinv _ choice s r hact
  have hold₁ := hold.stable henv
  cases hbuilds : choice.builds with
  | false =>
    simp only [hbuilds, Bool.not_false, if_true, Option.some.injEq, Prod.mk.injEq] at hact
    rcases hact with ⟨rfl, rfl⟩
    exact ⟨⟨hinv, fun k _ => ⟨fun _ h => h, rfl⟩⟩, herror _ _⟩
  | true =>
    simp only [hbuilds, Bool.not_true, Bool.false_eq_true, if_false, Option.some.injEq,
      Prod.mk.injEq] at hact
    rcases hact with ⟨rfl, rfl⟩
    have hcarries : CarriesPersisted start v₁.shared.log (.request pid token) := by
      rcases hold₁.known with hstart | hpersisted | ⟨hempty, _⟩
      · exact .inl hstart
      · exact .inr (.inr hpersisted)
      · exact .inr (.inl hempty)
    have hknown : ∀ t, Known start t v₁.shared →
        Known start t (v₁.shared.record (.request pid token)) := by
      simp [Known, State.record, Call.saved]
    have hrequests : ∀ k, requests k (v₁.shared.record (.request pid token)).log =
        requests k v₁.shared.log + if pid = k then 1 else 0 := by
      simp [State.record, Call.requestedBy]
    have hsent : requests pid (v₁.shared.record (.request pid token)).log = n + 1 := by
      rw [hrequests, hold₁.sent, if_pos rfl]
    refine ⟨⟨⟨hinv.1.quiet rfl rfl rfl hcarries, ?_⟩, ?_⟩, ?_⟩
    · intro k
      by_cases hk : k = pid
      · rw [hk, View.update_shared, hsent, View.update_tasks, if_pos hold₁.runs]
        omega
      · rw [View.update_shared, hrequests, if_neg (Ne.symm hk), Nat.add_zero]
        exact hinv.2 k
    · intro k hk
      refine ⟨hknown, ?_⟩
      rw [View.update_shared, hrequests, if_neg (Ne.symm hk), Nat.add_zero]
    · cases choice.answer with
      | none => exact herror _ _
      | some resp => exact hok _ _ ⟨hknown token hold₁.known, hsent, hold₁.runs⟩

theorem wp_send (hold : Holds start pid 0 start.accessToken v) :
    (rules start).wp pid (send C) ((rules start).Finishing pid) v := by
  apply Rules.wp_bind
  apply wp_accessTokenSnapshot hold
  intro snapshot v₁ hold₁
  apply Rules.wp_bind
  apply wp_expiresSoon hold₁
  intro expires v₂ hold₂
  -- with either token, the process has not sent anything yet
  have hrest : ∀ token v', Holds start pid 0 token v' → (rules start).wp pid (do
      let resp ← sendOnce token
      if resp.status ≠ 401 || !isBearerChallenge resp then return resp
      else
        let enabled ← autoRefreshEnabled
        if !enabled then return resp
        else
          refreshAccessToken C token
          let renewed ← accessTokenSnapshot
          sendOnce renewed) ((rules start).Finishing pid) v' := by
    intro token v' hold'
    apply Rules.wp_bind
    apply wp_sendOnce hold' (by omega)
    · exact fun _ _ => finishing _
    intro resp v₃ hold₃
    by_cases hdone : (decide (resp.status ≠ 401) || !isBearerChallenge resp) = true
    · simp only [Rules.orRaise, if_pos hdone]
      exact finishing _
    simp only [Rules.orRaise, if_neg hdone]
    apply Rules.wp_bind
    apply wp_autoRefreshEnabled hold₃
    intro enabled v₄ hold₄
    cases enabled with
    | false => exact finishing _
    | true =>
      apply Rules.wp_bind
      apply wp_refreshAccessToken hold₄
      intro r v₅ hold₅
      cases r with
      | error error => exact finishing _
      | ok _ =>
        apply Rules.wp_bind
        apply wp_accessTokenSnapshot hold₅
        intro renewed v₆ hold₆
        apply wp_sendOnce hold₆ (by omega)
        · exact fun _ _ => finishing _
        · exact fun _ _ _ => finishing _
  cases expires with
  | false => exact hrest snapshot v₂ hold₂
  | true =>
    apply Rules.wp_bind
    apply wp_refreshAccessToken hold₂
    intro r v₃ hold₃
    cases r with
    | error error => exact finishing _
    | ok _ =>
      apply Rules.wp_bind
      apply wp_accessTokenSnapshot hold₃
      exact fun token v₄ hold₄ => hrest token v₄ hold₄

theorem valid (C : Codec) (start : Client) : (rules start).Valid (system C) where
  rely_refl pid v := ⟨fun _ h => h, rfl⟩
  rely_trans pid a b c hab hbc := ⟨fun t ht => hbc.1 t (hab.1 t ht), hbc.2.trans hab.2⟩
  start v request hinv _ := by
    have hnone : requests v.tasks.length v.shared.log = 0 := by
      simpa using hinv.2 v.tasks.length
    refine ⟨⟨⟨hinv.1, fun k => ?_⟩, fun k _ => ⟨fun _ h => h, rfl⟩⟩, ?_⟩
    · apply (hinv.2 k).trans
      rw [View.start_length]
      split <;> split <;> omega
    · exact wp_send ⟨.inl rfl, hnone, by simp⟩
  crash v pid request hinv _ _ := by
    refine ⟨⟨hinv.1, ?_⟩, fun k _ => ⟨fun _ h => h, rfl⟩⟩
    simpa [system, View.update] using hinv.2

end Rules

/-- The tokens of a client after any run. -/
structure Rotation (start : Client) (s : State) : Prop where
  spentOnce : SpentOnce s.log
  inSession : ended s.log = false → s.client.tokens = (persisted s.log).getLastD start.tokens
  cleared : ended s.log = true → s.client.tokens = ⟨[], []⟩
  carries : Throughout (CarriesPersisted start) s.log
  onceForEach : OnceForEach s.log
  /-- New tokens that do not expire. -/
  once : (∀ r ∈ refreshes s.log, r.held ∈ (issued s.log).map TokenResponse.accessToken →
      r.expiring = false) →
    ∀ token, (refreshes s.log).countP (fun r => r.failed = token && r.result.isOk) ≤ 1
  twoRequests : ∀ pid, requests pid s.log ≤ 2

/-- With a server that repeats no token, and however the goroutines interleave: no refresh token is
presented again after it has brought a pair; memory holds the last pair made durable until the
session ends; a request carries only tokens whose pair is durable; requests that failed with the
same token refresh once, unless the new token is itself about to expire; and a call of `send` asks
for its resource twice at most. -/
theorem token_rotation (C : Codec) (start : Client)
    {c : Pool State Choice Label Unit ClientError Response}
    (run : (system C).Run (fun _ _ => True) (Pool.init ⟨start, []⟩) c)
    (fresh : Fresh start c.shared.log) : Rotation start c.shared := by
  have hinv : (rules start).inv c.view := by
    apply (valid C start).inv_of_run _ run
    exact ⟨tracked_start start, by simp⟩
  have htracked : Tracked start c.shared := hinv.1
  have honce := htracked.onceForEach fresh
  constructor
  · exact htracked.spentOnce fresh
  · intro hended
    rw [htracked.current hended, htracked.saved hended, latest, List.getLast_eq_getLastD]
  · exact htracked.cleared
  · exact htracked.carries
  · exact honce
  · intro hlasts token
    apply countP_le_one
    apply honce.imp_of_mem
    intro a b _ hb hab ha
    rw [Bool.and_eq_true, decide_eq_true_eq] at ha
    rw [← Bool.not_eq_true, Bool.and_eq_true, decide_eq_true_eq]
    rintro ⟨hfailed, hok⟩
    have hexpires := hab ha.2 hok (hfailed.trans ha.1.symm)
    simp [hlasts b hb hexpires.1] at hexpires
  · intro pid
    apply (hinv.2 pid).trans
    split <;> omega

section Sample

instance (start : Client) (log : List Call) : Decidable (Fresh start log) :=
  inferInstanceAs (Decidable (_ ∧ _))

instance (log : List Call) : Decidable (SpentOnce log) :=
  inferInstanceAs (Decidable (List.Pairwise _ _))

def rotatedBody : Text := "\x7b\"access_token\":\"new\",\"refresh_token\":\"rotated\"\x7d".toList

/-- The refresh token stays the same. -/
def repeatedBody : Text := "\x7b\"access_token\":\"new\",\"refresh_token\":\"first\"\x7d".toList

/-- The access token expires at 3000 seconds. -/
def expiringBody : Text :=
  "\x7b\"access_token\":\"h.eyJleHAiOjMwMDB9.s\",\"refresh_token\":\"second\"\x7d".toList

/-- What the decoders make of these texts. -/
def sampleCodec : Codec where
  expiresAt payload := if payload = "eyJleHAiOjMwMDB9".toList then some 3000 else none
  tokens body :=
    if body = rotatedBody then some ⟨"new".toList, "rotated".toList⟩
    else if body = repeatedBody then some ⟨"new".toList, "first".toList⟩
    else if body = expiringBody then some ⟨"h.eyJleHAiOjMwMDB9.s".toList, "second".toList⟩
    else none

def sampleClient : Client := ⟨"old".toList, "first".toList, true, true⟩

def answers (status : ℕ) (body : Text) : Choice := { answer := some ⟨status, [], some body⟩ }

/-- The server asks for another access token. -/
def challenged : Choice :=
  { answer := some ⟨401, ["Bearer realm=\"api\"".toList], some "{}".toList⟩ }

/-- The steps of a call up to its refresh. -/
def untilRefresh (pid : ℕ) : List (Event Choice Unit) :=
  [.start (), .act pid {}, .act pid {}, .act pid {}, .act pid challenged, .act pid {}]

/-- A rejected refresh leaves memory without the last pair; a repeated refresh token is presented
again; and a slow goroutine refreshes again when the new token is about to expire. -/
theorem memory_differs_from_persisted :
    (∃ c, (system sampleCodec).Run (fun _ _ => True) (Pool.init ⟨sampleClient, []⟩) c ∧
      Fresh sampleClient c.shared.log ∧
      persisted c.shared.log = [⟨"new".toList, "rotated".toList⟩] ∧
      c.shared.client.tokens = ⟨[], []⟩) ∧
    (∃ c, (system sampleCodec).Run (fun _ _ => True) (Pool.init ⟨sampleClient, []⟩) c ∧
      ¬ SpentOnce c.shared.log) ∧
    ∃ c, (system sampleCodec).Run (fun _ _ => True) (Pool.init ⟨sampleClient, []⟩) c ∧
      Fresh sampleClient c.shared.log ∧
      (refreshes c.shared.log).countP
        (fun r => r.failed = "old".toList && r.result.isOk) = 2 := by
  refine ⟨?_, ?_, ?_⟩
  · rcases System.exists_run (system sampleCodec) (fun _ _ => True)
      (Pool.init ⟨sampleClient, []⟩) (untilRefresh 0 ++ [.act 0 (answers 200 rotatedBody)] ++
        untilRefresh 1 ++ [.act 1 (answers 401 "{}".toList)])
      (fun v => decide (Fresh sampleClient v.shared.log ∧
        persisted v.shared.log = [⟨"new".toList, "rotated".toList⟩] ∧
        v.shared.client.tokens = ⟨[], []⟩)) (by decide +kernel) with ⟨c, run, h⟩
    exact ⟨c, run, of_decide_eq_true h⟩
  · rcases System.exists_run (system sampleCodec) (fun _ _ => True)
      (Pool.init ⟨sampleClient, []⟩) (untilRefresh 0 ++ [.act 0 (answers 200 repeatedBody)] ++
        untilRefresh 1 ++ [.act 1 (answers 200 rotatedBody)])
      (fun v => decide (¬ SpentOnce v.shared.log)) (by decide +kernel) with ⟨c, run, h⟩
    exact ⟨c, run, of_decide_eq_true h⟩
  · rcases System.exists_run (system sampleCodec) (fun _ _ => True)
      (Pool.init ⟨sampleClient, []⟩) (untilRefresh 0 ++ untilRefresh 1 ++
        [.act 0 (answers 200 expiringBody),
          .act 1 { answers 200 rotatedBody with now := 2950 * second }])
      (fun v => decide (Fresh sampleClient v.shared.log ∧ (refreshes v.shared.log).countP
        (fun r => r.failed = "old".toList && r.result.isOk) = 2)) (by decide +kernel)
      with ⟨c, run, h⟩
    exact ⟨c, run, of_decide_eq_true h⟩

/-- Two challenged goroutines share one refresh, and each of them sends again. -/
theorem token_rotation_sample :
    ∃ c, (system sampleCodec).Run (fun _ _ => True) (Pool.init ⟨sampleClient, []⟩) c ∧
      (refreshes c.shared.log).length = 1 ∧ requests 0 c.shared.log = 2 ∧
      requests 1 c.shared.log = 2 ∧ Rotation sampleClient c.shared := by
  rcases System.exists_run (system sampleCodec) (fun _ _ => True)
    (Pool.init ⟨sampleClient, []⟩) (untilRefresh 0 ++ untilRefresh 1 ++
      [.act 0 (answers 200 rotatedBody), .act 1 {}, .act 1 {}, .act 0 {},
        .act 1 (answers 200 []), .act 0 (answers 200 [])])
    (fun v => decide (Fresh sampleClient v.shared.log ∧ (refreshes v.shared.log).length = 1 ∧
      requests 0 v.shared.log = 2 ∧ requests 1 v.shared.log = 2)) (by decide +kernel)
    with ⟨c, run, h⟩
  have hsample := of_decide_eq_true h
  exact ⟨c, run, hsample.2.1, hsample.2.2.1, hsample.2.2.2,
    token_rotation sampleCodec sampleClient run hsample.1⟩

end Sample
end PhantomShare.Cli
