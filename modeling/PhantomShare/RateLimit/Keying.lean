import Mathlib.Data.Set.Image
import Mathlib.Order.CompletePartialOrder
import PhantomShare.Core.RateLimit
import PhantomShare.Core.Security
import PhantomShare.Foundations.Alone
import PhantomShare.PlainPlatform

/-!
# Whose requests a bucket counts

`limiter` keys by `request.state.user_id`. The middleware sets the address and the
trace of a request, and the authentication returns the user without touching the
state, so that the user id is never there and every bucket is that of an address.
-/
namespace PhantomShare.RateLimit
open Foundations Internet

structure HttpRequest where
  peer : Option Text
  forwardedFor : Option Text
  credentials : Option String
  traceId : Option Text

/-- `request.state` of a new request. -/
def RequestState.initial : RequestState := ⟨none, none, none⟩

/-- `AuditMiddleware.dispatch` up to `call_next`. -/
def auditMiddleware (trustedProxyCidrs : List Text) (request : HttpRequest)
    (state : RequestState) : RequestState :=
  { state with
    clientIp := resolveClientIp trustedProxyCidrs request.peer request.forwardedFor
    traceId := request.traceId }

/-- A request to an endpoint, with the tables at its arrival, the clock as its limiter reads it,
the time at which the script runs, and the drawn token. -/
structure Arrival (η : Type) where
  endpoint : η
  request : HttpRequest
  world : World
  now : ℚ
  ranAt : ℚ
  token : Token

section Pipeline
variable {η : Type} (P : Platform) (trustedProxyCidrs : List Text) (limiters : η → Limiter)

/-- The user whose valid access token these credentials are. The dependency reads the credentials
and the tables, and leaves `request.state` alone. -/
def authenticated (credentials : Option String) (w : World) : Option UUID :=
  match (Security.getCurrentUser P credentials).alone 0 (fun _ => {}) w with
  | some (.ok user, _) => some user.id
  | _ => none

def Arrival.caller (a : Arrival η) : Option UUID := authenticated P a.request.credentials a.world

/-- The key under which the dependency of the endpoint counts a request. -/
def Arrival.key (a : Arrival η) : Text :=
  (limiters a.endpoint).key (auditMiddleware trustedProxyCidrs a.request .initial) a.request.peer

/-- `rate_limit` under a key: whether the request passes, and the sorted sets after it. -/
def Arrival.count (a : Arrival η) (key : Text) (store : Store) : Bool × Store :=
  let limiter := limiters a.endpoint
  let ran := slidingWindow key a.now (a.now - limiter.windowSeconds) limiter.windowSeconds
    limiter.maxRequests a.token a.ranAt store
  (ran.1.accepted, ran.2)

/-- Which of the requests of a user pass, in a history that starts with these sorted sets. -/
def verdicts (user : UUID) (store : Store) : List (Arrival η) → List Bool
  | [] => []
  | a :: rest =>
    let counted := a.count limiters (a.key trustedProxyCidrs limiters) store
    if a.caller P = some user then counted.1 :: verdicts user counted.2 rest
    else verdicts user counted.2 rest

/-- The peer and the header that say where a request comes from. -/
abbrev Origin := Option Text × Option Text

def Arrival.origin (a : Arrival η) : Origin := (a.request.peer, a.request.forwardedFor)

/-- The client address of an origin. -/
def clientIp (origin : Origin) : Option Text :=
  resolveClientIp trustedProxyCidrs origin.1 origin.2

/-- A request with its origin left out. -/
def Arrival.unaddressed (a : Arrival η) : Arrival η :=
  { a with request := { a.request with peer := none, forwardedFor := none } }

/-- The user's requests come from `own`, all others from `others`. -/
def ComesFrom (user : UUID) (own others : Set Origin) (history : List (Arrival η)) : Prop :=
  ∀ a ∈ history, if a.caller P = some user then a.origin ∈ own else a.origin ∈ others

/-- Which of the user's requests pass depends on these requests alone, and not on their origins. -/
def PerUser (user : UUID) (own others : Set Origin) : Prop :=
  ∀ history history' : List (Arrival η),
    ComesFrom P user own others history → ComesFrom P user own others history' →
    (history.filter fun a => a.caller P = some user).map Arrival.unaddressed =
      (history'.filter fun a => a.caller P = some user).map Arrival.unaddressed →
    verdicts P trustedProxyCidrs limiters user .empty history =
      verdicts P trustedProxyCidrs limiters user .empty history'

/-- A limiter that lets all requests pass or none. -/
def Limiter.Degenerate (limiter : Limiter) : Prop :=
  limiter.maxRequests = 0 ∨ limiter.windowSeconds ≤ 0

end Pipeline

/-- A call that nothing delays or fails is decided by the script and leaves its sorted sets. -/
theorem rateLimit_alone {key : Text} {maxRequests : ℕ} {windowSeconds : ℤ} {pid : ℕ} {s : Server}
    {choices : ℕ → Choice} (hworks : ∀ n, (choices n).fails = false) (hsha : s.scriptSha = true)
    (hfresh : (s.drawn.any fun entry => entry.1 = (choices 2).token) = false) :
    ∃ rest s', (rateLimit key maxRequests windowSeconds).alone pid choices s =
      some (if (slidingWindow key s.time (s.time - windowSeconds) windowSeconds maxRequests
          (choices 2).token s.time s.store).1.accepted then .ok ()
        else .error (rejection (slidingWindow key s.time (s.time - windowSeconds) windowSeconds
          maxRequests (choices 2).token s.time s.store).1 s.time maxRequests windowSeconds),
        rest, s') ∧
      s'.store = (slidingWindow key s.time (s.time - windowSeconds) windowSeconds maxRequests
        (choices 2).token s.time s.store).2 := by
  simp only [rateLimit, getRedis, clock, tokenHex, evalScript, cachedSha, evalsha,
    Program.alone_bind, Program.alone_tryCatch, Program.alone_perform, hworks, hsha, hfresh,
    Bool.false_eq_true, if_false, Option.map_some, Option.bind_some, Program.alone_pure,
    if_true, Bool.not_true]
  cases (slidingWindow key s.time (s.time - windowSeconds) windowSeconds maxRequests
    (choices 2).token s.time s.store).1.accepted with
  | true => exact ⟨_, _, rfl, rfl⟩
  | false => exact ⟨_, _, rfl, rfl⟩

/-! ### The keys -/

/-- The key of an address. -/
def Limiter.addressKey (limiter : Limiter) (address : Text) : Text :=
  (if limiter.scope.isEmpty then "phantom:ratelimit".toList
    else "phantom:ratelimit:".toList ++ limiter.scope) ++ ':' :: ("ip:".toList ++ address)

/-- The texts of addresses are not empty and have no letter `p`. -/
theorem clientIp_eq (trustedProxyCidrs : List Text) (origin : Origin) :
    ∃ address, clientIp trustedProxyCidrs origin = some address ∧ address ≠ [] ∧
      'p' ∉ address := by
  rcases resolveClientIp_cases trustedProxyCidrs origin.1 origin.2 with h | ⟨address, h⟩
  · exact ⟨unknown, h, by decide, by decide⟩
  · refine ⟨address.toText, h, ?_, not_mem_toText (by decide) (by decide) (by decide) address⟩
    intro hnil
    have hparse := ipAddress_toText address
    rw [hnil] at hparse
    exact absurd hparse (by simp [ipAddress, ipv4FromString, ipv6Address, ipv6FromString])

section Keys
variable {η : Type} {trustedProxyCidrs : List Text} {limiters : η → Limiter}

/-- No component provides a user id, so a request is counted under its address. -/
theorem Arrival.key_eq {a : Arrival η} {address : Text}
    (h : clientIp trustedProxyCidrs a.origin = some address) (hnonempty : address ≠ []) :
    a.key trustedProxyCidrs limiters = (limiters a.endpoint).addressKey address := by
  have hip : truthy (clientIp trustedProxyCidrs a.origin) = some address := by
    rw [h]
    cases address with
    | nil => exact absurd rfl hnonempty
    | cons c rest => rfl
  have hstate : (auditMiddleware trustedProxyCidrs a.request .initial).clientIp =
      clientIp trustedProxyCidrs a.origin := rfl
  have huser : truthy (auditMiddleware trustedProxyCidrs a.request .initial).userId = none := rfl
  simp only [Arrival.key, Limiter.key, Limiter.addressKey, huser, hstate, hip, Option.getD_some]

/-- The address can be read off a key, whatever the scope. -/
theorem addressKey_inj {limiter limiter' : Limiter} {address address' : Text}
    (hp : 'p' ∉ address) (hp' : 'p' ∉ address')
    (h : limiter.addressKey address = limiter'.addressKey address') : address = address' := by
  have hread : ∀ (front text : Text), 'p' ∉ text →
      (front ++ ':' :: ("ip:".toList ++ text)).reverse.takeWhile (· ≠ 'p') =
        text.reverse ++ [':'] := by
    intro front text htext
    have hall : ∀ c ∈ text.reverse ++ [':'], decide (c ≠ 'p') = true := by
      intro c hc
      rw [decide_eq_true_eq]
      rintro rfl
      simp [htext] at hc
    have hsplit : (front ++ ':' :: ("ip:".toList ++ text)).reverse =
        (text.reverse ++ [':']) ++ ('p' :: 'i' :: ':' :: front.reverse) := by simp
    rw [hsplit, List.takeWhile_append_of_pos hall]
    simp
  have hsuffix := congrArg (fun key : Text => key.reverse.takeWhile (· ≠ 'p')) h
  simp only [Limiter.addressKey, hread _ _ hp, hread _ _ hp'] at hsuffix
  exact List.reverse_injective (List.append_cancel_right hsuffix)

end Keys

/-! ### One script and its bucket -/

section Scripts
variable {η : Type} {limiters : η → Limiter}

theorem find_expire {store : Store} {key key' : Text} {entries : Table Entry.member}
    {windowSeconds : ℤ} {time : ℚ} (h : key' ≠ key) :
    (store.expire key entries windowSeconds time).find key' = store.find key' := by
  unfold Store.expire
  split
  · rw [Table.find_deleteWhere]
    cases hfind : store.find key' with
    | none => rfl
    | some bucket => simp [Table.key_of_find hfind, h]
  · rw [Table.find_put, if_neg h]

theorem find_pruned {store : Store} {key key' : Text} {entries : Table Entry.member}
    (h : key' ≠ key) : (store.pruned key entries).find key' = store.find key' := by
  unfold Store.pruned
  split
  · split
    · rw [Table.find_deleteWhere]
      cases hfind : store.find key' with
      | none => rfl
      | some bucket => simp [Table.key_of_find hfind, h]
    · rw [Table.find_put, if_neg h]
  · rfl

/-- A script leaves the other keys alone. -/
theorem Arrival.count_find_ne {a : Arrival η} {key key' : Text} {store : Store} (h : key' ≠ key) :
    (a.count limiters key store).2.find key' = store.find key' := by
  simp only [Arrival.count, slidingWindow]
  split
  · exact find_pruned h
  · exact find_expire h

/-- The outcome and the bucket of a key depend on that bucket alone. -/
theorem Arrival.count_congr {a : Arrival η} {key : Text} {store store' : Store}
    (h : store.find key = store'.find key) :
    (a.count limiters key store).1 = (a.count limiters key store').1 ∧
      (a.count limiters key store).2.find key = (a.count limiters key store').2.find key := by
  have hentries : ∀ time, store.entries key time = store'.entries key time := by
    intro time
    simp only [Store.entries, h]
  have hpruned : ∀ entries, (store.pruned key entries).find key =
      (store'.pruned key entries).find key := by
    intro entries
    unfold Store.pruned
    rw [← h]
    cases hfind : store.find key with
    | none => simp only [hfind, ← h]
    | some bucket =>
      dsimp only
      split
      · rw [Table.find_deleteWhere, Table.find_deleteWhere, h]
      · rw [Table.find_put, Table.find_put, if_pos rfl, if_pos rfl]
  have hexpire : ∀ entries windowSeconds time,
      (store.expire key entries windowSeconds time).find key =
        (store'.expire key entries windowSeconds time).find key := by
    intro entries windowSeconds time
    unfold Store.expire
    split
    · rw [Table.find_deleteWhere, Table.find_deleteWhere, h]
    · rw [Table.find_put, Table.find_put, if_pos rfl, if_pos rfl]
  simp only [Arrival.count, slidingWindow, ← hentries]
  split
  · exact ⟨rfl, hpruned _⟩
  · exact ⟨rfl, hexpire _ _ _⟩

/-- A degenerate limiter decides by its maximum and leaves no bucket. -/
theorem Arrival.count_degenerate {a : Arrival η} {key : Text}
    (h : (limiters a.endpoint).Degenerate) :
    a.count limiters key .empty = (decide (0 < (limiters a.endpoint).maxRequests), .empty) := by
  have hentries : prune (a.now - (limiters a.endpoint).windowSeconds)
      (Store.entries .empty key a.ranAt) = .empty := rfl
  by_cases hmax : (limiters a.endpoint).maxRequests = 0
  · simp [Arrival.count, slidingWindow, hentries, hmax, Store.pruned]
  · have hwindow := h.resolve_left hmax
    have hpos := Nat.pos_of_ne_zero hmax
    have hdeleted : (Table.empty : Store).deleteWhere (fun bucket => bucket.key = key) = .empty :=
      rfl
    simp [Arrival.count, slidingWindow, hentries, hmax, Store.expire, hwindow, hdeleted, hpos]

end Scripts

/-! ### One bucket for one address -/

section Address
variable {η : Type} {P : Platform} {trustedProxyCidrs : List Text} {limiters : η → Limiter}
  {user : UUID} {own others : Set Origin} {address : Text}

/-- Which requests pass when all of them are counted under one address. -/
def verdictsAt (limiters : η → Limiter) (address : Text) (store : Store) :
    List (Arrival η) → List Bool
  | [] => []
  | a :: rest =>
    let counted := a.count limiters ((limiters a.endpoint).addressKey address) store
    counted.1 :: verdictsAt limiters address counted.2 rest

/-- The buckets of an address are the same in both stores. -/
def AgreeAt (limiters : η → Limiter) (address : Text) (store store' : Store) : Prop :=
  ∀ e, store.find ((limiters e).addressKey address) = store'.find ((limiters e).addressKey address)

theorem AgreeAt.count {store store' : Store} (agree : AgreeAt limiters address store store')
    (a : Arrival η) : AgreeAt limiters address
      (a.count limiters ((limiters a.endpoint).addressKey address) store).2
      (a.count limiters ((limiters a.endpoint).addressKey address) store').2 := by
  intro e
  by_cases hkey : (limiters e).addressKey address = (limiters a.endpoint).addressKey address
  · rw [hkey]
    exact (Arrival.count_congr (agree a.endpoint)).2
  · rw [Arrival.count_find_ne hkey, Arrival.count_find_ne hkey]
    exact agree e

/-- A request from another address does not touch the buckets of this one. -/
theorem AgreeAt.count_other {store store' : Store} (agree : AgreeAt limiters address store store')
    (hp : 'p' ∉ address) {a : Arrival η} (h : clientIp trustedProxyCidrs a.origin ≠ some address) :
    AgreeAt limiters address
      (a.count limiters (a.key trustedProxyCidrs limiters) store).2 store' := by
  intro e
  rcases clientIp_eq trustedProxyCidrs a.origin with ⟨address', hip, hnonempty, hp'⟩
  rw [Arrival.key_eq hip hnonempty, Arrival.count_find_ne, agree e]
  intro hkey
  apply h
  rw [hip, addressKey_inj hp hp' hkey]

/-- Where the user alone has one address, the user's requests are counted as if there were no
others. -/
theorem verdicts_eq_verdictsAt (hp : 'p' ∉ address) (hnonempty : address ≠ [])
    (hown : ∀ origin ∈ own, clientIp trustedProxyCidrs origin = some address)
    (hothers : ∀ origin ∈ others, clientIp trustedProxyCidrs origin ≠ some address)
    {history : List (Arrival η)} (h : ComesFrom P user own others history) {store store' : Store}
    (agree : AgreeAt limiters address store store') :
    verdicts P trustedProxyCidrs limiters user store history =
      verdictsAt limiters address store'
        ((history.filter fun a => a.caller P = some user).map Arrival.unaddressed) := by
  induction history generalizing store store' with
  | nil => rfl
  | cons a rest ih =>
    have hrest : ComesFrom P user own others rest := fun b hb => h b (List.mem_cons_of_mem a hb)
    have ha := h a List.mem_cons_self
    by_cases hcaller : a.caller P = some user
    · rw [if_pos hcaller] at ha
      have hkey := @Arrival.key_eq _ _ limiters _ _ (hown _ ha) hnonempty
      have hcount := @Arrival.count_congr _ limiters a _ _ _ (agree a.endpoint)
      simp only [verdicts, hkey, List.filter_cons, decide_true, if_true, List.map_cons, verdictsAt,
        hcaller]
      rw [ih hrest (agree.count a), hcount.1]
      rfl
    · rw [if_neg hcaller] at ha
      simp only [verdicts, List.filter_cons, hcaller, decide_false, Bool.false_eq_true, if_false]
      exact ih hrest (agree.count_other hp (hothers _ ha))

theorem verdicts_degenerate (h : ∀ e, (limiters e).Degenerate) (history : List (Arrival η)) :
    verdicts P trustedProxyCidrs limiters user .empty history =
      ((history.filter fun a => a.caller P = some user).map Arrival.unaddressed).map
        fun a => decide (0 < (limiters a.endpoint).maxRequests) := by
  induction history with
  | nil => rfl
  | cons a rest ih =>
    rw [verdicts, Arrival.count_degenerate (h a.endpoint), ih]
    by_cases hcaller : a.caller P = some user
    · simp [hcaller, Arrival.unaddressed]
    · simp [hcaller]

end Address

/-! ### Filling a bucket -/

section Fill
variable {η : Type} {P : Platform} {trustedProxyCidrs : List Text} {limiters : η → Limiter}
  {user : UUID}

/-- The sorted sets after a history. -/
def storeAfter (trustedProxyCidrs : List Text) (limiters : η → Limiter) (store : Store) :
    List (Arrival η) → Store
  | [] => store
  | a :: rest =>
    storeAfter trustedProxyCidrs limiters
      (a.count limiters (a.key trustedProxyCidrs limiters) store).2 rest

theorem storeAfter_append (store : Store) (history history' : List (Arrival η)) :
    storeAfter trustedProxyCidrs limiters store (history ++ history') =
      storeAfter trustedProxyCidrs limiters
        (storeAfter trustedProxyCidrs limiters store history) history' := by
  induction history generalizing store with
  | nil => rfl
  | cons a rest ih => exact ih _

theorem verdicts_append (store : Store) (history history' : List (Arrival η)) :
    verdicts P trustedProxyCidrs limiters user store (history ++ history') =
      verdicts P trustedProxyCidrs limiters user store history ++
        verdicts P trustedProxyCidrs limiters user
          (storeAfter trustedProxyCidrs limiters store history) history' := by
  induction history generalizing store with
  | nil => rfl
  | cons a rest ih =>
    simp only [List.cons_append, verdicts, storeAfter, ih]
    split <;> rfl

/-- A request at time zero with its number as token. -/
def zeroth (e : η) (request : HttpRequest) (w : World) (token : Token) : Arrival η :=
  ⟨e, request, w, 0, 0, token⟩

/-- The bucket of a key holds the tokens below `n`. -/
def Filled (key : Text) (n : ℕ) (store : Store) : Prop :=
  (store.entries key 0).rows = (List.range n).map fun i => ⟨i, 0⟩

theorem filled_zero {key : Text} {store : Store} (h : store.find key = none) :
    Filled key 0 store := by
  rw [Filled, Store.entries, h]
  rfl

theorem count_zeroth {e : η} {request : HttpRequest} {w : World} {key : Text} {n : ℕ}
    {store : Store} (hwindow : 0 < (limiters e).windowSeconds) (h : Filled key n store)
    (token : Token) : (zeroth e request w token).count limiters key store =
      if (limiters e).maxRequests ≤ n then (false, store.pruned key (store.entries key 0))
      else (true,
        store.put ⟨key, (store.entries key 0).put ⟨token, 0⟩, 0 + (limiters e).windowSeconds⟩) := by
  have hpos : (0 : ℚ) < (limiters e).windowSeconds := by exact_mod_cast hwindow
  have hprune : prune (0 - (limiters e).windowSeconds) (store.entries key 0) =
      store.entries key 0 := by
    apply Table.deleteWhere_none
    intro entry hentry
    rw [h] at hentry
    rcases List.mem_map.mp hentry with ⟨i, _, rfl⟩
    simp [hwindow]
  have hlength : (store.entries key 0).rows.length = n := by
    rw [h, List.length_map, List.length_range]
  simp only [zeroth, Arrival.count, slidingWindow, hprune, hlength, Store.expire,
    if_neg (not_le.mpr hwindow)]
  by_cases hroom : (limiters e).maxRequests ≤ n
  · simp only [if_pos hroom]
  · simp only [if_neg hroom]

theorem Filled.count {e : η} {request : HttpRequest} {w : World} {key : Text} {n : ℕ}
    {store : Store} (h : Filled key n store) (hwindow : 0 < (limiters e).windowSeconds)
    (hroom : n < (limiters e).maxRequests) :
    Filled key (n + 1) ((zeroth e request w n).count limiters key store).2 := by
  have hpos : (0 : ℚ) < (limiters e).windowSeconds := by exact_mod_cast hwindow
  have hkeep : (store.entries key 0).rows.filter (fun entry => entry.member ≠ n) =
      (List.range n).map fun i => ⟨i, 0⟩ := by
    rw [h, List.filter_eq_self]
    intro entry hentry
    rcases List.mem_map.mp hentry with ⟨i, hi, rfl⟩
    have hlt := List.mem_range.mp hi
    simp only [decide_eq_true_eq]
    omega
  have hlive : ¬ 0 + ((limiters e).windowSeconds : ℚ) < 0 := by
    rw [zero_add]
    exact not_lt.mpr hpos.le
  rw [count_zeroth hwindow h, if_neg (not_le.mpr hroom), Filled, Store.entries, Table.find_put,
    if_pos rfl]
  simp only [if_neg hlive]
  rw [List.range_succ, List.map_append, List.map_singleton, ← hkeep]
  rfl

/-- As many requests of one origin as its limiter lets pass fill the bucket of its address. -/
theorem filled_storeAfter {e : η} {request : HttpRequest} {w : World} {key : Text}
    (hwindow : 0 < (limiters e).windowSeconds)
    (hkey : ∀ token, (zeroth e request w token).key trustedProxyCidrs limiters = key) {n : ℕ}
    (hn : n ≤ (limiters e).maxRequests) :
    Filled key n (storeAfter trustedProxyCidrs limiters .empty
      ((List.range n).map (zeroth e request w))) ∧
    ∀ key' ≠ key, (storeAfter trustedProxyCidrs limiters .empty
      ((List.range n).map (zeroth e request w))).find key' = none := by
  induction n with
  | zero => exact ⟨filled_zero rfl, fun key' _ => rfl⟩
  | succ n ih =>
    have hprior := ih (by omega)
    rw [List.range_succ, List.map_append, List.map_singleton, storeAfter_append, storeAfter,
      storeAfter, hkey]
    constructor
    · exact hprior.1.count hwindow (by omega)
    · intro key' hne
      rw [Arrival.count_find_ne hne]
      exact hprior.2 key' hne

/-- What the user's request finds in its bucket decides whether it passes. -/
theorem last_verdict {history : List (Arrival η)} {e : η} {request : HttpRequest} {w : World}
    {key : Text} {n : ℕ} {token : Token} (hwindow : 0 < (limiters e).windowSeconds)
    (hcaller : (zeroth e request w token).caller P = some user)
    (hkey : (zeroth e request w token).key trustedProxyCidrs limiters = key)
    (hfilled : Filled key n (storeAfter trustedProxyCidrs limiters .empty history)) :
    (verdicts P trustedProxyCidrs limiters user .empty
      (history ++ [zeroth e request w token])).getLast? =
        some (decide (n < (limiters e).maxRequests)) := by
  rw [verdicts_append, List.getLast?_append]
  simp only [verdicts, if_pos hcaller, hkey, count_zeroth hwindow hfilled]
  by_cases hroom : (limiters e).maxRequests ≤ n
  · simp [hroom]
  · simp [hroom, not_le.mp hroom]

end Fill

section Requests
variable {η : Type} {P : Platform} {trustedProxyCidrs : List Text} {limiters : η → Limiter}
  {user : UUID} {own others : Set Origin}

/-- A request with these credentials from an origin. -/
def requestFrom (origin : Origin) (credentials : Option String) : HttpRequest :=
  ⟨origin.1, origin.2, credentials, none⟩

theorem zeroth_key {e : η} {origin : Origin} {address : Text} {credentials : Option String}
    {w : World} (h : clientIp trustedProxyCidrs origin = some address) (hnonempty : address ≠ [])
    (token : Token) :
    (zeroth e (requestFrom origin credentials) w token).key trustedProxyCidrs limiters =
      (limiters e).addressKey address := Arrival.key_eq h hnonempty

theorem comesFrom_own {e : η} {origin : Origin} {credentials : Option String} {w : World}
    (hvalid : authenticated P credentials w = some user) (horigin : origin ∈ own)
    (tokens : List Token) : ComesFrom P user own others
      (tokens.map (zeroth e (requestFrom origin credentials) w)) := by
  intro a ha
  rcases List.mem_map.mp ha with ⟨token, _, rfl⟩
  have hcaller : (zeroth e (requestFrom origin credentials) w token).caller P = some user := hvalid
  rw [if_pos hcaller]
  exact horigin

theorem comesFrom_others {e : η} {origin : Origin} {w : World} (horigin : origin ∈ others)
    (tokens : List Token) : ComesFrom P user own others
      (tokens.map (zeroth e (requestFrom origin none) w)) := by
  intro a ha
  rcases List.mem_map.mp ha with ⟨token, _, rfl⟩
  rw [if_neg nofun]
  exact horigin

theorem ComesFrom.append {history history' : List (Arrival η)}
    (h : ComesFrom P user own others history) (h' : ComesFrom P user own others history') :
    ComesFrom P user own others (history ++ history') := by
  intro a ha
  rcases List.mem_append.mp ha with ha | ha
  · exact h a ha
  · exact h' a ha

/-- Whoever shares an address with the user can use up the user's requests. -/
theorem not_perUser_of_shared {e : η} {credentials : Option String} {w : World}
    (hvalid : authenticated P credentials w = some user) (hmax : 0 < (limiters e).maxRequests)
    (hwindow : 0 < (limiters e).windowSeconds) {origin origin' : Origin} (hown : origin ∈ own)
    (hother : origin' ∈ others)
    (hshared : clientIp trustedProxyCidrs origin' = clientIp trustedProxyCidrs origin) :
    ¬ PerUser P trustedProxyCidrs limiters user own others := by
  intro hper
  let burst := (List.range (limiters e).maxRequests).map (zeroth e (requestFrom origin' none) w)
  let last := zeroth e (requestFrom origin credentials) w (limiters e).maxRequests
  have hcaller : last.caller P = some user := hvalid
  have hlast : ComesFrom P user own others [last] :=
    comesFrom_own hvalid hown [(limiters e).maxRequests]
  have hburst : ComesFrom P user own others burst := comesFrom_others hother _
  have hfilter : burst.filter (fun a => a.caller P = some user) = [] := by
    rw [List.filter_eq_nil_iff]
    intro a ha
    rcases List.mem_map.mp ha with ⟨token, _, rfl⟩
    rw [decide_eq_true_eq]
    exact nofun
  have hsame := hper (burst ++ [last]) [last] (hburst.append hlast) hlast
    (by rw [List.filter_append, hfilter, List.nil_append])
  rcases clientIp_eq trustedProxyCidrs origin with ⟨address, hip, hnonempty, _⟩
  have hfilled := (@filled_storeAfter η trustedProxyCidrs limiters e _ w _ hwindow
    (@zeroth_key _ _ _ _ _ _ none w (hshared.trans hip) hnonempty) _ le_rfl).1
  have hafter := last_verdict hwindow hcaller (zeroth_key hip hnonempty _) hfilled
  have hfirst := @last_verdict η P trustedProxyCidrs limiters user [] e _ w _ 0 _ hwindow hcaller
    (zeroth_key hip hnonempty _) (filled_zero rfl)
  have hcontra := hafter.symm.trans ((congrArg List.getLast? hsame).trans hfirst)
  simp [hmax] at hcontra

/-- A user with two addresses has two buckets. -/
theorem not_perUser_of_two {e : η} {credentials : Option String} {w : World}
    (hvalid : authenticated P credentials w = some user) (hmax : 0 < (limiters e).maxRequests)
    (hwindow : 0 < (limiters e).windowSeconds) {origin origin' : Origin} (hown : origin ∈ own)
    (hown' : origin' ∈ own)
    (hne : clientIp trustedProxyCidrs origin ≠ clientIp trustedProxyCidrs origin') :
    ¬ PerUser P trustedProxyCidrs limiters user own others := by
  intro hper
  let burst := (List.range (limiters e).maxRequests).map
    (zeroth e (requestFrom origin credentials) w)
  let last := fun o : Origin => zeroth e (requestFrom o credentials) w (limiters e).maxRequests
  have hcaller : ∀ o, (last o).caller P = some user := fun _ => hvalid
  have hlast : ∀ o ∈ own, ComesFrom P user own others [last o] := fun o ho =>
    comesFrom_own hvalid ho [(limiters e).maxRequests]
  have hburst : ComesFrom P user own others burst := comesFrom_own hvalid hown _
  have hsame := hper (burst ++ [last origin]) (burst ++ [last origin'])
    (hburst.append (hlast origin hown)) (hburst.append (hlast origin' hown')) (by
      simp only [List.filter_append, List.map_append, List.filter_cons, hcaller, decide_true,
        if_true, List.filter_nil]
      rfl)
  rcases clientIp_eq trustedProxyCidrs origin with ⟨address, hip, hnonempty, hp⟩
  rcases clientIp_eq trustedProxyCidrs origin' with ⟨address', hip', hnonempty', hp'⟩
  have hfilled := @filled_storeAfter η trustedProxyCidrs limiters e _ w _ hwindow
    (@zeroth_key _ _ _ _ _ _ credentials w hip hnonempty) _ le_rfl
  have hkeys : (limiters e).addressKey address' ≠ (limiters e).addressKey address := by
    intro hkey
    rw [hip, hip', addressKey_inj hp' hp hkey] at hne
    exact hne rfl
  have hsecond := last_verdict hwindow (hcaller origin) (zeroth_key hip hnonempty _) hfilled.1
  have hfirst := last_verdict hwindow (hcaller origin') (zeroth_key hip' hnonempty' _)
    (filled_zero (hfilled.2 _ hkeys))
  have hcontra := hsecond.symm.trans ((congrArg List.getLast? hsame).trans hfirst)
  simp [hmax] at hcontra

/-- Who sends nothing has no verdicts. -/
theorem verdicts_eq_nil {history : List (Arrival η)} (h : ComesFrom P user ∅ others history)
    (store : Store) : verdicts P trustedProxyCidrs limiters user store history = [] := by
  induction history generalizing store with
  | nil => rfl
  | cons a rest ih =>
    have ha := h a List.mem_cons_self
    by_cases hcaller : a.caller P = some user
    · rw [if_pos hcaller] at ha
      exact absurd ha (Set.notMem_empty _)
    · simp only [verdicts, if_neg hcaller]
      exact ih (fun b hb => h b (List.mem_cons_of_mem a hb)) _

end Requests

/-- A user's requests are counted apart from the others' and in one bucket exactly as long as
nobody else uses the user's address and the user has only one, or no limiter limits anything. -/
theorem perUser_iff {η : Type} (P : Platform) (trustedProxyCidrs : List Text)
    (limiters : η → Limiter) {user : UUID} {credentials : Option String} {w : World}
    (hvalid : authenticated P credentials w = some user) (own others : Set Origin) :
    PerUser P trustedProxyCidrs limiters user own others ↔
      (∀ e, (limiters e).Degenerate) ∨
      (Disjoint (clientIp trustedProxyCidrs '' own) (clientIp trustedProxyCidrs '' others) ∧
        (clientIp trustedProxyCidrs '' own).Subsingleton) := by
  constructor
  · intro hper
    by_cases hdegenerate : ∀ e, (limiters e).Degenerate
    · exact .inl hdegenerate
    · rcases not_forall.mp hdegenerate with ⟨e, he⟩
      rcases not_or.mp he with ⟨hmax, hwindow⟩
      right
      constructor
      · rw [Set.disjoint_left]
        rintro _ ⟨origin, hown, rfl⟩ ⟨origin', hother, hshared⟩
        exact not_perUser_of_shared hvalid (Nat.pos_of_ne_zero hmax) (not_le.mp hwindow) hown
          hother hshared hper
      · rintro _ ⟨origin, hown, rfl⟩ _ ⟨origin', hown', rfl⟩
        by_contra hne
        exact not_perUser_of_two hvalid (Nat.pos_of_ne_zero hmax) (not_le.mp hwindow) hown hown'
          hne hper
  · rintro (hdegenerate | ⟨hdisjoint, hone⟩) history history' h h' hfilter
    · rw [verdicts_degenerate hdegenerate, verdicts_degenerate hdegenerate, hfilter]
    · rcases own.eq_empty_or_nonempty with rfl | ⟨origin, horigin⟩
      · rw [verdicts_eq_nil h, verdicts_eq_nil h']
      · rcases clientIp_eq trustedProxyCidrs origin with ⟨address, hip, hnonempty, hp⟩
        have hall : ∀ o ∈ own, clientIp trustedProxyCidrs o = some address := by
          intro o ho
          rw [← hip]
          exact hone ⟨o, ho, rfl⟩ ⟨origin, horigin, rfl⟩
        have hothers : ∀ o ∈ others, clientIp trustedProxyCidrs o ≠ some address := by
          intro o ho heq
          exact Set.disjoint_left.mp hdisjoint ⟨origin, horigin, hip⟩ ⟨o, ho, heq⟩
        rw [verdicts_eq_verdictsAt hp hnonempty hall hothers h fun _ => rfl,
          verdicts_eq_verdictsAt hp hnonempty hall hothers h' fun _ => rfl, hfilter]

section Sample

/-- `limiter(10, 60, scope="rotate_key")`. -/
def rotateKeyLimiter : Unit → Limiter := fun _ => ⟨10, 60, "rotate_key".toList, false⟩

def sampleOrigin : Origin := (some "203.0.113.9".toList, none)

def otherOrigin : Origin := (some "203.0.113.10".toList, none)

/-- The sample user is signed in. -/
def signedIn : World :=
  worldOf
    { Database.empty with
      users := sampleUsers
      sessions := ⟨[⟨2, 1, "hash", "", none, 0, days 7, false⟩], List.nodup_singleton _⟩ }
    .empty .empty 0

def sampleAccessToken : String := Security.createAccessToken samplePlatform 1 .user 2 3 0

theorem sampleAccessToken_valid :
    authenticated samplePlatform (some sampleAccessToken) signedIn = some 1 := by decide +kernel

/-- Ten anonymous requests from the user's address. -/
def anonymousBurst : List (Arrival Unit) :=
  (List.range 10).map (zeroth () (requestFrom sampleOrigin none) signedIn)

def sampleArrival : Arrival Unit :=
  zeroth () (requestFrom sampleOrigin (some sampleAccessToken)) signedIn 10

/-- The anonymous requests turn the user's request away. -/
theorem anonymous_requests_exhaust :
    verdicts samplePlatform [] rotateKeyLimiter 1 .empty (anonymousBurst ++ [sampleArrival]) =
      [false] ∧
    verdicts samplePlatform [] rotateKeyLimiter 1 .empty [sampleArrival] = [true] ∧
    ¬ PerUser samplePlatform [] rotateKeyLimiter 1 Set.univ Set.univ :=
  ⟨by decide +kernel, by decide +kernel,
    not_perUser_of_shared sampleAccessToken_valid
      (show 0 < (rotateKeyLimiter ()).maxRequests by decide)
      (show 0 < (rotateKeyLimiter ()).windowSeconds by decide) (Set.mem_univ sampleOrigin)
      (Set.mem_univ sampleOrigin) rfl⟩

/-- Others at another address do not count against the user. -/
theorem perUser_iff_sample :
    PerUser samplePlatform [] rotateKeyLimiter 1 {sampleOrigin} {otherOrigin} := by
  apply (perUser_iff samplePlatform [] rotateKeyLimiter sampleAccessToken_valid _ _).mpr
  right
  rw [Set.image_singleton, Set.image_singleton, Set.disjoint_singleton]
  exact ⟨by decide +kernel, Set.subsingleton_singleton⟩

end Sample
end PhantomShare.RateLimit
