import PhantomShare.Internet.Address
import Mathlib.Data.List.TakeWhile
import Mathlib.Data.Nat.Digits.Defs

/-!
# Reading back a written address

The text of an address parses to the address again. For IPv6 the scan for the
longest run of zero hextets keeps its run inside the list and inside the zeros,
so the parser restores exactly the hextets that `::` stands for.
-/
namespace PhantomShare.Internet

theorem valueBE_append (base : ℕ) (xs : List ℕ) (d : ℕ) :
    valueBE base (xs ++ [d]) = valueBE base xs * base + d := by
  simp [valueBE, List.foldl_append]

@[simp] theorem digitsBE_length (base count n : ℕ) : (digitsBE base count n).length = count := by
  induction count generalizing n with
  | zero => rfl
  | succ count ih => simp [digitsBE, ih]

theorem digitsBE_lt {base count n d : ℕ} (hbase : 0 < base) (h : d ∈ digitsBE base count n) :
    d < base := by
  induction count generalizing n with
  | zero => simp [digitsBE] at h
  | succ count ih =>
    rw [digitsBE, List.mem_append, List.mem_singleton] at h
    rcases h with h | rfl
    · exact ih h
    · exact Nat.mod_lt _ hbase

theorem valueBE_digitsBE {base count n : ℕ} (h : n < base ^ count) :
    valueBE base (digitsBE base count n) = n := by
  induction count generalizing n with
  | zero =>
    have hn : n = 0 := by simpa using h
    simp [digitsBE, valueBE, hn]
  | succ count ih =>
    rw [digitsBE, valueBE_append, ih]
    · exact Nat.div_add_mod' n base
    · apply Nat.div_lt_of_lt_mul
      rwa [pow_succ, Nat.mul_comm] at h

theorem mapM_eq_some_of_forall {α β : Type} {f : β → Option α} {g : α → β} {xs : List α}
    (h : ∀ x ∈ xs, f (g x) = some x) : (xs.map g).mapM f = some xs := by
  induction xs with
  | nil => rfl
  | cons x xs ih =>
    rw [List.map_cons, List.mapM_cons, h x (by simp), ih fun y hy => h y (by simp [hy])]
    rfl

theorem mapM_append_eq_some {α β : Type} {f : α → Option β} {xs ys : List α} {us vs : List β}
    (hx : xs.mapM f = some us) (hy : ys.mapM f = some vs) :
    (xs ++ ys).mapM f = some (us ++ vs) := by
  rw [List.mapM_append, hx, hy]
  rfl

theorem parseOctet_toDigits {n : ℕ} (hn : n < 256) : parseOctet (Nat.toDigits 10 n) = some n := by
  have hrows : ∀ a < 16, ∀ b < 16,
      parseOctet (Nat.toDigits 10 (16 * a + b)) = some (16 * a + b) := by decide +kernel
  have hsplit : 16 * (n / 16) + n % 16 = n := by omega
  simpa only [hsplit] using hrows (n / 16) (by omega) (n % 16) (by omega)

theorem ipv4FromString_toString (ip : BitVec 32) : ipv4FromString (ipv4ToString ip) = some ip := by
  have hdots : ∀ part ∈ (digitsBE 256 4 ip.toNat).map (Nat.toDigits 10), '.' ∉ part := by
    intro part hpart hdot
    rcases List.mem_map.mp hpart with ⟨n, _, rfl⟩
    exact absurd (Nat.isDigit_of_mem_toDigits (by decide) (by decide) hdot) (by decide)
  have hsplit : (ipv4ToString ip).splitOn '.' =
      (digitsBE 256 4 ip.toNat).map (Nat.toDigits 10) := by
    apply List.splitOn_intercalate '.' hdots
    intro hnil
    have hlength := congrArg List.length hnil
    simp at hlength
  have hparse : ((digitsBE 256 4 ip.toNat).map (Nat.toDigits 10)).mapM parseOctet =
      some (digitsBE 256 4 ip.toNat) := by
    apply mapM_eq_some_of_forall
    intro n hn
    exact parseOctet_toDigits (digitsBE_lt (by decide) hn)
  have hvalue : valueBE 256 (digitsBE 256 4 ip.toNat) = ip.toNat :=
    valueBE_digitsBE (by simpa using ip.isLt)
  simp [ipv4FromString, hsplit, hparse, hvalue]

theorem hexValue_digitChar : ∀ d < 16, hexValue (Nat.digitChar d) = some d := by decide

theorem mapM_hexValue_toDigits (n : ℕ) :
    ∃ digits, (Nat.toDigits 16 n).mapM hexValue = some digits ∧ valueBE 16 digits = n := by
  induction n using Nat.strong_induction_on with
  | _ n ih =>
    by_cases hn : n < 16
    · refine ⟨[n], ?_, by simp [valueBE]⟩
      rw [Nat.toDigits_of_lt_base hn, List.mapM_cons, hexValue_digitChar n hn]
      rfl
    · have hge : 16 ≤ n := Nat.le_of_not_lt hn
      rcases ih (n / 16) (by omega) with ⟨digits, hdigits, hvalue⟩
      have hlast : [Nat.digitChar (n % 16)].mapM hexValue = some [n % 16] := by
        rw [List.mapM_cons, hexValue_digitChar (n % 16) (Nat.mod_lt _ (by decide))]
        rfl
      refine ⟨digits ++ [n % 16], ?_, ?_⟩
      · rw [Nat.toDigits_of_base_le (by decide) hge]
        exact mapM_append_eq_some hdigits hlast
      · rw [valueBE_append, hvalue]
        exact Nat.div_add_mod' n 16

theorem parseHextet_toDigits {n : ℕ} (hn : n < 65536) :
    parseHextet (Nat.toDigits 16 n) = some n := by
  rcases mapM_hexValue_toDigits n with ⟨digits, hdigits, hvalue⟩
  have hlength : (Nat.toDigits 16 n).length ≤ 4 :=
    (Nat.length_toDigits_le_iff (by decide) (by decide)).mpr (by simpa using hn)
  have hcond : ¬ (Nat.toDigits 16 n = [] ∨ 4 < (Nat.toDigits 16 n).length) := by
    rintro (h | h)
    · exact Nat.toDigits_ne_nil h
    · omega
  rw [parseHextet, if_neg hcond, hdigits, Option.map_some, hvalue]

/-- A character that no hexadecimal text contains. -/
theorem not_mem_toDigits_hex {c : Char} (hc : hexValue c = none) (n : ℕ) :
    c ∉ Nat.toDigits 16 n := by
  induction n using Nat.strong_induction_on with
  | _ n ih =>
    intro hmem
    by_cases hn : n < 16
    · rw [Nat.toDigits_of_lt_base hn, List.mem_singleton] at hmem
      rw [hmem, hexValue_digitChar n hn] at hc
      cases hc
    · have hge : 16 ≤ n := Nat.le_of_not_lt hn
      rw [Nat.toDigits_of_base_le (by decide) hge, List.mem_append, List.mem_singleton] at hmem
      rcases hmem with hmem | rfl
      · exact ih (n / 16) (by omega) hmem
      · rw [hexValue_digitChar (n % 16) (Nat.mod_lt _ (by decide))] at hc
        cases hc

/-- What the scan knows after reading `seen`: both runs lie inside `seen` and hold only `'0'`. -/
structure ZeroRun.Sound (run : ZeroRun) (seen : List Text) : Prop where
  index_eq : run.index = seen.length
  current_end : 0 < run.length → run.start + run.length = run.index
  current_zero : ∀ j < run.length, seen[run.start + j]? = some ['0']
  best_end : run.bestStart + run.bestLength ≤ run.index
  best_zero : ∀ j < run.bestLength, seen[run.bestStart + j]? = some ['0']

theorem ZeroRun.Sound.append_zero {seen : List Text} {start length : ℕ}
    (hend : 0 < length → start + length = seen.length)
    (hzero : ∀ j < length, seen[start + j]? = some ['0']) :
    ∀ j < length + 1, (seen ++ [['0']])[(if length = 0 then seen.length else start) + j]? =
      some ['0'] := by
  intro j hj
  by_cases hlength : length = 0
  · have hj0 : j = 0 := by omega
    simp [hlength, hj0]
  · rw [if_neg hlength]
    have hstop := hend (by omega)
    rcases Nat.lt_succ_iff_lt_or_eq.mp hj with hlt | rfl
    · rw [List.getElem?_append_left (by omega)]
      exact hzero j hlt
    · simp [hstop]

theorem ZeroRun.step_sound {run : ZeroRun} {seen : List Text} (h : run.Sound seen)
    (hextet : Text) : (run.step hextet).Sound (seen ++ [hextet]) := by
  have hbest : ∀ j < run.bestLength, (seen ++ [hextet])[run.bestStart + j]? = some ['0'] := by
    intro j hj
    have hend := h.best_end
    have hindex := h.index_eq
    rw [List.getElem?_append_left (by omega)]
    exact h.best_zero j hj
  have hindex : run.index + 1 = (seen ++ [hextet]).length := by
    simp [h.index_eq]
  by_cases hzero : hextet = ['0']
  · subst hzero
    have hcurrent := ZeroRun.Sound.append_zero
      (fun hpos => (h.current_end hpos).trans h.index_eq) h.current_zero
    rw [← h.index_eq] at hcurrent
    have hstop : (if run.length = 0 then run.index else run.start) + (run.length + 1) =
        run.index + 1 := by
      by_cases hlength : run.length = 0
      · simp [hlength]
      · have hend := h.current_end (by omega)
        rw [if_neg hlength]
        omega
    by_cases hlonger : run.bestLength < run.length + 1
    · simp only [ZeroRun.step, if_true, if_pos hlonger]
      exact ⟨hindex, fun _ => hstop, hcurrent, hstop.le, hcurrent⟩
    · simp only [ZeroRun.step, if_true, if_neg hlonger]
      exact ⟨hindex, fun _ => hstop, hcurrent, h.best_end.trans (Nat.le_succ _), hbest⟩
  · simp only [ZeroRun.step, if_neg hzero]
    refine ⟨hindex, ?_, ?_, h.best_end.trans (Nat.le_succ _), hbest⟩
    · intro hpos
      simp at hpos
    · intro j hj
      simp at hj

theorem ZeroRun.foldl_sound {run : ZeroRun} {seen : List Text} (h : run.Sound seen)
    (hextets : List Text) : (hextets.foldl ZeroRun.step run).Sound (seen ++ hextets) := by
  induction hextets generalizing run seen with
  | nil => simpa using h
  | cons hextet rest ih =>
    have hnext := ih (ZeroRun.step_sound h hextet)
    rwa [List.append_assoc] at hnext

theorem ZeroRun.init_sound : (⟨0, 0, 0, 0, 0⟩ : ZeroRun).Sound [] := by
  constructor <;> simp

/-- The parts of a compressed address: `::` at either end leaves one more empty part there. -/
def joinParts (pre post : List Text) : List Text :=
  ((if pre = [] then [[]] else []) ++ pre) ++ [[]] ++ (post ++ if post = [] then [[]] else [])

theorem joinParts_length (pre post : List Text) :
    (joinParts pre post).length = max 1 pre.length + 1 + max 1 post.length := by
  rcases pre with _ | ⟨p, ps⟩ <;> rcases post with _ | ⟨q, qs⟩ <;> simp [joinParts] <;> omega

theorem mem_joinParts {pre post : List Text} {p : Text} (h : p ∈ joinParts pre post) :
    p = [] ∨ p ∈ pre ∨ p ∈ post := by
  simp only [joinParts, List.mem_append] at h
  rcases h with ((h | h) | h) | h | h
  · by_cases hpre : pre = []
    · simp only [if_pos hpre, List.mem_singleton] at h
      exact Or.inl h
    · simp [if_neg hpre] at h
  · exact Or.inr (Or.inl h)
  · exact Or.inl (List.mem_singleton.mp h)
  · exact Or.inr (Or.inr h)
  · by_cases hpost : post = []
    · simp only [if_pos hpost, List.mem_singleton] at h
      exact Or.inl h
    · simp [if_neg hpost] at h

theorem range_filter_eq_singleton {n k : ℕ} {p : ℕ → Bool} (hk : k < n)
    (hp : ∀ i < n, p i = true ↔ i = k) : (List.range n).filter p = [k] := by
  have hcongr : (List.range n).filter p = (List.range n).filter (· == k) := by
    apply List.filter_congr
    intro i hi
    have hiff := hp i (List.mem_range.mp hi)
    by_cases heq : i = k
    · simp [heq, hp k hk]
    · have hfalse : p i = false := by
        rw [← Bool.not_eq_true, hiff]
        exact heq
      simp [hfalse, heq]
  rw [hcongr, List.filter_beq, List.count_range, if_pos hk]
  rfl

/-- Inside the list the only empty part is the one that `::` left. -/
theorem interiorEmpty_joinParts {pre post : List Text} (hpre : ∀ p ∈ pre, p ≠ [])
    (hpost : ∀ p ∈ post, p ≠ []) :
    interiorEmpty (joinParts pre post) = [max 1 pre.length] := by
  have hlength := joinParts_length pre post
  apply range_filter_eq_singleton
  · omega
  · intro i hi
    have hlead : ((if pre = [] then [[]] else []) ++ pre).length = max 1 pre.length := by
      rcases pre with _ | ⟨p, ps⟩
      · rfl
      · simp
    rw [decide_eq_true_eq]
    constructor
    · rintro ⟨hpos, hinner, hget⟩
      rcases Nat.lt_trichotomy i (max 1 pre.length) with hlt | heq | hgt
      · -- before the gap every part comes from `pre`
        rcases pre with _ | ⟨p, ps⟩
        · simp at hlt
          omega
        · rw [joinParts, List.getElem?_append_left (by simp; simp at hlt; omega),
            List.getElem?_append_left (by rw [hlead]; exact hlt)] at hget
          simp only [reduceCtorEq, if_false, List.nil_append] at hget
          exact (hpre _ (List.mem_of_getElem? hget) rfl).elim
      · exact heq
      · -- after the gap every part but the last comes from `post`
        have hgap : (((if pre = [] then [[]] else []) ++ pre) ++ [[]]).length =
            max 1 pre.length + 1 := by rw [List.length_append, hlead]; rfl
        rw [joinParts, List.getElem?_append_right (by rw [hgap]; omega), hgap] at hget
        rcases post with _ | ⟨q, qs⟩
        · simp at hlength
          omega
        · simp only [reduceCtorEq, if_false, List.append_nil] at hget
          exact (hpost _ (List.mem_of_getElem? hget) rfl).elim
    · rintro rfl
      refine ⟨by omega, by omega, ?_⟩
      rw [joinParts, List.append_assoc, List.getElem?_append_right (by rw [hlead]), hlead,
        Nat.sub_self]
      rfl

theorem joinParts_head? {pre post : List Text} (hpre : ∀ p ∈ pre, p ≠ []) :
    (joinParts pre post).head? = some [] ↔ pre = [] := by
  rcases pre with _ | ⟨p, ps⟩
  · simp [joinParts]
  · simpa [joinParts] using hpre p (by simp)

theorem joinParts_getLast? {pre post : List Text} (hpost : ∀ p ∈ post, p ≠ []) :
    (joinParts pre post).getLast? = some [] ↔ post = [] := by
  rcases List.eq_nil_or_concat post with rfl | ⟨qs, q, rfl⟩
  · simp [joinParts]
  · have hne : qs.concat q ≠ [] := by simp
    rw [joinParts, if_neg hne, List.append_nil, List.concat_eq_append, ← List.append_assoc,
      List.getLast?_concat]
    simpa using hpost q (by simp)

/-- The parser finds the parts before and after the gap, and how much the gap skips. -/
theorem layout_joinParts {pre post : List Text} (hpre : ∀ p ∈ pre, p ≠ [])
    (hpost : ∀ p ∈ post, p ≠ []) (hlength : pre.length + post.length < 8) :
    layout (joinParts pre post) = some (pre, 8 - (pre.length + post.length), post) := by
  have htotal := joinParts_length pre post
  simp only [layout, interiorEmpty_joinParts hpre hpost, joinParts_head? hpre,
    joinParts_getLast? hpost]
  have hhi : (if pre = [] then max 1 pre.length - 1 else max 1 pre.length) = pre.length := by
    rcases pre with _ | ⟨p, ps⟩
    · rfl
    · simp
  have hlo : (if post = [] then (joinParts pre post).length - max 1 pre.length - 2
      else (joinParts pre post).length - max 1 pre.length - 1) = post.length := by
    rcases post with _ | ⟨q, qs⟩
    · rw [if_pos rfl, htotal]
      simp
      omega
    · rw [if_neg (by simp), htotal]
      simp
      omega
  have htake : (joinParts pre post).take pre.length = pre := by
    rcases pre with _ | ⟨p, ps⟩
    · rfl
    · simp [joinParts]
  have hdrop : (joinParts pre post).drop ((joinParts pre post).length - post.length) = post := by
    rcases post with _ | ⟨q, qs⟩
    · simp
    · have hgap : (joinParts pre (q :: qs)).length - (q :: qs).length =
          (((if pre = [] then [[]] else []) ++ pre) ++ [([] : Text)]).length := by
        rw [htotal]
        rcases pre with _ | ⟨p, ps⟩ <;> simp
      rw [hgap, joinParts, if_neg (by simp : q :: qs ≠ []), List.append_nil, List.drop_left]
  rw [hhi, hlo, htake, hdrop, if_neg, if_neg (by omega)]
  rintro (⟨rfl, h⟩ | ⟨rfl, h⟩) <;> simp at h

theorem compressHextets_eq {hextets : List Text} (hne : hextets ≠ []) :
    compressHextets hextets = hextets ∨ ∃ start length, 1 < length ∧
      start + length ≤ hextets.length ∧ (∀ j < length, hextets[start + j]? = some ['0']) ∧
      compressHextets hextets =
        joinParts (hextets.take start) (hextets.drop (start + length)) := by
  have hsound := ZeroRun.foldl_sound ZeroRun.init_sound hextets
  rw [List.nil_append] at hsound
  unfold compressHextets
  by_cases hbest : 1 < (hextets.foldl ZeroRun.step ⟨0, 0, 0, 0, 0⟩).bestLength
  · right
    refine ⟨_, _, hbest, hsound.best_end.trans hsound.index_eq.le, hsound.best_zero, ?_⟩
    have hend := hsound.best_end.trans hsound.index_eq.le
    have hstart : hextets.take (hextets.foldl ZeroRun.step ⟨0, 0, 0, 0, 0⟩).bestStart = [] ↔
        (hextets.foldl ZeroRun.step ⟨0, 0, 0, 0, 0⟩).bestStart = 0 := by
      simp [List.take_eq_nil_iff, hne]
    have hstop : hextets.drop ((hextets.foldl ZeroRun.step ⟨0, 0, 0, 0, 0⟩).bestStart +
        (hextets.foldl ZeroRun.step ⟨0, 0, 0, 0, 0⟩).bestLength) = [] ↔
        (hextets.foldl ZeroRun.step ⟨0, 0, 0, 0, 0⟩).bestStart +
          (hextets.foldl ZeroRun.step ⟨0, 0, 0, 0, 0⟩).bestLength = hextets.length := by
      rw [List.drop_eq_nil_iff]
      omega
    simp only [if_pos hbest, joinParts, hstart, hstop, List.append_assoc]
  · left
    rw [if_neg hbest]

theorem eq_take_zeros_drop {xs : List ℕ} {start length : ℕ}
    (h : ∀ j < length, xs[start + j]? = some 0) :
    xs.take start ++ List.replicate length 0 ++ xs.drop (start + length) = xs := by
  have hmid : (xs.drop start).take length = List.replicate length 0 := by
    apply List.ext_getElem?
    intro j
    by_cases hj : j < length
    · rw [List.getElem?_take_of_lt hj, List.getElem?_drop, h j hj, List.getElem?_replicate,
        if_pos hj]
    · rw [List.getElem?_take_eq_none (by omega), List.getElem?_replicate, if_neg hj]
  rw [← hmid, List.append_assoc, ← List.drop_drop, List.take_append_drop,
    List.take_append_drop]

theorem expandIpv4Suffix_eq {parts : List Text} (hne : parts ≠ [])
    (h : ∀ p ∈ parts, '.' ∉ p) : expandIpv4Suffix parts = some parts := by
  unfold expandIpv4Suffix
  rw [List.getLast?_eq_some_getLast hne]
  simp only [if_neg (h _ (List.getLast_mem hne))]

theorem ipv6FromString_toString (ip : BitVec 128) :
    ipv6FromString (ipv6ToString ip) = some ip := by
  let digits := digitsBE 65536 8 ip.toNat
  let hextets := digits.map (Nat.toDigits 16)
  have hlength : hextets.length = 8 := by simp [hextets, digits]
  have hnil : hextets ≠ [] := List.ne_nil_of_length_eq_add_one hlength
  have hvalue : valueBE 65536 digits = ip.toNat :=
    valueBE_digitsBE (by simpa using ip.isLt)
  have hpart (p : Text) (hp : p ∈ hextets) : p ≠ [] ∧ ':' ∉ p ∧ '.' ∉ p := by
    rcases List.mem_map.mp hp with ⟨n, _, rfl⟩
    exact ⟨Nat.toDigits_ne_nil, not_mem_toDigits_hex rfl n, not_mem_toDigits_hex rfl n⟩
  have hparse (xs : List ℕ) (hxs : ∀ n ∈ xs, n ∈ digits) :
      (xs.map (Nat.toDigits 16)).mapM parseHextet = some xs := by
    apply mapM_eq_some_of_forall
    intro n hn
    exact parseHextet_toDigits (digitsBE_lt (by decide) (hxs n hn))
  rcases compressHextets_eq hnil with hplain | ⟨start, length, hlong, hend, hzero, hgap⟩
  · -- no run of zeros: eight parts are read in order
    have hsplit : (ipv6ToString ip).splitOn ':' = hextets := by
      change (List.intercalate [':'] (compressHextets hextets)).splitOn ':' = hextets
      rw [hplain]
      exact List.splitOn_intercalate ':' (fun p hp => (hpart p hp).2.1) hnil
    have hlayout : layout hextets = some (hextets, 0, []) := by
      have hinterior : interiorEmpty hextets = [] := by
        apply List.filter_eq_nil_iff.mpr
        intro i _ hi
        rw [decide_eq_true_eq] at hi
        exact (hpart _ (List.mem_of_getElem? hi.2.2)).1 rfl
      have hhead : hextets.head? ≠ some [] := fun h => (hpart _ (List.mem_of_head? h)).1 rfl
      have hlast : hextets.getLast? ≠ some [] := fun h =>
        (hpart _ (List.mem_of_getLast? h)).1 rfl
      simp [layout, hinterior, hlength, hhead, hlast]
    have hall := hparse digits (fun _ h => h)
    simp only [ipv6FromString, hsplit, hlength, expandIpv4Suffix_eq hnil
      (fun p hp => (hpart p hp).2.2), hlayout, Option.bind_eq_bind, Option.bind_some]
    change (hextets.mapM parseHextet).bind _ = _
    rw [hall]
    simp [hvalue]
  · -- the gap stands for zeros, and both sides are read in order
    let pre := hextets.take start
    let post := hextets.drop (start + length)
    have hpre (p : Text) (hp : p ∈ pre) := hpart p (List.mem_of_mem_take hp)
    have hpost (p : Text) (hp : p ∈ post) := hpart p (List.mem_of_mem_drop hp)
    have hlengthLe : length ≤ 8 := by omega
    have hcount : pre.length + post.length = 8 - length := by
      simp only [pre, post, List.length_take, List.length_drop]
      omega
    have hmem (p : Text) (hp : p ∈ joinParts pre post) : ':' ∉ p ∧ '.' ∉ p := by
      rcases mem_joinParts hp with rfl | hp | hp
      · simp
      · exact (hpre p hp).2
      · exact (hpost p hp).2
    have hjoin := joinParts_length pre post
    have hjoinNil : joinParts pre post ≠ [] := by
      intro h
      rw [h, List.length_nil] at hjoin
      omega
    have hsplit : (ipv6ToString ip).splitOn ':' = joinParts pre post := by
      change (List.intercalate [':'] (compressHextets hextets)).splitOn ':' = _
      rw [hgap]
      exact List.splitOn_intercalate ':' (fun p hp => (hmem p hp).1) hjoinNil
    have hlayout : layout (joinParts pre post) = some (pre, length, post) := by
      rw [layout_joinParts (fun p hp => (hpre p hp).1) (fun p hp => (hpost p hp).1) (by omega),
        hcount, Nat.sub_sub_self hlengthLe]
    have hparsePre : pre.mapM parseHextet = some (digits.take start) := by
      have h := hparse (digits.take start) fun _ h => List.mem_of_mem_take h
      rwa [List.map_take] at h
    have hparsePost : post.mapM parseHextet = some (digits.drop (start + length)) := by
      have h := hparse (digits.drop (start + length)) fun _ h => List.mem_of_mem_drop h
      rwa [List.map_drop] at h
    have hzeros : ∀ j < length, digits[start + j]? = some 0 := by
      intro j hj
      have htext := hzero j hj
      rw [List.getElem?_map, Option.map_eq_some_iff] at htext
      rcases htext with ⟨d, hd, hdigits⟩
      have hone := parseHextet_toDigits (digitsBE_lt (by decide) (List.mem_of_getElem? hd))
      rw [hdigits] at hone
      rw [hd, ← hone]
      rfl
    have hdigits := eq_take_zeros_drop hzeros
    have hmin : ¬ (joinParts pre post).length < 3 := by omega
    have hmax : ¬ 9 < (joinParts pre post).length := by omega
    simp only [ipv6FromString, hsplit, if_neg hmin, if_neg hmax, expandIpv4Suffix_eq hjoinNil
      (fun p hp => (hmem p hp).2), hlayout, hparsePre, hparsePost, Option.bind_eq_bind,
      Option.bind_some, hdigits, hvalue]
    simp

theorem not_mem_intercalate {c sep : Char} {parts : List Text} (hsep : c ≠ sep)
    (h : ∀ p ∈ parts, c ∉ p) : c ∉ List.intercalate [sep] parts := by
  induction parts with
  | nil => simp
  | cons p rest ih =>
    have hp := h p (by simp)
    have hrest := ih fun q hq => h q (by simp [hq])
    cases rest with
    | nil => rwa [List.intercalate_singleton]
    | cons q qs =>
      rw [List.intercalate_cons_cons]
      simp only [List.mem_append, List.mem_singleton, not_or]
      exact ⟨⟨hp, hsep⟩, hrest⟩

/-- Only hexadecimal digits and colons occur in the text of an IPv6 address. -/
theorem not_mem_ipv6ToString {c : Char} (hsep : c ≠ ':') (hc : hexValue c = none)
    (ip : BitVec 128) : c ∉ ipv6ToString ip := by
  let hextets := (digitsBE 65536 8 ip.toNat).map (Nat.toDigits 16)
  have hnil : hextets ≠ [] :=
    List.ne_nil_of_length_eq_add_one (by simp [hextets] : hextets.length = 7 + 1)
  have hpart : ∀ p ∈ hextets, c ∉ p := by
    intro p hp
    rcases List.mem_map.mp hp with ⟨n, _, rfl⟩
    exact not_mem_toDigits_hex hc n
  apply not_mem_intercalate hsep
  intro p hp
  rcases compressHextets_eq hnil with hplain | ⟨start, length, _, _, _, hgap⟩
  · rw [hplain] at hp
    exact hpart p hp
  · rw [hgap] at hp
    rcases mem_joinParts hp with rfl | hp | hp
    · simp
    · exact hpart p (List.mem_of_mem_take hp)
    · exact hpart p (List.mem_of_mem_drop hp)

theorem hexValue_isSome_of_isDigit {c : Char} (hc : c.isDigit = true) :
    (hexValue c).isSome = true := by
  have hdigit : '0' ≤ c ∧ c ≤ '9' := by simpa [Char.isDigit, Char.le_def] using hc
  simp [hexValue, hdigit]

/-- Only digits and dots occur in the text of an IPv4 address. -/
theorem not_mem_ipv4ToString {c : Char} (hsep : c ≠ '.') (hc : hexValue c = none)
    (ip : BitVec 32) : c ∉ ipv4ToString ip := by
  apply not_mem_intercalate hsep
  intro p hp hmem
  rcases List.mem_map.mp hp with ⟨n, hn, rfl⟩
  have hdigit := hexValue_isSome_of_isDigit
    (Nat.isDigit_of_mem_toDigits (by decide) (by decide) hmem)
  rw [hc] at hdigit
  cases hdigit

theorem ipv4FromString_ipv6ToString (ip : BitVec 128) : ipv4FromString (ipv6ToString ip) = none := by
  have hdot := not_mem_ipv6ToString (by decide : '.' ≠ ':') (by decide) ip
  simp [ipv4FromString, List.splitOn_eq_singleton hdot]

theorem ipv6Address_toString (ip : BitVec 128) : ipv6Address (ipv6ToString ip) = some ip := by
  have hslash := not_mem_ipv6ToString (by decide : '/' ≠ ':') (by decide) ip
  have hscope := not_mem_ipv6ToString (by decide : '%' ≠ ':') (by decide) ip
  have hall : ∀ c ∈ ipv6ToString ip, decide (c ≠ '%') = true := by
    intro c hc
    rw [decide_eq_true_eq]
    rintro rfl
    exact hscope hc
  have htake : (ipv6ToString ip).takeWhile (· ≠ '%') = ipv6ToString ip :=
    List.takeWhile_eq_self_iff.mpr hall
  have hdrop : (ipv6ToString ip).dropWhile (· ≠ '%') = [] :=
    List.dropWhile_eq_nil_iff.mpr hall
  simp only [ipv6Address, if_neg hslash, hdrop, htake, ipv6FromString_toString]
  simp

theorem not_mem_toText {c : Char} (hdot : c ≠ '.') (hcolon : c ≠ ':') (hc : hexValue c = none)
    (address : Address) : c ∉ address.toText := by
  cases address with
  | v4 ip => exact not_mem_ipv4ToString hdot hc ip
  | v6 ip => exact not_mem_ipv6ToString hcolon hc ip

/-- The text of every address is read back as the same address. -/
theorem ipAddress_toText (address : Address) : ipAddress address.toText = some address := by
  cases address with
  | v4 ip => simp only [Address.toText, ipAddress, ipv4FromString_toString]
  | v6 ip =>
    simp only [Address.toText, ipAddress, ipv4FromString_ipv6ToString, ipv6Address_toString]
    rfl

end PhantomShare.Internet
