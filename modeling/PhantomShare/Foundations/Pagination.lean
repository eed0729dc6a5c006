import Mathlib.Data.List.Flatten
import Mathlib.Data.List.Nodup
import Mathlib.Data.List.Perm.Subperm
import Mathlib.Data.List.Sort
import Mathlib.Order.Basic

/-!
# Pages of a sorted result

`ORDER BY key DESC` lets rows that tie stand in any order, and in another order for
each query. Pages that are cut from such results by `LIMIT` and `OFFSET` contain
every row once when no group of tied rows lies across the end of a page, and need
not otherwise.
-/
namespace PhantomShare.Foundations
variable {α κ : Type} [LinearOrder κ] {key : α → κ} {rows sorted sorted' : List α} {size : ℕ}

/-- A result of `ORDER BY key DESC`. -/
structure Ordered (key : α → κ) (rows sorted : List α) : Prop where
  perm : sorted.Perm rows
  descending : sorted.Pairwise fun a b => key b ≤ key a

theorem exists_ordered (key : α → κ) (rows : List α) : ∃ sorted, Ordered key rows sorted := by
  refine ⟨rows.mergeSort fun a b => key b ≤ key a, List.mergeSort_perm _ _, ?_⟩
  have hsorted := @List.pairwise_mergeSort _ (fun a b => decide (key b ≤ key a))
    (by intro a b c hab hbc; simp only [decide_eq_true_eq] at *; exact hbc.trans hab)
    (by intro a b; simp only [Bool.or_eq_true, decide_eq_true_eq]; exact le_total _ _) rows
  simpa using hsorted

/-- `LIMIT size OFFSET page * size`. -/
def slice (size page : ℕ) (sorted : List α) : List α := (sorted.drop (page * size)).take size

/-- How many rows come before the rows of a key in every order. -/
def above (key : α → κ) (rows : List α) (k : κ) : ℕ := rows.countP fun a => k < key a

/-- How many rows come before the rows that follow those of a key. -/
def through (key : α → κ) (rows : List α) (k : κ) : ℕ := rows.countP fun a => k ≤ key a

/-- No group of tied rows lies across the end of a page. -/
def Separated (key : α → κ) (size : ℕ) (rows : List α) : Prop :=
  ∀ row ∈ rows, ∀ page, ¬ (above key rows (key row) < page * size ∧
    page * size < through key rows (key row))

/-- Whatever order the database chooses for each page, the pages show every row once. -/
def Complete {β : Type} (key : α → κ) (item : α → β) (size : ℕ) (rows : List α) : Prop :=
  ∀ sorted : ℕ → List α, (∀ page, Ordered key rows (sorted page)) →
    ((List.range ((rows.length + size - 1) / size)).flatMap
      fun page => (slice size page (sorted page)).map item).Perm (rows.map item)

/-! ### Where the rows of a key stand -/

namespace Ordered

/-- The rows with a property of large keys come first. -/
theorem take_countP (h : Ordered key rows sorted) {p : α → Bool}
    (hp : ∀ a b, key a ≤ key b → p a = true → p b = true) :
    sorted.take (sorted.countP p) = sorted.filter p := by
  have hdescending := h.descending
  clear h
  induction sorted with
  | nil => rfl
  | cons a sorted ih =>
    rw [List.pairwise_cons] at hdescending
    cases ha : p a with
    | true =>
      rw [List.countP_cons_of_pos ha, List.take_succ_cons, ih hdescending.2,
        List.filter_cons_of_pos ha]
    | false =>
      have hnone : ∀ b ∈ sorted, ¬ p b = true := by
        intro b hb hpb
        rw [hp b a (hdescending.1 b hb) hpb] at ha
        cases ha
      have hcount : sorted.countP p = 0 := List.countP_eq_zero.mpr hnone
      have hfilter : sorted.filter p = [] := List.filter_eq_nil_iff.mpr hnone
      rw [List.countP_cons_of_neg (by simp [ha]), hcount, List.take_zero,
        List.filter_cons_of_neg (by simp [ha]), hfilter]

/-- A row has such a property exactly when it stands among the first rows. -/
theorem getElem_iff (h : Ordered key rows sorted) {p : α → Bool}
    (hp : ∀ a b, key a ≤ key b → p a = true → p b = true) {i : ℕ} (hi : i < sorted.length) :
    p sorted[i] = true ↔ i < sorted.countP p := by
  have htake := h.take_countP hp
  constructor
  · intro hpi
    by_contra hge
    have hsplit : sorted.countP p = (sorted.take (sorted.countP p)).countP p +
        (sorted.drop (sorted.countP p)).countP p := by
      rw [← List.countP_append, List.take_append_drop]
    have hlate : sorted[i] ∈ sorted.drop (sorted.countP p) := by
      rw [List.mem_drop_iff_getElem]
      exact ⟨i - sorted.countP p, by omega, by congr 1; omega⟩
    have hpos : 0 < (sorted.drop (sorted.countP p)).countP p :=
      List.countP_pos_iff.mpr ⟨_, hlate, hpi⟩
    have hfilter : (sorted.filter p).countP p = sorted.countP p := by simp [List.countP_filter]
    rw [htake, hfilter] at hsplit
    omega
  · intro hlt
    have hmem : sorted[i] ∈ sorted.take (sorted.countP p) := by
      rw [List.mem_take_iff_getElem]
      exact ⟨i, by omega, rfl⟩
    rw [htake] at hmem
    exact (List.mem_filter.mp hmem).2

theorem lt_getElem_iff (h : Ordered key rows sorted) (k : κ) {i : ℕ} (hi : i < sorted.length) :
    k < key sorted[i] ↔ i < above key rows k := by
  rw [above, ← h.perm.countP_eq, ← h.getElem_iff _ hi, decide_eq_true_eq]
  intro a b hab hk
  rw [decide_eq_true_eq] at *
  exact hk.trans_le hab

theorem le_getElem_iff (h : Ordered key rows sorted) (k : κ) {i : ℕ} (hi : i < sorted.length) :
    k ≤ key sorted[i] ↔ i < through key rows k := by
  rw [through, ← h.perm.countP_eq, ← h.getElem_iff _ hi, decide_eq_true_eq]
  intro a b hab hk
  rw [decide_eq_true_eq] at *
  exact hk.trans hab

end Ordered

/-! ### Pages that fit together -/

theorem take_succ_mul (size page : ℕ) (sorted : List α) :
    sorted.take ((page + 1) * size) = sorted.take (page * size) ++ slice size page sorted := by
  rw [Nat.succ_mul, List.take_add, slice]

theorem flatMap_slice (size count : ℕ) (sorted : List α) :
    ((List.range count).flatMap fun page => slice size page sorted) =
      sorted.take (count * size) := by
  induction count with
  | zero => simp
  | succ count ih => simp [List.range_succ, ih, take_succ_mul]

/-- Before the end of a page stand the same rows in every order. -/
theorem Separated.take_perm (h : Separated key size rows) (hsorted : Ordered key rows sorted)
    (hsorted' : Ordered key rows sorted') (page : ℕ) :
    (sorted.take (page * size)).Perm (sorted'.take (page * size)) := by
  have hperm : sorted.Perm sorted' := hsorted.perm.trans hsorted'.perm.symm
  by_cases hlast : page * size < sorted.length
  · have hlast' : page * size < sorted'.length := hperm.length_eq ▸ hlast
    -- the row after the end of the page is the first one of its key
    have hfirst : ∀ {s : List α} (hs : Ordered key rows s) (hlt : page * size < s.length),
        above key rows (key s[page * size]) = page * size := by
      intro s hs hlt
      have hle := mt (hs.lt_getElem_iff _ hlt).mpr (lt_irrefl (key s[page * size]))
      have hlt' := (hs.le_getElem_iff (key s[page * size]) hlt).mp le_rfl
      have hnot := h _ (hs.perm.mem_iff.mp (List.getElem_mem hlt)) page
      omega
    have hbefore : ∀ {s : List α} (hs : Ordered key rows s) {k : κ},
        above key rows k = page * size → s.take (page * size) = s.filter fun a => k < key a := by
      intro s hs k habove
      have htake := hs.take_countP (p := fun a => k < key a) (by
        intro a b hab hk
        rw [decide_eq_true_eq] at *
        exact hk.trans_le hab)
      rwa [hs.perm.countP_eq, ← above, habove] at htake
    have hkey : key sorted[page * size] = key sorted'[page * size] := by
      apply le_antisymm
      · rw [← not_lt, hsorted.lt_getElem_iff _ hlast, hfirst hsorted' hlast']
        exact lt_irrefl _
      · rw [← not_lt, hsorted'.lt_getElem_iff _ hlast', hfirst hsorted hlast]
        exact lt_irrefl _
    rw [hbefore hsorted (hfirst hsorted hlast), hbefore hsorted' (hfirst hsorted' hlast'), hkey]
    exact hperm.filter _
  · have hlast' : sorted'.length ≤ page * size := by
      rw [← hperm.length_eq]
      omega
    rw [List.take_of_length_le (not_lt.mp hlast), List.take_of_length_le hlast']
    exact hperm

theorem Separated.slice_perm (h : Separated key size rows) (hsorted : Ordered key rows sorted)
    (hsorted' : Ordered key rows sorted') (page : ℕ) :
    (slice size page sorted).Perm (slice size page sorted') := by
  have hafter := h.take_perm hsorted hsorted' (page + 1)
  rw [take_succ_mul, take_succ_mul] at hafter
  have hbefore := (h.take_perm hsorted hsorted' page).append_right (slice size page sorted')
  exact (List.perm_append_left_iff _).mp (hafter.trans hbefore.symm)

theorem Separated.complete {β : Type} (item : α → β) (hsize : 0 < size)
    (h : Separated key size rows) : Complete key item size rows := by
  intro sorted hsorted
  obtain ⟨fixed, hfixed⟩ := exists_ordered key rows
  rw [← List.map_flatMap]
  apply List.Perm.map
  have hpages : ((List.range ((rows.length + size - 1) / size)).flatMap
      fun page => slice size page (sorted page)).Perm
        ((List.range ((rows.length + size - 1) / size)).flatMap fun page => slice size page fixed) := by
    apply List.Perm.flatMap_left
    intro page _
    exact h.slice_perm (hsorted page) hfixed page
  apply hpages.trans
  rw [flatMap_slice, List.take_of_length_le]
  · exact hfixed.perm
  · rw [hfixed.perm.length_eq]
    have hdiv := Nat.div_add_mod (rows.length + size - 1) size
    have hmod := Nat.mod_lt (rows.length + size - 1) hsize
    rw [Nat.mul_comm]
    omega

/-- Two neighbours that tie may stand the other way round. -/
theorem Ordered.swap {before after : List α} {a b : α}
    (h : Ordered key rows (before ++ a :: b :: after)) (htie : key a = key b) :
    Ordered key rows (before ++ b :: a :: after) where
  perm := ((List.Perm.swap a b after).append_left before).trans h.perm
  descending := by
    have hkeys : (before ++ b :: a :: after).map key = (before ++ a :: b :: after).map key := by
      simp [htie]
    have hdescending : ((before ++ a :: b :: after).map key).Pairwise fun k k' => k' ≤ k :=
      List.pairwise_map.mpr h.descending
    rw [← hkeys] at hdescending
    exact List.pairwise_map.mp hdescending

theorem mem_slice {sorted : List α} {page i : ℕ} (hi : i < sorted.length) (hfrom : page * size ≤ i)
    (hto : i < page * size + size) : sorted[i] ∈ slice size page sorted := by
  rw [slice, List.mem_take_iff_getElem]
  refine ⟨i - page * size, ?_, ?_⟩
  · rw [List.length_drop]
    omega
  · rw [List.getElem_drop]
    congr 1
    omega

/-- A row that stands before the end of a page in one order and behind it in another is shown
twice. -/
theorem Complete.separated {β : Type} {item : α → β} (hsize : 0 < size)
    (h : Complete key item size rows) (hnodup : (rows.map item).Nodup) :
    Separated key size rows := by
  rintro row _ page ⟨habove, hthrough⟩
  obtain ⟨sorted, hsorted⟩ := exists_ordered key rows
  have hlength : through key rows (key row) ≤ sorted.length := by
    rw [hsorted.perm.length_eq]
    exact List.countP_le_length
  have hlast : page * size - 1 < sorted.length := by omega
  have hnext : page * size < sorted.length := by omega
  have htie : key sorted[page * size - 1] = key sorted[page * size] := by
    have hkey : ∀ {i : ℕ} (hi : i < sorted.length), above key rows (key row) ≤ i →
        i < through key rows (key row) → key sorted[i] = key row := by
      intro i hi hle hlt
      apply le_antisymm
      · rw [← not_lt, hsorted.lt_getElem_iff _ hi]
        omega
      · rwa [hsorted.le_getElem_iff _ hi]
    rw [hkey hlast (by omega) (by omega), hkey hnext (by omega) hthrough]
  have hsplit : sorted = sorted.take (page * size - 1) ++
      sorted[page * size - 1] :: sorted[page * size] :: sorted.drop (page * size + 1) := by
    have hdrop := List.drop_eq_getElem_cons hlast
    rw [Nat.sub_add_cancel (by omega), List.drop_eq_getElem_cons hnext] at hdrop
    rw [← hdrop, List.take_append_drop]
  -- the last row of the page before stands first on this page in another order
  have hswapped : Ordered key rows (sorted.take (page * size - 1) ++
      sorted[page * size] :: sorted[page * size - 1] :: sorted.drop (page * size + 1)) := by
    apply Ordered.swap _ htie
    rwa [← hsplit]
  have hshown : sorted[page * size - 1] ∈ slice size page (sorted.take (page * size - 1) ++
      sorted[page * size] :: sorted[page * size - 1] :: sorted.drop (page * size + 1)) := by
    have hone : page * size - (page * size - 1) = 1 := by omega
    have hnil : (sorted.take (page * size - 1)).drop (page * size) = [] :=
      List.drop_eq_nil_of_le (by rw [List.length_take]; omega)
    rw [slice, List.drop_append, List.length_take_of_le hlast.le, hone, hnil, List.nil_append,
      List.drop_succ_cons, List.drop_zero, List.take_cons hsize]
    exact List.mem_cons_self
  have hpos : 0 < page := Nat.pos_of_mul_pos_right (by omega : 0 < page * size)
  have hprior : sorted[page * size - 1] ∈ slice size (page - 1) sorted := by
    have hpage : (page - 1) * size + size = page * size := by
      rw [← Nat.succ_mul, Nat.succ_eq_add_one, Nat.sub_add_cancel hpos]
    exact mem_slice hlast (by omega) (by omega)
  have hpages := h (fun n => if n = page then sorted.take (page * size - 1) ++
    sorted[page * size] :: sorted[page * size - 1] :: sorted.drop (page * size + 1) else sorted) (by
      intro n
      split
      · exact hswapped
      · exact hsorted)
  have hdisjoint := (List.nodup_flatMap.mp (hpages.nodup_iff.mpr hnodup)).2
  have hcount : page < (rows.length + size - 1) / size := by
    rw [← Nat.succ_le_iff, Nat.le_div_iff_mul_le hsize, Nat.succ_mul, ← hsorted.perm.length_eq]
    omega
  have htwice := List.pairwise_iff_getElem.mp hdisjoint (page - 1) page
    (by rw [List.length_range]; omega) (by rwa [List.length_range]) (by omega)
  rw [List.getElem_range, List.getElem_range, Function.onFun_apply, if_neg (by omega), if_pos rfl]
    at htwice
  exact htwice (List.mem_map_of_mem hprior) (List.mem_map_of_mem hshown)

theorem complete_iff {β : Type} {item : α → β} (hsize : 0 < size) (hnodup : (rows.map item).Nodup) :
    Complete key item size rows ↔ Separated key size rows :=
  ⟨fun h => h.separated hsize hnodup, fun h => h.complete item hsize⟩

/-- Rows with keys of their own do not tie. -/
theorem separated_of_nodup (h : (rows.map key).Nodup) : Separated key size rows := by
  rintro row hrow page ⟨habove, hthrough⟩
  have hone : rows.countP (fun a => key a = key row) ≤ 1 := by
    have hcount := List.nodup_iff_count_le_one.mp h (key row)
    rw [List.count, List.countP_map] at hcount
    exact hcount
  have hsplit : through key rows (key row) =
      above key rows (key row) + rows.countP fun a => key a = key row := by
    rw [through, List.countP_eq_countP_filter_add rows _ fun a => key row < key a,
      List.countP_filter, List.countP_filter]
    congr 1
    · apply List.countP_congr
      intro a _
      simpa using le_of_lt
    · apply List.countP_congr
      intro a _
      simp only [Bool.and_eq_true, decide_eq_true_eq, Bool.not_eq_eq_eq_not, Bool.not_true,
        decide_eq_false_iff_not, not_lt]
      exact le_antisymm_iff.symm.trans eq_comm
  omega

end PhantomShare.Foundations
