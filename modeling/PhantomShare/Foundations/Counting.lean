import Mathlib.Algebra.BigOperators.Group.List.Basic
import Mathlib.Algebra.Order.Group.Abs
import Mathlib.Tactic.Abel
import PhantomShare.Foundations.Table

/-!
# Counts and totals

How many timestamps lie in a sliding window, and what a table adds up to. A window is
half-open: it ends at its right end and has lost what lies a whole length before it.
Timestamps come in any order. A new timestamp keeps a bound on all windows when the
bound leaves room among its neighbours on both sides.
-/
namespace PhantomShare.Foundations
variable {τ : Type} [AddCommGroup τ] [LinearOrder τ] [IsOrderedAddMonoid τ]

/-- The timestamps in the window of a length that ends at `T`. -/
def inWindow (length T : τ) (times : List τ) : List τ :=
  times.filter fun t => T - length < t ∧ t ≤ T

/-- No window of this length holds more than `n` of the timestamps. -/
def WindowBound (n : ℕ) (length : τ) (times : List τ) : Prop :=
  ∀ T, (inWindow length T times).length ≤ n

omit [IsOrderedAddMonoid τ] in
theorem windowBound_nil (n : ℕ) (length : τ) : WindowBound n length [] := fun _ => Nat.zero_le n

/-- Two timestamps of one window are less than its length apart. -/
theorem dist_lt_of_inWindow {length T s t : τ} (hs : T - length < s ∧ s ≤ T)
    (ht : T - length < t ∧ t ≤ T) : |s - t| < length := by
  rw [abs_lt]
  constructor
  · have h : t < length + s := lt_of_le_of_lt ht.2 (sub_lt_iff_lt_add'.mp hs.1)
    exact neg_lt_sub_iff_lt_add.mpr h
  · have h : s < t + length := lt_of_le_of_lt hs.2 (sub_lt_iff_lt_add.mp ht.1)
    exact sub_lt_iff_lt_add'.mpr h

theorem WindowBound.snoc {n : ℕ} {length t : τ} {times : List τ} (h : WindowBound n length times)
    (room : (times.filter fun s => |s - t| < length).length < n) :
    WindowBound n length (times ++ [t]) := by
  intro T
  by_cases ht : T - length < t ∧ t ≤ T
  · have hle : (inWindow length T times).length ≤
        (times.filter fun s => |s - t| < length).length := by
      rw [inWindow, ← List.countP_eq_length_filter, ← List.countP_eq_length_filter]
      apply List.countP_mono_left
      intro s _ hs
      rw [decide_eq_true_eq] at hs ⊢
      exact dist_lt_of_inWindow hs ht
    have hlength : (inWindow length T (times ++ [t])).length =
        (inWindow length T times).length + 1 := by
      simp [inWindow, ht]
    omega
  · have hsame : inWindow length T (times ++ [t]) = inWindow length T times := by
      simp [inWindow, ht]
    rw [hsame]
    exact h T

end PhantomShare.Foundations

/-! ### Totals over a table -/

namespace PhantomShare.Foundations.Table
variable {ρ κ γ : Type} {key : ρ → κ} [DecidableEq κ]

theorem rows_put_of_fresh {t : Table key} {r : ρ} (h : t.find (key r) = none) :
    (t.put r).rows = t.rows ++ [r] := by
  have hsame : (t.rows.filter fun s => key s ≠ key r) = t.rows := by
    rw [List.filter_eq_self]
    intro s hs
    simpa using find_eq_none_iff.mp h s hs
  simp only [put, hsame]

variable [AddCommGroup γ]

/-- The total of an amount. -/
def total (t : Table key) (amount : ρ → γ) : γ := (t.rows.map amount).sum

theorem total_put_of_fresh {t : Table key} {r : ρ} (h : t.find (key r) = none) (amount : ρ → γ) :
    (t.put r).total amount = t.total amount + amount r := by
  simp [total, rows_put_of_fresh h]

/-- An update changes a total by what it changes of its row. -/
theorem total_modify (t : Table key) (k : κ) (f : ρ → ρ) (hf : ∀ r, key (f r) = key r)
    (amount : ρ → γ) : (t.modify k f hf).total amount =
      t.total amount + (t.find k).elim 0 fun r => amount (f r) - amount r := by
  have hrows : ∀ rows : List ρ, (rows.map key).Nodup →
      ((rows.map fun r => if key r = k then f r else r).map amount).sum =
        (rows.map amount).sum +
          (rows.find? fun r => key r = k).elim 0 fun r => amount (f r) - amount r := by
    intro rows hnodup
    induction rows with
    | nil => simp
    | cons r rows ih =>
      rw [List.map_cons, List.nodup_cons] at hnodup
      by_cases hkey : key r = k
      -- no later row has the key
      · have hrest : (rows.map fun s => if key s = k then f s else s) = rows := by
          rw [List.map_congr_left, List.map_id]
          intro s hs
          have hne : key s ≠ k := fun h => hnodup.1 (List.mem_map.mpr ⟨s, hs, h.trans hkey.symm⟩)
          rw [if_neg hne, id]
        rw [List.map_cons, if_pos hkey, hrest, List.find?_cons_of_pos (by simpa using hkey)]
        simp only [List.map_cons, List.sum_cons, Option.elim_some]
        abel
      · have hrest := ih hnodup.2
        rw [List.map_cons, if_neg hkey, List.find?_cons_of_neg (by simpa using hkey)]
        simp only [List.map_cons, List.sum_cons, hrest]
        abel
  rw [total, modify_rows]
  exact hrows t.rows t.keys_nodup

end PhantomShare.Foundations.Table
