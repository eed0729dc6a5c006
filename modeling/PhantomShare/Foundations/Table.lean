import Mathlib.Data.List.Nodup

/-!
# Tables with a primary key

A table is a list of rows in insertion order whose keys are distinct. The field
`keys_nodup` makes a table with a duplicate key unrepresentable, so a row is the
same thing as what a lookup of its key returns.
-/
namespace PhantomShare.Foundations

structure Table {ρ κ : Type} (key : ρ → κ) where
  rows : List ρ
  keys_nodup : (rows.map key).Nodup

namespace Table
variable {ρ κ : Type} {key : ρ → κ}

@[ext] theorem ext {t u : Table key} (h : t.rows = u.rows) : t = u := by
  cases t
  cases u
  cases h
  rfl

def empty : Table key := ⟨[], List.nodup_nil⟩

/-- The table of one row. -/
def single (row : ρ) : Table key := ⟨[row], List.nodup_singleton _⟩

/-- Replace every row, keeping its key. -/
def mapRows (t : Table key) (f : ρ → ρ) (hf : ∀ r, key (f r) = key r) : Table key where
  rows := t.rows.map f
  keys_nodup := by
    have hkeys : key ∘ f = key := funext hf
    rw [List.map_map, hkeys]
    exact t.keys_nodup

/-- `DELETE … WHERE p`. -/
def deleteWhere (t : Table key) (p : ρ → Bool) : Table key where
  rows := t.rows.filter fun r => !p r
  keys_nodup := t.keys_nodup.sublist (List.filter_sublist.map key)

variable [DecidableEq κ]

/-- `SELECT … WHERE key = k`. -/
def find (t : Table key) (k : κ) : Option ρ := t.rows.find? fun r => key r = k

/-- `INSERT`; a row with the same key is a unique violation. -/
def insert (t : Table key) (r : ρ) : Option (Table key) :=
  if h : key r ∈ t.rows.map key then none
  else some
    { rows := t.rows ++ [r]
      keys_nodup := by
        rw [List.map_append, List.map_singleton]
        exact List.nodup_append.mpr ⟨t.keys_nodup, List.nodup_singleton _, by
          intro a ha b hb hab
          rw [List.mem_singleton] at hb
          exact h (hb ▸ hab ▸ ha)⟩ }

/-- Insert a row, or replace the one with the same key. -/
def put (t : Table key) (r : ρ) : Table key where
  rows := (t.rows.filter fun s => key s ≠ key r) ++ [r]
  keys_nodup := by
    rw [List.map_append, List.map_singleton]
    apply List.nodup_append.mpr
    refine ⟨t.keys_nodup.sublist (List.filter_sublist.map key), List.nodup_singleton _, ?_⟩
    intro a ha b hb hab
    rcases List.mem_map.mp ha with ⟨s, hs, rfl⟩
    rw [List.mem_singleton] at hb
    have hne := (List.mem_filter.mp hs).2
    simp only [decide_eq_true_eq] at hne
    exact hne (hab.trans hb)

/-- `UPDATE … WHERE key = k`. -/
def modify (t : Table key) (k : κ) (f : ρ → ρ) (hf : ∀ r, key (f r) = key r) : Table key :=
  t.mapRows (fun r => if key r = k then f r else r) fun r => by
    by_cases h : key r = k
    · rw [if_pos h, hf]
    · rw [if_neg h]

omit [DecidableEq κ] in
@[simp] theorem rows_empty : (empty : Table key).rows = [] := rfl
@[simp] theorem find_empty (k : κ) : (empty : Table key).find k = none := rfl

omit [DecidableEq κ] in
@[simp] theorem mapRows_rows (t : Table key) (f : ρ → ρ) (hf : ∀ r, key (f r) = key r) :
    (t.mapRows f hf).rows = t.rows.map f := rfl

omit [DecidableEq κ] in
@[simp] theorem deleteWhere_rows (t : Table key) (p : ρ → Bool) :
    (t.deleteWhere p).rows = t.rows.filter fun r => !p r := rfl

@[simp] theorem modify_rows (t : Table key) (k : κ) (f : ρ → ρ) (hf : ∀ r, key (f r) = key r) :
    (t.modify k f hf).rows = t.rows.map fun r => if key r = k then f r else r := rfl

theorem key_of_find {t : Table key} {k : κ} {r : ρ} (h : t.find k = some r) : key r = k := by
  simpa using List.find?_some h

theorem mem_of_find {t : Table key} {k : κ} {r : ρ} (h : t.find k = some r) : r ∈ t.rows :=
  List.mem_of_find?_eq_some h

omit [DecidableEq κ] in
theorem eq_of_key_eq {t : Table key} {r s : ρ} (hr : r ∈ t.rows) (hs : s ∈ t.rows)
    (h : key r = key s) : r = s :=
  List.inj_on_of_nodup_map t.keys_nodup hr hs h

theorem find_of_mem {t : Table key} {r : ρ} (h : r ∈ t.rows) : t.find (key r) = some r := by
  cases hfind : t.find (key r) with
  | none =>
    have hnone := List.find?_eq_none.mp hfind r h
    simp at hnone
  | some s => rw [eq_of_key_eq (mem_of_find hfind) h (key_of_find hfind)]

theorem find_eq_some_iff {t : Table key} {k : κ} {r : ρ} :
    t.find k = some r ↔ r ∈ t.rows ∧ key r = k := by
  constructor
  · intro h
    exact ⟨mem_of_find h, key_of_find h⟩
  · rintro ⟨hmem, rfl⟩
    exact find_of_mem hmem

theorem find_eq_none_iff {t : Table key} {k : κ} : t.find k = none ↔ ∀ r ∈ t.rows, key r ≠ k := by
  simp [find]

theorem insert_eq_some {t u : Table key} {r : ρ} (h : t.insert r = some u) :
    t.find (key r) = none ∧ u.rows = t.rows ++ [r] := by
  unfold insert at h
  by_cases hmem : key r ∈ t.rows.map key
  · rw [dif_pos hmem] at h
    cases h
  · rw [dif_neg hmem, Option.some.injEq] at h
    subst h
    refine ⟨find_eq_none_iff.mpr ?_, rfl⟩
    intro s hs hkey
    exact hmem (List.mem_map.mpr ⟨s, hs, hkey⟩)

/-- A row with a new key is accepted. -/
theorem insert_of_fresh {t : Table key} {r : ρ} (h : t.find (key r) = none) :
    ∃ u, t.insert r = some u := by
  have hmem : key r ∉ t.rows.map key := by
    rw [List.mem_map]
    rintro ⟨s, hs, hkey⟩
    exact find_eq_none_iff.mp h s hs hkey
  exact ⟨_, dif_neg hmem⟩

theorem find_of_insert {t u : Table key} {r : ρ} (h : t.insert r = some u) (k : κ) :
    u.find k = if k = key r then some r else t.find k := by
  have hrows := insert_eq_some h
  rw [find, hrows.2, List.find?_append]
  by_cases hk : k = key r
  · subst hk
    have hnone : t.rows.find? (fun s => key s = key r) = none := hrows.1
    simp [hnone]
  · have hne : ¬ key r = k := fun h' => hk h'.symm
    simp [hk, hne, find]

theorem find_put (t : Table key) (r : ρ) (k : κ) :
    (t.put r).find k = if k = key r then some r else t.find k := by
  by_cases hk : k = key r
  · rw [if_pos hk, find_eq_some_iff]
    exact ⟨List.mem_append_right _ (List.mem_singleton_self r), hk.symm⟩
  · rw [if_neg hk]
    have hne : ¬ key r = k := fun h => hk h.symm
    have hfilter : (t.rows.filter fun s => key s ≠ key r).find? (fun s => key s = k) =
        t.rows.find? fun s => key s = k := by
      rw [List.find?_filter]
      congr 1
      funext s
      by_cases hs : key s = k
      · simp [hs, hk]
      · simp [hs]
    simp only [find, put, List.find?_append, hfilter]
    simp [hne]

theorem find_mapRows (t : Table key) (f : ρ → ρ) (hf : ∀ r, key (f r) = key r) (k : κ) :
    (t.mapRows f hf).find k = (t.find k).map f := by
  have hkey : (fun r => decide (key r = k)) ∘ f = fun r => decide (key r = k) := by
    funext r
    exact congrArg (fun k' => decide (k' = k)) (hf r)
  have hfind : (t.mapRows f hf).find k = (t.rows.map f).find? fun r => decide (key r = k) := rfl
  rw [hfind, List.find?_map, hkey]
  rfl

theorem find_modify (t : Table key) (k : κ) (f : ρ → ρ) (hf : ∀ r, key (f r) = key r) (k' : κ) :
    (t.modify k f hf).find k' = if k' = k then (t.find k).map f else t.find k' := by
  rw [modify, find_mapRows]
  cases hfind : t.find k' with
  | none =>
    by_cases hk : k' = k
    · subst hk
      simp [hfind]
    · simp [hk]
  | some r =>
    have hkey := key_of_find hfind
    by_cases hk : k' = k
    · subst hk
      simp [hfind, hkey]
    · simp [hk, hkey]

omit [DecidableEq κ] in
theorem deleteWhere_none {t : Table key} {p : ρ → Bool} (h : ∀ r ∈ t.rows, p r = false) :
    t.deleteWhere p = t := by
  ext1
  rw [deleteWhere_rows, List.filter_eq_self]
  intro r hr
  rw [h r hr]
  rfl

omit [DecidableEq κ] in
theorem mapRows_id {t : Table key} {f : ρ → ρ} {hf : ∀ r, key (f r) = key r}
    (h : ∀ r, f r = r) : t.mapRows f hf = t := by
  ext1
  rw [mapRows_rows]
  exact List.map_id'' h _

theorem find_deleteWhere (t : Table key) (p : ρ → Bool) (k : κ) :
    (t.deleteWhere p).find k = (t.find k).filter fun r => !p r := by
  cases hfind : t.find k with
  | none =>
    rw [Option.filter_none, find_eq_none_iff]
    intro r hr
    rw [deleteWhere_rows, List.mem_filter] at hr
    exact find_eq_none_iff.mp hfind r hr.1
  | some r =>
    cases hp : p r with
    | false =>
      rw [Option.filter_some_pos (by simp [hp]), find_eq_some_iff]
      exact ⟨by simp [mem_of_find hfind, hp], key_of_find hfind⟩
    | true =>
      rw [Option.filter_some_neg (by simp [hp]), find_eq_none_iff]
      intro s hs hkey
      rw [deleteWhere_rows, List.mem_filter] at hs
      have heq := eq_of_key_eq hs.1 (mem_of_find hfind) (hkey.trans (key_of_find hfind).symm)
      rw [heq, hp] at hs
      exact absurd hs.2 (by decide)

/-- Whether the row of a key is among those that `p` selects. -/
theorem any_filter_key (t : Table key) (p : ρ → Bool) (k : κ) :
    ((t.rows.filter p).any fun r => key r = k) = (t.find k).any p := by
  rw [Bool.eq_iff_iff, List.any_eq_true, Option.any_eq_true]
  constructor
  · rintro ⟨r, hr, hkey⟩
    rw [decide_eq_true_eq] at hkey
    exact ⟨r, find_eq_some_iff.mpr ⟨(List.mem_filter.mp hr).1, hkey⟩, (List.mem_filter.mp hr).2⟩
  · rintro ⟨r, hr, hp⟩
    exact ⟨r, List.mem_filter.mpr ⟨mem_of_find hr, hp⟩, decide_eq_true (key_of_find hr)⟩

/-- At most one row has a key. -/
theorem countP_key (t : Table key) (k : κ) :
    t.rows.countP (fun r => key r = k) = if (t.find k).isSome then 1 else 0 := by
  have hcount : (t.rows.map key).count k ≤ 1 := List.nodup_iff_count_le_one.mp t.keys_nodup k
  have hmap : (t.rows.map key).count k = t.rows.countP fun r => key r = k := by
    rw [List.count, List.countP_map]
    rfl
  cases hfind : t.find k with
  | none =>
    simp only [Option.isSome_none, Bool.false_eq_true, if_false, List.countP_eq_zero]
    intro r hr
    simpa using find_eq_none_iff.mp hfind r hr
  | some r =>
    have hpos : 0 < t.rows.countP fun r => key r = k :=
      List.countP_pos_iff.mpr ⟨r, mem_of_find hfind, by simpa using key_of_find hfind⟩
    simp only [Option.isSome_some, if_true]
    omega

/-- What was written into the row of a key goes with it. -/
theorem deleteWhere_modify (t : Table key) (k : κ) (f : ρ → ρ) (hf : ∀ r, key (f r) = key r) :
    (t.modify k f hf).deleteWhere (fun r => key r = k) = t.deleteWhere fun r => key r = k := by
  ext1
  simp only [deleteWhere_rows, modify_rows]
  induction t.rows with
  | nil => rfl
  | cons r rows ih =>
    by_cases hr : key r = k
    · simp [hr, hf, ih]
    · simp [hr, ih]

/-! ### Rows for another table -/

section Rows
variable {ρ' κ' : Type} {key' : ρ' → κ'}

omit [DecidableEq κ] in
/-- `ALTER TABLE`: every row gets another shape and keeps its key. -/
def alter (t : Table key) (f : ρ → ρ') {key' : ρ' → κ} (hf : ∀ r, key' (f r) = key r) :
    Table key' where
  rows := t.rows.map f
  keys_nodup := by
    have hkeys : key' ∘ f = key := funext hf
    rw [List.map_map, hkeys]
    exact t.keys_nodup

omit [DecidableEq κ] in
/-- `INSERT INTO … SELECT`: at most one row for each row, under a key that tells it. -/
def selectInto (t : Table key) (f : ρ → Option ρ') {g : κ → κ'} (hg : Function.Injective g)
    (hf : ∀ r r', f r = some r' → key' r' = g (key r)) : Table key' where
  rows := t.rows.filterMap f
  keys_nodup := by
    have hrows : t.rows.Pairwise fun r s => key r ≠ key s := List.pairwise_map.mp t.keys_nodup
    apply List.pairwise_map.mpr
    apply List.pairwise_filterMap.mpr
    apply hrows.imp
    intro r s hne r' hr s' hs heq
    rw [hf r r' hr, hf s s' hs] at heq
    exact hne (hg heq)

theorem find_selectInto [DecidableEq κ'] (t : Table key) (f : ρ → Option ρ') {g : κ → κ'}
    (hg : Function.Injective g) (hf : ∀ r r', f r = some r' → key' r' = g (key r)) (k : κ) :
    (t.selectInto f hg hf).find (g k) = (t.find k).bind f := by
  ext r'
  rw [find_eq_some_iff, Option.bind_eq_some_iff, selectInto, List.mem_filterMap]
  constructor
  · rintro ⟨⟨r, hr, hfr⟩, hkey⟩
    rw [hf r r' hfr] at hkey
    exact ⟨r, find_eq_some_iff.mpr ⟨hr, hg hkey⟩, hfr⟩
  · rintro ⟨r, hfind, hfr⟩
    exact ⟨⟨r, mem_of_find hfind, hfr⟩, by rw [hf r r' hfr, key_of_find hfind]⟩

end Rows
end Table
end PhantomShare.Foundations
