import Mathlib.Data.List.Basic

/-!
# Logs

An append-only log grows at its end. What holds of every entry and the entries
before it is checked when the entry is written.
-/
namespace PhantomShare.Foundations
variable {α : Type} {P : List α → α → Prop} {log : List α}

/-- Every entry stands in the relation to the entries before it. -/
def Throughout (P : List α → α → Prop) (log : List α) : Prop :=
  ∀ before entry after, log = before ++ entry :: after → P before entry

theorem throughout_nil : Throughout P [] := by
  intro before entry after h
  simp at h

/-- A place in a log that has grown is its end or lies in the log before. -/
theorem place_in_snoc {last entry : α} {before after : List α}
    (h : log ++ [last] = before ++ entry :: after) :
    after = [] ∧ entry = last ∧ before = log ∨
      ∃ middle, after = middle ++ [last] ∧ log = before ++ entry :: middle := by
  rcases List.eq_nil_or_concat after with rfl | ⟨middle, other, rfl⟩
  · rcases List.append_inj' h rfl with ⟨hlog, hlast⟩
    cases hlast
    exact Or.inl ⟨rfl, rfl, hlog.symm⟩
  · rw [List.concat_eq_append, ← List.cons_append, ← List.append_assoc] at h
    rcases List.append_inj' h rfl with ⟨hlog, hlast⟩
    cases hlast
    exact Or.inr ⟨middle, List.concat_eq_append, hlog⟩

theorem Throughout.snoc {entry : α} (h : Throughout P log) (hentry : P log entry) :
    Throughout P (log ++ [entry]) := by
  intro before e after heq
  rcases place_in_snoc heq with ⟨_, rfl, rfl⟩ | ⟨middle, _, hlog⟩
  · exact hentry
  · exact h before e middle hlog

theorem Throughout.init {entry : α} (h : Throughout P (log ++ [entry])) : Throughout P log := by
  intro before e after heq
  apply h before e (after ++ [entry])
  rw [heq, List.append_assoc, List.cons_append]

theorem Throughout.last {entry : α} (h : Throughout P (log ++ [entry])) : P log entry :=
  h log entry [] rfl

/-- At most one entry is of a kind when no two are. -/
theorem countP_le_one {p : α → Bool} (h : log.Pairwise fun a b => p a = true → p b = false) :
    log.countP p ≤ 1 := by
  induction h with
  | nil => simp
  | @cons a l hrest _ ih =>
    rw [List.countP_cons]
    by_cases ha : p a = true
    · have hnone : l.countP p = 0 := by
        rw [List.countP_eq_zero]
        intro b hb
        simp [hrest b hb ha]
      simp [ha, hnone]
    · simp [ha, ih]

/-- What only one entry says tells the entry. -/
theorem eq_of_filterMap_nodup {β : Type} {f : α → Option β}
    (h : (log.filterMap f).Nodup) {a b : α} {x : β} (ha : a ∈ log) (hb : b ∈ log)
    (hfa : f a = some x) (hfb : f b = some x) : a = b := by
  induction log with
  | nil => cases ha
  | cons c rest ih =>
    have hrest : (rest.filterMap f).Nodup := by
      cases hc : f c with
      | none => rwa [List.filterMap_cons_none hc] at h
      | some y =>
        rw [List.filterMap_cons_some hc] at h
        exact (List.nodup_cons.mp h).2
    have hhead : ∀ d ∈ rest, f c = some x → f d = some x → False := by
      intro d hd hc hfd
      rw [List.filterMap_cons_some hc] at h
      exact (List.nodup_cons.mp h).1 (List.mem_filterMap.mpr ⟨d, hd, hfd⟩)
    rcases List.mem_cons.mp ha with heq | harest
    · rcases List.mem_cons.mp hb with heq' | hbrest
      · rw [heq, heq']
      · exact (hhead b hbrest (heq ▸ hfa) hfb).elim
    · rcases List.mem_cons.mp hb with heq' | hbrest
      · exact (hhead a harest (heq' ▸ hfb) hfa).elim
      · exact ih hrest harest hbrest

end PhantomShare.Foundations
