import Mathlib.Data.List.Basic

/-!
# Transactions that lock the rows they write

Several transactions are open at a time. Each collects the effects of its statements
and locks the rows that they concern; what is committed changes when a transaction
commits. As long as it holds a lock, its own work and the locked row stay as they
are, whatever the others do.
-/
namespace PhantomShare.Foundations

/-- The committed state, the locks and the work of the open transactions, and the effects that were
committed, in their order, each with its transaction. -/
structure Transactions (κ ε τ : Type) where
  committed : τ
  locks : List (κ × ℕ)
  drafts : List (ℕ × ε)
  history : List (ℕ × ε)

namespace Transactions
variable {κ ε τ : Type}

/-- The effects of an open transaction. -/
def own (s : Transactions κ ε τ) (pid : ℕ) : List ε :=
  (s.drafts.filter fun draft => draft.1 = pid).map Prod.snd

def draft (s : Transactions κ ε τ) (pid : ℕ) (e : ε) : Transactions κ ε τ :=
  { s with drafts := s.drafts ++ [(pid, e)] }

/-- Whether another transaction holds the lock of a row. -/
def heldByOther [DecidableEq κ] (s : Transactions κ ε τ) (row : κ) (pid : ℕ) : Bool :=
  s.locks.any fun lock => lock.1 = row ∧ lock.2 ≠ pid

def lock (s : Transactions κ ε τ) (row : κ) (pid : ℕ) : Transactions κ ε τ :=
  { s with locks := s.locks ++ [(row, pid)] }

/-- The locks and the work of a transaction are dropped. -/
def discard (s : Transactions κ ε τ) (pid : ℕ) : Transactions κ ε τ :=
  { s with
    locks := s.locks.filter fun lock => lock.2 ≠ pid
    drafts := s.drafts.filter fun draft => draft.1 ≠ pid }

def commit (apply : τ → ε → τ) (s : Transactions κ ε τ) (pid : ℕ) : Transactions κ ε τ :=
  { s with
    committed := (s.own pid).foldl apply s.committed
    history := s.history ++ (s.own pid).map fun e => (pid, e) }.discard pid

section Own
variable {s : Transactions κ ε τ} {pid k : ℕ}

theorem mem_own {e : ε} : e ∈ s.own pid ↔ (pid, e) ∈ s.drafts := by
  simp only [own, List.mem_map, List.mem_filter, decide_eq_true_eq]
  constructor
  · rintro ⟨⟨_, _⟩, ⟨hmem, rfl⟩, rfl⟩
    exact hmem
  · intro hmem
    exact ⟨_, ⟨hmem, rfl⟩, rfl⟩

@[simp] theorem own_lock (row : κ) : (s.lock row k).own pid = s.own pid := rfl

@[simp] theorem own_draft (e : ε) : (s.draft pid e).own pid = s.own pid ++ [e] := by
  simp [own, draft]

theorem own_draft_of_ne (e : ε) (h : pid ≠ k) : (s.draft k e).own pid = s.own pid := by
  simp [own, draft, h.symm]

@[simp] theorem own_discard : (s.discard pid).own pid = [] := by
  simp [own, discard]

theorem own_discard_of_ne (h : pid ≠ k) : (s.discard k).own pid = s.own pid := by
  simp only [own, discard, List.filter_filter]
  congr 2
  funext draft
  by_cases hdraft : draft.1 = pid <;> simp [hdraft, h]

theorem mem_locks_discard {row : κ} : (row, pid) ∈ (s.discard k).locks ↔
    (row, pid) ∈ s.locks ∧ pid ≠ k := by
  simp [discard]

end Own

/-- Which rows an effect concerns, and when a row is the same in two states. -/
structure Rows (κ ε τ : Type) where
  apply : τ → ε → τ
  rows : ε → List κ
  same : κ → τ → τ → Prop
  same_refl : ∀ row t, same row t t
  same_trans : ∀ {row a b c}, same row a b → same row b c → same row a c
  same_apply : ∀ {row e} t, row ∉ rows e → same row t (apply t e)

variable (M : Rows κ ε τ)

theorem Rows.same_foldl {row : κ} {es : List ε} (t : τ) (h : ∀ e ∈ es, row ∉ M.rows e) :
    M.same row t (es.foldl M.apply t) := by
  induction es generalizing t with
  | nil => exact M.same_refl row t
  | cons e es ih =>
    have hstep := M.same_apply t (h e List.mem_cons_self)
    exact M.same_trans hstep (ih _ fun e' he' => h e' (List.mem_cons_of_mem _ he'))

/-- A row is locked by one transaction at a time, and a transaction has locked the rows that its
effects concern. -/
structure Locked (s : Transactions κ ε τ) : Prop where
  exclusive : ∀ row p q, (row, p) ∈ s.locks → (row, q) ∈ s.locks → p = q
  backed : ∀ p e, (p, e) ∈ s.drafts → ∀ row ∈ M.rows e, (row, p) ∈ s.locks

/-- What the others leave to an open transaction. -/
structure Undisturbed (pid : ℕ) (s s' : Transactions κ ε τ) : Prop where
  locks : ∀ row, (row, pid) ∈ s'.locks ↔ (row, pid) ∈ s.locks
  own : s'.own pid = s.own pid
  rows : ∀ row, (row, pid) ∈ s.locks → M.same row s.committed s'.committed
  history : ∃ others : List (ℕ × ε), s'.history = s.history ++ others ∧ ∀ x ∈ others, x.1 ≠ pid

variable {M}

namespace Undisturbed
variable {pid : ℕ} {a b c : Transactions κ ε τ}

theorem refl (pid : ℕ) (s : Transactions κ ε τ) : Undisturbed M pid s s where
  locks _ := Iff.rfl
  own := rfl
  rows row _ := M.same_refl row _
  history := ⟨[], (List.append_nil _).symm, by simp⟩

theorem trans (hab : Undisturbed M pid a b) (hbc : Undisturbed M pid b c) :
    Undisturbed M pid a c where
  locks row := (hbc.locks row).trans (hab.locks row)
  own := hbc.own.trans hab.own
  rows row h := M.same_trans (hab.rows row h) (hbc.rows row ((hab.locks row).mpr h))
  history := by
    obtain ⟨xs, hb, hxs⟩ := hab.history
    obtain ⟨ys, hc, hys⟩ := hbc.history
    refine ⟨xs ++ ys, by rw [hc, hb, List.append_assoc], ?_⟩
    intro x hx
    exact (List.mem_append.mp hx).elim (hxs x) (hys x)

/-- What a transaction has committed is its own doing. -/
theorem mem_history (h : Undisturbed M pid a b) {e : ε} :
    (pid, e) ∈ b.history ↔ (pid, e) ∈ a.history := by
  obtain ⟨others, hb, hothers⟩ := h.history
  rw [hb, List.mem_append]
  constructor
  · rintro (hmem | hmem)
    · exact hmem
    · exact absurd rfl (hothers _ hmem)
  · exact Or.inl

theorem history_prefix (h : Undisturbed M pid a b) : a.history <+: b.history := by
  obtain ⟨others, hb, _⟩ := h.history
  exact ⟨others, hb.symm⟩

end Undisturbed

/-! ### The operations -/

section Operations
variable {s : Transactions κ ε τ} {pid k : ℕ} {row : κ} {e : ε}

theorem Locked.lock [DecidableEq κ] (h : Locked M s) (hfree : s.heldByOther row pid = false) :
    Locked M (s.lock row pid) where
  exclusive r p q hp hq := by
    have hnone : ∀ p, (row, p) ∈ s.locks → p = pid := by
      intro p hp
      by_contra hne
      have hheld : s.heldByOther row pid = true := by
        rw [heldByOther, List.any_eq_true]
        exact ⟨_, hp, by simpa using hne⟩
      rw [hfree] at hheld
      cases hheld
    simp only [Transactions.lock, List.mem_append, List.mem_singleton, Prod.mk.injEq] at hp hq
    rcases hp with hp | ⟨rfl, rfl⟩ <;> rcases hq with hq | ⟨hrow, rfl⟩
    · exact h.exclusive r p q hp hq
    · subst hrow
      exact hnone p hp
    · exact (hnone q hq).symm
    · rfl
  backed p e hmem r hr := List.mem_append_left _ (h.backed p e hmem r hr)

theorem undisturbed_lock (hk : k ≠ pid) : Undisturbed M k s (s.lock row pid) where
  locks r := by simp [Transactions.lock, hk]
  own := rfl
  rows r _ := M.same_refl r _
  history := ⟨[], (List.append_nil _).symm, by simp⟩

theorem Locked.draft (h : Locked M s) (hrows : ∀ r ∈ M.rows e, (r, pid) ∈ s.locks) :
    Locked M (s.draft pid e) where
  exclusive := h.exclusive
  backed p e' hmem r hr := by
    rcases List.mem_append.mp hmem with hmem | hmem
    · exact h.backed p e' hmem r hr
    · cases List.mem_singleton.mp hmem
      exact hrows r hr

theorem undisturbed_draft (hk : k ≠ pid) : Undisturbed M k s (s.draft pid e) where
  locks _ := Iff.rfl
  own := own_draft_of_ne e hk
  rows r _ := M.same_refl r _
  history := ⟨[], (List.append_nil _).symm, by simp⟩

theorem Locked.discard (h : Locked M s) : Locked M (s.discard pid) where
  exclusive r p q hp hq :=
    h.exclusive r p q (mem_locks_discard.mp hp).1 (mem_locks_discard.mp hq).1
  backed p e hmem r hr := by
    simp only [Transactions.discard, List.mem_filter, ne_eq, decide_not, Bool.not_eq_true',
      decide_eq_false_iff_not] at hmem
    exact mem_locks_discard.mpr ⟨h.backed p e hmem.1 r hr, hmem.2⟩

theorem undisturbed_discard (hk : k ≠ pid) : Undisturbed M k s (s.discard pid) where
  locks r := by simp [mem_locks_discard, hk]
  own := own_discard_of_ne hk
  rows r _ := M.same_refl r _
  history := ⟨[], (List.append_nil _).symm, by simp⟩

theorem Locked.commit (h : Locked M s) : Locked M (s.commit M.apply pid) := by
  apply Locked.discard
  exact ⟨h.exclusive, h.backed⟩

/-- A commit changes no row that another transaction holds. -/
theorem undisturbed_commit (h : Locked M s) (hk : k ≠ pid) :
    Undisturbed M k s (s.commit M.apply pid) where
  locks r := by
    rw [Transactions.commit, mem_locks_discard]
    exact and_iff_left hk
  own := own_discard_of_ne hk
  rows r hr := by
    apply M.same_foldl
    intro e he hmem
    exact hk (h.exclusive r k pid hr (h.backed pid e (mem_own.mp he) r hmem))
  history := by
    refine ⟨_, rfl, ?_⟩
    intro x hx
    obtain ⟨e, _, rfl⟩ := List.mem_map.mp hx
    exact hk.symm

end Operations
end Transactions
end PhantomShare.Foundations
