import PhantomShare.Lifecycle.Evolution
import PhantomShare.Lifecycle.Transactions
import PhantomShare.Service.Outlines

/-!
# What the world keeps

Every record is intact, and an id under which no secret was created has none. A
process may rely on this: the ids that it has drawn stay its own, and the record of
a secret that was created follows from what it was.
-/
namespace PhantomShare.Service
open Foundations Lifecycle

/-- The version whose storage the label notes. -/
def stores : Label → Option (UUID × ℕ)
  | .created id _ => some (id, 1)
  | .updated id _ version | .restored id _ version => some (id, version)
  | .createFile key | .updateFile key => some (key.secretId, key.version)
  | _ => none

/-- The versions of a secret in the order in which they were stored. -/
def stored (id : UUID) (w : World) : List ℕ :=
  w.commits.filterMap fun entry => (stores entry.2).bind fun version =>
    if version.1 = id then some version.2 else none

/-- A secret was created under the id. -/
def Used (w : World) (id : UUID) : Prop := stored id w ≠ []

section Stored
variable {w : World} {pid : ℕ} {label : Label} {db : Database} {id : UUID}

theorem stored_commit_none (h : stores label = none) :
    stored id (w.commit pid label db) = stored id w := by
  simp [stored, World.commit, h]

theorem stored_commit_some {n : ℕ} (h : stores label = some (id, n)) :
    stored id (w.commit pid label db) = stored id w ++ [n] := by
  simp [stored, World.commit, h]

theorem stored_commit_other {other : UUID} {n : ℕ} (h : stores label = some (id, n))
    (hother : other ≠ id) : stored other (w.commit pid label db) = stored other w := by
  simp [stored, World.commit, h, hother.symm]

end Stored

/-- The versions of every secret were stored one after the other, and the last of them is the
current one. Ids are drawn once, and where nothing was stored there is nothing. -/
structure Orderly (P : Platform) (w : World) : Prop where
  distinct : DistinctIds w
  drawn : ∀ id, Used w id → ∃ pid, (id, pid) ∈ w.issued
  blank : ∀ id, ¬ Used w id → (record id w.db).secret = none ∧ (record id w.db).tracking = none
  numbered : ∀ id, stored id w = List.range' 1 (stored id w).length
  current : ∀ id s, (record id w.db).secret = some s → s.currentVersion = (stored id w).length
  intact : ∀ id, Intact P id (record id w.db)

/-- What the other processes leave to process `k`. -/
structure Keeps (P : Platform) (k : ℕ) (w w' : World) : Prop where
  issued : w.issued ⊆ w'.issued
  now : w.now ≤ w'.now
  own : ∀ id, (id, k) ∈ w.issued → Used w' id → Used w id
  stored : ∀ id, stored id w <+: stored id w'
  follows : ∀ id, Used w id → Follows P (record id w.db) (record id w'.db)

variable {P : Platform} {pid k : ℕ} {label : Label} {a b c w w' : World} {id : UUID}

theorem Keeps.used (h : Keeps P k w w') (hused : Used w id) : Used w' id := by
  intro hnone
  have hprefix := h.stored id
  rw [hnone, List.prefix_nil] at hprefix
  exact hused hprefix

theorem Keeps.refl (P : Platform) (k : ℕ) (w : World) : Keeps P k w w where
  issued := List.Subset.refl _
  now := le_refl _
  own _ _ h := h
  stored _ := List.prefix_refl _
  follows id _ := .refl P (record id w.db)

theorem Keeps.trans (hab : Keeps P k a b) (hbc : Keeps P k b c) : Keeps P k a c where
  issued := List.Subset.trans hab.issued hbc.issued
  now := hab.now.trans hbc.now
  own id hid h := hab.own id hid (hbc.own id (hab.issued hid) h)
  stored id := (hab.stored id).trans (hbc.stored id)
  follows id h := (hab.follows id h).trans (hbc.follows id (hab.used h))

/-- What a step of process `pid` has to show. -/
structure Turn (P : Platform) (pid : ℕ) (w w' : World) : Prop where
  orderly : Orderly P w'
  others : ∀ k, k ≠ pid → Keeps P k w w'

/-! ### Steps that create nothing -/

/-- Either nothing is stored for the secret, or its next version. -/
def Counts (id : UUID) (w w' : World) : Prop :=
  (stored id w' = stored id w ∧ ∀ s', (record id w'.db).secret = some s' →
    ∃ s, (record id w.db).secret = some s ∧ s'.currentVersion = s.currentVersion) ∨
  ∃ s s', (record id w.db).secret = some s ∧ (record id w'.db).secret = some s' ∧
    s'.currentVersion = s.currentVersion + 1 ∧ stored id w' = stored id w ++ [s'.currentVersion]

/-- A step in which every record makes moves. -/
structure Lasts (P : Platform) (pid : ℕ) (_label : Label) (w w' : World) : Prop where
  issued : Draws pid w w'
  now : w.now ≤ w'.now
  lives : Orderly P w → Lives P w.now w.db w'.db
  counts : Orderly P w → ∀ id, Counts id w w'

theorem Orderly.present (h : Orderly P w) {s : Secret} (hs : (record id w.db).secret = some s) :
    Used w id := by
  by_contra hunused
  simp [(h.blank id hunused).1] at hs

theorem Lasts.follows (valid : Settings.Valid P.settings) (h : Orderly P w)
    (hstep : Lasts P pid label w w') (id : UUID) : Follows P (record id w.db) (record id w'.db) :=
  .moves valid (h.intact id) (hstep.lives h id)

/-- Nobody's ids come into use in such a step. -/
theorem Lasts.used_iff (h : Orderly P w) (hstep : Lasts P pid label w w') (id : UUID) :
    Used w' id ↔ Used w id := by
  obtain ⟨hsame, _⟩ | ⟨s, s', hs, _, _, hstored⟩ := hstep.counts h id
  · rw [Used, hsame, Used]
  · have hused := h.present hs
    simp only [Used, hstored, ne_eq, List.append_eq_nil_iff, List.cons_ne_nil, and_false,
      not_false_eq_true, true_iff]
    exact hused

theorem Lasts.keeps (valid : Settings.Valid P.settings) (h : Orderly P w)
    (hstep : Lasts P pid label w w') (k : ℕ) : Keeps P k w w' where
  issued := Draws.subset hstep.issued
  now := hstep.now
  own id _ := (hstep.used_iff h id).mp
  stored id := by
    obtain ⟨hsame, _⟩ | ⟨_, _, _, _, _, hstored⟩ := hstep.counts h id
    · rw [hsame]
    · rw [hstored]
      exact List.prefix_append _ _
  follows id _ := hstep.follows valid h id

theorem Orderly.lasts (valid : Settings.Valid P.settings) (h : Orderly P w)
    (hstep : Lasts P pid label w w') : Orderly P w' where
  distinct := h.distinct.draws hstep.issued
  drawn id hused := by
    obtain ⟨pid, hdrawn⟩ := h.drawn id ((hstep.used_iff h id).mp hused)
    exact ⟨pid, Draws.subset hstep.issued hdrawn⟩
  blank id hunused := by
    obtain ⟨habsent, huntracked⟩ := h.blank id fun hused => hunused ((hstep.used_iff h id).mpr hused)
    have hfollows := hstep.follows valid h id
    constructor
    · apply Option.eq_none_iff_forall_ne_some.mpr
      intro s hs
      obtain ⟨old, hold, _⟩ := hfollows.secret s hs
      simp [habsent] at hold
    · apply Option.eq_none_iff_forall_ne_some.mpr
      intro t ht
      simpa [huntracked] using hfollows.tracking t ht
  numbered id := by
    obtain ⟨hsame, _⟩ | ⟨s, s', hs, _, hnext, hstored⟩ := hstep.counts h id
    · rw [hsame]
      exact h.numbered id
    · rw [hstored, List.length_append, List.length_singleton, List.range'_1_concat, hnext,
        ← h.numbered id, h.current id s hs, Nat.add_comm]
  current id s' hs' := by
    obtain ⟨hsame, hversion⟩ | ⟨s, s₂, hs, hs₂, hnext, hstored⟩ := hstep.counts h id
    · obtain ⟨s, hs, heq⟩ := hversion s' hs'
      rw [heq, hsame]
      exact h.current id s hs
    · rw [hs₂, Option.some.injEq] at hs'
      rw [← hs', hstored, List.length_append, List.length_singleton, hnext, h.current id s hs]
  intact id := (h.intact id).moves valid (hstep.lives h id)

theorem Turn.lasts (valid : Settings.Valid P.settings) (h : Orderly P w)
    (hstep : Lasts P pid label w w') : Turn P pid w w' :=
  ⟨h.lasts valid hstep, fun k _ => hstep.keeps valid h k⟩

namespace Lasts
variable {note : Label} {db : Database}

theorem rests (hnote : stores note = none) (h : Orderly P w → Rests P w.now w.db db) :
    Lasts P pid label w (w.commit pid note db) where
  issued := .inl rfl
  now := le_refl _
  lives horderly := (h horderly).lives
  counts horderly id := .inl ⟨stored_commit_none hnote, version_of_quiet (h horderly id)⟩

theorem appends {n : ℕ} (hnote : stores note = some (id, n))
    (h : Orderly P w → Extends P w.now id n w.db db) :
    Lasts P pid label w (w.commit pid note db) where
  issued := .inl rfl
  now := le_refl _
  lives horderly := (h horderly).lives
  counts horderly other := by
    have hextends := h horderly
    by_cases hother : other = id
    · subst hother
      obtain ⟨s, s', hs, hs', hnext⟩ := hextends.append.version
      right
      exact ⟨s, s', hs, hs', hnext,
        by rw [stored_commit_some hnote, hextends.number s hs, hnext]⟩
    · left
      constructor
      · exact stored_commit_other hnote hother
      · intro s' hs'
        rw [World.commit_db, hextends.apart other hother] at hs'
        exact ⟨s', hs', rfl⟩

/-- Tables that belong to no record. -/
theorem aside (hnote : stores note = none) (h : ∀ id, record id db = record id w.db) :
    Lasts P pid label w (w.commit pid note db) :=
  .rests hnote fun _ => .of_same h

theorem of_same (hissued : Draws pid w w') (hnow : w.now ≤ w'.now) (hdb : w'.db = w.db)
    (hcommits : w'.commits = w.commits) : Lasts P pid label w w' where
  issued := hissued
  now := hnow
  lives _ := .of_same fun id => by rw [hdb]
  counts _ id := .inl ⟨by rw [stored, hcommits, stored], fun s' hs' => ⟨s', hdb ▸ hs', rfl⟩⟩

theorem calm (h : Calm pid w w') : Lasts P pid label w w' := .of_same h.issued h.now h.db h.commits

theorem sessions (hnote : stores note = none) (sessions : Table Session.id) :
    Lasts P pid label w (w.commit pid note { w.db with sessions := sessions }) :=
  .aside hnote fun _ => rfl

theorem discardWork (h : Lasts P pid label w w') :
    Lasts P pid label w (Auth.discardWork pid w') := ⟨h.issued, h.now, h.lives, h.counts⟩

end Lasts

theorem still_lasts : Still (Lasts P) := fun _ _ _ _ => .calm

theorem logs_lasts : Logs (Lasts P) := by
  intro pid w entry db hinsert
  exact .aside rfl fun id => record_insertAuditLog hinsert

theorem sparing_lasts : Sparing (Lasts P) := by
  intro pid label w outbox pending hlabel
  apply Lasts.aside
  · cases label <;> first | rfl | cases hlabel
  · exact fun id => rfl

theorem refreshes_lasts : Refreshes (Lasts P) where
  work _ _ _ _ _ := .of_same (.inl rfl) (le_refl _) rfl rfl
  commit _ _ _ _ sessions := (Lasts.sessions rfl sessions).discardWork

/-! ### The step that creates a secret -/

/-- The process has drawn an id and created nothing under it. -/
structure Pending (pid : ℕ) (id : UUID) (w : World) : Prop where
  drawn : (id, pid) ∈ w.issued
  unused : ¬ Used w id

theorem Pending.keeps (h : Pending pid id w) (hkeeps : Keeps P pid w w') : Pending pid id w' where
  drawn := hkeeps.issued h.drawn
  unused hused := h.unused (hkeeps.own id h.drawn hused)

theorem Turn.creates {note : Label} {db : Database} (valid : Settings.Valid P.settings)
    (h : Orderly P w) (hpending : Pending pid id w) (hnote : stores note = some (id, 1))
    (hcreates : Creates P id w.db db) : Turn P pid w (w.commit pid note db) := by
  have hfirst : stored id (w.commit pid note db) = [1] := by
    rw [stored_commit_some hnote, not_not.mp hpending.unused, List.nil_append]
  have hused : ∀ other, other ≠ id → (Used (w.commit pid note db) other ↔ Used w other) := by
    intro other hother
    rw [Used, stored_commit_other hnote hother, Used]
  constructor
  · constructor
    · exact h.distinct
    · intro other hother
      by_cases hid : other = id
      · rw [hid]
        exact ⟨pid, hpending.drawn⟩
      · exact h.drawn other ((hused other hid).mp hother)
    · intro other hother
      have hid : other ≠ id := by
        rintro rfl
        simp [Used, hfirst] at hother
      rw [World.commit_db, hcreates.apart other hid]
      exact h.blank other fun hold => hother ((hused other hid).mpr hold)
    · intro other
      by_cases hid : other = id
      · rw [hid, hfirst]
        rfl
      · rw [stored_commit_other hnote hid]
        exact h.numbered other
    · intro other s hs
      by_cases hid : other = id
      · subst hid
        rw [hfirst]
        exact hcreates.birth.version s hs
      · rw [World.commit_db, hcreates.apart other hid] at hs
        rw [stored_commit_other hnote hid]
        exact h.current other s hs
    · intro other
      rw [World.commit_db]
      by_cases hid : other = id
      · subst hid
        exact (h.intact other).birth valid hcreates.birth
      · rw [hcreates.apart other hid]
        exact h.intact other
  · intro k hk
    constructor
    · exact List.Subset.refl _
    · exact le_refl _
    · intro other hother hnew
      by_cases hid : other = id
      · subst hid
        exact absurd (h.distinct.owner hother hpending.drawn) hk
      · exact (hused other hid).mp hnew
    · intro other
      by_cases hid : other = id
      · rw [hid, not_not.mp hpending.unused]
        exact List.nil_prefix
      · rw [stored_commit_other hnote hid]
    · intro other hold
      have hid : other ≠ id := by
        rintro rfl
        exact hpending.unused hold
      rw [World.commit_db, hcreates.apart other hid]
      exact .refl P _

end PhantomShare.Service
