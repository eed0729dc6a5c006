import PhantomShare.Routers.Auth
import PhantomShare.Rules

/-!
# Which refresh tokens were produced and consumed

The committed logins and refreshes each produce a token, the committed refreshes
and logouts each consume one. The ledger says that no token is produced or
consumed twice and that a consumed token has no session row. Row locks make a
commit that consumes a token the only one that can.
-/
namespace PhantomShare.Sessions
open Foundations

/-- The token that a committed transaction uses up. -/
def consumes : Label → Option String
  | .refresh hash _ => some hash
  | .logout hash => some hash
  | _ => none

/-- The token that a committed transaction hands out. -/
def produces : Label → Option String
  | .login hash => some hash
  | .refresh _ newHash => some newHash
  | _ => none

def consumed (w : World) : List String := w.commits.filterMap fun entry => consumes entry.2
def produced (w : World) : List String := w.commits.filterMap fun entry => produces entry.2

def tokenHash (P : Platform) (claims : Claims) : String := P.sha256Hex (P.jwtEncode claims)

/-- The hashes of the session rows. -/
def live (w : World) : List String := w.db.sessions.rows.map Session.refreshTokenHash

structure Ledger (P : Platform) (w : World) : Prop where
  issued_functional : ∀ id i j, (id, i) ∈ w.issued → (id, j) ∈ w.issued → i = j
  consumed_nodup : (consumed w).Nodup
  produced_nodup : (produced w).Nodup
  live_nodup : (live w).Nodup
  live_produced : ∀ hash ∈ live w, hash ∈ produced w
  consumed_produced : ∀ hash ∈ consumed w, hash ∈ produced w
  consumed_gone : ∀ hash ∈ consumed w, hash ∉ live w
  produced_issued : ∀ hash ∈ produced w,
    ∃ claims pid, hash = tokenHash P claims ∧ (claims.jti, pid) ∈ w.issued
  locks_exclusive : ∀ id i j, (id, i) ∈ w.sessionLocks → (id, j) ∈ w.sessionLocks → i = j

/-- What process `pid` knows of the transitions of the others. -/
structure Rely (P : Platform) (pid : ℕ) (w w' : World) : Prop where
  commits : ∀ entry ∈ w.commits, entry ∈ w'.commits
  issued : ∀ entry ∈ w.issued, entry ∈ w'.issued
  fresh : ∀ hash ∈ produced w', hash ∈ produced w ∨
    ∃ claims j, hash = tokenHash P claims ∧ (claims.jti, j) ∈ w'.issued ∧ j ≠ pid
  locks : ∀ id, (id, pid) ∈ w'.sessionLocks ↔ (id, pid) ∈ w.sessionLocks
  inserts : Auth.ownInserts pid w' = Auth.ownInserts pid w
  rows : ∀ row ∈ w.db.sessions.rows, (row.id, pid) ∈ w.sessionLocks →
    row ∈ w'.db.sessions.rows

theorem Rely.refl (P : Platform) (pid : ℕ) (w : World) : Rely P pid w w where
  commits _ h := h
  issued _ h := h
  fresh _ h := Or.inl h
  locks _ := Iff.rfl
  inserts := rfl
  rows _ h _ := h

theorem Rely.trans {P : Platform} {pid : ℕ} {a b c : World} (hab : Rely P pid a b)
    (hbc : Rely P pid b c) : Rely P pid a c where
  commits entry h := hbc.commits entry (hab.commits entry h)
  issued entry h := hbc.issued entry (hab.issued entry h)
  fresh hash h := by
    rcases hbc.fresh hash h with h | h
    · rcases hab.fresh hash h with h | ⟨claims, j, hhash, hissued, hj⟩
      · exact Or.inl h
      · exact Or.inr ⟨claims, j, hhash, hbc.issued _ hissued, hj⟩
    · exact Or.inr h
  locks id := (hbc.locks id).trans (hab.locks id)
  inserts := hbc.inserts.trans hab.inserts
  rows row hrow hlock := hbc.rows row (hab.rows row hrow hlock) ((hab.locks row.id).mpr hlock)

/-- A legal transition of process `pid`. -/
structure Step (P : Platform) (pid : ℕ) (w w' : World) : Prop where
  ledger : Ledger P w'
  rely : ∀ k, k ≠ pid → Rely P k w w'
  commits : ∀ entry ∈ w.commits, entry ∈ w'.commits
  lock_owner : ∀ lock ∈ w'.sessionLocks, lock ∈ w.sessionLocks ∨ lock.2 = pid
  insert_owner : ∀ entry ∈ w'.sessionInserts, entry ∈ w.sessionInserts ∨ entry.2 = pid

/-- Nothing about sessions changes. -/
theorem Step.quiet {P : Platform} {pid : ℕ} {w w' : World} (h : Ledger P w)
    (hsessions : w'.db.sessions = w.db.sessions) (hissued : w'.issued = w.issued)
    (hlocks : w'.sessionLocks = w.sessionLocks) (hinserts : w'.sessionInserts = w.sessionInserts)
    (hconsumed : consumed w' = consumed w) (hproduced : produced w' = produced w)
    (hcommits : ∀ entry ∈ w.commits, entry ∈ w'.commits) : Step P pid w w' := by
  have hlive : live w' = live w := by rw [live, hsessions, live]
  constructor
  · constructor
    · rw [hissued]
      exact h.issued_functional
    · rw [hconsumed]
      exact h.consumed_nodup
    · rw [hproduced]
      exact h.produced_nodup
    · rw [hlive]
      exact h.live_nodup
    · rw [hlive, hproduced]
      exact h.live_produced
    · rw [hconsumed, hproduced]
      exact h.consumed_produced
    · rw [hconsumed, hlive]
      exact h.consumed_gone
    · rw [hproduced, hissued]
      exact h.produced_issued
    · rw [hlocks]
      exact h.locks_exclusive
  · intro k _
    constructor
    · exact hcommits
    · rw [hissued]
      exact fun _ h => h
    · rw [hproduced]
      exact fun _ h => Or.inl h
    · rw [hlocks]
      exact fun _ => Iff.rfl
    · rw [Auth.ownInserts, hinserts, Auth.ownInserts]
    · rw [hsessions]
      exact fun _ h _ => h
  · exact hcommits
  · rw [hlocks]
    exact fun _ h => Or.inl h
  · rw [hinserts]
    exact fun _ h => Or.inl h

theorem Step.commit_quiet {P : Platform} {pid : ℕ} {w : World} {label : Label} {db : Database}
    (h : Ledger P w) (hsessions : db.sessions = w.db.sessions) (hc : consumes label = none)
    (hp : produces label = none) : Step P pid w (w.commit pid label db) := by
  apply Step.quiet h
  · exact hsessions
  · rfl
  · rfl
  · rfl
  · simp [consumed, hc]
  · simp [produced, hp]
  · intro entry hentry
    exact List.mem_append_left _ hentry

theorem Step.issue {P : Platform} {pid : ℕ} {w : World} {id : UUID} (h : Ledger P w)
    (hfresh : ∀ entry ∈ w.issued, entry.1 ≠ id) : Step P pid w (w.issue id pid) where
  ledger :=
    { h with
      issued_functional := by
        intro u i j hi hj
        simp only [World.issue_issued, List.mem_append, List.mem_singleton, Prod.mk.injEq] at hi hj
        rcases hi with hi | ⟨rfl, rfl⟩ <;> rcases hj with hj | ⟨hu, rfl⟩
        · exact h.issued_functional u i j hi hj
        · exact absurd hu (hfresh _ hi)
        · exact absurd rfl (hfresh _ hj)
        · rfl
      produced_issued := by
        intro hash hmem
        rcases h.produced_issued hash hmem with ⟨claims, j, hhash, hissued⟩
        exact ⟨claims, j, hhash, List.mem_append_left _ hissued⟩ }
  rely k _ :=
    { commits := fun _ h => h
      issued := fun _ h => List.mem_append_left _ h
      fresh := fun _ h => Or.inl h
      locks := fun _ => Iff.rfl
      inserts := rfl
      rows := fun _ h _ => h }
  commits _ h := h
  lock_owner _ h := Or.inl h
  insert_owner _ h := Or.inl h

/-- An `UPDATE` locks a row that nobody else holds. -/
theorem Step.lock {P : Platform} {pid : ℕ} {w : World} {id : UUID} (h : Ledger P w)
    (hfree : ∀ j, (id, j) ∈ w.sessionLocks → j = pid) :
    Step P pid w { w with sessionLocks := w.sessionLocks ++ [(id, pid)] } where
  ledger :=
    { h with
      locks_exclusive := by
        intro u i j hi hj
        simp only [List.mem_append, List.mem_singleton, Prod.mk.injEq] at hi hj
        rcases hi with hi | ⟨rfl, rfl⟩ <;> rcases hj with hj | ⟨hu, rfl⟩
        · exact h.locks_exclusive u i j hi hj
        · rw [hu] at hi
          exact hfree i hi
        · exact (hfree j hj).symm
        · rfl }
  rely k hk :=
    { commits := fun _ h => h
      issued := fun _ h => h
      fresh := fun _ h => Or.inl h
      locks := by simp [hk]
      inserts := rfl
      rows := fun _ h _ => h }
  commits _ h := h
  lock_owner lock hlock := by
    simp only [List.mem_append, List.mem_singleton] at hlock
    rcases hlock with hlock | rfl
    · exact Or.inl hlock
    · exact Or.inr rfl
  insert_owner _ h := Or.inl h

theorem Step.insert {P : Platform} {pid : ℕ} {w : World} {row : Session} (h : Ledger P w) :
    Step P pid w { w with sessionInserts := w.sessionInserts ++ [(row, pid)] } where
  ledger := { h with }
  rely k hk :=
    { commits := fun _ h => h
      issued := fun _ h => h
      fresh := fun _ h => Or.inl h
      locks := fun _ => Iff.rfl
      inserts := by simp [Auth.ownInserts, hk.symm]
      rows := fun _ h _ => h }
  commits _ h := h
  lock_owner _ h := Or.inl h
  insert_owner entry hentry := by
    simp only [List.mem_append, List.mem_singleton] at hentry
    rcases hentry with hentry | rfl
    · exact Or.inl hentry
    · exact Or.inr rfl

theorem ownInserts_discardWork {pid k : ℕ} (hk : k ≠ pid) (w : World) :
    Auth.ownInserts k (Auth.discardWork pid w) = Auth.ownInserts k w := by
  simp only [Auth.ownInserts, Auth.discardWork, List.filter_filter]
  congr 1
  apply List.filter_congr
  intro entry _
  by_cases hentry : entry.2 = k <;> simp [hentry, hk]

/-- Rolling back, or the end of a crashed connection. -/
theorem Step.discard {P : Platform} {pid : ℕ} {w : World} (h : Ledger P w) :
    Step P pid w (Auth.discardWork pid w) where
  ledger :=
    { h with
      locks_exclusive := by
        intro u i j hi hj
        exact h.locks_exclusive u i j (List.mem_filter.mp hi).1 (List.mem_filter.mp hj).1 }
  rely k hk :=
    { commits := fun _ h => h
      issued := fun _ h => h
      fresh := fun _ h => Or.inl h
      locks := by simp [Auth.discardWork, hk]
      inserts := ownInserts_discardWork hk w
      rows := fun _ h _ => h }
  commits _ h := h
  lock_owner _ h := Or.inl (List.mem_filter.mp h).1
  insert_owner _ h := Or.inl (List.mem_filter.mp h).1

/-- A token that no drawn UUID went into is not produced yet. -/
theorem Ledger.not_produced {P : Platform} (sound : P.Sound) {w : World} (h : Ledger P w)
    {claims : Claims} (hfresh : ∀ entry ∈ w.issued, entry.1 ≠ claims.jti) :
    tokenHash P claims ∉ produced w := by
  intro hmem
  rcases h.produced_issued _ hmem with ⟨claims', pid, hhash, hissued⟩
  rw [sound.tokenHash_injective hhash] at hfresh
  exact hfresh _ hissued rfl

/-- The tokens of a process stay unproduced while the others move. -/
theorem Rely.not_produced {P : Platform} (sound : P.Sound) {pid : ℕ} {w w' : World}
    (hrely : Rely P pid w w') (hledger : Ledger P w') {claims : Claims}
    (hissued : (claims.jti, pid) ∈ w.issued) (h : tokenHash P claims ∉ produced w) :
    tokenHash P claims ∉ produced w' := by
  intro hmem
  rcases hrely.fresh _ hmem with hold | ⟨claims', j, hhash, hother, hj⟩
  · exact h hold
  · rw [← sound.tokenHash_injective hhash] at hother
    exact hj (hledger.issued_functional _ _ _ hother (hrely.issued _ hissued))

theorem foldlM_insertRow_rows {rows : List Session} {t t' : Table Session.id}
    (h : rows.foldlM insertRow t = .ok t') : t'.rows = t.rows ++ rows := by
  induction rows generalizing t with
  | nil =>
    cases h
    simp
  | cons row rest ih =>
    rw [List.foldlM_cons] at h
    rcases FileCrypto.bind_eq_ok.mp h with ⟨mid, hmid, hrest⟩
    rw [ih hrest, (Table.insert_eq_some (insertRow_ok hmid)).2, List.append_assoc]
    rfl

/-- What a token that is about to be handed out must be. -/
def Handout (P : Platform) (pid : ℕ) (w : World) (hash : String) : Prop :=
  hash ∉ produced w ∧ ∃ claims, hash = tokenHash P claims ∧ (claims.jti, pid) ∈ w.issued

theorem Ledger.produced_append {P : Platform} {pid : ℕ} {w w' : World} {label : Label}
    (h : Ledger P w) (hout : ∀ hash, produces label = some hash → Handout P pid w hash)
    (hcommits : w'.commits = w.commits ++ [(pid, label)]) (hissued : w'.issued = w.issued) :
    produced w' = produced w ++ (produces label).toList ∧ (produced w').Nodup ∧
      ∀ hash ∈ produced w',
        ∃ claims j, hash = tokenHash P claims ∧ (claims.jti, j) ∈ w'.issued := by
  have hproduced : produced w' = produced w ++ (produces label).toList := by
    rw [produced, hcommits, List.filterMap_append]
    cases hp : produces label <;> simp [hp, produced]
  refine ⟨hproduced, ?_, ?_⟩
  · rw [hproduced]
    cases hp : produces label with
    | none => simpa using h.produced_nodup
    | some hash =>
      apply List.nodup_append.mpr
      refine ⟨h.produced_nodup, by simp, ?_⟩
      rintro a ha b hb rfl
      rw [Option.toList_some, List.mem_singleton] at hb
      exact (hout hash hp).1 (hb ▸ ha)
  · intro hash hmem
    rw [hproduced, List.mem_append] at hmem
    rw [hissued]
    rcases hmem with hmem | hmem
    · exact h.produced_issued hash hmem
    · rw [Option.mem_toList] at hmem
      rcases (hout hash hmem).2 with ⟨claims, hhash, hclaims⟩
      exact ⟨claims, pid, hhash, hclaims⟩

theorem Rely.fresh_append {P : Platform} {pid k : ℕ} {w w' : World} {label : Label} (hk : k ≠ pid)
    (hout : ∀ hash, produces label = some hash → Handout P pid w hash)
    (hproduced : produced w' = produced w ++ (produces label).toList)
    (hissued : w'.issued = w.issued) :
    ∀ hash ∈ produced w', hash ∈ produced w ∨
      ∃ claims j, hash = tokenHash P claims ∧ (claims.jti, j) ∈ w'.issued ∧ j ≠ k := by
  intro hash hmem
  rw [hproduced, List.mem_append] at hmem
  rcases hmem with hmem | hmem
  · exact Or.inl hmem
  · rw [Option.mem_toList] at hmem
    rcases (hout hash hmem).2 with ⟨claims, hhash, hclaims⟩
    exact Or.inr ⟨claims, pid, hhash, hissued ▸ hclaims, hk.symm⟩

/-- A login commits one new row. -/
theorem Step.login {P : Platform} {pid : ℕ} {w : World} {hash : String} {db : Database}
    {row : Session} (h : Ledger P w) (hout : Handout P pid w hash)
    (hrows : db.sessions.rows = w.db.sessions.rows ++ [row])
    (hhash : row.refreshTokenHash = hash) : Step P pid w (w.commit pid (.login hash) db) := by
  have houts : ∀ newHash, produces (.login hash) = some newHash → Handout P pid w newHash := by
    intro newHash hnew
    cases hnew
    exact hout
  have happend := h.produced_append houts
    (rfl : (w.commit pid (.login hash) db).commits = _) rfl
  have hconsumed : consumed (w.commit pid (.login hash) db) = consumed w := by
    simp [consumed, consumes]
  have hlive : live (w.commit pid (.login hash) db) = live w ++ [hash] := by
    simp [live, hrows, hhash]
  constructor
  · constructor
    · exact h.issued_functional
    · rw [hconsumed]
      exact h.consumed_nodup
    · exact happend.2.1
    · rw [hlive]
      apply List.nodup_append.mpr
      refine ⟨h.live_nodup, by simp, ?_⟩
      rintro a ha b hb rfl
      rw [List.mem_singleton] at hb
      exact hout.1 (hb ▸ h.live_produced a ha)
    · intro a ha
      rw [hlive, List.mem_append, List.mem_singleton] at ha
      rw [happend.1, List.mem_append]
      rcases ha with ha | rfl
      · exact Or.inl (h.live_produced a ha)
      · exact Or.inr (by simp [produces])
    · intro a ha
      rw [hconsumed] at ha
      rw [happend.1]
      exact List.mem_append_left _ (h.consumed_produced a ha)
    · intro a ha
      rw [hconsumed] at ha
      rw [hlive, List.mem_append, List.mem_singleton, not_or]
      refine ⟨h.consumed_gone a ha, ?_⟩
      rintro rfl
      exact hout.1 (h.consumed_produced a ha)
    · exact happend.2.2
    · exact h.locks_exclusive
  · intro k hk
    constructor
    · intro entry hentry
      exact List.mem_append_left _ hentry
    · exact fun _ h => h
    · exact Rely.fresh_append hk houts happend.1 rfl
    · exact fun _ => Iff.rfl
    · rfl
    · intro s hs _
      rw [World.commit_db, hrows]
      exact List.mem_append_left _ hs
  · intro entry hentry
    exact List.mem_append_left _ hentry
  · exact fun _ h => Or.inl h
  · exact fun _ h => Or.inl h

/-- A refresh or a logout commits while it holds the row of the token that it consumes. -/
theorem Step.consume {P : Platform} {pid : ℕ} {w : World} {label : Label} {hash : String}
    {sessions : Table Session.id} {row : Session} {added : List Session} (h : Ledger P w)
    (hconsumes : consumes label = some hash) (hrow : row ∈ w.db.sessions.rows)
    (hhash : row.refreshTokenHash = hash) (hlock : (row.id, pid) ∈ w.sessionLocks)
    (hrows : sessions.rows = (w.db.sessions.rows.filter fun s =>
      !w.sessionLocks.any fun lock => lock.1 = s.id ∧ lock.2 = pid) ++ added)
    (hadded : added.map Session.refreshTokenHash = (produces label).toList)
    (hout : ∀ newHash, produces label = some newHash → Handout P pid w newHash) :
    Step P pid w (Auth.discardWork pid (w.commit pid label { w.db with sessions := sessions })) := by
  let w' := Auth.discardWork pid (w.commit pid label { w.db with sessions := sessions })
  have happend := h.produced_append hout (rfl : w'.commits = _) rfl
  have hconsumed : consumed w' = consumed w ++ [hash] := by
    simp [w', consumed, Auth.discardWork, hconsumes]
  have hlive : ∀ a ∈ live w', (a ∈ live w ∧ a ≠ hash) ∨ a ∈ (produces label).toList := by
    intro a ha
    rw [live, show w'.db.sessions = sessions from rfl, hrows, List.map_append, hadded,
      List.mem_append] at ha
    rcases ha with ha | ha
    · left
      rcases List.mem_map.mp ha with ⟨s, hs, rfl⟩
      rw [List.mem_filter] at hs
      refine ⟨List.mem_map_of_mem hs.1, ?_⟩
      intro heq
      -- the row of the consumed token is the locked one
      have hsame : s = row := List.inj_on_of_nodup_map h.live_nodup hs.1 hrow (heq.trans hhash.symm)
      have hlocked : (w.sessionLocks.any fun lock => lock.1 = s.id ∧ lock.2 = pid) = true :=
        List.any_eq_true.mpr ⟨_, hlock, by simp [hsame]⟩
      rw [hlocked] at hs
      exact absurd hs.2 (by decide)
    · exact Or.inr ha
  have hlivehash : hash ∈ live w := List.mem_map.mpr ⟨row, hrow, hhash⟩
  constructor
  · constructor
    · exact h.issued_functional
    · rw [hconsumed]
      apply List.nodup_append.mpr
      refine ⟨h.consumed_nodup, by simp, ?_⟩
      rintro a ha b hb rfl
      rw [List.mem_singleton] at hb
      exact h.consumed_gone a ha (hb ▸ hlivehash)
    · exact happend.2.1
    · rw [live, show w'.db.sessions = sessions from rfl, hrows, List.map_append, hadded]
      apply List.nodup_append.mpr
      refine ⟨h.live_nodup.sublist (List.filter_sublist.map _), ?_, ?_⟩
      · cases produces label <;> simp
      · rintro a ha b hb rfl
        rw [Option.mem_toList] at hb
        rcases List.mem_map.mp ha with ⟨s, hs, hsa⟩
        have hmem : a ∈ live w := List.mem_map.mpr ⟨s, (List.mem_filter.mp hs).1, hsa⟩
        exact (hout a hb).1 (h.live_produced a hmem)
    · intro a ha
      rw [happend.1, List.mem_append]
      rcases hlive a ha with ⟨hold, _⟩ | hnew
      · exact Or.inl (h.live_produced a hold)
      · exact Or.inr hnew
    · intro a ha
      rw [hconsumed, List.mem_append, List.mem_singleton] at ha
      rw [happend.1, List.mem_append]
      rcases ha with ha | rfl
      · exact Or.inl (h.consumed_produced a ha)
      · exact Or.inl (h.live_produced a hlivehash)
    · intro a ha hmem
      rw [hconsumed, List.mem_append, List.mem_singleton] at ha
      have hproduced : a ∈ produced w := by
        rcases ha with ha | rfl
        · exact h.consumed_produced a ha
        · exact h.live_produced a hlivehash
      rcases hlive a hmem with ⟨hold, hne⟩ | hnew
      · rcases ha with ha | ha
        · exact h.consumed_gone a ha hold
        · exact hne ha
      · exact (hout a (Option.mem_toList.mp hnew)).1 hproduced
    · exact happend.2.2
    · intro u i j hi hj
      exact h.locks_exclusive u i j (List.mem_filter.mp hi).1 (List.mem_filter.mp hj).1
  · intro k hk
    constructor
    · intro entry hentry
      exact List.mem_append_left _ hentry
    · exact fun _ h => h
    · exact Rely.fresh_append hk hout happend.1 rfl
    · simp [Auth.discardWork, hk]
    · exact ownInserts_discardWork hk _
    · intro s hs hkeep
      change s ∈ sessions.rows
      rw [hrows]
      apply List.mem_append_left
      rw [List.mem_filter]
      refine ⟨hs, ?_⟩
      rw [Bool.not_eq_true', List.any_eq_false]
      rintro lock hmem hlocked
      simp only [decide_eq_true_eq] at hlocked
      have hmine : (s.id, pid) ∈ w.sessionLocks := by
        rw [← hlocked.1, ← hlocked.2]
        exact hmem
      exact hk (h.locks_exclusive _ _ _ hkeep hmine)
  · intro entry hentry
    exact List.mem_append_left _ hentry
  · intro lock hlock'
    exact Or.inl (List.mem_filter.mp hlock').1
  · intro entry hentry
    exact Or.inl (List.mem_filter.mp hentry).1

end PhantomShare.Sessions
