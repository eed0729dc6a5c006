import PhantomShare.Sessions.Ledger

/-!
# Which sessions ever had a token

The register holds in every run, also where two refreshes consume one token: a
session has one refresh token at most, ever, and a consumed token has no row. A
transaction that consumes a token has locked whatever row the token has left.
-/
namespace PhantomShare.Sessions
open Foundations

/-- The hash of a refresh token of the session. -/
def TokenOf (P : Platform) (sessionId : UUID) (hash : String) : Prop :=
  ∃ userId jti issuedAt, hash = tokenHash P (Security.refreshClaims P userId sessionId jti issuedAt)

theorem TokenOf.unique {P : Platform} (telling : P.Telling) {id id' : UUID} {hash : String}
    (h : TokenOf P id hash) (h' : TokenOf P id' hash) : id = id' := by
  rcases h with ⟨userId, jti, issuedAt, rfl⟩
  rcases h' with ⟨userId', jti', issuedAt', heq⟩
  have htext : some (P.uuidText id) = some (P.uuidText id') := telling.sid_of_hash _ _ heq
  have hparse := congrArg P.parseUuid (Option.some.inj htext)
  rw [telling.parseUuid_text, telling.parseUuid_text] at hparse
  exact Option.some.inj hparse

structure Register (P : Platform) (w : World) : Prop where
  issued_functional : ∀ id i j, (id, i) ∈ w.issued → (id, j) ∈ w.issued → i = j
  produced_issued : ∀ hash ∈ produced w, ∃ id pid, TokenOf P id hash ∧ (id, pid) ∈ w.issued
  produced_unique : ∀ id, ∀ hash ∈ produced w, ∀ hash' ∈ produced w,
    TokenOf P id hash → TokenOf P id hash' → hash = hash'
  live_produced : ∀ row ∈ w.db.sessions.rows, row.refreshTokenHash ∈ produced w
  live_own : ∀ row ∈ w.db.sessions.rows, TokenOf P row.id row.refreshTokenHash
  consumed_produced : ∀ hash ∈ consumed w, hash ∈ produced w
  consumed_gone : ∀ row ∈ w.db.sessions.rows, row.refreshTokenHash ∉ consumed w

/-- What process `pid` knows of the transitions of the others. -/
structure Undisturbed (P : Platform) (pid : ℕ) (w w' : World) : Prop where
  commits : w.commits ⊆ w'.commits
  issued : w.issued ⊆ w'.issued
  fresh : ∀ hash ∈ produced w', hash ∈ produced w ∨
    ∃ id j, TokenOf P id hash ∧ (id, j) ∈ w'.issued ∧ j ≠ pid
  locks : ∀ id, (id, pid) ∈ w.sessionLocks → (id, pid) ∈ w'.sessionLocks
  inserts : Auth.ownInserts pid w' = Auth.ownInserts pid w
  rows : ∀ row ∈ w'.db.sessions.rows, row.refreshTokenHash ∈ produced w → row ∈ w.db.sessions.rows

theorem produced_mono {w w' : World} (h : w.commits ⊆ w'.commits) : produced w ⊆ produced w' := by
  intro hash hmem
  rcases List.mem_filterMap.mp hmem with ⟨entry, hentry, hproduces⟩
  exact List.mem_filterMap.mpr ⟨entry, h hentry, hproduces⟩

theorem consumed_mono {w w' : World} (h : w.commits ⊆ w'.commits) : consumed w ⊆ consumed w' := by
  intro hash hmem
  rcases List.mem_filterMap.mp hmem with ⟨entry, hentry, hconsumes⟩
  exact List.mem_filterMap.mpr ⟨entry, h hentry, hconsumes⟩

theorem Undisturbed.refl (P : Platform) (pid : ℕ) (w : World) : Undisturbed P pid w w where
  commits := List.Subset.refl _
  issued := List.Subset.refl _
  fresh _ h := Or.inl h
  locks _ h := h
  inserts := rfl
  rows _ h _ := h

theorem Undisturbed.trans {P : Platform} {pid : ℕ} {a b c : World} (hab : Undisturbed P pid a b)
    (hbc : Undisturbed P pid b c) : Undisturbed P pid a c where
  commits := List.Subset.trans hab.commits hbc.commits
  issued := List.Subset.trans hab.issued hbc.issued
  fresh hash h := by
    rcases hbc.fresh hash h with h | h
    · rcases hab.fresh hash h with h | ⟨id, j, htoken, hissued, hj⟩
      · exact Or.inl h
      · exact Or.inr ⟨id, j, htoken, hbc.issued hissued, hj⟩
    · exact Or.inr h
  locks id h := hbc.locks id (hab.locks id h)
  inserts := hbc.inserts.trans hab.inserts
  rows row hrow hproduced :=
    hab.rows row (hbc.rows row hrow (produced_mono hab.commits hproduced)) hproduced

/-- A legal transition of process `pid`. -/
structure Turn (P : Platform) (pid : ℕ) (w w' : World) : Prop where
  register : Register P w'
  others : ∀ k, k ≠ pid → Undisturbed P k w w'
  insert_owner : ∀ entry ∈ w'.sessionInserts, entry ∈ w.sessionInserts ∨ entry.2 = pid

/-- A step that at most deletes sessions or draws a UUID. -/
structure Prunes (pid : ℕ) (_label : Label) (w w' : World) : Prop where
  commits : w.commits ⊆ w'.commits
  consumed : consumed w' = consumed w
  produced : produced w' = produced w
  issued : w'.issued = w.issued ∨
    ∃ id, (∀ entry ∈ w.issued, entry.1 ≠ id) ∧ w'.issued = w.issued ++ [(id, pid)]
  sessionLocks : w'.sessionLocks = w.sessionLocks
  sessionInserts : w'.sessionInserts = w.sessionInserts
  rows : w'.db.sessions.rows ⊆ w.db.sessions.rows

theorem Prunes.issued_subset {pid : ℕ} {label : Label} {w w' : World} (h : Prunes pid label w w') :
    w.issued ⊆ w'.issued := by
  rcases h.issued with hsame | ⟨id, _, hissued⟩
  · rw [hsame]
    exact List.Subset.refl _
  · rw [hissued]
    exact List.subset_append_left _ _

theorem Turn.prune {P : Platform} {pid : ℕ} {label : Label} {w w' : World} (h : Register P w)
    (hstep : Prunes pid label w w') : Turn P pid w w' where
  register :=
    { issued_functional := by
        rcases hstep.issued with hsame | ⟨id, hfresh, hissued⟩
        · rw [hsame]
          exact h.issued_functional
        · intro u i j hi hj
          simp only [hissued, List.mem_append, List.mem_singleton, Prod.mk.injEq] at hi hj
          rcases hi with hi | ⟨rfl, rfl⟩ <;> rcases hj with hj | ⟨hu, rfl⟩
          · exact h.issued_functional u i j hi hj
          · exact absurd hu (hfresh _ hi)
          · exact absurd rfl (hfresh _ hj)
          · rfl
      produced_issued := by
        rw [hstep.produced]
        intro hash hmem
        rcases h.produced_issued hash hmem with ⟨id, j, htoken, hissued⟩
        exact ⟨id, j, htoken, hstep.issued_subset hissued⟩
      produced_unique := by
        rw [hstep.produced]
        exact h.produced_unique
      live_produced := by
        rw [hstep.produced]
        exact fun row hrow => h.live_produced row (hstep.rows hrow)
      live_own := fun row hrow => h.live_own row (hstep.rows hrow)
      consumed_produced := by
        rw [hstep.consumed, hstep.produced]
        exact h.consumed_produced
      consumed_gone := by
        rw [hstep.consumed]
        exact fun row hrow => h.consumed_gone row (hstep.rows hrow) }
  others k _ :=
    { commits := hstep.commits
      issued := hstep.issued_subset
      fresh := by
        rw [hstep.produced]
        exact fun hash hmem => Or.inl hmem
      locks := by
        rw [hstep.sessionLocks]
        exact fun _ hlock => hlock
      inserts := by rw [Auth.ownInserts, hstep.sessionInserts, Auth.ownInserts]
      rows := fun row hrow _ => hstep.rows hrow }
  insert_owner := by
    rw [hstep.sessionInserts]
    exact fun _ hentry => Or.inl hentry

/-- Only the open transactions change. -/
theorem Register.of_eq {P : Platform} {w w' : World} (h : Register P w)
    (hdb : w'.db = w.db) (hissued : w'.issued = w.issued) (hcommits : w'.commits = w.commits) :
    Register P w' := by
  have hconsumed : consumed w' = consumed w := by rw [consumed, hcommits, consumed]
  have hproduced : produced w' = produced w := by rw [produced, hcommits, produced]
  constructor
  · rw [hissued]
    exact h.issued_functional
  · rw [hproduced, hissued]
    exact h.produced_issued
  · rw [hproduced]
    exact h.produced_unique
  · rw [hdb, hproduced]
    exact h.live_produced
  · rw [hdb]
    exact h.live_own
  · rw [hconsumed, hproduced]
    exact h.consumed_produced
  · rw [hdb, hconsumed]
    exact h.consumed_gone

theorem Turn.lock {P : Platform} {pid : ℕ} {w : World} (h : Register P w) (id : UUID) :
    Turn P pid w { w with sessionLocks := w.sessionLocks ++ [(id, pid)] } where
  register := h.of_eq rfl rfl rfl
  others k _ :=
    { Undisturbed.refl P k w with
      locks := fun _ hlock => List.mem_append_left _ hlock }
  insert_owner _ hentry := Or.inl hentry

theorem Turn.insert {P : Platform} {pid : ℕ} {w : World} (h : Register P w) (row : Session) :
    Turn P pid w { w with sessionInserts := w.sessionInserts ++ [(row, pid)] } where
  register := h.of_eq rfl rfl rfl
  others k hk :=
    { Undisturbed.refl P k w with
      inserts := by simp [Auth.ownInserts, hk.symm] }
  insert_owner entry hentry := by
    simp only [List.mem_append, List.mem_singleton] at hentry
    rcases hentry with hentry | rfl
    · exact Or.inl hentry
    · exact Or.inr rfl

theorem Turn.discard {P : Platform} {pid : ℕ} {w : World} (h : Register P w) :
    Turn P pid w (Auth.discardWork pid w) where
  register := h.of_eq rfl rfl rfl
  others k hk :=
    { Undisturbed.refl P k w with
      locks := by simp [Auth.discardWork, hk]
      inserts := ownInserts_discardWork hk w }
  insert_owner _ hentry := Or.inl (List.mem_filter.mp hentry).1

/-- A session id that process `pid` drew and that no token was handed out for. -/
structure Unused (P : Platform) (pid : ℕ) (id : UUID) (w : World) : Prop where
  issued : (id, pid) ∈ w.issued
  unused : ∀ hash ∈ produced w, ¬ TokenOf P id hash

theorem Unused.issue {P : Platform} (telling : P.Telling) {pid : ℕ} {id : UUID} {w : World}
    (h : Register P w) (hfresh : ∀ entry ∈ w.issued, entry.1 ≠ id) :
    Unused P pid id (w.issue id pid) where
  issued := by simp
  unused hash hmem htoken := by
    rcases h.produced_issued hash hmem with ⟨id', j, htoken', hissued⟩
    rw [htoken.unique telling htoken'] at hfresh
    exact hfresh _ hissued rfl

theorem Unused.env {P : Platform} (telling : P.Telling) {pid : ℕ} {id : UUID} {w w' : World}
    (h : Unused P pid id w) (hregister : Register P w') (hothers : Undisturbed P pid w w') :
    Unused P pid id w' where
  issued := hothers.issued h.issued
  unused hash hmem htoken := by
    rcases hothers.fresh hash hmem with hold | ⟨id', j, htoken', hissued, hj⟩
    · exact h.unused hash hold htoken
    · rw [← htoken.unique telling htoken'] at hissued
      exact hj (hregister.issued_functional _ _ _ hissued (hothers.issued h.issued))

/-- The token was handed out, and process `pid` has locked every row that it still has. -/
structure Covered (pid : ℕ) (hash : String) (w : World) : Prop where
  produced : hash ∈ produced w
  locked : ∀ row ∈ w.db.sessions.rows, row.refreshTokenHash = hash → (row.id, pid) ∈ w.sessionLocks

theorem Covered.env {P : Platform} {pid : ℕ} {hash : String} {w w' : World} (h : Covered pid hash w)
    (hothers : Undisturbed P pid w w') : Covered pid hash w' where
  produced := produced_mono hothers.commits h.produced
  locked row hrow hhash :=
    hothers.locks _ (h.locked row (hothers.rows row hrow (hhash ▸ h.produced)) hhash)

/-- What a transaction that is about to commit hands out is the token of an unused session. -/
def Fresh (P : Platform) (pid : ℕ) (label : Label) (w : World) : Prop :=
  ∀ hash, produces label = some hash → ∃ id, TokenOf P id hash ∧ Unused P pid id w

theorem produced_commit {w w' : World} {pid : ℕ} {label : Label}
    (h : w'.commits = w.commits ++ [(pid, label)]) {hash : String} :
    hash ∈ produced w' ↔ hash ∈ produced w ∨ produces label = some hash := by
  rw [produced, h, List.filterMap_append, List.mem_append]
  cases hp : produces label <;> simp [produced, hp, eq_comm]

theorem consumed_commit {w w' : World} {pid : ℕ} {label : Label}
    (h : w'.commits = w.commits ++ [(pid, label)]) {hash : String} :
    hash ∈ consumed w' ↔ hash ∈ consumed w ∨ consumes label = some hash := by
  rw [consumed, h, List.filterMap_append, List.mem_append]
  cases hc : consumes label <;> simp [consumed, hc, eq_comm]

/-- A commit keeps rows of other tokens than the one it consumes, and adds the row of a token of an
unused session. -/
theorem Turn.commit {P : Platform} (telling : P.Telling) {pid : ℕ} {label : Label} {w w' : World} (h : Register P w)
    (hcommits : w'.commits = w.commits ++ [(pid, label)]) (hissued : w'.issued = w.issued)
    (hlocks : ∀ k, k ≠ pid → ∀ id, (id, k) ∈ w.sessionLocks → (id, k) ∈ w'.sessionLocks)
    (hinserts : ∀ k, k ≠ pid → Auth.ownInserts k w' = Auth.ownInserts k w)
    (howner : w'.sessionInserts ⊆ w.sessionInserts) (hfresh : Fresh P pid label w)
    (hconsumes : ∀ hash, consumes label = some hash → hash ∈ produced w)
    (hrows : ∀ row ∈ w'.db.sessions.rows,
      (row ∈ w.db.sessions.rows ∧ consumes label ≠ some row.refreshTokenHash) ∨
        produces label = some row.refreshTokenHash ∧ TokenOf P row.id row.refreshTokenHash) :
    Turn P pid w w' where
  register :=
    { issued_functional := by
        rw [hissued]
        exact h.issued_functional
      produced_issued := by
        intro hash hmem
        rw [hissued]
        rcases (produced_commit hcommits).mp hmem with hold | hnew
        · exact h.produced_issued hash hold
        · rcases hfresh hash hnew with ⟨id, htoken, hunused⟩
          exact ⟨id, pid, htoken, hunused.issued⟩
      produced_unique := by
        -- two tokens of one session: neither can be the one that is handed out now
        have hnone : ∀ id hash hash', produces label = some hash' → hash ∈ produced w →
            TokenOf P id hash → TokenOf P id hash' → False := by
          intro id hash hash' hnew hold htoken htoken'
          rcases hfresh hash' hnew with ⟨id', hid', hunused⟩
          rw [htoken'.unique telling hid'] at htoken
          exact hunused.unused hash hold htoken
        intro id hash hmem hash' hmem' htoken htoken'
        rcases (produced_commit hcommits).mp hmem with hold | hnew <;>
          rcases (produced_commit hcommits).mp hmem' with hold' | hnew'
        · exact h.produced_unique id hash hold hash' hold' htoken htoken'
        · exact (hnone id hash hash' hnew' hold htoken htoken').elim
        · exact (hnone id hash' hash hnew hold' htoken' htoken).elim
        · exact Option.some.inj (hnew.symm.trans hnew')
      live_produced := by
        intro row hrow
        rw [produced_commit hcommits]
        rcases hrows row hrow with ⟨hold, _⟩ | ⟨hnew, _⟩
        · exact Or.inl (h.live_produced row hold)
        · exact Or.inr hnew
      live_own := by
        intro row hrow
        rcases hrows row hrow with ⟨hold, _⟩ | ⟨_, htoken⟩
        · exact h.live_own row hold
        · exact htoken
      consumed_produced := by
        intro hash hmem
        rw [produced_commit hcommits]
        rcases (consumed_commit hcommits).mp hmem with hold | hnew
        · exact Or.inl (h.consumed_produced hash hold)
        · exact Or.inl (hconsumes hash hnew)
      consumed_gone := by
        intro row hrow hmem
        rcases hrows row hrow with ⟨hold, hkept⟩ | ⟨hnew, _⟩
        · rcases (consumed_commit hcommits).mp hmem with hbefore | hnow
          · exact h.consumed_gone row hold hbefore
          · exact hkept hnow
        · -- the token that is handed out was neither consumed nor produced before
          rcases hfresh _ hnew with ⟨id, htoken, hunused⟩
          rcases (consumed_commit hcommits).mp hmem with hbefore | hnow
          · exact hunused.unused _ (h.consumed_produced _ hbefore) htoken
          · exact hunused.unused _ (hconsumes _ hnow) htoken }
  others k hk :=
    { commits := by
        rw [hcommits]
        exact List.subset_append_left _ _
      issued := by
        rw [hissued]
        exact List.Subset.refl _
      fresh := by
        intro hash hmem
        rw [hissued]
        rcases (produced_commit hcommits).mp hmem with hold | hnew
        · exact Or.inl hold
        · rcases hfresh hash hnew with ⟨id, htoken, hunused⟩
          exact Or.inr ⟨id, pid, htoken, hunused.issued, hk.symm⟩
      locks := hlocks k hk
      inserts := hinserts k hk
      rows := by
        intro row hrow hproduced
        rcases hrows row hrow with ⟨hold, _⟩ | ⟨hnew, _⟩
        · exact hold
        · rcases hfresh _ hnew with ⟨id, htoken, hunused⟩
          exact (hunused.unused _ hproduced htoken).elim }
  insert_owner entry hentry := Or.inl (howner hentry)

end PhantomShare.Sessions
