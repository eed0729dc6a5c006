import PhantomShare.Operations

/-!
# An audit entry that is accepted or refused

Two runs of one handler that differ in the fate of its audit entry. They agree
when they give the same response and leave the same tables outside the audit
log. The rules follow the structure of a block, and of the handler around it, to
the point where the entry is written.
-/
namespace PhantomShare.AuditService
open Foundations

/-- The row of an entry; an address that is none is left out. -/
def Entry.row (entry : Entry) (now : Timestamp) : AuditLog where
  action := entry.action
  actorId := entry.actorId
  actorIp := entry.actorIp.bind inet
  severity := .info
  secretId := entry.secretId
  metadata := entry.payload now
  createdAt := now

/-- The `INSERT` succeeds. -/
def accepted : Logger := fun entry now =>
  Tx.quietly (Tx.write fun db => .ok { db with auditLogs := db.auditLogs ++ [entry.row now] })

/-- The `INSERT` fails. -/
def refused : Logger := fun _ _ =>
  Tx.quietly (Tx.write fun _ => .error (.sql .invalidTextRepresentation))

theorem insert_ok {entry : Entry} {now : Timestamp} {db db' : Database}
    (h : entry.insert now db = .ok db') :
    db' = { db with auditLogs := db.auditLogs ++ [entry.row now] } := by
  rcases FileCrypto.bind_eq_ok.mp h with ⟨_, _, h⟩
  rcases FileCrypto.bind_eq_ok.mp h with ⟨ip, hip, h⟩
  rcases FileCrypto.bind_eq_ok.mp h with ⟨_, _, h⟩
  rcases FileCrypto.bind_eq_ok.mp h with ⟨_, _, h⟩
  have hrow : ip = entry.actorIp.bind inet := by
    cases hactor : entry.actorIp with
    | none =>
      rw [hactor] at hip
      exact (Except.ok.inj hip).symm
    | some text =>
      rw [hactor, castInet] at hip
      cases hinet : inet text with
      | none =>
        rw [hinet] at hip
        cases hip
      | some address =>
        rw [hinet] at hip
        exact (Except.ok.inj hip).symm.trans hinet.symm
  cases h
  rw [Entry.row, ← hrow]

/-- Whatever the entry and the state, `log` does one of the two. -/
theorem logWith_cases (entry : Entry) (now : Timestamp) (c : Connection Database) :
    logWith entry now c = accepted entry now c ∨ logWith entry now c = refused entry now c := by
  rcases c with ⟨db, failed⟩
  cases failed with
  | true => exact Or.inl rfl
  | false =>
    simp only [logWith, accepted, refused, Tx.quietly_write_live]
    cases hinsert : entry.insert now db with
    | error error => exact Or.inr rfl
    | ok db' =>
      left
      rw [insert_ok hinsert]

end PhantomShare.AuditService

namespace PhantomShare.Audit
open Foundations

/-- The tables outside the audit log. -/
def outside (db : Database) : Database := { db with auditLogs := [] }

/-! ### Blocks -/

section Blocks
variable {α β : Type} {start db db' : Database} {noted : Bool}

/-- `x` is a block whose entry is accepted, `y` the same one with its entry refused, and `noted` tells
whether they get to the entry. If so, only `x` commits, and more than its entry. -/
structure Settles (x y : Tx Database Exn α) (start db : Database) (noted : Bool) : Prop where
  same : noted = false → x ⟨db, false⟩ = y ⟨db, false⟩ ∧ ∃ error c, x ⟨db, false⟩ = (.error error, c)
  commits : noted = true → ∃ value db', x ⟨db, false⟩ = (.ok value, ⟨db', false⟩) ∧
    outside db' ≠ outside start
  aborts : noted = true → ∀ value c, y ⟨db, false⟩ = (.ok value, c) → c.failed = true

namespace Settles

theorem of_eq {x y : Tx Database Exn α} {noted' : Bool} (h : Settles x y start db noted')
    (heq : noted = noted') : Settles x y start db noted := heq ▸ h

theorem throw (error : Exn) :
    Settles (throw error : Tx Database Exn α) (throw error) start db false where
  same _ := ⟨rfl, error, _, rfl⟩
  commits h := by cases h
  aborts h := by cases h

/-- What comes before the entry succeeds. -/
theorem bind {x : Tx Database Exn α} {value : α} {f g : α → Tx Database Exn β}
    (hx : x ⟨db, false⟩ = (.ok value, ⟨db', false⟩)) (h : Settles (f value) (g value) start db' noted) :
    Settles (x >>= f) (x >>= g) start db noted := by
  have hf : (x >>= f) ⟨db, false⟩ = f value ⟨db', false⟩ := by rw [Tx.bind_apply, hx]
  have hg : (x >>= g) ⟨db, false⟩ = g value ⟨db', false⟩ := by rw [Tx.bind_apply, hx]
  constructor
  · rw [hf, hg]
    exact h.same
  · rw [hf]
    exact h.commits
  · rw [hg]
    exact h.aborts

/-- What comes before the entry raises. -/
theorem raise {x : Tx Database Exn α} {error : Exn} {c : Connection Database}
    {f g : α → Tx Database Exn β} (hx : x ⟨db, false⟩ = (.error error, c)) :
    Settles (x >>= f) (x >>= g) start db false where
  same _ := by
    rw [Tx.bind_apply, Tx.bind_apply, hx]
    exact ⟨rfl, error, c, rfl⟩
  commits h := by cases h
  aborts h := by cases h

theorem select {q : Database → α} {f g : α → Tx Database Exn β}
    (h : Settles (f (q db)) (g (q db)) start db noted) :
    Settles (Tx.select q >>= f) (Tx.select q >>= g) start db noted := bind rfl h

theorem raiseIf {bad : Bool} {error : Exn} {f g : Unit → Tx Database Exn β}
    (h : bad = false → Settles (f ()) (g ()) start db noted) :
    Settles (Tx.raiseIf bad error >>= f) (Tx.raiseIf bad error >>= g) start db (!bad && noted) := by
  cases bad with
  | true => exact raise rfl
  | false => exact bind rfl (h rfl)

theorem ofExcept {result : Except Exn α} {f g : α → Tx Database Exn β} {noted : α → Bool}
    (h : ∀ value, result = .ok value → Settles (f value) (g value) start db (noted value)) :
    Settles (Tx.ofExcept result >>= f) (Tx.ofExcept result >>= g) start db
      (result.toOption.any noted) := by
  cases result with
  | error error => exact raise rfl
  | ok value => exact bind rfl (h value rfl)

theorem execute {statement : Database → Except Exn (α × Database)} {f g : α → Tx Database Exn β}
    {noted : α → Database → Bool}
    (h : ∀ value db', statement db = .ok (value, db') →
      Settles (f value) (g value) start db' (noted value db')) :
    Settles (Tx.execute statement >>= f) (Tx.execute statement >>= g) start db
      ((statement db).toOption.any fun result => noted result.1 result.2) := by
  have hlive := Tx.execute_live statement db
  cases hs : statement db with
  | error error =>
    rw [hs] at hlive
    exact raise hlive
  | ok result =>
    rw [hs] at hlive
    exact bind hlive (h result.1 result.2 hs)

/-- A part that does what a statement does. -/
theorem like_write {x : Tx Database Exn Unit} {statement : Database → Except Exn Database}
    {f g : Unit → Tx Database Exn β} {noted : Database → Bool}
    (hx : x ⟨db, false⟩ = Tx.write statement ⟨db, false⟩)
    (h : ∀ db', statement db = .ok db' → Settles (f ()) (g ()) start db' (noted db')) :
    Settles (x >>= f) (x >>= g) start db ((statement db).toOption.any noted) := by
  rw [Tx.write_live] at hx
  cases hs : statement db with
  | error error =>
    rw [hs] at hx
    exact raise hx
  | ok db' =>
    rw [hs] at hx
    exact bind hx (h db' hs)

theorem write {statement : Database → Except Exn Database} {f g : Unit → Tx Database Exn β}
    {noted : Database → Bool}
    (h : ∀ db', statement db = .ok db' → Settles (f ()) (g ()) start db' (noted db')) :
    Settles (Tx.write statement >>= f) (Tx.write statement >>= g) start db
      ((statement db).toOption.any noted) := like_write rfl h

/-- A statement that cannot be refused. -/
theorem change {effect : Database → Database} {f g : Unit → Tx Database Exn β}
    (h : Settles (f ()) (g ()) start (effect db) noted) :
    Settles (Tx.write (fun db => .ok (effect db)) >>= f) (Tx.write (fun db => .ok (effect db)) >>= g)
      start db noted := bind rfl h

/-- A part that only reads. -/
theorem reads {x : Tx Database Exn α} {f g : α → Tx Database Exn β} {noted : α → Bool}
    (hx : x.Reads)
    (h : ∀ value, (x ⟨db, false⟩).1 = .ok value → Settles (f value) (g value) start db (noted value)) :
    Settles (x >>= f) (x >>= g) start db ((x ⟨db, false⟩).1.toOption.any noted) := by
  have hsame := hx db
  rcases hrun : x ⟨db, false⟩ with ⟨error | value, c⟩
  · exact raise hrun
  · rw [hrun] at hsame
    simp only at hsame
    subst hsame
    exact bind hrun (h value (congrArg Prod.fst hrun))

/-- The entry itself; `rest` is what follows it. -/
theorem log {entry : AuditService.Entry} {now : Timestamp} {rest : Unit → Tx Database Exn α}
    (hcommits : ∃ value db', rest () ⟨{ db with auditLogs := db.auditLogs ++ [entry.row now] }, false⟩ =
      (.ok value, ⟨db', false⟩) ∧ outside db' ≠ outside start)
    (haborts : ∀ value c, rest () ⟨db, true⟩ = (.ok value, c) → c.failed = true) :
    Settles (AuditService.accepted entry now >>= rest) (AuditService.refused entry now >>= rest) start
      db true where
  same h := by cases h
  commits _ := hcommits
  aborts _ := haborts

end Settles
end Blocks

/-! ### Handlers -/

/-- Whether a handler gets past its first part, to a state where the rest is `noted`. -/
def after {α : Type} (x : Handler α) (pid : ℕ) (choices : ℕ → Choice) (w : World)
    (noted : α → (ℕ → Choice) → World → Bool) : Bool :=
  match x.alone pid choices w with
  | some (.ok value, choices', w') => noted value choices' w'
  | _ => false

/-- Every step has a result and leaves the tables as they are. -/
def Calm {α : Type} : Handler α → Prop
  | .done _ => True
  | .raise _ => True
  | .step _ act next => ∀ pid w choice, ∃ w' b, act pid w choice = some (w', b) ∧ w'.db = w.db ∧
      Calm (next b)

section Handlers
variable {α β : Type} {pid : ℕ} {choices : ℕ → Choice} {w : World} {noted : Bool}

theorem Calm.bind {p : Handler α} {f : α → Handler β} (hp : Calm p) (hf : ∀ a, Calm (f a)) :
    Calm (p >>= f) := by
  induction p with
  | done value => exact hf value
  | raise error => trivial
  | step label act next ih =>
    intro pid w choice
    rcases hp pid w choice with ⟨w', b, hact, hdb, hnext⟩
    exact ⟨w', b, hact, hdb, ih b hnext⟩

theorem Calm.tryCatch {p : Handler α} {handler : Exn → Handler α} (hp : Calm p)
    (hhandler : ∀ error, Calm (handler error)) : Calm (tryCatch p handler) := by
  induction p with
  | done value => trivial
  | raise error => exact hhandler error
  | step label act next ih =>
    intro pid w choice
    rcases hp pid w choice with ⟨w', b, hact, hdb, hnext⟩
    exact ⟨w', b, hact, hdb, ih b hnext⟩

theorem Calm.alone {p : Handler α} (h : Calm p) (pid : ℕ) (choices : ℕ → Choice) (w : World) :
    ∃ r choices' w', p.alone pid choices w = some (r, choices', w') ∧ w'.db = w.db := by
  induction p generalizing choices w with
  | done value => exact ⟨_, _, w, rfl, rfl⟩
  | raise error => exact ⟨_, _, w, rfl, rfl⟩
  | step label act next ih =>
    rcases h pid w (choices 0) with ⟨w', b, hact, hdb, hnext⟩
    rcases ih b hnext (fun n => choices (n + 1)) w' with ⟨r, choices', w'', hrun, hdb'⟩
    refine ⟨r, choices', w'', ?_, hdb'.trans hdb⟩
    rw [Program.alone, hact]
    exact hrun

/-- Two handlers that do the same unless they get to the entry, and then leave different tables. -/
structure Splits (p q : Handler α) (pid : ℕ) (choices : ℕ → Choice) (w : World) (noted : Bool) :
    Prop where
  same : noted = false → p.alone pid choices w = q.alone pid choices w
  differ : noted = true → ∃ o, p.alone pid choices w = some o ∧
    ∀ o', q.alone pid choices w = some o' → outside o.2.2.db ≠ outside o'.2.2.db

namespace Splits
variable {p q : Handler α}

theorem of_eq {noted' : Bool} (h : Splits p q pid choices w noted') (heq : noted = noted') :
    Splits p q pid choices w noted := heq ▸ h

theorem throw (error : Exn) :
    Splits (throw error : Handler α) (throw error) pid choices w false where
  same _ := rfl
  differ h := by cases h

/-- What comes before the entry. -/
theorem bind {x : Handler α} {f g : α → Handler β} {noted : α → (ℕ → Choice) → World → Bool}
    (h : ∀ value choices' w', Splits (f value) (g value) pid choices' w' (noted value choices' w')) :
    Splits (x >>= f) (x >>= g) pid choices w (after x pid choices w noted) := by
  rw [after]
  constructor
  · intro hnoted
    rw [Program.alone_bind, Program.alone_bind]
    rcases hx : x.alone pid choices w with _ | ⟨_ | value, choices', w'⟩
    · rfl
    · rfl
    · rw [hx] at hnoted
      exact (h value choices' w').same hnoted
  · intro hnoted
    rw [Program.alone_bind, Program.alone_bind]
    rcases hx : x.alone pid choices w with _ | ⟨_ | value, choices', w'⟩
    · simp [hx] at hnoted
    · simp [hx] at hnoted
    · rw [hx] at hnoted
      exact (h value choices' w').differ hnoted

/-- What follows in both handlers leaves the tables as they are. -/
theorem followed {p' q' : Handler β}
    {next : Except Exn α × (ℕ → Choice) × World → Option (Except Exn β × (ℕ → Choice) × World)}
    (h : Splits p q pid choices w noted)
    (hp' : p'.alone pid choices w = (p.alone pid choices w).bind next)
    (hq' : q'.alone pid choices w = (q.alone pid choices w).bind next)
    (hnext : ∀ o, ∃ o', next o = some o' ∧ o'.2.2.db = o.2.2.db) :
    Splits p' q' pid choices w noted where
  same hnoted := by rw [hp', hq', h.same hnoted]
  differ hnoted := by
    rcases h.differ hnoted with ⟨o₁, hp, hq⟩
    rcases hnext o₁ with ⟨o, ho, hdb⟩
    refine ⟨o, ?_, ?_⟩
    · rw [hp', hp]
      exact ho
    · intro o' ho'
      rw [hq'] at ho'
      rcases Option.bind_eq_some_iff.mp ho' with ⟨o₂, hq₂, ho₂⟩
      rcases hnext o₂ with ⟨o₃, ho₃, hdb₃⟩
      have hsame : o₃ = o' := Option.some.inj (ho₃.symm.trans ho₂)
      rw [hdb, ← hsame, hdb₃]
      exact hq o₂ hq₂

theorem tryCatch {handler : Exn → Handler α} (h : Splits p q pid choices w noted)
    (hhandler : ∀ error, Calm (handler error)) :
    Splits (tryCatch p handler) (tryCatch q handler) pid choices w noted := by
  apply h.followed (Program.alone_tryCatch p handler) (Program.alone_tryCatch q handler)
  rintro ⟨error | _, choices', w'⟩
  · rcases (hhandler error).alone pid choices' w' with ⟨r, choices'', w'', hrun, hdb⟩
    exact ⟨_, hrun, hdb⟩
  · exact ⟨_, rfl, rfl⟩

/-- The transaction that writes the entry. -/
theorem transaction {label : Label} {x y : Choice → Timestamp → Tx Database Exn α}
    {record : α → Label}
    (h : Settles (x (choices 0) w.now) (y (choices 0) w.now) w.db w.db noted) :
    Splits (transaction label x record) (transaction label y record) pid choices w
      (!(choices 0).fails && noted) := by
  have hx : (PhantomShare.transaction label x record).alone pid choices w = _ :=
    Program.alone_perform _ _
  have hy : (PhantomShare.transaction label y record).alone pid choices w = _ :=
    Program.alone_perform _ _
  cases hfails : (choices 0).fails with
  | true =>
    constructor
    · intro _
      rw [hx, hy, hfails]
      rfl
    · intro hnoted
      cases hnoted
  | false =>
    constructor
    · intro hnoted
      rcases h.same hnoted with ⟨heq, _⟩
      rw [hx, hy, hfails]
      simp only [Tx.run, heq]
    · intro hnoted
      rcases h.commits hnoted with ⟨value, db', hcommits, hne⟩
      refine ⟨(.ok value, fun n => choices (n + 1), w.commit pid (record value) db'), ?_, ?_⟩
      · rw [hx, hfails]
        simp only [Tx.run, hcommits]
        rfl
      · intro o' ho'
        have hkeeps : o'.2.2.db = w.db := by
          rw [hy, hfails] at ho'
          simp only [Tx.run, Bool.false_eq_true, if_false] at ho'
          rcases hrun : y (choices 0) w.now ⟨w.db, false⟩ with ⟨_ | value', c⟩
          · rw [hrun] at ho'
            cases ho'
            rfl
          · have hfailed := h.aborts hnoted value' c hrun
            simp only [hrun, hfailed, if_true, Option.map_some, Option.some.injEq] at ho'
            rw [← ho']
        rw [hkeeps]
        exact hne

end Splits
end Handlers
end PhantomShare.Audit
