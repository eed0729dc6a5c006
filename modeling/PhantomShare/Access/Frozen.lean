import PhantomShare.Foundations.Alone
import PhantomShare.Outlines
import PhantomShare.PlainPlatform
import PhantomShare.Routers.FileVersions
import PhantomShare.Routers.SecretVersions

/-!
# Writes to an expired secret

Between its expiry and its deletion a secret still has its row. An update of a
text secret checks the expiry under the lock; a restore and the update of a file
secret do not, and write whenever their own checks pass.
-/
namespace PhantomShare.Access
open Foundations

/-! ### Transactions -/

section Transactions
variable {P : Platform} {db : Database} {user : CurrentUser} {now : Timestamp}

section Files
variable {pendingId : UUID} {objectKey : ObjectKey} {body : FileUpdate}
  {encrypted : Files.Encrypted} {size encryptedSize : ℕ} {detail clientIp : String}

end Files
end Transactions

/-! ### Steps of a request that runs alone -/

section Ends
variable {α : Type} {pid : ℕ} {w w' : World} {label : Label}

/-- The surroundings may choose as they like. -/
abbrev Ends (p : Handler α) (pid : ℕ) (w : World) (result : Except Exn α) (w' : World) : Prop :=
  p.Ends (fun _ _ => True) pid w result w'

theorem ends_query_ok {q : Timestamp → Database → α} {value : α} :
    Ends (query label q) pid w (.ok value) w' ↔ value = q w.now w.db ∧ w' = w := by
  rw [Ends, query, Program.ends_perform]
  constructor
  · rintro ⟨choice, _, hact⟩
    cases hfails : choice.fails <;> simp only [hfails, if_true, Bool.false_eq_true, if_false,
      Option.some.injEq, Prod.mk.injEq, Except.ok.injEq, reduceCtorEq, and_false] at hact
    exact ⟨hact.2.symm, hact.1.symm⟩
  · rintro ⟨rfl, rfl⟩
    exact ⟨{}, trivial, rfl⟩

end Ends

/-! ### Frozen calls -/

/-- The tables that hold the content of secrets are as they were. -/
structure SameRows (w w' : World) : Prop where
  secrets : w'.db.secrets = w.db.secrets
  versions : w'.db.secretVersions = w.db.secretVersions
  keys : w'.db.secretKeys = w.db.secretKeys

instance : IsPreorder World SameRows where
  refl _ := ⟨rfl, rfl, rfl⟩
  trans _ _ _ hab hbc :=
    ⟨hbc.secrets.trans hab.secrets, hbc.versions.trans hab.versions, hbc.keys.trans hab.keys⟩

/-- A step that leaves the three tables as they are. -/
abbrev Shelved (_pid : ℕ) (_label : Label) (w w' : World) : Prop := SameRows w w'

section Calls
variable {P : Platform} {α : Type} {pid : ℕ} {w w' : World} {user : CurrentUser} {clientIp : String}

theorem Ends.same {p : Handler α} {result : Except Exn α} (h : Ends p pid w result w')
    (hp : p.Only Shelved) : SameRows w w' := hp.ends (fun _ _ _ _ hstep => hstep) h

section Update
variable {body : FileUpdate} {objectKey : ObjectKey} {pendingId : UUID} {plaintext : Bytes}
  {size : ℕ} {detail : String} {encrypted : Files.Encrypted} {reservation : Reservation}

end Update

end Calls

section Sample

end Sample
end PhantomShare.Access
