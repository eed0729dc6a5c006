import Mathlib.Data.Finset.Card
import PhantomShare.Footprints
import PhantomShare.Foundations.Guarded
import PhantomShare.Routers.Secrets
import PhantomShare.Services.CleanupService

/-!
# Counting deletions and their audit rows

A deletion sets the `secret_id` of every audit row about the secret to `NULL`, so
the rows that describe deletions can only be counted. A change is accounted for
when it adds one row for each secret and each user that it removes.
-/
namespace PhantomShare.Deletion
open Foundations

def secretIds (db : Database) : Finset UUID := (db.secrets.rows.map Secret.id).toFinset

def userIds (db : Database) : Finset UUID := (db.users.rows.map User.id).toFinset

def rowsOf (action : String) (db : Database) : ℕ :=
  (db.auditLogs.filter fun row => row.action = action).length

/-- Since `start`, one row was added for each secret and each user that is gone. -/
structure Accounted (start db : Database) : Prop where
  secrets_subset : secretIds db ⊆ secretIds start
  deletions : rowsOf "secret_deleted" db =
    rowsOf "secret_deleted" start + (secretIds start \ secretIds db).card
  users_subset : userIds db ⊆ userIds start
  removals : rowsOf "user_removed" db =
    rowsOf "user_removed" start + (userIds start \ userIds db).card

theorem card_sdiff_chain {a b c : Finset UUID} (hba : b ⊆ a) (hcb : c ⊆ b) :
    (a \ c).card = (a \ b).card + (b \ c).card := by
  rw [Finset.card_sdiff_of_subset hba, Finset.card_sdiff_of_subset hcb,
    Finset.card_sdiff_of_subset (hcb.trans hba)]
  have hab := Finset.card_le_card hba
  have hbc := Finset.card_le_card hcb
  omega

namespace Accounted
variable {a b c db db' : Database}

theorem of_eq (hsecrets : secretIds db' = secretIds db) (husers : userIds db' = userIds db)
    (hdeletions : rowsOf "secret_deleted" db' = rowsOf "secret_deleted" db)
    (hremovals : rowsOf "user_removed" db' = rowsOf "user_removed" db) : Accounted db db' where
  secrets_subset := hsecrets.subset
  deletions := by rw [hsecrets, hdeletions, Finset.sdiff_self, Finset.card_empty, add_zero]
  users_subset := husers.subset
  removals := by rw [husers, hremovals, Finset.sdiff_self, Finset.card_empty, add_zero]

theorem refl (db : Database) : Accounted db db := of_eq rfl rfl rfl rfl

theorem trans (hab : Accounted a b) (hbc : Accounted b c) : Accounted a c where
  secrets_subset := hbc.secrets_subset.trans hab.secrets_subset
  deletions := by
    rw [hbc.deletions, hab.deletions, card_sdiff_chain hab.secrets_subset hbc.secrets_subset,
      add_assoc]
  users_subset := hbc.users_subset.trans hab.users_subset
  removals := by
    rw [hbc.removals, hab.removals, card_sdiff_chain hab.users_subset hbc.users_subset, add_assoc]

end Accounted

/-- A change that is accounted for and removes at most this secret. -/
structure Removes (id : UUID) (db db' : Database) : Prop where
  accounted : Accounted db db'
  only : secretIds db \ secretIds db' ⊆ {id}

namespace Removes
variable {id : UUID} {a b c db db' : Database}

theorem of_eq (hsecrets : secretIds db' = secretIds db) (husers : userIds db' = userIds db)
    (hdeletions : rowsOf "secret_deleted" db' = rowsOf "secret_deleted" db)
    (hremovals : rowsOf "user_removed" db' = rowsOf "user_removed" db) : Removes id db db' where
  accounted := .of_eq hsecrets husers hdeletions hremovals
  only := by rw [hsecrets, Finset.sdiff_self]; exact Finset.empty_subset _

theorem refl (db : Database) : Removes id db db := of_eq rfl rfl rfl rfl

theorem trans (hab : Removes id a b) (hbc : Removes id b c) : Removes id a c where
  accounted := hab.accounted.trans hbc.accounted
  only := by
    intro j hj
    rcases Finset.mem_sdiff.mp hj with ⟨hja, hjc⟩
    by_cases hjb : j ∈ secretIds b
    · exact hbc.only (Finset.mem_sdiff.mpr ⟨hjb, hjc⟩)
    · exact hab.only (Finset.mem_sdiff.mpr ⟨hja, hjb⟩)

instance : IsPreorder Database (Removes id) where
  refl := refl
  trans _ _ _ := trans

theorem single (h : Removes id db db') : (secretIds db \ secretIds db').card ≤ 1 :=
  (Finset.card_le_card h.only).trans (Finset.card_singleton id).le

end Removes

/-! ### Statements -/

section Statements
variable {id : UUID} {db db' : Database}

theorem rowsOf_append (action : String) (row : AuditLog) (db : Database) :
    rowsOf action { db with auditLogs := db.auditLogs ++ [row] } =
      rowsOf action db + if row.action = action then 1 else 0 := by
  simp only [rowsOf, List.filter_append, List.length_append]
  by_cases haction : row.action = action <;> simp [haction]

/-- The action of an audit row that was accepted. -/
theorem insertAuditLog_action {now : Timestamp} {action : String} {actorId : Option UUID}
    {actorIp : Option String} {secretId : Option UUID} {metadata : List (String × Json)}
    (h : db.insertAuditLog now action actorId actorIp secretId metadata = .ok db') :
    ∃ row : AuditLog, row.action = action ∧
      db' = { db with auditLogs := db.auditLogs ++ [row] } := by
  rcases FileCrypto.bind_eq_ok.mp h with ⟨_, _, h⟩
  rcases FileCrypto.bind_eq_ok.mp h with ⟨ip, _, h⟩
  rcases FileCrypto.bind_eq_ok.mp h with ⟨_, _, h⟩
  rcases FileCrypto.bind_eq_ok.mp h with ⟨_, _, h⟩
  exact ⟨⟨action, actorId, ip, .info, secretId, metadata, now⟩, rfl, (Except.ok.inj h).symm⟩

theorem removes_insertAuditLog {now : Timestamp} {action : String} {actorId : Option UUID}
    {actorIp : Option String} {secretId : Option UUID} {metadata : List (String × Json)}
    (hdeleted : action ≠ "secret_deleted") (hremoved : action ≠ "user_removed")
    (h : db.insertAuditLog now action actorId actorIp secretId metadata = .ok db') :
    Removes id db db' := by
  rcases insertAuditLog_action h with ⟨row, rfl, rfl⟩
  apply Removes.of_eq
  · rfl
  · rfl
  · rw [rowsOf_append, if_neg hdeleted, add_zero]
  · rw [rowsOf_append, if_neg hremoved, add_zero]

theorem rowsOf_deleteSecrets (action : String) (now : Timestamp) (p : Secret → Bool) (db : Database) :
    rowsOf action (db.deleteSecrets now p) = rowsOf action db := by
  rcases Database.foldl_frame (Database.enqueueSecretObjects_frame now) (db.secrets.rows.filter p) db
    with ⟨outbox, n, h⟩
  rw [Database.deleteSecrets, h]
  simp only [rowsOf, List.filter_map, List.length_map]
  rfl

theorem userIds_deleteSecrets (now : Timestamp) (p : Secret → Bool) (db : Database) :
    userIds (db.deleteSecrets now p) = userIds db := by
  rcases Database.deleteSecrets_frame now p db with ⟨outbox, n, logs, h⟩
  rw [h]
  rfl

theorem secretIds_deleteSecrets (now : Timestamp) (db : Database) :
    secretIds (db.deleteSecrets now fun s => s.id = id) = secretIds db \ {id} := by
  rcases Database.deleteSecrets_frame now (fun s => s.id = id) db with ⟨outbox, n, logs, h⟩
  ext j
  simp only [h, secretIds, Table.deleteWhere_rows, List.mem_toFinset, List.mem_map,
    List.mem_filter, Finset.mem_sdiff, Finset.mem_singleton, Bool.not_eq_true', decide_eq_false_iff_not]
  constructor
  · rintro ⟨s, ⟨hs, hne⟩, rfl⟩
    exact ⟨⟨s, hs, rfl⟩, hne⟩
  · rintro ⟨⟨s, hs, rfl⟩, hne⟩
    exact ⟨s, ⟨hs, hne⟩, rfl⟩

theorem mem_secretIds : id ∈ secretIds db ↔ db.hasSecret id = true := by
  rw [secretIds, List.mem_toFinset, List.mem_map, Database.hasSecret]
  constructor
  · rintro ⟨s, hs, rfl⟩
    rw [Table.find_of_mem hs]
    rfl
  · intro h
    rcases Option.isSome_iff_exists.mp h with ⟨s, hs⟩
    exact ⟨s, Table.mem_of_find hs, Table.key_of_find hs⟩

/-- One row for the secret and its deletion. -/
theorem removes_deletion {now : Timestamp} {row : AuditLog} (haction : row.action = "secret_deleted")
    (hexists : db.hasSecret id = true) :
    Removes id db (({ db with auditLogs := db.auditLogs ++ [row] } : Database).deleteSecrets now
      fun s => s.id = id) := by
  have hids : secretIds (({ db with auditLogs := db.auditLogs ++ [row] } : Database).deleteSecrets now
      fun s => s.id = id) = secretIds db \ {id} := secretIds_deleteSecrets now _
  have hgone : secretIds db \ (secretIds db \ {id}) = {id} := by
    apply Finset.sdiff_sdiff_eq_self
    rw [Finset.singleton_subset_iff]
    exact mem_secretIds.mpr hexists
  constructor
  · constructor
    · rw [hids]
      exact Finset.sdiff_subset
    · rw [rowsOf_deleteSecrets, rowsOf_append, if_pos haction, hids, hgone, Finset.card_singleton]
    · rw [userIds_deleteSecrets]
      exact Finset.Subset.refl _
    · have husers : userIds (({ db with auditLogs := db.auditLogs ++ [row] } : Database).deleteSecrets
          now fun s => s.id = id) = userIds db := userIds_deleteSecrets now _ _
      rw [rowsOf_deleteSecrets, rowsOf_append, haction, if_neg (by decide), husers, Finset.sdiff_self,
        Finset.card_empty]
  · rw [hids, hgone]

theorem removes_updateSecret (f : Secret → Secret) (hf : ∀ r, (f r).id = r.id) (id' : UUID) :
    Removes id db (db.updateSecret id' f hf) := by
  apply Removes.of_eq
  · ext j
    rw [mem_secretIds, mem_secretIds, Database.hasSecret, Database.updateSecret, Table.find_modify]
    by_cases hj : j = id'
    · rw [if_pos hj, Option.isSome_map, ← hj, Database.hasSecret]
    · rw [if_neg hj, Database.hasSecret]
  · rfl
  · rfl
  · rfl

theorem removes_insertView {row : SecretView} {n : ℕ} (h : db.insertView row = .ok (n, db')) :
    Removes id db db' := by
  rcases Database.insertView_frame h with ⟨views, rfl⟩
  apply Removes.of_eq <;> rfl

theorem removes_updateViewCount {now : Timestamp} {count : ℤ} {viewed : Bool}
    (h : db.updateViewCount now id count viewed = .ok db') : Removes id db db' := by
  rw [Database.updateViewCount] at h
  cases hfind : db.secrets.find id with
  | none =>
    rw [hfind] at h
    cases h
    exact .refl db
  | some row =>
    rw [hfind] at h
    simp only at h
    split at h
    · cases h
    split at h
    · rcases FileCrypto.bind_eq_ok.mp h with ⟨logged, hlog, hdelete⟩
      cases hdelete
      rcases Database.insertAuditLog_ok hlog with ⟨_, hrefers, _⟩
      rcases insertAuditLog_action hlog with ⟨entry, haction, rfl⟩
      exact (removes_updateSecret _ _ id).trans (removes_deletion haction hrefers)
    · cases h
      exact removes_updateSecret _ _ id

end Statements

/-! ### Transactions -/

section Transactions
variable {P : Platform} {id : UUID} {R : Database → Database → Prop} [IsPreorder Database R]

theorem preserves_logWith {entry : AuditService.Entry} {now : Timestamp}
    (hdeleted : entry.action ≠ "secret_deleted") (hremoved : entry.action ≠ "user_removed") :
    (AuditService.logWith entry now).Preserves (Removes id) := by
  apply Tx.Preserves.quietly
  apply Tx.preserves_write
  intro db db' h
  exact removes_insertAuditLog hdeleted hremoved h

theorem preserves_getDekForSecret (keyVersion : Option ℕ) :
    (KeyService.getDekForSecret P id keyVersion).Preserves R := by
  apply (Tx.preserves_select _).bind
  intro row
  cases row with
  | none => exact Tx.preserves_throw _
  | some key => exact Tx.preserves_ofExcept _

theorem preserves_checkRecipient (secret : Secret) (currentUser : Option CurrentUser) :
    (Secrets.checkRecipient secret currentUser).Preserves R := by
  unfold Secrets.checkRecipient
  split
  · cases currentUser with
    | none => exact Tx.preserves_throw _
    | some viewer =>
      apply (Tx.preserves_raiseIf _ _).bind
      intro _
      apply (Tx.preserves_select _).bind
      intro allowed
      exact Tx.preserves_raiseIf _ _
  · exact Tx.preserves_pure ()

theorem preserves_readContent (secret : Secret) :
    (Secrets.readContent P secret).Preserves R := by
  apply (Tx.preserves_select _).bind
  intro hasServerKey
  cases hasServerKey with
  | false => exact Tx.preserves_pure _
  | true =>
    apply Tx.Preserves.tryCatch
    · apply (preserves_getDekForSecret none).bind
      intro dek
      apply (Tx.preserves_ofExcept _).bind
      intro plaintext
      exact Tx.preserves_pure _
    · intro error
      exact Tx.preserves_throw _

theorem preserves_retrieve {policy : Option SecretAccessPolicy} {policyVersion : ℕ}
    {accessPassword : Option String} {clientIp : String} {currentUser : Option CurrentUser}
    {now : Timestamp} :
    (Secrets.retrieveTransaction P id policy policyVersion accessPassword clientIp currentUser
      now).Preserves (Removes id) := by
  apply (Tx.preserves_select _).bind
  intro row
  cases row with
  | none => exact Tx.preserves_throw _
  | some secret =>
    cases policy with
    | none => exact Tx.preserves_throw _
    | some policy =>
      apply (Tx.preserves_raiseIf _ _).bind
      intro _
      apply (Tx.preserves_raiseIf _ _).bind
      intro _
      apply (Tx.preserves_raiseIf _ _).bind
      intro _
      apply (Tx.preserves_raiseIf _ _).bind
      intro _
      apply (preserves_checkRecipient secret currentUser).bind
      intro _
      apply (Tx.preserves_ofExcept _).bind
      intro _
      apply (preserves_readContent secret).bind
      intro content
      apply Tx.Preserves.bind
      · apply Tx.preserves_execute
        intro db n db' h
        exact removes_insertView h
      · intro rowcount
        apply (Tx.preserves_raiseIf _ _).bind
        intro _
        apply Tx.Preserves.bind
        · exact preserves_logWith (by simp) (by simp)
        · intro _
          apply Tx.Preserves.bind
          · apply Tx.preserves_write
            intro db db' h
            exact removes_updateViewCount h
          · intro _
            exact Tx.preserves_pure _

/-- An owner's or admin's deletion: the entry comes first, and the deletion fails without it. -/
theorem removes_delete {user : CurrentUser} {clientIp : String} {now : Timestamp} {db db' : Database}
    (h : (Secrets.deleteTransaction id user clientIp now).run db = .ok ((), some db')) :
    Removes id db db' := by
  rcases Tx.run_ok h with ⟨c, hbody, hcommitted⟩
  rcases Tx.bind_ok hbody with ⟨row, c₁, hselect, hbody₁⟩
  rcases Tx.select_ok hselect with ⟨_, hrow, rfl⟩
  cases row with
  | none => exact absurd hbody₁ Tx.throw_ok
  | some secret =>
    rcases Tx.bind_ok hbody₁ with ⟨_, _, hguard, hbody₂⟩
    rcases Tx.ofExcept_ok hguard with ⟨_, rfl⟩
    rcases Tx.bind_ok hbody₂ with ⟨_, c₂, hlog, hbody₃⟩
    rcases Tx.write_ok hbody₃ with ⟨hlive, hfailed, hdelete⟩
    simp only [hfailed, Bool.false_eq_true, if_false, Option.some.injEq] at hcommitted
    rcases Tx.quietly_write_ok hlog with ⟨haborted, _⟩ | ⟨_, _, hinsert⟩
    · rw [hlive] at haborted
      cases haborted
    · rcases insertAuditLog_action hinsert with ⟨entry, haction, hentry⟩
      rw [hcommitted, ← Except.ok.inj hdelete, hentry]
      apply removes_deletion haction
      rw [Database.hasSecret, ← hrow]
      rfl

theorem filter_true {α : Type} (o : Option α) : o.filter (fun _ => true) = o := by
  cases o <;> rfl

/-- Nothing is deleted where no row matches. -/
theorem deleteSecrets_none {now : Timestamp} {p : Secret → Bool} {db : Database}
    (h : ∀ s ∈ db.secrets.rows, p s = false) : db.deleteSecrets now p = db := by
  have hdoomed : db.secrets.rows.filter p = [] := by
    rw [List.filter_eq_nil_iff]
    intro s hs
    simp [h s hs]
  simp [Database.deleteSecrets, hdoomed, Table.deleteWhere_none h, Table.deleteWhere_none,
    filter_true]

theorem deleteUsers_none {p : User → Bool} {db : Database} (h : ∀ u ∈ db.users.rows, p u = false) :
    db.deleteUsers p = db := by
  have hdoomed : db.users.rows.filter p = [] := by
    rw [List.filter_eq_nil_iff]
    intro u hu
    simp [h u hu]
  simp [Database.deleteUsers, hdoomed, Table.deleteWhere_none h, Table.deleteWhere_none,
    Table.mapRows_id, filter_true]

end Transactions
end PhantomShare.Deletion
