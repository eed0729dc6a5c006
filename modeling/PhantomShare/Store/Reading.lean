import PhantomShare.Access.Expiry
import PhantomShare.Access.Gates
import PhantomShare.Store.Documents

/-!
# A stored document can be read

A retrieval that its secret lets in answers with the document: the last plaintext, or
what the client sealed, and the number of the current version.
-/
namespace PhantomShare.Store
open Foundations Access

section
variable {P : Platform} {id : UUID} {doc : Document} {db : Database} {s : Secret}
  {policy : SecretAccessPolicy} {accessPassword token : Option String} {clientIp : String}
  {currentUser : Option CurrentUser} {now : Timestamp}

/-- The columns of the secret read as the document. -/
theorem Stored.readContent (h : Stored P id doc db) (hs : db.secrets.find id = some s) :
    ∃ reading, doc.reading = some reading ∧
      Secrets.readContent P s ⟨db, false⟩ = (.ok (some reading.1, reading.2), ⟨db, false⟩) := by
  have hid : s.id = id := Table.key_of_find hs
  have hpayload := h.payload
  rw [Document.reading]
  cases hkind : doc.payload with
  | client content nonce =>
    rw [hkind] at hpayload
    obtain ⟨s', hs', hcontent⟩ := hpayload.current
    rw [hs, Option.some.injEq] at hs'
    subst hs'
    have hkeyless : db.keysOf s.id = [] := by rw [hid, hpayload.keyless]
    refine ⟨(content, true), rfl, ?_⟩
    rw [Secrets.readContent, Tx.select_bind, hkeyless]
    have hcolumn : s.content = some content := congrArg Content.content hcontent
    change (Except.ok (s.content, true), (⟨db, false⟩ : Connection Database)) = _
    rw [hcolumn]
  | server texts =>
    rw [hkind] at hpayload
    obtain ⟨key, dek, text, hlatest, hunwrap, hdecrypt, hlast⟩ :=
      hpayload.2.current_opens hpayload.1 hs
    have hkey : db.keyRow s.id none = some key := by
      rw [hid]
      exact hlatest
    have hkeys : (db.keysOf s.id).isEmpty = false := by
      rw [hid, List.isEmpty_eq_false_iff]
      intro hnil
      rw [Database.latestKey, hnil] at hlatest
      cases hlatest
    refine ⟨(text, false), by simp only [hlast, Option.map_some], ?_⟩
    rw [Secrets.readContent, Tx.select_bind, hkeys]
    change (tryCatch _ _ : Tx Database Exn _) _ = _
    rw [Tx.tryCatch_apply, Tx.bind_of_ok (KeyService.getDekForSecret_live hkey hunwrap), hdecrypt]
    rfl

/-- The view of a tracked secret is one row. -/
theorem insertView_count {row : SecretView} {viewed : Database} {n : ℕ}
    (htracked : (db.secretTracking.find row.secretId).isSome)
    (h : db.insertView row = .ok (n, viewed)) : n = 1 := by
  obtain ⟨tracking, htracking⟩ := Option.isSome_iff_exists.mp htracked
  simp only [Database.insertView, htracking] at h
  obtain ⟨_, _, hreturn⟩ := FileCrypto.bind_eq_ok.mp h
  cases hreturn
  rfl

/-- A retrieval that its secret lets in, by a viewer that can be recorded, succeeds exactly from an
address that the audit log takes. A refused entry aborts the transaction before the view counts. -/
theorem retrieveTransaction_isOk {w : World} {reading : String × Bool}
    (hs : w.db.secrets.find id = some s) (htext : s.payloadType = .text)
    (hunexpired : now ≤ s.expiresAt) (hviews : s.viewCount < s.maxViews)
    (hknows : (accessState s policy w.db).knows currentUser = true)
    (hunlocked : (accessState s policy w.db).unlocked P accessPassword = true)
    (hread : Secrets.readContent P s ⟨w.db, false⟩ =
      (.ok (some reading.1, reading.2), ⟨w.db, false⟩))
    (htracked : s.emailRestricted = true → (w.db.secretTracking.find id).isSome)
    (hviewer : Database.refers w.db.hasUser (currentUser.map CurrentUser.id) = true) :
    ((Secrets.retrieveTransaction P id (some policy) policy.policyVersion accessPassword
      clientIp currentUser now).run w.db).isOk = (inet clientIp).isSome := by
  obtain ⟨n, viewed, hinsert⟩ : ∃ n viewed,
      w.db.insertView (Secrets.viewBy currentUser id s.currentVersion now) = .ok (n, viewed) :=
    insertView_accepts.mpr (by simp [Secrets.viewBy, hviewer])
  have hrecorded : (s.emailRestricted && decide (n ≠ 1)) = false := by
    cases hrestricted : s.emailRestricted with
    | false => rfl
    | true =>
      rw [insertView_count (htracked hrestricted) hinsert]
      rfl
  obtain ⟨views, rfl⟩ := Database.insertView_frame hinsert
  have hpassword : Secrets.checkPassword P s accessPassword = .ok () := by
    have hok : (Secrets.checkPassword P s accessPassword).isOk = true := by
      rw [@checkPassword_isOk P w s policy accessPassword]
      exact hunlocked
    cases hcheck : Secrets.checkPassword P s accessPassword with
    | ok _ => rfl
    | error error =>
      rw [hcheck] at hok
      cases hok
  have hpresent : Database.refers (Database.hasSecret { w.db with secretViews := views })
      (some id) = true := Option.isSome_of_mem hs
  have hactor : Database.refers (Database.hasUser { w.db with secretViews := views })
      (currentUser.map CurrentUser.id) = true := hviewer
  have haction : "secret_viewed" ∈ Database.auditActions := by decide
  rw [Tx.run_isOk, Secrets.retrieveTransaction, Tx.select_bind, hs]
  simp only [Tx.raiseIf_bind_isOk, @checkRecipient_bind_isOk s policy currentUser, hknows, htext,
    not_lt.mpr hunexpired, not_le.mpr hviews, ne_eq, not_true_eq_false, decide_false,
    Bool.not_false, Bool.true_and]
  rw [Tx.ofExcept_bind_of_ok hpassword, Tx.bind_of_ok hread, Tx.bind_apply, Tx.execute_live]
  simp only [hinsert]
  rw [Tx.raiseIf_bind_isOk, hrecorded, Bool.not_false, Bool.true_and, Tx.bind_apply,
    AuditService.logWith, Tx.quietly_write_live]
  cases hlog : AuditService.Entry.insert
      { action := "secret_viewed", actorId := currentUser.map CurrentUser.id
        actorIp := some clientIp, secretId := some id
        metadata := [("view_count", .int (s.viewCount + 1)), ("max_views", .int s.maxViews)] } now
      { w.db with secretViews := views } with
  | error error =>
    have hip : (inet clientIp).isSome = false := by
      rw [← Bool.not_eq_true]
      intro hip
      obtain ⟨row, hrow⟩ :=
        @Database.insertAuditLog_accepted now _ _ _ _ _ _ haction hip hactor hpresent
      cases hrow.symm.trans hlog
    rw [hip]
    rfl
  | ok logged =>
    obtain ⟨hip, _, row, rfl⟩ := Database.insertAuditLog_ok hlog
    have hlogged : ({ w.db with secretViews := views, auditLogs := w.db.auditLogs ++ [row] } :
        Database).secrets.find id = some s := hs
    have hbelow : s.viewCount + 1 ≤ s.maxViews := by omega
    obtain ⟨counted, hcounted⟩ := @updateViewCount_accepts id now _ _
      (decide (s.maxViews ≤ s.viewCount + 1)) s hlogged hbelow
    rw [hip clientIp rfl]
    simp only [Tx.bind_apply, Tx.write_live, hcounted]
    rfl

/-- What a retrieval that runs alone answers: the document, exactly from an address that the audit
log takes. -/
theorem Stored.retrieve {w : World} {secretId : String} (h : Stored P id doc w.db)
    (hparse : P.parseUuid secretId = some id) (hs : w.db.secrets.find id = some s)
    (hpolicy : w.db.secretAccessPolicies.find id = some policy)
    (hopen : (accessState s policy w.db).isOpen P id token accessPassword clientIp currentUser
      w.now = true)
    (htracked : s.emailRestricted = true → (w.db.secretTracking.find id).isSome)
    (hviewer : Database.refers w.db.hasUser (currentUser.map CurrentUser.id) = true) :
    ∃ reading answer choices w', doc.reading = some reading ∧
      (Secrets.retrieveSecret P secretId accessPassword token clientIp currentUser).alone 0
        (fun _ => {}) w = some (answer, choices, w') ∧
      (answer = .ok ⟨reading.1, s.createdAt, s.expiresAt, max 0 (s.maxViews - (s.viewCount + 1)),
        reading.2, doc.version⟩ ↔ (inet clientIp).isSome) := by
  obtain ⟨reading, hreading, hread⟩ := h.readContent hs
  obtain ⟨s', hs', htext, _, _, hversion⟩ := h.row
  rw [hs, Option.some.injEq] at hs'
  subst hs'
  simp only [AccessState.isOpen, Bool.and_eq_true, decide_eq_true_eq] at hopen
  obtain ⟨⟨⟨⟨hadmits, hknows⟩, hunlocked⟩, hunexpired⟩, hviews⟩ := hopen
  have hok := @retrieveTransaction_isOk P id s policy accessPassword clientIp currentUser w.now w
    reading hs htext hunexpired hviews hknows hunlocked hread htracked hviewer
  rw [Secrets.retrieveSecret, Program.alone_bind, alone_authorizeRetrieval hparse,
    alone_authorize_ok hpolicy rfl hadmits]
  simp only [Option.map_some, Option.bind_some]
  rw [alone_query_bind _ _ _ rfl, hpolicy, Program.alone_bind, transaction, Program.alone_perform]
  cases hseen : (Secrets.retrieveTransaction P id (some policy) policy.policyVersion accessPassword
      clientIp currentUser w.now).run w.db with
  | error error =>
    rw [hseen] at hok
    simp only [Bool.false_eq_true, if_false, Option.map_some, Option.bind_some]
    refine ⟨reading, _, _, _, hreading, rfl, ?_⟩
    rw [← hok]
    constructor
    · intro hanswer
      cases hanswer
    · intro hraised
      cases hraised
  | ok outcome =>
    obtain ⟨seen, committed⟩ := outcome
    rw [hseen] at hok
    obtain ⟨hfound, _, _, hcontent, _, _, written, _, _, _, rfl⟩ :=
      Secrets.retrieveTransaction_ok hseen
    rw [hs, Option.some.injEq] at hfound
    subst hfound
    rw [hread] at hcontent
    simp only [Prod.mk.injEq, Except.ok.injEq, and_true] at hcontent
    simp only [Bool.false_eq_true, if_false, Option.map_some, Option.bind_some,
      ← hcontent.1, ← hcontent.2, hversion]
    refine ⟨reading, _, _, _, hreading, rfl, ?_⟩
    rw [← hok]
    exact ⟨fun _ => rfl, fun _ => rfl⟩

end
end PhantomShare.Store
