import PhantomShare.Burn.TextSecrets
import PhantomShare.Store.Texts

/-!
# The text secrets refine lists of plaintexts

Each transaction that commits is one operation of the abstract machine, and an
answer says what its operation did. An update or a restore whose audit entry is
refused answers all the same and commits nothing; the runs here are those in
which that does not happen.
-/
namespace PhantomShare.Store
open Foundations Journal

/-! ### The transactions are operations of the machine -/

section Transactions
variable {P : Platform} {id : UUID} {db db' : Database} {S : Texts} {now : Timestamp}

/-- What one secret becomes, when the others are as they were. -/
theorem Represents.set {texts : List String} (h : Represents P S db)
    (hothers : ∀ other, other ≠ id → Same other db db')
    (hid : (texts = [] ∧ Absent id db') ∨ (texts ≠ [] ∧ Holds P id texts db')) :
    Represents P (Function.update S id texts) db' := by
  intro other
  by_cases hother : other = id
  · subst hother
    rw [Function.update_self]
    exact hid
  · rw [Function.update_of_ne hother]
    rcases h other with ⟨hnil, habsent⟩ | ⟨hne, hholds⟩
    · exact Or.inl ⟨hnil, habsent.of_same (hothers other hother)⟩
    · exact Or.inr ⟨hne, hholds.of_same (hothers other hother)⟩

theorem Represents.of_same (h : Represents P S db) (hsame : ∀ id, Same id db db') :
    Represents P S db' := by
  intro id
  rcases h id with ⟨hnil, habsent⟩ | ⟨hne, hholds⟩
  · exact Or.inl ⟨hnil, habsent.of_same (hsame id)⟩
  · exact Or.inr ⟨hne, hholds.of_same (hsame id)⟩

/-- A secret with a row holds a list. -/
theorem Represents.holds (h : Represents P S db) {s : Secret} (hs : db.secrets.find id = some s) :
    S id ≠ [] ∧ Holds P id (S id) db := by
  rcases h id with ⟨_, habsent⟩ | hholds
  · rw [habsent.secret] at hs
    cases hs
  · exact hholds

theorem Holds.currentVersion_eq {texts : List String} {s : Secret} (h : Holds P id texts db)
    (hs : db.secrets.find id = some s) : s.currentVersion = texts.length := by
  rcases h.current with ⟨s', row, key, hs', hcontent, _⟩
  rw [hs, Option.some.injEq] at hs'
  subst hs'
  exact congrArg Content.currentVersion hcontent

variable {user : CurrentUser} {clientIp : String} {random : Random} {newVersion : ℕ}

theorem step_of_create (sound : P.Sound) {body : SecretCreate} {ownerId : UUID}
    {signedToken : String} (hserver : body.clientEncrypted = false)
    (h : (Secrets.createTransaction P id body ownerId clientIp random now).run db =
      .ok (signedToken, some db')) (hrep : Represents P S db) :
    ∃ S', Texts.Step S (.create id body.content) S' ∧ Represents P S' db' := by
  rcases create_effect hserver h with ⟨⟨hfresh, hsealed⟩, hothers⟩
  rcases hrep id with ⟨hnil, habsent⟩ | ⟨_, hholds⟩
  · rcases hsealed habsent with ⟨row, key, htext, hsealed⟩
    refine ⟨_, .create hnil, hrep.set hothers (Or.inr ⟨List.cons_ne_nil _ _, ?_⟩)⟩
    change SealedText P id [body.content].length body.content random row key at htext
    apply Holds.of_sealed sound hsealed htext
    · rfl
    · intro i text hi hlast
      have hlt := (List.getElem?_eq_some_iff.mp hi).1
      simp only [List.length_singleton] at hlt hlast
      omega
    · intro n hn
      rw [habsent.versions n] at hn
      cases hn
  · rcases hholds.current with ⟨s, _, _, hs, _⟩
    rw [hfresh] at hs
    cases hs

theorem step_of_update (sound : P.Sound) {body : SecretUpdate}
    (h : (SecretVersions.updateTransaction P id body user clientIp random now).run db =
      .ok (newVersion, some db')) (hrep : Represents P S db) :
    ∃ S', Texts.Step S (.update id body.content newVersion) S' ∧ Represents P S' db' := by
  rcases update_effect h with ⟨⟨secret, row, key, hfind, hnew, htext, hsealed⟩, hothers⟩
  rcases hrep.holds hfind with ⟨hne, hholds⟩
  rw [hholds.currentVersion_eq hfind] at hnew
  subst hnew
  exact ⟨_, .update hne, hrep.set hothers
    (Or.inr ⟨List.append_ne_nil_of_right_ne_nil _ (List.cons_ne_nil _ _),
      hholds.append sound hsealed htext⟩)⟩

/-- The version that a restore names opens to the plaintext at its place. -/
theorem Holds.source {texts : List String} {source : ℤ} {old : SecretVersion} {key : SecretKey}
    {dek : Bytes} {plaintext : String} (h : Holds P id texts db)
    (hold : SecretVersions.versionRow id source db = some old)
    (hkeyed : old.keyVersion = some key.version)
    (hkey : db.secretKeys.find (id, key.version) = some key)
    (hunwrap : P.unwrapDek key.wrappedDek key.dekNonce = .ok dek)
    (hdecrypt : KeyService.decryptColumns P old.content old.nonce dek = .ok plaintext) :
    Texts.version texts source = some plaintext := by
  unfold SecretVersions.versionRow at hold
  split at hold
  · rcases h.bounded source.toNat (Option.isSome_of_mem hold) with ⟨hpos, hle⟩
    have hone : 1 ≤ source := by omega
    rw [Texts.version, if_pos hone]
    cases hget : texts[source.toNat - 1]? with
    | none =>
      rw [List.getElem?_eq_none_iff] at hget
      omega
    | some text =>
      rcases h.opens _ _ hget with ⟨row, key', hopens⟩
      rw [Nat.sub_add_cancel hpos] at hopens
      have hrow := hopens.stored
      rw [hold, Option.some.injEq] at hrow
      subst hrow
      have hfound := hopens.found
      have hversion := hopens.keyed
      rw [hkeyed, Option.some.injEq] at hversion
      rw [← hversion, hkey, Option.some.injEq] at hfound
      subst hfound
      rcases hopens.opens with ⟨dek', hunwrap', hdecrypt'⟩
      rw [hunwrap, Except.ok.injEq] at hunwrap'
      subst hunwrap'
      rw [hdecrypt, Except.ok.injEq] at hdecrypt'
      rw [hdecrypt']
  · cases hold

theorem step_of_restore (sound : P.Sound) {version : ℤ}
    (h : (SecretVersions.restoreTransaction P id version user clientIp random now).run db =
      .ok (newVersion, some db')) (hrep : Represents P S db) :
    ∃ S', Texts.Step S (.restore id version newVersion) S' ∧ Represents P S' db' := by
  rcases restore_effect h with
    ⟨⟨secret, old, oldKey, dek, plaintext, row, key, hfind, hnew, hold, hkeyed, hkey, hunwrap,
      hdecrypt, htext, hsealed⟩, hothers⟩
  rcases hrep.holds hfind with ⟨_, hholds⟩
  rw [hholds.currentVersion_eq hfind] at hnew
  subst hnew
  exact ⟨_, .restore (hholds.source hold hkeyed hkey hunwrap hdecrypt), hrep.set hothers
    (Or.inr ⟨List.append_ne_nil_of_right_ne_nil _ (List.cons_ne_nil _ _),
      hholds.append sound hsealed htext⟩)⟩

theorem step_of_rotate (sound : P.Sound) {keyVersion : ℕ}
    (h : (KeyService.rotateKey P id random now).run db = .ok (keyVersion, some db'))
    (hrep : Represents P S db) :
    ∃ S', Texts.Step S (.rotate id) S' ∧ Represents P S' db' := by
  rcases rotate_effect h with
    ⟨⟨secret, oldKey, dek, plaintext, hfind, hlatest, hunwrap, hdecrypt, hsealed⟩, hothers⟩
  rcases hrep.holds hfind with ⟨hne, hholds⟩
  rcases hholds.read hne hfind hlatest hunwrap hdecrypt with ⟨hversion, hlast⟩
  refine ⟨S, .rotate hne, ?_⟩
  rw [← Function.update_eq_self id S]
  apply hrep.set hothers
  right
  refine ⟨hne, ?_⟩
  rcases hholds.current with ⟨_, old, _, _, _, hold, _⟩
  rw [hversion] at hsealed
  rcases hsealed old hold with ⟨row, key, htext, hsealed⟩
  exact Holds.of_sealed sound hsealed htext hlast (fun i text hi _ => hholds.opens i text hi)
    hholds.bounded

theorem step_of_retrieve {policy : Option SecretAccessPolicy} {policyVersion : ℕ}
    {accessPassword : Option String} {currentUser : Option CurrentUser} {seen : Secrets.Seen}
    (h : (Secrets.retrieveTransaction P id policy policyVersion accessPassword clientIp currentUser
      now).run db = .ok (seen, some db')) (hrep : Represents P S db) :
    ∃ text, seen.content = some text ∧ ∃ S',
      Texts.Step S (.retrieve id text seen.secret.currentVersion) S' ∧ Represents P S' db' := by
  rcases Secrets.retrieveTransaction_ok h with ⟨hfind, _, _, hread, _⟩
  rcases hrep.holds hfind with ⟨hne, hholds⟩
  have hid : seen.secret.id = id := Table.key_of_find hfind
  have hcontent := (Secrets.readContent_ok hread).2
  rw [hid] at hcontent
  rcases hcontent with ⟨hnokeys, _⟩ | ⟨key, dek, text, hlatest, hunwrap, hdecrypt, hseen, _⟩
  · rcases hholds.current with ⟨_, _, key, _, _, _, _, hlatest⟩
    rw [Database.latestKey, hnokeys] at hlatest
    cases hlatest
  · rcases hholds.read hne hfind hlatest hunwrap hdecrypt with ⟨hversion, hlast⟩
    refine ⟨text, hseen, ?_⟩
    rw [hversion]
    rcases retrieve_effect h with ⟨hself, hothers⟩
    rcases hself with hsame | habsent
    · refine ⟨S, .retrieve hlast, ?_⟩
      rw [← Function.update_eq_self id S]
      exact hrep.set hothers (Or.inr ⟨hne, hholds.of_same hsame⟩)
    · exact ⟨_, .burn hlast, hrep.set hothers (Or.inl ⟨rfl, habsent⟩)⟩

end Transactions

/-! ### Runs -/

inductive Request where
  | create (body : SecretCreate) (user : CurrentUser) (clientIp : String)
  | update (id : UUID) (body : SecretUpdate) (user : CurrentUser) (clientIp : String)
  | restore (id : UUID) (version : ℤ) (user : CurrentUser) (clientIp : String)
  | rotateKey (secretId : String) (user : CurrentUser) (clientIp : String)
  | retrieve (secretId : String) (accessPassword token : Option String) (clientIp : String)
      (currentUser : Option CurrentUser)
  | wait
  deriving DecidableEq

inductive Response where
  | created (response : SecretCreateResponse)
  | updated (response : SecretUpdateResponse)
  | keyRotated (response : KeyRotateResponse)
  | content (content : SecretContent)
  | noContent

def serve (P : Platform) : Request → Handler Response
  | .create body user clientIp => Response.created <$> Secrets.createSecret P body user clientIp
  | .update id body user clientIp =>
    Response.updated <$> SecretVersions.updateSecret P id body user clientIp
  | .restore id version user clientIp =>
    Response.updated <$> SecretVersions.restoreSecretVersion P id version user clientIp
  | .rotateKey secretId user clientIp =>
    Response.keyRotated <$> Secrets.rotateSecretKey P secretId user clientIp
  | .retrieve secretId accessPassword token clientIp currentUser =>
    Response.content <$>
      Secrets.retrieveSecret P secretId accessPassword token clientIp currentUser
  | .wait => (fun _ => Response.noContent) <$> tick

def system (P : Platform) : System World Choice Label Request Exn Response where
  serve := serve P
  recover _ w := w

/-- The operation that a committed transaction performs. -/
def opOf : Label → Option Op
  | .created id plaintext => some (.create id plaintext)
  | .updated id plaintext version => some (.update id plaintext version)
  | .restored id source version => some (.restore id source version)
  | .rotateKey id => some (.rotate id)
  | .retrieved id plaintext version => some (.retrieve id plaintext version)
  | _ => none

/-- The operations committed so far. -/
def history (w : World) : List Op := (entries opOf w).map Prod.snd

/-- Secrets are created with plain content, and no update or restore that passes its checks comes
from an address that the audit table refuses. -/
def Audited (P : Platform) (v : View World Request Exn Response) :
    Occurrence Label Request Exn Response → Prop
  | .started (.create body _ _) => body.clientEncrypted = false
  | .performed pid (.updateSecret _) =>
    match v.tasks[pid]? with
    | some (.update id body user clientIp, _) =>
      SecretVersions.updatable P id body user v.shared.now v.shared.db = true →
        (inet clientIp).isSome
    | _ => True
  | .performed pid (.restoreVersion _ _) =>
    match v.tasks[pid]? with
    | some (.restore id version user clientIp, _) =>
      SecretVersions.restorable P id version user v.shared.db = true → (inet clientIp).isSome
    | _ => True
  | _ => True

instance (P : Platform) (v : View World Request Exn Response)
    (o : Occurrence Label Request Exn Response) : Decidable (Audited P v o) := by
  unfold Audited
  split
  · infer_instance
  · split <;> infer_instance
  · split <;> infer_instance
  · infer_instance

/-- What an answer tells about the operations that its request committed. A creation may fail after
its commit; nothing else does. -/
def Told (P : Platform) : Request → Except Exn Response → List Op → Prop
  | .create body _ _, .ok response, ops => ∃ created, response = .created created ∧
      ops = [.create created.secretId body.content]
  | .create body _ _, .error _, ops => ops = [] ∨ ∃ id, ops = [.create id body.content]
  | .update id body _ _, .ok response, ops => ∃ updated, response = .updated updated ∧
      ops = [.update id body.content updated.version]
  | .restore id version _ _, .ok response, ops => ∃ updated, response = .updated updated ∧
      ops = [.restore id version updated.version]
  | .rotateKey secretId _ _, .ok _, ops => ∃ id, P.parseUuid secretId = some id ∧ ops = [.rotate id]
  | .retrieve secretId _ _ _ _, .ok response, ops => ∃ id content,
      P.parseUuid secretId = some id ∧ response = .content content ∧
        ops = [.retrieve id content.content content.version]
  | .wait, .ok _, ops => ops = []
  | _, .error _, ops => ops = []

/-- The history is one of the machine, and every secret was created by the request that drew its
id. -/
structure Account (P : Platform) (w : World) : Prop where
  refines : Refines opOf Texts.Step (Represents P) Texts.empty w
  distinct : DistinctIds w
  created : ∀ pid id plaintext, (pid, Op.create id plaintext) ∈ entries opOf w → (id, pid) ∈ w.issued

section Account
variable {P : Platform} {w : World} {pid : ℕ}

theorem quiet : Quiet opOf (Account P) fun _ _ _ => False where
  neutral pid w w' h hneutral := by
    refine ⟨h.refines.neutral hneutral rfl ?_, h.distinct.neutral hneutral, ?_⟩
    · intro S db logs hrep
      exact hrep.of_same fun _ => Same.of_eq rfl rfl rfl
    · intro p id plaintext hentry
      rw [entries_of_neutral rfl hneutral] at hentry
      exact hneutral.issued_subset (h.created p id plaintext hentry)
  keep _ _ _ _ _ hK := hK.elim
  unread _ _ _ hK := hK.elim
  audit := rfl

/-- A commit that is an operation of the machine; a creation is one of an id of its own. -/
theorem Account.commit {record : Label} {db : Database} {op : Op} (h : Account P w)
    (hread : opOf record = some op)
    (hstep : ∀ S, Represents P S w.db → ∃ S', Texts.Step S op S' ∧ Represents P S' db)
    (hown : ∀ id plaintext, op = .create id plaintext → (id, pid) ∈ w.issued) :
    Account P (w.commit pid record db) := by
  refine ⟨h.refines.commit hread hstep, h.distinct, ?_⟩
  intro p id plaintext hentry
  rw [entries_commit, hread, List.mem_append] at hentry
  rcases hentry with hold | hnew
  · exact h.created p id plaintext hold
  · simp only [Option.map_some, Option.toList_some, List.mem_singleton, Prod.mk.injEq] at hnew
    rw [hnew.1]
    exact hown id plaintext hnew.2.symm

/-- A secret that exists was created in the run. -/
theorem exists_create {S : Texts} {ops : List Op} (h : Trace Texts.Step Texts.empty ops S) {id : UUID}
    (hne : S id ≠ []) : ∃ plaintext, Op.create id plaintext ∈ ops := by
  revert hne
  apply Trace.invariant h
  · intro hne
    exact (hne rfl).elim
  · intro ops S op S' ih hstep hne
    rcases hstep.created hne with hold | ⟨plaintext, rfl⟩
    · rcases ih hold with ⟨plaintext, hmem⟩
      exact ⟨plaintext, List.mem_append_left _ hmem⟩
    · exact ⟨plaintext, by simp⟩

/-- The secret that a request created is there only if the request committed its creation. -/
theorem Account.silent_fresh {s : Secret} {id : UUID} (h : Account P w) (hdrawn : (id, pid) ∈ w.issued)
    (hsilent : entriesBy opOf pid w = []) : w.db.secrets.find id ≠ some s := by
  intro hs
  rcases h.refines with ⟨S, htrace, hrep⟩
  rcases exists_create htrace (hrep.holds hs).1 with ⟨plaintext, hmem⟩
  rcases List.mem_map.mp hmem with ⟨⟨owner, op⟩, hentry, rfl⟩
  have howner := h.distinct.owner hdrawn (h.created owner id plaintext hentry)
  subst howner
  rw [← mem_entriesBy, hsilent] at hentry
  cases hentry

end Account

def storeRules (P : Platform) : Rules World Label Request Exn Response :=
  rules (Audited P) opOf (Account P) (Told P)

section Handlers
variable {P : Platform} {pid : ℕ} {v : View World Request Exn Response}

/-- The rest of a creation after its transaction. If that was rolled back, the row is missing. -/
theorem wp_afterCreation {body : SecretCreate} {user : CurrentUser} {clientIp : String}
    {reservation : Reservation} {id : UUID} {signedToken : String}
    (h : (Wrote opOf pid (.create body user clientIp) [] v ∧ (id, pid) ∈ v.shared.issued) ∨
      Wrote opOf pid (.create body user clientIp) [.create id body.content] v) :
    (storeRules P).wp pid
      (do
        QuotaService.commit reservation
        Secrets.scheduleExpiry id (body.ttlHours * 3600)
        let row ← query (.secretExpiry id) fun _ db => (db.secrets.find id).map Secret.expiresAt
        let some expiresAt := row | throw .validation
        return (⟨id, s!"{P.settings.baseUrl}/api/secrets/{P.uuidText id}?token={signedToken}",
          signedToken, expiresAt⟩ : SecretCreateResponse))
      (Ready opOf (Told P) pid (.create body user clientIp) Response.created) v := by
  have hcase : ∃ ops, Wrote opOf pid (.create body user clientIp) ops v ∧
      ((ops = [] ∧ (id, pid) ∈ v.shared.issued) ∨ ops = [.create id body.content]) := by
    rcases h with ⟨hnone, hdrawn⟩ | hsome
    · exact ⟨[], hnone, Or.inl ⟨rfl, hdrawn⟩⟩
    · exact ⟨_, hsome, Or.inr rfl⟩
  rcases hcase with ⟨ops, hwrote, hops⟩
  have hfailed : ∀ error v', Wrote opOf pid (.create body user clientIp) ops v' →
      Ready opOf (Told P) pid (.create body user clientIp) Response.created (.error error) v' := by
    intro error v' h'
    apply h'.ready
    rcases hops with ⟨hnil, _⟩ | hcreated
    · exact Or.inl hnil
    · exact Or.inr ⟨id, hcreated⟩
  apply wp_quiet_then quiet (only_commit reservation) hwrote hfailed
  intro _ v₁ h₁ hissued₁
  apply wp_quiet_then quiet ((only_scheduleExpiry id _).tryCatch fun _ => Program.only_pure _) h₁ hfailed
  intro _ v₂ h₂ hissued₂
  apply wp_query_bind rely_refl
  intro v₃ henv hinv _
  have h₃ := h₂.env henv
  refine ⟨hfailed _ v₃ h₃, ?_⟩
  cases hfind : v₃.shared.db.secrets.find id with
  | none => exact hfailed _ v₃ h₃
  | some s =>
    rcases hops with ⟨hnil, hdrawn⟩ | hcreated
    · subst hnil
      have hdrawn₃ := henv.1.2 (hissued₂ (hissued₁ hdrawn))
      exact (hinv.account.silent_fresh hdrawn₃ h₃.entries hfind).elim
    · exact h₃.ready ⟨_, rfl, hcreated⟩

theorem wp_createSecret (sound : P.Sound) {body : SecretCreate} {user : CurrentUser}
    {clientIp : String} (hserver : body.clientEncrypted = false)
    (h : Wrote opOf pid (.create body user clientIp) [] v) :
    (storeRules P).wp pid (Secrets.createSecret P body user clientIp)
      (Ready opOf (Told P) pid (.create body user clientIp) Response.created) v := by
  apply wp_quiet_then quiet (only_reserve P user.id 1 0) h
  · intro error v₁ h₁
    exact h₁.ready (Or.inl rfl)
  · intro reservation v₁ h₁ _
    apply wp_uuid4_then quiet h₁
    intro id v₂ h₂ hdrawn
    apply Rules.wp_bind
    apply Rules.wp_tryCatch
    apply wp_recorded h₂
    intro v₃ henv hinv _ h₃
    constructor
    · intro error
      apply wp_quiet_then quiet (only_release reservation) h₃
      · intro error' v₄ h₄
        exact h₄.ready (Or.inl rfl)
      · intro _ v₄ h₄ _
        exact h₄.ready (Or.inl rfl)
    · intro choice signedToken committed hrun
      have hdrawn₃ := henv.1.2 hdrawn
      cases committed with
      | none => exact wp_afterCreation (Or.inl ⟨h₃, hdrawn₃⟩)
      | some db =>
        refine ⟨.create id body.content, rfl, ?_, fun v₄ h₄ => wp_afterCreation (Or.inr h₄)⟩
        apply hinv.account.commit rfl
        · intro S hrep
          exact step_of_create sound hserver hrun hrep
        · rintro id' plaintext heq
          cases heq
          exact hdrawn₃

/-- The transaction of an update, which commits when it returns. -/
theorem wp_updateSecret (sound : P.Sound) {id : UUID} {body : SecretUpdate} {user : CurrentUser}
    {clientIp : String} (h : Wrote opOf pid (.update id body user clientIp) [] v) :
    (storeRules P).wp pid (SecretVersions.updateSecret P id body user clientIp)
      (Ready opOf (Told P) pid (.update id body user clientIp) Response.updated) v := by
  apply Rules.wp_bind
  apply wp_recorded h
  intro v₁ _ hinv hcond h₁
  constructor
  · intro error
    exact h₁.ready rfl
  · intro choice newVersion committed hrun
    have hcheck := SecretVersions.updateTransaction_ok hrun
    have hip : (inet clientIp).isSome := by
      have hget : v₁.tasks[pid]? = _ := h₁.running
      simp only [Audited, hget] at hcond
      exact hcond hcheck.1
    rcases Option.isSome_iff_exists.mp ((SecretVersions.update_committed_iff hrun).mpr hip) with
      ⟨db, rfl⟩
    refine ⟨.update id body.content newVersion, rfl, ?_, ?_⟩
    · apply hinv.account.commit rfl
      · intro S hrep
        exact step_of_update sound hrun hrep
      · rintro id' plaintext heq
        cases heq
    · intro v₂ h₂
      apply wp_clock_bind rely_refl
      intro v₃ henv _
      exact (h₂.env henv).ready ⟨_, rfl, rfl⟩

theorem wp_restoreSecretVersion (sound : P.Sound) {id : UUID} {version : ℤ} {user : CurrentUser}
    {clientIp : String} (h : Wrote opOf pid (.restore id version user clientIp) [] v) :
    (storeRules P).wp pid (SecretVersions.restoreSecretVersion P id version user clientIp)
      (Ready opOf (Told P) pid (.restore id version user clientIp) Response.updated) v := by
  apply Rules.wp_bind
  apply wp_recorded h
  intro v₁ _ hinv hcond h₁
  constructor
  · intro error
    exact h₁.ready rfl
  · intro choice newVersion committed hrun
    have hcheck := SecretVersions.restoreTransaction_ok hrun
    have hip : (inet clientIp).isSome := by
      have hget : v₁.tasks[pid]? = _ := h₁.running
      simp only [Audited, hget] at hcond
      exact hcond hcheck.1
    rcases Option.isSome_iff_exists.mp ((SecretVersions.restore_committed_iff hrun).mpr hip) with
      ⟨db, rfl⟩
    refine ⟨.restore id version newVersion, rfl, ?_, ?_⟩
    · apply hinv.account.commit rfl
      · intro S hrep
        exact step_of_restore sound hrun hrep
      · rintro id' plaintext heq
        cases heq
    · intro v₂ h₂
      apply wp_clock_bind rely_refl
      intro v₃ henv _
      exact (h₂.env henv).ready ⟨_, rfl, rfl⟩

theorem wp_rotateSecretKey (sound : P.Sound) {secretId : String} {user : CurrentUser}
    {clientIp : String} (h : Wrote opOf pid (.rotateKey secretId user clientIp) [] v) :
    (storeRules P).wp pid (Secrets.rotateSecretKey P secretId user clientIp)
      (Ready opOf (Told P) pid (.rotateKey secretId user clientIp) Response.keyRotated) v := by
  apply wp_liftExcept_bind
  · intro error _
    exact h.ready rfl
  · intro id hid
    apply wp_query_bind rely_refl
    intro v₁ henv _ _
    have h₁ := h.env henv
    refine ⟨h₁.ready rfl, ?_⟩
    cases (v₁.shared.db.secrets.find id).map Secret.ownerId with
    | none => exact h₁.ready rfl
    | some ownerId =>
      apply wp_liftExcept_bind
      · intro error _
        exact h₁.ready rfl
      · intro _ _
        apply Rules.wp_bind
        apply Rules.wp_tryCatch
        apply wp_recorded h₁
        intro v₂ _ hinv _ h₂
        constructor
        · intro error
          exact h₂.ready rfl
        · intro choice newVersion committed hrun
          rcases KeyService.rotateKey_ok hrun with ⟨_, _, _, _, _, _, db, _, _, _, _, _, _, rfl⟩
          refine ⟨.rotate id, rfl, ?_, ?_⟩
          · apply hinv.account.commit rfl
            · intro S hrep
              exact step_of_rotate sound hrun hrep
            · rintro id' plaintext heq
              cases heq
          · intro v₃ h₃
            apply wp_clock_bind rely_refl
            intro v₄ henv₄ _
            apply wp_auditLog_then quiet (h₃.env henv₄)
            intro v₅ h₅
            exact h₅.ready ⟨id, Security.castUuid_ok P hid, rfl⟩

theorem wp_retrieveSecret {secretId : String} {accessPassword token : Option String}
    {clientIp : String} {currentUser : Option CurrentUser}
    (h : Wrote opOf pid (.retrieve secretId accessPassword token clientIp currentUser) [] v) :
    (storeRules P).wp pid
      (Secrets.retrieveSecret P secretId accessPassword token clientIp currentUser)
      (Ready opOf (Told P) pid (.retrieve secretId accessPassword token clientIp currentUser)
        Response.content) v := by
  apply Rules.wp_bind
  apply Rules.wp_mono (Burn.wp_authorizeRetrieval quiet h)
  rintro result v₁ ⟨h₁, hparse⟩
  cases result with
  | error error => exact h₁.ready rfl
  | ok ready =>
    rcases ready with ⟨id, policyVersion⟩
    have hid : P.parseUuid secretId = some id := hparse _ rfl
    simp only [Rules.orRaise]
    apply wp_query_bind rely_refl
    intro v₂ henv _ _
    have h₂ := h₁.env henv
    refine ⟨h₂.ready rfl, ?_⟩
    apply Rules.wp_bind
    apply wp_recorded h₂
    intro v₃ _ hinv _ h₃
    constructor
    · intro error
      exact h₃.ready rfl
    · intro choice seen committed hrun
      rcases Secrets.retrieveTransaction_ok hrun with ⟨_, _, _, _, _, _, db, _, _, _, rfl⟩
      rcases hinv.account.refines with ⟨S, _, hrep⟩
      rcases step_of_retrieve hrun hrep with ⟨text, hseen, _⟩
      refine ⟨.retrieve id (seen.content.getD "") seen.secret.currentVersion, rfl, ?_, ?_⟩
      · apply hinv.account.commit rfl
        · intro S hrep
          rcases step_of_retrieve hrun hrep with ⟨text', hseen', hstep⟩
          rw [hseen']
          exact hstep
        · rintro id' plaintext heq
          cases heq
      · intro v₄ h₄
        rw [hseen] at h₄
        simp only [Rules.orRaise, hseen]
        exact h₄.ready ⟨id, _, hid, rfl, rfl⟩

theorem valid (sound : P.Sound) : (storeRules P).Valid (system P) := by
  apply valid_of_requests fun _ _ => rfl
  intro pid request v₀ v hcond h
  cases request with
  | create body user clientIp => exact wp_ready (wp_createSecret sound hcond h.wrote)
  | update id body user clientIp => exact wp_ready (wp_updateSecret sound h.wrote)
  | restore id version user clientIp => exact wp_ready (wp_restoreSecretVersion sound h.wrote)
  | rotateKey secretId user clientIp => exact wp_ready (wp_rotateSecretKey sound h.wrote)
  | retrieve secretId accessPassword token clientIp currentUser =>
    exact wp_ready (wp_retrieveSecret h.wrote)
  | wait =>
    apply wp_ready
    apply Rules.wp_mono (wp_quiet_wrote quiet only_tick h.wrote)
    intro result v' h'
    cases result with
    | ok _ => exact h'.1.ready rfl
    | error _ => exact h'.1.ready rfl

end Handlers

/-- The store is in step with the machine: its history is a trace of it, the tables represent the
state that the trace ends in, and every answer tells what its request did. -/
structure Refined (P : Platform) (v : View World Request Exn Response) : Prop where
  machine : ∃ S, Trace Texts.Step Texts.empty (history v.shared) S ∧ Represents P S v.shared.db
  answers : v.Delivered fun pid request result w => Told P request result (entriesBy opOf pid w)

/-- In every run whose steps meet the condition, the store refines the machine. -/
theorem store_refines_texts (P : Platform) (sound : P.Sound) (start : Database) (redis : Redis)
    (objects : Table StoredObject.key) (now : Timestamp) (hempty : ∀ id, Absent id start)
    (c : Pool World Choice Label Request Exn Response)
    (run : (system P).Run (Audited P) (Pool.init (worldOf start redis objects now)) c) :
    Refined P c.view := by
  have haccount : Account P (worldOf start redis objects now) := by
    refine ⟨Refines.initial rfl fun id => Or.inl ⟨rfl, hempty id⟩, List.nodup_nil, ?_⟩
    intro pid id plaintext hentry
    cases hentry
  have hinv : Inv opOf (Account P) (Told P) c.view :=
    (valid sound).inv_of_run (inv_initial rfl haccount) run
  exact ⟨hinv.account.refines, hinv.delivered⟩

section Sample

def sampleCaller : CurrentUser := ⟨1, "ada@example.org", .user, true, true⟩

/-- No secrets, and one user. -/
def emptyStore : Database := { Database.empty with users := sampleUsers }

theorem emptyStore_absent (id : UUID) : Absent id emptyStore :=
  ⟨rfl, fun _ => rfl, fun _ => rfl⟩

/-- Three different draws. -/
def sampleRandom (k : UInt8) : Random := { dek := [k], wrapNonce := [k + 1], contentNonce := [k + 2] }

/-- A creation, an update and a retrieval, one after the other. -/
def createUpdateRetrieve (clientIp : String) : List (Event Choice Request) :=
  .start (.create { content := "a", maxViews := 2 } sampleCaller "203.0.113.9") ::
    List.replicate 6 (.act 0 { uuid := 6, random := sampleRandom 1 }) ++
    List.replicate 6 (.act 0 { uuid := 7, random := sampleRandom 1 }) ++
  .start (.update 7 { content := "b", expectedVersion := 1 } sampleCaller clientIp) ::
    List.replicate 3 (.act 1 { random := sampleRandom 4 }) ++
  .start (.retrieve (samplePlatform.uuidText 7) none none "203.0.113.9" none) ::
    List.replicate 5 (.act 2 {})

theorem store_refines_texts_sample :
    ∃ c : Pool World Choice Label Request Exn Response,
      history c.view.shared = [.create 7 "a", .update 7 "b" 2, .retrieve 7 "b" 2] ∧
      Refined samplePlatform c.view := by
  rcases (system samplePlatform).exists_run (Audited samplePlatform)
      (Pool.init (worldOf emptyStore .empty .empty 0)) (createUpdateRetrieve "203.0.113.9")
      (fun v => history v.shared = [.create 7 "a", .update 7 "b" 2, .retrieve 7 "b" 2])
      (by decide +kernel) with ⟨c, run, h⟩
  refine ⟨c, of_decide_eq_true h, ?_⟩
  exact store_refines_texts samplePlatform (Platform.plain_sound _) emptyStore .empty .empty 0
    emptyStore_absent c run

/-- An update from an unknown address answers with version 2, and the next retrieval returns
version 1. -/
theorem update_lost :
    ∃ c : Pool World Choice Label Request Exn Response,
      (system samplePlatform).Run (fun _ _ => True) (Pool.init (worldOf emptyStore .empty .empty 0)) c ∧
      history c.view.shared = [.create 7 "a", .retrieve 7 "a" 1] ∧
      c.view.answered 1 (.update 7 { content := "b", expectedVersion := 1 } sampleCaller "unknown") ∧
      ¬ Refined samplePlatform c.view := by
  rcases (system samplePlatform).exists_run (fun _ _ => True)
      (Pool.init (worldOf emptyStore .empty .empty 0)) (createUpdateRetrieve "unknown")
      (fun v => history v.shared = [.create 7 "a", .retrieve 7 "a" 1] ∧
        entriesBy opOf 1 v.shared = [] ∧
        v.answered 1 (.update 7 { content := "b", expectedVersion := 1 } sampleCaller "unknown"))
      (by decide +kernel) with ⟨c, run, h⟩
  have hfacts := of_decide_eq_true h
  refine ⟨c, run, hfacts.1, hfacts.2.2, ?_⟩
  intro hrefined
  rcases View.exists_of_answered hfacts.2.2 with ⟨response, hget⟩
  rcases hrefined.answers 1 _ _ hget with ⟨updated, _, hops⟩
  rw [hfacts.2.1] at hops
  cases hops

end Sample

end PhantomShare.Store
