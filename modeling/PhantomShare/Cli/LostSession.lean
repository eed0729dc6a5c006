import PhantomShare.Cli.TokenRotation
import PhantomShare.Foundations.Chronicle

/-!
# Requests after a lost session

A refresh that fails for good clears the credentials. A goroutine that enters
`refreshAccessToken` later, with the token it had before, takes the empty token
for one that another goroutine has renewed, and sends its request without one.
-/
namespace PhantomShare.Cli
open Foundations Internet

namespace LostSession

/-- The steps of one call of `send`. -/
abbrev Past := List (Action State Choice Label)

/-- The call goes through `refreshAccessToken` after the credentials were cleared. -/
def Late (action : Action State Choice Label) : Prop :=
  (∃ failedToken, action.label = .refreshAccessToken failedToken) ∧ ended action.before.log = true

/-- A request leaves the client. -/
def Sent (token : Text) (action : Action State Choice Label) : Prop :=
  action.label = .sendOnce token ∧ action.choice.builds = true

/-- The call has entered with an access token. -/
def Entered (past : Past) : Prop :=
  ∃ s choice s' rest, past = ⟨.accessTokenSnapshot, s, choice, s'⟩ :: rest ∧
    s.client.accessToken ≠ []

/-- A call that comes late returns an error and sends no request without a token. -/
def Refused (past : Past) (result : Except ClientError Response) : Prop :=
  (∃ action ∈ past, Late action) →
    (∃ error, result = .error error) ∧ ∀ action ∈ past, ¬ Sent [] action

/-- The call never comes late; or it brings a token, and no request can be built from then on. -/
def Spared (past : Past) : Prop :=
  ∀ before action after, past = before ++ action :: after → Late action →
    action.label ≠ .refreshAccessToken [] ∧
      ∀ later ∈ after, ∀ token, later.label = .sendOnce token → later.choice.builds = false

/-! ### A cleared client stays cleared -/

def Cleared (s : State) : Prop :=
  ended s.log = true → s.client.accessToken = [] ∧ s.client.refreshToken = []

/-- The session of an earlier state has not begun again. -/
def Lasts (s s' : State) : Prop := ended s.log = true → ended s'.log = true

theorem cleared_forget (s : State) : Cleared s.forget := fun _ => ⟨rfl, rfl⟩

theorem lasts_record (s : State) (call : Call) : Lasts s (s.record call) := by
  intro h
  simp [State.record, h]

theorem lasts_forget (s : State) : Lasts s s.forget := by
  intro h
  unfold State.forget
  split
  · exact lasts_record s .clear h
  · exact h

theorem refreshLocked_cleared {C : Codec} {failedToken : Text} {choice : Choice} {s : State}
    (h : Cleared s) : Cleared (refreshLocked C failedToken choice s).1 ∧
      Lasts s (refreshLocked C failedToken choice s).1 := by
  have hsame : Lasts s s := id
  simp only [refreshLocked]
  split
  · exact ⟨h, hsame⟩
  · split
    · exact ⟨h, hsame⟩
    · rename_i hsession
      have hlive : ended s.log = false := by
        rw [← Bool.not_eq_true]
        intro hended
        exact hsession (h hended).2
      split
      · rename_i cause hresult
        split
        · exact ⟨cleared_forget _, fun hended => lasts_forget _ (lasts_record s _ hended)⟩
        · rename_i hcause
          refine ⟨?_, lasts_record s _⟩
          intro hended
          simp [State.record, hlive, Call.endsSession, hresult, hcause] at hended
      · rename_i tokens hresult
        split
        · rename_i hsaves
          refine ⟨?_, fun hended => lasts_record _ _ (lasts_record s _ hended)⟩
          intro hended
          simp [State.record, hlive, Call.endsSession, hresult, hsaves] at hended
        · refine ⟨cleared_forget _, ?_⟩
          intro hended
          exact lasts_forget _ (lasts_record _ _ (lasts_record s _ hended))

/-- Every step keeps a cleared client cleared. -/
theorem only_send (C : Codec) :
    (send C).Only fun _ _ s s' => Cleared s → Cleared s' ∧ Lasts s s' := by
  have hread : ∀ s : State, Cleared s → Cleared s ∧ Lasts s s := fun s h => ⟨h, id⟩
  have hsnapshot : accessTokenSnapshot.Only fun _ _ s s' => Cleared s → Cleared s' ∧ Lasts s s' := by
    apply Program.only_perform
    intro pid s choice s' r hact
    cases hact
    exact hread s
  have henabled : autoRefreshEnabled.Only fun _ _ s s' => Cleared s → Cleared s' ∧ Lasts s s' := by
    apply Program.only_perform
    intro pid s choice s' r hact
    cases hact
    exact hread s
  have hexpires : ∀ token,
      (expiresSoon C token).Only fun _ _ s s' => Cleared s → Cleared s' ∧ Lasts s s' := by
    intro token
    apply henabled.bind
    intro enabled
    cases enabled with
    | false => exact Program.only_pure false
    | true =>
      apply Program.Only.bind
      · apply Program.only_perform
        intro pid s choice s' r hact
        cases hact
        exact hread s
      · exact fun _ => Program.only_pure _
  have hrefresh : ∀ token,
      (refreshAccessToken C token).Only fun _ _ s s' => Cleared s → Cleared s' ∧ Lasts s s' := by
    intro token
    apply Program.only_perform
    intro pid s choice s' r hact hcleared
    have hs : s' = (refreshLocked C token choice s).1 := by
      rw [Option.some.injEq] at hact
      rw [hact]
    rw [hs]
    exact refreshLocked_cleared hcleared
  have hsend : ∀ token, (sendOnce token).Only fun _ _ s s' => Cleared s → Cleared s' ∧ Lasts s s' := by
    intro token
    apply Program.only_perform
    intro pid s choice s' r hact hcleared
    cases hbuilds : choice.builds <;> simp only [hbuilds, Bool.not_false, Bool.not_true, if_true,
      Bool.false_eq_true, if_false, Option.some.injEq, Prod.mk.injEq] at hact <;> rw [← hact.1]
    · exact hread s hcleared
    · refine ⟨?_, lasts_record s _⟩
      intro hended
      apply hcleared
      simpa [State.record, Call.endsSession] using hended
  apply hsnapshot.bind
  intro snapshot
  apply (hexpires snapshot).bind
  intro expires
  have hrest : ∀ token, (do
      let resp ← sendOnce token
      if resp.status ≠ 401 || !isBearerChallenge resp then return resp
      else
        let enabled ← autoRefreshEnabled
        if !enabled then return resp
        else
          refreshAccessToken C token
          let renewed ← accessTokenSnapshot
          sendOnce renewed : Command Response).Only
            fun _ _ s s' => Cleared s → Cleared s' ∧ Lasts s s' := by
    intro token
    apply (hsend token).bind
    intro resp
    split
    · exact Program.only_pure resp
    · apply henabled.bind
      intro enabled
      cases enabled with
      | false => exact Program.only_pure resp
      | true => exact (hrefresh token).bind fun _ => hsnapshot.bind hsend
  cases expires with
  | false => exact hrest snapshot
  | true => exact (hrefresh snapshot).bind fun _ => hsnapshot.bind hrest

/-! ### What one call does -/

/-- The states that a call meets. -/
abbrev Meets : Past → State → Prop := System.Situated Cleared Lasts

/-- How the requests of a call relate to its refreshes. -/
structure Honest (past : Past) (action : Action State Choice Label) : Prop where
  bare : ∀ token, action.label = .sendOnce token → (∃ late ∈ past, Late late) → token = []
  again : ∀ failedToken, action.label = .refreshAccessToken failedToken →
    ∀ sent ∈ past, ∀ token, Sent token sent → token = failedToken
  first : ∀ failedToken, action.label = .refreshAccessToken failedToken → Entered past →
    failedToken = [] → ∃ sent ∈ past, Sent [] sent

/-- After every refresh a request has been sent. -/
def Followed (past : Past) : Prop :=
  ∀ before action after, past = before ++ action :: after →
    (∃ failedToken, action.label = .refreshAccessToken failedToken) →
      ∃ sent ∈ after, ∃ token, Sent token sent

section Facts
variable {past : Past} {action : Action State Choice Label}

theorem honest_of_ne (hsend : ∀ token, action.label ≠ .sendOnce token)
    (hrefresh : ∀ token, action.label ≠ .refreshAccessToken token) : Honest past action where
  bare token h := absurd h (hsend token)
  again token h := absurd h (hrefresh token)
  first token h := absurd h (hrefresh token)

theorem Followed.snoc (h : Followed past)
    (hrefresh : ∀ token, action.label ≠ .refreshAccessToken token) :
    Followed (past ++ [action]) := by
  rintro before refresh after heq ⟨token, htoken⟩
  rcases place_in_snoc heq with ⟨_, rfl, _⟩ | ⟨middle, rfl, hpast⟩
  · exact absurd htoken (hrefresh token)
  · rcases h before refresh middle hpast ⟨token, htoken⟩ with ⟨sent, hmem, hsent⟩
    exact ⟨sent, List.mem_append_left _ hmem, hsent⟩

theorem followed_sent {token : Text} (h : Sent token action) : Followed (past ++ [action]) := by
  rintro before refresh after heq ⟨failedToken, hlabel⟩
  rcases place_in_snoc heq with ⟨_, rfl, _⟩ | ⟨middle, rfl, _⟩
  · rw [h.1] at hlabel
    cases hlabel
  · exact ⟨action, List.mem_append_right _ (List.mem_singleton_self _), token, h⟩

/-- A call that has come late finds no token. -/
theorem snapshot_late {s : State} (h : Meets past s) (hlate : ∃ late ∈ past, Late late) :
    s.client.accessToken = [] := by
  rcases hlate with ⟨late, hmem, _, hended⟩
  exact (h.1 (h.2 late hmem hended)).1

end Facts

section Accounts
variable {C : Codec} {pid : ℕ} {past : Past} {token : Text}

/-- Before its first request, a call holds the token it has entered with or a renewed one. -/
structure Holding (past : Past) (token : Text) : Prop where
  unsent : ∀ action ∈ past, ∀ token, ¬ Sent token action
  bare : (∃ late ∈ past, Late late) → token = []

/-- Until it refreshes, a call holds the token it has entered with. -/
structure Entering (past : Past) (token : Text) : Prop where
  quiet : ∀ action ∈ past, (∀ token, action.label ≠ .sendOnce token) ∧
    ∀ token, action.label ≠ .refreshAccessToken token
  entered : Entered past → token ≠ []
  begun : past ≠ []

theorem Entering.holding (h : Entering past token) : Holding past token where
  unsent action hmem token hsent := (h.quiet action hmem).1 token hsent.1
  bare := by
    rintro ⟨late, hmem, ⟨failedToken, hlabel⟩, _⟩
    exact absurd hlabel ((h.quiet late hmem).2 failedToken)

/-- A step that neither sends nor refreshes. -/
theorem Entering.snoc {action : Action State Choice Label} (h : Entering past token)
    (hsend : ∀ token, action.label ≠ .sendOnce token)
    (hrefresh : ∀ token, action.label ≠ .refreshAccessToken token) :
    Entering (past ++ [action]) token where
  quiet other hmem := by
    rcases List.mem_append.mp hmem with hold | hnew
    · exact h.quiet other hold
    · rw [List.mem_singleton.mp hnew]
      exact ⟨hsend, hrefresh⟩
  entered := by
    rintro ⟨s, choice, s', rest, hpast, hnonempty⟩
    apply h.entered
    cases past with
    | nil => exact absurd rfl h.begun
    | cons first others =>
      rw [List.cons_append, List.cons.injEq] at hpast
      exact ⟨s, choice, s', others, by rw [hpast.1], hnonempty⟩
  begun := by simp

/-- After a request that was sent with a token. -/
structure Asked (past : Past) (token : Text) : Prop where
  followed : Followed past
  sent : ∃ action ∈ past, Sent token action
  only : ∀ action ∈ past, ∀ other, Sent other action → other = token

theorem Asked.snoc {action : Action State Choice Label} (h : Asked past token)
    (hsend : ∀ token, action.label ≠ .sendOnce token)
    (hrefresh : ∀ token, action.label ≠ .refreshAccessToken token) :
    Asked (past ++ [action]) token where
  followed := h.followed.snoc hrefresh
  sent := by
    rcases h.sent with ⟨sent, hmem, hsent⟩
    exact ⟨sent, List.mem_append_left _ hmem, hsent⟩
  only other hmem token' hother := by
    rcases List.mem_append.mp hmem with hold | hnew
    · exact h.only other hold token' hother
    · rw [List.mem_singleton.mp hnew] at hother
      exact absurd hother.1 (hsend token')

theorem accounts_snapshot : accessTokenSnapshot.Accounts pid Meets Honest (fun past' token =>
    (∃ s choice s', token = s.client.accessToken ∧
      past' = past ++ [⟨.accessTokenSnapshot, s, choice, s'⟩]) ∧
    ((∃ late ∈ past', Late late) → token = [])) past := by
  apply (Program.accounts_action fun s choice s' => honest_of_ne (by simp) (by simp)).mono
  rintro past' token ⟨s, choice, s', hmeets, hact, rfl⟩
  cases hact
  refine ⟨⟨s, choice, s, rfl, rfl⟩, ?_⟩
  rintro ⟨late, hmem, hlate⟩
  rcases List.mem_append.mp hmem with hold | hnew
  · exact snapshot_late hmeets ⟨late, hold, hlate⟩
  · rw [List.mem_singleton.mp hnew] at hlate
    rcases hlate.1 with ⟨_, hlabel⟩
    cases hlabel

theorem accounts_expiresSoon (h : Entering past token) :
    (expiresSoon C token).Accounts pid Meets Honest (fun past' _ => Entering past' token) past := by
  apply (Program.accounts_action fun s choice s' => honest_of_ne (by simp) (by simp)).bind
  rintro past₁ enabled _ ⟨s, choice, s', _, _, rfl⟩
  have h₁ : Entering (past ++ [⟨.autoRefreshEnabled, s, choice, s'⟩]) token :=
    h.snoc (by simp) (by simp)
  cases enabled with
  | false => exact Program.accounts_pure h₁
  | true =>
    apply (Program.accounts_action fun s choice s' => honest_of_ne (by simp) (by simp)).bind
    rintro past₂ time _ ⟨s₂, choice₂, s₂', _, _, rfl⟩
    exact Program.accounts_pure (h₁.snoc nofun nofun)

/-- A request that is sent with the token that a call holds. -/
theorem accounts_sendOnce (bare : (∃ late ∈ past, Late late) → token = []) :
    (sendOnce token).Accounts pid Meets Honest (fun past' _ => ∃ action, Sent token action ∧
      past' = past ++ [action]) past := by
  have hhonest : ∀ s choice s', Honest past ⟨.sendOnce token, s, choice, s'⟩ := by
    intro s choice s'
    refine ⟨?_, nofun, nofun⟩
    intro other hlabel
    cases hlabel
    exact bare
  apply (Program.accounts_action hhonest).mono
  rintro past' resp ⟨s, choice, s', _, hact, rfl⟩
  refine ⟨_, ⟨rfl, ?_⟩, rfl⟩
  cases hbuilds : choice.builds with
  | true => rfl
  | false => simp [hbuilds] at hact

/-- A refresh with the token that the call has entered with or sent. -/
theorem accounts_refreshAccessToken
    (again : ∀ sent ∈ past, ∀ other, Sent other sent → other = token)
    (first : Entered past → token = [] → ∃ sent ∈ past, Sent [] sent) :
    (refreshAccessToken C token).Accounts pid Meets Honest (fun past' _ =>
      ∃ action, action.label = .refreshAccessToken token ∧ past' = past ++ [action]) past := by
  have hhonest : ∀ s choice s', Honest past ⟨.refreshAccessToken token, s, choice, s'⟩ := by
    intro s choice s'
    refine ⟨nofun, ?_, ?_⟩
    · intro failedToken hlabel
      cases hlabel
      exact again
    · intro failedToken hlabel
      cases hlabel
      exact first
  apply (Program.accounts_action hhonest).mono
  rintro past' _ ⟨s, choice, s', _, _, rfl⟩
  exact ⟨_, rfl, rfl⟩

/-- What follows the choice of the first token. -/
theorem accounts_rest (h : Holding past token) :
    (do
      let resp ← sendOnce token
      if resp.status ≠ 401 || !isBearerChallenge resp then return resp
      else
        let enabled ← autoRefreshEnabled
        if !enabled then return resp
        else
          refreshAccessToken C token
          let renewed ← accessTokenSnapshot
          sendOnce renewed : Command Response).Accounts pid Meets Honest
            (fun past' _ => Followed past') past := by
  apply (accounts_sendOnce h.bare).bind
  rintro past₁ resp _ ⟨sent, hsent, rfl⟩
  have h₁ : Asked (past ++ [sent]) token := by
    refine ⟨followed_sent hsent, ⟨sent, List.mem_append_right _ (List.mem_singleton_self _), hsent⟩, ?_⟩
    intro action hmem other hother
    rcases List.mem_append.mp hmem with hold | hnew
    · exact absurd hother (h.unsent action hold other)
    · rw [List.mem_singleton.mp hnew, Sent, hsent.1, Label.sendOnce.injEq] at hother
      exact hother.1.symm
  split
  · exact Program.accounts_pure h₁.followed
  · apply (Program.accounts_action fun s choice s' => honest_of_ne (by simp) (by simp)).bind
    rintro past₂ enabled _ ⟨s, choice, s', _, _, rfl⟩
    have h₂ : Asked (past ++ [sent] ++ [⟨.autoRefreshEnabled, s, choice, s'⟩]) token :=
      h₁.snoc (by simp) (by simp)
    cases enabled with
    | false => exact Program.accounts_pure h₂.followed
    | true =>
      have hfirst : Entered (past ++ [sent] ++ [⟨.autoRefreshEnabled, s, choice, s'⟩]) →
          token = [] → ∃ action ∈ past ++ [sent] ++ [⟨.autoRefreshEnabled, s, choice, s'⟩],
            Sent [] action := by
        rintro _ rfl
        exact h₂.sent
      apply (accounts_refreshAccessToken h₂.only hfirst).bind
      rintro past₃ _ _ _
      apply accounts_snapshot.bind
      rintro past₄ renewed _ ⟨_, hbare⟩
      apply (accounts_sendOnce hbare).mono
      rintro past₅ resp ⟨action, hsent, rfl⟩
      exact followed_sent hsent

theorem accounts_send :
    (send C).Accounts pid Meets Honest (fun past' _ => Followed past') [] := by
  apply accounts_snapshot.bind
  rintro past₁ snapshot _ ⟨⟨s, choice, s', rfl, rfl⟩, _⟩
  have h₁ : Entering ([] ++ [⟨.accessTokenSnapshot, s, choice, s'⟩]) s.client.accessToken := by
    refine ⟨by simp, ?_, by simp⟩
    rintro ⟨_, _, _, _, hpast, hnonempty⟩
    cases hpast
    exact hnonempty
  apply (accounts_expiresSoon h₁).bind
  intro past₂ expires _ h₂
  cases expires with
  | false => exact accounts_rest h₂.holding
  | true =>
    have hagain : ∀ sent ∈ past₂, ∀ other, Sent other sent → other = s.client.accessToken :=
      fun sent hmem other hother => absurd hother (h₂.holding.unsent sent hmem other)
    have hfirst : Entered past₂ → s.client.accessToken = [] → ∃ sent ∈ past₂, Sent [] sent :=
      fun hentered hempty => absurd hempty (h₂.entered hentered)
    apply (accounts_refreshAccessToken hagain hfirst).bind
    rintro past₃ _ _ ⟨refresh, hlabel, rfl⟩
    apply accounts_snapshot.bind
    rintro past₄ renewed _ ⟨⟨s₄, choice₄, s₄', _, rfl⟩, hbare⟩
    apply accounts_rest
    refine ⟨?_, hbare⟩
    intro action hmem token hsent
    simp only [List.mem_append, List.mem_singleton] at hmem
    rcases hmem with (hold | rfl) | rfl
    · exact h₂.holding.unsent action hold token hsent
    · rw [Sent, hlabel] at hsent
      cases hsent.1
    · cases hsent.1

end Accounts

/-! ### Runs -/

/-- A call that has entered with an access token keeps the promise exactly when it does not come
late with a request that can be built. -/
theorem refused_iff {past : Past} {result : Except ClientError Response}
    (honest : Throughout Honest past) (hfollowed : ∀ resp, result = .ok resp → Followed past)
    (hentered : Entered past) : Refused past result ↔ Spared past := by
  constructor
  · intro hrefused before action after hpast hlate
    have hmem : action ∈ past := by simp [hpast]
    rcases hrefused ⟨action, hmem, hlate⟩ with ⟨_, hnone⟩
    constructor
    · intro hlabel
      have hbegun : Entered before := by
        rcases hentered with ⟨s, choice, s', rest, hfirst, hnonempty⟩
        cases before with
        | nil =>
          cases hpast.symm.trans hfirst
          cases hlabel
        | cons first others =>
          cases hpast.symm.trans hfirst
          exact ⟨s, choice, s', others, rfl, hnonempty⟩
      rcases (honest before action after hpast).first [] hlabel hbegun rfl with ⟨sent, hsent, h⟩
      exact hnone sent (by simp [hpast, hsent]) h
    · intro later hlater token hlabel
      rcases List.append_of_mem hlater with ⟨x, y, hafter⟩
      have hplace : past = (before ++ action :: x) ++ later :: y := by simp [hpast, hafter]
      have hempty : token = [] :=
        (honest _ later y hplace).bare token hlabel ⟨action, by simp, hlate⟩
      cases hbuilds : later.choice.builds with
      | false => rfl
      | true => exact absurd ⟨hempty ▸ hlabel, hbuilds⟩ (hnone later (by simp [hplace]))
  · rintro hspared ⟨action, hmem, hlate⟩
    rcases List.append_of_mem hmem with ⟨before, after, hpast⟩
    rcases hspared before action after hpast hlate with ⟨hbrings, hbuilds⟩
    rcases hlate with ⟨⟨failedToken, hlabel⟩, _⟩
    constructor
    · cases result with
      | error error => exact ⟨error, rfl⟩
      | ok resp =>
        rcases hfollowed resp rfl before action after hpast ⟨failedToken, hlabel⟩ with
          ⟨sent, hsent, token, h⟩
        have hfalse := hbuilds sent hsent token h.1
        rw [h.2] at hfalse
        cases hfalse
    · intro sent hsent h
      rw [hpast, List.mem_append, List.mem_cons] at hsent
      rcases hsent with hbefore | rfl | hafter
      · have hsame := (honest before action after hpast).again failedToken hlabel sent hbefore [] h
        exact hbrings (hsame ▸ hlabel)
      · cases h.1.symm.trans hlabel
      · have hfalse := hbuilds sent hafter [] h.1
        rw [h.2] at hfalse
        cases hfalse

/-- In every run, a finished call that has entered with an access token returns an error and sends
nothing without a token after the session was lost, exactly when it never goes through
`refreshAccessToken` from then on, or does so with a token and can build no further request. -/
theorem lost_session_iff (C : Codec) (start : Client) (past : ℕ → Past)
    (c : Pool State Choice Label Unit ClientError Response)
    (told : (system C).Chronicle (.init ⟨start, []⟩) past c) (pid : ℕ)
    (result : Except ClientError Response)
    (hfinished : c.view.tasks[pid]? = some ((), .finished result)) (hentered : Entered (past pid)) :
    Refused (past pid) result ↔ Spared (past pid) := by
  have hsituated : ∀ past c, (system C).Chronicle (.init ⟨start, []⟩) past c →
      ∀ pid, Meets (past pid) c.shared := by
    intro past c told
    apply (told.situated (fun _ _ _ hab hbd h => hbd (hab h)) (fun _ => id) (fun _ => only_send C)
      (fun _ _ _ _ h hstep => hstep h) (fun _ _ h => ⟨h, id⟩) _).2
    exact nofun
  have haccounted : System.Accounted Meets (fun _ => Honest) (fun _ past' _ => Followed past') past c :=
    told.accounted hsituated fun _ _ => accounts_send
  rw [Pool.view_get, Option.map_eq_some_iff] at hfinished
  rcases hfinished with ⟨⟨⟨⟩, phase⟩, hget, hphase⟩
  apply refused_iff (haccounted.done pid _ _ hget) _ hentered
  rintro resp rfl
  cases phase with
  | finished result =>
    cases hphase
    exact haccounted.returned pid _ resp hget
  | running p => cases hphase
  | crashed => cases hphase

section Sample

/-- Two challenged calls; the refresh of the first is rejected before the second comes to its own. -/
def rejectedThenLate : List (Event Choice Unit) :=
  untilRefresh 0 ++ untilRefresh 1 ++
    [.act 0 (answers 401 "{}".toList), .act 1 {}, .act 1 {}, .act 1 (answers 200 []), .act 1 {}]

/-- The second call returns the answer to a request without a token. -/
theorem late_call_is_anonymous :
    ∃ past c resp, (system sampleCodec).Chronicle (.init ⟨sampleClient, []⟩) past c ∧
      c.view.tasks[1]? = some ((), .finished (.ok resp)) ∧ Entered (past 1) ∧
      (∃ action ∈ past 1, Late action) ∧ ∃ action ∈ past 1, Sent [] action := by
  rcases (system sampleCodec).exists_chronicle (.init ⟨sampleClient, []⟩) rejectedThenLate
    (fun past v => v.answered 1 () && ((past 1).head?.any (fun a => a.label = .accessTokenSnapshot ∧
        a.before.client.accessToken ≠ []) && ((past 1).any (fun a =>
          a.label = .refreshAccessToken "old".toList ∧ ended a.before.log = true) &&
            (past 1).any fun a => a.label = .sendOnce [] ∧ a.choice.builds = true)))
    (by decide +kernel) with ⟨past, c, told, h⟩
  simp only [Bool.and_eq_true, Option.any_eq_true, List.any_eq_true, decide_eq_true_eq] at h
  rcases h with ⟨hanswered, ⟨⟨label, s, choice, s'⟩, hhead, hlabel, htoken⟩, ⟨late, hlate, hrefresh,
    hended⟩, sent, hmem, hsent⟩
  rcases View.exists_of_answered hanswered with ⟨resp, htask⟩
  rcases List.head?_eq_some_iff.mp hhead with ⟨rest, hpast⟩
  cases hlabel
  exact ⟨past, c, resp, told, htask, ⟨s, choice, s', rest, hpast, htoken⟩,
    ⟨late, hlate, ⟨_, hrefresh⟩, hended⟩, sent, hmem, hsent⟩

theorem late_call_not_refused :
    ∃ past c resp, (system sampleCodec).Chronicle (.init ⟨sampleClient, []⟩) past c ∧
      c.view.tasks[1]? = some ((), .finished (.ok resp)) ∧ Entered (past 1) ∧
      ¬ Refused (past 1) (.ok resp) := by
  rcases late_call_is_anonymous with ⟨past, c, resp, told, htask, hentered, hlate, _⟩
  refine ⟨past, c, resp, told, htask, hentered, ?_⟩
  intro hrefused
  rcases (hrefused hlate).1 with ⟨error, herror⟩
  cases herror

theorem lost_session_iff_sample :
    ∃ past c resp, (system sampleCodec).Chronicle (.init ⟨sampleClient, []⟩) past c ∧
      c.view.tasks[1]? = some ((), .finished (.ok resp)) ∧
      (Refused (past 1) (.ok resp) ↔ Spared (past 1)) := by
  rcases late_call_is_anonymous with ⟨past, c, resp, told, htask, hentered, _⟩
  exact ⟨past, c, resp, told, htask,
    lost_session_iff sampleCodec sampleClient past c told 1 _ htask hentered⟩

end Sample

end LostSession
end PhantomShare.Cli
