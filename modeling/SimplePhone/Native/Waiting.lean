import SimplePhone.Native.Line

/-! An incoming call that nobody has answered, followed through any steps of the
event loop, the disturbed ones included. -/
namespace SimplePhone.Native

open Globals Transition

/-- The callbacks after which a call does not wait for an answer any more. -/
def Callback.settles : Callback → Bool
  | .onCallStarted | .onCallEnded | .onCallFailed _ => true
  | _ => false

variable {g t : Globals}

/-- The line is only ever occupied by the current call. -/
theorem gCall_of_line {c : CallId} (h : g.line.call = some c) : g.gCall = some c := by
  cases hd : g.gCall with
  | none =>
    rw [line_idle hd] at h
    cases h
  | some d =>
    rw [line_current hd] at h
    cases hx : g.find d with
    | none =>
      rw [hx] at h
      cases h
    | some x =>
      rw [hx] at h
      have hid : x.id = d := by simpa using List.find?_some hx
      rw [← hid, ← x.line_call]
      exact h

theorem line_answer_ne (l : Line) (c : CallId) (peer : Str) :
    l.answer ≠ .ringing c peer false := by
  cases l <;> simp [Line.answer]

/-- A call waits on as long as the app hears nothing and no handler answers it or
takes it away; and no call begins to wait other than by ringing. -/
theorem waiting_step (hco : Coherent g) {a : Action} (hstep : step g a = some t) {c : CallId}
    (hc : c < g.nextCall) (peer : Str) : t.line = .ringing c peer false ↔
      g.line = .ringing c peer false ∧ t.news = [] ∧ a.hushes g = false := by
  have hnew : t.gCall = some g.nextCall → t.line ≠ .ringing c peer false := by
    intro hcall hline
    have hc' := gCall_of_line (c := c) (by rw [hline]; rfl)
    rw [hcall] at hc'
    exact Nat.ne_of_gt hc (Option.some.inj hc')
  have hnone : t.gCall = none → t.line ≠ .ringing c peer false := by
    intro hcall hline
    rw [line_idle hcall] at hline
    cases hline
  have hbusy : g.line = .ringing c peer false → g.gCall = some c := by
    intro hline
    exact gCall_of_line (by rw [hline]; rfl)
  have hloud {l : List Delivery} (hnews : t.news = l) (hl : g.gCall = some c → l ≠ [])
      (hline : t.line ≠ .ringing c peer false) : t.line = .ringing c peer false ↔
        g.line = .ringing c peer false ∧ t.news = [] ∧ a.hushes g = false :=
    iff_of_false hline fun h => hl (hbusy h.1) (hnews ▸ h.2.1)
  cases step_effect hco hstep with
  | quiet ha hcall hin hlive hnext hnews hua =>
    have hline := line_quiet hco ha hstep
    cases hhush : a.hushes g with
    | true =>
      rw [hhush, if_pos rfl] at hline
      refine iff_of_false ?_ (by simp)
      rw [hline]
      exact line_answer_ne _ _ _
    | false =>
      rw [hhush, if_neg (by simp)] at hline
      rw [hline]
      refine ⟨fun h => ⟨h, ?_, rfl⟩, fun h => h.1⟩
      rw [hnews]
      split
      · rename_i heq
        subst heq
        -- a dial that wakes up finds no call
        obtain ⟨uri, hdial, -⟩ := step_connect.mp hstep
        have hidle := (hco.dialing (by simp [hdial])).1
        rw [hbusy h] at hidle
        cases hidle
      · rfl
  | established hc' hconf hcall hin hlive hnext hnews hua hfind =>
    refine hloud hnews (by simp) ?_
    rw [line_current hcall, hfind]
    cases g.find _ with
    | none => exact fun h => nomatch h
    | some x => exact fun h => nomatch h
  | incoming hidle hcall hin hlive hnext hnews hua hfind => exact hloud hnews (by simp) (hnew hcall)
  | outgoing hdial hcall hin hlive hnext hnews hua hfind =>
    refine hloud hnews ?_ (hnew hcall)
    rw [(hco.dialing hdial).1]
    simp
  | dropped hdial hcall hin hlive hnext hnews hua => exact hloud hnews (by simp) (hnew hcall)
  | closed hc' hcall hin hlive hnext hnews hua =>
    exact hloud hnews (fun hcur => by simp [hcur]) (hnone hcall)
  | hungUp hw hangs hc' hcall hin hlive hnext hnews hua => exact hloud hnews (by simp) (hnone hcall)
  | audioError hc' hcall hin hlive hnext hnews hua => exact hloud hnews (by simp) (hnone hcall)
  | turnedAway hresult hcall hin hlive hnext hnews hua =>
    exact hloud hnews (fun hcur => by simp [hcur]) (hnone hcall)
  | @replaced peer' r result _ hresult hr hcall hin hlive hnext hnews hua hfind =>
    refine hloud hnews (fun hcur => by simp [hcur]) ?_
    split at hcall
    · exact hnew hcall
    · exact hnone hcall
  | reregistered hw hcall hin hlive hnext hnews =>
    refine iff_of_false (hnone hcall) fun h => ?_
    simp [Action.hushes, hw] at h

/-- The last thing the app hears in a step is that an INVITE rings, or it hears only of
calls that wait no longer. -/
theorem news_step (hco : Coherent g) {a : Action} (hstep : step g a = some t) :
    (∀ d ∈ t.news, d.callback.settles = true) ∨ ∃ l peer,
      t.news = l ++ [⟨.onIncomingCall (callerNumber (bounded 256 peer)), some g.nextCall⟩] ∧
      (∀ d ∈ l, d.callback.settles = true) ∧ (l = [] → g.gCall = none) ∧
      t.line = .ringing g.nextCall peer false ∧ t.nextCall = g.nextCall + 1 ∧
      ∃ replaces, a = .event (.invite peer replaces .ringing) := by
  cases step_effect hco hstep with
  | @incoming peer _ hidle hcall hin hlive hnext hnews hua hfind =>
    refine .inr ⟨[], peer, hnews, by simp, fun _ => hidle, ?_, hnext, none, rfl⟩
    rw [line_current hcall, hfind]
    rfl
  | @replaced peer r result _ hresult hr hcall hin hlive hnext hnews hua hfind =>
    by_cases hring : result = .ringing
    · rw [if_pos hring] at hnews hcall
      refine .inr ⟨_, peer, hnews, ?_, ?_, ?_, hnext, some r, by rw [hring]⟩
      · split
        · simp
        · simp [Callback.settles]
      · split
        · exact fun _ => by assumption
        · simp
      · rw [line_current hcall, hfind hring]
        rfl
    · rw [if_neg hring, List.append_nil] at hnews
      refine .inl ?_
      rw [hnews]
      split <;> simp [Callback.settles]
  | quiet ha hcall hin hlive hnext hnews hua =>
    refine .inl ?_
    rw [hnews]
    split <;> simp [Callback.settles]
  | established hc hconf hcall hin hlive hnext hnews => exact .inl (by simp [hnews, Callback.settles])
  | outgoing hdial hcall hin hlive hnext hnews => exact .inl (by simp [hnews])
  | dropped hdial hcall hin hlive hnext hnews => exact .inl (by simp [hnews, Callback.settles])
  | hungUp hw hangs hc hcall hin hlive hnext hnews => exact .inl (by simp [hnews, Callback.settles])
  | reregistered hw hcall hin hlive hnext hnews => exact .inl (by simp [hnews])
  | closed hc hcall hin hlive hnext hnews hua | turnedAway hresult hcall hin hlive hnext hnews hua =>
    refine .inl ?_
    rw [hnews]
    split <;> simp [Callback.settles]
  | audioError hc hcall hin hlive hnext hnews hua =>
    refine .inl ?_
    rw [hnews]
    split <;> simp [Callback.settles]

/-- Identifiers are only handed out. -/
theorem nextCall_mono (hco : Coherent g) {a : Action} (hstep : step g a = some t) :
    g.nextCall ≤ t.nextCall := by
  cases step_effect hco hstep with
  | quiet ha hcall hin hlive hnext => exact hnext
  | established hc hconf hcall hin hlive hnext => exact Nat.le_of_eq hnext.symm
  | closed hc hcall hin hlive hnext => exact Nat.le_of_eq hnext.symm
  | hungUp hw hangs hc hcall hin hlive hnext => exact Nat.le_of_eq hnext.symm
  | audioError hc hcall hin hlive hnext => exact Nat.le_of_eq hnext.symm
  | reregistered hw hcall hin hlive hnext => exact Nat.le_of_eq hnext.symm
  | incoming hidle hcall hin hlive hnext => exact hnext ▸ Nat.le_succ _
  | outgoing hdial hcall hin hlive hnext => exact hnext ▸ Nat.le_succ _
  | dropped hdial hcall hin hlive hnext => exact hnext ▸ Nat.le_succ _
  | turnedAway hresult hcall hin hlive hnext => exact hnext ▸ Nat.le_succ _
  | replaced hresult hr hcall hin hlive hnext => exact hnext ▸ Nat.le_succ _

end SimplePhone.Native
