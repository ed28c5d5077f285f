import SimplePhone.Native.Invariant

/-! Which call a posted command acts on. The handlers carry no call: they read
`gCall` when they run, which may be several events after they were posted. -/
namespace SimplePhone.Native

open Globals Transition

/-- The commands of the user and of the watchdog to a call in progress. -/
def Work.command : Work → Bool
  | .answer | .endcall | .timeoutHangup | .dtmf _ | .mute _ => true
  | _ => false

/-- What a command makes of the call that is current. -/
def Work.outcome (lib : Lib) (x : Call) : Work → Option Call
  | .endcall | .timeoutHangup => none
  | .answer =>
      some (if lib.uaAnswer = .sent ∧ x.state = .incoming then { x with answered := true } else x)
  | .dtmf digit => some { x with digits := x.digits ++ [digit] }
  | .mute muted => some { x with muted := muted }
  | _ => some x

variable {g t : Globals}

theorem find_closeCall (c : CallId) : (closeCall c g).find c = none := by
  unfold find
  rw [closeCall_calls, List.find?_eq_none]
  intro x hx
  have hne := (List.mem_filter.mp hx).2
  simpa using hne

theorem find_closeCall_ne {c d : CallId} (hne : d ≠ c) : (closeCall c g).find d = g.find d := by
  unfold find
  rw [closeCall_calls, List.find?_filter]
  congr 1
  funext x
  by_cases hx : x.id = d
  · simp [hx, hne]
  · simp [hx]

/-- Whatever a command does, it does to the call that is current when it runs. -/
theorem command_find_ne {w : Work} (hw : w.command = true) (lib : Lib) {d : CallId}
    (hua : g.gCall ≠ none → g.gUa ≠ none) (hne : g.gCall ≠ some d) :
    (w.run lib g).find d = g.find d := by
  have hcur {c : CallId} (hc : g.gCall = some c) : d ≠ c := by
    intro h
    rw [hc, h] at hne
    exact hne rfl
  have hend : (endcallWorker g).find d = g.find d := by
    cases hc : g.gCall with
    | none => rw [endcallWorker_idle hc]; rfl
    | some c =>
      rw [endcallWorker_busy (hua (by simp [hc])) hc]
      exact find_closeCall_ne (hcur hc)
  cases w with
  | answer =>
    unfold Work.run answerWorker callAnswer
    cases hc : g.gCall with
    | none => rfl
    | some c =>
      cases lib.uaAnswer with
      | refused => rfl
      | sent => exact find_updateCall_ne (hcur hc) (by intro x; split <;> rfl)
  | endcall => exact hend
  | timeoutHangup => exact hend
  | dtmf digit =>
    unfold Work.run dtmfWorker
    cases hc : g.gCall with
    | none => rfl
    | some c => exact find_updateCall_ne (hcur hc) fun _ => rfl
  | mute muted =>
    unfold Work.run muteWorker
    cases hc : g.gCall with
    | none => rfl
    | some c => exact find_updateCall_ne (hcur hc) fun _ => rfl
  | _ => cases hw

/-- It does to that call what it is meant to do. -/
theorem command_find {w : Work} (hw : w.command = true) (lib : Lib) {c : CallId}
    (hua : g.gUa ≠ none) (hc : g.gCall = some c) :
    (w.run lib g).find c = (g.find c).bind fun x => w.outcome lib x := by
  have hend : (endcallWorker g).find c = (g.find c).bind fun _ => none := by
    rw [endcallWorker_busy hua hc, find_closeCall]
    exact (Option.bind_fun_none _).symm
  cases w with
  | answer =>
    unfold Work.run answerWorker callAnswer Work.outcome
    rw [hc]
    cases lib.uaAnswer with
    | refused => simp
    | sent =>
      simp only [true_and]
      rw [find_updateCall (by intro x; split <;> rfl)]
      exact Option.map_eq_bind
  | endcall => exact hend
  | timeoutHangup => exact hend
  | dtmf digit =>
    unfold Work.run dtmfWorker
    rw [hc]
    simp only
    rw [find_updateCall (by intro x; rfl)]
    exact Option.map_eq_bind
  | mute muted =>
    unfold Work.run muteWorker
    rw [hc]
    simp only
    rw [find_updateCall (by intro x; rfl)]
    exact Option.map_eq_bind
  | _ => cases hw

/-- On an idle line a command finds nothing to act on. -/
theorem command_idle {w : Work} (hw : w.command = true) (lib : Lib) (hidle : g.gCall = none)
    (hin : g.gInCall = false) : w.run lib g = g := by
  have hend : endcallWorker g = g := by
    rw [endcallWorker_idle hidle, ← hin]
  cases w with
  | answer => simp [Work.run, answerWorker, hidle]
  | endcall => exact hend
  | timeoutHangup => exact hend
  | dtmf digit => simp [Work.run, dtmfWorker, hidle]
  | mute muted => simp [Work.run, muteWorker, hidle]
  | _ => cases hw

/-- A command does what it is meant to do to the call that is current when it runs, whether
that is the one it was posted for or one that has taken its place, and to no other. With no
current call it does nothing. -/
theorem command_binds_at_execution (hreach : machine.Reachable g) {lib : Lib} {p : Post}
    {rest : List Post} (hp : g.posted = p :: rest) (hcommand : p.work.command = true)
    (hstep : step g (.work lib) = some t) :
    (∀ d, g.gCall ≠ some d → t.find d = g.find d) ∧
    (∀ c, g.gCall = some c → t.find c = (g.find c).bind fun x => p.work.outcome lib x) ∧
    (g.gCall = none → t.calls = g.calls ∧ t.gCall = none ∧ t.gInCall = g.gInCall) := by
  have hco := coherent_of_reachable hreach
  have ht : t = p.work.run lib (g.taken rest) := by
    obtain ⟨-, p', rest', hp', rfl⟩ := step_work.mp hstep
    cases hp.symm.trans hp'
    rfl
  have hother (d : CallId) (hne : g.gCall ≠ some d) : t.find d = g.find d := by
    rw [ht]
    exact command_find_ne (g := g.taken rest) hcommand lib hco.ua hne
  have hcurrent (c : CallId) (hc : g.gCall = some c) :
      t.find c = (g.find c).bind fun x => p.work.outcome lib x := by
    have hua : g.gUa ≠ none := hco.ua (by rw [hc]; exact Option.some_ne_none c)
    rw [ht]
    exact command_find (g := g.taken rest) hcommand lib hua hc
  refine ⟨hother, hcurrent, fun hidle => ?_⟩
  have hin : g.gInCall = false := by rw [hco.inCall, hidle]; rfl
  rw [ht, command_idle (g := g.taken rest) hcommand lib hidle hin]
  exact ⟨rfl, hidle, rfl⟩

theorem command_binds_at_execution_answer :
    ∃ g t, machine.Reachable g ∧ g.posted = [⟨.answer, some 0⟩] ∧
      step g (.work .ok) = some t ∧ g.gCall = some 0 ∧
      t.find 0 = (g.find 0).bind fun x => Work.answer.outcome .ok x := by
  refine ⟨_, _, ⟨Globals.initial (nativeInit .sample), [.post .register, .work .ok,
    .event (.invite (utf8 "sip:203@192.0.2.1") none .ringing), .post .answer],
    ⟨_, rfl⟩, rfl⟩, rfl, rfl, rfl, ?_⟩
  apply (command_binds_at_execution ⟨Globals.initial (nativeInit .sample),
    [.post .register, .work .ok, .event (.invite (utf8 "sip:203@192.0.2.1") none .ringing),
      .post .answer], ⟨_, rfl⟩, rfl⟩ (p := ⟨.answer, some 0⟩) rfl rfl rfl).2.1
  rfl

/-- The user ends a ringing call, its caller gives up at the same moment and another
one calls: the hangup meant for the first call reaches the second. -/
theorem command_hits_replacement :
    ∃ as g t, machine.run (Globals.initial (nativeInit .sample)) as = some g ∧
      g.posted = [⟨.endcall, some 0⟩] ∧ 0 ∉ g.live ∧ g.gCall = some 1 ∧ 1 ∈ g.live ∧
      step g (.work .ok) = some t ∧ t.gCall = none ∧ 1 ∉ t.live := by
  refine ⟨[.post .register, .work .ok,
    .event (.invite (utf8 "sip:203@192.0.2.1") none .ringing), .post .endcall,
    .event (.closed 0 (utf8 "Connection reset by user")),
    .event (.invite (utf8 "sip:204@192.0.2.1") none .ringing)], _, _, rfl, rfl, ?_, rfl, ?_, rfl,
    rfl, ?_⟩ <;> decide

end SimplePhone.Native
