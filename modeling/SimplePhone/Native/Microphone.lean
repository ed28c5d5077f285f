import SimplePhone.Native.Line

/-! The transmit side of the current call: only the mute handler turns it off or on. -/
namespace SimplePhone.Native

open Globals Transition

/-- `tx->muted` of the call in `g_call`. -/
def Globals.voice (g : Globals) : Option Bool := g.current.map Call.muted

def Work.mutes : Work → Option Bool
  | .mute muted => some muted
  | _ => none

/-- What a step has `mute_worker` do. -/
def Action.mutes (g : Globals) : Action → Option Bool
  | .work _ => g.next.bind Work.mutes
  | _ => none

variable {g t : Globals}

theorem voice_updateCall {c : CallId} {f : Call → Call} (hf : ∀ x, (f x).id = x.id)
    (hmuted : ∀ x, (f x).muted = x.muted) : (g.updateCall c f).voice = g.voice := by
  unfold Globals.voice
  rw [current_updateCall hf, Option.map_map]
  congr 1
  funext x
  simp only [Function.comp_apply]
  split
  · exact hmuted x
  · rfl

theorem voice_muteWorker (muted : Bool) : (muteWorker muted g).voice = g.voice.map fun _ => muted := by
  unfold muteWorker Globals.voice
  cases hc : g.gCall with
  | none =>
    unfold Globals.current
    rw [hc]
    rfl
  | some c =>
    have hf (x : Call) : ({ x with muted := muted } : Call).id = x.id := rfl
    simp only
    rw [current_updateCall_self hc hf, Option.map_map, Option.map_map]
    rfl

/-- The handlers that end no call. -/
theorem voice_run {lib : Lib} {w : Work} (hhang : w.hangsUp = true → g.gCall = none)
    (hre : ∀ aor, w ≠ .reregister aor) :
    (w.run lib g).voice = g.voice.map fun b => w.mutes.getD b := by
  have hsame {g' : Globals} (h : g'.voice = g.voice) (hw : w.mutes = none) :
      g'.voice = g.voice.map fun b => w.mutes.getD b := by
    rw [h, hw]
    exact (Option.map_id').symm
  have hend (hw : w.hangsUp = true) : (endcallWorker g).voice = g.voice := by
    rw [endcallWorker_idle (hhang hw)]
    rfl
  cases w with
  | register => exact hsame (congrArg (Option.map Call.muted) (current_registerWorker lib)) rfl
  | unregister => exact hsame (congrArg Globals.voice (unregisterWorker_eq g)) rfl
  | reregister aor => exact absurd rfl (hre aor)
  | makecall uri =>
    refine hsame ?_ rfl
    change (makecallHangup uri g).voice = _
    by_cases hua : g.gUa = none
    · rw [makecallHangup_dropped hua]
    · rw [makecallHangup_idle hua (hhang rfl)]
      rfl
  | answer =>
    refine hsame ?_ rfl
    unfold Work.run answerWorker callAnswer
    cases g.gCall with
    | none => rfl
    | some c =>
      cases lib.uaAnswer with
      | refused => rfl
      | sent =>
        apply voice_updateCall
        · intro x
          split <;> rfl
        · intro x
          split <;> rfl
  | endcall => exact hsame (hend rfl) rfl
  | timeoutHangup => exact hsame (hend rfl) rfl
  | dtmf digit =>
    refine hsame ?_ rfl
    unfold Work.run dtmfWorker
    cases g.gCall with
    | none => rfl
    | some c => exact voice_updateCall (fun _ => rfl) fun _ => rfl
  | mute muted => exact voice_muteWorker muted

/-- Of the steps that leave the calls alone only a mute shows on the microphone. -/
theorem voice_quiet (hco : Coherent g) {a : Action} (ha : a.quiet g = true)
    (hstep : step g a = some t) : t.voice = g.voice.map fun b => (a.mutes g).getD b := by
  cases a with
  | event e =>
    obtain ⟨-, he, rfl⟩ := step_event.mp hstep
    change (e.run g.begin).voice = g.begin.voice.map id
    rw [Option.map_id]
    cases e with
    | registerOk prm => rfl
    | registerFail prm => rfl
    | invite peer replaces result =>
      obtain ⟨rfl, rfl⟩ : replaces = none ∧ result = .failed := by simpa [Action.quiet] using ha
      rw [SipEvent.run, sipsessConnHandler_failed hco.toFresh]
      rfl
    | progress c early =>
      simp only [SipEvent.run]
      rw [uaEvent_ignored (by cases early <;> rfl)]
      exact voice_updateCall (fun _ => rfl) fun _ => rfl
    | other ev call prm =>
      simp only [SipEvent.run]
      rw [uaEvent_ignored he]
      rfl
    | _ => cases ha
  | post w =>
    cases step_post.mp hstep
    exact (Option.map_id').symm
  | connect result =>
    obtain ⟨uri, hdial, rfl⟩ := step_connect.mp hstep
    obtain rfl : result = .refused := by simpa [Action.quiet] using ha
    exact (Option.map_id').symm
  | work lib =>
    obtain ⟨-, p, rest, hp, rfl⟩ := step_work.mp hstep
    have hnext : g.next = some p.work := by simp [Globals.next, hp]
    simp only [Action.quiet, hnext, Option.all_some] at ha
    simp only [Action.mutes, hnext, Option.bind_some]
    apply voice_run (g := g.taken rest)
    · intro hhang
      have hcalm : (!p.work.hangsUp || g.gCall.isNone) = true := by
        cases hw : p.work with
        | reregister aor =>
          rw [hw] at hhang
          cases hhang
        | _ =>
          rw [hw] at ha
          exact ha
      simpa [hhang] using hcalm
    · intro aor hw
      simp [hw] at ha

end SimplePhone.Native
