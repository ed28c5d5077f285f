import SimplePhone.Native.Steps

/-! `g_in_call` beside `g_call`. Nothing is asked here of the order in which baresip reports
events, nor of the calls they are about. -/
namespace SimplePhone.Native

open Globals Transition

def nativeIsInCall (g : Globals) : Bool := g.gInCall

/-! ### Events in any order -/

/-- The events that make their call the current one. -/
def UaEvent.seizes : UaEvent → Bool
  | .callOutgoing | .callIncoming | .callEstablished => true
  | _ => false

theorem UaEvent.seizes_of_ignored {ev : UaEvent} (h : ev.ignored = true) : ev.seizes = false := by
  cases ev with
  | callOutgoing | callIncoming | callEstablished => cases h
  | _ => rfl

namespace Loose

/-- Such an event comes with a call. -/
def named : SipEvent → Bool
  | .other ev call _ => !ev.seizes || call.isSome
  | _ => true

inductive Action where
  /-- an event for any call, alive or not; `other` is any event at all -/
  | event (e : SipEvent)
  | post (w : Work)
  | work (lib : Lib)
  /-- `remain_run` has failed: the handler runs on the thread that issued the command -/
  | direct (w : Work) (lib : Lib)
  | connect (result : ConnectResult)
deriving DecidableEq

def step (g : Globals) : Action → Option Globals
  | .event e => if g.dialing = none ∧ named e then some (e.run g.begin) else none
  | .post w => Native.step g (.post w)
  | .work lib => Native.step g (.work lib)
  | .direct w lib =>
      match w, g.dialing with
      | .makecall _, some _ => none
      | _, _ => some (w.run lib g.begin)
  | .connect result => Native.step g (.connect result)

def machine : Machine Globals Action where
  start g := ∃ account, g = Globals.initial account
  step := step

def ofNative : Native.Action → Action
  | .event e => .event e
  | .post w => .post w
  | .work lib => .work lib
  | .connect result => .connect result

theorem step_ofNative {g t : Globals} {a : Native.Action} (h : Native.step g a = some t) :
    step g (ofNative a) = some t := by
  cases a with
  | event e =>
    change (if _ then _ else _) = _ at h
    change (if _ then _ else _) = _
    split at h
    · rename_i hon
      obtain ⟨hawake, henabled⟩ := hon
      rw [← h, if_pos]
      refine ⟨hawake, ?_⟩
      cases e with
      | other ev call prm =>
        change (!ev.seizes || call.isSome) = true
        rw [UaEvent.seizes_of_ignored henabled]
        rfl
      | _ => rfl
    · cases h
  | _ => exact h

theorem reachable_of_native {g : Globals} (h : Native.machine.Reachable g) :
    machine.Reachable g := by
  apply h.invariant
  · rintro _ hstart
    exact .of_start hstart
  · intro s a t hs hstep
    exact hs.step (step_ofNative hstep)

end Loose

/-! ### What keeps the two together -/

def Mirrors (g : Globals) : Prop := g.gInCall = g.gCall.isSome

variable {g t : Globals} {c : CallId}

theorem Mirrors.congr (h : Mirrors g) (hcall : t.gCall = g.gCall) (hflag : t.gInCall = g.gInCall) :
    Mirrors t := by
  unfold Mirrors
  rw [hcall, hflag]
  exact h

theorem Mirrors.onCallClosed (h : Mirrors g) (call : Option CallId) :
    Mirrors (onCallClosed call g) := by
  unfold Native.onCallClosed
  split
  · rfl
  · exact h

/-- The close event comes from within, on either side of which the call object changes. -/
theorem Mirrors.uaHangup (h : Mirrors g) (call : Option CallId) : Mirrors (uaHangup call g) := by
  unfold Native.uaHangup
  split
  · exact h
  · split
    · exact h
    · rename_i c _
      exact ((h.congr (t := callHangup c g) rfl rfl).onCallClosed (some c)).congr rfl rfl

theorem Mirrors.handler (h : Mirrors g) {ev : UaEvent} {call : Option CallId}
    (hcall : (!ev.seizes || call.isSome) = true) (prm : Option Str) :
    Mirrors (baresipEventHandler ev call prm g) := by
  unfold baresipEventHandler
  cases ev with
  | callOutgoing => exact hcall.symm
  | callIncoming =>
    simp only
    split
    · exact h.uaHangup call
    · exact hcall.symm
  | callEstablished => exact hcall.symm
  | callClosed => exact h.onCallClosed call
  | _ => exact h

theorem Mirrors.uaEvent (h : Mirrors g) (ev : UaEvent) {call : Option CallId}
    (hcall : (!ev.seizes || call.isSome) = true) (prm : Str) : Mirrors (uaEvent ev call prm g) :=
  h.handler hcall _

theorem Mirrors.callEventClosed (h : Mirrors g) (c : CallId) (reason : Str) :
    Mirrors (callEventClosed c reason g) := by
  have hclosed : Mirrors (Native.uaEvent .callClosed (some c) reason g) :=
    h.uaEvent .callClosed rfl reason
  exact hclosed.congr rfl rfl

theorem Mirrors.invite (h : Mirrors g) (peer : Str) (replaces : Option CallId) (result : Accept) :
    Mirrors (sipsessConnHandler peer replaces result g) := by
  have halloc : Mirrors (g.allocCall peer false .idle) := h.congr rfl rfl
  have hreplaced (r : CallId) := halloc.callEventClosed r (utf8 "replaced")
  cases result with
  | refused => exact halloc.callEventClosed g.nextCall _
  | failed =>
    cases replaces with
    | none => exact halloc.congr rfl rfl
    | some r => exact (hreplaced r).congr rfl rfl
  | ringing =>
    change Mirrors (Native.uaEvent .callIncoming (some g.nextCall) peer _)
    apply Mirrors.uaEvent
    · cases replaces with
      | none => exact halloc.congr rfl rfl
      | some r => exact (hreplaced r).congr rfl rfl
    · rfl

theorem Mirrors.event (h : Mirrors g) {e : SipEvent} (he : Loose.named e = true) :
    Mirrors (e.run g) := by
  cases e with
  | registerOk prm => exact h.uaEvent .registerOk rfl prm
  | registerFail prm => exact h.uaEvent .registerFail rfl prm
  | invite peer replaces result => exact h.invite peer replaces result
  | progress c early =>
    apply Mirrors.uaEvent
    · exact h.congr rfl rfl
    · cases early <;> rfl
  | established c =>
    apply Mirrors.uaEvent
    · exact h.congr rfl rfl
    · rfl
  | closed c reason => exact h.callEventClosed c reason
  | audioError c prm => exact (h.uaEvent .audioError rfl prm).callEventClosed c prm
  | other ev call prm => exact h.uaEvent ev he prm

theorem Mirrors.uaCreateAndRegister (h : Mirrors g) (aor : Str) (lib : Lib) :
    Mirrors (uaCreateAndRegister aor lib g).1 := by
  unfold Native.uaCreateAndRegister
  split
  · simp only
    split
    · exact h.congr rfl rfl
    · exact h.congr rfl rfl
    · rename_i prm _
      have halloc : Mirrors { g with gUa := some ⟨aor, []⟩ } := h.congr rfl rfl
      have hfailed : Mirrors (Native.uaEvent .registerFail none prm
          { g with gUa := some ⟨aor, []⟩ }) := halloc.uaEvent .registerFail rfl prm
      exact hfailed.congr rfl rfl
  · exact h.congr rfl rfl

theorem Mirrors.report (h : Mirrors g) (started : Bool) (callback : Callback) :
    Mirrors (if started then g.callCallback callback none else g) := by
  split
  · exact h.congr rfl rfl
  · exact h

theorem Mirrors.makecallConnect (h : Mirrors g) (uri : Str) (result : ConnectResult) :
    Mirrors (makecallConnect uri result g) := by
  have hannounced : Mirrors (Native.uaEvent .callOutgoing (some g.nextCall) uri
      (g.allocCall uri true .outgoing)) :=
    (h.congr rfl rfl).uaEvent .callOutgoing rfl uri
  cases result with
  | refused => exact h.congr rfl rfl
  | failed => exact hannounced.congr rfl rfl
  | connected => exact hannounced.congr rfl rfl

theorem Mirrors.worker (h : Mirrors g) (w : Work) (lib : Lib) : Mirrors (w.run lib g) := by
  cases w with
  | register =>
    change Mirrors (registerWorker lib g)
    unfold registerWorker
    split
    · exact h
    · exact (h.uaCreateAndRegister (buildAccountAor g.account 256) lib).report _ _
  | unregister =>
    change Mirrors (unregisterWorker g)
    unfold unregisterWorker
    split
    · exact h
    · exact h.uaEvent .unregistering rfl _
  | reregister aor =>
    -- both are reset, whatever the closes of the old user agent's calls have done
    change Mirrors (reregisterWorker aor lib g)
    unfold reregisterWorker
    have hreset (g : Globals) : Mirrors { g with gCall := none, gInCall := false } := rfl
    exact ((hreset _).uaCreateAndRegister aor lib).report _ _
  | makecall uri =>
    change Mirrors (makecallHangup uri g)
    unfold makecallHangup
    split
    · exact h
    · simp only
      split
      · exact h.congr rfl rfl
      · rfl
  | answer =>
    change Mirrors (answerWorker lib g)
    unfold answerWorker callAnswer
    split
    · exact h
    · split <;> exact h.congr rfl rfl
  | endcall | timeoutHangup =>
    change Mirrors (endcallWorker g)
    unfold endcallWorker
    split
    · rename_i hnone
      unfold Mirrors
      rw [hnone]
      rfl
    · rfl
  | dtmf digit =>
    change Mirrors (dtmfWorker digit g)
    unfold dtmfWorker
    split <;> exact h.congr rfl rfl
  | mute muted =>
    change Mirrors (muteWorker muted g)
    unfold muteWorker
    split <;> exact h.congr rfl rfl

theorem Mirrors.step (h : Mirrors g) {a : Loose.Action} (hstep : Loose.step g a = some t) :
    Mirrors t := by
  cases a with
  | event e =>
    change (if _ then _ else _) = _ at hstep
    split at hstep
    · rename_i hon
      cases hstep
      exact (h.congr (t := g.begin) rfl rfl).event hon.2
    · cases hstep
  | post w =>
    cases hstep
    exact h.congr rfl rfl
  | work lib =>
    obtain ⟨-, p, rest, -, rfl⟩ := step_work.mp hstep
    exact (h.congr (t := { g.begin with posted := rest }) rfl rfl).worker p.work lib
  | direct w lib =>
    have ht : w.run lib g.begin = t := by
      change (match w, g.dialing with | .makecall _, some _ => none | _, _ => some _) = _ at hstep
      split at hstep
      · cases hstep
      · exact Option.some.inj hstep
    rw [← ht]
    exact (h.congr (t := g.begin) rfl rfl).worker w lib
  | connect result =>
    obtain ⟨uri, -, rfl⟩ := step_connect.mp hstep
    exact (h.congr (t := g.begin) rfl rfl).makecallConnect uri result

/-- After every event and every handler `nativeIsInCall` says whether there is a current call. -/
theorem nativeIsInCall_iff (h : Loose.machine.Reachable g) :
    nativeIsInCall g = true ↔ g.gCall ≠ none := by
  have hmirrors : Mirrors g := by
    apply h.invariant
    · rintro _ ⟨account, rfl⟩
      rfl
    · intro s a t hs hstep
      exact hs.step hstep
  unfold nativeIsInCall
  rw [hmirrors]
  exact Option.isSome_iff_ne_none

/-- The close of a second caller, who is turned away, is taken for that of the first. -/
def secondCaller : List Loose.Action :=
  [.direct .register .ok, .event (.invite (utf8 "sip:201@192.0.2.1") none .ringing),
    .event (.invite (utf8 "sip:202@192.0.2.1") none .ringing)]

theorem nativeIsInCall_second_caller : ∃ g,
    Loose.machine.run (Globals.initial (nativeInit .sample)) secondCaller = some g ∧
      g.gCall = none ∧ (nativeIsInCall g = true ↔ g.gCall ≠ none) :=
  ⟨_, rfl, rfl, nativeIsInCall_iff ⟨_, secondCaller, ⟨nativeInit .sample, rfl⟩, rfl⟩⟩

end SimplePhone.Native
