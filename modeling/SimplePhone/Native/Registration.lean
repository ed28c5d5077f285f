import SimplePhone.Native.Steps

/-! The registration side of the native layer: which account the user agent is for and
what `g_registered` says. Calls do not touch it, and `register_worker` touches it only
when there is no user agent. -/
namespace SimplePhone.Native

open Globals Transition

/-- The AOR `g_ua` was created with, and the flag. -/
def Globals.registration (g : Globals) : Option Str × Bool := (g.gUa.map Ua.aor, g.gRegistered)

section
variable (g : Globals) (c : CallId)

@[simp] theorem registration_modifyCalls (f : List Call → List Call) :
    (g.modifyCalls f).registration = g.registration := by
  cases h : g.gUa <;> simp [registration, modifyCalls, h]

@[simp] theorem registration_updateCall (f : Call → Call) :
    (g.updateCall c f).registration = g.registration := registration_modifyCalls g _

@[simp] theorem registration_memDeref : (g.memDeref c).registration = g.registration :=
  registration_modifyCalls g _

@[simp] theorem registration_allocCall (peer : Str) (out : Bool) (st : CallState) :
    (g.allocCall peer out st).registration = g.registration := by
  have hcalls := registration_modifyCalls g (· ++ [⟨g.nextCall, peer, out, st, false, false, []⟩])
  exact hcalls

@[simp] theorem registration_callCallback (callback : Callback) (cause : Option CallId) :
    (g.callCallback callback cause).registration = g.registration := rfl

@[simp] theorem registration_onCallClosed (call : Option CallId) :
    (onCallClosed call g).registration = g.registration := by
  unfold onCallClosed
  split <;> rfl

@[simp] theorem registration_callHangup : (callHangup c g).registration = g.registration :=
  registration_updateCall g c _

@[simp] theorem registration_uaHangup (call : Option CallId) :
    (uaHangup call g).registration = g.registration := by
  unfold uaHangup
  split
  · rfl
  · split
    · rfl
    · simp

end

/-- The events of the registration client. -/
def UaEvent.registers : UaEvent → Bool
  | .registerOk | .registerFail => true
  | _ => false

theorem registration_uaEvent {ev : UaEvent} (h : ev.registers = false) (call : Option CallId)
    (prm : Str) (g : Globals) : (uaEvent ev call prm g).registration = g.registration := by
  unfold uaEvent baresipEventHandler
  cases ev with
  | registerOk => cases h
  | registerFail => cases h
  | callIncoming =>
    simp only
    split
    · exact registration_uaHangup g call
    · rfl
  | callClosed => exact registration_onCallClosed g call
  | _ => rfl

theorem registration_callEventClosed (c : CallId) (reason : Str) (g : Globals) :
    (callEventClosed c reason g).registration = g.registration := by
  unfold callEventClosed
  rw [registration_memDeref, registration_uaEvent rfl]

theorem registration_sipsessConnHandler (peer : Str) (replaces : Option CallId) (result : Accept)
    (g : Globals) : (sipsessConnHandler peer replaces result g).registration = g.registration := by
  have hincoming (call : Option CallId) (prm : Str) (g : Globals) :
      (uaEvent .callIncoming call prm g).registration = g.registration :=
    registration_uaEvent rfl call prm g
  unfold sipsessConnHandler
  cases replaces <;> cases result <;> simp [registration_callEventClosed, hincoming]

def SipEvent.registers : SipEvent → Bool
  | .registerOk _ | .registerFail _ => true
  | _ => false

theorem registration_event {e : SipEvent} (h : e.registers = false) {g : Globals}
    (henabled : e.enabled g) : (e.run g).registration = g.registration := by
  cases e with
  | registerOk prm => cases h
  | registerFail prm => cases h
  | invite peer replaces result => exact registration_sipsessConnHandler peer replaces result g
  | progress c early =>
    simp only [SipEvent.run]
    rw [registration_uaEvent (by cases early <;> rfl), registration_updateCall]
  | established c =>
    simp only [SipEvent.run, sipsessEstabHandler]
    rw [registration_uaEvent rfl, registration_updateCall]
  | closed c reason => exact registration_callEventClosed c reason g
  | audioError c prm =>
    simp only [SipEvent.run, audioErrorHandler]
    rw [registration_callEventClosed, registration_uaEvent rfl]
  | other ev call prm =>
    have hev : ev.registers = false := by cases ev <;> first | rfl | cases henabled
    exact registration_uaEvent hev call prm g

/-- The handlers that may replace the user agent. -/
def Work.creates : Work → Bool
  | .register | .reregister _ => true
  | _ => false

theorem registration_work {w : Work} (h : w.creates = false) (lib : Lib) (g : Globals) :
    (w.run lib g).registration = g.registration := by
  have hend : (endcallWorker g).registration = g.registration := by
    unfold endcallWorker
    split
    · rfl
    · exact registration_uaHangup g _
  cases w with
  | register => cases h
  | reregister aor => cases h
  | unregister =>
    simp only [Work.run, unregisterWorker]
    split
    · rfl
    · exact registration_uaEvent rfl none [] g
  | makecall uri =>
    simp only [Work.run, makecallHangup]
    split
    · rfl
    · split
      · rfl
      · exact registration_uaHangup g _
  | answer =>
    simp only [Work.run, answerWorker, callAnswer]
    split
    · rfl
    · split <;> simp
  | endcall => exact hend
  | timeoutHangup => exact hend
  | dtmf digit =>
    simp only [Work.run, dtmfWorker]
    split <;> simp
  | mute muted =>
    simp only [Work.run, muteWorker]
    split <;> simp

theorem registration_connect (uri : Str) (result : ConnectResult) (g : Globals) :
    (makecallConnect uri result g).registration = g.registration := by
  have hconnect : (uaConnect uri result g).registration = g.registration := by
    have houtgoing (call : Option CallId) (prm : Str) (g : Globals) :
        (uaEvent .callOutgoing call prm g).registration = g.registration :=
      registration_uaEvent rfl call prm g
    unfold uaConnect
    cases result <;> simp [houtgoing]
  have hasleep (g : Globals) (d : Option Str) :
      ({ g with dialing := d } : Globals).registration = g.registration := rfl
  unfold makecallConnect
  cases result <;> simp [hasleep, hconnect]

/-- The steps that leave the registration alone. -/
def Action.idle (g : Globals) : Action → Bool
  | .event e => !e.registers
  | .work _ => !(g.next.any Work.creates)
  | _ => true

theorem registration_step {g t : Globals} {a : Action} (ha : a.idle g = true)
    (hstep : step g a = some t) : t.registration = g.registration := by
  cases a with
  | event e =>
    obtain ⟨-, henabled, rfl⟩ := step_event.mp hstep
    exact registration_event (by simpa [Action.idle] using ha) (g := g.begin) henabled
  | post w =>
    rw [← step_post.mp hstep]
    rfl
  | work lib =>
    obtain ⟨-, p, rest, hposted, rfl⟩ := step_work.mp hstep
    have hw : p.work.creates = false := by simpa [Action.idle, next, hposted] using ha
    exact registration_work hw lib _
  | connect result =>
    obtain ⟨uri, -, rfl⟩ := step_connect.mp hstep
    exact registration_connect uri result g.begin

/-! ### A start leads somewhere -/

/-- How far `nativeRegister` gets on the calling thread. -/
inductive Enqueued where
  /-- the event loop did not come up within 500 ms -/
  | timedOut
  /-- `remain_run` returned an error -/
  | failed
  | queued
deriving DecidableEq

def nativeRegister (result : Enqueued) (g : Globals) : Globals :=
  match result with
  | .timedOut => g.begin.callCallback (.onRegistrationFailed (utf8 "SIP起動待ちタイムアウト")) none
  | .failed => g.begin.callCallback (.onRegistrationFailed (utf8 "登録キュー投入エラー")) none
  | .queued => remainRun .register g.begin

def Callback.registrationFailed : Callback → Bool
  | .onRegistrationFailed _ => true
  | _ => false

/-- The last step told Kotlin that the registration failed. -/
def Globals.reportedFailure (g : Globals) : Bool := g.delivered.any (·.callback.registrationFailed)

/-- A REGISTER goes out. -/
def Lib.registers (lib : Lib) : Bool := lib.uaAlloc && lib.uaRegister = .ok

/-- `issued`: a REGISTER was sent for the user agent since `unregister_worker` last ran.
`led`: each `nativeRegister` so far that has been dealt with led to a user agent with
such a REGISTER or to `onRegistrationFailed`. Both are history. -/
structure Start where
  native : Globals
  issued : Bool
  led : Bool
deriving DecidableEq

inductive StartAction where
  | nativeRegister (result : Enqueued)
  | native (a : Action)
deriving DecidableEq

def Start.issuedAfter (s : Start) : Action → Bool
  | .work lib =>
      match s.native.next with
      | some .register => if s.native.gUa = none then lib.registers else s.issued
      | some (.reregister _) => lib.registers
      | some .unregister => false
      | _ => s.issued
  | _ => s.issued

/-- The step is the run of `register_worker`. -/
def Start.registering (s : Start) : Action → Bool
  | .work _ => s.native.next = some .register
  | _ => false

def startStep (s : Start) : StartAction → Option Start
  | .nativeRegister result =>
      let g := nativeRegister result s.native
      some ⟨g, s.issued, s.led && (result = .queued || g.reportedFailure)⟩
  | .native (.post .register) => none
  | .native a => (step s.native a).map fun g =>
      ⟨g, s.issuedAfter a, s.led &&
        (!s.registering a || (g.gUa.isSome && s.issuedAfter a) || g.reportedFailure)⟩

def startMachine : Machine Start StartAction where
  start s := ∃ account, s = ⟨.initial account, false, true⟩
  step := startStep

/-- `register_worker` finds no user agent, or one that has its REGISTER. -/
def Opens (s : Start) : StartAction → Prop
  | .native (.work _) => s.native.next = some .register → s.native.gUa = none ∨ s.issued
  | _ => True

instance (s : Start) (a : StartAction) : Decidable (Opens s a) := by
  unfold Opens
  split <;> infer_instance

/-- Creating a user agent ends in a REGISTER or in a report. -/
theorem uaCreateAndRegister_leads (aor : Str) (lib : Lib) (g : Globals) :
    ((uaCreateAndRegister aor lib g).2 = lib.registers) ∧
      (lib.registers = true → (uaCreateAndRegister aor lib g).1.gUa.isSome) ∧
      (lib.registers = false → (uaCreateAndRegister aor lib g).1.reportedFailure) := by
  obtain ⟨uaAlloc, uaRegister, uaAnswer⟩ := lib
  cases uaAlloc <;> cases uaRegister <;>
    simp [uaCreateAndRegister, Lib.registers, reportedFailure, Callback.registrationFailed]

theorem registerWorker_leads (lib : Lib) {g : Globals} (h : g.gUa = none) :
    ((registerWorker lib g).gUa.isSome && lib.registers) ||
      (registerWorker lib g).reportedFailure := by
  obtain ⟨hstarted, hsome, hreported⟩ :=
    uaCreateAndRegister_leads (buildAccountAor g.account 256) lib g
  simp only [registerWorker, h, hstarted]
  cases hlib : lib.registers with
  | true =>
    have hua := hsome hlib
    simpa [callCallback_gUa] using .inl hua
  | false => simpa using hreported hlib

theorem startStep_native {s t : Start} {a : Action}
    (hstep : startStep s (.native a) = some t) :
    ∃ g, step s.native a = some g ∧ t = ⟨g, s.issuedAfter a, s.led &&
      (!s.registering a || (g.gUa.isSome && s.issuedAfter a) || g.reportedFailure)⟩ := by
  unfold startStep at hstep
  split at hstep
  next => cases ‹StartAction.native a = _›
  next => cases hstep
  next b _ heq =>
    cases heq
    obtain ⟨g, hg, rfl⟩ := Option.map_eq_some_iff.mp hstep
    exact ⟨g, hg, rfl⟩

theorem led_step {s t : Start} (h : s.led = true) {a : StartAction}
    (hstep : startStep s a = some t) : t.led = true ↔ Opens s a := by
  cases a with
  | nativeRegister result =>
    cases hstep
    cases result <;>
      simp [Opens, h, nativeRegister, reportedFailure, Callback.registrationFailed]
  | native a =>
    obtain ⟨g, hg, rfl⟩ := startStep_native hstep
    by_cases hregistering : s.registering a = true
    · cases a with
      | work lib =>
        have hnext : s.native.next = some .register := of_decide_eq_true hregistering
        obtain ⟨-, p, rest, hposted, rfl⟩ := step_work.mp hg
        have hwork : p.work = .register := by simpa [next, hposted] using hnext
        simp only [Opens, hnext, forall_true_left, h, Bool.true_and, hregistering, Bool.not_true,
          Bool.false_or, Start.issuedAfter, hwork, Work.run]
        cases hua : s.native.gUa with
        | none =>
          have hleads := registerWorker_leads lib
            (g := { s.native.begin with posted := rest }) hua
          simpa using hleads
        | some ua =>
          -- the worker logs that the user agent exists, and returns
          have hskip : registerWorker lib { s.native.begin with posted := rest } =
              { s.native.begin with posted := rest } := by
            simp [registerWorker, begin, hua]
          rw [hskip]
          simp [begin, hua, reportedFailure]
      | _ => cases hregistering
    · have hopens : Opens s (.native a) := by
        cases a with
        | work lib =>
          intro hnext
          exact absurd (decide_eq_true hnext) hregistering
        | _ => trivial
      simp [h, hopens, hregistering]

end SimplePhone.Native
