import SimplePhone.Native.Handler
import SimplePhone.Transition.Machine

/-! The handlers that `remain_run` moves to the event loop, and the machine of
the event loop: one step is one baresip event with everything it fires
synchronously, one posted handler, or a posting by another thread. -/
namespace SimplePhone.Native

open Globals Transition

/-! ### Answers of the libraries -/

/-- `ua_register` may fail before or after it reports `UA_EVENT_REGISTER_FAIL`. -/
inductive RegisterResult where
  | ok
  | error
  | failEvent (prm : Str)
deriving DecidableEq

inductive AnswerResult where
  /-- the call was not touched: a PRACK is awaited or the SDP cannot be encoded -/
  | refused
  /-- `call->answered` is set -/
  | sent
deriving DecidableEq

inductive ConnectResult where
  /-- an error before the call is announced -/
  | refused
  /-- `send_invite` fails after `CALL_EVENT_OUTGOING`: the call is freed -/
  | failed
  | connected
deriving DecidableEq

/-- What the library calls made by one handler return. -/
structure Lib where
  uaAlloc : Bool
  uaRegister : RegisterResult
  uaAnswer : AnswerResult
deriving DecidableEq

/-- Every call succeeds. -/
def Lib.ok : Lib := ⟨true, .ok, .sent⟩

/-! ### The handlers -/

/-- Returns whether the registration was started, the error code being 0. -/
def uaCreateAndRegister (aor : Str) (lib : Lib) (g : Globals) : Globals × Bool :=
  if lib.uaAlloc then
    let g := { g with gUa := some ⟨aor, []⟩ }
    match lib.uaRegister with
    | .ok => (g, true)
    | .error => (g.callCallback (.onRegistrationFailed (utf8 "登録エラー")) none, false)
    | .failEvent prm =>
        ((uaEvent .registerFail none prm g).callCallback
          (.onRegistrationFailed (utf8 "登録エラー")) none, false)
  else (g.callCallback (.onRegistrationFailed (utf8 "UA作成エラー")) none, false)

def registerWorker (lib : Lib) (g : Globals) : Globals :=
  match g.gUa with
  | some _ => g
  | none =>
    let (g, started) := uaCreateAndRegister (buildAccountAor g.account 256) lib g
    if started then g.callCallback (.onDebug (utf8 "SIP 登録中...")) none else g

/-- The REGISTER with expiry 0 that this sends leaves the globals alone. -/
def unregisterWorker (g : Globals) : Globals :=
  match g.gUa with
  | none => g
  | some _ => uaEvent .unregistering none [] g

/-- `ua_destructor` reports a close for the calls that are still on the list. -/
def uaDestructor (g : Globals) : Globals :=
  g.calls.foldl (fun g x => uaEvent .callClosed (some x.id) (utf8 "User-Agent deleted") g) g

/-- `ua_destroy` has flushed the list by then, and freeing a call fires nothing. -/
def uaDestroy (g : Globals) : Globals :=
  uaDestructor ((uaEvent .shutdown none [] g).modifyCalls fun _ => [])

def reregisterWorker (aor : Str) (lib : Lib) (g : Globals) : Globals :=
  let g := match g.gUa with
    | none => g
    | some _ => { uaDestroy (unregisterWorker g) with gUa := none }
  let (g, started) := uaCreateAndRegister aor lib { g with gCall := none, gInCall := false }
  if started then g.callCallback (.onDebug (utf8 "SIP 再登録中...")) none else g

/-- `makecall_worker` up to the 200 ms sleep. Without a user agent the request
is dropped. -/
def makecallHangup (uri : Str) (g : Globals) : Globals :=
  match g.gUa with
  | none => g
  | some _ =>
    let g := match g.gCall with
      | none => g
      | some c => { uaHangup (some c) g with gCall := none, gInCall := false }
    { g with dialing := some uri }

/-- `ua_connect`: the new call is announced before the INVITE is sent. -/
def uaConnect (uri : Str) (result : ConnectResult) (g : Globals) : Globals :=
  let announced := uaEvent .callOutgoing (some g.nextCall) uri (g.allocCall uri true .outgoing)
  match result with
  | .refused => g
  | .failed => announced.memDeref g.nextCall
  | .connected => announced

/-- The call a failed dial is about, if one was announced. -/
def ConnectResult.cause (g : Globals) : ConnectResult → Option CallId
  | .refused => none
  | .failed => some g.nextCall
  | .connected => none

/-- `makecall_worker` after the sleep. -/
def makecallConnect (uri : Str) (result : ConnectResult) (g : Globals) : Globals :=
  let g' := { uaConnect uri result g with dialing := none }
  match result with
  | .connected => g'
  | _ => g'.callCallback (.onCallFailed (utf8 "発信エラー")) (result.cause g)

/-- `call_answer` insists on the incoming state. -/
def callAnswer (c : CallId) (result : AnswerResult) (g : Globals) : Globals :=
  match result with
  | .refused => g
  | .sent => g.updateCall c fun x =>
      if x.state = .incoming then { x with answered := true } else x

def answerWorker (lib : Lib) (g : Globals) : Globals :=
  match g.gCall with
  | none => g
  | some c => callAnswer c lib.uaAnswer g

def endcallWorker (g : Globals) : Globals :=
  match g.gCall with
  | none => { g with gInCall := false }
  | some c => { uaHangup (some c) g with gCall := none, gInCall := false }

/-- The reason text apart, `timeout_hangup_worker` is `endcall_worker`. -/
def timeoutHangupWorker (g : Globals) : Globals := endcallWorker g

def dtmfWorker (digit : UInt8) (g : Globals) : Globals :=
  match g.gCall with
  | none => g
  | some c => g.updateCall c fun x => { x with digits := x.digits ++ [digit] }

def muteWorker (muted : Bool) (g : Globals) : Globals :=
  match g.gCall with
  | none => g
  | some c => g.updateCall c fun x => { x with muted := muted }

def Work.run (lib : Lib) (g : Globals) : Work → Globals
  | .register => registerWorker lib g
  | .unregister => unregisterWorker g
  | .reregister aor => reregisterWorker aor lib g
  | .makecall uri => makecallHangup uri g
  | .answer => answerWorker lib g
  | .endcall => endcallWorker g
  | .timeoutHangup => timeoutHangupWorker g
  | .dtmf digit => dtmfWorker digit g
  | .mute muted => muteWorker muted g

/-! ### The event loop -/

inductive Action where
  | event (e : SipEvent)
  /-- another thread's `remain_run` -/
  | post (w : Work)
  /-- the event loop takes the oldest posted handler -/
  | work (lib : Lib)
  /-- `makecall_worker` wakes up -/
  | connect (result : ConnectResult)
deriving DecidableEq

/-- Forget the callbacks of the step before. -/
def Globals.begin (g : Globals) : Globals := { g with delivered := [] }

def remainRun (w : Work) (g : Globals) : Globals :=
  { g with posted := g.posted ++ [⟨w, g.gCall⟩] }

def step (g : Globals) : Action → Option Globals
  | .event e =>
      if g.dialing = none ∧ e.enabled g then some (e.run g.begin) else none
  | .post w => some (remainRun w g.begin)
  | .work lib =>
      match g.dialing, g.posted with
      | none, p :: rest => some (p.work.run lib { g.begin with posted := rest })
      | _, _ => none
  | .connect result =>
      match g.dialing with
      | some uri => some (makecallConnect uri result g.begin)
      | none => none

/-- The native layer: `nativeInit` has copied some account, then anything goes. -/
def machine : Machine Globals Action where
  start g := ∃ account, g = Globals.initial account
  step := step

end SimplePhone.Native
