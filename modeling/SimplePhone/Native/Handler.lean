import SimplePhone.Native.State

/-! The baresip event handler and the library calls that run it: `ua_hangup`
fires `UA_EVENT_CALL_CLOSED` before it returns, also from inside the handler. -/
namespace SimplePhone.Native

open Globals

/-- The `UA_EVENT_CALL_CLOSED` case. Every close taken while a current call is
recorded clears it, whichever call was closed. -/
def onCallClosed (call : Option CallId) (g : Globals) : Globals :=
  if g.gCall = call ∨ g.gCall ≠ none then
    { g with gCall := none, gInCall := false }.callCallback .onCallEnded call
  else g

/-- The session is dropped or rejected; what is left of the call is its state. -/
def callHangup (c : CallId) (g : Globals) : Globals :=
  g.updateCall c fun x => { x with state := .terminated }

/-- `ua_hangup(ua, call, ..)`. The status code and the reason only shape the SIP
message that is sent. -/
def uaHangup (call : Option CallId) (g : Globals) : Globals :=
  match g.gUa with
  | none => g
  | some ua =>
    match call.or (ua.calls.getLast?.map Call.id) with
    | none => g
    | some c => (onCallClosed (some c) (callHangup c g)).memDeref c

def baresipEventHandler (ev : UaEvent) (call : Option CallId) (prm : Option Str)
    (g : Globals) : Globals :=
  match ev with
  | .registerOk => { g with gRegistered := true }.callCallback .onRegistered call
  | .registerFail =>
      { g with gRegistered := false }.callCallback
        (.onRegistrationFailed (prm.getD (utf8 "registration failed"))) call
  | .callOutgoing => { g with gCall := call, gInCall := true }
  | .callIncoming =>
      -- one line only: a second caller is told "Busy"
      if g.gCall ≠ none ∧ g.gCall ≠ call then uaHangup call g
      else
        { g with gCall := call, gInCall := true }.callCallback
          (.onIncomingCall (callerNumber (prm.getD []))) call
  | .callEstablished => { g with gCall := call, gInCall := true }.callCallback .onCallStarted call
  | .callClosed => onCallClosed call g
  | .audioError => g.callCallback (.onCallFailed (prm.getD (utf8 "通話エラー"))) call
  | _ => g

/-- `ua_event` formats the parameter into a 256-byte buffer. -/
def uaEvent (ev : UaEvent) (call : Option CallId) (prm : Str) (g : Globals) : Globals :=
  baresipEventHandler ev call (some (bounded 256 prm)) g

/-- A hangup is a close event between the end of the session and the free. -/
theorem uaHangup_some (g : Globals) (c : CallId) (prm : Str) (h : g.gUa ≠ none) :
    uaHangup (some c) g = (uaEvent .callClosed (some c) prm (callHangup c g)).memDeref c := by
  obtain ⟨ua, hua⟩ := Option.ne_none_iff_exists'.mp h
  simp [uaHangup, hua, uaEvent, baresipEventHandler]

/-- `CALL_EVENT_CLOSED` as `ua.c` forwards it: the event, then the free. -/
def callEventClosed (c : CallId) (reason : Str) (g : Globals) : Globals :=
  (uaEvent .callClosed (some c) reason g).memDeref c

/-! ### What `call.c` reports to the user agent -/

/-- How far `call_accept` gets with an INVITE. -/
inductive Accept where
  /-- wrong address family or no common codec: `CALL_EVENT_CLOSED` -/
  | refused
  /-- an error before the call is announced: freed without any event -/
  | failed
  /-- `CALL_EVENT_INCOMING` -/
  | ringing
deriving DecidableEq

/-- `sipsess_conn_handler`: allocate the call, accept it. A `Replaces` header
closes the call it names once the SDP offer has been accepted. -/
def sipsessConnHandler (peer : Str) (replaces : Option CallId) (result : Accept)
    (g : Globals) : Globals :=
  let c := g.nextCall
  let g := g.allocCall peer false .idle
  let replace (g : Globals) := match replaces with
    | none => g
    | some r => callEventClosed r (utf8 "replaced") g
  match result with
  | .refused => callEventClosed c (utf8 "No common audio or video codecs") g
  | .failed => (replace g).memDeref c
  | .ringing =>
      uaEvent .callIncoming (some c) peer
        ((replace g).updateCall c fun x => { x with state := .incoming })

/-- `sipsess_estab_handler`, on the 200 for our INVITE or the ACK for our 200. -/
def sipsessEstabHandler (c : CallId) (peer : Str) (g : Globals) : Globals :=
  uaEvent .callEstablished (some c) peer
    (g.updateCall c fun x => { x with state := .established })

/-- `audio_error_handler` reports the error and then closes the call. -/
def audioErrorHandler (c : CallId) (prm : Str) (g : Globals) : Globals :=
  callEventClosed c prm (uaEvent .audioError (some c) prm g)

inductive SipEvent where
  | registerOk (prm : Str)
  | registerFail (prm : Str)
  | invite (peer : Str) (replaces : Option CallId) (result : Accept)
  /-- 180 or 183 for our INVITE -/
  | progress (c : CallId) (early : Bool)
  | established (c : CallId)
  /-- the peer, a timer, the transport or a stream ends the call -/
  | closed (c : CallId) (reason : Str)
  | audioError (c : CallId) (prm : Str)
  /-- an event that `baresip_event_handler` has no case for, or RTCP -/
  | other (ev : UaEvent) (call : Option CallId) (prm : Str)
deriving DecidableEq

/-- The events whose only trace in the globals is the receive mark, if any. -/
def UaEvent.ignored : UaEvent → Bool
  | .registerOk | .registerFail | .callOutgoing | .callIncoming | .callEstablished
  | .callClosed | .audioError => false
  | _ => true

def Call.dialing (x : Call) : Bool :=
  x.outgoing && (x.state == .outgoing || x.state == .ringing || x.state == .early)

/-- A call can be confirmed once our INVITE is out or our 200 has been sent. -/
def Call.confirmable (x : Call) : Bool :=
  x.dialing || (!x.outgoing && x.state == .incoming && x.answered)

/-- Whether baresip can report the event in this state. An INVITE that replaces a call which is not
there is no event: `call_event_handler` is given no call then, and the process crashes. -/
def SipEvent.enabled (g : Globals) : SipEvent → Bool
  | .registerOk _ => true
  | .registerFail _ => true
  | .invite _ replaces _ => g.gUa.isSome && replaces.all (· ∈ g.live)
  | .progress c _ => (g.find c).any Call.dialing
  | .established c => (g.find c).any Call.confirmable
  | .closed c _ => c ∈ g.live
  | .audioError c _ => c ∈ g.live
  | .other ev _ _ => ev.ignored

def SipEvent.run (g : Globals) : SipEvent → Globals
  | .registerOk prm => uaEvent .registerOk none prm g
  | .registerFail prm => uaEvent .registerFail none prm g
  | .invite peer replaces result => sipsessConnHandler peer replaces result g
  | .progress c early =>
      uaEvent (if early then .callProgress else .callRinging) (some c) []
        (g.updateCall c fun x => { x with state := if early then .early else .ringing })
  | .established c => sipsessEstabHandler c (((g.find c).map Call.peerUri).getD []) g
  | .closed c reason => callEventClosed c reason g
  | .audioError c prm => audioErrorHandler c prm g
  | .other ev call prm => uaEvent ev call prm g

end SimplePhone.Native
