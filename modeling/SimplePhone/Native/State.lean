import SimplePhone.Account

/-! The globals of `native-sip-jni.c` together with the part of baresip they
point into: the user agent, its list of calls and the state of each call. -/
namespace SimplePhone.Native

/-- A call object. Identifiers are handed out in order of allocation and never
reused, so a stale `gCall` is recognisable as one. -/
abbrev CallId := Nat

inductive CallState where
  | idle | incoming | outgoing | ringing | early | established | terminated | transfer | unknown
deriving DecidableEq, Repr

inductive UaEvent where
  | registering | registerOk | registerFail | unregistering | fallbackOk | fallbackFail
  | mwiNotify | create | shutdown | exit
  | callIncoming | callOutgoing | callRinging | callProgress | callAnswered | callEstablished
  | callClosed | callTransfer | callRedirect | callTransferFailed | callDtmfStart | callDtmfEnd
  | callRtpestab | callRtcp | callMenc | vuTx | vuRx | audioError | callLocalSdp | callRemoteSdp
  | callHold | callResume | refer | module | endOfFile | custom
deriving DecidableEq, Repr

structure Call where
  id : CallId
  peerUri : Str
  outgoing : Bool
  state : CallState
  answered : Bool
  /-- `tx->muted` of the call's audio. -/
  muted : Bool
  /-- Digits handed to `audio_send_digit`, oldest first. -/
  digits : Str
deriving DecidableEq

structure Ua where
  aor : Str
  calls : List Call
deriving DecidableEq

/-- `NativeSip.Callback`. -/
inductive Callback where
  | onRegistered
  | onRegistrationFailed (reason : Str)
  | onIncomingCall (callerNumber : Str)
  | onCallStarted
  | onCallEnded
  | onCallFailed (reason : Str)
  | onDebug (message : Str)
deriving DecidableEq

def Callback.terminal : Callback → Bool
  | .onCallEnded => true
  | .onCallFailed _ => true
  | _ => false

/-- One invocation of `call_callback`. The cause is the call whose event or
dial it was made for; Kotlin does not get to see it. -/
structure Delivery where
  callback : Callback
  cause : Option CallId
deriving DecidableEq

/-- The handlers given to `remain_run`, with their arguments. -/
inductive Work where
  | register
  | unregister
  | reregister (aor : Str)
  | makecall (uri : Str)
  | answer
  | endcall
  | timeoutHangup
  | dtmf (digit : UInt8)
  | mute (muted : Bool)
deriving DecidableEq

/-- A posted handler. `target` is the current call at the time of posting, a
history variable: the struct that is posted has no such field. -/
structure Post where
  work : Work
  target : Option CallId
deriving DecidableEq

structure Globals where
  gUa : Option Ua
  gCall : Option CallId
  gInCall : Bool
  gRegistered : Bool
  account : Buffers
  /-- Handlers waiting for the event loop, oldest first. -/
  posted : List Post
  /-- `makecall_worker` past its hangup, asleep before `ua_connect`. -/
  dialing : Option Str
  /-- Callbacks made by the last step, oldest first. -/
  delivered : List Delivery
  nextCall : CallId
deriving DecidableEq

/-- The process after `nativeInit`, before any handler has run. -/
def Globals.initial (account : Buffers) : Globals where
  gUa := none
  gCall := none
  gInCall := false
  gRegistered := false
  account := account
  posted := []
  dialing := none
  delivered := []
  nextCall := 0

namespace Globals

def calls (g : Globals) : List Call :=
  match g.gUa with
  | none => []
  | some ua => ua.calls

/-- The calls that have not been dereferenced. -/
def live (g : Globals) : List CallId := g.calls.map Call.id

def find (g : Globals) (c : CallId) : Option Call := g.calls.find? (·.id = c)

def modifyCalls (f : List Call → List Call) (g : Globals) : Globals :=
  { g with gUa := g.gUa.map fun ua => { ua with calls := f ua.calls } }

/-- A write to the fields of one call object. -/
def updateCall (c : CallId) (f : Call → Call) (g : Globals) : Globals :=
  g.modifyCalls (List.map fun x => if x.id = c then f x else x)

/-- `mem_deref(call)`: the destructor takes the call off its user agent's list. -/
def memDeref (c : CallId) (g : Globals) : Globals :=
  g.modifyCalls (List.filter fun x => x.id ≠ c)

def callCallback (callback : Callback) (cause : Option CallId) (g : Globals) : Globals :=
  { g with delivered := g.delivered ++ [⟨callback, cause⟩] }

/-- Append a fresh call object to the user agent's list. -/
def allocCall (peerUri : Str) (outgoing : Bool) (state : CallState) (g : Globals) : Globals :=
  { g.modifyCalls (· ++ [⟨g.nextCall, peerUri, outgoing, state, false, false, []⟩]) with
    nextCall := g.nextCall + 1 }

/-! ### Field lemmas -/

section
variable (g : Globals) (f : List Call → List Call) (callback : Callback) (cause : Option CallId)
  (peer : Str) (out : Bool) (st : CallState) (c : CallId) (w : Call → Call)

@[simp] theorem modifyCalls_gCall : (g.modifyCalls f).gCall = g.gCall := rfl
@[simp] theorem modifyCalls_gInCall : (g.modifyCalls f).gInCall = g.gInCall := rfl
@[simp] theorem modifyCalls_gRegistered : (g.modifyCalls f).gRegistered = g.gRegistered := rfl
@[simp] theorem modifyCalls_account : (g.modifyCalls f).account = g.account := rfl
@[simp] theorem modifyCalls_posted : (g.modifyCalls f).posted = g.posted := rfl
@[simp] theorem modifyCalls_dialing : (g.modifyCalls f).dialing = g.dialing := rfl
@[simp] theorem modifyCalls_delivered : (g.modifyCalls f).delivered = g.delivered := rfl
@[simp] theorem modifyCalls_nextCall : (g.modifyCalls f).nextCall = g.nextCall := rfl

@[simp] theorem callCallback_gUa : (g.callCallback callback cause).gUa = g.gUa := rfl
@[simp] theorem callCallback_gCall : (g.callCallback callback cause).gCall = g.gCall := rfl
@[simp] theorem callCallback_gInCall : (g.callCallback callback cause).gInCall = g.gInCall := rfl
@[simp] theorem callCallback_gRegistered :
    (g.callCallback callback cause).gRegistered = g.gRegistered := rfl
@[simp] theorem callCallback_account : (g.callCallback callback cause).account = g.account := rfl
@[simp] theorem callCallback_posted : (g.callCallback callback cause).posted = g.posted := rfl
@[simp] theorem callCallback_dialing : (g.callCallback callback cause).dialing = g.dialing := rfl
@[simp] theorem callCallback_nextCall : (g.callCallback callback cause).nextCall = g.nextCall := rfl
@[simp] theorem callCallback_delivered :
    (g.callCallback callback cause).delivered = g.delivered ++ [⟨callback, cause⟩] := rfl
@[simp] theorem callCallback_calls : (g.callCallback callback cause).calls = g.calls := rfl
@[simp] theorem callCallback_live : (g.callCallback callback cause).live = g.live := rfl

@[simp] theorem updateCall_gCall : (g.updateCall c w).gCall = g.gCall := rfl
@[simp] theorem updateCall_gInCall : (g.updateCall c w).gInCall = g.gInCall := rfl
@[simp] theorem updateCall_gRegistered : (g.updateCall c w).gRegistered = g.gRegistered := rfl
@[simp] theorem updateCall_account : (g.updateCall c w).account = g.account := rfl
@[simp] theorem updateCall_posted : (g.updateCall c w).posted = g.posted := rfl
@[simp] theorem updateCall_dialing : (g.updateCall c w).dialing = g.dialing := rfl
@[simp] theorem updateCall_delivered : (g.updateCall c w).delivered = g.delivered := rfl
@[simp] theorem updateCall_nextCall : (g.updateCall c w).nextCall = g.nextCall := rfl

@[simp] theorem memDeref_gCall : (g.memDeref c).gCall = g.gCall := rfl
@[simp] theorem memDeref_gInCall : (g.memDeref c).gInCall = g.gInCall := rfl
@[simp] theorem memDeref_gRegistered : (g.memDeref c).gRegistered = g.gRegistered := rfl
@[simp] theorem memDeref_account : (g.memDeref c).account = g.account := rfl
@[simp] theorem memDeref_posted : (g.memDeref c).posted = g.posted := rfl
@[simp] theorem memDeref_dialing : (g.memDeref c).dialing = g.dialing := rfl
@[simp] theorem memDeref_delivered : (g.memDeref c).delivered = g.delivered := rfl
@[simp] theorem memDeref_nextCall : (g.memDeref c).nextCall = g.nextCall := rfl

@[simp] theorem allocCall_gCall : (g.allocCall peer out st).gCall = g.gCall := rfl
@[simp] theorem allocCall_gInCall : (g.allocCall peer out st).gInCall = g.gInCall := rfl
@[simp] theorem allocCall_gRegistered : (g.allocCall peer out st).gRegistered = g.gRegistered := rfl
@[simp] theorem allocCall_account : (g.allocCall peer out st).account = g.account := rfl
@[simp] theorem allocCall_posted : (g.allocCall peer out st).posted = g.posted := rfl
@[simp] theorem allocCall_dialing : (g.allocCall peer out st).dialing = g.dialing := rfl
@[simp] theorem allocCall_delivered : (g.allocCall peer out st).delivered = g.delivered := rfl
@[simp] theorem allocCall_nextCall : (g.allocCall peer out st).nextCall = g.nextCall + 1 := rfl

end

@[simp] theorem modifyCalls_gUa_eq_none (g : Globals) (f : List Call → List Call) :
    (g.modifyCalls f).gUa = none ↔ g.gUa = none := by simp [modifyCalls]

@[simp] theorem updateCall_gUa_eq_none (g : Globals) (c : CallId) (f : Call → Call) :
    (g.updateCall c f).gUa = none ↔ g.gUa = none := by simp [updateCall]

@[simp] theorem memDeref_gUa_eq_none (g : Globals) (c : CallId) :
    (g.memDeref c).gUa = none ↔ g.gUa = none := by simp [memDeref]

@[simp] theorem allocCall_gUa_eq_none (g : Globals) (peer : Str) (out : Bool) (st : CallState) :
    (g.allocCall peer out st).gUa = none ↔ g.gUa = none := by
  simp [allocCall]

theorem calls_modifyCalls (g : Globals) {f : List Call → List Call} (hf : f [] = []) :
    (g.modifyCalls f).calls = f g.calls := by
  cases h : g.gUa with
  | none => simp [modifyCalls, calls, h, hf]
  | some ua => simp [modifyCalls, calls, h]

@[simp] theorem calls_updateCall (g : Globals) (c : CallId) (f : Call → Call) :
    (g.updateCall c f).calls = g.calls.map fun x => if x.id = c then f x else x :=
  calls_modifyCalls g rfl

@[simp] theorem calls_memDeref (g : Globals) (c : CallId) :
    (g.memDeref c).calls = g.calls.filter fun x => x.id ≠ c :=
  calls_modifyCalls g rfl

theorem calls_allocCall {g : Globals} (h : g.gUa ≠ none) (peer : Str) (out : Bool)
    (st : CallState) : (g.allocCall peer out st).calls =
      g.calls ++ [⟨g.nextCall, peer, out, st, false, false, []⟩] := by
  obtain ⟨ua, hua⟩ := Option.ne_none_iff_exists'.mp h
  simp [allocCall, modifyCalls, calls, hua]

/-- Writing the other fields of a call leaves the list of live calls alone. -/
theorem live_updateCall (g : Globals) (c : CallId) {f : Call → Call}
    (hf : ∀ x, (f x).id = x.id) : (g.updateCall c f).live = g.live := by
  simp only [live, calls_updateCall, List.map_map]
  apply List.map_congr_left
  intro x _
  simp only [Function.comp_apply]
  split
  · exact hf x
  · rfl

@[simp] theorem live_memDeref (g : Globals) (c : CallId) :
    (g.memDeref c).live = g.live.filter (· ≠ c) := by
  simp [live, List.filter_map, Function.comp_def]

theorem live_allocCall {g : Globals} (h : g.gUa ≠ none) (peer : Str) (out : Bool)
    (st : CallState) : (g.allocCall peer out st).live = g.live ++ [g.nextCall] := by
  simp [live, calls_allocCall h]

theorem gUa_ne_none_of_live {g : Globals} {c : CallId} (h : c ∈ g.live) : g.gUa ≠ none := by
  intro hua
  simp [live, calls, hua] at h

theorem exists_find {g : Globals} {c : CallId} (h : c ∈ g.live) :
    ∃ x ∈ g.calls, g.find c = some x ∧ x.id = c := by
  have hsome : (g.find c).isSome := by
    simpa [find, live, List.find?_isSome] using h
  obtain ⟨x, hx⟩ := Option.isSome_iff_exists.mp hsome
  refine ⟨x, List.mem_of_find?_eq_some hx, hx, ?_⟩
  simpa using List.find?_some hx

theorem find_updateCall {g : Globals} {c : CallId} {f : Call → Call} (hf : ∀ x, (f x).id = x.id) :
    (g.updateCall c f).find c = (g.find c).map f := by
  unfold find
  rw [calls_updateCall]
  induction g.calls with
  | nil => rfl
  | cons x l ih =>
    by_cases hx : x.id = c
    · simp [hx, hf]
    · simpa [hx] using ih

theorem find_updateCall_ne {g : Globals} {c d : CallId} (hne : d ≠ c) {f : Call → Call}
    (hf : ∀ x, (f x).id = x.id) : (g.updateCall c f).find d = g.find d := by
  have hmap (l : List Call) : (l.map fun x => if x.id = c then f x else x).find? (·.id = d) =
      l.find? (·.id = d) := by
    induction l with
    | nil => rfl
    | cons x l ih =>
      by_cases hx : x.id = c
      · have hd : c ≠ d := fun h => hne h.symm
        simpa [hx, hf, hd] using ih
      · by_cases hd : x.id = d
        · simp [hd, hne]
        · simpa [hx, hd] using ih
  unfold find
  rw [calls_updateCall]
  exact hmap g.calls

theorem live_of_find {g : Globals} {c : CallId} {x : Call} (h : g.find c = some x) :
    c ∈ g.live := by
  have hid : x.id = c := by simpa using List.find?_some h
  exact List.mem_map.mpr ⟨x, List.mem_of_find?_eq_some h, hid⟩

end Globals

end SimplePhone.Native
