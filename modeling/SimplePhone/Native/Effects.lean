import SimplePhone.Native.Workers

/-! What each event and each handler does to the globals, as equations: every
way a call ends is one `closeCall`, and the announcements of a new call are
writes of `gCall`. Later proofs cite these and do not open the handlers. -/
namespace SimplePhone.Native

open Globals

/-- The close event of `c` followed by the free. -/
def closeCall (c : CallId) (g : Globals) : Globals :=
  (onCallClosed (some c) g).memDeref c

theorem callEventClosed_eq (c : CallId) (reason : Str) (g : Globals) :
    callEventClosed c reason g = closeCall c g := rfl

theorem onCallClosed_idle {g : Globals} (h : g.gCall = none) (c : CallId) :
    onCallClosed (some c) g = g := by
  simp [onCallClosed, h]

theorem onCallClosed_busy {g : Globals} (h : g.gCall ≠ none) (call : Option CallId) :
    onCallClosed call g =
      { g with gCall := none, gInCall := false }.callCallback .onCallEnded call := by
  simp [onCallClosed, h]

theorem onCallClosed_modifyCalls (g : Globals) (call : Option CallId)
    (f : List Call → List Call) :
    onCallClosed call (g.modifyCalls f) = (onCallClosed call g).modifyCalls f := by
  unfold onCallClosed
  rw [modifyCalls_gCall]
  by_cases h : g.gCall = call ∨ g.gCall ≠ none
  · rw [if_pos h, if_pos h]; rfl
  · rw [if_neg h, if_neg h]

/-! ### Rewriting the list of calls -/

theorem modifyCalls_modifyCalls (g : Globals) (f f' : List Call → List Call) :
    (g.modifyCalls f).modifyCalls f' = g.modifyCalls (f' ∘ f) := by
  cases h : g.gUa <;> simp [modifyCalls, h]

/-- Only the value on the calls of this state matters. -/
theorem modifyCalls_congr {g : Globals} {f f' : List Call → List Call}
    (h : f g.calls = f' g.calls) : g.modifyCalls f = g.modifyCalls f' := by
  cases hua : g.gUa with
  | none => simp [modifyCalls, hua]
  | some ua =>
    have hcalls : g.calls = ua.calls := by simp [calls, hua]
    rw [hcalls] at h
    simp [modifyCalls, hua, h]

theorem modifyCalls_eq_self {g : Globals} {f : List Call → List Call}
    (h : f g.calls = g.calls) : g.modifyCalls f = g := by
  rw [modifyCalls_congr (show f g.calls = id g.calls from h)]
  change { g with gUa := g.gUa.map fun ua => ua } = g
  rw [Option.map_id']

theorem filter_map_ite {c : CallId} {f : Call → Call} (hf : ∀ x, (f x).id = x.id)
    (l : List Call) : ((l.map fun x => if x.id = c then f x else x).filter fun x => x.id ≠ c) =
      l.filter fun x => x.id ≠ c := by
  induction l with
  | nil => rfl
  | cons x l ih =>
    by_cases hx : x.id = c
    · simpa [hx, hf] using ih
    · simpa [hx] using ih

/-- A write to a call that is then freed makes no difference. -/
theorem memDeref_updateCall (g : Globals) (c : CallId) {f : Call → Call}
    (hf : ∀ x, (f x).id = x.id) : (g.updateCall c f).memDeref c = g.memDeref c := by
  unfold memDeref updateCall
  rw [modifyCalls_modifyCalls]
  apply modifyCalls_congr
  exact filter_map_ite hf g.calls

/-! ### Fresh call objects -/

namespace Globals

/-- An identifier is spent on a call object that does not outlive the step. -/
def spend (g : Globals) : Globals := { g with nextCall := g.nextCall + 1 }

def Fresh (g : Globals) : Prop := ∀ c ∈ g.live, c < g.nextCall

variable {g : Globals}

theorem Fresh.ne (h : g.Fresh) {x : Call} (hx : x ∈ g.calls) : x.id ≠ g.nextCall :=
  Nat.ne_of_lt (h x.id (List.mem_map_of_mem hx))

theorem allocCall_eq_spend (g : Globals) (peer : Str) (out : Bool) (st : CallState) :
    g.allocCall peer out st =
      (g.modifyCalls (· ++ [⟨g.nextCall, peer, out, st, false, false, []⟩])).spend := rfl

theorem modifyCalls_spend (g : Globals) (f : List Call → List Call) :
    g.spend.modifyCalls f = (g.modifyCalls f).spend := rfl

theorem memDeref_allocCall (h : g.Fresh) (peer : Str) (out : Bool) (st : CallState) :
    (g.allocCall peer out st).memDeref g.nextCall = g.spend := by
  unfold memDeref
  rw [allocCall_eq_spend, modifyCalls_spend, modifyCalls_modifyCalls, modifyCalls_eq_self]
  have hkeep : g.calls.filter (·.id ≠ g.nextCall) = g.calls := by
    apply List.filter_eq_self.mpr
    intro x hx
    simpa using h.ne hx
  simp only [Function.comp_apply, List.filter_append, hkeep]
  simp

theorem updateCall_allocCall (h : g.Fresh) (peer : Str) (out : Bool) (st st' : CallState) :
    ((g.allocCall peer out st).updateCall g.nextCall fun x => { x with state := st' }) =
      g.allocCall peer out st' := by
  unfold updateCall
  rw [allocCall_eq_spend, allocCall_eq_spend, modifyCalls_spend, modifyCalls_modifyCalls]
  apply congrArg spend
  apply modifyCalls_congr
  have hkeep : (g.calls.map fun x => if x.id = g.nextCall then { x with state := st' } else x) =
      g.calls := by
    conv_rhs => rw [← List.map_id g.calls]
    apply List.map_congr_left
    intro x hx
    simp [h.ne hx]
  simp only [Function.comp_apply, List.map_append, hkeep]
  simp

theorem memDeref_allocCall_comm {r : CallId} (hr : r < g.nextCall) (peer : Str) (out : Bool)
    (st : CallState) :
    (g.allocCall peer out st).memDeref r = (g.memDeref r).allocCall peer out st := by
  have hne : g.nextCall ≠ r := (Nat.ne_of_lt hr).symm
  unfold memDeref
  rw [allocCall_eq_spend, allocCall_eq_spend, modifyCalls_spend, modifyCalls_modifyCalls,
    modifyCalls_modifyCalls]
  apply congrArg spend
  apply modifyCalls_congr
  simp [hne]

/-- The new call object is the one its identifier finds. -/
theorem find_allocCall (h : g.Fresh) (hua : g.gUa ≠ none) (peer : Str) (out : Bool)
    (st : CallState) : (g.allocCall peer out st).find g.nextCall =
      some ⟨g.nextCall, peer, out, st, false, false, []⟩ := by
  have hnone : g.calls.find? (·.id = g.nextCall) = none := by
    apply List.find?_eq_none.mpr
    intro x hx
    simpa using h.ne hx
  unfold find
  rw [calls_allocCall hua, List.find?_append, hnone]
  simp

theorem Fresh.memDeref (h : g.Fresh) (c : CallId) : (g.memDeref c).Fresh := by
  intro d hd
  rw [live_memDeref] at hd
  exact h d (List.mem_of_mem_filter hd)

end Globals

theorem uaHangup_eq {g : Globals} (h : g.gUa ≠ none) (c : CallId) :
    uaHangup (some c) g = closeCall c g := by
  rw [uaHangup_some g c [] h]
  change (onCallClosed (some c) (g.modifyCalls _)).memDeref c = _
  rw [onCallClosed_modifyCalls]
  exact memDeref_updateCall _ c fun _ => rfl

/-! ### Fields after a close -/

section
variable (g : Globals) (c : CallId)

@[simp] theorem closeCall_gCall : (closeCall c g).gCall = none := by
  by_cases h : g.gCall = none
  · simp [closeCall, onCallClosed_idle h, h]
  · simp [closeCall, onCallClosed_busy h]

theorem closeCall_gInCall :
    (closeCall c g).gInCall = if g.gCall = none then g.gInCall else false := by
  by_cases h : g.gCall = none
  · simp [closeCall, onCallClosed_idle h, h]
  · simp [closeCall, onCallClosed_busy h, h]

theorem closeCall_delivered : (closeCall c g).delivered =
    g.delivered ++ if g.gCall = none then [] else [⟨.onCallEnded, some c⟩] := by
  by_cases h : g.gCall = none
  · simp [closeCall, onCallClosed_idle h, h]
  · simp [closeCall, onCallClosed_busy h, h]

@[simp] theorem closeCall_calls :
    (closeCall c g).calls = g.calls.filter fun x => x.id ≠ c := by
  by_cases h : g.gCall = none
  · simp [closeCall, onCallClosed_idle h]
  · simp only [closeCall, onCallClosed_busy h, calls_memDeref, callCallback_calls]
    rfl

@[simp] theorem closeCall_live : (closeCall c g).live = g.live.filter (· ≠ c) := by
  simp [live, List.filter_map, Function.comp_def]

@[simp] theorem closeCall_gUa_eq_none : (closeCall c g).gUa = none ↔ g.gUa = none := by
  unfold closeCall onCallClosed
  split <;> simp

@[simp] theorem closeCall_posted : (closeCall c g).posted = g.posted := by
  unfold closeCall onCallClosed
  split <;> rfl

@[simp] theorem closeCall_dialing : (closeCall c g).dialing = g.dialing := by
  unfold closeCall onCallClosed
  split <;> rfl

@[simp] theorem closeCall_nextCall : (closeCall c g).nextCall = g.nextCall := by
  unfold closeCall onCallClosed
  split <;> rfl

@[simp] theorem closeCall_gRegistered : (closeCall c g).gRegistered = g.gRegistered := by
  unfold closeCall onCallClosed
  split <;> rfl

@[simp] theorem closeCall_account : (closeCall c g).account = g.account := by
  unfold closeCall onCallClosed
  split <;> rfl

end

/-! ### Events -/

/-- The ignored events leave no trace. -/
theorem uaEvent_ignored {ev : UaEvent} (h : ev.ignored = true) (call : Option CallId)
    (prm : Str) (g : Globals) : uaEvent ev call prm g = g := by
  cases ev <;> first | rfl | simp [UaEvent.ignored] at h

theorem uaEvent_callEstablished (call : Option CallId) (prm : Str) (g : Globals) :
    uaEvent .callEstablished call prm g =
      { g with gCall := call, gInCall := true }.callCallback .onCallStarted call := rfl

theorem uaEvent_callIncoming_idle {g : Globals} (h : g.gCall = none) (call : Option CallId)
    (prm : Str) : uaEvent .callIncoming call prm g =
      { g with gCall := call, gInCall := true }.callCallback
        (.onIncomingCall (callerNumber (bounded 256 prm))) call := by
  simp [uaEvent, baresipEventHandler, h]

/-- Busy: the second caller is hung up from inside the handler. -/
theorem uaEvent_callIncoming_busy {g : Globals} {c : CallId} (hua : g.gUa ≠ none)
    (h : g.gCall ≠ none) (hc : g.gCall ≠ some c) (prm : Str) :
    uaEvent .callIncoming (some c) prm g = closeCall c g := by
  simp [uaEvent, baresipEventHandler, h, hc, uaHangup_eq hua]

theorem audioErrorHandler_eq (c : CallId) (prm : Str) (g : Globals) :
    audioErrorHandler c prm g =
      closeCall c (g.callCallback (.onCallFailed (bounded 256 prm)) (some c)) := rfl

/-! ### What an INVITE comes to -/

/-- The only caller on the line is announced. -/
def ring (peer : Str) (g : Globals) : Globals :=
  { g.allocCall peer false .incoming with gCall := some g.nextCall, gInCall := true }.callCallback
    (.onIncomingCall (callerNumber (bounded 256 peer))) (some g.nextCall)

/-- A call that the app never hears of, closed while it is being set up. -/
def turnAway (g : Globals) : Globals := onCallClosed (some g.nextCall) g.spend

theorem Globals.Fresh.closeCall {g : Globals} (h : g.Fresh) (c : CallId) :
    (closeCall c g).Fresh := by
  intro d hd
  rw [closeCall_live] at hd
  rw [closeCall_nextCall]
  exact h d (List.mem_of_mem_filter hd)

theorem closeCall_allocCall {g : Globals} (h : g.Fresh) (peer : Str) (out : Bool)
    (st : CallState) : closeCall g.nextCall (g.allocCall peer out st) = turnAway g := by
  unfold closeCall turnAway memDeref
  rw [← onCallClosed_modifyCalls]
  exact congrArg _ (memDeref_allocCall h peer out st)

theorem closeCall_allocCall_comm {g : Globals} {r : CallId} (hr : r < g.nextCall) (peer : Str)
    (out : Bool) (st : CallState) :
    closeCall r (g.allocCall peer out st) = (closeCall r g).allocCall peer out st := by
  have hcomm := memDeref_allocCall_comm (g := onCallClosed (some r) g) (r := r)
    (by unfold onCallClosed; split <;> exact hr) peer out st
  unfold closeCall
  rw [← hcomm]
  congr 1
  unfold onCallClosed
  rw [allocCall_gCall]
  split <;> rfl

section
variable {g : Globals} (h : g.Fresh) (peer : Str)
include h

theorem sipsessConnHandler_refused (replaces : Option CallId) :
    sipsessConnHandler peer replaces .refused g = turnAway g :=
  closeCall_allocCall h peer false .idle

theorem sipsessConnHandler_failed : sipsessConnHandler peer none .failed g = g.spend :=
  memDeref_allocCall h peer false .idle

theorem sipsessConnHandler_idle (hidle : g.gCall = none) :
    sipsessConnHandler peer none .ringing g = ring peer g := by
  unfold sipsessConnHandler
  simp only
  rw [updateCall_allocCall h, uaEvent_callIncoming_idle (by simpa using hidle)]
  rfl

theorem sipsessConnHandler_busy (hua : g.gUa ≠ none) (hbusy : g.gCall ≠ none)
    (hne : g.gCall ≠ some g.nextCall) :
    sipsessConnHandler peer none .ringing g = turnAway g := by
  unfold sipsessConnHandler
  simp only
  rw [updateCall_allocCall h, uaEvent_callIncoming_busy (by simpa using hua)
    (by simpa using hbusy) (by simpa using hne), closeCall_allocCall h]

theorem sipsessConnHandler_replaces_failed {r : CallId} (hr : r < g.nextCall) :
    sipsessConnHandler peer (some r) .failed g = (closeCall r g).spend := by
  have hclosed := memDeref_allocCall (h.closeCall r) peer false .idle
  rw [closeCall_nextCall] at hclosed
  unfold sipsessConnHandler
  simp only
  rw [callEventClosed_eq, closeCall_allocCall_comm hr, hclosed]

theorem sipsessConnHandler_replaces_ringing {r : CallId} (hr : r < g.nextCall) :
    sipsessConnHandler peer (some r) .ringing g = ring peer (closeCall r g) := by
  have hset := updateCall_allocCall (h.closeCall r) peer false .idle .incoming
  rw [closeCall_nextCall] at hset
  unfold sipsessConnHandler
  simp only
  rw [callEventClosed_eq, closeCall_allocCall_comm hr, hset, uaEvent_callIncoming_idle (by simp)]
  unfold ring
  rw [closeCall_nextCall]

end

/-! ### Workers -/

/-- The list is empty when the destructor walks it, so no close is reported. -/
theorem uaDestroy_eq (g : Globals) : uaDestroy g = g.modifyCalls fun _ => [] := by
  unfold uaDestroy uaDestructor
  rw [uaEvent_ignored rfl, calls_modifyCalls g rfl]
  rfl

theorem unregisterWorker_eq (g : Globals) : unregisterWorker g = g := by
  unfold unregisterWorker
  split
  · rfl
  · exact uaEvent_ignored rfl none [] g

theorem reregisterWorker_eq (aor : Str) (lib : Lib) (g : Globals) :
    reregisterWorker aor lib g =
      let r := uaCreateAndRegister aor lib { g with gUa := none, gCall := none, gInCall := false }
      if r.2 then r.1.callCallback (.onDebug (utf8 "SIP 再登録中...")) none else r.1 := by
  unfold reregisterWorker
  cases h : g.gUa with
  | none => simp only [← h]
  | some ua => simp only [unregisterWorker_eq, uaDestroy_eq]; rfl

/-- Clearing the pointers after the hangup repeats what the close event did. -/
theorem uaHangup_clear {g : Globals} {c : CallId} (hua : g.gUa ≠ none) (hc : g.gCall = some c) :
    { uaHangup (some c) g with gCall := none, gInCall := false } = closeCall c g := by
  rw [uaHangup_eq hua]
  unfold closeCall
  rw [onCallClosed_busy (by simp [hc])]
  rfl

theorem endcallWorker_busy {g : Globals} {c : CallId} (hua : g.gUa ≠ none)
    (hc : g.gCall = some c) : endcallWorker g = closeCall c g := by
  unfold endcallWorker
  rw [hc]
  exact uaHangup_clear hua hc

theorem endcallWorker_idle {g : Globals} (hc : g.gCall = none) :
    endcallWorker g = { g with gInCall := false } := by
  unfold endcallWorker
  rw [hc]

theorem makecallHangup_busy {g : Globals} {c : CallId} (hua : g.gUa ≠ none)
    (hc : g.gCall = some c) (uri : Str) :
    makecallHangup uri g = { closeCall c g with dialing := some uri } := by
  unfold makecallHangup
  rw [← uaHangup_clear hua hc]
  cases h : g.gUa with
  | none => exact absurd h hua
  | some ua => simp only [hc]

theorem makecallHangup_idle {g : Globals} (hua : g.gUa ≠ none) (hc : g.gCall = none)
    (uri : Str) : makecallHangup uri g = { g with dialing := some uri } := by
  unfold makecallHangup
  cases h : g.gUa with
  | none => exact absurd h hua
  | some ua => simp only [hc, h]

theorem makecallHangup_dropped {g : Globals} (hua : g.gUa = none) (uri : Str) :
    makecallHangup uri g = g := by
  unfold makecallHangup
  rw [hua]

/-- Our own call is announced to the app before its INVITE is sent. -/
def dial (uri : Str) (g : Globals) : Globals :=
  { g.allocCall uri true .outgoing with gCall := some g.nextCall, gInCall := true }

theorem makecallConnect_refused (uri : Str) (g : Globals) :
    makecallConnect uri .refused g =
      { g with dialing := none }.callCallback (.onCallFailed (utf8 "発信エラー")) none := rfl

theorem makecallConnect_connected (uri : Str) (g : Globals) :
    makecallConnect uri .connected g = { dial uri g with dialing := none } := rfl

/-- The call is freed, the pointer to it stays. -/
theorem makecallConnect_failed {g : Globals} (h : g.Fresh) (uri : Str) :
    makecallConnect uri .failed g =
      { g.spend with gCall := some g.nextCall, gInCall := true, dialing := none }.callCallback
        (.onCallFailed (utf8 "発信エラー")) (some g.nextCall) := by
  have hfree := memDeref_allocCall h uri true .outgoing
  change { { (g.allocCall uri true .outgoing).memDeref g.nextCall with
    gCall := some g.nextCall, gInCall := true } with dialing := none }.callCallback _ _ = _
  rw [hfree]
  rfl

end SimplePhone.Native
