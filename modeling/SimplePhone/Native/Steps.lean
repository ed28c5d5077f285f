import SimplePhone.Native.Effects

/-! Every step of the event loop, read as one of eleven effects on `gCall` and on
the list of live calls. The reading is exact in the states that are `Coherent`. -/
namespace SimplePhone.Native

open Globals Transition

/-- The callbacks that are about calls. -/
def Callback.isCall : Callback → Bool
  | .onIncomingCall _ | .onCallStarted | .onCallEnded | .onCallFailed _ => true
  | _ => false

namespace Globals

/-- What the last step had to tell about calls. -/
def news (g : Globals) : List Delivery := g.delivered.filter (·.callback.isCall)

/-- The calls that the last step made a terminal callback for. -/
def ended (g : Globals) : List CallId :=
  (g.delivered.filter fun d => d.callback.terminal).filterMap Delivery.cause

/-- The handler that runs next. -/
def next (g : Globals) : Option Work := g.posted.head?.map Post.work

theorem ended_of_news {g : Globals} {l : List Delivery} (h : g.news = l) :
    g.ended = (l.filter fun d => d.callback.terminal).filterMap Delivery.cause := by
  have hterminal : (fun d : Delivery => d.callback.terminal && d.callback.isCall) =
      fun d => d.callback.terminal := by
    funext d
    cases d.callback <;> rfl
  rw [← h]
  unfold ended news
  rw [List.filter_filter, hterminal]

theorem live_congr {g g' : Globals} (h : g.gUa = g'.gUa) : g.live = g'.live := by
  unfold live calls
  rw [h]

@[simp] theorem begin_gUa (g : Globals) : g.begin.gUa = g.gUa := rfl
@[simp] theorem begin_gCall (g : Globals) : g.begin.gCall = g.gCall := rfl
@[simp] theorem begin_gInCall (g : Globals) : g.begin.gInCall = g.gInCall := rfl
@[simp] theorem begin_posted (g : Globals) : g.begin.posted = g.posted := rfl
@[simp] theorem begin_dialing (g : Globals) : g.begin.dialing = g.dialing := rfl
@[simp] theorem begin_nextCall (g : Globals) : g.begin.nextCall = g.nextCall := rfl
@[simp] theorem begin_calls (g : Globals) : g.begin.calls = g.calls := rfl
@[simp] theorem begin_live (g : Globals) : g.begin.live = g.live := rfl
@[simp] theorem begin_delivered (g : Globals) : g.begin.delivered = [] := rfl

@[simp] theorem news_begin (g : Globals) : g.begin.news = [] := rfl
@[simp] theorem news_updateCall (g : Globals) (c : CallId) (f : Call → Call) :
    (g.updateCall c f).news = g.news := rfl
@[simp] theorem news_memDeref (g : Globals) (c : CallId) : (g.memDeref c).news = g.news := rfl
@[simp] theorem news_allocCall (g : Globals) (peer : Str) (out : Bool) (st : CallState) :
    (g.allocCall peer out st).news = g.news := rfl
@[simp] theorem news_spend (g : Globals) : g.spend.news = g.news := rfl

@[simp] theorem news_callCallback (g : Globals) (callback : Callback) (cause : Option CallId) :
    (g.callCallback callback cause).news =
      g.news ++ if callback.isCall then [⟨callback, cause⟩] else [] := by
  unfold news
  rw [callCallback_delivered, List.filter_append]
  cases h : callback.isCall <;> simp [h]

end Globals

@[simp] theorem news_closeCall (g : Globals) (c : CallId) :
    (closeCall c g).news =
      g.news ++ if g.gCall = none then [] else [⟨.onCallEnded, some c⟩] := by
  unfold news
  rw [closeCall_delivered, List.filter_append]
  by_cases h : g.gCall = none
  · simp [h]
  · simp [h, Callback.isCall]

/-! ### Steps and frames -/

theorem step_event {g t : Globals} {e : SipEvent} : step g (.event e) = some t ↔
    g.dialing = none ∧ e.enabled g = true ∧ e.run g.begin = t := by
  simp [step, and_assoc]

theorem step_post {g t : Globals} {w : Work} :
    step g (.post w) = some t ↔ remainRun w g.begin = t := by
  simp [step]

theorem step_work {g t : Globals} {lib : Lib} : step g (.work lib) = some t ↔
    g.dialing = none ∧ ∃ p rest, g.posted = p :: rest ∧
      p.work.run lib { g.begin with posted := rest } = t := by
  unfold step
  cases hd : g.dialing <;> cases hp : g.posted <;> simp

theorem step_connect {g t : Globals} {result : ConnectResult} :
    step g (.connect result) = some t ↔
      ∃ uri, g.dialing = some uri ∧ makecallConnect uri result g.begin = t := by
  unfold step
  cases hd : g.dialing <;> simp

/-- The handlers that can hang up the current call. -/
def Work.hangsUp : Work → Bool
  | .makecall _ | .endcall | .timeoutHangup => true
  | _ => false

/-- The actions that end, create or announce no call. -/
def Action.quiet (g : Globals) : Action → Bool
  | .event (.registerOk _) | .event (.registerFail _) => true
  | .event (.progress _ _) | .event (.other _ _ _) => true
  | .event (.invite _ replaces result) => replaces = none ∧ result = .failed
  | .event _ => false
  | .post _ => true
  | .work _ => g.next.all fun w =>
      match w with
      | .reregister _ => false
      | w => !w.hangsUp || g.gCall.isNone
  | .connect result => result = .refused

/-- What a step does to the calls, by the state before it and the action. -/
inductive Effect (g : Globals) : Action → Globals → Prop where
  | quiet {a t} (ha : a.quiet g) (hcall : t.gCall = g.gCall) (hin : t.gInCall = g.gCall.isSome)
      (hlive : t.live = g.live) (hnext : g.nextCall ≤ t.nextCall)
      (hnews : t.news =
        if a = .connect .refused then [⟨.onCallFailed (utf8 "発信エラー"), none⟩] else [])
      (hua : g.gUa ≠ none → t.gUa ≠ none) : Effect g a t
  /-- A call that was announced before: our INVITE or our 200 got its answer. -/
  | established {c t} (hc : c ∈ g.live) (hconf : (g.find c).any Call.confirmable = true)
      (hcall : t.gCall = some c) (hin : t.gInCall = true)
      (hlive : t.live = g.live) (hnext : t.nextCall = g.nextCall)
      (hnews : t.news = [⟨.onCallStarted, some c⟩]) (hua : t.gUa ≠ none)
      (hfind : t.find c = (g.find c).map fun x => { x with state := .established }) :
      Effect g (.event (.established c)) t
  | incoming {peer t} (hidle : g.gCall = none) (hcall : t.gCall = some g.nextCall)
      (hin : t.gInCall = true) (hlive : t.live = g.live ++ [g.nextCall])
      (hnext : t.nextCall = g.nextCall + 1)
      (hnews : t.news =
        [⟨.onIncomingCall (callerNumber (bounded 256 peer)), some g.nextCall⟩])
      (hua : t.gUa ≠ none)
      (hfind : t.find g.nextCall = some ⟨g.nextCall, peer, false, .incoming, false, false, []⟩) :
      Effect g (.event (.invite peer none .ringing)) t
  | outgoing {t} (hdial : g.dialing ≠ none) (hcall : t.gCall = some g.nextCall)
      (hin : t.gInCall = true) (hlive : t.live = g.live ++ [g.nextCall])
      (hnext : t.nextCall = g.nextCall + 1) (hnews : t.news = []) (hua : t.gUa ≠ none)
      (hfind : ∃ uri, g.dialing = some uri ∧
        t.find g.nextCall = some ⟨g.nextCall, uri, true, .outgoing, false, false, []⟩) :
      Effect g (.connect .connected) t
  /-- `send_invite` failed: the call was announced and freed. -/
  | dropped {t} (hdial : g.dialing ≠ none) (hcall : t.gCall = some g.nextCall)
      (hin : t.gInCall = true) (hlive : t.live = g.live) (hnext : t.nextCall = g.nextCall + 1)
      (hnews : t.news = [⟨.onCallFailed (utf8 "発信エラー"), some g.nextCall⟩])
      (hua : t.gUa ≠ none) : Effect g (.connect .failed) t
  | closed {c reason t} (hc : c ∈ g.live) (hcall : t.gCall = none) (hin : t.gInCall = false)
      (hlive : t.live = g.live.filter (· ≠ c)) (hnext : t.nextCall = g.nextCall)
      (hnews : t.news = if g.gCall = none then [] else [⟨.onCallEnded, some c⟩])
      (hua : t.gUa ≠ none) : Effect g (.event (.closed c reason)) t
  | hungUp {lib w c t} (hw : g.next = some w) (hangs : w.hangsUp) (hc : g.gCall = some c)
      (hcall : t.gCall = none) (hin : t.gInCall = false) (hlive : t.live = g.live.filter (· ≠ c))
      (hnext : t.nextCall = g.nextCall) (hnews : t.news = [⟨.onCallEnded, some c⟩])
      (hua : t.gUa ≠ none) : Effect g (.work lib) t
  | audioError {c prm t} (hc : c ∈ g.live) (hcall : t.gCall = none) (hin : t.gInCall = false)
      (hlive : t.live = g.live.filter (· ≠ c)) (hnext : t.nextCall = g.nextCall)
      (hnews : t.news = ⟨.onCallFailed (bounded 256 prm), some c⟩ ::
        if g.gCall = none then [] else [⟨.onCallEnded, some c⟩]) (hua : t.gUa ≠ none) :
      Effect g (.event (.audioError c prm)) t
  /-- Another caller is refused for its offer or told "Busy". -/
  | turnedAway {peer replaces result t} (hresult : result = .refused ∨
        result = .ringing ∧ replaces = none ∧ g.gCall ≠ none)
      (hcall : t.gCall = none) (hin : t.gInCall = false) (hlive : t.live = g.live)
      (hnext : t.nextCall = g.nextCall + 1)
      (hnews : t.news = if g.gCall = none then [] else [⟨.onCallEnded, some g.nextCall⟩])
      (hua : t.gUa ≠ none) : Effect g (.event (.invite peer replaces result)) t
  /-- A `Replaces` header closes the call it names; the new call may ring or not. -/
  | replaced {peer r result t} (hresult : result ≠ .refused) (hr : r ∈ g.live)
      (hcall : t.gCall = if result = .ringing then some g.nextCall else none)
      (hin : t.gInCall = t.gCall.isSome)
      (hlive : t.live = g.live.filter (· ≠ r) ++ if result = .ringing then [g.nextCall] else [])
      (hnext : t.nextCall = g.nextCall + 1)
      (hnews : t.news = (if g.gCall = none then [] else [⟨.onCallEnded, some r⟩]) ++
        if result = .ringing then
          [⟨.onIncomingCall (callerNumber (bounded 256 peer)), some g.nextCall⟩] else [])
      (hua : t.gUa ≠ none)
      (hfind : result = .ringing → t.find g.nextCall =
        some ⟨g.nextCall, peer, false, .incoming, false, false, []⟩) :
      Effect g (.event (.invite peer (some r) result)) t
  | reregistered {lib aor t} (hw : g.next = some (.reregister aor)) (hcall : t.gCall = none)
      (hin : t.gInCall = false) (hlive : t.live = []) (hnext : t.nextCall = g.nextCall)
      (hnews : t.news = []) : Effect g (.work lib) t

/-- Holds in every reachable state, whatever the calls do. -/
structure Coherent (g : Globals) : Prop where
  inCall : g.gInCall = g.gCall.isSome
  nodup : g.live.Nodup
  fresh : ∀ c ∈ g.live, c < g.nextCall
  current : ∀ c, g.gCall = some c → c < g.nextCall
  ua : g.gCall ≠ none → g.gUa ≠ none
  dialing : g.dialing ≠ none → g.gCall = none ∧ g.gUa ≠ none

theorem coherent_initial (account : Buffers) : Coherent (Globals.initial account) := by
  constructor <;> simp [Globals.initial, live, calls]

theorem Coherent.toFresh {g : Globals} (h : Coherent g) : g.begin.Fresh := h.fresh

/-! ### The effect of each step -/

section
variable (g : Globals) (peer : Str)

@[simp] theorem live_spend : g.spend.live = g.live := rfl

@[simp] theorem turnAway_gCall : (turnAway g).gCall = none := by
  unfold turnAway onCallClosed
  by_cases h : g.gCall = none
  · simp [spend, h]
  · simp [spend, h]

theorem turnAway_gInCall (h : g.gInCall = g.gCall.isSome) : (turnAway g).gInCall = false := by
  unfold turnAway onCallClosed
  by_cases hc : g.gCall = none
  · simp [spend, hc, h]
  · simp [spend, hc]

@[simp] theorem turnAway_live : (turnAway g).live = g.live := by
  unfold turnAway onCallClosed
  split <;> rfl

@[simp] theorem turnAway_nextCall : (turnAway g).nextCall = g.nextCall + 1 := by
  unfold turnAway onCallClosed
  split <;> rfl

@[simp] theorem turnAway_gUa : (turnAway g).gUa = g.gUa := by
  unfold turnAway onCallClosed
  split <;> rfl

@[simp] theorem turnAway_news : (turnAway g).news =
    g.news ++ if g.gCall = none then [] else [⟨.onCallEnded, some g.nextCall⟩] := by
  unfold turnAway onCallClosed
  by_cases hc : g.gCall = none
  · simp [spend, hc]; rfl
  · simp [spend, hc, Callback.isCall]; rfl

@[simp] theorem ring_gCall : (ring peer g).gCall = some g.nextCall := rfl
@[simp] theorem ring_gInCall : (ring peer g).gInCall = true := rfl
@[simp] theorem ring_nextCall : (ring peer g).nextCall = g.nextCall + 1 := rfl
@[simp] theorem ring_news : (ring peer g).news =
    g.news ++ [⟨.onIncomingCall (callerNumber (bounded 256 peer)), some g.nextCall⟩] := by
  unfold ring
  rw [news_callCallback]
  rfl

theorem ring_find (h : g.Fresh) (hua : g.gUa ≠ none) : (ring peer g).find g.nextCall =
    some ⟨g.nextCall, peer, false, .incoming, false, false, []⟩ :=
  find_allocCall h hua peer false .incoming

theorem ring_live (h : g.gUa ≠ none) : (ring peer g).live = g.live ++ [g.nextCall] :=
  live_allocCall h peer false .incoming

@[simp] theorem ring_gUa_eq_none : (ring peer g).gUa = none ↔ g.gUa = none :=
  allocCall_gUa_eq_none g peer false .incoming

end

variable {g t : Globals}

theorem effect_invite (h : Coherent g) (hua : g.gUa ≠ none) {replaces : Option CallId}
    (hr : ∀ r, replaces = some r → r ∈ g.live) (peer : Str) (result : Accept) :
    Effect g (.event (.invite peer replaces result))
      (sipsessConnHandler peer replaces result g.begin) := by
  have haway (hresult : result = .refused ∨
      result = .ringing ∧ replaces = none ∧ g.gCall ≠ none) :
      Effect g (.event (.invite peer replaces result)) (turnAway g.begin) := by
    apply Effect.turnedAway hresult
    · simp
    · exact turnAway_gInCall _ h.inCall
    · simp
    · simp
    · rw [turnAway_news]; rfl
    · simpa using hua
  cases replaces with
  | none =>
    cases result with
    | refused =>
      rw [sipsessConnHandler_refused h.toFresh]
      exact haway (.inl rfl)
    | failed =>
      rw [sipsessConnHandler_failed h.toFresh]
      exact .quiet rfl rfl h.inCall rfl (Nat.le_succ _) rfl id
    | ringing =>
      by_cases hidle : g.gCall = none
      · rw [sipsessConnHandler_idle h.toFresh peer hidle]
        apply Effect.incoming hidle
        · rfl
        · rfl
        · exact ring_live _ peer hua
        · rfl
        · exact ring_news _ peer
        · simpa using hua
        · exact ring_find _ peer h.toFresh hua
      · have hne : g.gCall ≠ some g.nextCall := fun hc => Nat.lt_irrefl _ (h.current _ hc)
        rw [sipsessConnHandler_busy h.toFresh peer hua hidle hne]
        exact haway (.inr ⟨rfl, rfl, hidle⟩)
  | some r =>
    have hlive := hr r rfl
    have hlt : r < g.begin.nextCall := h.fresh r hlive
    cases result with
    | refused =>
      rw [sipsessConnHandler_refused h.toFresh]
      exact haway (.inl rfl)
    | failed =>
      rw [sipsessConnHandler_replaces_failed h.toFresh peer hlt]
      apply Effect.replaced (by simp) hlive
      · simp [spend]
      · by_cases hc : g.gCall = none <;> simp [spend, closeCall_gInCall, hc, h.inCall]
      · simp
      · simp [spend]
      · rw [news_spend, news_closeCall]
        exact (List.append_nil _).symm
      · simpa [spend] using hua
      · intro hring
        cases hring
    | ringing =>
      rw [sipsessConnHandler_replaces_ringing h.toFresh peer hlt]
      apply Effect.replaced (by simp) hlive
      · simp
      · rfl
      · rw [ring_live _ peer (by simpa using hua)]
        simp
      · simp
      · rw [ring_news, news_closeCall, closeCall_nextCall]
        rfl
      · simpa using hua
      · intro _
        have hfind := ring_find (closeCall r g.begin) peer (h.toFresh.closeCall r)
          (by simpa using hua)
        rw [closeCall_nextCall] at hfind
        exact hfind

theorem live_of_any {c : CallId} {p : Call → Bool} (h : (g.find c).any p = true) :
    c ∈ g.live := by
  cases hf : g.find c with
  | none => simp [hf] at h
  | some x => exact live_of_find hf

theorem effect_event (h : Coherent g) {e : SipEvent} (he : e.enabled g = true) :
    Effect g (.event e) (e.run g.begin) := by
  cases e with
  | registerOk prm => exact .quiet rfl rfl h.inCall rfl (Nat.le_refl _) rfl id
  | registerFail prm => exact .quiet rfl rfl h.inCall rfl (Nat.le_refl _) rfl id
  | invite peer replaces result =>
    simp only [SipEvent.enabled, Bool.and_eq_true, Option.isSome_iff_ne_none] at he
    apply effect_invite h he.1
    intro r hr
    simpa [hr] using he.2
  | progress c early =>
    apply Effect.quiet rfl
    all_goals simp only [SipEvent.run]
    all_goals rw [uaEvent_ignored (by cases early <;> rfl)]
    · rfl
    · exact h.inCall
    · exact live_updateCall _ _ fun _ => rfl
    · exact Nat.le_refl _
    · rfl
    · simp
  | established c =>
    have hc : c ∈ g.live := live_of_any he
    have hua := gUa_ne_none_of_live hc
    apply Effect.established hc he
    · rfl
    · rfl
    · exact live_updateCall _ _ fun _ => rfl
    · rfl
    · exact news_callCallback _ _ _
    · simpa [SipEvent.run, sipsessEstabHandler, uaEvent_callEstablished] using hua
    · exact find_updateCall (g := g.begin) fun _ => rfl
  | closed c reason =>
    have hc : c ∈ g.live := by simpa [SipEvent.enabled] using he
    have hua := gUa_ne_none_of_live hc
    simp only [SipEvent.run, callEventClosed_eq]
    apply Effect.closed hc
    · simp
    · by_cases hcall : g.gCall = none <;> simp [closeCall_gInCall, hcall, h.inCall]
    · simp
    · simp
    · rw [news_closeCall]; rfl
    · simpa using hua
  | audioError c prm =>
    have hc : c ∈ g.live := by simpa [SipEvent.enabled] using he
    have hua := gUa_ne_none_of_live hc
    simp only [SipEvent.run, audioErrorHandler_eq]
    apply Effect.audioError hc
    · simp
    · by_cases hcall : g.gCall = none <;> simp [closeCall_gInCall, hcall, h.inCall]
    · simp
    · simp
    · rw [news_closeCall, news_callCallback]; rfl
    · simpa using hua
  | other ev call prm =>
    simp only [SipEvent.run]
    rw [uaEvent_ignored he]
    exact .quiet rfl rfl h.inCall rfl (Nat.le_refl _) rfl id

/-- The state the next handler starts from. -/
def Globals.taken (g : Globals) (rest : List Post) : Globals := { g.begin with posted := rest }

@[simp] theorem taken_gUa (rest : List Post) : (g.taken rest).gUa = g.gUa := rfl
@[simp] theorem taken_gCall (rest : List Post) : (g.taken rest).gCall = g.gCall := rfl
@[simp] theorem taken_live (rest : List Post) : (g.taken rest).live = g.live := rfl
@[simp] theorem taken_nextCall (rest : List Post) : (g.taken rest).nextCall = g.nextCall := rfl

/-- A user agent starts without calls; failing to get one is no call's end. -/
theorem uaCreateAndRegister_fields (aor : Str) (lib : Lib) (hcalls : g.live = []) :
    (uaCreateAndRegister aor lib g).1.gCall = g.gCall ∧
    (uaCreateAndRegister aor lib g).1.gInCall = g.gInCall ∧
    (uaCreateAndRegister aor lib g).1.live = [] ∧
    (uaCreateAndRegister aor lib g).1.nextCall = g.nextCall ∧
    (uaCreateAndRegister aor lib g).1.news = g.news := by
  unfold uaCreateAndRegister
  cases lib.uaAlloc with
  | false => simp [Callback.isCall, hcalls]
  | true =>
    cases lib.uaRegister with
    | ok => simp [live, calls, news]
    | error => simp [live, calls, news, Callback.isCall]
    | failEvent prm => simp [live, calls, news, uaEvent, baresipEventHandler, Callback.isCall]

theorem effect_hangup {lib : Lib} {w : Work} {rest : List Post} {c : CallId}
    (hw : g.next = some w) (hangs : w.hangsUp) (hua : g.gUa ≠ none) (hc : g.gCall = some c)
    (dialing : Option Str) :
    Effect g (.work lib) { closeCall c (g.taken rest) with dialing := dialing } := by
  have hbusy : (g.taken rest).gCall ≠ none := by simp [hc]
  have hlive : ({ closeCall c (g.taken rest) with dialing := dialing } : Globals).live =
      (closeCall c (g.taken rest)).live := live_congr rfl
  have hnews : ({ closeCall c (g.taken rest) with dialing := dialing } : Globals).news =
      (closeCall c (g.taken rest)).news := rfl
  apply Effect.hungUp hw hangs hc
  · simp
  · simp [closeCall_gInCall, hc]
  · rw [hlive, closeCall_live, taken_live]
  · simp
  · rw [hnews, news_closeCall, if_neg hbusy]; rfl
  · simpa using hua

theorem effect_quietWork (h : Coherent g) {lib : Lib} {rest : List Post} {w : Work}
    (hw : g.next = some w) (hquiet : w.hangsUp = true → g.gCall = none)
    (hre : ∀ aor, w ≠ .reregister aor) : Effect g (.work lib) (w.run lib (g.taken rest)) := by
  have hq : (Action.work lib).quiet g = true := by
    simp only [Action.quiet, hw, Option.all_some]
    cases w with
    | reregister aor => exact absurd rfl (hre aor)
    | makecall uri => simpa [Work.hangsUp] using hquiet rfl
    | endcall => simpa [Work.hangsUp] using hquiet rfl
    | timeoutHangup => simpa [Work.hangsUp] using hquiet rfl
    | _ => rfl
  have hsame (t : Globals) (hcall : t.gCall = g.gCall) (hin : t.gInCall = g.gCall.isSome)
      (hlive : t.live = g.live) (hnext : t.nextCall = g.nextCall) (hnews : t.news = [])
      (hua : g.gUa ≠ none → t.gUa ≠ none) : Effect g (.work lib) t :=
    .quiet hq hcall hin hlive (Nat.le_of_eq hnext.symm) (by simpa using hnews) hua
  have hself (s : Globals) (hs : s = g.taken rest) : Effect g (.work lib) s := by
    rw [hs]
    exact hsame _ rfl h.inCall rfl rfl rfl id
  have hwrite (c : CallId) (f : Call → Call) (hf : ∀ x, (f x).id = x.id) :
      Effect g (.work lib) ((g.taken rest).updateCall c f) :=
    hsame _ rfl h.inCall (live_updateCall _ _ hf) rfl rfl (by simp)
  cases w with
  | register =>
    unfold Work.run registerWorker
    cases hua : g.gUa with
    | some ua => exact hself _ (by simp [hua])
    | none =>
      have hnone : (g.taken rest).live = [] := by simp [live, calls, hua]
      have hf := uaCreateAndRegister_fields (buildAccountAor (g.taken rest).account 256) lib hnone
      obtain ⟨hcall, hin, hlive, hnext, hnews⟩ := hf
      have hlive' := hlive.trans hnone.symm
      have hin' := hin.trans h.inCall
      simp only [taken_gUa, hua]
      split
      · exact hsame _ hcall hin' hlive' hnext (by simp [hnews, Callback.isCall]; rfl)
          (fun hne => absurd hua hne)
      · exact hsame _ hcall hin' hlive' hnext (by simp [hnews]; rfl) (fun hne => absurd hua hne)
  | unregister => exact hself _ (unregisterWorker_eq _)
  | reregister aor => exact absurd rfl (hre aor)
  | makecall uri =>
    by_cases hua : g.gUa = none
    · exact hself _ (makecallHangup_dropped (g := g.taken rest) hua uri)
    · rw [show Work.run lib (g.taken rest) (.makecall uri) = _ from
        makecallHangup_idle (g := g.taken rest) hua (hquiet rfl) uri]
      exact hsame _ rfl h.inCall rfl rfl rfl id
  | answer =>
    unfold Work.run answerWorker callAnswer
    cases hc : g.gCall with
    | none => exact hself _ (by simp [hc])
    | some c =>
      simp only [taken_gCall, hc]
      cases lib.uaAnswer with
      | refused => exact hself _ rfl
      | sent => exact hwrite c _ (by intro x; split <;> rfl)
  | endcall =>
    rw [show Work.run lib (g.taken rest) .endcall = _ from endcallWorker_idle (hquiet rfl)]
    exact hsame _ rfl (by simp [hquiet rfl]) rfl rfl rfl id
  | timeoutHangup =>
    rw [show Work.run lib (g.taken rest) .timeoutHangup = _ from endcallWorker_idle (hquiet rfl)]
    exact hsame _ rfl (by simp [hquiet rfl]) rfl rfl rfl id
  | dtmf digit =>
    unfold Work.run dtmfWorker
    cases hc : g.gCall with
    | none => exact hself _ (by simp [hc])
    | some c =>
      simp only [taken_gCall, hc]
      exact hwrite c _ fun _ => rfl
  | mute muted =>
    unfold Work.run muteWorker
    cases hc : g.gCall with
    | none => exact hself _ (by simp [hc])
    | some c =>
      simp only [taken_gCall, hc]
      exact hwrite c _ fun _ => rfl

theorem effect_reregister {lib : Lib} {rest : List Post} {aor : Str}
    (hw : g.next = some (.reregister aor)) :
    Effect g (.work lib) (reregisterWorker aor lib (g.taken rest)) := by
  rw [reregisterWorker_eq]
  have hf := uaCreateAndRegister_fields (g := { g.taken rest with
    gUa := none, gCall := none, gInCall := false }) aor lib rfl
  obtain ⟨hcall, hin, hlive, hnext, hnews⟩ := hf
  have hnone := hnews.trans (show _ = [] from rfl)
  simp only
  split
  · refine .reregistered hw hcall hin hlive hnext ?_
    rw [news_callCallback, hnone]
    rfl
  · exact .reregistered hw hcall hin hlive hnext hnone

theorem effect_work (h : Coherent g) {lib : Lib} {p : Post} {rest : List Post}
    (hp : g.posted = p :: rest) : Effect g (.work lib) (p.work.run lib (g.taken rest)) := by
  have hw : g.next = some p.work := by simp [Globals.next, hp]
  by_cases hre : ∃ aor, p.work = .reregister aor
  · obtain ⟨aor, haor⟩ := hre
    rw [haor] at hw ⊢
    exact effect_reregister hw
  · by_cases hquiet : p.work.hangsUp = true → g.gCall = none
    · exact effect_quietWork h hw hquiet fun aor haor => hre ⟨aor, haor⟩
    · obtain ⟨hangs, hbusy⟩ := Classical.not_imp.mp hquiet
      obtain ⟨c, hc⟩ := Option.ne_none_iff_exists'.mp hbusy
      have hua := h.ua hbusy
      have heff (dialing : Option Str) : Effect g (.work lib)
          { closeCall c (g.taken rest) with dialing := dialing } :=
        effect_hangup hw hangs hua hc dialing
      cases hwork : p.work with
      | makecall uri =>
        rw [show Work.run lib (g.taken rest) (.makecall uri) = _ from
          makecallHangup_busy (g := g.taken rest) hua hc uri]
        exact heff (some uri)
      | endcall =>
        rw [show Work.run lib (g.taken rest) .endcall = _ from endcallWorker_busy hua hc]
        exact heff _
      | timeoutHangup =>
        rw [show Work.run lib (g.taken rest) .timeoutHangup = _ from endcallWorker_busy hua hc]
        exact heff _
      | _ => simp [hwork, Work.hangsUp] at hangs

theorem effect_connect (h : Coherent g) {uri : Str} (hdial : g.dialing = some uri)
    (result : ConnectResult) :
    Effect g (.connect result) (makecallConnect uri result g.begin) := by
  have hsome : g.dialing ≠ none := by simp [hdial]
  have hua := (h.dialing hsome).2
  cases result with
  | refused =>
    rw [makecallConnect_refused]
    apply Effect.quiet rfl
    · rfl
    · exact h.inCall
    · rfl
    · exact Nat.le_refl _
    · rw [news_callCallback]; rfl
    · exact id
  | failed =>
    rw [makecallConnect_failed h.toFresh]
    apply Effect.dropped hsome
    · rfl
    · rfl
    · rfl
    · rfl
    · rw [news_callCallback]; rfl
    · exact hua
  | connected =>
    rw [makecallConnect_connected]
    apply Effect.outgoing hsome
    · rfl
    · rfl
    · exact live_allocCall (show g.begin.gUa ≠ none from hua) uri true .outgoing
    · rfl
    · rfl
    · exact (allocCall_gUa_eq_none g.begin uri true .outgoing).not.mpr hua
    · exact ⟨uri, hdial, find_allocCall h.toFresh (show g.begin.gUa ≠ none from hua) uri true _⟩

/-- Every step is one of the effects. -/
theorem step_effect (h : Coherent g) {a : Action} (hstep : step g a = some t) :
    Effect g a t := by
  cases a with
  | event e =>
    obtain ⟨-, he, rfl⟩ := step_event.mp hstep
    exact effect_event h he
  | post w =>
    cases step_post.mp hstep
    exact .quiet rfl rfl h.inCall rfl (Nat.le_refl _) rfl id
  | work lib =>
    obtain ⟨-, p, rest, hp, rfl⟩ := step_work.mp hstep
    exact effect_work h hp
  | connect result =>
    obtain ⟨uri, hdial, rfl⟩ := step_connect.mp hstep
    exact effect_connect h hdial result

end SimplePhone.Native
