import Mathlib.Data.List.Nodup
import SimplePhone.Native.Invariant

/-! Which call objects the event loop leaves behind: ours that ring elsewhere,
theirs that ring here, and those that are talked on. -/
namespace SimplePhone.Native

open Globals Transition

def Call.proper (x : Call) : Bool :=
  x.state = .established || x.dialing || (!x.outgoing && x.state = .incoming)

def Proper (g : Globals) : Prop := ∀ x ∈ g.calls, x.proper = true

/-- Every call object satisfies `P` of its identifier, its direction and its state. -/
def Each (P : CallId → Bool → CallState → Prop) (g : Globals) : Prop :=
  ∀ x ∈ g.calls, P x.id x.outgoing x.state

variable {g t : Globals} {P Q : CallId → Bool → CallState → Prop}

theorem proper_congr (h : Proper g) (hcalls : t.calls = g.calls) : Proper t := by
  intro x hx
  rw [hcalls] at hx
  exact h x hx

/-! ### Steps other than an answer -/

theorem Each.congr (h : Each P g) (hcalls : t.calls = g.calls) : Each P t := by
  intro x hx
  rw [hcalls] at hx
  exact h x hx

theorem Each.closeCall (h : Each P g) (c : CallId) : Each P (closeCall c g) := by
  intro x hx
  rw [closeCall_calls] at hx
  exact h x (List.mem_of_mem_filter hx)

theorem Each.updateCall (h : Each P g) {c : CallId} {f : Call → Call}
    (hf : ∀ x ∈ g.calls, x.id = c → P (f x).id (f x).outgoing (f x).state) :
    Each P (g.updateCall c f) := by
  intro y hy
  rw [calls_updateCall] at hy
  obtain ⟨x, hx, rfl⟩ := List.mem_map.mp hy
  split
  · exact hf x hx (by assumption)
  · exact h x hx

theorem Each.allocCall (h : Each P g) (peer : Str) {out : Bool} {st : CallState}
    (hnew : P g.nextCall out st) : Each P (g.allocCall peer out st) := by
  intro x hx
  by_cases hua : g.gUa = none
  · simp [Globals.calls, (allocCall_gUa_eq_none g peer out st).mpr hua] at hx
  · rw [calls_allocCall hua] at hx
    rcases List.mem_append.mp hx with hold | hone
    · exact h x hold
    · rw [List.mem_singleton.mp hone]
      exact hnew

theorem Each.turnAway (h : Each P g) : Each P (turnAway g) := by
  apply h.congr
  unfold Native.turnAway onCallClosed
  split <;> rfl

theorem Each.uaCreateAndRegister (h : Each P g) (aor : Str) (lib : Lib) :
    Each P (uaCreateAndRegister aor lib g).1 := by
  unfold Native.uaCreateAndRegister
  have hnew : Each P { g with gUa := some ⟨aor, []⟩ } := fun x hx => nomatch hx
  cases lib.uaAlloc with
  | false => exact h
  | true => cases lib.uaRegister <;> exact hnew

theorem Each.registerWorker (h : Each P g) (lib : Lib) : Each P (registerWorker lib g) := by
  unfold Native.registerWorker
  cases g.gUa with
  | some ua => exact h
  | none =>
    have hnew := h.uaCreateAndRegister (buildAccountAor g.account 256) lib
    simp only
    split <;> exact hnew

theorem each_reregisterWorker (aor : Str) (lib : Lib) (g : Globals) :
    Each P (reregisterWorker aor lib g) := by
  rw [reregisterWorker_eq]
  have hnone : Each P { g with gUa := none, gCall := none, gInCall := false } :=
    fun x hx => nomatch hx
  have hnew := hnone.uaCreateAndRegister aor lib
  simp only
  split <;> exact hnew

/-- Hanging up by way of `g_call` frees a call or does nothing. -/
theorem Each.endcallWorker (h : Each P g) (hco : g.gCall ≠ none → g.gUa ≠ none) :
    Each P (endcallWorker g) := by
  cases hc : g.gCall with
  | none =>
    rw [endcallWorker_idle hc]
    exact h
  | some c =>
    rw [endcallWorker_busy (hco (by simp [hc])) hc]
    exact h.closeCall c

theorem Each.makecallHangup (h : Each P g) (uri : Str) : Each P (makecallHangup uri g) := by
  by_cases hua : g.gUa = none
  · rw [makecallHangup_dropped hua]
    exact h
  · cases hc : g.gCall with
    | none =>
      rw [makecallHangup_idle hua hc]
      exact h
    | some c =>
      rw [makecallHangup_busy hua hc]
      exact h.closeCall c

theorem Each.answerWorker (h : Each P g) (lib : Lib) : Each P (answerWorker lib g) := by
  unfold Native.answerWorker callAnswer
  cases g.gCall with
  | none => exact h
  | some c =>
    cases lib.uaAnswer with
    | refused => exact h
    | sent =>
      apply h.updateCall
      intro x hx _
      have hx' := h x hx
      split <;> exact hx'

theorem Each.run (h : Each P g) (hco : g.gCall ≠ none → g.gUa ≠ none) (lib : Lib) (w : Work) :
    Each P (w.run lib g) := by
  cases w with
  | register => exact h.registerWorker lib
  | unregister =>
    change Each P (unregisterWorker g)
    rw [unregisterWorker_eq]
    exact h
  | reregister aor => exact each_reregisterWorker aor lib g
  | makecall uri => exact h.makecallHangup uri
  | answer => exact h.answerWorker lib
  | endcall => exact h.endcallWorker hco
  | timeoutHangup => exact h.endcallWorker hco
  | dtmf digit =>
    unfold Work.run dtmfWorker
    cases g.gCall with
    | none => exact h
    | some c => exact h.updateCall fun x hx _ => h x hx
  | mute muted =>
    unfold Work.run muteWorker
    cases g.gCall with
    | none => exact h
    | some c => exact h.updateCall fun x hx _ => h x hx

theorem Each.ring (h : Each P g) (hnew : P g.nextCall false .incoming) (peer : Str) :
    Each P (ring peer g) :=
  h.allocCall peer hnew

theorem Each.sipsessConnHandler (h : Each P g) (hco : Coherent g)
    (hnew : P g.nextCall false .incoming) {peer : Str} {replaces : Option CallId}
    {result : Accept}
    (he : (SipEvent.invite peer replaces result).enabled g = true) :
    Each P (sipsessConnHandler peer replaces result g) := by
  have hfresh : g.Fresh := hco.fresh
  simp only [SipEvent.enabled, Bool.and_eq_true] at he
  obtain ⟨hua, hreplaces⟩ := he
  cases result with
  | refused =>
    rw [sipsessConnHandler_refused hfresh]
    exact h.turnAway
  | failed =>
    cases replaces with
    | none =>
      rw [sipsessConnHandler_failed hfresh]
      exact h
    | some r =>
      have hr : r ∈ g.live := by simpa using hreplaces
      rw [sipsessConnHandler_replaces_failed hfresh peer (hfresh r hr)]
      exact h.closeCall r
  | ringing =>
    cases replaces with
    | none =>
      by_cases hidle : g.gCall = none
      · rw [sipsessConnHandler_idle hfresh peer hidle]
        exact h.ring hnew peer
      · have hne : g.gCall ≠ some g.nextCall :=
          fun hcall => Nat.lt_irrefl _ (hco.current _ hcall)
        rw [sipsessConnHandler_busy hfresh peer (Option.isSome_iff_ne_none.mp hua) hidle hne]
        exact h.turnAway
    | some r =>
      have hr : r ∈ g.live := by simpa using hreplaces
      rw [sipsessConnHandler_replaces_ringing hfresh peer (hfresh r hr)]
      apply (h.closeCall r).ring
      rw [closeCall_nextCall]
      exact hnew

/-- With distinct identifiers a call object is the one its identifier finds. -/
theorem find_of_mem (hnodup : g.live.Nodup) {x : Call} (hx : x ∈ g.calls) :
    g.find x.id = some x := by
  have hlive : x.id ∈ g.live := List.mem_map_of_mem hx
  obtain ⟨y, hy, hfind, hid⟩ := exists_find hlive
  have hxy : y = x := List.inj_on_of_nodup_map hnodup hy hx hid
  rw [hfind, hxy]

/-- What a trait of the calls has to allow for the steps other than an answer to keep it. -/
structure Allows (P : CallId → Bool → CallState → Prop) (g : Globals) : Prop where
  incoming : P g.nextCall false .incoming
  outgoing : P g.nextCall true .outgoing
  progress : ∀ x ∈ g.calls, x.dialing = true → P x.id true .ringing ∧ P x.id true .early

theorem Each.event (h : Each P g) (hP : Allows P g) (hco : Coherent g) {e : SipEvent}
    (hother : ∀ c, e ≠ .established c) (he : e.enabled g = true) : Each P (e.run g) := by
  cases e with
  | registerOk prm => exact h
  | registerFail prm => exact h
  | invite peer replaces result => exact h.sipsessConnHandler hco hP.incoming he
  | progress c early =>
    simp only [SipEvent.run]
    rw [uaEvent_ignored (by cases early <;> rfl)]
    apply h.updateCall
    rintro x hx rfl
    have hdialing : x.dialing = true := by
      simpa [SipEvent.enabled, find_of_mem hco.nodup hx] using he
    have hout : x.outgoing = true := by
      simp only [Call.dialing, Bool.and_eq_true] at hdialing
      exact hdialing.1
    obtain ⟨hringing, hearly⟩ := hP.progress x hx hdialing
    change P x.id x.outgoing _
    rw [hout]
    cases early with
    | true => exact hearly
    | false => exact hringing
  | established c => exact absurd rfl (hother c)
  | closed c reason => exact h.closeCall c
  | audioError c prm =>
    simp only [SipEvent.run]
    rw [audioErrorHandler_eq]
    exact Each.closeCall (g := g.callCallback _ _) h c
  | other ev call prm =>
    simp only [SipEvent.run]
    rw [uaEvent_ignored he]
    exact h

theorem Each.step (h : Each P g) (hP : Allows P g) (hco : Coherent g) {a : Action}
    (hother : ∀ c, a ≠ .event (.established c)) (hstep : step g a = some t) : Each P t := by
  cases a with
  | event e =>
    obtain ⟨-, he, rfl⟩ := step_event.mp hstep
    have hother' : ∀ c, e ≠ .established c := by
      rintro c rfl
      exact hother c rfl
    exact Each.event (g := g.begin) h ⟨hP.incoming, hP.outgoing, hP.progress⟩
      ⟨hco.inCall, hco.nodup, hco.fresh, hco.current, hco.ua, hco.dialing⟩ hother' he
  | post w =>
    cases step_post.mp hstep
    exact h
  | work lib =>
    obtain ⟨-, p, rest, -, rfl⟩ := step_work.mp hstep
    exact Each.run (g := { g.begin with posted := rest }) h hco.ua lib p.work
  | connect result =>
    obtain ⟨uri, -, rfl⟩ := step_connect.mp hstep
    cases result with
    | refused => exact h
    | failed =>
      rw [makecallConnect_failed hco.toFresh]
      exact h
    | connected =>
      have hnew : Each P (g.begin.allocCall uri true .outgoing) := Each.allocCall h uri hP.outgoing
      exact hnew

/-! ### The answer -/

theorem each_established {c : CallId} (h : ∀ x ∈ g.calls, x.id ≠ c → Q x.id x.outgoing x.state)
    (hc : ∀ out, Q c out .established) (hstep : step g (.event (.established c)) = some t) :
    Each Q t := by
  obtain ⟨-, -, rfl⟩ := step_event.mp hstep
  intro y hy
  change y ∈ (g.updateCall c fun x => { x with state := .established }).calls at hy
  rw [calls_updateCall] at hy
  obtain ⟨x, hx, rfl⟩ := List.mem_map.mp hy
  split
  · rename_i hid
    rw [← hid] at hc
    exact hc x.outgoing
  · exact h x hx (by assumption)

/-! ### The traits that the directions and states of calls have -/

theorem proper_iff : Proper g ↔
    Each (fun c out st => Call.proper ⟨c, [], out, st, false, false, []⟩ = true) g :=
  Iff.rfl

theorem Proper.step (h : Proper g) (hco : Coherent g) {a : Action} (hstep : step g a = some t) :
    Proper t := by
  by_cases ha : ∃ c, a = .event (.established c)
  · obtain ⟨c, rfl⟩ := ha
    exact proper_iff.mpr (each_established (fun x hx _ => h x hx) (fun _ => rfl) hstep)
  · apply proper_iff.mpr
    refine Each.step (proper_iff.mp h) ⟨rfl, rfl, fun x _ _ => ⟨rfl, rfl⟩⟩ hco ?_ hstep
    exact fun c hc => ha ⟨c, hc⟩

theorem proper_of_reachable (h : machine.Reachable g) : Proper g := by
  have hboth : Coherent g ∧ Proper g := by
    apply h.invariant
    · rintro _ ⟨account, rfl⟩
      exact ⟨coherent_initial account, fun x hx => nomatch hx⟩
    · rintro g a t ⟨hco, hp⟩ hstep
      exact ⟨hco.step hstep, hp.step hco hstep⟩
  exact hboth.2

/-- Whose call it is shows until it is established. -/
theorem Call.outgoing_iff {x : Call} (h : x.proper = true) (hst : x.state ≠ .established) :
    x.outgoing = true ↔ x.state ≠ .incoming := by
  simp only [Call.proper, Call.dialing, Bool.or_eq_true, Bool.and_eq_true, beq_iff_eq,
    decide_eq_true_eq, Bool.not_eq_true'] at h
  obtain (hes | ⟨hout, (hs | hs) | hs⟩) | ⟨hin, hs⟩ := h
  · exact absurd hes hst
  · exact iff_of_true hout (by rw [hs]; simp)
  · exact iff_of_true hout (by rw [hs]; simp)
  · exact iff_of_true hout (by rw [hs]; simp)
  · exact iff_of_false (by simp [hin]) (by simp [hs])

end SimplePhone.Native
