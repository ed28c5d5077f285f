import SimplePhone.Native.Invariant

/-! What the events of another call do to the current one. Refusing a second
caller fires a close event from inside the handler, and a close ends whatever
call is current. -/
namespace SimplePhone.Native

open Globals Transition

/-- From `g` to `g'` the current call `c` goes on as if nothing had happened. -/
structure Isolated (c : CallId) (g g' : Globals) : Prop where
  current : g'.gCall = some c
  inCall : g'.gInCall = true
  silent : ∃ new, g'.delivered = g.delivered ++ new ∧ ∀ d ∈ new, d.callback.terminal = false
  untouched : g'.find c = g.find c

/-- The events of another call that reach `gCall` or report a failure. -/
def UaEvent.disturbs : UaEvent → Bool
  | .callOutgoing | .callIncoming | .callEstablished | .callClosed | .audioError => true
  | _ => false

variable {g : Globals} {c c' : CallId}

theorem isolated_refl (hcall : g.gCall = some c) (hin : g.gInCall = true) : Isolated c g g :=
  ⟨hcall, hin, ⟨[], by simp⟩, rfl⟩

theorem not_isolated_of_gCall {g' : Globals} (h : g'.gCall ≠ some c) : ¬ Isolated c g g' :=
  fun hiso => h hiso.current

/-- A rejection ends the call that it was meant to protect. -/
theorem callIncoming_gCall (hua : g.gUa ≠ none) (hcall : g.gCall = some c) (hne : c' ≠ c)
    (prm : Option Str) : (baresipEventHandler .callIncoming (some c') prm g).gCall = none := by
  have hbusy : g.gCall ≠ none ∧ g.gCall ≠ some c' := by
    rw [hcall]
    exact ⟨by simp, fun h => hne (Option.some.inj h).symm⟩
  unfold baresipEventHandler
  simp only
  rw [if_pos hbusy, uaHangup_eq hua, closeCall_gCall]

/-- An event of another call leaves the current call alone exactly if the handler
has no case for it. -/
theorem isolated_iff_not_disturbs (hcall : g.gCall = some c) (hin : g.gInCall = true)
    (hlive : c ∈ g.live) (hne : c' ≠ c) (ev : UaEvent) (prm : Option Str) :
    Isolated c g (baresipEventHandler ev (some c') prm g) ↔ ev.disturbs = false := by
  have hother : some c' ≠ some c := fun h => hne (Option.some.inj h)
  have hua := gUa_ne_none_of_live hlive
  cases ev with
  | callOutgoing => simpa [UaEvent.disturbs] using not_isolated_of_gCall hother
  | callEstablished => simpa [UaEvent.disturbs] using not_isolated_of_gCall hother
  | callIncoming =>
    have hnone := callIncoming_gCall hua hcall hne prm
    simpa [UaEvent.disturbs] using not_isolated_of_gCall (by rw [hnone]; simp)
  | callClosed =>
    have hnone : (onCallClosed (some c') g).gCall = none := by
      rw [onCallClosed_busy (by simp [hcall])]
      rfl
    simpa [UaEvent.disturbs] using not_isolated_of_gCall (by
      rw [show (baresipEventHandler .callClosed (some c') prm g).gCall = none from hnone]
      simp)
  | audioError =>
    have hloud : ¬ Isolated c g (baresipEventHandler .audioError (some c') prm g) := by
      intro h
      obtain ⟨new, hnew, hsilent⟩ := h.silent
      have hlast := List.append_cancel_left hnew
      have hterm := hsilent ⟨.onCallFailed (prm.getD (utf8 "通話エラー")), some c'⟩
        (by rw [← hlast]; exact List.mem_singleton.mpr rfl)
      cases hterm
    simpa [UaEvent.disturbs] using hloud
  | registerOk => exact ⟨fun _ => rfl, fun _ => ⟨hcall, hin, ⟨_, rfl, by simp [Callback.terminal]⟩, rfl⟩⟩
  | registerFail =>
    exact ⟨fun _ => rfl, fun _ => ⟨hcall, hin, ⟨_, rfl, by simp [Callback.terminal]⟩, rfl⟩⟩
  | _ => exact ⟨fun _ => rfl, fun _ => isolated_refl hcall hin⟩

theorem isolated_iff_not_disturbs_rtcp :
    ∃ g : Globals, g.gCall = some 0 ∧
      (Isolated 0 g (baresipEventHandler .callRtcp (some 1) none g) ↔
        UaEvent.callRtcp.disturbs = false) := by
  refine ⟨ring [] { Globals.initial (nativeInit .sample) with gUa := some ⟨[], []⟩ }, rfl, ?_⟩
  apply isolated_iff_not_disturbs
  · rfl
  · rfl
  · decide
  · decide

/-- A first caller rings; a second INVITE is answered "Busy", and the phone takes
the first call for ended while it still rings. -/
theorem second_caller_ends_first :
    ∃ as g t, machine.run (Globals.initial (nativeInit .sample)) as = some g ∧
      g.gCall = some 0 ∧ g.gInCall = true ∧ 0 ∈ g.live ∧
      step g (.event (.invite (utf8 "sip:204@192.0.2.1") none .ringing)) = some t ∧
      t.gCall = none ∧ t.gInCall = false ∧ t.delivered = [⟨.onCallEnded, some 1⟩] ∧
      0 ∈ t.live ∧ ¬ Isolated 0 g.begin t := by
  refine ⟨[.post .register, .work .ok,
    .event (.invite (utf8 "sip:203@192.0.2.1") none .ringing)], _, _, rfl, rfl, rfl, ?_, rfl,
    rfl, rfl, rfl, ?_, ?_⟩
  · decide
  · decide
  · exact not_isolated_of_gCall (by decide)

end SimplePhone.Native
