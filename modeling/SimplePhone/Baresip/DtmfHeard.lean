import SimplePhone.Baresip.Dtmf
import SimplePhone.Re.TelevRecv

/-! The digits pressed on one phone as the other one hears them: from `nativeSendDtmf` over the
RTP packets to the events of the user agent there. -/
namespace SimplePhone.Baresip

open Re Transition

/-- `telev_code2digit`; `none` for -1. -/
def code2digit (code : UInt8) : Option UInt8 :=
  -- "0123456789*#ABCD"
  [48, 49, 50, 51, 52, 53, 54, 55, 56, 57, 42, 35, 65, 66, 67, 68][code.toNat]?

/-- `UA_EVENT_CALL_DTMF_START` with its key, and `UA_EVENT_CALL_DTMF_END`. -/
inductive DtmfEvent where
  | begun (key : UInt8)
  | ended
deriving DecidableEq

/-- `call_dtmf_handler` -/
def callDtmfHandler (key : UInt8) : DtmfEvent :=
  if key ≠ 0 ∧ key ≠ keycodeRel then .begun key else .ended

/-- `audio_event_handler` -/
def audioEventHandler (key : UInt8) (final : Bool) : DtmfEvent :=
  callDtmfHandler (if final then keycodeRel else key)

def handleTelev (rx : TelevRx) (mb : List UInt8) : TelevRx × Option DtmfEvent :=
  match rx.recv mb with
  | (rx, .error _) => (rx, none)
  | (rx, .ok report) => (rx, (code2digit report.1).map fun digit =>
      audioEventHandler digit report.2)

def handleTelevs (rx : TelevRx) : List (List UInt8) → TelevRx × List DtmfEvent
  | [] => (rx, [])
  | mb :: rest =>
      let (rx, event) := handleTelev rx mb
      let (rx, events) := handleTelevs rx rest
      (rx, event.toList ++ events)

/-- The small letters are heard as the capital ones. -/
def heardAs (digit : UInt8) : UInt8 := if 97 ≤ digit ∧ digit ≤ 100 then digit - 32 else digit

set_option maxRecDepth 8000 in
theorem code2digit_digit2code {digit code : UInt8} (h : Telev.digit2code digit = some code) :
    code2digit code = some (heardAs digit) ∧ heardAs digit ≠ 0 ∧ heardAs digit ≠ keycodeRel := by
  have hall : ∀ n < 256, ∀ code ∈ Telev.digit2code (UInt8.ofNat n),
      code2digit code = some (heardAs (UInt8.ofNat n)) ∧ heardAs (UInt8.ofNat n) ≠ 0 ∧
        heardAs (UInt8.ofNat n) ≠ keycodeRel := by decide
  have hdigit := hall digit.toNat digit.toNat_lt code
  rw [UInt8.ofNat_toNat] at hdigit
  exact hdigit h

/-- What the user agent makes of a report. -/
def dtmfEvent (report : UInt8 × Bool) : Option DtmfEvent :=
  (code2digit report.1).map fun digit => audioEventHandler digit report.2

theorem handleTelevs_eq_hear (rx : TelevRx) (payloads : List (List UInt8)) :
    handleTelevs rx payloads = ((rx.hear payloads).1, (rx.hear payloads).2.filterMap dtmfEvent) := by
  induction payloads generalizing rx with
  | nil => rfl
  | cons mb payloads ih =>
    unfold handleTelevs handleTelev TelevRx.hear
    generalize rx.recv mb = result
    obtain ⟨rx', result⟩ := result
    cases result with
    | error e =>
      simp only
      rw [ih]
      rfl
    | ok report =>
      simp only [Except.toOption, Option.toList_some]
      rw [ih, List.filterMap_append]
      unfold dtmfEvent
      cases hdigit : code2digit report.1 with
      | none => simp [hdigit]
      | some digit => simp [hdigit]

namespace Digit

variable (d : Digit)

theorem dtmfEvent_begun : dtmfEvent (d.code, false) = some (.begun (heardAs d.val)) := by
  obtain ⟨hdigit, hnone, hrel⟩ := code2digit_digit2code d.digit2code_val
  unfold dtmfEvent
  rw [hdigit]
  exact congrArg some (if_pos ⟨hnone, hrel⟩)

theorem dtmfEvent_ended : dtmfEvent (d.code, true) = some .ended := by
  obtain ⟨hdigit, -⟩ := code2digit_digit2code d.digit2code_val
  unfold dtmfEvent
  rw [hdigit]
  rfl

/-- A digit whose event was sent whole. -/
def heard : List DtmfEvent := [.begun (heardAs d.val), .ended]

end Digit

theorem filterMap_dtmfEvent (ds : List Digit) :
    ((ds.map Digit.code).flatMap TelevRx.both).filterMap dtmfEvent = ds.flatMap Digit.heard := by
  induction ds with
  | nil => rfl
  | cons d ds ih =>
    rw [List.map_cons, List.flatMap_cons, List.filterMap_append, ih, List.flatMap_cons]
    have hboth : (TelevRx.both d.code).filterMap dtmfEvent = d.heard := by
      unfold TelevRx.both Digit.heard
      rw [List.filterMap_cons_some d.dtmfEvent_begun, List.filterMap_cons_some d.dtmfEvent_ended]
      rfl
    rw [hboth]

namespace Tones

/-- The digits in the order they were pressed. -/
def digits : List Action → List Digit
  | [] => []
  | .press d :: as => d :: digits as
  | _ :: as => digits as

theorem pressed_eq (as : List Action) : pressed as = (digits as).map Digit.code := by
  induction as with
  | nil => rfl
  | cons a as ih =>
    cases a with
    | press d => exact congrArg (d.code :: ·) ih
    | work => exact ih
    | poll => exact ih

/-- The stream of a call that was polled for long enough: one whole event for each digit but the
last, whose event goes on. -/
structure Split (t : Tones) (before : List Digit) (last : Digit) (events : List (List Packet))
    (tail : List Packet) : Prop where
  stream : t.stream = events.flatten ++ tail
  whole : List.Forall₂ (fun code event => ∃ n ≥ 9, event = whole code t.audio.telev.pdur n)
    (before.map Digit.code) events
  going : ∃ m ≥ 1, tail = going last.code t.audio.telev.pdur m

theorem split_drained (ptime srate : UInt32) {as : List Action} {before : List Digit} {last : Digit}
    (hdigits : digits as = before ++ [last]) (hroom : (digits as).length ≤ queueSize) :
    ∃ N, ∀ n ≥ N, ∃ events tail,
      Split ((start ptime srate true).run (drained as n)) before last events tail := by
  have hpressed : pressed as = before.map Digit.code ++ [last.code] := by
    rw [pressed_eq, hdigits, List.map_append]
    rfl
  have hne : pressed as ≠ [] := by
    rw [hpressed]
    exact List.append_ne_nil_of_right_ne_nil _ (List.cons_ne_nil _ _)
  have hroom' : (pressed as).length ≤ queueSize := by
    rw [pressed_eq, List.length_map]
    exact hroom
  obtain ⟨N, hall⟩ := last_goes_on ptime srate hne hroom'
  refine ⟨N, fun n hn => ?_⟩
  obtain ⟨codes, code, packets, m, hcodes, hm, hsent, hstream⟩ := hall n hn
  obtain ⟨hbefore, hlast⟩ := List.append_inj' (hpressed.symm.trans hcodes) rfl
  obtain ⟨events, rfl, hevents⟩ := TelevRx.events_of_sent hsent
  rw [← hbefore] at hevents
  rw [← (List.cons.inj hlast).1] at hstream
  exact ⟨events, _, hstream, hevents, m, hm, rfl⟩

/-- The other side, having heard nothing before. -/
def heard (got : List Packet) : List DtmfEvent :=
  (handleTelevs .alloc (got.map payloadEncode)).2

theorem Split.heard {t : Tones} {before : List Digit} {last : Digit} {events : List (List Packet)}
    {tail got tailGot : List Packet} (h : t.Split before last events tail)
    (hgot : TelevRx.Transferred events got) (htail : Carried tail tailGot) (hsome : tailGot ≠ []) :
    heard (got ++ tailGot) = before.flatMap Digit.heard ++ [.begun (heardAs last.val)] := by
  obtain ⟨m, -, htailgoing⟩ := h.going
  have hlast : ∀ p ∈ tailGot, p.event = last.code ∧ p.final = false := by
    intro p hp
    have hp' := htail.mem hp
    rw [htailgoing] at hp'
    exact event_of_going hp'
  obtain ⟨hidle, hreports⟩ := @TelevRx.hear_transferred .alloc _ _ _ _ h.whole hgot rfl
  unfold Tones.heard
  rw [handleTelevs_eq_hear, List.map_append, TelevRx.hear_append,
    TelevRx.hear_beginning hsome hlast hidle, hreports]
  simp only
  rw [List.filterMap_append, filterMap_dtmfEvent, List.filterMap_cons_some last.dtmfEvent_begun]
  rfl

/-- However the network loses and repeats packets: where something arrives of each beginning and
each end, the other side hears every digit once and in order, and only the last one without its
end. -/
theorem digits_heard (ptime srate : UInt32) {as : List Action} {before : List Digit} {last : Digit}
    (hdigits : digits as = before ++ [last]) (hroom : (digits as).length ≤ queueSize) :
    ∃ N, ∀ n ≥ N, ∃ events tail,
      Split ((start ptime srate true).run (drained as n)) before last events tail ∧
      ∀ got tailGot, TelevRx.Transferred events got → Carried tail tailGot → tailGot ≠ [] →
        heard (got ++ tailGot) = before.flatMap Digit.heard ++ [.begun (heardAs last.val)] := by
  obtain ⟨N, hall⟩ := split_drained ptime srate hdigits hroom
  refine ⟨N, fun n hn => ?_⟩
  obtain ⟨events, tail, hsplit⟩ := hall n hn
  exact ⟨events, tail, hsplit, fun _ _ => hsplit.heard⟩

/-- Two digits are pressed. -/
theorem digits_heard_two : ∃ N, ∀ n ≥ N, ∃ events tail,
    Split ((start 20 8000 true).run (drained [.press ⟨49, rfl⟩, .press ⟨97, rfl⟩] n)) [⟨49, rfl⟩]
      ⟨97, rfl⟩ events tail ∧
    ∀ got tailGot, TelevRx.Transferred events got → Carried tail tailGot → tailGot ≠ [] →
      heard (got ++ tailGot) = [.begun 49, .ended, .begun 65] :=
  digits_heard 20 8000 rfl (by decide)

end Tones
end SimplePhone.Baresip
