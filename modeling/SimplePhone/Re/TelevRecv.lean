import Mathlib.Data.List.Forall2
import SimplePhone.Re.Telev
import SimplePhone.Transition.Channel

/-! The receiver of telephony events. Of each event it reports the beginning and the end once,
however many packets of the event arrive. -/
namespace SimplePhone.Re

open Transition

def volume : UInt8 := 10

/-- `payload_encode` of what is in a packet. -/
def payloadEncode (p : Packet) : List UInt8 :=
  [p.event, (if p.final then 0x80 else 0) ||| (volume &&& 0x3f),
    UInt8.ofNat (p.dur.toNat / 256), UInt8.ofNat (p.dur.toNat % 256)]

/-- `struct telev_fmt` -/
structure TelevFmt where
  event : UInt8
  final : Bool
  vol : UInt8
  dur : UInt16
deriving DecidableEq

/-- `payload_decode`; `none` for `ENOENT`. -/
def payloadDecode : List UInt8 → Option TelevFmt
  | event :: b :: high :: low :: _ =>
      some ⟨event, (b &&& 0x80) = 0x80, b &&& 0x3f, UInt16.ofNat (high.toNat * 256 + low.toNat)⟩
  | _ => none

/-- `rx_event`, which is -1 between events, and `rx_end`. -/
structure TelevRx where
  event : Option UInt8
  final : Bool
deriving DecidableEq

inductive RecvError where
  | enoent
  | ealready
deriving DecidableEq

namespace TelevRx

/-- As `telev_alloc` leaves it. -/
def alloc : TelevRx := ⟨none, false⟩

/-- `telev_recv`: the event, and whether it ends. -/
def recv (mb : List UInt8) (rx : TelevRx) : TelevRx × Except RecvError (UInt8 × Bool) :=
  match payloadDecode mb with
  | none => (rx, .error .enoent)
  | some fmt =>
      if fmt.final then
        if rx.final then (rx, .error .ealready)
        else (⟨none, true⟩, .ok (fmt.event, true))
      else if rx.event = some fmt.event then (rx, .error .ealready)
      else (⟨some fmt.event, false⟩, .ok (fmt.event, false))

/-- What the receiver reports of one payload after the other. -/
def hear (rx : TelevRx) : List (List UInt8) → TelevRx × List (UInt8 × Bool)
  | [] => (rx, [])
  | mb :: rest =>
      let (rx, result) := rx.recv mb
      let (rx, reports) := rx.hear rest
      (rx, result.toOption.toList ++ reports)

end TelevRx

/-! ### The payload -/

/-- Four bytes, and what follows is left alone. -/
theorem payloadDecode_payloadEncode (p : Packet) (rest : List UInt8) :
    payloadDecode (payloadEncode p ++ rest) = some ⟨p.event, p.final, volume, p.dur⟩ := by
  have hsize : p.dur.toNat < 65536 := p.dur.toNat_lt
  have hdur : UInt16.ofNat ((UInt8.ofNat (p.dur.toNat / 256)).toNat * 256 +
      (UInt8.ofNat (p.dur.toNat % 256)).toNat) = p.dur := by
    rw [UInt8.toNat_ofNat', UInt8.toNat_ofNat']
    have hhigh : p.dur.toNat / 256 % 2 ^ 8 = p.dur.toNat / 256 := Nat.mod_eq_of_lt (by omega)
    have hlow : p.dur.toNat % 256 % 2 ^ 8 = p.dur.toNat % 256 := Nat.mod_eq_of_lt (by omega)
    rw [hhigh, hlow, Nat.div_add_mod', UInt16.ofNat_toNat]
  unfold payloadEncode payloadDecode
  simp only [List.cons_append, List.nil_append]
  rw [hdur]
  cases p.final <;> rfl

/-! ### One event -/

namespace TelevRx

variable {rx : TelevRx}

theorem hear_append (rx : TelevRx) (first second : List (List UInt8)) :
    rx.hear (first ++ second) = (((rx.hear first).1.hear second).1,
      (rx.hear first).2 ++ ((rx.hear first).1.hear second).2) := by
  induction first generalizing rx with
  | nil => rfl
  | cons mb first ih =>
    change ((((rx.recv mb).1.hear (first ++ second)).1,
      (rx.recv mb).2.toOption.toList ++ ((rx.recv mb).1.hear (first ++ second)).2)) = _
    rw [ih, ← List.append_assoc]
    rfl

theorem recv_payloadEncode (p : Packet) (rx : TelevRx) : rx.recv (payloadEncode p) =
    if p.final then
      if rx.final then (rx, .error .ealready) else (⟨none, true⟩, .ok (p.event, true))
    else if rx.event = some p.event then (rx, .error .ealready)
    else (⟨some p.event, false⟩, .ok (p.event, false)) := by
  have hdecode := payloadDecode_payloadEncode p []
  rw [List.append_nil] at hdecode
  unfold recv
  rw [hdecode]

/-- A packet of an event that was reported adds nothing. -/
theorem hear_known {packets : List Packet}
    (h : ∀ p ∈ packets, if p.final then rx.final = true else rx.event = some p.event) :
    rx.hear (packets.map payloadEncode) = (rx, []) := by
  induction packets with
  | nil => rfl
  | cons p packets ih =>
    have hp := h p List.mem_cons_self
    have hrecv : rx.recv (payloadEncode p) = (rx, .error .ealready) := by
      rw [recv_payloadEncode]
      split at hp
      · rename_i hfinal
        rw [if_pos hfinal, if_pos hp]
      · rename_i hfinal
        rw [if_neg hfinal, if_pos hp]
    rw [List.map_cons, hear, hrecv]
    simp only
    rw [ih fun q hq => h q (List.mem_cons_of_mem p hq)]
    rfl

theorem hear_beginning {packets : List Packet} {code : UInt8} (hne : packets ≠ [])
    (h : ∀ p ∈ packets, p.event = code ∧ p.final = false) (hrest : rx.event = none) :
    rx.hear (packets.map payloadEncode) = (⟨some code, false⟩, [(code, false)]) := by
  cases packets with
  | nil => exact absurd rfl hne
  | cons p packets =>
    obtain ⟨hcode, hfinal⟩ := h p List.mem_cons_self
    have hrecv : rx.recv (payloadEncode p) = (⟨some code, false⟩, .ok (code, false)) := by
      rw [recv_payloadEncode, hrest, hfinal, hcode]
      rfl
    have hknown : (⟨some code, false⟩ : TelevRx).hear (packets.map payloadEncode) =
        (⟨some code, false⟩, []) := by
      apply hear_known
      intro q hq
      obtain ⟨hcode, hfinal⟩ := h q (List.mem_cons_of_mem p hq)
      rw [hfinal, hcode]
      exact rfl
    rw [List.map_cons, hear, hrecv]
    simp only
    rw [hknown]
    rfl

theorem hear_ending {packets : List Packet} {code : UInt8} (hne : packets ≠ [])
    (h : ∀ p ∈ packets, p.event = code ∧ p.final = true) (hgoing : rx.final = false) :
    rx.hear (packets.map payloadEncode) = (⟨none, true⟩, [(code, true)]) := by
  cases packets with
  | nil => exact absurd rfl hne
  | cons p packets =>
    obtain ⟨hcode, hfinal⟩ := h p List.mem_cons_self
    have hrecv : rx.recv (payloadEncode p) = (⟨none, true⟩, .ok (code, true)) := by
      rw [recv_payloadEncode, hgoing, hfinal, hcode]
      rfl
    have hknown : (⟨none, true⟩ : TelevRx).hear (packets.map payloadEncode) =
        (⟨none, true⟩, []) := by
      apply hear_known
      intro q hq
      rw [(h q (List.mem_cons_of_mem p hq)).2]
      exact rfl
    rw [List.map_cons, hear, hrecv]
    simp only
    rw [hknown]
    rfl

/-! ### A stream of events -/

/-- What arrives of the packets of some events: something of each beginning and of each end. -/
inductive Transferred : List (List Packet) → List Packet → Prop where
  | nil : Transferred [] []
  | cons {event got : List Packet} {events : List (List Packet)} {gots : List Packet}
      (hcarried : Carried event got) (hbegun : ∃ p ∈ got, p.final = false)
      (hended : ∃ p ∈ got, p.final = true) (h : Transferred events gots) :
      Transferred (event :: events) (got ++ gots)

/-- The beginning and the end of an event. -/
def both (code : UInt8) : List (UInt8 × Bool) := [(code, false), (code, true)]

theorem hear_whole {code : UInt8} {pdur : UInt16} {n : Nat} {got : List Packet}
    (hcarried : Carried (whole code pdur n) got) (hbegun : ∃ p ∈ got, p.final = false)
    (hended : ∃ p ∈ got, p.final = true) (hrest : rx.event = none) :
    rx.hear (got.map payloadEncode) = (⟨none, true⟩, both code) := by
  obtain ⟨one, two, rfl, hone, htwo⟩ := hcarried.split
  have hgoing : ∀ p ∈ one, p.event = code ∧ p.final = false := fun p hp =>
    event_of_going (hone.mem hp)
  have hclosing : ∀ p ∈ two, p.event = code ∧ p.final = true := by
    intro p hp
    rw [(List.mem_replicate.mp (htwo.mem hp)).2]
    exact ⟨rfl, rfl⟩
  have hone_ne : one ≠ [] := by
    rintro rfl
    obtain ⟨p, hp, hfinal⟩ := hbegun
    rw [(hclosing p hp).2] at hfinal
    cases hfinal
  have htwo_ne : two ≠ [] := by
    rintro rfl
    obtain ⟨p, hp, hfinal⟩ := hended
    rw [List.append_nil] at hp
    rw [(hgoing p hp).2] at hfinal
    cases hfinal
  rw [List.map_append, hear_append, hear_beginning hone_ne hgoing hrest,
    hear_ending htwo_ne hclosing rfl]
  rfl

/-- The events that were sent whole are reported one after the other. -/
theorem hear_transferred {pdur : UInt16} {codes : List UInt8} {events : List (List Packet)}
    {got : List Packet}
    (hwhole : List.Forall₂ (fun code event => ∃ n ≥ 9, event = whole code pdur n) codes events)
    (h : Transferred events got) (hrest : rx.event = none) :
    (rx.hear (got.map payloadEncode)).1.event = none ∧
      (rx.hear (got.map payloadEncode)).2 = codes.flatMap both := by
  induction hwhole generalizing got rx with
  | nil =>
    cases h
    exact ⟨hrest, rfl⟩
  | cons hcode hcodes ih =>
    obtain ⟨n, -, rfl⟩ := hcode
    cases h with
    | cons hcarried hbegun hended h =>
      have hfirst := hear_whole hcarried hbegun hended hrest
      rw [List.map_append, hear_append, hfirst]
      obtain ⟨hidle, hreports⟩ := @ih ⟨none, true⟩ _ h rfl
      refine ⟨hidle, ?_⟩
      rw [List.flatMap_cons, ← hreports]

/-- A stream of whole events, event by event. -/
theorem events_of_sent {pdur : UInt16} {codes : List UInt8} {packets : List Packet}
    (h : Sent pdur codes packets) : ∃ events, packets = events.flatten ∧
      List.Forall₂ (fun code event => ∃ n ≥ 9, event = whole code pdur n) codes events := by
  induction h with
  | nil => exact ⟨[], rfl, .nil⟩
  | snoc h code n hn ih =>
    obtain ⟨events, rfl, hevents⟩ := ih
    refine ⟨events ++ [whole code pdur n], ?_, ?_⟩
    · rw [List.flatten_append, List.flatten_singleton]
    · exact List.rel_append hevents (.cons ⟨n, hn, rfl⟩ .nil)

/-- A network that loses nothing. -/
theorem transferred_flatten {pdur : UInt16} {codes : List UInt8} {events : List (List Packet)}
    (hwhole : List.Forall₂ (fun code event => ∃ n ≥ 9, event = whole code pdur n) codes events) :
    Transferred events events.flatten := by
  induction hwhole with
  | nil => exact .nil
  | @cons code event codes events hcode hcodes ih =>
    obtain ⟨n, hn, rfl⟩ := hcode
    obtain ⟨m, rfl⟩ : ∃ m, n = m + 1 := ⟨n - 1, by omega⟩
    obtain ⟨first, rest, hgoing, -, hfirst, -⟩ := going_succ code pdur m
    apply Transferred.cons (Carried.all _) _ _ ih
    · refine ⟨first, ?_, hfirst⟩
      rw [whole, hgoing]
      exact List.mem_cons_self
    · refine ⟨⟨false, code, true, UInt16.ofNat (m + 1) * pdur⟩, ?_, rfl⟩
      exact List.mem_append_right _ (List.mem_replicate.mpr ⟨by omega, rfl⟩)

/-! ### Whatever arrives -/

/-- What may be reported next to what was reported: no second end of an event, and no second
beginning of the event that goes on. -/
def Follows (before after : UInt8 × Bool) : Prop :=
  if after.2 then before.2 = false else before ≠ after

/-- What the receiver keeps of its last report. -/
def Keeps (rx : TelevRx) : Option (UInt8 × Bool) → Prop
  | none => rx = alloc
  | some (_, true) => rx = ⟨none, true⟩
  | some (code, false) => rx = ⟨some code, false⟩

theorem recv_follows {last : Option (UInt8 × Bool)} (hkeeps : rx.Keeps last) {mb : List UInt8}
    {report : UInt8 × Bool} (h : (rx.recv mb).2 = .ok report) :
    (rx.recv mb).1.Keeps (some report) ∧ ∀ before ∈ last, Follows before report := by
  unfold recv at h ⊢
  cases hfmt : payloadDecode mb with
  | none =>
    rw [hfmt] at h
    cases h
  | some fmt =>
    rw [hfmt] at h
    simp only at h ⊢
    split at h
    · rename_i hfinal
      rw [if_pos hfinal]
      split at h
      · cases h
      · rename_i hgoing
        cases h
        rw [if_neg hgoing]
        refine ⟨rfl, ?_⟩
        rintro ⟨code, final⟩ hlast
        rw [hlast] at hkeeps
        cases final with
        | false => rfl
        | true =>
          rw [hkeeps] at hgoing
          exact absurd rfl hgoing
    · rename_i hfinal
      rw [if_neg hfinal]
      split at h
      · cases h
      · rename_i hnew
        cases h
        rw [if_neg hnew]
        refine ⟨rfl, ?_⟩
        rintro ⟨code, final⟩ hlast hsame
        cases hsame
        rw [hlast] at hkeeps
        rw [hkeeps] at hnew
        exact hnew rfl

theorem recv_error {mb : List UInt8} {e : RecvError} (h : (rx.recv mb).2 = .error e) :
    (rx.recv mb).1 = rx := by
  unfold recv at h ⊢
  cases hfmt : payloadDecode mb with
  | none => rfl
  | some fmt =>
    rw [hfmt] at h
    simp only at h ⊢
    split at h
    · rename_i hfinal
      rw [if_pos hfinal]
      split at h
      · rename_i hended
        rw [if_pos hended]
      · cases h
    · rename_i hfinal
      rw [if_neg hfinal]
      split at h
      · rename_i hknown
        rw [if_pos hknown]
      · cases h

theorem hear_follows {last : Option (UInt8 × Bool)} (hkeeps : rx.Keeps last)
    (payloads : List (List UInt8)) :
    List.IsChain Follows (last.toList ++ (rx.hear payloads).2) := by
  induction payloads generalizing rx last with
  | nil =>
    cases last with
    | none => exact .nil
    | some report => exact .singleton report
  | cons mb payloads ih =>
    change List.IsChain Follows (last.toList ++
      ((rx.recv mb).2.toOption.toList ++ ((rx.recv mb).1.hear payloads).2))
    cases hresult : (rx.recv mb).2 with
    | error e =>
      rw [recv_error hresult]
      exact ih hkeeps
    | ok report =>
      obtain ⟨hnext, hfollows⟩ := recv_follows hkeeps hresult
      have hrest := ih hnext
      cases last with
      | none => exact hrest
      | some before => exact .cons_cons (hfollows before rfl) hrest

/-- Whatever payloads arrive, no end is reported twice in a row, and the beginning of an event
not again before another report. -/
theorem reports_follow (payloads : List (List UInt8)) :
    List.IsChain Follows (alloc.hear payloads).2 :=
  @hear_follows alloc none rfl payloads

end TelevRx

end SimplePhone.Re
