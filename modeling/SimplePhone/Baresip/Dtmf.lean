import SimplePhone.Native.Line
import SimplePhone.Re.Telev

/-! The digits pressed in an established call, from `nativeSendDtmf` to the RTP packets. The
account leaves the mode of the digits at its default, so they go as telephony events. -/
namespace SimplePhone.Baresip

open Re Telev

def keycodeRel : UInt8 := 0x04

inductive DigitError where
  | einval
  | eoverflow
deriving DecidableEq

/-- What of `struct audio` the digits need. -/
structure Audio where
  telev : Telev
  curKey : UInt8
deriving DecidableEq

def Audio.sendEvent (event : UInt8) (final : Bool) (key : UInt8) (a : Audio) :
    Audio × Option DigitError :=
  match a.telev.send event final with
  | none => ({ a with curKey := key }, some .eoverflow)
  | some telev => (⟨telev, key⟩, none)

def audioSendDigit (key : UInt8) (a : Audio) : Audio × Option DigitError :=
  if key ≠ keycodeRel then
    match digit2code key with
    | none => (a, some .einval)
    | some event => a.sendEvent event false key
  else if a.curKey ≠ 0 ∧ a.curKey ≠ keycodeRel then
    -- the code does not matter for a release
    a.sendEvent ((digit2code a.curKey).getD 0xff) true key
  else ({ a with curKey := key }, none)

/-- A key that can be dialled. -/
def Digit : Type := { key : UInt8 // (digit2code key).isSome = true }

namespace Digit

variable (d : Digit)

def code : UInt8 := (digit2code d.val).get d.property

theorem digit2code_val : digit2code d.val = some d.code := (Option.some_get _).symm

theorem val_ne_keycodeRel : d.val ≠ keycodeRel := by
  intro h
  have hsome := d.property
  rw [h] at hsome
  exact absurd hsome (by decide)

theorem code_ne_eventEnd : d.code ≠ eventEnd := by
  intro h
  have hlt : d.code < 16 := digit2code_lt d.digit2code_val
  rw [h] at hlt
  exact absurd hlt (by decide)

/-- A digit is queued, where there is room for it. -/
theorem telev_audioSendDigit (a : Audio) :
    (audioSendDigit d.val a).1.telev = (a.telev.send d.code false).getD a.telev := by
  unfold audioSendDigit Audio.sendEvent
  rw [if_pos d.val_ne_keycodeRel, d.digit2code_val]
  cases hsend : a.telev.send d.code false with
  | none =>
    simp only [hsend]
    rfl
  | some telev =>
    simp only [hsend]
    rfl

end Digit

/-! ### The call -/

/-- The current call and what it sends to the other side. -/
structure Tones where
  /-- the digits of the `dtmf_worker`s that wait for the event loop -/
  posted : List Digit
  audio : Audio
  /-- the other side takes `telephone-event` -/
  negotiated : Bool
  stream : List Packet

namespace Tones

inductive Action where
  /-- `nativeSendDtmf` -/
  | press (d : Digit)
  /-- the event loop takes the oldest `dtmf_worker` -/
  | work
  /-- the audio thread polls for a packet -/
  | poll

def start (ptime srate : UInt32) (negotiated : Bool) : Tones where
  posted := []
  audio := ⟨(alloc ptime).setSrate srate, 0⟩
  negotiated := negotiated
  stream := []

def checkTelev (t : Tones) : Tones :=
  { t with
    audio := { t.audio with telev := t.audio.telev.poll.1 }
    stream := t.stream ++ if t.negotiated then t.audio.telev.poll.2.toList else [] }

def step (t : Tones) : Action → Tones
  | .press d => { t with posted := t.posted ++ [d] }
  | .work =>
      match t.posted with
      | [] => t
      | d :: rest => { t with posted := rest, audio := (audioSendDigit d.val t.audio).1 }
  | .poll => t.checkTelev

def run (t : Tones) (as : List Action) : Tones := as.foldl step t

/-- The events that the keys pressed call for. -/
def pressed : List Action → List UInt8
  | [] => []
  | .press d :: as => d.code :: pressed as
  | _ :: as => pressed as

/-- One complete event for each code, and nothing is left to send. -/
def Delivered (codes : List UInt8) (t : Tones) : Prop :=
  (∃ chunks : List (List Packet), t.stream = chunks.flatten ∧
    List.Forall₂ CompleteEvent codes chunks) ∧ t.audio.telev.isEmpty = true

theorem pressed_append (as bs : List Action) : pressed (as ++ bs) = pressed as ++ pressed bs := by
  induction as with
  | nil => rfl
  | cons a as ih =>
    cases a with
    | press d => exact congrArg (d.code :: ·) ih
    | work => exact ih
    | poll => exact ih

theorem pressed_replicate {a : Action} (h : pressed [a] = []) (n : Nat) :
    pressed (List.replicate n a) = [] := by
  induction n with
  | zero => rfl
  | succ n ih =>
    rw [List.replicate_succ', pressed_append, ih, h]
    rfl

theorem run_append (t : Tones) (as bs : List Action) : t.run (as ++ bs) = (t.run as).run bs :=
  List.foldl_append

theorem run_snoc (t : Tones) (as : List Action) (a : Action) :
    t.run (as ++ [a]) = (t.run as).step a :=
  List.foldl_append

/-! ### What is queued -/

/-- The keys with these codes were pressed: some digits wait, the others are all in the queue
that had room there. -/
structure Queued (codes : List UInt8) (t : Tones) : Prop where
  held : t.audio.telev.Held
  kept : ∃ sent, codes = sent ++ t.posted.map Digit.code ∧
    t.audio.telev.queue = sent.take queueSize

theorem queued_start (ptime srate : UInt32) (negotiated : Bool) :
    Queued [] (start ptime srate negotiated) where
  held := (held_alloc ptime).setSrate srate
  kept := ⟨[], rfl, rfl⟩

variable {codes : List UInt8} {t : Tones}

theorem Queued.work (h : Queued codes t) : Queued codes (t.step .work) := by
  unfold step
  cases hposted : t.posted with
  | nil => exact h
  | cons d rest =>
    obtain ⟨sent, hcodes, hqueue⟩ := h.kept
    rw [hposted, List.map_cons, List.append_cons] at hcodes
    simp only
    constructor
    · simp only
      rw [d.telev_audioSendDigit]
      exact h.held.send_getD d.code_ne_eventEnd
    · refine ⟨sent ++ [d.code], hcodes, ?_⟩
      simp only
      rw [d.telev_audioSendDigit]
      exact queue_send hqueue d.code

theorem Queued.step (h : Queued codes t) (a : Action) :
    Queued (codes ++ pressed [a]) (t.step a) := by
  cases a with
  | press d =>
    obtain ⟨sent, hcodes, hqueue⟩ := h.kept
    refine ⟨h.held, sent, ?_, hqueue⟩
    change _ = sent ++ (t.posted ++ [d]).map Digit.code
    rw [hcodes, List.map_append, List.append_assoc]
    rfl
  | work =>
    change Queued (codes ++ []) _
    rw [List.append_nil]
    exact h.work
  | poll =>
    obtain ⟨hheld, hqueue, -⟩ := h.held.poll
    change Queued (codes ++ []) _
    rw [List.append_nil]
    obtain ⟨sent, hcodes, hsent⟩ := h.kept
    exact ⟨hheld, sent, hcodes, hqueue.trans hsent⟩

theorem Queued.run (h : Queued codes t) (as : List Action) :
    Queued (codes ++ pressed as) (t.run as) := by
  induction as generalizing codes t with
  | nil =>
    change Queued (codes ++ []) t
    rw [List.append_nil]
    exact h
  | cons a as ih =>
    have hrun := ih (h.step a)
    rw [List.append_assoc, ← pressed_append] at hrun
    exact hrun

theorem queued_run (ptime srate : UInt32) (negotiated : Bool) (as : List Action) :
    Queued (pressed as) ((start ptime srate negotiated).run as) :=
  (queued_start ptime srate negotiated).run as

theorem posted_work (t : Tones) : (t.step .work).posted = t.posted.tail := by
  unfold step
  cases hposted : t.posted with
  | nil => exact hposted
  | cons d rest => rfl

theorem posted_works (t : Tones) (n : Nat) :
    (t.run (List.replicate n .work)).posted = t.posted.drop n := by
  induction n with
  | zero => rfl
  | succ n ih => rw [List.replicate_succ', run_snoc, posted_work, ih, List.tail_drop]

theorem posted_polls (t : Tones) (n : Nat) : (t.run (List.replicate n .poll)).posted = t.posted := by
  induction n with
  | zero => rfl
  | succ n ih =>
    rw [List.replicate_succ', run_snoc]
    exact ih

/-- Every handler gets its turn. -/
def worked (as : List Action) : List Action := as ++ List.replicate (pressed as).length .work

/-- After that the sender is polled `n` times. -/
def drained (as : List Action) (n : Nat) : List Action := worked as ++ List.replicate n .poll

theorem pressed_drained (as : List Action) (n : Nat) : pressed (drained as n) = pressed as := by
  unfold drained worked
  rw [pressed_append, pressed_append, pressed_replicate rfl, pressed_replicate rfl,
    List.append_nil, List.append_nil]

theorem Queued.posted_le (h : Queued codes t) : t.posted.length ≤ codes.length := by
  obtain ⟨sent, hcodes, -⟩ := h.kept
  rw [hcodes, List.length_append, List.length_map]
  omega

theorem posted_drained (ptime srate : UInt32) (negotiated : Bool) (as : List Action) (n : Nat) :
    ((start ptime srate negotiated).run (drained as n)).posted = [] := by
  unfold drained worked
  rw [run_append, run_append, posted_polls, posted_works]
  exact List.drop_of_length_le (queued_run ptime srate negotiated as).posted_le

theorem queue_drained (ptime srate : UInt32) (negotiated : Bool) (as : List Action) (n : Nat) :
    ((start ptime srate negotiated).run (drained as n)).audio.telev.queue =
      (pressed as).take queueSize := by
  obtain ⟨sent, hcodes, hqueue⟩ := (queued_run ptime srate negotiated (drained as n)).kept
  rw [pressed_drained, posted_drained, List.map_nil, List.append_nil] at hcodes
  rw [hqueue, hcodes]

theorem run_silent (ptime srate : UInt32) (negotiated : Bool) {as : List Action}
    (h : pressed as = []) :
    (start ptime srate negotiated).run as = start ptime srate negotiated := by
  induction as with
  | nil => rfl
  | cons a as ih =>
    cases a with
    | press d => cases h
    | work => exact ih h
    | poll =>
      have hpoll : (start ptime srate negotiated).step .poll = start ptime srate negotiated := by
        cases negotiated <;> rfl
      change ((start ptime srate negotiated).step .poll).run as = _
      rw [hpoll]
      exact ih h

/-- With a digit the sender never becomes empty again: its last event is not released. -/
theorem delivered_iff_silent (ptime srate : UInt32) (negotiated : Bool) (as : List Action) :
    (∃ N, ∀ n ≥ N, Delivered (pressed as) ((start ptime srate negotiated).run (drained as n))) ↔
      pressed as = [] := by
  constructor
  · rintro ⟨N, hdelivered⟩
    obtain ⟨-, hempty⟩ := hdelivered N (Nat.le_refl N)
    have hqueued := queued_run ptime srate negotiated (drained as N)
    have hqueue := (hqueued.held.isEmpty_iff.mp hempty).2
    rw [queue_drained, List.take_eq_nil_iff] at hqueue
    exact hqueue.resolve_left (by decide)
  · intro hsilent
    refine ⟨0, fun n _ => ?_⟩
    rw [run_silent ptime srate negotiated ((pressed_drained as n).trans hsilent), hsilent]
    exact ⟨⟨[], rfl, .nil⟩, rfl⟩

/-- One digit is enough. -/
theorem one_undelivered : ¬ ∃ N, ∀ n ≥ N, Delivered (pressed [.press ⟨49, rfl⟩])
    ((start 20 8000 true).run (drained [.press ⟨49, rfl⟩] n)) := by
  rintro ⟨N, hdelivered⟩
  have hempty := (hdelivered N (Nat.le_refl N)).2
  have hqueued := queued_run 20 8000 true (drained [.press ⟨49, rfl⟩] N)
  have hqueue := (hqueued.held.isEmpty_iff.mp hempty).2
  rw [queue_drained] at hqueue
  exact absurd hqueue (by decide)

/-! ### What the other side gets -/

theorem progress_step (hnegotiated : t.negotiated = true) (hheld : t.audio.telev.Held)
    (h : t.audio.telev.Progress t.stream) (a : Action) :
    (t.step a).negotiated = true ∧ (t.step a).audio.telev.Progress (t.step a).stream := by
  cases a with
  | press d => exact ⟨hnegotiated, h⟩
  | work =>
    unfold step
    cases hposted : t.posted with
    | nil => exact ⟨hnegotiated, h⟩
    | cons d rest =>
      refine ⟨hnegotiated, ?_⟩
      simp only
      rw [d.telev_audioSendDigit]
      exact h.send_getD hheld d.code
  | poll =>
    refine ⟨hnegotiated, ?_⟩
    change t.audio.telev.poll.1.Progress (t.stream ++ if t.negotiated then _ else [])
    rw [if_pos hnegotiated]
    exact h.poll hheld

theorem progress_run (hnegotiated : t.negotiated = true) (hqueued : Queued codes t)
    (h : t.audio.telev.Progress t.stream) (as : List Action) :
    (t.run as).audio.telev.Progress (t.run as).stream := by
  induction as generalizing codes t with
  | nil => exact h
  | cons a as ih =>
    obtain ⟨hnegotiated', h'⟩ := progress_step hnegotiated hqueued.held h a
    exact ih hnegotiated' (hqueued.step a) h'

theorem progress_of_run (ptime srate : UInt32) (as : List Action) :
    ((start ptime srate true).run as).audio.telev.Progress ((start ptime srate true).run as).stream :=
  progress_run rfl (queued_start ptime srate true) (.idle rfl .nil rfl) as

/-- No digit before the one at work is merged, lost or out of its order. -/
theorem sent_of_run (ptime srate : UInt32) (as : List Action) : ∃ codes packets rest,
    Sent ((start ptime srate true).run as).audio.telev.pdur codes packets ∧
      ((start ptime srate true).run as).stream = packets ++ rest ∧ codes <+: pressed as := by
  obtain ⟨codes, packets, rest, hsent, hstream, hbefore⟩ := (progress_of_run ptime srate as).sent
  obtain ⟨sent, hcodes, hqueue⟩ := (queued_run ptime srate true as).kept
  refine ⟨codes, packets, rest, hsent, hstream, ?_⟩
  rw [hqueue] at hbefore
  rw [hcodes]
  exact (hbefore.trans (List.take_prefix _ _)).trans (List.prefix_append _ _)

theorem telev_polls (t : Tones) (n : Nat) :
    (t.run (List.replicate n .poll)).audio.telev = polls n t.audio.telev := by
  induction n generalizing t with
  | zero => rfl
  | succ n ih => exact ih t.checkTelev

/-- In the end every digit was sent whole but the last one, whose event goes on. -/
theorem last_goes_on (ptime srate : UInt32) {as : List Action} (hpressed : pressed as ≠ [])
    (hroom : (pressed as).length ≤ queueSize) : ∃ N, ∀ n ≥ N, ∃ codes last packets m,
      pressed as = codes ++ [last] ∧ 1 ≤ m ∧
      Sent ((start ptime srate true).run (drained as n)).audio.telev.pdur codes packets ∧
      ((start ptime srate true).run (drained as n)).stream = packets ++
        going last ((start ptime srate true).run (drained as n)).audio.telev.pdur m := by
  have hheld := (queued_run ptime srate true (worked as)).held
  have hne : ((start ptime srate true).run (worked as)).audio.telev.queue ≠ [] := by
    have hqueue := queue_drained ptime srate true as 0
    unfold drained at hqueue
    rw [List.replicate_zero, List.append_nil] at hqueue
    rw [hqueue]
    exact fun h => hpressed ((List.take_eq_nil_iff.mp h).resolve_left (by decide))
  refine ⟨((start ptime srate true).run (worked as)).audio.telev.rank, fun n hn => ?_⟩
  have hwaits : ((start ptime srate true).run (drained as n)).audio.telev.Waits := by
    unfold drained
    rw [run_append, telev_polls]
    exact waits_of_polls hheld hne hn
  obtain ⟨codes, packets, m, hsent, hqueue, hm, hstream⟩ :=
    (progress_of_run ptime srate (drained as n)).waits hwaits
  rw [queue_drained, List.take_of_length_le hroom] at hqueue
  exact ⟨codes, _, packets, m, hqueue, hm, hsent, hstream⟩

/-! ### The event loop -/

open Native (Globals Call Lib Work)

/-- The call is the current one, and nothing but its digits waits. -/
structure Follows (g : Globals) (t : Tones) : Prop where
  call : g.gCall ≠ none
  awake : g.dialing = none
  posted : g.posted.map Native.Post.work = t.posted.map fun d => Work.dtmf d.val

/-- The digit goes to the current call. -/
theorem digits_dtmfWorker {g : Globals} (digit : UInt8) :
    (Native.dtmfWorker digit g).current.map Call.digits =
      g.current.map fun x => x.digits ++ [digit] := by
  unfold Native.dtmfWorker
  cases hc : g.gCall with
  | none =>
    unfold Globals.current
    rw [hc]
    rfl
  | some c =>
    have hf (x : Call) : ({ x with digits := x.digits ++ [digit] } : Call).id = x.id := rfl
    simp only
    rw [Native.current_updateCall_self hc hf, Option.map_map]
    rfl

theorem Follows.press {g : Globals} (h : Follows g t) (d : Digit) :
    ∃ g', Native.step g (.post (.dtmf d.val)) = some g' ∧ Follows g' (t.step (.press d)) := by
  refine ⟨_, rfl, h.call, h.awake, ?_⟩
  change (g.posted ++ [_]).map Native.Post.work = (t.posted ++ [d]).map _
  rw [List.map_append, List.map_append, h.posted]
  rfl

theorem Follows.work {g : Globals} (h : Follows g t) (lib : Lib) {d : Digit} {rest : List Digit}
    (hposted : t.posted = d :: rest) :
    ∃ g', Native.step g (.work lib) = some g' ∧ Follows g' (t.step .work) ∧
      g'.current.map Call.digits = g.current.map fun x => x.digits ++ [d.val] := by
  have hmap := h.posted
  rw [hposted, List.map_cons, List.map_eq_cons_iff] at hmap
  obtain ⟨p, waiting, hp, hwork, hwaiting⟩ := hmap
  obtain ⟨c, hc⟩ := Option.ne_none_iff_exists'.mp h.call
  refine ⟨Native.dtmfWorker d.val { g.begin with posted := waiting }, ?_, ?_, ?_⟩
  · unfold Native.step
    simp only [h.awake, hp, hwork]
    rfl
  · have hrest : (t.step .work).posted = rest := by rw [posted_work, hposted]; rfl
    have hcall : { g.begin with posted := waiting }.gCall = some c := hc
    unfold Native.dtmfWorker
    rw [hcall]
    refine ⟨h.call, h.awake, ?_⟩
    rw [hrest, ← hwaiting]
    rfl
  · rw [digits_dtmfWorker]
    rfl

theorem Follows.step {g : Globals} (h : Follows g t) (lib : Lib) (a : Action) :
    ∃ bs g', Native.machine.run g bs = some g' ∧ Follows g' (t.step a) := by
  cases a with
  | press d =>
    obtain ⟨g', hstep, hfollows⟩ := h.press d
    exact ⟨[.post (.dtmf d.val)], g', congrArg (·.bind some) hstep, hfollows⟩
  | work =>
    cases hposted : t.posted with
    | nil =>
      have hsame : t.step .work = t := by
        unfold Tones.step
        rw [hposted]
      rw [hsame]
      exact ⟨[], g, rfl, h⟩
    | cons d rest =>
      obtain ⟨g', hstep, hfollows, -⟩ := h.work lib hposted
      exact ⟨[.work lib], g', congrArg (·.bind some) hstep, hfollows⟩
  | poll => exact ⟨[], g, rfl, h.call, h.awake, h.posted⟩

/-- Every run of the digits is a run of the native layer, seen from the call. -/
theorem Follows.run {g : Globals} (h : Follows g t) (lib : Lib) (as : List Action) :
    ∃ bs g', Native.machine.run g bs = some g' ∧ Follows g' (t.run as) := by
  induction as generalizing g t with
  | nil => exact ⟨[], g, rfl, h⟩
  | cons a as ih =>
    obtain ⟨bs, g₁, hrun, hfollows⟩ := h.step lib a
    obtain ⟨cs, g₂, hrest, hlast⟩ := ih hfollows
    refine ⟨bs ++ cs, g₂, ?_, hlast⟩
    rw [Transition.Machine.run_append, hrun]
    exact hrest

end Tones
end SimplePhone.Baresip
