import Mathlib.Data.List.Basic
import Mathlib.Tactic.Common

/-! The sender of telephony events. It is polled for one packet at a time: an event that has
begun goes on until a release follows in the queue, or another event. -/
namespace SimplePhone.Re

def txcDigitMin : UInt32 := 9

def txcEnd : UInt32 := 3

def eventEnd : UInt8 := 0xff

def queueSize : Nat := 8192

inductive TelevState where
  | idle
  | sending
  | ending
deriving DecidableEq

/-- What is to be sent; the part that receives is left out. -/
structure Telev where
  /-- the bytes of `mb` up to its end -/
  queue : List UInt8
  pos : Nat
  ptime : UInt32
  pdur : UInt16
  state : TelevState
  event : UInt8
  dur : UInt16
  txc : UInt32
deriving DecidableEq

/-- The marker of the RTP header and the payload; the volume is the same in all. -/
structure Packet where
  marker : Bool
  event : UInt8
  final : Bool
  dur : UInt16
deriving DecidableEq

namespace Telev

/-- For a positive `ptime`. -/
def alloc (ptime : UInt32) : Telev where
  queue := []
  pos := 0
  ptime := ptime
  pdur := (ptime * 8).toUInt16
  state := .idle
  event := 0
  dur := 0
  txc := 0

/-- For a positive `srate`. -/
def setSrate (srate : UInt32) (t : Telev) : Telev :=
  { t with pdur := (t.ptime * srate / 1000).toUInt16 }

/-- `none` for `EOVERFLOW`. -/
def send (event : UInt8) (final : Bool) (t : Telev) : Option Telev :=
  if queueSize ≤ t.queue.length then none
  else some { t with queue := t.queue ++ [if final then eventEnd else event] }

def poll (t : Telev) : Telev × Option Packet :=
  match t.state with
  | .idle =>
      match t.queue[t.pos]? with
      | none => (t, none)
      | some event =>
          ({ t with pos := t.pos + 1, event := event, dur := t.pdur, state := .sending, txc := 1 },
            some ⟨true, event, false, t.pdur⟩)
  | .sending =>
      let t := { t with dur := t.dur + t.pdur, txc := t.txc + 1 }
      let packet : Packet := ⟨false, t.event, false, t.dur⟩
      if t.txc < txcDigitMin then (t, some packet)
      else
        match t.queue[t.pos]? with
        | none => (t, some packet)
        | some next =>
            -- a release is taken from the queue, another event stays there
            ({ t with
                pos := if next = eventEnd then t.pos + 1 else t.pos
                state := .ending
                txc := 0 }, some packet)
  | .ending =>
      let t := { t with txc := t.txc + 1 }
      let packet : Packet := ⟨false, t.event, true, t.dur⟩
      if t.txc < txcEnd then (t, some packet)
      else if t.pos < t.queue.length then ({ t with state := .idle }, some packet)
      else ({ t with queue := [], pos := 0, state := .idle }, some packet)

/-- `telev_is_empty`. -/
def isEmpty (t : Telev) : Bool := t.state = .idle ∧ t.queue.length ≤ t.pos

def digit2code (digit : UInt8) : Option UInt8 :=
  if 48 ≤ digit ∧ digit ≤ 57 then some (digit - 48)
  else if digit = 42 then some 10
  else if digit = 35 then some 11
  else if 97 ≤ digit ∧ digit ≤ 100 then some (digit - 97 + 12)
  else if 65 ≤ digit ∧ digit ≤ 68 then some (digit - 65 + 12)
  else none

theorem digit2code_lt {digit code : UInt8} (h : digit2code digit = some code) : code < 16 := by
  unfold digit2code at h
  grind

/-! ### What a poll can do -/

inductive Polled (t : Telev) : Telev → Option Packet → Prop where
  | rest (hstate : t.state = .idle) (hleft : t.queue[t.pos]? = none) : Polled t t none
  | start (hstate : t.state = .idle) (event : UInt8) (hleft : t.queue[t.pos]? = some event) :
      Polled t
        { t with pos := t.pos + 1, event := event, dur := t.pdur, state := .sending, txc := 1 }
        (some ⟨true, event, false, t.pdur⟩)
  | go (hstate : t.state = .sending)
      (hmore : t.txc + 1 < txcDigitMin ∨ t.queue[t.pos]? = none) :
      Polled t { t with dur := t.dur + t.pdur, txc := t.txc + 1, state := .sending }
        (some ⟨false, t.event, false, t.dur + t.pdur⟩)
  | close (hstate : t.state = .sending) (next : UInt8) (hleft : t.queue[t.pos]? = some next)
      (hlong : ¬ t.txc + 1 < txcDigitMin) :
      Polled t
        { t with
          dur := t.dur + t.pdur
          pos := if next = eventEnd then t.pos + 1 else t.pos
          state := .ending
          txc := 0 }
        (some ⟨false, t.event, false, t.dur + t.pdur⟩)
  | final (hstate : t.state = .ending) (hmore : t.txc + 1 < txcEnd) :
      Polled t { t with txc := t.txc + 1, state := .ending } (some ⟨false, t.event, true, t.dur⟩)
  | done (hstate : t.state = .ending) (hlast : ¬ t.txc + 1 < txcEnd)
      (hleft : t.pos < t.queue.length) :
      Polled t { t with txc := t.txc + 1, state := .idle } (some ⟨false, t.event, true, t.dur⟩)
  | empty (hstate : t.state = .ending) (hlast : ¬ t.txc + 1 < txcEnd)
      (hleft : ¬ t.pos < t.queue.length) :
      Polled t { t with txc := t.txc + 1, queue := [], pos := 0, state := .idle }
        (some ⟨false, t.event, true, t.dur⟩)

theorem polled (t : Telev) : Polled t t.poll.1 t.poll.2 := by
  unfold poll
  cases hstate : t.state with
  | idle =>
    simp only
    split
    · exact .rest hstate (by assumption)
    · exact .start hstate _ (by assumption)
  | sending =>
    simp only
    split
    · exact .go hstate (.inl (by assumption))
    · split
      · exact .go hstate (.inr (by assumption))
      · exact .close hstate _ (by assumption) (by assumption)
  | ending =>
    simp only
    split
    · exact .final hstate (by assumption)
    · split
      · exact .done hstate (by assumption) (by assumption)
      · exact .empty hstate (by assumption) (by assumption)

end Telev

/-! ### Complete events -/

/-- One event from its marker to its end. -/
def CompleteEvent (code : UInt8) (packets : List Packet) : Prop :=
  (∀ p ∈ packets, p.event = code) ∧ (packets.map Packet.dur).Pairwise (· ≤ ·) ∧
    ∃ first going ends, packets = first :: (going ++ ends) ∧ ends ≠ [] ∧
      first.marker = true ∧ first.final = false ∧
      (∀ p ∈ going, p.marker = false ∧ p.final = false) ∧
      ∀ p ∈ ends, p.marker = false ∧ p.final = true

/-- The first packets of an event, `n` in number. -/
def going (event : UInt8) (pdur : UInt16) : Nat → List Packet
  | 0 => []
  | n + 1 => going event pdur n ++ [⟨n = 0, event, false, UInt16.ofNat (n + 1) * pdur⟩]

/-- Its last ones. -/
def closing (event : UInt8) (dur : UInt16) (k : Nat) : List Packet :=
  List.replicate k ⟨false, event, true, dur⟩

/-- An event of `n` packets and three to end it. -/
def whole (event : UInt8) (pdur : UInt16) (n : Nat) : List Packet :=
  going event pdur n ++ closing event (UInt16.ofNat n * pdur) 3

/-- A stream of whole events, as long as each lasted. -/
inductive Sent (pdur : UInt16) : List UInt8 → List Packet → Prop where
  | nil : Sent pdur [] []
  | snoc {codes : List UInt8} {packets : List Packet} (h : Sent pdur codes packets)
      (code : UInt8) (n : Nat) (hn : 9 ≤ n) :
      Sent pdur (codes ++ [code]) (packets ++ whole code pdur n)

theorem event_of_going {event : UInt8} {pdur : UInt16} {n : Nat} {p : Packet}
    (h : p ∈ going event pdur n) : p.event = event ∧ p.final = false := by
  induction n with
  | zero => cases h
  | succ n ih =>
    rcases List.mem_append.mp h with h | h
    · exact ih h
    · rw [List.mem_singleton.mp h]
      exact ⟨rfl, rfl⟩

theorem duration_succ (pdur : UInt16) (n : Nat) :
    UInt16.ofNat n * pdur + pdur = UInt16.ofNat (n + 1) * pdur := by
  rw [UInt16.ofNat_add, UInt16.add_mul]
  exact congrArg _ (UInt16.one_mul pdur).symm

theorem going_snoc (event : UInt8) (pdur : UInt16) {n : Nat} (hn : 1 ≤ n) :
    going event pdur n ++ [⟨false, event, false, UInt16.ofNat n * pdur + pdur⟩] =
      going event pdur (n + 1) := by
  have hmarker : decide (n = 0) = false := decide_eq_false (by omega)
  rw [going, hmarker, duration_succ]

theorem closing_snoc (event : UInt8) (dur : UInt16) (k : Nat) :
    closing event dur k ++ [⟨false, event, true, dur⟩] = closing event dur (k + 1) :=
  List.replicate_succ'.symm

theorem going_succ (event : UInt8) (pdur : UInt16) (n : Nat) :
    ∃ first rest, going event pdur (n + 1) = first :: rest ∧ first.marker = true ∧
      first.final = false ∧ ∀ p ∈ rest, p.marker = false ∧ p.final = false := by
  induction n with
  | zero => exact ⟨_, [], rfl, rfl, rfl, nofun⟩
  | succ n ih =>
    obtain ⟨first, rest, hgoing, hmarker, hfinal, hrest⟩ := ih
    refine ⟨first, rest ++ [⟨false, event, false, UInt16.ofNat (n + 2) * pdur⟩], ?_, hmarker,
      hfinal, ?_⟩
    · change going event pdur (n + 1) ++ _ = _
      rw [hgoing]
      rfl
    · intro p hp
      rcases List.mem_append.mp hp with hp | hp
      · exact hrest p hp
      · rw [List.mem_singleton.mp hp]
        exact ⟨rfl, rfl⟩

theorem toNat_duration {pdur : UInt16} {n : Nat} (h : n * pdur.toNat < 65536) :
    (UInt16.ofNat n * pdur).toNat = n * pdur.toNat := by
  rw [UInt16.toNat_mul, UInt16.toNat_ofNat', Nat.mod_mul_mod]
  exact Nat.mod_eq_of_lt h

theorem duration_le {pdur : UInt16} {m n : Nat} (hmn : m ≤ n) (h : n * pdur.toNat < 65536) :
    UInt16.ofNat m * pdur ≤ UInt16.ofNat n * pdur := by
  have hle : m * pdur.toNat ≤ n * pdur.toNat := Nat.mul_le_mul_right _ hmn
  rw [UInt16.le_iff_toNat_le, toNat_duration h, toNat_duration (Nat.lt_of_le_of_lt hle h)]
  exact hle

theorem duration_of_going {event : UInt8} {pdur : UInt16} {n : Nat} {p : Packet}
    (h : p ∈ going event pdur n) : ∃ m ≤ n, p.dur = UInt16.ofNat m * pdur := by
  induction n with
  | zero => cases h
  | succ n ih =>
    rcases List.mem_append.mp h with h | h
    · obtain ⟨m, hm, hdur⟩ := ih h
      exact ⟨m, Nat.le_succ_of_le hm, hdur⟩
    · rw [List.mem_singleton.mp h]
      exact ⟨n + 1, Nat.le_refl _, rfl⟩

theorem pairwise_going (event : UInt8) {pdur : UInt16} {n : Nat} (h : n * pdur.toNat < 65536) :
    ((going event pdur n).map Packet.dur).Pairwise (· ≤ ·) := by
  induction n with
  | zero => exact List.Pairwise.nil
  | succ n ih =>
    have hle : n * pdur.toNat ≤ (n + 1) * pdur.toNat := Nat.mul_le_mul_right _ (Nat.le_succ n)
    rw [going, List.map_append, List.pairwise_append]
    refine ⟨ih (Nat.lt_of_le_of_lt hle h), List.pairwise_singleton _ _, ?_⟩
    intro a ha b hb
    obtain ⟨p, hp, rfl⟩ := List.mem_map.mp ha
    obtain ⟨m, hm, hdur⟩ := duration_of_going hp
    rw [hdur, List.mem_singleton.mp hb]
    exact duration_le (Nat.le_succ_of_le hm) h

/-- An event that is not too long for its duration is complete. -/
theorem completeEvent_whole {event : UInt8} {pdur : UInt16} {n : Nat} (hn : 1 ≤ n)
    (h : n * pdur.toNat < 65536) : CompleteEvent event (whole event pdur n) := by
  refine ⟨?_, ?_, ?_⟩
  · intro p hp
    rcases List.mem_append.mp hp with hp | hp
    · exact (event_of_going hp).1
    · rw [(List.mem_replicate.mp hp).2]
  · rw [whole, List.map_append, List.pairwise_append]
    refine ⟨pairwise_going event h, ?_, ?_⟩
    · rw [closing, List.map_replicate, List.pairwise_replicate]
      exact .inr (UInt16.le_refl _)
    · intro a ha b hb
      obtain ⟨p, hp, rfl⟩ := List.mem_map.mp ha
      obtain ⟨q, hq, rfl⟩ := List.mem_map.mp hb
      obtain ⟨m, hm, hdur⟩ := duration_of_going hp
      rw [hdur, (List.mem_replicate.mp hq).2]
      exact duration_le hm h
  · obtain ⟨m, rfl⟩ : ∃ m, n = m + 1 := ⟨n - 1, by omega⟩
    obtain ⟨first, rest, hgoing, hmarker, hfinal, hrest⟩ := going_succ event pdur m
    refine ⟨first, rest, closing event (UInt16.ofNat (m + 1) * pdur) 3, ?_, nofun, hmarker, hfinal,
      hrest, ?_⟩
    · rw [whole, hgoing]
      rfl
    · intro p hp
      rw [(List.mem_replicate.mp hp).2]
      exact ⟨rfl, rfl⟩

/-! ### What is sent without releases -/

namespace Telev

variable {t : Telev} {stream : List Packet}

/-- No release is in the queue, and an event that ends has been followed by another. -/
structure Held (t : Telev) : Prop where
  unreleased : ∀ b ∈ t.queue, b ≠ eventEnd
  inside : t.pos ≤ t.queue.length
  idle : t.state = .idle → t.queue = [] ∨ t.pos < t.queue.length
  ending : t.state = .ending → t.pos < t.queue.length

theorem held_alloc (ptime : UInt32) : (alloc ptime).Held where
  unreleased := nofun
  inside := Nat.le_refl 0
  idle := fun _ => .inl rfl
  ending := nofun

theorem Held.setSrate (h : t.Held) (srate : UInt32) : (t.setSrate srate).Held :=
  ⟨h.unreleased, h.inside, h.idle, h.ending⟩

theorem Held.send (h : t.Held) {event : UInt8} (hevent : event ≠ eventEnd) {u : Telev}
    (hsend : t.send event false = some u) : u.Held := by
  unfold Telev.send at hsend
  split at hsend
  · cases hsend
  · cases hsend
    have hlength : (t.queue ++ [event]).length = t.queue.length + 1 := List.length_append
    have hinside := h.inside
    constructor
    · intro b hb
      rcases List.mem_append.mp hb with hb | hb
      · exact h.unreleased b hb
      · rw [List.mem_singleton.mp hb]
        exact hevent
    · change t.pos ≤ (t.queue ++ [event]).length
      omega
    · intro _
      right
      change t.pos < (t.queue ++ [event]).length
      omega
    · intro _
      change t.pos < (t.queue ++ [event]).length
      omega

theorem Held.send_getD (h : t.Held) {event : UInt8} (hevent : event ≠ eventEnd) :
    ((t.send event false).getD t).Held := by
  cases hsend : t.send event false with
  | none => exact h
  | some u => exact h.send hevent hsend

/-- What does not fit into the queue is lost. -/
theorem queue_send {sent : List UInt8} (h : t.queue = sent.take queueSize) (event : UInt8) :
    ((t.send event false).getD t).queue = (sent ++ [event]).take queueSize := by
  have hlength : t.queue.length = min queueSize sent.length := by rw [h, List.length_take]
  unfold Telev.send
  split
  · have hfull : queueSize ≤ sent.length := by omega
    rw [List.take_append_of_le_length hfull]
    exact h
  · have hroom : (sent ++ [event]).length ≤ queueSize := by
      rw [List.length_append, List.length_singleton]
      omega
    rw [List.take_of_length_le hroom]
    change t.queue ++ [event] = sent ++ [event]
    rw [h, List.take_of_length_le (by omega)]

/-- A poll takes nothing out of the queue. -/
theorem Held.poll (h : t.Held) : t.poll.1.Held ∧ t.poll.1.queue = t.queue ∧
    t.poll.1.pdur = t.pdur := by
  have hpolled := t.polled
  generalize t.poll.1 = u, t.poll.2 = packet at hpolled ⊢
  have hinside := h.inside
  cases hpolled with
  | rest hstate hleft => exact ⟨h, rfl, rfl⟩
  | start hstate event hleft =>
    have hpos : t.pos < t.queue.length := (List.getElem?_eq_some_iff.mp hleft).1
    exact ⟨⟨h.unreleased, hpos, nofun, nofun⟩, rfl, rfl⟩
  | go hstate hmore =>
    exact ⟨⟨h.unreleased, hinside, nofun, nofun⟩, rfl, rfl⟩
  | close hstate next hleft hlong =>
    obtain ⟨hpos, hnext⟩ := List.getElem?_eq_some_iff.mp hleft
    have hunreleased : next ≠ eventEnd := by
      apply h.unreleased
      rw [← hnext]
      exact List.getElem_mem hpos
    rw [if_neg hunreleased]
    exact ⟨⟨h.unreleased, hinside, nofun, fun _ => hpos⟩, rfl, rfl⟩
  | final hstate hmore =>
    exact ⟨⟨h.unreleased, hinside, nofun, fun _ => h.ending hstate⟩, rfl, rfl⟩
  | done hstate hlast hleft => exact ⟨⟨h.unreleased, hinside, fun _ => .inr hleft, nofun⟩, rfl, rfl⟩
  | empty hstate hlast hleft => exact absurd (h.ending hstate) hleft

/-- The sender becomes empty only where nothing was ever in its queue. -/
theorem Held.isEmpty_iff (h : t.Held) : t.isEmpty = true ↔ t.state = .idle ∧ t.queue = [] := by
  unfold isEmpty
  rw [decide_eq_true_eq]
  constructor
  · rintro ⟨hstate, hlength⟩
    obtain hnil | hpos := h.idle hstate
    · exact ⟨hstate, hnil⟩
    · omega
  · rintro ⟨hstate, hnil⟩
    rw [hnil]
    exact ⟨hstate, Nat.zero_le t.pos⟩

/-! ### Where the sender comes to rest -/

/-- The last event goes on until something follows it. -/
def Waits (t : Telev) : Prop := t.state = .sending ∧ t.pos = t.queue.length

theorem Waits.poll (h : t.Waits) : t.poll.1.Waits := by
  obtain ⟨hstate, hpos⟩ := h
  have hpolled := t.polled
  generalize t.poll.1 = u, t.poll.2 = packet at hpolled ⊢
  cases hpolled with
  | go => exact ⟨rfl, hpos⟩
  | close _ next hleft _ =>
    have hlt := (List.getElem?_eq_some_iff.mp hleft).1
    omega
  | rest hstate' => cases hstate.symm.trans hstate'
  | start hstate' => cases hstate.symm.trans hstate'
  | final hstate' => cases hstate.symm.trans hstate'
  | done hstate' => cases hstate.symm.trans hstate'
  | empty hstate' => cases hstate.symm.trans hstate'

/-- How many polls the event at work still takes at most, when something follows it. -/
def phase (t : Telev) : Nat :=
  match t.state with
  | .idle => 0
  | .sending => 14 - min (t.txc + 1).toNat 9
  | .ending => 4 - min (t.txc + 1).toNat 3

def rank (t : Telev) : Nat := 16 * (t.queue.length - t.pos) + t.phase

theorem toNat_succ_of_lt {x y : UInt32} (h : x < y) : (x + 1).toNat = x.toNat + 1 := by
  rw [UInt32.toNat_add]
  have hlt := UInt32.lt_iff_toNat_lt.mp h
  have hsize := y.toNat_lt
  exact Nat.mod_eq_of_lt (by simpa using Nat.lt_of_le_of_lt hlt hsize)

theorem rank_poll (h : t.Held) (hne : t.queue ≠ []) (hwaits : ¬ t.Waits) :
    t.poll.1.rank < t.rank := by
  have hinside := h.inside
  have hpolled := t.polled
  generalize t.poll.1 = u, t.poll.2 = packet at hpolled ⊢
  cases hpolled with
  | rest hstate hleft =>
    have hlt := (h.idle hstate).resolve_left hne
    rw [List.getElem?_eq_none_iff] at hleft
    omega
  | start hstate event hleft =>
    have hlt := (List.getElem?_eq_some_iff.mp hleft).1
    have hphase : Telev.phase { t with
      pos := t.pos + 1, event := event, dur := t.pdur, state := .sending, txc := 1 } = 12 := rfl
    unfold rank
    rw [hphase]
    simp only
    omega
  | go hstate hmore =>
    have hlt : t.txc + 1 < txcDigitMin := by
      apply hmore.resolve_right
      intro hleft
      rw [List.getElem?_eq_none_iff] at hleft
      exact hwaits ⟨hstate, Nat.le_antisymm hinside hleft⟩
    have hnine : (t.txc + 1).toNat < 9 := UInt32.lt_iff_toNat_lt.mp hlt
    have hsucc := toNat_succ_of_lt hlt
    unfold rank phase
    rw [hstate]
    simp only
    omega
  | close hstate next hleft hlong =>
    have hunreleased : next ≠ eventEnd := h.unreleased next (List.mem_of_getElem? hleft)
    have hnine : ¬ (t.txc + 1).toNat < 9 := fun h => hlong (UInt32.lt_iff_toNat_lt.mpr h)
    have hnext : Telev.phase { t with
      dur := t.dur + t.pdur, state := .ending, txc := 0 } = 3 := rfl
    rw [if_neg hunreleased]
    unfold rank
    rw [hnext]
    unfold phase
    rw [hstate]
    simp only
    omega
  | final hstate hmore =>
    have hthree : (t.txc + 1).toNat < 3 := UInt32.lt_iff_toNat_lt.mp hmore
    have hsucc := toNat_succ_of_lt hmore
    unfold rank phase
    rw [hstate]
    simp only
    omega
  | done hstate hlast hleft =>
    have hthree : ¬ (t.txc + 1).toNat < 3 := fun h => hlast (UInt32.lt_iff_toNat_lt.mpr h)
    unfold rank phase
    rw [hstate]
    simp only
    omega
  | empty hstate hlast hleft => exact absurd (h.ending hstate) hleft

def polls : Nat → Telev → Telev
  | 0, t => t
  | n + 1, t => polls n t.poll.1

theorem waits_polls (n : Nat) (hwaits : t.Waits) : (polls n t).Waits := by
  induction n generalizing t with
  | zero => exact hwaits
  | succ n ih => exact ih hwaits.poll

/-- Whatever is in the queue, its last event goes on in the end. -/
theorem waits_of_polls (h : t.Held) (hne : t.queue ≠ []) {n : Nat} (hn : t.rank ≤ n) :
    (polls n t).Waits := by
  induction n generalizing t with
  | zero =>
    by_contra hwaits
    have hlt := rank_poll h hne hwaits
    omega
  | succ n ih =>
    by_cases hwaits : t.Waits
    · exact waits_polls (n + 1) hwaits
    · obtain ⟨hheld, hqueue, -⟩ := h.poll
      have hlt := rank_poll h hne hwaits
      apply ih hheld
      · rw [hqueue]
        exact hne
      · omega

/-- How far the stream has come with the events of the queue. -/
inductive Progress (t : Telev) : List Packet → Prop where
  | idle (hstate : t.state = .idle) {codes : List UInt8} {packets : List Packet}
      (h : Sent t.pdur codes packets) (hpos : t.queue.take t.pos = codes) : Progress t packets
  | sending (hstate : t.state = .sending) {codes : List UInt8} {packets : List Packet}
      (h : Sent t.pdur codes packets) (hpos : t.queue.take t.pos = codes ++ [t.event])
      (n : Nat) (hn : 1 ≤ n) (hdur : t.dur = UInt16.ofNat n * t.pdur)
      (htxc : t.txc = UInt32.ofNat n) : Progress t (packets ++ going t.event t.pdur n)
  | ending (hstate : t.state = .ending) {codes : List UInt8} {packets : List Packet}
      (h : Sent t.pdur codes packets) (hpos : t.queue.take t.pos = codes ++ [t.event])
      (n : Nat) (hn : 9 ≤ n) (hdur : t.dur = UInt16.ofNat n * t.pdur)
      (k : Nat) (hk : k < 3) (htxc : t.txc = UInt32.ofNat k) :
      Progress t (packets ++ (going t.event t.pdur n ++ closing t.event t.dur k))

theorem Progress.send (h : t.Progress stream) (hheld : t.Held) {event : UInt8} {u : Telev}
    (hsend : t.send event false = some u) : u.Progress stream := by
  unfold Telev.send at hsend
  split at hsend
  · cases hsend
  · cases hsend
    have htake : (t.queue ++ [event]).take t.pos = t.queue.take t.pos :=
      List.take_append_of_le_length hheld.inside
    cases h with
    | idle hstate h hpos =>
      exact .idle (t := { t with queue := t.queue ++ [event] }) hstate h (htake.trans hpos)
    | sending hstate h hpos n hn hdur htxc =>
      exact .sending (t := { t with queue := t.queue ++ [event] }) hstate h (htake.trans hpos) n hn
        hdur htxc
    | ending hstate h hpos n hn hdur k hk htxc =>
      exact .ending (t := { t with queue := t.queue ++ [event] }) hstate h (htake.trans hpos) n hn
        hdur k hk htxc

theorem Progress.poll (h : t.Progress stream) (hheld : t.Held) :
    t.poll.1.Progress (stream ++ t.poll.2.toList) := by
  have hpolled := t.polled
  generalize t.poll.1 = u, t.poll.2 = packet at hpolled ⊢
  cases hpolled with
  | rest hstate hleft =>
    rw [Option.toList_none, List.append_nil]
    exact h
  | start hstate event hleft =>
    cases h with
    | idle _ h hpos =>
      have hgoing : [Packet.mk true event false t.pdur] = going event t.pdur 1 := by
        change _ = [Packet.mk true event false (1 * t.pdur)]
        rw [UInt16.one_mul]
      rw [Option.toList_some, hgoing]
      apply Progress.sending (t := { t with
        pos := t.pos + 1, event := event, dur := t.pdur, state := .sending, txc := 1 }) rfl h
        _ 1 (Nat.le_refl 1) _ rfl
      · rw [List.take_add_one, hleft, hpos]
        rfl
      · exact (UInt16.one_mul t.pdur).symm
    | sending hstate' => cases hstate.symm.trans hstate'
    | ending hstate' => cases hstate.symm.trans hstate'
  | go hstate hmore =>
    cases h with
    | idle hstate' => cases hstate.symm.trans hstate'
    | sending _ h hpos n hn hdur htxc =>
      rw [Option.toList_some, List.append_assoc, hdur, going_snoc _ _ hn]
      exact .sending (t := { t with dur := _, txc := t.txc + 1, state := .sending }) rfl h hpos
        (n + 1) (Nat.le_succ_of_le hn) (duration_succ t.pdur n)
        (by rw [htxc, UInt32.ofNat_add]; rfl)
    | ending hstate' => cases hstate.symm.trans hstate'
  | close hstate next hleft hlong =>
    cases h with
    | idle hstate' => cases hstate.symm.trans hstate'
    | sending _ h hpos n hn hdur htxc =>
      have hnext : next ≠ eventEnd := hheld.unreleased next (List.mem_of_getElem? hleft)
      have hlong : 9 ≤ n + 1 := by
        rw [htxc, UInt32.lt_iff_toNat_lt, UInt32.toNat_add, UInt32.toNat_ofNat'] at hlong
        change ¬ (n % 2 ^ 32 + 1) % 2 ^ 32 < 9 at hlong
        omega
      rw [Option.toList_some, List.append_assoc, hdur, going_snoc _ _ hn, if_neg hnext,
        ← List.append_nil (going t.event t.pdur (n + 1))]
      exact .ending (t := { t with dur := _, state := .ending, txc := 0 }) rfl h hpos (n + 1) hlong
        (duration_succ t.pdur n) 0 (by decide) rfl
    | ending hstate' => cases hstate.symm.trans hstate'
  | final hstate hmore =>
    cases h with
    | idle hstate' => cases hstate.symm.trans hstate'
    | sending hstate' => cases hstate.symm.trans hstate'
    | ending _ h hpos n hn hdur k hk htxc =>
      have hk' : k + 1 < 3 := by
        rw [htxc, UInt32.lt_iff_toNat_lt, UInt32.toNat_add, UInt32.toNat_ofNat'] at hmore
        change (k % 2 ^ 32 + 1) % 2 ^ 32 < 3 at hmore
        omega
      rw [Option.toList_some, List.append_assoc, List.append_assoc, closing_snoc]
      exact .ending (t := { t with txc := t.txc + 1, state := .ending }) rfl h hpos n hn hdur
        (k + 1) hk' (by rw [htxc, UInt32.ofNat_add]; rfl)
  | done hstate hlast hleft =>
    cases h with
    | idle hstate' => cases hstate.symm.trans hstate'
    | sending hstate' => cases hstate.symm.trans hstate'
    | ending _ h hpos n hn hdur k hk htxc =>
      have hk' : k = 2 := by
        rw [htxc, UInt32.lt_iff_toNat_lt, UInt32.toNat_add, UInt32.toNat_ofNat'] at hlast
        change ¬ (k % 2 ^ 32 + 1) % 2 ^ 32 < 3 at hlast
        omega
      rw [Option.toList_some, List.append_assoc, List.append_assoc, closing_snoc, hk', hdur]
      exact .idle (t := { t with dur := _, txc := t.txc + 1, state := .idle }) rfl
        (h.snoc t.event n hn) hpos
  | empty hstate hlast hleft => exact absurd (hheld.ending hstate) hleft

theorem Progress.send_getD (h : t.Progress stream) (hheld : t.Held) (event : UInt8) :
    ((t.send event false).getD t).Progress stream := by
  cases hsend : t.send event false with
  | none => exact h
  | some u => exact h.send hheld hsend

/-- The events before the one at work, whole and in their order. -/
theorem Progress.sent (h : t.Progress stream) : ∃ codes packets rest,
    Sent t.pdur codes packets ∧ stream = packets ++ rest ∧ codes <+: t.queue := by
  have hbefore : t.queue.take t.pos <+: t.queue := List.take_prefix t.pos t.queue
  cases h with
  | idle _ h hpos =>
    rw [hpos] at hbefore
    exact ⟨_, _, [], h, (List.append_nil _).symm, hbefore⟩
  | sending _ h hpos n =>
    rw [hpos] at hbefore
    exact ⟨_, _, _, h, rfl, (List.prefix_append _ _).trans hbefore⟩
  | ending _ h hpos n =>
    rw [hpos] at hbefore
    exact ⟨_, _, _, h, rfl, (List.prefix_append _ _).trans hbefore⟩

/-- Every event but the last was sent whole. -/
theorem Progress.waits (h : t.Progress stream) (hwaits : t.Waits) : ∃ codes packets n,
    Sent t.pdur codes packets ∧ t.queue = codes ++ [t.event] ∧ 1 ≤ n ∧
      stream = packets ++ going t.event t.pdur n := by
  obtain ⟨hstate, hall⟩ := hwaits
  cases h with
  | idle hstate' => cases hstate.symm.trans hstate'
  | sending _ h hpos n hn =>
    rw [hall, List.take_length] at hpos
    exact ⟨_, _, n, h, hpos, hn, rfl⟩
  | ending hstate' => cases hstate.symm.trans hstate'

end Telev

end SimplePhone.Re
