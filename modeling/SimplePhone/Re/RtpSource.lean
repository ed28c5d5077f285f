import Mathlib.Data.List.Basic
import Mathlib.Tactic.Common

/-! What a receiver knows of a stream of RTP packets, and what it reports of it. The sequence
number has 16 bits, and the counters of the receiver 32: both wrap around. -/
namespace SimplePhone.Re

def rtpSeqMod : Nat := 65536

def maxDropout : Nat := 3000

def maxMisorder : Nat := 100

def minSequential : UInt32 := 2

/-- `struct rtp_source`, without what concerns the sender's own reports. -/
structure RtpSource where
  maxSeq : UInt16
  cycles : UInt32
  baseSeq : UInt32
  badSeq : UInt32
  probation : UInt32
  received : UInt32
  expectedPrior : UInt32
  receivedPrior : UInt32
  transit : Int32
  jitter : UInt32
  lastRtpTs : UInt32
deriving DecidableEq

namespace RtpSource

/-- As `mem_zalloc` leaves it. -/
def zero : RtpSource := ⟨0, 0, 0, 0, 0, 0, 0, 0, 0, 0, 0⟩

def initSeq (seq : UInt16) (s : RtpSource) : RtpSource :=
  { s with
    baseSeq := seq.toUInt32
    maxSeq := seq
    badSeq := UInt32.ofNat (rtpSeqMod + 1)
    cycles := 0
    received := 0
    receivedPrior := 0
    expectedPrior := 0 }

def receive (s : RtpSource) : RtpSource := { s with received := s.received + 1 }

/-- Whether the packet counts, too. -/
def updateSeq (seq : UInt16) (s : RtpSource) : RtpSource × Bool :=
  let udelta := seq - s.maxSeq
  if s.probation ≠ 0 then
    -- an `int` does not wrap here
    if seq.toNat = s.maxSeq.toNat + 1 then
      let s := { s with probation := s.probation - 1, maxSeq := seq }
      if s.probation = 0 then ((s.initSeq seq).receive, true) else (s, false)
    else ({ s with probation := minSequential - 1, maxSeq := seq }, false)
  else if udelta.toNat < maxDropout then
    let s := if seq < s.maxSeq then { s with cycles := s.cycles + UInt32.ofNat rtpSeqMod } else s
    ({ s with maxSeq := seq }.receive, true)
  else if udelta.toNat ≤ rtpSeqMod - maxMisorder then
    -- two such packets in a row: the other side has begun anew
    if seq.toUInt32 = s.badSeq then ((s.initSeq seq).receive, true)
    else ({ s with badSeq := (seq + 1).toUInt32 }, false)
  else (s.receive, true)

def calcJitter (rtpTs arrival : UInt32) (s : RtpSource) : RtpSource :=
  let transit := (arrival - rtpTs).toInt32
  let d := transit - s.transit
  if s.transit = 0 then { s with transit := transit }
  else
    let d := if d < 0 then -d else d
    { s with
      transit := transit
      jitter := s.jitter + (d.toUInt32 - ((s.jitter + 8) >>> 4)) }

/-- What should have been received, as both of the next functions compute it. -/
def expected (s : RtpSource) : UInt32 := s.cycles + s.maxSeq.toUInt32 - s.baseSeq + 1

def calcLost (s : RtpSource) : Int :=
  let lost := (s.expected - s.received).toInt32.toInt
  if 0x7fffff < lost then 0x7fffff else if lost < -0x7fffff then -0x7fffff else lost

def calcFractionLost (s : RtpSource) : RtpSource × UInt8 :=
  let expectedInterval := (s.expected - s.expectedPrior).toInt32
  let receivedInterval := (s.received - s.receivedPrior).toInt32
  let lostInterval := expectedInterval - receivedInterval
  ({ s with expectedPrior := s.expected, receivedPrior := s.received },
    if expectedInterval = 0 ∨ lostInterval ≤ 0 then 0
    else ((lostInterval <<< 8) / expectedInterval).toUInt32.toUInt8)

end RtpSource

/-- Of `struct rtp_header`. -/
structure RtpHeader where
  seq : UInt16
  ts : UInt32
deriving DecidableEq

/-- `rtcp_sess_rx_rtp`, for the member that the packet comes from. The time is there when the
sample rate is known. -/
def rtcpSessRxRtp (hdr : RtpHeader) (tsArrive : Option UInt32) (s : Option RtpSource) :
    RtpSource :=
  let s := s.getD (RtpSource.zero.initSeq hdr.seq)
  let s := (s.updateSeq hdr.seq).1
  let s :=
    match tsArrive with
    | some arrival => if hdr.ts ≠ s.lastRtpTs then s.calcJitter hdr.ts arrival else s
    | none => s
  { s with lastRtpTs := hdr.ts }

/-! ### Reports -/

/-- `struct rtcp_rr` -/
structure RtcpRr where
  ssrc : UInt32
  fraction : UInt8
  lost : BitVec 24
  lastSeq : UInt32
  jitter : UInt32
  lsr : UInt32
  dlsr : UInt32
deriving DecidableEq

/-- `sender_apply_handler`, without the times of the other side's last report. -/
def senderApplyHandler (ssrc lsr dlsr : UInt32) (s : RtpSource) : RtpSource × RtcpRr :=
  let (s, fraction) := s.calcFractionLost
  (s, { ssrc := ssrc
        fraction := fraction
        lost := BitVec.ofInt 24 s.calcLost
        lastSeq := s.cycles ||| s.maxSeq.toUInt32
        jitter := s.jitter >>> 4
        lsr := lsr
        dlsr := dlsr })

/-- `mbuf_write_u32` of `htonl`. -/
def be32 (w : UInt32) : List UInt8 :=
  [UInt8.ofNat (w.toNat / 16777216), UInt8.ofNat (w.toNat / 65536), UInt8.ofNat (w.toNat / 256),
    UInt8.ofNat w.toNat]

/-- `ntohl` of `mbuf_read_u32`. -/
def readBe32 (a b c d : UInt8) : UInt32 :=
  UInt32.ofNat (((a.toNat * 256 + b.toNat) * 256 + c.toNat) * 256 + d.toNat)

def rtcpRrEncode (rr : RtcpRr) : List UInt8 :=
  be32 rr.ssrc ++ be32 ((rr.fraction.toUInt32 <<< 24) ||| UInt32.ofNat rr.lost.toNat) ++
    be32 rr.lastSeq ++ be32 rr.jitter ++ be32 rr.lsr ++ be32 rr.dlsr

/-- Six words of four bytes; `none` for `EBADMSG`. -/
def rtcpRrDecode : List UInt8 → Option (RtcpRr × List UInt8)
  | a₁ :: b₁ :: c₁ :: d₁ :: a₂ :: b₂ :: c₂ :: d₂ :: a₃ :: b₃ :: c₃ :: d₃ :: a₄ :: b₄ :: c₄ :: d₄ ::
      a₅ :: b₅ :: c₅ :: d₅ :: a₆ :: b₆ :: c₆ :: d₆ :: rest =>
      let w := readBe32 a₂ b₂ c₂ d₂
      some ({ ssrc := readBe32 a₁ b₁ c₁ d₁
              fraction := (w >>> 24).toUInt8
              lost := BitVec.ofNat 24 (w &&& 0x00ffffff).toNat
              lastSeq := readBe32 a₃ b₃ c₃ d₃
              jitter := readBe32 a₄ b₄ c₄ d₄
              lsr := readBe32 a₅ b₅ c₅ d₅
              dlsr := readBe32 a₆ b₆ c₆ d₆ }, rest)
  | _ => none

/-! ### The bytes of a report -/

theorem readBe32_be32 (w : UInt32) :
    readBe32 (UInt8.ofNat (w.toNat / 16777216)) (UInt8.ofNat (w.toNat / 65536))
      (UInt8.ofNat (w.toNat / 256)) (UInt8.ofNat w.toNat) = w := by
  have hlt : w.toNat < 4294967296 := w.toNat_lt
  have hbytes : ((w.toNat / 16777216 % 256 * 256 + w.toNat / 65536 % 256) * 256 +
      w.toNat / 256 % 256) * 256 + w.toNat % 256 = w.toNat := by omega
  unfold readBe32
  rw [UInt8.toNat_ofNat', UInt8.toNat_ofNat', UInt8.toNat_ofNat', UInt8.toNat_ofNat']
  exact (congrArg UInt32.ofNat hbytes).trans UInt32.ofNat_toNat

/-- The word of the losses. -/
theorem toNat_losses (fraction : UInt8) (lost : BitVec 24) :
    ((fraction.toUInt32 <<< 24) ||| UInt32.ofNat lost.toNat).toNat =
      fraction.toNat * 16777216 + lost.toNat := by
  have hfraction : fraction.toNat < 256 := fraction.toNat_lt
  have hlost : lost.toNat < 2 ^ 24 := lost.isLt
  have hshift : (fraction.toUInt32 <<< 24).toNat = fraction.toNat <<< 24 := by
    rw [UInt32.toNat_shiftLeft, UInt8.toNat_toUInt32]
    change fraction.toNat <<< 24 % 4294967296 = _
    rw [Nat.shiftLeft_eq]
    omega
  rw [UInt32.toNat_or, hshift, UInt32.toNat_ofNat', Nat.mod_eq_of_lt (by omega),
    ← Nat.shiftLeft_add_eq_or_of_lt hlost, Nat.shiftLeft_eq]

theorem rtcpRrDecode_rtcpRrEncode (rr : RtcpRr) (rest : List UInt8) :
    rtcpRrDecode (rtcpRrEncode rr ++ rest) = some (rr, rest) := by
  have hword := toNat_losses rr.fraction rr.lost
  have hfraction : rr.fraction.toNat < 256 := rr.fraction.toNat_lt
  have hlost : rr.lost.toNat < 16777216 := rr.lost.isLt
  unfold rtcpRrEncode be32 rtcpRrDecode
  generalize (rr.fraction.toUInt32 <<< 24) ||| UInt32.ofNat rr.lost.toNat = w at hword ⊢
  have hhigh : (w >>> 24).toUInt8 = rr.fraction := by
    apply UInt8.toNat_inj.mp
    rw [UInt32.toNat_toUInt8, UInt32.toNat_shiftRight, hword]
    change (rr.fraction.toNat * 16777216 + rr.lost.toNat) >>> 24 % 256 = _
    rw [Nat.shiftRight_eq_div_pow]
    omega
  have hlow : BitVec.ofNat 24 (w &&& 0x00ffffff).toNat = rr.lost := by
    apply BitVec.eq_of_toNat_eq
    rw [BitVec.toNat_ofNat, UInt32.toNat_and, hword]
    change ((rr.fraction.toNat * 16777216 + rr.lost.toNat) &&& (2 ^ 24 - 1)) % 2 ^ 24 = _
    rw [Nat.and_two_pow_sub_one_eq_mod]
    omega
  simp only [List.cons_append, List.nil_append, readBe32_be32]
  rw [hhigh, hlow]

/-- Without a probation, which is not used. -/
theorem updateSeq_of_probation {s : RtpSource} (h : s.probation = 0) (seq : UInt16) :
    s.updateSeq seq =
      if (seq - s.maxSeq).toNat < maxDropout then
        ({ s with
            cycles := if seq < s.maxSeq then s.cycles + UInt32.ofNat rtpSeqMod else s.cycles
            maxSeq := seq }.receive, true)
      else if (seq - s.maxSeq).toNat ≤ rtpSeqMod - maxMisorder then
        if seq.toUInt32 = s.badSeq then ((s.initSeq seq).receive, true)
        else ({ s with badSeq := (seq + 1).toUInt32 }, false)
      else (s.receive, true) := by
  unfold RtpSource.updateSeq
  simp only
  rw [if_neg (not_not_intro h)]
  by_cases hwrap : seq < s.maxSeq
  · rw [if_pos hwrap, if_pos hwrap]
  · rw [if_neg hwrap, if_neg hwrap]

theorem updateSeq_maxSeq {s : RtpSource} (h : s.probation = 0) :
    s.updateSeq s.maxSeq = (s.receive, true) := by
  rw [updateSeq_of_probation h, UInt16.sub_self, if_pos (by decide), if_neg (UInt16.lt_irrefl _)]

/-! ### Counters without bounds -/

/-- What there is to know of a stream whose packets are numbered without end. -/
structure Tally where
  base : Nat
  highest : Nat
  received : Nat
  expectedPrior : Nat
  receivedPrior : Nat
  /-- the number of 16 bits after the last stray packet -/
  bad : Option UInt16
  base_le : base ≤ highest
  expected_le : expectedPrior ≤ highest - base + 1
  received_le : receivedPrior ≤ received
  /-- a higher packet is one that was received -/
  received_lt : expectedPrior < highest - base + 1 → receivedPrior < received

namespace Tally

variable {t : Tally} {s : RtpSource} {x : Nat} {seq : UInt16}

def expected (t : Tally) : Nat := t.highest - t.base + 1

def first (x : Nat) : Tally where
  base := x
  highest := x
  received := 1
  expectedPrior := 0
  receivedPrior := 0
  bad := none
  base_le := Nat.le_refl x
  expected_le := Nat.zero_le _
  received_le := Nat.zero_le 1
  received_lt := fun _ => Nat.zero_lt_one

def packet (x : Nat) (t : Tally) : Tally where
  base := t.base
  highest := max t.highest x
  received := t.received + 1
  expectedPrior := t.expectedPrior
  receivedPrior := t.receivedPrior
  bad := t.bad
  base_le := Nat.le_trans t.base_le (Nat.le_max_left t.highest x)
  expected_le := by
    have hle := t.expected_le
    omega
  received_le := Nat.le_succ_of_le t.received_le
  received_lt := fun _ => Nat.lt_succ_of_le t.received_le

def stray (seq : UInt16) (t : Tally) : Tally := { t with bad := some (seq + 1) }

def report (t : Tally) : Tally where
  base := t.base
  highest := t.highest
  received := t.received
  expectedPrior := t.expected
  receivedPrior := t.received
  bad := t.bad
  base_le := t.base_le
  expected_le := Nat.le_refl t.expected
  received_le := Nat.le_refl t.received
  received_lt := fun h => absurd h (Nat.lt_irrefl t.expected)

/-- How many packets are missing; fewer than none where some came twice. -/
def lost (t : Tally) : Int := t.expected - t.received

/-- The part of the packets since the last report that is missing, in 256ths. -/
def fraction (t : Tally) : Nat :=
  256 * ((t.expected - t.expectedPrior) - (t.received - t.receivedPrior)) /
    (t.expected - t.expectedPrior)

theorem fraction_lt (t : Tally) : t.fraction < 256 := by
  have hreceived := t.received_lt
  unfold fraction
  by_cases hsome : t.expectedPrior < t.expected
  · have hpositive := hreceived hsome
    apply Nat.div_lt_of_lt_mul
    omega
  · have hnone : t.expected - t.expectedPrior = 0 := by omega
    rw [hnone, Nat.div_zero]
    decide

/-! ### What the receiver keeps of them -/

/-- A packet that is not far ahead of the highest one, nor far behind it. -/
def Near (t : Tally) (x : Nat) : Prop := x < t.highest + maxDropout ∧ t.highest < x + maxMisorder

/-- A number that no near packet has, and not the second one of its kind. -/
def Far (t : Tally) (seq : UInt16) : Prop :=
  maxDropout ≤ (seq - UInt16.ofNat t.highest).toNat ∧
    (seq - UInt16.ofNat t.highest).toNat ≤ rtpSeqMod - maxMisorder ∧ some seq ≠ t.bad

instance (t : Tally) (x : Nat) : Decidable (t.Near x) := by
  unfold Near
  infer_instance

structure Tracks (t : Tally) (s : RtpSource) : Prop where
  probation : s.probation = 0
  maxSeq : s.maxSeq = UInt16.ofNat t.highest
  cycles : s.cycles = UInt32.ofNat (65536 * (t.highest / 65536 - t.base / 65536))
  baseSeq : s.baseSeq = UInt32.ofNat (t.base % 65536)
  badSeq : s.badSeq = (t.bad.map UInt16.toUInt32).getD 65537
  received : s.received = UInt32.ofNat t.received
  expectedPrior : s.expectedPrior = UInt32.ofNat t.expectedPrior
  receivedPrior : s.receivedPrior = UInt32.ofNat t.receivedPrior

theorem Tracks.jitter (h : t.Tracks s) (transit : Int32) (jitter lastRtpTs : UInt32) :
    t.Tracks { s with transit := transit, jitter := jitter, lastRtpTs := lastRtpTs } :=
  ⟨h.probation, h.maxSeq, h.cycles, h.baseSeq, h.badSeq, h.received, h.expectedPrior,
    h.receivedPrior⟩

theorem toNat_udelta (h : t.Near x) : (UInt16.ofNat x - UInt16.ofNat t.highest).toNat =
    if t.highest ≤ x then x - t.highest else 65536 - (t.highest - x) := by
  obtain ⟨hahead, hbehind⟩ := h
  unfold maxDropout at hahead
  unfold maxMisorder at hbehind
  rw [UInt16.toNat_sub, UInt16.toNat_ofNat', UInt16.toNat_ofNat']
  change (65536 - t.highest % 65536 + x % 65536) % 65536 = _
  split <;> omega

theorem Tracks.packet (h : t.Tracks s) (hnear : t.Near x) :
    (s.updateSeq (UInt16.ofNat x)).2 = true ∧
      (t.packet x).Tracks (s.updateSeq (UInt16.ofNat x)).1 := by
  have hdelta := toNat_udelta hnear
  obtain ⟨hahead, hbehind⟩ := hnear
  unfold maxDropout at hahead
  unfold maxMisorder at hbehind
  have hbase := t.base_le
  have hreceived : s.received + 1 = UInt32.ofNat (t.received + 1) := by
    rw [h.received, UInt32.ofNat_add]
    rfl
  rw [← h.maxSeq] at hdelta
  rw [updateSeq_of_probation h.probation, hdelta]
  by_cases hle : t.highest ≤ x
  · have hsmall : x - t.highest < maxDropout := by
      unfold maxDropout
      omega
    have hmax : max t.highest x = x := Nat.max_eq_right hle
    have hlt : UInt16.ofNat x < s.maxSeq ↔ x % 65536 < t.highest % 65536 := by
      rw [h.maxSeq, UInt16.lt_iff_toNat_lt, UInt16.toNat_ofNat', UInt16.toNat_ofNat']
    rw [if_pos hle, if_pos hsmall]
    refine ⟨rfl, h.probation, congrArg UInt16.ofNat hmax.symm, ?_, h.baseSeq, h.badSeq, hreceived,
      h.expectedPrior, h.receivedPrior⟩
    change (if UInt16.ofNat x < s.maxSeq then s.cycles + UInt32.ofNat 65536 else s.cycles) =
      UInt32.ofNat (65536 * (max t.highest x / 65536 - t.base / 65536))
    rw [hmax, h.cycles, ← UInt32.ofNat_add]
    split
    · rename_i hwrap
      rw [hlt] at hwrap
      exact congrArg UInt32.ofNat (by omega)
    · rename_i hsame
      rw [hlt] at hsame
      exact congrArg UInt32.ofNat (by omega)
  · have hlarge : ¬ 65536 - (t.highest - x) < maxDropout := by
      unfold maxDropout
      omega
    have hbeyond : ¬ 65536 - (t.highest - x) ≤ rtpSeqMod - maxMisorder := by
      unfold rtpSeqMod maxMisorder
      omega
    have hmax : max t.highest x = t.highest := Nat.max_eq_left (by omega)
    rw [if_neg hle, if_neg hlarge, if_neg hbeyond]
    refine ⟨rfl, h.probation, ?_, ?_, h.baseSeq, h.badSeq, hreceived, h.expectedPrior,
      h.receivedPrior⟩
    · exact h.maxSeq.trans (congrArg UInt16.ofNat hmax.symm)
    · change s.cycles = UInt32.ofNat (65536 * (max t.highest x / 65536 - _))
      rw [hmax]
      exact h.cycles

theorem Tracks.stray (h : t.Tracks s) (hfar : t.Far seq) :
    (s.updateSeq seq).2 = false ∧ (t.stray seq).Tracks (s.updateSeq seq).1 := by
  obtain ⟨hlarge, hbelow, hnew⟩ := hfar
  rw [← h.maxSeq] at hlarge hbelow
  have hbad : seq.toUInt32 ≠ s.badSeq := by
    rw [h.badSeq]
    intro heq
    have hnat := congrArg UInt32.toNat heq
    rw [UInt16.toNat_toUInt32] at hnat
    cases hbad : t.bad with
    | none =>
      rw [hbad] at hnat
      have hlt : seq.toNat < 65536 := seq.toNat_lt
      change seq.toNat = 65537 at hnat
      omega
    | some b =>
      rw [hbad] at hnat
      change seq.toNat = b.toUInt32.toNat at hnat
      rw [UInt16.toNat_toUInt32] at hnat
      rw [hbad, UInt16.toNat_inj.mp hnat] at hnew
      exact hnew rfl
  rw [updateSeq_of_probation h.probation, if_neg (Nat.not_lt.mpr hlarge), if_pos hbelow, if_neg hbad]
  exact ⟨rfl, h.probation, h.maxSeq, h.cycles, h.baseSeq, rfl, h.received, h.expectedPrior,
    h.receivedPrior⟩

theorem Tracks.expected (h : t.Tracks s) : s.expected = UInt32.ofNat t.expected := by
  have hbase := t.base_le
  unfold RtpSource.expected Tally.expected
  rw [h.cycles, h.maxSeq, h.baseSeq]
  apply UInt32.toNat_inj.mp
  rw [UInt32.toNat_add, UInt32.toNat_sub, UInt32.toNat_add, UInt16.toNat_toUInt32,
    UInt32.toNat_ofNat', UInt32.toNat_ofNat', UInt32.toNat_ofNat', UInt16.toNat_ofNat']
  change ((4294967296 - t.base % 65536 % 4294967296 +
    (65536 * (t.highest / 65536 - t.base / 65536) % 4294967296 + t.highest % 65536) % 4294967296) %
      4294967296 + 1) % 4294967296 = (t.highest - t.base + 1) % 4294967296
  omega

/-! ### What is reported -/

theorem toInt_sub_ofNat {a b : Nat} (ha : a < 2147483648) (hb : b < 2147483648) :
    (UInt32.ofNat a - UInt32.ofNat b).toInt32.toInt = (a : Int) - b := by
  rw [UInt32.toInt32_sub, UInt32.toInt32_ofNat', UInt32.toInt32_ofNat', Int32.toInt_sub,
    Int32.toInt_ofNat_of_lt ha, Int32.toInt_ofNat_of_lt hb, Int.bmod_def]
  omega

theorem shiftLeft_ofNat (l : Nat) : Int32.ofNat l <<< 8 = Int32.ofNat (l * 256) := by
  apply Int32.toBitVec.inj
  change BitVec.ofNat 32 l <<< (8 : Nat) = BitVec.ofNat 32 (l * 256)
  apply BitVec.eq_of_toNat_eq
  rw [BitVec.toNat_shiftLeft, BitVec.toNat_ofNat, BitVec.toNat_ofNat, Nat.shiftLeft_eq]
  omega

theorem toUInt8_div {l e : Nat} (hl : l < 8388608) (he : e < 2147483648) :
    ((Int32.ofNat l <<< 8) / Int32.ofNat e).toUInt32.toUInt8 = UInt8.ofNat (l * 256 / e) := by
  have hdiv : Int32.ofNat (l * 256) / Int32.ofNat e = Int32.ofNat (l * 256 / e) := by
    apply Int32.toInt.inj
    have hsmall : l * 256 / e < 2147483648 := Nat.lt_of_le_of_lt (Nat.div_le_self _ _) (by omega)
    rw [Int32.toInt_div, Int32.toInt_ofNat_of_lt (by omega), Int32.toInt_ofNat_of_lt he,
      Int32.toInt_ofNat_of_lt hsmall, ← Int.ofNat_tdiv]
    generalize l * 256 / e = q at hsmall ⊢
    rw [Int.bmod_def]
    omega
  rw [shiftLeft_ofNat, hdiv]
  apply UInt8.toNat_inj.mp
  rw [UInt32.toNat_toUInt8, UInt8.toNat_ofNat']
  change (BitVec.ofNat 32 (l * 256 / e)).toNat % 2 ^ 8 = _
  rw [BitVec.toNat_ofNat]
  omega

/-- What fits into 24 bits with a sign. -/
def clamp (n : Int) : Int := if 8388607 < n then 8388607 else if n < -8388607 then -8388607 else n

theorem Tracks.calcLost (h : t.Tracks s) (hexpected : t.expected < 2147483648)
    (hreceived : t.received < 2147483648) : s.calcLost = clamp t.lost := by
  unfold RtpSource.calcLost
  rw [h.expected, h.received, toInt_sub_ofNat hexpected hreceived]
  rfl

theorem Tracks.report (h : t.Tracks s) : t.report.Tracks s.calcFractionLost.1 :=
  ⟨h.probation, h.maxSeq, h.cycles, h.baseSeq, h.badSeq, h.received, h.expected, h.received⟩

theorem Tracks.fraction (h : t.Tracks s) (hexpected : t.expected - t.expectedPrior < 8388608)
    (hreceived : t.received - t.receivedPrior < 2147483648) :
    s.calcFractionLost.2.toNat = t.fraction := by
  have hexpectedInterval : (s.expected - s.expectedPrior).toInt32 =
      Int32.ofNat (t.expected - t.expectedPrior) := by
    have hle : t.expectedPrior ≤ t.expected := t.expected_le
    rw [h.expected, h.expectedPrior, ← UInt32.ofNat_sub hle, UInt32.toInt32_ofNat']
  have hreceivedInterval : (s.received - s.receivedPrior).toInt32 =
      Int32.ofNat (t.received - t.receivedPrior) := by
    rw [h.received, h.receivedPrior, ← UInt32.ofNat_sub t.received_le, UInt32.toInt32_ofNat']
  have hlt := t.fraction_lt
  unfold RtpSource.calcFractionLost
  unfold Tally.fraction at hlt ⊢
  simp only
  rw [hexpectedInterval, hreceivedInterval]
  generalize t.expected - t.expectedPrior = e at hexpected hlt ⊢
  generalize t.received - t.receivedPrior = r at hreceived hlt ⊢
  have hnone : Int32.ofNat e = 0 ↔ e = 0 := by
    rw [← Int32.toInt_inj, Int32.toInt_ofNat_of_lt (Nat.lt_trans hexpected (by decide))]
    change (e : Int) = 0 ↔ _
    omega
  have hsub : (Int32.ofNat e - Int32.ofNat r).toInt = (e : Int) - r := by
    rw [Int32.toInt_sub, Int32.toInt_ofNat_of_lt (Nat.lt_trans hexpected (by decide)),
      Int32.toInt_ofNat_of_lt hreceived, Int.bmod_def]
    omega
  by_cases hlost : e - r = 0
  · have hle : Int32.ofNat e - Int32.ofNat r ≤ 0 := by
      rw [Int32.le_iff_toInt_le, hsub]
      change (e : Int) - r ≤ 0
      omega
    rw [if_pos (.inr hle), hlost, Nat.mul_zero, Nat.zero_div]
    rfl
  · have hsome : ¬ (Int32.ofNat e = 0 ∨ Int32.ofNat e - Int32.ofNat r ≤ 0) := by
      rw [hnone, Int32.le_iff_toInt_le, hsub]
      change ¬ (e = 0 ∨ (e : Int) - r ≤ 0)
      omega
    have hdiff : Int32.ofNat e - Int32.ofNat r = Int32.ofNat (e - r) := by
      apply Int32.toInt.inj
      rw [hsub, Int32.toInt_ofNat_of_lt (by omega)]
      omega
    rw [if_neg hsome, hdiff, toUInt8_div (by omega) (by omega), UInt8.toNat_ofNat', Nat.mul_comm]
    exact Nat.mod_eq_of_lt hlt

theorem Tracks.lastSeq (h : t.Tracks s) : s.cycles ||| s.maxSeq.toUInt32 =
    UInt32.ofNat (t.highest - 65536 * (t.base / 65536)) := by
  have hbase := t.base_le
  have hmax : t.highest % 65536 < 2 ^ 16 := Nat.mod_lt _ (by decide)
  have hcycles : 65536 * (t.highest / 65536 - t.base / 65536) % 4294967296 =
      ((t.highest / 65536 - t.base / 65536) % 65536) <<< 16 := by
    rw [Nat.shiftLeft_eq]
    omega
  rw [h.cycles, h.maxSeq]
  apply UInt32.toNat_inj.mp
  rw [UInt32.toNat_or, UInt16.toNat_toUInt32, UInt32.toNat_ofNat', UInt32.toNat_ofNat',
    UInt16.toNat_ofNat']
  change 65536 * (t.highest / 65536 - t.base / 65536) % 4294967296 ||| t.highest % 65536 = _
  rw [hcycles, ← Nat.shiftLeft_add_eq_or_of_lt hmax, Nat.shiftLeft_eq]
  omega

end Tally

/-! ### A stream -/

/-- What happens to a receiver, with the true number of each packet of the stream. -/
inductive RtpEvent where
  | packet (x : Nat) (ts : UInt32) (tsArrive : Option UInt32)
  | stray (hdr : RtpHeader) (tsArrive : Option UInt32)
  | report (ssrc lsr dlsr : UInt32)

namespace RtpEvent

def step (s : Option RtpSource) : RtpEvent → Option RtpSource
  | .packet x ts tsArrive => some (rtcpSessRxRtp ⟨UInt16.ofNat x, ts⟩ tsArrive s)
  | .stray hdr tsArrive => some (rtcpSessRxRtp hdr tsArrive s)
  | .report ssrc lsr dlsr => s.map fun s => (senderApplyHandler ssrc lsr dlsr s).1

def run (es : List RtpEvent) : Option RtpSource := es.foldl step none

/-- The packets in the order they arrived. -/
def numbers : List RtpEvent → List Nat
  | [] => []
  | .packet x _ _ :: es => x :: numbers es
  | _ :: es => numbers es

/-- A stream whose packets arrive out of order by no more than the receiver puts up with. -/
inductive Followed : List RtpEvent → Tally → Prop where
  | first (x : Nat) (ts : UInt32) (tsArrive : Option UInt32) :
      Followed [.packet x ts tsArrive] (.first x)
  | packet {es : List RtpEvent} {t : Tally} (h : Followed es t) {x : Nat} (hnear : t.Near x)
      (ts : UInt32) (tsArrive : Option UInt32) :
      Followed (es ++ [.packet x ts tsArrive]) (t.packet x)
  | stray {es : List RtpEvent} {t : Tally} (h : Followed es t) {hdr : RtpHeader}
      (hfar : t.Far hdr.seq) (tsArrive : Option UInt32) :
      Followed (es ++ [.stray hdr tsArrive]) (t.stray hdr.seq)
  | report {es : List RtpEvent} {t : Tally} (h : Followed es t) (ssrc lsr dlsr : UInt32) :
      Followed (es ++ [.report ssrc lsr dlsr]) t.report

variable {es : List RtpEvent} {t : Tally} {s : RtpSource}

theorem tracks_rx {u : Tally} (hdr : RtpHeader) (h : u.Tracks (s.updateSeq hdr.seq).1)
    (tsArrive : Option UInt32) : u.Tracks (rtcpSessRxRtp hdr tsArrive (some s)) := by
  unfold rtcpSessRxRtp
  simp only [Option.getD_some]
  generalize (s.updateSeq hdr.seq).1 = v at h ⊢
  cases tsArrive with
  | none => exact h.jitter v.transit v.jitter hdr.ts
  | some arrival =>
    simp only
    split
    · unfold RtpSource.calcJitter
      simp only
      split
      · exact h.jitter _ v.jitter hdr.ts
      · exact h.jitter _ _ hdr.ts
    · exact h.jitter v.transit v.jitter hdr.ts

theorem tracks_first (x : Nat) (ts : UInt32) (tsArrive : Option UInt32) :
    (Tally.first x).Tracks (rtcpSessRxRtp ⟨UInt16.ofNat x, ts⟩ tsArrive none) := by
  have hrx : (RtpSource.zero.initSeq (UInt16.ofNat x)).updateSeq (UInt16.ofNat x) =
      ((RtpSource.zero.initSeq (UInt16.ofNat x)).receive, true) := updateSeq_maxSeq rfl
  have hinit : (Tally.first x).Tracks
      ((RtpSource.zero.initSeq (UInt16.ofNat x)).updateSeq (UInt16.ofNat x)).1 := by
    rw [hrx]
    refine ⟨rfl, rfl, ?_, ?_, rfl, rfl, rfl, rfl⟩
    · change (0 : UInt32) = UInt32.ofNat (65536 * (x / 65536 - x / 65536))
      rw [Nat.sub_self]
      rfl
    · apply UInt32.toNat_inj.mp
      change (UInt16.ofNat x).toUInt32.toNat = (UInt32.ofNat (x % 65536)).toNat
      rw [UInt16.toNat_toUInt32, UInt16.toNat_ofNat', UInt32.toNat_ofNat']
      omega
  exact tracks_rx ⟨UInt16.ofNat x, ts⟩ hinit tsArrive

theorem run_snoc (es : List RtpEvent) (e : RtpEvent) : run (es ++ [e]) = step (run es) e :=
  List.foldl_append

/-- The counters of the receiver follow the true numbers, whatever arrives and however often they
wrap around. -/
theorem Followed.tracks (h : Followed es t) : ∃ s, run es = some s ∧ t.Tracks s := by
  induction h with
  | first x ts tsArrive => exact ⟨_, rfl, tracks_first x ts tsArrive⟩
  | packet h hnear ts tsArrive ih =>
    obtain ⟨s, hrun, htracks⟩ := ih
    refine ⟨_, ?_, tracks_rx ⟨UInt16.ofNat _, ts⟩ (htracks.packet hnear).2 tsArrive⟩
    rw [run_snoc, hrun]
    rfl
  | stray h hfar tsArrive ih =>
    obtain ⟨s, hrun, htracks⟩ := ih
    refine ⟨_, ?_, tracks_rx _ (htracks.stray hfar).2 tsArrive⟩
    rw [run_snoc, hrun]
    rfl
  | report h ssrc lsr dlsr ih =>
    obtain ⟨s, hrun, htracks⟩ := ih
    refine ⟨s.calcFractionLost.1, ?_, htracks.report⟩
    rw [run_snoc, hrun]
    rfl

/-! ### What the other side is told -/

theorem numbers_append (es fs : List RtpEvent) : numbers (es ++ fs) = numbers es ++ numbers fs := by
  induction es with
  | nil => rfl
  | cons e es ih =>
    cases e with
    | packet x ts tsArrive => exact congrArg (x :: ·) ih
    | stray hdr tsArrive => exact ih
    | report ssrc lsr dlsr => exact ih

theorem Followed.received (h : Followed es t) : t.received = (numbers es).length := by
  induction h with
  | first x ts tsArrive => rfl
  | packet h hnear ts tsArrive ih =>
    rw [numbers_append, List.length_append, ← ih]
    rfl
  | stray h hfar tsArrive ih =>
    rw [numbers_append, List.length_append, ← ih]
    rfl
  | report h ssrc lsr dlsr ih =>
    rw [numbers_append, List.length_append, ← ih]
    rfl

theorem Followed.le_highest (h : Followed es t) : ∀ x ∈ numbers es, x ≤ t.highest := by
  induction h with
  | first x ts tsArrive =>
    intro y hy
    rw [List.mem_singleton.mp hy]
    exact Nat.le_of_eq rfl
  | @packet es t h x hnear ts tsArrive ih =>
    intro y hy
    rw [numbers_append] at hy
    change y ≤ max t.highest x
    rcases List.mem_append.mp hy with hy | hy
    · have hle := ih y hy
      omega
    · rw [List.mem_singleton.mp hy]
      omega
  | stray h hfar tsArrive ih =>
    intro y hy
    rw [numbers_append, List.mem_append] at hy
    exact ih y (hy.resolve_right List.not_mem_nil)
  | report h ssrc lsr dlsr ih =>
    intro y hy
    rw [numbers_append, List.mem_append] at hy
    exact ih y (hy.resolve_right List.not_mem_nil)

/-- The packets between the first and the highest one that did not arrive. -/
def missing (es : List RtpEvent) (t : Tally) : List Nat :=
  (List.range' t.base t.expected).filter fun x => x ∉ numbers es

theorem Followed.lost (h : Followed es t) (hnodup : (numbers es).Nodup)
    (hbase : ∀ x ∈ numbers es, t.base ≤ x) : t.lost = (missing es t).length := by
  have hpartition := List.length_eq_length_filter_add
    (l := List.range' t.base t.expected) (fun x => decide (x ∈ numbers es))
  have harrived : ((List.range' t.base t.expected).filter fun x => x ∈ numbers es).Perm
      (numbers es) := by
    apply (List.perm_ext_iff_of_nodup ((List.nodup_range' 1).filter _) hnodup).mpr
    intro x
    rw [List.mem_filter, List.mem_range'_1, decide_eq_true_eq]
    constructor
    · exact And.right
    · intro hx
      have hle := h.le_highest x hx
      have hle' := hbase x hx
      have hspan := t.base_le
      unfold Tally.expected
      exact ⟨by omega, hx⟩
  have hmissing : (missing es t).length = ((List.range' t.base t.expected).filter fun x =>
      !decide (x ∈ numbers es)).length := by
    unfold missing
    simp only [decide_not]
  rw [List.length_range', harrived.length_eq, ← h.received, ← hmissing] at hpartition
  unfold Tally.lost
  omega

/-- A report, as the other side reads it. -/
def reported (ssrc lsr dlsr : UInt32) (s : RtpSource) (rest : List UInt8) :
    Option (RtcpRr × List UInt8) :=
  rtcpRrDecode (rtcpRrEncode (senderApplyHandler ssrc lsr dlsr s).2 ++ rest)

theorem toInt_clamp (n : Int) : (BitVec.ofInt 24 (Tally.clamp n)).toInt = Tally.clamp n := by
  unfold Tally.clamp
  rw [BitVec.toInt_ofInt, Int.bmod_def]
  split
  · decide
  · split
    · decide
    · omega

/-- However the packets are lost and put out of order, and however often the sequence number
wraps around: the sender is told how many of its packets are missing, and which is the highest
that arrived. -/
theorem lost_told (h : Followed es t) (hnodup : (numbers es).Nodup)
    (hbase : ∀ x ∈ numbers es, t.base ≤ x) (hsize : t.expected < 2147483648) :
    ∃ s, run es = some s ∧ ∀ ssrc lsr dlsr rest, ∃ rr,
      reported ssrc lsr dlsr s rest = some (rr, rest) ∧
      rr.lost.toInt = min (missing es t).length 8388607 ∧
      rr.lastSeq = UInt32.ofNat (t.highest - 65536 * (t.base / 65536)) := by
  obtain ⟨s, hrun, htracks⟩ := h.tracks
  have hlost := h.lost hnodup hbase
  have hreceived : t.received < 2147483648 := by
    unfold Tally.lost at hlost
    omega
  refine ⟨s, hrun, fun ssrc lsr dlsr rest => ⟨_, rtcpRrDecode_rtcpRrEncode _ rest, ?_, ?_⟩⟩
  · change (BitVec.ofInt 24 s.calcFractionLost.1.calcLost).toInt = _
    have hcalc : s.calcFractionLost.1.calcLost = Tally.clamp t.lost :=
      htracks.calcLost hsize hreceived
    rw [hcalc, toInt_clamp, hlost]
    unfold Tally.clamp
    split
    · omega
    · split <;> omega
  · exact htracks.lastSeq

/-- The numbers 65534, 65537 and 65536 arrive, in this order. -/
theorem followed_late (ts : UInt32) : Followed
    [.packet 65534 ts none, .packet 65537 ts none, .packet 65536 ts none]
    (((Tally.first 65534).packet 65537).packet 65536) :=
  .packet (.packet (.first 65534 ts none) (by decide) ts none) (by decide) ts none

theorem lost_told_late : ∃ s,
    run [.packet 65534 0 none, .packet 65537 0 none, .packet 65536 0 none] = some s ∧
      ∀ ssrc lsr dlsr rest, ∃ rr, reported ssrc lsr dlsr s rest = some (rr, rest) ∧
        rr.lost.toInt = 1 ∧ rr.lastSeq = 65537 :=
  lost_told (followed_late 0) (by decide) (by decide) (by decide)

/-- The fraction is never one that does not fit into its 8 bits. -/
theorem fraction_told (h : Followed es t) (hexpected : t.expected - t.expectedPrior < 8388608)
    (hreceived : t.received - t.receivedPrior < 2147483648) :
    ∃ s, run es = some s ∧ ∀ ssrc lsr dlsr rest, ∃ rr,
      reported ssrc lsr dlsr s rest = some (rr, rest) ∧ rr.fraction.toNat = t.fraction := by
  obtain ⟨s, hrun, htracks⟩ := h.tracks
  refine ⟨s, hrun, fun ssrc lsr dlsr rest => ⟨_, rtcpRrDecode_rtcpRrEncode _ rest, ?_⟩⟩
  exact htracks.fraction hexpected hreceived

theorem fraction_told_late : ∃ s,
    run [.packet 65534 0 none, .packet 65537 0 none, .packet 65536 0 none] = some s ∧
      ∀ ssrc lsr dlsr rest, ∃ rr, reported ssrc lsr dlsr s rest = some (rr, rest) ∧
        rr.fraction.toNat = 64 :=
  fraction_told (followed_late 0) (by decide) (by decide)

/-! ### The jitter -/

/-- The differences between the times of arrival and the timestamps. -/
def transits : List RtpEvent → List Int
  | [] => []
  | .packet _ ts (some arrival) :: es => (arrival - ts).toInt32.toInt :: transits es
  | .stray hdr (some arrival) :: es => (arrival - hdr.ts).toInt32.toInt :: transits es
  | _ :: es => transits es

/-- The jitter so far, of transits between `a` and `a + d`. -/
structure Settled (a : Int) (d : Nat) (s : RtpSource) : Prop where
  jitter : s.jitter.toNat ≤ 16 * d + 7
  transit : s.transit = 0 ∨ a ≤ s.transit.toInt ∧ s.transit.toInt ≤ a + d

variable {a : Int} {d : Nat}

theorem toNat_abs {x : Int32} (hx : -134217728 < x.toInt ∧ x.toInt < 134217728) :
    (if x < 0 then -x else x).toUInt32.toNat = x.toInt.natAbs := by
  have hbits (y : Int32) (hy : 0 ≤ y.toInt) : (y.toUInt32.toNat : Int) = y.toInt := by
    change (y.toBitVec.toNat : Int) = y.toBitVec.toInt
    change 0 ≤ y.toBitVec.toInt at hy
    rw [BitVec.toInt_eq_toNat_cond] at hy ⊢
    have hlt := y.toBitVec.isLt
    split
    · rfl
    · rename_i hlarge
      rw [if_neg hlarge] at hy
      omega
  split
  · rename_i hneg
    rw [Int32.lt_iff_toInt_lt] at hneg
    change x.toInt < 0 at hneg
    have hval : (-x).toInt = -x.toInt := by
      rw [Int32.toInt_neg, Int.bmod_def]
      omega
    have hnat := hbits (-x) (by omega)
    omega
  · rename_i hpos
    rw [Int32.lt_iff_toInt_lt] at hpos
    change ¬ x.toInt < 0 at hpos
    have hnat := hbits x (by omega)
    omega

theorem Settled.calcJitter (h : Settled a d s) (hd : d < 134217728) {rtpTs arrival : UInt32}
    (hlow : a ≤ (arrival - rtpTs).toInt32.toInt) (hhigh : (arrival - rtpTs).toInt32.toInt ≤ a + d) :
    Settled a d (s.calcJitter rtpTs arrival) := by
  unfold RtpSource.calcJitter
  simp only
  split
  · exact ⟨h.jitter, .inr ⟨hlow, hhigh⟩⟩
  · rename_i hsome
    obtain ⟨hlow', hhigh'⟩ := h.transit.resolve_left hsome
    refine ⟨?_, .inr ⟨hlow, hhigh⟩⟩
    generalize (arrival - rtpTs).toInt32 = transit at hlow hhigh ⊢
    have hdiff : (transit - s.transit).toInt = transit.toInt - s.transit.toInt := by
      rw [Int32.toInt_sub, Int.bmod_def]
      omega
    have habs := @toNat_abs (transit - s.transit) (by omega)
    have hjitter := h.jitter
    have hle : (transit - s.transit).toInt.natAbs ≤ d := by omega
    simp only
    rw [UInt32.toNat_add, UInt32.toNat_sub, habs, UInt32.toNat_shiftRight, UInt32.toNat_add]
    change (s.jitter.toNat + (4294967296 - ((s.jitter.toNat + 8) % 4294967296) >>> 4 +
      (transit - s.transit).toInt.natAbs) % 4294967296) % 4294967296 ≤ _
    generalize (transit - s.transit).toInt.natAbs = n at hle ⊢
    generalize s.jitter.toNat = j at hjitter ⊢
    rw [Nat.shiftRight_eq_div_pow, Nat.mod_eq_of_lt (show j + 8 < 4294967296 by omega)]
    change (j + (4294967296 - (j + 8) / 16 + n) % 4294967296) % 4294967296 ≤ _
    by_cases hgrows : (j + 8) / 16 ≤ n
    · have hmod : (4294967296 - (j + 8) / 16 + n) % 4294967296 = n - (j + 8) / 16 := by omega
      omega
    · have hmod : (4294967296 - (j + 8) / 16 + n) % 4294967296 =
          4294967296 - (j + 8) / 16 + n := Nat.mod_eq_of_lt (by omega)
      omega

theorem Settled.updateSeq (h : Settled a d s) (seq : UInt16) :
    Settled a d (s.updateSeq seq).1 := by
  have hkeeps : (s.updateSeq seq).1.jitter = s.jitter ∧
      (s.updateSeq seq).1.transit = s.transit := by
    unfold RtpSource.updateSeq
    grind [RtpSource.initSeq, RtpSource.receive]
  constructor
  · rw [hkeeps.1]
    exact h.jitter
  · rw [hkeeps.2]
    exact h.transit

theorem Settled.rx {source : Option RtpSource} (h : ∀ s₀ ∈ source, Settled a d s₀) (hd : d < 134217728) (hdr : RtpHeader)
    {tsArrive : Option UInt32} (hrange : ∀ arrival ∈ tsArrive,
      a ≤ (arrival - hdr.ts).toInt32.toInt ∧ (arrival - hdr.ts).toInt32.toInt ≤ a + d) :
    Settled a d (rtcpSessRxRtp hdr tsArrive source) := by
  have hstart : Settled a d (source.getD (RtpSource.zero.initSeq hdr.seq)) := by
    cases source with
    | none => exact ⟨Nat.zero_le _, .inl rfl⟩
    | some s₀ => exact h s₀ rfl
  have hseq := hstart.updateSeq hdr.seq
  unfold rtcpSessRxRtp
  simp only
  generalize ((source.getD (RtpSource.zero.initSeq hdr.seq)).updateSeq hdr.seq).1 = v at hseq ⊢
  cases tsArrive with
  | none => exact ⟨hseq.jitter, hseq.transit⟩
  | some arrival =>
    obtain ⟨hlow, hhigh⟩ := hrange arrival rfl
    simp only
    split
    · exact ⟨(hseq.calcJitter hd hlow hhigh).jitter, (hseq.calcJitter hd hlow hhigh).transit⟩
    · exact ⟨hseq.jitter, hseq.transit⟩

theorem settled_step (hd : d < 134217728) {source : Option RtpSource} (h : ∀ s₀ ∈ source, Settled a d s₀)
    {e : RtpEvent} (hrange : ∀ n ∈ transits [e], a ≤ n ∧ n ≤ a + d) :
    ∀ s₁ ∈ step source e, Settled a d s₁ := by
  cases e with
  | packet x ts tsArrive =>
    rintro s₁ ⟨⟩
    apply Settled.rx h hd
    rintro arrival rfl
    exact hrange _ (List.mem_singleton.mpr rfl)
  | stray hdr tsArrive =>
    rintro s₁ ⟨⟩
    apply Settled.rx h hd
    rintro arrival rfl
    exact hrange _ (List.mem_singleton.mpr rfl)
  | report ssrc lsr dlsr =>
    intro s₁ hs₁
    obtain ⟨s₀, hs₀, rfl⟩ := Option.map_eq_some_iff.mp hs₁
    exact ⟨(h s₀ hs₀).jitter, (h s₀ hs₀).transit⟩

theorem transits_cons (e : RtpEvent) (es : List RtpEvent) :
    transits (e :: es) = transits [e] ++ transits es := by
  cases e with
  | packet x ts tsArrive => cases tsArrive <;> rfl
  | stray hdr tsArrive => cases tsArrive <;> rfl
  | report ssrc lsr dlsr => rfl

theorem settled_run (hd : d < 134217728) {source : Option RtpSource} (h : ∀ s₀ ∈ source, Settled a d s₀)
    (hrange : ∀ n ∈ transits es, a ≤ n ∧ n ≤ a + d) : ∀ s₁ ∈ es.foldl step source, Settled a d s₁ := by
  induction es generalizing source with
  | nil => exact h
  | cons e es ih =>
    rw [transits_cons] at hrange
    apply ih
    · exact settled_step hd h fun n hn => hrange n (List.mem_append_left _ hn)
    · exact fun n hn => hrange n (List.mem_append_right _ hn)

/-- Whatever arrives: where no packet takes longer than another by more than `d`, the reported
jitter is `d` at most. -/
theorem jitter_told (hd : d < 134217728) (hrange : ∀ n ∈ transits es, a ≤ n ∧ n ≤ a + d)
    (hrun : run es = some s) (ssrc lsr dlsr : UInt32) (rest : List UInt8) :
    ∃ rr, reported ssrc lsr dlsr s rest = some (rr, rest) ∧ rr.jitter.toNat ≤ d := by
  have hsettled := @settled_run es a d hd none (fun s₀ hs₀ => by cases hs₀) hrange s hrun
  refine ⟨_, rtcpRrDecode_rtcpRrEncode _ rest, ?_⟩
  change (s.jitter >>> 4).toNat ≤ d
  have hjitter := hsettled.jitter
  rw [UInt32.toNat_shiftRight]
  change s.jitter.toNat >>> 4 ≤ d
  rw [Nat.shiftRight_eq_div_pow]
  omega

/-- Transits of 5 and of 25. -/
theorem jitter_told_late : ∃ s, run [.packet 1 95 (some 100), .packet 2 255 (some 280)] = some s ∧
    ∀ ssrc lsr dlsr rest, ∃ rr, reported ssrc lsr dlsr s rest = some (rr, rest) ∧
      rr.jitter.toNat ≤ 20 := by
  have hrange : ∀ n ∈ transits [.packet 1 95 (some 100), .packet 2 255 (some 280)],
      5 ≤ n ∧ n ≤ 5 + ((20 : Nat) : Int) := by decide
  exact ⟨_, rfl, jitter_told (by decide) hrange rfl⟩

end RtpEvent

end SimplePhone.Re
