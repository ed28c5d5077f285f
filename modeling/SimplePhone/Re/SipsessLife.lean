import SimplePhone.Re.Sipsess

/-! Through all that happens to it a SIP session stays in one of four phases, which tell what it
waits for, what its user was told and whether goodbye was said. -/
namespace SimplePhone.Re

open Transition

namespace Sipsess

/-! ### The life of a session -/

/-- What a session waits for when it has ended. -/
def waits (s : Sipsess) : Nat :=
  (if s.req.isSome then 1 else 0) + (if s.replyl.isEmpty then 0 else 1)

/-- An INVITE of this side comes before everything else. -/
def First (s : Sipsess) : Prop :=
  s.req = some .invite → s.replyl = [] ∧ s.st = false ∧ s.established = false ∧ s.lost = 0

/-- Goodbye was said where it has to be. -/
def Parted (s : Sipsess) : Prop :=
  s.established = true → s.peerterm = true ∨ s.farewell ≠ none

/-- What the user is told of a session: how it goes on, then at most once that it was answered,
then at most once that it is over. -/
def Story (told : List SessTold) : Prop :=
  ∃ n answered ended, told = List.replicate n .progress ++ answered ++ ended ∧
    (answered = [] ∨ answered = [.established]) ∧ (ended = [] ∨ ∃ err, ended = [.closed err])

def Heard (established : Bool) (told : List SessTold) : Prop :=
  ∃ n, told = List.replicate n .progress ++ if established then [.established] else []

theorem Heard.story {established : Bool} {told : List SessTold} (h : Heard established told) :
    Story told := by
  obtain ⟨n, hn⟩ := h
  cases established with
  | false => exact ⟨n, [], [], by simpa using hn, .inl rfl, .inl rfl⟩
  | true => exact ⟨n, [.established], [], by simpa using hn, .inr rfl, .inl rfl⟩

theorem Heard.closed {established : Bool} {told : List SessTold} (h : Heard established told)
    (err : Nat) : Story (told ++ [.closed err]) := by
  obtain ⟨n, hn⟩ := h
  cases established with
  | false => exact ⟨n, [], [.closed err], by simp [hn], .inl rfl, .inr ⟨err, rfl⟩⟩
  | true => exact ⟨n, [.established], [.closed err], by simp [hn], .inr rfl, .inr ⟨err, rfl⟩⟩

theorem Heard.progress {told : List SessTold} (h : Heard false told) :
    Heard false (told ++ [.progress]) := by
  obtain ⟨n, hn⟩ := h
  refine ⟨n + 1, ?_⟩
  rw [hn, List.replicate_succ']
  simp

theorem Heard.established {told : List SessTold} (h : Heard false told) :
    Heard true (told ++ [.established]) := by
  obtain ⟨n, hn⟩ := h
  exact ⟨n, by simp [hn]⟩

theorem Heard.open_ {established : Bool} {told : List SessTold} (h : Heard established told)
    (err : Nat) : SessTold.closed err ∉ told := by
  obtain ⟨n, hn⟩ := h
  intro hmem
  rw [hn, List.mem_append, List.mem_replicate] at hmem
  cases established <;> simp at hmem

/-- Its user has it. -/
structure Awake (s : Sipsess) : Prop where
  terminated : s.terminated = .no
  held : s.held = true
  freed : s.freed = false
  nrefs : s.nrefs = 1
  lost : s.lost = 0
  farewell : s.farewell = none
  req : s.req ≠ some .bye
  first : s.First
  heard : Heard s.established s.told

/-- It has ended and waits for what has not come; `n` references are about to be given back. -/
structure Asleep (n : Nat) (s : Sipsess) : Prop where
  terminated : s.terminated = .waiting
  held : s.held = false
  freed : s.freed = false
  nrefs : s.nrefs = n + s.waits + s.lost
  farewell : s.farewell = none
  req : s.req ≠ some .bye
  first : s.First
  st : s.st = false
  tmr : s.tmr = false
  story : Story s.told

/-- It waits for the answer to its BYE. -/
structure Leaving (s : Sipsess) : Prop where
  terminated : s.terminated = .ending
  held : s.held = false
  freed : s.freed = false
  nrefs : s.nrefs = 1
  lost : s.lost = 0
  farewell : s.farewell ≠ none
  req : s.req = some .bye
  replyl : s.replyl = []
  st : s.st = false
  tmr : s.tmr = false
  story : Story s.told

structure Gone (s : Sipsess) : Prop where
  freed : s.freed = true
  held : s.held = false
  lost : s.lost = 0
  parted : s.Parted
  req : s.req = none
  replyl : s.replyl = []
  st : s.st = false
  tmr : s.tmr = false
  story : Story s.told

inductive Life (s : Sipsess) : Prop where
  | awake (h : Awake s)
  | asleep (h : Asleep 0 s) (hpos : 0 < s.nrefs)
  | leaving (h : Leaving s)
  | gone (h : Gone s)

variable {s : Sipsess} {o : SessOutcome}

/-- There is nobody to say goodbye to, or the BYE is sent, or it fails. -/
inductive Ended (s : Sipsess) : Sipsess × Bool → Prop where
  | quiet (h : s.established = true → s.peerterm = true) :
      Ended s ({ s with terminated := .ending }, false)
  | sent (hreq : s.req = none) :
      Ended s ({ s with
        terminated := .ending
        ls := .reset
        req := some .bye
        nrefs := s.nrefs + 1
        farewell := some true }, true)
  | failed : Ended s ({ s with terminated := .ending, ls := .reset, farewell := some false }, false)

theorem bye_eq (hreq : s.req = none) (resetLs : Bool) (o : SessOutcome) :
    s.bye resetLs o =
      if o.bye = 0 then
        ({ s with ls := if resetLs then .reset else s.ls, req := some .bye }, 0)
      else ({ s with ls := if resetLs then .reset else s.ls }, o.bye) := by
  have hnone : ¬ s.req.isSome = true := by
    rw [hreq]
    exact Bool.false_ne_true
  unfold bye
  rw [if_neg hnone]
  cases resetLs <;> rfl

theorem ended (h : s.req = none ∨ s.established = false) (o : SessOutcome) :
    Ended s (s.terminate o) := by
  unfold terminate
  simp only
  split
  · rename_i hquiet
    apply Ended.quiet
    intro hestablished
    rw [hestablished] at hquiet
    simpa using hquiet
  · rename_i hopen
    have hreq : s.req = none := by
      apply h.resolve_right
      intro hestablished
      rw [hestablished] at hopen
      exact hopen rfl
    have hbye := @bye_eq { s with terminated := .ending } hreq true o
    rw [hbye]
    by_cases hsent : o.bye = 0
    · rw [if_pos hsent]
      exact .sent hreq
    · rw [if_neg hsent]
      split
      · rename_i hzero
        exact absurd (Prod.mk.inj hzero).2 hsent
      · rename_i hfailed
        obtain ⟨rfl, -⟩ := Prod.mk.inj hfailed
        exact .failed

/-- All there was to wait for has come. -/
structure Idle (s : Sipsess) : Prop where
  held : s.held = false
  freed : s.freed = false
  nrefs : s.nrefs = 0
  lost : s.lost = 0
  open_ : s.req = none ∨ s.established = false
  replyl : s.replyl = []
  st : s.st = false
  tmr : s.tmr = false
  story : Story s.told

/-- The end of a session that waits for nothing. -/
theorem Idle.part (h : Idle s) (o : SessOutcome) :
    Life (if (s.terminate o).2 then (s.terminate o).1 else (s.terminate o).1.free) := by
  have hended := ended h.open_ o
  generalize s.terminate o = p at hended ⊢
  cases hended with
  | quiet hquiet =>
    apply Life.gone
    exact ⟨rfl, h.held, h.lost, fun hest => .inl (hquiet hest), rfl, rfl, rfl, rfl, h.story⟩
  | sent hreq =>
    apply Life.leaving
    refine ⟨rfl, h.held, h.freed, ?_, h.lost, Option.some_ne_none true, rfl, h.replyl, h.st,
      h.tmr, h.story⟩
    change s.nrefs + 1 = 1
    rw [h.nrefs]
  | failed =>
    apply Life.gone
    exact ⟨rfl, h.held, h.lost, fun _ => .inr (Option.some_ne_none false), rfl, rfl, rfl, rfl,
      h.story⟩

theorem waits_none (hreq : s.req = none) (hreplyl : s.replyl = []) : s.waits = 0 := by
  unfold waits
  rw [hreq, hreplyl]
  rfl

theorem idle_of_waits (h : s.waits = 0) : s.req = none ∧ s.replyl = [] := by
  unfold waits at h
  cases hreq : s.req with
  | some r =>
    rw [hreq] at h
    simp at h
  | none =>
    refine ⟨rfl, ?_⟩
    cases hreplyl : s.replyl with
    | nil => rfl
    | cons cseq rest =>
      rw [hreplyl] at h
      simp at h

/-- As `termwait` leaves it. -/
def stopped (s : Sipsess) : Sipsess :=
  { s with terminated := .waiting, tmr := false, st := false, nrefs := s.nrefs + s.waits }

theorem termwait_eq (s : Sipsess) : s.termwait = (s.stopped, decide (0 < s.waits)) := rfl

theorem destructor_no (h : s.terminated = .no) (o : SessOutcome) : s.destructor o =
    if 0 < s.waits then s.stopped
    else if (s.stopped.terminate o).2 then (s.stopped.terminate o).1
    else (s.stopped.terminate o).1.free := by
  unfold destructor
  split
  · simp only [termwait_eq, decide_eq_true_eq]
    rfl
  · rename_i hwaiting
    cases h.symm.trans hwaiting
  · rename_i hending
    cases h.symm.trans hending

theorem destructor_waiting (h : s.terminated = .waiting) (o : SessOutcome) : s.destructor o =
    if (s.terminate o).2 then (s.terminate o).1 else (s.terminate o).1.free := by
  unfold destructor
  split
  · rename_i hno
    cases h.symm.trans hno
  · rfl
  · rename_i hending
    cases h.symm.trans hending

theorem destructor_ending (h : s.terminated = .ending) (o : SessOutcome) :
    s.destructor o = s.free := by
  unfold destructor
  split
  · rename_i hno
    cases h.symm.trans hno
  · rename_i hwaiting
    cases h.symm.trans hwaiting
  · rfl

/-- A reference is given back for what has come. -/
theorem Asleep.memDeref (h : Asleep 1 s) (o : SessOutcome) : Life (s.memDeref o) := by
  have hnrefs := h.nrefs
  unfold Sipsess.memDeref
  split
  · rename_i hmore
    apply Life.asleep
    · refine ⟨h.terminated, h.held, h.freed, ?_, h.farewell, h.req, h.first, h.st, h.tmr, h.story⟩
      change s.nrefs - 1 = 0 + s.waits + s.lost
      omega
    · change 0 < s.nrefs - 1
      omega
  · rename_i hlast
    obtain ⟨hreq, hreplyl⟩ := idle_of_waits (s := s) (by omega)
    have hlost : s.lost = 0 := by omega
    have hend := @destructor_waiting { s with nrefs := 0 } h.terminated o
    have hidle : Idle { s with nrefs := 0 } :=
      ⟨h.held, h.freed, rfl, hlost, .inl hreq, hreplyl, h.st, h.tmr, h.story⟩
    rw [hend]
    exact hidle.part o

/-- One for an INVITE whose answer is still to come: it is given up. -/
theorem Asleep.giveUp (h : Asleep 0 s) (hreq : s.req = some .invite) (o : SessOutcome) :
    Life (s.memDeref o) := by
  obtain ⟨hreplyl, -, hestablished, hlost⟩ := h.first hreq
  have hwaits : s.waits = 1 := by
    unfold waits
    rw [hreq, hreplyl]
    rfl
  have hnrefs := h.nrefs
  have hend := @destructor_waiting { s with nrefs := 0 } h.terminated o
  have hidle : Idle { s with nrefs := 0 } :=
    ⟨h.held, h.freed, rfl, hlost, .inr hestablished, hreplyl, h.st, h.tmr, h.story⟩
  unfold Sipsess.memDeref
  rw [if_neg (by omega), hend]
  exact hidle.part o

/-- What the BYE leads to. -/
theorem gone_memDeref (hterminated : s.terminated = .ending) (hheld : s.held = false)
    (hnrefs : s.nrefs = 1) (hlost : s.lost = 0) (hparted : s.Parted) (hstory : Story s.told)
    (o : SessOutcome) : Gone (s.memDeref o) := by
  have hend := @destructor_ending { s with nrefs := 0 } hterminated o
  unfold Sipsess.memDeref
  rw [if_neg (by omega), hend]
  exact ⟨rfl, hheld, hlost, hparted, rfl, rfl, rfl, rfl, hstory⟩

theorem Awake.deref (h : Awake s) (o : SessOutcome) : Life (s.deref o) := by
  have hnrefs : ¬ 1 < s.nrefs := by
    rw [h.nrefs]
    exact Nat.lt_irrefl 1
  have hend := @destructor_no { s with held := false, nrefs := 0 } h.terminated o
  unfold Sipsess.deref Sipsess.memDeref
  rw [if_neg hnrefs, hend]
  by_cases hwaits : 0 < ({ s with held := false, nrefs := 0 } : Sipsess).waits
  · apply Life.asleep
    · rw [if_pos hwaits]
      refine ⟨rfl, rfl, h.freed, ?_, h.farewell, h.req, ?_, rfl, rfl, h.heard.story⟩
      · have hlost := h.lost
        change 0 + s.waits = 0 + s.waits + s.lost
        omega
      · intro hreq
        obtain ⟨hreplyl, -, hestablished, hlost⟩ := h.first hreq
        exact ⟨hreplyl, rfl, hestablished, hlost⟩
    · rw [if_pos hwaits]
      exact Nat.lt_of_lt_of_eq hwaits (Nat.zero_add _).symm
  · obtain ⟨hreq, hreplyl⟩ := idle_of_waits (Nat.eq_zero_of_not_pos hwaits)
    have hidle : Idle (Sipsess.stopped { s with held := false, nrefs := 0 }) := by
      refine ⟨rfl, h.freed, ?_, h.lost, .inl hreq, hreplyl, rfl, rfl, h.heard.story⟩
      rw [Nat.pos_iff_ne_zero, not_not] at hwaits
      exact (Nat.zero_add _).trans hwaits
    rw [if_neg hwaits]
    exact hidle.part o

theorem sipsessTerminate_waiting (h : s.terminated = .no) (hwaits : 0 < s.waits) (err : Nat)
    (o : SessOutcome) : s.sipsessTerminate err o =
    { s.stopped with told := s.told ++ [SessTold.closed err] }.deref o := by
  have hwait : s.termwait = (s.stopped, true) := by rw [termwait_eq, decide_eq_true hwaits]
  unfold sipsessTerminate
  rw [if_pos h, hwait]
  rfl

theorem sipsessTerminate_parting (h : s.terminated = .no) (hwaits : ¬ 0 < s.waits) (err : Nat)
    (o : SessOutcome) : s.sipsessTerminate err o =
    { (s.stopped.terminate o).1 with told := s.told ++ [SessTold.closed err] }.deref o := by
  have hwait : s.termwait = (s.stopped, false) := by rw [termwait_eq, decide_eq_false hwaits]
  unfold sipsessTerminate
  rw [if_pos h, hwait]
  rfl

/-- It can be ended, and the user told. -/
structure Standing (s : Sipsess) : Prop where
  terminated : s.terminated = .no
  freed : s.freed = false
  nrefs : s.nrefs = 1
  lost : s.lost = 0
  farewell : s.farewell = none
  req : s.req ≠ some .bye
  first : s.First
  story : ∀ err, Story (s.told ++ [.closed err])

/-- The user lets go when it is told. -/
theorem Standing.sipsessTerminate (h : Standing s) (err : Nat) (o : SessOutcome) :
    Life (s.sipsessTerminate err o) := by
  by_cases hwaits : 0 < s.waits
  · have hmore : 1 < s.stopped.nrefs := by
      change 1 < s.nrefs + s.waits
      rw [h.nrefs]
      omega
    have hnrefs : s.nrefs + s.waits - 1 = s.waits := by
      rw [h.nrefs]
      omega
    rw [sipsessTerminate_waiting h.terminated hwaits]
    unfold Sipsess.deref Sipsess.memDeref
    rw [if_pos hmore]
    apply Life.asleep
    · refine ⟨rfl, rfl, h.freed, ?_, h.farewell, h.req, ?_, rfl, rfl, h.story err⟩
      · have hlost := h.lost
        change s.nrefs + s.waits - 1 = 0 + s.waits + s.lost
        omega
      · intro hreq
        obtain ⟨hreplyl, -, hestablished, hlost⟩ := h.first hreq
        exact ⟨hreplyl, rfl, hestablished, hlost⟩
    · change 0 < s.nrefs + s.waits - 1
      omega
  · obtain ⟨hreq, hreplyl⟩ := idle_of_waits (Nat.eq_zero_of_not_pos hwaits)
    have hnrefs : s.stopped.nrefs = 1 := by
      change s.nrefs + s.waits = 1
      rw [h.nrefs]
      omega
    have hstory := h.story err
    have hended := @ended s.stopped (.inl hreq) o
    rw [sipsessTerminate_parting h.terminated hwaits]
    generalize s.stopped.terminate o = p at hended ⊢
    cases hended with
    | quiet hquiet =>
      apply Life.gone
      apply gone_memDeref
      · rfl
      · rfl
      · exact hnrefs
      · exact h.lost
      · exact fun hest => .inl (hquiet hest)
      · exact hstory
    | sent hsent =>
      apply Life.leaving
      unfold Sipsess.deref Sipsess.memDeref
      rw [if_pos (show 1 < s.stopped.nrefs + 1 by omega)]
      refine ⟨rfl, rfl, h.freed, ?_, h.lost, Option.some_ne_none true, rfl, hreplyl, rfl, rfl,
        hstory⟩
      change s.stopped.nrefs + 1 - 1 = 1
      omega
    | failed =>
      apply Life.gone
      apply gone_memDeref
      · rfl
      · rfl
      · exact hnrefs
      · exact h.lost
      · exact fun _ => .inr (Option.some_ne_none false)
      · exact hstory

theorem Awake.sipsessTerminate (h : Awake s) (err : Nat) (o : SessOutcome) :
    Life (s.sipsessTerminate err o) := by
  apply Standing.sipsessTerminate
  exact ⟨h.terminated, h.freed, h.nrefs, h.lost, h.farewell, h.req, h.first, h.heard.closed⟩

/-! ### The answers to an INVITE -/

theorem tell_no (h : s.terminated = .no) (n : SessTold) :
    s.tell n = { s with told := s.told ++ [n] } := by
  unfold tell
  rw [if_pos h]

theorem tell_ended (h : s.terminated ≠ .no) (n : SessTold) : s.tell n = s := by
  unfold tell
  rw [if_neg h]

theorem negotiate_eq (msg : SessResponse) (o : SessOutcome) (s : Sipsess) :
    ∃ neg err desc, s.negotiate msg o = ({ s with negState := neg }, err, desc) := by
  unfold negotiate
  split
  · split
    · exact ⟨_, _, _, rfl⟩
    · exact ⟨_, _, _, rfl⟩
    · exact ⟨s.negState, _, _, rfl⟩
  · exact ⟨s.negState, _, _, rfl⟩

inductive Reinvited (s : Sipsess) : Sipsess → Prop where
  | unsent (ls : LoopState) : Reinvited s { s with ls := ls }
  | sent (ls : LoopState) (neg : SdpNegState) (hreq : s.req = none) :
      Reinvited s { s with
        ls := ls
        req := some .reinvite
        modifyPending := false
        negState := neg }

theorem reinvited (s : Sipsess) (resetLs : Bool) (o : SessOutcome) :
    Reinvited s (s.reinvite resetLs o).1 := by
  unfold reinvite
  split
  · exact .unsent s.ls
  · rename_i hreq
    have hnone : s.req = none := by
      cases hr : s.req with
      | none => rfl
      | some r =>
        rw [hr] at hreq
        exact absurd rfl hreq
    cases resetLs with
    | false =>
      simp only [Bool.false_eq_true, if_false]
      split
      · exact .sent _ _ hnone
      · exact .unsent s.ls
    | true =>
      simp only [if_true]
      split
      · exact .sent _ _ hnone
      · exact .unsent _

theorem Awake.reinvite (h : Awake s) (resetLs : Bool) (o : SessOutcome) :
    Awake (s.reinvite resetLs o).1 := by
  have hcases := reinvited s resetLs o
  generalize (s.reinvite resetLs o).1 = s' at hcases ⊢
  cases hcases with
  | unsent ls =>
    exact ⟨h.terminated, h.held, h.freed, h.nrefs, h.lost, h.farewell, h.req, h.first, h.heard⟩
  | sent ls neg hreq =>
    refine ⟨h.terminated, h.held, h.freed, h.nrefs, h.lost, h.farewell, ?_, ?_, h.heard⟩
    · intro hbye
      cases hbye
    · intro hinvite
      cases hinvite

theorem Awake.inviteOut (h : Awake s) (err : Nat) (o : SessOutcome) : Life (s.inviteOut err o) := by
  unfold Sipsess.inviteOut
  rw [if_pos h.terminated]
  exact h.sipsessTerminate err o

theorem Awake.inviteProgress (h : Awake s) (hestablished : s.established = false)
    (msg : SessResponse) (o : SessOutcome) : Life (s.inviteProgress msg o) := by
  have htold : Awake { s with told := s.told ++ [.progress] } := by
    refine ⟨h.terminated, h.held, h.freed, h.nrefs, h.lost, h.farewell, h.req, h.first, ?_⟩
    have hheard := h.heard
    change Heard s.established (s.told ++ [.progress])
    rw [hestablished] at hheard ⊢
    exact hheard.progress
  unfold Sipsess.inviteProgress
  rw [tell_no h.terminated]
  simp only
  split
  · exact .awake htold
  · split
    · exact htold.inviteOut _ o
    · split
      · exact htold.inviteOut _ o
      · exact .awake htold

/-- It was answered, of which the user is still to be told. -/
structure Answering (s : Sipsess) : Prop where
  terminated : s.terminated = .no
  held : s.held = true
  freed : s.freed = false
  nrefs : s.nrefs = 1
  lost : s.lost = 0
  farewell : s.farewell = none
  req : s.req = none ∨ s.req = some .reinvite
  established : s.established = true
  heard : Heard false s.told

theorem Answering.reinvite (h : Answering s) (resetLs : Bool) (o : SessOutcome) :
    Answering (s.reinvite resetLs o).1 := by
  have hcases := reinvited s resetLs o
  generalize (s.reinvite resetLs o).1 = s' at hcases ⊢
  cases hcases with
  | unsent ls =>
    exact ⟨h.terminated, h.held, h.freed, h.nrefs, h.lost, h.farewell, h.req, h.established,
      h.heard⟩
  | sent ls neg hreq =>
    exact ⟨h.terminated, h.held, h.freed, h.nrefs, h.lost, h.farewell, .inr rfl, h.established,
      h.heard⟩

theorem not_bye (h : s.req = none ∨ s.req = some .reinvite) : s.req ≠ some .bye := by
  intro hbye
  cases h with
  | inl hnone => cases hnone.symm.trans hbye
  | inr hreinvite => cases hreinvite.symm.trans hbye

theorem first_of_theirs (h : s.req = none ∨ s.req = some .reinvite) : s.First := by
  intro hinvite
  cases h with
  | inl hnone => cases hnone.symm.trans hinvite
  | inr hreinvite => cases hreinvite.symm.trans hinvite

theorem Answering.sipsessTerminate (h : Answering s) (err : Nat) (o : SessOutcome) :
    Life (s.sipsessTerminate err o) := by
  apply Standing.sipsessTerminate
  exact ⟨h.terminated, h.freed, h.nrefs, h.lost, h.farewell, not_bye h.req, first_of_theirs h.req,
    h.heard.closed⟩

theorem Answering.tell (h : Answering s) : Awake (s.tell .established) := by
  rw [tell_no h.terminated]
  refine ⟨h.terminated, h.held, h.freed, h.nrefs, h.lost, h.farewell, not_bye h.req,
    first_of_theirs h.req, ?_⟩
  change Heard s.established (s.told ++ [.established])
  rw [h.established]
  exact h.heard.established

theorem Awake.inviteAccepted (h : Awake s) (hreq : s.req = none)
    (hestablished : s.established = false) (msg : SessResponse) (o : SessOutcome) :
    Life (s.inviteAccepted msg o) := by
  obtain ⟨neg, err, desc, hnegotiate⟩ := negotiate_eq msg o s
  have hneg : Awake { s with negState := neg } :=
    ⟨h.terminated, h.held, h.freed, h.nrefs, h.lost, h.farewell, h.req, h.first, h.heard⟩
  have hheard : Heard false s.told := by
    have hheard := h.heard
    rw [hestablished] at hheard
    exact hheard
  unfold Sipsess.inviteAccepted
  rw [hnegotiate]
  simp only
  split
  · exact h.inviteOut _ o
  · split
    · exact hneg.inviteOut _ o
    · split
      · exact hneg.inviteOut 0 o
      · rw [if_neg (not_not_intro h.terminated)]
        apply Life.awake
        apply Answering.tell
        split
        · apply Answering.reinvite
          exact ⟨h.terminated, h.held, h.freed, h.nrefs, h.lost, h.farewell, .inl hreq, rfl, hheard⟩
        · exact ⟨h.terminated, h.held, h.freed, h.nrefs, h.lost, h.farewell, .inl hreq, rfl, hheard⟩

theorem Awake.inviteRefused (h : Awake s)
    (hfirst : s.replyl = [] ∧ s.st = false ∧ s.established = false) (msg : SessResponse)
    (o : SessOutcome) : Life (s.inviteRefused msg o) := by
  unfold Sipsess.inviteRefused
  rw [if_neg (not_not_intro h.terminated)]
  split
  · exact h.sipsessTerminate _ o
  · split
    · split
      · exact h.sipsessTerminate _ o
      · unfold Sipsess.invite
        simp only
        by_cases hsent : o.request = 0
        · rw [if_pos hsent]
          apply Life.awake
          refine ⟨h.terminated, h.held, h.freed, h.nrefs, h.lost, h.farewell, ?_, ?_, h.heard⟩
          · intro hbye
            cases hbye
          · exact fun _ => ⟨hfirst.1, hfirst.2.1, hfirst.2.2, h.lost⟩
        · obtain ⟨err, herr⟩ := Nat.exists_eq_succ_of_ne_zero hsent
          rw [if_neg hsent, herr]
          apply Awake.sipsessTerminate
          exact ⟨h.terminated, h.held, h.freed, h.nrefs, h.lost, h.farewell, h.req, h.first,
            h.heard⟩
    · exact h.sipsessTerminate 0 o

theorem loops_eq (scode : Nat) (s : Sipsess) :
    ∃ ls looping, s.loops scode = ({ s with ls := ls }, looping) ∧
      (scode < 200 → looping = false ∧ ls = s.ls) := by
  refine ⟨(s.ls.loops scode).2, (s.ls.loops scode).1, rfl, fun hscode => ?_⟩
  have hearly := @Sipreg.loops_early s.ls (s.ls.loops scode).2 scode (s.ls.loops scode).1 rfl
    (by omega)
  exact ⟨hearly.1, hearly.2 hscode⟩

/-- A response that leaves the request open. -/
def Provisional (err : Nat) (msg : Option SessResponse) : Prop :=
  err = 0 ∧ ∃ m, msg = some m ∧ m.scode < 200

theorem answered_cases (err : Nat) (msg : Option SessResponse) (s : Sipsess) :
    (Provisional err msg ∧ s.answered err msg = s) ∨
      (¬ Provisional err msg ∧ s.answered err msg = { s with req := none }) := by
  unfold answered
  by_cases hprovisional : Provisional err msg
  · left
    obtain ⟨herr, m, rfl, hscode⟩ := hprovisional
    refine ⟨⟨herr, m, rfl, hscode⟩, ?_⟩
    rw [if_neg]
    rintro (hne | hfinal)
    · exact hne herr
    · have hle : 200 ≤ m.scode := of_decide_eq_true hfinal
      omega
  · right
    refine ⟨hprovisional, ?_⟩
    rw [if_pos]
    by_cases herr : err = 0
    · right
      cases msg with
      | none => rfl
      | some m =>
        apply decide_eq_true
        apply Nat.le_of_not_lt
        exact fun hscode => hprovisional ⟨herr, m, rfl, hscode⟩
    · exact .inl herr

/-- `s` is as the response finds it. -/
theorem Awake.inviteResp (h : Awake s)
    (hfirst : s.replyl = [] ∧ s.st = false ∧ s.established = false) {err : Nat}
    {msg : Option SessResponse} (hreq : Provisional err msg ∨ s.req = none) (o : SessOutcome) :
    Life (s.inviteResp err msg o) := by
  unfold Sipsess.inviteResp
  cases msg with
  | none => exact h.inviteOut err o
  | some m =>
    obtain ⟨ls, looping, hloops, -⟩ := loops_eq m.scode s
    have hls : Awake { s with ls := ls } :=
      ⟨h.terminated, h.held, h.freed, h.nrefs, h.lost, h.farewell, h.req, h.first, h.heard⟩
    simp only [hloops]
    split
    · exact h.inviteOut err o
    · split
      · exact hls.inviteOut 0 o
      · split
        · exact hls.inviteProgress hfirst.2.2 m o
        · rename_i hfinal
          have hnone : s.req = none := by
            apply hreq.resolve_left
            rintro ⟨-, m', hm', hscode⟩
            cases hm'
            exact hfinal hscode
          split
          · exact hls.inviteAccepted hnone hfirst.2.2 m o
          · exact hls.inviteRefused hfirst m o

/-! ### The answers to a re-INVITE -/

theorem Awake.reinviteOut (h : Awake s) (err : Nat) (o : SessOutcome) :
    Life (s.reinviteOut err o) := by
  unfold Sipsess.reinviteOut
  rw [if_neg (not_not_intro h.terminated)]
  split
  · exact h.sipsessTerminate err o
  · split
    · exact .awake (h.reinvite true o)
    · apply Life.awake
      exact ⟨h.terminated, h.held, h.freed, h.nrefs, h.lost, h.farewell, h.req, h.first, h.heard⟩

theorem Awake.reinviteAccepted (h : Awake s) (msg : SessResponse) (o : SessOutcome) :
    Life (s.reinviteAccepted msg o) := by
  obtain ⟨neg, err, desc, hnegotiate⟩ := negotiate_eq msg o s
  have hneg : ∀ neg, Awake { s with negState := neg } := fun neg =>
    ⟨h.terminated, h.held, h.freed, h.nrefs, h.lost, h.farewell, h.req, h.first, h.heard⟩
  unfold Sipsess.reinviteAccepted
  rw [hnegotiate]
  simp only
  split
  · exact (hneg neg).reinviteOut err o
  · split
    · exact (hneg neg).reinviteOut _ o
    · exact (hneg _).reinviteOut 0 o

theorem Awake.reinviteRefused (h : Awake s) (msg : SessResponse) (o : SessOutcome) :
    Life (s.reinviteRefused msg o) := by
  have hdone : Awake { s with negState := .done } :=
    ⟨h.terminated, h.held, h.freed, h.nrefs, h.lost, h.farewell, h.req, h.first, h.heard⟩
  unfold Sipsess.reinviteRefused
  simp only
  rw [if_neg (not_not_intro h.terminated)]
  split
  · split
    · exact hdone.reinviteOut _ o
    · have hagain := hdone.reinvite false o
      generalize Sipsess.reinvite false o { s with negState := .done } = p at hagain ⊢
      obtain ⟨s', err⟩ := p
      cases err with
      | zero => exact .awake hagain
      | succ err => exact hagain.reinviteOut _ o
  · split
    · exact hdone.sipsessTerminate 0 o
    · split
      · apply Life.awake
        exact ⟨h.terminated, h.held, h.freed, h.nrefs, h.lost, h.farewell, h.req, h.first,
          h.heard⟩
      · exact hdone.reinviteOut 0 o

theorem Awake.reinviteResp (h : Awake s) (err : Nat) (msg : Option SessResponse)
    (o : SessOutcome) : Life (s.reinviteResp err msg o) := by
  unfold Sipsess.reinviteResp
  cases msg with
  | none => exact h.reinviteOut err o
  | some m =>
    obtain ⟨ls, looping, hloops, -⟩ := loops_eq m.scode s
    have hls : Awake { s with ls := ls } :=
      ⟨h.terminated, h.held, h.freed, h.nrefs, h.lost, h.farewell, h.req, h.first, h.heard⟩
    simp only [hloops]
    split
    · exact h.reinviteOut err o
    · split
      · exact hls.reinviteOut 0 o
      · split
        · exact .awake hls
        · split
          · exact hls.reinviteAccepted m o
          · exact hls.reinviteRefused m o

theorem Awake.response (h : Awake s) {s' : Sipsess} {err : Nat} {msg : Option SessResponse}
    (hstep : s.response err msg o = some s') : Life s' := by
  have hnone : Awake { s with req := none } := by
    refine ⟨h.terminated, h.held, h.freed, h.nrefs, h.lost, h.farewell, ?_, ?_, h.heard⟩
    · intro hbye
      cases hbye
    · intro hinvite
      cases hinvite
  unfold Sipsess.response at hstep
  cases hreq : s.req with
  | none =>
    rw [hreq] at hstep
    cases hstep
  | some r =>
    rw [hreq] at hstep
    cases r with
    | invite =>
      obtain ⟨hreplyl, hst, hestablished, -⟩ := h.first hreq
      obtain rfl := Option.some.inj hstep
      rcases answered_cases err msg s with ⟨hprovisional, hanswered⟩ | ⟨-, hanswered⟩
      · rw [hanswered]
        exact h.inviteResp ⟨hreplyl, hst, hestablished⟩ (.inl hprovisional) o
      · rw [hanswered]
        exact hnone.inviteResp ⟨hreplyl, hst, hestablished⟩ (.inr rfl) o
    | reinvite =>
      obtain rfl := Option.some.inj hstep
      rcases answered_cases err msg s with ⟨-, hanswered⟩ | ⟨-, hanswered⟩
      · rw [hanswered]
        exact h.reinviteResp err msg o
      · rw [hanswered]
        exact hnone.reinviteResp err msg o
    | bye => exact absurd hreq h.req

/-! ### What the other side and the user ask for -/

theorem Awake.cancelHandler (h : Awake s) (o : SessOutcome) : Life (s.cancelHandler o) := by
  unfold Sipsess.cancelHandler
  apply Awake.sipsessTerminate
  refine ⟨h.terminated, h.held, h.freed, h.nrefs, h.lost, h.farewell, h.req, ?_, h.heard⟩
  intro hinvite
  obtain ⟨hreplyl, -, hestablished, hlost⟩ := h.first hinvite
  exact ⟨hreplyl, rfl, hestablished, hlost⟩

theorem Awake.byeHandler (h : Awake s) (o : SessOutcome) : Life (s.byeHandler o) := by
  unfold Sipsess.byeHandler
  simp only
  rw [if_neg (not_not_intro h.terminated)]
  apply Awake.sipsessTerminate
  refine ⟨h.terminated, h.held, h.freed, h.nrefs, h.lost, h.farewell, h.req, ?_, h.heard⟩
  intro hinvite
  obtain ⟨hreplyl, -, hestablished, hlost⟩ := h.first hinvite
  exact ⟨hreplyl, rfl, hestablished, hlost⟩

/-- A 2xx opens a wait for its ACK where no INVITE of this side is open. -/
theorem Awake.reply2xx (h : Awake s) {invite : Bool}
    (hinvite : invite = true → s.req ≠ some .invite) (cseq : Nat) (sdp desc : Bool)
    (o : SessOutcome) : Awake (s.reply2xx invite cseq sdp desc o).1 := by
  unfold Sipsess.reply2xx
  split
  · exact h
  · simp only
    cases invite with
    | true =>
      have hfirst : ∀ s' : Sipsess, s'.req = s.req → s'.First := by
        intro s' hs' hreq
        exact absurd (hs'.symm.trans hreq) (hinvite rfl)
      split
      · exact ⟨h.terminated, h.held, h.freed, h.nrefs, h.lost, h.farewell, h.req, hfirst _ rfl,
          h.heard⟩
      · exact ⟨h.terminated, h.held, h.freed, h.nrefs, h.lost, h.farewell, h.req, hfirst _ rfl,
          h.heard⟩
    | false =>
      split
      · exact ⟨h.terminated, h.held, h.freed, h.nrefs, h.lost, h.farewell, h.req, h.first,
          h.heard⟩
      · exact ⟨h.terminated, h.held, h.freed, h.nrefs, h.lost, h.farewell, h.req, h.first,
          h.heard⟩

theorem Awake.targetRefresh (h : Awake s) (invite sdp : Bool) (cseq : Nat) (o : SessOutcome) :
    Awake (s.targetRefresh invite sdp cseq o) := by
  have hneg : ∀ neg, Awake { s with negState := neg } := fun neg =>
    ⟨h.terminated, h.held, h.freed, h.nrefs, h.lost, h.farewell, h.req, h.first, h.heard⟩
  have hquiet : ∀ {s' : Sipsess}, Awake s' →
      Awake { s' with desc := false, modifyPending := false, tmr := false } := fun h' =>
    ⟨h'.terminated, h'.held, h'.freed, h'.nrefs, h'.lost, h'.farewell, h'.req, h'.first, h'.heard⟩
  unfold Sipsess.targetRefresh
  rw [if_neg (not_not_intro h.terminated)]
  split
  · exact h
  · split
    · exact h
    · rename_i hpending
      have hinvite : invite = true → s.req ≠ some .invite := by
        intro hinvite hreq
        apply hpending
        rw [hreq]
        exact ⟨hinvite, rfl⟩
      split
      · exact h
      · by_cases hoffer : invite = true ∨ sdp = true
        · simp only [if_pos hoffer]
          split
          · exact hneg .done
          · have hoffered := hneg (if sdp = true then .remoteOffer else .localOffer)
            exact hquiet (hoffered.reply2xx hinvite cseq sdp _ o)
        · simp only [if_neg hoffer]
          split
          · exact hneg .done
          · exact hquiet (h.reply2xx hinvite cseq sdp false o)

/-- Where a 2xx waits for its ACK, the INVITE was the other side's. -/
theorem Awake.theirs (h : Awake s) {cseq : Nat} (hcseq : cseq ∈ s.replyl) :
    s.req = none ∨ s.req = some .reinvite := by
  cases hreq : s.req with
  | none => exact .inl rfl
  | some r =>
    cases r with
    | invite =>
      rw [(h.first hreq).1] at hcseq
      cases hcseq
    | reinvite => exact .inr rfl
    | bye => exact absurd hreq h.req

theorem theirs_reinvite (h : s.req = none ∨ s.req = some .reinvite) (resetLs : Bool)
    (o : SessOutcome) :
    (s.reinvite resetLs o).1.req = none ∨ (s.reinvite resetLs o).1.req = some .reinvite := by
  have hcases := reinvited s resetLs o
  generalize (s.reinvite resetLs o).1 = s' at hcases ⊢
  cases hcases with
  | unsent ls => exact h
  | sent ls neg hreq => exact .inr rfl

/-- The first ACK makes the session. -/
theorem Awake.acked (h : Awake s) (htheirs : s.req = none ∨ s.req = some .reinvite) (err : Nat)
    (o : SessOutcome) :
    Life (if s.established = true then s
      else if err ≠ 0 then { s with established := true }.sipsessTerminate err o
      else { s with established := true }.tell .established) := by
  split
  · exact .awake h
  · rename_i hunanswered
    have hheard := h.heard
    rw [Bool.not_eq_true] at hunanswered
    rw [hunanswered] at hheard
    have hanswering : Answering { s with established := true } :=
      ⟨h.terminated, h.held, h.freed, h.nrefs, h.lost, h.farewell, htheirs, rfl, hheard⟩
    split
    · exact hanswering.sipsessTerminate err o
    · exact .awake hanswering.tell

theorem Awake.ackHandler (h : Awake s) (cseq : Nat) (sdp : Bool) (o : SessOutcome) :
    Life (s.ackHandler cseq sdp o) := by
  unfold Sipsess.ackHandler
  split
  · exact .awake h
  · rename_i hcseq
    have htheirs := h.theirs (not_not.mp hcseq)
    have hacked : ∀ neg, Awake { s with replyl := s.replyl.erase cseq, negState := neg } :=
      fun neg => ⟨h.terminated, h.held, h.freed, h.nrefs, h.lost, h.farewell, h.req,
        first_of_theirs htheirs, h.heard⟩
    simp only
    rw [if_neg (not_not_intro h.terminated)]
    split
    · exact (hacked s.negState).sipsessTerminate eproto o
    · generalize (if s.negState = .localOffer then
        Sipsess.handle o { s with replyl := s.replyl.erase cseq } else 0) = err
      by_cases hoffer : s.negState = .localOffer
      · rw [if_pos hoffer]
        split
        · apply Awake.acked ((hacked .done).reinvite true o)
          apply theirs_reinvite
          exact htheirs
        · exact (hacked .done).acked htheirs err o
      · rw [if_neg hoffer]
        split
        · apply Awake.acked ((hacked s.negState).reinvite true o)
          apply theirs_reinvite
          exact htheirs
        · exact (hacked s.negState).acked htheirs err o

/-- The reply that timed out is still in the list, so that the session does not end. -/
theorem replyTmr_eq {cseq : Nat} (hcseq : cseq ∈ s.replyl) (o : SessOutcome) :
    s.replyTmr cseq o = { s with
      replyl := s.replyl.erase cseq
      lost := if s.terminated ≠ .no ∧ s.replyl.erase cseq = [] then s.lost + 1 else s.lost } := by
  unfold replyTmr
  rw [if_pos (List.ne_nil_of_mem hcseq)]
  simp only
  split <;> rfl

theorem Awake.replyTmr (h : Awake s) {cseq : Nat} (hcseq : cseq ∈ s.replyl) (o : SessOutcome) :
    Awake (s.replyTmr cseq o) := by
  have htheirs := h.theirs hcseq
  rw [replyTmr_eq hcseq]
  refine ⟨h.terminated, h.held, h.freed, h.nrefs, ?_, h.farewell, h.req, first_of_theirs htheirs,
    h.heard⟩
  change (if s.terminated ≠ .no ∧ s.replyl.erase cseq = [] then s.lost + 1 else s.lost) = 0
  rw [if_neg (fun hended => hended.1 h.terminated)]
  exact h.lost

theorem Awake.modify (h : Awake s) (desc : Bool) (o : SessOutcome) : Awake (s.modify desc o) := by
  have hdesc : Awake { s with desc := desc } :=
    ⟨h.terminated, h.held, h.freed, h.nrefs, h.lost, h.farewell, h.req, h.first, h.heard⟩
  unfold Sipsess.modify
  split
  · exact h
  · simp only
    split
    · exact ⟨h.terminated, h.held, h.freed, h.nrefs, h.lost, h.farewell, h.req, h.first, h.heard⟩
    · exact hdesc.reinvite true o

theorem bye_cases (resetLs : Bool) (o : SessOutcome) (s : Sipsess) :
    ∃ ls req err, s.bye resetLs o = ({ s with ls := ls, req := req }, err) := by
  by_cases hreq : s.req.isSome = true
  · refine ⟨s.ls, s.req, eproto, ?_⟩
    unfold bye
    rw [if_pos hreq]
  · rw [Bool.not_eq_true, Option.isSome_eq_false_iff, Option.isNone_iff_eq_none] at hreq
    rw [bye_eq hreq]
    split
    · exact ⟨_, _, _, rfl⟩
    · exact ⟨_, s.req, _, rfl⟩

theorem Awake.abort (h : Awake s) (o : SessOutcome) : Life (s.abort o) := by
  obtain ⟨ls, req, err, hbye⟩ := bye_cases true o s
  unfold Sipsess.abort
  rw [hbye]
  apply Life.gone
  apply gone_memDeref
  · rfl
  · rfl
  · exact h.nrefs
  · exact h.lost
  · exact fun _ => .inr (Option.some_ne_none _)
  · exact h.heard.story

theorem enabled {p : Prop} [Decidable p] {t t' : Sipsess}
    (h : (if p then some t else none) = some t') : p ∧ t = t' := by
  obtain ⟨hp, hsome⟩ := Option.ite_none_right_eq_some.mp h
  exact ⟨hp, Option.some.inj hsome⟩

theorem disabled {p : Prop} [Decidable p] {t t' : Sipsess}
    (h : (if p then none else some t) = some t') : ¬ p ∧ t = t' := by
  obtain ⟨hp, hsome⟩ := Option.ite_none_left_eq_some.mp h
  exact ⟨hp, Option.some.inj hsome⟩

theorem Awake.step (h : Awake s) {a : SessAction} {s' : Sipsess} (hstep : s.step a = some s') :
    Life s' := by
  have hopen : s.st = true → s.First ∧ s.req ≠ some .invite := by
    intro hst
    refine ⟨h.first, fun hreq => ?_⟩
    rw [(h.first hreq).2.1] at hst
    cases hst
  cases a with
  | response err msg o => exact h.response hstep
  | cancel o =>
    obtain ⟨-, rfl⟩ := enabled hstep
    exact h.cancelHandler o
  | byeCame o =>
    obtain ⟨-, rfl⟩ := disabled hstep
    exact h.byeHandler o
  | refresh invite sdp cseq o =>
    obtain ⟨-, rfl⟩ := disabled hstep
    exact .awake (h.targetRefresh invite sdp cseq o)
  | ack cseq sdp o =>
    obtain ⟨-, rfl⟩ := disabled hstep
    exact h.ackHandler cseq sdp o
  | replyTmr cseq o =>
    obtain ⟨hcseq, rfl⟩ := enabled hstep
    exact .awake (h.replyTmr hcseq o)
  | tmr o =>
    obtain ⟨-, rfl⟩ := enabled hstep
    apply Life.awake
    apply Awake.reinvite
    exact ⟨h.terminated, h.held, h.freed, h.nrefs, h.lost, h.farewell, h.req, h.first, h.heard⟩
  | progress desc o =>
    obtain ⟨⟨-, hst⟩, hprogress⟩ := Option.ite_none_right_eq_some.mp hstep
    split at hprogress
    · obtain rfl := Option.some.inj hprogress
      apply Life.awake
      exact ⟨h.terminated, h.held, h.freed, h.nrefs, h.lost, h.farewell, h.req, h.first, h.heard⟩
    · obtain rfl := Option.some.inj hprogress
      apply Life.awake
      refine ⟨h.terminated, h.held, h.freed, h.nrefs, h.lost, h.farewell, h.req, ?_, h.heard⟩
      exact fun hreq => absurd hreq (hopen hst).2
  | answer sdp desc o =>
    obtain ⟨⟨-, hst⟩, rfl⟩ := enabled hstep
    exact .awake (h.reply2xx (fun _ => (hopen hst).2) s.cseq sdp desc o)
  | reject =>
    obtain ⟨⟨-, hst⟩, rfl⟩ := enabled hstep
    apply Life.awake
    refine ⟨h.terminated, h.held, h.freed, h.nrefs, h.lost, h.farewell, h.req, ?_, h.heard⟩
    exact fun hreq => absurd hreq (hopen hst).2
  | modify desc o =>
    obtain ⟨-, rfl⟩ := enabled hstep
    exact .awake (h.modify desc o)
  | deref o =>
    obtain ⟨-, rfl⟩ := enabled hstep
    exact h.deref o
  | abort o =>
    obtain ⟨-, rfl⟩ := enabled hstep
    exact h.abort o

/-! ### What an ended session still waits for -/

theorem Asleep.ended {n : Nat} (h : Asleep n s) : s.terminated ≠ .no := by
  rw [h.terminated]
  intro hno
  cases hno

theorem Asleep.inviteOut (h : Asleep 1 s) (err : Nat) (o : SessOutcome) :
    Life (s.inviteOut err o) := by
  unfold Sipsess.inviteOut
  rw [if_neg h.ended]
  exact h.memDeref o

theorem Asleep.inviteProgress (h : Asleep 0 s) (hpos : 0 < s.nrefs) (hreq : s.req = some .invite)
    (msg : SessResponse) (o : SessOutcome) : Life (s.inviteProgress msg o) := by
  have hout : ∀ err, Life (s.inviteOut err o) := by
    intro err
    unfold Sipsess.inviteOut
    rw [if_neg h.ended]
    exact h.giveUp hreq o
  unfold Sipsess.inviteProgress
  rw [tell_ended h.ended]
  simp only
  split
  · exact .asleep h hpos
  · split
    · exact hout _
    · split
      · exact hout _
      · exact .asleep h hpos

theorem Asleep.inviteAccepted (h : Asleep 1 s) (hreq : s.req = none) (msg : SessResponse)
    (o : SessOutcome) : Life (s.inviteAccepted msg o) := by
  obtain ⟨neg, err, desc, hnegotiate⟩ := negotiate_eq msg o s
  have hneg : ∀ neg established,
      Asleep 1 { s with negState := neg, established := established } := fun _ _ =>
    ⟨h.terminated, h.held, h.freed, h.nrefs, h.farewell, h.req, first_of_theirs (.inl hreq), h.st,
      h.tmr, h.story⟩
  unfold Sipsess.inviteAccepted
  rw [hnegotiate]
  simp only
  split
  · exact h.inviteOut _ o
  · split
    · exact (hneg neg s.established).inviteOut _ o
    · split
      · exact (hneg neg s.established).inviteOut 0 o
      · rw [if_pos h.ended]
        exact (hneg _ true).memDeref o

theorem Asleep.reinviteOut (h : Asleep 1 s) (err : Nat) (o : SessOutcome) :
    Life (s.reinviteOut err o) := by
  unfold Sipsess.reinviteOut
  rw [if_pos h.ended]
  exact h.memDeref o

theorem Asleep.reinviteAccepted (h : Asleep 1 s) (msg : SessResponse) (o : SessOutcome) :
    Life (s.reinviteAccepted msg o) := by
  obtain ⟨neg, err, desc, hnegotiate⟩ := negotiate_eq msg o s
  have hneg : ∀ neg, Asleep 1 { s with negState := neg } := fun _ =>
    ⟨h.terminated, h.held, h.freed, h.nrefs, h.farewell, h.req, h.first, h.st, h.tmr, h.story⟩
  unfold Sipsess.reinviteAccepted
  rw [hnegotiate]
  simp only
  split
  · exact (hneg neg).reinviteOut err o
  · split
    · exact (hneg neg).reinviteOut _ o
    · apply Asleep.reinviteOut
      exact hneg _

theorem Asleep.reinviteRefused (h : Asleep 1 s) (msg : SessResponse) (o : SessOutcome) :
    Life (s.reinviteRefused msg o) := by
  have hdone : Asleep 1 { s with negState := .done } :=
    ⟨h.terminated, h.held, h.freed, h.nrefs, h.farewell, h.req, h.first, h.st, h.tmr, h.story⟩
  unfold Sipsess.reinviteRefused
  simp only
  rw [if_pos h.ended]
  exact hdone.reinviteOut 0 o

/-- The request that it waited for is done with. -/
theorem Asleep.requestDone (h : Asleep 0 s) {r : SessRequest} (hreq : s.req = some r) :
    Asleep 1 { s with req := none } := by
  have hwaits : s.waits = 1 + ({ s with req := none } : Sipsess).waits := by
    unfold waits
    rw [hreq]
    simp
  refine ⟨h.terminated, h.held, h.freed, ?_, h.farewell, ?_, first_of_theirs (.inl rfl), h.st,
    h.tmr, h.story⟩
  · have hnrefs := h.nrefs
    change s.nrefs = 1 + _ + s.lost
    omega
  · intro hbye
    cases hbye

theorem Asleep.inviteResp (h : Asleep 0 s) (hpos : 0 < s.nrefs) (hreq : s.req = some .invite)
    (err : Nat) (msg : Option SessResponse) (o : SessOutcome) :
    Life ((s.answered err msg).inviteResp err msg o) := by
  have hdone := h.requestDone hreq
  unfold Sipsess.inviteResp
  rcases answered_cases err msg s with ⟨⟨rfl, m, rfl, hscode⟩, hanswered⟩ | ⟨hfinal, hanswered⟩
  · obtain ⟨ls, looping, hloops, hquiet⟩ := loops_eq m.scode s
    obtain ⟨rfl, rfl⟩ := hquiet hscode
    rw [hanswered]
    simp only [hloops]
    rw [if_neg (not_not_intro rfl), if_neg Bool.false_ne_true, if_pos hscode]
    exact h.inviteProgress hpos hreq m o
  · rw [hanswered]
    cases msg with
    | none => exact hdone.inviteOut err o
    | some m =>
      obtain ⟨ls, looping, hloops, -⟩ := loops_eq m.scode { s with req := none }
      have hls : Asleep 1 { s with req := none, ls := ls } :=
        ⟨hdone.terminated, hdone.held, hdone.freed, hdone.nrefs, hdone.farewell, hdone.req,
          hdone.first, hdone.st, hdone.tmr, hdone.story⟩
      simp only [hloops]
      split
      · exact hdone.inviteOut err o
      · rename_i herr
        have hscode : ¬ m.scode < 200 :=
          fun hscode => hfinal ⟨not_not.mp herr, m, rfl, hscode⟩
        rw [if_neg hscode]
        split
        · exact hls.inviteOut 0 o
        · split
          · exact hls.inviteAccepted rfl m o
          · unfold Sipsess.inviteRefused
            rw [if_pos h.ended]
            exact hls.memDeref o

theorem Asleep.reinviteResp (h : Asleep 0 s) (hpos : 0 < s.nrefs)
    (hreq : s.req = some .reinvite) (err : Nat) (msg : Option SessResponse) (o : SessOutcome) :
    Life ((s.answered err msg).reinviteResp err msg o) := by
  have hdone := h.requestDone hreq
  unfold Sipsess.reinviteResp
  rcases answered_cases err msg s with ⟨⟨rfl, m, rfl, hscode⟩, hanswered⟩ | ⟨hfinal, hanswered⟩
  · obtain ⟨ls, looping, hloops, hquiet⟩ := loops_eq m.scode s
    obtain ⟨rfl, rfl⟩ := hquiet hscode
    rw [hanswered]
    simp only [hloops]
    rw [if_neg (not_not_intro rfl), if_neg Bool.false_ne_true, if_pos hscode]
    exact .asleep h hpos
  · rw [hanswered]
    cases msg with
    | none => exact hdone.reinviteOut err o
    | some m =>
      obtain ⟨ls, looping, hloops, -⟩ := loops_eq m.scode { s with req := none }
      have hls : Asleep 1 { s with req := none, ls := ls } :=
        ⟨hdone.terminated, hdone.held, hdone.freed, hdone.nrefs, hdone.farewell, hdone.req,
          hdone.first, hdone.st, hdone.tmr, hdone.story⟩
      simp only [hloops]
      split
      · exact hdone.reinviteOut err o
      · rename_i herr
        have hscode : ¬ m.scode < 200 :=
          fun hscode => hfinal ⟨not_not.mp herr, m, rfl, hscode⟩
        rw [if_neg hscode]
        split
        · exact hls.reinviteOut 0 o
        · split
          · exact hls.reinviteAccepted m o
          · exact hls.reinviteRefused m o

theorem waits_erase {cseq : Nat} (hcseq : cseq ∈ s.replyl) :
    s.waits = (if s.replyl.erase cseq = [] then 1 else 0) +
      ({ s with replyl := s.replyl.erase cseq } : Sipsess).waits := by
  have hwaiting : s.replyl.isEmpty = false := by
    rw [List.isEmpty_eq_false_iff]
    exact List.ne_nil_of_mem hcseq
  unfold waits
  rw [hwaiting]
  by_cases hlast : s.replyl.erase cseq = []
  · rw [if_pos hlast]
    simp [hlast, Nat.add_comm]
  · rw [if_neg hlast]
    simp [hlast]

theorem Asleep.first_of_mem {n cseq : Nat} (h : Asleep n s) (hcseq : cseq ∈ s.replyl) :
    s.req ≠ some .invite := by
  intro hreq
  rw [(h.first hreq).1] at hcseq
  cases hcseq

/-- The last ACK gives the session back, and it counts as made. -/
theorem Asleep.ackHandler (h : Asleep 0 s) (hpos : 0 < s.nrefs) (cseq : Nat) (sdp : Bool)
    (o : SessOutcome) : Life (s.ackHandler cseq sdp o) := by
  unfold Sipsess.ackHandler
  split
  · exact .asleep h hpos
  · rename_i hcseq
    have hmem := not_not.mp hcseq
    have hnrefs := h.nrefs
    have hwaits := waits_erase hmem
    simp only
    rw [if_pos h.ended]
    split
    · rename_i hlast
      apply Asleep.memDeref
      refine ⟨h.terminated, h.held, h.freed, ?_, h.farewell, h.req,
        fun hreq => absurd hreq (h.first_of_mem hmem), h.st, h.tmr, h.story⟩
      rw [if_pos hlast] at hwaits
      change s.nrefs = 1 + ({ s with replyl := s.replyl.erase cseq } : Sipsess).waits + s.lost
      omega
    · rename_i hmore
      refine .asleep ⟨h.terminated, h.held, h.freed, ?_, h.farewell, h.req,
        fun hreq => absurd hreq (h.first_of_mem hmem), h.st, h.tmr, h.story⟩ hpos
      rw [if_neg hmore] at hwaits
      change s.nrefs = 0 + ({ s with replyl := s.replyl.erase cseq } : Sipsess).waits + s.lost
      omega

/-- Where no ACK comes, its reference is not given back. -/
theorem Asleep.replyTmr (h : Asleep 0 s) {cseq : Nat} (hcseq : cseq ∈ s.replyl)
    (o : SessOutcome) : Asleep 0 (s.replyTmr cseq o) := by
  have hnrefs := h.nrefs
  have hwaits := waits_erase hcseq
  rw [replyTmr_eq hcseq]
  refine ⟨h.terminated, h.held, h.freed, ?_, h.farewell, h.req,
    fun hreq => absurd hreq (h.first_of_mem hcseq), h.st, h.tmr, h.story⟩
  change s.nrefs = 0 + ({ s with replyl := s.replyl.erase cseq } : Sipsess).waits +
    if s.terminated ≠ .no ∧ s.replyl.erase cseq = [] then s.lost + 1 else s.lost
  by_cases hlast : s.replyl.erase cseq = []
  · rw [if_pos ⟨h.ended, hlast⟩]
    rw [if_pos hlast] at hwaits
    omega
  · rw [if_neg fun hended => hlast hended.2]
    rw [if_neg hlast] at hwaits
    omega

/-- What still happens to a session that its user has let go of. -/
inductive Late : SessAction → Prop where
  | response (err : Nat) (msg : Option SessResponse) (o : SessOutcome) : Late (.response err msg o)
  | byeCame (o : SessOutcome) : Late (.byeCame o)
  | refresh (invite sdp : Bool) (cseq : Nat) (o : SessOutcome) : Late (.refresh invite sdp cseq o)
  | ack (cseq : Nat) (sdp : Bool) (o : SessOutcome) : Late (.ack cseq sdp o)
  | replyTmr (cseq : Nat) (o : SessOutcome) : Late (.replyTmr cseq o)

theorem late_of_step (hheld : s.held = false) (hst : s.st = false) (htmr : s.tmr = false)
    {a : SessAction} {s' : Sipsess} (hstep : s.step a = some s') : Late a := by
  rw [← Bool.not_eq_true] at hheld hst htmr
  cases a with
  | response err msg o => exact .response err msg o
  | cancel o => exact absurd (enabled hstep).1 hst
  | byeCame o => exact .byeCame o
  | refresh invite sdp cseq o => exact .refresh invite sdp cseq o
  | ack cseq sdp o => exact .ack cseq sdp o
  | replyTmr cseq o => exact .replyTmr cseq o
  | tmr o => exact absurd (enabled hstep).1 htmr
  | progress desc o => exact absurd (Option.ite_none_right_eq_some.mp hstep).1.1 hheld
  | answer sdp desc o => exact absurd (enabled hstep).1.1 hheld
  | reject => exact absurd (enabled hstep).1.1 hheld
  | modify desc o => exact absurd (enabled hstep).1.1 hheld
  | deref o => exact absurd (enabled hstep).1 hheld
  | abort o => exact absurd (enabled hstep).1 hheld

theorem Asleep.step (h : Asleep 0 s) (hpos : 0 < s.nrefs) {a : SessAction} {s' : Sipsess}
    (hstep : s.step a = some s') : Life s' := by
  cases late_of_step h.held h.st h.tmr hstep with
  | response err msg o =>
    unfold Sipsess.step Sipsess.response at hstep
    cases hreq : s.req with
    | none =>
      simp only [hreq] at hstep
      cases hstep
    | some r =>
      simp only [hreq] at hstep
      cases r with
      | invite =>
        obtain rfl := Option.some.inj hstep
        exact h.inviteResp hpos hreq err msg o
      | reinvite =>
        obtain rfl := Option.some.inj hstep
        exact h.reinviteResp hpos hreq err msg o
      | bye => exact absurd hreq h.req
  | byeCame o =>
    obtain ⟨-, rfl⟩ := disabled hstep
    unfold Sipsess.byeHandler
    simp only
    rw [if_pos h.ended]
    exact .asleep ⟨h.terminated, h.held, h.freed, h.nrefs, h.farewell, h.req, h.first, h.st,
      h.tmr, h.story⟩ hpos
  | refresh invite sdp cseq o =>
    obtain ⟨-, rfl⟩ := disabled hstep
    unfold Sipsess.targetRefresh
    rw [if_pos h.ended]
    exact .asleep h hpos
  | ack cseq sdp o =>
    obtain ⟨-, rfl⟩ := disabled hstep
    exact h.ackHandler hpos cseq sdp o
  | replyTmr cseq o =>
    obtain ⟨hcseq, rfl⟩ := enabled hstep
    apply Life.asleep (h.replyTmr hcseq o)
    rw [replyTmr_eq hcseq]
    exact hpos

theorem Leaving.ended (h : Leaving s) : s.terminated ≠ .no := by
  rw [h.terminated]
  intro hno
  cases hno

theorem Leaving.memDeref (h : Leaving s) {ls : LoopState} {req : Option SessRequest}
    (o : SessOutcome) : Life ({ s with ls := ls, req := req }.memDeref o) := by
  apply Life.gone
  apply gone_memDeref
  · exact h.terminated
  · exact h.held
  · exact h.nrefs
  · exact h.lost
  · exact fun _ => .inr h.farewell
  · exact h.story

theorem Leaving.byeResp (h : Leaving s) (err : Nat) (msg : Option SessResponse)
    (o : SessOutcome) : Life ((s.answered err msg).byeResp err msg o) := by
  unfold Sipsess.byeResp
  rcases answered_cases err msg s with ⟨⟨rfl, m, rfl, hscode⟩, hanswered⟩ | ⟨hfinal, hanswered⟩
  · obtain ⟨ls, looping, hloops, hquiet⟩ := loops_eq m.scode s
    obtain ⟨rfl, rfl⟩ := hquiet hscode
    rw [hanswered]
    simp only [hloops]
    rw [if_neg (not_not_intro rfl), if_neg Bool.false_ne_true, if_pos hscode]
    exact .leaving h
  · rw [hanswered]
    cases msg with
    | none => exact h.memDeref o
    | some m =>
      obtain ⟨ls, looping, hloops, -⟩ := loops_eq m.scode { s with req := none }
      simp only [hloops]
      split
      · exact h.memDeref o
      · rename_i herr
        have hscode : ¬ m.scode < 200 :=
          fun hscode => hfinal ⟨not_not.mp herr, m, rfl, hscode⟩
        rw [if_neg hscode]
        split
        · exact h.memDeref o
        · split
          · exact h.memDeref o
          · split
            · -- once more, with credentials
              have hbye := @bye_eq { s with req := none, ls := ls } rfl false o
              rw [hbye]
              by_cases hsent : o.bye = 0
              · rw [if_pos hsent]
                exact .leaving ⟨h.terminated, h.held, h.freed, h.nrefs, h.lost, h.farewell, rfl,
                  h.replyl, h.st, h.tmr, h.story⟩
              · obtain ⟨e, he⟩ := Nat.exists_eq_succ_of_ne_zero hsent
                rw [if_neg hsent, he]
                exact h.memDeref o
            · exact h.memDeref o

theorem Leaving.step (h : Leaving s) {a : SessAction} {s' : Sipsess}
    (hstep : s.step a = some s') : Life s' := by
  have hnone : ∀ cseq, cseq ∉ s.replyl := by
    intro cseq hmem
    rw [h.replyl] at hmem
    cases hmem
  cases late_of_step h.held h.st h.tmr hstep with
  | response err msg o =>
    unfold Sipsess.step Sipsess.response at hstep
    simp only [h.req] at hstep
    obtain rfl := Option.some.inj hstep
    exact h.byeResp err msg o
  | byeCame o =>
    obtain ⟨-, rfl⟩ := disabled hstep
    unfold Sipsess.byeHandler
    simp only
    rw [if_pos h.ended]
    exact .leaving ⟨h.terminated, h.held, h.freed, h.nrefs, h.lost, h.farewell, h.req, h.replyl,
      h.st, h.tmr, h.story⟩
  | refresh invite sdp cseq o =>
    obtain ⟨-, rfl⟩ := disabled hstep
    unfold Sipsess.targetRefresh
    rw [if_pos h.ended]
    exact .leaving h
  | ack cseq sdp o =>
    obtain ⟨-, rfl⟩ := disabled hstep
    unfold Sipsess.ackHandler
    rw [if_pos (hnone cseq)]
    exact .leaving h
  | replyTmr cseq o => exact absurd (enabled hstep).1 (hnone cseq)

theorem Gone.step (h : Gone s) {a : SessAction} {s' : Sipsess} : s.step a ≠ some s' := by
  intro hstep
  cases late_of_step h.held h.st h.tmr hstep with
  | response err msg o =>
    unfold Sipsess.step Sipsess.response at hstep
    simp only [h.req] at hstep
    cases hstep
  | byeCame o => exact (disabled hstep).1 h.freed
  | refresh invite sdp cseq o => exact (disabled hstep).1 h.freed
  | ack cseq sdp o => exact (disabled hstep).1 h.freed
  | replyTmr cseq o =>
    have hmem := (enabled hstep).1
    rw [h.replyl] at hmem
    cases hmem

theorem Life.step (h : Life s) {a : SessAction} {s' : Sipsess} (hstep : s.step a = some s') :
    Life s' := by
  cases h with
  | awake h => exact h.step hstep
  | asleep h hpos => exact h.step hpos hstep
  | leaving h => exact h.step hstep
  | gone h => exact absurd hstep h.step

theorem life (h : machine.Reachable s) : Life s := by
  apply h.invariant
  · rintro s (⟨offered, rfl⟩ | ⟨cseq, sdp, rfl⟩)
    · apply Life.awake
      refine ⟨rfl, rfl, rfl, rfl, rfl, rfl, ?_, fun _ => ⟨rfl, rfl, rfl, rfl⟩, 0, rfl⟩
      intro hbye
      cases hbye
    · apply Life.awake
      exact ⟨rfl, rfl, rfl, rfl, rfl, rfl, not_bye (.inl rfl), first_of_theirs (.inl rfl), 0, rfl⟩
  · intro s a s' hlife hstep
    exact hlife.step hstep

theorem reachable_connected (offered : Bool) : machine.Reachable (connected offered) :=
  Machine.Reachable.of_start (Or.inl ⟨offered, rfl⟩)

theorem reachable_accepted (cseq : Nat) (sdp : Bool) : machine.Reachable (accepted cseq sdp) :=
  Machine.Reachable.of_start (Or.inr ⟨cseq, sdp, rfl⟩)

/-! ### What holds of every session -/

/-- A session goes when its user has let go and nothing is waited for, and not before. -/
theorem freed_iff (h : machine.Reachable s) :
    s.freed = true ↔ s.held = false ∧ s.req = none ∧ s.replyl = [] ∧ s.lost = 0 := by
  constructor
  · intro hfreed
    cases life h with
    | awake h => cases h.freed.symm.trans hfreed
    | asleep h hpos => cases h.freed.symm.trans hfreed
    | leaving h => cases h.freed.symm.trans hfreed
    | gone h => exact ⟨h.held, h.req, h.replyl, h.lost⟩
  · rintro ⟨hheld, hreq, hreplyl, hlost⟩
    cases life h with
    | awake h => cases h.held.symm.trans hheld
    | asleep h hpos =>
      have hnrefs := h.nrefs
      have hwaits := waits_none hreq hreplyl
      omega
    | leaving h => cases h.req.symm.trans hreq
    | gone h => exact h.freed

/-- One that was answered, hung up and whose BYE was answered. -/
theorem freed_iff_hung_up : ∃ s, machine.Reachable s ∧ s.told = [.established] ∧
    (s.freed = true ↔ s.held = false ∧ s.req = none ∧ s.replyl = [] ∧ s.lost = 0) := by
  have hlog : (machine.run (connected true)
      [.response 0 (some ⟨200, true, true, false⟩) ⟨0, 0, false, 0, 0, 0, 0, 0, 0⟩,
        .deref ⟨0, 0, false, 0, 0, 0, 0, 0, 0⟩,
        .response 0 (some ⟨200, false, false, false⟩) ⟨0, 0, false, 0, 0, 0, 0, 0, 0⟩]).map told =
      some [.established] := by decide
  obtain ⟨s, hrun, htold⟩ := Option.map_eq_some_iff.mp hlog
  have hreach := (reachable_connected true).run hrun
  exact ⟨s, hreach, htold, freed_iff hreach⟩

/-- The handlers of the user are called in their order: `closeh` comes at most once and last. -/
theorem told_order (h : machine.Reachable s) :
    Story s.told ∧ (s.held = true → ∀ err, .closed err ∉ s.told) := by
  cases life h with
  | awake h => exact ⟨h.heard.story, fun _ => h.heard.open_⟩
  | asleep h hpos => exact ⟨h.story, fun hheld => by cases h.held.symm.trans hheld⟩
  | leaving h => exact ⟨h.story, fun hheld => by cases h.held.symm.trans hheld⟩
  | gone h => exact ⟨h.story, fun hheld => by cases h.held.symm.trans hheld⟩

/-- One that rings, is answered and ended by the other side. -/
theorem told_order_ended : ∃ s, machine.Reachable s ∧
    s.told = [.progress, .established, .closed econnreset] ∧
    Story s.told ∧ (s.held = true → ∀ err, .closed err ∉ s.told) := by
  have hlog : (machine.run (connected true)
      [.response 0 (some ⟨180, false, true, false⟩) ⟨0, 0, false, 0, 0, 0, 0, 0, 0⟩,
        .response 0 (some ⟨200, true, true, false⟩) ⟨0, 0, false, 0, 0, 0, 0, 0, 0⟩,
        .byeCame ⟨0, 0, false, 0, 0, 0, 0, 0, 0⟩]).map told =
      some [.progress, .established, .closed econnreset] := by decide
  obtain ⟨s, hrun, htold⟩ := Option.map_eq_some_iff.mp hlog
  have hreach := (reachable_connected true).run hrun
  exact ⟨s, hreach, htold, told_order hreach⟩

/-- A session that was made is not given up without a BYE, the other side's or one that was
tried. -/
theorem says_goodbye (h : machine.Reachable s) (hfreed : s.freed = true)
    (hestablished : s.established = true) : s.peerterm = true ∨ s.farewell ≠ none := by
  cases life h with
  | awake h => cases h.freed.symm.trans hfreed
  | asleep h hpos => cases h.freed.symm.trans hfreed
  | leaving h => cases h.freed.symm.trans hfreed
  | gone h => exact h.parted hestablished

/-- A call that came in and was answered, whose ACK comes only after it was hung up. -/
theorem says_goodbye_late : ∃ s, machine.Reachable s ∧
    (s.peerterm = true ∨ s.farewell ≠ none) := by
  have hlog : (machine.run (accepted 1 true)
      [.answer true true ⟨0, 0, false, 0, 0, 0, 0, 0, 0⟩,
        .deref ⟨0, 0, false, 0, 0, 0, 0, 0, 0⟩,
        .ack 1 false ⟨0, 0, false, 0, 0, 0, 0, 0, 1⟩]).map
        (fun s => (s.freed, s.established)) = some (true, true) := by decide
  obtain ⟨s, hrun, hend⟩ := Option.map_eq_some_iff.mp hlog
  obtain ⟨hfreed, hestablished⟩ := Prod.mk.inj hend
  have hreach := (reachable_accepted 1 true).run hrun
  exact ⟨s, hreach, says_goodbye hreach hfreed hestablished⟩

/-! ### An ACK that does not come -/

/-- A session that has ended and waits for nothing, and yet is there. -/
structure Stuck (s : Sipsess) : Prop where
  asleep : Asleep 0 s
  req : s.req = none
  replyl : s.replyl = []
  lost : 0 < s.lost

theorem Stuck.step (h : Stuck s) {a : SessAction} {s' : Sipsess} (hstep : s.step a = some s') :
    Stuck s' := by
  have hasleep := h.asleep
  have hnone : ∀ cseq, cseq ∉ s.replyl := by
    intro cseq hmem
    rw [h.replyl] at hmem
    cases hmem
  cases late_of_step hasleep.held hasleep.st hasleep.tmr hstep with
  | response err msg o =>
    unfold Sipsess.step Sipsess.response at hstep
    simp only [h.req] at hstep
    cases hstep
  | byeCame o =>
    obtain ⟨-, rfl⟩ := disabled hstep
    unfold Sipsess.byeHandler
    simp only
    rw [if_pos hasleep.ended]
    exact ⟨⟨hasleep.terminated, hasleep.held, hasleep.freed, hasleep.nrefs, hasleep.farewell,
      hasleep.req, hasleep.first, hasleep.st, hasleep.tmr, hasleep.story⟩, h.req, h.replyl, h.lost⟩
  | refresh invite sdp cseq o =>
    obtain ⟨-, rfl⟩ := disabled hstep
    unfold Sipsess.targetRefresh
    rw [if_pos hasleep.ended]
    exact h
  | ack cseq sdp o =>
    obtain ⟨-, rfl⟩ := disabled hstep
    unfold Sipsess.ackHandler
    rw [if_pos (hnone cseq)]
    exact h
  | replyTmr cseq o => exact absurd (enabled hstep).1 (hnone cseq)

/-- No ACK ever comes to the only thing that a session still waits for: its timer takes the reply
out of the list and leaves, so that the session is never given back. -/
theorem unacked (h : machine.Reachable s) (hheld : s.held = false) (hreq : s.req = none)
    {cseq : Nat} (hreplyl : s.replyl = [cseq]) {s' s'' : Sipsess}
    (hstep : machine.step s (.replyTmr cseq o) = some s') {as : List SessAction}
    (hrun : machine.run s' as = some s'') : s''.freed = false := by
  have hmem : cseq ∈ s.replyl := by
    rw [hreplyl]
    exact List.mem_singleton_self cseq
  have hlast : s.replyl.erase cseq = [] := by
    rw [hreplyl]
    exact List.erase_cons_head ..
  have hstuck : Stuck s' := by
    obtain ⟨-, rfl⟩ := enabled hstep
    cases life h with
    | awake hawake => cases hawake.held.symm.trans hheld
    | asleep hasleep hpos =>
      refine ⟨hasleep.replyTmr hmem o, ?_, ?_, ?_⟩
      · rw [replyTmr_eq hmem]
        exact hreq
      · rw [replyTmr_eq hmem]
        exact hlast
      · rw [replyTmr_eq hmem]
        change 0 < if s.terminated ≠ .no ∧ s.replyl.erase cseq = [] then s.lost + 1 else s.lost
        rw [if_pos ⟨hasleep.ended, hlast⟩]
        exact Nat.succ_pos s.lost
    | leaving hleaving => cases hleaving.replyl.symm.trans hreplyl
    | gone hgone => cases hgone.replyl.symm.trans hreplyl
  have hrest : Stuck s'' := by
    apply Machine.run_preserves _ hstuck hrun
    intro t a t' ht hstep'
    exact Stuck.step ht hstep'
  exact hrest.asleep.freed

theorem unacked_hung_up : ∃ s, machine.Reachable s ∧ s.held = false ∧ s.freed = false := by
  have hlog : (machine.run (accepted 1 true)
      [.answer true true ⟨0, 0, false, 0, 0, 0, 0, 0, 0⟩,
        .deref ⟨0, 0, false, 0, 0, 0, 0, 0, 0⟩]).map (fun s => (s.held, s.req, s.replyl)) =
      some (false, none, [1]) := by decide
  obtain ⟨s, hrun, hend⟩ := Option.map_eq_some_iff.mp hlog
  obtain ⟨hheld, hend⟩ := Prod.mk.inj hend
  obtain ⟨hreq, hreplyl⟩ := Prod.mk.inj hend
  have hreach := (reachable_accepted 1 true).run hrun
  have hmem : 1 ∈ s.replyl := by
    rw [hreplyl]
    exact List.mem_singleton_self 1
  have hstep : machine.step s (.replyTmr 1 ⟨0, 0, false, 0, 0, 0, 0, 0, 0⟩) =
      some (s.replyTmr 1 ⟨0, 0, false, 0, 0, 0, 0, 0, 0⟩) := if_pos hmem
  have hrun' : machine.run (s.replyTmr 1 ⟨0, 0, false, 0, 0, 0, 0, 0, 0⟩) [] = some _ := rfl
  refine ⟨_, hreach.step hstep, ?_, unacked hreach hheld hreq hreplyl hstep hrun'⟩
  rw [replyTmr_eq hmem]
  exact hheld

/-! ### A caller that hangs up before the answer -/

theorem terminate_farewell (h : s.farewell = none) (o : SessOutcome) :
    (s.terminate o).1.farewell = none ↔ s.established = false ∨ s.peerterm = true := by
  unfold terminate
  simp only
  split
  · rename_i hquiet
    refine ⟨fun _ => ?_, fun _ => h⟩
    simpa using hquiet
  · rename_i hopen
    have hneither : ¬ (s.established = false ∨ s.peerterm = true) := by simpa using hopen
    split
    · exact ⟨fun hsome => (Option.some_ne_none true hsome).elim, fun hor => (hneither hor).elim⟩
    · exact ⟨fun hsome => (Option.some_ne_none false hsome).elim, fun hor => (hneither hor).elim⟩

/-- The last reference is given back. -/
theorem Asleep.memDeref_farewell (h : Asleep 1 s) (hwaits : s.waits = 0) (hlost : s.lost = 0)
    (o : SessOutcome) :
    (s.memDeref o).farewell = none ↔ s.established = false ∨ s.peerterm = true := by
  have hnrefs := h.nrefs
  have hend := @destructor_waiting { s with nrefs := 0 } h.terminated o
  have hfarewell := @terminate_farewell { s with nrefs := 0 } h.farewell o
  unfold Sipsess.memDeref
  rw [if_neg (by omega), hend]
  split
  · exact hfarewell
  · exact hfarewell

theorem Asleep.inviteOut_farewell (h : Asleep 1 s) (hwaits : s.waits = 0) (hlost : s.lost = 0)
    (hestablished : s.established = false) (err : Nat) (o : SessOutcome) :
    (s.inviteOut err o).farewell = none := by
  unfold Sipsess.inviteOut
  rw [if_neg h.ended]
  exact (h.memDeref_farewell hwaits hlost o).mpr (.inl hestablished)

theorem Asleep.inviteAccepted_farewell (h : Asleep 1 s) (hreq : s.req = none)
    (hreplyl : s.replyl = []) (hlost : s.lost = 0) (hestablished : s.established = false)
    (hoffer : s.negState = .localOffer) (m : SessResponse) (o : SessOutcome) :
    (s.inviteAccepted m o).farewell = none ↔
      m.sdp = true ∨ o.dialog ≠ 0 ∨ o.ack ≠ 0 ∨ s.peerterm = true := by
  have hwaits : s.waits = 0 := waits_none hreq hreplyl
  have hneg : ∀ neg established,
      Asleep 1 { s with negState := neg, established := established } := fun _ _ =>
    ⟨h.terminated, h.held, h.freed, h.nrefs, h.farewell, h.req, first_of_theirs (.inl hreq), h.st,
      h.tmr, h.story⟩
  have hhandle : s.handle o = enosys := by
    unfold handle
    rw [if_neg h.ended]
  unfold Sipsess.inviteAccepted
  by_cases hdialog : o.dialog ≠ 0
  · rw [if_pos hdialog]
    have hnone := h.inviteOut_farewell hwaits hlost hestablished o.dialog o
    exact ⟨fun _ => .inr (.inl hdialog), fun _ => hnone⟩
  · rw [if_neg hdialog]
    by_cases hsdp : m.sdp = true
    · -- what stands for `answerh` refuses
      have hnegotiate : s.negotiate m o = ({ s with negState := .done }, enosys, false) := by
        unfold negotiate
        rw [if_pos hsdp, hoffer, hhandle]
      have herr : enosys ||| o.ack ≠ 0 := by
        intro hzero
        exact absurd (Nat.or_eq_zero_iff.mp hzero).1 (by decide)
      have hnone :=
        (hneg .done s.established).inviteOut_farewell hwaits hlost hestablished (enosys ||| o.ack) o
      rw [hnegotiate]
      simp only
      rw [if_pos herr]
      exact ⟨fun _ => .inl hsdp, fun _ => hnone⟩
    · have hnegotiate : s.negotiate m o = (s, 0, false) := by
        unfold negotiate
        rw [if_neg hsdp]
      rw [hnegotiate]
      simp only [Nat.zero_or]
      by_cases hack : o.ack ≠ 0
      · rw [if_pos hack]
        have hnone := h.inviteOut_farewell hwaits hlost hestablished o.ack o
        exact ⟨fun _ => .inr (.inr (.inl hack)), fun _ => hnone⟩
      · have hopen : ¬ (s.negState = .none ∧ m.sdp = false) := by
          rw [hoffer]
          rintro ⟨hnone, -⟩
          cases hnone
        rw [if_neg hack, if_neg hopen, if_pos h.ended]
        have hfarewell := (hneg (if s.negState = SdpNegState.remoteOffer ∧ false = true then .done
          else s.negState) true).memDeref_farewell hwaits hlost o
        rw [hfarewell]
        constructor
        · rintro (hmade | hpeer)
          · cases hmade
          · exact .inr (.inr (.inr hpeer))
        · rintro (hoffered | hdialog' | hack' | hpeer)
          · exact absurd hoffered hsdp
          · exact absurd hdialog' hdialog
          · exact absurd hack' hack
          · exact .inr hpeer

/-- Where the user has hung up, a 2xx with an answer to the offer is acknowledged and its session
dropped without a BYE: `answerh` was taken off, and what stands for it refuses the answer. -/
theorem hung_up (h : machine.Reachable s) (hheld : s.held = false) (hreq : s.req = some .invite)
    (hoffer : s.negState = .localOffer) {m : SessResponse}
    (hscode : 200 ≤ m.scode ∧ m.scode < 300) {s' : Sipsess}
    (hstep : machine.step s (.response 0 (some m) o) = some s') :
    s'.farewell = none ↔ m.sdp = true ∨ o.dialog ≠ 0 ∨ o.ack ≠ 0 ∨ s.peerterm = true := by
  cases life h with
  | awake hawake => cases hawake.held.symm.trans hheld
  | leaving hleaving => cases hleaving.req.symm.trans hreq
  | gone hgone => cases hgone.req.symm.trans hreq
  | asleep hasleep hpos =>
    obtain ⟨hreplyl, -, hestablished, hlost⟩ := hasleep.first hreq
    have hdone := hasleep.requestDone hreq
    have hresp : s' = (s.answered 0 (some m)).inviteResp 0 (some m) o := by
      change s.response 0 (some m) o = some s' at hstep
      unfold Sipsess.response at hstep
      rw [hreq] at hstep
      exact (Option.some.inj hstep).symm
    have hanswered : s.answered 0 (some m) = { s with req := none } := by
      rcases answered_cases 0 (some m) s with ⟨⟨-, m', hm', hprovisional⟩, -⟩ | ⟨-, hanswered⟩
      · cases hm'
        omega
      · exact hanswered
    have hloops : (s.ls.loops m.scode).1 = false := (Sipreg.loops_early rfl hscode.2).1
    rw [hresp, hanswered]
    unfold Sipsess.inviteResp Sipsess.loops
    simp only [hloops]
    rw [if_neg (not_not_intro rfl), if_neg Bool.false_ne_true, if_neg (by omega),
      if_pos hscode.2]
    apply Asleep.inviteAccepted_farewell
    · exact ⟨hdone.terminated, hdone.held, hdone.freed, hdone.nrefs, hdone.farewell, hdone.req,
        hdone.first, hdone.st, hdone.tmr, hdone.story⟩
    · rfl
    · exact hreplyl
    · exact hlost
    · exact hestablished
    · exact hoffer

theorem hung_up_answered : ∃ s s' : Sipsess, machine.Reachable s ∧
    machine.step s (.response 0 (some ⟨200, true, true, false⟩) ⟨0, 0, false, 0, 0, 0, 0, 0, 0⟩) =
      some s' ∧ s'.farewell = none := by
  have hlog : (machine.run (connected true) [.deref ⟨0, 0, false, 0, 0, 0, 0, 0, 0⟩]).map
      (fun s => (s.held, s.req, s.negState)) = some (false, some .invite, .localOffer) := by decide
  obtain ⟨s, hrun, hend⟩ := Option.map_eq_some_iff.mp hlog
  obtain ⟨hheld, hend⟩ := Prod.mk.inj hend
  obtain ⟨hreq, hoffer⟩ := Prod.mk.inj hend
  have hreach := (reachable_connected true).run hrun
  have hsome : (s.response 0 (some ⟨200, true, true, false⟩)
      ⟨0, 0, false, 0, 0, 0, 0, 0, 0⟩).isSome = true := by
    unfold response
    rw [hreq]
    rfl
  obtain ⟨s', hstep⟩ := Option.isSome_iff_exists.mp hsome
  refine ⟨s, s', hreach, hstep, ?_⟩
  exact (hung_up hreach hheld hreq hoffer (by decide) hstep).mpr (.inl rfl)

end Sipsess

end SimplePhone.Re
