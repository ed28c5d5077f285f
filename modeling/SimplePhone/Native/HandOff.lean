import SimplePhone.Native.Workers
import SimplePhone.Transition.Fifo

/-! How a command reaches the event loop. `remain_run` appends it to the work list
of `re->async`; a worker thread takes it from there and writes it to the pipe of
the message queue, whose reader is `re_main`. When `remain_run` fails, most
commands run in place, on the thread that issued them. -/
namespace SimplePhone.Native.HandOff

open Transition

/-- A command with its position in the order of issue. -/
structure Command where
  seq : Nat
  work : Work
deriving DecidableEq

inductive Thread where
  | reMain
  | caller
deriving DecidableEq

/-- A handler was entered. -/
structure Run where
  command : Command
  thread : Thread
deriving DecidableEq

/-- What the event loop is in the middle of. -/
inductive Activity where
  | event
  | worker
deriving DecidableEq

structure State where
  /-- The worker threads of `re->async`, once it is allocated. -/
  async : Option Nat
  /-- `workl`, oldest first. -/
  workl : List Command
  /-- Taken by a worker thread that has not written to the pipe yet. -/
  held : List Command
  /-- The pipe of the message queue. -/
  mqueue : List Command
  reMain : Option Activity
  /-- The handler runs on the thread that issues commands. -/
  direct : Bool
  issued : List Command
  ran : List Run
deriving DecidableEq

/-- `init_libre` has run; `re_thread_async_init(1)` may have failed. -/
def State.initial (async : Bool) : State where
  async := if async then some 1 else none
  workl := []
  held := []
  mqueue := []
  reMain := none
  direct := false
  issued := []
  ran := []

/-- `RE_THREAD_WORKERS` -/
def reThreadWorkers : Nat := 4

/-! ### The JNI functions -/

/-- The commands given to `remain_run_or_direct`; the others report the failure. -/
def orDirect : Work → Bool
  | .register | .reregister _ | .timeoutHangup => false
  | .unregister | .makecall _ | .answer | .endcall | .dtmf _ | .mute _ => true

/-- The commands that copy a string or wait for the event loop first, and return
when that fails. -/
def mayGiveUp : Work → Bool
  | .register | .reregister _ | .makecall _ => true
  | _ => false

inductive Outcome where
  | gaveUp
  /-- `remain_run` returned an error -/
  | failed
  | queued
deriving DecidableEq

namespace State

/-- `re_thread_async_main` allocates a pool of its own when there is none. -/
def reAsync (c : Command) (s : State) : State :=
  { s with async := s.async.or (some reThreadWorkers), workl := s.workl ++ [c] }

def issue (w : Work) (outcome : Outcome) (s : State) : State :=
  let c : Command := ⟨s.issued.length, w⟩
  let s := { s with issued := s.issued ++ [c] }
  match outcome with
  | .gaveUp => s
  | .queued => s.reAsync c
  | .failed => if orDirect w then { s with direct := true, ran := s.ran ++ [⟨c, .caller⟩] } else s

end State

inductive Action where
  /-- a JNI call on the thread that issues commands -/
  | issue (w : Work) (outcome : Outcome)
  /-- `remain_run(timeout_hangup_worker, NULL)` on the watchdog thread, which tries
  again later when it fails -/
  | watchdog (queued : Bool)
  /-- the handler that runs in place returns -/
  | returned
  /-- a worker thread takes the oldest work -/
  | take
  /-- a worker thread pushes the work it holds; a full pipe loses it -/
  | push (n : Nat) (written : Bool)
  /-- `re_main` reads a message and enters its handler -/
  | queueh
  /-- `re_main` enters an event handler, which may get `re_thread_async_init` done -/
  | event (init : Bool)
  /-- the handler on `re_main` returns -/
  | finish
deriving DecidableEq

def step (s : State) : Action → Option State
  | .issue w outcome =>
      if s.direct ∨ w = .timeoutHangup ∨ (outcome = .gaveUp ∧ mayGiveUp w = false) then none
      else some (s.issue w outcome)
  | .watchdog queued => some (s.issue .timeoutHangup (if queued then .queued else .failed))
  | .returned => if s.direct then some { s with direct := false } else none
  | .take =>
      match s.workl with
      | [] => none
      | c :: rest =>
          if s.held.length < s.async.getD 0 then
            some { s with workl := rest, held := s.held ++ [c] }
          else none
  | .push n written =>
      match s.held[n]? with
      | none => none
      | some c => some { s with
          held := s.held.eraseIdx n
          mqueue := if written then s.mqueue ++ [c] else s.mqueue }
  | .queueh =>
      match s.reMain, s.mqueue with
      | none, c :: rest => some { s with
          reMain := some .worker
          mqueue := rest
          ran := s.ran ++ [⟨c, .reMain⟩] }
      | _, _ => none
  | .event init =>
      if s.reMain = none then some { s with
        reMain := some .event
        async := if init then s.async.or (some 1) else s.async }
      else none
  | .finish => if s.reMain = none then none else some { s with reMain := none }

def machine : Machine State Action where
  start s := ∃ async, s = .initial async
  step := step

/-! ### The hand-off is a queue -/

/-- The two stages as one queue; the head of the pipe is next. -/
def State.fifo (s : State) : Fifo Command where
  pushed := s.issued
  waiting := s.mqueue ++ s.held ++ s.workl
  taken := s.ran.map Run.command

/-- The command is not run in place. -/
def Queued : Action → Prop
  | .issue w outcome => outcome = .failed → orDirect w = false
  | _ => True

/-- Works also reach the pipe in the order in which they were taken. -/
def Orderly : Action → Prop
  | .push n _ => n = 0
  | a => Queued a

instance (a : Action) : Decidable (Queued a) := by
  unfold Queued
  split <;> infer_instance

instance (a : Action) : Decidable (Orderly a) := by
  unfold Orderly
  split <;> infer_instance

theorem Orderly.queued {a : Action} (h : Orderly a) : Queued a := by
  cases a with
  | push n written => trivial
  | _ => exact h

variable {s t : State}

theorem State.fifo_reAsync (c : Command) (s : State) :
    (s.reAsync c).fifo = { s.fifo with waiting := s.fifo.waiting ++ [c] } := by
  simp [fifo, reAsync]

/-- A command that is not enqueued is a push that is lost at once. -/
theorem State.fifo_issue {w : Work} {outcome : Outcome}
    (h : outcome = .failed → orDirect w = false) (s : State) :
    ∃ bs, Fifo.machine.run s.fifo bs = some (s.issue w outcome).fifo := by
  cases outcome with
  | gaveUp => exact ⟨_, Fifo.run_push_lose s.fifo ⟨s.issued.length, w⟩⟩
  | failed =>
    refine ⟨_, (Fifo.run_push_lose s.fifo ⟨s.issued.length, w⟩).trans ?_⟩
    simp only [issue, h rfl]
    rfl
  | queued =>
    refine ⟨_, (Fifo.run_push s.fifo ⟨s.issued.length, w⟩).trans ?_⟩
    simp only [issue, fifo_reAsync]
    rfl

theorem step_refines {a : Action} (ha : Orderly a) (hstep : step s a = some t) :
    ∃ bs, Fifo.machine.run s.fifo bs = some t.fifo := by
  cases a with
  | issue w outcome =>
    simp only [step] at hstep
    split at hstep
    · cases hstep
    · cases hstep
      exact s.fifo_issue ha
  | watchdog queued =>
    cases hstep
    exact s.fifo_issue fun _ => rfl
  | returned =>
    simp only [step] at hstep
    split at hstep
    · cases hstep
      exact ⟨[], rfl⟩
    · cases hstep
  | take =>
    obtain ⟨async, workl, held, mqueue, reMain, direct, issued, ran⟩ := s
    cases workl with
    | nil => cases hstep
    | cons c rest =>
      simp only [step] at hstep
      split at hstep
      · cases hstep
        exact ⟨[], by simp [State.fifo]⟩
      · cases hstep
  | push n written =>
    cases ha
    obtain ⟨async, workl, held, mqueue, reMain, direct, issued, ran⟩ := s
    cases held with
    | nil => cases hstep
    | cons c rest =>
      cases hstep
      cases written with
      | true => exact ⟨[], by simp [State.fifo]⟩
      | false =>
        refine ⟨_, (Fifo.run_lose _ mqueue.length).trans ?_⟩
        simp [State.fifo, List.eraseIdx_append_of_length_le]
  | queueh =>
    obtain ⟨async, workl, held, mqueue, reMain, direct, issued, ran⟩ := s
    cases reMain with
    | some activity => cases hstep
    | none =>
      cases mqueue with
      | nil => cases hstep
      | cons c rest =>
        cases hstep
        exact ⟨[.take], by simp [State.fifo, Machine.run, Fifo.machine, Fifo.step]⟩
  | event init =>
    simp only [step] at hstep
    split at hstep
    · cases hstep
      exact ⟨[], rfl⟩
    · cases hstep
  | finish =>
    simp only [step] at hstep
    split at hstep
    · cases hstep
    · cases hstep
      exact ⟨[], rfl⟩

/-! ### Order and confinement -/

/-- The commands run so far. -/
structure Disciplined (s : State) : Prop where
  once : (s.ran.map Run.command).Nodup
  inOrder : ((s.ran.map Run.command).map Command.seq).Pairwise (· < ·)
  confined : ∀ r ∈ s.ran, r.thread = .reMain
  exclusive : s.reMain.isSome → s.direct = false

/-- The position of a command is what it is numbered with. -/
def Numbered (s : State) : Prop := s.issued.map Command.seq = List.range s.issued.length

/-- No handler was entered outside of the event loop. -/
structure Confined (s : State) : Prop where
  direct : s.direct = false
  ran : ∀ r ∈ s.ran, r.thread = .reMain

structure Invariant (s : State) : Prop where
  refines : Fifo.machine.Reachable s.fifo
  numbered : Numbered s
  confined : Confined s

theorem Invariant.disciplined (h : Invariant s) : Disciplined s := by
  have hissued : s.fifo.pushed.Pairwise fun c d => c.seq < d.seq := by
    have hrange : (s.issued.map Command.seq).Pairwise (· < ·) := by
      rw [h.numbered]
      exact List.pairwise_lt_range
    exact List.pairwise_map.mp hrange
  have hran : (s.ran.map Run.command).Pairwise fun c d => c.seq < d.seq :=
    Fifo.taken_pairwise h.refines hissued
  refine ⟨?_, ?_, h.confined.ran, fun _ => h.confined.direct⟩
  · apply hran.imp
    rintro c _ hlt rfl
    exact Nat.lt_irrefl _ hlt
  · exact List.pairwise_map.mpr hran

theorem Numbered.issue (h : Numbered s) (w : Work) (outcome : Outcome) :
    Numbered (s.issue w outcome) := by
  have hissued : (s.issue w outcome).issued = s.issued ++ [⟨s.issued.length, w⟩] := by
    cases outcome with
    | gaveUp => rfl
    | queued => rfl
    | failed =>
      simp only [State.issue]
      split <;> rfl
  unfold Numbered at h ⊢
  simp [hissued, h, List.range_succ]

theorem Confined.issue (h : Confined s) {w : Work} {outcome : Outcome}
    (hq : outcome = .failed → orDirect w = false) : Confined (s.issue w outcome) := by
  cases outcome with
  | gaveUp => exact ⟨h.direct, h.ran⟩
  | queued => exact ⟨h.direct, h.ran⟩
  | failed =>
    simp only [State.issue, hq rfl]
    exact ⟨h.direct, h.ran⟩

/-- What a step other than the issue of a command can change. -/
structure Frame (s t : State) : Prop where
  issued : t.issued = s.issued
  direct : t.direct = true → s.direct = true
  ran : ∀ r ∈ t.ran, r ∈ s.ran ∨ r.thread = .reMain
  async : s.async.isSome → t.async = s.async
  held : t.held.length ≤ max s.held.length (s.async.getD 0)

theorem step_frame {a : Action} (hstep : step s a = some t) :
    (∃ w outcome, t = s.issue w outcome ∧ (Queued a → outcome = .failed → orDirect w = false)) ∨
      Frame s t := by
  have hheld : s.held.length ≤ max s.held.length (s.async.getD 0) := Nat.le_max_left _ _
  cases a with
  | issue w outcome =>
    simp only [step] at hstep
    split at hstep
    · cases hstep
    · cases hstep
      exact .inl ⟨w, outcome, rfl, fun h => h⟩
  | watchdog queued =>
    cases hstep
    exact .inl ⟨_, _, rfl, fun _ _ => rfl⟩
  | returned =>
    simp only [step] at hstep
    split at hstep
    · cases hstep
      exact .inr ⟨rfl, fun h => absurd h (by simp), fun r hr => .inl hr, fun _ => rfl, hheld⟩
    · cases hstep
  | take =>
    simp only [step] at hstep
    split at hstep
    · cases hstep
    · split at hstep
      next hroom =>
        cases hstep
        refine .inr ⟨rfl, id, fun r hr => .inl hr, fun _ => rfl, ?_⟩
        simp only [List.length_append, List.length_singleton]
        omega
      next => cases hstep
  | push n written =>
    simp only [step] at hstep
    split at hstep
    · cases hstep
    · cases hstep
      exact .inr ⟨rfl, id, fun r hr => .inl hr, fun _ => rfl,
        Nat.le_trans (List.length_eraseIdx_le s.held n) hheld⟩
  | queueh =>
    simp only [step] at hstep
    split at hstep
    · cases hstep
      refine .inr ⟨rfl, id, fun r hr => ?_, fun _ => rfl, hheld⟩
      rcases List.mem_append.mp hr with hold | hnew
      · exact .inl hold
      · rw [List.mem_singleton.mp hnew]
        exact .inr rfl
    · cases hstep
  | event init =>
    simp only [step] at hstep
    split at hstep
    · cases hstep
      refine .inr ⟨rfl, id, fun r hr => .inl hr, fun hpool => ?_, hheld⟩
      -- `re_thread_async_init` refuses to replace a pool
      obtain ⟨n, hn⟩ := Option.isSome_iff_exists.mp hpool
      cases init <;> simp [hn]
    · cases hstep
  | finish =>
    simp only [step] at hstep
    split at hstep
    · cases hstep
    · cases hstep
      exact .inr ⟨rfl, id, fun r hr => .inl hr, fun _ => rfl, hheld⟩

theorem Numbered.step (h : Numbered s) {a : Action} (hstep : step s a = some t) : Numbered t := by
  rcases step_frame hstep with ⟨w, outcome, rfl, -⟩ | hframe
  · exact h.issue w outcome
  · unfold Numbered
    rw [hframe.issued]
    exact h

theorem Confined.step (h : Confined s) {a : Action} (ha : Queued a) (hstep : step s a = some t) :
    Confined t := by
  rcases step_frame hstep with ⟨w, outcome, rfl, hq⟩ | hframe
  · exact h.issue (hq ha)
  · refine ⟨?_, fun r hr => ?_⟩
    · cases hdirect : t.direct with
      | false => rfl
      | true => exact absurd (hframe.direct hdirect) (by simp [h.direct])
    · rcases hframe.ran r hr with hold | hnew
      · exact h.ran r hold
      · exact hnew

theorem Invariant.step (h : Invariant s) {a : Action} (ha : Orderly a)
    (hstep : step s a = some t) : Invariant t := by
  obtain ⟨bs, hbs⟩ := step_refines ha hstep
  exact ⟨h.refines.run hbs, h.numbered.step hstep, h.confined.step ha.queued hstep⟩

theorem invariant_initial (async : Bool) : Invariant (.initial async) := by
  refine ⟨.of_start rfl, rfl, rfl, ?_⟩
  intro r hr
  cases hr

/-- `re_thread_async_init(1)` succeeded, so one work at most is between the two stages. -/
structure Single (s : State) : Prop where
  pool : s.async = some 1
  held : s.held.length ≤ 1

theorem Single.issue (h : Single s) (w : Work) (outcome : Outcome) :
    Single (s.issue w outcome) := by
  cases outcome with
  | gaveUp => exact ⟨h.pool, h.held⟩
  | queued => exact ⟨by simp [State.issue, State.reAsync, h.pool], h.held⟩
  | failed =>
    simp only [State.issue]
    split <;> exact ⟨h.pool, h.held⟩

theorem Single.step (h : Single s) {a : Action} (hstep : step s a = some t) : Single t := by
  rcases step_frame hstep with ⟨w, outcome, rfl, -⟩ | hframe
  · exact h.issue w outcome
  · refine ⟨(hframe.async (by simp [h.pool])).trans h.pool, ?_⟩
    have hheld := hframe.held
    simp only [h.pool, Option.getD_some] at hheld
    have := h.held
    omega

theorem Single.orderly (h : Single s) {a : Action} (hq : Queued a)
    (hstep : HandOff.step s a = some t) : Orderly a := by
  cases a with
  | push n written =>
    have hlt : n < s.held.length := by
      by_contra hge
      simp [HandOff.step, List.getElem?_eq_none (Nat.le_of_not_lt hge)] at hstep
    have := h.held
    change n = 0
    omega
  | _ => exact hq

/-- With the pool of `init_libre` a command that runs in place is the only way out. -/
theorem disciplined_iff_queued (as : List Action) :
    machine.Always Disciplined (.initial true) as ↔
      machine.Meets (fun _ a => Queued a) (.initial true) as := by
  apply Machine.always_iff_meets (I := fun s => Invariant s ∧ Single s)
  · intro s hs
    exact hs.1.disciplined
  · intro s a t hs hstep
    constructor
    · intro ht
      cases a with
      | issue w outcome =>
        rintro rfl
        by_contra hdirect
        simp only [Bool.not_eq_false] at hdirect
        simp only [machine, step] at hstep
        split at hstep
        · cases hstep
        · cases hstep
          have hin := ht.confined ⟨⟨s.issued.length, w⟩, .caller⟩
          simp [State.issue, hdirect] at hin
      | _ => trivial
    · intro hq
      exact (hs.1.step (hs.2.orderly hq hstep) hstep).disciplined
  · intro s a t hs hq hstep
    exact ⟨hs.1.step (hs.2.orderly hq hstep) hstep, hs.2.step hstep⟩
  · exact ⟨invariant_initial true, rfl, Nat.zero_le 1⟩

end SimplePhone.Native.HandOff
