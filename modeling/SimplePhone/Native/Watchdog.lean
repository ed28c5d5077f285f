import Mathlib.Algebra.Group.Nat.Defs
import SimplePhone.Native.Invariant

/-! The media watchdog: the receive mark of `rtpwatch.c`, the thread that polls it every
five seconds, and the handler of `UA_EVENT_CALL_ESTABLISHED` that starts the thread. The
operands of the comparison are read one by one, and leaving the loop and clearing
`g_watchdog_running` are two steps. -/
namespace SimplePhone.Native.Watchdog

open Globals Transition

/-- `RX_TIMEOUT_S`. -/
def rxTimeoutS : UInt32 := 30

/-- Real time counts in nanoseconds. -/
def second : Nat := 1000000000

/-- `(uint32_t)time(NULL)`, with the clock set `ahead` of real time. -/
def clock (now : Nat) (ahead : Int) : UInt32 := .ofInt ((now + ahead) / second)

/-- `(uint32_t)time(NULL) - rtpwatch_last_rx_s()`. -/
def silent (time last : UInt32) : UInt32 := time - last

/-- Where a thread is. -/
inductive Pc where
  | asleep
  /-- `g_call` was not `NULL`. -/
  | awake
  /-- One operand has been read. C leaves the order open. -/
  | timed (time : UInt32)
  | seen (last : UInt32)
  | judging (time last : UInt32)
  /-- Out of the loop, `g_watchdog_running` not yet cleared. -/
  | leaving
deriving DecidableEq

def Pc.polls : Pc → Bool
  | .leaving => false
  | _ => true

/-- `silent > RX_TIMEOUT_S` -/
def Pc.condemns : Pc → Bool
  | .judging time last => silent time last > rxTimeoutS
  | _ => false

/-- What the handler of `UA_EVENT_CALL_ESTABLISHED` has still to do. -/
inductive Chore where
  /-- `rtpwatch_mark_rx` reads the clock -/
  | sample
  /-- and writes `last_rx_s`. -/
  | store (v : UInt32)
  /-- `watchdog_start` -/
  | start
deriving DecidableEq

/-- A call that `timeout_hangup_worker` has hung up. -/
structure Victim where
  call : Call
  /-- when it was established -/
  since : Option Nat
  /-- when it was hung up -/
  time : Nat
deriving DecidableEq

structure State where
  native : Globals
  now : Nat
  ahead : Int
  /-- `last_rx_s` -/
  lastRx : UInt32
  /-- `rtpwatch_mark_rx` for received frames, between reading the clock and writing it -/
  marks : List UInt32
  chores : List Chore
  /-- `g_watchdog_running` -/
  running : Bool
  threads : List Pc
  /-- History variables: the time of the last receive mark, -/
  lastMark : Option Nat
  /-- when calls were established, the latest first, -/
  begun : List (CallId × Nat)
  /-- the timeout hangups posted, with the last receive mark before and the time, -/
  posts : List (Option Nat × Nat)
  /-- the calls they were posted for, -/
  sentenced : List CallId
  /-- and the calls they hit. -/
  victims : List Victim
deriving DecidableEq

def State.initial (account : Buffers) (now : Nat) (ahead : Int) : State where
  native := Globals.initial account
  now := now
  ahead := ahead
  lastRx := 0
  marks := []
  chores := []
  running := false
  threads := []
  lastMark := none
  begun := []
  posts := []
  sentenced := []
  victims := []

def State.time (s : State) : UInt32 := clock s.now s.ahead

def State.since (s : State) (c : CallId) : Option Nat :=
  (s.begun.find? (·.1 = c)).map Prod.snd

inductive Action where
  /-- a step of `re_main`, or a posting of another thread -/
  | native (a : Native.Action)
  /-- the handler of `UA_EVENT_CALL_ESTABLISHED` goes on -/
  | chore
  /-- so it does, but `pthread_create` fails in `watchdog_start`, which takes the flag back -/
  | unstarted
  /-- an RTP frame or an RTCP packet arrives: the clock is read -/
  | frame
  /-- and one of the samples is written. -/
  | store (i : Nat)
  | pass (n : Nat)
  /-- the wall clock is set -/
  | adjust (d : Int)
  /-- `sleep(5)` is over, and `g_call` is looked at -/
  | wake (i : Nat)
  | readTime (i : Nat)
  | readLast (i : Nat)
  /-- the comparison, with the outcome of `remain_run` -/
  | judge (i : Nat) (posted : Bool)
  /-- `g_watchdog_running = 0`, and the thread ends -/
  | clear (i : Nat)
deriving DecidableEq

/-- The calls that a step has established. -/
def established (g : Globals) : List CallId :=
  g.delivered.filterMap fun d => if d.callback = .onCallStarted then d.cause else none

/-- The call that a step of `re_main` hangs up for its silence. -/
def sentence (g : Globals) : Native.Action → Option Call
  | .work _ => if g.next = some .timeoutHangup then g.gCall.bind g.find else none
  | _ => none

/-- `re_main` is in its handler until the chores are done; of the other threads only the
watchdog posts timeout hangups. -/
def mayRun (s : State) : Native.Action → Bool
  | .post w => w ≠ .timeoutHangup
  | _ => s.chores = []

def nativeStep (s : State) (a : Native.Action) : Option State :=
  if mayRun s a then
    (Native.step s.native a).map fun g =>
      { s with
        native := g
        chores := if established g = [] then s.chores else [.sample, .start]
        begun := (established g).map (fun c => (c, s.now)) ++ s.begun
        victims := ((sentence s.native a).map fun x => ⟨x, s.since x.id, s.now⟩).toList ++ s.victims }
  else none

def choreStep (s : State) : Option State :=
  match s.chores with
  | [] => none
  | .sample :: rest => some { s with chores := .store s.time :: rest, lastMark := some s.now }
  | .store v :: rest => some { s with chores := rest, lastRx := v }
  | .start :: rest =>
      if s.running then some { s with chores := rest }
      else some { s with chores := rest, running := true, threads := s.threads ++ [.asleep] }

def unstartedStep (s : State) : Option State :=
  match s.chores with
  | .start :: rest => if s.running then none else some { s with chores := rest }
  | _ => none

def State.goto (s : State) (i : Nat) (pc : Pc) : State := { s with threads := s.threads.set i pc }

/-- `remain_run(timeout_hangup_worker, NULL)`, successful. -/
def State.post (s : State) : State :=
  { s with
    native := remainRun .timeoutHangup s.native.begin
    posts := (s.lastMark, s.now) :: s.posts
    sentenced := s.native.gCall.toList ++ s.sentenced }

def step (s : State) : Action → Option State
  | .native a => nativeStep s a
  | .chore => choreStep s
  | .unstarted => unstartedStep s
  | .frame => some { s with marks := s.marks ++ [s.time], lastMark := some s.now }
  | .store i => s.marks[i]?.map fun v => { s with marks := s.marks.eraseIdx i, lastRx := v }
  | .pass n => some { s with now := s.now + n }
  | .adjust d => some { s with ahead := s.ahead + d }
  | .wake i =>
      match s.threads[i]? with
      | some .asleep => some (s.goto i (if s.native.gCall = none then .leaving else .awake))
      | _ => none
  | .readTime i =>
      match s.threads[i]? with
      | some .awake => some (s.goto i (.timed s.time))
      | some (.seen v) => some (s.goto i (.judging s.time v))
      | _ => none
  | .readLast i =>
      match s.threads[i]? with
      | some .awake => some (s.goto i (.seen s.lastRx))
      | some (.timed t) => some (s.goto i (.judging t s.lastRx))
      | _ => none
  | .judge i posted =>
      match s.threads[i]? with
      | some (.judging t v) =>
          if silent t v > rxTimeoutS ∧ posted then some (s.post.goto i .leaving)
          -- also when `remain_run` has failed
          else some (s.goto i .asleep)
      | _ => none
  | .clear i =>
      match s.threads[i]? with
      | some .leaving => some { s with running := false, threads := s.threads.eraseIdx i }
      | _ => none

def machine : Machine State Action where
  start s := ∃ account now ahead, s = State.initial account now ahead
  step := step

/-- A call comes in, is answered, and its watchdog starts. -/
def pickUp : List Action :=
  [.native (.post .register), .native (.work .ok),
    .native (.event (.invite (utf8 "sip:203@192.0.2.1") none .ringing)),
    .native (.post .answer), .native (.work .ok), .native (.event (.established 0)),
    .chore, .chore, .chore]

/-! ### The loop of one thread -/

/-- One look at the clock, with the outcome of `remain_run`, which matters if it comes to that. -/
structure Poll where
  /-- `time(NULL)`, in seconds -/
  time : Nat
  posted : Bool
deriving DecidableEq

inductive Outcome where
  | quiet
  | failed
  | posted
deriving DecidableEq

def Poll.outcome (last : UInt32) (p : Poll) : Outcome :=
  if silent (.ofNat p.time) last > rxTimeoutS then if p.posted then .posted else .failed else .quiet

/-- `watchdog_thread` during a call, while `last_rx_s` stays as it is: its polls up to the
one that makes it leave the loop. -/
def watchdogThread (last : UInt32) : List Poll → List Outcome
  | [] => []
  | p :: ps =>
      match p.outcome last with
      | .posted => [.posted]
      | o => o :: watchdogThread last ps

/-- Within `2^32` seconds the difference is that of the times. -/
theorem silent_gt_iff {t₀ p : Nat} (hle : t₀ ≤ p) (hlt : p - t₀ < 2 ^ 32) :
    silent (.ofNat p) (.ofNat t₀) > rxTimeoutS ↔ 30 < p - t₀ := by
  have hsub : (silent (.ofNat p) (.ofNat t₀)).toNat = p - t₀ := by
    unfold silent
    rw [UInt32.toNat_sub, UInt32.toNat_ofNat', UInt32.toNat_ofNat']
    omega
  change rxTimeoutS < _ ↔ _
  rw [UInt32.lt_iff_toNat_lt, hsub]
  rfl

/-- The polls of a thread that sees no mark after `t₀`: nothing happens in the first 30
seconds, later ones post until they succeed, and the first success is the last poll. -/
theorem watchdogThread_detects (t₀ : Nat) (ps : List Poll)
    (hps : ∀ p ∈ ps, t₀ ≤ p.time ∧ p.time - t₀ < 2 ^ 32) :
    let late : Poll → Bool := fun p => 30 < p.time - t₀ && p.posted
    watchdogThread (.ofNat t₀) ps =
      (ps.takeWhile fun p => !late p).map (fun p =>
        if p.time - t₀ ≤ 30 then .quiet else .failed) ++
      if ps.any late then [.posted] else [] := by
  induction ps with
  | nil => rfl
  | cons p ps ih =>
    obtain ⟨hle, hlt⟩ := hps p List.mem_cons_self
    have ih := ih fun q hq => hps q (List.mem_cons_of_mem p hq)
    have hiff := silent_gt_iff hle hlt
    unfold watchdogThread Poll.outcome
    by_cases hlate : 30 < p.time - t₀
    · rw [if_pos (hiff.mpr hlate)]
      cases hposted : p.posted with
      | true => simp [hlate, hposted]
      | false =>
        have hlate' : 30 + t₀ < p.time := by omega
        simpa [hlate, hposted, hlate'] using ih
    · rw [if_neg fun hgt => hlate (hiff.mp hgt)]
      have hsoon : p.time ≤ 30 + t₀ := by omega
      simpa [hlate, hsoon] using ih

/-- Polls every five seconds across the wrap of the 32-bit clock, with one post that fails. -/
theorem watchdogThread_wraps :
    watchdogThread (.ofNat (2 ^ 32 - 10))
      [⟨2 ^ 32 + 15, true⟩, ⟨2 ^ 32 + 20, true⟩, ⟨2 ^ 32 + 25, false⟩, ⟨2 ^ 32 + 30, true⟩] =
      [.quiet, .quiet, .failed, .posted] :=
  watchdogThread_detects (2 ^ 32 - 10) _ (by decide)

/-! ### The loop and the steps of the machine -/

variable {s t : State} {i : Nat}

theorem goto_goto (s : State) (i : Nat) (pc pc' : Pc) :
    (s.goto i pc).goto i pc' = s.goto i pc' := by
  unfold State.goto
  rw [List.set_set]

theorem goto_get {pc pc' : Pc} (hi : s.threads[i]? = some pc) :
    (s.goto i pc').threads[i]? = some pc' := by
  obtain ⟨hlt, -⟩ := List.getElem?_eq_some_iff.mp hi
  exact List.getElem?_set_self hlt

theorem goto_self {pc : Pc} (hi : s.threads[i]? = some pc) : s.goto i pc = s := by
  obtain ⟨hlt, rfl⟩ := List.getElem?_eq_some_iff.mp hi
  unfold State.goto
  rw [List.set_getElem_self hlt]

/-- One round of the loop during a call that nothing interrupts. -/
theorem run_poll (hi : s.threads[i]? = some .asleep) (hcall : s.native.gCall ≠ none) (p : Poll)
    (hp : s.time = .ofNat p.time) :
    machine.run s [.wake i, .readTime i, .readLast i, .judge i p.posted] =
      some (match p.outcome s.lastRx with
        | .posted => s.post.goto i .leaving
        | _ => s) := by
  have hwake : step s (.wake i) = some (s.goto i .awake) := by
    simp only [step, hi, if_neg hcall]
  have htime : step (s.goto i .awake) (.readTime i) = some (s.goto i (.timed s.time)) := by
    simp only [step, goto_get hi, goto_goto]
    rfl
  have hlast : step (s.goto i (.timed s.time)) (.readLast i) =
      some (s.goto i (.judging s.time s.lastRx)) := by
    simp only [step, goto_get hi, goto_goto]
    rfl
  have hjudge : step (s.goto i (.judging s.time s.lastRx)) (.judge i p.posted) =
      some (match p.outcome s.lastRx with
        | .posted => s.post.goto i .leaving
        | _ => s) := by
    simp only [step, goto_get hi, goto_goto, Poll.outcome, hp]
    by_cases hgt : silent (.ofNat p.time) s.lastRx > rxTimeoutS
    · cases hposted : p.posted with
      | true =>
        have hpost : (s.goto i (.judging (.ofNat p.time) s.lastRx)).post.goto i .leaving =
            s.post.goto i .leaving := goto_goto s.post i _ _
        simpa [hgt] using hpost
      | false => simp [hgt, goto_self hi]
    · simp [hgt, goto_self hi]
  exact machine.run_cons_eq_some.mpr ⟨_, hwake, machine.run_cons_eq_some.mpr ⟨_, htime,
    machine.run_cons_eq_some.mpr ⟨_, hlast, machine.run_cons_eq_some.mpr ⟨_, hjudge, rfl⟩⟩⟩⟩

/-! ### Inversion -/

/-- A step beside `re_main` that posts nothing. -/
structure Aside (s : State) (a : Action) (t : State) : Prop where
  native : t.native = s.native
  now : s.now ≤ t.now
  chores : a = .chore ∨ t.chores = s.chores ∨ s.chores.head? = some .start
  begun : t.begun = s.begun
  posts : t.posts = s.posts
  victims : t.victims = s.victims

theorem aside_goto (s : State) (a : Action) (i : Nat) (pc : Pc) : Aside s a (s.goto i pc) :=
  ⟨rfl, Nat.le_refl _, .inr (.inl rfl), rfl, rfl, rfl⟩

theorem aside_chore (hstep : choreStep s = some t) : Aside s .chore t := by
  unfold choreStep at hstep
  split at hstep
  · cases hstep
  · cases hstep
    exact ⟨rfl, Nat.le_refl _, .inl rfl, rfl, rfl, rfl⟩
  · cases hstep
    exact ⟨rfl, Nat.le_refl _, .inl rfl, rfl, rfl, rfl⟩
  · split at hstep
    · cases hstep
      exact ⟨rfl, Nat.le_refl _, .inl rfl, rfl, rfl, rfl⟩
    · cases hstep
      exact ⟨rfl, Nat.le_refl _, .inl rfl, rfl, rfl, rfl⟩

theorem unstarted_eq_some (hstep : unstartedStep s = some t) :
    ∃ rest, s.chores = .start :: rest ∧ s.running = false ∧ t = { s with chores := rest } := by
  unfold unstartedStep at hstep
  split at hstep
  · rename_i rest hc
    split at hstep
    · cases hstep
    · rename_i hrun
      cases hstep
      exact ⟨rest, hc, Bool.eq_false_iff.mpr hrun, rfl⟩
  · cases hstep

/-- A step is one of `re_main`, it posts a hangup, or it leaves the calls alone. -/
theorem step_cases {a : Action} (hstep : step s a = some t) :
    (∃ b, a = .native b ∧ nativeStep s b = some t) ∨
    (∃ i x v, a = .judge i true ∧ s.threads[i]? = some (.judging x v) ∧ silent x v > rxTimeoutS ∧
      t = s.post.goto i .leaving) ∨
    Aside s a t := by
  cases a with
  | native b => exact .inl ⟨b, rfl, hstep⟩
  | judge i posted =>
    simp only [step] at hstep
    split at hstep
    · rename_i x v hi
      split at hstep
      · rename_i hpost
        cases hstep
        obtain ⟨hgt, rfl⟩ := hpost
        exact .inr (.inl ⟨i, x, v, rfl, hi, hgt, rfl⟩)
      · cases hstep
        exact .inr (.inr (aside_goto s _ i .asleep))
    · cases hstep
  | chore => exact .inr (.inr (aside_chore hstep))
  | unstarted =>
    obtain ⟨rest, hc, -, rfl⟩ := unstarted_eq_some hstep
    exact .inr (.inr ⟨rfl, Nat.le_refl _, .inr (.inr (congrArg List.head? hc)), rfl, rfl, rfl⟩)
  | frame =>
    cases hstep
    exact .inr (.inr ⟨rfl, Nat.le_refl _, .inr (.inl rfl), rfl, rfl, rfl⟩)
  | store i =>
    obtain ⟨v, -, rfl⟩ := Option.map_eq_some_iff.mp hstep
    exact .inr (.inr ⟨rfl, Nat.le_refl _, .inr (.inl rfl), rfl, rfl, rfl⟩)
  | pass n =>
    cases hstep
    exact .inr (.inr ⟨rfl, Nat.le_add_right _ n, .inr (.inl rfl), rfl, rfl, rfl⟩)
  | adjust d =>
    cases hstep
    exact .inr (.inr ⟨rfl, Nat.le_refl _, .inr (.inl rfl), rfl, rfl, rfl⟩)
  | wake i =>
    simp only [step] at hstep
    split at hstep
    · cases hstep
      exact .inr (.inr (aside_goto s _ i _))
    · cases hstep
  | readTime i =>
    simp only [step] at hstep
    split at hstep
    · cases hstep
      exact .inr (.inr (aside_goto s _ i _))
    · cases hstep
      exact .inr (.inr (aside_goto s _ i _))
    · cases hstep
  | readLast i =>
    simp only [step] at hstep
    split at hstep
    · cases hstep
      exact .inr (.inr (aside_goto s _ i _))
    · cases hstep
      exact .inr (.inr (aside_goto s _ i _))
    · cases hstep
  | clear i =>
    simp only [step] at hstep
    split at hstep
    · cases hstep
      exact .inr (.inr ⟨rfl, Nat.le_refl _, .inr (.inl rfl), rfl, rfl, rfl⟩)
    · cases hstep

/-- What a step of `re_main` leaves of the watchdog. -/
theorem nativeStep_fields {b : Native.Action} (hstep : nativeStep s b = some t) :
    mayRun s b = true ∧ Native.step s.native b = some t.native ∧ t.now = s.now ∧
      t.posts = s.posts ∧ t.threads = s.threads ∧
      t.chores = (if established t.native = [] then s.chores else [.sample, .start]) ∧
      t.begun = (established t.native).map (fun c => (c, s.now)) ++ s.begun ∧
      t.victims = ((sentence s.native b).map fun x => ⟨x, s.since x.id, s.now⟩).toList ++
        s.victims := by
  unfold nativeStep at hstep
  split at hstep
  · rename_i hmay
    obtain ⟨g, hg, rfl⟩ := Option.map_eq_some_iff.mp hstep
    exact ⟨hmay, hg, rfl, rfl, rfl, rfl, rfl, rfl⟩
  · cases hstep

end SimplePhone.Native.Watchdog
