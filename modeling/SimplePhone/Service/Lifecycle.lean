import SimplePhone.Native.State
import SimplePhone.Transition.Machine

/-! Who stops a `SipManager`. `ensureSipManager` assigns the field of the service
when `start` has returned; the shutdown receiver and `onDestroy` stop what they
find in the field, on another thread. Android creates the service again once it is
destroyed, in the same process and over the same native layer. -/
namespace SimplePhone.Service.Lifecycle

open Transition Native

abbrev ManagerId := Nat

/-- The statements of `ensureSipManager` behind its check. -/
inductive Stmt where
  | nativeSetCallback
  | nativeInit
  | nativeRegister
  | onDebug
  /-- `sipManager = mgr` -/
  | setSipManager
deriving DecidableEq

def ensureStmts : List Stmt :=
  [.nativeSetCallback, .nativeInit, .nativeRegister, .onDebug, .setSipManager]

structure Instance where
  sipManager : Option ManagerId
  /-- `ensureSipManager` tasks in the queue of `sipExecutor`. -/
  queue : Nat
  /-- The manager the running task has made, and what the task has still to do. -/
  task : Option (ManagerId × List Stmt)
  /-- The managers whose `start` was called here. -/
  started : List ManagerId
deriving DecidableEq

/-- Where the main thread is. The flag tells `onDestroy` from the shutdown receiver. -/
inductive Main where
  | idle
  /-- `sipExecutor.shutdownNow()` -/
  | shutdownNow
  /-- `sipManager?.stop()` -/
  | stop (destroying : Bool)
  | nativeUnregister (m : ManagerId) (destroying : Bool)
  | nativeDestroy (m : ManagerId) (destroying : Bool)
  /-- `sipManager = null` -/
  | clear (destroying : Bool)
deriving DecidableEq

structure State where
  /-- The service between its `onCreate` and the return of its `onDestroy`. -/
  current : Option Instance
  /-- The destroyed instances, whose executors may still be in a task. -/
  retired : List Instance
  main : Main
  started : List ManagerId
  /-- `stop` has returned. -/
  stopped : List ManagerId
  /-- The manager whose callback object `g_callback` is. -/
  gCallback : Option ManagerId
  /-- The registration commands given to the native layer, oldest first. -/
  commands : List Work
  nextManager : ManagerId
deriving DecidableEq

def State.initial : State where
  current := none
  retired := []
  main := .idle
  started := []
  stopped := []
  gCallback := none
  commands := []
  nextManager := 0

inductive Action where
  | onCreate
  /-- an `onStartCommand` that queues `ensureSipManager` -/
  | onStartCommand
  /-- `ACTION_SHUTDOWN` -/
  | shutdown
  | onDestroy
  /-- the next statement of the main thread -/
  | main
  /-- `sipExecutor` takes a task and makes its check -/
  | take
  /-- the next statement of the running task -/
  | stmt
  /-- the next statement of a task of a destroyed instance -/
  | stmtRetired (n : Nat)
deriving DecidableEq

namespace State

/-- What a statement of `start` does to the process. -/
def perform (m : ManagerId) (s : State) : Stmt → State
  | .nativeSetCallback => { s with gCallback := some m, started := s.started ++ [m] }
  | .nativeRegister => { s with commands := s.commands ++ [.register] }
  | .nativeInit | .onDebug | .setSipManager => s

def mainStep (i : Instance) (s : State) : State :=
  match s.main with
  | .idle => s
  | .shutdownNow => { s with current := some { i with queue := 0 }, main := .stop true }
  | .stop destroying =>
      match i.sipManager with
      | none => { s with main := .clear destroying }
      | some m => { s with main := .nativeUnregister m destroying }
  | .nativeUnregister m destroying =>
      { s with commands := s.commands ++ [.unregister], main := .nativeDestroy m destroying }
  | .nativeDestroy m destroying =>
      { s with gCallback := none, stopped := s.stopped ++ [m], main := .clear destroying }
  | .clear false => { s with current := some { i with sipManager := none }, main := .idle }
  | .clear true =>
      { s with
        current := none
        retired := s.retired ++ [{ i with sipManager := none }]
        main := .idle }

end State

namespace Instance

/-- The instance after a statement of its task, and the manager the statement is about. -/
def stmtStep (i : Instance) : Option (Instance × ManagerId × Stmt) :=
  match i.task with
  | some (m, .nativeSetCallback :: rest) =>
      some ({ i with task := some (m, rest), started := i.started ++ [m] }, m, .nativeSetCallback)
  | some (m, .setSipManager :: _) =>
      some ({ i with sipManager := some m, task := none }, m, .setSipManager)
  | some (m, st :: rest) => some ({ i with task := some (m, rest) }, m, st)
  | _ => none

def take (next : ManagerId) (i : Instance) : Instance :=
  { i with
    queue := i.queue - 1
    task := if i.sipManager = none then some (next, ensureStmts) else none }

end Instance

/-- A callback of the main thread comes when the one before has returned. -/
def step (s : State) : Action → Option State
  | .onCreate =>
      if s.current = none ∧ s.main = .idle then
        some { s with current := some ⟨none, 1, none, []⟩ }
      else none
  | .onStartCommand =>
      match s.current, s.main with
      | some i, .idle => some { s with current := some { i with queue := i.queue + 1 } }
      | _, _ => none
  | .shutdown =>
      match s.current, s.main with
      | some _, .idle => some { s with main := .stop false }
      | _, _ => none
  | .onDestroy =>
      match s.current, s.main with
      | some _, .idle => some { s with main := .shutdownNow }
      | _, _ => none
  | .main =>
      match s.current with
      | some i => if s.main = .idle then none else some (s.mainStep i)
      | none => none
  | .take =>
      match s.current with
      | some i =>
          if i.task = none ∧ i.queue ≠ 0 then
            some { s with current := some (i.take s.nextManager), nextManager := s.nextManager + 1 }
          else none
      | none => none
  | .stmt =>
      match s.current with
      | some i => i.stmtStep.map fun x => { s.perform x.2.1 x.2.2 with current := some x.1 }
      | none => none
  | .stmtRetired n =>
      match s.retired[n]? with
      | some i => i.stmtStep.map fun x =>
          { s.perform x.2.1 x.2.2 with retired := s.retired.set n x.1 }
      | none => none

def machine : Machine State Action where
  start s := s = .initial
  step := step

/-! ### Balance -/

/-- `start` was called and `stop` has not returned. -/
def State.Live (s : State) (m : ManagerId) : Prop := m ∈ s.started ∧ m ∉ s.stopped

/-- Over one manager at a time, and none once the service is gone and its executor has
ended. -/
structure Balanced (s : State) : Prop where
  single : ∀ m m', s.Live m → s.Live m' → m = m'
  stopped : ∀ i ∈ s.retired, i.task = none → ∀ m ∈ i.started, m ∈ s.stopped
  callback : ∀ i ∈ s.retired, i.task = none → ∀ m ∈ i.started, s.gCallback ≠ some m
  registration : s.current = none → (∀ i ∈ s.retired, i.task = none) →
    s.commands.getLast? ≠ some .register

/-- `onDestroy` looks at the field while no `ensureSipManager` is between its check and
its assignment, and the manager that is cleared from the field is the stopped one. -/
def Caught (s : State) : Action → Prop
  | .main => ∀ i ∈ s.current, match s.main with
      | .stop true => i.task = none
      | .clear _ => ∀ m ∈ i.sipManager, m ∈ s.stopped
      | _ => True
  | _ => True

instance (s : State) (a : Action) : Decidable (Caught s a) := by
  unfold Caught
  split
  · cases s.main with
    | stop destroying => cases destroying <;> infer_instance
    | _ => infer_instance
  · infer_instance

/-! ### The invariant -/

/-- A task in the middle of `start`: its manager is new, and the field is still empty. -/
structure Starting (s : State) (i : Instance) (m : ManagerId) (ops : List Stmt) : Prop where
  field : i.sipManager = none
  notStopped : m ∉ s.stopped
  fresh : m < s.nextManager
  suffix : ops <:+ ensureStmts
  started : m ∈ s.started ∨ ops = ensureStmts

/-- Nothing on `sipExecutor` can touch the field any more. -/
def Instance.Quiet (i : Instance) : Prop := i.task = none ∧ i.queue = 0

/-- What the place of the main thread says about the instance. -/
def At (s : State) (i : Instance) : Main → Prop
  | .idle | .shutdownNow | .stop false => True
  | .stop true => i.queue = 0
  | .nativeUnregister m destroying => i.sipManager = some m ∧ (destroying → i.Quiet)
  | .nativeDestroy m destroying =>
      i.sipManager = some m ∧ s.commands.getLast? ≠ some .register ∧ (destroying → i.Quiet)
  | .clear destroying => destroying → i.Quiet

structure Present (s : State) (i : Instance) : Prop where
  task : ∀ m ops, i.task = some (m, ops) → Starting s i m ops
  field : ∀ m, i.sipManager = some m → m ∈ s.started
  live : ∀ m, s.Live m → i.sipManager = some m ∨ ∃ ops, i.task = some (m, ops)
  mine : ∀ m ∈ i.started, m ∈ s.started
  main : At s i s.main

structure Sound (s : State) : Prop where
  fresh : ∀ m ∈ s.started, m < s.nextManager
  stopped : ∀ m ∈ s.stopped, m ∈ s.started
  callback : ∀ m, s.gCallback = some m → s.Live m
  registration : s.commands.getLast? = some .register → ∃ m, s.Live m
  retired : ∀ i ∈ s.retired, i.task = none ∧ ∀ m ∈ i.started, m ∈ s.stopped
  absent : s.current = none → s.main = .idle ∧ ∀ m ∈ s.started, m ∈ s.stopped
  present : ∀ i ∈ s.current, Present s i

variable {s t : State} {i : Instance}

/-- A task that makes a manager has found the field empty. -/
theorem Present.idle (h : Present s i) {m : ManagerId} (hfield : i.sipManager = some m) :
    i.task = none := by
  cases htask : i.task with
  | none => rfl
  | some x =>
    have hnone := (h.task x.1 x.2 htask).field
    rw [hfield] at hnone
    cases hnone

/-- Live managers are in the field or in the task, and never in both. -/
theorem Present.single (h : Present s i) {m m' : ManagerId} (hm : s.Live m) (hm' : s.Live m') :
    m = m' := by
  rcases h.live m hm with hfield | ⟨ops, htask⟩
  · rcases h.live m' hm' with hfield' | ⟨ops', htask'⟩
    · rw [hfield] at hfield'
      exact Option.some.inj hfield'
    · rw [h.idle hfield] at htask'
      cases htask'
  · rcases h.live m' hm' with hfield' | ⟨ops', htask'⟩
    · rw [h.idle hfield'] at htask
      cases htask
    · rw [htask] at htask'
      exact congrArg Prod.fst (Option.some.inj htask')

theorem Sound.balanced (h : Sound s) : Balanced s := by
  refine ⟨?_, ?_, ?_, ?_⟩
  · intro m m' hm hm'
    cases hcurrent : s.current with
    | none => exact absurd ((h.absent hcurrent).2 m hm.1) hm.2
    | some i => exact (h.present i hcurrent).single hm hm'
  · intro i hi _
    exact (h.retired i hi).2
  · intro i hi _ m hm hcallback
    exact (h.callback m hcallback).2 ((h.retired i hi).2 m hm)
  · intro hcurrent _ hlast
    obtain ⟨m, hm⟩ := h.registration hlast
    exact hm.2 ((h.absent hcurrent).2 m hm.1)

theorem sound_initial : Sound .initial := by
  refine ⟨?_, ?_, ?_, ?_, ?_, ?_, ?_⟩
  · intro m hm
    cases hm
  · intro m hm
    cases hm
  · intro m hm
    cases hm
  · intro hlast
    cases hlast
  · intro i hi
    cases hi
  · exact fun _ => ⟨rfl, fun m hm => by cases hm⟩
  · intro i hi
    cases hi

/-! ### The statements of a task -/

/-- What a statement is, by the place of the task. -/
theorem stmtStep_cases {i i' : Instance} {m : ManagerId} {st : Stmt}
    (h : i.stmtStep = some (i', m, st)) :
    ∃ rest, i.task = some (m, st :: rest) ∧
      ((st = .nativeSetCallback ∧
          i' = { i with task := some (m, rest), started := i.started ++ [m] }) ∨
        (st = .setSipManager ∧ i' = { i with sipManager := some m, task := none }) ∨
        (st ≠ .nativeSetCallback ∧ st ≠ .setSipManager ∧
          i' = { i with task := some (m, rest) })) := by
  unfold Instance.stmtStep at h
  split at h
  next n rest htask =>
    cases h
    exact ⟨rest, htask, .inl ⟨rfl, rfl⟩⟩
  next n rest htask =>
    cases h
    exact ⟨rest, htask, .inr (.inl ⟨rfl, rfl⟩)⟩
  next n st' rest hcallback hset htask =>
    cases h
    refine ⟨rest, htask, .inr (.inr ⟨?_, ?_, rfl⟩)⟩
    · rintro rfl
      exact hcallback rfl
    · rintro rfl
      exact hset rfl
  next => cases h

/-- Behind its first statement a task is about a manager that was started. -/
theorem Starting.live {m : ManagerId} {ops : List Stmt} (h : Starting s i m ops)
    (hops : ops ≠ ensureStmts) : s.Live m :=
  ⟨h.started.resolve_right hops, h.notStopped⟩

/-- Next to a running task the main thread is nowhere that fixes more than the queue. -/
theorem At.keep {p : Main} {i' : Instance} (h : At s i p) (hfield : i.sipManager = none)
    (htask : i.task ≠ none) (hqueue : i'.queue = i.queue) : At t i' p := by
  cases p with
  | idle => trivial
  | shutdownNow => trivial
  | stop destroying =>
    cases destroying with
    | false => trivial
    | true => exact hqueue.trans h
  | nativeUnregister m destroying =>
    have hsome := h.1
    rw [hfield] at hsome
    cases hsome
  | nativeDestroy m destroying =>
    have hsome := h.1
    rw [hfield] at hsome
    cases hsome
  | clear destroying => exact fun hd => absurd (h hd).1 htask

theorem Sound.nativeSetCallback (h : Sound s) (hcurrent : s.current = some i) {m : ManagerId}
    {rest : List Stmt} (htask : i.task = some (m, .nativeSetCallback :: rest)) :
    Sound { s with
      gCallback := some m
      started := s.started ++ [m]
      current := some { i with task := some (m, rest), started := i.started ++ [m] } } := by
  have hp := h.present i hcurrent
  have hstart := hp.task m _ htask
  refine ⟨?_, ?_, ?_, ?_, h.retired, nofun, ?_⟩
  · intro m' hm'
    rcases List.mem_append.mp hm' with hold | hnew
    · exact h.fresh m' hold
    · rw [List.mem_singleton.mp hnew]
      exact hstart.fresh
  · intro m' hm'
    exact List.mem_append_left _ (h.stopped m' hm')
  · intro m' hm'
    cases hm'
    exact ⟨List.mem_append_right _ (List.mem_singleton_self m), hstart.notStopped⟩
  · intro hlast
    obtain ⟨m', hm'⟩ := h.registration hlast
    exact ⟨m', List.mem_append_left _ hm'.1, hm'.2⟩
  · intro _ hi
    cases hi
    refine ⟨?_, ?_, ?_, ?_, ?_⟩
    · intro m' ops hops
      cases hops
      exact ⟨hstart.field, hstart.notStopped, hstart.fresh,
        (List.suffix_cons _ rest).trans hstart.suffix,
        .inl (List.mem_append_right _ (List.mem_singleton_self m))⟩
    · intro m' hm'
      exact List.mem_append_left _ (hp.field m' hm')
    · intro m' hm'
      right
      rcases List.mem_append.mp hm'.1 with hold | hnew
      · rcases hp.live m' ⟨hold, hm'.2⟩ with hfield | ⟨ops, hops⟩
        · rw [hstart.field] at hfield
          cases hfield
        · rw [htask] at hops
          cases hops
          exact ⟨rest, rfl⟩
      · rw [List.mem_singleton.mp hnew]
        exact ⟨rest, rfl⟩
    · intro m' hm'
      rcases List.mem_append.mp hm' with hold | hnew
      · exact List.mem_append_left _ (hp.mine m' hold)
      · exact List.mem_append_right _ hnew
    · exact hp.main.keep hstart.field (by simp [htask]) rfl

theorem Sound.setSipManager (h : Sound s) (hcurrent : s.current = some i) {m : ManagerId}
    {rest : List Stmt} (htask : i.task = some (m, .setSipManager :: rest)) :
    Sound { s with current := some { i with sipManager := some m, task := none } } := by
  have hp := h.present i hcurrent
  have hstart := hp.task m _ htask
  have hlive : s.Live m := hstart.live (by simp [ensureStmts])
  refine ⟨h.fresh, h.stopped, h.callback, h.registration, h.retired,
    nofun, ?_⟩
  intro _ hi
  cases hi
  refine ⟨?_, ?_, ?_, hp.mine, hp.main.keep hstart.field (by simp [htask]) rfl⟩
  · intro m' ops hops
    cases hops
  · intro m' hm'
    cases hm'
    exact hlive.1
  · intro m' hm'
    left
    rw [hp.single hm' hlive]

/-- The other statements move no manager. -/
theorem Sound.perform (h : Sound s) (hcurrent : s.current = some i) {m : ManagerId} {st : Stmt}
    {rest : List Stmt} (htask : i.task = some (m, st :: rest)) (hcallback : st ≠ .nativeSetCallback)
    (hset : st ≠ .setSipManager) :
    Sound { s.perform m st with current := some { i with task := some (m, rest) } } := by
  have hp := h.present i hcurrent
  have hstart := hp.task m _ htask
  have hops : st :: rest ≠ ensureStmts := by
    intro heq
    exact hcallback (List.cons.inj heq).1
  have hpresent (u : State) (hstarted : u.started = s.started) (hstopped : u.stopped = s.stopped)
      (hnext : u.nextManager = s.nextManager) (hmain : u.main = s.main) :
      Present u { i with task := some (m, rest) } := by
    refine ⟨?_, ?_, ?_, ?_, ?_⟩
    · intro m' ops' hops'
      cases hops'
      refine ⟨hstart.field, ?_, ?_, (List.suffix_cons _ rest).trans hstart.suffix, .inl ?_⟩
      · rw [hstopped]
        exact hstart.notStopped
      · rw [hnext]
        exact hstart.fresh
      · rw [hstarted]
        exact (hstart.live hops).1
    · rw [hstarted]
      exact hp.field
    · intro m' hm'
      have hlive : s.Live m' := by
        unfold State.Live at hm' ⊢
        rwa [hstarted, hstopped] at hm'
      rcases hp.live m' hlive with hfield | ⟨ops', hops'⟩
      · exact .inl hfield
      · rw [htask] at hops'
        cases hops'
        exact .inr ⟨rest, rfl⟩
    · rw [hstarted]
      exact hp.mine
    · rw [hmain]
      exact hp.main.keep hstart.field (by simp [htask]) rfl
  cases st with
  | nativeSetCallback => exact absurd rfl hcallback
  | setSipManager => exact absurd rfl hset
  | nativeRegister =>
    refine ⟨h.fresh, h.stopped, h.callback, fun _ => ⟨m, hstart.live hops⟩, h.retired,
      nofun, ?_⟩
    intro _ hi
    cases hi
    exact hpresent _ rfl rfl rfl rfl
  | nativeInit =>
    refine ⟨h.fresh, h.stopped, h.callback, h.registration, h.retired,
      nofun, ?_⟩
    intro _ hi
    cases hi
    exact hpresent _ rfl rfl rfl rfl
  | onDebug =>
    refine ⟨h.fresh, h.stopped, h.callback, h.registration, h.retired,
      nofun, ?_⟩
    intro _ hi
    cases hi
    exact hpresent _ rfl rfl rfl rfl

theorem Sound.stmt (h : Sound s) (hcurrent : s.current = some i) {i' : Instance} {m : ManagerId}
    {st : Stmt} (hstmt : i.stmtStep = some (i', m, st)) :
    Sound { s.perform m st with current := some i' } := by
  obtain ⟨rest, htask, ⟨rfl, rfl⟩ | ⟨rfl, rfl⟩ | ⟨hcallback, hset, rfl⟩⟩ := stmtStep_cases hstmt
  · exact h.nativeSetCallback hcurrent htask
  · exact h.setSipManager hcurrent htask
  · exact h.perform hcurrent htask hcallback hset

/-! ### The main thread -/

/-- A step that moves no manager keeps the invariant if it keeps what is said of the
instance. -/
theorem Sound.reposition (h : Sound s) (hcurrent : s.current = some i) (p : Main) (i' : Instance)
    (hfield : i'.sipManager = i.sipManager) (htask : i'.task = i.task)
    (hstarted : i'.started = i.started) (hat : At s i' p) :
    Sound { s with current := some i', main := p } := by
  have hp := h.present i hcurrent
  refine ⟨h.fresh, h.stopped, h.callback, h.registration, h.retired,
    nofun, ?_⟩
  intro _ hi
  cases hi
  refine ⟨?_, ?_, ?_, ?_, ?_⟩
  · intro m ops hops
    rw [htask] at hops
    have hstart := hp.task m ops hops
    exact ⟨hfield.trans hstart.field, hstart.notStopped, hstart.fresh, hstart.suffix,
      hstart.started⟩
  · rw [hfield]
    exact hp.field
  · rw [hfield, htask]
    exact hp.live
  · rw [hstarted]
    exact hp.mine
  · cases p with
    | stop destroying => cases destroying <;> exact hat
    | _ => exact hat

/-- `stop` returns: its manager was the live one. -/
theorem Sound.nativeDestroy (h : Sound s) (hcurrent : s.current = some i) {m : ManagerId}
    {destroying : Bool} (hmain : s.main = .nativeDestroy m destroying) :
    Sound { s with
      gCallback := none, stopped := s.stopped ++ [m], main := .clear destroying } := by
  have hp := h.present i hcurrent
  obtain ⟨hfield, hlast, hquiet⟩ : i.sipManager = some m ∧
      s.commands.getLast? ≠ some .register ∧ (destroying → i.Quiet) := by
    have hat := hp.main
    rwa [hmain] at hat
  have hidle := hp.idle hfield
  refine ⟨h.fresh, ?_, nofun, fun h => absurd h hlast, ?_, ?_, ?_⟩
  · intro m' hm'
    rcases List.mem_append.mp hm' with hold | hnew
    · exact h.stopped m' hold
    · rw [List.mem_singleton.mp hnew]
      exact hp.field m hfield
  · intro j hj
    obtain ⟨htask, hstopped⟩ := h.retired j hj
    exact ⟨htask, fun m' hm' => List.mem_append_left _ (hstopped m' hm')⟩
  · intro hnone
    rw [hcurrent] at hnone
    cases hnone
  · intro j hj
    rw [hcurrent] at hj
    cases hj
    refine ⟨?_, hp.field, ?_, hp.mine, hquiet⟩
    · intro m' ops hops
      rw [hidle] at hops
      cases hops
    · intro m' hm'
      have hold : s.Live m' := ⟨hm'.1, fun hin => hm'.2 (List.mem_append_left _ hin)⟩
      exact hp.live m' hold

/-- Nothing but a task can be live once the field has nothing but a stopped manager. -/
theorem Present.live_task (h : Present s i) (hcaught : ∀ m ∈ i.sipManager, m ∈ s.stopped)
    {m : ManagerId} (hm : s.Live m) : ∃ ops, i.task = some (m, ops) := by
  rcases h.live m hm with hfield | htask
  · exact absurd (hcaught m hfield) hm.2
  · exact htask

theorem Sound.clear (h : Sound s) (hcurrent : s.current = some i)
    (hcaught : ∀ m ∈ i.sipManager, m ∈ s.stopped) :
    Sound { s with current := some { i with sipManager := none }, main := .idle } := by
  have hp := h.present i hcurrent
  refine ⟨h.fresh, h.stopped, h.callback, h.registration, h.retired, nofun, ?_⟩
  intro _ hi
  cases hi
  refine ⟨?_, nofun, fun m hm => .inr (hp.live_task hcaught hm), hp.mine, trivial⟩
  intro m ops hops
  have hstart := hp.task m ops hops
  exact ⟨rfl, hstart.notStopped, hstart.fresh, hstart.suffix, hstart.started⟩

/-- `onDestroy` returns. -/
theorem Sound.retire (h : Sound s) (hcurrent : s.current = some i) (hmain : s.main = .clear true)
    (hcaught : ∀ m ∈ i.sipManager, m ∈ s.stopped) :
    Sound { s with
      current := none
      retired := s.retired ++ [{ i with sipManager := none }]
      main := .idle } := by
  have hp := h.present i hcurrent
  have hquiet : i.Quiet := by
    have hat := hp.main
    rw [hmain] at hat
    exact hat rfl
  have hall (m : ManagerId) (hm : m ∈ s.started) : m ∈ s.stopped := by
    by_contra hnot
    obtain ⟨ops, hops⟩ := hp.live_task hcaught ⟨hm, hnot⟩
    rw [hquiet.1] at hops
    cases hops
  refine ⟨h.fresh, h.stopped, h.callback, h.registration, ?_, fun _ => ⟨rfl, hall⟩, nofun⟩
  intro j hj
  rcases List.mem_append.mp hj with hold | hnew
  · exact h.retired j hold
  · rw [List.mem_singleton.mp hnew]
    exact ⟨hquiet.1, fun m hm => hall m (hp.mine m hm)⟩

theorem Sound.mainStep (h : Sound s) (hcurrent : s.current = some i) (hbusy : s.main ≠ .idle)
    (hcaught : Caught s .main) : Sound (s.mainStep i) := by
  have hp := h.present i hcurrent
  have hat := hp.main
  have hc := hcaught i hcurrent
  unfold State.mainStep
  cases hmain : s.main with
  | idle => exact absurd hmain hbusy
  | shutdownNow => exact h.reposition hcurrent (.stop true) { i with queue := 0 } rfl rfl rfl rfl
  | stop destroying =>
    rw [hmain] at hat hc
    have hquiet : destroying → i.Quiet := by
      rintro rfl
      exact ⟨hc, hat⟩
    cases hfield : i.sipManager with
    | none =>
      have hnext := h.reposition hcurrent (.clear destroying) i rfl rfl rfl hquiet
      rwa [← hcurrent] at hnext
    | some m =>
      have hnext := h.reposition hcurrent (.nativeUnregister m destroying) i rfl rfl rfl
        ⟨hfield, hquiet⟩
      rwa [← hcurrent] at hnext
  | nativeUnregister m destroying =>
    rw [hmain] at hat
    refine ⟨h.fresh, h.stopped, h.callback, ?_, h.retired, ?_, ?_⟩
    · intro hlast
      simp at hlast
    · intro hnone
      rw [hcurrent] at hnone
      cases hnone
    · intro j hj
      rw [hcurrent] at hj
      cases hj
      refine ⟨?_, hp.field, hp.live, hp.mine, hat.1, by simp, hat.2⟩
      intro m' ops hops
      have hstart := hp.task m' ops hops
      exact ⟨hstart.field, hstart.notStopped, hstart.fresh, hstart.suffix, hstart.started⟩
  | nativeDestroy m destroying => exact h.nativeDestroy hcurrent hmain
  | clear destroying =>
    rw [hmain] at hc
    cases destroying with
    | false => exact h.clear hcurrent hc
    | true => exact h.retire hcurrent hmain hc

/-! ### Every step -/

theorem Sound.take (h : Sound s) (hcurrent : s.current = some i) (htask : i.task = none)
    (hqueue : i.queue ≠ 0) :
    Sound { s with
      current := some (i.take s.nextManager), nextManager := s.nextManager + 1 } := by
  have hp := h.present i hcurrent
  have hfresh : s.nextManager ∉ s.stopped := fun hin =>
    Nat.lt_irrefl _ (h.fresh _ (h.stopped _ hin))
  refine ⟨fun m hm => Nat.lt_succ_of_lt (h.fresh m hm), h.stopped, h.callback, h.registration,
    h.retired, nofun, ?_⟩
  intro _ hi
  cases hi
  refine ⟨?_, hp.field, ?_, hp.mine, ?_⟩
  · intro m ops hops
    simp only [Instance.take] at hops
    split at hops
    next hfield =>
      cases hops
      exact ⟨hfield, hfresh, Nat.lt_succ_self _, List.suffix_refl _, .inr rfl⟩
    next => cases hops
  · intro m hm
    rcases hp.live m hm with hfield | ⟨ops, hops⟩
    · exact .inl hfield
    · rw [htask] at hops
      cases hops
  · have hat := hp.main
    change At _ _ s.main
    cases hmain : s.main with
    | idle => trivial
    | shutdownNow => trivial
    | stop destroying =>
      rw [hmain] at hat
      cases destroying with
      | false => trivial
      | true => exact absurd hat hqueue
    | nativeUnregister m destroying =>
      rw [hmain] at hat
      exact ⟨hat.1, fun hd => absurd (hat.2 hd).2 hqueue⟩
    | nativeDestroy m destroying =>
      rw [hmain] at hat
      exact ⟨hat.1, hat.2.1, fun hd => absurd (hat.2.2 hd).2 hqueue⟩
    | clear destroying =>
      rw [hmain] at hat
      exact fun hd => absurd (hat hd).2 hqueue

theorem Sound.step (h : Sound s) {a : Action} (ha : Caught s a) (hstep : step s a = some t) :
    Sound t := by
  cases a with
  | onCreate =>
    simp only [Lifecycle.step] at hstep
    split at hstep
    next hnone =>
      cases hstep
      have hall := (h.absent hnone.1).2
      refine ⟨h.fresh, h.stopped, h.callback, h.registration, h.retired, nofun, ?_⟩
      intro _ hi
      cases hi
      refine ⟨nofun, nofun, fun m hm => absurd (hall m hm.1) hm.2, nofun, ?_⟩
      change At _ _ s.main
      rw [hnone.2]
      trivial
    next => cases hstep
  | onStartCommand =>
    simp only [Lifecycle.step] at hstep
    split at hstep
    next i hcurrent hmain =>
      cases hstep
      have hnext := h.reposition hcurrent .idle { i with queue := i.queue + 1 } rfl rfl rfl
        trivial
      rwa [← hmain] at hnext
    next => cases hstep
  | shutdown =>
    simp only [Lifecycle.step] at hstep
    split at hstep
    next i hcurrent hmain =>
      cases hstep
      have hnext := h.reposition hcurrent (.stop false) i rfl rfl rfl trivial
      rwa [← hcurrent] at hnext
    next => cases hstep
  | onDestroy =>
    simp only [Lifecycle.step] at hstep
    split at hstep
    next i hcurrent hmain =>
      cases hstep
      have hnext := h.reposition hcurrent .shutdownNow i rfl rfl rfl trivial
      rwa [← hcurrent] at hnext
    next => cases hstep
  | main =>
    simp only [Lifecycle.step] at hstep
    split at hstep
    next i hcurrent =>
      split at hstep
      next => cases hstep
      next hbusy =>
        cases hstep
        exact h.mainStep hcurrent hbusy ha
    next => cases hstep
  | take =>
    simp only [Lifecycle.step] at hstep
    split at hstep
    next i hcurrent =>
      split at hstep
      next hready =>
        cases hstep
        exact h.take hcurrent hready.1 hready.2
      next => cases hstep
    next => cases hstep
  | stmt =>
    simp only [Lifecycle.step] at hstep
    split at hstep
    next i hcurrent =>
      obtain ⟨⟨i', m, st⟩, hstmt, rfl⟩ := Option.map_eq_some_iff.mp hstep
      exact h.stmt hcurrent hstmt
    next => cases hstep
  | stmtRetired n =>
    -- the executor of a destroyed instance has ended
    simp only [Lifecycle.step] at hstep
    split at hstep
    next i hget =>
      have hidle := (h.retired i (List.mem_of_getElem? hget)).1
      simp [Instance.stmtStep, hidle] at hstep
    next => cases hstep

/-- If each `onDestroy` and each shutdown catches the manager that is there, every
start is balanced by a stop. -/
theorem balanced_of_caught (as : List Action) (h : machine.Meets Caught .initial as) :
    machine.Always Balanced .initial as := by
  have hsound : machine.Always Sound .initial as := by
    apply Machine.always_of_meets _ sound_initial h
    intro s a t hs ha hstep
    exact hs.step ha hstep
  exact hsound.imp fun s hs => hs.balanced

/-- The service is created, started twice, shut down and destroyed. -/
theorem balanced_of_caught_shutdown : machine.Always Balanced .initial
    ([.onCreate, .take, .onStartCommand] ++ List.replicate 5 .stmt ++
      [.take, .shutdown, .main, .main, .main, .main, .onStartCommand, .take] ++
      List.replicate 5 .stmt ++ .onDestroy :: List.replicate 5 .main) :=
  balanced_of_caught _ (by decide)

/-- The service is destroyed inside `start`: its manager stays registered and keeps the
callback into the dead service, and the next instance starts a second one. And the
manager assigned while the shutdown receiver is between its two statements is
forgotten; the next `ensureSipManager` starts another beside it. -/
theorem start_without_stop :
    (∃ s, machine.run .initial ([.onCreate, .take, .stmt, .onDestroy, .main, .main, .main] ++
        List.replicate 4 (.stmtRetired 0)) = some s ∧ s.current = none ∧
      s.retired = [⟨some 0, 0, none, [0]⟩] ∧ s.gCallback = some 0 ∧ s.commands = [.register] ∧
      ¬ Balanced s ∧
      ∃ t, machine.run s [.onCreate, .take, .stmt] = some t ∧ t.Live 0 ∧ t.Live 1) ∧
    ∃ s, machine.run .initial ([.onCreate, .take] ++ List.replicate 4 .stmt ++
        [.shutdown, .main, .stmt, .main, .onStartCommand, .take, .stmt]) = some s ∧
      s.Live 0 ∧ s.Live 1 ∧ ¬ Balanced s := by
  have hlive (s : State) (m : ManagerId) (h : m ∈ s.started ∧ m ∉ s.stopped) : s.Live m := h
  constructor
  · refine ⟨_, rfl, rfl, rfl, rfl, rfl, ?_, _, rfl, hlive _ _ (by decide), hlive _ _ (by decide)⟩
    intro h
    exact absurd (h.stopped _ (List.mem_singleton_self _) rfl 0 (by decide)) (by decide)
  · refine ⟨_, rfl, hlive _ _ (by decide), hlive _ _ (by decide), fun h => ?_⟩
    have heq := h.single 0 1 (hlive _ _ (by decide)) (hlive _ _ (by decide))
    cases heq

/-! ### A manager that is missed is never stopped -/

/-- Neither the field the main thread will look at nor a task can bring the manager back. -/
structure Lost (m : ManagerId) (s : State) : Prop where
  old : m < s.nextManager
  notStopped : m ∉ s.stopped
  notUnregistering : ∀ destroying, s.main ≠ .nativeUnregister m destroying
  notStopping : ∀ destroying, s.main ≠ .nativeDestroy m destroying
  gone : ∀ i ∈ s.current, s.main = .clear true ∨
    i.sipManager ≠ some m ∧ ∀ ops, i.task ≠ some (m, ops)

variable {m : ManagerId}

theorem Lost.mainStep (h : Lost m s) (hcurrent : s.current = some i) (hbusy : s.main ≠ .idle) :
    Lost m (s.mainStep i) := by
  have hgone := h.gone i hcurrent
  unfold State.mainStep
  cases hmain : s.main with
  | idle => exact absurd hmain hbusy
  | shutdownNow =>
    refine ⟨h.old, h.notStopped, nofun, nofun, ?_⟩
    intro _ hi
    cases hi
    right
    simpa [hmain] using hgone
  | stop destroying =>
    have hfield : i.sipManager ≠ some m ∧ ∀ ops, i.task ≠ some (m, ops) := by
      simpa [hmain] using hgone
    cases hsome : i.sipManager with
    | none =>
      refine ⟨h.old, h.notStopped, nofun, nofun, fun j hj => .inr ?_⟩
      rw [hcurrent] at hj
      cases hj
      exact hfield
    | some m' =>
      have hne : m' ≠ m := fun heq => hfield.1 (by rw [hsome, heq])
      refine ⟨h.old, h.notStopped, ?_, nofun, fun j hj => .inr ?_⟩
      · intro d heq
        cases heq
        exact hne rfl
      · rw [hcurrent] at hj
        cases hj
        exact hfield
  | nativeUnregister m' destroying =>
    refine ⟨h.old, h.notStopped, nofun, ?_, fun j hj => .inr ?_⟩
    · intro d heq
      cases heq
      exact h.notUnregistering destroying hmain
    · rw [hcurrent] at hj
      cases hj
      simpa [hmain] using hgone
  | nativeDestroy m' destroying =>
    refine ⟨h.old, ?_, nofun, nofun, fun j hj => .inr ?_⟩
    · intro hin
      rcases List.mem_append.mp hin with hold | hnew
      · exact h.notStopped hold
      · rw [List.mem_singleton.mp hnew] at h
        exact h.notStopping destroying hmain
    · rw [hcurrent] at hj
      cases hj
      simpa [hmain] using hgone
  | clear destroying =>
    cases destroying with
    | true => exact ⟨h.old, h.notStopped, nofun, nofun, nofun⟩
    | false =>
      have htask : ∀ ops, i.task ≠ some (m, ops) := by
        have hboth : i.sipManager ≠ some m ∧ ∀ ops, i.task ≠ some (m, ops) := by
          simpa [hmain] using hgone
        exact hboth.2
      refine ⟨h.old, h.notStopped, nofun, nofun, ?_⟩
      intro _ hi
      cases hi
      exact .inr ⟨nofun, htask⟩

theorem Lost.stmt {i' : Instance} {m' : ManagerId} {st : Stmt}
    (hstmt : i.stmtStep = some (i', m', st))
    (hgone : i.sipManager ≠ some m ∧ ∀ ops, i.task ≠ some (m, ops)) :
    i'.sipManager ≠ some m ∧ ∀ ops, i'.task ≠ some (m, ops) := by
  obtain ⟨rest, htask, hcases⟩ := stmtStep_cases hstmt
  have hne : m' ≠ m := by
    rintro rfl
    exact hgone.2 _ htask
  rcases hcases with ⟨-, rfl⟩ | ⟨-, rfl⟩ | ⟨-, -, rfl⟩
  · exact ⟨hgone.1, fun ops heq => hne (congrArg Prod.fst (Option.some.inj heq))⟩
  · exact ⟨fun heq => hne (Option.some.inj heq), nofun⟩
  · exact ⟨hgone.1, fun ops heq => hne (congrArg Prod.fst (Option.some.inj heq))⟩

theorem Lost.perform (h : Lost m s) (current : Option Instance) (retired : List Instance)
    (m' : ManagerId) (st : Stmt) (hgone : ∀ i ∈ current, s.main = .clear true ∨
      i.sipManager ≠ some m ∧ ∀ ops, i.task ≠ some (m, ops)) :
    Lost m { s.perform m' st with current := current, retired := retired } := by
  cases st <;> exact ⟨h.old, h.notStopped, h.notUnregistering, h.notStopping, hgone⟩

theorem Lost.step (h : Lost m s) {a : Action} (hstep : step s a = some t) : Lost m t := by
  cases a with
  | onCreate =>
    simp only [Lifecycle.step] at hstep
    split at hstep
    next hnone =>
      cases hstep
      refine ⟨h.old, h.notStopped, h.notUnregistering, h.notStopping, ?_⟩
      intro _ hi
      cases hi
      exact .inr ⟨nofun, nofun⟩
    next => cases hstep
  | onStartCommand =>
    simp only [Lifecycle.step] at hstep
    split at hstep
    next i hcurrent hmain =>
      cases hstep
      refine ⟨h.old, h.notStopped, h.notUnregistering, h.notStopping, ?_⟩
      intro _ hi
      cases hi
      exact h.gone i hcurrent
    next => cases hstep
  | shutdown =>
    simp only [Lifecycle.step] at hstep
    split at hstep
    next j hcurrent hmain =>
      cases hstep
      refine ⟨h.old, h.notStopped, nofun, nofun, fun i hi => .inr ?_⟩
      simpa [hmain] using h.gone i hi
    next => cases hstep
  | onDestroy =>
    simp only [Lifecycle.step] at hstep
    split at hstep
    next j hcurrent hmain =>
      cases hstep
      refine ⟨h.old, h.notStopped, nofun, nofun, fun i hi => .inr ?_⟩
      simpa [hmain] using h.gone i hi
    next => cases hstep
  | main =>
    simp only [Lifecycle.step] at hstep
    split at hstep
    next i hcurrent =>
      split at hstep
      next => cases hstep
      next hbusy =>
        cases hstep
        exact h.mainStep hcurrent hbusy
    next => cases hstep
  | take =>
    simp only [Lifecycle.step] at hstep
    split at hstep
    next i hcurrent =>
      split at hstep
      next =>
        cases hstep
        refine ⟨Nat.lt_succ_of_lt h.old, h.notStopped, h.notUnregistering, h.notStopping, ?_⟩
        intro _ hi
        cases hi
        rcases h.gone i hcurrent with hmain | hboth
        · exact .inl hmain
        · refine .inr ⟨hboth.1, fun ops heq => ?_⟩
          simp only [Instance.take] at heq
          split at heq
          · have hnext : s.nextManager = m := congrArg Prod.fst (Option.some.inj heq)
            exact absurd hnext (Nat.ne_of_gt h.old)
          · cases heq
      next => cases hstep
    next => cases hstep
  | stmt =>
    simp only [Lifecycle.step] at hstep
    split at hstep
    next i hcurrent =>
      obtain ⟨⟨i', m', st⟩, hstmt, rfl⟩ := Option.map_eq_some_iff.mp hstep
      have hperform := h.perform (some i') s.retired m' st
      have hretired : (s.perform m' st).retired = s.retired := by cases st <;> rfl
      rw [← hretired] at hperform
      apply hperform
      intro _ hi
      cases hi
      rcases h.gone i hcurrent with hmain | hboth
      · exact .inl hmain
      · exact .inr (Lost.stmt hstmt hboth)
    next => cases hstep
  | stmtRetired n =>
    simp only [Lifecycle.step] at hstep
    split at hstep
    next i hget =>
      obtain ⟨⟨i', m', st⟩, hstmt, rfl⟩ := Option.map_eq_some_iff.mp hstep
      have hcurrent : (s.perform m' st).current = s.current := by cases st <;> rfl
      have hperform := h.perform s.current (s.retired.set n i') m' st h.gone
      rwa [← hcurrent] at hperform
    next => cases hstep

/-- The condition asks for no more than this: where a step of the main thread misses
it, some manager is started, or about to be, that nothing will ever stop. -/
theorem lost_of_not_caught (h : Sound s) (hmissed : ¬ Caught s .main)
    (hstep : step s .main = some t) :
    ∃ m, (t.Live m ∨ ∃ i ∈ t.current, i.task = some (m, ensureStmts)) ∧
      ∀ as u, machine.run t as = some u → m ∉ u.stopped := by
  have hrun (m : ManagerId) (hlost : Lost m t) (as : List Action) (u : State)
      (hrun : machine.run t as = some u) : m ∉ u.stopped :=
    (Machine.run_preserves (P := Lost m) (fun s a t hs ht => hs.step ht) hlost hrun).notStopped
  simp only [step] at hstep
  split at hstep
  next i hcurrent =>
    have hp := h.present i hcurrent
    have hat := hp.main
    split at hstep
    next => cases hstep
    next hbusy =>
      simp only [Caught, hcurrent, Option.mem_some_iff, forall_eq'] at hmissed
      simp only [State.mainStep] at hstep
      cases hmain : s.main with
      | stop destroying =>
        rw [hmain] at hmissed hat
        cases destroying with
        | false => exact absurd trivial hmissed
        | true =>
          obtain ⟨⟨m, ops⟩, htask⟩ := Option.ne_none_iff_exists'.mp hmissed
          have hstart := hp.task m ops htask
          simp only [hmain, hstart.field, Option.some.injEq] at hstep
          subst hstep
          refine ⟨m, ?_, hrun m ⟨hstart.fresh, hstart.notStopped, nofun, nofun, fun _ _ => .inl rfl⟩⟩
          rcases hstart.started with hin | rfl
          · exact .inl ⟨hin, hstart.notStopped⟩
          · exact .inr ⟨i, hcurrent, htask⟩
      | clear destroying =>
        rw [hmain] at hmissed
        simp only [not_forall] at hmissed
        obtain ⟨m, hfield, hnot⟩ := hmissed
        have hin := hp.field m hfield
        have hidle := hp.idle hfield
        cases destroying with
        | false =>
          simp only [hmain, Option.some.injEq] at hstep
          subst hstep
          refine ⟨m, .inl ⟨hin, hnot⟩, hrun m ⟨h.fresh m hin, hnot, nofun, nofun, ?_⟩⟩
          intro _ hi
          cases hi
          exact .inr ⟨nofun, by simp [hidle]⟩
        | true =>
          simp only [hmain, Option.some.injEq] at hstep
          subst hstep
          exact ⟨m, .inl ⟨hin, hnot⟩, hrun m ⟨h.fresh m hin, hnot, nofun, nofun, nofun⟩⟩
      | _ =>
        rw [hmain] at hmissed
        exact absurd trivial hmissed
  next => cases hstep

end SimplePhone.Service.Lifecycle
