import SimplePhone.Service.Frame

/-! Recovery from a change of network. The service keeps one flag, armed by a loss and
consumed by the next network; which networks there are, and which of them the
registration was made on, only the system knows. -/
namespace SimplePhone.Service

open Native Transition

abbrev NetworkId := Nat

/-- The networks as the connectivity callbacks report them. -/
structure Networks where
  /-- `registerNetworkCallback` (API 22) reports every network, the default-network
  callback (API 24) only the one in use, without the loss of the one it replaces. -/
  perNetwork : Bool
  available : List NetworkId
  inUse : Option NetworkId
  /-- Available when the registration was made, and neither lost nor replaced since. -/
  carrying : List NetworkId
  /-- A registration was made. -/
  made : Bool
  /-- A re-registration was handed to the native layer since `inUse` is in use. -/
  queued : Bool
deriving DecidableEq

namespace Networks

def use (next : Option NetworkId) (w : Networks) : Networks :=
  { w with inUse := next, queued := w.queued && (next = w.inUse) }

/-- The system may move to a new network or stay with the one in use. -/
def onAvailable (n : NetworkId) (moves : Bool) (w : Networks) : Networks :=
  if w.perNetwork then
    { w with available := if n ∈ w.available then w.available else n :: w.available }.use
      (if moves || w.inUse = none then some n else w.inUse)
  else { w with available := [n], carrying := w.carrying.filter (· = n) }.use (some n)

def onLost (n : NetworkId) (next : Option NetworkId) (w : Networks) : Networks :=
  { w with available := w.available.erase n, carrying := w.carrying.filter (· ≠ n) }.use next

/-- Losing the network in use, the system moves to another if there is one. -/
def mayLose (n : NetworkId) (next : Option NetworkId) (w : Networks) : Bool :=
  n ∈ w.available &&
    if w.inUse = some n then
      match next with
      | none => (w.available.erase n).isEmpty
      | some n' => n' ∈ w.available.erase n
    else next = w.inUse

/-- A registration succeeds. -/
def register (w : Networks) : Networks :=
  { w with made := !w.available.isEmpty, carrying := w.available }

/-- The phone is on a network, and on none that the registration was made on. -/
def Stranded (w : Networks) : Prop := w.made ∧ w.carrying = [] ∧ w.inUse ≠ none

instance (w : Networks) : Decidable w.Stranded := inferInstanceAs (Decidable (_ ∧ _ ∧ _))

end Networks

structure NetState where
  service : State
  networks : Networks
deriving DecidableEq

inductive NetAction where
  | onAvailable (n : NetworkId) (moves : Bool)
  | onLost (n : NetworkId) (next : Option NetworkId)
  | service (a : Action)
deriving DecidableEq

/-- The service runs and stays configured, and the connectivity callbacks come with
their network. -/
def Action.whileRunning : Action → Bool
  | .request .networkLost | .request .networkAvailable | .request .legacyConnected => false
  | .request .shutdown | .request .destroy => false
  | .request (.saveAndApply config) => config.isConfigured
  | _ => true

def Networks.note (w : Networks) (s : State) : Action → Networks
  | .native (.event (.registerOk _)) => w.register
  | .op => if s.ops.head? = some .nativeReregister then { w with queued := true } else w
  | _ => w

def netStep (p : NetState) : NetAction → Option NetState
  | .onAvailable n moves =>
      (step p.service (.request .networkAvailable)).map fun t => ⟨t, p.networks.onAvailable n moves⟩
  | .onLost n next =>
      if p.networks.mayLose n next then
        (step p.service (.request .networkLost)).map fun t => ⟨t, p.networks.onLost n next⟩
      else none
  | .service a =>
      if a.whileRunning then
        (step p.service a).map fun t => ⟨t, p.networks.note p.service a⟩
      else none

def NetState.initial (account : Buffers) (config : SipConfig) (perNetwork : Bool) : NetState :=
  ⟨.initial account config, ⟨perNetwork, [], none, [], false, false⟩⟩

/-- A configured service from its `onCreate` on. -/
def netMachine : Machine NetState NetAction where
  start p := ∃ account config perNetwork, config.isConfigured ∧
    p = .initial account config perNetwork
  step := netStep

/-! ### Recovery -/

def Task.reregisters : Task → Bool
  | .reregisterIfReady | .applySettings true => true
  | _ => false

/-- A re-registration waits in the queue of the executor or in its running task. -/
def Waiting (s : State) : Prop := .nativeReregister ∈ s.ops ∨ ∃ task ∈ s.queue, task.reregisters

instance (s : State) : Decidable (Waiting s) := inferInstanceAs (Decidable (_ ∨ _))

/-- Off the networks of its registration the phone has queued a new one. -/
def Recovering (p : NetState) : Prop :=
  p.networks.Stranded → p.networks.queued ∨ Waiting p.service

/-- Once the executor has drained, the native layer has it. -/
theorem Recovering.drained {p : NetState} (h : Recovering p) (hqueue : p.service.queue = [])
    (hops : p.service.ops = []) (hstranded : p.networks.Stranded) : p.networks.queued := by
  rcases h hstranded with hqueued | hop | ⟨task, htask, -⟩
  · exact hqueued
  · rw [hops] at hop
    cases hop
  · rw [hqueue] at htask
    cases htask

/-- The networks change under the registration only when the service is ready for it:
a new network finds the flag armed, a loss leaves a network of the registration or
none at all, and the task that is due finds the service registered. Otherwise a
re-registration must be on its way already. -/
def Steady (p : NetState) : NetAction → Prop
  | .onAvailable n moves =>
      (p.networks.onAvailable n moves).Stranded → p.service.networkRearmNeeded ∨
        (p.networks.onAvailable n moves).queued ∨ Waiting p.service
  | .onLost n next =>
      (p.networks.onLost n next).Stranded →
        (p.networks.onLost n next).queued ∨ Waiting p.service
  | .service .take =>
      p.networks.Stranded → ∀ task ∈ p.service.queue.head?, task.reregisters →
        .nativeReregister ∈ p.service.taskOps task ∨
          p.networks.queued ∨ ∃ task' ∈ p.service.queue.tail, task'.reregisters
  | _ => True

instance (p : NetState) (a : NetAction) : Decidable (Steady p a) := by
  unfold Steady
  split <;> infer_instance

variable {s t : State} {p q : NetState}

theorem waiting_execute (task : Task) (s : State) :
    Waiting (s.execute task) ↔ Waiting s ∨ task.reregisters := by
  unfold Waiting State.execute
  simp only [List.mem_append, List.mem_singleton]
  constructor
  · rintro (hop | ⟨task', hold | rfl, htask'⟩)
    · exact .inl (.inl hop)
    · exact .inl (.inr ⟨task', hold, htask'⟩)
    · exact .inr htask'
  · rintro ((hop | ⟨task', hold, htask'⟩) | htask)
    · exact .inl hop
    · exact .inr ⟨task', .inl hold, htask'⟩
    · exact .inr ⟨task, .inr rfl, htask⟩

theorem waiting_mono (hops : t.ops = s.ops) (hqueue : s.queue ⊆ t.queue) (h : Waiting s) :
    Waiting t := by
  rcases h with hop | ⟨task, htask, hre⟩
  · exact .inl (hops ▸ hop)
  · exact .inr ⟨task, hqueue htask, hre⟩

/-- Only the executor itself takes from its queue and its task. -/
theorem executor_frame {a : Action} (htake : a ≠ .take) (hop : a ≠ .op)
    (hrunning : a.whileRunning = true) (hstep : step s a = some t) :
    t.ops = s.ops ∧ s.queue ⊆ t.queue := by
  have happend (u : State) (task : Task) : u.queue ⊆ (u.execute task).queue :=
    List.subset_append_left _ _
  cases a with
  | native b =>
    obtain ⟨-, g, -, rfl⟩ := step_native.mp hstep
    exact ⟨callbacks_ops _ _, by rw [callbacks_queue]; exact List.Subset.refl _⟩
  | watchdog silent =>
    obtain ⟨-, rfl | rfl | ⟨-, rfl⟩⟩ := step_watchdog hstep <;>
      exact ⟨rfl, List.Subset.refl _⟩
  | take => exact absurd rfl htake
  | op => exact absurd rfl hop
  | message =>
    obtain ⟨m, rest, -, rfl⟩ := step_message.mp hstep
    cases m <;> exact ⟨rfl, List.Subset.refl _⟩
  | ringTimeout =>
    obtain ⟨-, -, rfl⟩ := step_ringTimeout.mp hstep
    unfold State.onRingTimeout
    split
    · exact ⟨rfl, happend _ .endCall⟩
    · exact ⟨rfl, List.Subset.refl _⟩
  | request r =>
    obtain ⟨-, rfl⟩ := step_request.mp hstep
    cases r with
    | networkLost => cases hrunning
    | networkAvailable => cases hrunning
    | legacyConnected => cases hrunning
    | shutdown => cases hrunning
    | destroy => cases hrunning
    | screenOff =>
      simp only [Request.run]
      split
      · exact ⟨rfl, happend _ .endCall⟩
      · exact ⟨rfl, List.Subset.refl _⟩
    | startCommand =>
      simp only [Request.run]
      split
      · exact ⟨rfl, happend _ .ensureSipManager⟩
      · exact ⟨rfl, List.Subset.refl _⟩
    | _ => exact ⟨rfl, List.subset_append_left _ _⟩

/-! ### One step -/

theorem recovering_onAvailable {n : NetworkId} {moves : Bool}
    (hstep : netStep p (.onAvailable n moves) = some q) :
    Recovering q ↔ Steady p (.onAvailable n moves) := by
  obtain ⟨t, ht, rfl⟩ := Option.map_eq_some_iff.mp hstep
  obtain ⟨-, rfl⟩ := step_request.mp ht
  have hwaiting : Waiting (Request.networkAvailable.run p.service) ↔
      p.service.networkRearmNeeded ∨ Waiting p.service := by
    simp only [Request.run, Service.networkAvailable]
    split
    next harmed =>
      rw [waiting_execute]
      simp [harmed, Task.reregisters]
    next harmed =>
      simp [harmed]
  unfold Recovering Steady
  rw [hwaiting]
  constructor <;> intro h hstranded
  · rcases h hstranded with hqueued | harmed | hwait
    · exact .inr (.inl hqueued)
    · exact .inl harmed
    · exact .inr (.inr hwait)
  · rcases h hstranded with harmed | hqueued | hwait
    · exact .inr (.inl harmed)
    · exact .inl hqueued
    · exact .inr (.inr hwait)

theorem recovering_onLost {n : NetworkId} {next : Option NetworkId}
    (hstep : netStep p (.onLost n next) = some q) :
    Recovering q ↔ Steady p (.onLost n next) := by
  simp only [netStep] at hstep
  split at hstep
  · obtain ⟨t, ht, rfl⟩ := Option.map_eq_some_iff.mp hstep
    obtain ⟨-, rfl⟩ := step_request.mp ht
    rfl
  · cases hstep

/-- A task that does not re-register keeps what waits; one that does has to pass its
checks. -/
theorem recovering_take (h : Recovering p) (hstep : netStep p (.service .take) = some q) :
    Recovering q ↔ Steady p (.service .take) := by
  obtain ⟨t, ht, rfl⟩ := Option.map_eq_some_iff.mp hstep
  obtain ⟨task, rest, hops, hqueue, rfl⟩ := step_take.mp ht
  unfold Recovering Steady Waiting at *
  simp only [Networks.note, hqueue, List.head?_cons, List.tail_cons, Option.mem_some_iff,
    forall_eq']
  rw [hops, hqueue] at h
  simp only [List.not_mem_nil, List.mem_cons, exists_eq_or_imp, false_or] at h
  constructor
  · intro hq hstranded _
    rcases hq hstranded with hqueued | hop | hrest
    · exact .inr (.inl hqueued)
    · exact .inl hop
    · exact .inr (.inr hrest)
  · intro hsteady hstranded
    rcases h hstranded with hqueued | htask | hrest
    · exact .inl hqueued
    · rcases hsteady hstranded htask with hop | hqueued | hrest
      · exact .inr (.inl hop)
      · exact .inl hqueued
      · exact .inr (.inr hrest)
    · exact .inr (.inr hrest)

theorem runOp_executor (s : State) (op : Op) :
    (s.runOp op).ops = s.ops ∧ (s.runOp op).queue = s.queue := by
  cases op <;> exact ⟨rfl, rfl⟩

theorem Recovering.op (h : Recovering p) (hstep : netStep p (.service .op) = some q) :
    Recovering q := by
  obtain ⟨t, ht, rfl⟩ := Option.map_eq_some_iff.mp hstep
  obtain ⟨op, rest, hops, rfl⟩ := step_op.mp ht
  intro hstranded
  by_cases hre : op = .nativeReregister
  · left
    simp [Networks.note, hops, hre]
  · have hkeep : p.networks.note p.service .op = p.networks := by
      simp [Networks.note, hops, hre]
    simp only [hkeep] at hstranded ⊢
    rcases h hstranded with hqueued | hop | htask
    · exact .inl hqueued
    · rw [hops] at hop
      rcases List.mem_cons.mp hop with heq | hrest
      · exact absurd heq.symm hre
      · exact .inr (.inl (by rw [(runOp_executor _ op).1]; exact hrest))
    · exact .inr (.inr (by rw [(runOp_executor _ op).2]; exact htask))

/-- A new registration is made on the networks there are. -/
theorem not_stranded_register (w : Networks) : ¬ w.register.Stranded := by
  rintro ⟨hmade, hcarrying, -⟩
  simp [Networks.register] at hmade hcarrying
  exact hmade hcarrying

theorem Recovering.other (h : Recovering p) {a : Action} (htake : a ≠ .take) (hop : a ≠ .op)
    (hstep : netStep p (.service a) = some q) : Recovering q := by
  simp only [netStep] at hstep
  split at hstep
  next hrunning =>
    obtain ⟨t, ht, rfl⟩ := Option.map_eq_some_iff.mp hstep
    obtain ⟨hops, hqueue⟩ := executor_frame htake hop hrunning ht
    intro hstranded
    by_cases hregister : ∃ prm, a = .native (.event (.registerOk prm))
    · obtain ⟨prm, rfl⟩ := hregister
      exact absurd hstranded (not_stranded_register _)
    · have hkeep : p.networks.note p.service a = p.networks := by
        unfold Networks.note
        split
        next prm => exact absurd ⟨prm, rfl⟩ hregister
        next => exact absurd rfl hop
        next => rfl
      simp only [hkeep] at hstranded ⊢
      rcases h hstranded with hqueued | hwait
      · exact .inl hqueued
      · exact .inr (waiting_mono hops hqueue hwait)
  next => cases hstep

theorem recovering_step (h : Recovering p) {a : NetAction} (hstep : netStep p a = some q) :
    Recovering q ↔ Steady p a := by
  cases a with
  | onAvailable n moves => exact recovering_onAvailable hstep
  | onLost n next => exact recovering_onLost hstep
  | service a =>
    by_cases htake : a = .take
    · subst htake
      exact recovering_take h hstep
    · have hsteady : Steady p (.service a) := by
        unfold Steady
        split <;> first | trivial | exact absurd (NetAction.service.inj ‹_›) htake
      have hq : Recovering q := by
        by_cases hop : a = .op
        · subst hop
          exact h.op hstep
        · exact h.other htake hop hstep
      exact ⟨fun _ => hsteady, fun _ => hq⟩

/-- The phone recovers from every change of network exactly if each comes when the flag
and the registration are ready for it. -/
theorem recovering_iff_steady (account : Buffers) (config : SipConfig) (perNetwork : Bool)
    (as : List NetAction) :
    netMachine.Always Recovering (.initial account config perNetwork) as ↔
      netMachine.Meets Steady (.initial account config perNetwork) as := by
  apply Machine.always_iff_meets (I := Recovering) (fun _ h => h)
  · intro p a q hp hstep
    exact recovering_step hp hstep
  · intro p a q hp ha hstep
    exact (recovering_step hp hstep).mpr ha
  · rintro ⟨hmade, -⟩
    cases hmade

/-- The service is up, registered on network 1. -/
def onNetwork : List NetAction := .onAvailable 1 true :: started.map .service

/-- Make before break: network 2 comes before network 1 goes, or replaces it as the
default. Break before make: the registration fails while there is no network, and the
one recovery that is tried is vetoed. -/
theorem recovery_missed :
    (∃ p, netMachine.run (.initial (nativeInit .sample) .sample true)
        (onNetwork ++ [.onAvailable 2 false, .onLost 1 (some 2)]) = some p ∧
      p.service.queue = [] ∧ p.service.ops = [] ∧ p.service.native.gRegistered = true ∧
      ¬ Recovering p) ∧
    (∃ p, netMachine.run (.initial (nativeInit .sample) .sample false)
        (onNetwork ++ [.onAvailable 2 true]) = some p ∧
      p.service.queue = [] ∧ p.service.ops = [] ∧ p.service.native.gRegistered = true ∧
      ¬ Recovering p) ∧
    ∃ p, netMachine.run (.initial (nativeInit .sample) .sample false)
        (onNetwork ++ [.onLost 1 none, .service (.native (.event (.registerFail []))),
          .onAvailable 2 true, .service .take]) = some p ∧
      p.service.queue = [] ∧ p.service.ops = [] ∧ p.service.networkRearmNeeded = false ∧
      ¬ Recovering p := by
  have hmissed (p : NetState) (hqueue : p.service.queue = []) (hops : p.service.ops = [])
      (hstranded : p.networks.Stranded) (hqueued : p.networks.queued = false) :
      ¬ Recovering p := by
    intro h
    rw [h.drained hqueue hops hstranded] at hqueued
    cases hqueued
  refine ⟨⟨_, rfl, rfl, rfl, rfl, ?_⟩, ⟨_, rfl, rfl, rfl, rfl, ?_⟩, ⟨_, rfl, rfl, rfl, rfl, ?_⟩⟩
  · exact hmissed _ rfl rfl (by decide) rfl
  · exact hmissed _ rfl rfl (by decide) rfl
  · exact hmissed _ rfl rfl (by decide) rfl

/-- Break before make with the registration intact: network 2 is recovered on. -/
example : ∃ p, netMachine.run (.initial (nativeInit .sample) .sample false)
    (onNetwork ++ [.onLost 1 none, .onAvailable 2 true, .service .take, .service .op]) = some p ∧
      p.networks.Stranded ∧ p.networks.queued = true := ⟨_, rfl, by decide, rfl⟩

end SimplePhone.Service
