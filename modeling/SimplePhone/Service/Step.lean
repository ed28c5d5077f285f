import SimplePhone.Service.State

/-! The machine of the service process: the event loop of the native layer, the
watchdog, the executor and the main looper, one statement or callback at a time. -/
namespace SimplePhone.Service

open Native Transition

/-- What the user and the system ask of the service. -/
inductive Request where
  | makeCall (number : Str)
  | answerCall
  | endCall
  | sendDtmf (digit : UInt8)
  | setMute (mute : Bool)
  | screenOff
  | saveAndApply (config : SipConfig)
  | networkLost
  | networkAvailable
  | legacyConnected
  | startCommand
  | shutdown
  | destroy
deriving DecidableEq

inductive Action where
  /-- the event loop of `re_main`, with the callbacks it makes -/
  | native (a : Native.Action)
  /-- the watchdog looks, after its sleep -/
  | watchdog (silent : Bool)
  /-- the executor begins its next task -/
  | take
  /-- the executor runs the next statement of the task -/
  | op
  /-- the main looper runs its next message -/
  | message
  /-- 45 seconds have passed -/
  | ringTimeout
  | request (r : Request)
deriving DecidableEq

/-- `SettingsActivity.saveAndApply`. -/
def saveAndApply (config : SipConfig) (s : State) : State :=
  { s with config := config }.execute (.applySettings (config ≠ s.config))

def networkAvailable (s : State) : State :=
  if s.networkRearmNeeded then
    { s with networkRearmNeeded := false }.execute .reregisterIfReady
  else s

def Request.run (s : State) : Request → State
  | .makeCall number => s.makeCall number
  | .answerCall => s.answerCall
  | .endCall => s.endCall
  | .sendDtmf digit => s.execute (.sendDtmf digit)
  | .setMute mute => s.execute (.setMute mute)
  | .screenOff => if s.callActive then s.endCall else s
  | .saveAndApply config => Service.saveAndApply config s
  | .networkLost => { s with networkRearmNeeded := true }
  | .networkAvailable => Service.networkAvailable s
  | .legacyConnected => s.execute .reregisterIfReady
  | .startCommand => if s.config.isConfigured then s.execute .ensureSipManager else s
  | .shutdown => s.stop
  | .destroy => s.onDestroy

/-- `UA_EVENT_CALL_ESTABLISHED` starts the watchdog, heard or not. -/
def startsWatchdog (delivered : List Delivery) : Bool :=
  delivered.any (·.callback = .onCallStarted)

def nativeStep (s : State) (a : Native.Action) : Option State :=
  match a with
  | .post _ => none
  | a => (Native.step s.native a).map fun g =>
      ({ s with native := g, watchdog := s.watchdog || startsWatchdog g.delivered }).callbacks
        g.delivered

/-- `watchdog_thread` after one sleep: it ends with the call or with its hangup. -/
def watchdogStep (s : State) (silent : Bool) : Option State :=
  if s.watchdog then
    if s.native.gCall = none then some { s with watchdog := false }
    else if silent then some { s.remainRun .timeoutHangup with watchdog := false }
    else some s
  else none

def takeStep (s : State) : Option State :=
  match s.ops, s.queue with
  | [], task :: rest => some { s with queue := rest, ops := s.taskOps task }
  | _, _ => none

def opStep (s : State) : Option State :=
  match s.ops with
  | [] => none
  | op :: rest => some ({ s with ops := rest }.runOp op)

def messageStep (s : State) : Option State :=
  match s.main with
  | [] => none
  | m :: rest => some ({ s with main := rest }.handleMessage m)

def step (s : State) : Action → Option State
  | .native a => nativeStep s a
  | .watchdog silent => watchdogStep s silent
  | .take => takeStep s
  | .op => opStep s
  | .message => messageStep s
  | .ringTimeout =>
      if s.ringTimer && s.alive then some { s with ringTimer := false }.onRingTimeout else none
  | .request r => if s.alive then some (r.run s) else none

/-- One process with one instance of the service. -/
def machine : Machine State Action where
  start s := ∃ account config, s = State.initial account config
  step := step

/-- For examples: the executor starts the `SipManager`, and the registration succeeds. -/
def started : List Action :=
  [.take, .op, .op, .op, .op, .native (.work .ok), .native (.event (.registerOk []))]

/-! ### Inversion -/

variable {s t : State}

theorem step_native {a : Native.Action} : step s (.native a) = some t ↔
    (∀ w, a ≠ .post w) ∧ ∃ g, Native.step s.native a = some g ∧
      ({ s with native := g, watchdog := s.watchdog || startsWatchdog g.delivered }).callbacks
        g.delivered = t := by
  change nativeStep s a = some t ↔ _
  unfold nativeStep
  cases a <;> simp

theorem step_watchdog {silent : Bool} (hstep : step s (.watchdog silent) = some t) :
    s.watchdog = true ∧ (t = s ∨ t = { s with watchdog := false } ∨
      s.native.gCall ≠ none ∧ t = { s.remainRun .timeoutHangup with watchdog := false }) := by
  change watchdogStep s silent = some t at hstep
  unfold watchdogStep at hstep
  split at hstep
  · refine ⟨by assumption, ?_⟩
    split at hstep
    · exact .inr (.inl (Option.some.inj hstep).symm)
    · split at hstep
      · exact .inr (.inr ⟨by assumption, (Option.some.inj hstep).symm⟩)
      · exact .inl (Option.some.inj hstep).symm
  · cases hstep

theorem step_take : step s .take = some t ↔ ∃ task rest, s.ops = [] ∧ s.queue = task :: rest ∧
    { s with queue := rest, ops := s.taskOps task } = t := by
  change takeStep s = some t ↔ _
  unfold takeStep
  cases hops : s.ops <;> cases hqueue : s.queue <;> simp

theorem step_op : step s .op = some t ↔
    ∃ op rest, s.ops = op :: rest ∧ ({ s with ops := rest } : State).runOp op = t := by
  change opStep s = some t ↔ _
  unfold opStep
  cases hops : s.ops <;> simp

theorem step_message : step s .message = some t ↔
    ∃ m rest, s.main = m :: rest ∧ ({ s with main := rest } : State).handleMessage m = t := by
  change messageStep s = some t ↔ _
  unfold messageStep
  cases hmain : s.main <;> simp

theorem step_ringTimeout : step s .ringTimeout = some t ↔ s.ringTimer = true ∧ s.alive = true ∧
    ({ s with ringTimer := false } : State).onRingTimeout = t := by
  simp [step, and_assoc]

theorem step_request {r : Request} :
    step s (.request r) = some t ↔ s.alive = true ∧ r.run s = t := by
  simp [step]

end SimplePhone.Service
