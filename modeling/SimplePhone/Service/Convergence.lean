import SimplePhone.Native.Aim
import SimplePhone.Service.Pipeline

/-! One process over its whole life: instances of the service come and go, the native
layer and the stored account stay. The account reaches the native layer through the
first `nativeInit` and then only through re-registrations. -/
namespace SimplePhone.Service

open Native Transition

/-- The executor of a destroyed instance, with what the task that `shutdownNow` has left
running still has to do. -/
structure Executor where
  /-- The account that `start` has read. -/
  account : SipConfig
  ops : List Op
deriving DecidableEq

structure Process where
  service : State
  /-- `g_initialized` -/
  initialized : Bool
  /-- The account that the last `start` of this instance has read. -/
  account : SipConfig
  retired : List Executor
deriving DecidableEq

inductive ProcessAction where
  /-- a save of the settings screen or a QR import, with `sipService` set or `null` -/
  | save (config : SipConfig) (bound : Bool)
  /-- the system creates the service again -/
  | create
  /-- a destroyed instance goes on with its task -/
  | retired (n : Nat)
  | service (a : Action)
deriving DecidableEq

/-- `onCreate` of the next instance. What belongs to the process and to the system stays;
the callback object was dropped, or is one of the old instance. -/
def State.recreate (s : State) : State :=
  { State.initial s.native.account s.config with
    native := s.native
    watchdog := s.watchdog
    main := s.main
    audioMode := s.audioMode
    ringtone := s.ringtone
    incomingNotification := s.incomingNotification
    missedNotification := s.missedNotification
    intents := s.intents }

/-- The fields and the listeners of the old instance are nobody's any more. -/
def State.runRetired (s : State) : Op → State
  | .nativeSetCallback => { s with gCallback := false }
  | .setAudioMode inCall => s.setAudioMode inCall
  | .remainRun w => s.remainRun w
  | .nativeReregister => s.remainRun (.reregister s.config.buildAor)
  | .refuseOwnNumber _ | .onDebug _ | .setSipManager => s

/-- `start` calls `nativeInit` right after `nativeSetCallback`, with the account it read
before. Nothing of the native layer runs before the first one. -/
def Process.afterOp (p : Process) (account : SipConfig) (op : Option Op) : Process :=
  if op = some .nativeSetCallback ∧ p.initialized = false then
    { p with
      service := { p.service with
        native := { p.service.native with account := nativeInit account } }
      initialized := true }
  else p

def processStep (p : Process) : ProcessAction → Option Process
  | .save config bound =>
      if bound then
        (step p.service (.request (.saveAndApply config))).map fun t => { p with service := t }
      else some { p with service := { p.service with config := config } }
  | .create =>
      if p.service.alive then none
      else some { p with
        service := p.service.recreate
        retired := p.retired ++ [⟨p.account, p.service.ops⟩] }
  | .retired n =>
      match p.retired[n]? with
      | some ⟨account, op :: rest⟩ =>
          some ({ p with
            service := p.service.runRetired op
            retired := p.retired.set n ⟨account, rest⟩ }.afterOp account (some op))
      | _ => none
  | .service (.request (.saveAndApply _)) => none
  | .service (.native (.work lib)) =>
      if lib.registers then
        (step p.service (.native (.work lib))).map fun t => { p with service := t }
      else none
  | .service .take => (step p.service .take).map fun t => { p with
      service := t
      account := if t.ops.head? = some .nativeSetCallback then p.service.config else p.account }
  | .service .op => (step p.service .op).map fun t =>
      { p with service := t }.afterOp p.account p.service.ops.head?
  | .service a => (step p.service a).map fun t => { p with service := t }

def Process.initial (config : SipConfig) : Process :=
  ⟨.initial ⟨[], [], [], [], 5060⟩ config, false, config, []⟩

/-- The process of the application, from the first `onCreate` on. -/
def processMachine : Machine Process ProcessAction where
  start p := ∃ config, p = .initial config
  step := processStep

/-- The service runs with a configured account, and its executor and `re_main` have
nothing to do. -/
def Process.Quiet (p : Process) : Prop :=
  p.service.alive ∧ p.service.sipManager ∧ p.service.config.isConfigured ∧
    p.service.queue = [] ∧ p.service.ops = [] ∧ p.service.native.posted = [] ∧
    p.service.native.dialing = none

instance (p : Process) : Decidable p.Quiet := inferInstanceAs (Decidable (_ ∧ _))

def Converged (p : Process) : Prop :=
  p.Quiet → p.service.native.gUa.map Ua.aor = some p.service.config.buildAor

instance (p : Process) : Decidable (Converged p) := inferInstanceAs (Decidable (_ → _))

/-! ### The way of a changed account -/

/-- The AOR the native layer registers with, now or from its first registration on. -/
def heading (initialized : Bool) (g : Globals) : Option Str :=
  g.aim.or (if initialized then some (buildAccountAor g.account 256) else none)

/-- Whatever the native layer has been given so far is this AOR. -/
def Process.Heads (p : Process) (aor : Str) : Prop :=
  ∀ x ∈ heading p.initialized p.service.native, x = aor

/-- There is a `SipManager`, or the running task is about to set it. -/
def State.managing (s : State) : Bool := s.sipManager || decide (.setSipManager ∈ s.ops)

/-- Among the tasks is an `applySettings(true)` that will find a `SipManager`. -/
def reapplies : Bool → List Task → Bool
  | _, [] => false
  | managing, .applySettings true :: rest => managing || reapplies managing rest
  | _, .ensureSipManager :: rest => reapplies true rest
  | managing, _ :: rest => reapplies managing rest

/-- A re-registration is on its way to the native layer. -/
def Due (s : State) : Prop := .nativeReregister ∈ s.ops ∨ reapplies s.managing s.queue

instance (p : Process) (aor : Str) : Decidable (p.Heads aor) :=
  inferInstanceAs (Decidable (∀ x ∈ heading p.initialized p.service.native, x = aor))

instance (s : State) : Decidable (Due s) := inferInstanceAs (Decidable (_ ∨ _))

/-- What `start` copies with the first `nativeInit` is still the stored account, and fits
the buffers. -/
def Process.Copies (p : Process) (account : SipConfig) (op : Option Op) : Prop :=
  op = some .nativeSetCallback → p.initialized = false →
    buildAccountAor (nativeInit account) 256 = p.service.config.buildAor ∨ Due p.service

instance (p : Process) (account : SipConfig) (op : Option Op) :
    Decidable (p.Copies account op) := inferInstanceAs (Decidable (_ → _))

/-- No step loses an account on its way. A save leaves the native layer with the account
it has, or comes while a re-registration is due, or makes one due itself: bound, and with
a `SipManager` that is there when its task runs. No stop drops a re-registration that is
needed, and no new instance is created ahead of one. -/
def Delivers (p : Process) : ProcessAction → Prop
  | .save config bound => p.Heads config.buildAor ∨ Due p.service ∨
      bound ∧ config ≠ p.service.config ∧
        (p.service.managing ∨ .ensureSipManager ∈ p.service.queue)
  | .create => p.Heads p.service.config.buildAor
  | .retired n => ∀ e ∈ p.retired[n]?, p.Copies e.account e.ops.head?
  | .service (.request .shutdown) =>
      p.Heads p.service.config.buildAor ∨ Due { p.service with sipManager := false }
  | .service (.request .destroy) =>
      p.Heads p.service.config.buildAor ∨ .nativeReregister ∈ p.service.ops
  | .service .op => p.Copies p.account p.service.ops.head?
  | _ => True

instance (p : Process) (a : ProcessAction) : Decidable (Delivers p a) := by
  unfold Delivers
  split <;> infer_instance

/-! ### What is aimed at -/

variable {s t : State} {p q : Process} {g : Globals}

theorem heading_remainRun {initialized : Bool} {w : Work}
    (hregister : w = .register → initialized = true) (hw : ∀ aor, w ≠ .reregister aor) :
    heading initialized (Native.remainRun w g.begin) = heading initialized g := by
  unfold heading
  rw [aim_remainRun]
  cases w with
  | register =>
    rw [hregister rfl]
    change (some (g.aim.getD (buildAccountAor g.account 256))).or _ = _
    cases g.aim <;> rfl
  | reregister aor => exact absurd rfl (hw aor)
  | _ => rfl

theorem heading_reregister (initialized : Bool) (aor : Str) (g : Globals) :
    heading initialized (Native.remainRun (.reregister aor) g.begin) = some aor := by
  unfold heading
  rw [aim_remainRun]
  rfl

theorem reapplies_mono {m n : Bool} (hmn : m = true → n = true) {tasks : List Task}
    (h : reapplies m tasks = true) : reapplies n tasks = true := by
  induction tasks generalizing m n with
  | nil => cases h
  | cons task rest ih =>
    cases task with
    | ensureSipManager => exact h
    | applySettings accountChanged =>
      cases accountChanged with
      | false => exact ih hmn h
      | true =>
        simp only [reapplies, Bool.or_eq_true] at h ⊢
        exact h.imp hmn (ih hmn)
    | _ => exact ih hmn h

theorem reapplies_append {m : Bool} {tasks : List Task} (h : reapplies m tasks = true)
    (more : List Task) : reapplies m (tasks ++ more) = true := by
  induction tasks generalizing m with
  | nil => cases h
  | cons task rest ih =>
    rw [List.cons_append]
    cases task with
    | ensureSipManager => exact ih (m := true) h
    | applySettings accountChanged =>
      cases accountChanged with
      | false => exact ih (m := m) h
      | true =>
        simp only [reapplies, Bool.or_eq_true] at h ⊢
        exact h.imp_right ih
    | _ => exact ih (m := m) h

/-- A re-registration that is asked for behind a start finds its `SipManager`. -/
theorem reapplies_push {m : Bool} {tasks : List Task}
    (h : m = true ∨ .ensureSipManager ∈ tasks) :
    reapplies m (tasks ++ [.applySettings true]) = true := by
  induction tasks generalizing m with
  | nil =>
    have hm : m = true := h.resolve_right List.not_mem_nil
    simp [reapplies, hm]
  | cons task rest ih =>
    rw [List.cons_append]
    cases task with
    | ensureSipManager => exact ih (m := true) (.inl rfl)
    | applySettings accountChanged =>
      have hrest := ih (m := m) (h.imp_right fun hmem => by simpa using hmem)
      cases accountChanged with
      | false => exact hrest
      | true => simp [reapplies, hrest]
    | _ => exact ih (m := m) (h.imp_right fun hmem => by simpa using hmem)

/-! ### The statements that are left -/

/-- The statements of a task come in an order in which the library is initialised before
it is used, and a `SipManager` is set when a user agent is aimed at. -/
def Ordered : Bool → Bool → List Op → Bool
  | _, _, [] => true
  | _, aimed, .nativeSetCallback :: rest => Ordered true aimed rest
  | initialized, _, .remainRun .register :: rest => initialized && Ordered initialized true rest
  | _, _, .remainRun (.reregister _) :: _ => false
  | initialized, _, .nativeReregister :: rest => initialized && Ordered initialized true rest
  | initialized, aimed, .setSipManager :: rest =>
      initialized && aimed && Ordered initialized aimed rest
  | initialized, aimed, _ :: rest => Ordered initialized aimed rest

theorem ordered_mono {i j a b : Bool} (hij : i = true → j = true) (hab : a = true → b = true)
    {ops : List Op} (h : Ordered i a ops = true) : Ordered j b ops = true := by
  induction ops generalizing i j a b with
  | nil => rfl
  | cons op rest ih =>
    cases op with
    | nativeSetCallback => exact ih (fun _ => rfl) hab h
    | nativeReregister =>
      simp only [Ordered, Bool.and_eq_true] at h ⊢
      exact ⟨hij h.1, ih hij (fun _ => rfl) h.2⟩
    | setSipManager =>
      simp only [Ordered, Bool.and_eq_true] at h ⊢
      exact ⟨⟨hij h.1.1, hab h.1.2⟩, ih hij hab h.2⟩
    | remainRun w =>
      cases w with
      | register =>
        simp only [Ordered, Bool.and_eq_true] at h ⊢
        exact ⟨hij h.1, ih hij (fun _ => rfl) h.2⟩
      | reregister aor => cases h
      | _ => exact ih hij hab h
    | _ => exact ih hij hab h

/-- A task that re-registers has found a `SipManager`. -/
theorem ordered_taskOps (s : State) (task : Task) {i a : Bool}
    (h : s.sipManager = true → i = true ∧ a = true) : Ordered i a (s.taskOps task) = true := by
  cases hm : s.sipManager with
  | false => cases task <;> simp [State.taskOps, hm, Ordered]
  | true =>
    obtain ⟨rfl, rfl⟩ := h hm
    cases task with
    | reregisterIfReady =>
      simp only [State.taskOps]
      split <;> rfl
    | makeCall number =>
      simp only [State.taskOps, hm]
      split
      · rfl
      · split <;> rfl
    | applySettings accountChanged => cases accountChanged <;> simp [State.taskOps, hm, Ordered]
    | _ => simp [State.taskOps, hm, Ordered]

/-! ### The invariant -/

structure Provisioned (p : Process) : Prop where
  managed : p.service.sipManager = true →
    p.initialized = true ∧ p.service.native.aim.isSome = true
  ordered : Ordered p.initialized p.service.native.aim.isSome p.service.ops = true
  retired : ∀ e ∈ p.retired, Ordered p.initialized p.service.native.aim.isSome e.ops = true
  fresh : p.service.native.aim.isSome = true → p.initialized = true
  idle : p.service.alive = false → p.service.queue = []
  delivers : p.Heads p.service.config.buildAor ∨ Due p.service

theorem provisioned_initial (config : SipConfig) : Provisioned (.initial config) where
  managed := nofun
  ordered := rfl
  retired := nofun
  fresh := nofun
  idle := nofun
  delivers := .inl nofun

theorem Provisioned.converged (h : Provisioned p) : Converged p := by
  rintro ⟨-, hmanager, -, hqueue, hops, hposted, -⟩
  have hdue : ¬ Due p.service := by
    rintro (hop | htask)
    · rw [hops] at hop
      cases hop
    · rw [hqueue] at htask
      cases htask
  obtain ⟨aor, haor⟩ := Option.isSome_iff_exists.mp (h.managed hmanager).2
  have hheads := h.delivers.resolve_right hdue aor (by simp [heading, haor])
  rw [← aim_of_idle hposted, haor, hheads]

/-- What running one statement leads to. -/
structure Performed (p q : Process) (op : Op) (rest : List Op) : Prop where
  initialized : p.initialized = true → q.initialized = true
  aimed : p.service.native.aim.isSome = true → q.service.native.aim.isSome = true
  ordered : Ordered q.initialized q.service.native.aim.isSome rest = true
  fresh : q.service.native.aim.isSome = true → q.initialized = true
  manages : op = .setSipManager → q.initialized = true ∧ q.service.native.aim.isSome = true
  delivers : q.Heads p.service.config.buildAor ∨ op ≠ .nativeReregister ∧ Due p.service

theorem afterOp_of_ne {account : SipConfig} {op : Op} (h : op ≠ .nativeSetCallback) :
    p.afterOp account (some op) = p :=
  if_neg fun hop => h (Option.some.inj hop.1)

/-- A statement that leaves the native layer alone. -/
theorem Provisioned.performed_quiet (h : Provisioned p) {op : Op} {rest : List Op}
    (hinit : q.initialized = p.initialized) (hnative : q.service.native = p.service.native)
    (hordered : Ordered p.initialized p.service.native.aim.isSome rest = true)
    (hmanages : op = .setSipManager →
      p.initialized = true ∧ p.service.native.aim.isSome = true)
    (hop : op ≠ .nativeReregister) : Performed p q op rest := by
  refine ⟨?_, ?_, ?_, ?_, ?_, ?_⟩
  · exact fun hp => hinit.trans hp
  · rw [hnative]
    exact id
  · rw [hinit, hnative]
    exact hordered
  · rw [hinit, hnative]
    exact h.fresh
  · rw [hinit, hnative]
    exact hmanages
  · unfold Process.Heads
    rw [hinit, hnative]
    exact h.delivers.imp_right fun hdue => ⟨hop, hdue⟩

/-- A statement that posts a handler. -/
theorem Provisioned.performed_post (h : Provisioned p) {w : Work} {op : Op} {rest : List Op}
    (hinit : q.initialized = p.initialized)
    (hnative : q.service.native = Native.remainRun w p.service.native.begin)
    (hregister : w.creates = true → p.initialized = true)
    (hordered : Ordered p.initialized (w.creates || p.service.native.aim.isSome) rest = true)
    (hop : op ≠ .setSipManager)
    (hdelivers : q.Heads p.service.config.buildAor ∨ op ≠ .nativeReregister ∧ Due p.service) :
    Performed p q op rest := by
  have haim : q.service.native.aim.isSome = (w.creates || p.service.native.aim.isSome) := by
    rw [hnative, aim_remainRun]
    cases w <;> rfl
  refine ⟨?_, ?_, ?_, ?_, ?_, hdelivers⟩
  · exact fun hp => hinit.trans hp
  · intro hp
    rw [haim, hp, Bool.or_true]
  · rw [hinit, haim]
    exact hordered
  · rw [hinit, haim, Bool.or_eq_true]
    exact fun haimed => haimed.elim hregister h.fresh
  · exact fun heq => absurd heq hop

theorem Provisioned.perform (h : Provisioned p) {account : SipConfig} {op : Op} {rest : List Op}
    (hordered : Ordered p.initialized p.service.native.aim.isSome (op :: rest) = true)
    (hcopies : p.Copies account (some op)) {u : State}
    (hnative : u.native = (p.service.runOp op).native) (es : List Executor) :
    Performed p ({ p with service := u, retired := es }.afterOp account (some op)) op rest := by
  by_cases hcallback : op = .nativeSetCallback
  · subst hcallback
    by_cases hinit : p.initialized = true
    · have hskip : Process.afterOp { p with service := u, retired := es } account
          (some .nativeSetCallback) = { p with service := u, retired := es } :=
        if_neg fun hfirst => by simp [hinit] at hfirst
      rw [hskip]
      refine h.performed_quiet rfl hnative ?_ nofun nofun
      rw [hinit]
      exact hordered
    · have hfalse : p.initialized = false := eq_false_of_ne_true hinit
      -- nothing was aimed at before, so the copy decides
      have hnone : p.service.native.aim = none :=
        Option.not_isSome_iff_eq_none.mp fun haim => hinit (h.fresh haim)
      have hfirst : Process.afterOp { p with service := u, retired := es } account
          (some .nativeSetCallback) = { p with
            service := { u with native := { u.native with account := nativeInit account } }
            retired := es
            initialized := true } := if_pos ⟨rfl, hfalse⟩
      have haim : ({ u.native with account := nativeInit account } : Globals).aim = none := by
        obtain ⟨hua, hworks⟩ := aim_eq_none_iff.mp hnone
        rw [hnative]
        exact aim_eq_none_iff.mpr ⟨hua, hworks⟩
      rw [hfirst]
      refine ⟨fun _ => rfl, ?_, ?_, fun _ => rfl, nofun, ?_⟩
      · rw [hnone]
        nofun
      · rw [hnone] at hordered
        simp only [haim]
        exact hordered
      · refine (hcopies rfl hfalse).imp ?_ fun hdue => ⟨nofun, hdue⟩
        intro hcopy x hx
        simp only [heading, haim] at hx
        rw [← hcopy]
        exact (Option.mem_some.mp hx).symm
  · rw [afterOp_of_ne hcallback]
    cases op with
    | nativeSetCallback => exact absurd rfl hcallback
    | nativeReregister =>
      simp only [Ordered, Bool.and_eq_true] at hordered
      refine h.performed_post rfl hnative (fun _ => hordered.1) hordered.2 nofun (.inl ?_)
      intro x hx
      simp only [hnative] at hx
      change x ∈ heading p.initialized (Native.remainRun (.reregister p.service.config.buildAor)
        p.service.native.begin) at hx
      rw [heading_reregister] at hx
      exact (Option.mem_some.mp hx).symm
    | setSipManager =>
      simp only [Ordered, Bool.and_eq_true] at hordered
      exact h.performed_quiet rfl hnative hordered.2 (fun _ => hordered.1) nofun
    | remainRun w =>
      have hregister : w = .register → p.initialized = true := by
        rintro rfl
        simp only [Ordered, Bool.and_eq_true] at hordered
        exact hordered.1
      have hw (aor : Str) : w ≠ .reregister aor := by
        rintro rfl
        cases hordered
      refine h.performed_post rfl hnative ?_ ?_ nofun ?_
      · intro hcreates
        cases w with
        | register => exact hregister rfl
        | reregister aor => exact absurd rfl (hw aor)
        | _ => cases hcreates
      · cases w with
        | register =>
          simp only [Ordered, Bool.and_eq_true] at hordered
          exact hordered.2
        | reregister aor => exact absurd rfl (hw aor)
        | _ => exact hordered
      · have hheading : heading p.initialized u.native =
            heading p.initialized p.service.native := by
          rw [hnative]
          exact heading_remainRun hregister hw
        unfold Process.Heads
        rw [hheading]
        exact h.delivers.imp_right fun hdue => ⟨nofun, hdue⟩
    | setAudioMode inCall =>
      exact h.performed_quiet rfl hnative hordered nofun nofun
    | refuseOwnNumber number =>
      exact h.performed_quiet rfl hnative hordered nofun nofun
    | onDebug message =>
      exact h.performed_quiet rfl hnative hordered nofun nofun

/-! ### Everything but the executor -/

/-- A step that only adds tasks and handlers which have nothing to do with the account. -/
structure Aside (s t : State) : Prop where
  aim : t.native.aim = s.native.aim
  account : t.native.account = s.native.account
  config : t.config = s.config
  sipManager : t.sipManager = s.sipManager
  ops : t.ops = s.ops
  alive : t.alive = s.alive
  queue : t.queue = s.queue ∨ s.alive = true ∧ ∃ task, t.queue = s.queue ++ [task]

theorem Aside.heading (h : Aside s t) (initialized : Bool) :
    heading initialized t.native = heading initialized s.native := by
  unfold Service.heading
  rw [h.aim, h.account]

theorem Aside.due (h : Aside s t) (hdue : Due s) : Due t := by
  unfold Due State.managing at *
  rw [h.ops, h.sipManager]
  rcases h.queue with heq | ⟨-, task, heq⟩
  · rw [heq]
    exact hdue
  · rw [heq]
    exact hdue.imp_right fun hre => reapplies_append hre [task]

theorem Provisioned.aside (h : Provisioned p) (ht : Aside p.service t) :
    Provisioned { p with service := t } := by
  refine ⟨?_, ?_, ?_, ?_, ?_, ?_⟩
  · rw [ht.sipManager, ht.aim]
    exact h.managed
  · rw [ht.aim, ht.ops]
    exact h.ordered
  · rw [ht.aim]
    exact h.retired
  · rw [ht.aim]
    exact h.fresh
  · intro halive
    rcases ht.queue with heq | ⟨hwas, -⟩
    · rw [heq]
      exact h.idle (ht.alive.symm.trans halive)
    · rw [← ht.alive, halive] at hwas
      cases hwas
  · unfold Process.Heads
    rw [ht.heading, ht.config]
    exact h.delivers.imp_right ht.due

/-- The steps of the service in which an account can get lost. -/
def Action.touchesAccount : Action → Bool
  | .take | .op | .request (.saveAndApply _) | .request .shutdown | .request .destroy => true
  | _ => false

theorem aside_step {a : Action} (ha : a.touchesAccount = false)
    (hlib : ∀ lib, a = .native (.work lib) → lib.registers = true)
    (hstep : step s a = some t) : Aside s t := by
  have hexecute (task : Task) (u : State) (halive : s.alive = true) (haim : u.native = s.native)
      (hconfig : u.config = s.config) (hm : u.sipManager = s.sipManager) (hops : u.ops = s.ops)
      (ha : u.alive = s.alive) (hqueue : u.queue = s.queue ++ [task]) : Aside s u :=
    ⟨by rw [haim], by rw [haim], hconfig, hm, hops, ha, .inr ⟨halive, task, hqueue⟩⟩
  cases a with
  | native b =>
    obtain ⟨hpost, g, hg, rfl⟩ := step_native.mp hstep
    have haim : g.aim = s.native.aim := by
      apply aim_step hpost ?_ hg
      rintro lib rfl
      have hregisters := hlib lib rfl
      unfold Lib.registers at hregisters
      exact (Bool.and_eq_true_iff.mp hregisters).1
    refine ⟨?_, ?_, callbacks_config _ _, callbacks_sipManager _ _, callbacks_ops _ _,
      callbacks_alive _ _, .inl (callbacks_queue _ _)⟩
    · rw [callbacks_native]
      exact haim
    · rw [callbacks_native]
      exact step_account hg
  | watchdog silent =>
    obtain ⟨-, rfl | rfl | ⟨-, rfl⟩⟩ := step_watchdog hstep
    · exact ⟨rfl, rfl, rfl, rfl, rfl, rfl, .inl rfl⟩
    · exact ⟨rfl, rfl, rfl, rfl, rfl, rfl, .inl rfl⟩
    · exact ⟨aim_remainRun .timeoutHangup s.native.begin, rfl, rfl, rfl, rfl, rfl, .inl rfl⟩
  | take => cases ha
  | op => cases ha
  | message =>
    obtain ⟨m, rest, -, rfl⟩ := step_message.mp hstep
    cases m <;> exact ⟨rfl, rfl, rfl, rfl, rfl, rfl, .inl rfl⟩
  | ringTimeout =>
    obtain ⟨-, halive, rfl⟩ := step_ringTimeout.mp hstep
    unfold State.onRingTimeout
    split
    · unfold State.showMissedCallNotification State.notifyListeners State.execute State.post
      exact hexecute .endCall _ halive rfl rfl rfl rfl rfl rfl
    · exact ⟨rfl, rfl, rfl, rfl, rfl, rfl, .inl rfl⟩
  | request r =>
    obtain ⟨halive, rfl⟩ := step_request.mp hstep
    cases r with
    | saveAndApply config => cases ha
    | shutdown => cases ha
    | destroy => cases ha
    | networkLost => exact ⟨rfl, rfl, rfl, rfl, rfl, rfl, .inl rfl⟩
    | screenOff =>
      simp only [Request.run]
      split
      · exact hexecute .endCall _ halive rfl rfl rfl rfl rfl rfl
      · exact ⟨rfl, rfl, rfl, rfl, rfl, rfl, .inl rfl⟩
    | networkAvailable =>
      simp only [Request.run, Service.networkAvailable]
      split
      · exact hexecute .reregisterIfReady _ halive rfl rfl rfl rfl rfl rfl
      · exact ⟨rfl, rfl, rfl, rfl, rfl, rfl, .inl rfl⟩
    | startCommand =>
      simp only [Request.run]
      split
      · exact hexecute .ensureSipManager _ halive rfl rfl rfl rfl rfl rfl
      · exact ⟨rfl, rfl, rfl, rfl, rfl, rfl, .inl rfl⟩
    | makeCall number => exact hexecute (.makeCall number) _ halive rfl rfl rfl rfl rfl rfl
    | answerCall => exact hexecute .answerCall _ halive rfl rfl rfl rfl rfl rfl
    | endCall => exact hexecute .endCall _ halive rfl rfl rfl rfl rfl rfl
    | sendDtmf digit => exact hexecute (.sendDtmf digit) _ halive rfl rfl rfl rfl rfl rfl
    | setMute mute => exact hexecute (.setMute mute) _ halive rfl rfl rfl rfl rfl rfl
    | legacyConnected => exact hexecute .reregisterIfReady _ halive rfl rfl rfl rfl rfl rfl

/-! ### The executor -/

theorem Provisioned.take (h : Provisioned p) {account : SipConfig}
    (hstep : step p.service .take = some t) :
    Provisioned { p with service := t, account := account } := by
  obtain ⟨task, rest, hops, hqueue, rfl⟩ := step_take.mp hstep
  refine ⟨h.managed, ordered_taskOps p.service task h.managed, h.retired, h.fresh, ?_, ?_⟩
  · intro halive
    have hidle := h.idle halive
    rw [hqueue] at hidle
    cases hidle
  · refine h.delivers.imp_right ?_
    rintro (hop | hre)
    · rw [hops] at hop
      cases hop
    · have hmanaging : p.service.managing = p.service.sipManager := by
        unfold State.managing
        rw [hops]
        exact Bool.or_false _
      rw [hqueue, hmanaging] at hre
      have hkeep (hre : reapplies p.service.sipManager rest = true) :
          Due { p.service with queue := rest, ops := p.service.taskOps task } :=
        .inr (reapplies_mono (fun hm => by unfold State.managing; simp [hm]) hre)
      cases task with
      | applySettings accountChanged =>
        cases accountChanged with
        | false => exact hkeep hre
        | true =>
          simp only [reapplies, Bool.or_eq_true] at hre
          rcases hre with hm | hrest
          · refine .inl ?_
            simp [State.taskOps, hm]
          · exact hkeep hrest
      | ensureSipManager =>
        refine .inr (reapplies_mono (m := true) (fun _ => ?_) hre)
        unfold State.managing
        cases hm : p.service.sipManager <;> simp [State.taskOps, hm]
      | _ => exact hkeep hre

theorem afterOp_service (p : Process) (account : SipConfig) (op : Option Op) :
    (∃ g, (p.afterOp account op).service = { p.service with native := g }) ∧
      (p.afterOp account op).retired = p.retired := by
  unfold Process.afterOp
  split
  · exact ⟨⟨_, rfl⟩, rfl⟩
  · exact ⟨⟨p.service.native, rfl⟩, rfl⟩

theorem runOp_frame (s : State) (op : Op) :
    (s.runOp op).config = s.config ∧ (s.runOp op).alive = s.alive ∧
      (s.runOp op).ops = s.ops ∧ (s.runOp op).queue = s.queue ∧
      (s.runOp op).sipManager = (s.sipManager || decide (op = .setSipManager)) := by
  cases op <;> simp [State.runOp, State.remainRun, State.setAudioMode, State.notifyListeners,
    State.post, State.onCallFailed, State.endRingingAndNotify]

theorem runRetired_frame (s : State) (op : Op) :
    (s.runRetired op).native = (s.runOp op).native ∧ (s.runRetired op).config = s.config ∧
      (s.runRetired op).alive = s.alive ∧ (s.runRetired op).ops = s.ops ∧
      (s.runRetired op).queue = s.queue ∧ (s.runRetired op).sipManager = s.sipManager := by
  cases op <;> exact ⟨rfl, rfl, rfl, rfl, rfl, rfl⟩

theorem Provisioned.op (h : Provisioned p) (hd : Delivers p (.service .op))
    (hstep : step p.service .op = some t) :
    Provisioned ({ p with service := t }.afterOp p.account p.service.ops.head?) := by
  obtain ⟨op, rest, hops, rfl⟩ := step_op.mp hstep
  have hhead : p.service.ops.head? = some op := by rw [hops]; rfl
  have hnative : (({ p.service with ops := rest } : State).runOp op).native =
      (p.service.runOp op).native := by
    cases op <;> rfl
  change p.Copies p.account p.service.ops.head? at hd
  rw [hhead] at hd ⊢
  have hperformed := h.perform (hops ▸ h.ordered) hd hnative p.retired
  obtain ⟨⟨g, hservice⟩, hretired⟩ := afterOp_service
    { p with service := ({ p.service with ops := rest } : State).runOp op } p.account (some op)
  generalize Process.afterOp { p with
    service := ({ p.service with ops := rest } : State).runOp op } p.account (some op) = q
    at hperformed hservice hretired ⊢
  obtain ⟨hconfig, halive, hrest, hqueue, hmanager⟩ := runOp_frame { p.service with ops := rest } op
  have hset : q.service.sipManager = (p.service.sipManager || decide (op = .setSipManager)) := by
    rw [hservice]
    exact hmanager
  have hleft : q.service.ops = rest := by
    rw [hservice]
    exact hrest
  have htasks : q.service.queue = p.service.queue := by
    rw [hservice]
    exact hqueue
  refine ⟨?_, ?_, ?_, hperformed.fresh, ?_, ?_⟩
  · rw [hset, Bool.or_eq_true]
    rintro (hm | hop)
    · exact ⟨hperformed.initialized (h.managed hm).1, hperformed.aimed (h.managed hm).2⟩
    · exact hperformed.manages (of_decide_eq_true hop)
  · rw [hleft]
    exact hperformed.ordered
  · rw [hretired]
    intro e he
    exact ordered_mono hperformed.initialized hperformed.aimed (h.retired e he)
  · rw [htasks]
    intro hdead
    rw [hservice] at hdead
    exact h.idle (halive.symm.trans hdead)
  · have hq : q.service.config = p.service.config := by
      rw [hservice]
      exact hconfig
    rw [hq]
    refine hperformed.delivers.imp_right ?_
    rintro ⟨hop, hdue⟩
    have hmanaging : q.service.managing = p.service.managing := by
      unfold State.managing
      rw [hset, hleft, hops, Bool.or_assoc]
      congr 1
      simp only [List.mem_cons, eq_comm (a := op), Bool.decide_or]
    unfold Due at *
    rw [hmanaging, hleft, htasks]
    refine hdue.imp_left ?_
    rw [hops]
    exact fun hmem => (List.mem_cons.mp hmem).resolve_left fun heq => hop heq.symm

theorem Provisioned.retire (h : Provisioned p) {n : Nat} (hd : Delivers p (.retired n))
    (hstep : processStep p (.retired n) = some q) : Provisioned q := by
  simp only [processStep] at hstep
  split at hstep
  next account op rest hn =>
    cases hstep
    have hmem : (⟨account, op :: rest⟩ : Executor) ∈ p.retired := List.mem_of_getElem? hn
    have hcopies : p.Copies account (some op) := hd _ (Option.mem_def.mpr hn)
    obtain ⟨hnative, hconfig, halive, hops, hqueue, hmanager⟩ := runRetired_frame p.service op
    have hperformed := h.perform (h.retired _ hmem) hcopies hnative
      (p.retired.set n ⟨account, rest⟩)
    obtain ⟨⟨g, hservice⟩, hretired⟩ := afterOp_service { p with
      service := p.service.runRetired op, retired := p.retired.set n ⟨account, rest⟩ } account
      (some op)
    generalize Process.afterOp { p with
      service := p.service.runRetired op, retired := p.retired.set n ⟨account, rest⟩ } account
      (some op) = q at hperformed hservice hretired ⊢
    refine ⟨?_, ?_, ?_, hperformed.fresh, ?_, ?_⟩
    · rw [hservice]
      simp only [hmanager]
      intro hm
      have hmanaged := h.managed hm
      have haimed := hperformed.aimed hmanaged.2
      rw [hservice] at haimed
      exact ⟨hperformed.initialized hmanaged.1, haimed⟩
    · have hkeep := ordered_mono hperformed.initialized hperformed.aimed h.ordered
      rw [hservice] at hkeep ⊢
      simp only [hops]
      exact hkeep
    · rw [hretired]
      intro e he
      rcases List.mem_or_eq_of_mem_set he with hold | rfl
      · exact ordered_mono hperformed.initialized hperformed.aimed (h.retired e hold)
      · exact hperformed.ordered
    · rw [hservice]
      simp only [halive, hqueue]
      exact h.idle
    · have hdue (hdue : Due p.service) : Due q.service := by
        rw [hservice]
        unfold Due State.managing at *
        simp only [hops, hqueue, hmanager]
        exact hdue
      have hq : q.service.config = p.service.config := by
        rw [hservice]
        exact hconfig
      rw [hq]
      exact hperformed.delivers.imp_right fun hpending => hdue hpending.2
  next => cases hstep

/-! ### Saves, stops and starts -/

theorem Provisioned.save (h : Provisioned p) {config : SipConfig} {bound : Bool}
    (hd : Delivers p (.save config bound)) (hstep : processStep p (.save config bound) = some q) :
    Provisioned q := by
  cases bound with
  | false =>
    cases hstep
    refine ⟨h.managed, h.ordered, h.retired, h.fresh, h.idle, ?_⟩
    rcases hd with hheads | hdue | ⟨hbound, -⟩
    · exact .inl hheads
    · exact .inr hdue
    · cases hbound
  | true =>
    obtain ⟨t, ht, rfl⟩ := Option.map_eq_some_iff.mp hstep
    obtain ⟨halive, rfl⟩ := step_request.mp ht
    refine ⟨h.managed, h.ordered, h.retired, h.fresh, ?_, ?_⟩
    · intro hdead
      exact absurd (halive.symm.trans hdead) (by decide)
    · rcases hd with hheads | hdue | ⟨-, hchanged, hheard⟩
      · exact .inl hheads
      · exact .inr (hdue.imp_right fun hre => reapplies_append hre _)
      · refine .inr (.inr ?_)
        change reapplies p.service.managing (p.service.queue ++ [.applySettings _]) = true
        rw [decide_eq_true hchanged]
        exact reapplies_push hheard

/-- The `SipManager` goes, and the queue may. -/
theorem Provisioned.stop (h : Provisioned p) (hmanager : t.sipManager = false)
    (hnative : t.native = p.service.native ∨
      t.native = Native.remainRun .unregister p.service.native.begin)
    (hops : t.ops = p.service.ops) (hidle : t.alive = false → t.queue = [])
    (hconfig : t.config = p.service.config)
    (hd : p.Heads p.service.config.buildAor ∨ Due t) : Provisioned { p with service := t } := by
  have haim : t.native.aim = p.service.native.aim := by
    rcases hnative with heq | heq
    · rw [heq]
    · rw [heq, aim_remainRun]
      rfl
  have haccount : t.native.account = p.service.native.account := by
    rcases hnative with heq | heq
    · rw [heq]
    · rw [heq]
      rfl
  refine ⟨?_, ?_, ?_, ?_, hidle, ?_⟩
  · rw [hmanager]
    nofun
  · rw [haim, hops]
    exact h.ordered
  · rw [haim]
    exact h.retired
  · rw [haim]
    exact h.fresh
  · unfold Process.Heads heading at hd ⊢
    rw [haim, haccount, hconfig]
    exact hd

theorem Provisioned.shutdown (h : Provisioned p) (hd : Delivers p (.service (.request .shutdown)))
    (hstep : step p.service (.request .shutdown) = some t) :
    Provisioned { p with service := t } := by
  obtain ⟨-, rfl⟩ := step_request.mp hstep
  simp only [Request.run, State.stop]
  split
  next => exact h.stop rfl (.inr rfl) rfl h.idle rfl hd
  next => exact h

theorem Provisioned.destroy (h : Provisioned p) (hd : Delivers p (.service (.request .destroy)))
    (hstep : step p.service (.request .destroy) = some t) :
    Provisioned { p with service := t } := by
  obtain ⟨-, rfl⟩ := step_request.mp hstep
  have hdue (hop : .nativeReregister ∈ p.service.ops) : Due p.service.onDestroy := by
    refine .inl ?_
    unfold State.onDestroy State.stop
    split <;> exact hop
  have hd' := hd.imp_right hdue
  simp only [Request.run]
  unfold State.onDestroy State.stop at hd' ⊢
  split at hd'
  next hm =>
    rw [if_pos hm]
    exact h.stop rfl (.inr rfl) rfl (fun _ => rfl) rfl hd'
  next hm =>
    rw [if_neg hm]
    exact h.stop (eq_false_of_ne_true hm) (.inl rfl) rfl (fun _ => rfl) rfl hd'

theorem Provisioned.create (h : Provisioned p) (hd : Delivers p .create)
    (hstep : processStep p .create = some q) : Provisioned q := by
  simp only [processStep] at hstep
  split at hstep
  next => cases hstep
  next =>
    cases hstep
    refine ⟨nofun, rfl, ?_, h.fresh, nofun, .inl hd⟩
    intro e he
    rcases List.mem_append.mp he with hold | hnew
    · exact h.retired e hold
    · rw [List.mem_singleton.mp hnew]
      exact h.ordered

theorem processStep_service {a : Action} (htake : a ≠ .take) (hop : a ≠ .op)
    (hstep : processStep p (.service a) = some q) :
    ∃ t, step p.service a = some t ∧ q = { p with service := t } ∧
      (∀ config, a ≠ .request (.saveAndApply config)) ∧
      ∀ lib, a = .native (.work lib) → lib.registers = true := by
  unfold processStep at hstep
  split at hstep
  next heq => cases heq
  next heq => cases heq
  next heq => cases heq
  next => cases hstep
  next lib heq =>
    cases heq
    split at hstep
    next hlib =>
      obtain ⟨t, ht, rfl⟩ := Option.map_eq_some_iff.mp hstep
      exact ⟨t, ht, rfl, nofun, fun lib' hlib' => by cases hlib'; exact hlib⟩
    next => cases hstep
  next heq => exact absurd (ProcessAction.service.inj heq) htake
  next heq => exact absurd (ProcessAction.service.inj heq) hop
  next b hsave hwork _ _ heq =>
    cases heq
    obtain ⟨t, ht, rfl⟩ := Option.map_eq_some_iff.mp hstep
    exact ⟨t, ht, rfl, hsave, fun lib hlib => absurd hlib (hwork lib)⟩

theorem Provisioned.step (h : Provisioned p) {a : ProcessAction} (hd : Delivers p a)
    (hstep : processStep p a = some q) : Provisioned q := by
  cases a with
  | save config bound => exact h.save hd hstep
  | create => exact h.create hd hstep
  | retired n => exact h.retire hd hstep
  | service a =>
    by_cases htake : a = .take
    · subst htake
      obtain ⟨t, ht, rfl⟩ := Option.map_eq_some_iff.mp hstep
      exact h.take ht
    by_cases hop : a = .op
    · subst hop
      obtain ⟨t, ht, rfl⟩ := Option.map_eq_some_iff.mp hstep
      exact h.op hd ht
    obtain ⟨t, ht, rfl, hsave, hlib⟩ := processStep_service htake hop hstep
    by_cases hshutdown : a = .request .shutdown
    · subst hshutdown
      exact h.shutdown hd ht
    by_cases hdestroy : a = .request .destroy
    · subst hdestroy
      exact h.destroy hd ht
    refine h.aside (aside_step ?_ hlib ht)
    cases a with
    | take => exact absurd rfl htake
    | op => exact absurd rfl hop
    | request r =>
      cases r with
      | saveAndApply config => exact absurd rfl (hsave config)
      | shutdown => exact absurd rfl hshutdown
      | destroy => exact absurd rfl hdestroy
      | _ => rfl
    | _ => rfl

/-- For examples: an account at another server. -/
def moved : SipConfig := { SipConfig.sample with server := utf8 "192.0.2.2" }

/-- For examples: the service starts up. -/
def starts : List ProcessAction := started.map .service

/-- For examples: the account moves by a bound save, then the service starts again. -/
def movesAndRestarts : List ProcessAction :=
  starts ++ [.save moved true, .service .take, .service .op, .service .op,
    .service (.native (.work .ok)), .service (.request .destroy),
    .service (.native (.work .ok)), .create, .service .take, .service .op, .service .op,
    .service .op, .service .op, .service (.native (.work .ok))]

/-- As long as no step loses an account on its way, the account in use is the stored one
whenever there is nothing left to do. -/
theorem converged_of_delivers (config : SipConfig) (as : List ProcessAction)
    (h : processMachine.Meets Delivers (.initial config) as) :
    processMachine.Always Converged (.initial config) as := by
  have hprovisioned : processMachine.Always Provisioned (.initial config) as :=
    Machine.always_of_meets (fun _ _ _ hp ha hstep => hp.step ha hstep)
      (provisioned_initial config) h
  exact hprovisioned.imp fun _ hp => hp.converged

theorem converged_of_delivers_moved :
    processMachine.Always Converged (.initial .sample) movesAndRestarts ∧
      ∃ p, processMachine.run (.initial .sample) movesAndRestarts = some p ∧ p.Quiet ∧
        p.service.native.gUa.map Ua.aor = some moved.buildAor :=
  ⟨converged_of_delivers .sample movesAndRestarts (by decide), _, rfl, by decide, rfl⟩

/-- A save without `sipService` changes nothing for the running service; made while the
service is destroyed, it changes nothing for the next one either, as the library is
initialised and has a user agent. -/
theorem saved_account_unused :
    (∃ p, processMachine.run (.initial .sample) (starts ++ [.save moved false]) = some p ∧
      p.service.config = moved ∧
      p.service.native.gUa.map Ua.aor = some SipConfig.sample.buildAor ∧ ¬ Converged p) ∧
    ∃ p, processMachine.run (.initial .sample) (starts ++ [.service (.request .destroy),
        .service (.native (.work .ok)), .save moved false, .create, .service .take,
        .service .op, .service .op, .service .op, .service .op,
        .service (.native (.work .ok))]) = some p ∧
      p.service.config = moved ∧
      p.service.native.gUa.map Ua.aor = some SipConfig.sample.buildAor ∧ ¬ Converged p :=
  ⟨⟨_, rfl, rfl, rfl, by decide⟩, ⟨_, rfl, rfl, rfl, by decide⟩⟩

end SimplePhone.Service
