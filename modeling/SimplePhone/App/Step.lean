import SimplePhone.App.Activity

/-! The machine of the whole app: the service process, the activity that comes and
goes, and the user. -/
namespace SimplePhone.App

open Service Native Transition

structure Phone where
  service : State
  activity : Option Activity
  /-- The intent the activity was last started with, which a re-creation sees again. -/
  intent : Option Str
  lastNumber : Str
  history : List HistoryEntry

def Phone.initial (account : Buffers) (config : SipConfig) : Phone where
  service := State.initial account config
  activity := none
  intent := none
  lastNumber := []
  history := []

/-- Where an intent for the activity comes from. -/
inductive Source where
  /-- `SipService.showMainActivity`, in the order of the calls -/
  | service
  | launcher
  /-- the notification of an incoming call, opened full-screen or tapped -/
  | notification
deriving DecidableEq

inductive Action where
  /-- a step of the service that the activity has no part in -/
  | service (a : Service.Action)
  /-- the main looper runs its next message -/
  | message
  | intent (source : Source)
  /-- the system starts the activity again with the intent it had -/
  | recreate
  | destroyActivity
  | serviceConnected
  | resume
  | key (k : Key)
deriving DecidableEq

/-- The activity alone dials, sends digits and mutes; a bound service stays. -/
def outside (p : Phone) : Service.Action → Bool
  | .message => false
  | .request (.makeCall _) | .request (.sendDtmf _) | .request (.setMute _) => false
  | .request .destroy => !p.activity.any Activity.bound
  | _ => true

/-- `isCallActive`. -/
def inCall (s : State) : Bool := s.sipManager && s.native.gInCall

/-- The system hands over an intent. -/
def takeIntent (s : State) : Source → Option (State × Option Str)
  | .service =>
      match s.intents with
      | [] => none
      | caller :: rest => some ({ s with intents := rest }, caller)
  | .launcher => some (s, none)
  | .notification => s.incomingNotification.map fun callerNumber => (s, some callerNumber)

/-- `onNewIntent`, or `onCreate` where there is no activity. -/
def startActivity (caller : Option Str) (p : Phone) : Phone :=
  { p with
    activity := some ((p.activity.getD .created).handleIncomingCallIntent caller)
    intent := caller }

/-- A call of `sipService?`; a service that has been destroyed does nothing any more. -/
def ask (bound : Bool) (request : Option Request) (s : State) : State :=
  match request with
  | some r => if bound then (Service.step s (.request r)).getD s else s
  | none => s

def messageStep (p : Phone) : Option (Phone × List HistoryEntry) :=
  match p.service.main, Service.step p.service .message with
  | m :: _, some s =>
      match m, p.activity with
      | .notify n, some a =>
          if a.bound then some ({ p with service := s, activity := some (a.hear n).1 }, (a.hear n).2)
          else some ({ p with service := s }, [])
      | _, _ => some ({ p with service := s }, [])
  | _, _ => none

def keyStep (p : Phone) (k : Key) : Option (Phone × List HistoryEntry) :=
  p.activity.map fun a =>
    let r := a.onKeyDown p.lastNumber k
    ({ p with
      service := ask a.bound r.request p.service
      activity := some r.activity
      lastNumber := r.lastNumber.getD p.lastNumber }, r.written)

/-- A step, and what it writes to the history. -/
def react (p : Phone) : Action → Option (Phone × List HistoryEntry)
  | .service a =>
      if outside p a then
        (Service.step p.service a).map fun s => ({ p with service := s }, [])
      else none
  | .message => messageStep p
  | .intent source =>
      (takeIntent p.service source).map fun t =>
        (startActivity t.2 { p with service := t.1 }, [])
  | .recreate => if p.activity.isNone then some (startActivity p.intent p, []) else none
  | .destroyActivity => if p.activity.isSome then some ({ p with activity := none }, []) else none
  | .serviceConnected =>
      match p.activity with
      | some a =>
          if !a.bound && p.service.alive then
            some ({ p with
              activity := some ({ a with bound := true }.syncCallState (inCall p.service)) }, [])
          else none
      | none => none
  | .resume =>
      match p.activity with
      | some a =>
          if a.bound then
            some ({ p with activity := some (a.syncCallState (inCall p.service)) }, [])
          else none
      | none => none
  | .key k => keyStep p k

def step (p : Phone) (a : Action) : Option Phone :=
  (react p a).map fun r => { r.1 with history := r.2.foldl addHistory r.1.history }

def machine : Machine Phone Action where
  start p := ∃ account config, p = Phone.initial account config
  step := step

/-- A run in which a call to 203 is dialled and answered. -/
def answeredCall : List Action :=
  started.map .service ++ [.message, .message, .message, .intent .launcher, .serviceConnected,
    .key (.digit 50), .key (.digit 48), .key (.digit 51), .key .call, .service .take, .service .op,
    .service (.native (.work .ok)), .service (.native (.connect .connected)),
    .service (.native (.event (.established 0))), .message, .message]

/-! ### Inversion -/

variable {p q : Phone} {r : Phone × List HistoryEntry}

theorem step_eq_some {a : Action} : step p a = some q ↔
    ∃ r, react p a = some r ∧ { r.1 with history := r.2.foldl addHistory r.1.history } = q :=
  Option.map_eq_some_iff

theorem react_service {a : Service.Action} : react p (.service a) = some r ↔
    outside p a = true ∧
      ∃ s, Service.step p.service a = some s ∧ ({ p with service := s }, []) = r := by
  unfold react
  by_cases h : outside p a = true <;> simp [h]

/-- A notice is heard by an activity that is bound, and lost otherwise. -/
theorem react_message (h : react p .message = some r) : ∃ m rest s,
    p.service.main = m :: rest ∧ Service.step p.service .message = some s ∧
      ((∃ n a, m = .notify n ∧ p.activity = some a ∧ a.bound = true ∧
          r = ({ p with service := s, activity := some (a.hear n).1 }, (a.hear n).2)) ∨
        (∀ n a, m = .notify n → p.activity = some a → a.bound = false) ∧
          r = ({ p with service := s }, [])) := by
  change messageStep p = some r at h
  unfold messageStep at h
  cases hmain : p.service.main with
  | nil => simp [hmain] at h
  | cons m rest =>
    cases hs : Service.step p.service .message with
    | none => simp [hmain, hs] at h
    | some s =>
      refine ⟨m, rest, s, rfl, rfl, ?_⟩
      simp only [hmain, hs] at h
      split at h
      · rename_i n a hactivity
        split at h
        · exact .inl ⟨n, a, rfl, hactivity, by assumption, (Option.some.inj h).symm⟩
        · refine .inr ⟨?_, (Option.some.inj h).symm⟩
          rintro n' a' ⟨⟩ ha
          rw [hactivity] at ha
          cases ha
          simpa using ‹¬ a.bound = true›
      · rename_i hnone
        refine .inr ⟨?_, (Option.some.inj h).symm⟩
        rintro n a rfl ha
        exact (hnone n a rfl ha).elim

theorem react_intent {source : Source} : react p (.intent source) = some r ↔
    ∃ t, takeIntent p.service source = some t ∧
      (startActivity t.2 { p with service := t.1 }, []) = r :=
  Option.map_eq_some_iff

theorem react_recreate : react p .recreate = some r ↔
    p.activity = none ∧ (startActivity p.intent p, []) = r := by
  unfold react
  cases p.activity <;> simp

theorem react_destroyActivity : react p .destroyActivity = some r ↔
    (∃ a, p.activity = some a) ∧ ({ p with activity := none }, []) = r := by
  unfold react
  cases p.activity <;> simp

theorem react_serviceConnected : react p .serviceConnected = some r ↔
    ∃ a, p.activity = some a ∧ a.bound = false ∧ p.service.alive = true ∧
      ({ p with activity := some ({ a with bound := true }.syncCallState (inCall p.service)) }, []) =
        r := by
  unfold react
  cases p.activity <;> simp [and_assoc]

theorem react_resume : react p .resume = some r ↔
    ∃ a, p.activity = some a ∧ a.bound = true ∧
      ({ p with activity := some (a.syncCallState (inCall p.service)) }, []) = r := by
  unfold react
  cases p.activity <;> simp

theorem react_key {k : Key} : react p (.key k) = some r ↔ ∃ a, p.activity = some a ∧
    ({ p with
      service := ask a.bound (a.onKeyDown p.lastNumber k).request p.service
      activity := some (a.onKeyDown p.lastNumber k).activity
      lastNumber := (a.onKeyDown p.lastNumber k).lastNumber.getD p.lastNumber },
      (a.onKeyDown p.lastNumber k).written) = r :=
  Option.map_eq_some_iff

/-- What an activity asks of a living service is a step of it. -/
theorem step_ask {s : State} (halive : s.alive = true) (request : Request) :
    Service.step s (.request request) = some (ask true (some request) s) := by
  simp [ask, Service.step, halive]

end SimplePhone.App
