import SimplePhone.Native.Registration

/-! The registration client of the user agent: the requests it has on the way, and how
their answers reach `g_registered`. The event for an answer tells neither which request
it was for nor, since `register_handler` looks at `regint`, of which kind. -/
namespace SimplePhone.Native

open Globals Transition

/-- `struct sipreg` of the current user agent. -/
structure Client where
  /-- The requests on the way, with whether their expiry is not zero. -/
  requests : List Bool
  /-- `expires` is not zero, as `sipreg_unregister` leaves it. -/
  expires : Bool
  /-- The timer of the next request runs. -/
  timer : Bool
deriving DecidableEq

/-- A user agent is created and registered: the REGISTER is on the way, or was not sent. -/
def Client.attempt (lib : Lib) : Client := ⟨if lib.registers then [true] else [], true, false⟩

/-- `stray` counts the requests of destroyed user agents that are not answered yet.
`valid` is history: the REGISTER with an expiry that was answered last succeeded, and the
user agent was neither unregistered nor destroyed since. -/
structure Registrar where
  native : Globals
  client : Client
  stray : Nat
  valid : Bool
deriving DecidableEq

inductive Answer where
  | success (prm : Str)
  /-- refused, timed out or undeliverable -/
  | failure (prm : Str)
  /-- 401, 407 or 423: `response_handler` sends the request again -/
  | challenge
deriving DecidableEq

inductive RegistrarAction where
  /-- `sent` tells whether an un-REGISTER of the step goes out -/
  | native (a : Action) (sent : Bool)
  | answer (n : Nat) (r : Answer)
  /-- a response for a destroyed user agent, which `dummy_handler` takes -/
  | answerStray
  /-- `tmr_handler`; a request that cannot be sent is reported at once -/
  | refresh (sent : Bool) (prm : Str)
deriving DecidableEq

namespace Registrar

/-- `sipreg_unregister` -/
def unregister (r : Registrar) (sent : Bool) (g : Globals) : Registrar :=
  let requests := if sent then r.client.requests ++ [false] else r.client.requests
  { r with
    native := g
    client := { r.client with requests := requests, expires := false }
    valid := false }

/-- What the handlers do to the client. -/
def work (r : Registrar) (lib : Lib) (sent : Bool) (g : Globals) : Registrar :=
  match r.native.next with
  | some .register =>
      if r.native.gUa = none then ⟨g, .attempt lib, r.stray, false⟩ else { r with native := g }
  | some .unregister =>
      if r.native.gUa = none then { r with native := g } else r.unregister sent g
  | some (.reregister _) =>
      -- the old client is left with its requests and the un-REGISTER
      let unregister := if r.native.gUa.isSome && sent then 1 else 0
      ⟨g, .attempt lib, r.stray + r.client.requests.length + unregister, false⟩
  | _ => { r with native := g }

def answer (r : Registrar) (n : Nat) (expiry : Bool) (ok : Bool) (g : Globals) : Registrar :=
  { r with
    native := g
    client := { r.client with requests := r.client.requests.eraseIdx n, timer := r.client.expires }
    valid := if expiry then ok else r.valid }

end Registrar

def registrarStep (r : Registrar) : RegistrarAction → Option Registrar
  | .native (.event (.registerOk _)) _ | .native (.event (.registerFail _)) _ => none
  | .native (.work lib) sent => (step r.native (.work lib)).map (r.work lib sent)
  | .native a _ => (step r.native a).map fun g => { r with native := g }
  | .answer n answer =>
      match r.client.requests[n]?, answer with
      | none, _ => none
      | some expiry, .success prm =>
          (step r.native (.event (.registerOk prm))).map (r.answer n expiry true)
      | some expiry, .failure prm =>
          (step r.native (.event (.registerFail prm))).map (r.answer n expiry false)
      | some _, .challenge => some { r with client := { r.client with
          requests := r.client.requests.eraseIdx n ++ [r.client.expires] } }
  | .answerStray => if r.stray = 0 then none else some { r with stray := r.stray - 1 }
  | .refresh sent prm =>
      if r.client.timer = false ∨ r.native.dialing ≠ none then none
      else if sent then
        some { r with client := { r.client with
          requests := r.client.requests ++ [r.client.expires], timer := false } }
      else (step r.native (.event (.registerFail prm))).map fun g =>
        { r with native := g, valid := !r.client.expires && r.valid }

def Registrar.initial (account : Buffers) : Registrar :=
  ⟨.initial account, ⟨[], true, false⟩, 0, false⟩

def registrarMachine : Machine Registrar RegistrarAction where
  start r := ∃ account, r = .initial account
  step := registrarStep

/-- With no request of the user agent on the way, the flag says what the registrar said. -/
def Truthful (r : Registrar) : Prop :=
  r.client.requests = [] → (r.native.gRegistered ↔ r.native.gUa ≠ none ∧ r.valid)

instance (r : Registrar) : Decidable (Truthful r) := inferInstanceAs (Decidable (_ → _))

/-- The flag is left off by a failing `ua_create_and_register`. -/
def Lib.lowers (lib : Lib) (g : Globals) : Bool :=
  match lib.uaAlloc, lib.uaRegister with
  | true, .failEvent _ => true
  | _, _ => !g.gRegistered

/-- A handler that leaves no request on the way leaves the flag off, and the last answer
on the way is for a REGISTER with an expiry unless it happens to repeat what the last
such REGISTER was told. -/
def Faithful (r : Registrar) : RegistrarAction → Prop
  | .native (.work lib) sent =>
      match r.native.next with
      | some .register => r.native.gUa = none → lib.registers = false → lib.lowers r.native
      | some .unregister => r.native.gUa ≠ none → r.client.requests = [] → sent = false →
          r.native.gRegistered = false
      | some (.reregister _) => lib.registers = false → lib.lowers r.native
      | _ => True
  | .answer n (.success _) => r.client.requests.eraseIdx n = [] →
      r.client.requests[n]? = some false → r.valid
  | .answer n (.failure _) => r.client.requests.eraseIdx n = [] →
      r.client.requests[n]? = some false → r.valid = false
  | .refresh false _ => r.client.requests = [] → r.client.expires = false → r.valid = false
  | _ => True

instance (r : Registrar) (a : RegistrarAction) : Decidable (Faithful r a) := by
  unfold Faithful
  split
  · split <;> infer_instance
  all_goals infer_instance

/-- Without a user agent there is no client. -/
structure Attached (r : Registrar) : Prop where
  requests : r.native.gUa = none → r.client.requests = []
  timer : r.native.gUa = none → r.client.timer = false
  valid : r.native.gUa = none → r.valid = false

/-! ### What the handlers do to the flag -/

/-- The user agent and the flag after an attempt to create and register one. -/
theorem uaCreateAndRegister_flag (aor : Str) (lib : Lib) (g : Globals) :
    (lib.registers = true → (uaCreateAndRegister aor lib g).1.gUa.isSome) ∧
      (lib.registers = false →
        ((uaCreateAndRegister aor lib g).1.gRegistered = false ↔ lib.lowers g)) := by
  obtain ⟨uaAlloc, uaRegister, uaAnswer⟩ := lib
  cases uaAlloc <;> cases uaRegister <;>
    simp [uaCreateAndRegister, Lib.registers, Lib.lowers, uaEvent, baresipEventHandler]

theorem registerWorker_flag (lib : Lib) {g : Globals} (h : g.gUa = none) :
    (lib.registers = true → (registerWorker lib g).gUa.isSome) ∧
      (lib.registers = false → ((registerWorker lib g).gRegistered = false ↔ lib.lowers g)) := by
  have hflag := uaCreateAndRegister_flag (buildAccountAor g.account 256) lib g
  simp only [registerWorker, h]
  split <;> exact hflag

theorem reregisterWorker_flag (aor : Str) (lib : Lib) (g : Globals) :
    (lib.registers = true → (reregisterWorker aor lib g).gUa.isSome) ∧
      (lib.registers = false →
        ((reregisterWorker aor lib g).gRegistered = false ↔ lib.lowers g)) := by
  have hflag := uaCreateAndRegister_flag aor lib
    { g with gUa := none, gCall := none, gInCall := false }
  rw [reregisterWorker_eq]
  simp only
  split <;> exact hflag

theorem registration_ua {g t : Globals} (h : t.registration = g.registration) :
    (t.gUa = none ↔ g.gUa = none) ∧ t.gRegistered = g.gRegistered := by
  obtain ⟨hua, hflag⟩ := Prod.mk.inj h
  refine ⟨?_, hflag⟩
  rw [← Option.map_eq_none_iff (f := Ua.aor), hua, Option.map_eq_none_iff]

variable {r t : Registrar}

/-- A step that keeps the client keeps the flag true to it. -/
theorem Truthful.keep (h : Truthful r) {g : Globals} (hg : g.registration = r.native.registration) :
    Truthful { r with native := g } := by
  obtain ⟨hua, hflag⟩ := registration_ua hg
  intro hrequests
  simp only [hflag]
  rw [h hrequests]
  simp [hua]

theorem Attached.keep (h : Attached r) {g : Globals}
    (hg : g.registration = r.native.registration) : Attached { r with native := g } := by
  obtain ⟨hua, -⟩ := registration_ua hg
  exact ⟨fun hnone => h.requests (hua.mp hnone), fun hnone => h.timer (hua.mp hnone),
    fun hnone => h.valid (hua.mp hnone)⟩

/-! ### One step -/

/-- A new client is told the truth by its first answer, or there is none to come. -/
theorem truthful_attempt {lib : Lib} {g₀ g : Globals} (stray : Nat)
    (hsome : lib.registers = true → g.gUa.isSome)
    (hflag : lib.registers = false → (g.gRegistered = false ↔ lib.lowers g₀)) :
    (Truthful ⟨g, Client.attempt lib, stray, false⟩ ↔ (lib.registers = false → lib.lowers g₀)) ∧
      Attached ⟨g, Client.attempt lib, stray, false⟩ := by
  cases hlib : lib.registers with
  | true =>
    have hrequests : (Client.attempt lib).requests = [true] := by simp [Client.attempt, hlib]
    refine ⟨?_, ?_, fun _ => rfl, fun _ => rfl⟩
    · simp [Truthful, hrequests]
    · intro hnone
      have hua := hsome hlib
      rw [show g.gUa = none from hnone] at hua
      cases hua
  | false =>
    have hrequests : (Client.attempt lib).requests = [] := by simp [Client.attempt, hlib]
    refine ⟨?_, fun _ => hrequests, fun _ => rfl, fun _ => rfl⟩
    simp [Truthful, hrequests, ← hflag hlib]

theorem truthful_unregister (hua : r.native.gUa ≠ none) {sent : Bool} {g : Globals}
    (hg : g.registration = r.native.registration) :
    (Truthful (r.unregister sent g) ↔
      (r.client.requests = [] → sent = false → r.native.gRegistered = false)) ∧
      Attached (r.unregister sent g) := by
  obtain ⟨hua', hflag⟩ := registration_ua hg
  have hsome : g.gUa ≠ none := fun hnone => hua (hua'.mp hnone)
  refine ⟨?_, fun hnone => absurd hnone hsome, fun hnone => absurd hnone hsome, fun _ => rfl⟩
  cases sent <;> simp [Truthful, Registrar.unregister, hflag]

/-- What a handler of each kind leaves behind. -/
theorem truthful_work (h : Truthful r) (hattached : Attached r) {lib : Lib} {sent : Bool}
    {g : Globals} (hstep : step r.native (.work lib) = some g) :
    (Truthful (r.work lib sent g) ↔ Faithful r (.native (.work lib) sent)) ∧
      Attached (r.work lib sent g) := by
  obtain ⟨-, p, rest, hposted, rfl⟩ := step_work.mp hstep
  have hnext : r.native.next = some p.work := by simp [next, hposted]
  have htaken : (r.native.taken rest).registration = r.native.registration := rfl
  have hua₀ : (r.native.taken rest).gUa = r.native.gUa := rfl
  change (Truthful (r.work lib sent (p.work.run lib (r.native.taken rest))) ↔ _) ∧
    Attached (r.work lib sent (p.work.run lib (r.native.taken rest)))
  generalize r.native.taken rest = g₀ at htaken hua₀
  have hlowers : lib.lowers g₀ = lib.lowers r.native := by
    unfold Lib.lowers
    rw [(registration_ua htaken).2]
  unfold Registrar.work Faithful
  simp only [hnext]
  cases hw : p.work with
  | register =>
    by_cases hua : r.native.gUa = none
    · obtain ⟨hsome, hflag⟩ := registerWorker_flag lib (hua₀.trans hua)
      rw [hlowers] at hflag
      simp only [hua, ↓reduceIte, forall_true_left]
      exact truthful_attempt r.stray hsome hflag
    · have hskip : registerWorker lib g₀ = g₀ := by
        obtain ⟨ua, hsome⟩ := Option.ne_none_iff_exists'.mp hua
        simp [registerWorker, hua₀, hsome]
      simp only [hua, ↓reduceIte, Work.run, hskip, false_implies, iff_true]
      exact ⟨h.keep htaken, hattached.keep htaken⟩
  | unregister =>
    have hkeep : (Work.run lib g₀ .unregister).registration = r.native.registration :=
      (registration_work rfl lib g₀).trans htaken
    by_cases hua : r.native.gUa = none
    · simp only [hua, ↓reduceIte, ne_eq, not_true_eq_false, false_implies, iff_true]
      exact ⟨h.keep hkeep, hattached.keep hkeep⟩
    · simp only [hua, ↓reduceIte, ne_eq, not_false_eq_true, forall_true_left]
      exact truthful_unregister hua hkeep
  | reregister aor =>
    obtain ⟨hsome, hflag⟩ := reregisterWorker_flag aor lib g₀
    rw [hlowers] at hflag
    exact truthful_attempt _ hsome hflag
  | _ =>
    have hkeep := (registration_work (w := p.work) (by rw [hw]; rfl) lib g₀).trans htaken
    rw [hw] at hkeep
    exact ⟨iff_of_true (h.keep hkeep) trivial, hattached.keep hkeep⟩

/-- An answer is taken for the last word on the registration. -/
theorem truthful_answer (hattached : Attached r) {n : Nat} {expiry ok : Bool} {g : Globals}
    (hget : r.client.requests[n]? = some expiry) (hua : g.gUa = r.native.gUa)
    (hflag : g.gRegistered = ok) :
    (Truthful (r.answer n expiry ok g) ↔
      (r.client.requests.eraseIdx n = [] → expiry = false → r.valid = ok)) ∧
      Attached (r.answer n expiry ok g) := by
  have hsome : r.native.gUa ≠ none := by
    intro hnone
    rw [hattached.requests hnone] at hget
    cases hget
  refine ⟨?_, fun hnone => absurd (hua ▸ hnone) hsome, fun hnone => absurd (hua ▸ hnone) hsome,
    fun hnone => absurd (hua ▸ hnone) hsome⟩
  simp only [Truthful, Registrar.answer, hua, hflag, ne_eq, hsome, not_false_eq_true, true_and]
  cases expiry with
  | true => simp
  | false =>
    simp only [Bool.false_eq_true, ↓reduceIte, forall_true_left]
    cases ok <;> cases r.valid <;> simp

theorem step_registerOk {g g' : Globals} {prm : Str}
    (hstep : step g (.event (.registerOk prm)) = some g') :
    g'.gUa = g.gUa ∧ g'.gRegistered = true := by
  obtain ⟨-, -, rfl⟩ := step_event.mp hstep
  exact ⟨rfl, rfl⟩

theorem step_registerFail {g g' : Globals} {prm : Str}
    (hstep : step g (.event (.registerFail prm)) = some g') :
    g'.gUa = g.gUa ∧ g'.gRegistered = false := by
  obtain ⟨-, -, rfl⟩ := step_event.mp hstep
  exact ⟨rfl, rfl⟩

theorem truthful_step (h : Truthful r) (hattached : Attached r) {a : RegistrarAction}
    (hstep : registrarStep r a = some t) : (Truthful t ↔ Faithful r a) ∧ Attached t := by
  cases a with
  | native a sent =>
    have hidle (hidle : a.idle r.native = true)
        (hmap : (step r.native a).map (fun g => { r with native := g }) = some t) :
        Truthful t ∧ Attached t := by
      obtain ⟨g, hg, rfl⟩ := Option.map_eq_some_iff.mp hmap
      have hkeep := registration_step hidle hg
      exact ⟨h.keep hkeep, hattached.keep hkeep⟩
    cases a with
    | work lib =>
      obtain ⟨g, hg, rfl⟩ := Option.map_eq_some_iff.mp hstep
      exact truthful_work h hattached hg
    | event e =>
      cases e with
      | registerOk prm => cases hstep
      | registerFail prm => cases hstep
      | _ =>
        obtain ⟨htruthful, hattached'⟩ := hidle rfl hstep
        exact ⟨iff_of_true htruthful trivial, hattached'⟩
    | post w =>
      obtain ⟨htruthful, hattached'⟩ := hidle rfl hstep
      exact ⟨iff_of_true htruthful trivial, hattached'⟩
    | connect result =>
      obtain ⟨htruthful, hattached'⟩ := hidle rfl hstep
      exact ⟨iff_of_true htruthful trivial, hattached'⟩
  | answer n answer =>
    cases hget : r.client.requests[n]? with
    | none => simp [registrarStep, hget] at hstep
    | some expiry =>
      simp only [registrarStep, hget] at hstep
      cases answer with
      | success prm =>
        obtain ⟨g, hg, rfl⟩ := Option.map_eq_some_iff.mp hstep
        obtain ⟨hua, hflag⟩ := step_registerOk hg
        obtain ⟨htruthful, hattached'⟩ := truthful_answer hattached hget hua hflag
        refine ⟨htruthful.trans ?_, hattached'⟩
        simp [Faithful, hget]
      | failure prm =>
        obtain ⟨g, hg, rfl⟩ := Option.map_eq_some_iff.mp hstep
        obtain ⟨hua, hflag⟩ := step_registerFail hg
        obtain ⟨htruthful, hattached'⟩ := truthful_answer hattached hget hua hflag
        refine ⟨htruthful.trans ?_, hattached'⟩
        simp [Faithful, hget]
      | challenge =>
        cases hstep
        refine ⟨iff_of_true (fun hnil => by simp at hnil) trivial, ?_, hattached.timer,
          hattached.valid⟩
        intro hnone
        rw [hattached.requests hnone] at hget
        cases hget
  | answerStray =>
    simp only [registrarStep] at hstep
    split at hstep
    · cases hstep
    · cases hstep
      exact ⟨iff_of_true h trivial, hattached.requests, hattached.timer, hattached.valid⟩
  | refresh sent prm =>
    simp only [registrarStep] at hstep
    split at hstep
    next => cases hstep
    next hready =>
      have htimer : r.client.timer = true := by
        simpa using fun hoff => hready (.inl hoff)
      have hsome : r.native.gUa ≠ none := by
        intro hnone
        rw [hattached.timer hnone] at htimer
        cases htimer
      cases sent with
      | true =>
        cases hstep
        refine ⟨iff_of_true (fun hnil => by simp at hnil) trivial, ?_, fun _ => rfl,
          hattached.valid⟩
        exact fun hnone => absurd hnone hsome
      | false =>
        obtain ⟨g, hg, rfl⟩ := Option.map_eq_some_iff.mp hstep
        obtain ⟨hua, hflag⟩ := step_registerFail hg
        refine ⟨?_, fun hnone => absurd (hua ▸ hnone) hsome, fun hnone => absurd (hua ▸ hnone) hsome,
          fun hnone => absurd (hua ▸ hnone) hsome⟩
        simp only [Truthful, Faithful, hua, hflag]
        cases r.client.expires <;> cases r.valid <;> simp [hsome]

/-- The flag tells the truth in every state in which the user agent has no request on
the way exactly if every step is faithful. -/
theorem truthful_iff_faithful (account : Buffers) (as : List RegistrarAction) :
    registrarMachine.Always Truthful (.initial account) as ↔
      registrarMachine.Meets Faithful (.initial account) as := by
  apply Machine.always_iff_meets (I := fun r => Truthful r ∧ Attached r)
  · intro r hr
    exact hr.1
  · intro r a t hr hstep
    exact (truthful_step hr.1 hr.2 hstep).1
  · intro r a t hr ha hstep
    obtain ⟨htruthful, hattached⟩ := truthful_step hr.1 hr.2 hstep
    exact ⟨htruthful.mpr ha, hattached⟩
  · refine ⟨fun _ => ?_, fun _ => rfl, fun _ => rfl, fun _ => rfl⟩
    simp [Registrar.initial, Globals.initial]

/-- The 200 for the un-REGISTER raises the flag of a phone that was never registered; and
a re-registration whose user agent cannot be allocated leaves the flag of the old one. -/
theorem flag_lies :
    (∃ r, registrarMachine.run (.initial (nativeInit .sample))
        [.native (.post .register) false, .native (.work .ok) false, .answer 0 (.failure []),
          .native (.post .unregister) false, .native (.work .ok) true, .answer 0 (.success [])] =
        some r ∧ r.native.posted = [] ∧ r.client.requests = [] ∧ r.native.gRegistered = true ∧
      r.valid = false ∧ ¬ Truthful r) ∧
    ∃ r, registrarMachine.run (.initial (nativeInit .sample))
        [.native (.post .register) false, .native (.work .ok) false, .answer 0 (.success []),
          .native (.post (.reregister SipConfig.sample.buildAor)) false,
          .native (.work ⟨false, .ok, .sent⟩) true, .answerStray] = some r ∧
      r.native.posted = [] ∧ r.stray = 0 ∧ r.native.gRegistered = true ∧ r.native.gUa = none ∧
      ¬ Truthful r :=
  ⟨⟨_, rfl, rfl, rfl, rfl, rfl, by decide⟩, ⟨_, rfl, rfl, rfl, rfl, rfl, by decide⟩⟩

end SimplePhone.Native
