import SimplePhone.Transition.Backoff
import SimplePhone.Transition.Machine

/-! The registration client: it repeats its REGISTER before the registration expires, and
after a failure with growing delays. A client that its user gives up while it is registered
or waits for an answer lives on until it has taken the registration back. -/
namespace SimplePhone.Re

open Transition

def defaultExpires : Nat := 3600

/-- `struct sip_loopstate` -/
structure LoopState where
  failc : Nat
  lastScode : Nat
deriving DecidableEq

namespace LoopState

/-- `sip_loopstate_reset`. -/
def reset : LoopState := ⟨0, 0⟩

/-- `sip_request_loops`. -/
def loops (scode : Nat) (ls : LoopState) : Bool × LoopState :=
  if scode < 200 then (false, ls)
  else if scode < 300 then (false, ⟨0, scode⟩)
  else
    let failc := ls.failc + 1
    let repeated := 400 ≤ scode ∧ scode ≠ 401 ∧ scode ≠ 407 ∧ scode ≠ 491 ∧ ls.lastScode = scode
    (repeated ∨ 16 ≤ failc, ⟨failc, scode⟩)

end LoopState

/-- A random number scales the delay, which is in milliseconds. -/
def failwait (rand failc : Nat) : Nat :=
  min 1800 (30 * (1 <<< min failc 6)) * (500 + rand % 501)

/-- A Contact of a response: whether it is the client's own, and its `expires`. -/
structure Contact where
  own : Bool
  expires : Option Nat
deriving DecidableEq

inductive AuthResult where
  | done
  /-- `EAUTH` -/
  | refused
  | error
deriving DecidableEq

structure RegResponse where
  scode : Nat
  contacts : List Contact
  expires : Option Nat
  minExpires : Option Nat
  /-- `Require: outbound`, and the keep-alive could be started -/
  outbound : Bool
  /-- what `sip_auth_authenticate` makes of it -/
  auth : AuthResult
deriving DecidableEq

/-- The fields of `struct sipreg`, and the clock. -/
structure Sipreg where
  now : Nat
  expires : Nat
  pexpires : Nat
  failc : Nat
  rwait : Nat
  wait : Nat
  fbregint : Nat
  regid : Nat
  ka : Bool
  registered : Bool
  terminated : Bool
  ls : LoopState
  /-- `req` is set -/
  req : Bool
  /-- the requests that were not answered yet -/
  pending : Nat
  tmr : Option Nat
  alive : Bool
  /-- history: a request went out -/
  asked : Bool
  /-- history: the requests since the loop state was cleared, or since a client that was given up
  began to take its registration back -/
  sent : Nat
  /-- history: when the registration that was granted last expires -/
  bound : Nat
  /-- history: calls of the user's response handler -/
  told : Nat
deriving DecidableEq

namespace Sipreg

/-- `sipreg_alloc`, `sipreg_set_rwait` and `sipreg_set_fbregint`. -/
def alloc (now expires rwait fbregint regid : Nat) : Sipreg where
  now := now
  expires := expires
  pexpires := 0
  failc := 0
  rwait := rwait
  wait := 0
  fbregint := fbregint
  regid := regid
  ka := false
  registered := false
  terminated := false
  ls := .reset
  req := false
  pending := 0
  tmr := none
  alive := true
  asked := false
  sent := 0
  bound := 0
  told := 0

/-- `sipreg_incfailc` -/
def incfailc (reg : Sipreg) : Sipreg := { reg with failc := reg.failc + 1 }

/-- `request`; `sent` tells whether `sip_drequestf` took it. -/
def request (resetLs sent : Bool) (reg : Sipreg) : Bool × Sipreg :=
  let reg := if reg.terminated then { reg with expires := 0 } else reg
  let reg := if resetLs then { reg with ls := .reset, sent := 0 } else reg
  if sent then
    (true, { reg with
      req := true, pending := reg.pending + 1, asked := true, sent := reg.sent + 1 })
  else (false, reg)

def startTimer (delay : Nat) (reg : Sipreg) : Sipreg := { reg with tmr := some (reg.now + delay) }

/-- `resph`, which `destructor` replaces by one that does nothing. -/
def report (reg : Sipreg) : Sipreg :=
  if reg.terminated then reg else { reg with told := reg.told + 1 }

/-- `mem_deref` of a client that is terminated. -/
def free (reg : Sipreg) : Sipreg := { reg with alive := false, tmr := none }

/-- `tmr_handler`. -/
def tmrHandler (sent : Bool) (rand : Nat) (reg : Sipreg) : Sipreg :=
  match reg.request true sent with
  | (true, reg) => reg
  | (false, reg) =>
      let reg := { reg with failc := reg.failc + 1 }
      (reg.startTimer (failwait rand reg.failc)).report

/-- `keepalive_handler`. -/
def keepaliveHandler (rand : Nat) (reg : Sipreg) : Sipreg :=
  if reg.req ∨ reg.terminated then reg
  else
    let reg := { reg with failc := reg.failc + 1 }
    (reg.startTimer (failwait rand reg.failc)).report

/-- `contact_handler`, of the first Contact that is the client's. -/
def contactWait (msg : RegResponse) (reg : Sipreg) : Nat :=
  match msg.contacts.find? Contact.own with
  | none => reg.expires
  | some c => c.expires.getD (msg.expires.getD defaultExpires)

/-- What is left to do after every answer but a provisional or a repeated one. -/
def finish (msg : Option RegResponse) (sent : Bool) (reg : Sipreg) : Sipreg :=
  if reg.expires = 0 then
    let refused := msg.any fun msg => 400 ≤ msg.scode ∧ msg.scode < 500
    let reg := if refused then { reg with fbregint := 0 } else reg
    if reg.terminated then reg.free
    else
      let reg :=
        if reg.fbregint ≠ 0 then reg.startTimer (reg.fbregint * 1000 % 4294967296)
        else { reg with tmr := none }
      reg.report
  else if reg.terminated then
    if reg.registered then
      match reg.request true sent with
      | (true, reg) => reg
      | (false, reg) => reg.free
    else reg.free
  else (reg.startTimer reg.wait).report

/-- A response of 200 to 299. -/
def accept (msg : RegResponse) (reg : Sipreg) : Sipreg :=
  let wait := reg.contactWait msg
  { reg with
    registered := 0 < wait
    pexpires := wait
    wait := wait * (reg.rwait * 10) % 4294967296
    failc := 0
    ka := reg.ka || (0 < reg.regid && !reg.terminated && msg.outbound)
    sent := 0
    bound := reg.now + wait * 1000 }

/-- A response from 300 on; `none` where the request was sent again. -/
def refuse (msg : RegResponse) (sent : Bool) (reg : Sipreg) : Bool × Sipreg :=
  if reg.terminated = true ∧ reg.registered = false then (false, reg)
  else
    let failed (reg : Sipreg) : Bool × Sipreg := (false, { reg with failc := reg.failc + 1 })
    if msg.scode = 401 ∨ msg.scode = 407 then
      if msg.auth = .done then
        match reg.request false sent with
        | (true, reg) => (true, reg)
        | (false, reg) => failed reg
      else failed reg
    else if msg.scode = 423 then
      match msg.minExpires with
      | none => failed reg
      | some minExpires =>
          if minExpires = 0 ∨ reg.expires = 0 then failed reg
          else
            match { reg with expires := minExpires }.request false sent with
            | (true, reg) => (true, reg)
            | (false, reg) => failed reg
    else failed reg

/-- `response_handler`, of an error (`none`) or a response; `sent` is for the request that it
may send, the second one for a request that takes the registration back. -/
def responseHandler (msg : Option RegResponse) (sent last : Bool) (rand : Nat) (reg : Sipreg) :
    Sipreg :=
  let reg := { reg with wait := failwait rand (reg.failc + 1) }
  match msg with
  | none => { reg with failc := reg.failc + 1 }.finish none last
  | some msg =>
      let (loops, ls) := reg.ls.loops msg.scode
      let reg := { reg with ls := ls }
      if loops then { reg with failc := reg.failc + 1 }.finish (some msg) last
      else if msg.scode < 200 then reg
      else if msg.scode < 300 then (reg.accept msg).finish (some msg) last
      else
        match reg.refuse msg sent with
        | (true, reg) => reg
        | (false, reg) => reg.finish (some msg) last

/-- `destructor`, of a client that its user gives up. -/
def destructor (sent : Bool) (reg : Sipreg) : Sipreg :=
  let reg := { reg with tmr := none, terminated := true }
  if reg.req then reg
  else if reg.registered then
    match reg.request true sent with
    | (true, reg) => reg
    | (false, reg) => reg.free
  else reg.free

end Sipreg

inductive SipregAction where
  | tick (d : Nat)
  /-- `sipreg_send` and `sipreg_unregister`, by its user -/
  | send (sent : Bool)
  | unregister (sent : Bool)
  | expire (sent : Bool) (rand : Nat)
  | keepalive (rand : Nat)
  /-- an answer to one of the requests -/
  | response (msg : Option RegResponse) (sent last : Bool) (rand : Nat)
  | deref (sent : Bool)
deriving DecidableEq

namespace Sipreg

def isProvisional (msg : Option RegResponse) : Bool := msg.any fun msg => msg.scode < 200

/-- A final answer ends its request, and clears `req` before the handler is called. -/
def answered (msg : Option RegResponse) (reg : Sipreg) : Sipreg :=
  if isProvisional msg then reg
  else { reg with req := false, pending := reg.pending - 1 }

def step (reg : Sipreg) : SipregAction → Option Sipreg
  | .tick d => some { reg with now := reg.now + d }
  | .send sent =>
      if reg.alive = true ∧ reg.terminated = false then some (reg.request true sent).2 else none
  | .unregister sent =>
      if reg.alive = true ∧ reg.terminated = false then
        some ({ reg with expires := 0 }.request true sent).2
      else none
  | .expire sent rand =>
      match reg.tmr with
      | none => none
      | some deadline =>
          if reg.now < deadline then none
          else some ({ reg with tmr := none }.tmrHandler sent rand)
  | .keepalive rand =>
      if reg.alive = true ∧ reg.ka = true then some ({ reg with ka := false }.keepaliveHandler rand)
      else none
  | .response msg sent last rand =>
      if reg.alive = true ∧ 0 < reg.pending then
        some ((reg.answered msg).responseHandler msg sent last rand)
      else none
  | .deref sent =>
      if reg.alive = true ∧ reg.terminated = false then some (reg.destructor sent) else none

/-- `reg_register`, of a client whose predecessor has `failed`; `sent` tells whether the first
request goes out. -/
def register (now expires rwait fbregint regid : Nat) (failed sent : Bool) : Sipreg :=
  let reg := alloc now expires rwait fbregint regid
  let reg := if failed then reg.incfailc else reg
  (reg.request true sent).2

def machine : Machine Sipreg SipregAction where
  start reg := ∃ now expires rwait fbregint regid failed sent, 5 ≤ rwait ∧ rwait ≤ 95 ∧
    reg = register now expires rwait fbregint regid failed sent
  step := step

/-! ### The delays -/

theorem failwait_eq (rand failc : Nat) :
    failwait rand failc = backoff 30 1800 failc * (500 + rand % 501) := by
  have hsame : min 1800 (30 * (1 <<< min failc 6)) = backoff 30 1800 failc := by
    by_cases hfailc : failc ≤ 6
    · rw [Nat.min_eq_left hfailc]
      revert failc
      decide
    · have hlong : backoff 30 1800 6 ≤ backoff 30 1800 failc := backoff_mono 30 1800 (by omega)
      have hsix : backoff 30 1800 6 = 1800 := by decide
      rw [Nat.min_eq_right (show 6 ≤ failc by omega)]
      exact Nat.le_antisymm (hsix ▸ hlong) (backoff_le 30 1800 failc)
  unfold failwait
  rw [hsame]

/-- Between a quarter of a minute and half an hour. -/
theorem failwait_bounds (rand failc : Nat) :
    15000 ≤ failwait rand failc ∧ failwait rand failc ≤ 1800000 := by
  have hlow : 30 ≤ backoff 30 1800 failc := le_backoff (by decide) failc
  have hhigh := backoff_le 30 1800 failc
  have hrand : rand % 501 < 501 := Nat.mod_lt _ (by decide)
  rw [failwait_eq]
  exact ⟨Nat.mul_le_mul hlow (by omega : 500 ≤ 500 + rand % 501),
    Nat.mul_le_mul hhigh (by omega : 500 + rand % 501 ≤ 1000)⟩

/-! ### What every step keeps -/

/-- The client after `request`. -/
def requested (resetLs sent : Bool) (reg : Sipreg) : Sipreg :=
  { reg with
    expires := if reg.terminated then 0 else reg.expires
    ls := if resetLs then .reset else reg.ls
    req := reg.req || sent
    pending := reg.pending + sent.toNat
    asked := reg.asked || sent
    sent := (if resetLs then 0 else reg.sent) + sent.toNat }

theorem request_eq (resetLs sent : Bool) (reg : Sipreg) :
    reg.request resetLs sent = (sent, reg.requested resetLs sent) := by
  obtain ⟨now, expires, pexpires, failc, rwait, wait, fbregint, regid, ka, registered,
    terminated, ls, req, pending, tmr, alive, asked, n, bound, told⟩ := reg
  cases terminated <;> cases resetLs <;> cases sent <;> cases req <;> cases asked <;> rfl

theorem requested_expires {resetLs sent : Bool} {reg : Sipreg}
    (h : (reg.requested resetLs sent).expires ≠ 0) : reg.expires ≠ 0 := by
  intro hexpires
  apply h
  change (if reg.terminated then 0 else reg.expires) = 0
  split
  · rfl
  · exact hexpires

/-- The longest a client waits before it sends again. -/
def longest (reg : Sipreg) : Nat := max 1800000 (950 * reg.pexpires)

/-- The bounds on what is sent and on the timer; `expires` is zero for good once a client
no longer wants to be registered. -/
structure Timed (reg : Sipreg) : Prop where
  rwait : reg.rwait ≤ 95
  sent : reg.sent ≤ reg.ls.failc + 1 ∧ reg.sent ≤ 16
  timer : reg.expires ≠ 0 → ∀ d ∈ reg.tmr, d ≤ reg.now + reg.longest
  fresh : reg.expires ≠ 0 → reg.registered = true → reg.failc = 0 → ∀ d ∈ reg.tmr, d < reg.bound

/-- Once a request went out there is always something to come. -/
def Live (reg : Sipreg) : Prop :=
  reg.asked = true → reg.alive = true → reg.terminated = false → reg.expires ≠ 0 →
    0 < reg.pending ∨ reg.tmr.isSome = true

/-- In the middle of an answer, when the next delay is known. -/
structure Half (reg : Sipreg) : Prop where
  rwait : reg.rwait ≤ 95
  sent : reg.sent ≤ reg.ls.failc + 1 ∧ reg.sent ≤ 16
  wait : reg.wait ≤ reg.longest
  fresh : reg.registered = true → reg.failc = 0 → reg.now + reg.wait < reg.bound

def Good (reg : Sipreg) : Prop := reg.Timed ∧ reg.Live

/-- A client that no longer wants the registration. -/
theorem good_of_expires {reg : Sipreg} (hrwait : reg.rwait ≤ 95)
    (hsent : reg.sent ≤ reg.ls.failc + 1 ∧ reg.sent ≤ 16) (hexpires : reg.expires = 0) :
    Good reg :=
  ⟨⟨hrwait, hsent, fun hne => absurd hexpires hne, fun hne => absurd hexpires hne⟩,
    fun _ _ _ hne => absurd hexpires hne⟩

theorem good_free {reg : Sipreg} (hrwait : reg.rwait ≤ 95)
    (hsent : reg.sent ≤ reg.ls.failc + 1 ∧ reg.sent ≤ 16) : Good reg.free :=
  ⟨⟨hrwait, hsent, fun _ => nofun, fun _ _ _ => nofun⟩, nofun⟩

theorem Good.report {reg : Sipreg} (h : Good reg) : Good reg.report := by
  unfold Sipreg.report
  split
  · exact h
  · exact ⟨⟨h.1.rwait, h.1.sent, h.1.timer, h.1.fresh⟩, h.2⟩

theorem good_startTimer {reg : Sipreg} {delay : Nat} (hrwait : reg.rwait ≤ 95)
    (hsent : reg.sent ≤ reg.ls.failc + 1 ∧ reg.sent ≤ 16) (hdelay : delay ≤ reg.longest)
    (hfresh : reg.registered = true → reg.failc = 0 → reg.now + delay < reg.bound) :
    Good (reg.startTimer delay) := by
  refine ⟨⟨hrwait, hsent, ?_, ?_⟩, fun _ _ _ _ => .inr rfl⟩
  · rintro - _ ⟨⟩
    exact Nat.add_le_add_left hdelay reg.now
  · rintro - hregistered hfailc _ ⟨⟩
    exact hfresh hregistered hfailc

/-- A failure leads to the next attempt. -/
theorem good_retry {reg : Sipreg} (hrwait : reg.rwait ≤ 95)
    (hsent : reg.sent ≤ reg.ls.failc + 1 ∧ reg.sent ≤ 16) (rand : Nat) :
    Good (({ reg with failc := reg.failc + 1 }.startTimer
      (failwait rand (reg.failc + 1))).report) := by
  have hdelay : failwait rand (reg.failc + 1) ≤ reg.longest :=
    Nat.le_trans (failwait_bounds rand _).2 (Nat.le_max_left _ _)
  have hfresh : reg.registered = true → reg.failc + 1 = 0 →
      reg.now + failwait rand (reg.failc + 1) < reg.bound :=
    fun _ h => absurd h (Nat.succ_ne_zero _)
  have htimer := @good_startTimer { reg with failc := reg.failc + 1 } _ hrwait hsent hdelay hfresh
  exact htimer.report

theorem requested_sent (sent : Bool) (reg : Sipreg) :
    (reg.requested true sent).sent ≤ (reg.requested true sent).ls.failc + 1 ∧
      (reg.requested true sent).sent ≤ 16 := by
  cases sent with
  | true => exact ⟨Nat.le_refl 1, show 1 ≤ 16 by decide⟩
  | false => exact ⟨Nat.zero_le _, Nat.zero_le 16⟩

theorem Timed.requested {reg : Sipreg} (h : Timed reg) (sent : Bool) :
    Timed (reg.requested true sent) :=
  ⟨h.rwait, requested_sent sent reg, fun he => h.timer (requested_expires he),
    fun he => h.fresh (requested_expires he)⟩

theorem live_requested (resetLs : Bool) (reg : Sipreg) : Live (reg.requested resetLs true) :=
  fun _ _ _ _ => .inl (Nat.succ_pos _)

/-- A request that goes out, or does not, leaves everything else to come. -/
theorem Good.requested {reg : Sipreg} (h : Good reg) (sent : Bool) :
    Good (reg.requested true sent) := by
  refine ⟨h.1.requested sent, ?_⟩
  cases sent with
  | true => exact live_requested true reg
  | false =>
    intro hasked halive hterminated he
    change (reg.asked || false) = true at hasked
    rw [Bool.or_false] at hasked
    exact h.2 hasked halive hterminated (requested_expires he)

/-- What is left of a client after `finish`. -/
inductive Finished (reg : Sipreg) : Sipreg → Prop
  | freed (fb : Nat) (hgone : reg.terminated = true) :
      Finished reg { reg with fbregint := fb }.free
  | dropped (hgone : reg.terminated = true) : Finished reg (reg.requested true false).free
  | takenBack (hgone : reg.terminated = true) (hexpires : reg.expires ≠ 0) :
      Finished reg (reg.requested true true)
  | stopped (fb : Nat) (tmr : Option Nat) (hkept : reg.terminated = false)
      (hexpires : reg.expires = 0) (htmr : ∀ deadline ∈ tmr, reg.now ≤ deadline) :
      Finished reg { reg with fbregint := fb, tmr := tmr, told := reg.told + 1 }
  | waiting (hkept : reg.terminated = false) :
      Finished reg { reg with tmr := some (reg.now + reg.wait), told := reg.told + 1 }

theorem report_kept {reg : Sipreg} (h : reg.terminated = false) :
    reg.report = { reg with told := reg.told + 1 } := by
  unfold Sipreg.report
  rw [h]
  rfl

theorem finished (msg : Option RegResponse) (last : Bool) (reg : Sipreg) :
    Finished reg (reg.finish msg last) := by
  unfold Sipreg.finish
  split
  · rename_i hexpires
    have hrest : ∀ fb, Finished reg (if ({ reg with fbregint := fb } : Sipreg).terminated then
        { reg with fbregint := fb }.free
        else (if ({ reg with fbregint := fb } : Sipreg).fbregint ≠ 0 then
          { reg with fbregint := fb }.startTimer (fb * 1000 % 4294967296)
          else { reg with fbregint := fb, tmr := none }).report) := by
      intro fb
      split
      · rename_i hgone
        exact .freed fb hgone
      · rename_i hgone
        have hkept : reg.terminated = false := Bool.eq_false_iff.mpr hgone
        split
        · rw [report_kept]
          · apply Finished.stopped fb _ hkept hexpires
            rintro _ ⟨⟩
            exact Nat.le_add_right _ _
          · exact hkept
        · rw [report_kept]
          · exact .stopped fb none hkept hexpires nofun
          · exact hkept
    simp only
    split
    · exact hrest 0
    · exact hrest reg.fbregint
  · rename_i hexpires
    split
    · rename_i hgone
      split
      · simp only [request_eq]
        cases last with
        | true => exact .takenBack hgone hexpires
        | false => exact .dropped hgone
      · exact .freed reg.fbregint hgone
    · rename_i hgone
      have hkept : reg.terminated = false := Bool.eq_false_iff.mpr hgone
      rw [report_kept]
      · exact .waiting hkept
      · exact hkept

theorem Half.finished {reg reg' : Sipreg} (h : Half reg) (hfinished : Finished reg reg') :
    Good reg' := by
  cases hfinished with
  | freed fb hgone => exact good_free h.rwait h.sent
  | dropped hgone => exact good_free h.rwait (requested_sent false reg)
  | takenBack hgone hexpires =>
    exact good_of_expires h.rwait (requested_sent true reg) (if_pos hgone)
  | stopped fb tmr hkept hexpires htmr => exact good_of_expires h.rwait h.sent hexpires
  | waiting hkept =>
    have htimer := good_startTimer h.rwait h.sent h.wait h.fresh
    exact ⟨⟨h.rwait, h.sent, htimer.1.timer, htimer.1.fresh⟩, htimer.2⟩

theorem Half.finish {reg : Sipreg} (h : Half reg) (msg : Option RegResponse) (last : Bool) :
    Good (reg.finish msg last) :=
  h.finished (Sipreg.finished msg last reg)

theorem Timed.stopped {reg : Sipreg} (h : Timed reg) : Timed { reg with tmr := none } :=
  ⟨h.rwait, h.sent, fun _ => nofun, fun _ _ _ => nofun⟩

theorem Timed.tmrHandler {reg : Sipreg} (h : Timed reg) (sent : Bool) (rand : Nat) :
    Good (reg.tmrHandler sent rand) := by
  unfold Sipreg.tmrHandler
  simp only [request_eq]
  cases sent with
  | true => exact ⟨h.requested true, live_requested true reg⟩
  | false => exact @good_retry (reg.requested true false) h.rwait (requested_sent false reg) rand

theorem Good.keepaliveHandler {reg : Sipreg} (h : Good reg) (rand : Nat) :
    Good (reg.keepaliveHandler rand) := by
  unfold Sipreg.keepaliveHandler
  split
  · exact h
  · exact good_retry h.1.rwait h.1.sent rand

theorem Timed.destructor {reg : Sipreg} (h : Timed reg) (sent : Bool) :
    Good (reg.destructor sent) := by
  have hstopped : Timed { reg with tmr := none, terminated := true } :=
    ⟨h.rwait, h.sent, fun _ => nofun, fun _ _ _ => nofun⟩
  unfold Sipreg.destructor
  simp only [request_eq]
  split
  · exact ⟨hstopped, fun _ => nofun⟩
  split
  · cases sent with
    | true => exact ⟨hstopped.requested true, live_requested true _⟩
    | false => exact good_free h.rwait (requested_sent false _)
  · exact good_free h.rwait h.sent

theorem accept_half {reg : Sipreg} (hrwait : reg.rwait ≤ 95) (msg : RegResponse) :
    Half (reg.accept msg) := by
  have hwait : ∀ w : Nat, w * (reg.rwait * 10) % 4294967296 ≤ 950 * w := by
    intro w
    have hmod : w * (reg.rwait * 10) % 4294967296 ≤ w * (reg.rwait * 10) := Nat.mod_le _ _
    have hmul : w * (reg.rwait * 10) ≤ w * 950 := Nat.mul_le_mul_left w (by omega)
    omega
  refine ⟨hrwait, ⟨Nat.zero_le _, Nat.zero_le _⟩, ?_, fun hregistered _ => ?_⟩
  · exact Nat.le_trans (hwait _) (Nat.le_max_right _ _)
  · have hpos : 0 < reg.contactWait msg := of_decide_eq_true hregistered
    have hle := hwait (reg.contactWait msg)
    change reg.now + reg.contactWait msg * (reg.rwait * 10) % 4294967296 <
      reg.now + reg.contactWait msg * 1000
    omega

/-- After one more failure. -/
theorem half_failed {reg : Sipreg} (hrwait : reg.rwait ≤ 95)
    (hsent : reg.sent ≤ reg.ls.failc + 1 ∧ reg.sent ≤ 16) (hwait : reg.wait ≤ 1800000) :
    Half { reg with failc := reg.failc + 1 } :=
  ⟨hrwait, hsent, Nat.le_trans hwait (Nat.le_max_left _ _), fun _ => nofun⟩

theorem requested_false (reg : Sipreg) : reg.requested false false =
    { reg with expires := if reg.terminated then 0 else reg.expires } := by
  obtain ⟨now, expires, pexpires, failc, rwait, wait, fbregint, regid, ka, registered,
    terminated, ls, req, pending, tmr, alive, asked, n, bound, told⟩ := reg
  cases req <;> cases asked <;> rfl

/-- The request was sent again, or there is a delay until the next one. -/
def Refused (reg : Sipreg) (p : Bool × Sipreg) : Prop :=
  ∃ e, (reg.expires = 0 → e = 0) ∧
    (p = (true, { reg with expires := e }.requested false true) ∨
      p = (false, { reg with expires := e, failc := reg.failc + 1 }))

theorem refused_resend (sent : Bool) (reg : Sipreg) :
    Refused reg (match reg.request false sent with
      | (true, reg) => (true, reg)
      | (false, reg) => (false, { reg with failc := reg.failc + 1 })) := by
  simp only [request_eq]
  cases sent with
  | true => exact ⟨reg.expires, id, .inl rfl⟩
  | false =>
    refine ⟨if reg.terminated then 0 else reg.expires, fun he => ?_, .inr ?_⟩
    · rw [he, ite_self]
    · simp only [requested_false]

theorem refuse_cases (msg : RegResponse) (sent : Bool) (reg : Sipreg) :
    reg.refuse msg sent = (false, reg) ∧ reg.terminated = true ∧ reg.registered = false ∨
      Refused reg (reg.refuse msg sent) := by
  have hfailed : Refused reg (false, { reg with failc := reg.failc + 1 }) :=
    ⟨reg.expires, id, .inr rfl⟩
  unfold Sipreg.refuse
  split
  · rename_i hgone
    exact .inl ⟨rfl, hgone⟩
  refine .inr ?_
  simp only
  split
  · split
    · exact refused_resend sent reg
    · exact hfailed
  split
  · split
    · exact hfailed
    · rename_i minExpires hmin
      split
      · exact hfailed
      · rename_i hwanted
        obtain ⟨e, -, he⟩ := refused_resend sent { reg with expires := minExpires }
        exact ⟨e, fun hexpires => absurd (.inr hexpires) hwanted, he⟩
  · exact hfailed

theorem Timed.refuse {reg : Sipreg} (h : Timed reg) (msg : RegResponse) (sent : Bool)
    (hwait : reg.wait ≤ 1800000) (hsent : reg.sent ≤ reg.ls.failc ∧ reg.sent ≤ 15) :
    if (reg.refuse msg sent).1 then Good (reg.refuse msg sent).2
    else Half (reg.refuse msg sent).2 := by
  have hcount : reg.sent ≤ reg.ls.failc + 1 ∧ reg.sent ≤ 16 :=
    ⟨Nat.le_succ_of_le hsent.1, Nat.le_succ_of_le hsent.2⟩
  rcases refuse_cases msg sent reg with ⟨hrefuse, -, hregistered⟩ | ⟨e, he, hrefuse | hrefuse⟩
  · rw [hrefuse]
    refine ⟨h.rwait, hcount, Nat.le_trans hwait (Nat.le_max_left _ _), fun hyes => ?_⟩
    rw [hregistered] at hyes
    cases hyes
  · rw [hrefuse]
    have hwanted (hne : ({ reg with expires := e }.requested false true).expires ≠ 0) :
        reg.expires ≠ 0 := fun hexpires => requested_expires hne (he hexpires)
    refine ⟨⟨h.rwait, ?_, fun hne => h.timer (hwanted hne), fun hne => h.fresh (hwanted hne)⟩,
      live_requested false _⟩
    exact ⟨Nat.succ_le_succ hsent.1, Nat.succ_le_succ hsent.2⟩
  · rw [hrefuse]
    exact @half_failed { reg with expires := e } h.rwait hcount hwait

theorem loops_sent {ls ls' : LoopState} {scode n : Nat} {b : Bool} (h : n ≤ ls.failc + 1 ∧ n ≤ 16)
    (hloops : ls.loops scode = (b, ls')) (hscode : 300 ≤ scode) :
    n ≤ ls'.failc ∧ (b = false → n ≤ 15) := by
  unfold LoopState.loops at hloops
  rw [if_neg (by omega), if_neg (by omega)] at hloops
  simp only [Prod.mk.injEq] at hloops
  obtain ⟨hb, rfl⟩ := hloops
  refine ⟨h.1, fun hfalse => ?_⟩
  rw [hfalse] at hb
  simp only [decide_eq_false_iff_not, not_or] at hb
  omega

theorem loops_early {ls ls' : LoopState} {scode : Nat} {b : Bool}
    (hloops : ls.loops scode = (b, ls')) (hscode : scode < 300) :
    b = false ∧ (scode < 200 → ls' = ls) := by
  unfold LoopState.loops at hloops
  split at hloops
  · cases hloops
    exact ⟨rfl, fun _ => rfl⟩
  · rename_i hfinal
    cases hloops
    exact ⟨rfl, fun hlt => absurd hlt hfinal⟩

/-- Every answer leaves a good client. -/
theorem Timed.responseHandler {reg : Sipreg} (h : Timed reg) (msg : Option RegResponse)
    (sent last : Bool) (rand : Nat) (hlive : (∃ m ∈ msg, m.scode < 200) → Live reg) :
    Good (reg.responseHandler msg sent last rand) := by
  have hwait : failwait rand (reg.failc + 1) ≤ 1800000 := (failwait_bounds rand _).2
  have hfailed : ∀ ls : LoopState, reg.sent ≤ ls.failc + 1 →
      Half { reg with
        wait := failwait rand (reg.failc + 1), ls := ls, failc := reg.failc + 1 } := by
    intro ls hls
    exact @half_failed { reg with wait := failwait rand (reg.failc + 1), ls := ls } h.rwait
      ⟨hls, h.sent.2⟩ hwait
  unfold Sipreg.responseHandler
  cases msg with
  | none => exact (hfailed reg.ls h.sent.1).finish none last
  | some msg =>
    simp only
    cases hloops : reg.ls.loops msg.scode with
    | mk b ls =>
      simp only
      split
      · rename_i hb
        have hscode : 300 ≤ msg.scode := by
          apply Nat.le_of_not_lt
          intro hlt
          have hfalse := (loops_early hloops hlt).1
          rw [hb] at hfalse
          cases hfalse
        have hls := (loops_sent h.sent hloops hscode).1
        exact (hfailed ls (Nat.le_succ_of_le hls)).finish (some msg) last
      split
      · rename_i hearly
        have hls : ls = reg.ls := (loops_early hloops (by omega)).2 hearly
        subst hls
        exact ⟨⟨h.rwait, h.sent, h.timer, h.fresh⟩, hlive ⟨msg, rfl, hearly⟩⟩
      split
      · exact (@accept_half { reg with wait := failwait rand (reg.failc + 1), ls := ls }
          h.rwait msg).finish (some msg) last
      · rename_i hb _ hrefused
        have hls := loops_sent h.sent hloops (Nat.le_of_not_lt hrefused)
        have hroom := hls.2 (Bool.eq_false_iff.mpr hb)
        have htimed : Timed { reg with wait := failwait rand (reg.failc + 1), ls := ls } :=
          ⟨h.rwait, ⟨Nat.le_succ_of_le hls.1, h.sent.2⟩, h.timer, h.fresh⟩
        have hsettled := htimed.refuse msg sent hwait ⟨hls.1, hroom⟩
        cases hrefuse : Sipreg.refuse msg sent
          { reg with wait := failwait rand (reg.failc + 1), ls := ls } with
        | mk again reg' =>
          rw [hrefuse] at hsettled
          cases again with
          | true => exact hsettled
          | false => exact Half.finish hsettled (some msg) last

theorem good_step {reg reg' : Sipreg} {a : SipregAction} (h : Good reg)
    (hstep : reg.step a = some reg') : Good reg' := by
  cases a with
  | tick d =>
    cases hstep
    refine ⟨⟨h.1.rwait, h.1.sent, fun he deadline hd => ?_, h.1.fresh⟩, h.2⟩
    have hdeadline := h.1.timer he deadline hd
    change deadline ≤ reg.now + d + reg.longest
    omega
  | send sent =>
    simp only [step, request_eq] at hstep
    split at hstep
    · cases hstep
      exact h.requested sent
    · cases hstep
  | unregister sent =>
    simp only [step, request_eq] at hstep
    split at hstep
    · cases hstep
      have hgood : Good { reg with expires := 0 } := good_of_expires h.1.rwait h.1.sent rfl
      exact hgood.requested sent
    · cases hstep
  | expire sent rand =>
    simp only [step] at hstep
    split at hstep
    · cases hstep
    split at hstep
    · cases hstep
    · cases hstep
      exact h.1.stopped.tmrHandler sent rand
  | keepalive rand =>
    simp only [step] at hstep
    split at hstep
    · cases hstep
      have hgood : Good { reg with ka := false } :=
        ⟨⟨h.1.rwait, h.1.sent, h.1.timer, h.1.fresh⟩, h.2⟩
      exact hgood.keepaliveHandler rand
    · cases hstep
  | response msg sent last rand =>
    simp only [step] at hstep
    split at hstep
    · cases hstep
      apply Timed.responseHandler
      · unfold answered
        split
        · exact h.1
        · exact ⟨h.1.rwait, h.1.sent, h.1.timer, h.1.fresh⟩
      · rintro ⟨m, hm, hearly⟩
        have hany : isProvisional msg = true := by
          rw [Option.mem_def.mp hm]
          exact decide_eq_true hearly
        unfold answered
        rw [if_pos hany]
        exact h.2
    · cases hstep
  | deref sent =>
    simp only [step] at hstep
    split at hstep
    · cases hstep
      exact h.1.destructor sent
    · cases hstep

theorem good_of_reachable {reg : Sipreg} (h : machine.Reachable reg) : Good reg := by
  refine h.invariant ?_ fun reg a reg' hgood hstep => @good_step reg reg' a hgood hstep
  rintro reg ⟨now, expires, rwait, fbregint, regid, failed, sent, -, hrwait, rfl⟩
  have hgood : ∀ failc,
      Good ({ alloc now expires rwait fbregint regid with failc := failc }.requested true sent) := by
    intro failc
    have hfirst : Good { alloc now expires rwait fbregint regid with failc := failc } :=
      ⟨⟨hrwait, ⟨Nat.zero_le _, Nat.zero_le _⟩, fun _ => nofun, fun _ _ _ => nofun⟩, nofun⟩
    exact hfirst.requested sent
  unfold register
  simp only [request_eq]
  split
  · exact hgood 1
  · exact hgood 0

/-- A client that wants to be registered and has asked for it always waits for an answer, or for
a timer that lets it send again within half an hour or within 95 % of the time it was last
granted. -/
theorem keeps_registering {reg : Sipreg} (h : machine.Reachable reg) (hasked : reg.asked = true)
    (halive : reg.alive = true) (hkept : reg.terminated = false) (hexpires : reg.expires ≠ 0) :
    0 < reg.pending ∨
      ∃ deadline ∈ reg.tmr, deadline ≤ reg.now + max 1800000 (950 * reg.pexpires) := by
  obtain ⟨htimed, hlive⟩ := good_of_reachable h
  rcases hlive hasked halive hkept hexpires with hpending | htmr
  · exact .inl hpending
  · obtain ⟨deadline, hdeadline⟩ := Option.isSome_iff_exists.mp htmr
    exact .inr ⟨deadline, hdeadline, htimed.timer hexpires deadline hdeadline⟩

/-- A client that asks for an hour and has had no answer. -/
def asking : Sipreg := register 0 3600 90 0 0 false true

theorem asking_start : machine.start asking :=
  ⟨0, 3600, 90, 0, 0, false, true, by decide, by decide, rfl⟩

/-- The registrar grants a minute of its own, or wants to know who asks. -/
def granted : RegResponse := ⟨200, [⟨false, some 3600⟩, ⟨true, some 60⟩], none, none, false, .done⟩

def challenged : RegResponse := ⟨401, [], none, none, false, .done⟩

/-- An answer to the challenge is granted. -/
def granting : List SipregAction :=
  [.response (some challenged) true true 7, .response (some granted) true true 0]

theorem keeps_registering_granted : ∃ reg : Sipreg, machine.run asking granting = some reg ∧
    reg.tmr = some 54000 ∧ (0 < reg.pending ∨
      ∃ deadline ∈ reg.tmr, deadline ≤ reg.now + max 1800000 (950 * reg.pexpires)) := by
  let reg : Sipreg := { asking with
    pexpires := 60, wait := 54000, registered := true, ls := ⟨0, 200⟩, req := false, pending := 0,
    tmr := some 54000, sent := 0, bound := 60000, told := 1 }
  have hrun : machine.run asking granting = some reg := by decide +kernel
  exact ⟨reg, hrun, rfl,
    keeps_registering ⟨asking, granting, asking_start, hrun⟩ rfl rfl rfl (by decide)⟩

/-- Whatever the registrar answers, at most sixteen requests go out before the next success, the
next timer or the next call of the user. -/
theorem sent_le {reg : Sipreg} (h : machine.Reachable reg) : reg.sent ≤ 16 :=
  (good_of_reachable h).1.sent.2

/-- A registrar that always wants to know who asks. -/
theorem sent_le_sixteen : ∃ reg : Sipreg, reg.sent = 16 ∧ reg.sent ≤ 16 := by
  let as : List SipregAction := List.replicate 15 (.response (some challenged) true true 0)
  let reg : Sipreg := { asking with
    wait := 30000, ls := ⟨15, 401⟩, req := true, pending := 1, sent := 16 }
  have hrun : machine.run asking as = some reg := by decide +kernel
  exact ⟨reg, rfl, sent_le ⟨asking, as, asking_start, hrun⟩⟩

/-! ### What an answer leads to -/

/-- In the middle of an answer, only what the client knows about its registration changed. -/
structure Halfway (reg mid : Sipreg) : Prop where
  now : mid.now = reg.now
  tmr : mid.tmr = reg.tmr
  req : mid.req = reg.req
  pending : mid.pending = reg.pending
  alive : mid.alive = reg.alive
  terminated : mid.terminated = reg.terminated
  told : mid.told = reg.told
  asked : mid.asked = reg.asked
  expires : reg.expires = 0 → mid.expires = 0

inductive Handled (msg : Option RegResponse) (reg : Sipreg) : Sipreg → Prop
  | provisional (wait : Nat) (ls : LoopState) (hearly : isProvisional msg = true) :
      Handled msg reg { reg with wait := wait, ls := ls }
  | again (wait : Nat) (ls : LoopState) (expires : Nat) (hfinal : isProvisional msg = false) :
      Handled msg reg ({ reg with wait := wait, ls := ls, expires := expires }.requested false true)
  | finished {reg' : Sipreg} (mid : Sipreg) (hfinal : isProvisional msg = false)
      (hmid : Halfway reg mid) (hdone : Finished mid reg') : Handled msg reg reg'

theorem handled_finish {msg : Option RegResponse} {last : Bool} {reg mid : Sipreg}
    (hfinal : isProvisional msg = false) (h : Halfway reg mid) :
    Handled msg reg (mid.finish msg last) :=
  .finished mid hfinal h (finished msg last mid)

theorem handled (msg : Option RegResponse) (sent last : Bool) (rand : Nat) (reg : Sipreg) :
    Handled msg reg (reg.responseHandler msg sent last rand) := by
  unfold Sipreg.responseHandler
  cases msg with
  | none => exact handled_finish rfl ⟨rfl, rfl, rfl, rfl, rfl, rfl, rfl, rfl, id⟩
  | some msg =>
    simp only
    split
    · rename_i hloops
      have hfinal : isProvisional (some msg) = false := by
        apply decide_eq_false
        intro hearly
        have hlt : msg.scode < 300 := Nat.lt_of_lt_of_le hearly (by decide)
        have hno : (reg.ls.loops msg.scode).1 = false := (loops_early rfl hlt).1
        rw [hno] at hloops
        cases hloops
      exact handled_finish hfinal ⟨rfl, rfl, rfl, rfl, rfl, rfl, rfl, rfl, id⟩
    split
    · rename_i hearly
      exact .provisional _ _ (decide_eq_true hearly)
    rename_i hearly
    have hfinal : isProvisional (some msg) = false := decide_eq_false hearly
    split
    · exact handled_finish hfinal ⟨rfl, rfl, rfl, rfl, rfl, rfl, rfl, rfl, id⟩
    · have hrefuse := refuse_cases msg sent { reg with
        wait := failwait rand (reg.failc + 1), ls := (reg.ls.loops msg.scode).2 }
      rcases hrefuse with ⟨hrefuse, -, -⟩ | ⟨e, he, hrefuse | hrefuse⟩
      · rw [hrefuse]
        exact handled_finish hfinal ⟨rfl, rfl, rfl, rfl, rfl, rfl, rfl, rfl, id⟩
      · rw [hrefuse]
        exact .again _ _ e hfinal
      · rw [hrefuse]
        exact handled_finish hfinal ⟨rfl, rfl, rfl, rfl, rfl, rfl, rfl, rfl, he⟩

/-! ### Before the first request -/

/-- Before its first request went out a client has nothing to wait for. -/
def Known (reg : Sipreg) : Prop :=
  reg.asked = true ∨
    reg.pending = 0 ∧ reg.registered = false ∧ reg.tmr = none ∧ reg.ka = false

theorem Finished.asked {reg reg' : Sipreg} (h : Finished reg reg') (hasked : reg.asked = true) :
    reg'.asked = true := by
  cases h with
  | freed | stopped | waiting => exact hasked
  | dropped | takenBack =>
    change (reg.asked || _) = true
    rw [hasked]
    rfl

theorem Handled.asked {reg reg' : Sipreg} {msg : Option RegResponse} (h : Handled msg reg reg')
    (hasked : reg.asked = true) : reg'.asked = true := by
  cases h with
  | provisional wait ls hearly => exact hasked
  | again wait ls expires hfinal => exact Bool.or_true reg.asked
  | finished mid hfinal hmid hdone => exact hdone.asked (hmid.asked.trans hasked)

theorem Known.requested {reg : Sipreg} (h : Known reg) (sent : Bool) :
    Known (reg.requested true sent) := by
  cases sent with
  | true => exact .inl (Bool.or_true reg.asked)
  | false =>
    refine h.imp ?_ id
    intro hasked
    change (reg.asked || false) = true
    rw [hasked]
    rfl

theorem Known.report {reg : Sipreg} (h : Known reg) : Known reg.report := by
  unfold Sipreg.report
  split
  · exact h
  · exact h

theorem Known.step {reg reg' : Sipreg} {a : SipregAction} (h : Known reg)
    (hstep : reg.step a = some reg') : Known reg' := by
  cases a with
  | tick d =>
    cases hstep
    exact h
  | send sent =>
    simp only [Sipreg.step, request_eq] at hstep
    split at hstep
    · cases hstep
      exact h.requested sent
    · cases hstep
  | unregister sent =>
    simp only [Sipreg.step, request_eq] at hstep
    split at hstep
    · cases hstep
      have hzero : Known { reg with expires := 0 } := h
      exact hzero.requested sent
    · cases hstep
  | expire sent rand =>
    simp only [Sipreg.step] at hstep
    split at hstep
    · cases hstep
    rename_i deadline htmr
    have hasked : reg.asked = true := by
      rcases h with hasked | ⟨-, -, hnone, -⟩
      · exact hasked
      · rw [hnone] at htmr
        cases htmr
    split at hstep
    · cases hstep
    · cases hstep
      have hstopped : Known { reg with tmr := none } := .inl hasked
      unfold Sipreg.tmrHandler
      simp only [request_eq]
      have hrequested := hstopped.requested sent
      cases sent with
      | true => exact hrequested
      | false => exact Known.report (.inl ((Bool.or_false reg.asked).trans hasked))
  | keepalive rand =>
    simp only [Sipreg.step] at hstep
    split at hstep
    · rename_i hcan
      cases hstep
      have hasked : reg.asked = true := by
        rcases h with hasked | ⟨-, -, -, hka⟩
        · exact hasked
        · rw [hcan.2] at hka
          cases hka
      unfold Sipreg.keepaliveHandler
      split
      · exact .inl hasked
      · exact Known.report (.inl hasked)
    · cases hstep
  | response msg sent last rand =>
    simp only [Sipreg.step] at hstep
    split at hstep
    · rename_i hcan
      cases hstep
      have hasked : reg.asked = true := by
        rcases h with hasked | ⟨hpending, -⟩
        · exact hasked
        · rw [hpending] at hcan
          exact absurd hcan.2 (Nat.lt_irrefl 0)
      refine .inl ((handled msg sent last rand _).asked ?_)
      unfold answered
      split
      · exact hasked
      · exact hasked
    · cases hstep
  | deref sent =>
    simp only [Sipreg.step] at hstep
    split at hstep
    · cases hstep
      have hgone : Known { reg with tmr := none, terminated := true } :=
        h.imp id fun hblank => ⟨hblank.1, hblank.2.1, rfl, hblank.2.2.2⟩
      have hrequested := hgone.requested sent
      unfold Sipreg.destructor
      simp only [request_eq]
      split
      · exact hgone
      split
      · cases sent with
        | true => exact hrequested
        | false => exact hrequested.imp id fun hblank => ⟨hblank.1, hblank.2.1, rfl, hblank.2.2.2⟩
      · exact hgone.imp id fun hblank => ⟨hblank.1, hblank.2.1, rfl, hblank.2.2.2⟩
    · cases hstep

theorem known_of_reachable {reg : Sipreg} (h : machine.Reachable reg) : Known reg := by
  refine h.invariant ?_ fun reg a reg' hknown hstep => @Known.step reg reg' a hknown hstep
  rintro reg ⟨now, expires, rwait, fbregint, regid, failed, sent, -, -, rfl⟩
  cases failed <;> cases sent <;>
    first | exact .inl rfl | exact .inr ⟨rfl, rfl, rfl, rfl⟩

/-! ### Timers that are served in time -/

/-- The clock does not pass a timer that has not been served. -/
def Punctual (reg : Sipreg) : SipregAction → Prop
  | .tick d => ∀ deadline ∈ reg.tmr, reg.now + d ≤ deadline
  | _ => True

instance Punctual.decidable (reg : Sipreg) (a : SipregAction) : Decidable (Punctual reg a) := by
  unfold Punctual
  exact match a with
    | .tick _ => inferInstance
    | .send _ | .unregister _ | .expire _ _ | .keepalive _ | .response _ _ _ _ | .deref _ =>
      inferInstance

def Timely (reg : Sipreg) : Prop := ∀ deadline ∈ reg.tmr, reg.now ≤ deadline

theorem timely_started (reg : Sipreg) (delay : Nat) : Timely (reg.startTimer delay).report := by
  unfold Sipreg.report
  split
  · rintro _ ⟨⟩
    exact Nat.le_add_right _ _
  · rintro _ ⟨⟩
    exact Nat.le_add_right _ _

theorem Timely.finished {reg reg' : Sipreg} (h : Timely reg) (hdone : Finished reg reg') :
    Timely reg' := by
  cases hdone with
  | freed | dropped => exact nofun
  | takenBack => exact h
  | stopped fb tmr hkept hexpires htmr => exact htmr
  | waiting hkept =>
    rintro _ ⟨⟩
    exact Nat.le_add_right _ _

theorem Timely.handled {reg reg' : Sipreg} {msg : Option RegResponse} (h : Timely reg)
    (hhandled : Handled msg reg reg') : Timely reg' := by
  cases hhandled with
  | provisional | again => exact h
  | finished mid hfinal hmid hdone =>
    have htimely : Timely mid := by
      intro deadline hdeadline
      rw [hmid.tmr] at hdeadline
      rw [hmid.now]
      exact h deadline hdeadline
    exact htimely.finished hdone

theorem timely_tmrHandler {reg : Sipreg} (h : reg.tmr = none) (sent : Bool) (rand : Nat) :
    Timely (reg.tmrHandler sent rand) := by
  unfold Sipreg.tmrHandler
  simp only [request_eq]
  cases sent with
  | true =>
    intro deadline hdeadline
    change deadline ∈ reg.tmr at hdeadline
    rw [h] at hdeadline
    cases hdeadline
  | false => exact timely_started _ _

theorem timely_destructor (reg : Sipreg) (sent : Bool) : Timely (reg.destructor sent) := by
  unfold Sipreg.destructor
  simp only [request_eq]
  split
  · exact nofun
  split
  · cases sent <;> exact nofun
  · exact nofun

theorem Timely.step {reg reg' : Sipreg} {a : SipregAction} (h : Timely reg)
    (hpunctual : Punctual reg a) (hstep : reg.step a = some reg') : Timely reg' := by
  cases a with
  | tick d =>
    cases hstep
    exact hpunctual
  | send sent | unregister sent =>
    simp only [Sipreg.step, request_eq] at hstep
    split at hstep
    · cases hstep
      exact h
    · cases hstep
  | expire sent rand =>
    simp only [Sipreg.step] at hstep
    split at hstep
    · cases hstep
    split at hstep
    · cases hstep
    · cases hstep
      exact timely_tmrHandler rfl sent rand
  | keepalive rand =>
    simp only [Sipreg.step, Sipreg.keepaliveHandler] at hstep
    split at hstep
    · cases hstep
      split
      · exact h
      · exact timely_started _ _
    · cases hstep
  | response msg sent last rand =>
    simp only [Sipreg.step] at hstep
    split at hstep
    · cases hstep
      refine Timely.handled ?_ (Sipreg.handled msg sent last rand _)
      unfold answered
      split
      · exact h
      · exact h
    · cases hstep
  | deref sent =>
    simp only [Sipreg.step] at hstep
    split at hstep
    · cases hstep
      exact timely_destructor reg sent
    · cases hstep

theorem timely_run {reg₀ reg : Sipreg} {as : List SipregAction} (hstart : machine.start reg₀)
    (hpunctual : machine.Meets Punctual reg₀ as) (hrun : machine.run reg₀ as = some reg) :
    Timely reg := by
  refine Machine.run_of_meets (fun reg a reg' => @Timely.step reg reg' a) ?_ hpunctual hrun
  obtain ⟨now, expires, rwait, fbregint, regid, failed, sent, -, -, rfl⟩ := hstart
  cases failed <;> cases sent <;> exact nofun

/-- With its timers served in time, a registered client that has had no failure since then, and
is not asking, will send again before its registration has expired. -/
theorem refreshed_in_time {reg₀ reg : Sipreg} {as : List SipregAction}
    (hstart : machine.start reg₀) (hpunctual : machine.Meets Punctual reg₀ as)
    (hrun : machine.run reg₀ as = some reg) (halive : reg.alive = true)
    (hkept : reg.terminated = false) (hexpires : reg.expires ≠ 0) (hidle : reg.pending = 0)
    (hregistered : reg.registered = true) (hfailc : reg.failc = 0) :
    ∃ deadline ∈ reg.tmr, reg.now ≤ deadline ∧ deadline < reg.bound := by
  obtain ⟨htimed, hlive⟩ := good_of_reachable ⟨reg₀, as, hstart, hrun⟩
  have hasked : reg.asked = true := by
    rcases known_of_reachable ⟨reg₀, as, hstart, hrun⟩ with hasked | ⟨-, hblank, -⟩
    · exact hasked
    · rw [hregistered] at hblank
      cases hblank
  rcases hlive hasked halive hkept hexpires with hpending | htmr
  · exact absurd hidle (Nat.pos_iff_ne_zero.mp hpending)
  · obtain ⟨deadline, hdeadline⟩ := Option.isSome_iff_exists.mp htmr
    have hnow := timely_run hstart hpunctual hrun deadline hdeadline
    exact ⟨deadline, hdeadline, hnow, htimed.fresh hexpires hregistered hfailc deadline hdeadline⟩

def waiting : List SipregAction := [.tick 250, .response (some granted) true true 0, .tick 50000]

theorem refreshed_in_time_granted : ∃ reg : Sipreg, machine.run asking waiting = some reg ∧
    reg.bound = 60250 ∧ ∃ deadline ∈ reg.tmr, reg.now ≤ deadline ∧ deadline < reg.bound := by
  let reg : Sipreg := { asking with
    now := 50250, pexpires := 60, wait := 54000, registered := true, ls := ⟨0, 200⟩, req := false,
    pending := 0, tmr := some 54250, sent := 0, bound := 60250, told := 1 }
  have hrun : machine.run asking waiting = some reg := by decide +kernel
  have hpunctual : machine.Meets Punctual asking waiting := by decide +kernel
  exact ⟨reg, hrun, rfl,
    refreshed_in_time asking_start hpunctual hrun rfl rfl (by decide) rfl rfl rfl⟩

/-! ### A client that is given up -/

/-- Nothing but an answer makes the client send while it waits for one. -/
def Serial (reg : Sipreg) : SipregAction → Prop
  | .send _ | .unregister _ | .expire _ _ => reg.pending = 0
  | _ => True

instance Serial.decidable (reg : Sipreg) (a : SipregAction) : Decidable (Serial reg a) := by
  unfold Serial
  exact match a with
    | .send _ | .unregister _ | .expire _ _ => inferInstance
    | .tick _ | .keepalive _ | .response _ _ _ _ | .deref _ => inferInstance

/-- A client waits for one answer at most; one that was given up waits for just that. -/
structure Single (reg : Sipreg) : Prop where
  pending : reg.pending = reg.req.toNat
  asking : reg.alive = true → reg.terminated = true → reg.req = true
  silent : reg.terminated = true → reg.tmr = none
  gone : reg.alive = false → reg.terminated = true ∧ reg.req = false

/-- A client whose answer has come. -/
structure Idle (reg : Sipreg) : Prop where
  alive : reg.alive = true
  req : reg.req = false
  pending : reg.pending = 0
  silent : reg.terminated = true → reg.tmr = none

theorem Single.idle {reg : Sipreg} (h : Single reg) (halive : reg.alive = true)
    (hpending : reg.pending = 0) : Idle reg := by
  refine ⟨halive, ?_, hpending, h.silent⟩
  cases hreq : reg.req with
  | false => rfl
  | true =>
    have hone : reg.pending = reg.req.toNat := h.pending
    rw [hreq, hpending] at hone
    cases hone

theorem Idle.requested {reg : Sipreg} (h : Idle reg) (resetLs : Bool) :
    Single (reg.requested resetLs true) := by
  have hreq : (reg.requested resetLs true).req = true := Bool.or_true reg.req
  refine ⟨?_, fun _ _ => hreq, h.silent, fun hgone => ?_⟩
  · rw [hreq]
    change reg.pending + 1 = 1
    rw [h.pending]
  · have hne : reg.alive = false := hgone
    rw [h.alive] at hne
    cases hne

theorem Idle.unsent {reg : Sipreg} (h : Idle reg) (resetLs : Bool) :
    Idle (reg.requested resetLs false) :=
  ⟨h.alive, (Bool.or_false reg.req).trans h.req, h.pending, h.silent⟩

theorem Idle.free {reg : Sipreg} (h : Idle reg) (hgone : reg.terminated = true) :
    Single reg.free := by
  refine ⟨?_, nofun, fun _ => rfl, fun _ => ⟨hgone, h.req⟩⟩
  change reg.pending = reg.req.toNat
  rw [h.pending, h.req]
  rfl

/-- A client that is kept needs to ask nothing. -/
theorem Idle.single {reg : Sipreg} (h : Idle reg) (hkept : reg.terminated = false) :
    Single reg := by
  have hno : reg.terminated ≠ true := by
    rw [hkept]
    exact Bool.false_ne_true
  refine ⟨?_, fun _ hgone => absurd hgone hno, h.silent, fun halive => ?_⟩
  · rw [h.pending, h.req]
    rfl
  · rw [h.alive] at halive
    cases halive

theorem Idle.finished {reg reg' : Sipreg} (h : Idle reg) (hdone : Finished reg reg') :
    Single reg' := by
  cases hdone with
  | freed fb hgone =>
    have hidle : Idle { reg with fbregint := fb } := ⟨h.alive, h.req, h.pending, h.silent⟩
    exact hidle.free hgone
  | dropped hgone => exact (h.unsent true).free hgone
  | takenBack hgone hexpires => exact h.requested true
  | stopped fb tmr hkept hexpires htmr =>
    have hidle : Idle { reg with fbregint := fb, tmr := tmr, told := reg.told + 1 } := by
      refine ⟨h.alive, h.req, h.pending, fun hgone => ?_⟩
      rw [hkept] at hgone
      cases hgone
    exact hidle.single hkept
  | waiting hkept =>
    have hidle : Idle { reg with tmr := some (reg.now + reg.wait), told := reg.told + 1 } := by
      refine ⟨h.alive, h.req, h.pending, fun hgone => ?_⟩
      rw [hkept] at hgone
      cases hgone
    exact hidle.single hkept

theorem Idle.halfway {reg mid : Sipreg} (h : Idle reg) (hmid : Halfway reg mid) : Idle mid := by
  refine ⟨hmid.alive.trans h.alive, hmid.req.trans h.req, hmid.pending.trans h.pending, ?_⟩
  rw [hmid.terminated, hmid.tmr]
  exact h.silent

theorem Single.one {reg : Sipreg} (h : Single reg) (hpending : 0 < reg.pending) :
    reg.pending = 1 := by
  have hreq := h.pending
  cases hval : reg.req with
  | false =>
    rw [hval] at hreq
    exact absurd hpending (hreq ▸ Nat.lt_irrefl 0)
  | true =>
    rw [hval] at hreq
    exact hreq

theorem Single.answered {reg : Sipreg} {msg : Option RegResponse} (h : Single reg)
    (halive : reg.alive = true) (hpending : 0 < reg.pending)
    (hfinal : isProvisional msg = false) : Idle (reg.answered msg) := by
  unfold Sipreg.answered
  rw [hfinal]
  refine ⟨halive, rfl, ?_, h.silent⟩
  change reg.pending - 1 = 0
  rw [h.one hpending]

theorem Single.response {reg reg' : Sipreg} {msg : Option RegResponse} (h : Single reg)
    (halive : reg.alive = true) (hpending : 0 < reg.pending)
    (hhandled : Handled msg (reg.answered msg) reg') : Single reg' := by
  cases hhandled with
  | provisional wait ls hearly =>
    unfold Sipreg.answered
    rw [hearly]
    exact ⟨h.pending, h.asking, h.silent, h.gone⟩
  | again wait ls expires hfinal =>
    have hidle := h.answered halive hpending hfinal
    have hsame : Idle { reg.answered msg with wait := wait, ls := ls, expires := expires } :=
      ⟨hidle.alive, hidle.req, hidle.pending, hidle.silent⟩
    exact hsame.requested false
  | finished mid hfinal hmid hdone =>
    exact ((h.answered halive hpending hfinal).halfway hmid).finished hdone

theorem Idle.tmrHandler {reg : Sipreg} (h : Idle reg) (hkept : reg.terminated = false)
    (sent : Bool) (rand : Nat) : Single (reg.tmrHandler sent rand) := by
  unfold Sipreg.tmrHandler
  simp only [request_eq]
  cases sent with
  | true => exact h.requested true
  | false =>
    simp only
    rw [report_kept]
    · refine @Idle.single { reg.requested true false with
        failc := reg.failc + 1, tmr := some (reg.now + failwait rand (reg.failc + 1)),
        told := reg.told + 1 } ⟨h.alive, (h.unsent true).req, h.pending, fun hgone => ?_⟩ hkept
      rw [show reg.terminated = true from hgone] at hkept
      cases hkept
    · exact hkept

theorem Single.keepaliveHandler {reg : Sipreg} (h : Single reg) (halive : reg.alive = true)
    (rand : Nat) : Single (reg.keepaliveHandler rand) := by
  unfold Sipreg.keepaliveHandler
  split
  · exact h
  · rename_i hidle
    obtain ⟨hreq, hgone⟩ := not_or.mp hidle
    have hkept : reg.terminated = false := Bool.eq_false_iff.mpr hgone
    simp only
    rw [report_kept]
    · refine ⟨h.pending, fun _ hgone' => absurd hgone' hgone, fun hgone' => absurd hgone' hgone, ?_⟩
      intro hdead
      rw [show reg.alive = false from hdead] at halive
      cases halive
    · exact hkept

theorem Single.destructor {reg : Sipreg} (h : Single reg) (halive : reg.alive = true)
    (sent : Bool) : Single (reg.destructor sent) := by
  unfold Sipreg.destructor
  simp only [request_eq]
  split
  · rename_i hreq
    refine ⟨h.pending, fun _ _ => hreq, fun _ => rfl, fun hdead => ?_⟩
    rw [show reg.alive = false from hdead] at halive
    cases halive
  · rename_i hreq
    have hfalse : reg.req = false := Bool.eq_false_iff.mpr hreq
    have hpending : reg.pending = 0 := by
      rw [h.pending, hfalse]
      rfl
    have hidle : Idle { reg with tmr := none, terminated := true } :=
      ⟨halive, hfalse, hpending, fun _ => rfl⟩
    split
    · cases sent with
      | true => exact hidle.requested true
      | false => exact (hidle.unsent true).free rfl
    · exact hidle.free rfl

theorem Single.step {reg reg' : Sipreg} {a : SipregAction} (h : Single reg)
    (hserial : Serial reg a) (hstep : reg.step a = some reg') : Single reg' := by
  cases a with
  | tick d =>
    cases hstep
    exact ⟨h.pending, h.asking, h.silent, h.gone⟩
  | send sent =>
    simp only [Sipreg.step, request_eq] at hstep
    split at hstep
    · rename_i hcan
      cases hstep
      have hidle := h.idle hcan.1 hserial
      cases sent with
      | true => exact hidle.requested true
      | false => exact (hidle.unsent true).single hcan.2
    · cases hstep
  | unregister sent =>
    simp only [Sipreg.step, request_eq] at hstep
    split at hstep
    · rename_i hcan
      cases hstep
      have hidle := h.idle hcan.1 hserial
      have hzero : Idle { reg with expires := 0 } :=
        ⟨hidle.alive, hidle.req, hidle.pending, hidle.silent⟩
      cases sent with
      | true => exact hzero.requested true
      | false => exact (hzero.unsent true).single hcan.2
    · cases hstep
  | expire sent rand =>
    simp only [Sipreg.step] at hstep
    split at hstep
    · cases hstep
    split at hstep
    · cases hstep
    · rename_i deadline htmr hdue
      cases hstep
      have hkept : reg.terminated = false := by
        apply Bool.eq_false_iff.mpr
        intro hgone
        rw [h.silent hgone] at htmr
        cases htmr
      have halive : reg.alive = true := by
        apply Bool.not_eq_false _ |>.mp
        intro hdead
        rw [(h.gone hdead).1] at hkept
        cases hkept
      have hidle := h.idle halive hserial
      have hstopped : Idle { reg with tmr := none } :=
        ⟨hidle.alive, hidle.req, hidle.pending, fun _ => rfl⟩
      exact hstopped.tmrHandler hkept sent rand
  | keepalive rand =>
    simp only [Sipreg.step] at hstep
    split at hstep
    · rename_i hcan
      cases hstep
      have hsame : Single { reg with ka := false } := ⟨h.pending, h.asking, h.silent, h.gone⟩
      exact hsame.keepaliveHandler hcan.1 rand
    · cases hstep
  | response msg sent last rand =>
    simp only [Sipreg.step] at hstep
    split at hstep
    · rename_i hcan
      cases hstep
      exact h.response hcan.1 hcan.2 (handled msg sent last rand _)
    · cases hstep
  | deref sent =>
    simp only [Sipreg.step] at hstep
    split at hstep
    · rename_i hcan
      cases hstep
      exact h.destructor hcan.1 sent
    · cases hstep

theorem single_run {reg₀ reg : Sipreg} {as : List SipregAction} (hstart : machine.start reg₀)
    (hserial : machine.Meets Serial reg₀ as) (hrun : machine.run reg₀ as = some reg) :
    Single reg := by
  refine Machine.run_of_meets (fun reg a reg' => @Single.step reg reg' a) ?_ hserial hrun
  obtain ⟨now, expires, rwait, fbregint, regid, failed, sent, -, -, rfl⟩ := hstart
  cases failed <;> cases sent <;> exact ⟨rfl, fun _ => nofun, fun _ => rfl, nofun⟩

def isFinal : SipregAction → Bool
  | .response msg _ _ _ => !isProvisional msg
  | _ => false

/-- How many answers can still come before a client that was given up is gone. -/
def left (reg : Sipreg) : Nat :=
  if reg.alive then if reg.expires = 0 then 17 - reg.sent else 17 else 0

theorem left_le (reg : Sipreg) : reg.left ≤ 17 := by
  unfold left
  split
  · split
    · exact Nat.sub_le 17 reg.sent
    · exact Nat.le_refl 17
  · exact Nat.zero_le 17

/-- Once a client is given up, its next request takes the registration back. -/
theorem left_requested {reg : Sipreg} (hgone : reg.terminated = true) (resetLs : Bool) :
    (reg.requested resetLs true).left ≤ 17 - (reg.requested resetLs true).sent := by
  have hexpires : (reg.requested resetLs true).expires = 0 := if_pos hgone
  unfold left
  rw [if_pos hexpires]
  split
  · exact Nat.le_refl _
  · exact Nat.zero_le _

structure Leaving (reg reg' : Sipreg) : Prop where
  gone : reg'.terminated = true
  told : reg'.told = reg.told

theorem Finished.leaving {reg reg' : Sipreg} (h : Finished reg reg')
    (hgone : reg.terminated = true) :
    Leaving reg reg' ∧ reg'.left ≤ 16 ∧ (reg.expires = 0 → reg'.left = 0) := by
  have hno : reg.terminated ≠ false := by
    rw [hgone]
    exact Bool.true_eq_false.mp
  cases h with
  | freed fb => exact ⟨⟨hgone, rfl⟩, Nat.zero_le 16, fun _ => rfl⟩
  | dropped => exact ⟨⟨hgone, rfl⟩, Nat.zero_le 16, fun _ => rfl⟩
  | takenBack hgone' hexpires =>
    exact ⟨⟨hgone, rfl⟩, left_requested hgone true, fun hzero => absurd hzero hexpires⟩
  | stopped fb tmr hkept hexpires htmr => exact absurd hkept hno
  | waiting hkept => exact absurd hkept hno

theorem leaving_response {reg reg' : Sipreg} {msg : Option RegResponse}
    (hgone : reg.terminated = true) (halive : reg.alive = true) (hsent : reg.sent ≤ 16)
    (hhandled : Handled msg (reg.answered msg) reg') :
    Leaving reg reg' ∧ reg'.left + (!isProvisional msg).toNat ≤ reg.left := by
  have hleft : reg.left = if reg.expires = 0 then 17 - reg.sent else 17 := if_pos halive
  unfold Sipreg.answered at hhandled
  cases hhandled with
  | provisional wait ls hearly =>
    rw [hearly]
    exact ⟨⟨hgone, rfl⟩, Nat.le_refl _⟩
  | again wait ls expires hfinal =>
    rw [hfinal]
    refine ⟨⟨hgone, rfl⟩, ?_⟩
    have hnext := @left_requested { reg with
      req := false, pending := reg.pending - 1, wait := wait, ls := ls, expires := expires }
      hgone false
    change _ ≤ 17 - (reg.sent + 1) at hnext
    simp only [Bool.not_false, Bool.toNat_true, Bool.false_eq_true, if_false]
    rw [hleft]
    split <;> omega
  | finished mid hfinal hmid hdone =>
    rw [hfinal] at hmid ⊢
    obtain ⟨hleaving, hle, hzero⟩ := hdone.leaving (hmid.terminated.trans hgone)
    refine ⟨⟨hleaving.gone, hleaving.told.trans hmid.told⟩, ?_⟩
    rw [hleft]
    simp only [Bool.not_false, Bool.toNat_true]
    split
    · rename_i hexpires
      rw [hzero (hmid.expires hexpires)]
      omega
    · omega

theorem leaving_step {reg reg' : Sipreg} {a : SipregAction} (hgone : reg.terminated = true)
    (hsingle : Single reg) (hsent : reg.sent ≤ 16) (hstep : reg.step a = some reg') :
    Leaving reg reg' ∧ reg'.left + (isFinal a).toNat ≤ reg.left := by
  cases a with
  | tick d =>
    cases hstep
    exact ⟨⟨hgone, rfl⟩, Nat.le_refl _⟩
  | send sent | unregister sent | deref sent =>
    simp only [step, hgone, Bool.true_eq_false, and_false, if_false] at hstep
    cases hstep
  | expire sent rand =>
    simp only [step, hsingle.silent hgone] at hstep
    cases hstep
  | keepalive rand =>
    simp only [step] at hstep
    split at hstep
    · cases hstep
      unfold Sipreg.keepaliveHandler
      rw [if_pos (.inr hgone)]
      exact ⟨⟨hgone, rfl⟩, Nat.le_refl _⟩
    · cases hstep
  | response msg sent last rand =>
    simp only [step] at hstep
    split at hstep
    · rename_i hcan
      cases hstep
      exact leaving_response hgone hcan.1 hsent (handled msg sent last rand _)
    · cases hstep

/-- A step of a client that was given up needs no promise. -/
theorem serial_of_gone {reg reg' : Sipreg} {a : SipregAction} (hgone : reg.terminated = true)
    (hsingle : Single reg) (hstep : reg.step a = some reg') : Serial reg a := by
  cases a with
  | send sent | unregister sent =>
    simp only [step, hgone, Bool.true_eq_false, and_false, if_false] at hstep
    cases hstep
  | expire sent rand =>
    simp only [step, hsingle.silent hgone] at hstep
    cases hstep
  | tick | keepalive | response | deref => trivial

theorem leaving_run {reg reg' : Sipreg} {bs : List SipregAction} (hgone : reg.terminated = true)
    (hsingle : Single reg) (hgood : Good reg) (hrun : machine.run reg bs = some reg') :
    Leaving reg reg' ∧ Single reg' ∧ reg'.left + bs.countP isFinal ≤ reg.left := by
  induction bs generalizing reg with
  | nil =>
    cases hrun
    exact ⟨⟨hgone, rfl⟩, hsingle, Nat.le_refl _⟩
  | cons b bs ih =>
    obtain ⟨mid, hstep, hrest⟩ := machine.run_cons_eq_some.mp hrun
    obtain ⟨hleaving, hleft⟩ := leaving_step hgone hsingle hgood.1.sent.2 hstep
    have hsingle' : Single mid := hsingle.step (serial_of_gone hgone hsingle hstep) hstep
    obtain ⟨hrest', hsingle'', hleft'⟩ :=
      ih hleaving.gone hsingle' (good_step hgood hstep) hrest
    refine ⟨⟨hrest'.gone, hrest'.told.trans hleaving.told⟩, hsingle'', ?_⟩
    rw [List.countP_cons]
    have hcount : (if isFinal b = true then 1 else 0) = (isFinal b).toNat := by
      cases isFinal b <;> rfl
    omega

/-- Where nothing but its answers makes a client send while it waits, a client that its user
gives up tells the user nothing more, sets no timer, waits for one answer for as long as it is
there, and is gone after at most seventeen. -/
theorem given_up {reg₀ reg reg' : Sipreg} {as bs : List SipregAction}
    (hstart : machine.start reg₀) (hserial : machine.Meets Serial reg₀ as)
    (hrun : machine.run reg₀ as = some reg) (hgone : reg.terminated = true)
    (hrun' : machine.run reg bs = some reg') :
    reg'.told = reg.told ∧ reg'.tmr = none ∧ reg'.pending = reg'.alive.toNat ∧
      bs.countP isFinal ≤ 17 := by
  have hsingle := single_run hstart hserial hrun
  have hgood := good_of_reachable ⟨reg₀, as, hstart, hrun⟩
  obtain ⟨hleaving, hsingle', hleft⟩ := leaving_run hgone hsingle hgood hrun'
  have hmost := left_le reg
  refine ⟨hleaving.told, hsingle'.silent hleaving.gone, ?_, by omega⟩
  rw [hsingle'.pending]
  cases halive : reg'.alive with
  | true => rw [hsingle'.asking halive hleaving.gone]
  | false => rw [(hsingle'.gone halive).2]

/-- A client is given up while it renews its registration; the registrar grants that, and then
asks again and again who takes it back. -/
theorem given_up_seventeen : ∃ (reg reg' : Sipreg) (bs : List SipregAction),
    machine.run reg bs = some reg' ∧ bs.countP isFinal = 17 ∧ reg'.alive = false ∧
      reg'.told = reg.told ∧ reg'.tmr = none ∧ reg'.pending = reg'.alive.toNat ∧
        bs.countP isFinal ≤ 17 := by
  let again : SipregAction := .response (some challenged) true true 0
  let grant : SipregAction := .response (some granted) true true 0
  let as : List SipregAction := [grant, .tick 54000, .expire true 0, .deref true]
  let bs : List SipregAction := grant :: List.replicate 16 again
  let reg : Sipreg := { asking with
    now := 54000, pexpires := 60, wait := 54000, registered := true, terminated := true,
    sent := 1, bound := 60000, told := 1 }
  let reg' : Sipreg := { reg with
    expires := 0, failc := 1, wait := 30000, ls := ⟨16, 401⟩, req := false, pending := 0,
    alive := false, sent := 16, bound := 114000 }
  have hrun : machine.run asking as = some reg := by decide +kernel
  have hserial : machine.Meets Serial asking as := by decide +kernel
  have hrun' : machine.run reg bs = some reg' := by decide +kernel
  exact ⟨reg, reg', bs, hrun', by decide, rfl, given_up asking_start hserial hrun rfl hrun'⟩

/-- A client that is told to unregister while it waits for an answer waits for two, and when it
is given up as well, the first one takes away what the second one is for. -/
example : (machine.run asking [.unregister true, .deref true,
    .response (some granted) true true 0]).map (fun reg => (reg.alive, reg.pending)) =
    some (false, 1) := by decide +kernel

end Sipreg

end SimplePhone.Re
