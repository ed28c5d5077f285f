import SimplePhone.App.Status

/-! The timer of a call: a runnable on the main looper that writes the time since
`callStartTime` to the screen, and that schedules itself again while the screen shows a
call. -/
namespace SimplePhone.App

open Service Native Transition

/-- The app and its clocks. -/
structure Clocked where
  phone : Phone
  /-- `System.currentTimeMillis()` -/
  wall : Int
  /-- the clock of the main looper -/
  uptime : Nat
  callStartTime : Int
  /-- when the scheduled executions of the activity's `callTimer` are due -/
  timers : List Nat
  statusText : Str
  /-- when the call that is on was reported to have started -/
  begun : Option Int

namespace Clocked

def initial (account : Buffers) (config : SipConfig) (wall : Int) (uptime : Nat) : Clocked where
  phone := Phone.initial account config
  wall := wall
  uptime := uptime
  callStartTime := 0
  timers := []
  statusText := []
  begun := none

inductive Action where
  | app (a : App.Action)
  /-- the main looper executes `callTimer` -/
  | callTimer
  | wait (elapsed : Nat) (wall : Int)
deriving DecidableEq

def elapsed (c : Clocked) : Int := (c.wall - c.callStartTime).tdiv 1000

/-- `%02d`. -/
def twoDigits (n : Int) : Str := if (decimal n).length < 2 then utf8 "0" ++ decimal n else decimal n

def timerText (muted : Bool) (elapsed : Int) : Str :=
  utf8 (if muted then "ミュート中 " else "通話中 ") ++ decimal (elapsed.tdiv 60) ++ utf8 ":" ++
    twoDigits (elapsed.tmod 60)

def timerStep (c : Clocked) : Option Clocked :=
  (c.timers.find? (· ≤ c.uptime)).map fun due =>
    match c.phone.activity.map Activity.callState with
    | some (.active muted) =>
        { c with
          statusText := timerText muted c.elapsed
          timers := c.timers.erase due ++ [c.uptime + 1000] }
    | _ => { c with timers := c.timers.erase due }

/-- The call that is on, as the notices have it. -/
def report (c : Clocked) : Option Int :=
  match c.phone.notice with
  | some .onCallStarted => some c.wall
  | some .onCallEnded | some (.onCallFailed _) => none
  | _ => c.begun

/-- Of `toggleMute`, which alone asks for a mute. -/
def retime (c : Clocked) : Option Request → Clocked
  | some (.setMute _) => { c with timers := [c.uptime] }
  | _ => c

/-- What a step of the app does to the timer. -/
def timed (c : Clocked) : App.Action → Clocked
  | .message =>
      match c.phone.heard with
      | some .onCallStarted =>
          { c with callStartTime := c.wall, timers := c.timers ++ [c.uptime], begun := c.report }
      | some .onCallEnded => { c with timers := [], begun := c.report }
      | _ => { c with begun := c.report }
  | .intent _ | .recreate =>
      if c.phone.activity.isNone then { c with callStartTime := 0, timers := [] } else c
  | .destroyActivity => { c with callStartTime := 0, timers := [] }
  | .key k => c.retime (c.phone.activity.bind fun a => (a.onKeyDown c.phone.lastNumber k).request)
  | .service _ | .serviceConnected | .resume => c

def step (c : Clocked) : Action → Option Clocked
  | .app a =>
      (App.step c.phone a).map fun q =>
        { c.timed a with phone := q, statusText := (c.phone.status a).getD c.statusText }
  | .callTimer => c.timerStep
  | .wait elapsed wall => some { c with uptime := c.uptime + elapsed, wall := wall }

def machine : Machine Clocked Action where
  start c := ∃ account config wall uptime, c = initial account config wall uptime
  step := step

/-- Where a call is shown, one execution is scheduled, and the time it will write is
measured from the start of the call; elsewhere none writes to the screen. -/
def TimerRight (c : Clocked) : Prop :=
  ∀ a ∈ c.phone.activity,
    match a.callState with
    | .active _ => c.timers.length = 1 ∧ ∃ moment, c.begun = some moment ∧
        ∀ wall, { c with wall := wall }.elapsed = (wall - moment).tdiv 1000
    | _ => ∀ d, c.step .callTimer = some d → d.statusText = c.statusText

/-- The steps after which the timer is right. -/
def Prompt (c : Clocked) : Action → Prop
  | .app .message => c.phone.heard = some .onCallStarted → c.timers = []
  | .app .serviceConnected | .app .resume => inCall c.phone.service = true →
      ∀ a ∈ c.phone.activity, a.callState = .idle →
        c.timers.length = 1 ∧ c.begun = some c.callStartTime
  | _ => True

variable {c d : Clocked}

/-! ### What is measured -/

theorem tdiv_thousand_lt {n : Int} (h : n < 1000) : n.tdiv 1000 < 1 := by
  rcases Int.le_total 0 n with hn | hn
  · rw [Int.tdiv_eq_ediv_of_nonneg hn]
    omega
  · have hneg : (-n).tdiv 1000 = -n / 1000 := Int.tdiv_eq_ediv_of_nonneg (by omega)
    rw [Int.neg_tdiv] at hneg
    omega

theorem elapsed_iff {start moment : Int} :
    (∀ wall : Int, (wall - start).tdiv 1000 = (wall - moment).tdiv 1000) ↔ start = moment := by
  constructor
  · intro h
    -- a second after the earlier of the two
    rcases Int.lt_trichotomy start moment with hlt | heq | hgt
    · have hsecond := h (start + 1000)
      have hless := tdiv_thousand_lt (n := start + 1000 - moment) (by omega)
      rw [← hsecond, show start + 1000 - start = 1000 by omega] at hless
      exact absurd hless (by decide)
    · exact heq
    · have hsecond := h (moment + 1000)
      have hless := tdiv_thousand_lt (n := moment + 1000 - start) (by omega)
      rw [hsecond, show moment + 1000 - moment = 1000 by omega] at hless
      exact absurd hless (by decide)
  · rintro rfl wall
    rfl

/-- Where a call is shown, its timer runs. -/
def Kept (activity : Option Activity) (timers : List Nat) (begun : Option Int) (start : Int) :
    Prop :=
  ∀ a ∈ activity, a.callState.isInCall = true → timers.length = 1 ∧ begun = some start

variable {activity : Option Activity} {timers : List Nat} {begun : Option Int} {start : Int}

theorem kept_of_idle (h : ∀ a ∈ activity, a.callState.isInCall = false) :
    Kept activity timers begun start := by
  intro a ha hcall
  rw [h a ha] at hcall
  cases hcall

theorem timerStep_still {a : Activity} (ha : c.phone.activity = some a)
    (hstate : a.callState.isInCall = false) (h : c.timerStep = some d) :
    d.statusText = c.statusText := by
  unfold timerStep at h
  rw [ha] at h
  obtain ⟨due, -, rfl⟩ := Option.map_eq_some_iff.mp h
  cases ha' : a.callState with
  | active muted =>
    rw [ha'] at hstate
    cases hstate
  | _ =>
    rw [Option.map_some, ha']

theorem timerRight_iff_kept :
    c.TimerRight ↔ Kept c.phone.activity c.timers c.begun c.callStartTime := by
  unfold TimerRight Kept
  refine forall_congr' fun a => forall_congr' fun ha => ?_
  cases hstate : a.callState with
  | active muted =>
    simp only [CallState.isInCall, forall_const]
    refine and_congr_right fun _ => ?_
    constructor
    · rintro ⟨moment, hbegun, helapsed⟩
      have hstart : c.callStartTime = moment := elapsed_iff.mp helapsed
      rw [hbegun, hstart]
    · intro hbegun
      exact ⟨c.callStartTime, hbegun, fun _ => rfl⟩
  | _ =>
    have hstill : a.callState.isInCall = false := by
      rw [hstate]
      rfl
    exact iff_of_true (fun d hd => timerStep_still ha hstill hd) (fun h => (nomatch h))

/-! ### One step -/

/-- A screen that is not connected shows no call. -/
def Fresh (p : Phone) : Prop := ∀ a ∈ p.activity, a.bound = false → a.callState.isInCall = false

theorem timerStep_kept (hk : Kept c.phone.activity c.timers c.begun c.callStartTime)
    (h : c.timerStep = some d) :
    d.phone = c.phone ∧ Kept d.phone.activity d.timers d.begun d.callStartTime := by
  unfold timerStep at h
  obtain ⟨due, hdue, rfl⟩ := Option.map_eq_some_iff.mp h
  split
  · rename_i muted hactive
    refine ⟨rfl, ?_⟩
    intro a ha hcall
    obtain ⟨hlength, hbegun⟩ := hk a ha hcall
    refine ⟨?_, hbegun⟩
    -- the execution that runs is the only one, and it leaves another
    have herase := List.length_erase_of_mem (List.mem_of_find?_eq_some hdue)
    rw [List.length_append, herase, hlength]
    rfl
  · rename_i hidle
    refine ⟨rfl, kept_of_idle ?_⟩
    intro a ha
    cases hstate : a.callState with
    | active muted =>
      refine (hidle muted ?_).elim
      change a ∈ c.phone.activity at ha
      rw [ha, Option.map_some, hstate]
    | _ => rfl

theorem message_kept (hf : Fresh c.phone)
    (hk : Kept c.phone.activity c.timers c.begun c.callStartTime)
    {r : Phone × List HistoryEntry} (h : react c.phone .message = some r) :
    Fresh r.1 ∧ (Kept r.1.activity (c.timed .message).timers (c.timed .message).begun
      (c.timed .message).callStartTime ↔ Prompt c (.app .message)) := by
  obtain ⟨m, rest, s, hmain, -, hheard | ⟨hlost, rfl⟩⟩ := react_message h
  · obtain ⟨n, a, rfl, ha, hb, rfl⟩ := hheard
    have hnotice : c.phone.notice = some n := by
      unfold Phone.notice
      rw [hmain]
    have hheard : c.phone.heard = some n := by
      unfold Phone.heard
      rw [ha, hnotice]
      exact if_pos hb
    have hfresh : Fresh { c.phone with service := s, activity := some (a.hear n).1 } := by
      rintro a' ⟨⟩ hunbound
      rw [hear_bound, hb] at hunbound
      cases hunbound
    refine ⟨hfresh, ?_⟩
    rw [ha] at hk
    unfold Prompt timed report
    simp only [hheard, hnotice]
    cases n with
    | onCallStarted =>
      constructor
      · intro hkept _
        obtain ⟨hlength, -⟩ := hkept _ rfl rfl
        rw [List.length_append] at hlength
        exact List.length_eq_zero_iff.mp (Nat.succ.inj hlength)
      · intro hnone a' ha' hcall
        rw [hnone rfl]
        exact ⟨rfl, rfl⟩
    | onStatus status => exact iff_of_true hk (fun h => (nomatch h))
    | onDebug message => exact iff_of_true hk (fun h => (nomatch h))
    | onIncomingCall callerNumber =>
      refine iff_of_true (kept_of_idle ?_) (fun h => (nomatch h))
      rintro a' ⟨⟩
      rfl
    | onCallEnded =>
      refine iff_of_true (kept_of_idle ?_) (fun h => (nomatch h))
      rintro a' ⟨⟩
      rfl
    | onCallFailed reason =>
      refine iff_of_true (kept_of_idle ?_) (fun h => (nomatch h))
      rintro a' ⟨⟩
      rfl
  · have hheard : c.phone.heard = none := by
      unfold Phone.heard
      split
      · rename_i hbound
        unfold Phone.notice
        rw [hmain]
        split
        · rename_i n ms heq
          cases heq
          cases ha : c.phone.activity with
          | none =>
            rw [ha] at hbound
            cases hbound
          | some a =>
            rw [ha] at hbound
            exact absurd hbound (Bool.eq_false_iff.mp (hlost n a rfl ha))
        · rfl
      · rfl
    refine ⟨hf, ?_⟩
    unfold Prompt timed
    simp only [hheard]
    refine iff_of_true ?_ (fun h => (nomatch h))
    unfold report
    cases hnotice : c.phone.notice with
    | none => exact hk
    | some n =>
      apply kept_of_idle
      intro a ha
      apply hf a ha
      unfold Phone.notice at hnotice
      rw [hmain] at hnotice
      split at hnotice
      · rename_i n' ms heq
        cases heq
        exact hlost n' a rfl ha
      · cases hnotice

theorem start_kept (hf : Fresh c.phone)
    (hk : Kept c.phone.activity c.timers c.begun c.callStartTime) (caller : Option Str)
    (s : State) :
    Fresh (startActivity caller { c.phone with service := s }) ∧
      Kept (startActivity caller { c.phone with service := s }).activity
        (if c.phone.activity.isNone then [] else c.timers) c.begun
        (if c.phone.activity.isNone then 0 else c.callStartTime) := by
  unfold startActivity
  cases ha : c.phone.activity with
  | none =>
    have hidle : (Activity.created.handleIncomingCallIntent caller).callState.isInCall = false :=
      handleIncomingCallIntent_fresh rfl
    constructor
    · rintro a ⟨⟩ -
      exact hidle
    · apply kept_of_idle
      rintro a ⟨⟩
      exact hidle
  | some a =>
    constructor
    · rintro a' ⟨⟩ hunbound
      change (a.handleIncomingCallIntent caller).bound = false at hunbound
      rw [handleIncomingCallIntent_bound] at hunbound
      exact handleIncomingCallIntent_fresh (hf a ha hunbound)
    · rintro a' ⟨⟩ hcall
      apply hk a ha
      change (a.handleIncomingCallIntent caller).callState.isInCall = true at hcall
      obtain hsame | ⟨callerNumber, -, -, hnew⟩ := handleIncomingCallIntent_callState caller a
      · rwa [hsame] at hcall
      · rw [hnew] at hcall
        cases hcall

/-- The poll starts no timer for the call that it shows. -/
theorem sync_kept {a : Activity} (actual : Bool) (hk : Kept (some a) timers begun start) :
    Kept (some (a.syncCallState actual)) timers begun start ↔
      (actual = true → a.callState = .idle → timers.length = 1 ∧ begun = some start) := by
  cases actual with
  | false =>
    refine iff_of_true (kept_of_idle ?_) (fun h => (nomatch h))
    rintro a' ⟨⟩
    rw [syncCallState_false]
    rfl
  | true =>
    have hstate := syncCallState_true a
    constructor
    · intro hkept _ hidle
      rw [if_pos hidle] at hstate
      apply hkept _ rfl
      rw [hstate]
      rfl
    · rintro hshown a' ⟨⟩ hcall
      by_cases hidle : a.callState = .idle
      · exact hshown rfl hidle
      · rw [hstate, if_neg hidle] at hcall
        exact hk a rfl hcall

/-- Only a mute key leaves a call on the screen, with a timer of its own. -/
theorem key_kept {a : Activity} {k : Key} {r : Activity.Reaction} (hp : Pressed a k r)
    (hk : Kept (some a) c.timers c.begun c.callStartTime) :
    Kept (some r.activity) (c.retime r.request).timers (c.retime r.request).begun
      (c.retime r.request).callStartTime := by
  cases hp with
  | stay number request hrequest =>
    rintro a' ⟨⟩ hcall
    obtain rfl | rfl | ⟨digit, rfl⟩ := hrequest
    all_goals exact hk a rfl hcall
  | mute muted hactive =>
    rintro a' ⟨⟩ -
    exact ⟨rfl, (hk a rfl (hactive ▸ rfl)).2⟩
  | dial hk' hidle hnumber =>
    apply kept_of_idle
    rintro a' ⟨⟩
    rfl
  | hang hbusy =>
    apply kept_of_idle
    rintro a' ⟨⟩
    rfl

theorem prompt_iff {a : Activity} (ha : c.phone.activity = some a) :
    (inCall c.phone.service = true → a.callState = .idle →
        c.timers.length = 1 ∧ c.begun = some c.callStartTime) ↔ Prompt c (.app .resume) := by
  unfold Prompt
  rw [ha]
  constructor
  · rintro h hcall a' ⟨⟩
    exact h hcall
  · intro h hcall
    exact h hcall a rfl

theorem step_kept (hf : Fresh c.phone)
    (hk : Kept c.phone.activity c.timers c.begun c.callStartTime) {a : Action}
    (h : c.step a = some d) :
    Fresh d.phone ∧
      (Kept d.phone.activity d.timers d.begun d.callStartTime ↔ Prompt c a) := by
  cases a with
  | wait elapsed wall =>
    cases h
    exact ⟨hf, iff_of_true hk trivial⟩
  | callTimer =>
    obtain ⟨hphone, hkept⟩ := timerStep_kept hk h
    refine ⟨?_, iff_of_true hkept trivial⟩
    rw [hphone]
    exact hf
  | app a =>
    obtain ⟨q, hq, rfl⟩ := Option.map_eq_some_iff.mp h
    obtain ⟨r, hr, rfl⟩ := step_eq_some.mp hq
    change Fresh r.1 ∧ (Kept r.1.activity (c.timed a).timers (c.timed a).begun
      (c.timed a).callStartTime ↔ Prompt c (.app a))
    cases a with
    | message => exact message_kept hf hk hr
    | service a =>
      obtain ⟨-, s, -, rfl⟩ := react_service.mp hr
      exact ⟨hf, iff_of_true hk trivial⟩
    | intent source =>
      obtain ⟨t, -, rfl⟩ := react_intent.mp hr
      obtain ⟨hfresh, hkept⟩ := start_kept hf hk t.2 t.1
      refine ⟨hfresh, iff_of_true ?_ trivial⟩
      unfold timed
      split at hkept
      · rw [if_pos (by assumption)]
        exact hkept
      · rw [if_neg (by assumption)]
        exact hkept
    | recreate =>
      obtain ⟨hnone, rfl⟩ := react_recreate.mp hr
      obtain ⟨hfresh, hkept⟩ := start_kept hf hk c.phone.intent c.phone.service
      refine ⟨hfresh, iff_of_true ?_ trivial⟩
      unfold timed
      rw [hnone] at hkept ⊢
      exact hkept
    | destroyActivity =>
      obtain ⟨-, rfl⟩ := react_destroyActivity.mp hr
      exact ⟨fun _ ha => (nomatch ha), iff_of_true (fun _ ha => (nomatch ha)) trivial⟩
    | serviceConnected =>
      obtain ⟨b, hb, -, -, rfl⟩ := react_serviceConnected.mp hr
      rw [hb] at hk
      constructor
      · rintro a' ⟨⟩ hunbound
        rw [syncCallState_bound] at hunbound
        cases hunbound
      · refine (sync_kept (a := { b with bound := true }) _ ?_).trans ?_
        · rintro a' ⟨⟩ hcall
          exact hk b rfl hcall
        · exact prompt_iff (a := b) hb
    | resume =>
      obtain ⟨b, hb, hbound, rfl⟩ := react_resume.mp hr
      rw [hb] at hk
      constructor
      · rintro a' ⟨⟩ hunbound
        rw [syncCallState_bound, hbound] at hunbound
        cases hunbound
      · exact (sync_kept _ hk).trans (prompt_iff hb)
    | key k =>
      obtain ⟨b, hb, rfl⟩ := react_key.mp hr
      have hp := pressed_onKeyDown c.phone.lastNumber b k
      rw [hb] at hk
      constructor
      · rintro a' ⟨⟩ hunbound
        rw [hp.bound] at hunbound
        exact hp.isInCall (hf b hb hunbound)
      · refine iff_of_true ?_ trivial
        unfold timed
        rw [hb]
        exact key_kept hp hk

/-! ### Whole runs -/

/-- The timer is right all the time in the runs whose steps are prompt, and in no others. -/
theorem timerRight_iff_prompt (account : Buffers) (config : SipConfig) (wall : Int)
    (uptime : Nat) (as : List Action) :
    machine.Always TimerRight (initial account config wall uptime) as ↔
      machine.Meets Prompt (initial account config wall uptime) as := by
  apply Machine.always_iff_meets (m := machine) (I := fun c => Fresh c.phone ∧ c.TimerRight)
  · exact fun c h => h.2
  · intro c a d h hstep
    rw [timerRight_iff_kept]
    exact (step_kept h.1 (timerRight_iff_kept.mp h.2) hstep).2
  · intro c a d h hprompt hstep
    obtain ⟨hfresh, hkept⟩ := step_kept h.1 (timerRight_iff_kept.mp h.2) hstep
    exact ⟨hfresh, timerRight_iff_kept.mpr (hkept.mpr hprompt)⟩
  · exact ⟨fun _ ha => (nomatch ha), fun _ ha => (nomatch ha)⟩

/-- An activity that is created anew during a call shows the call without a timer. -/
theorem timer_strays : ∃ as c,
    machine.run (initial (nativeInit .sample) .sample 1700000000000 0) as = some c ∧
      ¬ c.TimerRight := by
  refine ⟨answeredCall.map .app ++ [.callTimer, .wait 1000 1700000001000, .callTimer,
    .app .destroyActivity, .app .recreate, .app .serviceConnected], _, rfl, ?_⟩
  rw [timerRight_iff_kept]
  intro h
  have hkept := h _ rfl rfl
  revert hkept
  decide

end Clocked

end SimplePhone.App
