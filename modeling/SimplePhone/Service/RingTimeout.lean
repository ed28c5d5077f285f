import SimplePhone.Service.Frame
import SimplePhone.Native.Waiting

/-! The ring timer. No answer and no end of a call takes it back, and `ringing` is
never reset, so that it can go off at any later call. -/
namespace SimplePhone.Service

open Native Transition

/-- The call that armed the timer last, and whether since then some call began, failed
or ended, the current call was answered, or the phone re-registered. -/
structure Timer where
  armedBy : Option CallId
  disturbed : Bool
deriving DecidableEq

def Timer.disturb (τ : Timer) : Timer := { τ with disturbed := true }

def Timer.hear (heard : Bool) (τ : Timer) (d : Delivery) : Timer :=
  match d.callback with
  | .onIncomingCall _ => if heard then ⟨d.cause, false⟩ else τ
  | callback => if callback.settles then τ.disturb else τ

def Timer.note (τ : Timer) (s : State) (a : Action) (t : State) : Timer :=
  match a with
  | .native b =>
      let τ := t.native.news.foldl (Timer.hear s.gCallback) τ
      if b.hushes s.native then τ.disturb else τ
  | _ => τ

/-- The service with the history of its timer. -/
def timed : Machine (State × Timer) Action := machine.record ⟨none, false⟩ Timer.note

/-- The timeout strikes the call that armed it, which waits for an answer, and names
its caller. -/
def HitsItsCall (τ : Timer) (s t : State) : Prop :=
  ∃ c peer, τ.armedBy = some c ∧ s.native.line = .ringing c peer false ∧
    t.missedNotification = some (callerNumber (bounded 256 peer))

/-- The call that armed the timer waits as long as nothing disturbed it, and does not
wait ever after. -/
structure Kept (p : State × Timer) : Prop where
  coherent : Coherent p.1.native
  fresh : ∀ c, p.2.armedBy = some c → c < p.1.native.nextCall
  armed : p.1.ringTimer = true → p.2.armedBy ≠ none
  waiting : p.2.disturbed = false → ∀ c, p.2.armedBy = some c → ∃ peer,
    p.1.native.line = .ringing c peer false ∧
      p.1.currentCaller = some (callerNumber (bounded 256 peer))
  past : p.2.disturbed = true → ∀ c, p.2.armedBy = some c → ∀ peer,
    p.1.native.line ≠ .ringing c peer false

theorem kept_initial (account : Buffers) (config : SipConfig) :
    Kept (State.initial account config, ⟨none, false⟩) := by
  refine ⟨coherent_initial account, ?_, ?_, ?_, ?_⟩ <;> simp [State.initial]

variable {s t : State} {τ : Timer}

/-! ### What the callbacks do to the timer -/

theorem hear_settles (heard : Bool) (τ : Timer) {l : List Delivery}
    (h : ∀ d ∈ l, d.callback.settles = true) :
    l.foldl (Timer.hear heard) τ = if l = [] then τ else τ.disturb := by
  induction l generalizing τ with
  | nil => rfl
  | cons d l ih =>
    have hd : τ.hear heard d = τ.disturb := by
      have hset := h d (List.mem_cons_self ..)
      unfold Timer.hear
      split
      · rename_i hc
        rw [hc] at hset
        cases hset
      · exact if_pos hset
    rw [List.foldl_cons, hd, ih _ fun e he => h e (List.mem_cons_of_mem _ he)]
    split <;> rfl

/-- The caller that the service remembers, with its timer. -/
def State.alarm (s : State) : Bool × Option Str := (s.ringTimer, s.currentCaller)

def alarmAfter (alarm : Bool × Option Str) : Callback → Bool × Option Str
  | .onIncomingCall callerNumber => (true, some callerNumber)
  | _ => alarm

theorem alarm_callback (s : State) (c : Callback) :
    (s.callback c).alarm = alarmAfter s.alarm c := by
  cases c <;> rfl

theorem alarm_settles (b : Bool × Option Str) {l : List Delivery}
    (h : ∀ d ∈ l, d.callback.settles = true) :
    l.foldl (fun b d => alarmAfter b d.callback) b = b := by
  induction l generalizing b with
  | nil => rfl
  | cons d l ih =>
    have hd : alarmAfter b d.callback = b := by
      have hset := h d (List.mem_cons_self ..)
      unfold alarmAfter
      split
      · rename_i hc
        rw [hc] at hset
        cases hset
      · rfl
    rw [List.foldl_cons, hd]
    exact ih b fun e he => h e (List.mem_cons_of_mem _ he)

/-! ### Steps -/

/-- Nothing but an incoming call sets the timer or the caller. -/
theorem alarm_step_other {a : Action} (ha : ∀ b, a ≠ .native b) (hstep : step s a = some t) :
    t.currentCaller = s.currentCaller ∧ (t.ringTimer = true → s.ringTimer = true) := by
  cases a with
  | native b => exact absurd rfl (ha b)
  | watchdog silent =>
    obtain ⟨-, rfl | rfl | ⟨-, rfl⟩⟩ := step_watchdog hstep <;> exact ⟨rfl, id⟩
  | take =>
    obtain ⟨task, rest, -, -, rfl⟩ := step_take.mp hstep
    exact ⟨rfl, id⟩
  | op =>
    obtain ⟨op, rest, -, rfl⟩ := step_op.mp hstep
    cases op <;> exact ⟨rfl, id⟩
  | message =>
    obtain ⟨m, rest, -, rfl⟩ := step_message.mp hstep
    cases m <;> exact ⟨rfl, id⟩
  | ringTimeout =>
    obtain ⟨hset, -, rfl⟩ := step_ringTimeout.mp hstep
    unfold State.onRingTimeout
    split <;> exact ⟨rfl, fun _ => hset⟩
  | request r =>
    obtain ⟨-, rfl⟩ := step_request.mp hstep
    cases r with
    | screenOff | networkAvailable | startCommand =>
      unfold Request.run
      simp only [Service.networkAvailable]
      split <;> exact ⟨rfl, id⟩
    | shutdown | destroy =>
      simp only [Request.run, State.onDestroy, State.stop]
      split <;> exact ⟨rfl, id⟩
    | _ => exact ⟨rfl, id⟩

theorem Kept.step_other (h : Kept (s, τ)) {a : Action} (ha : ∀ b, a ≠ .native b)
    (hstep : step s a = some t) : Kept (t, τ) := by
  obtain ⟨hcaller, htimer⟩ := alarm_step_other ha hstep
  have hnative : t.native.line = s.native.line ∧ t.native.nextCall = s.native.nextCall := by
    obtain hsame | ⟨w, hw⟩ := Service.step_other ha hstep
    · rw [hsame]
      exact ⟨rfl, rfl⟩
    · rw [hw]
      exact ⟨rfl, rfl⟩
  refine ⟨coherent_step h.coherent hstep, ?_, fun hset => h.armed (htimer hset), ?_, ?_⟩
  · rw [hnative.2]
    exact h.fresh
  · rw [hnative.1, hcaller]
    exact h.waiting
  · rw [hnative.1]
    exact h.past

/-- A step in which no call rings disturbs the timer exactly if it ends the wait. -/
theorem Kept.settle (h : Kept (s, τ)) {b : Native.Action} (hg : Native.step s.native b = some t.native)
    (halarm : t.alarm = s.alarm) {τ' : Timer}
    (hτ : τ' = if t.native.news = [] ∧ b.hushes s.native = false then τ else τ.disturb) :
    Kept (t, τ') := by
  have harmedBy : τ'.armedBy = τ.armedBy := by
    rw [hτ]
    split <;> rfl
  have hfresh : ∀ c, τ.armedBy = some c → c < t.native.nextCall := fun c hc =>
    Nat.lt_of_lt_of_le (h.fresh c hc) (nextCall_mono h.coherent hg)
  have htimer : t.ringTimer = s.ringTimer := congrArg Prod.fst halarm
  have hcaller : t.currentCaller = s.currentCaller := congrArg Prod.snd halarm
  refine ⟨h.coherent.step hg, by rw [harmedBy]; exact hfresh, ?_, ?_, ?_⟩
  · rw [harmedBy, htimer]
    exact h.armed
  · rw [harmedBy]
    intro hquiet c hc
    split at hτ
    · obtain ⟨hnews, hhush⟩ := ‹_ ∧ _›
      subst hτ
      obtain ⟨peer, hline, hnumber⟩ := h.waiting hquiet c hc
      refine ⟨peer, ?_, hcaller.trans hnumber⟩
      exact (waiting_step h.coherent hg (h.fresh c hc) peer).mpr ⟨hline, hnews, hhush⟩
    · rw [hτ] at hquiet
      cases hquiet
  · rw [harmedBy]
    intro hdisturbed c hc peer hline
    obtain ⟨hbefore, hnews, hhush⟩ := (waiting_step h.coherent hg (h.fresh c hc) peer).mp hline
    rw [if_pos ⟨hnews, hhush⟩] at hτ
    subst hτ
    exact h.past hdisturbed c hc peer hbefore

/-- A new call rings: it arms the timer, if it is heard. -/
theorem Kept.ring (h : Kept (s, τ)) {b : Native.Action}
    (hg : Native.step s.native b = some t.native) {l : List Delivery} {peer : Str}
    (hnews : t.native.news =
      l ++ [⟨.onIncomingCall (callerNumber (bounded 256 peer)), some s.native.nextCall⟩])
    (hsettles : ∀ d ∈ l, d.callback.settles = true) (hidle : l = [] → s.native.gCall = none)
    (hline : t.native.line = .ringing s.native.nextCall peer false)
    (hnext : t.native.nextCall = s.native.nextCall + 1)
    (halarm : t.alarm = if s.gCallback then (true, some (callerNumber (bounded 256 peer)))
      else s.alarm) : Kept (t, t.native.news.foldl (Timer.hear s.gCallback) τ) := by
  have hco := h.coherent.step hg
  rw [hnews, List.foldl_append, hear_settles _ τ hsettles]
  cases hheard : s.gCallback with
  | true =>
    rw [hheard, if_pos rfl] at halarm
    have hcaller : t.currentCaller = some (callerNumber (bounded 256 peer)) :=
      congrArg Prod.snd halarm
    refine ⟨hco, ?_, fun _ => by simp [Timer.hear], ?_, ?_⟩
    · rintro c ⟨⟩
      rw [hnext]
      exact Nat.lt_succ_self _
    · rintro - c ⟨⟩
      exact ⟨peer, hline, hcaller⟩
    · rintro ⟨⟩
  | false =>
    rw [hheard, if_neg (by simp)] at halarm
    have htimer : t.ringTimer = s.ringTimer := congrArg Prod.fst halarm
    change Kept (t, if l = [] then τ else τ.disturb)
    have harmedBy : (if l = [] then τ else τ.disturb).armedBy = τ.armedBy := by split <;> rfl
    refine ⟨hco, ?_, ?_, ?_, ?_⟩
    · rw [harmedBy, hnext]
      exact fun c hc => Nat.lt_succ_of_lt (h.fresh c hc)
    · rw [harmedBy, htimer]
      exact h.armed
    · rw [harmedBy]
      intro hquiet c hc
      split at hquiet
      · -- a call that rings unannounced finds the line idle
        obtain ⟨p, hwaits, -⟩ := h.waiting hquiet c hc
        have hcall : s.native.gCall = some c := gCall_of_line (by rw [hwaits]; rfl)
        rw [hidle (by assumption)] at hcall
        cases hcall
      · cases hquiet
    · rw [harmedBy]
      intro _ c hc p hwaits
      rw [hline] at hwaits
      cases hwaits
      exact Nat.lt_irrefl _ (h.fresh _ hc)

theorem Kept.step (h : Kept (s, τ)) {a : Action} (hstep : step s a = some t) :
    Kept (t, τ.note s a t) := by
  by_cases ha : ∀ b, a ≠ .native b
  · have hτ : τ.note s a t = τ := by
      cases a with
      | native b => exact absurd rfl (ha b)
      | _ => rfl
    rw [hτ]
    exact h.step_other ha hstep
  · obtain ⟨b, rfl⟩ : ∃ b, a = .native b := by simpa using ha
    have hg := native_of_step hstep
    have halarm : t.alarm = if s.gCallback then
        t.native.news.foldl (fun x d => alarmAfter x d.callback) s.alarm else s.alarm :=
      view_native alarm_callback (by intro b c hc; cases c <;> first | rfl | cases hc)
        (fun _ _ _ => rfl) hstep
    obtain hsettles | ⟨l, peer, hnews, hsettles, hidle, hline, hnext, _, rfl⟩ :=
      news_step h.coherent hg
    · rw [alarm_settles _ hsettles, ite_self] at halarm
      refine h.settle hg halarm ?_
      simp only [Timer.note, hear_settles _ τ hsettles]
      by_cases hnews : t.native.news = [] <;> cases hhush : b.hushes s.native <;>
        simp [hnews, Timer.disturb]
    · have hkept := h.ring hg hnews hsettles hidle hline hnext (by
        rw [halarm, hnews, List.foldl_append, alarm_settles _ hsettles]
        rfl)
      exact hkept

theorem kept_of_reachable {p : State × Timer} (h : timed.Reachable p) : Kept p := by
  apply h.invariant
  · rintro ⟨s, τ⟩ ⟨⟨account, config, rfl⟩, rfl⟩
    exact kept_initial account config
  · intro p a q hp hstep
    obtain ⟨t, ht, rfl⟩ := Machine.record_step_eq_some.mp hstep
    exact hp.step ht

/-- A timeout past its guard hits the call that armed the timer if and only if since
then nothing began, ended, was answered or was re-registered away. -/
theorem timeout_hits_iff_undisturbed (h : timed.Reachable (s, τ))
    (hstep : step s .ringTimeout = some t) (hpasses : s.timeoutPasses = true) :
    HitsItsCall τ s t ↔ τ.disturbed = false := by
  have hkept := kept_of_reachable h
  obtain ⟨hset, -, rfl⟩ := step_ringTimeout.mp hstep
  obtain ⟨c, hc⟩ := Option.ne_none_iff_exists'.mp (hkept.armed hset)
  have hmissed : (State.onRingTimeout { s with ringTimer := false }).missedNotification =
      some (s.currentCaller.getD (utf8 "不明")) := by
    unfold State.onRingTimeout
    rw [if_pos (show State.timeoutPasses { s with ringTimer := false } = true from hpasses)]
    rfl
  constructor
  · rintro ⟨d, peer, hd, hline, -⟩
    by_contra hdisturbed
    exact hkept.past (by simpa using hdisturbed) d hd peer hline
  · intro hquiet
    obtain ⟨peer, hline, hcaller⟩ := hkept.waiting hquiet c hc
    refine ⟨c, peer, hc, hline, ?_⟩
    rw [hmissed, hcaller]
    rfl

theorem timeout_hits_ringing : ∃ p t,
    timed.run (State.initial (nativeInit .sample) .sample, ⟨none, false⟩) (started ++
      [.native (.event (.invite (utf8 "sip:203@192.0.2.1") none .ringing))]) = some p ∧
    step p.1 .ringTimeout = some t ∧ HitsItsCall p.2 p.1 t := by
  refine ⟨_, _, rfl, rfl, ?_⟩
  apply (timeout_hits_iff_undisturbed _ rfl rfl).mpr rfl
  exact ⟨(State.initial (nativeInit .sample) .sample, ⟨none, false⟩), started ++
    [.native (.event (.invite (utf8 "sip:203@192.0.2.1") none .ringing))],
    ⟨⟨_, _, rfl⟩, rfl⟩, rfl⟩

/-- The caller gives up, the user dials another number, and the timer ends that dial
and reports it as a missed call from the first caller. -/
theorem timeout_hits_later_dial : ∃ as p t,
    timed.run (State.initial (nativeInit .sample) .sample, ⟨none, false⟩) (started ++ as) = some p ∧
    step p.1 .ringTimeout = some t ∧ p.1.timeoutPasses = true ∧
    p.2.armedBy = some 0 ∧ p.1.native.line = .dialing 1 (utf8 "sip:204@192.0.2.1:5060") ∧
    t.queue = [.endCall] ∧ t.missedNotification = some (utf8 "203") ∧ ¬ HitsItsCall p.2 p.1 t := by
  refine ⟨[.native (.event (.invite (utf8 "sip:203@192.0.2.1") none .ringing)),
    .native (.event (.closed 0 [])), .request (.makeCall (utf8 "204")), .take, .op,
    .native (.work .ok), .native (.connect .connected)], _, _, rfl, rfl, rfl, rfl, ?_, rfl, ?_, ?_⟩
  · decide
  · decide
  · rintro ⟨c, peer, hc, hline, -⟩
    cases hline

end SimplePhone.Service
