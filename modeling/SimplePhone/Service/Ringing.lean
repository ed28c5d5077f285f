import SimplePhone.Service.Frame
import SimplePhone.Native.Waiting

/-! The ringtone and the notification of an incoming call. The notification is
written with the callbacks, the ringtone by messages that the main looper runs
later, so what counts is how it will be once they have run. -/
namespace SimplePhone.Service

open Native Transition

/-- The ringtone and the vibrator, and the caller in the notification. -/
structure Alert where
  ringtone : Bool
  notification : Option Str
deriving DecidableEq

def Alert.off : Alert := ⟨false, none⟩

def ringtoneAfter (ringtone : Bool) : Message → Bool
  | .startRinging => true
  | .stopRinging => false
  | .notify _ => ringtone

/-- The alert once the main looper has caught up. -/
def State.alert (s : State) : Alert := ⟨s.main.foldl ringtoneAfter s.ringtone, s.incomingNotification⟩

def Alert.after (b : Alert) : Callback → Alert
  | .onIncomingCall callerNumber => ⟨true, some callerNumber⟩
  | .onCallStarted | .onCallEnded | .onCallFailed _ => .off
  | _ => b

def Alert.hear (b : Alert) (heard : Bool) (news : List Delivery) : Alert :=
  if heard then news.foldl (fun b d => b.after d.callback) b else b

/-- Whether since the last incoming call somebody has pressed answer or reject, or its
timeout has expired. -/
def hushAfter (hushed : Bool) : Callback → Bool
  | .onIncomingCall _ => false
  | _ => hushed

/-- How the alert goes with the line. -/
structure Alerts (l : Line) (heard hushed : Bool) (b : Alert) : Prop where
  heard : l.isRinging = true → heard = true
  off : l.isRinging = false → b = .off
  on : ∀ c peer answered, l = .ringing c peer answered → hushed = false →
    b = ⟨true, some (callerNumber (bounded 256 peer))⟩

section
variable {l l' : Line} {d : Drive} {n : List Delivery} {heard hushed : Bool} {b : Alert}

theorem alerts_off (hl : l.isRinging = false) : Alerts l heard hushed .off := by
  refine ⟨?_, fun _ => rfl, ?_⟩
  · rw [hl]
    simp
  · rintro c peer answered rfl
    cases hl

/-- After news of a start or an end the alert is off, heard or not. -/
theorem Alerts.ended (h : Alerts l heard hushed b) {news : List Delivery}
    (hnews : news.foldl (fun b d => b.after d.callback) b = .off) : b.hear heard news = .off := by
  unfold Alert.hear
  cases hheard : heard with
  | true => exact hnews
  | false =>
    have hdeaf : l.isRinging = false := by
      by_contra hring
      rw [h.heard (by simpa using hring)] at hheard
      cases hheard
    exact h.off hdeaf

theorem Alerts.move (h : Alerts l heard hushed b) (hm : Move l d l' n)
    (hannounced : ∀ number cause, (⟨.onIncomingCall number, cause⟩ : Delivery) ∈ n → heard = true)
    (hre : ∀ aor r, d = .work (.reregister aor) r → l = .idle) :
    Alerts l' heard (n.foldl (fun hushed d => hushAfter hushed d.callback) hushed)
      (b.hear heard n) := by
  have hquiet : b.hear heard [] = b := by cases heard <;> rfl
  cases hm with
  | stay l d hd =>
    rw [hquiet]
    exact h
  | ring n peer =>
    obtain rfl := hannounced _ _ (List.mem_singleton.mpr rfl)
    refine ⟨fun _ => rfl, fun hl => (nomatch hl), ?_⟩
    rintro c peer answered ⟨⟩ -
    rfl
  | takeover hc n peer =>
    obtain rfl := hannounced _ _ (List.mem_cons_of_mem _ (List.mem_singleton.mpr rfl))
    refine ⟨fun _ => rfl, fun hl => (nomatch hl), ?_⟩
    rintro c peer answered ⟨⟩ -
    rfl
  | picksUp c peer =>
    rw [h.ended rfl]
    exact alerts_off rfl
  | confirmed c peer =>
    rw [h.ended rfl]
    exact alerts_off rfl
  | finish hc =>
    rw [h.ended rfl]
    exact alerts_off rfl
  | broken hc reason =>
    rw [h.ended rfl]
    exact alerts_off rfl
  | hangup r hc hw =>
    rw [h.ended rfl]
    exact alerts_off rfl
  | answer c peer x =>
    rw [hquiet]
    refine ⟨fun _ => h.heard rfl, fun hl => (nomatch hl), ?_⟩
    rintro c' peer' answered ⟨⟩ hhush
    exact h.on c peer x rfl hhush
  | reregister l aor r =>
    rw [hquiet, h.off (by rw [hre aor r rfl]; rfl)]
    exact alerts_off rfl
  | idleWork hhangs hre' hanswer =>
    rw [hquiet]
    exact h
  | dial n uri =>
    rw [hquiet, h.off rfl]
    exact alerts_off rfl
  | dialFailed uri =>
    rw [h.ended rfl]
    exact alerts_off rfl

end

/-! ### The service -/

/-- No call is announced while nobody listens. -/
def Announced (s : State) : Native.Action → Prop
  | .event (.invite _ _ .ringing) => s.gCallback = true
  | _ => True

/-- The steps after which the alert still goes with the line. Left out are the defects
of the event loop, a re-registration over a call, calls that ring unheard, a refused
dial to the own number and the end of the service while a call rings. -/
def Attentive (s : State) : Action → Prop
  | .native b => Undisturbed s.native b ∧ Spares s.native b ∧ Announced s b
  | .op =>
      match s.ops with
      | .refuseOwnNumber _ :: _ => s.native.line.isRinging = false
      | _ => True
  | .request .shutdown | .request .destroy => s.native.line.isRinging = false
  | _ => True

instance (s : State) (b : Native.Action) : Decidable (Announced s b) := by
  unfold Announced
  exact match b with
    | .event (.invite _ _ .ringing) => inferInstance
    | .event (.invite _ _ .refused) | .event (.invite _ _ .failed)
    | .event (.registerOk _) | .event (.registerFail _) | .event (.progress _ _)
    | .event (.established _) | .event (.closed _ _) | .event (.audioError _ _)
    | .event (.other _ _ _)
    | .post _ | .work _ | .connect _ => inferInstance

instance (s : State) (a : Action) : Decidable (Attentive s a) := by
  unfold Attentive
  exact match a with
    | .native _ => inferInstance
    | .op =>
        match s.ops with
        | .refuseOwnNumber _ :: _ => inferInstance
        | [] | .nativeSetCallback :: _ | .setAudioMode _ :: _ | .remainRun _ :: _
        | .nativeReregister :: _ | .onDebug _ :: _ | .setSipManager :: _ => inferInstance
    | .request .shutdown | .request .destroy => inferInstance
    | .request (.makeCall _) | .request .answerCall | .request .endCall | .request (.sendDtmf _)
    | .request (.setMute _) | .request .screenOff | .request (.saveAndApply _)
    | .request .networkLost | .request .networkAvailable | .request .legacyConnected
    | .request .startCommand | .watchdog _ | .take | .message | .ringTimeout => inferInstance

/-- Who presses a key or lets the time pass hushes the call. -/
def noteHush (hushed : Bool) (s : State) (a : Action) (t : State) : Bool :=
  match a with
  | .native _ => t.native.news.foldl (fun hushed d => hushAfter hushed d.callback) hushed
  | .ringTimeout => hushed || s.timeoutPasses
  | .request .answerCall | .request .endCall => true
  | .request .screenOff => hushed || s.callActive
  | _ => hushed

/-- The service with the history of the keys and the timeout. -/
def hushing : Machine (State × Bool) Action := machine.record false noteHush

structure Alerted (p : State × Bool) : Prop where
  coherent : Coherent p.1.native
  single : SingleLine p.1.native
  alerts : Alerts p.1.native.line p.1.gCallback p.2 p.1.alert

theorem alerted_initial (account : Buffers) (config : SipConfig) :
    Alerted (State.initial account config, false) :=
  ⟨coherent_initial account, singleLine_initial account, alerts_off rfl⟩

variable {s t : State} {hushed : Bool}

theorem alert_callback (s : State) (c : Callback) : (s.callback c).alert = s.alert.after c := by
  unfold State.alert
  cases c <;> simp only [State.callback, State.notifyListeners, State.post, State.onIncomingCall,
    State.showMainActivity, State.onCallStarted, State.onCallEnded, State.onCallFailed,
    State.endRingingAndNotify, State.setAudioMode, List.foldl_append] <;> rfl

theorem alert_native {b : Native.Action} (hstep : step s (.native b) = some t) :
    t.alert = s.alert.hear s.gCallback t.native.news :=
  view_native alert_callback (by intro b c hc; cases c <;> first | rfl | cases hc)
    (fun _ _ _ => rfl) hstep

theorem Alerted.native (h : Alerted (s, hushed)) {b : Native.Action}
    (hatt : Attentive s (.native b)) (hstep : step s (.native b) = some t) :
    Alerted (t, noteHush hushed s (.native b) t) := by
  obtain ⟨hund, hspares, hann⟩ := hatt
  have hg := native_of_step hstep
  have hcb : t.gCallback = s.gCallback := by
    obtain ⟨-, g, -, rfl⟩ := step_native.mp hstep
    exact callbacks_gCallback _ _
  refine ⟨h.coherent.step hg, (singleLine_step h.coherent h.single hg).mpr hund, ?_⟩
  rw [hcb, alert_native hstep]
  apply h.alerts.move (step_moves h.coherent h.single hund hg)
  · intro number cause hmem
    obtain hsettles | ⟨l, peer, -, -, -, -, -, replaces, rfl⟩ := news_step h.coherent hg
    · exact nomatch hsettles _ hmem
    · exact hann
  · exact fun aor r hd => hspares.idle hd

/-- A step outside the event loop, by what it does to the alert. -/
theorem Alerted.beside (h : Alerted (s, hushed)) {a : Action} (ha : ∀ b, a ≠ .native b)
    (hstep : step s a = some t) {hushed' : Bool}
    (halerts : Alerts s.native.line t.gCallback hushed' t.alert) : Alerted (t, hushed') := by
  obtain ⟨-, -, hline, -⟩ := line_step_other ha hstep
  refine ⟨coherent_step h.coherent hstep, singleLine_step_other h.single ha hstep, ?_⟩
  rw [show t.native.line = s.native.line from hline]
  exact halerts

/-- Whatever makes the phone quiet hushes the call. -/
theorem Alerts.hush {l : Line} {heard : Bool} {b b' : Alert} (h : Alerts l heard hushed b)
    (hoff : b = .off → b' = .off) : Alerts l heard true b' :=
  ⟨h.heard, fun hl => hoff (h.off hl), fun _ _ _ _ hhush => nomatch hhush⟩

theorem alert_post_stop (s : State) : (s.post .stopRinging).alert = ⟨false, s.alert.notification⟩ := by
  unfold State.alert State.post
  simp only [List.foldl_append]
  rfl

/-- Stopping the ringtone ahead of the messages changes nothing if they end it anyway. -/
theorem ringtoneAfter_false {r : Bool} {ms : List Message}
    (h : ms.foldl ringtoneAfter r = false) : ms.foldl ringtoneAfter false = false := by
  cases r with
  | false => exact h
  | true =>
    induction ms with
    | nil => rfl
    | cons m ms ih =>
      cases m with
      | startRinging => exact h
      | stopRinging => exact h
      | notify n => exact ih h

theorem Alerted.op (h : Alerted (s, hushed)) (hatt : Attentive s .op)
    (hstep : step s .op = some t) : Alerted (t, hushed) := by
  obtain ⟨op, rest, hops, rfl⟩ := step_op.mp hstep
  simp only [Attentive, hops] at hatt
  apply h.beside (by simp) hstep
  have hal := h.alerts
  have hnotify (n : Notice) : (State.notifyListeners n { s with ops := rest }).alert = s.alert := by
    unfold State.alert State.notifyListeners State.post
    simp only [List.foldl_append]
    rfl
  cases op with
  | nativeSetCallback => exact ⟨fun _ => rfl, hal.off, hal.on⟩
  | refuseOwnNumber number =>
    have halert : (State.runOp { s with ops := rest } (.refuseOwnNumber number)).alert = .off :=
      alert_callback { s with ops := rest } (.onCallFailed (utf8 "自分自身には発信できません"))
    rw [halert]
    exact alerts_off hatt
  | onDebug message =>
    rw [show (State.runOp { s with ops := rest } (.onDebug message)).alert = s.alert from hnotify _]
    exact hal
  | _ => exact hal

theorem Alerted.ringTimeout (h : Alerted (s, hushed)) (hstep : step s .ringTimeout = some t) :
    Alerted (t, hushed || s.timeoutPasses) := by
  obtain ⟨-, -, rfl⟩ := step_ringTimeout.mp hstep
  apply h.beside (by simp) hstep
  unfold State.onRingTimeout
  rw [show ({ s with ringTimer := false } : State).timeoutPasses = s.timeoutPasses from rfl]
  cases hpasses : s.timeoutPasses with
  | false =>
    rw [if_neg (by simp), Bool.or_false]
    exact h.alerts
  | true =>
    rw [if_pos rfl, Bool.or_true]
    apply h.alerts.hush
    intro hoff
    unfold State.alert State.showMissedCallNotification State.notifyListeners State.execute State.post
    simp only [List.foldl_append]
    rfl

theorem alert_stop (s : State) : s.stop.alert = s.alert := by
  unfold State.stop
  split <;> rfl

theorem Alerted.request (h : Alerted (s, hushed)) {r : Request} (hatt : Attentive s (.request r))
    (hstep : step s (.request r) = some t) : Alerted (t, noteHush hushed s (.request r) t) := by
  obtain ⟨-, rfl⟩ := step_request.mp hstep
  apply h.beside (by simp) hstep
  have hal := h.alerts
  have hpress : Alerts s.native.line s.gCallback true (s.post .stopRinging).alert := by
    apply hal.hush
    intro hoff
    rw [alert_post_stop, hoff]
    rfl
  have hsilent (hl : s.native.line.isRinging = false) (hoff : (r.run s).alert = .off) :
      Alerts s.native.line (r.run s).gCallback hushed (r.run s).alert := by
    rw [hoff]
    exact alerts_off hl
  cases r with
  | answerCall => exact hpress
  | endCall => exact hpress
  | screenOff =>
    simp only [Request.run, noteHush]
    cases s.callActive with
    | true =>
      rw [Bool.or_true]
      exact hpress
    | false =>
      rw [Bool.or_false]
      exact hal
  | networkAvailable | startCommand =>
    simp only [Request.run, Service.networkAvailable, noteHush]
    split <;> exact hal
  | shutdown => exact hsilent hatt (by rw [← hal.off hatt]; exact alert_stop s)
  | destroy =>
    apply hsilent hatt
    have hoff : s.alert = .off := hal.off hatt
    have htone := ringtoneAfter_false (congrArg Alert.ringtone hoff)
    have hnone : s.incomingNotification = none := congrArg Alert.notification hoff
    refine (alert_stop { s with queue := [], ringtone := false }).trans ?_
    unfold State.alert
    simp only [htone, hnone]
    rfl
  | _ => exact hal

theorem Alerted.step (h : Alerted (s, hushed)) {a : Action} (hatt : Attentive s a)
    (hstep : step s a = some t) : Alerted (t, noteHush hushed s a t) := by
  cases a with
  | native b => exact h.native hatt hstep
  | watchdog silent =>
    apply h.beside (by simp) hstep
    obtain ⟨-, rfl | rfl | ⟨-, rfl⟩⟩ := step_watchdog hstep <;> exact h.alerts
  | take =>
    apply h.beside (by simp) hstep
    obtain ⟨task, rest, -, -, rfl⟩ := step_take.mp hstep
    exact h.alerts
  | op => exact h.op hatt hstep
  | message =>
    apply h.beside (by simp) hstep
    obtain ⟨m, rest, hmain, rfl⟩ := step_message.mp hstep
    have halert : (State.handleMessage { s with main := rest } m).alert = s.alert := by
      unfold State.alert
      rw [hmain]
      cases m <;> rfl
    rw [halert]
    cases m <;> exact h.alerts
  | ringTimeout => exact h.ringTimeout hstep
  | request r => exact h.request hatt hstep

/-- In an attentive run, whenever all queues are empty, the ringtone or the notification
is on only if an incoming call is not established yet, and both are on for its caller if
nobody has pressed a key and its timeout has not expired. -/
theorem alert_agrees_with_ringing (account : Buffers) (config : SipConfig) (as : List Action)
    (s : State) (hushed : Bool)
    (hatt : hushing.Meets (fun p a => Attentive p.1 a) (State.initial account config, false) as)
    (hrun : hushing.run (State.initial account config, false) as = some (s, hushed))
    (hmain : s.main = []) :
    (s.ringtone = true ∨ s.incomingNotification ≠ none →
      ∃ x ∈ s.native.calls, x.state = .incoming) ∧
    ∀ x ∈ s.native.calls, x.state = .incoming → hushed = false → s.ringtone = true ∧
      s.incomingNotification = some (callerNumber (bounded 256 x.peerUri)) := by
  have h : Alerted (s, hushed) := by
    refine Machine.run_of_meets ?_ (alerted_initial account config) hatt hrun
    intro p a q hp hg hq
    obtain ⟨t, ht, rfl⟩ := Machine.record_step_eq_some.mp hq
    exact hp.step hg ht
  have halert : s.alert = ⟨s.ringtone, s.incomingNotification⟩ := by
    unfold State.alert
    rw [hmain]
    rfl
  have hal := h.alerts
  rw [halert] at hal
  obtain ⟨hnone, hline⟩ | ⟨x, hx, hline⟩ := line_cases h.coherent h.single
  · have hoff := hal.off (by rw [hline]; rfl)
    obtain ⟨htone, hnote⟩ := Alert.mk.inj hoff
    rw [hnone, htone, hnote]
    simp
  · rw [hx]
    simp only [List.mem_singleton, exists_eq_left, forall_eq]
    by_cases hst : x.state = .incoming
    · refine ⟨fun _ => hst, fun _ hhush => ?_⟩
      have hring : s.native.line = .ringing x.id x.peerUri x.answered := by
        rw [hline]
        unfold Call.line
        rw [hst]
      exact Alert.mk.inj (hal.on _ _ _ hring hhush)
    · have hquiet : s.native.line.isRinging = false := by
        rw [hline]
        unfold Call.line
        split
        · rfl
        · exact absurd ‹_› hst
        · rfl
      obtain ⟨htone, hnote⟩ := Alert.mk.inj (hal.off hquiet)
      rw [htone, hnote]
      exact ⟨fun h => by simp at h, fun h => absurd h hst⟩

theorem alert_agrees_with_ringing_unanswered : ∃ p,
    hushing.run (State.initial (nativeInit .sample) .sample, false) (started ++
      [.message, .message, .message,
        .native (.event (.invite (utf8 "sip:203@192.0.2.1") none .ringing)),
        .message, .message]) = some p ∧
    p.1.ringtone = true ∧ p.1.incomingNotification = some (utf8 "203") := by
  refine ⟨_, rfl, ?_⟩
  have h := alert_agrees_with_ringing (nativeInit .sample) .sample (started ++
      [.message, .message, .message,
        .native (.event (.invite (utf8 "sip:203@192.0.2.1") none .ringing)),
        .message, .message]) _ false (by decide) rfl rfl
  exact h.2 _ (List.mem_singleton.mpr rfl) rfl rfl

/-- From the answer to the caller's ACK the notification stays up. -/
theorem alert_outlives_ringing : ∃ as s,
    machine.run (State.initial (nativeInit .sample) .sample) (started ++ as) = some s ∧
    s.native.posted = [] ∧ s.native.dialing = none ∧ s.queue = [] ∧ s.ops = [] ∧ s.main = [] ∧
    s.incomingNotification = some (utf8 "203") ∧
    ¬ ∃ x ∈ s.native.calls, x.state = .incoming ∧ x.answered = false := by
  refine ⟨[.message, .message, .message,
    .native (.event (.invite (utf8 "sip:203@192.0.2.1") none .ringing)), .message, .message,
    .request .answerCall, .take, .op, .op, .native (.work .ok), .message], _, rfl, rfl, rfl, rfl,
    rfl, rfl, rfl, ?_⟩
  decide

end SimplePhone.Service
