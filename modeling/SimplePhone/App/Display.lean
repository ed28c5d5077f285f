import SimplePhone.App.Screen
import SimplePhone.App.Step
import SimplePhone.Native.Proper
import SimplePhone.Service.Audio
import SimplePhone.Native.Waiting

/-! The screen of a bound activity agrees with the call of the native layer whenever
all queues are empty, as long as no step is one of those that tear them apart. -/
namespace SimplePhone.App

open Service Native Transition

/-! ### The steps that keep them together -/

/-- A call that rings is heard of and crosses no dial, and a dial finds a user agent. -/
def Awaited (s : State) : Native.Action → Prop
  | .event (.invite _ _ .ringing) => s.gCallback = true ∧ ¬ Dialled (pipeline s)
  | .connect _ => s.gCallback = true
  | .work _ =>
      match s.native.next with
      | some (.makecall _) => s.native.gUa ≠ none
      | _ => True
  | _ => True

/-- No dial and no needed hangup is lost on its way. -/
def Calm (s : State) : Service.Action → Prop
  | .native b => Undisturbed s.native b ∧ Spares s.native b ∧ Awaited s b
  | .take =>
      match s.queue with
      | .makeCall _ :: _ => s.sipManager = true
      | .endCall :: _ => s.sipManager = true ∨ Silent s
      | _ => True
  | .request .shutdown | .request .destroy => Silent s
  | _ => True

/-- A hangup for the call on the line is on its way. -/
def Ending (s : State) : Prop := s.native.line ≠ .idle ∧ .hang ∈ pipeline s

/-- An intent for a call arrives while the call rings, or before the notices that
correct it. -/
def Heralds (s : State) (callerNumber : Str) : Prop :=
  told s ≠ [] ∨ Ending s ∨
    Shows s.native.account s.native.line (.incoming (displayNumber callerNumber))

/-- The poll of `isCallActive` tells a screen that shows `u` enough. -/
def Informs (s : State) (u : CallState) : Prop :=
  told s ≠ [] ∨ Ending s ∨ s.native.line = .idle ∧ wanted (pipeline s) = none ∨
    s.native.line ≠ .idle ∧ s.sipManager = true ∧
      (Shows s.native.account s.native.line u ∨ u = .idle ∧ s.native.line.isTalking = true)

/-- The caller of an intent that is about to be handed over. -/
def Phone.caller (p : Phone) (source : Source) : Option Str :=
  (takeIntent p.service source).bind Prod.snd

def Activity.dials (a : Activity) (k : Key) : Prop :=
  (k = .call ∨ k = .actionCall) ∧ a.callState = .idle ∧ a.currentNumber ≠ []

/-- The steps after which the screen still goes with the line. -/
def Steady (p : Phone) : Action → Prop
  | .service a => Calm p.service a
  | .intent source => ∀ a ∈ p.activity, a.bound = true →
      ∀ callerNumber ∈ p.caller source, callerNumber ≠ [] → Heralds p.service callerNumber
  | .serviceConnected | .resume => ∀ a ∈ p.activity, Informs p.service a.callState
  | .key k => ∀ a ∈ p.activity, a.bound = true → a.dials k →
      Silent p.service ∧ told p.service = []
  | _ => True

instance (s : State) (b : Native.Action) : Decidable (Awaited s b) := by
  unfold Awaited
  exact match b with
    | .event (.invite _ _ .ringing) | .connect _ => inferInstance
    | .work _ =>
        match s.native.next with
        | some (.makecall _) => inferInstance
        | none | some .register | some .unregister | some (.reregister _) | some .answer
        | some .endcall | some .timeoutHangup | some (.dtmf _) | some (.mute _) => inferInstance
    | .event (.invite _ _ .refused) | .event (.invite _ _ .failed)
    | .event (.registerOk _) | .event (.registerFail _) | .event (.progress _ _)
    | .event (.established _) | .event (.closed _ _) | .event (.audioError _ _)
    | .event (.other _ _ _)
    | .post _ => inferInstance

instance (s : State) (a : Service.Action) : Decidable (Calm s a) := by
  unfold Calm
  exact match a with
    | .native _ => inferInstance
    | .take =>
        match s.queue with
        | .makeCall _ :: _ | .endCall :: _ => inferInstance
        | [] | .ensureSipManager :: _ | .reregisterIfReady :: _ | .answerCall :: _
        | .sendDtmf _ :: _ | .setMute _ :: _ | .applySettings _ :: _ => inferInstance
    | .request .shutdown | .request .destroy => inferInstance
    | .request (.makeCall _) | .request .answerCall | .request .endCall | .request (.sendDtmf _)
    | .request (.setMute _) | .request .screenOff | .request (.saveAndApply _)
    | .request .networkLost | .request .networkAvailable | .request .legacyConnected
    | .request .startCommand | .watchdog _ | .op | .message | .ringTimeout => inferInstance

instance (s : State) : Decidable (Ending s) := inferInstanceAs (Decidable (_ ∧ _))

instance (s : State) (callerNumber : Str) : Decidable (Heralds s callerNumber) :=
  inferInstanceAs (Decidable (_ ∨ _))

instance (s : State) (u : CallState) : Decidable (Informs s u) :=
  inferInstanceAs (Decidable (_ ∨ _))

instance (a : Activity) (k : Key) : Decidable (a.dials k) := inferInstanceAs (Decidable (_ ∧ _))

instance (p : Phone) (a : Action) : Decidable (Steady p a) := by
  unfold Steady
  split <;> infer_instance

/-! ### The invariant -/

/-- What a bound activity shows. -/
def Phone.shown (p : Phone) : Option CallState :=
  match p.activity with
  | some a => if a.bound then some a.callState else none
  | none => none

/-- The service under a screen that shows `shown`. -/
structure Screened (s : State) (shown : Option CallState) : Prop where
  coherent : Coherent s.native
  single : SingleLine s.native
  proper : Proper s.native
  agrees : Agrees s.native.account s.native.line s.gCallback (pipeline s) (told s) shown

variable {s t : State} {shown : Option CallState}

theorem screened_initial (account : Buffers) (config : SipConfig) :
    Screened (State.initial account config) none := by
  refine ⟨coherent_initial account, singleLine_initial account, fun x hx => (nomatch hx), ?_⟩
  exact ⟨fun hbusy => absurd rfl hbusy, Nat.zero_le _, fun hdial => absurd rfl hdial,
    fun n hn => (nomatch hn), fun u hu => (nomatch hu)⟩

theorem not_dialled_of_silent (h : Silent s) : ¬ Dialled (pipeline s) := by
  unfold Dialled
  rw [not_not, List.countP_eq_zero]
  intro e he
  simp [h.2 e he]

theorem line_of_silent (hs : SingleLine s.native) (h : Silent s) : s.native.line = .idle := by
  apply line_idle
  by_contra hcall
  obtain ⟨c, hc⟩ := Option.ne_none_iff_exists'.mp hcall
  have hlive := (hs c).mpr hc
  rw [h.1] at hlive
  cases hlive

/-! ### Steps of the service -/

theorem told_stop (s : State) : told s.stop = told s := by
  unfold State.stop
  split <;> rfl

theorem told_request {r : Request} (hstep : Service.step s (.request r) = some t) :
    told t = told s := by
  obtain ⟨-, rfl⟩ := step_request.mp hstep
  cases r with
  | answerCall | endCall => exact (told_post s .stopRinging).trans (List.append_nil _)
  | screenOff =>
    simp only [Request.run]
    split
    · exact (told_post s .stopRinging).trans (List.append_nil _)
    · rfl
  | networkAvailable | startCommand =>
    simp only [Request.run, Service.networkAvailable]
    split <;> rfl
  | shutdown => exact told_stop s
  | destroy => exact told_stop { s with queue := [], ringtone := false }
  | _ => rfl

/-- Besides the event loop only a dial of the own number tells the app something. -/
theorem told_beside {a : Service.Action} (ha : ∀ b, a ≠ .native b) (hmessage : a ≠ .message)
    (hstep : Service.step s a = some t) : told t = told s ∨
      Dialled (pipeline s) ∧ ∃ reason, told t = told s ++ [.onCallFailed reason] := by
  cases a with
  | native b => exact absurd rfl (ha b)
  | watchdog silent =>
    obtain ⟨-, rfl | rfl | ⟨-, rfl⟩⟩ := step_watchdog hstep <;> exact .inl rfl
  | take =>
    obtain ⟨task, rest, -, -, rfl⟩ := step_take.mp hstep
    exact .inl rfl
  | op =>
    obtain ⟨op, rest, -, rfl, hpipe⟩ := pipeline_op hstep
    obtain ⟨-, hop⟩ | ⟨number, rfl, hpipe⟩ := hpipe
    · cases op with
      | refuseOwnNumber number => exact absurd rfl (hop number)
      | onDebug message =>
        exact .inl ((told_callback _ (.onDebug message)).trans (List.append_nil _))
      | _ => exact .inl rfl
    · refine .inr ⟨?_, _, told_callback _ (.onCallFailed (utf8 "自分自身には発信できません"))⟩
      unfold Dialled
      rw [hpipe, List.countP_append, List.countP_cons_of_pos rfl]
      omega
  | message => exact absurd rfl hmessage
  | ringTimeout =>
    obtain ⟨-, -, rfl⟩ := step_ringTimeout.mp hstep
    refine .inl ?_
    unfold State.onRingTimeout
    split
    · unfold told State.showMissedCallNotification State.notifyListeners State.execute State.post
      simp only [List.filterMap_append]
      simp [callNotice]
    · rfl
  | request r => exact .inl (told_request hstep)

theorem passes_native {b : Native.Action} (hawait : Awaited s b)
    (hstep : Service.step s (.native b) = some t) :
    Passes (b.drive s.native) (pipeline s) (pipeline t) := by
  have hpost := (step_native.mp hstep).1
  obtain ⟨g, hg, -, hs, ht⟩ := pipeline_native hstep
  rw [hs, ht]
  cases b with
  | event e =>
    rw [nativePipeline_event hg]
    exact .event _
  | post w => exact absurd rfl (hpost w)
  | connect result =>
    obtain ⟨uri, hdial, heq⟩ := nativePipeline_connect hg
    rw [heq]
    simp only [Action.drive, hdial]
    exact .wake _ _
  | work lib =>
    obtain ⟨w, hnext, ⟨heq, -, hua⟩ | ⟨uri, rfl, -, heq, -⟩⟩ := nativePipeline_work hg
    · simp only [Action.drive, hnext]
      rw [heq, List.append_assoc]
      refine .work _ _ ?_
      rintro uri rfl
      simp only [Awaited, hnext] at hawait
      exact hawait (hua uri rfl)
    · simp only [Action.drive, hnext]
      rw [heq]
      exact .sleep _ _ _

theorem Screened.native (h : Screened s shown) {b : Native.Action} (hcalm : Calm s (.native b))
    (hstep : Service.step s (.native b) = some t) : Screened t shown := by
  obtain ⟨hund, hspares, hawait⟩ := hcalm
  have hg := native_of_step hstep
  have hcb : t.gCallback = s.gCallback := by
    obtain ⟨-, g, -, rfl⟩ := step_native.mp hstep
    exact callbacks_gCallback _ _
  refine ⟨h.coherent.step hg, (singleLine_step h.coherent h.single hg).mpr hund,
    h.proper.step h.coherent hg, ?_⟩
  rw [step_account hg, hcb, told_native hstep]
  apply h.agrees.move (step_moves h.coherent h.single hund hg) (passes_native hawait hstep)
  · intro number cause hmem
    obtain hsettles | ⟨l, peer, -, -, -, -, -, replaces, rfl⟩ := news_step h.coherent hg
    · exact nomatch hsettles _ hmem
    · exact hawait
  · intro uri hdrive
    cases b with
    | connect result => exact hawait
    | work lib =>
      simp only [Action.drive] at hdrive
      split at hdrive <;> cases hdrive
    | _ => cases hdrive
  · exact fun aor r hd => hspares.idle hd

theorem account_step_other {a : Service.Action} (ha : ∀ b, a ≠ .native b)
    (hstep : Service.step s a = some t) : t.native.account = s.native.account := by
  obtain hsame | ⟨w, hw⟩ := step_other ha hstep
  · rw [hsame]
  · rw [hw]
    rfl

/-- A step outside the event loop, by what it does to the errands and the notices. -/
theorem Screened.beside (h : Screened s shown) {a : Service.Action} (ha : ∀ b, a ≠ .native b)
    (hstep : Service.step s a = some t) {shown' : Option CallState}
    (hagrees : Agrees s.native.account s.native.line t.gCallback (pipeline t) (told t) shown') :
    Screened t shown' := by
  obtain ⟨hcalls, -, hline, -⟩ := line_step_other ha hstep
  refine ⟨coherent_step h.coherent hstep, singleLine_step_other h.single ha hstep,
    proper_congr h.proper hcalls, ?_⟩
  rw [account_step_other ha hstep, hline]
  exact hagrees

theorem Screened.take (h : Screened s shown) (hcalm : Calm s .take)
    (hstep : Service.step s .take = some t) : Screened t shown := by
  apply h.beside (by simp) hstep
  obtain ⟨task, rest, -, hqueue, rfl, heq | ⟨hdropped, heq⟩⟩ := pipeline_take hstep
  · rw [heq]
    exact h.agrees
  · simp only [Calm, hqueue] at hcalm
    have hag := h.agrees
    cases task with
    | makeCall number =>
      simp only [State.taskOps, hcalm, Bool.not_true, Bool.false_eq_true, if_false] at hdropped
      split at hdropped <;> cases hdropped
    | endCall =>
      obtain hready | hsilent := hcalm
      · simp [State.taskOps, hready] at hdropped
      · refine hag.silent (line_of_silent h.single hsilent) (not_dialled_of_silent hsilent) _ ?_
        rw [heq]
        exact List.Sublist.append_left (List.sublist_append_right _ _) _
    | applySettings accountChanged =>
      rw [heq] at hag
      refine hag.skip ?_
      cases accountChanged
      · exact .inl rfl
      · exact .inr rfl
    | reregisterIfReady =>
      rw [heq] at hag
      exact hag.skip (.inr rfl)
    | _ =>
      rw [heq] at hag
      exact hag.skip (.inl rfl)

theorem Screened.op (h : Screened s shown) (hstep : Service.step s .op = some t) :
    Screened t shown := by
  apply h.beside (by simp) hstep
  obtain ⟨op, rest, hops, rfl, hpipe⟩ := pipeline_op hstep
  have hag := h.agrees
  obtain ⟨heq, hop⟩ | ⟨number, rfl, heq⟩ := hpipe
  · rw [heq]
    cases op with
    | nativeSetCallback => exact ⟨fun _ => rfl, hag.once, hag.dialled, hag.pending, hag.screen⟩
    | refuseOwnNumber number => exact absurd rfl (hop number)
    | onDebug message =>
      have htold := told_callback { s with ops := rest } (.onDebug message)
      rw [show notices (.onDebug message) = [] from rfl, List.append_nil] at htold
      rw [show told (State.runOp { s with ops := rest } (.onDebug message)) = told s from htold]
      exact hag
    | _ => exact hag
  · have htold := told_callback { s with ops := rest }
      (.onCallFailed (utf8 "自分自身には発信できません"))
    rw [show told (State.runOp { s with ops := rest } (.refuseOwnNumber number)) =
      told s ++ [.onCallFailed (utf8 "自分自身には発信できません")] from htold]
    rw [heq] at hag
    exact hag.refuse

theorem Screened.ringTimeout (h : Screened s shown)
    (hstep : Service.step s .ringTimeout = some t) : Screened t shown := by
  apply h.beside (by simp) hstep
  have hpipe := pipeline_ringTimeout hstep
  obtain ⟨-, -, rfl⟩ := step_ringTimeout.mp hstep
  rw [hpipe]
  have htold : told (State.onRingTimeout { s with ringTimer := false }) = told s := by
    unfold State.onRingTimeout
    split
    · unfold told State.showMissedCallNotification State.notifyListeners State.execute State.post
      simp only [List.filterMap_append]
      simp [callNotice]
    · rfl
  have hcb : (State.onRingTimeout { s with ringTimer := false }).gCallback = s.gCallback := by
    unfold State.onRingTimeout
    split <;> rfl
  rw [htold, hcb]
  refine h.agrees.more ?_
  split <;> decide

/-- Stopping drops the callback object, and no call may need it. -/
theorem agrees_stop {s' : State} (h : Screened s shown) (hsilent : Silent s)
    (hsub : (pipeline s').Sublist (pipeline s)) (htold : told s' = told s) :
    Agrees s.native.account s.native.line s'.gCallback (pipeline s') (told s') shown := by
  rw [htold]
  exact h.agrees.silent (line_of_silent h.single hsilent) (not_dialled_of_silent hsilent) _ hsub

theorem not_dialled_errands (s : State) {r : Request} (hr : ∀ number, r ≠ .makeCall number) :
    ¬ Dialled (r.errands s) := by
  cases r with
  | makeCall number => exact absurd rfl (hr number)
  | screenOff | saveAndApply config | networkAvailable =>
    simp only [Request.errands]
    split <;> decide
  | _ => exact not_not.mpr rfl

theorem Screened.request (h : Screened s shown) {r : Request} (hcalm : Calm s (.request r))
    (hr : ∀ number, r ≠ .makeCall number) (hstep : Service.step s (.request r) = some t) :
    Screened t shown := by
  apply h.beside (by simp) hstep
  have hpipe (hd : r ≠ .destroy) := pipeline_request hd hstep
  have htold := told_request hstep
  obtain ⟨-, rfl⟩ := step_request.mp hstep
  have hadd (hd : r ≠ .destroy) (hcb : (r.run s).gCallback = s.gCallback) :
      Agrees s.native.account s.native.line (r.run s).gCallback (pipeline (r.run s))
        (told (r.run s)) shown := by
    rw [hpipe hd, htold, hcb]
    exact h.agrees.more (not_dialled_errands s hr)
  cases r with
  | makeCall number => exact absurd rfl (hr number)
  | screenOff | networkAvailable | startCommand =>
    apply hadd (by simp)
    simp only [Request.run, Service.networkAvailable]
    split <;> rfl
  | answerCall | endCall | sendDtmf digit | setMute mute | saveAndApply config | networkLost
  | legacyConnected => exact hadd (by simp) rfl
  | shutdown =>
    have hsame : pipeline s.stop = pipeline s := (hpipe (by simp)).trans (List.append_nil _)
    exact agrees_stop h hcalm (hsame ▸ List.Sublist.refl _) (told_stop s)
  | destroy =>
    exact agrees_stop h hcalm (pipeline_destroy s) (told_stop { s with queue := [], ringtone := false })

/-- The steps of the service that concern no key and no notice. -/
theorem Screened.service (h : Screened s shown) {a : Service.Action} (hcalm : Calm s a)
    (hmessage : a ≠ .message) (hdial : ∀ number, a ≠ .request (.makeCall number))
    (hstep : Service.step s a = some t) : Screened t shown := by
  cases a with
  | native b => exact h.native hcalm hstep
  | watchdog silent =>
    apply h.beside (by simp) hstep
    rw [pipeline_watchdog hstep]
    obtain ⟨-, rfl | rfl | ⟨-, rfl⟩⟩ := step_watchdog hstep <;> exact h.agrees
  | take => exact h.take hcalm hstep
  | op => exact h.op hstep
  | message => exact absurd rfl hmessage
  | ringTimeout => exact h.ringTimeout hstep
  | request r =>
    apply h.request hcalm _ hstep
    rintro number rfl
    exact hdial number rfl

theorem callNotice_some {m : Message} {n : Notice} (h : callNotice m = some n) : m = .notify n := by
  cases m with
  | notify n' => cases n' <;> cases h <;> rfl
  | _ => cases h

/-- Only notices about calls show. -/
theorem afterMessage_silent {m : Message} (h : callNotice m = none) (u : CallState) :
    u.afterMessage m = u := by
  cases m with
  | notify n => cases n <;> first | rfl | cases h
  | _ => rfl

theorem told_message {m : Message} {rest : List Message} (hmain : s.main = m :: rest)
    (hstep : Service.step s .message = some t) : told s = (callNotice m).toList ++ told t := by
  obtain ⟨m', rest', hmain', rfl⟩ := step_message.mp hstep
  obtain ⟨rfl, rfl⟩ := List.cons.inj (hmain.symm.trans hmain')
  have hrest : told (State.handleMessage { s with main := rest } m) = rest.filterMap callNotice := by
    cases m <;> rfl
  rw [hrest]
  unfold told
  rw [hmain]
  cases hm : callNotice m <;> simp [hm]

/-- The main looper's next message, heard by an activity that is bound. -/
theorem Screened.message (h : Screened s shown) {m : Message} {rest : List Message}
    (hmain : s.main = m :: rest) (hstep : Service.step s .message = some t) :
    Screened t (shown.map fun u => u.afterMessage m) := by
  have htold := told_message hmain hstep
  apply h.beside (by simp) hstep
  rw [pipeline_message hstep]
  have hag := h.agrees
  have hcb : t.gCallback = s.gCallback := by
    obtain ⟨m', rest', -, rfl⟩ := step_message.mp hstep
    cases m' <;> rfl
  rw [hcb]
  cases hm : callNotice m with
  | some n =>
    obtain rfl := callNotice_some hm
    rw [hm, Option.toList_some, List.singleton_append] at htold
    rw [htold] at hag
    apply hag.pop
    exact after_told (s := s) (by rw [htold]; exact List.mem_cons_self)
  | none =>
    rw [hm, Option.toList_none, List.nil_append] at htold
    rw [← htold, show (fun u : CallState => u.afterMessage m) = id from
      funext (afterMessage_silent hm), Option.map_id]
    exact hag

/-! ### Steps of the phone -/

theorem alive_step {a : Service.Action} (ha : a ≠ .request .destroy)
    (hstep : Service.step s a = some t) : t.alive = s.alive := by
  cases a with
  | native b =>
    obtain ⟨-, g, -, rfl⟩ := step_native.mp hstep
    exact callbacks_alive _ _
  | watchdog silent =>
    obtain ⟨-, rfl | rfl | ⟨-, rfl⟩⟩ := step_watchdog hstep <;> rfl
  | take =>
    obtain ⟨task, rest, -, -, rfl⟩ := step_take.mp hstep
    rfl
  | op =>
    obtain ⟨op, rest, -, rfl⟩ := step_op.mp hstep
    cases op <;> rfl
  | message =>
    obtain ⟨m, rest, -, rfl⟩ := step_message.mp hstep
    cases m <;> rfl
  | ringTimeout =>
    obtain ⟨-, -, rfl⟩ := step_ringTimeout.mp hstep
    unfold State.onRingTimeout
    split <;> rfl
  | request r =>
    obtain ⟨-, rfl⟩ := step_request.mp hstep
    cases r with
    | destroy => exact absurd rfl ha
    | shutdown =>
      unfold Request.run State.stop
      simp only
      split <;> rfl
    | screenOff | networkAvailable | startCommand =>
      simp only [Request.run, Service.networkAvailable]
      split <;> rfl
    | _ => rfl

/-- The phone with its service under the screen of a bound activity. -/
structure Displayed (p : Phone) : Prop where
  screened : Screened p.service p.shown
  alive : p.shown ≠ none → p.service.alive = true

theorem displayed_initial (account : Buffers) (config : SipConfig) :
    Displayed (Phone.initial account config) :=
  ⟨screened_initial account config, fun h => absurd rfl h⟩

variable {p : Phone}

theorem shown_bound {a : Activity} (ha : p.activity = some a) (hb : a.bound = true) :
    p.shown = some a.callState := by
  unfold Phone.shown
  rw [ha]
  exact if_pos hb

theorem shown_unbound {a : Activity} (ha : p.activity = some a) (hb : a.bound = false) :
    p.shown = none := by
  unfold Phone.shown
  rw [ha]
  exact if_neg (by simp [hb])

theorem shown_none (ha : p.activity = none) : p.shown = none := by
  unfold Phone.shown
  rw [ha]

/-- The activity redraws itself. -/
theorem Screened.redraw (h : Screened s shown) {shown' : Option CallState}
    (hshow : ∀ u, shown' = some u → told s = [] →
      Matches s.native.account s.native.line (pipeline s) u) : Screened s shown' :=
  ⟨h.coherent, h.single, h.proper, h.agrees.redraw hshow⟩

theorem Displayed.service (h : Displayed p) {a : Service.Action} (hcalm : Calm p.service a)
    (hout : outside p a = true) (hstep : Service.step p.service a = some t) :
    Displayed { p with service := t } := by
  refine ⟨h.screened.service hcalm ?_ ?_ hstep, ?_⟩
  · rintro rfl
    cases hout
  · rintro number rfl
    cases hout
  · intro hshown
    rw [alive_step ?_ hstep]
    · exact h.alive hshown
    · rintro rfl
      apply hshown
      change p.shown = none
      cases ha : p.activity with
      | none => exact shown_none ha
      | some a =>
        unfold outside at hout
        rw [ha, Option.any_some] at hout
        exact shown_unbound ha ((Bool.not_eq_true' _).mp hout)

theorem Displayed.message (h : Displayed p) {r : Phone × List HistoryEntry}
    (hreact : react p .message = some r) : Displayed r.1 := by
  obtain ⟨m, rest, t, hmain, hstep, hr⟩ := react_message hreact
  have hscreened := h.screened.message hmain hstep
  have halive : t.alive = p.service.alive := alive_step (by simp) hstep
  obtain ⟨n, a, rfl, ha, hb, rfl⟩ | ⟨hdeaf, rfl⟩ := hr
  · have hshown := shown_bound ha hb
    have hshown' : Phone.shown { p with service := t, activity := some (a.hear n).1 } =
        some (a.callState.after n) := by
      rw [shown_bound rfl (by rw [hear_bound, hb]), hear_callState]
    refine ⟨?_, fun _ => ?_⟩
    · rw [hshown']
      rw [hshown] at hscreened
      exact hscreened
    · exact halive.trans (h.alive (by rw [hshown]; simp))
  · refine ⟨?_, fun hne => halive.trans (h.alive hne)⟩
    change Screened t p.shown
    cases ha : p.activity with
    | none =>
      rw [shown_none ha] at hscreened ⊢
      exact hscreened
    | some a =>
      cases m with
      | notify n =>
        rw [shown_unbound ha (hdeaf n a rfl ha)] at hscreened ⊢
        exact hscreened
      | _ =>
        rw [show (fun u : CallState => u.afterMessage _) = id from rfl, Option.map_id] at hscreened
        exact hscreened

/-! #### The life of the activity -/

/-- Handing over an intent takes nothing from the service but the intent. -/
theorem takeIntent_service {source : Source} {r : State × Option Str}
    (h : takeIntent s source = some r) : r.1 = s ∨ ∃ rest, r.1 = { s with intents := rest } := by
  unfold takeIntent at h
  cases source with
  | service =>
    cases hi : s.intents with
    | nil => simp [hi] at h
    | cons caller rest =>
      simp only [hi, Option.some.injEq] at h
      subst h
      exact .inr ⟨rest, rfl⟩
  | launcher =>
    cases h
    exact .inl rfl
  | notification =>
    obtain ⟨callerNumber, -, rfl⟩ := Option.map_eq_some_iff.mp h
    exact .inl rfl

theorem Heralds.matches_line (h : Screened s shown) {callerNumber : Str}
    (hherald : Heralds s callerNumber) (hnone : told s = []) :
    Matches s.native.account s.native.line (pipeline s)
      (.incoming (displayNumber callerNumber)) := by
  obtain htold | ⟨hbusy, hhang⟩ | hshows := hherald
  · exact absurd hnone htold
  · exact .ending hbusy hhang
  · refine .shows hshows (wanted_none (h.agrees.not_dialled ?_))
    intro hidle
    rw [hidle] at hshows
    exact hshows

theorem Displayed.intent (h : Displayed p) {source : Source} (hsteady : Steady p (.intent source))
    {t : State × Option Str} (ht : takeIntent p.service source = some t) :
    Displayed (startActivity t.2 { p with service := t.1 }) := by
  have hscreened (shown : Option CallState) (hs : Screened p.service shown) :
      Screened t.1 shown := by
    obtain hsame | ⟨rest, hrest⟩ := takeIntent_service ht
    · rw [hsame]
      exact hs
    · rw [hrest]
      exact ⟨hs.coherent, hs.single, hs.proper, hs.agrees⟩
  have halive : t.1.alive = p.service.alive := by
    obtain hsame | ⟨rest, hrest⟩ := takeIntent_service ht
    · rw [hsame]
    · rw [hrest]
  by_cases hbound : ∃ a, p.activity = some a ∧ a.bound = true
  · obtain ⟨a, ha, hb⟩ := hbound
    have hactivity : (startActivity t.2 { p with service := t.1 }).activity =
        some (a.handleIncomingCallIntent t.2) := by
      simp [startActivity, ha]
    have hshown := shown_bound hactivity ((handleIncomingCallIntent_bound _ _).trans hb)
    have hbefore := h.screened
    rw [shown_bound ha hb] at hbefore
    refine ⟨?_, fun _ => ?_⟩
    · rw [hshown]
      apply hscreened
      obtain hsame | ⟨callerNumber, hcaller, hne, hnew⟩ :=
        handleIncomingCallIntent_callState t.2 a
      · rw [hsame]
        exact hbefore
      · rw [hnew]
        apply hbefore.redraw
        rintro _ ⟨⟩ hnone
        refine (hsteady a ha hb callerNumber ?_ hne).matches_line hbefore hnone
        unfold Phone.caller
        rw [ht]
        exact hcaller
    · change t.1.alive = true
      rw [halive]
      exact h.alive (by rw [shown_bound ha hb]; simp)
  · have hnone : p.shown = none := by
      unfold Phone.shown
      split
      · rename_i a ha
        exact if_neg fun hb => hbound ⟨a, ha, hb⟩
      · rfl
    have hshown : (startActivity t.2 { p with service := t.1 }).shown = none := by
      refine shown_unbound rfl ?_
      rw [handleIncomingCallIntent_bound]
      change (p.activity.getD .created).bound = false
      cases ha : p.activity with
      | none => rfl
      | some a => simpa using fun hb => hbound ⟨a, ha, hb⟩
    refine ⟨?_, fun hne => absurd hshown hne⟩
    rw [hshown]
    apply hscreened
    rw [← hnone]
    exact h.screened

/-! #### The poll -/

theorem Informs.matches_line (h : Screened s shown) {a : Activity}
    (hinf : Informs s a.callState) (hnone : told s = []) :
    Matches s.native.account s.native.line (pipeline s)
      (a.syncCallState (inCall s)).callState := by
  have hcall := h.single.line_call
  have hin := h.coherent.inCall
  obtain htold | ⟨hbusy, hhang⟩ | ⟨hidle, hwanted⟩ | ⟨hbusy, hready, hshows⟩ := hinf
  · exact absurd hnone htold
  · exact .ending hbusy hhang
  · have hpoll : inCall s = false := by
      rw [hidle] at hcall
      simp [inCall, hin, ← hcall, Line.call]
    rw [hpoll, syncCallState_false, hidle]
    exact .shows trivial hwanted
  · have hpoll : inCall s = true := by
      have hsome : s.native.gCall.isSome = true := by
        rw [← hcall]
        cases hl : s.native.line with
        | idle => exact absurd hl hbusy
        | _ => rfl
      simp [inCall, hready, hin, hsome]
    rw [hpoll, syncCallState_true]
    refine .shows ?_ (wanted_none (h.agrees.not_dialled hbusy))
    obtain hshows | ⟨hu, htalk⟩ := hshows
    · rw [if_neg]
      · exact hshows
      · intro hu
        rw [hu] at hshows
        cases hl : s.native.line with
        | idle => exact hbusy hl
        | _ => rw [hl] at hshows; exact hshows
    · rw [if_pos hu]
      cases hl : s.native.line with
      | talking _ _ _ => exact trivial
      | _ => rw [hl] at htalk; cases htalk

theorem Displayed.sync (h : Displayed p) {a : Activity} (hinf : Informs p.service a.callState)
    (halive : p.service.alive = true) :
    Displayed { p with
      activity := some ({ a with bound := true }.syncCallState (inCall p.service)) } := by
  have hshown : Phone.shown { p with
      activity := some ({ a with bound := true }.syncCallState (inCall p.service)) } =
        some ({ a with bound := true }.syncCallState (inCall p.service)).callState :=
    shown_bound rfl (syncCallState_bound _ _)
  refine ⟨?_, fun _ => halive⟩
  rw [hshown]
  apply h.screened.redraw
  rintro _ ⟨⟩ hnone
  exact Informs.matches_line (a := { a with bound := true }) h.screened hinf hnone

/-! #### The keys -/

theorem Screened.dial (h : Screened s shown) (hsilent : Silent s) (hnone : told s = [])
    {number : Str} (hnumber : number ≠ [])
    (hstep : Service.step s (.request (.makeCall number)) = some t) :
    Screened t (some (.outgoing number)) := by
  apply h.beside (by simp) hstep
  rw [pipeline_request (by simp) hstep]
  obtain ⟨-, rfl⟩ := step_request.mp hstep
  exact h.agrees.dial (line_of_silent h.single hsilent) (not_dialled_of_silent hsilent) hnone
    hnumber

theorem Screened.hang (h : Screened s shown) (hstep : Service.step s (.request .endCall) = some t) :
    Screened t (some .idle) := by
  have hcalm : Calm s (.request .endCall) := trivial
  apply (h.request hcalm (by simp) hstep).redraw
  rintro _ ⟨⟩ -
  rw [pipeline_request (by simp) hstep]
  exact matches_hang _ _ _

/-- What a bound activity asks for by a key, the service does. -/
theorem Screened.key {a : Activity} {k : Key} {r : Activity.Reaction}
    (h : Screened s (some a.callState)) (halive : s.alive = true) (hp : Pressed a k r)
    (hdial : a.dials k → Silent s ∧ told s = []) :
    Screened (ask true r.request s) (some r.activity.callState) := by
  have hask (request : Request) (hcalm : Calm s (.request request))
      (hr : ∀ number, request ≠ .makeCall number) :
      Screened (ask true (some request) s) (some a.callState) :=
    h.request hcalm hr (step_ask halive request)
  cases hp with
  | stay number request hrequest =>
    obtain rfl | rfl | ⟨digit, rfl⟩ := hrequest
    · exact h
    · exact hask .answerCall trivial (by simp)
    · exact hask (.sendDtmf digit) trivial (by simp)
  | mute muted hactive =>
    apply (hask (.setMute !muted) trivial (by simp)).redraw
    rintro _ ⟨⟩ hnone
    have hmatch := (hask (.setMute !muted) trivial (by simp)).agrees.screen _ rfl hnone
    rw [hactive] at hmatch
    exact hmatch.muted
  | dial hk hidle hnumber =>
    obtain ⟨hsilent, hnone⟩ := hdial ⟨hk, hidle, hnumber⟩
    exact h.dial hsilent hnone hnumber (step_ask halive _)
  | hang hbusy => exact h.hang (step_ask halive .endCall)

theorem Displayed.key (h : Displayed p) {k : Key} (hsteady : Steady p (.key k)) {a : Activity}
    (ha : p.activity = some a) {r : Activity.Reaction} (hp : Pressed a k r) (lastNumber : Str) :
    Displayed { p with
      service := ask a.bound r.request p.service
      activity := some r.activity
      lastNumber := lastNumber } := by
  have hbound := hp.bound
  cases hb : a.bound with
  | false =>
    have hsame : ask false r.request p.service = p.service := by
      unfold ask
      cases r.request <;> rfl
    have hnone := h.screened
    rw [shown_unbound ha hb] at hnone
    have hshown : Phone.shown { p with
        service := ask false r.request p.service
        activity := some r.activity
        lastNumber := lastNumber } = none :=
      shown_unbound rfl (hbound.trans hb)
    refine ⟨?_, fun hne => absurd hshown hne⟩
    rw [hshown, hsame]
    exact hnone
  | true =>
    have hshown := shown_bound ha hb
    have halive := h.alive (by rw [hshown]; simp)
    have hbefore := h.screened
    rw [hshown] at hbefore
    have hshown' : Phone.shown { p with
        service := ask true r.request p.service
        activity := some r.activity
        lastNumber := lastNumber } = some r.activity.callState :=
      shown_bound rfl (hbound.trans hb)
    refine ⟨?_, fun _ => ?_⟩
    · rw [hshown']
      exact hbefore.key halive hp (hsteady a ha hb)
    · change (ask true r.request p.service).alive = true
      cases hr : r.request with
      | none => exact halive
      | some request =>
        refine (alive_step ?_ (step_ask halive request)).trans halive
        rintro ⟨⟩
        cases hp with
        | stay number request hrequest => simp at hr; simp [hr] at hrequest
        | _ => cases hr

theorem Displayed.step (h : Displayed p) {a : Action} (hsteady : Steady p a) {q : Phone}
    (hstep : step p a = some q) : Displayed q := by
  obtain ⟨r, hreact, rfl⟩ := step_eq_some.mp hstep
  suffices hr : Displayed r.1 from ⟨hr.screened, hr.alive⟩
  cases a with
  | service a =>
    obtain ⟨hout, t, ht, rfl⟩ := react_service.mp hreact
    exact h.service hsteady hout ht
  | message => exact h.message hreact
  | intent source =>
    obtain ⟨t, ht, rfl⟩ := react_intent.mp hreact
    exact h.intent hsteady ht
  | recreate =>
    obtain ⟨ha, rfl⟩ := react_recreate.mp hreact
    have hshown : (startActivity p.intent p).shown = none := by
      refine shown_unbound rfl ?_
      rw [handleIncomingCallIntent_bound, ha]
      rfl
    refine ⟨?_, fun hne => absurd hshown hne⟩
    rw [hshown, ← shown_none ha]
    exact h.screened
  | destroyActivity =>
    obtain ⟨-, rfl⟩ := react_destroyActivity.mp hreact
    exact ⟨h.screened.redraw fun u hu => (nomatch hu), fun hne => absurd rfl hne⟩
  | serviceConnected =>
    obtain ⟨a, ha, -, halive, rfl⟩ := react_serviceConnected.mp hreact
    exact h.sync (hsteady a ha) halive
  | resume =>
    obtain ⟨a, ha, hb, rfl⟩ := react_resume.mp hreact
    have halive := h.alive (by rw [shown_bound ha hb]; simp)
    have hsync := h.sync (hsteady a ha) halive
    rw [show ({ a with bound := true } : Activity) = a by rw [← hb]] at hsync
    exact hsync
  | key k =>
    obtain ⟨a, ha, rfl⟩ := react_key.mp hreact
    exact h.key hsteady ha (pressed_onKeyDown p.lastNumber a k) _

/-! ### Whole runs -/

theorem displayed_of_meets {account : Buffers} {config : SipConfig} {as : List Action}
    (hsteady : machine.Meets Steady (Phone.initial account config) as)
    (hrun : machine.run (Phone.initial account config) as = some p) : Displayed p :=
  Machine.run_of_meets (fun _ _ _ hp hg hq => hp.step hg hq) (displayed_initial account config)
    hsteady hrun

theorem pipeline_of_settled (h : s.Settled) : pipeline s = [] := by
  obtain ⟨hposted, hdialing, hqueue, hops⟩ := h
  simp [pipeline, nativePipeline, executorPipeline, hposted, hdialing, hqueue, hops]

/-- With all queues empty the screen of a bound activity shows the line. -/
theorem Displayed.shows (h : Displayed p) (hsettled : p.service.Settled)
    (hmain : p.service.main = []) {a : Activity} (ha : p.activity = some a)
    (hb : a.bound = true) :
    Shows p.service.native.account p.service.native.line a.callState := by
  have htold : told p.service = [] := by
    unfold told
    rw [hmain]
    rfl
  have hmatch := h.screened.agrees.screen a.callState (shown_bound ha hb) htold
  rw [pipeline_of_settled hsettled] at hmatch
  cases hmatch with
  | shows h => exact h
  | calling number hl hu hnumber hdial => cases hdial
  | ending hl hhang => cases hhang

/-- In a steady run, whenever all queues are empty, the screen of a bound activity says
which call there is, if any, and how far it has come. -/
theorem screen_agrees_with_call (account : Buffers) (config : SipConfig) (as : List Action)
    (p : Phone) (a : Activity)
    (hsteady : machine.Meets Steady (Phone.initial account config) as)
    (hrun : machine.run (Phone.initial account config) as = some p)
    (hsettled : p.service.Settled) (hmain : p.service.main = [])
    (ha : p.activity = some a) (hb : a.bound = true) :
    (a.callState = .idle ↔ p.service.native.calls = []) ∧
    (∀ number, a.callState = .incoming number ↔ ∃ x ∈ p.service.native.calls,
      x.state = .incoming ∧ number = displayNumber (callerNumber (bounded 256 x.peerUri))) ∧
    ((∃ number, a.callState = .outgoing number) ↔ ∃ x ∈ p.service.native.calls,
      x.outgoing = true ∧ x.state ≠ .established) ∧
    ((∃ muted, a.callState = .active muted) ↔ ∃ x ∈ p.service.native.calls,
      x.state = .established) := by
  have h := displayed_of_meets hsteady hrun
  have hshows := h.shows hsettled hmain ha hb
  obtain ⟨hnone, hline⟩ | ⟨x, hx, hline⟩ := line_cases h.screened.coherent h.screened.single
  · rw [hline] at hshows
    rw [hnone]
    cases hu : a.callState with
    | idle => simp
    | _ =>
      rw [hu] at hshows
      exact hshows.elim
  · rw [hline] at hshows
    have hproper : x.proper = true := h.screened.proper x (by rw [hx]; exact List.mem_singleton_self x)
    rw [hx]
    simp only [List.mem_singleton, exists_eq_left]
    by_cases hes : x.state = .established
    · rw [show x.line = .talking x.id x.peerUri x.outgoing by unfold Call.line; rw [hes]] at hshows
      cases hu : a.callState with
      | active muted => simp [hes]
      | _ =>
        rw [hu] at hshows
        exact hshows.elim
    · have hout := x.outgoing_iff hproper hes
      by_cases hin : x.state = .incoming
      · rw [show x.line = .ringing x.id x.peerUri x.answered by unfold Call.line; rw [hin]] at hshows
        cases hu : a.callState with
        | incoming number =>
          rw [hu] at hshows
          have hnumber : number = displayNumber (callerNumber (bounded 256 x.peerUri)) := hshows
          rw [hnumber, hout]
          simp [hin, eq_comm]
        | _ =>
          rw [hu] at hshows
          exact hshows.elim
      · have hdialing : x.line = .dialing x.id x.peerUri := by
          unfold Call.line
          split
          · exact absurd (by assumption) hes
          · exact absurd (by assumption) hin
          · rfl
        rw [hdialing] at hshows
        cases hu : a.callState with
        | outgoing number =>
          rw [hout]
          simp [hin, hes]
        | _ =>
          rw [hu] at hshows
          exact hshows.elim

/-- The user opens the app and dials 204, and the other side picks up. -/
theorem screen_agrees_with_call_dialled : ∃ p a,
    machine.run (Phone.initial (nativeInit .sample) .sample) (started.map .service ++
      [.message, .message, .message, .intent .launcher, .serviceConnected, .resume,
        .key (.digit 50), .key (.digit 48), .key (.digit 52), .key .call, .service .take,
        .service .op, .service (.native (.work .ok)), .service (.native (.connect .connected)),
        .service (.native (.event (.established 0))), .message, .message]) = some p ∧
    p.activity = some a ∧ ∃ muted, a.callState = .active muted := by
  refine ⟨_, _, rfl, rfl, ?_⟩
  have h := screen_agrees_with_call (nativeInit .sample) .sample (started.map .service ++
      [.message, .message, .message, .intent .launcher, .serviceConnected, .resume,
        .key (.digit 50), .key (.digit 48), .key (.digit 52), .key .call, .service .take,
        .service .op, .service (.native (.work .ok)), .service (.native (.connect .connected)),
        .service (.native (.event (.established 0))), .message, .message]) _ _ (by decide) rfl
    ⟨rfl, rfl, rfl, rfl⟩ rfl rfl rfl
  exact h.2.2.2.mpr ⟨_, List.mem_singleton.mpr rfl, rfl⟩

/-- An intent that is handed over after its call has ended shows a call that is not there, until
`onResume` asks; a poll makes a call that rings look established, and hides a dial that is in
flight. -/
theorem screen_strays : (∃ as p a,
      machine.run (Phone.initial (nativeInit .sample) .sample) (started.map .service ++ as) = some p ∧
      p.service.Settled ∧ p.service.main = [] ∧ p.activity = some a ∧ a.bound = true ∧
      a.callState = .incoming (utf8 "203") ∧ p.service.native.calls = []) ∧
    (∃ as p a,
      machine.run (Phone.initial (nativeInit .sample) .sample) (started.map .service ++ as) = some p ∧
      p.service.Settled ∧ p.service.main = [] ∧ p.activity = some a ∧ a.bound = true ∧
      a.callState = .active false ∧
      p.service.native.line = .ringing 0 (utf8 "sip:203@192.0.2.1") false) ∧
    ∃ as p a,
      machine.run (Phone.initial (nativeInit .sample) .sample) (started.map .service ++ as) = some p ∧
      p.service.Settled ∧ p.service.main = [] ∧ p.activity = some a ∧ a.bound = true ∧
      a.callState = .idle ∧
      p.service.native.line = .dialing 0 (utf8 "sip:204@192.0.2.1:5060") := by
  refine ⟨?_, ?_, ?_⟩
  · refine ⟨[.message, .message, .message, .intent .launcher, .serviceConnected,
      .service (.native (.event (.invite (utf8 "sip:203@192.0.2.1") none .ringing))),
      .message, .message, .service (.native (.event (.closed 0 []))), .message, .message,
      .intent .service], _, _, rfl, ⟨rfl, rfl, rfl, rfl⟩, rfl, rfl, rfl, ?_⟩
    decide
  · refine ⟨[.message, .message, .message,
      .service (.native (.event (.invite (utf8 "sip:203@192.0.2.1") none .ringing))),
      .message, .message, .intent .launcher, .serviceConnected], _, _, rfl, ⟨rfl, rfl, rfl, rfl⟩,
      rfl, rfl, rfl, ?_⟩
    decide
  · refine ⟨[.message, .message, .message, .intent .launcher, .serviceConnected,
      .key (.digit 50), .key (.digit 48), .key (.digit 52), .key .call, .resume, .service .take,
      .service .op, .service (.native (.work .ok)), .service (.native (.connect .connected))],
      _, _, rfl, ⟨rfl, rfl, rfl, rfl⟩, rfl, rfl, rfl, ?_⟩
    decide

end SimplePhone.App
