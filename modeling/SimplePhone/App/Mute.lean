import SimplePhone.App.Display
import SimplePhone.Service.Muting

/-! The mute that the screen shows and the microphone: a key changes the first at once and
the second through two queues, and a screen that is set up anew takes it to be on. -/
namespace SimplePhone.App

open Service Native Transition

/-! ### Indication and microphone -/

/-- What a bound activity will show once it has heard the notices that wait. -/
def Phone.future (p : Phone) : Option CallState :=
  p.shown.map fun u => (told p.service).foldl CallState.after u

/-- The microphone of the current call once the mutes on their way have arrived. -/
def sound (s : State) : Option Bool := s.native.voice.map fun b => (mutes s).getLast?.getD b

/-- It goes with the indication, or the call is about to be hung up. -/
def Indicates (s : State) (muted : Bool) : Prop :=
  s.native.gCall ≠ none ∧ .hang ∈ pipeline s ∨ sound s = some muted

/-- With all queues empty a bound activity says whether the current call is muted. -/
def MuteShown (p : Phone) : Prop :=
  p.service.Settled → p.service.main = [] → ∀ a ∈ p.activity, a.bound = true →
    ∀ muted, a.callState = .active muted → p.service.native.voice = some muted

def Key.togglesMute : Key → Bool
  | .softKey2 | .actionMute => true
  | _ => false

/-- The steps after which the indication still goes with the microphone. -/
def Tuned (p : Phone) : Action → Prop
  | .service (.native (.event (.established c))) =>
      p.shown ≠ none → p.service.gCallback = true →
        ∀ x ∈ p.service.native.find c, (mutes p.service).getLast?.getD x.muted = false
  | .service (.native (.work _)) =>
      match p.service.native.next with
      | some (.reregister _) => p.future.all fun u => !u.isInCall
      | _ => True
  | .service (.request .shutdown) => p.future.all fun u => !u.isInCall
  | .serviceConnected =>
      (told p.service).getLast? = some .onCallStarted ∨
        told p.service = [] ∧ inCall p.service = true →
      p.service.gCallback = true ∧ Indicates p.service false
  | .resume => told p.service = [] → inCall p.service = true →
      ∀ a ∈ p.activity, a.callState = .idle → Indicates p.service false
  | .key k => k.togglesMute = true → told p.service ≠ [] → p.future = some (.active false) →
      ∀ a ∈ p.activity, a.callState = .active false →
        p.service.native.gCall ≠ none ∧ .hang ∈ pipeline p.service
  | _ => True

instance (s : State) (muted : Bool) : Decidable (Indicates s muted) :=
  inferInstanceAs (Decidable (_ ∨ _))

instance (p : Phone) (a : Action) : Decidable (Tuned p a) := by
  unfold Tuned
  exact match a with
    | .service (.native (.event (.established _))) => inferInstance
    | .service (.native (.work _)) =>
        match p.service.native.next with
        | some (.reregister _) => inferInstance
        | none | some .register | some .unregister | some (.makecall _) | some .answer
        | some .endcall | some .timeoutHangup | some (.dtmf _) | some (.mute _) => inferInstance
    | .service (.request .shutdown) | .serviceConnected | .resume => inferInstance
    | .key _ => @instDecidableForall _ _ inferInstance inferInstance
    | .service (.native (.event (.registerOk _))) | .service (.native (.event (.registerFail _)))
    | .service (.native (.event (.invite _ _ _))) | .service (.native (.event (.progress _ _)))
    | .service (.native (.event (.closed _ _))) | .service (.native (.event (.audioError _ _)))
    | .service (.native (.event (.other _ _ _))) | .service (.native (.post _))
    | .service (.native (.connect _)) | .service (.watchdog _) | .service .take | .service .op
    | .service .message | .service .ringTimeout | .service (.request (.makeCall _))
    | .service (.request .answerCall) | .service (.request .endCall)
    | .service (.request (.sendDtmf _)) | .service (.request (.setMute _))
    | .service (.request .screenOff) | .service (.request (.saveAndApply _))
    | .service (.request .networkLost) | .service (.request .networkAvailable)
    | .service (.request .legacyConnected) | .service (.request .startCommand)
    | .service (.request .destroy) | .message | .intent _ | .recreate | .destroyActivity =>
        inferInstance

/-- The invariant. -/
structure Voiced (p : Phone) : Prop where
  coherent : Coherent p.service.native
  ready : Ready p.service
  alive : p.shown ≠ none → p.service.alive = true
  fresh : ∀ a ∈ p.activity, a.bound = false → a.callState.isInCall = false
  voice : ∀ muted, p.future = some (.active muted) →
    p.service.gCallback = true ∧ Indicates p.service muted

variable {s t : State} {p : Phone} {muted : Bool}

theorem voiced_initial (account : Buffers) (config : SipConfig) :
    Voiced (Phone.initial account config) where
  coherent := coherent_initial account
  ready := ready_initial account config
  alive := fun h => absurd rfl h
  fresh := fun _ h => nomatch h
  voice := fun _ h => nomatch h

theorem Indicates.called (h : Indicates s muted) : s.native.gCall ≠ none := by
  obtain ⟨hcall, -⟩ | hsound := h
  · exact hcall
  · intro hcall
    simp [sound, Globals.voice, Globals.current, hcall] at hsound

/-! ### What the notices leave on the screen -/

/-- A notice about a call shows a call as active only if it has started. -/
theorem after_active {n : Notice} (hn : n ∈ told s) {u : CallState}
    (h : u.after n = .active muted) : n = .onCallStarted ∧ muted = false := by
  rw [after_told hn] at h
  cases n with
  | onCallStarted => exact ⟨rfl, (CallState.active.inj h).symm⟩
  | onStatus _ | onDebug _ | onIncomingCall _ | onCallEnded | onCallFailed _ => cases h

theorem foldl_after_active {ns : List Notice} {n : Notice} (hlast : ns.getLast? = some n)
    (hns : ∀ m ∈ ns, m ∈ told s) {u : CallState}
    (h : ns.foldl CallState.after u = .active muted) : n = .onCallStarted ∧ muted = false := by
  obtain ⟨pre, rfl⟩ := List.getLast?_eq_some_iff.mp hlast
  rw [List.foldl_append] at h
  exact after_active (hns n (List.mem_append_right _ List.mem_cons_self)) h

/-- Where notices wait, they alone decide. -/
theorem future_told (hne : told s ≠ []) (u u' : CallState) :
    (told s).foldl CallState.after u = (told s).foldl CallState.after u' := by
  cases hl : told s with
  | nil => exact absurd hl hne
  | cons n ns =>
    have hn : n ∈ told s := hl ▸ List.mem_cons_self
    rw [List.foldl_cons, List.foldl_cons, after_told hn u, after_told hn u']

/-! ### Steps of the event loop -/

/-- Only a confirmation is reported as a start. -/
theorem started_only {g g' : Globals} {b : Native.Action} (hco : Coherent g)
    (hstep : Native.step g b = some g') {d : Delivery} (hd : d ∈ g'.news)
    (hcb : d.callback = .onCallStarted) : ∃ c, b = .event (.established c) := by
  have hno {l : List Delivery} (hnews : g'.news = l) (hl : ∀ x ∈ l, x.callback ≠ .onCallStarted) :
      ∃ c, b = .event (.established c) :=
    absurd hcb (hl d (hnews ▸ hd))
  cases step_effect hco hstep with
  | quiet ha hcall hin hlive hnext hnews =>
    apply hno hnews
    split <;> simp
  | established => exact ⟨_, rfl⟩
  | incoming hidle hcall hin hlive hnext hnews => exact hno hnews (by simp)
  | outgoing hdial hcall hin hlive hnext hnews => exact hno hnews (by simp)
  | dropped hdial hcall hin hlive hnext hnews => exact hno hnews (by simp)
  | closed hc hcall hin hlive hnext hnews =>
    apply hno hnews
    split <;> simp
  | hungUp hw hangs hc hcall hin hlive hnext hnews => exact hno hnews (by simp)
  | audioError hc hcall hin hlive hnext hnews =>
    apply hno hnews
    split <;> simp
  | turnedAway hresult hcall hin hlive hnext hnews =>
    apply hno hnews
    split <;> simp
  | replaced hresult hr hcall hin hlive hnext hnews =>
    apply hno hnews
    split <;> split <;> simp
  | reregistered hw hcall hin hlive hnext hnews => exact hno hnews (by simp)

theorem getLast?_getD_append (o : Option Bool) (l : List Bool) (b : Bool) :
    (o.toList ++ l).getLast?.getD b = l.getLast?.getD (o.getD b) := by
  cases o with
  | none => rfl
  | some a =>
    cases l with
    | nil => rfl
    | cons x l => simp [List.getLast?_cons]

/-- A hangup for a call is not done with before it has ended the call. -/
theorem hang_native {b : Native.Action} (hq : b.quiet s.native = true)
    (hcall : s.native.gCall ≠ none) (hhang : .hang ∈ pipeline s)
    (hstep : Service.step s (.native b) = some t) : .hang ∈ pipeline t := by
  obtain ⟨g, hg, -, hs, ht⟩ := pipeline_native hstep
  rw [hs] at hhang
  rw [ht]
  obtain hin | hexec := List.mem_append.mp hhang
  · apply List.mem_append_left
    cases b with
    | event e =>
      rw [nativePipeline_event hg]
      exact hin
    | post w => exact absurd rfl ((step_native.mp hstep).1 w)
    | connect result =>
      obtain ⟨uri, -, heq⟩ := nativePipeline_connect hg
      rw [heq] at hin
      exact (List.mem_cons.mp hin).resolve_left nofun
    | work lib =>
      obtain ⟨w, hnext, ⟨heq, -⟩ | ⟨uri, -, -, heq, -⟩⟩ := nativePipeline_work hg
      · rw [heq] at hin
        refine (List.mem_append.mp hin).resolve_left fun hw => ?_
        cases w with
        | endcall =>
          have hidle : s.native.gCall.isNone = true := by
            simpa [Action.quiet, hnext, Work.hangsUp] using hq
          exact hcall (Option.isNone_iff_eq_none.mp hidle)
        | makecall _ | reregister _ => simp [workErrand] at hw
        | _ => cases hw
      · rw [heq]
        exact hin
  · exact List.mem_append_right _ hexec

/-- As long as nothing is reported, the current call keeps its microphone. -/
theorem Indicates.native (h : Indicates s muted) (hco : Coherent s.native) {b : Native.Action}
    (hre : ∀ aor, s.native.next = some (.reregister aor) → ∀ lib, b ≠ .work lib)
    (hstep : Service.step s (.native b) = some t) (hnews : t.native.news = []) :
    Indicates t muted := by
  have hbusy := h.called
  have hg := native_of_step hstep
  have hmutes := mutes_native hstep
  cases step_effect hco hg with
  | quiet ha hcall =>
    obtain ⟨hc, hhang⟩ | hsound := h
    · exact .inl ⟨hcall ▸ hc, hang_native ha hc hhang hstep⟩
    · refine .inr ?_
      rw [← hsound]
      unfold sound
      rw [voice_quiet hco ha hg, hmutes, Option.map_map]
      congr 1
      funext x
      exact (getLast?_getD_append _ _ x).symm
  | outgoing hdial => exact absurd (hco.dialing hdial).1 hbusy
  | reregistered hw => exact absurd rfl (hre _ hw _)
  | established _ _ _ _ _ _ hloud => simp [hloud] at hnews
  | incoming _ _ _ _ _ hloud => simp [hloud] at hnews
  | dropped _ _ _ _ _ hloud => simp [hloud] at hnews
  | closed _ _ _ _ _ hloud => simp [hloud, hbusy] at hnews
  | hungUp _ _ _ _ _ _ _ hloud => simp [hloud] at hnews
  | audioError _ _ _ _ _ hloud => simp [hloud] at hnews
  | turnedAway _ _ _ _ _ hloud => simp [hloud, hbusy] at hnews
  | replaced _ _ _ _ _ _ hloud => simp [hloud, hbusy] at hnews

/-- A call that is confirmed begins with its microphone on. -/
theorem sound_established {c : CallId} (hco : Coherent s.native)
    (hstep : Service.step s (.native (.event (.established c))) = some t)
    (hon : ∀ x ∈ s.native.find c, (mutes s).getLast?.getD x.muted = false) :
    sound t = some false := by
  have hg := native_of_step hstep
  have hmutes := mutes_native hstep
  rw [show Native.Action.mutes s.native (.event (.established c)) = none from rfl,
    Option.toList_none, List.nil_append] at hmutes
  cases step_effect hco hg with
  | quiet ha => cases ha
  | established hc hconf hcall hin hlive hnext hnews hua hfind =>
    obtain ⟨x, -, hx, -⟩ := Globals.exists_find hc
    unfold sound Globals.voice Globals.current
    rw [hcall, Option.bind_some, hfind, hx, ← hmutes]
    exact congrArg some (hon x hx)

/-! ### Steps beside the event loop -/

theorem hang_beside {a : Service.Action} (ha : ∀ b, a ≠ .native b) (hd : a ≠ .request .destroy)
    (htake : a = .take → s.sipManager = true) (hstep : Service.step s a = some t)
    (hhang : .hang ∈ pipeline s) : .hang ∈ pipeline t := by
  cases a with
  | native b => exact absurd rfl (ha b)
  | watchdog silent =>
    rw [pipeline_watchdog hstep]
    exact hhang
  | take =>
    obtain ⟨task, rest, -, -, rfl, heq | ⟨hdropped, heq⟩⟩ := pipeline_take hstep
    · rw [heq]
      exact hhang
    · rw [heq] at hhang
      obtain hnative | hexec := List.mem_append.mp hhang
      · exact List.mem_append_left _ hnative
      · refine List.mem_append_right _ ((List.mem_append.mp hexec).resolve_left fun hmem => ?_)
        cases task with
        | endCall => simp [State.taskOps, htake rfl] at hdropped
        | applySettings accountChanged => cases accountChanged <;> simp [taskErrand] at hmem
        | makeCall _ | reregisterIfReady => simp [taskErrand] at hmem
        | _ => cases hmem
  | op =>
    obtain ⟨op, rest, hops, rfl, ⟨heq, -⟩ | ⟨number, rfl, heq⟩⟩ := pipeline_op hstep
    · rw [heq]
      exact hhang
    · rw [heq] at hhang
      obtain hnative | hexec := List.mem_append.mp hhang
      · exact List.mem_append_left _ hnative
      · refine List.mem_append_right _ ((List.mem_cons.mp hexec).resolve_left ?_)
        intro hdial
        cases hdial
  | message =>
    rw [pipeline_message hstep]
    exact hhang
  | ringTimeout =>
    rw [pipeline_ringTimeout hstep]
    exact List.mem_append_left _ hhang
  | request r =>
    rw [pipeline_request (fun hr => hd (hr ▸ rfl)) hstep]
    exact List.mem_append_left _ hhang

theorem Indicates.beside (h : Indicates s muted) {a : Service.Action} (ha : ∀ b, a ≠ .native b)
    (hd : a ≠ .request .destroy) (htake : a = .take → s.sipManager = true)
    (hstep : Service.step s a = some t) : Indicates t (a.asksMute.getD muted) := by
  obtain ⟨hcalls, hcall, -⟩ := line_step_other ha hstep
  obtain ⟨hc, hhang⟩ | hsound := h
  · exact .inl ⟨hcall ▸ hc, hang_beside ha hd htake hstep hhang⟩
  · refine .inr ?_
    have hvoice : t.native.voice = s.native.voice :=
      congrArg (Option.map Call.muted) (current_congr hcalls hcall)
    unfold sound at hsound ⊢
    rw [hvoice, mutes_beside ha hd htake hstep]
    cases a.asksMute with
    | none =>
      rw [Option.toList_none, List.append_nil]
      exact hsound
    | some mute =>
      obtain ⟨x, hx, -⟩ := Option.map_eq_some_iff.mp hsound
      rw [hx]
      simp

theorem gCallback_beside {a : Service.Action} (ha : ∀ b, a ≠ .native b)
    (hd : a ≠ .request .destroy) (hs : a ≠ .request .shutdown)
    (hstep : Service.step s a = some t) (hcb : s.gCallback = true) : t.gCallback = true := by
  cases a with
  | native b => exact absurd rfl (ha b)
  | watchdog silent =>
    obtain ⟨-, rfl | rfl | ⟨-, rfl⟩⟩ := step_watchdog hstep <;> exact hcb
  | take =>
    obtain ⟨task, rest, -, -, rfl⟩ := step_take.mp hstep
    exact hcb
  | op =>
    obtain ⟨op, rest, -, rfl⟩ := step_op.mp hstep
    cases op with
    | nativeSetCallback => rfl
    | _ => exact hcb
  | message =>
    obtain ⟨m, rest, -, rfl⟩ := step_message.mp hstep
    cases m <;> exact hcb
  | ringTimeout =>
    obtain ⟨-, -, rfl⟩ := step_ringTimeout.mp hstep
    unfold State.onRingTimeout
    split <;> exact hcb
  | request r =>
    obtain ⟨-, rfl⟩ := step_request.mp hstep
    cases r with
    | shutdown => exact absurd rfl hs
    | destroy => exact absurd rfl hd
    | screenOff | networkAvailable | startCommand =>
      simp only [Request.run, Service.networkAvailable]
      split <;> exact hcb
    | _ => exact hcb

/-! ### Steps of the phone -/

theorem notices_isCall {c : Callback} (hc : c.isCall = true) :
    ∃ n, notices c = [n] ∧ (n = .onCallStarted → c = .onCallStarted) := by
  cases c with
  | onIncomingCall _ => exact ⟨_, rfl, nofun⟩
  | onCallStarted => exact ⟨_, rfl, fun _ => rfl⟩
  | onCallEnded => exact ⟨_, rfl, nofun⟩
  | onCallFailed _ => exact ⟨_, rfl, nofun⟩
  | _ => cases hc

/-- If news make the screen active, a call has started. -/
theorem started_of_news {g : Globals} {ns : List Notice} (hne : g.news ≠ [])
    (htold : told t = ns ++ g.news.flatMap fun d => notices d.callback) {u : CallState}
    (hu : (told t).foldl CallState.after u = .active muted) :
    muted = false ∧ ∃ d ∈ g.news, d.callback = .onCallStarted := by
  obtain ⟨d, hd⟩ := List.getLast?_isSome.mpr hne |> Option.isSome_iff_exists.mp
  obtain ⟨pre, hpre⟩ := List.getLast?_eq_some_iff.mp hd
  have hmem : d ∈ g.news := List.mem_of_getLast? hd
  obtain ⟨n, hn, hback⟩ := notices_isCall (List.mem_filter.mp hmem).2
  have hlast : (told t).getLast? = some n := by
    rw [htold, hpre, List.flatMap_append, List.flatMap_singleton, hn, ← List.append_assoc]
    exact List.getLast?_concat
  obtain ⟨hstarted, hoff⟩ := foldl_after_active hlast (fun m hm => hm) hu
  exact ⟨hoff, d, hmem, hback hstarted⟩

theorem Voiced.native (h : Voiced p) {b : Native.Action} (htuned : Tuned p (.service (.native b)))
    (hstep : Service.step p.service (.native b) = some t) : Voiced { p with service := t } := by
  have hg := native_of_step hstep
  have hcb : t.gCallback = p.service.gCallback := by
    obtain ⟨-, g, -, rfl⟩ := step_native.mp hstep
    exact callbacks_gCallback _ _
  have halive : t.alive = p.service.alive := alive_step (by simp) hstep
  refine ⟨h.coherent.step hg, h.ready.step hstep, fun hne => halive.trans (h.alive hne), h.fresh, ?_⟩
  intro muted hfuture
  obtain ⟨u, hshown, hu⟩ := Option.map_eq_some_iff.mp hfuture
  change p.shown = some u at hshown
  have htold := told_native hstep
  have hsame (hold : told t = told p.service) : p.future = some (.active muted) := by
    unfold Phone.future
    rw [hshown, ← hold]
    exact congrArg some hu
  by_cases hheard : p.service.gCallback = true
  · rw [if_pos hheard] at htold
    by_cases hnews : t.native.news = []
    · rw [hnews, List.flatMap_nil, List.append_nil] at htold
      have hbefore := hsame htold
      refine ⟨hcb.trans hheard, (h.voice muted hbefore).2.native h.coherent ?_ hstep hnews⟩
      rintro aor hnext lib rfl
      simp [Tuned, hnext, hbefore, CallState.isInCall] at htuned
    · obtain ⟨rfl, d, hd, hstarted⟩ := started_of_news hnews htold hu
      obtain ⟨c, rfl⟩ := started_only h.coherent hg hd hstarted
      refine ⟨hcb.trans hheard, .inr (sound_established h.coherent hstep ?_)⟩
      exact htuned (by rw [hshown]; exact Option.some_ne_none u) hheard
  · rw [if_neg hheard] at htold
    exact absurd (h.voice muted (hsame htold)).1 hheard

theorem Voiced.takes (h : Voiced p) {a : Service.Action} (hcb : p.service.gCallback = true)
    (hstep : Service.step p.service a = some t) : a = .take → p.service.sipManager = true := by
  rintro rfl
  obtain ⟨task, rest, hops, -⟩ := step_take.mp hstep
  exact (h.ready.idle hops).symm.trans hcb

/-- A step of the service that mutes nothing. -/
theorem Voiced.beside (h : Voiced p) {a : Service.Action} (ha : ∀ b, a ≠ .native b)
    (hmessage : a ≠ .message) (hout : outside p a = true) (htuned : Tuned p (.service a))
    (hstep : Service.step p.service a = some t) : Voiced { p with service := t } := by
  have hmute : a.asksMute = none := by
    cases a with
    | request r =>
      cases r with
      | setMute mute => cases hout
      | _ => rfl
    | _ => rfl
  have hdestroy (hne : p.shown ≠ none) : a ≠ .request .destroy := by
    rintro rfl
    apply hne
    cases ha : p.activity with
    | none => exact shown_none ha
    | some a =>
      unfold outside at hout
      rw [ha, Option.any_some] at hout
      exact shown_unbound ha ((Bool.not_eq_true' _).mp hout)
  refine ⟨coherent_step h.coherent hstep, h.ready.step hstep, ?_, h.fresh, ?_⟩
  · exact fun hne => (alive_step (hdestroy hne) hstep).trans (h.alive hne)
  · intro muted hfuture
    obtain ⟨u, hshown, hu⟩ := Option.map_eq_some_iff.mp hfuture
    change p.shown = some u at hshown
    have hd := hdestroy (by rw [hshown]; exact Option.some_ne_none u)
    obtain hsame | ⟨-, reason, hmore⟩ := told_beside ha hmessage hstep
    · have hbefore : p.future = some (.active muted) := by
        unfold Phone.future
        rw [hshown, ← hsame]
        exact congrArg some hu
      obtain ⟨hcb, hind⟩ := h.voice muted hbefore
      have hs : a ≠ .request .shutdown := by
        rintro rfl
        simp [Tuned, hbefore, CallState.isInCall] at htuned
      have hind' := hind.beside ha hd (h.takes hcb hstep) hstep
      rw [hmute] at hind'
      exact ⟨gCallback_beside ha hd hs hstep hcb, hind'⟩
    · rw [hmore, List.foldl_append] at hu
      cases hu

theorem Voiced.message (h : Voiced p) {r : Phone × List HistoryEntry}
    (hreact : react p .message = some r) : Voiced r.1 := by
  obtain ⟨m, rest, t, hmain, hstep, hr⟩ := react_message hreact
  have htold := told_message hmain hstep
  have halive : t.alive = p.service.alive := alive_step (by simp) hstep
  have hcoherent := coherent_step h.coherent hstep
  have hready := h.ready.step hstep
  have hkeep {muted : Bool} (hbefore : p.future = some (.active muted)) :
      t.gCallback = true ∧ Indicates t muted := by
    obtain ⟨hcb, hind⟩ := h.voice muted hbefore
    exact ⟨gCallback_beside (by simp) (by simp) (by simp) hstep hcb,
      hind.beside (by simp) (by simp) (by simp) hstep⟩
  obtain ⟨n, a, rfl, ha, hb, rfl⟩ | ⟨hdeaf, rfl⟩ := hr
  · have hshown := shown_bound ha hb
    have hshown' : Phone.shown { p with service := t, activity := some (a.hear n).1 } =
        some (a.callState.after n) := by
      rw [shown_bound rfl (by rw [hear_bound, hb]), hear_callState]
    refine ⟨hcoherent, hready, fun _ => ?_, ?_, ?_⟩
    · exact halive.trans (h.alive (by rw [hshown]; simp))
    · rintro a' ⟨⟩ hunbound
      rw [hear_bound, hb] at hunbound
      cases hunbound
    · intro muted hfuture
      apply hkeep
      unfold Phone.future at hfuture ⊢
      rw [hshown'] at hfuture
      rw [hshown, htold, Option.map_some, List.foldl_append, ← hfuture]
      cases hn : callNotice (.notify n) with
      | none =>
        rw [show a.callState.after n = a.callState from afterMessage_silent hn a.callState]
        rfl
      | some n' =>
        obtain rfl := Message.notify.inj (callNotice_some hn)
        rfl
  · refine ⟨hcoherent, hready, fun hne => halive.trans (h.alive hne), h.fresh, ?_⟩
    intro muted hfuture
    apply hkeep
    obtain ⟨u, hshown, hu⟩ := Option.map_eq_some_iff.mp hfuture
    change p.shown = some u at hshown
    have hsilent : callNotice m = none := by
      cases hm : callNotice m with
      | none => rfl
      | some n =>
        obtain rfl := callNotice_some hm
        unfold Phone.shown at hshown
        split at hshown
        · rename_i a ha
          rw [hdeaf n a rfl ha] at hshown
          cases hshown
        · cases hshown
    unfold Phone.future
    rw [hshown, htold, hsilent]
    exact congrArg some hu

/-- An intent shows a call that rings, or nothing new. -/
theorem Voiced.start (h : Voiced p) (caller : Option Str) : Voiced (startActivity caller p) := by
  have hbound := handleIncomingCallIntent_bound caller (p.activity.getD .created)
  have hstate := handleIncomingCallIntent_callState caller (p.activity.getD .created)
  cases ha : p.activity with
  | none =>
    rw [ha] at hbound
    have hshown : (startActivity caller p).shown = none :=
      shown_unbound (a := (p.activity.getD .created).handleIncomingCallIntent caller) rfl
        (by rw [ha]; exact hbound)
    refine ⟨h.coherent, h.ready, fun hne => absurd hshown hne, ?_, ?_⟩
    · rintro a' ⟨⟩ -
      apply handleIncomingCallIntent_fresh
      rw [ha]
      rfl
    · intro muted hfuture
      unfold Phone.future at hfuture
      rw [hshown] at hfuture
      cases hfuture
  | some a =>
    rw [ha] at hbound hstate
    simp only [Option.getD_some] at hbound hstate
    have hactivity : (startActivity caller p).activity =
        some (a.handleIncomingCallIntent caller) := by
      simp [startActivity, ha]
    cases hb : a.bound with
    | false =>
      rw [hb] at hbound
      have hshown := shown_unbound hactivity hbound
      refine ⟨h.coherent, h.ready, fun hne => absurd hshown hne, ?_, ?_⟩
      · intro a' ha' _
        obtain rfl := Option.some.inj (hactivity.symm.trans ha')
        exact handleIncomingCallIntent_fresh (h.fresh a ha hb)
      · intro muted hfuture
        unfold Phone.future at hfuture
        rw [hshown] at hfuture
        cases hfuture
    | true =>
      rw [hb] at hbound
      refine ⟨h.coherent, h.ready, fun _ => ?_, ?_, ?_⟩
      · exact h.alive (by rw [shown_bound ha hb]; simp)
      · intro a' ha' hunbound
        obtain rfl := Option.some.inj (hactivity.symm.trans ha')
        rw [hbound] at hunbound
        cases hunbound
      · intro muted hfuture
        apply h.voice muted
        unfold Phone.future at hfuture ⊢
        rw [shown_bound hactivity hbound] at hfuture
        rw [shown_bound ha hb, ← hfuture]
        change some ((told p.service).foldl CallState.after a.callState) =
          some ((told p.service).foldl CallState.after (a.handleIncomingCallIntent caller).callState)
        obtain hsame | ⟨callerNumber, -, -, hnew⟩ := hstate
        · rw [hsame]
        · by_cases hnone : told p.service = []
          · change some ((told p.service).foldl CallState.after _) = _ at hfuture
            rw [hnone, hnew] at hfuture
            cases hfuture
          · rw [future_told hnone]

theorem Voiced.intent (h : Voiced p) {source : Source} {r : State × Option Str}
    (hr : takeIntent p.service source = some r) :
    Voiced (startActivity r.2 { p with service := r.1 }) := by
  apply Voiced.start
  obtain hsame | ⟨rest, hrest⟩ := takeIntent_service hr
  · rw [hsame]
    exact h
  · rw [hrest]
    exact ⟨h.coherent, h.ready.congr rfl rfl rfl, h.alive, h.fresh, h.voice⟩

theorem Voiced.sync (h : Voiced p) {a : Activity} (halive : p.service.alive = true)
    (hvoice : ∀ muted, (told p.service).foldl CallState.after
        (a.syncCallState (inCall p.service)).callState = .active muted →
      p.service.gCallback = true ∧ Indicates p.service muted) (hb : a.bound = true) :
    Voiced { p with activity := some (a.syncCallState (inCall p.service)) } := by
  have hbound : (a.syncCallState (inCall p.service)).bound = true :=
    (syncCallState_bound _ _).trans hb
  refine ⟨h.coherent, h.ready, fun _ => halive, ?_, ?_⟩
  · rintro a' ⟨⟩ hunbound
    rw [hbound] at hunbound
    cases hunbound
  · intro muted hfuture
    apply hvoice
    unfold Phone.future at hfuture
    rw [shown_bound rfl hbound] at hfuture
    exact Option.some.inj hfuture

theorem Voiced.resume (h : Voiced p) (htuned : Tuned p .resume) {a : Activity}
    (ha : p.activity = some a) (hb : a.bound = true) :
    Voiced { p with activity := some (a.syncCallState (inCall p.service)) } := by
  have hshown := shown_bound ha hb
  have halive := h.alive (by rw [hshown]; simp)
  refine h.sync halive (fun muted hu => ?_) hb
  have hkeep (hold : (told p.service).foldl CallState.after a.callState = .active muted) :
      p.service.gCallback = true ∧ Indicates p.service muted := by
    apply h.voice muted
    unfold Phone.future
    rw [hshown]
    exact congrArg some hold
  by_cases hnone : told p.service = []
  · rw [hnone] at hu
    change (a.syncCallState (inCall p.service)).callState = .active muted at hu
    cases hpoll : inCall p.service with
    | false =>
      rw [hpoll, syncCallState_false] at hu
      cases hu
    | true =>
      rw [hpoll, syncCallState_true] at hu
      split at hu
      · rename_i hidle
        cases hu
        have hready : p.service.sipManager = true := (Bool.and_eq_true_iff.mp hpoll).1
        exact ⟨h.ready.callback hready, htuned hnone hpoll a ha hidle⟩
      · apply hkeep
        rw [hnone]
        exact hu
  · exact hkeep ((future_told hnone _ _).trans hu)

theorem Voiced.serviceConnected (h : Voiced p) (htuned : Tuned p .serviceConnected)
    {a : Activity} (ha : p.activity = some a) (hb : a.bound = false)
    (halive : p.service.alive = true) :
    Voiced { p with
      activity := some ({ a with bound := true }.syncCallState (inCall p.service)) } := by
  refine h.sync (a := { a with bound := true }) halive (fun muted hu => ?_) rfl
  have hfresh := h.fresh a ha hb
  cases hlast : (told p.service).getLast? with
  | none =>
    have hnone := List.getLast?_eq_none_iff.mp hlast
    rw [hnone] at hu
    change (Activity.syncCallState (inCall p.service) { a with bound := true }).callState =
      .active muted at hu
    cases hpoll : inCall p.service with
    | false =>
      rw [hpoll, syncCallState_false] at hu
      cases hu
    | true =>
      rw [hpoll, syncCallState_true] at hu
      split at hu
      · cases hu
        exact htuned (.inr ⟨hnone, hpoll⟩)
      · change a.callState = .active muted at hu
        rw [hu] at hfresh
        cases hfresh
  | some n =>
    obtain ⟨rfl, rfl⟩ := foldl_after_active hlast (fun m hm => hm) hu
    exact htuned (.inl hlast)

theorem toggles_of_mute {lastNumber : Str} {a : Activity} {k : Key} {mute : Bool}
    (h : (a.onKeyDown lastNumber k).request = some (.setMute mute)) : k.togglesMute = true := by
  have hdial : a.makeCall.request ≠ some (.setMute mute) := by
    unfold Activity.makeCall
    split <;> exact nofun
  cases k with
  | softKey2 | actionMute => rfl
  | digit d =>
    simp only [Activity.onKeyDown, Activity.appendNumber] at h
    split at h <;> cases h
  | call =>
    simp only [Activity.onKeyDown] at h
    split at h
    · exact absurd h hdial
    all_goals cases h
  | endCall | softKey1 =>
    simp only [Activity.onKeyDown] at h
    split at h <;> cases h
  | actionCall => exact absurd h hdial
  | actionRedial =>
    simp only [Activity.onKeyDown, Activity.redial] at h
    split at h <;> cases h
  | actionClearAll | actionClearOne => cases h

/-- What a bound activity asks of the service by a key. -/
theorem Voiced.pressed (h : Voiced p) {k : Key} (htuned : Tuned p (.key k)) {a : Activity}
    (ha : p.activity = some a) (hb : a.bound = true) {r : Activity.Reaction} (hp : Pressed a k r)
    (htoggles : ∀ mute, r.request = some (.setMute mute) → k.togglesMute = true)
    (hu : (told (ask true r.request p.service)).foldl CallState.after r.activity.callState =
      .active muted) :
    (ask true r.request p.service).gCallback = true ∧
      Indicates (ask true r.request p.service) muted := by
  have hshown := shown_bound ha hb
  have halive := h.alive (by rw [hshown]; simp)
  have hask (request : Request) := step_ask halive request
  have hcurrent (hold : (told p.service).foldl CallState.after a.callState = .active muted) :
      p.service.gCallback = true ∧ Indicates p.service muted := by
    apply h.voice muted
    unfold Phone.future
    rw [hshown]
    exact congrArg some hold
  have hplain (request : Request) (hmute : (Service.Action.request request).asksMute = none)
      (hd : request ≠ .destroy) (hs : request ≠ .shutdown)
      (hold : (told p.service).foldl CallState.after a.callState = .active muted) :
      (ask true (some request) p.service).gCallback = true ∧
        Indicates (ask true (some request) p.service) muted := by
    obtain ⟨hcb, hind⟩ := hcurrent hold
    have hind' := hind.beside (by simp) (by simpa using hd) (by simp) (hask request)
    rw [hmute] at hind'
    exact ⟨gCallback_beside (by simp) (by simpa using hd) (by simpa using hs) (hask request) hcb,
      hind'⟩
  have hold {u : CallState} {request : Request} (hstep : (told (ask true (some request) p.service)).foldl
      CallState.after u = .active muted) : (told p.service).foldl CallState.after u = .active muted := by
    rw [told_request (hask request)] at hstep
    exact hstep
  have hwaits {u : CallState} (hquiet : u.isInCall = false)
      (hstep : (told p.service).foldl CallState.after u = .active muted) :
      (told p.service).foldl CallState.after a.callState = .active muted := by
    by_cases hnone : told p.service = []
    · rw [hnone] at hstep
      change u = _ at hstep
      rw [hstep] at hquiet
      cases hquiet
    · exact (future_told hnone _ _).trans hstep
  cases hp with
  | stay number request hrequest =>
    obtain rfl | rfl | ⟨digit, rfl⟩ := hrequest
    · exact hcurrent hu
    · exact hplain .answerCall rfl (by simp) (by simp) (hold hu)
    · exact hplain (.sendDtmf digit) rfl (by simp) (by simp) (hold hu)
  | dial hk hidle hnumber =>
    exact hplain (.makeCall a.currentNumber) rfl (by simp) (by simp) (hwaits rfl (hold hu))
  | hang hbusy => exact hplain .endCall rfl (by simp) (by simp) (hwaits rfl (hold hu))
  | mute before hactive =>
    have hu := hold hu
    have hstep := hask (.setMute !before)
    have hset {before' : Bool} (hind : p.service.gCallback = true ∧ Indicates p.service before') :
        (ask true (some (.setMute !before)) p.service).gCallback = true ∧
          Indicates (ask true (some (.setMute !before)) p.service) !before :=
      ⟨gCallback_beside (by simp) (by simp) (by simp) hstep hind.1,
        hind.2.beside (by simp) (by simp) (by simp) hstep⟩
    by_cases hnone : told p.service = []
    · rw [hnone] at hu hcurrent
      obtain rfl := CallState.active.inj hu
      apply hset
      apply h.voice before
      unfold Phone.future
      rw [hshown, hnone, hactive]
      rfl
    · have hbefore : p.future = some (.active muted) := by
        unfold Phone.future
        rw [hshown]
        exact congrArg some ((future_told hnone _ _).trans hu)
      obtain ⟨n, hlast⟩ := Option.isSome_iff_exists.mp (List.getLast?_isSome.mpr hnone)
      obtain ⟨-, rfl⟩ := foldl_after_active hlast (fun m hm => hm) hu
      have hind := h.voice false hbefore
      cases before with
      | true => exact hset hind
      | false =>
        obtain ⟨hcall, hhang⟩ := htuned (htoggles _ rfl) hnone hbefore a ha hactive
        obtain ⟨-, hsame, -⟩ := line_step_other (by simp) hstep
        refine ⟨(hset hind).1, .inl ⟨?_, hang_beside (by simp) (by simp) (by simp) hstep hhang⟩⟩
        rw [hsame]
        exact hcall

theorem Voiced.key (h : Voiced p) {k : Key} (htuned : Tuned p (.key k)) {a : Activity}
    (ha : p.activity = some a) (lastNumber : Str) :
    Voiced { p with
      service := ask a.bound (a.onKeyDown p.lastNumber k).request p.service
      activity := some (a.onKeyDown p.lastNumber k).activity
      lastNumber := lastNumber } := by
  have hp := pressed_onKeyDown p.lastNumber a k
  have htoggles (mute : Bool) : (a.onKeyDown p.lastNumber k).request = some (.setMute mute) →
      k.togglesMute = true := toggles_of_mute
  generalize a.onKeyDown p.lastNumber k = r at hp htoggles ⊢
  have hbound := hp.bound
  cases hb : a.bound with
  | false =>
    have hsame : ask false r.request p.service = p.service := by
      unfold ask
      cases r.request <;> rfl
    have hshown : Phone.shown { p with
        service := ask false r.request p.service
        activity := some r.activity
        lastNumber := lastNumber } = none :=
      shown_unbound rfl (hbound.trans hb)
    refine ⟨?_, ?_, fun hne => absurd hshown hne, ?_, ?_⟩
    · change Coherent (ask false r.request p.service).native
      rw [hsame]
      exact h.coherent
    · change Ready (ask false r.request p.service)
      rw [hsame]
      exact h.ready
    · rintro a' ⟨⟩ -
      have hfresh := h.fresh a ha hb
      cases hp with
      | stay number request hrequest => exact hfresh
      | mute before hactive =>
        rw [hactive] at hfresh
        cases hfresh
      | dial hk hidle hnumber => rfl
      | hang hbusy => rfl
    · intro muted hfuture
      unfold Phone.future at hfuture
      rw [hshown] at hfuture
      cases hfuture
  | true =>
    have hshown := shown_bound ha hb
    have halive := h.alive (by rw [hshown]; simp)
    have hrequest (request : Request) (hr : r.request = some request) :
        Service.step p.service (.request request) = some (ask true r.request p.service) ∧
          request ≠ .destroy := by
      rw [hr]
      refine ⟨step_ask halive request, ?_⟩
      rintro rfl
      cases hp with
      | stay number request hrequest => simp at hr; simp [hr] at hrequest
      | _ => cases hr
    refine ⟨?_, ?_, fun _ => ?_, ?_, ?_⟩
    · cases hr : r.request with
      | none => exact h.coherent
      | some request => exact hr ▸ coherent_step h.coherent (hrequest request hr).1
    · cases hr : r.request with
      | none => exact h.ready
      | some request => exact hr ▸ h.ready.step (hrequest request hr).1
    · cases hr : r.request with
      | none => exact halive
      | some request =>
        have hstep := hrequest request hr
        rw [hr] at hstep
        exact (alive_step (by simpa using hstep.2) hstep.1).trans halive
    · rintro a' ⟨⟩ hunbound
      rw [hbound, hb] at hunbound
      cases hunbound
    · intro muted hfuture
      apply h.pressed htuned ha hb hp htoggles
      unfold Phone.future at hfuture
      rw [shown_bound rfl (hbound.trans hb)] at hfuture
      exact Option.some.inj hfuture

theorem Voiced.step (h : Voiced p) {a : Action} (htuned : Tuned p a) {q : Phone}
    (hstep : step p a = some q) : Voiced q := by
  obtain ⟨r, hreact, rfl⟩ := step_eq_some.mp hstep
  suffices hr : Voiced r.1 from ⟨hr.coherent, hr.ready, hr.alive, hr.fresh, hr.voice⟩
  cases a with
  | service a =>
    obtain ⟨hout, t, ht, rfl⟩ := react_service.mp hreact
    by_cases ha : ∃ b, a = .native b
    · obtain ⟨b, rfl⟩ := ha
      exact h.native htuned ht
    · refine h.beside (fun b hb => ha ⟨b, hb⟩) ?_ hout htuned ht
      rintro rfl
      cases hout
  | message => exact h.message hreact
  | intent source =>
    obtain ⟨t, ht, rfl⟩ := react_intent.mp hreact
    exact h.intent ht
  | recreate =>
    obtain ⟨-, rfl⟩ := react_recreate.mp hreact
    exact h.start p.intent
  | destroyActivity =>
    obtain ⟨-, rfl⟩ := react_destroyActivity.mp hreact
    exact ⟨h.coherent, h.ready, fun hne => absurd rfl hne, fun _ ha => (nomatch ha),
      fun _ hfuture => (nomatch hfuture)⟩
  | serviceConnected =>
    obtain ⟨a, ha, hb, halive, rfl⟩ := react_serviceConnected.mp hreact
    exact h.serviceConnected htuned ha hb halive
  | resume =>
    obtain ⟨a, ha, hb, rfl⟩ := react_resume.mp hreact
    exact h.resume htuned ha hb
  | key k =>
    obtain ⟨a, ha, rfl⟩ := react_key.mp hreact
    exact h.key htuned ha _

/-! ### Whole runs -/

theorem Voiced.muteShown (h : Voiced p) : MuteShown p := by
  intro hsettled hmain a ha hb muted hactive
  have htold : told p.service = [] := by
    unfold told
    rw [hmain]
    rfl
  have hfuture : p.future = some (.active muted) := by
    unfold Phone.future
    rw [shown_bound ha hb, htold, hactive]
    rfl
  obtain ⟨-, ⟨-, hhang⟩ | hsound⟩ := h.voice muted hfuture
  · rw [pipeline_of_settled hsettled] at hhang
    cases hhang
  · have hnone : mutes p.service = [] := by
      obtain ⟨hposted, -, hqueue, hops⟩ := hsettled
      simp [mutes, Globals.works, hposted, hqueue, hops]
    unfold sound at hsound
    rw [hnone] at hsound
    simpa using hsound

/-- In a run of tuned steps the indication is right whenever all queues are empty. -/
theorem muteShown_of_tuned {p : Phone} {as : List Action} (hp : machine.start p)
    (h : machine.Meets Tuned p as) : machine.Always MuteShown p as := by
  obtain ⟨account, config, rfl⟩ := hp
  have hvoiced := Machine.always_of_meets (m := machine)
    (fun p a q h htuned hstep => h.step htuned hstep) (voiced_initial account config) h
  exact hvoiced.imp fun p h => h.muteShown

def mutedCall : List Action :=
  answeredCall ++
    [.key .actionMute, .service .take, .service .op, .service (.native (.work .ok))]

theorem muteShown_of_tuned_muted :
    machine.Always MuteShown (Phone.initial (nativeInit .sample) .sample) mutedCall :=
  muteShown_of_tuned ⟨_, _, rfl⟩ (by decide +kernel)

/-- An activity that is created anew during a muted call takes the microphone to be on. -/
theorem mute_strays : ∃ as p,
    machine.run (Phone.initial (nativeInit .sample) .sample) as = some p ∧ ¬ MuteShown p := by
  refine ⟨mutedCall ++ [.destroyActivity, .recreate, .serviceConnected], _, rfl, ?_⟩
  intro h
  have hvoice := h ⟨rfl, rfl, rfl, rfl⟩ rfl _ rfl rfl false rfl
  revert hvoice
  decide

end SimplePhone.App
