import SimplePhone.Service.Frame

/-! The audio mode and `callActive`. Both follow the callbacks; the mode is also
written by the tasks that answer and end a call, on another thread and before the
event loop has done what they ask for. -/
namespace SimplePhone.Service

open Native Transition

structure Sound where
  callActive : Bool
  audioMode : Bool
deriving DecidableEq

def State.sound (s : State) : Sound := ⟨s.callActive, s.audioMode⟩

def Sound.after (b : Sound) : Callback → Sound
  | .onCallStarted => ⟨true, true⟩
  | .onCallEnded | .onCallFailed _ => ⟨false, false⟩
  | _ => b

/-- What the callbacks of a native step leave, if they are heard. -/
def Sound.hear (b : Sound) (heard : Bool) (news : List Delivery) : Sound :=
  if heard then news.foldl (fun b d => b.after d.callback) b else b

/-- How the sound goes with the line, given whether a hangup or an answer is on its
way to the event loop. -/
structure Fits (l : Line) (heard : Bool) (hangupDue answerDue : Prop) (b : Sound) : Prop where
  active : b.callActive = l.isTalking
  heard : b.callActive = true ∨ b.audioMode = true → heard = true
  loud : l.isTalking = true → b.audioMode = true ∨ hangupDue
  soft : b.audioMode = true →
    l.isTalking = true ∨ l.isAnswered = true ∨ l.isRinging = true ∧ answerDue

section
variable {l l' : Line} {d : Drive} {n : List Delivery} {heard : Bool}
  {hangupDue answerDue hangupDue' answerDue' : Prop} {b : Sound}

theorem Fits.silent (h : Fits l heard hangupDue answerDue b) (hidle : l = .idle) :
    b = ⟨false, false⟩ := by
  subst hidle
  cases b with
  | mk active mode =>
    have hactive : active = false := h.active
    have hmode : mode = false := by
      by_contra hmode
      have hsoft := h.soft (by simpa using hmode)
      simp [Line.isTalking, Line.isAnswered, Line.isRinging] at hsoft
    rw [hactive, hmode]

/-- After news of an end there is silence, heard or not. -/
theorem Fits.ended (h : Fits l heard hangupDue answerDue b) {news : List Delivery}
    (hnews : news.foldl (fun b d => b.after d.callback) b = ⟨false, false⟩) :
    b.hear heard news = ⟨false, false⟩ := by
  unfold Sound.hear
  cases hheard : heard with
  | true => exact hnews
  | false =>
    have hdeaf : ¬ (b.callActive = true ∨ b.audioMode = true) := by
      intro hloud
      rw [h.heard hloud] at hheard
      cases hheard
    obtain ⟨hactive, hmode⟩ := not_or.mp hdeaf
    have hsilent : b = ⟨false, false⟩ := by
      cases b
      exact congrArg₂ Sound.mk (Bool.eq_false_iff.mpr hactive) (Bool.eq_false_iff.mpr hmode)
    rw [hsilent]
    rfl

theorem fits_silent (hl : l.isTalking = false) :
    Fits l heard hangupDue answerDue ⟨false, false⟩ := by
  refine ⟨hl.symm, by simp, ?_, by simp⟩
  rw [hl]
  simp

theorem Fits.same (h : Fits l heard hangupDue answerDue b)
    (hhang : l.isTalking = true → hangupDue → hangupDue')
    (hans : l.isRinging = true → answerDue → answerDue') : Fits l heard hangupDue' answerDue' b := by
  refine ⟨h.active, h.heard, ?_, ?_⟩
  · intro htalk
    exact (h.loud htalk).imp id (hhang htalk)
  · intro hmode
    exact (h.soft hmode).imp id fun hring => hring.imp id fun hring => ⟨hring.1, hans hring.1 hring.2⟩

/-- Each move of the telephone is followed by the sound. -/
theorem Fits.move (h : Fits l heard hangupDue answerDue b) (hm : Move l d l' n)
    (hestablished : l'.isTalking = true → l.isTalking = false → heard = true)
    (hre : ∀ aor r, d = .work (.reregister aor) r → l = .idle)
    (hrefused : d = .work .answer .refused → l.isRinging = false)
    (hhang : (∀ r, d ≠ .work .endcall r) → hangupDue → hangupDue')
    (hans : (∀ r, d ≠ .work .answer r) → answerDue → answerDue') :
    Fits l' heard hangupDue' answerDue' (b.hear heard n) := by
  have hquiet : b.hear heard [] = b := by cases heard <;> rfl
  cases hm with
  | stay l d hd =>
    rw [hquiet]
    apply h.same
    · intro _
      apply hhang
      rintro r rfl
      simp at hd
    · intro _
      apply hans
      rintro r rfl
      simp at hd
  | ring n peer =>
    rw [h.silent rfl]
    cases heard <;> exact fits_silent rfl
  | takeover hc n peer =>
    rw [h.ended rfl]
    exact fits_silent rfl
  | picksUp c peer =>
    have hheard := hestablished rfl rfl
    subst hheard
    exact ⟨rfl, fun _ => rfl, fun _ => .inl rfl, fun _ => .inl rfl⟩
  | confirmed c peer =>
    have hheard := hestablished rfl rfl
    subst hheard
    exact ⟨rfl, fun _ => rfl, fun _ => .inl rfl, fun _ => .inl rfl⟩
  | finish hc =>
    rw [h.ended rfl]
    exact fits_silent rfl
  | broken hc reason =>
    rw [h.ended rfl]
    exact fits_silent rfl
  | hangup r hc hw =>
    rw [h.ended rfl]
    exact fits_silent rfl
  | answer c peer x =>
    rw [hquiet]
    exact ⟨h.active, h.heard, fun htalk => by simp [Line.isTalking] at htalk,
      fun _ => .inr (.inl rfl)⟩
  | reregister l aor r =>
    rw [hquiet, h.silent (hre aor r rfl)]
    exact fits_silent rfl
  | @idleWork l w r hhangs hre' hanswer =>
    rw [hquiet]
    apply h.same
    · intro htalk
      apply hhang
      intro r' hd
      obtain ⟨rfl, -⟩ := Drive.work.inj hd
      rw [hhangs rfl] at htalk
      cases htalk
    · intro hring
      apply hans
      intro r' hd
      obtain ⟨rfl, rfl⟩ := Drive.work.inj hd
      cases r with
      | refused =>
        rw [hrefused rfl] at hring
        cases hring
      | sent =>
        cases l with
        | ringing c peer x => exact hanswer rfl rfl c peer x rfl
        | _ => cases hring
  | dial n uri =>
    rw [hquiet, h.silent rfl]
    exact fits_silent rfl
  | dialFailed uri =>
    rw [h.ended rfl]
    exact fits_silent rfl

end

/-! ### The service -/

/-- No call is established while nobody listens. -/
def Heard (s : State) : Native.Action → Prop
  | .event (.established _) => s.gCallback = true
  | _ => True

/-- The steps after which the sound still goes with the line. Left out are the
defects of the event loop, a re-registration over a call, calls that begin or end
unheard, answers to nobody or for nobody to hear, and the tasks that meet another call
than they were meant for. -/
def Orderly (s : State) : Action → Prop
  | .native b => Undisturbed s.native b ∧ Spares s.native b ∧ Accepts s.native b ∧ Heard s b
  | .op =>
      match s.ops with
      | .refuseOwnNumber _ :: _ => s.native.line.isTalking = false
      | .setAudioMode true :: _ => s.gCallback = true ∧
          (s.native.line.isRinging = true ∨ s.native.line.isAnswered = true ∨
            s.native.line.isTalking = true)
      | .setAudioMode false :: _ =>
          s.native.line.isTalking = true → Work.endcall ∈ s.native.works
      | _ => True
  | .request .shutdown | .request .destroy =>
      s.sipManager = true → s.native.line.isTalking = false
  | _ => True

instance (s : State) (b : Native.Action) : Decidable (Heard s b) := by
  unfold Heard
  split <;> infer_instance

instance (s : State) (a : Action) : Decidable (Orderly s a) := by
  unfold Orderly
  split
  · infer_instance
  · split <;> infer_instance
  all_goals infer_instance

def HangupDue (s : State) : Prop := Work.endcall ∈ s.native.works

def AnswerDue (s : State) : Prop := Work.answer ∈ s.native.works ∨ Op.remainRun .answer ∈ s.ops

structure Tuned (s : State) : Prop where
  coherent : Coherent s.native
  single : SingleLine s.native
  fits : Fits s.native.line s.gCallback (HangupDue s) (AnswerDue s) s.sound
  /-- Whoever sets the mode for an answer goes on to answer. -/
  answers : ∀ rest, (.setAudioMode true :: rest) <:+ s.ops → .remainRun .answer ∈ rest

theorem tuned_initial (account : Buffers) (config : SipConfig) :
    Tuned (State.initial account config) := by
  refine ⟨coherent_initial account, singleLine_initial account, ?_, ?_⟩
  · exact fits_silent rfl
  · intro rest h
    simp [State.initial] at h

variable {s t : State}

theorem sound_callback (s : State) (c : Callback) : (s.callback c).sound = s.sound.after c := by
  cases c <;> rfl

theorem sound_native {b : Native.Action} (hstep : step s (.native b) = some t) :
    t.sound = s.sound.hear s.gCallback t.native.news :=
  view_native sound_callback (by intro b c hc; cases c <;> first | rfl | cases hc)
    (fun _ _ _ => rfl) hstep

theorem frame_native {b : Native.Action} (hstep : step s (.native b) = some t) :
    t.gCallback = s.gCallback ∧ t.ops = s.ops ∧ t.queue = s.queue := by
  obtain ⟨-, g, -, rfl⟩ := step_native.mp hstep
  simp

theorem Tuned.native (h : Tuned s) {b : Native.Action} (hord : Orderly s (.native b))
    (hstep : step s (.native b) = some t) : Tuned t := by
  obtain ⟨hund, hspares, haccepts, hheard⟩ := hord
  have hg := native_of_step hstep
  obtain ⟨hcb, hops, -⟩ := frame_native hstep
  have hpost : ∀ w, b ≠ .post w := (step_native.mp hstep).1
  have hmove := step_moves h.coherent h.single hund hg
  -- a handler stays posted unless it is the one that runs
  have hwaits (w : Work) (hw : ∀ r, b.drive s.native ≠ .work w r)
      (hmem : w ∈ s.native.works) : w ∈ t.native.works := by
    obtain ⟨hsame, -⟩ | ⟨w', r, hd, hcons⟩ := works_step hpost hg
    · rw [hsame]
      exact hmem
    · rw [hcons] at hmem
      rcases List.mem_cons.mp hmem with rfl | hmem
      · exact absurd hd (hw r)
      · exact hmem
  refine ⟨h.coherent.step hg, (singleLine_step h.coherent h.single hg).mpr hund, ?_, ?_⟩
  · rw [hcb, sound_native hstep]
    apply h.fits.move hmove
    · intro htalk hbefore
      obtain ⟨c, rfl⟩ := established_of_talking h.coherent hund hg htalk hbefore
      exact hheard
    · intro aor r hd
      exact hspares.idle hd
    · exact haccepts.not_ringing
    · exact hwaits .endcall
    · intro hd hdue
      refine hdue.imp (hwaits .answer hd) fun hop => ?_
      rw [hops]
      exact hop
  · rw [hops]
    exact h.answers

/-- A step outside the event loop that leaves the devices alone and loses no answer. -/
theorem Tuned.beside (h : Tuned s) {a : Action} (ha : ∀ b, a ≠ .native b)
    (hstep : step s a = some t) (hcb : t.gCallback = s.gCallback ∨ t.gCallback = true)
    (hsound : t.sound = s.sound)
    (hans : Op.remainRun .answer ∈ s.ops → AnswerDue t)
    (hops : ∀ rest, (.setAudioMode true :: rest) <:+ t.ops → .remainRun .answer ∈ rest) :
    Tuned t := by
  obtain ⟨-, -, hline, -, -, ws, hworks⟩ := line_step_other ha hstep
  have hkept {w : Work} (hw : w ∈ s.native.works) : w ∈ t.native.works := by
    rw [hworks]
    exact List.mem_append_left _ hw
  have hdue : AnswerDue s → AnswerDue t := fun hdue => hdue.elim (fun hw => .inl (hkept hw)) hans
  have hfits := h.fits.same (fun _ => hkept (w := .endcall)) (fun _ => hdue)
  refine ⟨coherent_step h.coherent hstep, singleLine_step_other h.single ha hstep, ?_, hops⟩
  rw [hline, hsound]
  refine ⟨hfits.active, ?_, hfits.loud, hfits.soft⟩
  intro hloud
  rcases hcb with hsame | hset
  · rw [hsame]
    exact hfits.heard hloud
  · exact hset

/-- A step outside the event loop that writes to the devices. -/
theorem Tuned.write (h : Tuned s) {a : Action} (ha : ∀ b, a ≠ .native b)
    (hstep : step s a = some t)
    (hfits : Fits s.native.line t.gCallback (HangupDue t) (AnswerDue t) t.sound)
    (hops : t.ops <:+ s.ops) : Tuned t := by
  obtain ⟨-, -, hline, -⟩ := line_step_other ha hstep
  refine ⟨coherent_step h.coherent hstep, singleLine_step_other h.single ha hstep, ?_, ?_⟩
  · rw [hline]
    exact hfits
  · exact fun rest hrest => h.answers rest (hrest.trans hops)

theorem answers_taskOps (s : State) (task : Task) (rest : List Op)
    (h : (.setAudioMode true :: rest) <:+ s.taskOps task) : .remainRun .answer ∈ rest := by
  have hmem := h.subset (List.mem_cons_self ..)
  cases task with
  | answerCall =>
    unfold State.taskOps at h
    simp only at h
    split at h
    · rcases List.suffix_cons_iff.mp h with heq | htail
      · obtain ⟨-, rfl⟩ := List.cons.inj heq
        exact List.mem_singleton.mpr rfl
      · have hlast := htail.subset (List.mem_cons_self ..)
        simp at hlast
    · simp at h
  | _ =>
    simp only [State.taskOps] at hmem
    split_ifs at hmem <;> simp at hmem

theorem Tuned.op (h : Tuned s) (hord : Orderly s .op) (hstep : step s .op = some t) :
    Tuned t := by
  have hother : ∀ b, Action.op ≠ .native b := by simp
  obtain ⟨op, rest, hops, rfl⟩ := step_op.mp hstep
  have hsuffix : rest <:+ s.ops := by
    rw [hops]
    exact List.suffix_cons _ _
  have htail : ∀ tail, (.setAudioMode true :: tail) <:+ rest → .remainRun .answer ∈ tail :=
    fun tail htail => h.answers tail (htail.trans hsuffix)
  have hans (hne : op ≠ .remainRun .answer) (hmem : Op.remainRun .answer ∈ s.ops) :
      Op.remainRun .answer ∈ rest := by
    rw [hops] at hmem
    exact (List.mem_cons.mp hmem).resolve_left fun heq => hne heq.symm
  simp only [Orderly, hops] at hord
  cases op with
  | nativeSetCallback =>
    exact h.beside hother hstep (.inr rfl) rfl (fun hmem => .inr (hans (by simp) hmem)) htail
  | setAudioMode inCall =>
    cases inCall with
    | true =>
      apply h.write hother hstep _ hsuffix
      refine ⟨h.fits.active, fun _ => hord.1, fun _ => .inl rfl, fun _ => ?_⟩
      rcases hord.2 with hring | hanswered | htalk
      · have hnext := h.answers rest (hops ▸ List.suffix_rfl)
        exact .inr (.inr ⟨hring, .inr hnext⟩)
      · exact .inr (.inl hanswered)
      · exact .inl htalk
    | false =>
      apply h.write hother hstep _ hsuffix
      refine ⟨h.fits.active, ?_, fun htalk => .inr (hord htalk), fun hmode => nomatch hmode⟩
      rintro (hactive | hmode)
      · exact h.fits.heard (.inl hactive)
      · cases hmode
  | remainRun w =>
    refine h.beside hother hstep (.inl rfl) rfl ?_ htail
    intro hmem
    by_cases hw : w = .answer
    · subst hw
      refine .inl ?_
      rw [show (State.runOp { s with ops := rest } (.remainRun .answer)).native =
        Native.remainRun .answer s.native.begin from rfl, works_remainRun]
      simp
    · exact .inr (hans (by simpa using hw) hmem)
  | nativeReregister =>
    exact h.beside hother hstep (.inl rfl) rfl (fun hmem => .inr (hans (by simp) hmem)) htail
  | refuseOwnNumber number =>
    have hsound : (State.runOp { s with ops := rest } (.refuseOwnNumber number)).sound =
        s.sound := by
      have hactive : false = s.callActive := hord.symm.trans h.fits.active.symm
      exact congrArg (Sound.mk · s.audioMode) hactive
    exact h.beside hother hstep (.inl rfl) hsound (fun hmem => .inr (hans (by simp) hmem)) htail
  | onDebug message =>
    exact h.beside hother hstep (.inl rfl) rfl (fun hmem => .inr (hans (by simp) hmem)) htail
  | setSipManager =>
    exact h.beside hother hstep (.inl rfl) rfl (fun hmem => .inr (hans (by simp) hmem)) htail

/-- The end of the `SipManager` finds nobody talking. -/
theorem Tuned.request (h : Tuned s) {r : Request} (hord : Orderly s (.request r))
    (hstep : step s (.request r) = some t) : Tuned t := by
  have hother : ∀ b, Action.request r ≠ .native b := by simp
  obtain ⟨-, rfl⟩ := step_request.mp hstep
  have hquiet (hcb : (r.run s).gCallback = s.gCallback) (hsound : (r.run s).sound = s.sound)
      (hops : (r.run s).ops = s.ops) : Tuned (r.run s) := by
    refine h.beside hother hstep (.inl hcb) hsound ?_ (by rw [hops]; exact h.answers)
    intro hmem
    refine .inr ?_
    rw [hops]
    exact hmem
  have hsilent (hl : s.native.line.isTalking = false) (hops : (r.run s).ops = s.ops)
      (hcb : (r.run s).gCallback = false) (hsound : (r.run s).sound = ⟨s.callActive, false⟩) :
      Tuned (r.run s) := by
    apply h.write hother hstep _ (hops ▸ List.suffix_rfl)
    have hactive : s.callActive = false := h.fits.active.trans hl
    rw [hsound, hactive]
    exact fits_silent hl
  cases r with
  | shutdown =>
    by_cases hsip : s.sipManager = true
    · have heq : Request.run s .shutdown = { (s.remainRun .unregister).setAudioMode false with
        gCallback := false, sipManager := false } := if_pos hsip
      exact hsilent (hord hsip) ((congrArg State.ops heq).trans rfl)
        ((congrArg State.gCallback heq).trans rfl)
        ((congrArg State.sound heq).trans rfl)
    · have heq : Request.run s .shutdown = s := if_neg hsip
      exact hquiet ((congrArg State.gCallback heq).trans rfl)
        ((congrArg State.sound heq).trans rfl)
        ((congrArg State.ops heq).trans rfl)
  | destroy =>
    by_cases hsip : s.sipManager = true
    · have heq : State.stop { s with queue := [], ringtone := false } = _ := if_pos hsip
      exact hsilent (hord hsip) ((congrArg State.ops heq).trans rfl)
        ((congrArg State.gCallback heq).trans rfl)
        ((congrArg State.sound heq).trans rfl)
    · have heq : State.stop { s with queue := [], ringtone := false } = _ := if_neg hsip
      exact hquiet ((congrArg State.gCallback heq).trans rfl)
        ((congrArg State.sound heq).trans rfl)
        ((congrArg State.ops heq).trans rfl)
  | screenOff | networkAvailable | startCommand =>
    apply hquiet
    all_goals
      simp only [Request.run, Service.networkAvailable]
      split <;> rfl
  | _ => exact hquiet rfl rfl rfl

theorem Tuned.step (h : Tuned s) {a : Action} (hord : Orderly s a) (hstep : step s a = some t) :
    Tuned t := by
  have hsame (ha : ∀ b, a ≠ .native b) (hcb : t.gCallback = s.gCallback)
      (hsound : t.sound = s.sound) (hops : t.ops = s.ops) : Tuned t := by
    refine h.beside ha hstep (.inl hcb) hsound ?_ (by rw [hops]; exact h.answers)
    intro hmem
    refine .inr ?_
    rw [hops]
    exact hmem
  cases a with
  | native b => exact h.native hord hstep
  | watchdog silent =>
    obtain ⟨-, rfl | rfl | ⟨-, rfl⟩⟩ := step_watchdog hstep <;>
      exact hsame (by simp) rfl rfl rfl
  | take =>
    obtain ⟨task, rest, hnone, -, rfl⟩ := step_take.mp hstep
    refine h.beside (by simp) hstep (.inl rfl) rfl ?_ (answers_taskOps s task)
    rw [hnone]
    simp
  | op => exact h.op hord hstep
  | message =>
    obtain ⟨m, rest, -, rfl⟩ := step_message.mp hstep
    cases m <;> exact hsame (by simp) rfl rfl rfl
  | ringTimeout =>
    obtain ⟨-, -, rfl⟩ := step_ringTimeout.mp hstep
    apply hsame (by simp)
    all_goals
      unfold State.onRingTimeout
      split <;> rfl
  | request r => exact h.request hord hstep

/-- The executor and the event loop have nothing left to do. -/
def State.Settled (s : State) : Prop :=
  s.native.posted = [] ∧ s.native.dialing = none ∧ s.queue = [] ∧ s.ops = []

/-- In an orderly run, whenever the queues are empty, `callActive` says whether a call is
established, an established call has the communication mode, and only an established
call or an answered one has it. -/
theorem sound_follows_call (account : Buffers) (config : SipConfig) (as : List Action) (s : State)
    (hord : machine.Meets Orderly (State.initial account config) as)
    (hrun : machine.run (State.initial account config) as = some s) (hsettled : s.Settled) :
    (s.callActive = true ↔ ∃ x ∈ s.native.calls, x.state = .established) ∧
    ((∃ x ∈ s.native.calls, x.state = .established) → s.audioMode = true) ∧
    (s.audioMode = true → ∃ x ∈ s.native.calls, x.state = .established ∨
      x.state = .incoming ∧ x.answered = true) := by
  have h : Tuned s := Machine.run_of_meets (fun _ _ _ hs hg ht => hs.step hg ht)
    (tuned_initial account config) hord hrun
  have htalking := talking_iff_established h.coherent h.single
  have hanswered := isAnswered_iff h.coherent h.single
  obtain ⟨hposted, -, -, hops⟩ := hsettled
  have hworks : s.native.works = [] := by
    unfold Globals.works
    rw [hposted]
    rfl
  have hnohang : ¬ HangupDue s := by simp [HangupDue, hworks]
  have hnoanswer : ¬ AnswerDue s := by simp [AnswerDue, hworks, hops]
  rw [← htalking]
  refine ⟨by rw [← h.fits.active]; rfl, ?_, ?_⟩
  · intro htalk
    exact (h.fits.loud htalk).resolve_right hnohang
  · intro hmode
    rcases h.fits.soft hmode with htalk | hans | ⟨-, hdue⟩
    · obtain ⟨x, hx, hst⟩ := htalking.mp htalk
      exact ⟨x, hx, .inl hst⟩
    · obtain ⟨x, hx, hst⟩ := hanswered.mp hans
      exact ⟨x, hx, .inr hst⟩
    · exact absurd hdue hnoanswer

/-- A call that is answered, confirmed and ended by the user. -/
theorem sound_follows_call_answered : ∃ s,
    machine.run (State.initial (nativeInit .sample) .sample) (started ++
      [.native (.event (.invite (utf8 "sip:203@192.0.2.1") none .ringing)), .request .answerCall,
        .take, .op, .op, .native (.work .ok), .native (.event (.established 0))]) = some s ∧
    s.audioMode = true ∧ s.callActive = true := by
  refine ⟨_, rfl, ?_⟩
  have h := sound_follows_call (nativeInit .sample) .sample (started ++
      [.native (.event (.invite (utf8 "sip:203@192.0.2.1") none .ringing)), .request .answerCall,
        .take, .op, .op, .native (.work .ok), .native (.event (.established 0))]) _ (by decide) rfl
      ⟨rfl, rfl, rfl, rfl⟩
  exact ⟨h.2.1 ⟨_, List.mem_singleton.mpr rfl, rfl⟩, h.1.mpr ⟨_, List.mem_singleton.mpr rfl, rfl⟩⟩

/-- Once the 200 is sent the mode is set, although no call is established before the
caller's ACK. -/
theorem sound_ahead_of_call : ∃ as s,
    machine.run (State.initial (nativeInit .sample) .sample) (started ++ as) = some s ∧
    s.Settled ∧ s.sipManager = true ∧ s.audioMode = true ∧
    ¬ ∃ x ∈ s.native.calls, x.state = .established := by
  refine ⟨[.native (.event (.invite (utf8 "sip:203@192.0.2.1") none .ringing)),
    .request .answerCall, .take, .op, .op, .native (.work .ok)], _, rfl, ⟨rfl, rfl, rfl, rfl⟩, rfl,
    rfl, ?_⟩
  decide

end SimplePhone.Service
