import SimplePhone.Native.Microphone
import SimplePhone.Service.Pipeline

/-! The mutes that are on their way from the keys through the executor to the event
loop, and the callback object that reports to the app meanwhile. -/
namespace SimplePhone.Service

open Native Transition

def Op.mutes : Op → Option Bool
  | .remainRun w => w.mutes
  | _ => none

def Task.mutes : Task → Option Bool
  | .setMute mute => some mute
  | _ => none

/-- In the order in which they will arrive. -/
def mutes (s : State) : List Bool :=
  s.native.works.filterMap Work.mutes ++ (s.ops.filterMap Op.mutes ++ s.queue.filterMap Task.mutes)

/-- What a step of the service adds to them. -/
def Action.asksMute : Action → Option Bool
  | .request (.setMute mute) => some mute
  | _ => none

variable {s t : State}

theorem mutes_native {b : Native.Action} (hstep : step s (.native b) = some t) :
    mutes s = (b.mutes s.native).toList ++ mutes t := by
  obtain ⟨hpost, g, hg, rfl⟩ := step_native.mp hstep
  unfold mutes
  simp only [callbacks_native, callbacks_ops, callbacks_queue]
  obtain ⟨hworks, hidle⟩ | ⟨w, r, hdrive, hworks⟩ := works_step hpost hg
  · have hnone : b.mutes s.native = none := by
      cases b with
      | work lib =>
        cases hnext : s.native.next with
        | none => simp [Native.Action.mutes, hnext]
        | some w => exact absurd (by simp [Action.drive, hnext]) (hidle w lib.uaAnswer)
      | _ => rfl
    rw [hworks, hnone]
    rfl
  · obtain ⟨lib, rfl, hnext, -⟩ := next_of_drive hdrive
    rw [hworks]
    simp only [Native.Action.mutes, hnext, Option.bind_some, List.filterMap_cons]
    cases w.mutes <;> rfl

theorem mutes_execute (task : Task) (s : State) :
    mutes (s.execute task) = mutes s ++ task.mutes.toList := by
  unfold mutes State.execute
  simp only [List.filterMap_append, List.append_assoc]
  cases h : task.mutes <;> simp [h]

theorem mutes_remainRun {w : Work} (hw : w.mutes = none) (s : State) :
    mutes (s.remainRun w) = mutes s := by
  have hworks := works_remainRun w s.native.begin
  unfold mutes State.remainRun
  rw [hworks]
  simp only [List.filterMap_append, List.filterMap_cons, hw, List.filterMap_nil, List.append_nil]
  rfl

/-- With a `SipManager` a mute passes the checks of its task. -/
theorem filterMap_taskOps_mutes (hready : s.sipManager = true) (task : Task) :
    (s.taskOps task).filterMap Op.mutes = task.mutes.toList := by
  unfold State.taskOps
  simp only [hready, Bool.not_true, Bool.false_eq_true, if_false, if_true]
  cases task with
  | reregisterIfReady =>
    simp only
    split <;> rfl
  | makeCall number =>
    simp only
    split <;> rfl
  | applySettings accountChanged => cases accountChanged <;> rfl
  | _ => rfl

theorem mutes_stop (s : State) : mutes s.stop = mutes s := by
  unfold State.stop
  split
  · exact mutes_remainRun (w := .unregister) rfl s
  · rfl

theorem mutes_op (hstep : step s .op = some t) : mutes t = mutes s := by
  obtain ⟨op, rest, hops, rfl⟩ := step_op.mp hstep
  have hpost {w : Work} (hw : op.mutes = w.mutes) :
      mutes (({ s with ops := rest } : State).remainRun w) = mutes s := by
    have hworks := works_remainRun w s.native.begin
    unfold mutes State.remainRun
    rw [hworks, hops]
    simp only [List.filterMap_append, List.filterMap_cons, hw, List.filterMap_nil]
    cases w.mutes <;> simp <;> rfl
  have hsame (h : op.mutes = none) : mutes { s with ops := rest } = mutes s := by
    unfold mutes
    simp only [hops, List.filterMap_cons, h]
  cases op with
  | remainRun w => exact hpost rfl
  | nativeReregister => exact hpost rfl
  | _ => exact hsame rfl

/-- Outside the event loop mutes only join the end. -/
theorem mutes_beside {a : Action} (ha : ∀ b, a ≠ .native b) (hd : a ≠ .request .destroy)
    (htake : a = .take → s.sipManager = true) (hstep : step s a = some t) :
    mutes t = mutes s ++ a.asksMute.toList := by
  cases a with
  | native b => exact absurd rfl (ha b)
  | watchdog silent =>
    rw [show (Action.watchdog silent).asksMute.toList = [] from rfl, List.append_nil]
    obtain ⟨-, rfl | rfl | ⟨-, rfl⟩⟩ := step_watchdog hstep
    · rfl
    · rfl
    · exact mutes_remainRun (w := .timeoutHangup) rfl s
  | take =>
    obtain ⟨task, rest, hops, hqueue, rfl⟩ := step_take.mp hstep
    have htask := filterMap_taskOps_mutes (htake rfl) task
    unfold mutes
    simp only [htask, hops, hqueue, List.filterMap_cons, List.filterMap_nil, List.nil_append]
    cases task.mutes <;> simp [Action.asksMute]
  | op => exact (mutes_op hstep).trans (List.append_nil _).symm
  | message =>
    obtain ⟨m, rest, -, rfl⟩ := step_message.mp hstep
    cases m <;> exact (List.append_nil _).symm
  | ringTimeout =>
    obtain ⟨-, -, rfl⟩ := step_ringTimeout.mp hstep
    unfold State.onRingTimeout
    split
    · exact mutes_execute .endCall s
    · exact (List.append_nil _).symm
  | request r =>
    obtain ⟨-, rfl⟩ := step_request.mp hstep
    cases r with
    | destroy => exact absurd rfl hd
    | shutdown => exact (mutes_stop s).trans (List.append_nil _).symm
    | makeCall number => exact mutes_execute (.makeCall number) s
    | answerCall => exact mutes_execute .answerCall (s.post .stopRinging)
    | endCall => exact mutes_execute .endCall (s.post .stopRinging)
    | sendDtmf digit => exact mutes_execute (.sendDtmf digit) s
    | setMute mute => exact mutes_execute (.setMute mute) s
    | saveAndApply config =>
      exact mutes_execute (.applySettings (config ≠ s.config)) { s with config := config }
    | legacyConnected => exact mutes_execute .reregisterIfReady s
    | networkLost => exact (List.append_nil _).symm
    | screenOff =>
      simp only [Request.run]
      split
      · exact mutes_execute .endCall (s.post .stopRinging)
      · exact (List.append_nil _).symm
    | networkAvailable =>
      simp only [Request.run, Service.networkAvailable]
      split
      · exact mutes_execute .reregisterIfReady { s with networkRearmNeeded := false }
      · exact (List.append_nil _).symm
    | startCommand =>
      simp only [Request.run]
      split
      · exact mutes_execute .ensureSipManager s
      · exact (List.append_nil _).symm

/-! ### The callback object -/

/-- The statements that neither make a `SipManager` nor the object it reports to. -/
def Op.plain : Op → Bool
  | .nativeSetCallback | .setSipManager => false
  | _ => true

/-- The event loop has a callback object whenever the service has a `SipManager`, and
otherwise only while the executor makes one. -/
inductive Ready (s : State) : Prop where
  | settled (hops : ∀ op ∈ s.ops, op.plain = true) (hcb : s.gCallback = s.sipManager)
  | starting (pre : List Op) (hops : s.ops = .nativeSetCallback :: (pre ++ [.setSipManager]))
      (hplain : ∀ op ∈ pre, op.plain = true) (hm : s.sipManager = false) (hcb : s.gCallback = false)
  | started (pre : List Op) (hops : s.ops = pre ++ [.setSipManager])
      (hplain : ∀ op ∈ pre, op.plain = true) (hm : s.sipManager = false) (hcb : s.gCallback = true)

theorem Ready.congr (h : Ready s) (hops : t.ops = s.ops) (hm : t.sipManager = s.sipManager)
    (hcb : t.gCallback = s.gCallback) : Ready t := by
  cases h with
  | settled hplain hsame => exact .settled (hops ▸ hplain) (by rw [hcb, hm, hsame])
  | starting pre hpre hplain hm' hcb' =>
    exact .starting pre (hops.trans hpre) hplain (hm.trans hm') (hcb.trans hcb')
  | started pre hpre hplain hm' hcb' =>
    exact .started pre (hops.trans hpre) hplain (hm.trans hm') (hcb.trans hcb')

theorem Ready.callback (h : Ready s) (hm : s.sipManager = true) : s.gCallback = true := by
  cases h with
  | settled hplain hcb => exact hcb.trans hm
  | starting pre hops hplain hm' => simp [hm'] at hm
  | started pre hops hplain hm' => simp [hm'] at hm

/-- Between two tasks the two go together. -/
theorem Ready.idle (h : Ready s) (hops : s.ops = []) : s.gCallback = s.sipManager := by
  cases h with
  | settled hplain hcb => exact hcb
  | starting pre hpre => simp [hpre] at hops
  | started pre hpre => simp [hpre] at hops

theorem Ready.stop (h : Ready s) : Ready s.stop := by
  unfold State.stop
  by_cases hm : s.sipManager = true
  · rw [if_pos hm]
    cases h with
    | settled hplain hcb => exact .settled hplain rfl
    | starting pre hpre hplain hm' => simp [hm'] at hm
    | started pre hpre hplain hm' => simp [hm'] at hm
  · rw [if_neg hm]
    exact h

theorem Ready.take (h : Ready s) (hstep : step s .take = some t) : Ready t := by
  obtain ⟨task, rest, hops, hqueue, rfl⟩ := step_take.mp hstep
  have hcb := h.idle hops
  have hplain (hops' : ∀ op ∈ s.taskOps task, op.plain = true) :
      Ready { s with queue := rest, ops := s.taskOps task } := .settled hops' hcb
  cases task with
  | ensureSipManager =>
    by_cases hm : s.sipManager = true
    · apply hplain
      simp [State.taskOps, hm]
    · have hm := Bool.not_eq_true _ ▸ hm
      refine .starting [.remainRun .register, .onDebug (utf8 "SIP 登録中...")] ?_ ?_ hm (hcb.trans hm)
      · simp [State.taskOps, hm]
      · decide
  | reregisterIfReady =>
    apply hplain
    unfold State.taskOps
    simp only
    split <;> decide
  | makeCall number =>
    apply hplain
    unfold State.taskOps
    simp only
    split
    · decide
    · split <;> simp [Op.plain]
  | applySettings accountChanged =>
    apply hplain
    unfold State.taskOps
    cases s.sipManager <;> cases accountChanged <;> simp [Op.plain]
  | _ =>
    apply hplain
    unfold State.taskOps
    cases s.sipManager <;> simp [Op.plain]

theorem runOp_plain {op : Op} (h : op.plain = true) (s : State) :
    (s.runOp op).ops = s.ops ∧ (s.runOp op).sipManager = s.sipManager ∧
      (s.runOp op).gCallback = s.gCallback := by
  cases op with
  | nativeSetCallback => cases h
  | setSipManager => cases h
  | _ => exact ⟨rfl, rfl, rfl⟩

theorem Ready.op (h : Ready s) (hstep : step s .op = some t) : Ready t := by
  obtain ⟨op, rest, hops, rfl⟩ := step_op.mp hstep
  cases h with
  | settled hplain hcb =>
    rw [hops] at hplain
    obtain ⟨hrest, hm, hcb'⟩ := runOp_plain (hplain op List.mem_cons_self) { s with ops := rest }
    refine .settled ?_ ((hcb'.trans hcb).trans hm.symm)
    rw [hrest]
    exact fun x hx => hplain x (List.mem_cons_of_mem op hx)
  | starting pre hpre hplain hm hcb =>
    obtain ⟨rfl, rfl⟩ := List.cons.inj (hops.symm.trans hpre)
    exact .started pre rfl hplain hm rfl
  | started pre hpre hplain hm hcb =>
    rw [hops] at hpre
    cases pre with
    | nil =>
      obtain ⟨rfl, rfl⟩ := List.cons.inj hpre
      exact .settled (fun x hx => nomatch hx) hcb
    | cons x pre =>
      obtain ⟨rfl, rfl⟩ := List.cons.inj hpre
      obtain ⟨hrest, hm', hcb'⟩ := runOp_plain (hplain op List.mem_cons_self)
        { s with ops := pre ++ [.setSipManager] }
      exact .started pre hrest (fun x hx => hplain x (List.mem_cons_of_mem op hx)) (hm'.trans hm)
        (hcb'.trans hcb)

theorem Ready.step (h : Ready s) {a : Action} (hstep : step s a = some t) : Ready t := by
  cases a with
  | native b =>
    obtain ⟨-, g, -, rfl⟩ := step_native.mp hstep
    exact h.congr (callbacks_ops _ _) (callbacks_sipManager _ _) (callbacks_gCallback _ _)
  | watchdog silent =>
    obtain ⟨-, rfl | rfl | ⟨-, rfl⟩⟩ := step_watchdog hstep <;> exact h.congr rfl rfl rfl
  | take => exact h.take hstep
  | op => exact h.op hstep
  | message =>
    obtain ⟨m, rest, -, rfl⟩ := step_message.mp hstep
    cases m <;> exact h.congr rfl rfl rfl
  | ringTimeout =>
    obtain ⟨-, -, rfl⟩ := step_ringTimeout.mp hstep
    unfold State.onRingTimeout
    split <;> exact h.congr rfl rfl rfl
  | request r =>
    obtain ⟨-, rfl⟩ := step_request.mp hstep
    cases r with
    | shutdown => exact h.stop
    | destroy =>
      have hdrop : Ready { s with queue := [], ringtone := false } := h.congr rfl rfl rfl
      exact hdrop.stop.congr rfl rfl rfl
    | screenOff | networkAvailable | startCommand =>
      simp only [Request.run, Service.networkAvailable]
      split <;> exact h.congr rfl rfl rfl
    | _ => exact h.congr rfl rfl rfl

theorem ready_initial (account : Buffers) (config : SipConfig) :
    Ready (State.initial account config) :=
  .settled (fun _ hop => nomatch hop) rfl

end SimplePhone.Service
