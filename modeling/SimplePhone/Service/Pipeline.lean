import SimplePhone.Service.Frame

/-! The dials, hangups and re-registrations that are on their way from the main
thread through the executor to the event loop, in the order they will arrive. -/
namespace SimplePhone.Service

open Native Transition

inductive Errand where
  | dial (uri : Str)
  | hang
  | reregister
deriving DecidableEq

def Errand.isDial : Errand → Bool
  | .dial _ => true
  | _ => false

def workErrand : Work → Option Errand
  | .makecall uri => some (.dial uri)
  | .endcall => some .hang
  | .reregister _ => some .reregister
  | _ => none

def opErrand (account : Buffers) : Op → Option Errand
  | .remainRun w => workErrand w
  | .nativeReregister => some .reregister
  | .refuseOwnNumber number => some (.dial (dialUri account number))
  | _ => none

def taskErrand (account : Buffers) : Task → Option Errand
  | .makeCall number => some (.dial (dialUri account number))
  | .endCall => some .hang
  | .reregisterIfReady => some .reregister
  | .applySettings accountChanged => if accountChanged then some .reregister else none
  | _ => none

/-- Those that have reached the event loop; a sleeping dial is the first of them. -/
def nativePipeline (g : Globals) : List Errand :=
  (g.dialing.map Errand.dial).toList ++ g.posted.filterMap fun p => workErrand p.work

def executorPipeline (s : State) : List Errand :=
  s.ops.filterMap (opErrand s.native.account) ++ s.queue.filterMap (taskErrand s.native.account)

def pipeline (s : State) : List Errand := nativePipeline s.native ++ executorPipeline s

variable {s t : State} {g g' : Globals}

/-! ### In the event loop -/

theorem nativePipeline_frame (h : Frame g g') : nativePipeline g' = nativePipeline g := by
  unfold nativePipeline
  rw [h.posted, h.dialing]

theorem nativePipeline_remainRun (w : Work) (g : Globals) :
    nativePipeline (Native.remainRun w g) = nativePipeline g ++ (workErrand w).toList := by
  simp only [nativePipeline, Native.remainRun, List.filterMap_append, List.append_assoc]
  cases h : workErrand w <;> simp [h]

theorem nativePipeline_event {e : SipEvent} (hstep : Native.step g (.event e) = some g') :
    nativePipeline g' = nativePipeline g :=
  nativePipeline_frame (step_frame hstep)

theorem nativePipeline_connect {result : ConnectResult}
    (hstep : Native.step g (.connect result) = some g') :
    ∃ uri, g.dialing = some uri ∧ nativePipeline g = .dial uri :: nativePipeline g' := by
  obtain ⟨uri, hdial, -⟩ := step_connect.mp hstep
  refine ⟨uri, hdial, ?_⟩
  rw [nativePipeline_frame (step_frame hstep)]
  simp [nativePipeline, Globals.afterStep, hdial]

/-- A dial over a user agent only goes to sleep; every other handler is done with. -/
theorem nativePipeline_work {lib : Lib} (hstep : Native.step g (.work lib) = some g') :
    ∃ w, g.next = some w ∧
      ((nativePipeline g = (workErrand w).toList ++ nativePipeline g' ∧ g'.dialing = none ∧
          ∀ uri, w = .makecall uri → g.gUa = none) ∨
        ∃ uri, w = .makecall uri ∧ g.gUa ≠ none ∧ nativePipeline g' = nativePipeline g ∧
          g'.dialing = some uri) := by
  obtain ⟨hnone, p, rest, hp, -⟩ := step_work.mp hstep
  have hframe := step_frame hstep
  have hnext : g.next = some p.work := by simp [Globals.next, hp]
  simp only [Globals.afterStep, hnext] at hframe
  have hbefore : nativePipeline g =
      (workErrand p.work).toList ++ rest.filterMap fun p => workErrand p.work := by
    simp only [nativePipeline, hnone, hp, List.filterMap_cons]
    cases workErrand p.work <;> rfl
  have hdone (h : Frame { g with posted := g.posted.tail, dialing := none } g') :
      nativePipeline g = (workErrand p.work).toList ++ nativePipeline g' := by
    rw [hbefore, nativePipeline_frame h]
    simp [nativePipeline, hp]
  refine ⟨p.work, hnext, ?_⟩
  cases hw : p.work with
  | makecall uri =>
    rw [hw] at hframe
    by_cases hua : g.gUa = none
    · simp only [Work.sleeps, if_pos hua] at hframe
      exact .inl ⟨hw ▸ hdone hframe, hframe.dialing, fun _ _ => hua⟩
    · simp only [Work.sleeps, if_neg hua] at hframe
      refine .inr ⟨uri, rfl, hua, ?_, hframe.dialing⟩
      rw [nativePipeline_frame hframe, hbefore, hw]
      simp [nativePipeline, hp, workErrand]
  | _ =>
    rw [hw] at hframe
    exact .inl ⟨hw ▸ hdone hframe, hframe.dialing, by simp⟩

/-! ### On the way to the event loop -/

/-- What a request puts on its way. -/
def Request.errands (s : State) : Request → List Errand
  | .makeCall number => [.dial (dialUri s.native.account number)]
  | .endCall => [.hang]
  | .screenOff => if s.callActive then [.hang] else []
  | .saveAndApply config => if config ≠ s.config then [.reregister] else []
  | .networkAvailable => if s.networkRearmNeeded then [.reregister] else []
  | .legacyConnected => [.reregister]
  | _ => []

theorem pipeline_native {a : Native.Action} (hstep : step s (.native a) = some t) :
    ∃ g, Native.step s.native a = some g ∧ t.native = g ∧
      pipeline s = nativePipeline s.native ++ executorPipeline s ∧
      pipeline t = nativePipeline g ++ executorPipeline s := by
  obtain ⟨-, g, hg, rfl⟩ := step_native.mp hstep
  refine ⟨g, hg, by simp, rfl, ?_⟩
  simp only [pipeline, executorPipeline, callbacks_native, callbacks_ops, callbacks_queue,
    step_account hg]

/-- A task that its checks let through has its errand among its statements. -/
theorem filterMap_taskOps (s : State) (task : Task) : s.taskOps task = [] ∨
    (s.taskOps task).filterMap (opErrand s.native.account) =
      (taskErrand s.native.account task).toList := by
  unfold State.taskOps
  cases task with
  | ensureSipManager => cases s.sipManager <;> simp [opErrand, taskErrand, workErrand]
  | reregisterIfReady =>
    simp only
    split
    · exact .inr rfl
    · exact .inl rfl
  | makeCall number =>
    simp only
    split
    · exact .inl rfl
    · split <;> exact .inr rfl
  | applySettings accountChanged =>
    cases s.sipManager <;> cases accountChanged <;> simp [opErrand, taskErrand]
  | _ => cases s.sipManager <;> simp [opErrand, taskErrand, workErrand]

/-- Taking a task carries its errand over, unless its checks stop it. -/
theorem pipeline_take (hstep : step s .take = some t) :
    ∃ task rest, s.ops = [] ∧ s.queue = task :: rest ∧
      t = { s with queue := rest, ops := s.taskOps task } ∧
      (pipeline t = pipeline s ∨
        s.taskOps task = [] ∧
          pipeline s = nativePipeline s.native ++
            ((taskErrand s.native.account task).toList ++ executorPipeline t)) := by
  obtain ⟨task, rest, hops, hqueue, rfl⟩ := step_take.mp hstep
  refine ⟨task, rest, hops, hqueue, rfl, ?_⟩
  have hbefore : executorPipeline s = (taskErrand s.native.account task).toList ++
      rest.filterMap (taskErrand s.native.account) := by
    simp only [executorPipeline, hops, hqueue, List.filterMap_cons, List.filterMap_nil]
    cases taskErrand s.native.account task <;> rfl
  obtain hnone | hcarry := filterMap_taskOps s task
  · refine .inr ⟨hnone, ?_⟩
    simp only [pipeline, hbefore]
    simp [executorPipeline, hnone]
  · refine .inl ?_
    simp only [pipeline, hbefore]
    simp [executorPipeline, hcarry]

theorem pipeline_op (hstep : step s .op = some t) :
    ∃ op rest, s.ops = op :: rest ∧ t = { s with ops := rest }.runOp op ∧
      (pipeline t = pipeline s ∧ (∀ number, op ≠ .refuseOwnNumber number) ∨
        ∃ number, op = .refuseOwnNumber number ∧ pipeline s = nativePipeline s.native ++
          (.dial (dialUri s.native.account number) :: executorPipeline t)) := by
  obtain ⟨op, rest, hops, rfl⟩ := step_op.mp hstep
  refine ⟨op, rest, hops, rfl, ?_⟩
  have hbefore : executorPipeline s = (opErrand s.native.account op).toList ++
      (rest.filterMap (opErrand s.native.account) ++
        s.queue.filterMap (taskErrand s.native.account)) := by
    simp only [executorPipeline, hops, List.filterMap_cons]
    cases opErrand s.native.account op <;> rfl
  have hpost (w : Work) (hw : opErrand s.native.account op = workErrand w) :
      pipeline (({ s with ops := rest } : State).remainRun w) = pipeline s := by
    have hn := nativePipeline_remainRun w s.native.begin
    rw [nativePipeline_frame (frame_begin s.native)] at hn
    simp only [pipeline, hbefore, hw, ← List.append_assoc]
    rw [← hn]
    simp only [List.append_assoc]
    rfl
  cases op with
  | remainRun w => exact .inl ⟨hpost w rfl, by simp⟩
  | nativeReregister => exact .inl ⟨hpost _ rfl, by simp⟩
  | refuseOwnNumber number =>
    refine .inr ⟨number, rfl, ?_⟩
    simp only [pipeline, hbefore]
    rfl
  | _ =>
    refine .inl ⟨?_, by simp⟩
    simp only [pipeline, hbefore]
    rfl

theorem pipeline_execute (task : Task) (s : State) :
    pipeline (s.execute task) = pipeline s ++ (taskErrand s.native.account task).toList := by
  simp only [pipeline, executorPipeline, State.execute, List.filterMap_append,
    List.append_assoc]
  cases h : taskErrand s.native.account task <;> simp [h]

theorem pipeline_remainRun_none {w : Work} (hw : workErrand w = none) (s : State) :
    pipeline (s.remainRun w) = pipeline s := by
  have hn := nativePipeline_remainRun w s.native.begin
  rw [nativePipeline_frame (frame_begin s.native), hw] at hn
  simp only [pipeline, State.remainRun, hn, Option.toList_none, List.append_nil]
  rfl

theorem pipeline_watchdog {silent : Bool} (hstep : step s (.watchdog silent) = some t) :
    pipeline t = pipeline s := by
  obtain ⟨-, rfl | rfl | ⟨-, rfl⟩⟩ := step_watchdog hstep
  · rfl
  · rfl
  · exact pipeline_remainRun_none (w := .timeoutHangup) rfl s

theorem pipeline_message (hstep : step s .message = some t) : pipeline t = pipeline s := by
  obtain ⟨m, rest, -, rfl⟩ := step_message.mp hstep
  cases m <;> rfl

theorem pipeline_ringTimeout (hstep : step s .ringTimeout = some t) :
    pipeline t = pipeline s ++ if s.timeoutPasses then [.hang] else [] := by
  obtain ⟨-, -, rfl⟩ := step_ringTimeout.mp hstep
  unfold State.onRingTimeout
  rw [show ({ s with ringTimer := false } : State).timeoutPasses = s.timeoutPasses from rfl]
  by_cases h : s.timeoutPasses = true
  · rw [if_pos h, if_pos h]
    exact pipeline_execute .endCall s
  · rw [if_neg h, if_neg h, List.append_nil]
    rfl

/-- Requests add to the end. -/
theorem pipeline_request {r : Request} (hr : r ≠ .destroy)
    (hstep : step s (.request r) = some t) : pipeline t = pipeline s ++ r.errands s := by
  obtain ⟨-, rfl⟩ := step_request.mp hstep
  cases r with
  | destroy => exact absurd rfl hr
  | shutdown =>
    unfold Request.run State.stop
    rw [show Request.shutdown.errands s = [] from rfl, List.append_nil]
    simp only
    split
    · exact pipeline_remainRun_none (w := .unregister) rfl s
    · rfl
  | screenOff =>
    simp only [Request.run, Request.errands]
    by_cases h : s.callActive = true
    · rw [if_pos h, if_pos h]
      exact pipeline_execute .endCall s
    · rw [if_neg h, if_neg h, List.append_nil]
  | networkAvailable =>
    simp only [Request.run, Service.networkAvailable, Request.errands]
    by_cases h : s.networkRearmNeeded = true
    · rw [if_pos h, if_pos h]
      exact pipeline_execute .reregisterIfReady s
    · rw [if_neg h, if_neg h, List.append_nil]
  | saveAndApply config =>
    refine (pipeline_execute (.applySettings (config ≠ s.config)) s).trans ?_
    simp only [Request.errands, taskErrand]
    by_cases h : config = s.config <;> simp [h]
  | startCommand =>
    simp only [Request.run, Request.errands, List.append_nil]
    split
    · exact (pipeline_execute .ensureSipManager s).trans (List.append_nil _)
    · rfl
  | networkLost => exact (List.append_nil _).symm
  | makeCall number => exact pipeline_execute (.makeCall number) s
  | answerCall => exact pipeline_execute .answerCall s
  | endCall => exact pipeline_execute .endCall s
  | sendDtmf digit => exact pipeline_execute (.sendDtmf digit) s
  | setMute mute => exact pipeline_execute (.setMute mute) s
  | legacyConnected => exact pipeline_execute .reregisterIfReady s

/-! ### All steps together -/

/-- What a step of the service puts on its way. -/
def Action.errands (s : State) : Action → List Errand
  | .ringTimeout => if s.timeoutPasses then [.hang] else []
  | .request r => r.errands s
  | _ => []

theorem pipeline_destroy (s : State) : (pipeline s.onDestroy).Sublist (pipeline s) := by
  have hdrop : (pipeline { s with queue := [], ringtone := false }).Sublist (pipeline s) := by
    simp only [pipeline, executorPipeline, List.filterMap_nil, List.append_nil]
    exact List.Sublist.append_left (List.sublist_append_left _ _) _
  unfold State.onDestroy State.stop
  split
  · have hstop := pipeline_remainRun_none (w := .unregister) rfl
      { s with queue := [], ringtone := false }
    rw [← hstop] at hdrop
    exact hdrop
  · exact hdrop

/-- Errands never overtake each other, and none comes from nowhere. -/
theorem pipeline_sublist {a : Action} (hstep : step s a = some t) :
    (pipeline t).Sublist (pipeline s ++ a.errands s) := by
  have hkeep (h : (pipeline t).Sublist (pipeline s)) :
      (pipeline t).Sublist (pipeline s ++ a.errands s) :=
    h.trans (List.sublist_append_left _ _)
  cases a with
  | native b =>
    apply hkeep
    obtain ⟨g, hg, -, hs, ht⟩ := pipeline_native hstep
    rw [hs, ht]
    apply List.Sublist.append_right
    cases b with
    | event e => rw [nativePipeline_event hg]
    | post w => exact absurd rfl ((step_native.mp hstep).1 w)
    | work lib =>
      obtain ⟨w, -, ⟨heq, -, -⟩ | ⟨uri, -, -, heq, -⟩⟩ := nativePipeline_work hg
      · rw [heq]
        exact List.sublist_append_right _ _
      · rw [heq]
    | connect result =>
      obtain ⟨uri, -, heq⟩ := nativePipeline_connect hg
      rw [heq]
      exact List.sublist_cons_self _ _
  | watchdog silent => exact hkeep (by rw [pipeline_watchdog hstep])
  | take =>
    apply hkeep
    obtain ⟨task, rest, -, -, rfl, heq | ⟨-, heq⟩⟩ := pipeline_take hstep
    · rw [heq]
    · rw [heq]
      exact List.Sublist.append_left (List.sublist_append_right _ _) _
  | op =>
    apply hkeep
    obtain ⟨op, rest, -, rfl, ⟨heq, -⟩ | ⟨number, rfl, heq⟩⟩ := pipeline_op hstep
    · rw [heq]
    · rw [heq]
      exact List.Sublist.append_left (List.sublist_cons_self _ _) _
  | message => exact hkeep (by rw [pipeline_message hstep])
  | ringTimeout => rw [pipeline_ringTimeout hstep]; rfl
  | request r =>
    by_cases hr : r = .destroy
    · subst hr
      obtain ⟨-, rfl⟩ := step_request.mp hstep
      exact hkeep (pipeline_destroy s)
    · rw [pipeline_request hr hstep]
      rfl

end SimplePhone.Service
