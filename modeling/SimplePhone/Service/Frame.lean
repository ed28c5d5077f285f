import SimplePhone.Service.Step
import SimplePhone.Native.Line

/-! What the steps of the service leave alone, and that seen from the native layer
they are steps of the event loop: the service only posts to it. -/
namespace SimplePhone.Service

open Native Transition

variable {s t : State}

/-! ### Callbacks -/

theorem callback_frame (s : State) (c : Callback) :
    (s.callback c).native = s.native ∧ (s.callback c).gCallback = s.gCallback ∧
    (s.callback c).watchdog = s.watchdog ∧ (s.callback c).config = s.config ∧
    (s.callback c).alive = s.alive ∧ (s.callback c).sipManager = s.sipManager ∧
    (s.callback c).networkRearmNeeded = s.networkRearmNeeded ∧
    (s.callback c).queue = s.queue ∧ (s.callback c).ops = s.ops ∧
    (s.callback c).missedNotification = s.missedNotification ∧
    (s.callback c).ringtone = s.ringtone := by
  cases c <;> exact ⟨rfl, rfl, rfl, rfl, rfl, rfl, rfl, rfl, rfl, rfl, rfl⟩

/-- A part of the state that follows the callbacks one by one follows their list. -/
theorem callbacks_view {β : Type} {f : State → β} {F : β → Callback → β}
    (hF : ∀ s c, f (s.callback c) = F (f s) c)
    (hother : ∀ b c, c.isCall = false → F b c = b) (delivered : List Delivery) (s : State) :
    f (s.callbacks delivered) =
      if s.gCallback then
        (delivered.filter (·.callback.isCall)).foldl (fun b d => F b d.callback) (f s)
      else f s := by
  unfold State.callbacks
  split
  · induction delivered generalizing s with
    | nil => rfl
    | cons d rest ih =>
      have hset : (s.callback d.callback).gCallback = s.gCallback := (callback_frame s _).2.1
      rw [List.foldl_cons, ih (s.callback d.callback) (by rw [hset]; assumption), hF]
      cases hd : d.callback.isCall with
      | false => rw [List.filter_cons_of_neg (by simp [hd]), hother _ _ hd]
      | true => rw [List.filter_cons_of_pos (by simp [hd]), List.foldl_cons]
  · rfl

/-- A part of the state that no callback touches. -/
theorem callbacks_keep {β : Type} {f : State → β} (hf : ∀ s c, f (s.callback c) = f s)
    (delivered : List Delivery) (s : State) : f (s.callbacks delivered) = f s := by
  rw [callbacks_view (F := fun b _ => b) hf fun _ _ _ => rfl]
  have hfold (l : List Delivery) (b : β) : l.foldl (fun b _ => b) b = b := by
    induction l with
    | nil => rfl
    | cons _ _ ih => exact ih
  rw [hfold]
  split <;> rfl

section
variable (delivered : List Delivery) (s : State)

@[simp] theorem callbacks_native : (s.callbacks delivered).native = s.native :=
  callbacks_keep (fun s c => (callback_frame s c).1) delivered s

@[simp] theorem callbacks_gCallback : (s.callbacks delivered).gCallback = s.gCallback :=
  callbacks_keep (fun s c => (callback_frame s c).2.1) delivered s

@[simp] theorem callbacks_config : (s.callbacks delivered).config = s.config :=
  callbacks_keep (fun s c => (callback_frame s c).2.2.2.1) delivered s

@[simp] theorem callbacks_alive : (s.callbacks delivered).alive = s.alive :=
  callbacks_keep (fun s c => (callback_frame s c).2.2.2.2.1) delivered s

@[simp] theorem callbacks_sipManager : (s.callbacks delivered).sipManager = s.sipManager :=
  callbacks_keep (fun s c => (callback_frame s c).2.2.2.2.2.1) delivered s

@[simp] theorem callbacks_queue : (s.callbacks delivered).queue = s.queue :=
  callbacks_keep (fun s c => (callback_frame s c).2.2.2.2.2.2.2.1) delivered s

@[simp] theorem callbacks_ops : (s.callbacks delivered).ops = s.ops :=
  callbacks_keep (fun s c => (callback_frame s c).2.2.2.2.2.2.2.2.1) delivered s

@[simp] theorem callbacks_missedNotification :
    (s.callbacks delivered).missedNotification = s.missedNotification :=
  callbacks_keep (fun s c => (callback_frame s c).2.2.2.2.2.2.2.2.2.1) delivered s

@[simp] theorem callbacks_ringtone : (s.callbacks delivered).ringtone = s.ringtone :=
  callbacks_keep (fun s c => (callback_frame s c).2.2.2.2.2.2.2.2.2.2) delivered s

end

/-! ### The native layer -/

theorem native_of_step {b : Native.Action} (hstep : step s (.native b) = some t) :
    Native.step s.native b = some t.native := by
  obtain ⟨-, g, hg, rfl⟩ := step_native.mp hstep
  rw [callbacks_native]
  exact hg

/-- What the news of a native step does to a part of the state that is neither of the
native layer nor the watchdog. -/
theorem view_native {β : Type} {f : State → β} {F : β → Callback → β}
    (hF : ∀ s c, f (s.callback c) = F (f s) c) (hother : ∀ b c, c.isCall = false → F b c = b)
    (hset : ∀ (s : State) (g : Globals) (w : Bool), f { s with native := g, watchdog := w } = f s)
    {b : Native.Action} (hstep : step s (.native b) = some t) :
    f t = if s.gCallback then t.native.news.foldl (fun x d => F x d.callback) (f s)
      else f s := by
  obtain ⟨-, g, -, rfl⟩ := step_native.mp hstep
  rw [callbacks_view hF hother, callbacks_native, hset]
  rfl

/-- Outside its own thread the native layer is only ever posted to. -/
theorem step_other {a : Action} (ha : ∀ b, a ≠ .native b) (hstep : step s a = some t) :
    t.native = s.native ∨ ∃ w, t.native = Native.remainRun w s.native.begin := by
  cases a with
  | native b => exact absurd rfl (ha b)
  | watchdog silent =>
    obtain ⟨-, rfl | rfl | ⟨-, rfl⟩⟩ := step_watchdog hstep
    · exact .inl rfl
    · exact .inl rfl
    · exact .inr ⟨_, rfl⟩
  | take =>
    obtain ⟨task, rest, -, -, rfl⟩ := step_take.mp hstep
    exact .inl rfl
  | op =>
    obtain ⟨op, rest, -, rfl⟩ := step_op.mp hstep
    cases op with
    | remainRun w => exact .inr ⟨w, rfl⟩
    | nativeReregister => exact .inr ⟨_, rfl⟩
    | _ => exact .inl rfl
  | message =>
    obtain ⟨m, rest, -, rfl⟩ := step_message.mp hstep
    cases m <;> exact .inl rfl
  | ringTimeout =>
    obtain ⟨-, -, rfl⟩ := step_ringTimeout.mp hstep
    unfold State.onRingTimeout
    split <;> exact .inl rfl
  | request r =>
    obtain ⟨-, rfl⟩ := step_request.mp hstep
    have hstop (s : State) :
        s.stop.native = s.native ∨ ∃ w, s.stop.native = Native.remainRun w s.native.begin := by
      unfold State.stop
      split
      · exact .inr ⟨_, rfl⟩
      · exact .inl rfl
    cases r with
    | shutdown => exact hstop s
    | destroy => exact hstop { s with queue := [], ringtone := false }
    | screenOff =>
      unfold Request.run
      simp only
      split <;> exact .inl rfl
    | networkAvailable =>
      unfold Request.run Service.networkAvailable
      simp only
      split <;> exact .inl rfl
    | startCommand =>
      unfold Request.run
      simp only
      split <;> exact .inl rfl
    | _ => exact .inl rfl

/-- Other threads only add to the handlers that wait. -/
theorem line_step_other {a : Action} (ha : ∀ b, a ≠ .native b) (hstep : step s a = some t) :
    t.native.calls = s.native.calls ∧ t.native.gCall = s.native.gCall ∧
      t.native.line = s.native.line ∧ t.native.nextCall = s.native.nextCall ∧
      t.native.dialing = s.native.dialing ∧ ∃ ws, t.native.works = s.native.works ++ ws := by
  obtain hsame | ⟨w, hw⟩ := step_other ha hstep
  · rw [hsame]
    exact ⟨rfl, rfl, rfl, rfl, rfl, [], (List.append_nil _).symm⟩
  · rw [hw, works_remainRun]
    exact ⟨rfl, rfl, rfl, rfl, rfl, [w], rfl⟩

theorem singleLine_step_other (h : SingleLine s.native) {a : Action} (ha : ∀ b, a ≠ .native b)
    (hstep : step s a = some t) : SingleLine t.native := by
  obtain ⟨hcalls, hcall, -⟩ := line_step_other ha hstep
  intro c
  unfold Globals.live
  rw [hcall, hcalls]
  exact h c

theorem projects_native : machine.Projects Native.machine State.native where
  start := by
    rintro _ ⟨account, config, rfl⟩
    exact ⟨account, rfl⟩
  step := by
    intro s a t hstep
    by_cases ha : ∃ b, a = .native b
    · obtain ⟨b, rfl⟩ := ha
      obtain ⟨-, g, hg, rfl⟩ := step_native.mp hstep
      refine ⟨[b], ?_⟩
      rw [callbacks_native]
      exact Native.machine.run_cons_eq_some.mpr ⟨g, hg, rfl⟩
    · obtain hsame | ⟨w, hw⟩ := step_other (fun b hb => ha ⟨b, hb⟩) hstep
      · exact ⟨[], by rw [hsame]; rfl⟩
      · exact ⟨[.post w], by rw [hw]; rfl⟩

theorem coherent_of_reachable (h : machine.Reachable s) : Coherent s.native :=
  Native.coherent_of_reachable (projects_native.reachable h)

/-- A step keeps the native layer coherent. -/
theorem coherent_step (h : Coherent s.native) {a : Action} (hstep : step s a = some t) :
    Coherent t.native := by
  obtain ⟨bs, hbs⟩ := projects_native.step s a t hstep
  exact Machine.run_preserves (fun g b u hg hb => hg.step hb) h hbs

end SimplePhone.Service
