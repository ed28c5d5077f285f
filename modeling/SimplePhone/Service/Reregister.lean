import SimplePhone.Service.Pipeline

/-! Re-registering destroys the user agent and every call with it. The service
looks at no call before it asks for one, so this is safe just as long as the
network and the settings leave the phone alone during calls. -/
namespace SimplePhone.Service

open Native Transition

/-- `reregister_worker` does not run over a live current call. -/
def CallSafe (s : State) (a : Action) : Prop :=
  ∀ lib aor, a = .native (.work lib) → s.native.next = some (.reregister aor) →
    ∀ c, s.native.gCall = some c → c ∉ s.native.live

/-- No call is live and none is being dialled. -/
def Silent (s : State) : Prop :=
  s.native.live = [] ∧ ∀ e ∈ pipeline s, e.isDial = false

/-- A re-registration is asked for in silence, and no caller rings while one is on
its way. -/
def Considerate (s : State) : Action → Prop
  | .request r => Errand.reregister ∈ r.errands s → Silent s
  | .native (.event (.invite _ _ .ringing)) => Errand.reregister ∉ pipeline s
  | _ => True

instance (s : State) : Decidable (Silent s) := inferInstanceAs (Decidable (_ ∧ _))

instance (s : State) (a : Action) : Decidable (Considerate s a) := by
  unfold Considerate
  split <;> infer_instance

/-- While a re-registration is on its way no call is live, and no dial is ahead of it. -/
structure Clear (s : State) : Prop where
  coherent : Coherent s.native
  silent : Errand.reregister ∈ pipeline s → s.native.live = []
  ahead : (pipeline s).Pairwise fun e e' => e' = .reregister → e.isDial = false

theorem clear_initial (account : Buffers) (config : SipConfig) :
    Clear (State.initial account config) := by
  have hnone : pipeline (State.initial account config) = [] := rfl
  exact ⟨coherent_initial account, fun _ => rfl, by rw [hnone]; exact .nil⟩

variable {s t : State}

theorem live_step_other {a : Action} (ha : ∀ b, a ≠ .native b) (hstep : step s a = some t) :
    t.native.live = s.native.live := by
  obtain hsame | ⟨w, hw⟩ := step_other ha hstep
  · rw [hsame]
  · rw [hw]
    rfl

/-- A step of the event loop creates no call while a re-registration is on its way. -/
theorem Clear.live_native (h : Clear s) {b : Native.Action} (hcond : Considerate s (.native b))
    (hstep : step s (.native b) = some t) (hre : Errand.reregister ∈ pipeline t) :
    t.native.live = [] := by
  obtain ⟨g, hg, hnative, hs, ht⟩ := pipeline_native hstep
  have hbefore : Errand.reregister ∈ pipeline s := by
    simpa [Action.errands] using (pipeline_sublist hstep).subset hre
  have hnil := h.silent hbefore
  rw [hnative]
  cases step_effect h.coherent hg with
  | quiet ha hcall hin hlive => rw [hlive, hnil]
  | established hc => simp [hnil] at hc
  | incoming => exact absurd hbefore hcond
  | outgoing hdial =>
    -- the dial that wakes up was ahead of the re-registration
    obtain ⟨uri, -, heq⟩ := nativePipeline_connect hg
    have hahead := h.ahead
    rw [hs, heq] at hahead
    rw [ht] at hre
    have hdialled := (List.pairwise_cons.mp hahead).1 _ hre rfl
    cases hdialled
  | dropped hdial hcall hin hlive => rw [hlive, hnil]
  | closed hc => simp [hnil] at hc
  | hungUp hw hangs hc hcall hin hlive => rw [hlive, hnil]; rfl
  | audioError hc => simp [hnil] at hc
  | turnedAway hresult hcall hin hlive => rw [hlive, hnil]
  | replaced hresult hr => simp [hnil] at hr
  | reregistered hw hcall hin hlive => exact hlive

theorem Clear.step (h : Clear s) {a : Action} (hcond : Considerate s a)
    (hstep : step s a = some t) : Clear t := by
  have hsub := pipeline_sublist hstep
  refine ⟨coherent_step h.coherent hstep, ?_, ?_⟩
  · intro hre
    by_cases ha : ∃ b, a = .native b
    · obtain ⟨b, rfl⟩ := ha
      exact h.live_native hcond hstep hre
    · rw [live_step_other (fun b hb => ha ⟨b, hb⟩) hstep]
      rcases List.mem_append.mp (hsub.subset hre) with hold | hnew
      · exact h.silent hold
      · cases a with
        | request r => exact (hcond hnew).1
        | ringTimeout => simp [Action.errands] at hnew
        | _ => cases hnew
  · apply List.Pairwise.sublist hsub
    apply List.pairwise_append.mpr
    refine ⟨h.ahead, ?_, ?_⟩
    · cases a with
      | request r =>
        cases r <;> simp only [Action.errands, Request.errands] <;> try split
        all_goals simp
      | ringTimeout =>
        simp only [Action.errands]
        split <;> simp
      | _ => exact .nil
    · rintro e he _ hnew rfl
      cases a with
      | request r => exact (hcond hnew).2 e he
      | ringTimeout => simp [Action.errands] at hnew
      | _ => cases hnew

/-- The re-registration that runs next finds no call. -/
theorem Clear.callSafe (h : Clear s) (a : Action) : CallSafe s a := by
  rintro lib aor rfl hnext c hc hlive
  have hmem : Errand.reregister ∈ pipeline s := by
    obtain ⟨p, hp, hw⟩ := Option.map_eq_some_iff.mp hnext
    apply List.mem_append_left
    apply List.mem_append_right
    apply List.mem_filterMap.mpr
    exact ⟨p, List.mem_of_mem_head? hp, by rw [hw]; rfl⟩
  rw [h.silent hmem] at hlive
  cases hlive

/-- In every run of considerate steps re-registration never drops a call. -/
theorem callSafe_of_considerate (account : Buffers) (config : SipConfig) (as : List Action)
    (h : machine.Meets Considerate (State.initial account config) as) :
    machine.Meets CallSafe (State.initial account config) as := by
  apply Machine.meets_of_meets (P := Clear) _ _ (clear_initial account config) h
  · intro s a t hs hcond hstep
    exact hs.step hcond hstep
  · intro s a hs
    exact hs.callSafe a

/-- A call comes and goes, then the network does, and the phone registers again. -/
theorem callSafe_of_considerate_recovery :
    machine.Meets CallSafe (State.initial (nativeInit .sample) .sample) (started ++
      [.native (.event (.invite (utf8 "sip:203@192.0.2.1") none .ringing)),
        .native (.event (.closed 0 [])), .request .networkLost, .request .networkAvailable,
        .take, .op, .native (.work .ok)]) :=
  callSafe_of_considerate (nativeInit .sample) .sample _ (by decide)

/-- The network comes back while a call rings, or a new account is saved during a
conversation: the event loop then re-registers over the call. -/
theorem reregister_drops_call :
    (∃ as s t, machine.run (State.initial (nativeInit .sample) .sample) (started ++ as) = some s ∧
      step s (.native (.work .ok)) = some t ∧ ¬ CallSafe s (.native (.work .ok)) ∧
      s.native.line = .ringing 0 (utf8 "sip:203@192.0.2.1") false ∧ t.native.line = .idle) ∧
    ∃ as s t, machine.run (State.initial (nativeInit .sample) .sample) (started ++ as) = some s ∧
      step s (.native (.work .ok)) = some t ∧ ¬ CallSafe s (.native (.work .ok)) ∧
      s.native.line = .talking 0 (utf8 "sip:203@192.0.2.1") false ∧ t.native.line = .idle := by
  have hdrops (s : State) (aor : Str) (hnext : s.native.next = some (.reregister aor))
      (hcall : s.native.gCall = some 0) (hlive : 0 ∈ s.native.live) :
      ¬ CallSafe s (.native (.work .ok)) :=
    fun h => h .ok aor rfl hnext 0 hcall hlive
  constructor
  · refine ⟨[.native (.event (.invite (utf8 "sip:203@192.0.2.1") none .ringing)),
      .request .networkLost, .request .networkAvailable, .take, .op], _, _, rfl, rfl, ?_, ?_⟩
    · exact hdrops _ _ rfl rfl (by decide)
    · decide
  · refine ⟨[.native (.event (.invite (utf8 "sip:203@192.0.2.1") none .ringing)),
      .request .answerCall, .take, .op, .op, .native (.work .ok),
      .native (.event (.established 0)),
      .request (.saveAndApply { SipConfig.sample with user := utf8 "205" }), .take, .op], _, _,
      rfl, rfl, ?_, ?_⟩
    · exact hdrops _ _ rfl rfl (by decide)
    · decide

end SimplePhone.Service
