import SimplePhone.Native.Proper
import SimplePhone.Native.Watchdog

/-! Who watches the calls: never more than one watchdog, and one for every established
call as long as none is on its way out when it is needed. -/
namespace SimplePhone.Native.Watchdog

open Globals Transition

/-- The established calls whose timeout hangup has not been posted. -/
def State.charges (s : State) : List CallId :=
  (s.native.calls.filter fun x => x.state = .established ∧ x.id ∉ s.sentenced).map Call.id

/-- While there is such a call, exactly one thread is in its loop. -/
def Guarded (s : State) : Prop :=
  s.chores = [] → s.charges ≠ [] → s.threads.countP Pc.polls = 1

/-- `watchdog_start` does not come upon a thread that has left its loop and not cleared the
flag, it gets its thread, and no thread leaves a call behind that it does not see in
`g_call`. -/
def Attended (s : State) : Action → Prop
  | .chore => s.chores = [.start] → s.charges ≠ [] → .leaving ∉ s.threads
  | .unstarted => s.charges = []
  | .wake i => s.threads[i]? = some .asleep → s.chores = [] → s.native.gCall = none → s.charges = []
  | .judge i posted => s.threads[i]?.any Pc.condemns → posted = true → s.chores = [] →
      ∀ c ∈ s.charges, s.native.gCall = some c
  | _ => True

/-- Holds in every reachable state. -/
structure Manned (s : State) : Prop where
  coherent : Coherent s.native
  chores : s.chores = [] ∨ s.chores = [.sample, .start] ∨ (∃ v, s.chores = [.store v, .start]) ∨
    s.chores = [.start]
  threads : s.running = false ∧ s.threads = [] ∨ s.running = true ∧ ∃ pc, s.threads = [pc]

variable {s t : State} {a : Action} {i : Nat}

theorem manned_initial (account : Buffers) (now : Nat) (ahead : Int) :
    Manned (State.initial account now ahead) :=
  ⟨coherent_initial account, .inl rfl, .inl ⟨rfl, rfl⟩⟩

theorem mem_charges {c : CallId} : c ∈ s.charges ↔
    ∃ x ∈ s.native.calls, x.state = .established ∧ x.id = c ∧ c ∉ s.sentenced := by
  unfold State.charges
  simp only [List.mem_map, List.mem_filter, decide_eq_true_eq]
  constructor
  · rintro ⟨x, ⟨hx, hst, hns⟩, rfl⟩
    exact ⟨x, hx, hst, rfl, hns⟩
  · rintro ⟨x, hx, hst, rfl, hns⟩
    exact ⟨x, ⟨hx, hst, hns⟩, rfl⟩

/-- The thread there is. -/
theorem Manned.thread (h : Manned s) {pc : Pc} (hi : s.threads[i]? = some pc) :
    s.running = true ∧ s.threads = [pc] ∧ i = 0 := by
  obtain ⟨-, hnil⟩ | ⟨hrun, x, hx⟩ := h.threads
  · rw [hnil] at hi
    cases hi
  · rw [hx] at hi
    cases i with
    | zero =>
      obtain rfl := Option.some.inj hi
      exact ⟨hrun, hx, rfl⟩
    | succ i => cases hi

/-! ### Steps of `re_main` -/

/-- Only `UA_EVENT_CALL_ESTABLISHED` makes an established call. -/
theorem established_mem {g g' : Globals} {a : Native.Action} (hco : Coherent g)
    (hstep : Native.step g a = some g') (hest : established g' = []) {x : Call} (hx : x ∈ g'.calls)
    (hst : x.state = .established) : ∃ y ∈ g.calls, y.id = x.id ∧ y.state = .established := by
  have hbefore : Each (fun c _ st => st = .established → ∃ y ∈ g.calls, y.id = c ∧
      y.state = .established) g := fun y hy hst => ⟨y, hy, rfl, hst⟩
  refine hbefore.step ⟨nofun, nofun, fun y _ _ => ⟨nofun, nofun⟩⟩ hco ?_ hstep x hx hst
  rintro c rfl
  obtain ⟨-, -, rfl⟩ := step_event.mp hstep
  cases hest

theorem Manned.native (h : Manned s) {a : Native.Action} (hstep : nativeStep s a = some t) :
    Manned t := by
  unfold nativeStep at hstep
  split at hstep
  · obtain ⟨g, hg, rfl⟩ := Option.map_eq_some_iff.mp hstep
    refine ⟨h.coherent.step hg, ?_, h.threads⟩
    change (if established g = [] then s.chores else [.sample, .start]) = [] ∨ _
    by_cases hest : established g = []
    · simp only [if_pos hest]
      exact h.chores
    · simp [hest]
  · cases hstep

theorem Guarded.native (h : Guarded s) (hm : Manned s) {a : Native.Action}
    (hstep : nativeStep s a = some t) : Guarded t := by
  unfold nativeStep at hstep
  split at hstep
  · obtain ⟨g, hg, rfl⟩ := Option.map_eq_some_iff.mp hstep
    intro hchores hcharges
    by_cases hest : established g = []
    · rw [if_pos hest] at hchores
      apply h hchores
      obtain ⟨c, hc⟩ := List.exists_mem_of_ne_nil _ hcharges
      obtain ⟨x, hx, hst, rfl, hns⟩ := mem_charges.mp hc
      obtain ⟨y, hy, hid, hyst⟩ := established_mem hm.coherent hg hest hx hst
      exact List.ne_nil_of_mem (mem_charges.mpr ⟨y, hy, hyst, hid, hns⟩)
    · rw [if_neg hest] at hchores
      cases hchores
  · cases hstep

/-! ### Steps of the handler and of the thread -/

theorem Manned.chore (h : Manned s) (hstep : choreStep s = some t) : Manned t := by
  unfold choreStep at hstep
  obtain hc | hc | ⟨v, hc⟩ | hc := h.chores
  · rw [hc] at hstep
    cases hstep
  · rw [hc] at hstep
    cases hstep
    exact ⟨h.coherent, .inr (.inr (.inl ⟨_, rfl⟩)), h.threads⟩
  · rw [hc] at hstep
    cases hstep
    exact ⟨h.coherent, .inr (.inr (.inr rfl)), h.threads⟩
  · rw [hc] at hstep
    obtain ⟨hrun, hthreads⟩ | ⟨hrun, pc, hthreads⟩ := h.threads
    · simp only [hrun, Bool.false_eq_true, if_false, Option.some.injEq] at hstep
      subst hstep
      refine ⟨h.coherent, .inl rfl, .inr ⟨rfl, .asleep, ?_⟩⟩
      rw [hthreads]
      rfl
    · simp only [hrun, if_true, Option.some.injEq] at hstep
      subst hstep
      exact ⟨h.coherent, .inl rfl, .inr ⟨rfl, pc, hthreads⟩⟩

/-- The handler has nothing left to do when it starts the thread. -/
theorem Manned.unstarted (h : Manned s) (hstep : unstartedStep s = some t) :
    s.threads = [] ∧ t = { s with chores := [] } := by
  obtain ⟨rest, hc, hrun, rfl⟩ := unstarted_eq_some hstep
  have hnil : rest = [] := by
    rcases h.chores with hchores | hchores | ⟨v, hchores⟩ | hchores <;> rw [hc] at hchores <;>
      cases hchores
    rfl
  have hthreads : s.threads = [] := by
    rcases h.threads with ⟨-, hthreads⟩ | ⟨hrun', -⟩
    · exact hthreads
    · rw [hrun] at hrun'
      cases hrun'
  rw [hnil]
  exact ⟨hthreads, rfl⟩

theorem Manned.step (h : Manned s) (hstep : step s a = some t) : Manned t := by
  have hgoto {i : Nat} {pc pc' : Pc} (hi : s.threads[i]? = some pc) : Manned (s.goto i pc') := by
    obtain ⟨hrun, hthreads, rfl⟩ := h.thread hi
    refine ⟨h.coherent, h.chores, .inr ⟨hrun, pc', ?_⟩⟩
    unfold State.goto
    rw [hthreads]
    rfl
  cases a with
  | native a => exact h.native hstep
  | chore => exact h.chore hstep
  | unstarted =>
    obtain ⟨-, rfl⟩ := h.unstarted hstep
    exact ⟨h.coherent, .inl rfl, h.threads⟩
  | frame =>
    cases hstep
    exact ⟨h.coherent, h.chores, h.threads⟩
  | store i =>
    obtain ⟨v, -, rfl⟩ := Option.map_eq_some_iff.mp hstep
    exact ⟨h.coherent, h.chores, h.threads⟩
  | pass n =>
    cases hstep
    exact ⟨h.coherent, h.chores, h.threads⟩
  | adjust d =>
    cases hstep
    exact ⟨h.coherent, h.chores, h.threads⟩
  | wake i =>
    simp only [Watchdog.step] at hstep
    split at hstep
    · cases hstep
      exact hgoto (by assumption)
    · cases hstep
  | readTime i =>
    simp only [Watchdog.step] at hstep
    split at hstep
    · cases hstep
      exact hgoto (by assumption)
    · cases hstep
      exact hgoto (by assumption)
    · cases hstep
  | readLast i =>
    simp only [Watchdog.step] at hstep
    split at hstep
    · cases hstep
      exact hgoto (by assumption)
    · cases hstep
      exact hgoto (by assumption)
    · cases hstep
  | judge i posted =>
    simp only [Watchdog.step] at hstep
    split at hstep
    · rename_i x v hi
      split at hstep
      · cases hstep
        have hleft : Manned (s.goto i .leaving) := hgoto hi
        exact ⟨h.coherent.step (a := .post .timeoutHangup) rfl, hleft.chores, hleft.threads⟩
      · cases hstep
        exact hgoto hi
    · cases hstep
  | clear i =>
    simp only [Watchdog.step] at hstep
    split at hstep
    · rename_i hi
      cases hstep
      obtain ⟨-, hthreads, rfl⟩ := h.thread hi
      refine ⟨h.coherent, h.chores, .inl ⟨rfl, ?_⟩⟩
      rw [hthreads]
      rfl
    · cases hstep

/-- A thread in its loop stays there. -/
theorem Manned.guarded_goto (hm : Manned s) {pc pc' : Pc} (hi : s.threads[i]? = some pc)
    (hpc : pc'.polls = true) : Guarded (s.goto i pc') := by
  intro _ _
  obtain ⟨-, hthreads, rfl⟩ := hm.thread hi
  unfold State.goto
  rw [hthreads]
  simp [hpc]

theorem guarded_chore (hm : Manned s) (hstep : choreStep s = some t) :
    Guarded t ↔ Attended s .chore := by
  unfold choreStep at hstep
  obtain hc | hc | ⟨v, hc⟩ | hc := hm.chores
  · rw [hc] at hstep
    cases hstep
  · rw [hc] at hstep
    cases hstep
    exact iff_of_true (fun hnil => nomatch hnil) (fun hstart => by rw [hc] at hstart; cases hstart)
  · rw [hc] at hstep
    cases hstep
    exact iff_of_true (fun hnil => nomatch hnil) (fun hstart => by rw [hc] at hstart; cases hstart)
  · rw [hc] at hstep
    obtain ⟨hrun, hthreads⟩ | ⟨hrun, pc, hthreads⟩ := hm.threads
    · simp only [hrun, Bool.false_eq_true, if_false, Option.some.injEq] at hstep
      subst hstep
      refine iff_of_true (fun _ _ => ?_) (fun _ _ => ?_)
      · rw [hthreads]
        rfl
      · rw [hthreads]
        exact List.not_mem_nil
    · simp only [hrun, if_true, Option.some.injEq] at hstep
      subst hstep
      have hone : s.threads.countP Pc.polls = 1 ↔ .leaving ∉ s.threads := by
        rw [hthreads]
        cases pc <;> simp [Pc.polls]
      exact ⟨fun h _ hcharges => hone.mp (h rfl hcharges),
        fun h _ hcharges => hone.mpr (h hc hcharges)⟩

theorem guarded_unstarted (hm : Manned s) (hstep : unstartedStep s = some t) :
    Guarded t ↔ Attended s .unstarted := by
  obtain ⟨hthreads, rfl⟩ := hm.unstarted hstep
  constructor
  · intro h
    by_contra hcharges
    have hone := h rfl hcharges
    change s.threads.countP Pc.polls = 1 at hone
    rw [hthreads] at hone
    cases hone
  · exact fun hnone _ hcharges => absurd hnone hcharges

theorem guarded_wake (hm : Manned s) (hstep : step s (.wake i) = some t) :
    Guarded t ↔ Attended s (.wake i) := by
  simp only [Watchdog.step] at hstep
  split at hstep
  · rename_i hi
    cases hstep
    obtain ⟨-, hthreads, rfl⟩ := hm.thread hi
    by_cases hcall : s.native.gCall = none
    · rw [if_pos hcall]
      constructor
      · intro h _ hchores _
        by_contra hcharges
        have hone := h hchores hcharges
        unfold State.goto at hone
        rw [hthreads] at hone
        cases hone
      · exact fun h hchores hcharges => absurd (h hi hchores hcall) hcharges
    · rw [if_neg hcall]
      exact iff_of_true (hm.guarded_goto hi rfl) fun _ _ hnone => absurd hnone hcall
  · cases hstep

/-- A thread that posts drops the call it sees. -/
theorem mem_charges_post {c : CallId} :
    c ∈ (s.post.goto i .leaving).charges ↔ c ∈ s.charges ∧ s.native.gCall ≠ some c := by
  have hcalls : (s.post.goto i .leaving).native.calls = s.native.calls := rfl
  have hsent : (s.post.goto i .leaving).sentenced = s.native.gCall.toList ++ s.sentenced := rfl
  simp only [mem_charges, hcalls, hsent, List.mem_append, Option.mem_toList, not_or]
  constructor
  · rintro ⟨x, hx, hst, hid, hnc, hns⟩
    exact ⟨⟨x, hx, hst, hid, hns⟩, hnc⟩
  · rintro ⟨⟨x, hx, hst, hid, hns⟩, hnc⟩
    exact ⟨x, hx, hst, hid, hnc, hns⟩

theorem guarded_judge (hm : Manned s) {posted : Bool}
    (hstep : step s (.judge i posted) = some t) : Guarded t ↔ Attended s (.judge i posted) := by
  simp only [Watchdog.step] at hstep
  split at hstep
  · rename_i x v hi
    split at hstep
    · rename_i hpost
      cases hstep
      obtain ⟨-, hthreads, rfl⟩ := hm.thread hi
      have hnone : (s.post.goto 0 .leaving).threads.countP Pc.polls ≠ 1 := by
        change (s.threads.set 0 .leaving).countP Pc.polls ≠ 1
        rw [hthreads]
        simp [Pc.polls]
      have hcond : s.threads[0]?.any Pc.condemns = true := by
        rw [hi]
        exact decide_eq_true hpost.1
      constructor
      · intro h _ _ hchores c hc
        by_contra hne
        exact hnone (h hchores (List.ne_nil_of_mem (mem_charges_post.mpr ⟨hc, hne⟩)))
      · intro h hchores hcharges
        obtain ⟨c, hc⟩ := List.exists_mem_of_ne_nil _ hcharges
        obtain ⟨hc, hne⟩ := mem_charges_post.mp hc
        exact absurd (h hcond hpost.2 hchores c hc) hne
    · rename_i hquiet
      cases hstep
      refine iff_of_true (hm.guarded_goto hi rfl) ?_
      intro hcond hposted
      rw [hi] at hcond
      exact absurd ⟨of_decide_eq_true hcond, hposted⟩ hquiet
  · cases hstep

/-- A step keeps every call guarded exactly if it is attended. -/
theorem guarded_step (hm : Manned s) (hg : Guarded s) (hstep : step s a = some t) :
    Guarded t ↔ Attended s a := by
  cases a with
  | native a => exact iff_of_true (hg.native hm hstep) trivial
  | chore => exact guarded_chore hm hstep
  | unstarted => exact guarded_unstarted hm hstep
  | frame =>
    cases hstep
    exact iff_of_true hg trivial
  | store i =>
    obtain ⟨v, -, rfl⟩ := Option.map_eq_some_iff.mp hstep
    exact iff_of_true hg trivial
  | pass n =>
    cases hstep
    exact iff_of_true hg trivial
  | adjust d =>
    cases hstep
    exact iff_of_true hg trivial
  | wake i => exact guarded_wake hm hstep
  | readTime i =>
    refine iff_of_true ?_ trivial
    simp only [Watchdog.step] at hstep
    split at hstep
    · cases hstep
      exact hm.guarded_goto (by assumption) rfl
    · cases hstep
      exact hm.guarded_goto (by assumption) rfl
    · cases hstep
  | readLast i =>
    refine iff_of_true ?_ trivial
    simp only [Watchdog.step] at hstep
    split at hstep
    · cases hstep
      exact hm.guarded_goto (by assumption) rfl
    · cases hstep
      exact hm.guarded_goto (by assumption) rfl
    · cases hstep
  | judge i posted => exact guarded_judge hm hstep
  | clear i =>
    refine iff_of_true ?_ trivial
    simp only [Watchdog.step] at hstep
    split at hstep
    · rename_i hi
      cases hstep
      obtain ⟨-, hthreads, rfl⟩ := hm.thread hi
      intro hchores hcharges
      have hone := hg hchores hcharges
      rw [hthreads] at hone
      cases hone
    · cases hstep

/-- At every moment of a run every established call has its one watchdog, exactly if
every step of the run is attended. -/
theorem guarded_iff_attended (account : Buffers) (now : Nat) (ahead : Int) (as : List Action) :
    machine.Always Guarded (State.initial account now ahead) as ↔
      machine.Meets Attended (State.initial account now ahead) as := by
  apply Machine.always_iff_meets (I := fun s => Manned s ∧ Guarded s)
  · exact fun s h => h.2
  · exact fun s a t h hstep => guarded_step h.1 h.2 hstep
  · exact fun s a t h hatt hstep => ⟨h.1.step hstep, (guarded_step h.1 h.2 hstep).mpr hatt⟩
  · exact ⟨manned_initial account now ahead, fun _ hcharges => absurd rfl hcharges⟩

/-- The other side hangs up, the watchdog sees it and leaves its loop; before it clears the
flag the next call is answered, and nobody watches that one. -/
theorem unguarded : ∃ as s,
    machine.run (State.initial (nativeInit .sample) (10 * second) 0) as = some s ∧
      s.charges = [1] ∧ s.threads = [] ∧ ¬ Guarded s := by
  have hrun : (machine.run (State.initial (nativeInit .sample) (10 * second) 0)
      (pickUp ++ [.native (.event (.closed 0 (utf8 "Connection reset by peer"))),
        .pass (5 * second), .wake 0,
        .native (.event (.invite (utf8 "sip:204@192.0.2.1") none .ringing)),
        .native (.post .answer), .native (.work .ok), .native (.event (.established 1)),
        .chore, .chore, .chore, .clear 0])).map
          (fun s => (s.chores, s.charges, s.threads)) = some ([], [1], []) := by
    decide +kernel
  obtain ⟨s, hs, hfields⟩ := Option.map_eq_some_iff.mp hrun
  obtain ⟨hchores, hcharges, hthreads⟩ : s.chores = [] ∧ s.charges = [1] ∧ s.threads = [] := by
    simpa using hfields
  refine ⟨_, s, hs, hcharges, hthreads, fun h => ?_⟩
  have hone := h hchores (by rw [hcharges]; exact List.cons_ne_nil 1 [])
  rw [hthreads] at hone
  cases hone

end SimplePhone.Native.Watchdog
