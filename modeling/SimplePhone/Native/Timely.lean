import SimplePhone.Native.Watchdog

/-! The watchdog and the wall clock: what it takes for the difference of its two operands
to be time that has really passed since the last receive mark. -/
namespace SimplePhone.Native.Watchdog

open Globals Transition

/-- The last receive mark was more than `RX_TIMEOUT_S` before every timeout hangup. -/
def Timely (s : State) : Prop :=
  ∀ p ∈ s.posts, ∃ m, p.1 = some m ∧ m + 30 * second < p.2

def Chore.flying : Chore → Option UInt32
  | .store v => some v
  | _ => none

/-- Readings of the clock that have not been written yet. -/
def State.inFlight (s : State) : List UInt32 := s.marks ++ s.chores.filterMap Chore.flying

/-- No thread polls, and the handler is not about to start one that would. -/
def State.idle (s : State) : Prop :=
  (∀ pc ∈ s.threads, pc.polls = false) ∧ (s.chores = [] ∨ s.chores.head? = some .sample)

/-- A mark made at `now` does not change what the poll under way finds. -/
def Pc.tolerates (now : UInt32) : Pc → Prop
  | .timed t => t = now
  | .seen v => v = now
  | .judging t v => ¬ silent t v > rxTimeoutS
  | _ => True

/-- Whatever mark it is that the poll reads, it will not post. -/
def Pc.content (last : UInt32) : Pc → Prop
  | .timed t => ¬ silent t last > rxTimeoutS
  | _ => False

/-- A mark made now gets in the way of no poll and of no other mark. -/
def State.calm (s : State) : Prop :=
  (∀ pc ∈ s.threads, pc.tolerates s.time) ∧ ∀ u ∈ s.inFlight, u = s.time

/-- Marks and polls keep out of each other's way, and the clock is not set while it counts. -/
def Steady (s : State) : Action → Prop
  | .frame => s.idle ∨ s.calm
  | .chore => s.chores.head? = some .sample → s.calm
  | .readLast i => (∀ u ∈ s.inFlight, u = s.lastRx) ∨ ∃ pc ∈ s.threads[i]?, pc.content s.lastRx
  | .adjust d => d = 0 ∨ s.idle
  | _ => True

instance (s : State) : Decidable s.idle := inferInstanceAs (Decidable (_ ∧ _))

instance (now : UInt32) (pc : Pc) : Decidable (pc.tolerates now) := by
  unfold Pc.tolerates
  split <;> infer_instance

instance (last : UInt32) (pc : Pc) : Decidable (pc.content last) := by
  unfold Pc.content
  split <;> infer_instance

/-- The elements of the list are tried, not every time there is. -/
instance decidableAllEq (us : List UInt32) (v : UInt32) : Decidable (∀ u ∈ us, u = v) :=
  List.decidableBAll (· = v) us

instance (s : State) : Decidable s.calm := inferInstanceAs (Decidable (_ ∧ _))

instance (s : State) (a : Action) : Decidable (Steady s a) := by
  unfold Steady
  cases a <;> infer_instance

/-! ### What was read, in real time -/

/-- The operands of a poll under way are readings of the clock, as it is set now, of the
last mark and of some time since. -/
def Pc.dated (m now : Nat) (ahead : Int) : Pc → Prop
  | .timed t => ∃ τ, m ≤ τ ∧ τ ≤ now ∧ t = clock τ ahead
  | .seen v => v = clock m ahead
  | .judging t v => silent t v > rxTimeoutS →
      v = clock m ahead ∧ ∃ τ, m ≤ τ ∧ τ ≤ now ∧ t = clock τ ahead
  | _ => True

structure Dated (m : Nat) (s : State) : Prop where
  before : m ≤ s.now
  flying : ∀ u ∈ s.inFlight, u = clock m s.ahead
  landed : s.inFlight = [] → s.lastRx = clock m s.ahead
  threads : ∀ pc ∈ s.threads, pc.dated m s.now s.ahead

/-- As long as it counts, everything is dated by the last mark. -/
structure Sound (s : State) : Prop where
  timely : Timely s
  dated : ¬ s.idle → ∃ m, s.lastMark = some m ∧ Dated m s

variable {s t : State} {a : Action} {i m : Nat}

theorem clock_gap {τ : Nat} {ahead : Int} (hle : m ≤ τ)
    (hgt : silent (clock τ ahead) (clock m ahead) > rxTimeoutS) : m + 30 * second < τ := by
  by_contra hnot
  have hq : ∃ q : Nat, q ≤ 30 ∧
      ((τ + ahead) / second : Int) = (m + ahead) / second + q := by
    have hsecond : (second : Int) = 1000000000 := rfl
    have hnot' : τ ≤ m + 30 * 1000000000 := Nat.not_lt.mp hnot
    refine ⟨((τ + ahead) / second - (m + ahead) / second).toNat, ?_, ?_⟩ <;>
      rw [hsecond] <;> omega
  obtain ⟨q, hq, he⟩ := hq
  have hdiff : silent (clock τ ahead) (clock m ahead) = .ofNat q := by
    unfold silent clock
    rw [he, UInt32.ofInt_add, UInt32.add_comm, UInt32.add_sub_cancel]
    unfold UInt32.ofInt
    congr 1
    omega
  change rxTimeoutS < _ at hgt
  rw [hdiff, UInt32.lt_iff_toNat_lt, UInt32.toNat_ofNat_of_lt' (by unfold UInt32.size; omega)] at hgt
  exact absurd (show (30 : Nat) < q from hgt) (Nat.not_lt.mpr hq)

theorem inFlight_cons {x : Chore} {rest : List Chore} (hc : s.chores = x :: rest) :
    s.inFlight = s.marks ++ (x.flying.toList ++ rest.filterMap Chore.flying) := by
  unfold State.inFlight
  rw [hc]
  cases x <;> rfl

theorem not_idle_of_polls {pc : Pc} (hi : s.threads[i]? = some pc) (hpc : pc.polls = true) :
    ¬ s.idle := by
  intro hidle
  have hmem := List.mem_of_getElem? hi
  rw [hidle.1 pc hmem] at hpc
  cases hpc

/-! ### Steps -/

theorem established_post {g g' : Globals} {w : Work}
    (hstep : Native.step g (.post w) = some g') : established g' = [] := by
  cases step_post.mp hstep
  rfl

theorem Pc.dated.pass {pc : Pc} {now now' : Nat} {ahead : Int} (h : pc.dated m now ahead)
    (hle : now ≤ now') : pc.dated m now' ahead := by
  cases pc with
  | timed t =>
    obtain ⟨τ, hm, hn, ht⟩ := h
    exact ⟨τ, hm, Nat.le_trans hn hle, ht⟩
  | seen v => exact h
  | judging t v =>
    intro hgt
    obtain ⟨hv, τ, hm, hn, ht⟩ := h hgt
    exact ⟨hv, τ, hm, Nat.le_trans hn hle, ht⟩
  | asleep | awake | leaving => trivial

/-- A thread that tolerates a mark has its operands dated by it. -/
theorem Pc.dated_mark {pc : Pc} {now : Nat} {ahead : Int}
    (htol : pc.tolerates (clock now ahead)) : pc.dated now now ahead := by
  cases pc with
  | timed t => exact ⟨now, Nat.le_refl now, Nat.le_refl now, htol⟩
  | seen v => exact htol
  | judging t v => exact fun hgt => absurd hgt htol
  | asleep | awake | leaving => trivial

/-- The mark of a new call, made at a moment that suits everyone, dates everything anew. -/
theorem dated_sample (hcalm : s.calm) (hhead : s.chores.head? = some .sample)
    (hstep : choreStep s = some t) : t.lastMark = some s.now ∧ Dated s.now t := by
  obtain ⟨rest, hc⟩ := List.head?_eq_some_iff.mp hhead
  unfold choreStep at hstep
  rw [hc] at hstep
  cases hstep
  refine ⟨rfl, Nat.le_refl _, ?_, ?_, fun pc hpc => Pc.dated_mark (hcalm.1 pc hpc)⟩
  · intro u hu
    obtain hmark | hchore := List.mem_append.mp hu
    · exact hcalm.2 u (List.mem_append_left _ hmark)
    · obtain rfl | hrest := List.mem_cons.mp hchore
      · rfl
      · apply hcalm.2 u
        rw [inFlight_cons hc]
        exact List.mem_append_right _ hrest
  · intro hnil
    simp [State.inFlight, Chore.flying] at hnil

/-- So does a frame. -/
theorem dated_frame (hcalm : s.calm) (hstep : step s .frame = some t) :
    t.lastMark = some s.now ∧ Dated s.now t := by
  cases hstep
  refine ⟨rfl, Nat.le_refl _, ?_, ?_, fun pc hpc => Pc.dated_mark (hcalm.1 pc hpc)⟩
  · intro u hu
    simp only [State.inFlight, List.append_assoc, List.singleton_append, List.mem_append,
      List.mem_cons] at hu
    obtain hmark | rfl | hchore := hu
    · exact hcalm.2 u (List.mem_append_left _ hmark)
    · rfl
    · exact hcalm.2 u (List.mem_append_right _ hchore)
  · intro hnil
    simp [State.inFlight] at hnil

theorem Dated.native (hd : Dated m s) {a : Native.Action} (hstep : nativeStep s a = some t) :
    t.lastMark = s.lastMark ∧ Dated m t := by
  unfold nativeStep at hstep
  split at hstep
  · rename_i hmay
    obtain ⟨g, hg, rfl⟩ := Option.map_eq_some_iff.mp hstep
    refine ⟨rfl, ?_⟩
    by_cases hest : established g = []
    · simp only [if_pos hest]
      exact ⟨hd.before, hd.flying, hd.landed, hd.threads⟩
    · simp only [if_neg hest]
      have hchores : s.chores = [] := by
        cases a with
        | post w => exact absurd (established_post hg) hest
        | event _ | work _ | connect _ => exact of_decide_eq_true hmay
      have hflight : s.inFlight = s.marks ++ [] := by
        unfold State.inFlight
        rw [hchores]
        rfl
      have hflying := hd.flying
      have hlanded := hd.landed
      rw [hflight] at hflying hlanded
      exact ⟨hd.before, hflying, hlanded, hd.threads⟩
  · cases hstep

/-- The handler goes on after its mark. -/
theorem Dated.chore (hd : Dated m s) (hhead : s.chores.head? ≠ some .sample)
    (hstep : choreStep s = some t) : t.lastMark = s.lastMark ∧ Dated m t := by
  unfold choreStep at hstep
  split at hstep
  · cases hstep
  · rename_i rest hc
    rw [hc] at hhead
    exact absurd rfl hhead
  · rename_i v rest hc
    cases hstep
    have hflight := inFlight_cons hc
    refine ⟨rfl, hd.before, ?_, fun _ => ?_, hd.threads⟩
    · intro u hu
      apply hd.flying u
      rw [hflight]
      obtain hmark | hrest := List.mem_append.mp hu
      · exact List.mem_append_left _ hmark
      · exact List.mem_append_right _ (List.mem_cons_of_mem v hrest)
    · apply hd.flying v
      rw [hflight]
      exact List.mem_append_right _ List.mem_cons_self
  · rename_i rest hc
    have hflight := inFlight_cons hc
    have hflying := hd.flying
    have hlanded := hd.landed
    rw [hflight] at hflying hlanded
    split at hstep
    · cases hstep
      exact ⟨rfl, hd.before, hflying, hlanded, hd.threads⟩
    · cases hstep
      refine ⟨rfl, hd.before, hflying, hlanded, ?_⟩
      intro pc hpc
      obtain hold | hnew := List.mem_append.mp hpc
      · exact hd.threads pc hold
      · rw [List.mem_singleton.mp hnew]
        trivial

/-- The handler ends without a thread. -/
theorem Dated.unstarted (hd : Dated m s) (hstep : unstartedStep s = some t) :
    t.lastMark = s.lastMark ∧ Dated m t := by
  obtain ⟨rest, hc, -, rfl⟩ := unstarted_eq_some hstep
  have hflight := inFlight_cons hc
  have hflying := hd.flying
  have hlanded := hd.landed
  rw [hflight] at hflying hlanded
  exact ⟨rfl, hd.before, hflying, hlanded, hd.threads⟩

/-- Whichever mark there is, `last_rx_s` is read as the last. -/
theorem Dated.reads (hd : Dated m s) (hread : ∀ u ∈ s.inFlight, u = s.lastRx) :
    s.lastRx = clock m s.ahead := by
  cases hf : s.inFlight with
  | nil => exact hd.landed hf
  | cons u rest =>
    have hu : u ∈ s.inFlight := hf ▸ List.mem_cons_self
    exact (hread u hu).symm.trans (hd.flying u hu)

theorem Dated.goto (hd : Dated m s) {pc : Pc} (hpc : pc.dated m s.now s.ahead) :
    Dated m (s.goto i pc) := by
  refine ⟨hd.before, hd.flying, hd.landed, ?_⟩
  intro x hx
  obtain hold | rfl := List.mem_or_eq_of_mem_set hx
  · exact hd.threads x hold
  · exact hpc

/-- The steps of a thread. -/
theorem Dated.readTime (hd : Dated m s) (hstep : step s (.readTime i) = some t) :
    t.lastMark = s.lastMark ∧ Dated m t := by
  simp only [Watchdog.step] at hstep
  split at hstep
  · cases hstep
    exact ⟨rfl, hd.goto ⟨s.now, hd.before, Nat.le_refl _, rfl⟩⟩
  · rename_i v hi
    cases hstep
    refine ⟨rfl, hd.goto fun _ => ⟨?_, s.now, hd.before, Nat.le_refl _, rfl⟩⟩
    exact hd.threads _ (List.mem_of_getElem? hi)
  · cases hstep

theorem Dated.readLast (hd : Dated m s) (hst : Steady s (.readLast i))
    (hstep : step s (.readLast i) = some t) : t.lastMark = s.lastMark ∧ Dated m t := by
  simp only [Watchdog.step] at hstep
  split at hstep
  · rename_i hi
    cases hstep
    refine ⟨rfl, hd.goto ?_⟩
    obtain hread | ⟨pc, hpc, hcontent⟩ := hst
    · exact hd.reads hread
    · rw [hi] at hpc
      obtain rfl := Option.some.inj hpc
      exact hcontent.elim
  · rename_i x hi
    cases hstep
    refine ⟨rfl, hd.goto fun hgt => ?_⟩
    obtain hread | ⟨pc, hpc, hcontent⟩ := hst
    · exact ⟨hd.reads hread, hd.threads _ (List.mem_of_getElem? hi)⟩
    · rw [hi] at hpc
      obtain rfl := Option.some.inj hpc
      exact absurd hgt hcontent
  · cases hstep

theorem Dated.judge (hd : Dated m s) {posted : Bool} (hstep : step s (.judge i posted) = some t) :
    t.lastMark = s.lastMark ∧ Dated m t := by
  have hleft : Dated m (s.goto i .leaving) := hd.goto trivial
  simp only [Watchdog.step] at hstep
  split at hstep
  · split at hstep
    · cases hstep
      exact ⟨rfl, hleft.before, hleft.flying, hleft.landed, hleft.threads⟩
    · cases hstep
      exact ⟨rfl, hd.goto trivial⟩
  · cases hstep

/-- While it counts, a steady step keeps everything dated by the last mark. -/
theorem Dated.step (hd : Dated m s) (hm : s.lastMark = some m) (hbusy : ¬ s.idle)
    (hst : Steady s a) (hstep : step s a = some t) :
    ∃ m', t.lastMark = some m' ∧ m ≤ m' ∧ Dated m' t := by
  have hsame (h : t.lastMark = s.lastMark ∧ Dated m t) :
      ∃ m', t.lastMark = some m' ∧ m ≤ m' ∧ Dated m' t :=
    ⟨m, h.1.trans hm, Nat.le_refl m, h.2⟩
  cases a with
  | native a => exact hsame (hd.native hstep)
  | chore =>
    by_cases hhead : s.chores.head? = some .sample
    · obtain ⟨hmark, hd'⟩ := dated_sample (hst hhead) hhead hstep
      exact ⟨s.now, hmark, hd.before, hd'⟩
    · exact hsame (hd.chore hhead hstep)
  | unstarted => exact hsame (hd.unstarted hstep)
  | frame =>
    obtain ⟨hmark, hd'⟩ := dated_frame (hst.resolve_left hbusy) hstep
    exact ⟨s.now, hmark, hd.before, hd'⟩
  | store i =>
    obtain ⟨v, hv, rfl⟩ := Option.map_eq_some_iff.mp hstep
    refine hsame ⟨rfl, hd.before, ?_, fun _ => ?_, hd.threads⟩
    · intro u hu
      apply hd.flying u
      obtain hmark | hchore := List.mem_append.mp hu
      · exact List.mem_append_left _ (List.mem_of_mem_eraseIdx hmark)
      · exact List.mem_append_right _ hchore
    · exact hd.flying v (List.mem_append_left _ (List.mem_of_getElem? hv))
  | pass n =>
    cases hstep
    refine hsame ⟨rfl, Nat.le_add_right_of_le hd.before, hd.flying, hd.landed, ?_⟩
    exact fun pc hpc => (hd.threads pc hpc).pass (Nat.le_add_right _ n)
  | adjust d =>
    cases hstep
    obtain rfl := hst.resolve_right hbusy
    apply hsame
    rw [Int.add_zero]
    exact ⟨rfl, hd⟩
  | wake i =>
    simp only [Watchdog.step] at hstep
    split at hstep
    · cases hstep
      exact hsame ⟨rfl, hd.goto (by split <;> trivial)⟩
    · cases hstep
  | readTime i => exact hsame (hd.readTime hstep)
  | readLast i => exact hsame (hd.readLast hst hstep)
  | judge i posted => exact hsame (hd.judge hstep)
  | clear i =>
    simp only [Watchdog.step] at hstep
    split at hstep
    · cases hstep
      exact hsame ⟨rfl, hd.before, hd.flying, hd.landed,
        fun pc hpc => hd.threads pc (List.mem_of_mem_eraseIdx hpc)⟩
    · cases hstep

/-- It begins to count with the mark of a call. -/
theorem sample_of_busy (hidle : s.idle) (hbusy : ¬ t.idle) (hstep : step s a = some t) :
    a = .chore ∧ s.chores.head? = some .sample := by
  obtain ⟨hthreads, hchores⟩ := hidle
  have hquiet {i : Nat} {pc : Pc} (hpc : pc.polls = true) : s.threads[i]? ≠ some pc := by
    intro hi
    exact not_idle_of_polls hi hpc ⟨hthreads, hchores⟩
  cases a with
  | native a =>
    simp only [Watchdog.step, nativeStep] at hstep
    split at hstep
    · obtain ⟨g, hg, rfl⟩ := Option.map_eq_some_iff.mp hstep
      refine absurd ⟨hthreads, ?_⟩ hbusy
      by_cases hest : established g = []
      · simp only [if_pos hest]
        exact hchores
      · simp [hest]
    · cases hstep
  | chore =>
    obtain hnil | hhead := hchores
    · simp only [Watchdog.step, choreStep, hnil] at hstep
      cases hstep
    · exact ⟨rfl, hhead⟩
  | unstarted =>
    obtain ⟨rest, hc, -, rfl⟩ := unstarted_eq_some hstep
    rw [hc] at hchores
    obtain hnil | hhead := hchores
    · cases hnil
    · cases hhead
  | frame | pass _ | adjust _ =>
    cases hstep
    exact absurd ⟨hthreads, hchores⟩ hbusy
  | store i =>
    obtain ⟨v, -, rfl⟩ := Option.map_eq_some_iff.mp hstep
    exact absurd ⟨hthreads, hchores⟩ hbusy
  | wake i | readTime i | readLast i | judge i posted =>
    simp only [Watchdog.step] at hstep
    split at hstep
    all_goals first
      | exact absurd (by assumption) (hquiet rfl)
      | cases hstep
  | clear i =>
    simp only [Watchdog.step] at hstep
    split at hstep
    · cases hstep
      exact absurd ⟨fun pc hpc => hthreads pc (List.mem_of_mem_eraseIdx hpc), hchores⟩ hbusy
    · cases hstep

/-- What is posted on dated operands comes late enough. -/
theorem Dated.late (hd : Dated m s) {x v : UInt32} (hi : s.threads[i]? = some (.judging x v))
    (hgt : silent x v > rxTimeoutS) : m + 30 * second < s.now := by
  obtain ⟨rfl, τ, hle, hnow, rfl⟩ := hd.threads _ (List.mem_of_getElem? hi) hgt
  exact Nat.lt_of_lt_of_le (clock_gap hle hgt) hnow

theorem Sound.step (h : Sound s) (hst : Steady s a) (hstep : step s a = some t) : Sound t := by
  constructor
  · intro p hp
    obtain ⟨b, -, hnative⟩ | ⟨i, x, v, -, hi, hgt, rfl⟩ | haside := step_cases hstep
    · obtain ⟨-, -, -, hposts, -⟩ := nativeStep_fields hnative
      rw [hposts] at hp
      exact h.timely p hp
    · obtain rfl | hold := List.mem_cons.mp hp
      · obtain ⟨m, hm, hd⟩ := h.dated (not_idle_of_polls hi rfl)
        exact ⟨m, hm, hd.late hi hgt⟩
      · exact h.timely p hold
    · rw [haside.posts] at hp
      exact h.timely p hp
  · intro hbusy
    by_cases hidle : s.idle
    · obtain ⟨rfl, hhead⟩ := sample_of_busy hidle hbusy hstep
      exact ⟨s.now, dated_sample (hst hhead) hhead hstep⟩
    · obtain ⟨m, hm, hd⟩ := h.dated hidle
      obtain ⟨m', hm', -, hd'⟩ := hd.step hm hidle hst hstep
      exact ⟨m', hm', hd'⟩

theorem sound_initial (account : Buffers) (now : Nat) (ahead : Int) :
    Sound (State.initial account now ahead) := by
  constructor
  · intro p hp
    cases hp
  · have hidle : (State.initial account now ahead).idle := ⟨fun pc hpc => (nomatch hpc), .inl rfl⟩
    exact fun hbusy => absurd hidle hbusy

/-- In a run that keeps the marks, the polls and the settings of the clock apart, no
timeout comes too early. -/
theorem timely_of_steady {s : State} {as : List Action} (hs : machine.start s)
    (h : machine.Meets Steady s as) : machine.Always Timely s as := by
  obtain ⟨account, now, ahead, rfl⟩ := hs
  have hsound := Machine.always_of_meets (m := machine) (fun s a t h hst hstep => h.step hst hstep)
    (sound_initial account now ahead) h
  exact hsound.imp fun s h => h.timely

/-- A call whose media stop at once. -/
theorem timely_of_steady_silence :
    machine.Always Timely (State.initial (nativeInit .sample) (10 * second) 0)
      (pickUp ++ [.pass (31 * second), .wake 0, .readTime 0, .readLast 0, .judge 0 true]) :=
  timely_of_steady ⟨_, _, _, rfl⟩ (by decide +kernel)

/-- The clock is set back by ten seconds during a call; and a frame comes in between the
two operands of the poll, just after a new second has begun. -/
theorem timeout_too_early :
    (∃ as s, machine.run (State.initial (nativeInit .sample) (10 * second) 0) as = some s ∧
      s.posts = [(some (10 * second), 15 * second)] ∧ ¬ Timely s) ∧
    ∃ as s, machine.run (State.initial (nativeInit .sample) (10 * second) 0) as = some s ∧
      s.posts = [(some (16 * second), 16 * second)] ∧ ¬ Timely s := by
  have hearly (as : List Action) {m n : Nat} (hn : n ≤ m + 30 * second)
      (hrun : (machine.run (State.initial (nativeInit .sample) (10 * second) 0) as).map State.posts =
        some [(some m, n)]) :
      ∃ as s, machine.run (State.initial (nativeInit .sample) (10 * second) 0) as = some s ∧
        s.posts = [(some m, n)] ∧ ¬ Timely s := by
    obtain ⟨s, hs, hposts⟩ := Option.map_eq_some_iff.mp hrun
    refine ⟨as, s, hs, hposts, fun h => ?_⟩
    obtain ⟨m', hm, hlt⟩ := h (some m, n) (hposts ▸ List.mem_cons_self)
    obtain rfl := Option.some.inj hm
    exact absurd hlt (Nat.not_lt.mpr hn)
  constructor
  · exact hearly (pickUp ++ [.adjust (-10 * second), .pass (5 * second), .wake 0,
      .readTime 0, .readLast 0, .judge 0 true]) (by decide) (by decide +kernel)
  · exact hearly (pickUp ++ [.pass (6 * second - 1), .wake 0, .readTime 0, .pass 1, .frame,
      .store 0, .readLast 0, .judge 0 true]) (by decide) (by decide +kernel)

end SimplePhone.Native.Watchdog
