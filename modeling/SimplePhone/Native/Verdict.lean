import SimplePhone.Native.Guarded
import SimplePhone.Native.Timely
import SimplePhone.Native.Waiting

/-! Whom the watchdog hangs up. The thread of an earlier call may still poll when the
next one rings, and the hangup it posts hits the call that is current when it runs. -/
namespace SimplePhone.Native.Watchdog

open Globals Transition

/-- Whoever was hung up had been talking for `RX_TIMEOUT_S`. -/
def Deserved (s : State) : Prop :=
  ∀ v ∈ s.victims, v.call.state = .established ∧ ∃ e, v.since = some e ∧ e + 30 * second ≤ v.time

/-- The current call has not been established for that long. -/
def State.young (s : State) : Prop :=
  ∃ c ∈ s.native.gCall, ∃ e ∈ s.since c, s.now < e + 30 * second

instance (s : State) : Decidable s.young := by
  unfold State.young
  infer_instance

/-- No hangup is posted against a call that has not been established, or has not been marked
for it yet; none hits another call than the one it was posted against; and during the first
30 seconds marks, polls and settings of the clock keep apart. -/
def Sparing (s : State) : Action → Prop
  | .native (.work _) => s.native.next = some .timeoutHangup →
      s.native.gCall = none ∨ s.native.posted.head?.map Post.target = some s.native.gCall
  | .judge i posted => s.threads[i]?.any Pc.condemns → posted = true →
      (∀ c ∈ s.native.gCall, s.since c ≠ none) ∧ (s.young → s.chores.head? ≠ some .sample)
  | a => s.young → Steady s a

instance (s : State) (a : Action) : Decidable (Sparing s a) := by
  unfold Sparing
  exact match a with
    | .native (.work _) => inferInstance
    | .judge _ _ => inferInstance
    | .native (.event _) | .native (.post _) | .native (.connect _) | .chore | .unstarted | .frame
    | .store _ | .pass _ | .adjust _ | .wake _ | .readTime _ | .readLast _ | .clear _ => inferInstance

/-- The calls that have been established. -/
def State.established (s : State) : List CallId := s.begun.map Prod.fst

/-- Holds in every reachable state. -/
structure Recorded (s : State) : Prop where
  coherent : Coherent s.native
  state : Each (fun c _ st => st = .established ↔ c ∈ s.established) s.native
  fresh : ∀ c ∈ s.established, c < s.native.nextCall
  past : ∀ p ∈ s.begun, p.2 ≤ s.now

/-- What the steps so far have spared. -/
structure Just (s : State) : Prop extends Recorded s where
  dated : ∀ c ∈ s.native.gCall, ∀ e ∈ s.since c, s.now < e + 30 * second →
    s.chores.head? ≠ some .sample → ¬ s.idle → ∃ m, s.lastMark = some m ∧ e ≤ m ∧ Dated m s
  posted : ∀ p ∈ s.native.posted, p.work = .timeoutHangup →
    ∀ c ∈ p.target, ∃ e ∈ s.since c, e + 30 * second ≤ s.now
  deserved : Deserved s

variable {s t : State} {a : Action} {c : CallId}

theorem mem_of_since {e : Nat} (h : s.since c = some e) : (c, e) ∈ s.begun := by
  obtain ⟨p, hp, rfl⟩ := Option.map_eq_some_iff.mp h
  have hid : p.1 = c := by simpa using List.find?_some hp
  rw [← hid]
  exact List.mem_of_find?_eq_some hp

/-! ### Calls that get established -/

theorem established_of_news {g : Globals} {l : List Delivery} (h : g.news = l) :
    Watchdog.established g =
      l.filterMap fun d => if d.callback = .onCallStarted then d.cause else none := by
  rw [← h]
  unfold Watchdog.established Globals.news
  rw [List.filterMap_filter]
  congr 1
  funext d
  cases d.callback <;> rfl

theorem established_step {g g' : Globals} {a : Native.Action} (hco : Coherent g)
    (hstep : Native.step g a = some g') : Watchdog.established g' =
      match a with
      | .event (.established c) => [c]
      | _ => [] := by
  cases step_effect hco hstep with
  | quiet ha hcall hin hlive hnext hnews hua =>
    rw [established_of_news hnews]
    cases a with
    | event e =>
      cases e with
      | established c => cases ha
      | _ => rfl
    | post w => rfl
    | work lib => rfl
    | connect result => cases result <;> rfl
  | established hc hconf hcall hin hlive hnext hnews hua hfind =>
    rw [established_of_news hnews]
    rfl
  | incoming hidle hcall hin hlive hnext hnews hua hfind =>
    rw [established_of_news hnews]
    rfl
  | outgoing hdial hcall hin hlive hnext hnews hua hfind =>
    rw [established_of_news hnews]
    rfl
  | dropped hdial hcall hin hlive hnext hnews hua =>
    rw [established_of_news hnews]
    rfl
  | closed hc hcall hin hlive hnext hnews hua =>
    rw [established_of_news hnews]
    split <;> rfl
  | hungUp hw hangs hc hcall hin hlive hnext hnews hua =>
    rw [established_of_news hnews]
    rfl
  | audioError hc hcall hin hlive hnext hnews hua =>
    rw [established_of_news hnews]
    split <;> rfl
  | turnedAway hresult hcall hin hlive hnext hnews hua =>
    rw [established_of_news hnews]
    split <;> rfl
  | replaced hresult hr hcall hin hlive hnext hnews hua hfind =>
    rw [established_of_news hnews]
    split <;> split <;> rfl
  | reregistered hw hcall hin hlive hnext hnews =>
    rw [established_of_news hnews]
    rfl

/-- Otherwise the current call stays, goes or is a new one. -/
theorem gCall_step {g g' : Globals} {a : Native.Action} (hco : Coherent g)
    (hstep : Native.step g a = some g') (hother : ∀ c, a ≠ .event (.established c)) :
    g'.gCall = g.gCall ∨ g'.gCall = none ∨ g'.gCall = some g.nextCall := by
  cases step_effect hco hstep with
  | quiet ha hcall => exact .inl hcall
  | established => exact absurd rfl (hother _)
  | incoming hidle hcall | outgoing hdial hcall | dropped hdial hcall =>
    exact .inr (.inr hcall)
  | closed hc hcall | hungUp hw hangs hc hcall | audioError hc hcall | turnedAway hresult hcall
  | reregistered hw hcall => exact .inr (.inl hcall)
  | replaced hresult hr hcall =>
    split at hcall
    · exact .inr (.inr hcall)
    · exact .inr (.inl hcall)

/-- Nobody is established twice. -/
theorem Recorded.new (h : Recorded s) {g : Globals}
    (hg : Native.step s.native (.event (.established c)) = some g) :
    c ∈ s.native.live ∧ c ∉ s.established := by
  obtain ⟨-, henabled, -⟩ := step_event.mp hg
  have hconf : (s.native.find c).any Call.confirmable = true := henabled
  obtain ⟨x, hx⟩ : ∃ x, s.native.find c = some x := by
    cases hf : s.native.find c with
    | none =>
      rw [hf] at hconf
      cases hconf
    | some x => exact ⟨x, rfl⟩
  have hid : x.id = c := by simpa using List.find?_some hx
  rw [hx] at hconf
  have hst : x.state ≠ .established := by
    intro hst
    simp [Call.confirmable, Call.dialing, hst] at hconf
  refine ⟨live_of_find hx, fun hmem => hst ?_⟩
  rw [← hid] at hmem
  exact (h.state x (List.mem_of_find?_eq_some hx)).mpr hmem

theorem Recorded.native (h : Recorded s) {a : Native.Action} (hstep : nativeStep s a = some t) :
    Recorded t ∧ ∀ c ∈ s.established, t.since c = s.since c := by
  unfold nativeStep at hstep
  split at hstep
  · obtain ⟨g, hg, rfl⟩ := Option.map_eq_some_iff.mp hstep
    have hmono := nextCall_mono h.coherent hg
    by_cases ha : ∃ c, a = .event (.established c)
    · obtain ⟨c, rfl⟩ := ha
      have hest : Watchdog.established g = [c] := established_step h.coherent hg
      obtain ⟨hlive, hnew⟩ := h.new hg
      simp only [hest]
      refine ⟨⟨h.coherent.step hg, ?_, ?_, ?_⟩, ?_⟩
      · refine each_established (fun x hx hne => ?_) (fun _ => ?_) hg
        · exact (h.state x hx).trans ⟨List.mem_cons_of_mem c, fun hmem =>
            (List.mem_cons.mp hmem).resolve_left hne⟩
        · exact iff_of_true rfl List.mem_cons_self
      · intro c' hc'
        obtain rfl | hold := List.mem_cons.mp hc'
        · exact Nat.lt_of_lt_of_le (h.coherent.fresh _ hlive) hmono
        · exact Nat.lt_of_lt_of_le (h.fresh c' hold) hmono
      · intro p hp
        obtain rfl | hold := List.mem_cons.mp hp
        · exact Nat.le_refl _
        · exact h.past p hold
      · intro c' hc'
        have hne : c ≠ c' := by
          rintro rfl
          exact hnew hc'
        simp [State.since, hne]
    · have hother (c : CallId) : a ≠ .event (.established c) := fun hc => ha ⟨c, hc⟩
      have hest : Watchdog.established g = [] := by
        rw [established_step h.coherent hg]
        split
        · exact absurd rfl (hother _)
        · rfl
      have hnew : s.native.nextCall ∉ s.established :=
        fun hmem => Nat.lt_irrefl _ (h.fresh _ hmem)
      simp only [hest]
      refine ⟨⟨h.coherent.step hg, ?_, ?_, h.past⟩, fun _ _ => rfl⟩
      · refine h.state.step ⟨iff_of_false (by decide) hnew, iff_of_false (by decide) hnew, ?_⟩
          h.coherent hother hg
        intro x hx hdialing
        have hmem : x.id ∉ s.established := by
          intro hmem
          have hst := (h.state x hx).mpr hmem
          simp [Call.dialing, hst] at hdialing
        exact ⟨iff_of_false (by decide) hmem, iff_of_false (by decide) hmem⟩
      · exact fun c hc => Nat.lt_of_lt_of_le (h.fresh c hc) hmono
  · cases hstep

theorem Recorded.step (h : Recorded s) (hstep : step s a = some t) :
    Recorded t ∧ ∀ c ∈ s.established, t.since c = s.since c := by
  obtain ⟨b, -, hnative⟩ | ⟨i, x, v, -, -, -, rfl⟩ | haside := step_cases hstep
  · exact h.native hnative
  · exact ⟨⟨h.coherent.step (a := .post .timeoutHangup) rfl, h.state, h.fresh, h.past⟩,
      fun _ _ => rfl⟩
  · have hsince (c : CallId) : t.since c = s.since c := by
      unfold State.since
      rw [haside.begun]
    have hest : t.established = s.established := by
      unfold State.established
      rw [haside.begun]
    refine ⟨⟨?_, ?_, ?_, ?_⟩, fun c _ => hsince c⟩
    · rw [haside.native]
      exact h.coherent
    · rw [haside.native, hest]
      exact h.state
    · rw [haside.native, hest]
      exact h.fresh
    · rw [haside.begun]
      exact fun p hp => Nat.le_trans (h.past p hp) haside.now

/-! ### The steps of a spared call -/

theorem Sparing.steady (h : Sparing s a) (hyoung : s.young) : Steady s a := by
  cases a with
  | native b => trivial
  | judge i posted => trivial
  | chore | unstarted | frame | store _ | pass _ | adjust _ | wake _ | readTime _ | readLast _
  | clear _ =>
    exact h hyoung

/-- Once its mark is made, the call that is young was so before. -/
theorem Recorded.current (h : Recorded s) (hstep : Watchdog.step s a = some t) {e : Nat}
    (hhead : t.chores.head? ≠ some .sample) (hc : t.native.gCall = some c) (he : t.since c = some e) :
    s.native.gCall = some c ∧ s.since c = some e := by
  have hmem : c ∈ t.established := List.mem_map_of_mem (mem_of_since he)
  have hsame (hbegun : t.begun = s.begun) : s.since c = some e := by
    rw [← he]
    unfold State.since
    rw [hbegun]
  obtain ⟨b, rfl, hnative⟩ | ⟨i, x, v, -, -, -, rfl⟩ | haside := step_cases hstep
  · obtain ⟨-, hg, -, -, -, hchores, hbegun, -⟩ := nativeStep_fields hnative
    have hest : Watchdog.established t.native = [] := by
      by_contra hne
      rw [hchores, if_neg hne] at hhead
      exact hhead rfl
    rw [hest] at hbegun
    refine ⟨?_, hsame hbegun⟩
    have hother (d : CallId) : b ≠ .event (.established d) := by
      rintro rfl
      have hone := established_step h.coherent hg
      rw [hest] at hone
      cases hone
    obtain hcall | hcall | hcall := gCall_step h.coherent hg hother
    · exact hcall ▸ hc
    · rw [hc] at hcall
      cases hcall
    · obtain rfl := Option.some.inj (hc.symm.trans hcall)
      unfold State.established at hmem
      rw [hbegun] at hmem
      exact absurd (h.fresh _ hmem) (Nat.lt_irrefl _)
  · exact ⟨hc, hsame rfl⟩
  · exact ⟨haside.native ▸ hc, hsame haside.begun⟩

/-- Only the handler itself gets past its mark. -/
theorem chore_of_head (hstep : step s a = some t) (hhead : s.chores.head? = some .sample)
    (hpast : t.chores.head? ≠ some .sample) : a = .chore := by
  have hmoved : t.chores ≠ s.chores := by
    intro hsame
    rw [hsame] at hpast
    exact hpast hhead
  obtain ⟨b, rfl, hnative⟩ | ⟨i, x, v, -, -, -, rfl⟩ | haside := step_cases hstep
  · obtain ⟨-, -, -, -, -, hchores, -⟩ := nativeStep_fields hnative
    split at hchores
    · exact absurd hchores hmoved
    · rw [hchores] at hpast
      exact absurd rfl hpast
  · exact absurd rfl hmoved
  · rcases haside.chores with hchore | hsame | hstart
    · exact hchore
    · exact absurd hsame hmoved
    · rw [hhead] at hstart
      cases hstart

theorem Just.step_dated (h : Just s) (hsp : Sparing s a) (hstep : step s a = some t) :
    ∀ c ∈ t.native.gCall, ∀ e ∈ t.since c, t.now < e + 30 * second →
      t.chores.head? ≠ some .sample → ¬ t.idle →
      ∃ m, t.lastMark = some m ∧ e ≤ m ∧ Dated m t := by
  intro c hc e he hlt hhead hbusy
  obtain ⟨hcall, hsince⟩ := h.current hstep hhead hc he
  have hnow : s.now ≤ t.now := by
    obtain ⟨b, -, hnative⟩ | ⟨i, x, v, -, -, -, rfl⟩ | haside := step_cases hstep
    · obtain ⟨-, -, hnow, -⟩ := nativeStep_fields hnative
      exact Nat.le_of_eq hnow.symm
    · exact Nat.le_refl _
    · exact haside.now
  have hlt' : s.now < e + 30 * second := Nat.lt_of_le_of_lt hnow hlt
  have hst := hsp.steady ⟨c, hcall, e, hsince, hlt'⟩
  have hpast : e ≤ s.now := h.past _ (mem_of_since hsince)
  by_cases hsample : s.chores.head? = some .sample
  · obtain rfl := chore_of_head hstep hsample hhead
    obtain ⟨hmark, hd⟩ := dated_sample (hst hsample) hsample hstep
    exact ⟨s.now, hmark, hpast, hd⟩
  · by_cases hidle : s.idle
    · exact absurd (sample_of_busy hidle hbusy hstep).2 hsample
    · obtain ⟨m, hm, hle, hd⟩ := h.dated c hcall e hsince hlt' hsample hidle
      obtain ⟨m', hm', hmm, hd'⟩ := hd.step hm hidle hst hstep
      exact ⟨m', hm', Nat.le_trans hle hmm, hd'⟩

/-- A hangup is posted against a call that has talked long enough. -/
theorem Just.ripe (h : Just s) {i : Nat} {x v : UInt32} (hsp : Sparing s (.judge i true))
    (hi : s.threads[i]? = some (.judging x v)) (hgt : silent x v > rxTimeoutS)
    (hc : s.native.gCall = some c) : ∃ e ∈ s.since c, e + 30 * second ≤ s.now := by
  have hcond : s.threads[i]?.any Pc.condemns = true := by
    rw [hi]
    exact decide_eq_true hgt
  obtain ⟨hest, hmarked⟩ := hsp hcond rfl
  obtain ⟨e, he⟩ := Option.ne_none_iff_exists'.mp (hest c hc)
  refine ⟨e, he, ?_⟩
  by_contra hlt
  have hlt := Nat.not_le.mp hlt
  obtain ⟨m, -, hle, hd⟩ := h.dated c hc e he hlt (hmarked ⟨c, hc, e, he, hlt⟩)
    (not_idle_of_polls hi rfl)
  have hlate := hd.late hi hgt
  omega

theorem Just.step_posted (h : Just s) (hsp : Sparing s a) (hstep : step s a = some t) :
    ∀ p ∈ t.native.posted, p.work = .timeoutHangup →
      ∀ c ∈ p.target, ∃ e ∈ t.since c, e + 30 * second ≤ t.now := by
  have hsince := (h.toRecorded.step hstep).2
  have hold (hnow : s.now ≤ t.now) (p : Post) (hp : p ∈ s.native.posted)
      (hw : p.work = .timeoutHangup) : ∀ c ∈ p.target, ∃ e ∈ t.since c, e + 30 * second ≤ t.now := by
    intro c hc
    obtain ⟨e, he, hle⟩ := h.posted p hp hw c hc
    refine ⟨e, ?_, Nat.le_trans hle hnow⟩
    rw [hsince c (List.mem_map_of_mem (mem_of_since he))]
    exact he
  obtain ⟨b, rfl, hnative⟩ | ⟨i, x, v, rfl, hi, hgt, rfl⟩ | haside := step_cases hstep
  · obtain ⟨hmay, hg, hnow, -⟩ := nativeStep_fields hnative
    have hposted := (step_frame hg).posted
    intro p hp hw
    rw [hposted] at hp
    apply hold (Nat.le_of_eq hnow.symm) p ?_ hw
    cases b with
    | event e => exact hp
    | connect result => exact hp
    | post w =>
      obtain hin | hnew := List.mem_append.mp hp
      · exact hin
      · rw [List.mem_singleton.mp hnew] at hw
        exact absurd hw (of_decide_eq_true hmay)
    | work lib =>
      obtain ⟨-, q, rest, hq, -⟩ := step_work.mp hg
      rw [posted_afterStep_work hq] at hp
      rw [hq]
      exact List.mem_cons_of_mem q hp
  · intro p hp hw
    obtain hin | hnew := List.mem_append.mp hp
    · exact hold (Nat.le_refl _) p hin hw
    · rw [List.mem_singleton.mp hnew]
      exact fun c hc => h.ripe hsp hi hgt hc
  · rw [haside.native]
    exact fun p hp hw => hold haside.now p hp hw

theorem sentence_cases {g : Globals} {b : Native.Action} {x : Call} (h : sentence g b = some x) :
    ∃ lib, b = .work lib ∧ g.next = some .timeoutHangup ∧ ∃ c, g.gCall = some c ∧
      g.find c = some x := by
  cases b with
  | work lib =>
    simp only [sentence] at h
    split at h
    · rename_i hnext
      exact ⟨lib, rfl, hnext, Option.bind_eq_some_iff.mp h⟩
    · cases h
  | event _ | post _ | connect _ => cases h

theorem Just.step_deserved (h : Just s) (hsp : Sparing s a) (hstep : step s a = some t) :
    Deserved t := by
  obtain ⟨b, rfl, hnative⟩ | ⟨i, x, v, -, -, -, rfl⟩ | haside := step_cases hstep
  · obtain ⟨-, -, -, -, -, -, -, hvictims⟩ := nativeStep_fields hnative
    intro p hp
    rw [hvictims] at hp
    obtain hnew | hold := List.mem_append.mp hp
    · obtain ⟨x, hx, rfl⟩ := Option.map_eq_some_iff.mp (Option.mem_toList.mp hnew)
      obtain ⟨lib, rfl, hnext, c, hc, hfind⟩ := sentence_cases hx
      have hid : x.id = c := by simpa using List.find?_some hfind
      obtain ⟨p, hp, hw, htarget⟩ : ∃ p ∈ s.native.posted, p.work = .timeoutHangup ∧
          p.target = some c := by
        have htarget := (hsp hnext).resolve_left (by simp [hc])
        rw [hc] at htarget
        obtain ⟨p, hhead, hp⟩ := Option.map_eq_some_iff.mp htarget
        refine ⟨p, List.mem_of_mem_head? hhead, ?_, hp⟩
        unfold Globals.next at hnext
        rw [hhead] at hnext
        exact Option.some.inj hnext
      obtain ⟨e, he, hle⟩ := h.posted p hp hw c htarget
      refine ⟨?_, e, hid ▸ he, hle⟩
      apply (h.state x (List.mem_of_find?_eq_some hfind)).mpr
      rw [hid]
      exact List.mem_map_of_mem (mem_of_since he)
    · exact h.deserved p hold
  · exact h.deserved
  · intro p hp
    rw [haside.victims] at hp
    exact h.deserved p hp

theorem Just.step (h : Just s) (hsp : Sparing s a) (hstep : step s a = some t) : Just t :=
  ⟨(h.toRecorded.step hstep).1, h.step_dated hsp hstep, h.step_posted hsp hstep,
    h.step_deserved hsp hstep⟩

theorem just_initial (account : Buffers) (now : Nat) (ahead : Int) :
    Just (State.initial account now ahead) where
  coherent := coherent_initial account
  state := fun _ hx => nomatch hx
  fresh := fun _ hc => nomatch hc
  past := fun _ hp => nomatch hp
  dated := fun _ hc => nomatch hc
  posted := fun _ hp => nomatch hp
  deserved := fun _ hv => nomatch hv

/-- In a run whose steps all spare the calls, the watchdog hangs up nobody who has not
been talking for `RX_TIMEOUT_S`. -/
theorem deserved_of_sparing {s : State} {as : List Action} (hs : machine.start s)
    (h : machine.Meets Sparing s as) : machine.Always Deserved s as := by
  obtain ⟨account, now, ahead, rfl⟩ := hs
  have hjust := Machine.always_of_meets (m := machine) (fun s a t h hsp hstep => h.step hsp hstep)
    (just_initial account now ahead) h
  exact hjust.imp fun s h => h.deserved

/-- A call whose media stop at once is hung up after 31 seconds. -/
theorem deserved_of_sparing_silence :
    machine.Always Deserved (State.initial (nativeInit .sample) (10 * second) 0)
      (pickUp ++ [.pass (31 * second), .wake 0, .readTime 0, .readLast 0, .judge 0 true,
        .native (.work .ok)]) :=
  deserved_of_sparing ⟨_, _, _, rfl⟩ (by decide +kernel)

/-- The other side talks for 27 seconds and hangs up, the next caller rings a second later.
The watchdog, asleep in between, finds the line busy at every poll, and 33 seconds after
the last frame it hangs up on the one who rings. -/
theorem watchdog_hangs_up_ringing : ∃ as s,
    machine.run (State.initial (nativeInit .sample) (10 * second) 0) as = some s ∧
      s.victims.map (fun v => (v.call.id, v.call.state, v.since)) = [(1, .incoming, none)] ∧
      ¬ Deserved s := by
  have hrun : (machine.run (State.initial (nativeInit .sample) (10 * second) 0)
      (pickUp ++ [.pass (27 * second), .frame, .store 0,
        .native (.event (.closed 0 (utf8 "Connection reset by peer"))), .pass (1 * second),
        .native (.event (.invite (utf8 "sip:204@192.0.2.1") none .ringing)),
        .pass (2 * second), .wake 0, .readTime 0, .readLast 0, .judge 0 true,
        .pass (30 * second), .wake 0, .readTime 0, .readLast 0, .judge 0 true,
        .native (.work .ok)])).map
          (fun s => s.victims.map fun v => (v.call.id, v.call.state, v.since)) =
        some [(1, .incoming, none)] := by
    decide +kernel
  obtain ⟨s, hs, hvictims⟩ := Option.map_eq_some_iff.mp hrun
  refine ⟨_, s, hs, hvictims, fun h => ?_⟩
  obtain ⟨v, hv, hfields⟩ := List.mem_map.mp (hvictims ▸ List.mem_cons_self)
  have hst := (h v hv).1
  simp [hst] at hfields

end SimplePhone.Native.Watchdog
