import SimplePhone.Native.Invariant

/-! One line: the live calls are the current call and nothing else. The code
keeps to it except when it turns a caller away during a call and when an INVITE
of its own cannot be sent. -/
namespace SimplePhone.Native

open Globals Transition

/-- The live calls of the user agent are the call `gCall` designates, if any. -/
def SingleLine (g : Globals) : Prop := ∀ c, c ∈ g.live ↔ g.gCall = some c

/-- No caller is turned away during a call and no dial fails once announced. -/
def Undisturbed (g : Globals) : Action → Prop
  | .event (.invite _ _ .refused) => g.gCall = none
  | .event (.invite _ replaces .ringing) => g.gCall = none ∨ replaces ≠ none
  | .connect .failed => False
  | _ => True

instance (g : Globals) (a : Action) : Decidable (Undisturbed g a) := by
  unfold Undisturbed
  split <;> infer_instance

variable {g t : Globals}

theorem SingleLine.of_live (h : g.live = g.gCall.toList) : SingleLine g := by
  intro c
  rw [h, Option.mem_toList]

theorem SingleLine.live_eq (h : SingleLine g) (hnodup : g.live.Nodup) :
    g.live = g.gCall.toList := by
  cases hc : g.gCall with
  | none =>
    apply List.eq_nil_iff_forall_not_mem.mpr
    intro c hlive
    have hcall := (h c).mp hlive
    rw [hc] at hcall
    cases hcall
  | some c =>
    have hsub (d : CallId) : d ∈ g.live ↔ d = c := by
      rw [h d, hc]
      exact ⟨fun he => (Option.some.inj he).symm, fun he => by rw [he]⟩
    apply List.perm_singleton.mp
    apply (List.perm_ext_iff_of_nodup hnodup (by simp)).mpr
    intro d
    rw [hsub, List.mem_singleton]

theorem singleLine_initial (account : Buffers) : SingleLine (Globals.initial account) :=
  .of_live rfl

/-- A live call that is not the current one is out of the app's reach. -/
theorem not_singleLine_of_orphan {c : CallId} (hlive : c ∈ g.live) (hcall : g.gCall = none) :
    ¬ SingleLine g := by
  intro h
  have hc := (h c).mp hlive
  rw [hcall] at hc
  cases hc

/-- A step keeps to the single line exactly if it is undisturbed. -/
theorem singleLine_step (h : Coherent g) (hs : SingleLine g) {a : Action}
    (hstep : step g a = some t) : SingleLine t ↔ Undisturbed g a := by
  have hone := hs.live_eq h.nodup
  have hclose {c : CallId} (hc : c ∈ g.live) : g.live.filter (· ≠ c) = [] := by
    rw [hone, (hs c).mp hc]
    simp
  cases step_effect h hstep with
  | quiet ha hcall hin hlive hnext hnews hua =>
    have hsingle : SingleLine t := .of_live (by rw [hlive, hcall, hone])
    have hund : Undisturbed g a := by
      unfold Undisturbed
      split
      · exact absurd (of_decide_eq_true ha).2 (by decide)
      · exact absurd (of_decide_eq_true ha).2 (by decide)
      · have hrefused : ConnectResult.failed = .refused := of_decide_eq_true ha
        cases hrefused
      · trivial
    exact iff_of_true hsingle hund
  | established hc hconf hcall hin hlive hnext hnews hua =>
    exact iff_of_true (.of_live (by rw [hlive, hcall, hone, (hs _).mp hc])) trivial
  | incoming hidle hcall hin hlive hnext hnews hua =>
    exact iff_of_true (.of_live (by rw [hlive, hcall, hone, hidle]; rfl)) (.inl hidle)
  | outgoing hdial hcall hin hlive hnext hnews hua =>
    have hidle := (h.dialing hdial).1
    exact iff_of_true (.of_live (by rw [hlive, hcall, hone, hidle]; rfl)) trivial
  | dropped hdial hcall hin hlive hnext hnews hua =>
    have hidle := (h.dialing hdial).1
    refine iff_of_false ?_ id
    intro hsingle
    have hdangling := (hsingle g.nextCall).mpr hcall
    rw [hlive, hone, hidle] at hdangling
    cases hdangling
  | closed hc hcall hin hlive hnext hnews hua =>
    exact iff_of_true (.of_live (by rw [hlive, hcall, hclose hc]; rfl)) trivial
  | hungUp hw hangs hc hcall hin hlive hnext hnews hua =>
    exact iff_of_true (.of_live (by rw [hlive, hcall, hclose ((hs _).mpr hc)]; rfl)) trivial
  | audioError hc hcall hin hlive hnext hnews hua =>
    exact iff_of_true (.of_live (by rw [hlive, hcall, hclose hc]; rfl)) trivial
  | @turnedAway peer replaces result _ hresult hcall hin hlive hnext hnews hua =>
    by_cases hidle : g.gCall = none
    · refine iff_of_true (.of_live (by rw [hlive, hcall, hone, hidle])) ?_
      obtain rfl | ⟨rfl, -, hbusy⟩ := hresult
      · exact hidle
      · exact absurd hidle hbusy
    · obtain ⟨c, hc⟩ := Option.ne_none_iff_exists'.mp hidle
      refine iff_of_false (not_singleLine_of_orphan (hlive ▸ (hs c).mpr hc) hcall) ?_
      obtain rfl | ⟨rfl, rfl, -⟩ := hresult
      · exact hidle
      · simpa [Undisturbed] using hidle
  | @replaced peer r result _ hresult hr hcall hin hlive hnext hnews hua =>
    have hsingle : SingleLine t := by
      apply SingleLine.of_live
      rw [hlive, hcall, hclose hr]
      split <;> rfl
    refine iff_of_true hsingle ?_
    cases result with
    | refused => exact absurd rfl hresult
    | failed => trivial
    | ringing => exact .inr (by simp)
  | reregistered hw hcall hin hlive hnext hnews =>
    exact iff_of_true (.of_live (by rw [hlive, hcall]; rfl)) trivial

/-- Between any two steps there is neither an orphan nor a dangling pointer, as long
as, and only as long as, the steps so far were undisturbed. -/
theorem singleLine_iff_undisturbed (account : Buffers) (as : List Action) :
    machine.Always SingleLine (Globals.initial account) as ↔
      machine.Meets Undisturbed (Globals.initial account) as := by
  apply Machine.always_iff_meets (I := fun g => Coherent g ∧ SingleLine g)
  · exact fun g h => h.2
  · exact fun g a t h hstep => singleLine_step h.1 h.2 hstep
  · exact fun g a t h hund hstep =>
      ⟨h.1.step hstep, (singleLine_step h.1 h.2 hstep).mpr hund⟩
  · exact ⟨coherent_initial account, singleLine_initial account⟩

/-- Both ways to lose the line: a refused second caller leaves the first one live
and out of reach, and a dial that fails leaves `gCall` at a freed call. -/
theorem line_lost :
    (∃ as g, machine.run (Globals.initial (nativeInit .sample)) as = some g ∧
      0 ∈ g.live ∧ g.gCall = none ∧ ¬ SingleLine g) ∧
    ∃ as g, machine.run (Globals.initial (nativeInit .sample)) as = some g ∧
      g.gCall = some 0 ∧ 0 ∉ g.live ∧ ¬ SingleLine g := by
  have horphan (g : Globals) (hlive : 0 ∈ g.live) (hcall : g.gCall = none) :
      0 ∈ g.live ∧ g.gCall = none ∧ ¬ SingleLine g :=
    ⟨hlive, hcall, not_singleLine_of_orphan hlive hcall⟩
  have hdangling (g : Globals) (hcall : g.gCall = some 0) (hlive : 0 ∉ g.live) :
      g.gCall = some 0 ∧ 0 ∉ g.live ∧ ¬ SingleLine g :=
    ⟨hcall, hlive, fun h => hlive ((h 0).mpr hcall)⟩
  constructor
  · refine ⟨[.post .register, .work .ok,
      .event (.invite (utf8 "sip:203@192.0.2.1") none .ringing),
      .event (.invite (utf8 "sip:204@192.0.2.1") none .ringing)], _, rfl, ?_⟩
    exact horphan _ (by decide) (by decide)
  · refine ⟨[.post .register, .work .ok, .post (.makecall (utf8 "sip:203@192.0.2.1:5060")),
      .work .ok, .connect .failed], _, rfl, ?_⟩
    exact hdangling _ (by decide) (by decide)

end SimplePhone.Native
