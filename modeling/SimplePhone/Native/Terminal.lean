import SimplePhone.Native.Invariant

/-! How often each call is reported as over. The upper layers leave the in-call
state on `onCallEnded` or `onCallFailed` only, so there should be exactly one of
them for each call that was ever current. -/
namespace SimplePhone.Native

open Globals Transition

/-- What a run has shown so far: the calls that were current after some step, and
the calls that terminal callbacks were made for. No step makes a call current
and takes it back. -/
structure Tally where
  held : List CallId
  ends : List CallId

def Tally.note (h : Tally) (_ : Globals) (_ : Action) (t : Globals) : Tally where
  held := h.held ++ t.gCall.toList
  ends := h.ends ++ t.ended

/-- The machine of the event loop with its tally. -/
def tallied : Machine (Globals × Tally) Action := machine.record ⟨[], []⟩ Tally.note

/-- Each call that stopped being current has had exactly one terminal callback,
the current one at most one, a call that never was current none. -/
structure OneTerminal (p : Globals × Tally) : Prop where
  past : ∀ c ∈ p.2.held, p.1.gCall ≠ some c → p.2.ends.count c = 1
  current : ∀ c, p.1.gCall = some c → p.2.ends.count c ≤ 1
  never : ∀ c, c ∉ p.2.held → p.2.ends.count c = 0

/-- No caller is turned away during a call, no stream breaks, no re-registration
takes a call away and nothing hangs up a call that is already freed. -/
def Accounted (g : Globals) : Action → Prop
  | .event (.invite _ _ .refused) => g.gCall = none
  | .event (.invite _ replaces .ringing) => g.gCall = none ∨ replaces ≠ none
  | .event (.audioError _ _) => False
  | .work _ =>
      match g.next, g.gCall with
      | some (.reregister _), some c => c ∉ g.live
      | some w, some c => w.hangsUp = true → c ∈ g.live
      | _, _ => True
  | _ => True

/-- As long as every step was accounted for: a live call is the current one, and
the current call has been reported exactly if it has been freed. -/
structure Balanced (p : Globals × Tally) : Prop where
  coherent : Coherent p.1
  noOrphan : ∀ c ∈ p.1.live, p.1.gCall = some c
  past : ∀ c ∈ p.2.held, p.1.gCall ≠ some c → p.2.ends.count c = 1
  never : ∀ c, c ∉ p.2.held → p.2.ends.count c = 0
  current : ∀ c, p.1.gCall = some c →
    c ∈ p.2.held ∧ p.2.ends.count c = if c ∈ p.1.live then 0 else 1
  fresh : ∀ c ∈ p.2.held, c < p.1.nextCall

theorem balanced_initial (account : Buffers) : Balanced (Globals.initial account, ⟨[], []⟩) := by
  refine ⟨coherent_initial account, ?_, ?_, ?_, ?_, ?_⟩
  all_goals simp [Globals.initial, live, calls]

variable {g t : Globals} {h : Tally}

theorem Balanced.oneTerminal {p : Globals × Tally} (hb : Balanced p) : OneTerminal p := by
  refine ⟨hb.past, ?_, hb.never⟩
  intro c hc
  rw [(hb.current c hc).2]
  split
  · exact Nat.zero_le 1
  · exact Nat.le_refl 1

theorem Balanced.not_held_nextCall (hb : Balanced (g, h)) : g.nextCall ∉ h.held :=
  fun hc => Nat.lt_irrefl _ (hb.fresh _ hc)

theorem Balanced.live_nil (hb : Balanced (g, h)) (hidle : g.gCall = none) : g.live = [] := by
  apply List.eq_nil_iff_forall_not_mem.mpr
  intro c hc
  have hcall := hb.noOrphan c hc
  rw [hidle] at hcall
  cases hcall

theorem Balanced.live_filter (hb : Balanced (g, h)) {c : CallId} (hc : g.gCall = some c) :
    g.live.filter (· ≠ c) = [] := by
  apply List.filter_eq_nil_iff.mpr
  intro d hd
  have hcall := hb.noOrphan d hd
  rw [hc] at hcall
  simp [Option.some.inj hcall]

/-! ### One step -/

section
variable {a : Action} (hb : Balanced (g, h)) (hco : Coherent t)
include hb hco

/-- Nothing ends and the current call stays the same. -/
theorem Balanced.same (hcall : t.gCall = g.gCall) (hlive : t.live = g.live)
    (hnext : g.nextCall ≤ t.nextCall) (hended : t.ended = []) : Balanced (t, h.note g a t) := by
  have hends : (h.note g a t).ends = h.ends := by simp [Tally.note, hended]
  have hheld (c : CallId) : c ∈ (h.note g a t).held ↔ c ∈ h.held := by
    simp only [Tally.note, hcall, List.mem_append, Option.mem_toList]
    exact ⟨fun hc => hc.elim id fun hc => (hb.current c hc).1, .inl⟩
  refine ⟨hco, ?_, ?_, ?_, ?_, ?_⟩
  · rw [hlive, hcall]
    exact hb.noOrphan
  · intro c hc hne
    rw [hends]
    exact hb.past c ((hheld c).mp hc) (hcall ▸ hne)
  · intro c hc
    rw [hends]
    exact hb.never c fun hheld' => hc ((hheld c).mpr hheld')
  · intro c hc
    have hcur := hb.current c (hcall ▸ hc)
    rw [hends, hheld, hlive]
    exact hcur
  · intro c hc
    exact Nat.lt_of_lt_of_le (hb.fresh c ((hheld c).mp hc)) hnext

/-- The line is idle or its call has been freed and reported: clearing `gCall` is silent. -/
theorem Balanced.clear (hfreed : ∀ c, g.gCall = some c → c ∉ g.live) (hcall : t.gCall = none)
    (hlive : t.live = []) (hnext : g.nextCall ≤ t.nextCall) (hended : t.ended = []) :
    Balanced (t, h.note g a t) := by
  have hends : (h.note g a t).ends = h.ends := by simp [Tally.note, hended]
  have hheld : (h.note g a t).held = h.held := by simp [Tally.note, hcall]
  refine ⟨hco, by simp [hlive], ?_, ?_, by simp [hcall], ?_⟩
  · intro c hc _
    rw [hheld] at hc
    rw [hends]
    by_cases hcur : g.gCall = some c
    · rw [(hb.current c hcur).2, if_neg (hfreed c hcur)]
    · exact hb.past c hc hcur
  · intro c hc
    rw [hheld] at hc
    rw [hends]
    exact hb.never c hc
  · intro c hc
    rw [hheld] at hc
    exact Nat.lt_of_lt_of_le (hb.fresh c hc) hnext

/-- The current call ends, is freed and is reported. -/
theorem Balanced.finish {c : CallId} (hc : g.gCall = some c) (hclive : c ∈ g.live)
    (hcall : t.gCall = none) (hlive : t.live = []) (hnext : g.nextCall ≤ t.nextCall)
    (hended : t.ended = [c]) : Balanced (t, h.note g a t) := by
  have hends (d : CallId) :
      (h.note g a t).ends.count d = h.ends.count d + if c = d then 1 else 0 := by
    simp [Tally.note, hended, List.count_append, List.count_singleton]
  have hheld : (h.note g a t).held = h.held := by simp [Tally.note, hcall]
  have hcur := hb.current c hc
  refine ⟨hco, by simp [hlive], ?_, ?_, by simp [hcall], ?_⟩
  · intro d hd _
    rw [hheld] at hd
    rw [hends]
    by_cases hcd : c = d
    · rw [← hcd, hcur.2, if_pos hclive, if_pos rfl]
    · rw [if_neg hcd, hb.past d hd]
      rw [hc]
      exact fun he => hcd (Option.some.inj he)
  · intro d hd
    rw [hheld] at hd
    have hcd : c ≠ d := fun he => hd (he ▸ hcur.1)
    rw [hends, if_neg hcd]
    exact hb.never d hd
  · intro d hd
    rw [hheld] at hd
    exact Nat.lt_of_lt_of_le (hb.fresh d hd) hnext

end

/-- A new call takes the idle line; it may have been freed and reported at once. -/
theorem Balanced.begin (hb : Balanced (g, h)) (hco : Coherent t) {a : Action}
    (hidle : g.gCall = none) (hcall : t.gCall = some g.nextCall)
    (hlive : ∀ c ∈ t.live, c = g.nextCall) (hnext : t.nextCall = g.nextCall + 1)
    (hended : t.ended = if g.nextCall ∈ t.live then [] else [g.nextCall]) :
    Balanced (t, h.note g a t) := by
  have hnew := hb.not_held_nextCall
  have hheld (c : CallId) : c ∈ (h.note g a t).held ↔ c ∈ h.held ∨ c = g.nextCall := by
    simp only [Tally.note, hcall, List.mem_append, Option.mem_toList, Option.some.injEq]
    exact or_congr_right eq_comm
  have hends (c : CallId) (hc : c ≠ g.nextCall) :
      (h.note g a t).ends.count c = h.ends.count c := by
    simp only [Tally.note, hended, List.count_append]
    split
    · rfl
    · simp [hc.symm]
  refine ⟨hco, ?_, ?_, ?_, ?_, ?_⟩
  · intro c hc
    rw [hcall, hlive c hc]
  · intro c hc hne
    have hcn : c ≠ g.nextCall := fun he => hne (by rw [hcall, he])
    rw [hends c hcn]
    exact hb.past c (((hheld c).mp hc).resolve_right hcn) (by simp [hidle])
  · intro c hc
    rw [hheld] at hc
    rw [hends c fun he => hc (.inr he)]
    exact hb.never c fun hc' => hc (.inl hc')
  · intro c hc
    have hcn : g.nextCall = c := Option.some.inj (hcall.symm.trans hc)
    subst hcn
    refine ⟨(hheld _).mpr (.inr rfl), ?_⟩
    simp only [Tally.note, hended, List.count_append, hb.never _ hnew]
    split <;> simp
  · intro c hc
    rw [hnext]
    rcases (hheld c).mp hc with hc | rfl
    · exact Nat.lt_succ_of_lt (hb.fresh c hc)
    · exact Nat.lt_succ_self _

/-- The current call is closed for the sake of the one that replaces it. -/
theorem Balanced.replace (hb : Balanced (g, h)) (hco : Coherent t) {a : Action} {r : CallId}
    (hr : g.gCall = some r) (hrlive : r ∈ g.live) (hcall : t.gCall = some g.nextCall)
    (hlive : t.live = [g.nextCall]) (hnext : t.nextCall = g.nextCall + 1)
    (hended : t.ended = [r]) : Balanced (t, h.note g a t) := by
  have hnew := hb.not_held_nextCall
  have hcur := hb.current r hr
  have hrn : r ≠ g.nextCall := fun he => hnew (he ▸ hcur.1)
  have hheld (c : CallId) : c ∈ (h.note g a t).held ↔ c ∈ h.held ∨ c = g.nextCall := by
    simp only [Tally.note, hcall, List.mem_append, Option.mem_toList, Option.some.injEq]
    exact or_congr_right eq_comm
  have hends (c : CallId) :
      (h.note g a t).ends.count c = h.ends.count c + if r = c then 1 else 0 := by
    simp [Tally.note, hended, List.count_append, List.count_singleton]
  refine ⟨hco, ?_, ?_, ?_, ?_, ?_⟩
  · intro c hc
    rw [hlive] at hc
    rw [hcall, List.mem_singleton.mp hc]
  · intro c hc hne
    have hcn : c ≠ g.nextCall := fun he => hne (by rw [hcall, he])
    have hc' := ((hheld c).mp hc).resolve_right hcn
    rw [hends]
    by_cases hrc : r = c
    · rw [← hrc, hcur.2, if_pos hrlive, if_pos rfl]
    · rw [if_neg hrc, hb.past c hc']
      rw [hr]
      exact fun he => hrc (Option.some.inj he)
  · intro c hc
    rw [hheld] at hc
    have hrc : r ≠ c := fun he => hc (.inl (he ▸ hcur.1))
    rw [hends, if_neg hrc]
    exact hb.never c fun hc' => hc (.inl hc')
  · intro c hc
    have hcn : g.nextCall = c := Option.some.inj (hcall.symm.trans hc)
    subst hcn
    refine ⟨(hheld _).mpr (.inr rfl), ?_⟩
    rw [hends, if_neg hrn, hb.never _ hnew, hlive]
    simp
  · intro c hc
    rw [hnext]
    rcases (hheld c).mp hc with hc | rfl
    · exact Nat.lt_succ_of_lt (hb.fresh c hc)
    · exact Nat.lt_succ_self _

theorem Accounted.live_of_hangsUp {lib : Lib} {w : Work} {c : CallId}
    (ha : Accounted g (.work lib)) (hw : g.next = some w) (hangs : w.hangsUp = true)
    (hc : g.gCall = some c) : c ∈ g.live := by
  simp only [Accounted, hw, hc] at ha
  cases w with
  | makecall uri => exact ha rfl
  | endcall => exact ha rfl
  | timeoutHangup => exact ha rfl
  | _ => cases hangs

theorem Accounted.not_live_of_reregister {lib : Lib} {aor : Str} (ha : Accounted g (.work lib))
    (hw : g.next = some (.reregister aor)) : ∀ c, g.gCall = some c → c ∉ g.live := by
  intro c hc
  simpa [Accounted, hw, hc] using ha

theorem accounted_work {lib : Lib}
    (hangs : ∀ w c, g.next = some w → w.hangsUp = true → g.gCall = some c → c ∈ g.live)
    (hre : ∀ aor c, g.next = some (.reregister aor) → g.gCall = some c → c ∉ g.live) :
    Accounted g (.work lib) := by
  unfold Accounted
  cases hw : g.next with
  | none => trivial
  | some w =>
    cases hc : g.gCall with
    | none => cases w <;> trivial
    | some c =>
      cases w with
      | reregister aor => exact hre aor c hw hc
      | _ => exact fun h => hangs _ c hw h hc

theorem Action.accounted_of_quiet {a : Action} (ha : a.quiet g = true) : Accounted g a := by
  cases a with
  | event e =>
    cases e with
    | invite peer replaces result =>
      obtain ⟨-, rfl⟩ : replaces = none ∧ result = .failed := by simpa [Action.quiet] using ha
      trivial
    | audioError c prm => cases ha
    | _ => trivial
  | work lib =>
    apply accounted_work
    · intro w c hw hangs hc
      cases w <;> simp [Action.quiet, hw, hc, Work.hangsUp] at ha hangs
    · intro aor c hw hc
      simp [Action.quiet, hw] at ha
  | post w => trivial
  | connect result => trivial

/-- An accounted step keeps the books. -/
theorem Balanced.step (hb : Balanced (g, h)) {a : Action} (hstep : step g a = some t)
    (ha : Accounted g a) : Balanced (t, h.note g a t) := by
  have hco := hb.coherent.step hstep
  cases step_effect hb.coherent hstep with
  | quiet _ hcall _ hlive hnext hnews _ =>
    refine hb.same hco hcall hlive hnext ?_
    rw [ended_of_news hnews]
    split <;> rfl
  | established hc hconf hcall _ hlive hnext hnews _ =>
    have hcur := hb.noOrphan _ hc
    exact hb.same hco (hcall.trans hcur.symm) hlive (Nat.le_of_eq hnext.symm)
      (ended_of_news hnews)
  | incoming hidle hcall _ hlive hnext hnews _ =>
    rw [hb.live_nil hidle] at hlive
    have hended := ended_of_news hnews
    exact hb.begin hco hidle hcall (by simp [hlive]) hnext (hended.trans (by simp [hlive]; rfl))
  | outgoing hdial hcall _ hlive hnext hnews _ =>
    have hidle := (hb.coherent.dialing hdial).1
    rw [hb.live_nil hidle] at hlive
    have hended := ended_of_news hnews
    exact hb.begin hco hidle hcall (by simp [hlive]) hnext (hended.trans (by simp [hlive]))
  | dropped hdial hcall _ hlive hnext hnews _ =>
    have hidle := (hb.coherent.dialing hdial).1
    rw [hb.live_nil hidle] at hlive
    have hended := ended_of_news hnews
    exact hb.begin hco hidle hcall (by simp [hlive]) hnext (hended.trans (by simp [hlive]; rfl))
  | closed hc hcall _ hlive hnext hnews _ =>
    have hcur : g.gCall = some _ := hb.noOrphan _ hc
    rw [hb.live_filter hcur] at hlive
    have hended := ended_of_news hnews
    exact hb.finish hco hcur hc hcall hlive (Nat.le_of_eq hnext.symm)
      (hended.trans (by simp [hcur, Callback.terminal]))
  | hungUp hw hangs hc hcall _ hlive hnext hnews _ =>
    rw [hb.live_filter hc] at hlive
    exact hb.finish hco hc (ha.live_of_hangsUp hw hangs hc) hcall hlive
      (Nat.le_of_eq hnext.symm) (ended_of_news hnews)
  | audioError => exact ha.elim
  | turnedAway hresult hcall _ hlive hnext hnews _ =>
    have hidle : g.gCall = none := by
      obtain rfl | ⟨rfl, rfl, hbusy⟩ := hresult
      · exact ha
      · exact ha.resolve_right fun hne => hne rfl
    rw [hb.live_nil hidle] at hlive
    exact hb.clear hco (by simp [hidle]) hcall hlive (hnext ▸ Nat.le_succ _)
      ((ended_of_news hnews).trans (by simp [hidle]))
  | @replaced peer r result _ hresult hr hcall _ hlive hnext hnews _ =>
    have hcur : g.gCall = some r := hb.noOrphan r hr
    rw [hb.live_filter hcur] at hlive
    have hend : t.ended = [r] := by
      rw [ended_of_news hnews, if_neg (by simp [hcur])]
      split <;> rfl
    cases result with
    | refused => exact absurd rfl hresult
    | failed =>
      exact hb.finish hco hcur hr hcall hlive (hnext ▸ Nat.le_succ _) hend
    | ringing => exact hb.replace hco hcur hr hcall hlive hnext hend
  | reregistered hw hcall _ hlive hnext hnews =>
    exact hb.clear hco (ha.not_live_of_reregister hw) hcall hlive (Nat.le_of_eq hnext.symm)
      (ended_of_news hnews)

section
variable {a : Action} (hb : Balanced (g, h)) (hone : OneTerminal (t, h.note g a t))
include hb hone

/-- The call that was current and is not any more has been reported by now. -/
theorem Balanced.count_past {c : CallId} (hc : g.gCall = some c) (hcall : t.gCall = none) :
    (if c ∈ g.live then 0 else 1) + t.ended.count c = 1 := by
  have hcur := hb.current c hc
  have hpast := hone.past c (List.mem_append_left _ hcur.1) (by simp [hcall])
  simpa [Tally.note, List.count_append, hcur.2] using hpast

/-- The turned-away call was never current, so nothing may be reported for it. -/
theorem Balanced.idle_of_turnedAway (hcall : t.gCall = none)
    (hended : t.ended = if g.gCall = none then [] else [g.nextCall]) : g.gCall = none := by
  by_contra hbusy
  rw [if_neg hbusy] at hended
  have hnever := hone.never g.nextCall (by
    simpa [Tally.note, hcall] using hb.not_held_nextCall)
  simp [Tally.note, hended] at hnever

end

/-- Keeping to one terminal callback takes an accounted step. -/
theorem Balanced.accounted (hb : Balanced (g, h)) {a : Action} (hstep : Native.step g a = some t)
    (hone : OneTerminal (t, h.note g a t)) : Accounted g a := by
  cases step_effect hb.coherent hstep with
  | quiet ha hcall hin hlive hnext hnews hua =>
    exact Action.accounted_of_quiet ha
  | @audioError c _ _ hc hcall hin hlive hnext hnews hua =>
    have hcur : g.gCall = some c := hb.noOrphan c hc
    have hcount := hb.count_past hone hcur hcall
    have hclive : c ∈ g.live := hc
    have hend : t.ended = [c, c] :=
      (ended_of_news hnews).trans (by simp [hcur, Callback.terminal])
    simp [hend, hclive] at hcount
  | turnedAway hresult hcall hin hlive hnext hnews hua =>
    have hended := ended_of_news hnews
    have hidle := hb.idle_of_turnedAway hone hcall (by rw [hended]; split <;> rfl)
    obtain rfl | ⟨rfl, -, -⟩ := hresult
    · exact hidle
    · exact .inl hidle
  | hungUp hw hangs hc hcall hin hlive hnext hnews hua =>
    have hcount := hb.count_past hone hc hcall
    apply accounted_work
    · intro w' d hw' hangs' hd
      rw [← Option.some.inj (hc.symm.trans hd)]
      by_contra hfreed
      rw [ended_of_news hnews, if_neg hfreed] at hcount
      simp [Callback.terminal] at hcount
    · intro aor d haor hd
      rw [haor] at hw
      cases hw
      cases hangs
  | reregistered hw hcall hin hlive hnext hnews =>
    apply accounted_work
    · intro w c hw' hangs hc
      rw [hw] at hw'
      cases hw'
      cases hangs
    · intro aor c haor hc hclive
      have hcount := hb.count_past hone hc hcall
      rw [ended_of_news hnews, if_pos hclive] at hcount
      cases hcount
  | @replaced peer r result _ hresult =>
    cases result with
    | refused => exact absurd rfl hresult
    | failed => trivial
    | ringing => exact .inr (by simp)
  | incoming hidle => exact .inl hidle
  | _ => trivial

/-- In every run each call that was ever current gets exactly one terminal callback,
and no other call gets any, exactly if every step of the run is accounted for. -/
theorem oneTerminal_iff_accounted (account : Buffers) (as : List Action) :
    tallied.Always OneTerminal (Globals.initial account, ⟨[], []⟩) as ↔
      tallied.Meets (fun p a => Accounted p.1 a) (Globals.initial account, ⟨[], []⟩) as := by
  apply Machine.always_iff_meets (I := Balanced)
  · exact fun p hb => hb.oneTerminal
  · intro p a q hb hstep
    obtain ⟨t, hs, rfl⟩ := Machine.record_step_eq_some.mp hstep
    exact ⟨fun hone => hb.accounted hs hone, fun ha => (hb.step hs ha).oneTerminal⟩
  · intro p a q hb ha hstep
    obtain ⟨t, hs, rfl⟩ := Machine.record_step_eq_some.mp hstep
    exact hb.step hs ha
  · exact balanced_initial account

/-- A re-registration takes a ringing call away in silence; a broken stream is
reported twice, as a failure and as an end. -/
theorem terminal_miscounted :
    (∃ as p, tallied.run (Globals.initial (nativeInit .sample), ⟨[], []⟩) as = some p ∧
      0 ∈ p.2.held ∧ p.1.gCall = none ∧ p.2.ends.count 0 = 0 ∧ ¬ OneTerminal p) ∧
    ∃ as p, tallied.run (Globals.initial (nativeInit .sample), ⟨[], []⟩) as = some p ∧
      0 ∈ p.2.held ∧ p.1.gCall = none ∧ p.2.ends.count 0 = 2 ∧ ¬ OneTerminal p := by
  have hmiscount (p : Globals × Tally) (n : Nat) (hn : n ≠ 1) (hheld : 0 ∈ p.2.held)
      (hcall : p.1.gCall = none) (hcount : p.2.ends.count 0 = n) :
      0 ∈ p.2.held ∧ p.1.gCall = none ∧ p.2.ends.count 0 = n ∧ ¬ OneTerminal p := by
    refine ⟨hheld, hcall, hcount, fun hone => hn ?_⟩
    rw [← hcount]
    exact hone.past 0 hheld (by simp [hcall])
  constructor
  · refine ⟨[.post .register, .work .ok,
      .event (.invite (utf8 "sip:203@192.0.2.1") none .ringing),
      .post (.reregister SipConfig.sample.buildAor), .work .ok], _, rfl, ?_⟩
    exact hmiscount _ 0 (by decide) (by decide) (by decide) (by decide)
  · refine ⟨[.post .register, .work .ok,
      .event (.invite (utf8 "sip:203@192.0.2.1") none .ringing), .post .answer, .work .ok,
      .event (.established 0), .event (.audioError 0 (utf8 "device lost"))], _, rfl, ?_⟩
    exact hmiscount _ 2 (by decide) (by decide) (by decide) (by decide)

end SimplePhone.Native
