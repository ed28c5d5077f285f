import SimplePhone.Native.Invariant

/-! The whole of `makecall_worker`, from the hangup of the old call to what
`ua_connect` returns, and what it leaves behind. -/
namespace SimplePhone.Native

open Globals Transition

/-- The event loop does nothing else while the worker sleeps. -/
def makecallWorker (uri : Str) (result : ConnectResult) (g : Globals) : Globals :=
  match g.gUa with
  | none => g
  | some _ => makecallConnect uri result (makecallHangup uri g)

/-- The failures among the callbacks made. -/
def Globals.failures (g : Globals) : List Delivery :=
  g.delivered.filter fun d => match d.callback with
    | .onCallFailed _ => true
    | _ => false

/-- The dial is under way, or it has failed and was reported once. -/
def AllOrNothing (before after : Globals) : Prop :=
  (∃ c, after.gCall = some c ∧ c ∈ after.live ∧ c ∉ before.live ∧ after.gInCall = true ∧
    after.failures = []) ∨
  after.gCall = none ∧ after.gInCall = false ∧ after.failures.length = 1

variable {g t u : Globals} {uri : Str} {result : ConnectResult}

theorem makecallWorker_dropped (hua : g.gUa = none) : makecallWorker uri result g = g := by
  unfold makecallWorker
  rw [hua]

theorem makecallWorker_dialed (hua : g.gUa ≠ none) :
    makecallWorker uri result g = makecallConnect uri result (makecallHangup uri g) := by
  unfold makecallWorker
  cases h : g.gUa with
  | none => exact absurd h hua
  | some ua => rfl

/-! ### The worker and the steps of the event loop -/

theorem makecallConnect_begin (uri : Str) (result : ConnectResult) (g : Globals) :
    makecallConnect uri result g = { makecallConnect uri result g.begin with
      delivered := g.delivered ++ (makecallConnect uri result g.begin).delivered } := by
  cases result with
  | refused => rfl
  | failed => rfl
  | connected =>
    change makecallConnect uri .connected g =
      { makecallConnect uri .connected g.begin with delivered := g.delivered ++ [] }
    rw [List.append_nil]
    rfl

/-- The step that takes the handler and the one that wakes it up again make up the worker. -/
theorem makecallWorker_steps {lib : Lib} {p : Post} {rest : List Post} (hp : g.posted = p :: rest)
    (hw : p.work = .makecall uri) (hua : g.gUa ≠ none) (ht : step g (.work lib) = some t)
    (hu : step t (.connect result) = some u) : makecallWorker uri result (g.taken rest) =
      { u with delivered := t.delivered ++ u.delivered } := by
  obtain ⟨-, p', rest', hp', hrun⟩ := step_work.mp ht
  obtain ⟨rfl, rfl⟩ := List.cons.inj (hp.symm.trans hp')
  obtain rfl : t = makecallHangup uri (g.taken rest) := by
    rw [← hrun, hw]
    rfl
  obtain ⟨uri', hdial, rfl⟩ := step_connect.mp hu
  have hdials : (makecallHangup uri (g.taken rest)).dialing = some uri := by
    unfold makecallHangup
    cases h : (g.taken rest).gUa with
    | none => exact absurd h hua
    | some ua => rfl
  obtain rfl := Option.some.inj (hdial.symm.trans hdials)
  rw [makecallWorker_dialed (g := g.taken rest) hua]
  exact makecallConnect_begin uri' result _

/-! ### What the worker leaves behind -/

/-- After the hangup there is no call, and nothing has failed yet. -/
theorem makecallHangup_clear (hco : Coherent g) (hua : g.gUa ≠ none) (uri : Str) :
    let h := makecallHangup uri g.begin
    h.gCall = none ∧ h.gInCall = false ∧ h.gUa ≠ none ∧ h.Fresh ∧ h.nextCall = g.nextCall ∧
      h.failures = [] := by
  cases hc : g.gCall with
  | none =>
    rw [makecallHangup_idle (g := g.begin) hua hc]
    have hin := hco.inCall
    rw [hc] at hin
    exact ⟨hc, hin, hua, hco.fresh, rfl, rfl⟩
  | some c =>
    have hbusy : g.begin.gCall ≠ none := by
      change g.gCall ≠ none
      rw [hc]
      exact Option.some_ne_none c
    rw [makecallHangup_busy (g := g.begin) hua hc]
    refine ⟨closeCall_gCall _ _, ?_, ?_, ?_, closeCall_nextCall _ _, ?_⟩
    · change (closeCall c g.begin).gInCall = false
      rw [closeCall_gInCall, if_neg hbusy]
    · exact fun hnone => hua ((closeCall_gUa_eq_none g.begin c).mp hnone)
    · exact hco.toFresh.closeCall c
    · change (closeCall c g.begin).failures = []
      unfold Globals.failures
      rw [closeCall_delivered, if_neg hbusy]
      rfl

/-- The worker keeps its word exactly if there is a user agent and no INVITE fails after
its call has been announced. -/
theorem dial_settles_iff (h : machine.Reachable g) (uri : Str) (result : ConnectResult) :
    AllOrNothing g (makecallWorker uri result g.begin) ↔ g.gUa ≠ none ∧ result ≠ .failed := by
  have hco := coherent_of_reachable h
  by_cases hua : g.gUa = none
  · rw [makecallWorker_dropped (g := g.begin) hua]
    refine iff_of_false ?_ fun hand => hand.1 hua
    rintro (⟨c, -, hlive, hnew, -⟩ | ⟨-, -, hone⟩)
    · exact hnew hlive
    · cases hone
  · rw [makecallWorker_dialed (g := g.begin) hua]
    obtain ⟨hcall, hin, hua', hfresh, hnext, hfailures⟩ := makecallHangup_clear hco hua uri
    generalize makecallHangup uri g.begin = k at hcall hin hua' hfresh hnext hfailures ⊢
    cases result with
    | refused =>
      rw [makecallConnect_refused]
      refine iff_of_true (.inr ⟨hcall, hin, ?_⟩) ⟨hua, nofun⟩
      unfold Globals.failures at hfailures ⊢
      rw [callCallback_delivered, List.filter_append, hfailures]
      rfl
    | failed =>
      rw [makecallConnect_failed hfresh]
      refine iff_of_false ?_ fun hand => hand.2 rfl
      rintro (⟨c, hc, hlive, -⟩ | ⟨hnone, -⟩)
      · obtain rfl := Option.some.inj hc
        exact Nat.lt_irrefl _ (hfresh _ hlive)
      · cases hnone
    | connected =>
      rw [makecallConnect_connected]
      refine iff_of_true (.inl ⟨k.nextCall, rfl, ?_, ?_, rfl, hfailures⟩) ⟨hua, nofun⟩
      · change k.nextCall ∈ (k.allocCall uri true .outgoing).live
        rw [live_allocCall hua']
        exact List.mem_append_right _ List.mem_cons_self
      · rw [hnext]
        exact fun hlive => Nat.lt_irrefl _ (hco.fresh _ hlive)

/-- A registered phone: the dial that connects settles. -/
theorem dial_settles_registered : ∃ as g,
    machine.run (Globals.initial (nativeInit .sample)) as = some g ∧
    AllOrNothing g (makecallWorker (utf8 "sip:204@192.0.2.1:5060") .connected g.begin) := by
  refine ⟨[.post .register, .work .ok, .event (.registerOk [])], _, rfl, ?_⟩
  exact (dial_settles_iff ⟨Globals.initial (nativeInit .sample),
    [.post .register, .work .ok, .event (.registerOk [])], ⟨_, rfl⟩, rfl⟩ _ _).mpr
      ⟨by decide, nofun⟩

/-- Before the registration handler has run a dial vanishes; and when the INVITE cannot be
sent `g_call` points to the call that was freed. -/
theorem dial_unsettled : ∃ as g, machine.run (Globals.initial (nativeInit .sample)) as = some g ∧
    ¬ AllOrNothing g (makecallWorker (utf8 "sip:204@192.0.2.1:5060") .connected g.begin) ∧
    ∃ bs t, machine.run g bs = some t ∧
      ¬ AllOrNothing t (makecallWorker (utf8 "sip:204@192.0.2.1:5060") .failed t.begin) := by
  refine ⟨[.post .register], _, rfl, ?_, [.work .ok, .event (.registerOk [])], _, rfl, ?_⟩
  · rintro (⟨c, hc, -⟩ | ⟨-, -, hone⟩)
    · cases hc
    · cases hone
  · rintro (⟨c, hc, hlive, -⟩ | ⟨hnone, -⟩)
    · cases hlive
    · cases hnone

end SimplePhone.Native
