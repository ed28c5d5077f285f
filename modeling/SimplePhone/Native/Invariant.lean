import SimplePhone.Native.Steps

/-! The frame of every step, the queue and the sleeping dial, and from it and the
effects that every reachable state is `Coherent`. -/
namespace SimplePhone.Native

open Globals Transition

variable {g t : Globals}

/-! ### The queue, the sleeping dial and the account -/

/-- The fields that no event touches. -/
structure Frame (g t : Globals) : Prop where
  posted : t.posted = g.posted
  dialing : t.dialing = g.dialing
  account : t.account = g.account

theorem Frame.refl (g : Globals) : Frame g g := ⟨rfl, rfl, rfl⟩

theorem Frame.trans {g₁ g₂ g₃ : Globals} (h : Frame g₁ g₂) (h' : Frame g₂ g₃) : Frame g₁ g₃ :=
  ⟨h'.posted.trans h.posted, h'.dialing.trans h.dialing, h'.account.trans h.account⟩

theorem frame_onCallClosed (call : Option CallId) (g : Globals) :
    Frame g (onCallClosed call g) := by
  unfold onCallClosed
  split <;> exact ⟨rfl, rfl, rfl⟩

theorem frame_memDeref (c : CallId) (g : Globals) : Frame g (g.memDeref c) := ⟨rfl, rfl, rfl⟩

theorem frame_updateCall (c : CallId) (f : Call → Call) (g : Globals) :
    Frame g (g.updateCall c f) := ⟨rfl, rfl, rfl⟩

theorem frame_begin (g : Globals) : Frame g g.begin := ⟨rfl, rfl, rfl⟩

theorem frame_uaHangup (call : Option CallId) (g : Globals) : Frame g (uaHangup call g) := by
  unfold uaHangup
  split
  · exact .refl g
  · split
    · exact .refl g
    · rename_i c _
      have hhang : Frame g (callHangup c g) := frame_updateCall _ _ g
      exact (hhang.trans (frame_onCallClosed _ _)).trans (frame_memDeref _ _)

theorem frame_uaEvent (ev : UaEvent) (call : Option CallId) (prm : Str) (g : Globals) :
    Frame g (uaEvent ev call prm g) := by
  by_cases h : ev.ignored = true
  · rw [uaEvent_ignored h]
    exact .refl g
  · cases ev with
    | callIncoming =>
      unfold uaEvent baresipEventHandler
      simp only
      split
      · exact frame_uaHangup _ _
      · exact ⟨rfl, rfl, rfl⟩
    | callClosed => exact frame_onCallClosed _ _
    | registerOk | registerFail | callOutgoing | callEstablished | audioError =>
      exact ⟨rfl, rfl, rfl⟩
    | _ => exact absurd rfl h

theorem frame_callEventClosed (c : CallId) (reason : Str) (g : Globals) :
    Frame g (callEventClosed c reason g) :=
  (frame_uaEvent _ _ _ _).trans (frame_memDeref _ _)

theorem frame_replace (replaces : Option CallId) (g : Globals) :
    Frame g (match replaces with
      | none => g
      | some r => callEventClosed r (utf8 "replaced") g) := by
  cases replaces with
  | none => exact .refl g
  | some r => exact frame_callEventClosed _ _ _

theorem frame_event (e : SipEvent) (g : Globals) : Frame g (e.run g) := by
  cases e with
  | invite peer replaces result =>
    have halloc : Frame g (g.allocCall peer false .idle) := ⟨rfl, rfl, rfl⟩
    cases result with
    | refused => exact halloc.trans (frame_callEventClosed _ _ _)
    | failed => exact (halloc.trans (frame_replace replaces _)).trans (frame_memDeref _ _)
    | ringing =>
      have hreplaced := halloc.trans (frame_replace replaces _)
      exact (hreplaced.trans (frame_updateCall g.nextCall _ _)).trans
        (frame_uaEvent .callIncoming (some g.nextCall) peer _)
  | audioError c prm =>
    exact (frame_uaEvent _ _ _ _).trans (frame_callEventClosed _ _ _)
  | progress c early => exact (frame_updateCall c _ g).trans (frame_uaEvent _ _ _ _)
  | established c =>
    exact (frame_updateCall c _ g).trans
      (frame_uaEvent .callEstablished (some c) (((g.find c).map Call.peerUri).getD []) _)
  | closed c reason => exact frame_callEventClosed _ _ _
  | registerOk | registerFail | other => exact frame_uaEvent _ _ _ _

theorem frame_uaCreateAndRegister (aor : Str) (lib : Lib) (g : Globals) :
    Frame g (uaCreateAndRegister aor lib g).1 := by
  unfold uaCreateAndRegister
  cases lib.uaAlloc <;> cases lib.uaRegister <;> exact ⟨rfl, rfl, rfl⟩

theorem frame_endcallWorker (g : Globals) : Frame g (endcallWorker g) := by
  unfold endcallWorker
  split
  · exact ⟨rfl, rfl, rfl⟩
  · exact (frame_uaHangup _ g).trans ⟨rfl, rfl, rfl⟩

theorem frame_makecallHangup (uri : Str) {g : Globals} (hua : g.gUa ≠ none) :
    Frame { g with dialing := some uri } (makecallHangup uri g) := by
  unfold makecallHangup
  obtain ⟨ua, hua⟩ := Option.ne_none_iff_exists'.mp hua
  simp only [hua]
  cases g.gCall with
  | none => exact ⟨rfl, rfl, rfl⟩
  | some c =>
    have hhang := frame_uaHangup (some c) g
    exact ⟨hhang.posted, rfl, hhang.account⟩

/-- Only a dial over a user agent falls asleep. -/
def Work.sleeps (g : Globals) : Work → Globals
  | .makecall uri => if g.gUa = none then g else { g with dialing := some uri }
  | _ => g

theorem frame_sleeps (w : Work) (h : Frame g t) (hua : t.gUa = g.gUa) :
    Frame (w.sleeps g) (w.sleeps t) := by
  cases w with
  | makecall uri =>
    by_cases hg : g.gUa = none
    · have ht : t.gUa = none := hua.trans hg
      simp only [Work.sleeps, if_pos hg, if_pos ht]
      exact h
    · have ht : t.gUa ≠ none := hua ▸ hg
      simp only [Work.sleeps, if_neg hg, if_neg ht]
      exact ⟨h.posted, rfl, h.account⟩
  | _ => exact h

theorem frame_work (w : Work) (lib : Lib) (g : Globals) : Frame (w.sleeps g) (w.run lib g) := by
  cases w with
  | makecall uri =>
    change Frame (Work.sleeps g (.makecall uri)) (makecallHangup uri g)
    by_cases hua : g.gUa = none
    · simp only [makecallHangup_dropped hua, Work.sleeps, if_pos hua]
      exact .refl g
    · simp only [Work.sleeps, if_neg hua]
      exact frame_makecallHangup uri hua
  | register =>
    unfold Work.run registerWorker
    cases g.gUa with
    | some ua => exact .refl g
    | none =>
      have hf := frame_uaCreateAndRegister (buildAccountAor g.account 256) lib g
      simp only
      split
      · exact hf.trans ⟨rfl, rfl, rfl⟩
      · exact hf
  | unregister =>
    rw [show Work.run lib g .unregister = g from unregisterWorker_eq g]
    exact .refl g
  | reregister aor =>
    rw [show Work.run lib g (.reregister aor) = _ from reregisterWorker_eq aor lib g]
    have hf := frame_uaCreateAndRegister aor lib { g with
      gUa := none, gCall := none, gInCall := false }
    simp only
    split <;> exact ⟨hf.posted, hf.dialing, hf.account⟩
  | answer =>
    unfold Work.run answerWorker callAnswer
    cases g.gCall <;> cases lib.uaAnswer <;> exact ⟨rfl, rfl, rfl⟩
  | endcall => exact frame_endcallWorker g
  | timeoutHangup => exact frame_endcallWorker g
  | dtmf digit =>
    unfold Work.run dtmfWorker
    cases g.gCall <;> exact ⟨rfl, rfl, rfl⟩
  | mute muted =>
    unfold Work.run muteWorker
    cases g.gCall <;> exact ⟨rfl, rfl, rfl⟩

/-- What a step does to the queue of handlers and the sleeping dial. -/
def Globals.afterStep (g : Globals) : Action → Globals
  | .event _ => g
  | .post w => { g with posted := g.posted ++ [⟨w, g.gCall⟩] }
  | .work _ =>
      let taken := { g with posted := g.posted.tail, dialing := none }
      match g.next with
      | some w => w.sleeps taken
      | none => taken
  | .connect _ => { g with dialing := none }

theorem posted_afterStep_work {p : Post} {rest : List Post} (hp : g.posted = p :: rest)
    (lib : Lib) : (g.afterStep (.work lib)).posted = rest := by
  have hnext : g.next = some p.work := by simp [Globals.next, hp]
  simp only [Globals.afterStep, hnext]
  cases p.work with
  | makecall uri =>
    simp only [Work.sleeps, hp]
    split <;> rfl
  | _ => simp [Work.sleeps, hp]

theorem step_frame {a : Action} (hstep : step g a = some t) : Frame (g.afterStep a) t := by
  cases a with
  | event e =>
    obtain ⟨-, -, rfl⟩ := step_event.mp hstep
    exact (frame_begin g).trans (frame_event e g.begin)
  | post w =>
    cases step_post.mp hstep
    exact ⟨rfl, rfl, rfl⟩
  | work lib =>
    obtain ⟨hnone, p, rest, hp, rfl⟩ := step_work.mp hstep
    have htaken : Frame { g with posted := g.posted.tail, dialing := none } (g.taken rest) :=
      ⟨by rw [hp]; rfl, hnone, rfl⟩
    have hnext : g.next = some p.work := by simp [Globals.next, hp]
    simp only [Globals.afterStep, hnext]
    exact (frame_sleeps p.work htaken rfl).trans (frame_work p.work lib (g.taken rest))
  | connect result =>
    obtain ⟨uri, -, rfl⟩ := step_connect.mp hstep
    cases result <;> exact ⟨rfl, rfl, rfl⟩

theorem step_account {a : Action} (hstep : step g a = some t) : t.account = g.account := by
  have hframe := (step_frame hstep).account
  cases a with
  | work lib =>
    simp only [Globals.afterStep] at hframe
    cases hw : g.next with
    | none => simpa [hw] using hframe
    | some w =>
      cases w with
      | makecall uri =>
        simp only [hw, Work.sleeps] at hframe
        split at hframe <;> exact hframe
      | _ => simpa [hw, Work.sleeps] using hframe
  | _ => exact hframe

/-! ### The invariant -/

theorem nodup_append_fresh {l : List CallId} {n : CallId} (hl : l.Nodup) (h : ∀ c ∈ l, c < n) :
    (l ++ [n]).Nodup := by
  rw [List.nodup_append]
  refine ⟨hl, by simp, fun c hc d hd => ?_⟩
  rw [List.mem_singleton.mp hd]
  exact Nat.ne_of_lt (h c hc)

theorem Coherent.filter (h : Coherent g) (c : CallId) :
    (g.live.filter (· ≠ c)).Nodup ∧ ∀ d ∈ g.live.filter (· ≠ c), d < g.nextCall :=
  ⟨h.nodup.filter _, fun d hd => h.fresh d (List.mem_of_mem_filter hd)⟩

/-- A dial that falls asleep has hung up first. -/
theorem Coherent.step_dialing (h : Coherent g) {a : Action} (hstep : step g a = some t)
    (hdial : t.dialing ≠ none) : t.gCall = none ∧ t.gUa ≠ none := by
  have heq := (step_frame hstep).dialing
  cases a with
  | event e =>
    obtain ⟨hnone, -, -⟩ := step_event.mp hstep
    exact absurd (heq.trans hnone) hdial
  | connect result => exact absurd heq hdial
  | post w =>
    cases step_post.mp hstep
    exact h.dialing hdial
  | work lib =>
    simp only [Globals.afterStep] at heq
    cases hw : g.next with
    | none => exact absurd (by simpa [hw] using heq) hdial
    | some w =>
      cases w with
      | makecall uri =>
        simp only [hw, Work.sleeps] at heq
        split at heq
        · exact absurd heq hdial
        · rename_i hua
          cases step_effect h hstep with
          | quiet ha hcall hin hlive hn hnews hkeep =>
            refine ⟨?_, hkeep hua⟩
            rw [hcall]
            simpa [Action.quiet, hw, Work.hangsUp] using ha
          | hungUp hw' hangs hc hcall hin hlive hn hnews hkeep => exact ⟨hcall, hkeep⟩
          | reregistered hw' => simp [hw] at hw'
      | _ => exact absurd (by simpa [hw, Work.sleeps] using heq) hdial

theorem Coherent.step (h : Coherent g) {a : Action} (hstep : step g a = some t) :
    Coherent t := by
  have hdial := h.step_dialing hstep
  have hlt {c : CallId} (hc : c ∈ g.live) : c < g.nextCall + 1 := Nat.lt_succ_of_lt (h.fresh c hc)
  have hnew : ∀ c ∈ g.live ++ [g.nextCall], c < g.nextCall + 1 := by
    intro c hc
    rcases List.mem_append.mp hc with hc | hc
    · exact hlt hc
    · rw [List.mem_singleton.mp hc]
      exact Nat.lt_succ_self _
  cases step_effect h hstep with
  | quiet ha hcall hin hlive hnext hnews hua =>
    refine ⟨by rw [hin, hcall], by rw [hlive]; exact h.nodup, ?_, ?_, ?_, hdial⟩
    · rw [hlive]
      exact fun c hc => Nat.lt_of_lt_of_le (h.fresh c hc) hnext
    · rw [hcall]
      exact fun c hc => Nat.lt_of_lt_of_le (h.current c hc) hnext
    · rw [hcall]
      exact fun hc => hua (h.ua hc)
  | established hc hconf hcall hin hlive hnext hnews hua =>
    refine ⟨by rw [hin, hcall]; rfl, by rw [hlive]; exact h.nodup, ?_, ?_, fun _ => hua, hdial⟩
    · rw [hlive, hnext]
      exact h.fresh
    · rw [hcall, hnext]
      rintro d ⟨⟩
      exact h.fresh _ hc
  | incoming hidle hcall hin hlive hnext hnews hua =>
    refine ⟨by rw [hin, hcall]; rfl, by rw [hlive]; exact nodup_append_fresh h.nodup h.fresh,
      by rw [hlive, hnext]; exact hnew, ?_, fun _ => hua, hdial⟩
    rw [hcall, hnext]
    rintro d ⟨⟩
    exact Nat.lt_succ_self _
  | outgoing hd hcall hin hlive hnext hnews hua =>
    refine ⟨by rw [hin, hcall]; rfl, by rw [hlive]; exact nodup_append_fresh h.nodup h.fresh,
      by rw [hlive, hnext]; exact hnew, ?_, fun _ => hua, hdial⟩
    rw [hcall, hnext]
    rintro d ⟨⟩
    exact Nat.lt_succ_self _
  | dropped hd hcall hin hlive hnext hnews hua =>
    refine ⟨by rw [hin, hcall]; rfl, by rw [hlive]; exact h.nodup, ?_, ?_, fun _ => hua, hdial⟩
    · rw [hlive, hnext]
      exact fun c hc => hlt hc
    · rw [hcall, hnext]
      rintro d ⟨⟩
      exact Nat.lt_succ_self _
  | closed hc hcall hin hlive hnext hnews hua =>
    refine ⟨by rw [hin, hcall]; rfl, ?_, ?_, by simp [hcall], by simp [hcall], hdial⟩
    · rw [hlive]
      exact (h.filter _).1
    · rw [hlive, hnext]
      exact (h.filter _).2
  | hungUp hw hangs hc hcall hin hlive hnext hnews hua =>
    refine ⟨by rw [hin, hcall]; rfl, ?_, ?_, by simp [hcall], by simp [hcall], hdial⟩
    · rw [hlive]
      exact (h.filter _).1
    · rw [hlive, hnext]
      exact (h.filter _).2
  | audioError hc hcall hin hlive hnext hnews hua =>
    refine ⟨by rw [hin, hcall]; rfl, ?_, ?_, by simp [hcall], by simp [hcall], hdial⟩
    · rw [hlive]
      exact (h.filter _).1
    · rw [hlive, hnext]
      exact (h.filter _).2
  | turnedAway hresult hcall hin hlive hnext hnews hua =>
    refine ⟨by rw [hin, hcall]; rfl, by rw [hlive]; exact h.nodup, ?_, by simp [hcall],
      by simp [hcall], hdial⟩
    rw [hlive, hnext]
    exact fun c hc => hlt hc
  | @replaced peer r result _ hresult hr hcall hin hlive hnext hnews hua =>
    obtain ⟨hnodup, hfresh⟩ := h.filter r
    refine ⟨hin, ?_, ?_, ?_, fun _ => hua, hdial⟩
    · rw [hlive]
      split
      · exact nodup_append_fresh hnodup hfresh
      · simpa using hnodup
    · rw [hlive, hnext]
      intro c hc
      rcases List.mem_append.mp hc with hc | hc
      · exact Nat.lt_succ_of_lt (hfresh c hc)
      · split at hc
        · rw [List.mem_singleton.mp hc]
          exact Nat.lt_succ_self _
        · simp at hc
    · rw [hcall, hnext]
      intro c hc
      split at hc
      · cases hc
        exact Nat.lt_succ_self _
      · cases hc
  | reregistered hw hcall hin hlive hnext hnews =>
    refine ⟨by rw [hin, hcall]; rfl, by simp [hlive], by simp [hlive], by simp [hcall],
      by simp [hcall], hdial⟩

/-- The invariant holds of whatever the phone does. -/
theorem coherent_of_reachable (h : machine.Reachable g) : Coherent g := by
  apply h.invariant
  · rintro _ ⟨account, rfl⟩
    exact coherent_initial account
  · intro g a t hg hstep
    exact hg.step hstep

end SimplePhone.Native
