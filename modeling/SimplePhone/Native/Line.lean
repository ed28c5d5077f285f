import SimplePhone.Native.SingleLine

/-! A telephone with one line, as the upper layers want to see it, and the proof
that the event loop refines it as long as its steps are undisturbed. -/
namespace SimplePhone.Native

open Globals Transition

/-- What a one-line telephone can be doing. -/
inductive Line where
  | idle
  | ringing (c : CallId) (peer : Str) (answered : Bool)
  | dialing (c : CallId) (peer : Str)
  | talking (c : CallId) (peer : Str) (outgoing : Bool)
deriving DecidableEq

def Line.call : Line → Option CallId
  | .idle => none
  | .ringing c _ _ | .dialing c _ | .talking c _ _ => some c

def Line.isTalking : Line → Bool
  | .talking _ _ _ => true
  | _ => false

def Line.isRinging : Line → Bool
  | .ringing _ _ _ => true
  | _ => false

/-- Somebody has answered, and the caller has not confirmed yet. -/
def Line.isAnswered : Line → Bool
  | .ringing _ _ answered => answered
  | _ => false

def Line.answer : Line → Line
  | .ringing c peer _ => .ringing c peer true
  | l => l

/-- What drives it: the outside world, a posted handler, or the dial that wakes up. -/
inductive Drive where
  | event
  | post (w : Work)
  | work (w : Work) (answered : AnswerResult)
  | wake (uri : Str)
deriving DecidableEq

/-- The moves of the telephone, with the callbacks that report them. -/
inductive Move : Line → Drive → Line → List Delivery → Prop where
  | stay (l d) (hd : d = .event ∨ ∃ w, d = .post w) : Move l d l []
  | ring (n peer) : Move .idle .event (.ringing n peer false)
      [⟨.onIncomingCall (callerNumber (bounded 256 peer)), some n⟩]
  /-- The peer replaces its call by a new one, which rings again. -/
  | takeover {l c} (hc : l.call = some c) (n peer) : Move l .event (.ringing n peer false)
      [⟨.onCallEnded, some c⟩, ⟨.onIncomingCall (callerNumber (bounded 256 peer)), some n⟩]
  | picksUp (c peer) : Move (.dialing c peer) .event (.talking c peer true)
      [⟨.onCallStarted, some c⟩]
  | confirmed (c peer) : Move (.ringing c peer true) .event (.talking c peer false)
      [⟨.onCallStarted, some c⟩]
  | finish {l c} (hc : l.call = some c) : Move l .event .idle [⟨.onCallEnded, some c⟩]
  | broken {l c} (hc : l.call = some c) (reason) : Move l .event .idle
      [⟨.onCallFailed reason, some c⟩, ⟨.onCallEnded, some c⟩]
  | hangup {l c w} (r) (hc : l.call = some c) (hw : w.hangsUp = true) : Move l (.work w r) .idle
      [⟨.onCallEnded, some c⟩]
  | answer (c peer b) : Move (.ringing c peer b) (.work .answer .sent) (.ringing c peer true) []
  | reregister (l aor r) : Move l (.work (.reregister aor) r) .idle []
  /-- The other handlers, and those above that find nothing to do. -/
  | idleWork {l w r} (hhang : w.hangsUp = true → l = .idle) (hre : ∀ aor, w ≠ .reregister aor)
      (hanswer : w = .answer → r = .sent → ∀ c peer b, l ≠ .ringing c peer b) :
      Move l (.work w r) l []
  | dial (n uri) : Move .idle (.wake uri) (.dialing n uri) []
  | dialFailed (uri) : Move .idle (.wake uri) .idle [⟨.onCallFailed (utf8 "発信エラー"), none⟩]

/-! ### The line of a state -/

def Call.line (x : Call) : Line :=
  match x.state with
  | .established => .talking x.id x.peerUri x.outgoing
  | .incoming => .ringing x.id x.peerUri x.answered
  | _ => .dialing x.id x.peerUri

/-- The record of the current call. -/
def Globals.current (g : Globals) : Option Call := g.gCall.bind g.find

def Globals.line (g : Globals) : Line := (g.current.map Call.line).getD .idle

theorem Call.line_call (x : Call) : x.line.call = some x.id := by
  unfold Call.line
  split <;> rfl

theorem Call.line_of_dialing {x : Call} (h : x.dialing = true) :
    x.line = .dialing x.id x.peerUri ∧ x.outgoing = true := by
  simp only [Call.dialing, Bool.and_eq_true, Bool.or_eq_true, beq_iff_eq] at h
  unfold Call.line
  rcases h with ⟨hout, (hst | hst) | hst⟩
  all_goals
    rw [hst]
    exact ⟨rfl, hout⟩

variable {g t : Globals}

theorem line_idle (h : g.gCall = none) : g.line = .idle := by
  unfold Globals.line Globals.current
  rw [h]
  rfl

theorem line_current {c : CallId} (hc : g.gCall = some c) :
    g.line = ((g.find c).map Call.line).getD .idle := by
  unfold Globals.line Globals.current
  rw [hc]
  rfl

theorem current_congr (hcalls : t.calls = g.calls) (hcall : t.gCall = g.gCall) :
    t.current = g.current := by
  unfold Globals.current find
  rw [hcalls, hcall]

theorem current_updateCall {c : CallId} {f : Call → Call} (hf : ∀ x, (f x).id = x.id) :
    (g.updateCall c f).current = g.current.map fun x => if x.id = c then f x else x := by
  unfold Globals.current
  rw [updateCall_gCall]
  cases g.gCall with
  | none => rfl
  | some d =>
    simp only [Option.bind_some]
    have hid {x : Call} (hx : g.find d = some x) : x.id = d := by simpa using List.find?_some hx
    by_cases hdc : d = c
    · subst hdc
      rw [find_updateCall hf]
      cases hx : g.find d with
      | none => rfl
      | some x => simp [hid hx]
    · rw [find_updateCall_ne hdc hf]
      cases hx : g.find d with
      | none => rfl
      | some x => simp [hid hx, hdc]

theorem current_updateCall_self {c : CallId} (hc : g.gCall = some c) {f : Call → Call}
    (hf : ∀ x, (f x).id = x.id) : (g.updateCall c f).current = g.current.map f := by
  rw [current_updateCall hf]
  cases hx : g.current with
  | none => rfl
  | some x =>
    obtain ⟨d, hd, hfind⟩ := Option.bind_eq_some_iff.mp hx
    obtain rfl := Option.some.inj (hc.symm.trans hd)
    have hid : x.id = c := by simpa using List.find?_some hfind
    simp [hid]

/-- A write to a call shows on the line only if it changes what the call is doing. -/
theorem line_updateCall {c : CallId} {f : Call → Call} (hf : ∀ x, (f x).id = x.id)
    (hline : ∀ x, g.find c = some x → (f x).line = x.line) : (g.updateCall c f).line = g.line := by
  unfold Globals.line
  rw [current_updateCall hf]
  cases hx : g.current with
  | none => rfl
  | some x =>
    obtain ⟨d, -, hfind⟩ := Option.bind_eq_some_iff.mp hx
    have hid : x.id = d := by simpa using List.find?_some hfind
    simp only [Option.map_some, Option.getD_some]
    split
    · rename_i hxc
      apply hline
      rw [← hxc, hid]
      exact hfind
    · rfl

/-! ### Quiet steps -/

/-- The handlers that answer a call or take it away without telling the app. -/
def Action.hushes (g : Globals) : Action → Bool
  | .work lib =>
      match g.next with
      | some .answer => g.gCall.isSome && lib.uaAnswer = .sent
      | some (.reregister _) => true
      | _ => false
  | _ => false

theorem line_callAnswer (c : CallId) (hc : g.gCall = some c) :
    (callAnswer c .sent g).line = g.line.answer := by
  have hf (x : Call) : (if x.state = .incoming then { x with answered := true } else x).id =
      x.id := by split <;> rfl
  unfold callAnswer
  rw [line_current hc, line_current ((updateCall_gCall g c _).trans hc), find_updateCall hf]
  cases g.find c with
  | none => rfl
  | some x =>
    simp only [Option.map_some, Option.getD_some]
    by_cases hst : x.state = .incoming
    · rw [if_pos hst]
      simp only [Call.line, hst, Line.answer]
    · rw [if_neg hst]
      unfold Call.line
      split
      · rfl
      · exact absurd ‹_› hst
      · rfl

/-- A user agent that was not there had no calls. -/
theorem calls_uaCreateAndRegister (aor : Str) (lib : Lib) (hcalls : g.calls = []) :
    (uaCreateAndRegister aor lib g).1.calls = [] := by
  unfold uaCreateAndRegister
  cases lib.uaAlloc with
  | false => exact hcalls
  | true => cases lib.uaRegister <;> rfl

theorem current_registerWorker (lib : Lib) : (registerWorker lib g).current = g.current := by
  unfold registerWorker
  cases hua : g.gUa with
  | some ua => rfl
  | none =>
    have hnone : g.calls = [] := by simp [calls, hua]
    have hcalls := calls_uaCreateAndRegister (buildAccountAor g.account 256) lib hnone
    have hlive : g.live = [] := by simp [live, hnone]
    have hcall := (uaCreateAndRegister_fields (buildAccountAor g.account 256) lib hlive).1
    simp only
    split
    · exact current_congr (hcalls.trans hnone.symm) hcall
    · exact current_congr (hcalls.trans hnone.symm) hcall

theorem line_registerWorker (lib : Lib) : (registerWorker lib g).line = g.line := by
  unfold Globals.line
  rw [current_registerWorker]

theorem line_quietWork {lib : Lib} {w : Work} (hhang : w.hangsUp = true → g.gCall = none)
    (hre : ∀ aor, w ≠ .reregister aor) (hanswer : w ≠ .answer) :
    (w.run lib g).line = g.line := by
  have hend : w.hangsUp = true → (endcallWorker g).line = g.line := by
    intro hw
    rw [endcallWorker_idle (hhang hw)]
    rfl
  cases w with
  | register => exact line_registerWorker lib
  | unregister => exact congrArg Globals.line (unregisterWorker_eq g)
  | reregister aor => exact absurd rfl (hre aor)
  | makecall uri =>
    change (makecallHangup uri g).line = _
    by_cases hua : g.gUa = none
    · rw [makecallHangup_dropped hua]
    · rw [makecallHangup_idle hua (hhang rfl)]
      rfl
  | answer => exact absurd rfl hanswer
  | endcall => exact hend rfl
  | timeoutHangup => exact hend rfl
  | dtmf digit =>
    unfold Work.run dtmfWorker
    cases g.gCall with
    | none => rfl
    | some c => exact line_updateCall (fun _ => rfl) fun _ _ => rfl
  | mute muted =>
    unfold Work.run muteWorker
    cases g.gCall with
    | none => rfl
    | some c => exact line_updateCall (fun _ => rfl) fun _ _ => rfl

/-- Of the quiet steps only an answer shows on the line. -/
theorem line_quiet (hco : Coherent g) {a : Action} (ha : a.quiet g = true)
    (hstep : step g a = some t) : t.line = if a.hushes g then g.line.answer else g.line := by
  cases a with
  | event e =>
    obtain ⟨-, he, rfl⟩ := step_event.mp hstep
    change (e.run g.begin).line = g.begin.line
    cases e with
    | registerOk prm => rfl
    | registerFail prm => rfl
    | invite peer replaces result =>
      obtain ⟨rfl, rfl⟩ : replaces = none ∧ result = .failed := by simpa [Action.quiet] using ha
      rw [SipEvent.run, sipsessConnHandler_failed hco.toFresh]
      rfl
    | progress c early =>
      simp only [SipEvent.run]
      rw [uaEvent_ignored (by cases early <;> rfl)]
      apply line_updateCall
      · exact fun _ => rfl
      · intro x hx
        have hdialing : x.dialing = true := by
          simpa [SipEvent.enabled, show g.find c = some x from hx] using he
        rw [(Call.line_of_dialing hdialing).1]
        cases early <;> rfl
    | other ev call prm =>
      simp only [SipEvent.run]
      rw [uaEvent_ignored he]
    | _ => cases ha
  | post w =>
    cases step_post.mp hstep
    rfl
  | connect result =>
    obtain ⟨uri, hdial, rfl⟩ := step_connect.mp hstep
    obtain rfl : result = .refused := by simpa [Action.quiet] using ha
    rfl
  | work lib =>
    obtain ⟨-, p, rest, hp, rfl⟩ := step_work.mp hstep
    have hnext : g.next = some p.work := by simp [Globals.next, hp]
    simp only [Action.quiet, hnext, Option.all_some] at ha
    simp only [Action.hushes, hnext]
    change (p.work.run lib (g.taken rest)).line = _
    cases hw : p.work with
    | answer =>
      unfold Work.run answerWorker
      cases hc : g.gCall with
      | none =>
        simp only [taken_gCall, hc]
        rfl
      | some c =>
        simp only [taken_gCall, hc, Option.isSome_some, Bool.true_and]
        cases lib.uaAnswer with
        | refused => rfl
        | sent => exact line_callAnswer (g := g.taken rest) c hc
    | reregister aor => simp [hw] at ha
    | _ =>
      rw [hw] at ha
      exact line_quietWork (g := g.taken rest) (fun hhang => by simpa [hhang] using ha) (by simp)
        (by simp)

/-! ### Refinement -/

/-- How a step drives the telephone. -/
def Action.drive (g : Globals) : Action → Drive
  | .event _ => .event
  | .post w => .post w
  | .work lib => match g.next with
      | some w => .work w lib.uaAnswer
      | none => .event
  | .connect _ => .wake (g.dialing.getD [])

/-- The move from `g` to `t` that the drive brings about. -/
def Moves (g : Globals) (d : Drive) (t : Globals) : Prop := Move g.line d t.line t.news

theorem exists_current (hs : SingleLine g) {c : CallId} (hc : g.gCall = some c) :
    ∃ x, g.find c = some x ∧ x.id = c ∧ g.line = x.line := by
  obtain ⟨x, -, hx, hid⟩ := exists_find ((hs c).mpr hc)
  refine ⟨x, hx, hid, ?_⟩
  rw [line_current hc, hx]
  rfl

theorem SingleLine.line_call (hs : SingleLine g) : g.line.call = g.gCall := by
  cases hc : g.gCall with
  | none =>
    rw [line_idle hc]
    rfl
  | some c =>
    obtain ⟨x, -, hid, hline⟩ := exists_current hs hc
    rw [hline, x.line_call, hid]

theorem moves_quiet (hco : Coherent g) {a : Action} (ha : a.quiet g = true)
    (hstep : step g a = some t)
    (hnews : t.news = if a = .connect .refused then [⟨.onCallFailed (utf8 "発信エラー"), none⟩]
      else []) : Moves g (a.drive g) t := by
  have hline := line_quiet hco ha hstep
  unfold Moves
  cases a with
  | event e =>
    rw [hline, hnews]
    exact .stay _ _ (.inl rfl)
  | post w =>
    rw [hline, hnews]
    exact .stay _ _ (.inr ⟨w, rfl⟩)
  | connect result =>
    obtain rfl : result = .refused := by simpa [Action.quiet] using ha
    obtain ⟨uri, hdial, -⟩ := step_connect.mp hstep
    rw [hline, hnews, line_idle (hco.dialing (by simp [hdial])).1]
    exact .dialFailed _
  | work lib =>
    obtain ⟨-, p, rest, hp, -⟩ := step_work.mp hstep
    have hnext : g.next = some p.work := by simp [Globals.next, hp]
    simp only [Action.quiet, hnext, Option.all_some] at ha
    simp only [Action.hushes, hnext] at hline
    simp only [Action.drive, hnext]
    rw [hline, hnews]
    cases hw : p.work with
    | answer =>
      cases hl : g.line with
      | ringing c peer b =>
        have hcall : g.gCall.isSome = true := by
          rw [Option.isSome_iff_ne_none]
          intro hidle
          rw [line_idle hidle] at hl
          cases hl
        cases lib.uaAnswer with
        | refused =>
          simp only [hcall]
          exact .idleWork (by simp [Work.hangsUp]) (by simp) (by simp)
        | sent =>
          simp only [hcall]
          exact .answer _ _ _
      | _ =>
        simp only [Line.answer, ite_self]
        exact .idleWork (by simp [Work.hangsUp]) (by simp) (by simp)
    | reregister aor => simp [hw] at ha
    | _ =>
      rw [hw] at ha
      refine .idleWork (fun hhang => line_idle ?_) (by simp) (by simp)
      simpa [hhang] using ha

/-- An undisturbed step of the event loop is a move of the one-line telephone, and
tells the app just that. -/
theorem step_moves (hco : Coherent g) (hs : SingleLine g) {a : Action} (hund : Undisturbed g a)
    (hstep : step g a = some t) : Moves g (a.drive g) t := by
  have hcalled {c : CallId} (hc : c ∈ g.live) : g.line.call = some c := by
    rw [hs.line_call]
    exact (hs c).mp hc
  have hbusy {c : CallId} (hc : c ∈ g.live) : g.gCall ≠ none := by simp [(hs c).mp hc]
  cases step_effect hco hstep with
  | quiet ha hcall hin hlive hnext hnews hua => exact moves_quiet hco ha hstep hnews
  | @established c _ hc hconf hcall hin hlive hnext hnews hua hfind =>
    obtain ⟨x, hx, hid, hline⟩ := exists_current hs ((hs c).mp hc)
    unfold Moves
    rw [hnews, hline, line_current hcall, hfind, hx]
    simp only [hx, Option.any_some, Call.confirmable, Bool.or_eq_true] at hconf
    rcases hconf with hdialing | hringing
    · obtain ⟨hbefore, hout⟩ := Call.line_of_dialing hdialing
      rw [hbefore, ← hid]
      simp only [Option.map_some, Option.getD_some, Call.line, hout]
      exact .picksUp _ _
    · simp only [Bool.and_eq_true, Bool.not_eq_true', beq_iff_eq] at hringing
      obtain ⟨⟨hin', hst⟩, hans⟩ := hringing
      simp only [Option.map_some, Option.getD_some, Call.line, hst, hans, hin', ← hid]
      exact .confirmed _ _
  | incoming hidle hcall hin hlive hnext hnews hua hfind =>
    unfold Moves
    rw [hnews, line_idle hidle, line_current hcall, hfind]
    exact .ring _ _
  | outgoing hdial hcall hin hlive hnext hnews hua hfind =>
    obtain ⟨uri, hdial', hfind⟩ := hfind
    unfold Moves
    simp only [Action.drive, hdial']
    rw [hnews, line_idle (hco.dialing hdial).1, line_current hcall, hfind]
    exact .dial _ _
  | dropped => exact hund.elim
  | closed hc hcall hin hlive hnext hnews hua =>
    unfold Moves
    rw [hnews, line_idle hcall, if_neg (hbusy hc)]
    exact .finish (hcalled hc)
  | hungUp hw hangs hc hcall hin hlive hnext hnews hua =>
    unfold Moves
    simp only [Action.drive, hw]
    rw [hnews, line_idle hcall]
    exact .hangup _ (hs.line_call.trans hc) hangs
  | audioError hc hcall hin hlive hnext hnews hua =>
    unfold Moves
    rw [hnews, line_idle hcall, if_neg (hbusy hc)]
    exact .broken (hcalled hc) _
  | turnedAway hresult hcall hin hlive hnext hnews hua =>
    have hidle : g.gCall = none := by
      obtain rfl | ⟨rfl, rfl, hbusy⟩ := hresult
      · exact hund
      · exact hund.resolve_right fun hne => hne rfl
    unfold Moves
    rw [hnews, if_pos hidle, line_idle hidle, line_idle hcall]
    exact .stay _ _ (.inl rfl)
  | @replaced peer r result _ hresult hr hcall hin hlive hnext hnews hua hfind =>
    unfold Moves
    rw [if_neg (hbusy hr)] at hnews
    cases result with
    | refused => exact absurd rfl hresult
    | failed =>
      rw [hnews, line_idle hcall]
      exact .finish (hcalled hr)
    | ringing =>
      rw [hnews, line_current hcall, hfind rfl]
      exact .takeover (hcalled hr) _ _
  | reregistered hw hcall hin hlive hnext hnews =>
    unfold Moves
    simp only [Action.drive, hw]
    rw [hnews, line_idle hcall]
    exact .reregister _ _ _

/-- Talking begins with an answer from the other side. -/
theorem established_of_talking (hco : Coherent g) {a : Action} (hund : Undisturbed g a)
    (hstep : step g a = some t) (htalk : t.line.isTalking = true)
    (hbefore : g.line.isTalking = false) : ∃ c, a = .event (.established c) := by
  have hidle (hcall : t.gCall = none) : ∃ c, a = .event (.established c) := by
    rw [line_idle hcall] at htalk
    cases htalk
  cases step_effect hco hstep with
  | quiet ha =>
    have hline := line_quiet hco ha hstep
    have hanswer : g.line.answer.isTalking = g.line.isTalking := by cases g.line <;> rfl
    rw [hline] at htalk
    split at htalk
    · rw [hanswer, hbefore] at htalk
      cases htalk
    · rw [hbefore] at htalk
      cases htalk
  | established => exact ⟨_, rfl⟩
  | incoming hidle hcall hin hlive hnext hnews hua hfind =>
    rw [line_current hcall, hfind] at htalk
    cases htalk
  | outgoing hdial hcall hin hlive hnext hnews hua hfind =>
    obtain ⟨uri, -, hfind⟩ := hfind
    rw [line_current hcall, hfind] at htalk
    cases htalk
  | dropped => exact hund.elim
  | closed hc hcall => exact hidle hcall
  | hungUp hw hangs hc hcall => exact hidle hcall
  | audioError hc hcall => exact hidle hcall
  | turnedAway hresult hcall => exact hidle hcall
  | @replaced peer r result _ hresult hr hcall hin hlive hnext hnews hua hfind =>
    by_cases hring : result = .ringing
    · rw [if_pos hring] at hcall
      rw [line_current hcall, hfind hring] at htalk
      cases htalk
    · rw [if_neg hring] at hcall
      exact hidle hcall
  | reregistered hw hcall => exact hidle hcall

/-! ### The handlers that wait -/

/-- The posted handlers, oldest first. -/
def Globals.works (g : Globals) : List Work := g.posted.map Post.work

theorem works_remainRun (w : Work) (g : Globals) : (remainRun w g).works = g.works ++ [w] := by
  unfold Globals.works remainRun
  rw [List.map_append]
  rfl

theorem works_step {a : Action} (ha : ∀ w, a ≠ .post w) (hstep : step g a = some t) :
    t.works = g.works ∧ (∀ w r, a.drive g ≠ .work w r) ∨
      ∃ w r, a.drive g = .work w r ∧ g.works = w :: t.works := by
  have hposted := (step_frame hstep).posted
  unfold Globals.works
  cases a with
  | event e => exact .inl ⟨by rw [hposted]; rfl, by simp [Action.drive]⟩
  | post w => exact absurd rfl (ha w)
  | connect result => exact .inl ⟨by rw [hposted]; rfl, by simp [Action.drive]⟩
  | work lib =>
    obtain ⟨-, p, rest, hp, -⟩ := step_work.mp hstep
    have hnext : g.next = some p.work := by simp [Globals.next, hp]
    refine .inr ⟨p.work, lib.uaAnswer, by simp [Action.drive, hnext], ?_⟩
    rw [hposted, posted_afterStep_work hp, hp]
    rfl

/-! ### Handlers that may go wrong in silence -/

/-- No re-registration runs over a call. -/
def Spares (g : Globals) : Action → Prop
  | .work _ =>
      match g.next with
      | some (.reregister _) => g.gCall = none
      | _ => True
  | _ => True

instance (g : Globals) (a : Action) : Decidable (Spares g a) := by
  unfold Spares
  split
  · split <;> infer_instance
  · infer_instance

/-- No answer to a ringing call fails. -/
def Accepts (g : Globals) : Action → Prop
  | .work lib =>
      match g.next with
      | some .answer => g.line.isRinging = true → lib.uaAnswer = .sent
      | _ => True
  | _ => True

instance (g : Globals) (a : Action) : Decidable (Accepts g a) := by
  unfold Accepts
  split
  · split <;> infer_instance
  · infer_instance

theorem next_of_drive {a : Action} {w : Work} {r : AnswerResult} (h : a.drive g = .work w r) :
    ∃ lib, a = .work lib ∧ g.next = some w ∧ lib.uaAnswer = r := by
  cases a with
  | work lib =>
    simp only [Action.drive] at h
    cases hw : g.next with
    | none => simp [hw] at h
    | some w' =>
      rw [hw] at h
      obtain ⟨rfl, rfl⟩ := Drive.work.inj h
      exact ⟨lib, rfl, rfl, rfl⟩
  | _ => cases h

theorem Spares.idle {a : Action} (h : Spares g a) {aor : Str} {r : AnswerResult}
    (hd : a.drive g = .work (.reregister aor) r) : g.line = .idle := by
  obtain ⟨lib, rfl, hnext, -⟩ := next_of_drive hd
  simp only [Spares, hnext] at h
  exact line_idle h

theorem Accepts.not_ringing {a : Action} (h : Accepts g a)
    (hd : a.drive g = .work .answer .refused) : g.line.isRinging = false := by
  obtain ⟨lib, rfl, hnext, hr⟩ := next_of_drive hd
  simp only [Accepts, hnext, hr] at h
  by_contra hring
  exact nomatch h (by simpa using hring)

/-! ### The line in terms of the call objects -/

theorem line_cases (hco : Coherent g) (hs : SingleLine g) :
    g.calls = [] ∧ g.line = .idle ∨ ∃ x, g.calls = [x] ∧ g.line = x.line := by
  have hlive := hs.live_eq hco.nodup
  cases hc : g.gCall with
  | none =>
    rw [hc] at hlive
    exact .inl ⟨List.map_eq_nil_iff.mp hlive, line_idle hc⟩
  | some c =>
    rw [hc] at hlive
    obtain ⟨x, hx, hid⟩ := List.map_eq_singleton_iff.mp hlive
    refine .inr ⟨x, hx, ?_⟩
    rw [line_current hc]
    unfold find
    rw [hx]
    simp [hid]

theorem talking_iff_established (hco : Coherent g) (hs : SingleLine g) :
    g.line.isTalking = true ↔ ∃ x ∈ g.calls, x.state = .established := by
  obtain ⟨hnone, hline⟩ | ⟨x, hx, hline⟩ := line_cases hco hs
  · rw [hline, hnone]
    simp [Line.isTalking]
  · rw [hline, hx]
    unfold Call.line
    cases hst : x.state <;> simp [Line.isTalking, hst]

theorem isAnswered_iff (hco : Coherent g) (hs : SingleLine g) :
    g.line.isAnswered = true ↔ ∃ x ∈ g.calls, x.state = .incoming ∧ x.answered = true := by
  obtain ⟨hnone, hline⟩ | ⟨x, hx, hline⟩ := line_cases hco hs
  · rw [hline, hnone]
    simp [Line.isAnswered]
  · rw [hline, hx]
    unfold Call.line
    cases hst : x.state <;> simp [Line.isAnswered, hst]

end SimplePhone.Native
