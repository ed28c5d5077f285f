import SimplePhone.App.Display
import SimplePhone.App.Journal

/-! The call history over whole runs: as long as no step is one of those that lose an
entry, write one twice or mix them up, every call has its entry once everything is quiet. -/
namespace SimplePhone.App

open Service Native Transition

/-! ### The recorded machine -/

/-- What a step writes to the history. -/
def Phone.writes (p : Phone) (a : Action) : List HistoryEntry := ((react p a).map Prod.snd).getD []

/-- The number that a bound activity has the service dial. -/
def Phone.asks (p : Phone) : Action → Option Str
  | .key k =>
      match p.activity with
      | some a =>
          match a.bound, (a.onKeyDown p.lastNumber k).request with
          | true, some (.makeCall number) => some number
          | _, _ => none
      | none => none
  | _ => none

/-- What a bound activity shows, or would show if it had stayed. -/
def Ledger.glance (h : Ledger) (p : Phone) (a : Action) (q : Phone) : CallState :=
  match q.shown with
  | some u => u
  | none =>
      match a, p.service.main with
      | .message, m :: _ => h.view.afterMessage m
      | _, _ => h.view

def Ledger.note (h : Ledger) (p : Phone) (a : Action) (q : Phone) : Ledger :=
  let told := match a with
    | .service (.native _) => h.hear p.service.gCallback p.service.native.find q.service.native.news
    | _ => h
  { told with
    written := h.written ++ p.writes a
    dialled := (p.asks a).getD h.dialled
    view := h.glance p a q }

def recorder : Machine (Phone × Ledger) Action := machine.record .empty Ledger.note

/-! ### The steps that keep the history complete -/

/-- The next notice is of a new call: what the screen shows now writes nothing. -/
def Announces (s : State) : Prop := ∃ callerNumber, (told s).head? = some (.onIncomingCall callerNumber)

instance (s : State) : Decidable (Announces s) :=
  match h : (told s).head? with
  | some (.onIncomingCall callerNumber) => .isTrue ⟨callerNumber, h⟩
  | some (.onStatus _) | some .onCallStarted | some .onCallEnded | some (.onCallFailed _)
  | some (.onDebug _) | none => .isFalse (by rintro ⟨callerNumber, hn⟩; simp [h] at hn)

/-- A caller who is answered has a number. -/
def Named : Line → Prop
  | .ringing _ peer _ => shownNumber peer ≠ []
  | _ => True

instance (l : Line) : Decidable (Named l) := by
  unfold Named
  exact match l with
    | .ringing _ _ _ => inferInstance
    | .idle | .dialing _ _ | .talking _ _ _ => inferInstance

/-- The call of an end key is not one that begins meanwhile, and a caller is not rejected
behind the back of the history. -/
def Ends (s : State) (a : Activity) : Prop :=
  if a.callState.isIncoming then
    a.bound = true ∧ (told s = [] ∨ (told s).head? = some .onCallEnded)
  else a.bound = true → (told s).head? ≠ some .onCallStarted

instance (s : State) (a : Activity) : Decidable (Ends s a) := by
  unfold Ends
  infer_instance

/-- The steps after which written and waiting entries still are those that are due. -/
def Fair (p : Phone) (h : Ledger) : Action → Prop
  | .service (.native (.event (.established _))) =>
      (Ending p.service → told p.service ≠ []) ∧ Named p.service.native.line
  | .service (.native (.event (.audioError _ _))) => p.service.native.line.isRinging = false
  | .message =>
      match p.service.main with
      | .notify n :: _ => p.shown = none → h.view.entry n = []
      | _ => True
  | .intent source => ∀ a ∈ p.activity, a.bound = true →
      ∀ callerNumber ∈ p.caller source, callerNumber ≠ [] →
        Announces p.service ∨ a.callState = .incoming (displayNumber callerNumber)
  | .serviceConnected | .resume => ∀ a ∈ p.activity, Announces p.service ∨
      (if inCall p.service then a.callState.offers else none) = h.view.offers
  | .key k => ∀ a ∈ p.activity,
      (a.onKeyDown p.lastNumber k).request = some .endCall → Ends p.service a
  | _ => True

instance (p : Phone) (h : Ledger) (a : Action) : Decidable (Fair p h a) := by
  unfold Fair
  exact match a with
    | .service (.native (.event e)) =>
        match e with
        | .established _ | .audioError _ _ => inferInstance
        | .registerOk _ | .registerFail _ | .invite _ _ _ | .progress _ _ | .closed _ _
        | .other _ _ _ => inferInstance
    | .message =>
        match p.service.main with
        | .notify _ :: _ => inferInstance
        | [] | .startRinging :: _ | .stopRinging :: _ => inferInstance
    | .intent _ | .serviceConnected | .resume | .key _ => inferInstance
    | .service (.native (.post _)) | .service (.native (.work _)) | .service (.native (.connect _))
    | .service (.watchdog _) | .service .take | .service .op | .service .message
    | .service .ringTimeout | .service (.request _) | .recreate | .destroyActivity =>
        inferInstance

/-! ### The invariant -/

structure Faithful (p : Phone) (h : Ledger) : Prop where
  displayed : Displayed p
  screened : Screened p.service (some h.view)
  viewed : ∀ u, p.shown = some u → u = h.view
  dialled : told p.service = [] → ∀ number, h.view = .outgoing number → number = h.dialled
  booked : Booked p.service.native.line p.service.native.nextCall h
  tallies : Tallies p.service.native.line (told p.service) h.view h.written
    (h.due (ringsOn p.service.native.line))
  addressed : ∀ r ∈ h.established, r.1.outgoing = true →
    r.1.peerUri = dialUri p.service.native.account r.2
  history : p.history = h.written.reverse.take historyMax

section
variable {s t : State} {p q : Phone} {h : Ledger} {r : Phone × List HistoryEntry}

/-! ### Notices and the history -/

theorem react_history {a : Action} (hreact : react p a = some r) : r.1.history = p.history := by
  cases a with
  | service a =>
    obtain ⟨-, t, -, rfl⟩ := react_service.mp hreact
    rfl
  | message =>
    obtain ⟨m, rest, t, -, -, ⟨n, a, -, -, -, rfl⟩ | ⟨-, rfl⟩⟩ := react_message hreact <;> rfl
  | intent source =>
    obtain ⟨t, -, rfl⟩ := react_intent.mp hreact
    rfl
  | recreate =>
    obtain ⟨-, rfl⟩ := react_recreate.mp hreact
    rfl
  | destroyActivity =>
    obtain ⟨-, rfl⟩ := react_destroyActivity.mp hreact
    rfl
  | serviceConnected =>
    obtain ⟨a, -, -, -, rfl⟩ := react_serviceConnected.mp hreact
    rfl
  | resume =>
    obtain ⟨a, -, -, rfl⟩ := react_resume.mp hreact
    rfl
  | key k =>
    obtain ⟨a, -, rfl⟩ := react_key.mp hreact
    rfl

/-- The history keeps the newest entries. -/
theorem foldl_addHistory (written more : List HistoryEntry) :
    more.foldl addHistory (written.reverse.take historyMax) =
      (written ++ more).reverse.take historyMax := by
  induction more generalizing written with
  | nil => rw [List.append_nil, List.foldl_nil]
  | cons e more ih =>
    have hone : addHistory (written.reverse.take historyMax) e =
        (written ++ [e]).reverse.take historyMax := by
      unfold addHistory
      rw [List.reverse_append, List.reverse_singleton, List.singleton_append, historyMax,
        List.take_succ_cons, List.take_succ_cons, List.take_take]
      rfl
    rw [List.foldl_cons, hone, ih, List.append_assoc]
    rfl

/-- The phone after a step, with what it has written. -/
abbrev filed (r : Phone × List HistoryEntry) : Phone :=
  { r.1 with history := r.2.foldl addHistory r.1.history }

theorem recorder_step {a : Action} {x y : Phone × Ledger} (hstep : recorder.step x a = some y) :
    ∃ r, react x.1 a = some r ∧ y.1 = filed r ∧ y.2 = x.2.note x.1 a (filed r) := by
  obtain ⟨t, ht, rfl⟩ := Machine.record_step_eq_some.mp hstep
  obtain ⟨r, hreact, rfl⟩ := step_eq_some.mp ht
  exact ⟨r, hreact, rfl, rfl⟩

/-! ### Steps outside the event loop -/

theorem note_beside {a : Action} (ha : ∀ b, a ≠ .service (.native b)) :
    h.note p a q = { h with
      written := h.written ++ p.writes a
      dialled := (p.asks a).getD h.dialled
      view := h.glance p a q } := by
  cases a with
  | service a =>
    cases a with
    | native b => exact absurd rfl (ha b)
    | _ => rfl
  | _ => rfl

theorem glance_shown {a : Action} {u : CallState} (hu : q.shown = some u) : h.glance p a q = u := by
  unfold Ledger.glance
  rw [hu]

theorem glance_unshown {a : Action} (hnone : q.shown = none) (ha : a ≠ .message) :
    h.glance p a q = h.view := by
  unfold Ledger.glance
  rw [hnone]
  cases a with
  | message => exact absurd rfl ha
  | _ => rfl

/-- The event loop apart, a step is judged by the screen and the waiting notices. -/
theorem Faithful.beside (hf : Faithful p h) {a : Action} (ha : ∀ b, a ≠ .service (.native b))
    (hsteady : Steady p a) (hreact : react p a = some r)
    (hline : r.1.service.native.line = p.service.native.line)
    (hnext : r.1.service.native.nextCall = p.service.native.nextCall)
    (haccount : r.1.service.native.account = p.service.native.account) {view : CallState}
    (hview : h.glance p a r.1 = view)
    (hscreened : r.1.shown = none → Screened r.1.service (some view))
    (hdialled : told r.1.service = [] → ∀ number, view = .outgoing number →
      number = (p.asks a).getD h.dialled)
    (htallies : Tallies p.service.native.line (told r.1.service) view (h.written ++ r.2)
      (h.due (ringsOn p.service.native.line))) :
    Faithful (filed r) (h.note p a (filed r)) := by
  have hdisplayed : Displayed (filed r) :=
    hf.displayed.step hsteady (step_eq_some.mpr ⟨r, hreact, rfl⟩)
  have hwrites : p.writes a = r.2 := by
    unfold Phone.writes
    rw [hreact]
    rfl
  have hglance : h.glance p a (filed r) = view :=
    hview
  rw [note_beside ha, hwrites, hglance]
  refine ⟨hdisplayed, ?_, ?_, hdialled, ?_, ?_, ?_, ?_⟩
  · cases hshown : r.1.shown with
    | none => exact hscreened hshown
    | some u =>
      have hscreen := hdisplayed.screened
      rw [show Phone.shown (filed r) = some u from
        hshown] at hscreen
      rw [← hview, glance_shown hshown]
      exact hscreen
  · intro u hu
    rw [← hview, glance_shown (show r.1.shown = some u from hu)]
  · change Booked r.1.service.native.line r.1.service.native.nextCall _
    rw [hline, hnext]
    exact ⟨hf.booked.fresh, hf.booked.begun, hf.booked.once, hf.booked.ringing, hf.booked.dialing⟩
  · change Tallies r.1.service.native.line _ _ _ (h.due (ringsOn r.1.service.native.line))
    rw [hline]
    exact htallies
  · change ∀ r' ∈ h.established, _ → _ = dialUri r.1.service.native.account _
    rw [haccount]
    exact hf.addressed
  · change r.2.foldl addHistory r.1.history = _
    rw [react_history hreact, hf.history, foldl_addHistory]

theorem Faithful.service (hf : Faithful p h) {a : Service.Action} (ha : ∀ b, a ≠ .native b)
    (hsteady : Steady p (.service a)) (hreact : react p (.service a) = some r) :
    Faithful (filed r) (h.note p (.service a) (filed r)) := by
  have hr := hreact
  obtain ⟨hout, t, hstep, rfl⟩ := react_service.mp hr
  have hmessage : a ≠ .message := by
    rintro rfl
    cases hout
  obtain ⟨-, -, hline, hnext, -⟩ := line_step_other ha hstep
  have hview : h.glance p (.service a) { p with service := t } = h.view := by
    cases hshown : p.shown with
    | none => exact glance_unshown hshown nofun
    | some u =>
      exact (glance_shown (q := { p with service := t }) hshown).trans (hf.viewed u hshown)
  have htold := told_beside ha hmessage hstep
  refine hf.beside (fun b hb => ha b (Action.service.inj hb)) hsteady hreact hline hnext
    (account_step_other ha hstep) hview (fun _ => ?_) ?_ ?_
  · refine hf.screened.service hsteady hmessage ?_ hstep
    rintro number rfl
    cases hout
  · intro hnone
    apply hf.dialled
    obtain hsame | ⟨-, reason, hmore⟩ := htold
    · exact hsame ▸ hnone
    · rw [hmore] at hnone
      exact absurd hnone (by simp)
  · have htallies := hf.tallies
    change Tallies _ (told t) _ (h.written ++ []) _
    rw [List.append_nil]
    obtain hsame | ⟨hdialled, reason, hmore⟩ := htold
    · rw [hsame]
      exact htallies
    · have hidle := (hf.screened.agrees.dialled hdialled).1
      rw [hmore]
      rw [hidle] at htallies ⊢
      exact htallies.refuse reason

theorem shown_some {u : CallState} (hu : p.shown = some u) :
    ∃ a, p.activity = some a ∧ a.bound = true ∧ a.callState = u := by
  unfold Phone.shown at hu
  cases ha : p.activity with
  | none =>
    rw [ha] at hu
    cases hu
  | some a =>
    rw [ha] at hu
    cases hb : a.bound with
    | false => simp [hb] at hu
    | true => exact ⟨a, rfl, hb, by simpa [hb] using hu⟩

theorem Faithful.message (hf : Faithful p h) (hfair : Fair p h .message)
    (hreact : react p .message = some r) : Faithful (filed r) (h.note p .message (filed r)) := by
  obtain ⟨m, rest, t, hmain, hstep, hr⟩ := react_message hreact
  obtain ⟨-, -, hline, hnext, -⟩ := line_step_other (by simp) hstep
  have haccount := account_step_other (by simp) hstep
  have htold := told_message hmain hstep
  have hscreened : Screened t (some (h.view.afterMessage m)) := hf.screened.message hmain hstep
  have hservice : r.1.service = t := by
    obtain ⟨n, a, -, -, -, rfl⟩ | ⟨-, rfl⟩ := hr <;> rfl
  have hview : h.glance p .message r.1 = h.view.afterMessage m := by
    obtain ⟨n, a, rfl, ha, hb, rfl⟩ | ⟨hdeaf, rfl⟩ := hr
    · rw [glance_shown (shown_bound rfl (by rw [hear_bound, hb])), hear_callState,
        hf.viewed _ (shown_bound ha hb)]
      rfl
    · cases hshown : p.shown with
      | none =>
        unfold Ledger.glance
        rw [show Phone.shown { p with service := t } = none from hshown, hmain]
      | some u =>
        obtain ⟨a, ha, hb, -⟩ := shown_some hshown
        rw [glance_shown (q := { p with service := t }) hshown, hf.viewed u hshown]
        cases m with
        | notify n =>
          rw [hdeaf n a rfl ha] at hb
          cases hb
        | _ => rfl
  have htallies := hf.tallies
  refine hf.beside nofun trivial hreact (hservice ▸ hline) (hservice ▸ hnext)
    (hservice ▸ haccount) hview (fun _ => hservice ▸ hscreened) ?_ ?_
  · rw [hservice]
    intro hnone number hnumber
    cases hm : callNotice m with
    | none =>
      rw [afterMessage_silent hm] at hnumber
      rw [hm, hnone] at htold
      exact hf.dialled htold number hnumber
    | some n =>
      obtain rfl := callNotice_some hm
      cases n <;> first | cases hm; done | cases hnumber
  · rw [hservice]
    cases hm : callNotice m with
    | none =>
      have hwritten : r.2 = [] := by
        obtain ⟨n, a, rfl, -, -, rfl⟩ | ⟨-, rfl⟩ := hr
        · cases n <;> first | rfl | cases hm
        · rfl
      rw [hm, Option.toList_none, List.nil_append] at htold
      rw [hwritten, List.append_nil, afterMessage_silent hm, ← htold]
      exact htallies
    | some n =>
      obtain rfl := callNotice_some hm
      rw [hm, Option.toList_some, List.singleton_append] at htold
      rw [htold] at htallies
      have hwritten : r.2 = h.view.entry n := by
        obtain ⟨n', a, hn, ha, hb, rfl⟩ | ⟨hdeaf, rfl⟩ := hr
        · obtain rfl := Message.notify.inj hn
          have hview := hf.viewed _ (shown_bound ha hb)
          rw [← hview]
          exact hear_written (hview ▸ htallies.tells)
        · simp only [Fair, hmain] at hfair
          refine (hfair ?_).symm
          cases hshown : p.shown with
          | none => rfl
          | some u =>
            obtain ⟨a, ha, hb, -⟩ := shown_some hshown
            rw [hdeaf n a rfl ha] at hb
            cases hb
      rw [hwritten]
      exact htallies.hear

/-! ### The life of the activity -/

/-- Nothing is bound after the step, so nothing shows. -/
theorem Faithful.unseen (hf : Faithful p h) {a : Action} (ha : ∀ b, a ≠ .service b)
    (hmessage : a ≠ .message) (hsteady : Steady p a) (hreact : react p a = some r)
    (hasks : p.asks a = none) (hwrites : r.2 = []) (hshown : r.1.shown = none)
    (hservice : r.1.service = p.service ∨
      ∃ intents, r.1.service = { p.service with intents := intents }) :
    Faithful (filed r) (h.note p a (filed r)) := by
  have hview := glance_unshown (p := p) (h := h) hshown hmessage
  have hsame : r.1.service.native = p.service.native ∧ told r.1.service = told p.service ∧
      Screened r.1.service (some h.view) := by
    have hs := hf.screened
    obtain heq | ⟨intents, heq⟩ := hservice
    · rw [heq]
      exact ⟨rfl, rfl, hs⟩
    · rw [heq]
      exact ⟨rfl, rfl, ⟨hs.coherent, hs.single, hs.proper, hs.agrees⟩⟩
  obtain ⟨hnative, htold, hscreened⟩ := hsame
  refine hf.beside (fun b hb => ha _ hb) hsteady hreact (by rw [hnative]) (by rw [hnative])
    (by rw [hnative]) hview (fun _ => hscreened) ?_ ?_
  · rw [htold, hasks]
    exact hf.dialled
  · rw [htold, hwrites, List.append_nil]
    exact hf.tallies

/-- A bound activity shows something else by itself. -/
theorem Faithful.redraw (hf : Faithful p h) {a : Action} (ha : ∀ b, a ≠ .service b)
    (hsteady : Steady p a) (hreact : react p a = some r) (hasks : p.asks a = none)
    (hwrites : r.2 = []) {u : CallState} (hshown : r.1.shown = some u)
    (hoffers : Announces p.service ∨ u.offers = h.view.offers)
    (hservice : r.1.service = p.service ∨
      ∃ intents, r.1.service = { p.service with intents := intents }) :
    Faithful (filed r) (h.note p a (filed r)) := by
  have hview := glance_shown (p := p) (h := h) (a := a) hshown
  have hsame : r.1.service.native = p.service.native ∧ told r.1.service = told p.service := by
    obtain heq | ⟨intents, heq⟩ := hservice <;> rw [heq] <;> exact ⟨rfl, rfl⟩
  obtain ⟨hnative, htold⟩ := hsame
  refine hf.beside (fun b hb => ha _ hb) hsteady hreact (by rw [hnative]) (by rw [hnative])
    (by rw [hnative]) hview (fun hnone => ?_) ?_ ?_
  · rw [hshown] at hnone
    cases hnone
  · rw [htold, hasks]
    rintro hnone number rfl
    obtain ⟨callerNumber, hhead⟩ | hoffers := hoffers
    · rw [hnone] at hhead
      cases hhead
    · refine hf.dialled hnone number ?_
      cases hv : h.view with
      | outgoing number' =>
        rw [hv] at hoffers
        cases hoffers
        rfl
      | _ =>
        rw [hv] at hoffers
        cases hoffers
  · rw [htold, hwrites, List.append_nil]
    have htallies := hf.tallies
    obtain ⟨callerNumber, hhead⟩ | hoffers := hoffers
    · cases hns : told p.service with
      | nil =>
        rw [hns] at hhead
        cases hhead
      | cons n ns =>
        rw [hns] at hhead htallies
        obtain rfl := Option.some.inj hhead
        exact htallies.announced u
    · exact htallies.redraw hoffers.symm

theorem Faithful.intent (hf : Faithful p h) {source : Source} (hsteady : Steady p (.intent source))
    (hfair : Fair p h (.intent source)) (hreact : react p (.intent source) = some r) :
    Faithful (filed r) (h.note p (.intent source) (filed r)) := by
  obtain ⟨t, ht, hr⟩ := react_intent.mp hreact
  have hservice : r.1.service = p.service ∨
      ∃ intents, r.1.service = { p.service with intents := intents } := by
    rw [← hr]
    exact takeIntent_service ht
  have hwrites : r.2 = [] := by rw [← hr]
  cases hshown : r.1.shown with
  | none => exact hf.unseen nofun nofun hsteady hreact rfl hwrites hshown hservice
  | some u =>
    refine hf.redraw nofun hsteady hreact rfl hwrites hshown ?_ hservice
    obtain ⟨a', ha', hb, rfl⟩ := shown_some hshown
    rw [← hr] at ha'
    obtain rfl := Option.some.inj ha'
    rw [handleIncomingCallIntent_bound] at hb
    change (p.activity.getD .created).bound = true at hb
    obtain ⟨a, ha⟩ : ∃ a, p.activity = some a := by
      cases ha : p.activity with
      | none =>
        rw [ha] at hb
        cases hb
      | some a => exact ⟨a, rfl⟩
    change Announces _ ∨ ((p.activity.getD .created).handleIncomingCallIntent t.2).callState.offers = _
    rw [ha, Option.getD_some] at hb ⊢
    have hview := hf.viewed _ (shown_bound ha hb)
    obtain hsame | ⟨callerNumber, hcaller, hne, hnew⟩ := handleIncomingCallIntent_callState t.2 a
    · rw [hsame, hview]
      exact .inr rfl
    · have hmem : callerNumber ∈ p.caller source := by
        unfold Phone.caller
        rw [ht]
        exact hcaller
      refine (hfair a ha hb callerNumber hmem hne).imp_right fun hsame => ?_
      rw [hnew, ← hview, hsame]

theorem syncCallState_offers (b : Bool) (a : Activity) :
    (a.syncCallState b).callState.offers = if b then a.callState.offers else none := by
  cases b with
  | false => rw [syncCallState_false]; rfl
  | true =>
    rw [syncCallState_true]
    split
    · rename_i hidle
      rw [hidle]
      rfl
    · rfl

/-- The service is asked whether there is a call. -/
theorem Faithful.poll (hf : Faithful p h) {a : Action} (hsync : a = .serviceConnected ∨ a = .resume)
    (hsteady : Steady p a) (hfair : Fair p h a) (hreact : react p a = some r) :
    Faithful (filed r) (h.note p a (filed r)) := by
  obtain ⟨b, hb, hr⟩ : ∃ b, p.activity = some b ∧ ({ p with
      activity := some ({ b with bound := true }.syncCallState (inCall p.service)) }, []) = r := by
    obtain rfl | rfl := hsync
    · obtain ⟨b, hb, -, -, hr⟩ := react_serviceConnected.mp hreact
      exact ⟨b, hb, hr⟩
    · obtain ⟨b, hb, hbound, hr⟩ := react_resume.mp hreact
      refine ⟨b, hb, ?_⟩
      rw [show ({ b with bound := true } : Activity) = b by rw [← hbound]]
      exact hr
  have hcond : Announces p.service ∨
      (if inCall p.service then b.callState.offers else none) = h.view.offers := by
    obtain rfl | rfl := hsync <;> exact hfair b hb
  subst hr
  have hshown : Phone.shown { p with
      activity := some ({ b with bound := true }.syncCallState (inCall p.service)) } =
        some ({ b with bound := true }.syncCallState (inCall p.service)).callState :=
    shown_bound rfl (syncCallState_bound _ _)
  refine hf.redraw ?_ hsteady hreact ?_ rfl hshown ?_ (.inl rfl)
  · rintro b rfl
    obtain hsync | hsync := hsync <;> cases hsync
  · obtain rfl | rfl := hsync <;> rfl
  · rw [syncCallState_offers]
    exact hcond

/-! ### The keys -/

/-- What a key asks for reaches no call before the executor gets to it. -/
theorem ask_same (halive : s.alive = true) (request : Option Request) :
    (ask true request s).native.line = s.native.line ∧
      (ask true request s).native.nextCall = s.native.nextCall ∧
      (ask true request s).native.account = s.native.account ∧
      told (ask true request s) = told s := by
  cases request with
  | none => exact ⟨rfl, rfl, rfl, rfl⟩
  | some request =>
    have hstep := step_ask halive request
    obtain ⟨-, -, hline, hnext, -⟩ := line_step_other (by simp) hstep
    exact ⟨hline, hnext, account_step_other (by simp) hstep, told_request hstep⟩

theorem missedEntry_eq (a : Activity) : a.missedEntry = a.callState.entry .onCallEnded := by
  unfold Activity.missedEntry CallState.entry
  cases a.callState <;> rfl

theorem Faithful.key (hf : Faithful p h) {k : Key} (hsteady : Steady p (.key k))
    (hfair : Fair p h (.key k)) (hreact : react p (.key k) = some r) :
    Faithful (filed r) (h.note p (.key k) (filed r)) := by
  obtain ⟨a, ha, hr⟩ := react_key.mp hreact
  have hp := pressed_onKeyDown p.lastNumber a k
  have hends := hfair a ha
  have hasks : p.asks (.key k) = match a.bound, (a.onKeyDown p.lastNumber k).request with
      | true, some (.makeCall number) => some number
      | _, _ => none := by
    unfold Phone.asks
    rw [ha]
  generalize a.onKeyDown p.lastNumber k = x at hr hp hends hasks
  subst hr
  cases hb : a.bound with
  | false =>
    rw [hb] at hasks hreact
    have hservice : ask false x.request p.service = p.service := by
      cases x.request <;> rfl
    have hwrites : x.written = [] := by
      cases hp with
      | hang hbusy =>
        have hends := hends rfl
        unfold Ends at hends
        rw [hb] at hends
        unfold Activity.missedEntry
        cases hu : a.callState with
        | incoming number =>
          rw [hu] at hends
          exact nomatch hends.1
        | _ => rfl
      | _ => rfl
    exact hf.unseen nofun nofun hsteady hreact hasks hwrites
      (shown_unbound rfl (hp.bound.trans hb)) (.inl hservice)
  | true =>
    rw [hb] at hasks hreact
    have hshown := shown_bound ha hb
    have hview := hf.viewed _ hshown
    obtain ⟨hline, hnext, haccount, htold⟩ := ask_same
      (hf.displayed.alive (by rw [hshown]; simp)) x.request
    have hshown' := shown_bound (p := { p with
        service := ask true x.request p.service
        activity := some x.activity
        lastNumber := x.lastNumber.getD p.lastNumber }) rfl (hp.bound.trans hb)
    have htallies := hf.tallies
    refine hf.beside nofun hsteady hreact hline hnext haccount (glance_shown hshown') ?_ ?_ ?_
    · intro hnone
      rw [hshown'] at hnone
      cases hnone
    · change told (ask true x.request p.service) = [] → _
      rw [htold, hasks]
      intro hnone number hnumber
      cases hp with
      | stay number' request hrequest =>
        obtain rfl | rfl | ⟨digit, rfl⟩ := hrequest <;>
          exact hf.dialled hnone number (hview.symm.trans hnumber)
      | mute muted hactive => cases hnumber
      | dial hk hidle hne =>
        cases hnumber
        rfl
      | hang hbusy => cases hnumber
    · change Tallies _ (told (ask true x.request p.service)) _ _ _
      rw [htold]
      cases hp with
      | stay number request hrequest =>
        rw [List.append_nil]
        exact hview ▸ htallies
      | mute muted hactive =>
        rw [List.append_nil]
        refine htallies.redraw ?_
        rw [← hview, hactive]
        rfl
      | dial hk hidle hne =>
        obtain ⟨hsilent, hnone⟩ := hsteady a ha hb ⟨hk, hidle, hne⟩
        rw [line_of_silent hf.screened.single hsilent, hnone] at htallies ⊢
        rw [List.append_nil]
        exact htallies.dial rfl
      | hang hbusy =>
        have hends := hends rfl
        unfold Ends at hends
        rw [missedEntry_eq, hview]
        rw [hview] at hends
        refine htallies.hang (fun n hn => after_told hn) ?_ ?_
        · intro hin
          rw [if_pos hin] at hends
          exact hends.2
        · intro hin
          rw [if_neg (by rw [hin]; exact Bool.false_ne_true)] at hends
          exact hends hb

/-! ### Steps of the event loop -/

theorem news_loud {g g' : Globals} {b : Native.Action} (hco : Coherent g)
    (hstep : Native.step g b = some g') {d : Delivery} (hd : d ∈ g'.news) :
    (d.callback = .onCallStarted → ∃ c, b = .event (.established c) ∧ d.cause = some c ∧
      c ∈ g.live ∧ (g.find c).any Call.confirmable = true) ∧
    (∀ reason c, d = ⟨.onCallFailed reason, some c⟩ → Undisturbed g b →
      ∃ prm, b = .event (.audioError c prm)) := by
  cases step_effect hco hstep with
  | quiet ha hcall hin hlive hnext hnews =>
    rw [hnews] at hd
    split at hd
    · obtain rfl := List.mem_singleton.mp hd
      exact ⟨nofun, nofun⟩
    · cases hd
  | established hc hconf hcall hin hlive hnext hnews =>
    rw [hnews] at hd
    obtain rfl := List.mem_singleton.mp hd
    exact ⟨fun _ => ⟨_, rfl, rfl, hc, hconf⟩, nofun⟩
  | incoming hidle hcall hin hlive hnext hnews =>
    rw [hnews] at hd
    obtain rfl := List.mem_singleton.mp hd
    exact ⟨nofun, nofun⟩
  | outgoing hdial hcall hin hlive hnext hnews =>
    rw [hnews] at hd
    cases hd
  | dropped hdial hcall hin hlive hnext hnews =>
    rw [hnews] at hd
    obtain rfl := List.mem_singleton.mp hd
    exact ⟨nofun, fun _ _ _ hund => hund.elim⟩
  | closed hc hcall hin hlive hnext hnews | turnedAway hresult hcall hin hlive hnext hnews =>
    rw [hnews] at hd
    split at hd
    · cases hd
    · obtain rfl := List.mem_singleton.mp hd
      exact ⟨nofun, nofun⟩
  | hungUp hw hangs hc hcall hin hlive hnext hnews =>
    rw [hnews] at hd
    obtain rfl := List.mem_singleton.mp hd
    exact ⟨nofun, nofun⟩
  | audioError hc hcall hin hlive hnext hnews =>
    rw [hnews] at hd
    rcases List.mem_cons.mp hd with rfl | hd
    · refine ⟨nofun, ?_⟩
      rintro reason c ⟨⟩ -
      exact ⟨_, rfl⟩
    · split at hd
      · cases hd
      · obtain rfl := List.mem_singleton.mp hd
        exact ⟨nofun, nofun⟩
  | replaced hresult hr hcall hin hlive hnext hnews =>
    rw [hnews] at hd
    have hother : d.callback ≠ .onCallStarted ∧ ∀ reason, d.callback ≠ .onCallFailed reason := by
      rcases List.mem_append.mp hd with hd | hd <;> split at hd
      all_goals first | cases hd; done | obtain rfl := List.mem_singleton.mp hd; exact ⟨nofun, nofun⟩
    exact ⟨fun h => absurd h hother.1, fun reason c h => absurd (h ▸ rfl) (hother.2 reason)⟩
  | reregistered hw hcall hin hlive hnext hnews =>
    rw [hnews] at hd
    cases hd

/-- Whoever has something to hear has handed over the callback object. -/
theorem heard_of_news {l l' : Line} {d : Drive} {n : List Delivery} {heard : Bool}
    (hm : Move l d l' n) (hn : n ≠ []) (hbusy : l ≠ .idle → heard = true)
    (hring : ∀ number cause, (⟨.onIncomingCall number, cause⟩ : Delivery) ∈ n → heard = true)
    (hwake : ∀ uri, d = .wake uri → heard = true) : heard = true := by
  have hcalled {c : CallId} (hc : l.call = some c) : heard = true := by
    apply hbusy
    rintro rfl
    cases hc
  cases hm with
  | ring c peer => exact hring _ _ List.mem_cons_self
  | takeover hc | finish hc | broken hc | hangup r hc => exact hcalled hc
  | picksUp | confirmed => exact hbusy nofun
  | dialFailed uri => exact hwake uri rfl
  | stay | answer | reregister | idleWork | dial => exact absurd rfl hn

/-- With notices waiting the screen will be what the last one says. -/
theorem finally_told {n : Notice} (hlast : (told s).getLast? = some n) (u : CallState) :
    u.finally (told s) = CallState.idle.after n := by
  have hmem := List.mem_of_getLast? hlast
  obtain ⟨ns, hns⟩ := List.getLast?_eq_some_iff.mp hlast
  have hafter := after_told hmem (u.finally ns)
  rw [hns, finally_append]
  exact hafter

/-- A call that begins is on the screen by the time that is heard. -/
theorem Faithful.begins_shown (hf : Faithful p h) (hbusy : p.service.native.line ≠ .idle)
    (hending : Ending p.service → told p.service ≠ []) :
    Shows p.service.native.account p.service.native.line (h.view.finally (told p.service)) ∧
      ∀ number, h.view.finally (told p.service) = .outgoing number → number = h.dialled := by
  cases hlast : (told p.service).getLast? with
  | none =>
    have hnone := List.getLast?_eq_none_iff.mp hlast
    rw [hnone]
    refine ⟨?_, hf.dialled hnone⟩
    cases hf.screened.agrees.screen _ rfl hnone with
    | shows hshows => exact hshows
    | calling number hl => exact absurd hl hbusy
    | ending hl hhang => exact absurd hnone (hending ⟨hl, hhang⟩)
  | some n =>
    rw [finally_told hlast]
    refine ⟨hf.screened.agrees.pending n hlast, ?_⟩
    cases n <;> exact nofun

theorem Faithful.native (hf : Faithful p h) {b : Native.Action}
    (hsteady : Steady p (.service (.native b))) (hfair : Fair p h (.service (.native b)))
    (hreact : react p (.service (.native b)) = some r) :
    Faithful (filed r) (h.note p (.service (.native b)) (filed r)) := by
  have hdisplayed : Displayed (filed r) :=
    hf.displayed.step hsteady (step_eq_some.mpr ⟨r, hreact, rfl⟩)
  have hr := hreact
  obtain ⟨-, t, hstep, rfl⟩ := react_service.mp hr
  obtain ⟨hund, hspares, hawait⟩ := id hsteady
  have hs := hf.screened
  have hg := native_of_step hstep
  have hm := step_moves hs.coherent hs.single hund hg
  have haccount := step_account hg
  have htold := told_native hstep
  have hring (number : Str) (cause : Option CallId)
      (hmem : (⟨.onIncomingCall number, cause⟩ : Delivery) ∈ t.native.news) :
      p.service.gCallback = true := by
    obtain hsettles | ⟨l, peer, -, -, -, -, -, replaces, rfl⟩ := news_step hs.coherent hg
    · cases hsettles _ hmem
    · exact hawait.1
  have hwake (uri : Str) (hdrive : b.drive p.service.native = .wake uri) :
      p.service.gCallback = true := by
    cases b with
    | connect result => exact hawait
    | work lib =>
      simp only [Action.drive] at hdrive
      split at hdrive <;> cases hdrive
    | _ => cases hdrive
  -- a call that begins was on the line before
  have hstarted (d : Delivery) (hd : d ∈ t.native.news) (hcallback : d.callback = .onCallStarted) :
      ∃ c x, d.cause = some c ∧ p.service.native.find c = some x ∧
        p.service.native.line = x.line ∧ x.confirmable = true ∧
        Named p.service.native.line ∧
        (Ending p.service → told p.service ≠ []) := by
    obtain ⟨c, rfl, hcause, hlive, hconf⟩ := (news_loud hs.coherent hg hd).1 hcallback
    obtain ⟨x, hx, -, hline⟩ := exists_current hs.single ((hs.single c).mp hlive)
    rw [hx] at hconf
    exact ⟨c, x, hcause, hx, hline, hconf, hfair.2, hfair.1⟩
  have hbusy {x : Call} (hline : p.service.native.line = x.line) : p.service.native.line ≠ .idle := by
    intro hidle
    have hcall := x.line_call
    rw [← hline, hidle] at hcall
    cases hcall
  obtain ⟨hbooked, hdue⟩ := hf.booked.step hs.coherent hs.single hs.proper hund hspares hg hring
  have hview : h.glance p (.service (.native b)) { p with service := t } = h.view := by
    cases hshown : p.shown with
    | none =>
      have hother : Action.service (.native b) ≠ .message := by
        intro heq
        cases heq
      exact glance_unshown hshown hother
    | some u =>
      exact (glance_shown (q := { p with service := t }) hshown).trans (hf.viewed u hshown)
  have hwrites : p.writes (.service (.native b)) = [] := by
    unfold Phone.writes
    rw [hreact]
    rfl
  have hnote : h.note p (.service (.native b)) (filed ({ p with service := t }, [])) =
      h.hear p.service.gCallback p.service.native.find t.native.news := by
    have hsame : h.note p (.service (.native b)) (filed ({ p with service := t }, [])) =
        { h.hear p.service.gCallback p.service.native.find t.native.news with
          written := h.written ++ p.writes (.service (.native b))
          dialled := h.dialled
          view := h.glance p (.service (.native b)) { p with service := t } } := rfl
    rw [hsame, hwrites, hview, List.append_nil]
    rfl
  rw [hnote]
  refine ⟨hdisplayed, hs.native hsteady hstep, hf.viewed, ?_, hbooked, ?_, ?_, hf.history⟩
  · intro hnone
    apply hf.dialled
    change told t = [] at hnone
    rw [htold] at hnone
    split at hnone
    · exact (List.append_eq_nil_iff.mp hnone).1
    · exact hnone
  · change Tallies t.native.line (told t) h.view h.written _
    rw [htold]
    refine hf.tallies.move p.service.native.account hm hdue
      (fun hn => heard_of_news hm hn hs.agrees.heard hring hwake) ?_ ?_
      fun aor r hd => hspares.idle hd
    · rintro ⟨cause, hmem⟩
      obtain ⟨c, x, -, -, hline, -, hnamed, hending⟩ := hstarted _ hmem rfl
      obtain ⟨hshows, hnumber⟩ := hf.begins_shown (hbusy hline) hending
      refine ⟨hshows, hnumber, ?_⟩
      intro c' peer b' hl
      rw [hl] at hnamed
      exact hnamed
    · intro reason c hmem
      obtain ⟨prm, rfl⟩ := (news_loud hs.coherent hg hmem).2 reason c rfl hund
      exact hfair
  · intro r' hr' hout
    rcases List.mem_append.mp hr' with hold | hnew
    · change r'.1.peerUri = dialUri t.native.account r'.2
      rw [haccount]
      exact hf.addressed r' hold hout
    · obtain ⟨x, hx, rfl⟩ := List.mem_map.mp hnew
      obtain ⟨d, hd, hbegins⟩ := List.mem_filterMap.mp hx
      change x.peerUri = dialUri t.native.account h.dialled
      rw [haccount]
      obtain ⟨c, hd', hx⟩ : ∃ c, d = ⟨.onCallStarted, some c⟩ ∧ p.service.native.find c = some x := by
        unfold begins at hbegins
        split at hbegins
        · exact ⟨_, rfl, hbegins⟩
        · cases hbegins
      obtain ⟨c', x', hcause, hx', hline, hconf, -, hending⟩ := hstarted d hd (by rw [hd'])
      rw [hd'] at hcause
      obtain rfl := Option.some.inj hcause
      obtain rfl := Option.some.inj (hx.symm.trans hx')
      have hdialing : x.dialing = true := by
        change x.outgoing = true at hout
        simpa [Call.confirmable, hout] using hconf
      obtain ⟨hshows, hnumber⟩ := hf.begins_shown (hbusy hline) hending
      rw [hline, (Call.line_of_dialing hdialing).1] at hshows
      cases hu : h.view.finally (told p.service) with
      | outgoing number =>
        rw [hu] at hshows
        rw [← hnumber number hu]
        exact hshows.1.symm
      | _ =>
        rw [hu] at hshows
        exact hshows.elim

theorem Faithful.step (hf : Faithful p h) {a : Action} (hsteady : Steady p a) (hfair : Fair p h a)
    {h' : Ledger} (hstep : recorder.step (p, h) a = some (q, h')) : Faithful q h' := by
  obtain ⟨r, hreact, rfl, rfl⟩ := recorder_step hstep
  cases a with
  | service a =>
    by_cases ha : ∃ b, a = .native b
    · obtain ⟨b, rfl⟩ := ha
      exact hf.native hsteady hfair hreact
    · exact hf.service (fun b hb => ha ⟨b, hb⟩) hsteady hreact
  | message => exact hf.message hfair hreact
  | intent source => exact hf.intent hsteady hfair hreact
  | recreate =>
    have hr := hreact
    obtain ⟨ha, rfl⟩ := react_recreate.mp hr
    refine hf.unseen nofun nofun hsteady hreact rfl rfl ?_ (.inl rfl)
    refine shown_unbound rfl ?_
    rw [handleIncomingCallIntent_bound, ha]
    rfl
  | destroyActivity =>
    have hr := hreact
    obtain ⟨-, rfl⟩ := react_destroyActivity.mp hr
    exact hf.unseen nofun nofun hsteady hreact rfl rfl (shown_none rfl) (.inl rfl)
  | serviceConnected => exact hf.poll (.inl rfl) hsteady hfair hreact
  | resume => exact hf.poll (.inr rfl) hsteady hfair hreact
  | key k => exact hf.key hsteady hfair hreact

theorem faithful_initial (account : Buffers) (config : SipConfig) :
    Faithful (Phone.initial account config) .empty where
  displayed := displayed_initial account config
  screened := by
    refine (screened_initial account config).redraw ?_
    rintro _ ⟨⟩ -
    exact .shows trivial rfl
  viewed := nofun
  dialled := nofun
  booked := ⟨nofun, nofun, List.nodup_nil, nofun, nofun⟩
  tallies := ⟨trivial, nofun, .refl _⟩
  addressed := nofun
  history := rfl

end

/-! ### Whole runs -/

/-- In a run of steady and fair steps, whenever all queues are empty, the entries written
are those that are due: one for every call that was reported and rings no longer, as
answered if it was established and as missed otherwise, and one for every call of our own
that was established. The history is the newest of them. -/
theorem history_accounts (account : Buffers) (config : SipConfig) (as : List Action) (p : Phone)
    (h : Ledger)
    (hmeets : recorder.Meets (fun x a => Steady x.1 a ∧ Fair x.1 x.2 a)
      (Phone.initial account config, .empty) as)
    (hrun : recorder.run (Phone.initial account config, .empty) as = some (p, h))
    (hsettled : p.service.Settled) (hmain : p.service.main = []) :
    h.written.Perm (h.due (rings p.service.native)) ∧
      p.history = h.written.reverse.take historyMax ∧
      ∀ r ∈ h.established, r.1.outgoing = true →
        r.1.peerUri = dialUri p.service.native.account r.2 := by
  have hf : Faithful p h :=
    Machine.run_of_meets (P := fun x => Faithful x.1 x.2)
      (fun x a y hx hg hy => hx.step hg.1 hg.2 hy) (faithful_initial account config) hmeets hrun
  have hs := hf.screened
  have hnone : told p.service = [] := by
    unfold told
    rw [hmain]
    rfl
  have hmatch := hs.agrees.screen _ rfl hnone
  have hbalance := hf.tallies.balance
  have hadvance : advance p.service.native.line h.view = [] := by
    rw [pipeline_of_settled hsettled] at hmatch
    cases hmatch with
    | shows hshows =>
      cases hl : p.service.native.line with
      | ringing c peer b =>
        rw [hl] at hshows
        cases hu : h.view with
        | incoming number => rfl
        | _ =>
          rw [hu] at hshows
          exact hshows.elim
      | _ => rfl
    | calling number hl hu hnumber hdial => cases hdial
    | ending hl hhang => cases hhang
  rw [hnone] at hbalance
  change (h.written ++ []).Perm (h.due _ ++ advance _ h.view) at hbalance
  rw [hadvance, List.append_nil, List.append_nil] at hbalance
  rw [rings_eq hs.coherent hs.single]
  exact ⟨hbalance, hf.history, hf.addressed⟩

/-- The user dials 204, who picks up and hangs up; then 203 calls in vain. -/
theorem history_accounts_two_calls : ∃ p h,
    recorder.run (Phone.initial (nativeInit .sample) .sample, .empty) (started.map .service ++
      [.message, .message, .message, .intent .launcher, .serviceConnected, .resume,
        .key (.digit 50), .key (.digit 48), .key (.digit 52), .key .call, .service .take,
        .service .op, .service (.native (.work .ok)), .service (.native (.connect .connected)),
        .service (.native (.event (.established 0))), .message, .message,
        .service (.native (.event (.closed 0 []))), .message, .message,
        .service (.native (.event (.invite (utf8 "sip:203@192.0.2.1") none .ringing))),
        .message, .message, .service (.native (.event (.closed 1 []))), .message, .message]) =
      some (p, h) ∧
    h.written.Perm [⟨.missed, utf8 "203"⟩, ⟨.outgoing, utf8 "204"⟩] := by
  refine ⟨_, _, rfl, ?_⟩
  have h := history_accounts (nativeInit .sample) .sample (started.map .service ++
      [.message, .message, .message, .intent .launcher, .serviceConnected, .resume,
        .key (.digit 50), .key (.digit 48), .key (.digit 52), .key .call, .service .take,
        .service .op, .service (.native (.work .ok)), .service (.native (.connect .connected)),
        .service (.native (.event (.established 0))), .message, .message,
        .service (.native (.event (.closed 0 []))), .message, .message,
        .service (.native (.event (.invite (utf8 "sip:203@192.0.2.1") none .ringing))),
        .message, .message, .service (.native (.event (.closed 1 []))), .message, .message]) _ _
    (by decide) rfl ⟨rfl, rfl, rfl, rfl⟩ rfl
  exact h.1.trans (by decide)

/-- A caller who hangs up while there is no activity is not recorded; one who is rejected
is recorded twice if the intent for the call arrives after that. -/
theorem history_strays : (∃ as p h,
      recorder.run (Phone.initial (nativeInit .sample) .sample, .empty) (started.map .service ++ as) =
        some (p, h) ∧
      p.service.Settled ∧ p.service.main = [] ∧ h.written = [] ∧
      h.due (rings p.service.native) = [⟨.missed, utf8 "203"⟩]) ∧
    ∃ as p h,
      recorder.run (Phone.initial (nativeInit .sample) .sample, .empty) (started.map .service ++ as) =
        some (p, h) ∧
      p.service.Settled ∧ p.service.main = [] ∧
      h.written = [⟨.missed, utf8 "203"⟩, ⟨.missed, utf8 "203"⟩] ∧
      h.due (rings p.service.native) = [⟨.missed, utf8 "203"⟩] := by
  refine ⟨?_, ?_⟩
  · refine ⟨[.message, .message, .message,
      .service (.native (.event (.invite (utf8 "sip:203@192.0.2.1") none .ringing))),
      .message, .message, .service (.native (.event (.closed 0 []))), .message, .message], _, _, rfl,
      ⟨rfl, rfl, rfl, rfl⟩, rfl, ?_, ?_⟩ <;> decide
  · refine ⟨[.message, .message, .message, .intent .launcher, .serviceConnected, .resume,
      .service (.native (.event (.invite (utf8 "sip:203@192.0.2.1") none .ringing))),
      .message, .message, .key .softKey1, .message, .service .take, .intent .service,
      .service .op, .service .op, .service (.native (.work .ok)), .message, .message], _, _, rfl,
      ⟨rfl, rfl, rfl, rfl⟩, rfl, ?_, ?_⟩ <;> decide

end SimplePhone.App
