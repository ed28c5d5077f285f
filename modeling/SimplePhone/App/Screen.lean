import SimplePhone.App.Activity
import SimplePhone.Service.Reregister

/-! What the screen should show of the line. It learns from notices that the main
looper runs later, and a key changes it before its errand has reached the event loop,
so what counts is the line, the notices that wait and the errands on their way. -/
namespace SimplePhone.App

open Service Native Transition

/-! ### Notices that wait -/

/-- What a callback has the listeners told about calls. -/
def notices : Callback → List Notice
  | .onIncomingCall callerNumber => [.onIncomingCall callerNumber]
  | .onCallStarted => [.onCallStarted]
  | .onCallEnded => [.onCallEnded]
  | .onCallFailed reason => [.onCallFailed reason]
  | _ => []

def callNotice : Message → Option Notice
  | .notify (.onStatus _) | .notify (.onDebug _) => none
  | .notify n => some n
  | _ => none

/-- The notices about calls that wait on the main looper. -/
def told (s : State) : List Notice := s.main.filterMap callNotice

/-- The screen after a notice. -/
def CallState.after (u : CallState) : Notice → CallState
  | .onStatus _ | .onDebug _ => u
  | .onIncomingCall callerNumber => .incoming (displayNumber callerNumber)
  | .onCallStarted => .active false
  | .onCallEnded | .onCallFailed _ => .idle

def CallState.afterMessage (u : CallState) : Message → CallState
  | .notify n => u.after n
  | _ => u

theorem hear_callState (a : Activity) (n : Notice) :
    (a.hear n).1.callState = a.callState.after n := by
  cases n <;> rfl

/-- A notice about a call leaves nothing of the screen before. -/
theorem after_told {s : State} {n : Notice} (hn : n ∈ told s) (u : CallState) :
    u.after n = CallState.idle.after n := by
  obtain ⟨m, -, hm⟩ := List.mem_filterMap.mp hn
  cases m with
  | notify n' => cases n' <;> cases hm <;> rfl
  | _ => cases hm

variable {s t : State}

theorem told_post (s : State) (m : Message) :
    told (s.post m) = told s ++ (callNotice m).toList := by
  unfold told State.post
  rw [List.filterMap_append]
  cases h : callNotice m <;> simp [h]

theorem told_callback (s : State) (c : Callback) : told (s.callback c) = told s ++ notices c := by
  unfold told
  cases c <;> simp only [State.callback, State.notifyListeners, State.post, State.onIncomingCall,
    State.showMainActivity, State.onCallStarted, State.onCallEnded, State.onCallFailed,
    State.endRingingAndNotify, State.setAudioMode, List.filterMap_append, List.append_assoc] <;> rfl

theorem told_native {b : Native.Action} (hstep : Service.step s (.native b) = some t) :
    told t = if s.gCallback then told s ++ t.native.news.flatMap (fun d => notices d.callback)
      else told s := by
  rw [view_native (f := told) (F := fun l c => l ++ notices c) told_callback ?_ (fun _ _ _ => rfl)
    hstep, List.foldl_append_eq_append]
  · rfl
  · intro l c hc
    cases c with
    | onRegistered | onRegistrationFailed _ | onDebug _ => exact List.append_nil l
    | _ => cases hc

/-! ### Errands on their way -/

def want (w : Option Str) : Errand → Option Str
  | .dial uri => some uri
  | .hang => none
  | .reregister => w

/-- The dial that no later hangup takes back. -/
def wanted (es : List Errand) : Option Str := es.foldl want none

/-- A dial is in flight. -/
def Dialled (es : List Errand) : Prop := es.countP Errand.isDial ≠ 0

instance (es : List Errand) : Decidable (Dialled es) := inferInstanceAs (Decidable (_ ≠ _))

/-- The errands before and after a step of the event loop. -/
inductive Passes : Drive → List Errand → List Errand → Prop where
  | event (es : List Errand) : Passes .event es es
  | work {w : Work} (r) (es : List Errand) (hw : ∀ uri, w ≠ .makecall uri) :
      Passes (.work w r) ((workErrand w).toList ++ es) es
  /-- The dial goes to sleep. -/
  | sleep (uri r) (es : List Errand) : Passes (.work (.makecall uri) r) es es
  | wake (uri) (es : List Errand) : Passes (.wake uri) (.dial uri :: es) es

/-! ### The screen and the line -/

/-- The screen shows what the line does. -/
def Shows (account : Buffers) : Line → CallState → Prop
  | .idle, .idle => True
  | .ringing _ peer _, .incoming number => number = displayNumber (callerNumber (bounded 256 peer))
  | .dialing _ uri, .outgoing number => dialUri account number = uri ∧ number ≠ []
  | .talking _ _ _, .active _ => True
  | _, _ => False

instance (account : Buffers) (l : Line) (u : CallState) : Decidable (Shows account l u) := by
  unfold Shows
  split <;> infer_instance

/-- An answer does not show before it is confirmed. -/
theorem shows_answered {account : Buffers} {c : CallId} {peer : Str} {b b' : Bool} {u : CallState} :
    Shows account (.ringing c peer b) u ↔ Shows account (.ringing c peer b') u := by
  cases u <;> exact Iff.rfl

/-- The screen shows the line as it is, or as the errands on their way will make it. -/
inductive Matches (account : Buffers) (l : Line) (es : List Errand) (u : CallState) : Prop where
  | shows (h : Shows account l u) (hes : wanted es = none)
  | calling (number : Str) (hl : l = .idle) (hu : u = .outgoing number) (hnumber : number ≠ [])
      (hdial : .dial (dialUri account number) ∈ es)
  /-- Whatever is shown, the notice of the end will clear it. -/
  | ending (hl : l ≠ .idle) (hhang : .hang ∈ es)

theorem Matches.muted {account : Buffers} {l : Line} {es : List Errand} {b b' : Bool}
    (h : Matches account l es (.active b)) : Matches account l es (.active b') := by
  cases h with
  | shows h hes => exact .shows (by cases l <;> exact h) hes
  | calling number hl hu => cases hu
  | ending hl hhang => exact .ending hl hhang

/-- How the screen goes with the line, the errands and the notices. `shown` is what a
bound activity shows. -/
structure Agrees (account : Buffers) (l : Line) (heard : Bool) (es : List Errand)
    (ns : List Notice) (shown : Option CallState) : Prop where
  heard : l ≠ .idle → heard = true
  once : es.countP Errand.isDial ≤ 1
  dialled : Dialled es → l = .idle ∧ ns = []
  pending : ∀ n, ns.getLast? = some n → Shows account l (CallState.idle.after n)
  screen : ∀ u, shown = some u → ns = [] → Matches account l es u

section
variable {account : Buffers} {l l' : Line} {d : Drive} {n : List Delivery} {heard : Bool}
  {es es' fs : List Errand} {ns : List Notice} {u : CallState} {shown : Option CallState}

theorem not_dialled_of_le (h : ¬ Dialled es) (hle : es'.countP Errand.isDial ≤
    es.countP Errand.isDial) : ¬ Dialled es' := by
  unfold Dialled at h ⊢
  omega

theorem dial_not_mem (h : ¬ Dialled es) (uri : Str) : .dial uri ∉ es := by
  intro hmem
  have hpos := List.countP_pos_iff.mpr ⟨_, hmem, show (Errand.dial uri).isDial = true from rfl⟩
  exact h (Nat.ne_of_gt hpos)

/-- Of at most one dial none is left behind the first. -/
theorem not_dialled_behind {uri : Str} (h : (Errand.dial uri :: es).countP Errand.isDial ≤ 1) :
    ¬ Dialled es := by
  rw [List.countP_cons_of_pos rfl] at h
  unfold Dialled
  omega

theorem wanted_none (h : ¬ Dialled es) : wanted es = none := by
  unfold wanted
  induction es with
  | nil => rfl
  | cons e es ih =>
    have hrest : ¬ Dialled es := not_dialled_of_le h (List.sublist_cons_self e es).countP_le
    cases e with
    | dial uri => exact absurd List.mem_cons_self (dial_not_mem h uri)
    | hang => exact ih hrest
    | reregister => exact ih hrest

/-- What takes back a dial is a hangup. -/
theorem hang_of_wanted {uri : Str} (h : wanted (.dial uri :: es) = none) : .hang ∈ es := by
  change es.foldl want (some uri) = none at h
  induction es generalizing uri with
  | nil => cases h
  | cons e es ih =>
    cases e with
    | dial uri' => exact List.mem_cons_of_mem _ (ih h)
    | hang => exact List.mem_cons_self
    | reregister => exact List.mem_cons_of_mem _ (ih h)

theorem wanted_append (hfs : ¬ Dialled fs) (h : wanted es = none) : wanted (es ++ fs) = none := by
  unfold wanted at h ⊢
  rw [List.foldl_append, h]
  exact wanted_none hfs

/-! ### Moves of the telephone -/

theorem Passes.sublist (h : Passes d es es') : es'.Sublist es := by
  cases h with
  | event => exact List.Sublist.refl _
  | work r _ hw => exact List.sublist_append_right _ _
  | sleep => exact List.Sublist.refl _
  | wake => exact List.sublist_cons_self _ _

theorem Agrees.not_dialled (h : Agrees account l heard es ns shown) (hl : l ≠ .idle) :
    ¬ Dialled es :=
  fun hdial => hl (h.dialled hdial).1

/-- The last notice says what the line does now. -/
theorem Agrees.hear (h : Agrees account l heard es ns shown)
    (hheard : l' ≠ .idle → heard = true) (hle : es'.countP Errand.isDial ≤ es.countP Errand.isDial)
    (hdial : ¬ Dialled es') (news : List Notice) {last : Notice}
    (hlast : news.getLast? = some last) (hshows : Shows account l' (CallState.idle.after last)) :
    Agrees account l' heard es' (ns ++ news) shown := by
  refine ⟨hheard, Nat.le_trans hle h.once, fun hdial' => absurd hdial' hdial, ?_, ?_⟩
  · intro m hm
    rw [List.getLast?_append, hlast] at hm
    cases hm
    exact hshows
  · intro u hu hnone
    rw [(List.append_eq_nil_iff.mp hnone).2] at hlast
    cases hlast

/-- While the line stays as it is, errands that are no dials may arrive. -/
theorem Matches.pass {e : Option Errand} (h : Matches account l (e.toList ++ es) u)
    (he : ∀ uri, e ≠ some (.dial uri)) (hhang : e = some .hang → l = .idle) :
    Matches account l es u := by
  cases e with
  | none => exact h
  | some e =>
    cases h with
    | shows h hes =>
      refine .shows h ?_
      cases e with
      | dial uri => exact absurd rfl (he uri)
      | hang => exact hes
      | reregister => exact hes
    | calling number hl hu hnumber hdial =>
      refine .calling number hl hu hnumber ?_
      rcases List.mem_cons.mp hdial with rfl | hrest
      · exact absurd rfl (he _)
      · exact hrest
    | ending hl hmem =>
      refine .ending hl ?_
      rcases List.mem_cons.mp hmem with rfl | hrest
      · exact absurd (hhang rfl) hl
      · exact hrest

/-- A dial that wakes up is what the screen shows, or it is taken back at once. -/
theorem Matches.wake {uri : Str} (h : Matches account .idle (.dial uri :: es) u)
    (hes : ¬ Dialled es) (c : CallId) : Matches account (.dialing c uri) es u := by
  cases h with
  | shows h hwanted => exact .ending (by simp) (hang_of_wanted hwanted)
  | calling number hl hu hnumber hdial =>
    rcases List.mem_cons.mp hdial with heq | hrest
    · subst hu
      exact .shows ⟨Errand.dial.inj heq, hnumber⟩ (wanted_none hes)
    · exact absurd hrest (dial_not_mem hes _)
  | ending hl => exact absurd rfl hl

theorem Agrees.move (h : Agrees account l heard es ns shown) (hm : Move l d l' n)
    (hp : Passes d es es')
    (hring : ∀ number cause, (⟨.onIncomingCall number, cause⟩ : Delivery) ∈ n →
      heard = true ∧ ¬ Dialled es)
    (hwake : ∀ uri, d = .wake uri → heard = true)
    (hre : ∀ aor r, d = .work (.reregister aor) r → l = .idle) :
    Agrees account l' heard es'
      (if heard then ns ++ n.flatMap (fun d => notices d.callback) else ns) shown := by
  have hle := hp.sublist.countP_le (p := Errand.isDial)
  have hsame : (if heard = true then ns ++ [] else ns) = ns := by simp
  have hloud {last : Notice} (hheard : heard = true) (hdial : ¬ Dialled es')
      (hlast : (n.flatMap fun d => notices d.callback).getLast? = some last)
      (hshows : Shows account l' (CallState.idle.after last)) : Agrees account l' heard es'
        (if heard then ns ++ n.flatMap (fun d => notices d.callback) else ns) shown := by
    rw [if_pos hheard]
    exact h.hear (fun _ => hheard) hle hdial _ hlast hshows
  have hbusy (hl : l ≠ .idle) : heard = true ∧ ¬ Dialled es' :=
    ⟨h.heard hl, not_dialled_of_le (h.not_dialled hl) hle⟩
  have hcalled {l : Line} {c : CallId} (hc : l.call = some c) : l ≠ .idle := by
    rintro rfl
    cases hc
  cases hm with
  | stay l d hd =>
    cases hp with
    | event =>
      rw [List.flatMap_nil, hsame]
      exact h
    | _ => simp at hd
  | ring c peer =>
    obtain ⟨hheard, hdial⟩ := hring _ _ (List.mem_singleton.mpr rfl)
    exact hloud hheard (not_dialled_of_le hdial hle) rfl rfl
  | takeover hc c peer =>
    obtain ⟨hheard, hdial⟩ := hbusy (hcalled hc)
    exact hloud hheard hdial rfl rfl
  | picksUp c peer =>
    obtain ⟨hheard, hdial⟩ := hbusy (by simp)
    exact hloud hheard hdial rfl trivial
  | confirmed c peer =>
    obtain ⟨hheard, hdial⟩ := hbusy (by simp)
    exact hloud hheard hdial rfl trivial
  | finish hc =>
    obtain ⟨hheard, hdial⟩ := hbusy (hcalled hc)
    exact hloud hheard hdial rfl trivial
  | broken hc reason =>
    obtain ⟨hheard, hdial⟩ := hbusy (hcalled hc)
    exact hloud hheard hdial rfl trivial
  | hangup r hc hw =>
    obtain ⟨hheard, hdial⟩ := hbusy (hcalled hc)
    exact hloud hheard hdial rfl trivial
  | answer c peer b =>
    rw [List.flatMap_nil, hsame]
    cases hp with
    | work r es hw =>
      refine ⟨fun _ => h.heard (by simp), h.once, fun hdial => ?_, ?_, ?_⟩
      · exact absurd hdial (h.not_dialled (by simp))
      · exact fun m hm => shows_answered.mp (h.pending m hm)
      · intro u hu hns
        cases h.screen u hu hns with
        | shows h hes => exact .shows (shows_answered.mp h) hes
        | calling number hl => cases hl
        | ending hl hhang => exact .ending (by simp) hhang
  | reregister l aor r =>
    obtain rfl := hre aor r rfl
    rw [List.flatMap_nil, hsame]
    cases hp with
    | work r es hw =>
      refine ⟨h.heard, Nat.le_trans hle h.once, ?_, h.pending, ?_⟩
      · intro hdial
        exact h.dialled fun hnone => not_dialled_of_le (not_not.mpr hnone) hle hdial
      · intro u hu hns
        exact (h.screen u hu hns).pass (by simp [workErrand]) fun _ => rfl
  | @idleWork l w r hhang hre' hanswer =>
    rw [List.flatMap_nil, hsame]
    refine ⟨h.heard, Nat.le_trans hle h.once, ?_, h.pending, ?_⟩
    · intro hdial
      exact h.dialled fun hnone => not_dialled_of_le (not_not.mpr hnone) hle hdial
    · intro u hu hns
      cases hp with
      | sleep => exact h.screen u hu hns
      | work r es hw =>
        refine (h.screen u hu hns).pass ?_ ?_
        · intro uri
          cases w with
          | makecall uri' => exact absurd rfl (hw uri')
          | _ =>
            intro he
            cases he
        · intro he
          apply hhang
          cases w with
          | endcall => rfl
          | _ => cases he
  | dial c uri =>
    rw [List.flatMap_nil, hsame]
    cases hp with
    | wake uri es =>
      have hdialled : Dialled (.dial uri :: es') := by
        unfold Dialled
        rw [List.countP_cons_of_pos rfl]
        exact Nat.succ_ne_zero _
      have hrest := not_dialled_behind h.once
      refine ⟨fun _ => hwake uri rfl, Nat.le_trans hle h.once, fun hd => absurd hd hrest, ?_, ?_⟩
      · intro m hm
        rw [(h.dialled hdialled).2] at hm
        cases hm
      · intro u hu hns
        exact (h.screen u hu hns).wake hrest c
  | dialFailed uri =>
    have hrest : ¬ Dialled es' := by
      cases hp with
      | wake uri es => exact not_dialled_behind h.once
    exact hloud (hwake uri rfl) hrest rfl trivial

/-! ### Everything else -/

/-- No call, and none being dialled. -/
theorem Agrees.silent (h : Agrees account l heard es ns shown) (hl : l = .idle)
    (hdial : ¬ Dialled es) (heard' : Bool) (hsub : es'.Sublist es) :
    Agrees account l heard' es' ns shown := by
  have hle := hsub.countP_le (p := Errand.isDial)
  have hnone := not_dialled_of_le hdial hle
  refine ⟨fun hbusy => absurd hl hbusy, Nat.le_trans hle h.once, fun hd => absurd hd hnone,
    h.pending, ?_⟩
  intro u hu hns
  cases h.screen u hu hns with
  | shows h hes => exact .shows h (wanted_none hnone)
  | calling number hl' hu hnumber hmem => exact absurd hmem (dial_not_mem hdial _)
  | ending hbusy => exact absurd hl hbusy

theorem Matches.more (h : Matches account l es u) (hfs : ¬ Dialled fs) :
    Matches account l (es ++ fs) u := by
  cases h with
  | shows h hes => exact .shows h (wanted_append hfs hes)
  | calling number hl hu hnumber hdial =>
    exact .calling number hl hu hnumber (List.mem_append_left _ hdial)
  | ending hl hhang => exact .ending hl (List.mem_append_left _ hhang)

theorem dialled_append (hfs : ¬ Dialled fs) : Dialled (es ++ fs) ↔ Dialled es := by
  unfold Dialled at hfs ⊢
  rw [List.countP_append, not_not.mp hfs, Nat.add_zero]

/-- Hangups and re-registrations may follow. -/
theorem Agrees.more (h : Agrees account l heard es ns shown) (hfs : ¬ Dialled fs) :
    Agrees account l heard (es ++ fs) ns shown := by
  refine ⟨h.heard, ?_, fun hd => h.dialled ((dialled_append hfs).mp hd), h.pending,
    fun u hu hns => (h.screen u hu hns).more hfs⟩
  rw [List.countP_append, not_not.mp hfs]
  exact h.once

/-- A task whose checks stop it re-registers nothing. -/
theorem Agrees.skip {xs ys : List Errand} {e : Option Errand}
    (h : Agrees account l heard (xs ++ (e.toList ++ ys)) ns shown)
    (he : e = none ∨ e = some .reregister) : Agrees account l heard (xs ++ ys) ns shown := by
  obtain rfl | rfl := he
  · exact h
  · have hcount : (xs ++ ((some Errand.reregister).toList ++ ys)).countP Errand.isDial =
        (xs ++ ys).countP Errand.isDial := by
      simp [Errand.isDial]
    have hmem {e : Errand} (hne : e ≠ .reregister)
        (hmem : e ∈ xs ++ ((some Errand.reregister).toList ++ ys)) : e ∈ xs ++ ys := by
      simpa [hne] using hmem
    refine ⟨h.heard, hcount ▸ h.once, fun hd => h.dialled ?_, h.pending, ?_⟩
    · unfold Dialled
      rw [hcount]
      exact hd
    · intro u hu hns
      cases h.screen u hu hns with
      | shows h hes =>
        refine .shows h ?_
        unfold wanted at hes ⊢
        rw [List.foldl_append] at hes ⊢
        exact hes
      | calling number hl hu hnumber hdial => exact .calling number hl hu hnumber (hmem (by simp) hdial)
      | ending hl hhang => exact .ending hl (hmem (by simp) hhang)

/-- The own number is refused without asking the event loop. -/
theorem Agrees.refuse {xs ys : List Errand} {uri reason : Str}
    (h : Agrees account l heard (xs ++ .dial uri :: ys) ns shown) :
    Agrees account l heard (xs ++ ys) (ns ++ [.onCallFailed reason]) shown := by
  have hcount : (xs ++ .dial uri :: ys).countP Errand.isDial =
      (xs ++ ys).countP Errand.isDial + 1 := by
    rw [List.countP_append, List.countP_cons_of_pos rfl, List.countP_append]
    rfl
  have honce := h.once
  rw [hcount] at honce
  have hidle := (h.dialled (by unfold Dialled; omega)).1
  apply h.hear h.heard (by omega) (by unfold Dialled; omega) _ rfl
  rw [hidle]
  exact trivial

/-- A notice reaches the activity, if one is bound. -/
theorem Agrees.pop {m : Notice} (h : Agrees account l heard es (m :: ns) shown)
    (hm : ∀ u : CallState, u.after m = CallState.idle.after m) :
    Agrees account l heard es ns (shown.map fun u => u.after m) := by
  have hdial : ¬ Dialled es := fun hd => nomatch (h.dialled hd).2
  refine ⟨h.heard, h.once, fun hd => absurd hd hdial, ?_, ?_⟩
  · intro k hk
    apply h.pending
    rw [List.getLast?_cons, hk]
    rfl
  · rintro u hu rfl
    obtain ⟨u, -, rfl⟩ := Option.map_eq_some_iff.mp hu
    rw [hm u]
    exact .shows (h.pending m rfl) (wanted_none hdial)

/-- The activity writes on the screen by itself, or there is another one. -/
theorem Agrees.redraw (h : Agrees account l heard es ns shown) {shown' : Option CallState}
    (hshow : ∀ u, shown' = some u → ns = [] → Matches account l es u) :
    Agrees account l heard es ns shown' :=
  ⟨h.heard, h.once, h.dialled, h.pending, hshow⟩

/-- The dial key. -/
theorem Agrees.dial (h : Agrees account l heard es ns shown) (hl : l = .idle)
    (hes : ¬ Dialled es) (hns : ns = []) {number : Str} (hnumber : number ≠ []) :
    Agrees account l heard (es ++ [.dial (dialUri account number)]) ns
      (some (.outgoing number)) := by
  refine ⟨h.heard, ?_, fun _ => ⟨hl, hns⟩, h.pending, ?_⟩
  · rw [List.countP_append, not_not.mp hes]
    exact Nat.le_refl 1
  · rintro _ ⟨⟩ -
    exact .calling number hl rfl hnumber (List.mem_append_right _ List.mem_cons_self)

/-- A key that ends the call clears the screen before the call has ended. -/
theorem matches_hang (account : Buffers) (l : Line) (es : List Errand) :
    Matches account l (es ++ [.hang]) .idle := by
  by_cases hl : l = .idle
  · subst hl
    refine .shows trivial ?_
    unfold wanted
    rw [List.foldl_append]
    rfl
  · exact .ending hl (List.mem_append_right _ List.mem_cons_self)

end

end SimplePhone.App
