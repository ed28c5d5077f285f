import SimplePhone.App.Step
import SimplePhone.Native.Proper
import SimplePhone.Native.Waiting
import Mathlib.Data.List.Nodup

/-! The calls that the history should tell of: every incoming call that was reported, as
answered or missed, and every call of our own that was established. A ledger beside the
phone remembers them, with the entries that were written. -/
namespace SimplePhone.App

open Service Native Transition

/-- The number of a caller as the screen shows it. -/
abbrev shownNumber (peer : Str) : Str := displayNumber (callerNumber (bounded 256 peer))

structure Ledger where
  /-- All entries, oldest first, also those that the history has dropped. -/
  written : List HistoryEntry
  /-- The calls that `onIncomingCall` was called for, with their numbers. -/
  reported : List (CallId × Str)
  /-- The calls that `onCallStarted` was called for, as they were before, with the number
  that had been dialled last. -/
  established : List (Call × Str)
  /-- The number of the last `makeCall`. -/
  dialled : Str
  /-- The screen of an activity that has heard every notice. -/
  view : CallState
deriving DecidableEq

def Ledger.empty : Ledger := ⟨[], [], [], [], .idle⟩

def reports : Delivery → Option (CallId × Str)
  | ⟨.onIncomingCall callerNumber, some c⟩ => some (c, displayNumber callerNumber)
  | _ => none

def begins (find : CallId → Option Call) : Delivery → Option Call
  | ⟨.onCallStarted, some c⟩ => find c
  | _ => none

/-- Callbacks are made. The app hears of them if it has handed over its callback object. -/
def Ledger.hear (heard : Bool) (find : CallId → Option Call) (n : List Delivery) (h : Ledger) :
    Ledger :=
  { h with
    reported := h.reported ++ if heard then n.filterMap reports else []
    established := h.established ++ (n.filterMap (begins find)).map fun x => (x, h.dialled) }

def Ledger.hasBegun (h : Ledger) (c : CallId) : Bool := h.established.any fun r => r.1.id = c

/-- The entry that is due for a reported call. One that still rings has none yet. -/
def Ledger.verdict (rings : CallId → Bool) (h : Ledger) (r : CallId × Str) : Option HistoryEntry :=
  if h.hasBegun r.1 then some ⟨.incoming, r.2⟩
  else if rings r.1 then none
  else some ⟨.missed, r.2⟩

/-- The entries that are due, in whatever order. -/
def Ledger.due (rings : CallId → Bool) (h : Ledger) : List HistoryEntry :=
  h.reported.filterMap (h.verdict rings) ++
    (h.established.filter fun r => r.1.outgoing).map fun r => ⟨.outgoing, r.2⟩

def rings (g : Globals) (c : CallId) : Bool := g.calls.any fun x => x.id = c ∧ x.state = .incoming

/-! ### What a callback decides -/

/-- The entry that is due once a callback tells this of the call on the line. -/
def decides (dialled : Str) : Line → Callback → List HistoryEntry
  | .ringing _ peer _, .onCallStarted => [⟨.incoming, shownNumber peer⟩]
  | .ringing _ peer _, .onCallEnded => [⟨.missed, shownNumber peer⟩]
  | .dialing _ _, .onCallStarted => [⟨.outgoing, dialled⟩]
  | _, _ => []

def ringsOn : Line → CallId → Bool
  | .ringing d _ _, c => d = c
  | _, _ => false

/-- What the ledger knows of the line. Calls from `next` on are still to come. -/
structure Booked (l : Line) (next : CallId) (h : Ledger) : Prop where
  fresh : ∀ r ∈ h.reported, r.1 < next
  begun : ∀ r ∈ h.established, r.1.id < next
  once : (h.reported.map Prod.fst).Nodup
  ringing : ∀ c peer b, l = .ringing c peer b →
    (c, shownNumber peer) ∈ h.reported ∧ h.hasBegun c = false
  dialing : ∀ c uri, l = .dialing c uri → ∀ r ∈ h.reported, r.1 ≠ c

/-- Of entries with different keys one gets a value that it did not have. -/
theorem perm_filterMap_update {α β γ : Type} {xs : List (α × β)} {f f' : α × β → Option γ}
    {r : α × β} {v : γ} (hnodup : (xs.map Prod.fst).Nodup) (hr : r ∈ xs) (hf : f r = none)
    (hf' : f' r = some v) (hother : ∀ x ∈ xs, x.1 ≠ r.1 → f' x = f x) :
    (xs.filterMap f').Perm (xs.filterMap f ++ [v]) := by
  induction xs with
  | nil => cases hr
  | cons x xs ih =>
    rw [List.map_cons, List.nodup_cons] at hnodup
    obtain ⟨hx, hnodup⟩ := hnodup
    rcases List.mem_cons.mp hr with rfl | hr
    · have hrest : xs.filterMap f' = xs.filterMap f := by
        refine List.filterMap_congr fun y hy => hother y (List.mem_cons_of_mem r hy) ?_
        exact fun heq => hx (heq ▸ List.mem_map_of_mem hy)
      rw [List.filterMap_cons_some hf', List.filterMap_cons_none hf, hrest]
      exact (List.perm_append_singleton v _).symm
    · have hne : x.1 ≠ r.1 := fun heq => hx (heq ▸ List.mem_map_of_mem hr)
      have hperm := ih hnodup hr fun y hy => hother y (List.mem_cons_of_mem x hy)
      have hsame := hother x List.mem_cons_self hne
      cases hfx : f x with
      | none =>
        rw [List.filterMap_cons_none hfx, List.filterMap_cons_none (hsame.trans hfx)]
        exact hperm
      | some w =>
        rw [List.filterMap_cons_some hfx, List.filterMap_cons_some (hsame.trans hfx)]
        exact hperm.cons w

section
variable {l l' : Line} {next next' : CallId} {h : Ledger} {c : CallId} {peer uri : Str} {b b' : Bool}
  {find : CallId → Option Call} {heard : Bool} {x : Call} {g t : Globals}

/-! ### Callbacks, seen by the ledger -/

theorem hear_nil : h.hear heard find [] = h := by
  simp [Ledger.hear]

theorem hear_silent {n : List Delivery} (hreports : n.filterMap reports = [])
    (hbegins : n.filterMap (begins find) = []) : h.hear heard find n = h := by
  simp [Ledger.hear, hreports, hbegins]

theorem hear_reported (find : CallId → Option Call) (number : Str) (c : CallId) :
    h.hear true find [⟨.onIncomingCall (callerNumber (bounded 256 number)), some c⟩] =
      { h with reported := h.reported ++ [(c, shownNumber number)] } := by
  simp [Ledger.hear, reports, begins]

theorem hear_started (hx : find c = some x) : h.hear heard find [⟨.onCallStarted, some c⟩] =
    { h with established := h.established ++ [(x, h.dialled)] } := by
  simp [Ledger.hear, reports, begins, hx]

theorem hasBegun_fresh (hb : Booked l next h) (hc : next ≤ c) : h.hasBegun c = false := by
  unfold Ledger.hasBegun
  rw [List.any_eq_false]
  intro r hr
  rw [decide_eq_true_eq]
  exact Nat.ne_of_lt (Nat.lt_of_lt_of_le (hb.begun r hr) hc)

/-- Only the calls that ring, and those that have begun, have a say. -/
theorem due_congr {f f' : CallId → Bool} (hf : ∀ r ∈ h.reported, f' r.1 = f r.1) :
    h.due f' = h.due f := by
  unfold Ledger.due
  congr 1
  refine List.filterMap_congr fun r hr => ?_
  unfold Ledger.verdict
  rw [hf r hr]

/-- A verdict on one of the reported calls comes before those on the established ones. -/
theorem perm_append_verdict {es fs gs : List HistoryEntry} {e : HistoryEntry}
    (hperm : es.Perm (fs ++ [e])) : (es ++ gs).Perm (fs ++ gs ++ [e]) := by
  apply (hperm.append_right gs).trans
  rw [List.append_assoc, List.append_assoc]
  exact List.Perm.append_left fs List.perm_append_comm

/-! ### Moves, seen by the ledger -/

theorem Booked.quiet (hb : Booked l next h) (hle : next ≤ next')
    (hring : ∀ c peer b, l' = .ringing c peer b → ∃ b', l = .ringing c peer b')
    (hdial : ∀ c uri, l' = .dialing c uri → l = .dialing c uri ∨ next ≤ c) :
    Booked l' next' h := by
  refine ⟨fun r hr => Nat.lt_of_lt_of_le (hb.fresh r hr) hle,
    fun r hr => Nat.lt_of_lt_of_le (hb.begun r hr) hle, hb.once, ?_, ?_⟩
  · intro c peer b hl
    obtain ⟨b', hl'⟩ := hring c peer b hl
    exact hb.ringing c peer b' hl'
  · intro c uri hl r hr
    obtain hsame | hnew := hdial c uri hl
    · exact hb.dialing c uri hsame r hr
    · exact Nat.ne_of_lt (Nat.lt_of_lt_of_le (hb.fresh r hr) hnew)

/-- The call on the line is over, or there was none. -/
theorem Booked.due_ended (hb : Booked l next h) (hl' : ∀ d, ringsOn l' d = false) (dialled : Str) :
    (h.due (ringsOn l')).Perm (h.due (ringsOn l) ++ decides dialled l .onCallEnded) := by
  cases l with
  | ringing c peer b =>
    obtain ⟨hmem, hnot⟩ := hb.ringing c peer b rfl
    have hreported : (h.reported.filterMap (h.verdict (ringsOn l'))).Perm
        (h.reported.filterMap (h.verdict (ringsOn (.ringing c peer b))) ++
          [⟨.missed, shownNumber peer⟩]) := by
      apply perm_filterMap_update hb.once hmem
      · simp [Ledger.verdict, hnot, ringsOn]
      · simp [Ledger.verdict, hnot, hl']
      · intro r _ hne
        have hother : ringsOn (.ringing c peer b) r.1 = false :=
          decide_eq_false fun heq => hne heq.symm
        simp only [Ledger.verdict, hl', hother]
    exact perm_append_verdict hreported
  | idle | dialing _ _ | talking _ _ _ =>
    have hoff : h.due (ringsOn l') = h.due fun _ => false := due_congr fun r _ => hl' r.1
    rw [hoff]
    exact .of_eq (List.append_nil _).symm

/-- A call is announced. -/
theorem Booked.ring (hb : Booked .idle next h) (peer : Str) :
    Booked (.ringing next peer false) (next + 1)
      { h with reported := h.reported ++ [(next, shownNumber peer)] } := by
  have hnot := hasBegun_fresh hb (Nat.le_refl _)
  refine ⟨?_, fun r hr => Nat.lt_succ_of_lt (hb.begun r hr), ?_, ?_, ?_⟩
  · intro r hr
    rcases List.mem_append.mp hr with hold | hnew
    · exact Nat.lt_succ_of_lt (hb.fresh r hold)
    · rw [List.mem_singleton.mp hnew]
      exact Nat.lt_succ_self next
  · rw [List.map_append, List.nodup_append]
    refine ⟨hb.once, List.nodup_singleton _, ?_⟩
    intro c hc d hd
    obtain ⟨r, hr, rfl⟩ := List.mem_map.mp hc
    rw [List.map_singleton, List.mem_singleton] at hd
    rw [hd]
    exact Nat.ne_of_lt (hb.fresh r hr)
  · rintro c peer' b ⟨⟩
    exact ⟨List.mem_append_right _ List.mem_cons_self, hnot⟩
  · intro c uri hl
    cases hl

theorem Booked.due_ring (hb : Booked .idle next h) (peer : Str) :
    ({ h with reported := h.reported ++ [(next, shownNumber peer)] } : Ledger).due
      (ringsOn (.ringing next peer false)) = h.due (ringsOn .idle) := by
  have hnot := hasBegun_fresh hb (Nat.le_refl _)
  have hold : h.reported.filterMap (h.verdict (ringsOn (.ringing next peer false))) =
      h.reported.filterMap (h.verdict (ringsOn .idle)) := by
    refine List.filterMap_congr fun r hr => ?_
    have hne : ringsOn (.ringing next peer false) r.1 = ringsOn .idle r.1 :=
      decide_eq_false (Nat.ne_of_gt (hb.fresh r hr))
    unfold Ledger.verdict
    rw [hne]
  have hnew : [(next, shownNumber peer)].filterMap
      (h.verdict (ringsOn (.ringing next peer false))) = [] := by
    simp [Ledger.verdict, hnot, ringsOn]
  change (h.reported ++ [(next, shownNumber peer)]).filterMap (h.verdict _) ++ _ = _
  rw [List.filterMap_append, hold, hnew, List.append_nil]
  rfl

/-- The call on the line begins. -/
theorem Booked.begin (hb : Booked l next h) (hle : next ≤ next') (hx : x.id < next)
    (number : Str) : Booked (.talking c peer b) next'
      { h with established := h.established ++ [(x, number)] } := by
  refine ⟨fun r hr => Nat.lt_of_lt_of_le (hb.fresh r hr) hle, ?_, hb.once, nofun, nofun⟩
  intro r hr
  rcases List.mem_append.mp hr with hold | hnew
  · exact Nat.lt_of_lt_of_le (hb.begun r hold) hle
  · rw [List.mem_singleton.mp hnew]
    exact Nat.lt_of_lt_of_le hx hle

theorem hasBegun_more (h : Ledger) (x : Call) (number : Str) (d : CallId) :
    ({ h with established := h.established ++ [(x, number)] } : Ledger).hasBegun d =
      (h.hasBegun d || decide (x.id = d)) := by
  unfold Ledger.hasBegun
  rw [List.any_append, List.any_cons, List.any_nil, Bool.or_false]

/-- The beginning of one call is none of another. -/
theorem hasBegun_other (h : Ledger) {d : CallId} (hne : x.id ≠ d) (number : Str) :
    ({ h with established := h.established ++ [(x, number)] } : Ledger).hasBegun d =
      h.hasBegun d := by
  rw [hasBegun_more, decide_eq_false hne, Bool.or_false]

theorem Booked.due_confirmed (hb : Booked (.ringing c peer b) next h) (hx : x.id = c)
    (hin : x.outgoing = false) (number : Str) :
    (({ h with established := h.established ++ [(x, number)] } : Ledger).due
      (ringsOn (.talking c peer b'))).Perm
        (h.due (ringsOn (.ringing c peer b)) ++ [⟨.incoming, shownNumber peer⟩]) := by
  obtain ⟨hmem, hnot⟩ := hb.ringing c peer b rfl
  have hreported : (h.reported.filterMap
      (({ h with established := h.established ++ [(x, number)] } : Ledger).verdict
        (ringsOn (.talking c peer b')))).Perm
      (h.reported.filterMap (h.verdict (ringsOn (.ringing c peer b))) ++
        [⟨.incoming, shownNumber peer⟩]) := by
    apply perm_filterMap_update hb.once hmem
    · simp [Ledger.verdict, hnot, ringsOn]
    · simp [Ledger.verdict, hasBegun_more, hx]
    · intro r _ hne
      have hother : ringsOn (.ringing c peer b) r.1 = ringsOn (.talking c peer b') r.1 :=
        decide_eq_false fun heq => hne heq.symm
      unfold Ledger.verdict
      rw [hasBegun_other h (hx ▸ Ne.symm hne), hother]
  have houtgoing : (h.established ++ [(x, number)]).filter (fun r => r.1.outgoing) =
      h.established.filter fun r => r.1.outgoing := by
    simp [List.filter_append, hin]
  unfold Ledger.due
  rw [houtgoing]
  exact perm_append_verdict hreported

theorem Booked.due_picksUp (hb : Booked (.dialing c uri) next h) (hx : x.id = c)
    (hout : x.outgoing = true) (number : Str) :
    ({ h with established := h.established ++ [(x, number)] } : Ledger).due
      (ringsOn (.talking c uri b)) =
        h.due (ringsOn (.dialing c uri)) ++ [⟨.outgoing, number⟩] := by
  have hreported : h.reported.filterMap
      (({ h with established := h.established ++ [(x, number)] } : Ledger).verdict
        (ringsOn (.talking c uri b))) =
      h.reported.filterMap (h.verdict (ringsOn (.dialing c uri))) := by
    refine List.filterMap_congr fun r hr => ?_
    have hne := hb.dialing c uri rfl r hr
    unfold Ledger.verdict
    rw [hasBegun_other h (hx ▸ Ne.symm hne)]
    rfl
  unfold Ledger.due
  rw [hreported]
  simp [List.filter_append, hout]

/-- What an undisturbed step tells is entered, and what it decides is due from then on. -/
theorem Booked.move {d : Drive} {n : List Delivery} (hb : Booked l next h) (hm : Move l d l' n)
    (hle : next ≤ next')
    (hreport : ∀ number k, (⟨.onIncomingCall number, some k⟩ : Delivery) ∈ n →
      heard = true ∧ k = next ∧ next' = next + 1)
    (hdial : ∀ c uri, l = .idle → l' = .dialing c uri → next ≤ c)
    (hfind : ∀ c, l.call = some c → c < next ∧ ∃ x, find c = some x ∧ x.id = c ∧
      (l.isTalking = false → (x.outgoing = true ↔ l.isRinging = false)))
    (hre : ∀ aor r, d = .work (.reregister aor) r → l = .idle) :
    Booked l' next' (h.hear heard find n) ∧ ((h.hear heard find n).due (ringsOn l')).Perm
      (h.due (ringsOn l) ++ n.flatMap fun d => decides h.dialled l d.callback) := by
  have hidle : Booked .idle next h := hb.quiet (Nat.le_refl _) nofun nofun
  have hidle' : Booked .idle next' h := hb.quiet hle nofun nofun
  have hover : (h.due (ringsOn .idle)).Perm (h.due (ringsOn l) ++ decides h.dialled l .onCallEnded) :=
    hb.due_ended (fun _ => rfl) h.dialled
  have hsame (n : List Delivery) (hn : h.hear heard find n = h) (hbooked : Booked l' next' h)
      (hdue : ∀ d, ringsOn l' d = ringsOn l d)
      (hnone : (n.flatMap fun d => decides h.dialled l d.callback) = []) :
      Booked l' next' (h.hear heard find n) ∧ ((h.hear heard find n).due (ringsOn l')).Perm
        (h.due (ringsOn l) ++ n.flatMap fun d => decides h.dialled l d.callback) := by
    rw [hn, hnone, List.append_nil, due_congr fun r _ => hdue r.1]
    exact ⟨hbooked, .refl _⟩
  cases hm with
  | stay l d hd =>
    exact hsame [] hear_nil (hb.quiet hle (fun c peer b hl => ⟨b, hl⟩) fun c uri hl => .inl hl)
      (fun _ => rfl) rfl
  | ring k peer =>
    obtain ⟨rfl, rfl, rfl⟩ := hreport _ _ List.mem_cons_self
    rw [hear_reported, hb.due_ring peer]
    exact ⟨hb.ring peer, .of_eq (List.append_nil _).symm⟩
  | @takeover _ c hc k peer =>
    obtain ⟨rfl, rfl, rfl⟩ := hreport _ _ (List.mem_cons_of_mem _ List.mem_cons_self)
    have hhear : h.hear true find [⟨.onCallEnded, some c⟩,
          ⟨.onIncomingCall (callerNumber (bounded 256 peer)), some k⟩] =
        { h with reported := h.reported ++ [(k, shownNumber peer)] } :=
      hear_reported find peer k
    rw [hhear, hidle.due_ring peer]
    refine ⟨hidle.ring peer, ?_⟩
    have hnone (number : Str) : decides h.dialled l (.onIncomingCall number) = [] := by
      cases l <;> rfl
    rw [List.flatMap_cons, List.flatMap_singleton, hnone, List.append_nil]
    exact hover
  | picksUp c uri =>
    obtain ⟨hlt, x, hx, hid, hout⟩ := hfind c rfl
    rw [hear_started hx, hb.due_picksUp hid ((hout rfl).mpr rfl)]
    exact ⟨hb.begin hle (hid ▸ hlt) h.dialled, .refl _⟩
  | confirmed c peer =>
    obtain ⟨hlt, x, hx, hid, hout⟩ := hfind c rfl
    have hin : x.outgoing = false := Bool.eq_false_iff.mpr fun hx => nomatch (hout rfl).mp hx
    rw [hear_started hx]
    exact ⟨hb.begin hle (hid ▸ hlt) h.dialled, hb.due_confirmed hid hin _⟩
  | finish hc =>
    rw [hear_silent rfl rfl, List.flatMap_singleton]
    exact ⟨hidle', hover⟩
  | hangup r hc hw =>
    rw [hear_silent rfl rfl, List.flatMap_singleton]
    exact ⟨hidle', hover⟩
  | broken hc reason =>
    have hnone : decides h.dialled l (.onCallFailed reason) = [] := by
      cases l <;> rfl
    rw [hear_silent rfl rfl, List.flatMap_cons, List.flatMap_singleton, hnone, List.nil_append]
    exact ⟨hidle', hover⟩
  | answer c peer b =>
    refine hsame [] hear_nil (hb.quiet hle ?_ nofun) (fun _ => rfl) rfl
    rintro c peer b' ⟨⟩
    exact ⟨b, rfl⟩
  | reregister l aor r =>
    obtain rfl := hre aor r rfl
    exact hsame [] hear_nil hidle' (fun _ => rfl) rfl
  | idleWork =>
    exact hsame [] hear_nil (hb.quiet hle (fun c peer b hl => ⟨b, hl⟩) fun c uri hl => .inl hl)
      (fun _ => rfl) rfl
  | dial k uri =>
    refine hsame [] hear_nil (hb.quiet hle nofun ?_) (fun _ => rfl) rfl
    rintro c uri' ⟨⟩
    exact .inr (hdial _ _ rfl rfl)
  | dialFailed uri => exact hsame _ (hear_silent rfl rfl) hidle' (fun _ => rfl) rfl

/-! ### Steps of the event loop -/

theorem rings_eq (hco : Coherent g) (hs : SingleLine g) : rings g = ringsOn g.line := by
  funext c
  unfold rings
  obtain ⟨hnone, hline⟩ | ⟨x, hx, hline⟩ := line_cases hco hs
  · rw [hnone, hline]
    rfl
  · rw [hx, hline]
    unfold Call.line
    split
    · simp [ringsOn, *]
    · simp [ringsOn, *]
    · rename_i hin
      simpa [ringsOn] using fun _ => hin

/-- On an idle line only a new call can come up. -/
theorem nextCall_of_idle (hco : Coherent g) (hs : SingleLine g) {a : Native.Action}
    (hstep : Native.step g a = some t) (hidle : g.gCall = none) (hc : t.gCall = some c) :
    c = g.nextCall := by
  have hnone (hcall : t.gCall = none) : c = g.nextCall := by
    rw [hcall] at hc
    cases hc
  have hnew (hcall : t.gCall = some g.nextCall) : c = g.nextCall :=
    Option.some.inj (hc.symm.trans hcall)
  cases step_effect hco hstep with
  | quiet ha hcall => exact hnone (hcall.trans hidle)
  | established hlive =>
    have hcur := (hs _).mp hlive
    rw [hidle] at hcur
    cases hcur
  | incoming _ hcall | outgoing _ hcall | dropped _ hcall => exact hnew hcall
  | closed _ hcall | audioError _ hcall | turnedAway _ hcall | reregistered _ hcall =>
    exact hnone hcall
  | hungUp hw hangs _ hcall => exact hnone hcall
  | replaced hresult hr hcall =>
    split at hcall
    · exact hnew hcall
    · exact hnone hcall

theorem Booked.step (hb : Booked g.line g.nextCall h) (hco : Coherent g) (hs : SingleLine g)
    (hp : Proper g) {a : Native.Action} (hund : Undisturbed g a) (hspares : Spares g a)
    (hstep : Native.step g a = some t)
    (hheard : ∀ number cause, (⟨.onIncomingCall number, cause⟩ : Delivery) ∈ t.news →
      heard = true) :
    Booked t.line t.nextCall (h.hear heard g.find t.news) ∧
      ((h.hear heard g.find t.news).due (ringsOn t.line)).Perm
        (h.due (ringsOn g.line) ++ t.news.flatMap fun d => decides h.dialled g.line d.callback) := by
  apply hb.move (step_moves hco hs hund hstep) (nextCall_mono hco hstep)
  · intro number k hmem
    refine ⟨hheard number (some k) hmem, ?_⟩
    obtain hsettles | ⟨l, peer, hnews, hsettles, -, -, hnext, -⟩ := news_step hco hstep
    · exact nomatch hsettles _ hmem
    · rw [hnews] at hmem
      rcases List.mem_append.mp hmem with hold | hlast
      · exact nomatch hsettles _ hold
      · exact ⟨Option.some.inj (Delivery.mk.inj (List.mem_singleton.mp hlast)).2, hnext⟩
  · intro c uri hidle hdial
    have hcall : g.gCall = none := by
      rw [← hs.line_call, hidle]
      rfl
    exact Nat.le_of_eq (nextCall_of_idle hco hs hstep hcall
      (gCall_of_line (by rw [hdial]; rfl))).symm
  · intro c hc
    rw [hs.line_call] at hc
    obtain ⟨x, hx, hid, hline⟩ := exists_current hs hc
    refine ⟨hco.current c hc, x, hx, hid, ?_⟩
    rw [hline]
    intro htalk
    have hproper := hp x (List.mem_of_find?_eq_some hx)
    unfold Call.line at htalk ⊢
    split at htalk
    · cases htalk
    · rename_i hin
      simp [x.outgoing_iff hproper (by simp [hin]), hin, Line.isRinging]
    · rename_i hes hin
      simp only [x.outgoing_iff hproper hes]
      exact iff_of_true hin rfl
  · exact fun aor r hd => hspares.idle hd

end

end SimplePhone.App
