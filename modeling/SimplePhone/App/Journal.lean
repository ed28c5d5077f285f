import SimplePhone.App.Ledger
import SimplePhone.App.Screen

/-! The entries that an activity writes as it hears the notices that wait, and how they
add up with those it has written to the entries that are due. -/
namespace SimplePhone.App

open Service Native Transition

/-- The entry that a screen is about to write: the call that it shows, as one that begins. -/
def CallState.offers : CallState → Option HistoryEntry
  | .incoming callerNumber => some ⟨.incoming, callerNumber⟩
  | .outgoing number => some ⟨.outgoing, number⟩
  | _ => none

/-- What an activity with this screen writes on a notice, with no number left over from
before. -/
def CallState.entry (u : CallState) : Notice → List HistoryEntry
  | .onCallStarted => u.offers.toList
  | .onCallEnded =>
      match u with
      | .incoming callerNumber => [⟨.missed, callerNumber⟩]
      | _ => []
  | _ => []

/-- What it writes on all of them, one after the other. -/
def CallState.entries : CallState → List Notice → List HistoryEntry
  | _, [] => []
  | u, n :: ns => u.entry n ++ (u.after n).entries ns

/-- The screen after all of them. -/
def CallState.finally (u : CallState) (ns : List Notice) : CallState := ns.foldl CallState.after u

/-- A call that begins is one that the screen shows, with a number. -/
def Tells : CallState → List Notice → Prop
  | _, [] => True
  | u, n :: ns => (n = .onCallStarted → ∃ e ∈ u.offers, e.number ≠ []) ∧ Tells (u.after n) ns

/-- No screen shows a caller who does not ring. -/
def Truthful (l : Line) (u : CallState) : Prop :=
  ∀ number, u = .incoming number → ∃ c peer b, l = .ringing c peer b ∧ number = shownNumber peer

/-- The entry that has been written before it was due: the call is rejected, and rings on
until the hangup comes through. -/
def advance : Line → CallState → List HistoryEntry
  | .ringing _ peer _, u => if u.isIncoming then [] else [⟨.missed, shownNumber peer⟩]
  | _, _ => []

/-- The entries that are written and those that the waiting notices will bring are those
that are due. -/
structure Tallies (l : Line) (ns : List Notice) (u : CallState) (written due : List HistoryEntry) :
    Prop where
  tells : Tells u ns
  truthful : Truthful l (u.finally ns)
  balance : (written ++ u.entries ns).Perm (due ++ advance l (u.finally ns))

section
variable {l l' : Line} {ns ms : List Notice} {u v : CallState} {n : Notice}
  {written due due' : List HistoryEntry}

/-! ### Notices one after the other -/

theorem entries_append (u : CallState) (ns ms : List Notice) :
    u.entries (ns ++ ms) = u.entries ns ++ (u.finally ns).entries ms := by
  induction ns generalizing u with
  | nil => rfl
  | cons n ns ih =>
    change u.entry n ++ (u.after n).entries (ns ++ ms) = _
    rw [ih, ← List.append_assoc]
    rfl

theorem finally_append (u : CallState) (ns ms : List Notice) :
    u.finally (ns ++ ms) = (u.finally ns).finally ms :=
  List.foldl_append

theorem tells_append (h : Tells u ns) (hms : Tells (u.finally ns) ms) : Tells u (ns ++ ms) := by
  induction ns generalizing u with
  | nil => exact hms
  | cons n ns ih => exact ⟨h.1, ih h.2 hms⟩

/-! ### Screens that offer the same -/

theorem isIncoming_of_offers (h : u.offers = v.offers) : u.isIncoming = v.isIncoming := by
  cases u <;> cases v <;> first | rfl | simp [CallState.offers] at h

theorem entry_of_offers (h : u.offers = v.offers) (n : Notice) : u.entry n = v.entry n := by
  cases n with
  | onCallStarted => exact congrArg Option.toList h
  | onCallEnded =>
    have hincoming := isIncoming_of_offers h
    cases u with
    | incoming callerNumber =>
      cases v with
      | incoming callerNumber' =>
        have hcaller : callerNumber = callerNumber' :=
          congrArg HistoryEntry.number (Option.some.inj h)
        rw [hcaller]
      | _ => cases hincoming
    | _ =>
      cases v with
      | incoming _ => cases hincoming
      | _ => rfl
  | _ => rfl

theorem after_of_offers (h : u.offers = v.offers) (n : Notice) :
    (u.after n).offers = (v.after n).offers := by
  cases n with
  | onStatus _ | onDebug _ => exact h
  | _ => rfl

theorem entries_of_offers (h : u.offers = v.offers) (ns : List Notice) :
    u.entries ns = v.entries ns := by
  induction ns generalizing u v with
  | nil => rfl
  | cons n ns ih =>
    change u.entry n ++ _ = v.entry n ++ _
    rw [entry_of_offers h, ih (after_of_offers h n)]

theorem finally_of_offers (h : u.offers = v.offers) (ns : List Notice) :
    (u.finally ns).offers = (v.finally ns).offers := by
  induction ns generalizing u v with
  | nil => exact h
  | cons n ns ih => exact ih (after_of_offers h n)

theorem tells_of_offers (h : u.offers = v.offers) (htells : Tells u ns) : Tells v ns := by
  induction ns generalizing u v with
  | nil => trivial
  | cons n ns ih =>
    refine ⟨?_, ih (after_of_offers h n) htells.2⟩
    rw [← h]
    exact htells.1

theorem advance_of_offers (h : u.offers = v.offers) (l : Line) : advance l u = advance l v := by
  cases l with
  | ringing c peer b =>
    change (if u.isIncoming then _ else _) = if v.isIncoming then _ else _
    rw [isIncoming_of_offers h]
  | _ => rfl

theorem truthful_of_offers (h : u.offers = v.offers) (htruth : Truthful l u) : Truthful l v := by
  rintro number rfl
  apply htruth
  cases u with
  | incoming m =>
    injection h with h
    injection h with _ h
    rw [h]
  | _ => simp [CallState.offers] at h

theorem truthful_of_not_incoming (h : u.isIncoming = false) : Truthful l u := by
  rintro number rfl
  cases h

/-! ### Redrawing -/

theorem Tallies.redraw (h : Tallies l ns u written due) (hsame : u.offers = v.offers) :
    Tallies l ns v written due := by
  refine ⟨tells_of_offers hsame h.tells, truthful_of_offers (finally_of_offers hsame ns) h.truthful,
    ?_⟩
  rw [← entries_of_offers hsame, ← advance_of_offers (finally_of_offers hsame ns)]
  exact h.balance

/-- A call that is yet to be announced replaces what the screen shows. -/
theorem Tallies.announced {callerNumber : Str}
    (h : Tallies l (.onIncomingCall callerNumber :: ns) u written due) (v : CallState) :
    Tallies l (.onIncomingCall callerNumber :: ns) v written due :=
  ⟨⟨nofun, h.tells.2⟩, h.truthful, h.balance⟩

/-- On an idle line nothing is in the way of a screen that shows no caller. -/
theorem Tallies.dial (h : Tallies .idle [] u written due) (hv : v.isIncoming = false) :
    Tallies .idle [] v written due :=
  ⟨trivial, truthful_of_not_incoming hv, h.balance⟩

/-! ### A notice is heard -/

theorem Tallies.hear (h : Tallies l (n :: ns) u written due) :
    Tallies l ns (u.after n) (written ++ u.entry n) due := by
  refine ⟨h.tells.2, h.truthful, ?_⟩
  rw [List.append_assoc]
  exact h.balance

/-- The activity writes what its screen says. -/
theorem hear_written {a : Activity} (h : Tells a.callState (n :: ns)) :
    (a.hear n).2 = a.callState.entry n := by
  cases n with
  | onCallStarted =>
    obtain ⟨e, he, hne⟩ := h.1 rfl
    unfold Activity.hear Activity.startedEntry Activity.peer
    cases hu : a.callState with
    | incoming number | outgoing number =>
      rw [hu] at he
      obtain rfl := Option.mem_some.mp he
      simp only [List.isEmpty_iff]
      rw [if_neg hne]
      rfl
    | _ =>
      rw [hu] at he
      cases he
  | _ => rfl

/-! ### Keys -/

/-- The call is ended from the screen: a caller is written as missed at once. -/
theorem Tallies.hang (h : Tallies l ns u written due)
    (hcalls : ∀ n ∈ ns, ∀ u : CallState, u.after n = CallState.idle.after n)
    (hincoming : u.isIncoming = true → ns = [] ∨ ns.head? = some .onCallEnded)
    (houtgoing : u.isIncoming = false → ns.head? ≠ some .onCallStarted) :
    Tallies l ns .idle (written ++ u.entry .onCallEnded) due := by
  have hbalance := h.balance
  cases hu : u.isIncoming with
  | true =>
    obtain ⟨number, rfl⟩ : ∃ number, u = .incoming number := by
      cases u with
      | incoming number => exact ⟨number, rfl⟩
      | _ => cases hu
    cases ns with
    | nil =>
      obtain ⟨c, peer, b, rfl, rfl⟩ := h.truthful number rfl
      refine ⟨trivial, nofun, ?_⟩
      change (written ++ []).Perm (due ++ []) at hbalance
      rw [List.append_nil, List.append_nil] at hbalance
      change (written ++ [HistoryEntry.mk .missed (shownNumber peer)] ++ []).Perm _
      rw [List.append_nil]
      exact hbalance.append_right _
    | cons n ns =>
      obtain rfl : n = .onCallEnded := by simpa using hincoming rfl
      refine ⟨⟨nofun, h.tells.2⟩, h.truthful, ?_⟩
      rw [List.append_assoc]
      exact hbalance
  | false =>
    have hentry (n : Notice) (hn : n ≠ .onCallStarted) : u.entry n = [] := by
      cases n with
      | onCallStarted => exact absurd rfl hn
      | onCallEnded =>
        cases u with
        | incoming _ => cases hu
        | _ => rfl
      | _ => rfl
    rw [hentry .onCallEnded nofun, List.append_nil]
    cases ns with
    | nil =>
      refine ⟨trivial, nofun, ?_⟩
      rw [show advance l (CallState.idle.finally []) = advance l (u.finally []) by
        cases l with
        | ringing c peer b => exact (congrArg (fun b => if b = true then _ else _) hu).symm
        | _ => rfl]
      exact hbalance
    | cons n ns =>
      have hn : n ≠ .onCallStarted := by simpa using houtgoing hu
      have hafter := hcalls n List.mem_cons_self u
      have hidle : CallState.idle.entry n = [] := by cases n <;> rfl
      refine ⟨⟨fun heq => absurd heq hn, hafter ▸ h.tells.2⟩, ?_, ?_⟩
      · have htruth := h.truthful
        change Truthful l ((u.after n).finally ns) at htruth
        rw [hafter] at htruth
        exact htruth
      · change (written ++ (u.entry n ++ (u.after n).entries ns)).Perm
          (due ++ advance l ((u.after n).finally ns)) at hbalance
        rw [hentry n hn, hafter] at hbalance
        change (written ++ (CallState.idle.entry n ++ _)).Perm _
        rw [hidle]
        exact hbalance

/-! ### Moves of the telephone -/

/-- More is told, and more is due. -/
theorem Tallies.tell (h : Tallies l ns u written due) {more : List HistoryEntry}
    (hdue : due'.Perm (due ++ more)) (htells : Tells (u.finally ns) ms)
    (htruth : Truthful l' ((u.finally ns).finally ms))
    (hmore : advance l (u.finally ns) ++ (u.finally ns).entries ms =
      more ++ advance l' ((u.finally ns).finally ms)) :
    Tallies l' (ns ++ ms) u written due' := by
  refine ⟨tells_append h.tells htells, ?_, ?_⟩
  · rw [finally_append]
    exact htruth
  · rw [entries_append, finally_append, ← List.append_assoc]
    refine (h.balance.append_right _).trans ?_
    rw [List.append_assoc, hmore, ← List.append_assoc]
    exact hdue.symm.append_right _

/-- The end of the call settles its entry, whether it was written in advance or not. -/
theorem advance_ended (htruth : Truthful l u) (dialled : Str) :
    advance l u ++ u.entry .onCallEnded = decides dialled l .onCallEnded := by
  cases l with
  | ringing c peer b =>
    cases u with
    | incoming number =>
      obtain ⟨c', peer', b', hl, rfl⟩ := htruth number rfl
      obtain ⟨-, rfl, -⟩ := Line.ringing.inj hl
      rfl
    | _ => rfl
  | _ =>
    cases u with
    | incoming number =>
      obtain ⟨c', peer', b', hl, -⟩ := htruth number rfl
      cases hl
    | _ => rfl

theorem Tallies.move (account : Buffers) {d : Drive} {n : List Delivery} {heard : Bool} {dialled : Str}
    (h : Tallies l ns u written due) (hm : Move l d l' n)
    (hdue : due'.Perm (due ++ n.flatMap fun d => decides dialled l d.callback))
    (hheard : n ≠ [] → heard = true)
    (hstarted : (∃ cause, (⟨.onCallStarted, cause⟩ : Delivery) ∈ n) →
      Shows account l (u.finally ns) ∧ (∀ number, u.finally ns = .outgoing number → number = dialled) ∧
        ∀ c peer b, l = .ringing c peer b → shownNumber peer ≠ [])
    (hfailed : ∀ reason c, (⟨.onCallFailed reason, some c⟩ : Delivery) ∈ n → l.isRinging = false)
    (hre : ∀ aor r, d = .work (.reregister aor) r → l = .idle) :
    Tallies l' (if heard then ns ++ n.flatMap (fun d => notices d.callback) else ns) u written
      due' := by
  have htruth := h.truthful
  have hsilent (hn : n = []) (htruth' : Truthful l' (u.finally ns))
      (hadv : advance l (u.finally ns) = advance l' (u.finally ns)) :
      Tallies l' (if heard then ns ++ n.flatMap (fun d => notices d.callback) else ns) u written
        due' := by
    subst hn
    rw [show (if heard = true then ns ++ [].flatMap _ else ns) = ns ++ [] by simp]
    refine h.tell hdue trivial htruth' ?_
    rw [hadv]
    exact List.append_nil _
  have hloud (hn : n ≠ []) (htells : Tells (u.finally ns) (n.flatMap fun d => notices d.callback))
      (htruth' : Truthful l'
        ((u.finally ns).finally (n.flatMap fun d => notices d.callback)))
      (hmore : advance l (u.finally ns) ++
          (u.finally ns).entries (n.flatMap fun d => notices d.callback) =
        (n.flatMap fun d => decides dialled l d.callback) ++
          advance l' ((u.finally ns).finally (n.flatMap fun d => notices d.callback))) :
      Tallies l' (if heard then ns ++ n.flatMap (fun d => notices d.callback) else ns) u written
        due' := by
    rw [if_pos (hheard hn)]
    exact h.tell hdue htells htruth' hmore
  have hended : advance l (u.finally ns) ++ ((u.finally ns).entry .onCallEnded ++ []) =
      (decides dialled l .onCallEnded ++ []) ++ [] := by
    rw [List.append_nil, List.append_nil, List.append_nil]
    exact advance_ended htruth dialled
  cases hm with
  | stay => exact hsilent rfl htruth rfl
  | ring c peer =>
    refine hloud nofun ⟨nofun, trivial⟩ ?_ rfl
    rintro number ⟨⟩
    exact ⟨c, peer, false, rfl, rfl⟩
  | takeover hc c peer =>
    refine hloud nofun ⟨nofun, nofun, trivial⟩ ?_ ?_
    · rintro number ⟨⟩
      exact ⟨c, peer, false, rfl, rfl⟩
    · have hnone (number : Str) : decides dialled l (.onIncomingCall number) = [] := by
        cases l <;> rfl
      change _ = (decides dialled l .onCallEnded ++ (decides dialled l (.onIncomingCall _) ++ [])) ++ []
      rw [hnone]
      exact hended
  | picksUp c uri =>
    obtain ⟨hshows, hnumber, -⟩ := hstarted ⟨some c, List.mem_cons_self⟩
    cases hu : u.finally ns with
    | outgoing number =>
      rw [hu] at hshows
      obtain rfl := hnumber number hu
      refine hloud nofun ⟨fun _ => ?_, trivial⟩ nofun ?_
      · rw [hu]
        exact ⟨_, rfl, hshows.2⟩
      · rw [hu]
        rfl
    | _ =>
      rw [hu] at hshows
      exact hshows.elim
  | confirmed c peer =>
    obtain ⟨hshows, -, hknown⟩ := hstarted ⟨some c, List.mem_cons_self⟩
    cases hu : u.finally ns with
    | incoming number =>
      rw [hu] at hshows
      obtain rfl : number = shownNumber peer := hshows
      refine hloud nofun ⟨fun _ => ?_, trivial⟩ nofun ?_
      · rw [hu]
        exact ⟨_, rfl, hknown c peer true rfl⟩
      · rw [hu]
        rfl
    | _ =>
      rw [hu] at hshows
      exact hshows.elim
  | finish hc => exact hloud nofun ⟨nofun, trivial⟩ nofun hended
  | hangup r hc hw => exact hloud nofun ⟨nofun, trivial⟩ nofun hended
  | broken hc reason =>
    refine hloud nofun ⟨nofun, nofun, trivial⟩ nofun ?_
    cases l with
    | ringing c peer b => exact nomatch hfailed reason _ List.mem_cons_self
    | _ => rfl
  | answer c peer b =>
    refine hsilent rfl ?_ rfl
    intro number hu
    obtain ⟨c', peer', b', hl, hnumber⟩ := htruth number hu
    obtain ⟨-, rfl, -⟩ := Line.ringing.inj hl
    exact ⟨c, peer, true, rfl, hnumber⟩
  | reregister l aor r =>
    obtain rfl := hre aor r rfl
    exact hsilent rfl htruth rfl
  | idleWork => exact hsilent rfl htruth rfl
  | dial c uri =>
    refine hsilent rfl ?_ rfl
    intro number hu
    obtain ⟨c', peer', b', hl, -⟩ := htruth number hu
    cases hl
  | dialFailed uri => exact hloud nofun ⟨nofun, trivial⟩ nofun rfl

/-- The own number is refused. -/
theorem Tallies.refuse (h : Tallies .idle ns u written due) (reason : Str) :
    Tallies .idle (ns ++ [.onCallFailed reason]) u written due :=
  h.tell (.of_eq (List.append_nil due).symm) ⟨nofun, trivial⟩ nofun rfl

end

end SimplePhone.App
