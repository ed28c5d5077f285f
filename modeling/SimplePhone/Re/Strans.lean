import SimplePhone.Re.Ctrans

/-! A server transaction: it keeps the last response to a request, for the copies of the
request that still come in and, after an INVITE was refused, until the ACK. -/
namespace SimplePhone.Re

open Transition

inductive StransState where
  | trying
  | proceeding
  | accepted
  | completed
  | confirmed
deriving DecidableEq

inductive StransTimer where
  | tmr
  /-- of the retransmissions -/
  | tmrg
deriving DecidableEq

inductive StransOut where
  | response (scode : Nat)
  /-- `cancelh` -/
  | cancelled
  /-- the ACK goes to the transaction user -/
  | ack
deriving DecidableEq

structure Strans where
  invite : Bool
  reliable : Bool
  state : StransState
  /-- the response that was sent last -/
  mb : Option Nat
  txc : Nat
  timers : Tmrl StransTimer
deriving DecidableEq

namespace Strans

/-- `sip_strans_alloc`. -/
def alloc (invite reliable : Bool) : Strans := ⟨invite, reliable, .trying, none, 0, []⟩

abbrev Effect := Option Strans × List StransOut

/-- `sip_send` of what is kept. -/
def send (st : Strans) : List StransOut := st.mb.toList.map .response

/-- `sip_strans_reply`; `failed` is an error of `sip_send`. -/
def reply (now scode : Nat) (failed : Bool) (st : Strans) : Effect :=
  let st := { st with mb := some scode }
  if failed then (none, [])
  else if st.invite then
    if scode < 200 then (some { st with state := .proceeding }, st.send)
    else
      let timers := st.timers.start now .tmr (64 * sipT1)
      if scode < 300 then (some { st with state := .accepted, timers := timers }, st.send)
      else
        (some { st with
            state := .completed
            timers := if st.reliable then timers else timers.start now .tmrg sipT1 },
          st.send)
  else if scode < 200 then (some { st with state := .proceeding }, st.send)
  else if st.reliable then (none, st.send)
  else
    (some { st with state := .completed, timers := st.timers.start now .tmr (64 * sipT1) },
      st.send)

/-- `request_handler`, of a copy of the request. -/
def request (st : Strans) : Effect :=
  match st.state with
  | .proceeding | .completed => (some st, st.send)
  | _ => (some st, [])

/-- `ack_handler`, which finds transactions of an INVITE only. -/
def ackHandler (now : Nat) (st : Strans) : Effect :=
  if st.invite = false then (some st, [])
  else
    match st.state with
    | .accepted => (some st, [.ack])
    | .completed =>
        if st.reliable then (none, [])
        else
          (some { st with
              state := .confirmed
              timers := (st.timers.start now .tmr sipT4).cancel .tmrg },
            [])
    | _ => (some st, [])

/-- `cancel_handler`; the response to the CANCEL itself is left out. -/
def cancelHandler (st : Strans) : Effect :=
  match st.state with
  | .trying | .proceeding => (some st, [.cancelled])
  | _ => (some st, [])

def retransmitHandler (now : Nat) (st : Strans) : Effect :=
  let outs := st.send
  let st := { st with txc := st.txc + 1 }
  (some { st with
      timers := st.timers.start now .tmrg (min (sipT1 <<< st.txc) sipT2) },
    outs)

def expire (now : Nat) (st : Strans) : Option Effect :=
  match st.timers with
  | [] => none
  | t :: rest =>
      if now < t.jfs then none
      else
        let st := { st with timers := rest }
        match t.id with
        | .tmr => some (none, [])
        | .tmrg => some (st.retransmitHandler now)

/-- The transaction user has no more of it once it gave a final response. -/
def isOpen (st : Strans) : Bool :=
  match st.state with
  | .trying | .proceeding => true
  | .accepted | .completed | .confirmed => false

end Strans

/-! ### Runs -/

/-- A transaction from its request on; `outs`, `replied` and `received` are history. -/
structure Server where
  now : Nat
  st : Option Strans
  outs : List StransOut
  /-- the responses of the transaction user -/
  replied : List Nat
  /-- the copies of the request -/
  received : Nat
deriving DecidableEq

inductive ServerAction where
  | tick (d : Nat)
  | expire
  | request
  | ack
  | cancel
  | reply (scode : Nat) (failed : Bool)
deriving DecidableEq

namespace Server

def allocated (now : Nat) (invite reliable : Bool) : Server where
  now := now
  st := some (.alloc invite reliable)
  outs := []
  replied := []
  received := 0

def after (s : Server) (e : Strans.Effect) : Server :=
  { s with st := e.1, outs := s.outs ++ e.2 }

def step (s : Server) : ServerAction → Option Server
  | .tick d => some { s with now := s.now + d }
  | .expire => s.st.bind fun st => (st.expire s.now).map s.after
  | .request => s.st.map fun st => { s.after st.request with received := s.received + 1 }
  | .ack => s.st.map fun st => s.after (st.ackHandler s.now)
  | .cancel => s.st.map fun st => s.after st.cancelHandler
  | .reply scode failed =>
      s.st.bind fun st =>
        if st.isOpen then
          some { s.after (st.reply s.now scode failed) with replied := s.replied ++ [scode] }
        else none

def machine : Machine Server ServerAction where
  start s := ∃ now invite reliable, s = .allocated now invite reliable
  step := step

end Server

/-! ### The responses that go out -/

def StransOut.scode : StransOut → Option Nat
  | .response scode => some scode
  | _ => none

def responses (outs : List StransOut) : List Nat := outs.filterMap StransOut.scode

theorem responses_append (l m : List StransOut) : responses (l ++ m) = responses l ++ responses m :=
  List.filterMap_append

namespace Strans

theorem responses_send (st : Strans) : responses st.send = st.mb.toList := by
  unfold send
  cases st.mb <;> rfl

/-- What the transaction keeps of the responses its user gave so far. -/
structure Kept (replied : List Nat) (st : Strans) : Prop where
  proper : st.timers.Proper
  mb : st.mb = replied.getLast?
  early : st.isOpen = true → (∀ r ∈ replied, r < 200) ∧ st.timers = [] ∧ st.txc = 0
  pace : ∀ t ∈ st.timers, t.id = .tmrg → ∃ b, ⟨StransTimer.tmr, b + 64 * sipT1⟩ ∈ st.timers ∧
    b + due (backoff sipT1 sipT2) st.txc ≤ t.jfs
  bound : st.txc ≤ 10

theorem kept_alloc (invite reliable : Bool) : Kept [] (alloc invite reliable) :=
  ⟨.nil, rfl, fun _ => ⟨nofun, rfl, rfl⟩, nofun, Nat.zero_le 10⟩

/-- The handlers that only drop or exchange timers. -/
theorem Kept.confirm {replied : List Nat} {st : Strans} (h : Kept replied st) (now : Nat) :
    Kept replied { st with
      state := .confirmed
      timers := (st.timers.start now .tmr sipT4).cancel .tmrg } := by
  have hstart := h.proper.start now .tmr sipT4
  refine ⟨hstart.cancel .tmrg, h.mb, nofun, fun t ht hid => ?_, h.bound⟩
  exact absurd hid ((Tmrl.mem_cancel hstart).mp ht).2

theorem Kept.again {replied : List Nat} {st : Strans} (h : Kept replied st) {now : Nat}
    {t : Tmr StransTimer} {rest : Tmrl StransTimer} (htimers : st.timers = t :: rest)
    (hid : t.id = .tmrg) (hdue : t.jfs ≤ now) :
    Kept replied { st with
      txc := st.txc + 1
      timers := Tmrl.start now .tmrg (min (sipT1 <<< (st.txc + 1)) sipT2) rest } := by
  obtain ⟨hproper, hmb, hearly, hpace, hbound⟩ := h
  rw [htimers] at hproper hpace
  obtain ⟨b, htmr, hdelay⟩ := hpace t List.mem_cons_self hid
  have hhead : t.jfs ≤ b + 64 * sipT1 := hproper.head_le htmr
  have hcount : st.txc < 10 :=
    lt_of_due_le (show due (backoff sipT1 sipT2) st.txc ≤ 64 * sipT1 by omega) (by decide)
  refine ⟨hproper.tail.start now .tmrg _, hmb, fun hopen => ?_, fun u hu hid' => ⟨b, ?_, ?_⟩,
    hcount⟩
  · have hnil := (hearly hopen).2.1
    rw [htimers] at hnil
    cases hnil
  · refine (Tmrl.mem_start hproper.tail).mpr (.inr ⟨?_, nofun⟩)
    rcases List.mem_cons.mp htmr with rfl | hmem
    · cases hid
    · exact hmem
  · rcases (Tmrl.mem_start hproper.tail).mp hu with rfl | ⟨-, hne⟩
    · change b + (due (backoff sipT1 sipT2) st.txc + backoff sipT1 sipT2 (st.txc + 1)) ≤
        now + backoff sipT1 sipT2 (st.txc + 1)
      omega
    · exact absurd hid' hne

/-- What a response of the transaction user can do. -/
inductive Replied (now scode : Nat) (st : Strans) : Effect → Prop where
  | failed : Replied now scode st (none, [])
  | early (hscode : scode < 200) :
      Replied now scode st
        (some { st with mb := some scode, state := .proceeding }, [.response scode])
  | last (hscode : 200 ≤ scode) : Replied now scode st (none, [.response scode])
  | final (state timers) (hscode : 200 ≤ scode) (hstate : { st with state := state }.isOpen = false)
      (htimers : timers = st.timers.start now .tmr (64 * sipT1) ∨
        timers = (st.timers.start now .tmr (64 * sipT1)).start now .tmrg sipT1) :
      Replied now scode st
        (some { st with mb := some scode, state := state, timers := timers }, [.response scode])

theorem replied_reply (now scode : Nat) (failed : Bool) (st : Strans) :
    Replied now scode st (st.reply now scode failed) := by
  unfold reply
  simp only
  split
  · exact .failed
  split
  · split
    · exact .early (by assumption)
    rename_i hscode
    split
    · exact .final .accepted _ (Nat.le_of_not_lt hscode) rfl (.inl rfl)
    · refine .final .completed _ (Nat.le_of_not_lt hscode) rfl ?_
      split
      · exact .inl rfl
      · exact .inr rfl
  split
  · exact .early (by assumption)
  rename_i hscode
  split
  · exact .last (Nat.le_of_not_lt hscode)
  · exact .final .completed _ (Nat.le_of_not_lt hscode) rfl (.inl rfl)

/-- The first final response sets the timers. -/
theorem Kept.reply {replied : List Nat} {st st' : Strans} {now scode : Nat}
    {outs : List StransOut} (h : Kept replied st) (hopen : st.isOpen = true)
    (hreply : Replied now scode st (some st', outs)) : Kept (replied ++ [scode]) st' := by
  obtain ⟨hproper, hmb, hearly, hpace, hbound⟩ := h
  obtain ⟨hreplied, hnil, htxc⟩ := hearly hopen
  have hlast : some scode = (replied ++ [scode]).getLast? := List.getLast?_concat.symm
  cases hreply with
  | early hscode =>
    refine ⟨hproper, hlast, fun _ => ⟨fun r hr => ?_, hnil, htxc⟩, hpace, hbound⟩
    rcases List.mem_append.mp hr with hr | hr
    · exact hreplied r hr
    · rw [List.mem_singleton.mp hr]
      exact hscode
  | final state timers hscode hstate htimers =>
    rw [hnil] at htimers
    have hfirst : (Tmrl.start now StransTimer.tmr (64 * sipT1) []).Proper :=
      Tmrl.Proper.start .nil now StransTimer.tmr (64 * sipT1)
    have hnot : { st with mb := some scode, state := state, timers := timers }.isOpen = true →
        False := fun ho => Bool.false_ne_true (hstate.symm.trans ho)
    have hproper' : timers.Proper := by
      rcases htimers with hone | htwo
      · rw [hone]
        exact hfirst
      · rw [htwo]
        exact hfirst.start now .tmrg sipT1
    refine ⟨hproper', hlast, fun ho => (hnot ho).elim, fun t ht hid => ⟨now, ?_⟩, hbound⟩
    have ht : t ∈ timers := ht
    change ⟨StransTimer.tmr, now + 64 * sipT1⟩ ∈ timers ∧
      now + due (backoff sipT1 sipT2) st.txc ≤ t.jfs
    rcases htimers with hone | htwo
    · rw [hone, Tmrl.mem_start_nil] at ht
      rw [ht] at hid
      cases hid
    · rw [htwo, Tmrl.mem_start hfirst] at ht ⊢
      refine ⟨.inr ⟨Tmrl.mem_start_nil.mpr rfl, nofun⟩, ?_⟩
      rcases ht with rfl | ⟨-, hne⟩
      · rw [htxc]
        exact Nat.le_refl _
      · exact absurd hid hne

theorem expire_eq_some {now : Nat} {st : Strans} {e : Effect} (h : st.expire now = some e) :
    ∃ t rest, st.timers = t :: rest ∧ t.jfs ≤ now ∧
      (t.id = .tmr ∧ e = (none, []) ∨
        t.id = .tmrg ∧ e = (some { st with
          txc := st.txc + 1
          timers := Tmrl.start now .tmrg (min (sipT1 <<< (st.txc + 1)) sipT2) rest },
          st.send)) := by
  unfold expire at h
  split at h
  · cases h
  rename_i t rest htimers
  split at h
  · cases h
  rename_i hdue
  refine ⟨t, rest, htimers, Nat.le_of_not_lt hdue, ?_⟩
  cases hid : t.id with
  | tmr =>
    rw [hid] at h
    exact .inl ⟨rfl, (Option.some.inj h).symm⟩
  | tmrg =>
    rw [hid] at h
    exact .inr ⟨rfl, (Option.some.inj h).symm⟩

end Strans

namespace Server

/-- Only responses of the transaction user go out, and no more of them than it gave, than
copies of the request came in, and than the timer asks for. -/
structure Faithful (s : Server) : Prop where
  kept : ∀ st ∈ s.st, st.Kept s.replied
  ordered : ∀ r ∈ s.replied.dropLast, r < 200
  sent : ∀ r ∈ responses s.outs, r ∈ s.replied
  count : (responses s.outs).length ≤
    s.replied.length + s.received + (s.st.elim 10 fun st => st.txc)

theorem faithful_allocated (now : Nat) (invite reliable : Bool) :
    Faithful (allocated now invite reliable) := by
  refine ⟨?_, nofun, nofun, Nat.zero_le _⟩
  rintro _ ⟨⟩
  exact Strans.kept_alloc invite reliable

/-- A step that sends nothing. -/
theorem Faithful.quiet {s : Server} (h : Faithful s) {st' : Option Strans}
    {outs : List StransOut} {received : Nat} (houts : responses outs = [])
    (hreceived : s.received ≤ received) (hkept : ∀ st ∈ st', st.Kept s.replied)
    (htxc : (s.st.elim 10 fun st => st.txc) ≤ st'.elim 10 fun st => st.txc) :
    Faithful { s.after (st', outs) with received := received } := by
  have hsame : responses (s.outs ++ outs) = responses s.outs := by
    rw [responses_append, houts, List.append_nil]
  refine ⟨hkept, h.ordered, ?_, ?_⟩
  · change ∀ r ∈ responses (s.outs ++ outs), r ∈ s.replied
    rw [hsame]
    exact h.sent
  · have hcount := h.count
    change (responses (s.outs ++ outs)).length ≤ s.replied.length + received + _
    rw [hsame]
    simp only [after]
    omega

/-- What is kept goes out once more, for a reason that is counted. -/
theorem Faithful.resend {s : Server} (h : Faithful s) {st st' : Strans} {received : Nat}
    (hst : s.st = some st) (hkept : st'.Kept s.replied)
    (hcount : s.received + st.txc + 1 ≤ received + st'.txc) :
    Faithful { s.after (some st', st.send) with received := received } := by
  have hmb := (h.kept st hst).mb
  refine ⟨?_, h.ordered, ?_, ?_⟩
  · rintro _ ⟨⟩
    exact hkept
  · intro r hr
    change r ∈ responses (s.outs ++ st.send) at hr
    rw [responses_append, Strans.responses_send, hmb] at hr
    rcases List.mem_append.mp hr with hr | hr
    · exact h.sent r hr
    · exact List.mem_of_getLast? (Option.mem_toList.mp hr)
  · have hlength := h.count
    change (responses (s.outs ++ st.send)).length ≤ s.replied.length + received + st'.txc
    rw [responses_append, Strans.responses_send, List.length_append]
    have hone : st.mb.toList.length ≤ 1 := by cases st.mb <;> simp
    rw [hst] at hlength
    simp only [Option.elim_some] at hlength
    omega

theorem Faithful.txc_le {s : Server} (h : Faithful s) {st : Strans} (hst : s.st = some st) :
    (s.st.elim 10 fun st => st.txc) ≤ 10 := by
  rw [hst]
  exact (h.kept st hst).bound

theorem Faithful.stay {s : Server} (h : Faithful s) {st : Strans} (hst : s.st = some st)
    {outs : List StransOut} {received : Nat} (houts : responses outs = [])
    (hreceived : s.received ≤ received) :
    Faithful { s.after (some st, outs) with received := received } := by
  refine h.quiet houts hreceived ?_ ?_
  · rintro _ ⟨⟩
    exact h.kept st hst
  · apply Nat.le_of_eq
    rw [hst]

theorem Faithful.reply {s : Server} (h : Faithful s) {st : Strans} (hst : s.st = some st)
    (hopen : st.isOpen = true) {scode : Nat} {e : Strans.Effect}
    (hreply : Strans.Replied s.now scode st e) :
    Faithful { s.after e with replied := s.replied ++ [scode] } := by
  have hkept := h.kept st hst
  obtain ⟨hearly, -, htxc⟩ := hkept.early hopen
  have houts : ∀ r ∈ responses e.2, r = scode := by
    intro r hr
    cases hreply with
    | failed => cases hr
    | early _ | last _ | final _ _ _ _ _ => exact List.mem_singleton.mp hr
  have hlength : (responses e.2).length ≤ 1 := by
    cases hreply with
    | failed => exact Nat.zero_le 1
    | early _ | last _ | final _ _ _ _ _ => exact Nat.le_refl 1
  refine ⟨?_, ?_, ?_, ?_⟩
  · rintro st' hst'
    obtain ⟨_, outs⟩ := e
    cases hst'
    exact hkept.reply hopen hreply
  · change ∀ r ∈ (s.replied ++ [scode]).dropLast, r < 200
    rw [List.dropLast_concat]
    exact hearly
  · intro r hr
    change r ∈ responses (s.outs ++ e.2) at hr
    rw [responses_append] at hr
    rcases List.mem_append.mp hr with hr | hr
    · exact List.mem_append_left _ (h.sent r hr)
    · rw [houts r hr]
      exact List.mem_append_right _ List.mem_cons_self
  · have hcount := h.count
    rw [hst, Option.elim_some, htxc] at hcount
    change (responses (s.outs ++ e.2)).length ≤ (s.replied ++ [scode]).length + s.received + _
    rw [responses_append, List.length_append, List.length_append, List.length_singleton]
    omega

theorem Faithful.step {s t : Server} {a : ServerAction} (h : Faithful s)
    (hstep : s.step a = some t) : Faithful t := by
  cases a with
  | tick d =>
    cases hstep
    exact ⟨h.kept, h.ordered, h.sent, h.count⟩
  | expire =>
    obtain ⟨st, hst, hexpire⟩ := Option.bind_eq_some_iff.mp hstep
    obtain ⟨e, he, rfl⟩ := Option.map_eq_some_iff.mp hexpire
    obtain ⟨u, rest, htimers, hdue, ⟨-, rfl⟩ | ⟨hid, rfl⟩⟩ := Strans.expire_eq_some he
    · exact h.quiet rfl (Nat.le_refl _) nofun (h.txc_le hst)
    · exact h.resend hst ((h.kept st hst).again htimers hid hdue) (Nat.le_refl _)
  | request =>
    obtain ⟨st, hst, rfl⟩ := Option.map_eq_some_iff.mp hstep
    unfold Strans.request
    split
    · exact h.resend hst (h.kept st hst) (Nat.le_of_eq (Nat.add_right_comm _ _ _))
    · exact h.resend hst (h.kept st hst) (Nat.le_of_eq (Nat.add_right_comm _ _ _))
    · exact h.stay hst rfl (Nat.le_succ _)
  | ack =>
    obtain ⟨st, hst, rfl⟩ := Option.map_eq_some_iff.mp hstep
    unfold Strans.ackHandler
    split
    · exact h.stay hst rfl (Nat.le_refl _)
    split
    · exact h.stay hst rfl (Nat.le_refl _)
    · split
      · exact h.quiet rfl (Nat.le_refl _) nofun (h.txc_le hst)
      · refine h.quiet rfl (Nat.le_refl _) ?_ ?_
        · rintro _ ⟨⟩
          exact (h.kept st hst).confirm s.now
        · rw [hst]
          exact Nat.le_refl _
    · exact h.stay hst rfl (Nat.le_refl _)
  | cancel =>
    obtain ⟨st, hst, rfl⟩ := Option.map_eq_some_iff.mp hstep
    unfold Strans.cancelHandler
    split
    all_goals exact h.stay hst rfl (Nat.le_refl _)
  | reply scode failed =>
    obtain ⟨st, hst, hreply⟩ := Option.bind_eq_some_iff.mp hstep
    split at hreply
    · rename_i hopen
      cases hreply
      exact h.reply hst hopen (Strans.replied_reply s.now scode failed st)
    · cases hreply

theorem faithful_of_reachable {s : Server} (h : machine.Reachable s) : Faithful s := by
  apply h.invariant
  · rintro _ ⟨now, invite, reliable, rfl⟩
    exact faithful_allocated now invite reliable
  · intro s a t hs hstep
    exact hs.step hstep

/-- In every run each response that goes out is one the user gave, all the final ones are the
same, and there are at most ten more of them than the user gave and copies of the request
came in. -/
theorem one_final_response {s : Server} (h : machine.Reachable s) :
    (∀ r ∈ responses s.outs, r ∈ s.replied) ∧
      (∀ r ∈ responses s.outs, ∀ r' ∈ responses s.outs, 200 ≤ r → 200 ≤ r' → r = r') ∧
      (responses s.outs).length ≤ s.replied.length + s.received + 10 := by
  have hfaithful := faithful_of_reachable h
  have hlast : ∀ r ∈ responses s.outs, 200 ≤ r → s.replied.getLast? = some r := by
    intro r hr hfinal
    have hmem := hfaithful.sent r hr
    obtain hnil | ⟨rs, f, hreplied⟩ := List.eq_nil_or_concat' s.replied
    · rw [hnil] at hmem
      cases hmem
    have hordered := hfaithful.ordered
    rw [hreplied, List.dropLast_concat] at hordered
    rw [hreplied] at hmem ⊢
    rw [List.getLast?_concat]
    rcases List.mem_append.mp hmem with hmem | hmem
    · exact absurd (hordered r hmem) (Nat.not_lt_of_le hfinal)
    · rw [List.mem_singleton.mp hmem]
  refine ⟨hfaithful.sent, fun r hr r' hr' hfinal hfinal' => ?_, ?_⟩
  · exact Option.some.inj ((hlast r hr hfinal).symm.trans (hlast r' hr' hfinal'))
  · have hcount := hfaithful.count
    have htxc : (s.st.elim 10 fun st => st.txc) ≤ 10 := by
      cases hst : s.st with
      | none => exact Nat.le_refl 10
      | some st => exact (hfaithful.kept st hst).bound
    omega

theorem one_final_response_refused : ∃ s : Server,
    responses s.outs = [180, 486, 486, 486] ∧ (responses s.outs).length ≤ 14 := by
  let as : List ServerAction := [.reply 180 false, .tick 3000, .reply 486 false, .request,
    .tick 500, .expire, .ack, .tick 5000, .request]
  let st : Strans := ⟨true, false, .confirmed, some 486, 1, [⟨.tmr, 8500⟩]⟩
  let s : Server := ⟨8500, some st, [.response 180, .response 486, .response 486, .response 486],
    [180, 486], 2⟩
  have hrun : machine.run (allocated 0 true false) as = some s := by decide +kernel
  exact ⟨s, rfl, (one_final_response ⟨_, as, ⟨0, true, false, rfl⟩, hrun⟩).2.2⟩

end Server

end SimplePhone.Re
