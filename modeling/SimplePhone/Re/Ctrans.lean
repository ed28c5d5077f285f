import SimplePhone.Re.Tmr
import SimplePhone.Transition.Backoff

/-! A client transaction: one request, sent again until it is answered or given up. -/
namespace SimplePhone.Re

open Transition

def sipT1 : Nat := 500

def sipT2 : Nat := 4000

def sipT4 : Nat := 5000

def completeWait : Nat := 32000

inductive CtransState where
  | trying
  | calling
  | proceeding
  | completed
deriving DecidableEq

inductive CtransTimer where
  | tmr
  /-- of the retransmissions -/
  | tmre
deriving DecidableEq

/-- What the transaction user is told; an error other than `ETIMEDOUT` by its number. -/
inductive Result where
  | response (scode : Nat)
  | etimedout
  | error (err : Nat)
deriving DecidableEq

def Result.provisional : Result → Bool
  | .response scode => scode < 200
  | _ => false

inductive CtransOut where
  | request
  | ack
  | cancel
  | resph (r : Result)
deriving DecidableEq

structure Ctrans where
  invite : Bool
  /-- `sip_transp_reliable` of the transport -/
  reliable : Bool
  state : CtransState
  txc : Nat
  timers : Tmrl CtransTimer
deriving DecidableEq

namespace Ctrans

/-- `sip_ctrans_request`, when the transport took the request. -/
def request (now : Nat) (invite reliable : Bool) : Ctrans :=
  let timers := Tmrl.start now .tmr (64 * sipT1) []
  { invite := invite
    reliable := reliable
    state := if invite then .calling else .trying
    txc := 0
    timers := if reliable then timers else timers.start now .tmre sipT1 }

/-- The handlers free the transaction, or leave it; both with what they send and report. -/
abbrev Effect := Option Ctrans × List CtransOut

def terminate (r : Result) (ct : Ctrans) : List CtransOut :=
  match ct.state with
  | .trying | .calling | .proceeding => [.resph r]
  | .completed => []

def transportHandler (err : Nat) (ct : Ctrans) : Effect := (none, ct.terminate (.error err))

def tmrHandler (ct : Ctrans) : Effect := (none, ct.terminate .etimedout)

/-- `none` where nothing is sent again. -/
def timeout (ct : Ctrans) : Option Nat :=
  match ct.state with
  | .trying => some (min (sipT1 <<< ct.txc) sipT2)
  | .calling => some (sipT1 <<< ct.txc)
  | .proceeding => some sipT2
  | .completed => none

/-- `failed` is the error of `sip_transp_send`. -/
def retransmitHandler (now : Nat) (failed : Option Nat) (ct : Ctrans) : Effect :=
  let ct := { ct with txc := ct.txc + 1 }
  match ct.timeout with
  | none => (some ct, [])
  | some timeout =>
      let ct := { ct with timers := ct.timers.start now .tmre timeout }
      match failed with
      | none => (some ct, [.request])
      | some err => (none, ct.terminate (.error err))

def inviteResponse (now scode : Nat) (ct : Ctrans) : Effect :=
  let ct :=
    if ct.state = .calling then { ct with timers := (ct.timers.cancel .tmr).cancel .tmre } else ct
  match ct.state with
  | .calling | .proceeding =>
      if scode < 200 then
        (some { ct with state := .proceeding }, [.resph (.response scode)])
      else if scode < 300 then (none, [.resph (.response scode)])
      else if ct.reliable then (none, [.ack, .resph (.response scode)])
      else
        (some { ct with
            state := .completed
            timers := ct.timers.start now .tmr completeWait },
          [.ack, .resph (.response scode)])
  | .completed => if scode < 300 then (some ct, []) else (some ct, [.ack])
  | .trying => (some ct, [])

/-- `response_handler`, of a response that matches. -/
def response (now scode : Nat) (ct : Ctrans) : Effect :=
  if ct.invite then ct.inviteResponse now scode
  else
    match ct.state with
    | .trying | .proceeding =>
        if scode < 200 then
          (some { ct with state := .proceeding }, [.resph (.response scode)])
        else if ct.reliable then (none, [.resph (.response scode)])
        else
          (some { ct with
              state := .completed
              timers := (ct.timers.start now .tmr sipT4).cancel .tmre },
            [.resph (.response scode)])
    | _ => (some ct, [])

/-- `sip_ctrans_cancel`; `sent` tells whether the CANCEL went out. -/
def cancel (now : Nat) (sent : Bool) (ct : Ctrans) : Effect :=
  if ct.invite = true ∧ ct.state = .proceeding then
    (some { ct with timers := ct.timers.start now .tmr (64 * sipT1) },
      if sent then [.cancel] else [])
  else (some ct, [])

/-- The head of the list, when it is due: `tmr_poll` calls its handler. -/
def expire (now : Nat) (failed : Option Nat) (ct : Ctrans) : Option Effect :=
  match ct.timers with
  | [] => none
  | t :: rest =>
      if now < t.jfs then none
      else
        let ct := { ct with timers := rest }
        match t.id with
        | .tmr => some ct.tmrHandler
        | .tmre => some (ct.retransmitHandler now failed)

end Ctrans

/-! ### What a handler can do -/

def CtransOut.result : CtransOut → Option Result
  | .resph r => some r
  | _ => none

def results (outs : List CtransOut) : List Result := outs.filterMap CtransOut.result

theorem results_append (l m : List CtransOut) : results (l ++ m) = results l ++ results m :=
  List.filterMap_append

namespace Ctrans

/-- No final result was reported yet. -/
def isOpen (ct : Ctrans) : Bool := ct.state ≠ .completed

/-- What can become of a transaction at the time `now`. -/
inductive Moved (now : Nat) (ct : Ctrans) : Effect → Prop where
  | idle (outs) (hresults : results outs = []) (hrequests : outs.count .request = 0) :
      Moved now ct (some ct, outs)
  | rearm (outs) (hresults : results outs = []) (hrequests : outs.count .request = 0)
      (hinvite : ct.invite = true) (hstate : ct.state = .proceeding) :
      Moved now ct (some { ct with timers := ct.timers.start now .tmr (64 * sipT1) }, outs)
  | provisional (scode) (hscode : scode < 200) (hopen : ct.isOpen = true) :
      Moved now ct
        (some { ct with
            state := .proceeding
            timers :=
              if ct.state = .calling then (ct.timers.cancel .tmr).cancel .tmre else ct.timers },
          [.resph (.response scode)])
  | again (t rest timeout) (htimers : ct.timers = t :: rest) (hid : t.id = .tmre)
      (hdue : t.jfs ≤ now) (hopen : ct.isOpen = true)
      (htimeout : { ct with txc := ct.txc + 1 }.timeout = some timeout) :
      Moved now ct
        (some { ct with txc := ct.txc + 1, timers := Tmrl.start now .tmre timeout rest },
          [.request])
  | lapse (t rest) (htimers : ct.timers = t :: rest) (hid : t.id = .tmre)
      (hopen : ct.isOpen = false) :
      Moved now ct (some { ct with txc := ct.txc + 1, timers := rest }, [])
  | complete (scode outs timers) (hscode : 200 ≤ scode)
      (hresults : results outs = [.response scode]) (hrequests : outs.count .request = 0)
      (hopen : ct.isOpen = true)
      (htimers : timers =
        if ct.invite then
          (if ct.state = .calling then (ct.timers.cancel .tmr).cancel .tmre
            else ct.timers).start now .tmr completeWait
        else (ct.timers.start now .tmr sipT4).cancel .tmre) :
      Moved now ct (some { ct with state := .completed, timers := timers }, outs)
  | final (r outs) (hr : r.provisional = false) (hresults : results outs = [r])
      (hrequests : outs.count .request = 0) (hopen : ct.isOpen = true) : Moved now ct (none, outs)
  | gone (hopen : ct.isOpen = false) : Moved now ct (none, [])

theorem terminate_open {ct : Ctrans} (h : ct.isOpen = true) (r : Result) :
    ct.terminate r = [.resph r] := by
  unfold terminate
  cases hstate : ct.state with
  | trying | calling | proceeding => rfl
  | completed => simp [isOpen, hstate] at h

theorem terminate_closed {ct : Ctrans} (h : ct.isOpen = false) (r : Result) :
    ct.terminate r = [] := by
  have hstate : ct.state = .completed := by simpa [isOpen] using h
  unfold terminate
  rw [hstate]

theorem moved_terminate (now : Nat) (ct : Ctrans) {r : Result} (hr : r.provisional = false) :
    Moved now ct (none, ct.terminate r) := by
  cases hopen : ct.isOpen with
  | true =>
    rw [terminate_open hopen]
    exact .final r _ hr rfl rfl hopen
  | false =>
    rw [terminate_closed hopen]
    exact .gone hopen

theorem moved_expire {now : Nat} {failed : Option Nat} {ct : Ctrans} {e : Effect}
    (h : ct.expire now failed = some e) : Moved now ct e := by
  unfold expire at h
  split at h
  · cases h
  rename_i t rest htimers
  split at h
  · cases h
  rename_i hdue
  cases hid : t.id with
  | tmr =>
    rw [hid] at h
    cases h
    exact moved_terminate now ct rfl
  | tmre =>
    rw [hid] at h
    cases h
    unfold retransmitHandler
    cases htimeout : { ct with txc := ct.txc + 1 }.timeout with
    | none =>
      have hopen : ct.isOpen = false := by
        unfold timeout at htimeout
        cases hstate : ct.state <;> simp_all [isOpen]
      have hrest : { ct with timers := rest, txc := ct.txc + 1 }.timeout = none := htimeout
      simp only [hrest]
      exact .lapse t rest htimers hid hopen
    | some timeout =>
      have hopen : ct.isOpen = true := by
        unfold Ctrans.timeout at htimeout
        cases hstate : ct.state <;> simp_all [isOpen]
      have hrest : { ct with timers := rest, txc := ct.txc + 1 }.timeout = some timeout := htimeout
      simp only [hrest]
      cases failed with
      | none => exact .again t rest timeout htimers hid (Nat.le_of_not_lt hdue) hopen htimeout
      | some err => exact moved_terminate now ct (r := .error err) rfl

theorem moved_cancel (now : Nat) (sent : Bool) (ct : Ctrans) :
    Moved now ct (ct.cancel now sent) := by
  unfold cancel
  split
  · rename_i h
    cases sent with
    | true => exact .rearm _ rfl rfl h.1 h.2
    | false => exact .rearm _ rfl rfl h.1 h.2
  · exact .idle [] rfl rfl

theorem final_of_not_lt {scode : Nat} (h : ¬ scode < 200) :
    (Result.response scode).provisional = false :=
  decide_eq_false h

theorem moved_inviteResponse (now scode : Nat) {ct : Ctrans} (hinvite : ct.invite = true) :
    Moved now ct (ct.inviteResponse now scode) := by
  unfold inviteResponse
  cases hstate : ct.state with
  | trying =>
    simp only [hstate, reduceCtorEq, if_false]
    exact .idle [] rfl rfl
  | calling | proceeding =>
    have hopen : ct.isOpen = true := by simp [isOpen, hstate]
    simp only [hstate, if_true, reduceCtorEq, if_false]
    split
    · rename_i hscode
      have h : Moved now ct _ := .provisional scode hscode hopen
      simpa only [hstate, if_true, reduceCtorEq, if_false] using h
    rename_i hscode
    split
    · exact .final _ _ (final_of_not_lt hscode) rfl rfl hopen
    split
    · exact .final _ [.ack, _] (final_of_not_lt hscode) rfl rfl hopen
    · refine .complete scode _ _ (Nat.le_of_not_lt hscode) rfl rfl hopen ?_
      simp only [hinvite, hstate, if_true, reduceCtorEq, if_false]
  | completed =>
    simp only [hstate, reduceCtorEq, if_false]
    split
    · exact .idle [] rfl rfl
    · exact .idle [.ack] rfl rfl

theorem moved_response (now scode : Nat) (ct : Ctrans) :
    Moved now ct (ct.response now scode) := by
  unfold response
  split
  · exact moved_inviteResponse now scode (by assumption)
  rename_i hinvite
  cases hstate : ct.state with
  | trying | proceeding =>
    have hopen : ct.isOpen = true := by simp [isOpen, hstate]
    simp only
    split
    · rename_i hscode
      have h : Moved now ct _ := .provisional scode hscode hopen
      simpa only [hstate, reduceCtorEq, if_false] using h
    rename_i hscode
    split
    · exact .final _ _ (final_of_not_lt hscode) rfl rfl hopen
    · refine .complete scode _ _ (Nat.le_of_not_lt hscode) rfl rfl hopen ?_
      rw [if_neg hinvite]
  | calling | completed => exact .idle [] rfl rfl

end Ctrans

/-! ### Runs -/

/-- A transaction from the request on; `began`, `outs` and `dropped` are history. -/
structure Client where
  now : Nat
  ct : Option Ctrans
  began : Nat
  outs : List CtransOut
  /-- its user freed it -/
  dropped : Bool
deriving DecidableEq

inductive ClientAction where
  | tick (d : Nat)
  | expire (failed : Option Nat)
  | response (scode : Nat)
  | transport (err : Nat)
  | cancel (sent : Bool)
  | deref
deriving DecidableEq

namespace Client

def requested (now : Nat) (invite reliable : Bool) : Client where
  now := now
  ct := some (.request now invite reliable)
  began := now
  outs := [.request]
  dropped := false

def after (c : Client) (e : Ctrans.Effect) : Client :=
  { c with ct := e.1, outs := c.outs ++ e.2 }

def step (c : Client) : ClientAction → Option Client
  | .tick d => some { c with now := c.now + d }
  | .expire failed => c.ct.bind fun ct => (ct.expire c.now failed).map c.after
  | .response scode => c.ct.map fun ct => c.after (ct.response c.now scode)
  | .transport err => c.ct.map fun ct => c.after (ct.transportHandler err)
  | .cancel sent => c.ct.map fun ct => c.after (ct.cancel c.now sent)
  | .deref => c.ct.map fun _ => { c with ct := none, dropped := true }

def machine : Machine Client ClientAction where
  start c := ∃ now invite reliable, c = .requested now invite reliable
  step := step

/-! ### Where a result comes from -/

end Client

namespace Ctrans

theorem mem_terminate {ct : Ctrans} {r r' : Result} (h : r ∈ results (ct.terminate r')) :
    r = r' := by
  unfold terminate at h
  split at h
  · exact List.mem_singleton.mp h
  · exact List.mem_singleton.mp h
  · exact List.mem_singleton.mp h
  · cases h

theorem mem_expire {ct : Ctrans} {now : Nat} {failed : Option Nat} {e : Effect} {r : Result}
    (he : ct.expire now failed = some e) (h : r ∈ results e.2) :
    r = .etimedout ∨ ∃ err, r = .error err := by
  unfold expire at he
  split at he
  · cases he
  split at he
  · cases he
  split at he
  · cases he
    exact .inl (mem_terminate h)
  · cases he
    unfold retransmitHandler at h
    simp only at h
    split at h
    · cases h
    · split at h
      · cases h
      · exact .inr ⟨_, mem_terminate h⟩

theorem mem_response {ct : Ctrans} {now scode : Nat} {r : Result}
    (h : r ∈ results (ct.response now scode).2) : r = .response scode := by
  unfold response inviteResponse at h
  simp only at h
  repeat' split at h
  all_goals first | exact List.mem_singleton.mp h | cases h

end Ctrans

namespace Client

/-- What the user is told is the response that came in, or an error of this side. -/
theorem mem_results {c d : Client} {a : ClientAction} (hstep : c.step a = some d) {r : Result}
    (h : r ∈ results d.outs) : r ∈ results c.outs ∨ (∃ scode, a = .response scode ∧
      r = .response scode) ∨ r = .etimedout ∨ ∃ err, r = .error err := by
  have hafter : ∀ e : Ctrans.Effect, r ∈ results (c.after e).outs →
      r ∈ results c.outs ∨ r ∈ results e.2 := by
    intro e hr
    change r ∈ results (c.outs ++ e.2) at hr
    rw [results_append] at hr
    exact List.mem_append.mp hr
  cases a with
  | tick d =>
    cases hstep
    exact .inl h
  | expire failed =>
    obtain ⟨ct, -, hexpire⟩ := Option.bind_eq_some_iff.mp hstep
    obtain ⟨e, he, rfl⟩ := Option.map_eq_some_iff.mp hexpire
    exact (hafter e h).imp_right fun hr => .inr (Ctrans.mem_expire he hr)
  | response scode =>
    obtain ⟨ct, -, rfl⟩ := Option.map_eq_some_iff.mp hstep
    exact (hafter _ h).imp_right fun hr => .inl ⟨scode, rfl, Ctrans.mem_response hr⟩
  | transport err =>
    obtain ⟨ct, -, rfl⟩ := Option.map_eq_some_iff.mp hstep
    exact (hafter _ h).imp_right fun hr => .inr (.inr ⟨err, Ctrans.mem_terminate hr⟩)
  | cancel sent =>
    obtain ⟨ct, -, rfl⟩ := Option.map_eq_some_iff.mp hstep
    refine (hafter _ h).imp_right fun hr => ?_
    unfold Ctrans.cancel at hr
    cases sent <;> split at hr <;> cases hr
  | deref =>
    obtain ⟨ct, -, rfl⟩ := Option.map_eq_some_iff.mp hstep
    exact .inl h

/-! ### One outcome -/

def isOpen (c : Client) : Bool := c.ct.any Ctrans.isOpen

/-- Every step of the transaction itself is one of its moves. -/
inductive Stepped (c : Client) : ClientAction → Client → Prop where
  | tick (d) : Stepped c (.tick d) { c with now := c.now + d }
  | moved (a ct e) (hct : c.ct = some ct) (hmoved : Ctrans.Moved c.now ct e) :
      Stepped c a (c.after e)
  | dropped (ct) (hct : c.ct = some ct) : Stepped c .deref { c with ct := none, dropped := true }

theorem stepped {c d : Client} {a : ClientAction} (h : c.step a = some d) : Stepped c a d := by
  cases a with
  | tick d =>
    cases h
    exact .tick d
  | expire failed =>
    obtain ⟨ct, hct, h⟩ := Option.bind_eq_some_iff.mp h
    obtain ⟨e, he, rfl⟩ := Option.map_eq_some_iff.mp h
    exact .moved _ ct e hct (Ctrans.moved_expire he)
  | response scode =>
    obtain ⟨ct, hct, rfl⟩ := Option.map_eq_some_iff.mp h
    exact .moved _ ct _ hct (Ctrans.moved_response c.now scode ct)
  | transport err =>
    obtain ⟨ct, hct, rfl⟩ := Option.map_eq_some_iff.mp h
    exact .moved _ ct _ hct (Ctrans.moved_terminate c.now ct rfl)
  | cancel sent =>
    obtain ⟨ct, hct, rfl⟩ := Option.map_eq_some_iff.mp h
    exact .moved _ ct _ hct (Ctrans.moved_cancel c.now sent ct)
  | deref =>
    obtain ⟨ct, hct, rfl⟩ := Option.map_eq_some_iff.mp h
    exact .dropped ct hct

/-- Some provisional responses, and the final result once the transaction is over. -/
def Told (c : Client) : Prop :=
  ∃ ps, (∀ p ∈ ps, p.provisional = true) ∧
    (results c.outs = ps ∧ (c.isOpen = true ∨ c.dropped = true ∧ c.ct = none) ∨
      c.isOpen = false ∧ ∃ r, r.provisional = false ∧ results c.outs = ps ++ [r])

/-- As long as the transaction is open only provisional responses were reported. -/
theorem Told.of_open {c : Client} (h : Told c) (hopen : c.isOpen = true) :
    ∀ p ∈ results c.outs, p.provisional = true := by
  obtain ⟨ps, hps, ⟨hresults, -⟩ | ⟨hclosed, -⟩⟩ := h
  · rw [hresults]
    exact hps
  · rw [hopen] at hclosed
    cases hclosed

theorem Told.keep {c d : Client} (h : Told c) (hresults : results d.outs = results c.outs)
    (hopen : d.isOpen = c.isOpen) (hct : c.ct.isSome) : Told d := by
  obtain ⟨ps, hps, ⟨hlist, hwhy⟩ | ⟨hclosed, r, hr, hlist⟩⟩ := h
  · refine ⟨ps, hps, .inl ⟨hresults.trans hlist, ?_⟩⟩
    rcases hwhy with hc | ⟨-, hnone⟩
    · exact .inl (hopen.trans hc)
    · simp [hnone] at hct
  · exact ⟨ps, hps, .inr ⟨hopen.trans hclosed, r, hr, hresults.trans hlist⟩⟩

/-- The final result ends the reports. -/
theorem Told.close {c d : Client} (h : Told c) {r : Result} (hr : r.provisional = false)
    (hopen : c.isOpen = true) (hclosed : d.isOpen = false)
    (hresults : results d.outs = results c.outs ++ [r]) : Told d :=
  ⟨results c.outs, h.of_open hopen, .inr ⟨hclosed, r, hr, hresults⟩⟩

theorem results_after (c : Client) (e : Ctrans.Effect) :
    results (c.after e).outs = results c.outs ++ results e.2 :=
  results_append c.outs e.2

theorem Told.step {c d : Client} {a : ClientAction} (h : Told c) (hstep : Stepped c a d) :
    Told d := by
  cases hstep with
  | tick n => exact h
  | dropped ct hct =>
    obtain ⟨ps, hps, ⟨hlist, -⟩ | ⟨hclosed, r, hr, hlist⟩⟩ := h
    · exact ⟨ps, hps, .inl ⟨hlist, .inr ⟨rfl, rfl⟩⟩⟩
    · exact ⟨ps, hps, .inr ⟨rfl, r, hr, hlist⟩⟩
  | moved _ ct e hct hmoved =>
    have hsome : c.ct.isSome := by rw [hct]; rfl
    have hopen_iff : c.isOpen = ct.isOpen := by simp [isOpen, hct]
    cases hmoved with
    | idle outs hresults hrequests | rearm outs hresults hrequests =>
      refine h.keep ?_ hopen_iff.symm hsome
      rw [results_after, hresults, List.append_nil]
    | lapse t rest htimers hid hopen =>
      refine h.keep ?_ ?_ hsome
      · exact (results_after c _).trans (List.append_nil _)
      · exact hopen_iff.symm
    | again t rest timeout htimers hid hdue hopen htimeout =>
      refine h.keep ?_ ?_ hsome
      · exact (results_after c _).trans (List.append_nil _)
      · exact hopen_iff.symm
    | provisional scode hscode hopen =>
      refine ⟨results c.outs ++ [.response scode], ?_, .inl ⟨results_after c _, .inl rfl⟩⟩
      intro p hp
      rcases List.mem_append.mp hp with hp | hp
      · exact h.of_open (hopen_iff.trans hopen) p hp
      · rw [List.mem_singleton.mp hp]
        exact decide_eq_true hscode
    | complete scode outs timers hscode hresults hrequests hopen htimers =>
      apply h.close (Ctrans.final_of_not_lt (Nat.not_lt_of_le hscode)) (hopen_iff.trans hopen) rfl
      rw [results_after, hresults]
    | final r outs hr hresults hrequests hopen =>
      apply h.close hr (hopen_iff.trans hopen) rfl
      rw [results_after, hresults]
    | gone hopen =>
      obtain ⟨ps, hps, ⟨hlist, hwhy⟩ | ⟨hclosed, r, hr, hlist⟩⟩ := h
      · rcases hwhy with hc | ⟨-, hnone⟩
        · rw [hopen_iff, hopen] at hc
          cases hc
        · rw [hct] at hnone
          cases hnone
      · exact ⟨ps, hps, .inr ⟨rfl, r, hr, by simpa [after] using hlist⟩⟩

theorem told_of_reachable {c : Client} (h : machine.Reachable c) : Told c := by
  apply h.invariant
  · rintro _ ⟨now, invite, reliable, rfl⟩
    refine ⟨[], nofun, .inl ⟨rfl, .inl ?_⟩⟩
    cases invite <;> rfl
  · intro s a t hs hstep
    exact hs.step (stepped hstep)

/-- In every run all reports but the last are provisional, and a transaction that its user
did not drop ends with a final one. -/
theorem one_final_result {c : Client} (h : machine.Reachable c) :
    (∀ r ∈ (results c.outs).dropLast, r.provisional = true) ∧
      (c.ct = none → c.dropped = false →
        ∃ r, (results c.outs).getLast? = some r ∧ r.provisional = false) := by
  obtain ⟨ps, hps, ⟨hlist, hwhy⟩ | ⟨-, r, hr, hlist⟩⟩ := told_of_reachable h
  · rw [hlist]
    refine ⟨fun r hr => hps r ((List.dropLast_sublist ps).subset hr), fun hct hdropped => ?_⟩
    rcases hwhy with hopen | ⟨hd, -⟩
    · simp [isOpen, hct] at hopen
    · rw [hdropped] at hd
      cases hd
  · rw [hlist, List.dropLast_concat, List.getLast?_concat]
    exact ⟨hps, fun _ _ => ⟨r, rfl, hr⟩⟩

theorem one_final_result_invite : ∃ c : Client, c.outs = [.request, .resph (.response 180),
    .ack, .resph (.response 486)] ∧ ∀ r ∈ (results c.outs).dropLast, r.provisional = true := by
  let as : List ClientAction := [.tick 100, .response 180, .tick 9000, .response 486]
  let ct : Ctrans := ⟨true, false, .completed, 0, [⟨.tmr, 41100⟩]⟩
  let c : Client := ⟨9100, some ct, 0, [.request, .resph (.response 180), .ack,
    .resph (.response 486)], false⟩
  have hrun : machine.run (requested 0 true false) as = some c := by decide +kernel
  exact ⟨c, rfl, (one_final_result ⟨_, as, ⟨0, true, false, rfl⟩, hrun⟩).1⟩

end Client

/-! ### How often the request is sent -/

namespace Ctrans

/-- How long retransmission `k` waits, as long as nothing was heard. -/
def delay (invite : Bool) (k : Nat) : Nat :=
  if invite then sipT1 <<< k else backoff sipT1 sipT2 k

/-- The most requests that are ever sent. -/
def limit (invite reliable : Bool) : Nat := if reliable then 1 else if invite then 7 else 11

/-- The request is still sent again, over a transport that may lose it. -/
def isSending (ct : Ctrans) : Bool :=
  match ct.state with
  | .trying | .calling => true
  | .proceeding => !ct.invite
  | .completed => false

/-- The pace of a transaction that began at `began` and sent its request `n` times. -/
structure Paced (began n : Nat) (ct : Ctrans) : Prop where
  proper : ct.timers.Proper
  calling : ct.state = .calling → ct.invite = true
  trying : ct.state = .trying → ct.invite = false
  bound : n ≤ limit ct.invite ct.reliable
  count : ct.isSending = true → n = ct.txc + 1
  deadline : ct.isSending = true → ⟨CtransTimer.tmr, began + 64 * sipT1⟩ ∈ ct.timers
  pace : ∀ t ∈ ct.timers, t.id = .tmre → ct.isSending = true ∧ ct.reliable = false ∧
    began + due (delay ct.invite) ct.txc ≤ t.jfs

theorem proper_request (now : Nat) (invite reliable : Bool) :
    (request now invite reliable).timers.Proper := by
  have hproper : (Tmrl.start now CtransTimer.tmr (64 * sipT1) []).Proper :=
    Tmrl.Proper.start .nil now CtransTimer.tmr (64 * sipT1)
  unfold request
  simp only
  split
  · exact hproper
  · exact hproper.start now .tmre sipT1

theorem mem_request {now : Nat} {invite reliable : Bool} {t : Tmr CtransTimer} :
    t ∈ (request now invite reliable).timers ↔
      t = ⟨.tmr, now + 64 * sipT1⟩ ∨ reliable = false ∧ t = ⟨.tmre, now + sipT1⟩ := by
  have hproper : (Tmrl.start now CtransTimer.tmr (64 * sipT1) []).Proper :=
    Tmrl.Proper.start .nil now CtransTimer.tmr (64 * sipT1)
  unfold request
  simp only
  split
  · rename_i hreliable
    rw [Tmrl.mem_start .nil, hreliable]
    simp
  · rename_i hreliable
    rw [Tmrl.mem_start hproper, Tmrl.mem_start .nil]
    constructor
    · rintro (rfl | ⟨rfl | ⟨hnil, -⟩, -⟩)
      · exact .inr ⟨by simpa using hreliable, rfl⟩
      · exact .inl rfl
      · cases hnil
    · rintro (rfl | ⟨-, rfl⟩)
      · exact .inr ⟨.inl rfl, nofun⟩
      · exact .inl rfl

theorem paced_request (now : Nat) (invite reliable : Bool) :
    Paced now 1 (request now invite reliable) := by
  refine ⟨proper_request now invite reliable, ?_, ?_, ?_, fun _ => rfl,
    fun _ => mem_request.mpr (.inl rfl), fun t ht hid => ?_⟩
  · cases invite <;> simp [request]
  · cases invite <;> simp [request]
  · change 1 ≤ limit invite reliable
    revert invite reliable
    decide
  · rcases mem_request.mp ht with rfl | ⟨hreliable, rfl⟩
    · cases hid
    · refine ⟨by cases invite <;> rfl, hreliable, ?_⟩
      cases invite <;> exact Nat.le_refl _

/-- The delay that is set is at least the one that is expected. -/
theorem delay_le {ct : Ctrans} {timeout : Nat} (htimeout : ct.timeout = some timeout)
    (htrying : ct.state = .trying → ct.invite = false)
    (hcalling : ct.state = .calling → ct.invite = true) (hsending : ct.isSending = true) :
    delay ct.invite ct.txc ≤ timeout := by
  unfold Ctrans.timeout at htimeout
  unfold delay
  cases hstate : ct.state with
  | trying =>
    rw [hstate] at htimeout
    cases htimeout
    rw [htrying hstate]
    exact Nat.le_refl _
  | calling =>
    rw [hstate] at htimeout
    cases htimeout
    rw [hcalling hstate]
    exact Nat.le_refl _
  | proceeding =>
    rw [hstate] at htimeout
    cases htimeout
    have hinvite : ct.invite = false := by simpa [isSending, hstate] using hsending
    rw [hinvite]
    exact backoff_le sipT1 sipT2 ct.txc
  | completed =>
    rw [hstate] at htimeout
    cases htimeout

/-- A retransmission that is due before the transaction times out is not the last one. -/
theorem count_lt_limit {invite : Bool} {k : Nat}
    (h : due (delay invite) k ≤ 64 * sipT1) : k + 2 ≤ limit invite false := by
  cases invite with
  | true =>
    have hk : k < 6 := lt_of_due_le h (by decide)
    exact Nat.add_le_add_right hk 1
  | false =>
    have hk : k < 10 := lt_of_due_le h (by decide)
    exact Nat.add_le_add_right hk 1

theorem Paced.again {began n now : Nat} {ct : Ctrans} (h : Paced began n ct)
    {t : Tmr CtransTimer} {rest : Tmrl CtransTimer} {timeout : Nat}
    (htimers : ct.timers = t :: rest) (hid : t.id = .tmre) (hdue : t.jfs ≤ now)
    (htimeout : { ct with txc := ct.txc + 1 }.timeout = some timeout) :
    Paced began (n + 1)
      { ct with txc := ct.txc + 1, timers := Tmrl.start now .tmre timeout rest } := by
  obtain ⟨hproper, hcalling, htrying, hbound, hcount, htmr, htmre⟩ := h
  rw [htimers] at hproper htmr htmre
  obtain ⟨hsending, hreliable, hpace⟩ := htmre t List.mem_cons_self hid
  have hhead : t.jfs ≤ began + 64 * sipT1 := hproper.head_le (htmr hsending)
  have hlimit : ct.txc + 2 ≤ limit ct.invite false := count_lt_limit (by omega)
  have hdelay : delay ct.invite (ct.txc + 1) ≤ timeout :=
    delay_le htimeout htrying hcalling hsending
  refine ⟨hproper.tail.start now .tmre timeout, hcalling, htrying, ?_, fun hs => ?_,
    fun hs => ?_, fun u hu hid' => ⟨hsending, hreliable, ?_⟩⟩
  · rw [hcount hsending]
    exact hreliable ▸ hlimit
  · rw [hcount hs]
  · refine (Tmrl.mem_start hproper.tail).mpr (.inr ⟨?_, nofun⟩)
    rcases List.mem_cons.mp (htmr hs) with he | hmem
    · rw [← he] at hid
      cases hid
    · exact hmem
  · rcases (Tmrl.mem_start hproper.tail).mp hu with rfl | ⟨-, hne⟩
    · change began + (due (delay ct.invite) ct.txc + delay ct.invite (ct.txc + 1)) ≤ now + timeout
      omega
    · exact absurd hid' hne

/-- A transaction that is no longer sending has no timer for it. -/
theorem Paced.stop {began n : Nat} {ct : Ctrans} (h : Paced began n ct) {state : CtransState}
    {txc : Nat} {timers : Tmrl CtransTimer} (hproper : timers.Proper)
    (hstate : { ct with state := state }.isSending = false)
    (hsilent : ∀ t ∈ timers, t.id ≠ .tmre) :
    Paced began n { ct with state := state, txc := txc, timers := timers } := by
  have hnot : ¬ { ct with state := state, txc := txc, timers := timers }.isSending = true :=
    fun hs => Bool.false_ne_true (hstate.symm.trans hs)
  refine ⟨hproper, ?_, ?_, h.bound, fun hs => absurd hs hnot, fun hs => absurd hs hnot,
    fun t ht hid => absurd hid (hsilent t ht)⟩
  · rintro rfl
    cases hstate
  · rintro rfl
    cases hstate

theorem Paced.silent {began n : Nat} {ct : Ctrans} (h : Paced began n ct)
    (hstate : ct.isSending = false) : ∀ t ∈ ct.timers, t.id ≠ .tmre := by
  intro t ht hid
  rw [(h.pace t ht hid).1] at hstate
  cases hstate

theorem sending_closed {ct : Ctrans} (h : ct.isOpen = false) : ct.isSending = false := by
  have hstate : ct.state = .completed := by simpa [isOpen] using h
  unfold isSending
  rw [hstate]

theorem sending_of_open {ct : Ctrans} (h : ct.isOpen = true) (hinvite : ct.invite = false) :
    ct.isSending = true := by
  cases hstate : ct.state with
  | trying | calling | proceeding => simp [isSending, hstate, hinvite]
  | completed => simp [isOpen, hstate] at h

/-- Only an INVITE that is being worked on waits without sending. -/
theorem proceeding_of_silent {ct : Ctrans} (h : ct.isOpen = true) (hidle : ct.isSending = false) :
    ct.state = .proceeding ∧ ct.invite = true := by
  cases hstate : ct.state with
  | trying | calling => simp [isSending, hstate] at hidle
  | proceeding => exact ⟨rfl, by simpa [isSending, hstate] using hidle⟩
  | completed => simp [isOpen, hstate] at h

theorem mem_quiet {l : Tmrl CtransTimer} (h : l.Proper) {t : Tmr CtransTimer}
    (ht : t ∈ (l.cancel .tmr).cancel .tmre) : t.id ≠ .tmre :=
  ((Tmrl.mem_cancel (h.cancel .tmr)).mp ht).2

/-- The pace is kept by every move that leaves a transaction. -/
theorem Paced.moved {began n now : Nat} {ct ct' : Ctrans} {outs : List CtransOut}
    (h : Paced began n ct) (hmoved : Moved now ct (some ct', outs)) :
    Paced began (n + outs.count .request) ct' := by
  cases hmoved with
  | idle _ hresults hrequests =>
    rw [hrequests]
    exact h
  | rearm _ hresults hrequests hinvite hstate =>
    rw [hrequests]
    have hsilent : ct.isSending = false := by simp [isSending, hstate, hinvite]
    refine h.stop (h.proper.start now .tmr _) hsilent fun t ht => ?_
    rcases (Tmrl.mem_start h.proper).mp ht with rfl | ⟨ht, -⟩
    · exact nofun
    · exact h.silent hsilent t ht
  | provisional scode hscode hopen =>
    change Paced began n _
    by_cases hcalling : ct.state = .calling
    · simp only [if_pos hcalling]
      refine h.stop ((h.proper.cancel .tmr).cancel .tmre) ?_ fun t ht => ?_
      · simp [isSending, h.calling hcalling]
      · exact mem_quiet h.proper ht
    · simp only [if_neg hcalling]
      have hsame : { ct with state := .proceeding }.isSending = ct.isSending := by
        cases hstate : ct.state with
        | trying => simp [isSending, hstate, h.trying hstate]
        | calling => exact absurd hstate hcalling
        | proceeding => simp [isSending, hstate]
        | completed => simp [isOpen, hstate] at hopen
      refine ⟨h.proper, nofun, nofun, h.bound, fun hs => ?_, fun hs => ?_, fun t ht hid => ?_⟩
      · exact h.count (hsame.symm.trans hs)
      · exact h.deadline (hsame.symm.trans hs)
      · obtain ⟨hs, hpace⟩ := h.pace t ht hid
        exact ⟨hsame.trans hs, hpace⟩
  | again t rest timeout htimers hid hdue hopen htimeout =>
    exact h.again htimers hid hdue htimeout
  | lapse t rest htimers hid hopen =>
    change Paced began n _
    have hclosed : ct.isSending = false := sending_closed hopen
    have hproper := h.proper
    rw [htimers] at hproper
    refine h.stop hproper.tail hclosed fun u hu => ?_
    exact h.silent hclosed u (htimers ▸ List.mem_cons_of_mem t hu)
  | complete scode _ timers hscode hresults hrequests hopen htimers =>
    rw [hrequests]
    subst htimers
    by_cases hinvite : ct.invite = true
    · simp only [if_pos hinvite]
      have hquiet : (if ct.state = .calling then (ct.timers.cancel .tmr).cancel .tmre
          else ct.timers).Proper ∧ ∀ t ∈ (if ct.state = .calling then
            (ct.timers.cancel .tmr).cancel .tmre else ct.timers), t.id ≠ .tmre := by
        split
        · exact ⟨(h.proper.cancel .tmr).cancel .tmre, fun t ht => mem_quiet h.proper ht⟩
        · rename_i hcalling
          refine ⟨h.proper, h.silent ?_⟩
          cases hstate : ct.state with
          | trying => simp [h.trying hstate] at hinvite
          | calling => exact absurd hstate hcalling
          | proceeding => simp [isSending, hstate, hinvite]
          | completed => simp [isSending, hstate]
      refine h.stop (hquiet.1.start now .tmr _) rfl fun t ht => ?_
      rcases (Tmrl.mem_start hquiet.1).mp ht with rfl | ⟨ht, -⟩
      · exact nofun
      · exact hquiet.2 t ht
    · simp only [if_neg hinvite]
      have hstart := h.proper.start now .tmr sipT4
      exact h.stop (hstart.cancel .tmre) rfl
        fun t ht => ((Tmrl.mem_cancel hstart).mp ht).2

/-- The kind of a transaction is for life. -/
theorem Moved.kind {now : Nat} {ct ct' : Ctrans} {outs : List CtransOut}
    (h : Moved now ct (some ct', outs)) :
    ct'.invite = ct.invite ∧ ct'.reliable = ct.reliable := by
  cases h <;> exact ⟨rfl, rfl⟩

theorem Moved.ended {now : Nat} {ct : Ctrans} {outs : List CtransOut}
    (h : Moved now ct (none, outs)) : outs.count .request = 0 := by
  cases h with
  | final r _ hr hresults hrequests hopen => exact hrequests
  | gone hopen => rfl

end Ctrans

namespace Client

/-- The client of a transaction of this kind, with the pace it keeps. -/
structure Keeps (invite reliable : Bool) (c : Client) : Prop where
  bound : c.outs.count .request ≤ Ctrans.limit invite reliable
  paced : ∀ ct ∈ c.ct, ct.invite = invite ∧ ct.reliable = reliable ∧
    ct.Paced c.began (c.outs.count .request)

theorem keeps_requested (now : Nat) (invite reliable : Bool) :
    Keeps invite reliable (requested now invite reliable) := by
  have hpaced := Ctrans.paced_request now invite reliable
  refine ⟨hpaced.bound, ?_⟩
  rintro _ ⟨⟩
  exact ⟨rfl, rfl, hpaced⟩

theorem Keeps.step {invite reliable : Bool} {c d : Client} {a : ClientAction}
    (h : Keeps invite reliable c) (hstep : Stepped c a d) : Keeps invite reliable d := by
  cases hstep with
  | tick n => exact ⟨h.bound, h.paced⟩
  | dropped ct hct => exact ⟨h.bound, nofun⟩
  | moved _ ct e hct hmoved =>
    obtain ⟨hinvite, hreliable, hpaced⟩ := h.paced ct hct
    obtain ⟨ct', outs⟩ := e
    have hcount : (c.outs ++ outs).count .request =
        c.outs.count .request + outs.count .request := List.count_append
    cases ct' with
    | none =>
      refine ⟨?_, nofun⟩
      change (c.outs ++ outs).count .request ≤ _
      rw [hcount, hmoved.ended]
      exact h.bound
    | some ct' =>
      obtain ⟨hinvite', hreliable'⟩ := hmoved.kind
      have hpaced' := hpaced.moved hmoved
      rw [← hcount] at hpaced'
      refine ⟨?_, ?_⟩
      · have hbound := hpaced'.bound
        rw [hinvite', hreliable', hinvite, hreliable] at hbound
        exact hbound
      · rintro _ ⟨⟩
        exact ⟨hinvite'.trans hinvite, hreliable'.trans hreliable, hpaced'⟩

theorem keeps_run {now : Nat} {invite reliable : Bool} {as : List ClientAction} {c : Client}
    (hrun : machine.run (requested now invite reliable) as = some c) :
    Keeps invite reliable c :=
  Machine.run_preserves (fun _ _ _ hs hstep => hs.step (stepped hstep))
    (keeps_requested now invite reliable) hrun

/-- However late its timers are served, a request over an unreliable transport is sent at most
seven times for an INVITE and eleven times for another method; over a reliable one, once. -/
theorem requests_le {now : Nat} {invite reliable : Bool} {as : List ClientAction} {c : Client}
    (hrun : machine.run (requested now invite reliable) as = some c) :
    c.outs.count .request ≤ Ctrans.limit invite reliable :=
  (keeps_run hrun).bound

/-- Nothing is heard, and the request is sent as often as it can be. -/
theorem requests_le_eleven : ∃ c : Client, c.outs.count .request = 11 ∧
    c.outs.count .request ≤ Ctrans.limit false false := by
  let again (d : Nat) : List ClientAction := [.tick d, .expire none]
  let as := again 500 ++ again 1000 ++ again 2000 ++ (List.replicate 7 (again 4000)).flatten
  let ct : Ctrans := ⟨false, false, .trying, 10, [⟨.tmr, 32000⟩, ⟨.tmre, 35500⟩]⟩
  let c : Client := ⟨31500, some ct, 0, List.replicate 11 .request, false⟩
  have hrun : machine.run (requested 0 false false) as = some c := by decide +kernel
  exact ⟨c, by decide, requests_le hrun⟩

/-! ### When the user has its result -/

/-- The clock does not pass a timer that has not been served. -/
def Punctual (c : Client) : ClientAction → Prop
  | .tick d => ∀ ct ∈ c.ct, ∀ t ∈ ct.timers, c.now + d ≤ t.jfs
  | _ => True

instance Punctual.decidable (c : Client) (a : ClientAction) : Decidable (Punctual c a) := by
  unfold Punctual
  exact match a with
    | .tick _ => inferInstance
    | .expire _ | .response _ | .transport _ | .cancel _ | .deref => inferInstance

structure InTime (c : Client) : Prop where
  timely : ∀ ct ∈ c.ct, ∀ t ∈ ct.timers, c.now ≤ t.jfs
  heard : ∀ ct ∈ c.ct, ct.state = .proceeding → results c.outs ≠ []
  leaving : ∀ ct ∈ c.ct, ct.isOpen = false → ct.invite = false →
    ∃ t ∈ ct.timers, t.jfs ≤ c.began + 64 * sipT1 + sipT4

theorem mem_cancelled {l : Tmrl CtransTimer} (h : l.Proper) {t : Tmr CtransTimer}
    (ht : t ∈ (l.cancel .tmr).cancel .tmre) : t ∈ l :=
  ((Tmrl.mem_cancel h).mp ((Tmrl.mem_cancel (h.cancel .tmr)).mp ht).1).1

theorem timely_moved {now n began : Nat} {ct ct' : Ctrans} {outs : List CtransOut}
    (hpaced : ct.Paced began n) (h : ∀ t ∈ ct.timers, now ≤ t.jfs)
    (hmoved : Ctrans.Moved now ct (some ct', outs)) : ∀ t ∈ ct'.timers, now ≤ t.jfs := by
  have hproper := hpaced.proper
  have hquiet : ∀ t ∈ (ct.timers.cancel .tmr).cancel .tmre, now ≤ t.jfs :=
    fun t ht => h t (mem_cancelled hproper ht)
  cases hmoved with
  | idle _ hresults hrequests => exact h
  | rearm _ hresults hrequests hinvite hstate =>
    change ∀ t ∈ ct.timers.start now .tmr (64 * sipT1), now ≤ t.jfs
    exact Tmrl.not_overdue_start hproper h
  | provisional scode hscode hopen =>
    simp only
    split
    · exact hquiet
    · exact h
  | again t rest timeout htimers hid hdue hopen htimeout =>
    rw [htimers] at hproper h
    exact Tmrl.not_overdue_start hproper.tail fun u hu => h u (List.mem_cons_of_mem t hu)
  | lapse t rest htimers hid hopen =>
    rw [htimers] at h
    exact fun u hu => h u (List.mem_cons_of_mem t hu)
  | complete scode _ timers hscode hresults hrequests hopen htimers =>
    subst htimers
    simp only
    split
    · split
      · exact Tmrl.not_overdue_start ((hproper.cancel .tmr).cancel .tmre) hquiet
      · exact Tmrl.not_overdue_start hproper h
    · intro t ht
      have hstarted := (Tmrl.mem_cancel (hproper.start now .tmr sipT4)).mp ht
      exact Tmrl.not_overdue_start hproper h t hstarted.1

theorem heard_moved {now : Nat} {ct ct' : Ctrans} {outs : List CtransOut} {l : List CtransOut}
    (h : ct.state = .proceeding → results l ≠ []) (hmoved : Ctrans.Moved now ct (some ct', outs))
    (hstate : ct'.state = .proceeding) : results (l ++ outs) ≠ [] := by
  rw [results_append]
  cases hmoved with
  | idle _ _ _ | rearm _ _ _ _ _ | again _ _ _ _ _ _ _ _ | lapse _ _ _ _ _ =>
    exact List.append_ne_nil_of_left_ne_nil (h hstate) _
  | provisional scode hscode hopen => exact List.append_ne_nil_of_right_ne_nil _ nofun
  | complete _ _ _ _ _ _ _ _ => cases hstate

theorem leaving_moved {now n began : Nat} {ct ct' : Ctrans} {outs : List CtransOut}
    (hpaced : ct.Paced began n) (htimely : ∀ t ∈ ct.timers, now ≤ t.jfs)
    (h : ct.isOpen = false → ct.invite = false →
      ∃ t ∈ ct.timers, t.jfs ≤ began + 64 * sipT1 + sipT4)
    (hmoved : Ctrans.Moved now ct (some ct', outs)) (hclosed : ct'.isOpen = false)
    (hinvite : ct'.invite = false) : ∃ t ∈ ct'.timers, t.jfs ≤ began + 64 * sipT1 + sipT4 := by
  cases hmoved with
  | idle _ hresults hrequests => exact h hclosed hinvite
  | rearm _ hresults hrequests hinvite' hstate =>
    rw [hinvite'] at hinvite
    cases hinvite
  | provisional scode hscode hopen => cases hclosed
  | again t rest timeout htimers hid hdue hopen htimeout =>
    have hopen' : ct.isOpen = false := hclosed
    rw [hopen] at hopen'
    cases hopen'
  | lapse t rest htimers hid hopen =>
    have hmem : t ∈ ct.timers := htimers ▸ List.mem_cons_self
    exact absurd hid (hpaced.silent (Ctrans.sending_closed hopen) t hmem)
  | complete scode _ timers hscode hresults hrequests hopen htimers =>
    have hinvite : ct.invite = false := hinvite
    have hsending := Ctrans.sending_of_open hopen hinvite
    have hnow : now ≤ began + 64 * sipT1 := htimely _ (hpaced.deadline hsending)
    rw [if_neg (by simp [hinvite])] at htimers
    subst htimers
    refine ⟨⟨.tmr, now + sipT4⟩, ?_, Nat.add_le_add_right hnow sipT4⟩
    apply (Tmrl.mem_cancel (hpaced.proper.start now .tmr sipT4)).mpr
    exact ⟨(Tmrl.mem_start hpaced.proper).mpr (.inl rfl), nofun⟩

theorem inTime_requested (now : Nat) (invite reliable : Bool) :
    InTime (requested now invite reliable) := by
  have hpaced := Ctrans.paced_request now invite reliable
  refine ⟨?_, ?_, ?_⟩
  · rintro _ ⟨⟩ t ht
    rcases Ctrans.mem_request.mp ht with rfl | ⟨-, rfl⟩ <;> exact Nat.le_add_right now _
  · rintro _ ⟨⟩ hstate
    cases invite <;> cases hstate
  · rintro _ ⟨⟩ hclosed
    cases invite <;> cases hclosed

theorem InTime.step {invite reliable : Bool} {c d : Client} {a : ClientAction}
    (hkeeps : Keeps invite reliable c) (h : InTime c) (hpunctual : Punctual c a)
    (hstep : Stepped c a d) : InTime d := by
  cases hstep with
  | tick n => exact ⟨hpunctual, h.heard, h.leaving⟩
  | dropped ct hct => exact ⟨nofun, nofun, nofun⟩
  | moved _ ct e hct hmoved =>
    obtain ⟨-, -, hpaced⟩ := hkeeps.paced ct hct
    obtain ⟨ct', outs⟩ := e
    refine ⟨?_, ?_, ?_⟩
    · rintro _ ⟨⟩
      exact timely_moved hpaced (h.timely ct hct) hmoved
    · rintro _ ⟨⟩
      exact heard_moved (h.heard ct hct) hmoved
    · rintro _ ⟨⟩
      exact leaving_moved hpaced (h.timely ct hct) (h.leaving ct hct) hmoved

theorem inTime_run {now : Nat} {invite reliable : Bool} {as : List ClientAction} {c : Client}
    (hrun : machine.run (requested now invite reliable) as = some c)
    (hpunctual : machine.Meets Punctual (requested now invite reliable) as) :
    Keeps invite reliable c ∧ InTime c := by
  apply Machine.run_of_meets (P := fun c => Keeps invite reliable c ∧ InTime c) _ _ hpunctual hrun
  · intro s a t hs hmeets hstep
    exact ⟨hs.1.step (stepped hstep), hs.2.step hs.1 hmeets (stepped hstep)⟩
  · exact ⟨keeps_requested now invite reliable, inTime_requested now invite reliable⟩

/-- With its timers served in time, a user that keeps the transaction has its final result
after 64·T1, unless it sent an INVITE and was told that it is being worked on; and of a
transaction other than an INVITE nothing is left T4 later. -/
theorem answered_in_time {now : Nat} {invite reliable : Bool} {as : List ClientAction}
    {c : Client} (hrun : machine.run (requested now invite reliable) as = some c)
    (hpunctual : machine.Meets Punctual (requested now invite reliable) as) :
    (c.dropped = false → c.began + 64 * sipT1 < c.now →
      (∃ r ∈ results c.outs, r.provisional = false) ∨
        invite = true ∧ ∃ r ∈ results c.outs, r.provisional = true) ∧
    (invite = false → c.began + 64 * sipT1 + sipT4 < c.now → c.ct = none) := by
  obtain ⟨hkeeps, hintime⟩ := inTime_run hrun hpunctual
  constructor
  · intro hdropped hlate
    obtain ⟨ps, hps, ⟨hlist, hopen | ⟨hd, -⟩⟩ | ⟨-, r, hr, hlist⟩⟩ :=
      told_of_reachable ⟨_, as, ⟨now, invite, reliable, rfl⟩, hrun⟩
    · obtain ⟨ct, hct, hct'⟩ := (Option.any_eq_true ..).mp hopen
      obtain ⟨hinvite, -, hpaced⟩ := hkeeps.paced ct hct
      have hidle : ct.isSending = false := by
        by_contra hsending
        have hdue := hintime.timely ct hct _ (hpaced.deadline (by simpa using hsending))
        simp only at hdue
        omega
      obtain ⟨hstate, hkind⟩ := Ctrans.proceeding_of_silent hct' hidle
      obtain ⟨r, hr⟩ := List.exists_mem_of_ne_nil _ (hintime.heard ct hct hstate)
      exact .inr ⟨hinvite.symm.trans hkind, r, hr, hps r (hlist ▸ hr)⟩
    · rw [hdropped] at hd
      cases hd
    · exact .inl ⟨r, hlist ▸ List.mem_append_right ps List.mem_cons_self, hr⟩
  · intro hinvite hlate
    cases hct : c.ct with
    | none => rfl
    | some ct =>
      obtain ⟨hkind, -, hpaced⟩ := hkeeps.paced ct hct
      have hinvite' : ct.invite = false := hkind.trans hinvite
      cases hopen : ct.isOpen with
      | true =>
        have hsending := Ctrans.sending_of_open hopen hinvite'
        have hdue := hintime.timely ct hct _ (hpaced.deadline hsending)
        simp only at hdue
        omega
      | false =>
        obtain ⟨t, ht, hdue⟩ := hintime.leaving ct hct hopen hinvite'
        have := hintime.timely ct hct t ht
        omega

theorem answered_in_time_late : ∃ c : Client, c.outs = [.request, .resph .etimedout] ∧
    c.ct = none := by
  let as : List ClientAction := [.tick 32000, .expire none, .tick 6000]
  let c : Client := ⟨38000, none, 0, [.request, .resph .etimedout], false⟩
  have hrun : machine.run (requested 0 false true) as = some c := by decide +kernel
  have hpunctual : machine.Meets Punctual (requested 0 false true) as := by decide +kernel
  exact ⟨c, rfl, (answered_in_time hrun hpunctual).2 rfl (by decide)⟩

end Client

end SimplePhone.Re
