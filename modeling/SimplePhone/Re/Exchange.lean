import SimplePhone.Re.Strans

/-! A request and its transactions on both sides, over a transport that loses, repeats and reorders
what is given to it. -/
namespace SimplePhone.Re

open Transition

structure Exchange where
  invite : Bool
  reliable : Bool
  client : Client
  server : Option Strans
  /-- The copies of the request on their way, by the time at which they were sent. -/
  requests : List Nat
  responses : List Nat
  /-- history: how often the server's user was given the request -/
  handled : Nat
  /-- history: the responses of the server's user -/
  answered : List Nat
deriving DecidableEq

inductive ExchangeAction where
  /-- anything but a response -/
  | client (a : ClientAction)
  | serverExpire
  /-- `keep` leaves a copy on the way. -/
  | deliverRequest (n : Nat) (keep : Bool)
  /-- an ACK or a CANCEL for the server, whenever it was sent -/
  | ack
  | cancel
  | reply (scode : Nat) (failed : Bool)
  | deliverResponse (n : Nat) (keep : Bool)
  | loseRequest (n : Nat)
  | loseResponse (n : Nat)
deriving DecidableEq

namespace Exchange

/-- What is left on the way once copy `n` has arrived. -/
def remaining (n : Nat) (keep : Bool) (l : List Nat) : List Nat :=
  if keep then l else l.eraseIdx n

def initial (now : Nat) (invite reliable : Bool) : Exchange where
  invite := invite
  reliable := reliable
  client := .requested now invite reliable
  server := none
  requests := [now]
  responses := []
  handled := 0
  answered := []

/-- The client made a step, and sent its request as often as it says. -/
def clientAfter (x : Exchange) (c : Client) : Exchange :=
  { x with
    client := c
    requests := x.requests ++
      List.replicate (c.outs.count .request - x.client.outs.count .request) c.now }

def serverAfter (x : Exchange) (e : Strans.Effect) : Exchange :=
  { x with server := e.1, responses := x.responses ++ Re.responses e.2 }

def step (x : Exchange) : ExchangeAction → Option Exchange
  | .client (.response _) => none
  | .client a => (x.client.step a).map x.clientAfter
  | .serverExpire => x.server.bind fun st => (st.expire x.client.now).map x.serverAfter
  | .deliverRequest n keep =>
      if x.requests.length ≤ n then none
      else
        let x := { x with requests := remaining n keep x.requests }
        match x.server with
        | some st => some (x.serverAfter st.request)
        | none =>
            some { x with server := some (.alloc x.invite x.reliable), handled := x.handled + 1 }
  | .ack => x.server.map fun st => x.serverAfter (st.ackHandler x.client.now)
  | .cancel => x.server.map fun st => x.serverAfter st.cancelHandler
  | .reply scode failed =>
      x.server.bind fun st =>
        if st.isOpen then
          some { x.serverAfter (st.reply x.client.now scode failed) with
            answered := x.answered ++ [scode] }
        else none
  | .deliverResponse n keep =>
      match x.responses[n]? with
      | none => none
      | some scode =>
          let x := { x with responses := remaining n keep x.responses }
          -- a response that matches no transaction is dropped
          match x.client.step (.response scode) with
          | none => some x
          | some c => some (x.clientAfter c)
  | .loseRequest n => some { x with requests := x.requests.eraseIdx n }
  | .loseResponse n => some { x with responses := x.responses.eraseIdx n }

def machine : Machine Exchange ExchangeAction where
  start x := ∃ now invite reliable, x = initial now invite reliable
  step := step

theorem mem_remaining {n r : Nat} {keep : Bool} {l : List Nat} (h : r ∈ remaining n keep l) :
    r ∈ l := by
  unfold remaining at h
  split at h
  · exact h
  · exact List.mem_of_mem_eraseIdx h

theorem client_eq_some {x y : Exchange} {a : ClientAction} (h : x.step (.client a) = some y) :
    ∃ c, x.client.step a = some c ∧ y = x.clientAfter c ∧ ∀ scode, a ≠ .response scode := by
  have hmap : (x.client.step a).map x.clientAfter = some y ∧ ∀ scode, a ≠ .response scode := by
    cases a with
    | response scode => cases h
    | tick _ | expire _ | transport _ | cancel _ | deref => exact ⟨h, nofun⟩
  obtain ⟨c, hc, rfl⟩ := Option.map_eq_some_iff.mp hmap.1
  exact ⟨c, hc, rfl, hmap.2⟩

/-! ### The client is told what the server answered -/

/-- Whatever is on its way, kept or told was once an answer. -/
structure Honest (x : Exchange) : Prop where
  kept : ∀ st ∈ x.server, ∀ r ∈ st.mb, r ∈ x.answered
  way : ∀ r ∈ x.responses, r ∈ x.answered
  told : ∀ scode, .response scode ∈ results x.client.outs → scode ∈ x.answered

theorem Honest.client {x : Exchange} (h : Honest x) {a : ClientAction} {c : Client}
    (hstep : x.client.step a = some c) (ha : ∀ scode, a = .response scode → scode ∈ x.answered) :
    Honest (x.clientAfter c) := by
  refine ⟨h.kept, h.way, fun scode hr => ?_⟩
  rcases Client.mem_results hstep hr with hold | ⟨code, hcode, heq⟩ | heq | ⟨err, heq⟩
  · exact h.told scode hold
  · cases heq
    exact ha scode hcode
  · cases heq
  · cases heq

/-- The server sends what it keeps. -/
theorem Honest.resend {x : Exchange} (h : Honest x) {st st' : Strans} (hst : x.server = some st)
    (hmb : st'.mb = st.mb) : Honest (x.serverAfter (some st', st.send)) := by
  have hkept := h.kept st hst
  refine ⟨?_, fun r hr => ?_, h.told⟩
  · rintro _ ⟨⟩ r hr
    exact hkept r (hmb ▸ hr)
  · rcases List.mem_append.mp hr with hr | hr
    · exact h.way r hr
    · rw [Strans.responses_send] at hr
      exact hkept r (Option.mem_toList.mp hr)

/-- The server sends nothing, and keeps what it had or less. -/
theorem Honest.quiet {x : Exchange} (h : Honest x) {st : Strans} (hst : x.server = some st)
    {e : Strans.Effect} (houts : Re.responses e.2 = []) (hmb : ∀ st' ∈ e.1, st'.mb = st.mb) :
    Honest (x.serverAfter e) := by
  refine ⟨fun st' hst' r hr => ?_, fun r hr => ?_, h.told⟩
  · exact h.kept st hst r (hmb st' hst' ▸ hr)
  · have hr : r ∈ x.responses ++ Re.responses e.2 := hr
    rw [houts, List.append_nil] at hr
    exact h.way r hr

theorem Honest.same {x : Exchange} (h : Honest x) {st st' : Strans} (hst : x.server = some st)
    (hmb : st'.mb = st.mb) {outs : List StransOut} (houts : Re.responses outs = []) :
    Honest (x.serverAfter (some st', outs)) := by
  refine h.quiet hst houts ?_
  rintro _ ⟨⟩
  exact hmb

theorem Honest.request {x : Exchange} (h : Honest x) {st : Strans} (hst : x.server = some st) :
    Honest (x.serverAfter st.request) := by
  unfold Strans.request
  split
  · exact h.resend hst rfl
  · exact h.resend hst rfl
  · exact h.same hst rfl rfl

theorem Honest.ack {x : Exchange} (h : Honest x) {st : Strans} (hst : x.server = some st) :
    Honest (x.serverAfter (st.ackHandler x.client.now)) := by
  unfold Strans.ackHandler
  split
  · exact h.same hst rfl rfl
  split
  · exact h.same hst rfl rfl
  · split
    · exact h.quiet hst rfl nofun
    · refine h.quiet hst rfl ?_
      rintro _ ⟨⟩
      rfl
  · exact h.same hst rfl rfl

theorem Honest.cancel {x : Exchange} (h : Honest x) {st : Strans} (hst : x.server = some st) :
    Honest (x.serverAfter st.cancelHandler) := by
  unfold Strans.cancelHandler
  split
  · exact h.same hst rfl rfl
  · exact h.same hst rfl rfl
  · exact h.same hst rfl rfl

theorem Honest.reply {x : Exchange} (h : Honest x) {st : Strans} {scode : Nat} {e : Strans.Effect}
    (hreply : Strans.Replied x.client.now scode st e) :
    Honest { x.serverAfter e with answered := x.answered ++ [scode] } := by
  have hnew : scode ∈ x.answered ++ [scode] := List.mem_append_right _ List.mem_cons_self
  refine ⟨?_, fun r hr => ?_, fun code hr => ?_⟩
  · intro st' hst' r hr
    cases hreply with
    | failed => cases hst'
    | last _ => cases hst'
    | early _ | final _ _ _ _ _ =>
      cases hst'
      cases hr
      exact hnew
  · rcases List.mem_append.mp hr with hr | hr
    · exact List.mem_append_left _ (h.way r hr)
    · cases hreply with
      | failed => cases hr
      | early _ | last _ | final _ _ _ _ _ =>
        rw [List.mem_singleton.mp hr]
        exact hnew
  · exact List.mem_append_left _ (h.told code hr)

theorem Honest.step {x y : Exchange} {a : ExchangeAction} (h : Honest x)
    (hstep : x.step a = some y) : Honest y := by
  cases a with
  | client a =>
    obtain ⟨c, hc, rfl, hne⟩ := client_eq_some hstep
    exact h.client hc fun scode he => absurd he (hne scode)
  | serverExpire =>
    obtain ⟨st, hst, hexpire⟩ := Option.bind_eq_some_iff.mp hstep
    obtain ⟨e, he, rfl⟩ := Option.map_eq_some_iff.mp hexpire
    obtain ⟨u, rest, htimers, hdue, ⟨-, rfl⟩ | ⟨hid, rfl⟩⟩ := Strans.expire_eq_some he
    · exact h.quiet hst rfl nofun
    · exact h.resend hst rfl
  | deliverRequest n keep =>
    simp only [Exchange.step] at hstep
    split at hstep
    · cases hstep
    have hx : Honest { x with requests := remaining n keep x.requests } :=
      ⟨h.kept, h.way, h.told⟩
    split at hstep
    · rename_i st hst
      cases hstep
      exact hx.request hst
    · cases hstep
      refine ⟨?_, h.way, h.told⟩
      rintro _ ⟨⟩
      exact nofun
  | ack =>
    obtain ⟨st, hst, rfl⟩ := Option.map_eq_some_iff.mp hstep
    exact h.ack hst
  | cancel =>
    obtain ⟨st, hst, rfl⟩ := Option.map_eq_some_iff.mp hstep
    exact h.cancel hst
  | reply scode failed =>
    obtain ⟨st, hst, hreply⟩ := Option.bind_eq_some_iff.mp hstep
    split at hreply
    · cases hreply
      exact h.reply (Strans.replied_reply ..)
    · cases hreply
  | deliverResponse n keep =>
    simp only [Exchange.step] at hstep
    split at hstep
    · cases hstep
    rename_i scode hscode
    have hx : Honest { x with responses := remaining n keep x.responses } :=
      ⟨h.kept, fun r hr => h.way r (mem_remaining hr), h.told⟩
    have hmem : scode ∈ x.answered := h.way scode (List.mem_of_getElem? hscode)
    split at hstep
    · cases hstep
      exact hx
    · rename_i c hc
      cases hstep
      exact hx.client hc fun code he => by cases he; exact hmem
  | loseRequest n =>
    cases hstep
    exact ⟨h.kept, h.way, h.told⟩
  | loseResponse n =>
    cases hstep
    exact ⟨h.kept, fun r hr => h.way r (List.mem_of_mem_eraseIdx hr), h.told⟩

theorem honest_of_reachable {x : Exchange} (h : machine.Reachable x) : Honest x := by
  apply h.invariant
  · rintro _ ⟨now, invite, reliable, rfl⟩
    exact ⟨nofun, nofun, nofun⟩
  · intro s a t hs hstep
    exact hs.step hstep

/-- Whatever is lost, repeated and reordered on the way, the user of the client transaction is
never told a response that the user of the other one did not give. -/
theorem told_what_was_answered {x : Exchange} (h : machine.Reachable x) {scode : Nat}
    (hscode : .response scode ∈ results x.client.outs) : scode ∈ x.answered :=
  (honest_of_reachable h).told scode hscode

/-- An INVITE of which the first copy is lost, and so is the first copy of its refusal. -/
def refused : List ExchangeAction :=
  [.loseRequest 0, .client (.tick 500), .client (.expire none), .deliverRequest 0 true,
    .reply 180 false, .deliverResponse 0 true, .reply 486 false, .loseResponse 1,
    .client (.tick 500), .serverExpire, .deliverResponse 1 false]

theorem told_what_was_answered_refused : ∃ x, machine.run (initial 0 true false) refused = some x ∧
    .response 486 ∈ results x.client.outs ∧ 486 ∈ x.answered := by
  have hsome : (machine.run (initial 0 true false) refused).isSome = true := by decide +kernel
  have htold : ∀ x ∈ machine.run (initial 0 true false) refused,
      .response 486 ∈ results x.client.outs := by decide +kernel
  obtain ⟨x, hrun⟩ := Option.isSome_iff_exists.mp hsome
  have hx := htold x hrun
  exact ⟨x, hrun, hx, told_what_was_answered ⟨_, _, ⟨0, true, false, rfl⟩, hrun⟩ hx⟩

/-! ### The server answers once -/

/-- The client's timers are served in time, a copy of the request that arrives is less than T1
old, and the server's user gives a final response, which its socket takes. -/
def Prompt (x : Exchange) : ExchangeAction → Prop
  | .client a => Client.Punctual x.client a
  | .deliverRequest n _ => ∀ sent ∈ x.requests[n]?, x.client.now < sent + sipT1
  | .reply scode failed => failed = false ∧ 200 ≤ scode
  | _ => True

instance Prompt.decidable (x : Exchange) (a : ExchangeAction) : Decidable (Prompt x a) := by
  unfold Prompt
  exact match a with
    | .client _ => inferInstance
    | .deliverRequest .. => inferInstance
    | .reply .. => inferInstance
    | .serverExpire | .ack | .cancel | .deliverResponse .. | .loseRequest _ | .loseResponse _ =>
        inferInstance

/-- Attempts that fall due before the transaction times out do so T1 before it. -/
theorem due_add_le {k : Nat} (h : due (Ctrans.delay false) k ≤ 64 * sipT1) :
    due (Ctrans.delay false) k + sipT1 ≤ 64 * sipT1 := by
  have hk : k < 10 := lt_of_due_le h (by decide)
  have hmono := due_mono (Ctrans.delay false) (Nat.le_of_lt_succ hk)
  have hlast : due (Ctrans.delay false) 9 + sipT1 = 64 * sipT1 := by decide
  omega

/-- The exact pace of a transaction whose timers are served in time. -/
def OnPace (began : Nat) (ct : Ctrans) : Prop :=
  ct.state ≠ .proceeding ∧
    ∀ t ∈ ct.timers, t.id = .tmre → t.jfs = began + due (Ctrans.delay false) ct.txc

theorem onPace_again {began n now : Nat} {ct : Ctrans} (hpaced : ct.Paced began n)
    (hinvite : ct.invite = false) (htimely : ∀ t ∈ ct.timers, now ≤ t.jfs)
    (hpace : OnPace began ct) {t : Tmr CtransTimer} {rest : Tmrl CtransTimer} {timeout : Nat}
    (htimers : ct.timers = t :: rest) (hid : t.id = .tmre) (hdue : t.jfs ≤ now)
    (hopen : ct.isOpen = true)
    (htimeout : { ct with txc := ct.txc + 1 }.timeout = some timeout) :
    OnPace began { ct with txc := ct.txc + 1, timers := Tmrl.start now .tmre timeout rest } ∧
      now + sipT1 ≤ began + 64 * sipT1 := by
  have hmem : t ∈ ct.timers := htimers ▸ List.mem_cons_self
  have hnow : now = began + due (Ctrans.delay false) ct.txc :=
    (Nat.le_antisymm (htimely t hmem) hdue).trans (hpace.2 t hmem hid)
  have hstate : ct.state = .trying := by
    cases hstate : ct.state with
    | trying => rfl
    | calling =>
      have hcalling := hpaced.calling hstate
      rw [hinvite] at hcalling
      cases hcalling
    | proceeding => exact absurd hstate hpace.1
    | completed => simp [Ctrans.isOpen, hstate] at hopen
  have htimeout' : timeout = Ctrans.delay false (ct.txc + 1) := by
    unfold Ctrans.timeout at htimeout
    rw [hstate] at htimeout
    exact (Option.some.inj htimeout).symm
  have hproper := hpaced.proper
  have hdeadline := hpaced.deadline (Ctrans.sending_of_open hopen hinvite)
  rw [htimers] at hproper hdeadline
  have hhead : t.jfs ≤ began + 64 * sipT1 := hproper.head_le hdeadline
  have hlimit := hpace.2 t hmem hid
  refine ⟨⟨hpace.1, fun u hu hid' => ?_⟩, ?_⟩
  · rcases (Tmrl.mem_start hproper.tail).mp hu with rfl | ⟨-, hne⟩
    · change now + timeout = began + (due (Ctrans.delay false) ct.txc +
        Ctrans.delay false (ct.txc + 1))
      omega
    · exact absurd hid' hne
  · have hroom : due (Ctrans.delay false) ct.txc + sipT1 ≤ 64 * sipT1 :=
      due_add_le (by omega)
    omega

/-- No move but a provisional response takes a transaction off its pace. -/
theorem onPace_moved {began n now : Nat} {ct ct' : Ctrans} {outs : List CtransOut}
    (hpaced : ct.Paced began n) (hinvite : ct.invite = false)
    (htimely : ∀ t ∈ ct.timers, now ≤ t.jfs) (hpace : OnPace began ct)
    (hfinal : ∀ scode, .response scode ∈ results outs → 200 ≤ scode)
    (hmoved : Ctrans.Moved now ct (some ct', outs)) :
    OnPace began ct' ∧ (outs.count .request = 0 ∨ now + sipT1 ≤ began + 64 * sipT1) := by
  cases hmoved with
  | idle _ hresults hrequests => exact ⟨hpace, .inl hrequests⟩
  | rearm _ hresults hrequests hinvite' hstate =>
    rw [hinvite] at hinvite'
    cases hinvite'
  | provisional scode hscode hopen =>
    exact absurd hscode (Nat.not_lt_of_le (hfinal scode List.mem_cons_self))
  | again t rest timeout htimers hid hdue hopen htimeout =>
    exact (onPace_again hpaced hinvite htimely hpace htimers hid hdue hopen htimeout).imp_right
      .inr
  | lapse t rest htimers hid hopen =>
    have hmem : t ∈ ct.timers := htimers ▸ List.mem_cons_self
    exact absurd hid (hpaced.silent (Ctrans.sending_closed hopen) t hmem)
  | complete scode _ timers hscode hresults hrequests hopen htimers =>
    rw [if_neg (by simp [hinvite])] at htimers
    refine ⟨⟨nofun, fun t ht hid => ?_⟩, .inl hrequests⟩
    have ht : t ∈ timers := ht
    rw [htimers, Tmrl.mem_cancel (hpaced.proper.start now .tmr sipT4)] at ht
    exact absurd hid ht.2

/-- Where the server is with a request that was first sent at `began`: it has no copy yet, its user
has not answered, the answer is kept, or no copy can come in any more. -/
inductive Served (began now : Nat) : Option Strans → Nat → List Nat → Prop where
  | waiting : Served began now none 0 []
  | given : Served began now (some (.alloc false false)) 1 []
  | kept (scode d : Nat) (hd : began + 64 * sipT1 ≤ d) :
      Served began now (some ⟨false, false, .completed, some scode, 0, [⟨.tmr, d⟩]⟩) 1 [scode]
  | lapsed (scode : Nat) (hnow : began + 64 * sipT1 ≤ now) :
      Served began now none 1 [scode]

theorem Served.later {began now now' handled : Nat} {server : Option Strans} {answered : List Nat}
    (h : Served began now server handled answered) (hnow : now ≤ now') :
    Served began now' server handled answered := by
  cases h with
  | waiting => exact .waiting
  | given => exact .given
  | kept scode d hd => exact .kept scode d hd
  | lapsed scode hover => exact .lapsed scode (Nat.le_trans hover hnow)

theorem Served.answered_le {began now handled : Nat} {server : Option Strans}
    {answered : List Nat} (h : Served began now server handled answered) :
    handled ≤ 1 ∧ answered.length ≤ 1 := by
  cases h with
  | waiting => exact ⟨Nat.zero_le 1, Nat.zero_le 1⟩
  | given => exact ⟨Nat.le_refl 1, Nat.zero_le 1⟩
  | kept scode d hd => exact ⟨Nat.le_refl 1, Nat.le_refl 1⟩
  | lapsed scode hover => exact ⟨Nat.le_refl 1, Nat.le_refl 1⟩

/-- The client sends in time, and the server keeps its answer for all that was sent. -/
structure Once (x : Exchange) : Prop where
  keeps : Client.Keeps false false x.client
  inTime : Client.InTime x.client
  pace : ∀ ct ∈ x.client.ct, OnPace x.client.began ct
  sent : ∀ t ∈ x.requests, t + sipT1 ≤ x.client.began + 64 * sipT1
  began : x.client.began ≤ x.client.now
  kind : x.invite = false ∧ x.reliable = false
  final : ∀ r ∈ x.answered, 200 ≤ r
  served : Served x.client.began x.client.now x.server x.handled x.answered

theorem clock_stepped {c d : Client} {a : ClientAction} (h : Client.Stepped c a d) :
    d.began = c.began ∧ c.now ≤ d.now := by
  cases h with
  | tick n => exact ⟨rfl, Nat.le_add_right _ _⟩
  | moved _ ct e hct hmoved => exact ⟨rfl, Nat.le_refl _⟩
  | dropped ct hct => exact ⟨rfl, Nat.le_refl _⟩

theorem Once.client {x : Exchange} (h : Once x) (hhonest : Honest x) {a : ClientAction}
    {c : Client} (hstep : x.client.step a = some c) (hpunctual : Client.Punctual x.client a)
    (ha : ∀ scode, a = .response scode → scode ∈ x.answered) : Once (x.clientAfter c) := by
  have hstepped := Client.stepped hstep
  have hfinal : ∀ scode, .response scode ∈ results c.outs → 200 ≤ scode :=
    fun scode hr => h.final scode ((hhonest.client hstep ha).told scode hr)
  obtain ⟨hbegan, hnow⟩ := clock_stepped hstepped
  have hwork : (∀ ct ∈ c.ct, OnPace c.began ct) ∧
      (c.outs.count .request = x.client.outs.count .request ∨
        c.now + sipT1 ≤ c.began + 64 * sipT1) := by
    cases hstepped with
    | tick n => exact ⟨h.pace, .inl rfl⟩
    | dropped ct hct => exact ⟨nofun, .inl rfl⟩
    | moved _ ct e hct hmoved =>
      obtain ⟨hinvite, -, hpaced⟩ := h.keeps.paced ct hct
      obtain ⟨ct', outs⟩ := e
      have hcount : (x.client.outs ++ outs).count .request =
          x.client.outs.count .request + outs.count .request := List.count_append
      cases ct' with
      | none => exact ⟨nofun, .inl (hcount.trans (by rw [hmoved.ended, Nat.add_zero]))⟩
      | some ct' =>
        have hlocal : ∀ scode, .response scode ∈ results outs → 200 ≤ scode := by
          intro scode hr
          apply hfinal scode
          rw [Client.results_after]
          exact List.mem_append_right _ hr
        obtain ⟨hpace, hsent⟩ := onPace_moved hpaced hinvite (h.inTime.timely ct hct)
          (h.pace ct hct) hlocal hmoved
        refine ⟨?_, hsent.imp_left fun hzero => hcount.trans (by rw [hzero, Nat.add_zero])⟩
        rintro _ ⟨⟩
        exact hpace
  refine ⟨h.keeps.step hstepped, h.inTime.step h.keeps hpunctual hstepped, hwork.1, ?_, ?_, h.kind,
    h.final, ?_⟩
  · intro t ht
    change t + sipT1 ≤ c.began + 64 * sipT1
    rcases List.mem_append.mp ht with ht | ht
    · rw [hbegan]
      exact h.sent t ht
    · obtain ⟨hne, rfl⟩ := List.mem_replicate.mp ht
      rcases hwork.2 with hsame | hroom
      · rw [hsame, Nat.sub_self] at hne
        exact absurd rfl hne
      · exact hroom
  · change c.began ≤ c.now
    rw [hbegan]
    exact Nat.le_trans h.began hnow
  · have hserved := h.served
    rw [← hbegan] at hserved
    exact hserved.later hnow

/-- A copy of the request that is delivered finds the transaction, or is the first. -/
theorem Once.deliver {x : Exchange} (h : Once x) {n sent : Nat}
    (hsent : x.requests[n]? = some sent) (hlate : x.client.now < sent + sipT1) (keep : Bool) :
    let y := { x with requests := remaining n keep x.requests }
    (∀ st, x.server = some st → Once (y.serverAfter st.request)) ∧
      (x.server = none →
        Once { y with server := some (.alloc x.invite x.reliable), handled := x.handled + 1 }) := by
  have hold := h.sent sent (List.mem_of_getElem? hsent)
  have hsent' : ∀ t ∈ remaining n keep x.requests, t + sipT1 ≤ x.client.began + 64 * sipT1 :=
    fun t ht => h.sent t (mem_remaining ht)
  have hserved := h.served
  refine ⟨fun st hst => ?_, fun hnone => ?_⟩
  · rw [hst] at hserved
    have hsame : st.request.1 = some st := by
      unfold Strans.request
      split <;> rfl
    refine ⟨h.keeps, h.inTime, h.pace, hsent', h.began, h.kind, h.final, ?_⟩
    change Served _ _ st.request.1 _ _
    rw [hsame]
    exact hserved
  · obtain ⟨hinvite, hreliable⟩ := h.kind
    refine ⟨h.keeps, h.inTime, h.pace, hsent', h.began, h.kind, h.final, ?_⟩
    rw [hnone] at hserved
    change Served _ _ (some (.alloc x.invite x.reliable)) (x.handled + 1) x.answered
    rw [hinvite, hreliable]
    generalize x.handled = handled, x.answered = answered at hserved
    cases hserved with
    | waiting => exact .given
    | lapsed scode hover => omega

/-- The answer is kept for as long as copies of the request can come in. -/
theorem Once.reply {x : Exchange} (h : Once x) {st : Strans} (hst : x.server = some st)
    (hopen : st.isOpen = true) {scode : Nat} (hscode : 200 ≤ scode) :
    Once { x.serverAfter (st.reply x.client.now scode false) with
      answered := x.answered ++ [scode] } := by
  have hserved := h.served
  rw [hst] at hserved
  refine ⟨h.keeps, h.inTime, h.pace, h.sent, h.began, h.kind, ?_, ?_⟩
  · intro r hr
    rcases List.mem_append.mp hr with hr | hr
    · exact h.final r hr
    · rw [List.mem_singleton.mp hr]
      exact hscode
  · change Served _ _ (st.reply x.client.now scode false).1 x.handled (x.answered ++ [scode])
    generalize x.handled = handled, x.answered = answered at hserved
    cases hserved with
    | given =>
      have hreply : ((Strans.alloc false false).reply x.client.now scode false).1 =
          some ⟨false, false, .completed, some scode, 0,
            [⟨.tmr, x.client.now + 64 * sipT1⟩]⟩ := by
        unfold Strans.reply Strans.alloc
        simp only [Bool.false_eq_true, if_false, if_neg (Nat.not_lt_of_le hscode),
          Tmrl.start_nil]
      rw [hreply]
      exact .kept scode _ (Nat.add_le_add_right h.began _)
    | kept scode' d hd => cases hopen

theorem Once.step {x y : Exchange} {a : ExchangeAction} (h : Once x) (hhonest : Honest x)
    (hprompt : Prompt x a) (hstep : x.step a = some y) : Once y := by
  cases a with
  | client a =>
    obtain ⟨c, hc, rfl, hne⟩ := client_eq_some hstep
    exact h.client hhonest hc hprompt fun scode he => absurd he (hne scode)
  | serverExpire =>
    obtain ⟨st, hst, hexpire⟩ := Option.bind_eq_some_iff.mp hstep
    obtain ⟨e, he, rfl⟩ := Option.map_eq_some_iff.mp hexpire
    obtain ⟨u, rest, htimers, hdue, hcases⟩ := Strans.expire_eq_some he
    have hserved := h.served
    rw [hst] at hserved
    refine ⟨h.keeps, h.inTime, h.pace, h.sent, h.began, h.kind, h.final, ?_⟩
    change Served _ _ e.1 x.handled x.answered
    generalize x.handled = handled, x.answered = answered at hserved
    cases hserved with
    | given => cases htimers
    | kept scode d hd =>
      obtain ⟨rfl, rfl⟩ := List.cons.inj htimers
      rcases hcases with ⟨-, rfl⟩ | ⟨hid, -⟩
      · exact .lapsed scode (Nat.le_trans hd hdue)
      · cases hid
  | deliverRequest n keep =>
    simp only [Exchange.step] at hstep
    split at hstep
    · cases hstep
    rename_i hn
    cases hsent : x.requests[n]? with
    | none => exact absurd (List.getElem?_eq_none_iff.mp hsent) hn
    | some sent =>
      have hdeliver := h.deliver hsent (hprompt sent hsent) keep
      split at hstep
      · rename_i st hst
        cases hstep
        exact hdeliver.1 st hst
      · rename_i hnone
        cases hstep
        exact hdeliver.2 hnone
  | ack =>
    obtain ⟨st, hst, rfl⟩ := Option.map_eq_some_iff.mp hstep
    have hserved := h.served
    have hsame : (st.ackHandler x.client.now).1 = x.server := by
      rw [hst] at hserved ⊢
      generalize x.handled = handled, x.answered = answered at hserved
      cases hserved <;> rfl
    refine ⟨h.keeps, h.inTime, h.pace, h.sent, h.began, h.kind, h.final, ?_⟩
    change Served _ _ (st.ackHandler x.client.now).1 _ _
    rw [hsame]
    exact hserved
  | cancel =>
    obtain ⟨st, hst, rfl⟩ := Option.map_eq_some_iff.mp hstep
    have hsame : st.cancelHandler.1 = x.server := by
      rw [hst]
      unfold Strans.cancelHandler
      split <;> rfl
    refine ⟨h.keeps, h.inTime, h.pace, h.sent, h.began, h.kind, h.final, ?_⟩
    change Served _ _ st.cancelHandler.1 _ _
    rw [hsame]
    exact h.served
  | reply scode failed =>
    obtain ⟨rfl, hscode⟩ := hprompt
    obtain ⟨st, hst, hreply⟩ := Option.bind_eq_some_iff.mp hstep
    split at hreply
    · rename_i hopen
      cases hreply
      exact h.reply hst hopen hscode
    · cases hreply
  | deliverResponse n keep =>
    simp only [Exchange.step] at hstep
    split at hstep
    · cases hstep
    rename_i scode hscode
    have hx : Once { x with responses := remaining n keep x.responses } :=
      ⟨h.keeps, h.inTime, h.pace, h.sent, h.began, h.kind, h.final, h.served⟩
    have hhonest' : Honest { x with responses := remaining n keep x.responses } :=
      ⟨hhonest.kept, fun r hr => hhonest.way r (mem_remaining hr), hhonest.told⟩
    have hmem : scode ∈ x.answered := hhonest.way scode (List.mem_of_getElem? hscode)
    split at hstep
    · cases hstep
      exact hx
    · rename_i c hc
      cases hstep
      exact hx.client hhonest' hc trivial fun code he => by cases he; exact hmem
  | loseRequest n =>
    cases hstep
    exact ⟨h.keeps, h.inTime, h.pace, fun t ht => h.sent t (List.mem_of_mem_eraseIdx ht),
      h.began, h.kind, h.final, h.served⟩
  | loseResponse n =>
    cases hstep
    exact ⟨h.keeps, h.inTime, h.pace, h.sent, h.began, h.kind, h.final, h.served⟩

theorem once_initial (now : Nat) : Once (initial now false false) := by
  refine ⟨Client.keeps_requested now false false, Client.inTime_requested now false false, ?_, ?_,
    Nat.le_refl _, ⟨rfl, rfl⟩, nofun, .waiting⟩
  · rintro _ ⟨⟩
    refine ⟨nofun, fun t ht hid => ?_⟩
    rcases Ctrans.mem_request.mp ht with rfl | ⟨-, rfl⟩
    · cases hid
    · rfl
  · intro t ht
    rw [List.mem_singleton.mp ht]
    exact Nat.add_le_add_left (by decide) now

/-- As long as each copy of a request other than INVITE arrives less than T1 after it was sent, if
at all, the other side's user is given it at most once, and what the client's user is told is the
one response that it gave. -/
theorem handled_once {now : Nat} {as : List ExchangeAction} {x : Exchange}
    (hrun : machine.run (initial now false false) as = some x)
    (hprompt : machine.Meets Prompt (initial now false false) as) :
    x.handled ≤ 1 ∧ x.answered.length ≤ 1 ∧
      ∀ scode, .response scode ∈ results x.client.outs → x.answered = [scode] := by
  have hkeep : Honest x ∧ Once x := by
    apply Machine.run_of_meets (P := fun x => Honest x ∧ Once x) _ _ hprompt hrun
    · intro s a t hs hmeets hstep
      exact ⟨hs.1.step hstep, hs.2.step hs.1 hmeets hstep⟩
    · exact ⟨⟨nofun, nofun, nofun⟩, once_initial now⟩
  obtain ⟨hhonest, honce⟩ := hkeep
  obtain ⟨hhandled, hlength⟩ := honce.served.answered_le
  refine ⟨hhandled, hlength, fun scode hr => ?_⟩
  have hmem := hhonest.told scode hr
  cases hanswered : x.answered with
  | nil =>
    rw [hanswered] at hmem
    cases hmem
  | cons r rest =>
    rw [hanswered, List.length_cons] at hlength
    have hrest : rest = [] := List.eq_nil_of_length_eq_zero (by omega)
    subst hrest
    rw [hanswered] at hmem
    rw [List.mem_singleton.mp hmem]

/-- A request that is repeated before it is answered, and comes in again afterwards. -/
def repeated : List ExchangeAction :=
  [.client (.tick 400), .deliverRequest 0 true, .client (.tick 100), .client (.expire none),
    .loseRequest 0, .reply 200 false, .deliverRequest 0 false, .deliverResponse 1 true]

theorem handled_once_repeated : ∃ x, machine.run (initial 0 false false) repeated = some x ∧
    .response 200 ∈ results x.client.outs ∧ x.handled ≤ 1 ∧ x.answered.length ≤ 1 ∧
      ∀ scode, .response scode ∈ results x.client.outs → x.answered = [scode] := by
  have hsome : (machine.run (initial 0 false false) repeated).isSome = true := by decide +kernel
  have htold : ∀ x ∈ machine.run (initial 0 false false) repeated,
      .response 200 ∈ results x.client.outs := by decide +kernel
  have hprompt : machine.Meets Prompt (initial 0 false false) repeated := by decide +kernel
  obtain ⟨x, hrun⟩ := Option.isSome_iff_exists.mp hsome
  exact ⟨x, hrun, htold x hrun, handled_once hrun hprompt⟩

/-- A copy that is older may find the transaction gone. -/
example : (machine.run (initial 0 false false) [.deliverRequest 0 true, .reply 200 false,
    .client .deref, .client (.tick 32000), .serverExpire, .deliverRequest 0 true,
    .reply 481 false]).map (fun x => (x.handled, x.answered)) = some (2, [200, 481]) := by
  decide +kernel

end Exchange

end SimplePhone.Re
