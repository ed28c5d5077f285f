import SimplePhone.Re.Sipreg

/-! A SIP session from its INVITE to its end. It counts its references: its user has one, and
when it has ended, each thing it still waits for has one, so that it lives until the last answer
or ACK has come, and says goodbye to the other side before it goes. -/
namespace SimplePhone.Re

open Transition

def enosys : Nat := 38

def eproto : Nat := 71

def econnreset : Nat := 104

def etimedout : Nat := 110

def eauth : Nat := 80

/-- `terminated`, which is 0, 1 and 2. -/
inductive Terminated where
  | no
  | waiting
  | ending
deriving DecidableEq

/-- `enum sdp_neg_state` -/
inductive SdpNegState where
  | none
  | localOffer
  | remoteOffer
  | previewAnswer
  | done
deriving DecidableEq

/-- What `req` was sent for. -/
inductive SessRequest where
  | invite
  | reinvite
  | bye
deriving DecidableEq

/-- The calls of the user's handlers. -/
inductive SessTold where
  | progress
  | established
  | closed (err : Nat)
deriving DecidableEq

/-- `struct sipsess`, without what only goes into messages, and without the requests inside a
dialog and the reliable provisional responses, which this program does not use. -/
structure Sipsess where
  nrefs : Nat
  freed : Bool
  terminated : Terminated
  established : Bool
  peerterm : Bool
  /-- `st`: the INVITE that came in is not answered yet -/
  st : Bool
  req : Option SessRequest
  /-- `replyl`: the numbers of the INVITEs whose 2xx waits for its ACK -/
  replyl : List Nat
  /-- a timer for the next re-INVITE runs -/
  tmr : Bool
  /-- there is a body for it -/
  desc : Bool
  modifyPending : Bool
  negState : SdpNegState
  ls : LoopState
  /-- the number of the INVITE that came in -/
  cseq : Nat
  /-- the user has its reference -/
  held : Bool
  told : List SessTold
  /-- history: whether the first BYE could be sent, once it was tried -/
  farewell : Option Bool
  /-- history: references that nobody gives back any more -/
  lost : Nat
deriving DecidableEq

/-- What functions outside return in the course of a step. -/
structure SessOutcome where
  /-- `sip_dialog_create` and `sip_dialog_update` -/
  dialog : Nat
  /-- the user's `offerh` and `answerh` -/
  handler : Nat
  /-- there is a body: of the user's `desch` for an INVITE, of `offerh` for an answer -/
  offered : Bool
  /-- `sipsess_ack` -/
  ack : Nat
  /-- `sip_auth_authenticate` -/
  auth : Nat
  /-- what follows a redirection to its contact -/
  redirect : Nat
  /-- `sip_drequestf` of an INVITE -/
  request : Nat
  /-- `sip_treplyf` of a 1xx and 2xx -/
  reply : Nat
  /-- `sip_drequestf` of a BYE -/
  bye : Nat
deriving DecidableEq

structure SessResponse where
  scode : Nat
  sdp : Bool
  /-- a tag and a contact, which make a dialog -/
  contact : Bool
  retryAfter : Bool
deriving DecidableEq

namespace Sipsess

/-! ### The end of a session -/

/-- `sipsess_bye` -/
def bye (resetLs : Bool) (o : SessOutcome) (s : Sipsess) : Sipsess × Nat :=
  if s.req.isSome then (s, eproto)
  else
    let s := if resetLs then { s with ls := .reset } else s
    if o.bye = 0 then ({ s with req := some .bye }, 0) else (s, o.bye)

/-- The second result tells whether there is something to wait for. -/
def termwait (s : Sipsess) : Sipsess × Bool :=
  -- the handlers of the user are taken off, a 486 answers an open INVITE
  let s := { s with terminated := .waiting, tmr := false, st := false }
  let waits := (if s.req.isSome then 1 else 0) + (if s.replyl.isEmpty then 0 else 1)
  ({ s with nrefs := s.nrefs + waits }, 0 < waits)

/-- The second result tells whether there is a BYE to wait for. -/
def terminate (o : SessOutcome) (s : Sipsess) : Sipsess × Bool :=
  let s := { s with terminated := .ending }
  if !s.established || s.peerterm then (s, false)
  else
    match s.bye true o with
    | (s, 0) => ({ s with nrefs := s.nrefs + 1, farewell := some true }, true)
    | (s, _) => ({ s with farewell := some false }, false)

/-- The timers of the replies are cancelled, and a request calls its handler no more. -/
def free (s : Sipsess) : Sipsess :=
  { s with freed := true, tmr := false, replyl := [], req := none, st := false }

def destructor (o : SessOutcome) (s : Sipsess) : Sipsess :=
  match s.terminated with
  | .no =>
      let (s, wait) := s.termwait
      if wait then s
      else
        let (s, sent) := s.terminate o
        if sent then s else s.free
  | .waiting =>
      let (s, sent) := s.terminate o
      if sent then s else s.free
  | .ending => s.free

def memDeref (o : SessOutcome) (s : Sipsess) : Sipsess :=
  if 1 < s.nrefs then { s with nrefs := s.nrefs - 1 } else { s with nrefs := 0 }.destructor o

/-- The user lets go, as `call_destructor` does. -/
def deref (o : SessOutcome) (s : Sipsess) : Sipsess := { s with held := false }.memDeref o

def tell (n : SessTold) (s : Sipsess) : Sipsess :=
  if s.terminated = .no then { s with told := s.told ++ [n] } else s

/-- `sipsess_terminate`. The user lets go when it is told: `sipsess_close_handler` of `call.c`
reports `CALL_EVENT_CLOSED`, upon which `ua.c` frees the call and its session. -/
def sipsessTerminate (err : Nat) (o : SessOutcome) (s : Sipsess) : Sipsess :=
  if s.terminated = .no then
    let (s', wait) := s.termwait
    let s' := if wait then s' else (s'.terminate o).1
    { s' with told := s.told ++ [SessTold.closed err] }.deref o
  else s

/-- `offerh` and `answerh`: the internal ones refuse. -/
def handle (o : SessOutcome) (s : Sipsess) : Nat :=
  if s.terminated = .no then o.handler else enosys

/-! ### Answers to an INVITE -/

/-- `invite`; its body is made while it is sent. -/
def invite (o : SessOutcome) (s : Sipsess) : Sipsess × Nat :=
  let s := { s with modifyPending := false }
  if o.request = 0 then
    ({ s with
        req := some .invite
        negState := if o.offered then .localOffer else s.negState }, 0)
  else (s, o.request)

/-- `sipsess_reinvite` -/
def reinvite (resetLs : Bool) (o : SessOutcome) (s : Sipsess) : Sipsess × Nat :=
  if s.req.isSome then (s, eproto)
  else
    let s := if resetLs then { s with ls := .reset } else s
    if o.request = 0 then
      ({ s with
          req := some .reinvite
          modifyPending := false
          negState := if s.desc then .localOffer else s.negState }, 0)
    else (s, o.request)

/-- Of `invite_resp_handler`. -/
def inviteOut (err : Nat) (o : SessOutcome) (s : Sipsess) : Sipsess :=
  if s.terminated = .no then s.sipsessTerminate err o else s.memDeref o

def inviteProgress (msg : SessResponse) (o : SessOutcome) (s : Sipsess) : Sipsess :=
  let s := s.tell .progress
  if msg.scode = 100 then s
  else if msg.contact ∧ o.dialog ≠ 0 then s.inviteOut o.dialog o
  else if msg.sdp ∧ s.negState = .localOffer ∧ s.handle o ≠ 0 then s.inviteOut (s.handle o) o
  else s

/-- The body of a 2xx: the state of the offer, the error and whether there is an answer. -/
def negotiate (msg : SessResponse) (o : SessOutcome) (s : Sipsess) : Sipsess × Nat × Bool :=
  if msg.sdp then
    match s.negState with
    | .localOffer => ({ s with negState := .done }, s.handle o, false)
    | .none => ({ s with negState := .remoteOffer }, s.handle o, o.offered)
    | _ => (s, 0, false)
  else (s, 0, false)

def inviteAccepted (msg : SessResponse) (o : SessOutcome) (s : Sipsess) : Sipsess :=
  if o.dialog ≠ 0 then s.inviteOut o.dialog o
  else
    let (s, err, desc) := s.negotiate msg o
    let err := err ||| o.ack
    if err ≠ 0 then s.inviteOut err o
    else if s.negState = .none ∧ msg.sdp = false then s.inviteOut 0 o
    else
      let s := { s with
        negState := if s.negState = SdpNegState.remoteOffer ∧ desc then .done else s.negState
        established := true }
      if s.terminated ≠ .no then s.memDeref o
      else
        let s := if s.modifyPending then (s.reinvite true o).1 else { s with desc := false }
        s.tell .established

def inviteRefused (msg : SessResponse) (o : SessOutcome) (s : Sipsess) : Sipsess :=
  if s.terminated ≠ .no then s.memDeref o
  else if msg.scode < 400 then s.sipsessTerminate o.redirect o
  else if msg.scode = 401 ∨ msg.scode = 407 then
    if o.auth ≠ 0 then s.sipsessTerminate (if o.auth = eauth then 0 else o.auth) o
    else
      match s.invite o with
      | (s, 0) => s
      | (s, err) => s.sipsessTerminate err o
  else s.sipsessTerminate 0 o

/-- `sip_request_loops` -/
def loops (scode : Nat) (s : Sipsess) : Sipsess × Bool :=
  ({ s with ls := (s.ls.loops scode).2 }, (s.ls.loops scode).1)

/-- `invite_resp_handler` -/
def inviteResp (err : Nat) (msg : Option SessResponse) (o : SessOutcome) (s : Sipsess) :
    Sipsess :=
  match msg with
  | none => s.inviteOut err o
  | some m =>
      if err ≠ 0 then s.inviteOut err o
      else
        let (s, looping) := s.loops m.scode
        if looping then s.inviteOut 0 o
        else if m.scode < 200 then s.inviteProgress m o
        else if m.scode < 300 then s.inviteAccepted m o
        else s.inviteRefused m o

/-- Of `reinvite_resp_handler`. -/
def reinviteOut (err : Nat) (o : SessOutcome) (s : Sipsess) : Sipsess :=
  if s.terminated ≠ .no then s.memDeref o
  else if err = etimedout then s.sipsessTerminate err o
  else if s.modifyPending then (s.reinvite true o).1
  else { s with desc := false }

def reinviteAccepted (msg : SessResponse) (o : SessOutcome) (s : Sipsess) : Sipsess :=
  let (s, err, desc) := s.negotiate msg o
  if err ≠ 0 then s.reinviteOut err o
  else if o.ack ≠ 0 then s.reinviteOut o.ack o
  else
    let s := { s with
      negState := if s.negState = SdpNegState.remoteOffer ∧ desc then .done else s.negState }
    s.reinviteOut 0 o

def reinviteRefused (msg : SessResponse) (o : SessOutcome) (s : Sipsess) : Sipsess :=
  let s := { s with negState := .done }
  if s.terminated ≠ .no then s.reinviteOut 0 o
  else if msg.scode = 401 ∨ msg.scode = 407 then
    if o.auth ≠ 0 then s.reinviteOut (if o.auth = eauth then 0 else o.auth) o
    else
      match s.reinvite false o with
      | (s, 0) => s
      | (s, err) => s.reinviteOut err o
  else if msg.scode = 408 ∨ msg.scode = 481 then s.sipsessTerminate 0 o
  else if msg.scode = 491 ∨ msg.scode = 500 ∧ msg.retryAfter then { s with tmr := true }
  else s.reinviteOut 0 o

/-- `reinvite_resp_handler` -/
def reinviteResp (err : Nat) (msg : Option SessResponse) (o : SessOutcome) (s : Sipsess) :
    Sipsess :=
  match msg with
  | none => s.reinviteOut err o
  | some m =>
      if err ≠ 0 then s.reinviteOut err o
      else
        let (s, looping) := s.loops m.scode
        if looping then s.reinviteOut 0 o
        else if m.scode < 200 then s
        else if m.scode < 300 then s.reinviteAccepted m o
        else s.reinviteRefused m o

/-- `bye_resp_handler` -/
def byeResp (err : Nat) (msg : Option SessResponse) (o : SessOutcome) (s : Sipsess) : Sipsess :=
  match msg with
  | none => s.memDeref o
  | some m =>
      if err ≠ 0 then s.memDeref o
      else
        let (s, looping) := s.loops m.scode
        if looping then s.memDeref o
        else if m.scode < 200 then s
        else if m.scode < 300 ∨ s.peerterm then s.memDeref o
        else if (m.scode = 401 ∨ m.scode = 407) ∧ o.auth = 0 then
          match s.bye false o with
          | (s, 0) => s
          | (s, _) => s.memDeref o
        else s.memDeref o

/-! ### Requests of the other side -/

/-- `cancel_handler` -/
def cancelHandler (o : SessOutcome) (s : Sipsess) : Sipsess :=
  { s with st := false, peerterm := true }.sipsessTerminate econnreset o

/-- `bye_handler`, for a number that the dialog takes; a 487 answers an open INVITE. -/
def byeHandler (o : SessOutcome) (s : Sipsess) : Sipsess :=
  let s := { s with peerterm := true }
  if s.terminated ≠ .no then s else { s with st := false }.sipsessTerminate econnreset o

/-- `sipsess_reply_2xx`, of an INVITE or, without `invite`, of an UPDATE. -/
def reply2xx (invite : Bool) (cseq : Nat) (sdp desc : Bool) (o : SessOutcome) (s : Sipsess) :
    Sipsess × Nat :=
  if invite ∧ s.negState = .none ∧ desc = false then (s, 22)
  else
    let desc := if invite then desc && s.negState != .done else desc && s.negState == .remoteOffer
    if o.reply = 0 then
      ({ s with
          st := if invite then false else s.st
          replyl := if invite then s.replyl ++ [cseq] else s.replyl
          negState :=
            if desc then if sdp then .done else if invite then .localOffer else s.negState
            else s.negState }, 0)
    else ({ s with st := if invite then false else s.st }, o.reply)

/-- `target_refresh_handler`, for a number that the dialog takes: a re-INVITE or an UPDATE. -/
def targetRefresh (invite sdp : Bool) (cseq : Nat) (o : SessOutcome) (s : Sipsess) : Sipsess :=
  if s.terminated ≠ .no then s
  else if invite ∧ s.st ∨ sdp ∧ s.negState = .localOffer then s
  else if invite ∧ s.req.isSome then s
  else if sdp ∧ s.negState ≠ .done then s
  else
    let (s, err, desc) :=
      if invite ∨ sdp then
        ({ s with negState := if sdp then .remoteOffer else .localOffer }, s.handle o, o.offered)
      else (s, 0, false)
    if err ≠ 0 then { s with negState := .done }
    else
      { (s.reply2xx invite cseq sdp desc o).1 with
        desc := false
        modifyPending := false
        tmr := false }

/-- `ack_handler`; `sdp` tells whether the ACK has a body. -/
def ackHandler (cseq : Nat) (sdp : Bool) (o : SessOutcome) (s : Sipsess) : Sipsess :=
  if cseq ∉ s.replyl then s
  else
    let s := { s with replyl := s.replyl.erase cseq }
    if s.terminated ≠ .no then
      if s.replyl = [] then { s with established := true }.memDeref o else s
    else if s.negState = .localOffer ∧ sdp = false then s.sipsessTerminate eproto o
    else
      let err := if s.negState = .localOffer then s.handle o else 0
      let s := if s.negState = .localOffer then { s with negState := .done } else s
      let s := if s.modifyPending ∧ s.replyl = [] then (s.reinvite true o).1 else s
      if s.established then s
      else
        let s := { s with established := true }
        if err ≠ 0 then s.sipsessTerminate err o else s.tell .established

/-- `tmr_handler` of a 2xx that waited long enough for its ACK. -/
def replyTmr (cseq : Nat) (o : SessOutcome) (s : Sipsess) : Sipsess :=
  -- the reply itself is still in the list
  if s.replyl ≠ [] then
    let s := { s with replyl := s.replyl.erase cseq }
    if s.terminated ≠ .no ∧ s.replyl = [] then { s with lost := s.lost + 1 } else s
  else if s.terminated = .no then { s with established := true }.sipsessTerminate etimedout o
  else s.memDeref o

/-! ### The user -/

/-- `sipsess_answer`, while the INVITE is open; `sdp` tells whether it had a body. -/
def answer (sdp desc : Bool) (o : SessOutcome) (s : Sipsess) : Sipsess :=
  (s.reply2xx true s.cseq sdp desc o).1

/-- `sipsess_modify` of an established session. -/
def modify (desc : Bool) (o : SessOutcome) (s : Sipsess) : Sipsess :=
  if desc ∧ s.negState ≠ .done ∧ s.negState ≠ .none then s
  else
    let s := { s with desc := desc }
    if s.req.isSome ∨ s.tmr ∨ s.replyl ≠ [] then { s with modifyPending := true }
    else (s.reinvite true o).1

/-- `sipsess_abort`, and the user lets go at once. -/
def abort (o : SessOutcome) (s : Sipsess) : Sipsess :=
  let (s, err) := s.bye true o
  { s with terminated := .ending, farewell := some (err = 0) }.deref o

end Sipsess

inductive SessAction where
  /-- to `req`; `err` is not 0 and there is no message where none came -/
  | response (err : Nat) (msg : Option SessResponse) (o : SessOutcome)
  | cancel (o : SessOutcome)
  | byeCame (o : SessOutcome)
  | refresh (invite sdp : Bool) (cseq : Nat) (o : SessOutcome)
  | ack (cseq : Nat) (sdp : Bool) (o : SessOutcome)
  /-- no ACK has come for 64 * T1 -/
  | replyTmr (cseq : Nat) (o : SessOutcome)
  /-- the timer of the next re-INVITE -/
  | tmr (o : SessOutcome)
  /-- `sipsess_progress`, `sipsess_answer` and `sipsess_reject` -/
  | progress (desc : Bool) (o : SessOutcome)
  | answer (sdp desc : Bool) (o : SessOutcome)
  | reject
  | modify (desc : Bool) (o : SessOutcome)
  | deref (o : SessOutcome)
  | abort (o : SessOutcome)
deriving DecidableEq

namespace Sipsess

def isFinal : Option SessResponse → Bool
  | some msg => 200 ≤ msg.scode
  | none => true

/-- A request that is done with is forgotten before its handler is called. -/
def answered (err : Nat) (msg : Option SessResponse) (s : Sipsess) : Sipsess :=
  if err ≠ 0 ∨ isFinal msg then { s with req := none } else s

def response (err : Nat) (msg : Option SessResponse) (o : SessOutcome) (s : Sipsess) :
    Option Sipsess :=
  match s.req with
  | none => none
  | some .invite => some ((s.answered err msg).inviteResp err msg o)
  | some .reinvite => some ((s.answered err msg).reinviteResp err msg o)
  | some .bye => some ((s.answered err msg).byeResp err msg o)

def step (s : Sipsess) : SessAction → Option Sipsess
  | .response err msg o => s.response err msg o
  | .cancel o => if s.st then some (s.cancelHandler o) else none
  | .byeCame o => if s.freed then none else some (s.byeHandler o)
  | .refresh invite sdp cseq o =>
      if s.freed then none else some (s.targetRefresh invite sdp cseq o)
  | .ack cseq sdp o => if s.freed then none else some (s.ackHandler cseq sdp o)
  | .replyTmr cseq o => if cseq ∈ s.replyl then some (s.replyTmr cseq o) else none
  | .tmr o => if s.tmr then some ({ s with tmr := false }.reinvite true o).1 else none
  | .progress desc o =>
      if s.held ∧ s.st then
        if o.reply = 0 then some { s with
          negState :=
            if desc ∧ s.negState = .remoteOffer then .previewAnswer else s.negState }
        else some { s with st := false }
      else none
  | .answer sdp desc o => if s.held ∧ s.st then some (s.answer sdp desc o) else none
  | .reject => if s.held ∧ s.st then some { s with st := false } else none
  | .modify desc o => if s.held ∧ s.established then some (s.modify desc o) else none
  | .deref o => if s.held then some (s.deref o) else none
  | .abort o => if s.held then some (s.abort o) else none

/-- `sipsess_connect`, once its INVITE was sent. -/
def connected (offered : Bool) : Sipsess where
  nrefs := 1
  freed := false
  terminated := .no
  established := false
  peerterm := false
  st := false
  req := some .invite
  replyl := []
  tmr := false
  desc := false
  modifyPending := false
  negState := if offered then .localOffer else .none
  ls := .reset
  cseq := 0
  held := true
  told := []
  farewell := none
  lost := 0

/-- `sipsess_accept`, once its 180 was sent; `sdp` tells whether the INVITE had a body. -/
def accepted (cseq : Nat) (sdp : Bool) : Sipsess where
  nrefs := 1
  freed := false
  terminated := .no
  established := false
  peerterm := false
  st := true
  req := none
  replyl := []
  tmr := false
  desc := false
  modifyPending := false
  negState := if sdp then .remoteOffer else .none
  ls := .reset
  cseq := cseq
  held := true
  told := []
  farewell := none
  lost := 0

def machine : Machine Sipsess SessAction where
  start s := (∃ offered, s = connected offered) ∨ ∃ cseq sdp, s = accepted cseq sdp
  step := step

end Sipsess

end SimplePhone.Re
