import SimplePhone.Service.Step

/-! `MainActivity`: what it shows of a call, what it does on keys, and the entries it
writes to the call history. -/
namespace SimplePhone.App

open Service

/-- `CallState`. -/
inductive CallState where
  | idle
  | outgoing (number : Str)
  | incoming (callerNumber : Str)
  | active (muted : Bool)
deriving DecidableEq

def CallState.isInCall : CallState → Bool
  | .active _ => true
  | _ => false

def CallState.isIncoming : CallState → Bool
  | .incoming _ => true
  | _ => false

inductive HistoryType where
  | outgoing
  | incoming
  | missed
deriving DecidableEq

/-- A line of the history, the time apart. -/
structure HistoryEntry where
  direction : HistoryType
  number : Str
deriving DecidableEq

def historyMax : Nat := 30

/-- The newest entry comes first. -/
def addHistory (history : List HistoryEntry) (entry : HistoryEntry) : List HistoryEntry :=
  (entry :: history).take historyMax

structure Activity where
  callState : CallState
  currentNumber : Str
  /-- `sipService` is set, and the activity is one of its listeners. -/
  bound : Bool
deriving DecidableEq

def Activity.created : Activity := ⟨.idle, [], false⟩

namespace Activity

def resetCallState (clearNumber : Bool) (a : Activity) : Activity :=
  { a with callState := .idle, currentNumber := if clearNumber then [] else a.currentNumber }

/-! ### `SipService.Listener` -/

def onIncomingCall (callerNumber : Str) (a : Activity) : Activity :=
  { a with
    callState := .incoming (displayNumber callerNumber)
    currentNumber := displayNumber callerNumber }

def peer (a : Activity) : Str :=
  match a.callState with
  | .outgoing number => number
  | .incoming callerNumber => callerNumber
  | _ => a.currentNumber

def startedEntry (a : Activity) : List HistoryEntry :=
  if a.peer.isEmpty then []
  else [⟨if a.callState.isIncoming then .incoming else .outgoing, a.peer⟩]

def missedEntry (a : Activity) : List HistoryEntry :=
  match a.callState with
  | .incoming callerNumber => [⟨.missed, callerNumber⟩]
  | _ => []

/-- The activity after a notice, and what it has written to the history. -/
def hear (a : Activity) : Notice → Activity × List HistoryEntry
  | .onStatus _ | .onDebug _ => (a, [])
  | .onIncomingCall callerNumber => (a.onIncomingCall callerNumber, [])
  | .onCallStarted => ({ a with callState := .active false }, a.startedEntry)
  | .onCallEnded => (a.resetCallState a.callState.isInCall, a.missedEntry)
  | .onCallFailed _ => (a.resetCallState a.callState.isInCall, [])

/-! ### Intents and the life cycle -/

/-- The argument is the caller of an `INCOMING_CALL_ACTION`. -/
def handleIncomingCallIntent (caller : Option Str) (a : Activity) : Activity :=
  match caller with
  | none => a
  | some callerNumber => if callerNumber.isEmpty then a else a.onIncomingCall callerNumber

def syncCallState (actualInCall : Bool) (a : Activity) : Activity :=
  match actualInCall, a.callState with
  | true, .idle => { a with callState := .active false }
  | true, _ => a
  | false, .idle => a
  | false, .active _ => a.resetCallState true
  | false, .incoming _ => a.resetCallState true
  | false, .outgoing _ => a.resetCallState false

/-! ### Keys -/

/-- What a key leads to. -/
structure Reaction where
  activity : Activity
  /-- a call of a method of `sipService` -/
  request : Option Request
  written : List HistoryEntry
  /-- `KEY_LAST_NUMBER` -/
  lastNumber : Option Str

def still (a : Activity) : Reaction := ⟨a, none, [], none⟩

def makeCall (a : Activity) : Reaction :=
  if a.callState = .idle ∧ a.currentNumber ≠ [] then
    ⟨{ a with callState := .outgoing a.currentNumber, currentNumber := [] },
      some (.makeCall a.currentNumber), [], some a.currentNumber⟩
  else a.still

def answerCall (a : Activity) : Reaction := ⟨a, some .answerCall, [], none⟩

/-- A rejected call is written as missed before it has ended. -/
def endCall (a : Activity) : Reaction :=
  ⟨a.resetCallState true, some .endCall, a.missedEntry, none⟩

def toggleMute (a : Activity) : Reaction :=
  match a.callState with
  | .active muted => ⟨{ a with callState := .active !muted }, some (.setMute !muted), [], none⟩
  | _ => a.still

def appendNumber (digit : UInt8) (a : Activity) : Reaction :=
  match a.callState with
  | .idle => { a with currentNumber := a.currentNumber ++ [digit] }.still
  | .active _ => ⟨a, some (.sendDtmf digit), [], none⟩
  | _ => a.still

def clearOneChar (a : Activity) : Reaction :=
  { a with currentNumber := a.currentNumber.dropLast }.still

/-- Replaces the number typed so far by the last one dialled. -/
def redial (lastNumber : Str) (a : Activity) : Reaction :=
  if lastNumber = [] then a.still else { a with currentNumber := lastNumber }.still

end Activity

/-- The keys, by what `onKeyDown` and `handleKeyAction` make of them. -/
inductive Key where
  /-- 0 to 9, `*` and `#` -/
  | digit (d : UInt8)
  | call
  /-- ENDCALL, BACK, CLEAR and DEL -/
  | endCall
  /-- the soft keys, where the state of the call decides what they do -/
  | softKey1
  | softKey2
  /-- the actions that can be assigned to keys -/
  | actionCall
  | actionMute
  | actionRedial
  | actionClearAll
  | actionClearOne
deriving DecidableEq

def Activity.onKeyDown (lastNumber : Str) (a : Activity) : Key → Activity.Reaction
  | .digit d => a.appendNumber d
  | .call =>
      match a.callState with
      | .idle => a.makeCall
      | .incoming _ => a.answerCall
      | .active _ | .outgoing _ => a.endCall
  | .endCall => if a.callState = .idle then a.clearOneChar else a.endCall
  | .softKey1 =>
      match a.callState with
      | .incoming _ | .outgoing _ => a.endCall
      | _ => a.still
  | .softKey2 =>
      match a.callState with
      | .incoming _ => a.answerCall
      | .active _ => a.toggleMute
      | _ => a.still
  | .actionCall => a.makeCall
  | .actionMute => a.toggleMute
  | .actionRedial => a.redial lastNumber
  | .actionClearAll => { a with currentNumber := [] }.still
  | .actionClearOne => a.clearOneChar

/-! ### The parts of the state -/

theorem hear_bound (a : Activity) (n : Notice) : (a.hear n).1.bound = a.bound := by
  cases n <;> rfl

theorem handleIncomingCallIntent_bound (caller : Option Str) (a : Activity) :
    (a.handleIncomingCallIntent caller).bound = a.bound := by
  unfold Activity.handleIncomingCallIntent
  split
  · rfl
  · split <;> rfl

theorem handleIncomingCallIntent_callState (caller : Option Str) (a : Activity) :
    (a.handleIncomingCallIntent caller).callState = a.callState ∨
      ∃ callerNumber ∈ caller, callerNumber ≠ [] ∧
        (a.handleIncomingCallIntent caller).callState = .incoming (displayNumber callerNumber) := by
  unfold Activity.handleIncomingCallIntent
  split
  · exact .inl rfl
  · rename_i callerNumber
    split
    · exact .inl rfl
    · rename_i hne
      exact .inr ⟨callerNumber, rfl, by simpa using hne, rfl⟩

theorem handleIncomingCallIntent_fresh {caller : Option Str} {a : Activity}
    (ha : a.callState.isInCall = false) :
    (a.handleIncomingCallIntent caller).callState.isInCall = false := by
  obtain hsame | ⟨callerNumber, -, -, hnew⟩ := handleIncomingCallIntent_callState caller a
  · rw [hsame]
    exact ha
  · rw [hnew]
    rfl

theorem syncCallState_bound (b : Bool) (a : Activity) : (a.syncCallState b).bound = a.bound := by
  unfold Activity.syncCallState
  split <;> rfl

theorem syncCallState_false (a : Activity) : (a.syncCallState false).callState = .idle := by
  unfold Activity.syncCallState
  split
  · contradiction
  · contradiction
  · assumption
  all_goals rfl

theorem syncCallState_true (a : Activity) : (a.syncCallState true).callState =
    if a.callState = .idle then .active false else a.callState := by
  unfold Activity.syncCallState
  split
  · rw [if_pos (by assumption)]
  · rw [if_neg (by assumption)]
  all_goals contradiction

/-- What a key can do, by the screen it is pressed on. -/
inductive Pressed (a : Activity) (k : Key) : Activity.Reaction → Prop where
  | stay (number request) (hrequest : request = none ∨ request = some .answerCall ∨
      ∃ digit, request = some (.sendDtmf digit)) :
      Pressed a k ⟨{ a with currentNumber := number }, request, [], none⟩
  | mute (muted) (hactive : a.callState = .active muted) :
      Pressed a k ⟨{ a with callState := .active !muted }, some (.setMute !muted), [], none⟩
  | dial (hk : k = .call ∨ k = .actionCall) (hidle : a.callState = .idle)
      (hnumber : a.currentNumber ≠ []) :
      Pressed a k ⟨{ a with callState := .outgoing a.currentNumber, currentNumber := [] },
        some (.makeCall a.currentNumber), [], some a.currentNumber⟩
  | hang (hbusy : a.callState ≠ .idle) :
      Pressed a k ⟨{ a with callState := .idle, currentNumber := [] }, some .endCall,
        a.missedEntry, none⟩

theorem pressed_still (a : Activity) (k : Key) (number : Str) :
    Pressed a k { a with currentNumber := number }.still :=
  .stay number none (.inl rfl)

theorem pressed_makeCall (a : Activity) {k : Key} (hk : k = .call ∨ k = .actionCall) :
    Pressed a k a.makeCall := by
  unfold Activity.makeCall
  split
  · rename_i h
    exact .dial hk h.1 h.2
  · exact pressed_still a k a.currentNumber

theorem pressed_toggleMute (a : Activity) (k : Key) : Pressed a k a.toggleMute := by
  unfold Activity.toggleMute
  split
  · exact .mute _ (by assumption)
  · exact pressed_still a k a.currentNumber

theorem pressed_appendNumber (digit : UInt8) (a : Activity) (k : Key) :
    Pressed a k (a.appendNumber digit) := by
  unfold Activity.appendNumber
  split
  · exact pressed_still a k _
  · exact .stay a.currentNumber _ (.inr (.inr ⟨digit, rfl⟩))
  · exact pressed_still a k a.currentNumber

theorem pressed_answerCall (a : Activity) (k : Key) : Pressed a k a.answerCall :=
  .stay a.currentNumber _ (.inr (.inl rfl))

theorem pressed_endCall {a : Activity} (hbusy : a.callState ≠ .idle) (k : Key) :
    Pressed a k a.endCall :=
  .hang hbusy

theorem pressed_onKeyDown (lastNumber : Str) (a : Activity) (k : Key) :
    Pressed a k (a.onKeyDown lastNumber k) := by
  cases k with
  | digit d => exact pressed_appendNumber d a _
  | call =>
    unfold Activity.onKeyDown
    simp only
    split
    · exact pressed_makeCall a (.inl rfl)
    · exact pressed_answerCall a _
    · exact pressed_endCall (by simp [*]) _
    · exact pressed_endCall (by simp [*]) _
  | endCall =>
    unfold Activity.onKeyDown
    simp only
    split
    · exact pressed_still a _ _
    · exact pressed_endCall (by assumption) _
  | softKey1 =>
    unfold Activity.onKeyDown
    simp only
    split
    · exact pressed_endCall (by simp [*]) _
    · exact pressed_endCall (by simp [*]) _
    · exact pressed_still a _ a.currentNumber
  | softKey2 =>
    unfold Activity.onKeyDown
    simp only
    split
    · exact pressed_answerCall a _
    · exact pressed_toggleMute a _
    · exact pressed_still a _ a.currentNumber
  | actionCall => exact pressed_makeCall a (.inr rfl)
  | actionMute => exact pressed_toggleMute a _
  | actionRedial =>
    unfold Activity.onKeyDown Activity.redial
    simp only
    split
    · exact pressed_still a _ a.currentNumber
    · exact pressed_still a _ lastNumber
  | actionClearAll => exact pressed_still a _ []
  | actionClearOne => exact pressed_still a _ _

theorem Pressed.bound {a : Activity} {k : Key} {r : Activity.Reaction} (h : Pressed a k r) :
    r.activity.bound = a.bound := by
  cases h <;> rfl

theorem Pressed.isInCall {a : Activity} {k : Key} {r : Activity.Reaction} (h : Pressed a k r)
    (ha : a.callState.isInCall = false) : r.activity.callState.isInCall = false := by
  cases h with
  | stay number request hrequest => exact ha
  | mute muted hactive =>
    rw [hactive] at ha
    cases ha
  | dial hk hidle hnumber => rfl
  | hang hbusy => rfl

end SimplePhone.App
