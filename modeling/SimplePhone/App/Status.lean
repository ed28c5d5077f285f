import SimplePhone.App.Step

/-! The line of status on the screen: the text that each function of the activity hands to
`updateDisplay`, or `none` where it does not call it. -/
namespace SimplePhone.App

open Service

namespace Activity

/-- Of `onCallEnded` and `endCall`. -/
def endStatus (a : Activity) : Str :=
  match a.callState with
  | .outgoing _ => utf8 "発信取消"
  | _ => utf8 "通話終了"

def hearStatus (a : Activity) : Notice → Option Str
  | .onStatus status => some status
  | .onDebug _ => none
  | .onIncomingCall callerNumber => some (utf8 "着信: " ++ callerNumber)
  | .onCallStarted => some (utf8 "通話中 0:00")
  | .onCallEnded => some a.endStatus
  | .onCallFailed reason => some (utf8 "通話失敗: " ++ reason)

def intentStatus (caller : Option Str) : Option Str :=
  match caller with
  | none => none
  | some callerNumber =>
      if callerNumber.isEmpty then none else some (utf8 "着信: " ++ callerNumber)

def syncStatus (actualInCall : Bool) (a : Activity) : Option Str :=
  match actualInCall, a.callState with
  | true, .idle => some (utf8 "通話中")
  | true, _ => none
  | false, .idle => none
  | false, .active _ => some (utf8 "通話終了")
  | false, .incoming _ => some (utf8 "着信終了")
  | false, .outgoing _ => some (utf8 "発信取消")

/-- Of `onServiceConnected`. -/
def connectStatus (actualInCall : Bool) (a : Activity) : Option Str :=
  if (a.syncCallState actualInCall).callState = .idle then some (utf8 "サービス接続済み")
  else a.syncStatus actualInCall

def makeCallStatus (a : Activity) : Option Str :=
  if a.callState = .idle ∧ a.currentNumber ≠ [] then some (utf8 "発信中: " ++ a.currentNumber)
  else none

def toggleMuteStatus (a : Activity) : Option Str :=
  match a.callState with
  | .active _ => none
  | _ => some (utf8 "通話中ではありません")

def redialStatus (lastNumber : Str) : Str :=
  if lastNumber = [] then utf8 "履歴がありません" else utf8 "リダイヤル: " ++ lastNumber

def keyStatus (lastNumber : Str) (a : Activity) : Key → Option Str
  | .digit _ => none
  | .call =>
      match a.callState with
      | .idle => a.makeCallStatus
      | .incoming _ => some (utf8 "応答中...")
      | .active _ | .outgoing _ => some a.endStatus
  | .endCall => if a.callState = .idle then none else some a.endStatus
  | .softKey1 =>
      match a.callState with
      | .incoming _ | .outgoing _ => some a.endStatus
      | _ => none
  | .softKey2 =>
      match a.callState with
      | .incoming _ => some (utf8 "応答中...")
      | _ => none
  | .actionCall => a.makeCallStatus
  | .actionMute => a.toggleMuteStatus
  | .actionRedial => some (redialStatus lastNumber)
  | .actionClearAll => none
  | .actionClearOne => none

end Activity

/-- The notice that the main looper delivers next. -/
def Phone.notice (p : Phone) : Option Notice :=
  match p.service.main with
  | .notify n :: _ => some n
  | _ => none

/-- It is heard by a bound activity only. -/
def Phone.heard (p : Phone) : Option Notice :=
  if p.activity.any Activity.bound then p.notice else none

/-- What a step of the app writes to the line of status; a new screen has a new one. -/
def Phone.status (p : Phone) : Action → Option Str
  | .service _ | .destroyActivity => none
  | .message => p.activity.bind fun a => p.heard.bind a.hearStatus
  | .intent source =>
      let announced := Activity.intentStatus ((takeIntent p.service source).bind Prod.snd)
      if p.activity.isNone then announced.or (some (utf8 "起動中...")) else announced
  | .recreate => (Activity.intentStatus p.intent).or (some (utf8 "起動中..."))
  | .serviceConnected => p.activity.bind (Activity.connectStatus (inCall p.service))
  | .resume => p.activity.bind (Activity.syncStatus (inCall p.service))
  | .key k => p.activity.bind fun a => a.keyStatus p.lastNumber k

/-! ### A change of the call state is announced -/

variable {a : Activity}

theorem hear_unannounced {n : Notice} (h : a.hearStatus n = none) : (a.hear n).1 = a := by
  cases n with
  | onDebug message => rfl
  | _ => cases h

theorem handleIncomingCallIntent_unannounced {caller : Option Str}
    (h : Activity.intentStatus caller = none) : a.handleIncomingCallIntent caller = a := by
  cases caller with
  | none => rfl
  | some callerNumber =>
    unfold Activity.intentStatus at h
    unfold Activity.handleIncomingCallIntent
    simp only at h ⊢
    split at h
    · rw [if_pos (by assumption)]
    · cases h

theorem syncCallState_unannounced {actualInCall : Bool} (h : a.syncStatus actualInCall = none) :
    a.syncCallState actualInCall = a := by
  unfold Activity.syncStatus at h
  unfold Activity.syncCallState
  cases actualInCall with
  | true =>
    cases hstate : a.callState with
    | idle =>
      rw [hstate] at h
      cases h
    | _ => rfl
  | false =>
    cases hstate : a.callState with
    | idle => rfl
    | _ =>
      rw [hstate] at h
      cases h

theorem makeCall_unannounced (h : a.makeCallStatus = none) : a.makeCall = a.still := by
  unfold Activity.makeCallStatus at h
  unfold Activity.makeCall
  split at h
  · cases h
  · rw [if_neg (by assumption)]

theorem toggleMute_unannounced (h : a.toggleMuteStatus = none) : ∃ muted,
    a.callState = .active muted ∧ a.toggleMute.activity.callState = .active !muted := by
  unfold Activity.toggleMuteStatus at h
  split at h
  · rename_i muted hactive
    refine ⟨muted, hactive, ?_⟩
    unfold Activity.toggleMute
    rw [hactive]
  · cases h

theorem appendNumber_callState (digit : UInt8) :
    (a.appendNumber digit).activity.callState = a.callState := by
  unfold Activity.appendNumber
  split
  all_goals rfl

/-- A key that is not announced at most mutes. -/
theorem onKeyDown_unannounced {lastNumber : Str} {k : Key} (h : a.keyStatus lastNumber k = none) :
    (a.onKeyDown lastNumber k).activity.callState = a.callState ∨
      ∃ muted, a.callState = .active muted ∧
        (a.onKeyDown lastNumber k).activity.callState = .active !muted := by
  unfold Activity.onKeyDown
  unfold Activity.keyStatus at h
  cases k with
  | digit d => exact .inl (appendNumber_callState d)
  | call =>
    cases hstate : a.callState with
    | idle =>
      simp only [hstate] at h ⊢
      rw [makeCall_unannounced h]
      exact .inl hstate
    | _ =>
      simp only [hstate] at h
      cases h
  | endCall =>
    simp only at h ⊢
    split at h
    · rw [if_pos (by assumption)]
      exact .inl rfl
    · cases h
  | softKey1 =>
    cases hstate : a.callState with
    | idle =>
      simp only
      exact .inl hstate
    | active muted =>
      simp only
      exact .inl hstate
    | _ =>
      simp only [hstate] at h
      cases h
  | softKey2 =>
    cases hstate : a.callState with
    | active muted =>
      right
      refine ⟨muted, rfl, ?_⟩
      unfold Activity.toggleMute
      simp only [hstate]
    | incoming callerNumber =>
      simp only [hstate] at h
      cases h
    | _ =>
      simp only
      exact .inl hstate
  | actionCall =>
    simp only at h ⊢
    rw [makeCall_unannounced h]
    exact .inl rfl
  | actionMute => exact .inr (toggleMute_unannounced h)
  | actionRedial => cases h
  | actionClearAll => exact .inl rfl
  | actionClearOne => exact .inl rfl

end SimplePhone.App
