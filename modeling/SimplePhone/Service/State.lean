import SimplePhone.Native.Invariant

/-! `SipService` and `SipManager` over the native layer: the fields of the service,
the queue of its executor, the messages on the main looper, the ring timer, and
the devices these drive. -/
namespace SimplePhone.Service

open Native

/-- What the listeners are told. -/
inductive Notice where
  | onStatus (status : Str)
  | onIncomingCall (callerNumber : Str)
  | onCallStarted
  | onCallEnded
  | onCallFailed (reason : Str)
  | onDebug (message : Str)
deriving DecidableEq

/-- A runnable on the main looper. -/
inductive Message where
  | startRinging
  | stopRinging
  | notify (notice : Notice)
deriving DecidableEq

/-- A runnable on `sipExecutor`. -/
inductive Task where
  | ensureSipManager
  | reregisterIfReady
  | makeCall (number : Str)
  | answerCall
  | endCall
  | sendDtmf (digit : UInt8)
  | setMute (mute : Bool)
  | applySettings (accountChanged : Bool)
deriving DecidableEq

/-- The statements of a running task that other threads can come between. -/
inductive Op where
  | nativeSetCallback
  | setAudioMode (inCall : Bool)
  | remainRun (w : Work)
  /-- `nativeReregister(SipConfig.buildAor(context))` -/
  | nativeReregister
  /-- `makeCall` to the own number reports a failure without asking the native layer. -/
  | refuseOwnNumber (number : Str)
  | onDebug (message : Str)
  /-- `sipManager = mgr` -/
  | setSipManager
deriving DecidableEq

structure State where
  native : Globals
  /-- `g_callback` is not `NULL`. -/
  gCallback : Bool
  /-- The watchdog thread runs. -/
  watchdog : Bool
  /-- The account in the shared preferences. -/
  config : SipConfig
  /-- The service has not been destroyed. -/
  alive : Bool
  sipManager : Bool
  callActive : Bool
  ringing : Bool
  currentCaller : Option Str
  networkRearmNeeded : Bool
  queue : List Task
  /-- What the running task still has to do. -/
  ops : List Op
  main : List Message
  /-- `ringTimeoutRunnable` is pending. -/
  ringTimer : Bool
  /-- `MODE_IN_COMMUNICATION`, as opposed to `MODE_NORMAL`. -/
  audioMode : Bool
  /-- Ringtone and vibrator, of a release build with both configured. -/
  ringtone : Bool
  incomingNotification : Option Str
  missedNotification : Option Str
  /-- Activity starts under way; with a caller for `INCOMING_CALL_ACTION`. -/
  intents : List (Option Str)
deriving DecidableEq

/-- `onCreate` has run. The native layer is that of the process, before its first
handler. -/
def State.initial (account : Buffers) (config : SipConfig) : State where
  native := Globals.initial account
  gCallback := false
  watchdog := false
  config := config
  alive := true
  sipManager := false
  callActive := false
  ringing := false
  currentCaller := none
  networkRearmNeeded := false
  queue := [.ensureSipManager]
  ops := []
  main := []
  ringTimer := false
  audioMode := false
  ringtone := false
  incomingNotification := none
  missedNotification := none
  intents := []

namespace State

/-! ### `SipService` as the callback of `SipManager` -/

def post (m : Message) (s : State) : State := { s with main := s.main ++ [m] }

def notifyListeners (n : Notice) (s : State) : State := s.post (.notify n)

def showMainActivity (callerNumber : Option Str) (s : State) : State :=
  { s with intents := s.intents ++ [callerNumber] }

def endRingingAndNotify (n : Notice) (s : State) : State :=
  ({ s with incomingNotification := none }.post .stopRinging).notifyListeners n

def onIncomingCall (callerNumber : Str) (s : State) : State :=
  -- the timer of an earlier call is replaced
  let s := { s with ringing := true, currentCaller := some callerNumber, ringTimer := true }
  let s := { s.post .startRinging with incomingNotification := some callerNumber }
  (s.showMainActivity (some callerNumber)).notifyListeners (.onIncomingCall callerNumber)

def onCallStarted (s : State) : State :=
  ({ s with callActive := true }.endRingingAndNotify .onCallStarted).showMainActivity none

def onCallEnded (s : State) : State :=
  { s with callActive := false }.endRingingAndNotify .onCallEnded

def onCallFailed (reason : Str) (s : State) : State :=
  { s with callActive := false }.endRingingAndNotify (.onCallFailed reason)

/-! ### The callback object of `SipManager.start` -/

def setAudioMode (inCall : Bool) (s : State) : State := { s with audioMode := inCall }

def callback (s : State) : Callback → State
  | .onRegistered => s.notifyListeners (.onStatus (utf8 "登録済み"))
  | .onRegistrationFailed reason => s.notifyListeners (.onStatus (utf8 "登録失敗: " ++ reason))
  | .onIncomingCall callerNumber => s.onIncomingCall callerNumber
  | .onCallStarted => (s.setAudioMode true).onCallStarted
  | .onCallEnded => (s.setAudioMode false).onCallEnded
  | .onCallFailed reason => (s.setAudioMode false).onCallFailed reason
  | .onDebug message => s.notifyListeners (.onDebug message)

/-- The callbacks of a native step, oldest first. Without a callback object
`call_callback` returns at once. -/
def callbacks (delivered : List Delivery) (s : State) : State :=
  if s.gCallback then delivered.foldl (fun s d => s.callback d.callback) s else s

/-! ### Tasks of the executor -/

def execute (task : Task) (s : State) : State := { s with queue := s.queue ++ [task] }

/-- The statements of a task, as far as its checks let it come. -/
def taskOps (s : State) : Task → List Op
  | .ensureSipManager =>
      if s.sipManager then []
      else [.nativeSetCallback, .remainRun .register, .onDebug (utf8 "SIP 登録中..."), .setSipManager]
  | .reregisterIfReady =>
      if s.config.isConfigured && s.sipManager && s.native.gRegistered then [.nativeReregister]
      else []
  | .makeCall number =>
      if !s.sipManager then []
      else if number = s.config.user then [.refuseOwnNumber number]
      else [.remainRun (.makecall (dialUri s.native.account number))]
  | .answerCall => if s.sipManager then [.setAudioMode true, .remainRun .answer] else []
  | .endCall => if s.sipManager then [.remainRun .endcall, .setAudioMode false] else []
  | .sendDtmf digit => if s.sipManager then [.remainRun (.dtmf digit)] else []
  | .setMute mute => if s.sipManager then [.remainRun (.mute mute)] else []
  | .applySettings accountChanged =>
      if s.sipManager then
        (if accountChanged then [.nativeReregister] else []) ++
          [.onDebug (utf8 "設定を適用しました" ++
            if accountChanged then utf8 "（再登録）" else [])]
      else []

def remainRun (w : Work) (s : State) : State :=
  { s with native := Native.remainRun w s.native.begin }

def runOp (s : State) : Op → State
  | .nativeSetCallback => { s with gCallback := true }
  | .setAudioMode inCall => s.setAudioMode inCall
  | .remainRun w => s.remainRun w
  | .nativeReregister => s.remainRun (.reregister s.config.buildAor)
  | .refuseOwnNumber _ => s.onCallFailed (utf8 "自分自身には発信できません")
  | .onDebug message => s.notifyListeners (.onDebug message)
  | .setSipManager => { s with sipManager := true }

/-! ### The main thread -/

def handleMessage (s : State) : Message → State
  | .startRinging => { s with ringtone := true }
  | .stopRinging => { s with ringtone := false }
  | .notify _ => s

def makeCall (number : Str) (s : State) : State := s.execute (.makeCall number)

def answerCall (s : State) : State := (s.post .stopRinging).execute .answerCall

def endCall (s : State) : State := (s.post .stopRinging).execute .endCall

/-- The guard of `onRingTimeout`. -/
def timeoutPasses (s : State) : Bool := s.ringing && !s.callActive

def showMissedCallNotification (caller : Str) (s : State) : State :=
  { s with incomingNotification := none, missedNotification := some caller }

def onRingTimeout (s : State) : State :=
  if s.timeoutPasses then
    let caller := s.currentCaller.getD (utf8 "不明")
    (((s.post .stopRinging).execute .endCall).notifyListeners
      (.onStatus (utf8 "不在着信: " ++ caller))).showMissedCallNotification caller
  else s

/-- `SipManager.stop`. `nativeDestroy` only drops the callback object. -/
def stop (s : State) : State :=
  if s.sipManager then
    { (s.remainRun .unregister).setAudioMode false with gCallback := false, sipManager := false }
  else s

/-- `onDestroy`: `shutdownNow` drops the tasks that have not begun. -/
def onDestroy (s : State) : State :=
  { { s with queue := [], ringtone := false }.stop with alive := false }

end State

end SimplePhone.Service
