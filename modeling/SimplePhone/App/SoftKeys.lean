import SimplePhone.App.Status

/-! The soft keys: the four positions of the guide, what is written there, and what the
keys do on the screen of the phone and on that of the settings. -/
namespace SimplePhone.App

/-- Top left, top right, bottom left and bottom right. -/
inductive Position where
  | one
  | two
  | three
  | four
deriving DecidableEq

def Position.number : Position → Nat
  | .one => 1
  | .two => 2
  | .three => 3
  | .four => 4

/-- `KEYCODE_F1` is 131. -/
def guideKeyCode (p : Position) : Nat := 131 + p.number - 1

/-- What can be assigned to a key. -/
inductive KeyAction where
  | nothing
  | redial
  | clearAll
  | clearOne
  | call
  | mute
  | volumeUp
  | volumeDown
  | settings
  | reset
  | history
deriving DecidableEq

def actionDefaults : Position → KeyAction
  | .one => .volumeUp
  | .two => .settings
  | .three => .volumeDown
  | .four => .nothing

def fKeyLabel : KeyAction → String
  | .nothing => "無効"
  | .redial => "リダイヤル"
  | .clearAll => "全消去"
  | .clearOne => "1文字削除"
  | .call => "発話"
  | .mute => "ミュート"
  | .volumeUp => "音量▲"
  | .volumeDown => "音量▼"
  | .settings => "設定"
  | .reset => "初期設定に戻す"
  | .history => "履歴"

def fKeyOptions : List KeyAction :=
  [.nothing, .redial, .clearAll, .clearOne, .call, .mute, .volumeUp, .volumeDown, .settings, .reset,
    .history]

/-- The next option of `cycleKey`. -/
def KeyAction.next (current : KeyAction) : KeyAction :=
  (fKeyOptions[(fKeyOptions.idxOf current + 1) % fKeyOptions.length]?).getD .nothing

/-! ### What the keys do -/

/-- What a soft key can do. -/
inductive Deed where
  /-- `endCall` of an incoming call -/
  | reject
  | answer
  /-- `endCall` of an outgoing call -/
  | cancel
  /-- `saveAndApply` -/
  | save
  /-- `handleKeyAction` -/
  | run (action : KeyAction)
deriving DecidableEq

/-- The keys that the state of the call gives a meaning of their own. -/
def softKey (callState : CallState) (keyCode : Nat) : Option Deed :=
  match callState with
  | .incoming _ =>
      if keyCode = guideKeyCode .one then some .reject
      else if keyCode = guideKeyCode .two then some .answer
      else none
  | .active _ => if keyCode = guideKeyCode .two then some (.run .mute) else none
  | .outgoing _ => if keyCode = guideKeyCode .one then some .cancel else none
  | .idle => none

/-- What a key of the phone leads to. -/
inductive Press where
  | deed (d : Deed)
  | key (k : Key)
  | ignored
deriving DecidableEq

/-- `MainActivity.onKeyDown`, by the codes of `KeyEvent`. -/
def press (actions : Position → KeyAction) (callState : CallState) (keyCode : Nat) : Press :=
  match softKey callState keyCode with
  | some d => .deed d
  | none =>
      if 7 ≤ keyCode ∧ keyCode ≤ 16 then .key (.digit (UInt8.ofNat (48 + (keyCode - 7))))
      else if keyCode = 5 then .key .call
      else if keyCode = 6 ∨ keyCode = 4 ∨ keyCode = 28 ∨ keyCode = 67 then .key .endCall
      else if keyCode = 17 then .key (.digit 42)
      else if keyCode = 18 then .key (.digit 35)
      else if keyCode = 59 ∨ keyCode = 131 then .deed (.run (actions .one))
      else if keyCode = 60 ∨ keyCode = 132 then .deed (.run (actions .two))
      else if keyCode = 61 ∨ keyCode = 133 then .deed (.run (actions .three))
      else if keyCode = 62 ∨ keyCode = 134 then .deed (.run (actions .four))
      else .ignored

/-- `SettingsActivity.onKeyDown`. -/
def settingsKey (keyCode : Nat) : Option Deed :=
  if keyCode = 132 then some (.run .reset)
  else if keyCode = 133 then some .save
  else none

/-- The key by which `onKeyDown` of the activity knows a deed. -/
def Deed.key : Deed → Option Key
  | .reject | .cancel => some .softKey1
  | .answer => some .softKey2
  | .save => none
  | .run action =>
      match action with
      | .redial => some .actionRedial
      | .clearAll => some .actionClearAll
      | .clearOne => some .actionClearOne
      | .call => some .actionCall
      | .mute => some .actionMute
      | .nothing | .volumeUp | .volumeDown | .settings | .reset | .history => none

/-! ### What is written -/

/-- The texts of `updateSoftKeysForState`. -/
def stateLabel (actions : Position → KeyAction) (callState : CallState) (p : Position) : String :=
  match p, callState with
  | .one, .incoming _ => "拒否"
  | .one, .outgoing _ => "発信取消"
  | .two, .incoming _ => "応答"
  | .two, .active _ => "ミュート切替"
  | p, _ => fKeyLabel (actions p)

/-- The texts of `SettingsActivity.setupSoftKeys`. -/
def settingsLabel : Position → Option String
  | .one => some "初期設定に戻す"
  | .two => some "設定保存"
  | .three | .four => none

def Deed.titles : Deed → List String
  | .reject => ["拒否"]
  | .answer => ["応答"]
  | .cancel => ["発信取消"]
  | .save => ["設定保存"]
  | .run .mute => [fKeyLabel .mute, "ミュート切替"]
  | .run action => [fKeyLabel action]

def deeds : List Deed := [.reject, .answer, .cancel, .save] ++ fKeyOptions.map .run

/-- What a text says that its key does. -/
def named (text : String) : Option Deed := deeds.find? fun d => d.titles.contains text

/-- A text names one deed only. -/
theorem named_title {d : Deed} {text : String} (h : text ∈ d.titles) : named text = some d := by
  cases d with
  | run action =>
    cases action with
    | mute =>
      rcases List.mem_cons.mp h with rfl | h
      · decide
      · rw [List.mem_singleton.mp h]
        decide
    | _ =>
      rw [List.mem_singleton.mp h]
      decide
  | _ =>
    rw [List.mem_singleton.mp h]
    decide

theorem named_fKeyLabel (action : KeyAction) : named (fKeyLabel action) = some (.run action) := by
  apply named_title
  cases action with
  | mute => exact List.mem_cons_self
  | _ => exact List.mem_singleton_self _

/-! ### The keys of the guide -/

variable (actions : Position → KeyAction) (callState : CallState) (p : Position)

/-- What the key of a position does. -/
def deedAt : Deed := (softKey callState (guideKeyCode p)).getD (.run (actions p))

theorem press_guideKeyCode :
    press actions callState (guideKeyCode p) = .deed (deedAt actions callState p) := by
  unfold press deedAt
  cases softKey callState (guideKeyCode p) with
  | some d => rfl
  | none => cases p <;> rfl

/-- The texts for the state of the call say what the keys do. -/
theorem named_stateLabel :
    named (stateLabel actions callState p) = some (deedAt actions callState p) := by
  cases callState with
  | idle =>
    have hlabel : stateLabel actions .idle p = fKeyLabel (actions p) := by cases p <;> rfl
    rw [hlabel]
    exact named_fKeyLabel (actions p)
  | outgoing number =>
    cases p with
    | one => exact named_title (d := .cancel) List.mem_cons_self
    | _ => exact named_fKeyLabel _
  | incoming callerNumber =>
    cases p with
    | one => exact named_title (d := .reject) List.mem_cons_self
    | two => exact named_title (d := .answer) List.mem_cons_self
    | _ => exact named_fKeyLabel _
  | active muted =>
    cases p with
    | two => exact named_title (d := .run .mute) (List.mem_cons_of_mem _ List.mem_cons_self)
    | _ => exact named_fKeyLabel _

/-- The texts of the assignments do so where no key has a meaning of its own, or only the
one it is assigned. -/
theorem named_assigned_iff :
    (∀ p, named (fKeyLabel (actions p)) = some (deedAt actions callState p)) ↔
      callState = .idle ∨ callState.isInCall = true ∧ actions .two = .mute := by
  have hrun (p : Position) : named (fKeyLabel (actions p)) = some (deedAt actions callState p) ↔
      .run (actions p) = deedAt actions callState p := by
    rw [named_fKeyLabel, Option.some.injEq]
  cases callState with
  | idle =>
    refine iff_of_true (fun p => ?_) (.inl rfl)
    rw [hrun]
    rfl
  | outgoing number =>
    refine iff_of_false (fun h => ?_) (by simp [CallState.isInCall])
    have hone := (hrun .one).mp (h .one)
    cases hone
  | incoming callerNumber =>
    refine iff_of_false (fun h => ?_) (by simp [CallState.isInCall])
    have hone := (hrun .one).mp (h .one)
    cases hone
  | active muted =>
    constructor
    · intro h
      have htwo := (hrun .two).mp (h .two)
      exact .inr ⟨rfl, Deed.run.inj htwo⟩
    · rintro (hidle | ⟨-, hmute⟩) p
      · cases hidle
      · rw [hrun]
        cases p with
        | two =>
          rw [hmute]
          rfl
        | _ => rfl

/-- What the keys do hangs on the kind of the state. -/
theorem deedAt_active (muted muted' : Bool) :
    deedAt actions (.active muted) p = deedAt actions (.active muted') p := rfl

end SimplePhone.App
