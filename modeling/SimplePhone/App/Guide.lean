import SimplePhone.App.SoftKeys

/-! The guide on the screen of the phone and on that of the settings. The labels are written
on occasions: for the assignments alone when the phone comes to the foreground, and for the
state of the call with each line of status. -/
namespace SimplePhone.App

open Service Transition

/-- `MainActivity`, with the labels of its window. -/
structure MainScreen where
  activity : Activity
  hasSoftKeyGuide : Bool
  labels : Position → Option String

inductive Foreground where
  | nothing
  | main
  | settings
deriving DecidableEq

structure Screens where
  main : Option MainScreen
  /-- There is a `SettingsActivity`. -/
  settings : Bool
  /-- The activity that has been resumed and not paused. -/
  foreground : Foreground
  actions : Position → KeyAction
  lastNumber : Str

namespace MainScreen

/-- Of a device that has the guide. -/
def setupSoftKeys (actions : Position → KeyAction) (m : MainScreen) : MainScreen :=
  { m with labels := fun p => some (fKeyLabel (actions p)) }

def updateSoftKeysForState (actions : Position → KeyAction) (m : MainScreen) : MainScreen :=
  if m.hasSoftKeyGuide then
    { m with labels := fun p => some (stateLabel actions m.activity.callState p) }
  else m

/-- The activity changes, and `updateDisplay` is called where there is a status. -/
def become (actions : Position → KeyAction) (a : Activity) (status : Option Str)
    (m : MainScreen) : MainScreen :=
  if status.isSome then { m with activity := a }.updateSoftKeysForState actions
  else { m with activity := a }

def poll (actions : Position → KeyAction) (actualInCall : Bool) (m : MainScreen) : MainScreen :=
  if m.activity.bound then
    m.become actions (m.activity.syncCallState actualInCall) (m.activity.syncStatus actualInCall)
  else m

def onResume (actions : Position → KeyAction) (actualInCall : Bool) (m : MainScreen) :
    MainScreen :=
  { m.setupSoftKeys actions with hasSoftKeyGuide := true }.poll actions actualInCall

end MainScreen

namespace Screens

def initial (actions : Position → KeyAction) (lastNumber : Str) : Screens :=
  ⟨none, false, .nothing, actions, lastNumber⟩

/-- What reaches the two activities; whether a call is on is up to the service. -/
inductive Action where
  | hear (n : Notice)
  /-- `onCreate` or `onNewIntent`, with the caller of an incoming call -/
  | intent (caller : Option Str)
  | serviceConnected (actualInCall : Bool)
  | serviceDisconnected
  /-- another line of status: of the timer of a call, or of a permission -/
  | status
  | destroy
  | resume (actualInCall : Bool)
  | createSettings
  | resumeSettings
  | destroySettings
  /-- the activity in the foreground is paused -/
  | pause
  | key (keyCode : Nat)
  /-- a button of the settings -/
  | cycleKey (p : Position)
deriving DecidableEq

def keyDown (s : Screens) (m : MainScreen) (k : Key) : Screens :=
  { s with
    main := some (m.become s.actions (m.activity.onKeyDown s.lastNumber k).activity
      (m.activity.keyStatus s.lastNumber k))
    lastNumber := (m.activity.onKeyDown s.lastNumber k).lastNumber.getD s.lastNumber }

def resetToDefaults (s : Screens) (m : MainScreen) : Screens :=
  { s with
    actions := actionDefaults
    main := some ((m.setupSoftKeys actionDefaults).updateSoftKeysForState actionDefaults) }

/-- The screens that a key opens come later. -/
def onKeyDown (s : Screens) (m : MainScreen) (keyCode : Nat) : Screens :=
  match press s.actions m.activity.callState keyCode with
  | .deed (.run .reset) => s.resetToDefaults m
  | .deed d => (d.key.map (s.keyDown m)).getD s
  | .key k => s.keyDown m k
  | .ignored => s

def step (s : Screens) : Action → Option Screens
  | .hear n =>
      match s.main with
      | some m =>
          if m.activity.bound then
            some { s with
              main := some (m.become s.actions (m.activity.hear n).1 (m.activity.hearStatus n)) }
          else none
      | none => none
  | .intent caller =>
      if s.foreground = .main then none
      else
        match s.main with
        | none =>
            let a := Activity.created.handleIncomingCallIntent caller
            some { s with main := some ⟨a, false, fun _ => none⟩ }
        | some m =>
            some { s with
              main := some (m.become s.actions (m.activity.handleIncomingCallIntent caller)
                (Activity.intentStatus caller)) }
  | .serviceConnected actualInCall =>
      match s.main with
      | some m =>
          if m.activity.bound then none
          else
            some { s with
              main := some (m.become s.actions
                ({ m.activity with bound := true }.syncCallState actualInCall)
                ({ m.activity with bound := true }.connectStatus actualInCall)) }
      | none => none
  | .serviceDisconnected =>
      match s.main with
      | some m =>
          if m.activity.bound then
            some { s with
              main := some (m.become s.actions { m.activity with bound := false }
                (some (utf8 "サービス切断"))) }
          else none
      | none => none
  | .status => s.main.map fun m => { s with main := some (m.updateSoftKeysForState s.actions) }
  | .destroy => if s.foreground = .main then none else some { s with main := none }
  | .resume actualInCall =>
      match s.foreground, s.main with
      | .nothing, some m =>
          some { s with main := some (m.onResume s.actions actualInCall), foreground := .main }
      | _, _ => none
  | .createSettings => if s.settings then none else some { s with settings := true }
  | .resumeSettings =>
      if s.foreground = .nothing ∧ s.settings = true then some { s with foreground := .settings }
      else none
  | .destroySettings =>
      if s.foreground = .settings then none else some { s with settings := false }
  | .pause => if s.foreground = .nothing then none else some { s with foreground := .nothing }
  | .key keyCode =>
      match s.foreground with
      | .nothing => none
      | .main => s.main.map fun m => s.onKeyDown m keyCode
      | .settings =>
          if settingsKey keyCode = some (.run .reset) then some { s with actions := actionDefaults }
          else some s
  | .cycleKey p =>
      if s.foreground = .settings then
        some { s with actions := fun q => if q = p then (s.actions q).next else s.actions q }
      else none

def machine : Machine Screens Action where
  start s := ∃ actions lastNumber, s = initial actions lastNumber
  step := step

/-! ### Labels and keys -/

/-- The label at a position of the guide, if one is shown. -/
def shown (s : Screens) (p : Position) : Option String :=
  match s.foreground with
  | .nothing => none
  | .main => s.main.bind fun m => m.labels p
  | .settings => if s.settings then settingsLabel p else none

/-- What a hardware key does that has the soft keys' kind of meaning. -/
def performs (s : Screens) (keyCode : Nat) : Option Deed :=
  match s.foreground with
  | .nothing => none
  | .main => s.main.bind fun m =>
      match press s.actions m.activity.callState keyCode with
      | .deed d => some d
      | _ => none
  | .settings => settingsKey keyCode

/-- Every label that is shown names what its key does. -/
def LabelsTell (s : Screens) : Prop :=
  ∀ p text, s.shown p = some text →
    ∃ d, named text = some d ∧ s.performs (guideKeyCode p) = some d

/-- The phone comes to the foreground without a call, or with one that turns out to have
ended, or with a mute key that is assigned what it does. -/
def Welcome (s : Screens) : Action → Prop
  | .resume actualInCall => ∀ m ∈ s.main,
      m.activity.callState = .idle ∨ m.activity.bound = true ∧ actualInCall = false ∨
        m.activity.callState.isInCall = true ∧ s.actions .two = .mute
  | _ => True

/-- The steps after which the labels tell what the keys do: the settings stay away. -/
def Labelled (s : Screens) (a : Action) : Prop := a ≠ .resumeSettings ∧ s.Welcome a

end Screens

/-! ### The labels of the phone -/

/-- The labels in the window name what the keys do. -/
def MainScreen.Says (actions : Position → KeyAction) (m : MainScreen) : Prop :=
  ∀ p text, m.labels p = some text → named text = some (deedAt actions m.activity.callState p)

/-- Two states in which the keys do the same. -/
def CallState.Alike (u v : CallState) : Prop :=
  v = u ∨ ∃ muted, u = .active muted ∧ v = .active !muted

variable {actions : Position → KeyAction} {m : MainScreen} {a : Activity} {status : Option Str}

theorem CallState.Alike.deedAt {u v : CallState} (h : u.Alike v) (p : Position) :
    deedAt actions v p = deedAt actions u p := by
  obtain rfl | ⟨muted, rfl, rfl⟩ := h
  · rfl
  · exact deedAt_active actions p (!muted) muted

theorem MainScreen.updateSoftKeysForState_activity :
    (m.updateSoftKeysForState actions).activity = m.activity ∧
      (m.updateSoftKeysForState actions).hasSoftKeyGuide = m.hasSoftKeyGuide := by
  unfold MainScreen.updateSoftKeysForState
  split
  · exact ⟨rfl, rfl⟩
  · exact ⟨rfl, rfl⟩

theorem MainScreen.updateSoftKeysForState_says (hguide : m.hasSoftKeyGuide = true) :
    (m.updateSoftKeysForState actions).Says actions := by
  unfold MainScreen.updateSoftKeysForState
  rw [if_pos hguide]
  rintro p text ⟨⟩
  exact named_stateLabel actions m.activity.callState p

theorem MainScreen.become_guide :
    (m.become actions a status).hasSoftKeyGuide = m.hasSoftKeyGuide := by
  unfold MainScreen.become
  split
  · exact MainScreen.updateSoftKeysForState_activity.2
  · rfl

/-- A change of the activity that is announced, or is none for the keys. -/
theorem MainScreen.Says.become (h : m.Says actions) (hguide : m.hasSoftKeyGuide = true)
    (hquiet : status = none → m.activity.callState.Alike a.callState) :
    (m.become actions a status).Says actions := by
  unfold MainScreen.become
  cases status with
  | some text => exact MainScreen.updateSoftKeysForState_says hguide
  | none =>
    intro p text htext
    change _ = some (deedAt actions a.callState p)
    rw [(hquiet rfl).deedAt]
    exact h p text htext

theorem MainScreen.onResume_guide {actualInCall : Bool} :
    (m.onResume actions actualInCall).hasSoftKeyGuide = true := by
  unfold MainScreen.onResume MainScreen.poll
  split
  · exact MainScreen.become_guide
  · rfl

theorem MainScreen.setupSoftKeys_says_iff (guide : Bool) :
    MainScreen.Says actions { m.setupSoftKeys actions with hasSoftKeyGuide := guide } ↔
      (m.activity.callState = .idle ∨
        m.activity.callState.isInCall = true ∧ actions .two = .mute) := by
  rw [← named_assigned_iff]
  constructor
  · intro h p
    exact h p _ rfl
  · rintro h p text ⟨⟩
    exact h p

theorem MainScreen.become_says_iff (hguide : m.hasSoftKeyGuide = true)
    (hquiet : status = none → a = m.activity) :
    (m.become actions a status).Says actions ↔ status.isSome = true ∨ m.Says actions := by
  unfold MainScreen.become
  cases status with
  | some text => exact iff_of_true (MainScreen.updateSoftKeysForState_says hguide) (.inl rfl)
  | none =>
    rw [hquiet rfl]
    exact (or_iff_right nofun).symm

theorem isSome_syncStatus (actualInCall : Bool) :
    (a.syncStatus actualInCall).isSome = true ↔ (actualInCall = true ↔ a.callState = .idle) := by
  unfold Activity.syncStatus
  cases actualInCall with
  | true => cases a.callState <;> simp
  | false => cases a.callState <;> simp

/-- When the phone comes to the foreground its labels are those of the assignments, unless
the poll finds news. -/
theorem MainScreen.onResume_says_iff (actualInCall : Bool) :
    (m.onResume actions actualInCall).Says actions ↔
      (m.activity.callState = .idle ∨ m.activity.bound = true ∧ actualInCall = false ∨
        m.activity.callState.isInCall = true ∧ actions .two = .mute) := by
  have hassigned :
      MainScreen.Says actions { m.setupSoftKeys actions with hasSoftKeyGuide := true } ↔ _ :=
    MainScreen.setupSoftKeys_says_iff true
  obtain ⟨hactivity, hguide⟩ : { m.setupSoftKeys actions with hasSoftKeyGuide := true }.activity =
      m.activity ∧ MainScreen.hasSoftKeyGuide
        { m.setupSoftKeys actions with hasSoftKeyGuide := true } = true := ⟨rfl, rfl⟩
  unfold MainScreen.onResume MainScreen.poll
  generalize { m.setupSoftKeys actions with hasSoftKeyGuide := true } = m' at *
  rw [hactivity]
  by_cases hbound : m.activity.bound = true
  · have hnews : (m.activity.syncStatus actualInCall).isSome = true ↔ _ :=
      isSome_syncStatus actualInCall
    rw [if_pos hbound, MainScreen.become_says_iff hguide, hassigned, hnews]
    · cases actualInCall <;> by_cases hidle : m.activity.callState = .idle <;> simp [hidle, hbound]
    · rw [hactivity]
      exact syncCallState_unannounced
  · rw [if_neg hbound, hassigned]
    simp [hbound]

namespace Screens

variable {s t : Screens}

/-! ### One step -/

/-- A phone in the foreground has found its guide; settings in the foreground are there. -/
structure Guided (s : Screens) : Prop where
  guide : s.foreground = .main → ∀ m ∈ s.main, m.hasSoftKeyGuide = true
  settings : s.foreground = .settings → s.settings = true

def MainTells (s : Screens) : Prop :=
  s.foreground = .main → ∀ m ∈ s.main, m.Says s.actions

theorem labelsTell_iff (h : s.Guided) :
    s.LabelsTell ↔ s.MainTells ∧ s.foreground ≠ .settings := by
  unfold LabelsTell MainTells
  cases hfore : s.foreground with
  | nothing =>
    refine iff_of_true ?_ ⟨nofun, nofun⟩
    intro p text htext
    unfold shown at htext
    rw [hfore] at htext
    cases htext
  | settings =>
    refine iff_of_false ?_ (fun h => h.2 rfl)
    intro htells
    -- the label at the top left is of the key at the top right
    obtain ⟨d, -, hd⟩ := htells .one "初期設定に戻す" (by
      unfold shown
      rw [hfore, h.settings hfore]
      rfl)
    unfold performs at hd
    rw [hfore] at hd
    cases hd
  | main =>
    have hpress (m : MainScreen) (hm : s.main = some m) (p : Position) :
        s.performs (guideKeyCode p) = some (deedAt s.actions m.activity.callState p) := by
      unfold performs
      rw [hfore, hm]
      simp only [Option.bind_some]
      rw [press_guideKeyCode]
    have hshown (m : MainScreen) (hm : s.main = some m) (p : Position) :
        s.shown p = m.labels p := by
      unfold shown
      rw [hfore, hm]
      rfl
    constructor
    · intro htells
      refine ⟨fun _ m hm p text htext => ?_, nofun⟩
      obtain ⟨d, hnamed, hd⟩ := htells p text ((hshown m hm p).trans htext)
      rw [hnamed, ← hd, hpress m hm p]
    · rintro ⟨hnames, -⟩ p text htext
      cases hm : s.main with
      | none =>
        unfold shown at htext
        rw [hfore, hm] at htext
        cases htext
      | some m =>
        rw [hshown m hm p] at htext
        exact ⟨_, hnames rfl m hm p text htext, hpress m hm p⟩

/-! What a step of the phone does to its labels. -/

theorem Guided.congr (h : s.Guided) (hfore : t.foreground = s.foreground)
    (hsettings : t.settings = s.settings)
    (hmain : ∀ m' ∈ t.main, ∃ m ∈ s.main, m'.hasSoftKeyGuide = m.hasSoftKeyGuide) : t.Guided := by
  constructor
  · intro hmainFore m' hm'
    obtain ⟨m, hm, hguide⟩ := hmain m' hm'
    rw [hguide]
    exact h.guide (hfore ▸ hmainFore) m hm
  · intro hsettingsFore
    rw [hsettings]
    exact h.settings (hfore ▸ hsettingsFore)

theorem become_tells (h : s.MainTells) (hg : s.Guided) {m : MainScreen} (hm : s.main = some m)
    {a : Activity} {status : Option Str}
    (hquiet : status = none → m.activity.callState.Alike a.callState)
    (ht : t.main = some (m.become s.actions a status)) (hfore : t.foreground = s.foreground)
    (hsettings : t.settings = s.settings) (hactions : t.actions = s.actions) :
    t.Guided ∧ t.MainTells := by
  constructor
  · apply hg.congr hfore hsettings
    intro m' hm'
    rw [ht] at hm'
    cases hm'
    exact ⟨m, hm, MainScreen.become_guide⟩
  · intro hmainFore m' hm'
    rw [hfore] at hmainFore
    rw [ht] at hm'
    cases hm'
    rw [hactions]
    exact (h hmainFore m hm).become (hg.guide hmainFore m hm) hquiet

theorem resetToDefaults_tells (hg : s.Guided) {m : MainScreen} (hm : s.main = some m) :
    (s.resetToDefaults m).Guided ∧ (s.resetToDefaults m).MainTells := by
  constructor
  · refine Guided.congr hg ?_ ?_ ?_
    · rfl
    · rfl
    · rintro m' ⟨⟩
      exact ⟨m, hm, MainScreen.updateSoftKeysForState_activity.2⟩
  · rintro hfore m' ⟨⟩
    exact MainScreen.updateSoftKeysForState_says (hg.guide hfore m hm)

theorem onKeyDown_tells (h : s.MainTells) (hg : s.Guided) {m : MainScreen}
    (hm : s.main = some m) (keyCode : Nat) :
    (s.onKeyDown m keyCode).Guided ∧ (s.onKeyDown m keyCode).MainTells := by
  have hkey (k : Key) : (s.keyDown m k).Guided ∧ (s.keyDown m k).MainTells :=
    become_tells h hg hm onKeyDown_unannounced rfl rfl rfl rfl
  unfold onKeyDown
  split
  · exact resetToDefaults_tells hg hm
  · rename_i d hne hpress
    cases d.key with
    | none => exact ⟨hg, h⟩
    | some k => exact hkey k
  · exact hkey _
  · exact ⟨hg, h⟩

/-- Away from the foreground nothing is said. -/
theorem mainTells_of_away (h : t.foreground ≠ .main) : t.MainTells := fun hfore => absurd hfore h

theorem hear_tells (h : s.MainTells) (hg : s.Guided) {n : Notice}
    (ht : s.step (.hear n) = some t) : t.Guided ∧ t.MainTells := by
  simp only [step] at ht
  cases hm : s.main with
  | none =>
    rw [hm] at ht
    cases ht
  | some m =>
    rw [hm] at ht
    simp only at ht
    split at ht
    · cases ht
      refine become_tells h hg hm ?_ rfl rfl rfl rfl
      intro hstatus
      rw [hear_unannounced hstatus]
      exact .inl rfl
    · cases ht

theorem intent_tells (h : s.MainTells) (hg : s.Guided) {caller : Option Str}
    (ht : s.step (.intent caller) = some t) : t.Guided ∧ t.MainTells := by
  simp only [step] at ht
  split at ht
  · cases ht
  · rename_i haway
    cases hm : s.main with
    | none =>
      rw [hm] at ht
      cases ht
      exact ⟨⟨fun hfore => absurd hfore haway, hg.settings⟩, mainTells_of_away haway⟩
    | some m =>
      rw [hm] at ht
      cases ht
      refine become_tells h hg hm ?_ rfl rfl rfl rfl
      intro hstatus
      rw [handleIncomingCallIntent_unannounced hstatus]
      exact .inl rfl

theorem connect_unannounced {actualInCall : Bool} (h : a.connectStatus actualInCall = none) :
    a.syncCallState actualInCall = a := by
  unfold Activity.connectStatus at h
  split at h
  · cases h
  · exact syncCallState_unannounced h

theorem serviceConnected_tells (h : s.MainTells) (hg : s.Guided) {actualInCall : Bool}
    (ht : s.step (.serviceConnected actualInCall) = some t) : t.Guided ∧ t.MainTells := by
  simp only [step] at ht
  cases hm : s.main with
  | none =>
    rw [hm] at ht
    cases ht
  | some m =>
    rw [hm] at ht
    simp only at ht
    split at ht
    · cases ht
    · cases ht
      refine become_tells h hg hm ?_ rfl rfl rfl rfl
      intro hstatus
      rw [connect_unannounced hstatus]
      exact .inl rfl

theorem serviceDisconnected_tells (h : s.MainTells) (hg : s.Guided)
    (ht : s.step .serviceDisconnected = some t) : t.Guided ∧ t.MainTells := by
  simp only [step] at ht
  cases hm : s.main with
  | none =>
    rw [hm] at ht
    cases ht
  | some m =>
    rw [hm] at ht
    simp only at ht
    split at ht
    · cases ht
      refine become_tells h hg hm ?_ rfl rfl rfl rfl
      rintro ⟨⟩
    · cases ht

theorem resume_tells {actualInCall : Bool}
    (ht : s.step (.resume actualInCall) = some t) :
    t.Guided ∧ (t.MainTells ↔ s.Welcome (.resume actualInCall)) := by
  simp only [step] at ht
  split at ht
  · rename_i m hfore hm
    cases ht
    have hnames : (m.onResume s.actions actualInCall).Says s.actions ↔ _ :=
      MainScreen.onResume_says_iff actualInCall
    refine ⟨⟨?_, nofun⟩, ?_⟩
    · rintro - m' ⟨⟩
      exact MainScreen.onResume_guide
    · constructor
      · intro htells m' hm'
        rw [hm] at hm'
        cases hm'
        exact hnames.mp (htells rfl _ rfl)
      · rintro hwelcome - m' ⟨⟩
        exact hnames.mpr (hwelcome m hm)
  · cases ht

theorem step_tells (h : s.MainTells) (hg : s.Guided) {a : Action} (ht : s.step a = some t) :
    t.Guided ∧ (t.MainTells ↔ s.Welcome a) := by
  have hboth (hthen : t.Guided ∧ t.MainTells) (hwelcome : s.Welcome a) :
      t.Guided ∧ (t.MainTells ↔ s.Welcome a) := ⟨hthen.1, iff_of_true hthen.2 hwelcome⟩
  cases a with
  | hear n => exact hboth (hear_tells h hg ht) trivial
  | intent caller => exact hboth (intent_tells h hg ht) trivial
  | serviceConnected actualInCall => exact hboth (serviceConnected_tells h hg ht) trivial
  | serviceDisconnected => exact hboth (serviceDisconnected_tells h hg ht) trivial
  | status =>
    obtain ⟨m, hm, rfl⟩ := Option.map_eq_some_iff.mp ht
    refine hboth ⟨?_, ?_⟩ trivial
    · refine Guided.congr hg ?_ ?_ ?_
      · rfl
      · rfl
      · rintro m' ⟨⟩
        exact ⟨m, hm, MainScreen.updateSoftKeysForState_activity.2⟩
    · rintro hfore m' ⟨⟩
      exact MainScreen.updateSoftKeysForState_says (hg.guide hfore m hm)
  | destroy =>
    simp only [step] at ht
    split at ht
    · cases ht
    · rename_i haway
      cases ht
      exact hboth ⟨⟨fun hfore => absurd hfore haway, hg.settings⟩, mainTells_of_away haway⟩ trivial
  | resume actualInCall => exact resume_tells ht
  | createSettings =>
    simp only [step] at ht
    split at ht
    · cases ht
    · cases ht
      exact hboth ⟨⟨hg.guide, fun _ => rfl⟩, h⟩ trivial
  | resumeSettings =>
    simp only [step] at ht
    split at ht
    · rename_i hthere
      cases ht
      exact hboth ⟨⟨nofun, fun _ => hthere.2⟩, mainTells_of_away nofun⟩ trivial
    · cases ht
  | destroySettings =>
    simp only [step] at ht
    split at ht
    · cases ht
    · rename_i haway
      cases ht
      exact hboth ⟨⟨hg.guide, fun hfore => absurd hfore haway⟩, h⟩ trivial
  | pause =>
    simp only [step] at ht
    split at ht
    · cases ht
    · cases ht
      exact hboth ⟨⟨nofun, nofun⟩, mainTells_of_away nofun⟩ trivial
  | key keyCode =>
    simp only [step] at ht
    split at ht
    · cases ht
    · obtain ⟨m, hm, rfl⟩ := Option.map_eq_some_iff.mp ht
      exact hboth (onKeyDown_tells h hg hm keyCode) trivial
    · rename_i hfore
      have haway : s.foreground ≠ .main := by
        rw [hfore]
        exact nofun
      split at ht
      · cases ht
        exact hboth ⟨⟨hg.guide, hg.settings⟩, mainTells_of_away haway⟩ trivial
      · cases ht
        exact hboth ⟨hg, h⟩ trivial
  | cycleKey p =>
    simp only [step] at ht
    split at ht
    · rename_i hfore
      cases ht
      refine hboth ⟨⟨hg.guide, hg.settings⟩, mainTells_of_away ?_⟩ trivial
      rw [hfore]
      exact nofun
    · cases ht

theorem onKeyDown_foreground {m : MainScreen} {keyCode : Nat} :
    (s.onKeyDown m keyCode).foreground = s.foreground := by
  unfold onKeyDown
  split
  · rfl
  · rename_i d hne hpress
    cases d.key <;> rfl
  · rfl
  · rfl

/-- Only one step brings the settings to the foreground. -/
theorem foreground_settings_iff {a : Action} (haway : s.foreground ≠ .settings)
    (ht : s.step a = some t) : t.foreground ≠ .settings ↔ a ≠ .resumeSettings := by
  cases a with
  | resumeSettings =>
    simp only [step] at ht
    split at ht
    · cases ht
      exact iff_of_false (fun h => h rfl) (fun h => h rfl)
    · cases ht
  | resume actualInCall =>
    simp only [step] at ht
    split at ht
    · cases ht
      exact iff_of_true nofun nofun
    · cases ht
  | pause =>
    simp only [step] at ht
    split at ht
    · cases ht
    · cases ht
      exact iff_of_true nofun nofun
  | key keyCode =>
    refine iff_of_true ?_ nofun
    simp only [step] at ht
    split at ht
    · cases ht
    · obtain ⟨m, hm, rfl⟩ := Option.map_eq_some_iff.mp ht
      rw [onKeyDown_foreground]
      exact haway
    · rename_i hfore
      exact absurd hfore haway
  | status =>
    obtain ⟨m, -, rfl⟩ := Option.map_eq_some_iff.mp ht
    exact iff_of_true haway nofun
  | _ =>
    refine iff_of_true ?_ nofun
    simp only [step] at ht
    repeat' split at ht
    all_goals cases ht
    all_goals exact haway

/-! ### Whole runs -/

/-- The labels of the phone tell what its keys do, whatever happens on the settings, in the
runs in which it only comes to the foreground as it should, and in no others. -/
theorem mainTells_iff_welcome (actions : Position → KeyAction) (lastNumber : Str)
    (as : List Action) :
    machine.Always MainTells (initial actions lastNumber) as ↔
      machine.Meets Welcome (initial actions lastNumber) as := by
  apply Machine.always_iff_meets (m := machine) (I := fun s => s.Guided ∧ s.MainTells)
  · exact fun s h => h.2
  · exact fun s a t h hstep => (step_tells h.2 h.1 hstep).2
  · intro s a t h hwelcome hstep
    obtain ⟨hguided, htells⟩ := step_tells h.2 h.1 hstep
    exact ⟨hguided, htells.mpr hwelcome⟩
  · exact ⟨⟨nofun, nofun⟩, nofun⟩

/-- The same of both screens, where the settings must stay away. -/
theorem labelsTell_iff_labelled (actions : Position → KeyAction) (lastNumber : Str)
    (as : List Action) :
    machine.Always LabelsTell (initial actions lastNumber) as ↔
      machine.Meets Labelled (initial actions lastNumber) as := by
  apply Machine.always_iff_meets (m := machine) (I := fun s => s.Guided ∧ s.LabelsTell)
  · exact fun s h => h.2
  · intro s a t h hstep
    obtain ⟨htells, haway⟩ := (labelsTell_iff h.1).mp h.2
    obtain ⟨hguided, hwelcome⟩ := step_tells htells h.1 hstep
    rw [labelsTell_iff hguided, hwelcome, foreground_settings_iff haway hstep]
    exact and_comm
  · intro s a t h hlabelled hstep
    obtain ⟨htells, haway⟩ := (labelsTell_iff h.1).mp h.2
    obtain ⟨hguided, hwelcome⟩ := step_tells htells h.1 hstep
    refine ⟨hguided, (labelsTell_iff hguided).mpr ⟨hwelcome.mpr hlabelled.2, ?_⟩⟩
    exact (foreground_settings_iff haway hstep).mpr hlabelled.1
  · have hguided : (initial actions lastNumber).Guided := ⟨nofun, nofun⟩
    exact ⟨hguided, (labelsTell_iff hguided).mpr ⟨nofun, nofun⟩⟩

/-- A phone that an incoming call brings to the foreground, where two keys are labelled as
assigned but reject and answer, and the settings, whose labels are a key too far to the left. -/
theorem labels_stray : (∃ as s, machine.run (initial actionDefaults []) as = some s ∧
      s.foreground = .main ∧ ¬ s.LabelsTell) ∧
    ∃ as s, machine.run (initial actionDefaults []) as = some s ∧
      s.foreground = .settings ∧ ¬ s.LabelsTell := by
  constructor
  · refine ⟨[.intent (some (utf8 "sip:203@192.0.2.1")), .resume true, .serviceConnected true], _,
      rfl, rfl, ?_⟩
    intro h
    obtain ⟨d, hnamed, hd⟩ := h .one "音量▲" rfl
    cases hd
    revert hnamed
    decide
  · refine ⟨[.intent none, .resume false, .createSettings, .pause, .resumeSettings], _, rfl, rfl, ?_⟩
    intro h
    obtain ⟨d, hnamed, hd⟩ := h .one "初期設定に戻す" rfl
    cases hd

end Screens

end SimplePhone.App
