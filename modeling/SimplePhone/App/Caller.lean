import SimplePhone.App.Step

/-! The number of a caller on its way from `UA_EVENT_CALL_INCOMING` to the screen. The native
layer passes on less than it was given only where that fits its buffer. -/
namespace SimplePhone.App

open Service Native

/-! ### The native copy -/

/-- `user_start`. -/
def userStart (prm : Str) : Str :=
  match strstr (utf8 "sip:") prm with
  | some rest => rest.drop 4
  | none => prm

/-- What is written to `user_buf[32]`, with the terminator. -/
def userBuf (prm : Str) : List UInt8 :=
  if atSign ∈ userStart prm ∧ (substringBefore atSign (userStart prm)).length < 32 then
    substringBefore atSign (userStart prm) ++ [0]
  else []

theorem length_userBuf_le (prm : Str) : (userBuf prm).length ≤ 32 := by
  unfold userBuf
  split
  · rename_i hfits
    rw [List.length_append, List.length_singleton]
    exact hfits.2
  · exact Nat.zero_le 32

theorem callerNumber_eq (prm : Str) : callerNumber prm =
    if userBuf prm = [] then userStart prm else (userBuf prm).dropLast := by
  have hcaller : callerNumber prm =
      if atSign ∈ userStart prm ∧ (substringBefore atSign (userStart prm)).length < 32 then
        substringBefore atSign (userStart prm)
      else userStart prm := rfl
  rw [hcaller]
  unfold userBuf
  split
  · rw [if_neg (List.append_ne_nil_of_right_ne_nil _ (List.cons_ne_nil _ _)),
      List.dropLast_concat]
  · rw [if_pos rfl]

/-! ### Both extractions -/

/-- The parameter of an event about this user. -/
def sipUri (user host : Str) : Str := utf8 "sip:" ++ (user ++ atSign :: host)

variable {user host : Str}

theorem substringBefore_append (hat : atSign ∉ user) (rest : Str) :
    substringBefore atSign (user ++ rest) = user ++ substringBefore atSign rest := by
  have hall : ∀ b ∈ user, decide (b ≠ atSign) = true := by
    intro b hb
    rw [decide_eq_true_eq]
    rintro rfl
    exact hat hb
  exact List.takeWhile_append_of_pos hall

theorem substringBefore_user (hat : atSign ∉ user) (host : Str) :
    substringBefore atSign (user ++ atSign :: host) = user := by
  rw [substringBefore_append hat]
  exact List.append_nil user

/-- Without a colon there is no scheme to take off. -/
theorem removePrefix_of_notMem (hcolon : colon ∉ user) {rest : Str}
    (hrest : rest = [] ∨ rest.head? = some atSign) :
    removePrefix (utf8 "sip:") (user ++ rest) = user ++ rest := by
  unfold removePrefix
  rw [if_neg]
  intro hscheme
  obtain ⟨t, ht⟩ := List.isPrefixOf_iff_prefix.mp hscheme
  have hmem : colon ∈ utf8 "sip:" := by decide
  rcases List.append_eq_append_iff.mp ht with ⟨u, hu, -⟩ | ⟨u, hu, hback⟩
  · rw [hu] at hcolon
    exact hcolon (List.mem_append_left u hmem)
  · cases u with
    | nil =>
      rw [List.append_nil] at hu
      rw [hu] at hmem
      exact hcolon hmem
    | cons b u =>
      have hb : b = atSign := by
        rw [hback] at hrest
        exact Option.some.inj (hrest.resolve_left (List.cons_ne_nil b _))
      have hat : atSign ∈ utf8 "sip:" := by
        rw [hu, hb]
        exact List.mem_append_right _ List.mem_cons_self
      exact absurd hat (by decide)

theorem callerNumber_sipUri (hat : atSign ∉ user) (host : Str) : callerNumber (sipUri user host) =
    if user.length < 32 then user else user ++ atSign :: host := by
  have hmem : atSign ∈ user ++ atSign :: host := List.mem_append_right user List.mem_cons_self
  have hcaller : callerNumber (sipUri user host) =
      if atSign ∈ user ++ atSign :: host ∧
          (substringBefore atSign (user ++ atSign :: host)).length < 32 then
        substringBefore atSign (user ++ atSign :: host)
      else user ++ atSign :: host := rfl
  rw [hcaller, substringBefore_user hat]
  simp only [hmem, true_and]

/-- On both sides of the length of the buffer the screen gets the user. -/
theorem displayNumber_callerNumber (hat : atSign ∉ user) (hcolon : colon ∉ user) (host : Str) :
    displayNumber (callerNumber (sipUri user host)) = user := by
  unfold displayNumber
  rw [callerNumber_sipUri hat]
  split
  · have hscheme := removePrefix_of_notMem hcolon (.inl rfl)
    have hshort := substringBefore_append hat []
    rw [List.append_nil] at hscheme hshort
    rw [hscheme, hshort]
    exact List.append_nil user
  · rw [removePrefix_of_notMem hcolon (.inr rfl), substringBefore_user hat]

theorem callerNumber_ne_nil (hne : user ≠ []) (hat : atSign ∉ user) (host : Str) :
    callerNumber (sipUri user host) ≠ [] := by
  rw [callerNumber_sipUri hat]
  split
  · exact hne
  · exact List.append_ne_nil_of_left_ne_nil hne _

/-! ### To the screen -/

/-- `CallState.Incoming` and `currentNumber` hold the number. -/
def Activity.Rings (number : Str) (a : Activity) : Prop :=
  a.callState = .incoming number ∧ a.currentNumber = number

/-- The event is reported with this parameter; its number gets to the screen by the callback,
and by the intent with `EXTRA_CALLER`. -/
structure Carried (prm number : Str) : Prop where
  reported : ∀ (g : Globals) (call : Option CallId), g.gCall = none ∨ g.gCall = call →
    (baresipEventHandler .callIncoming call (some prm) g).delivered =
      g.delivered ++ [⟨.onIncomingCall (callerNumber prm), call⟩]
  written : (userBuf prm).length ≤ 32
  announced : ∀ s : State, (s.callback (.onIncomingCall (callerNumber prm))).main =
      s.main ++ [.startRinging, .notify (.onIncomingCall (callerNumber prm))] ∧
    (s.callback (.onIncomingCall (callerNumber prm))).intents =
      s.intents ++ [some (callerNumber prm)] ∧
    (s.callback (.onIncomingCall (callerNumber prm))).incomingNotification =
      some (callerNumber prm)
  heard : ∀ (p : Phone) (a : Activity) (rest : List Message) (r : Phone × List HistoryEntry),
    p.service.main = .notify (.onIncomingCall (callerNumber prm)) :: rest →
    p.activity = some a → a.bound = true → react p .message = some r →
      ∃ a', r.1.activity = some a' ∧ a'.Rings number
  started : ∀ (p : Phone) (source : Source) (s : State) (r : Phone × List HistoryEntry),
    takeIntent p.service source = some (s, some (callerNumber prm)) →
    react p (.intent source) = some r → ∃ a', r.1.activity = some a' ∧ a'.Rings number

theorem rings_onIncomingCall (a : Activity) (hat : atSign ∉ user) (hcolon : colon ∉ user)
    (host : Str) : (a.onIncomingCall (callerNumber (sipUri user host))).Rings user := by
  have hdisplay := displayNumber_callerNumber hat hcolon host
  exact ⟨congrArg CallState.incoming hdisplay, hdisplay⟩

/-- The user part of the caller's URI is the number on the screen, however long it is and
whatever follows it. -/
theorem carried_sipUri (hne : user ≠ []) (hat : atSign ∉ user) (hcolon : colon ∉ user)
    (host : Str) : Carried (sipUri user host) user := by
  constructor
  · intro g call hfree
    have hbusy : ¬ (g.gCall ≠ none ∧ g.gCall ≠ call) := by
      rintro ⟨hsome, hother⟩
      exact hfree.elim hsome hother
    unfold baresipEventHandler
    rw [if_neg hbusy]
    rfl
  · exact length_userBuf_le _
  · intro s
    refine ⟨?_, rfl, rfl⟩
    change s.main ++ [.startRinging] ++ [_] = _
    rw [List.append_assoc]
    rfl
  · intro p a rest r hmain ha hbound hreact
    obtain ⟨m, rest', s, hmain', -, ⟨n, a', rfl, ha', -, rfl⟩ | ⟨hunbound, -⟩⟩ :=
      react_message hreact
    · cases hmain.symm.trans hmain'
      cases ha.symm.trans ha'
      exact ⟨_, rfl, rings_onIncomingCall a hat hcolon host⟩
    · cases hmain.symm.trans hmain'
      rw [hunbound _ a rfl ha] at hbound
      cases hbound
  · intro p source s r htake hreact
    obtain ⟨t, ht, rfl⟩ := react_intent.mp hreact
    cases htake.symm.trans ht
    have hcaller : (callerNumber (sipUri user host)).isEmpty = false :=
      List.isEmpty_eq_false_iff.mpr (callerNumber_ne_nil hne hat host)
    refine ⟨_, rfl, ?_⟩
    unfold Activity.handleIncomingCallIntent
    simp only [hcaller]
    exact rings_onIncomingCall _ hat hcolon host

/-- A user that does not fit the buffer, and a host with everything in it. -/
theorem carried_sipUri_long :
    Carried (sipUri (utf8 "0123456789012345678901234567890123456789") (utf8 "h:5060;a=sip:b@c"))
      (utf8 "0123456789012345678901234567890123456789") :=
  carried_sipUri (by decide) (by decide) (by decide) _

end SimplePhone.App
