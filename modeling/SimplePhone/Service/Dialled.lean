import SimplePhone.Native.Registration
import SimplePhone.Service.Pipeline

/-! The library as Kotlin calls it. The account reaches it twice: `nativeInit` copies
it into the buffers once per process, and each re-registration brings an AOR of its
own; a number is dialled with the buffers, at the user agent of the AOR. -/
namespace SimplePhone.Service

open Native Transition

/-- The `host[:port]` of an AOR. -/
def aorAuthority (aor : Str) : Str :=
  ((aor.dropWhile (· ≠ atSign)).drop 1).takeWhile (· ≠ 62)

/-- The number carries no scheme of its own. -/
def plain (number : Str) : Bool :=
  !(utf8 "sip:").isPrefixOf number && !(utf8 "tel:").isPrefixOf number

/-- `asked` is history: the numbers given to `nativeMakeCall` that `ua_connect` has not
seen yet, oldest first, with the buffers as they were at the call. -/
structure NativeSip where
  native : Globals
  initialized : Bool
  asked : List (Str × Buffers)
deriving DecidableEq

inductive SipAction where
  /-- the initialisation of the libraries may fail behind the copy -/
  | nativeInit (config : SipConfig) (ok : Bool)
  | nativeRegister
  | nativeReregister (aor : Str)
  | nativeMakeCall (number : Str)
  | native (a : Native.Action)
deriving DecidableEq

/-- Posted by the functions above only. -/
def fromKotlin : Work → Bool
  | .register | .reregister _ | .makecall _ => true
  | _ => false

/-- The step is the last of a dial: it wakes up, or it found no user agent. -/
def Globals.spends (g : Globals) : Native.Action → Bool
  | .connect _ => true
  | .work _ => g.gUa.isNone && g.next.any fun w => (workErrand w).any Errand.isDial
  | _ => false

def NativeSip.initial : NativeSip := ⟨.initial ⟨[], [], [], [], 5060⟩, false, []⟩

def sipStep (s : NativeSip) : SipAction → Option NativeSip
  | .nativeInit config ok =>
      if s.initialized then some s
      else some { s with
        native := { s.native with account := nativeInit config }, initialized := ok }
  | .nativeRegister => some { s with native := Native.remainRun .register s.native.begin }
  | .nativeReregister aor =>
      some { s with native := Native.remainRun (.reregister aor) s.native.begin }
  | .nativeMakeCall number => some { s with
      native := Native.remainRun (.makecall (dialUri s.native.account number)) s.native.begin
      asked := s.asked ++ [(number, s.native.account)] }
  | .native (.post w) =>
      if fromKotlin w then none
      else some { s with native := Native.remainRun w s.native.begin }
  | .native a => (Native.step s.native a).map fun g =>
      { s with native := g, asked := if Globals.spends s.native a then s.asked.tail else s.asked }

def sipMachine : Machine NativeSip SipAction where
  start s := s = .initial
  step := sipStep

/-- The URI that `ua_connect` is about to get names the number at the server of the user
agent's AOR. -/
def Matched (s : NativeSip) : Prop :=
  ∀ uri ∈ s.native.dialing, ∀ ua ∈ s.native.gUa, ∀ q ∈ s.asked.head?, plain q.1 →
    uri = utf8 "sip:" ++ q.1 ++ [atSign] ++ aorAuthority ua.aor

/-- The user agent that `makecall_worker` finds is at the server the buffers had at the
call, and the URI fits its buffer. -/
def Agreeing (s : NativeSip) : SipAction → Prop
  | .native (.work _) =>
      (s.native.next.bind workErrand).any Errand.isDial → ∀ ua ∈ s.native.gUa,
        ∀ q ∈ s.asked.head?, plain q.1 → q.1.length ≤ 250 ∧
          aorAuthority ua.aor = (buildServerAuthority q.2 96).take (250 - q.1.length)
  | _ => True

instance (s : NativeSip) : Decidable (Matched s) := by
  unfold Matched
  infer_instance

instance (s : NativeSip) (a : SipAction) : Decidable (Agreeing s a) := by
  unfold Agreeing
  split <;> infer_instance

/-- What `snprintf` leaves of a URI is the whole of another one only if that fits. -/
theorem bounded_append_eq_iff {size : Nat} (hsize : 0 < size) (p a a' : Str) :
    bounded size (p ++ a) = p ++ a' ↔
      p.length < size ∧ a' = a.take (size - 1 - p.length) := by
  unfold bounded
  rw [List.take_append]
  constructor
  · intro h
    have hlength := congrArg List.length h
    simp only [List.length_append, List.length_take] at hlength
    have hfits : p.length ≤ size - 1 := by omega
    rw [List.take_of_length_le hfits] at h
    exact ⟨by omega, (List.append_cancel_left h).symm⟩
  · rintro ⟨hfits, rfl⟩
    rw [List.take_of_length_le (by omega)]

theorem dialUri_eq_iff {number : Str} (hplain : plain number = true) (b : Buffers) (a : Str) :
    dialUri b number = utf8 "sip:" ++ number ++ [atSign] ++ a ↔
      number.length ≤ 250 ∧ a = (buildServerAuthority b 96).take (250 - number.length) := by
  simp only [plain, Bool.and_eq_true, Bool.not_eq_true'] at hplain
  have hlength : (utf8 "sip:" ++ number ++ [atSign]).length = number.length + 5 := by
    simp only [List.length_append, List.length_singleton]
    rw [show (utf8 "sip:").length = 4 from rfl]
    omega
  unfold dialUri
  rw [if_neg (by simp [hplain.1, hplain.2]), bounded_append_eq_iff (by decide), hlength]
  rw [show 256 - 1 - (number.length + 5) = 250 - number.length by omega]
  constructor
  · rintro ⟨hfits, ha⟩
    exact ⟨by omega, ha⟩
  · rintro ⟨hfits, ha⟩
    exact ⟨by omega, ha⟩

/-! ### The dials on their way -/

def Errand.uri : Errand → Option Str
  | .dial uri => some uri
  | _ => none

def dials (g : Globals) : List Str := (nativePipeline g).filterMap Errand.uri

/-- The URI of each dial is the one its request assembled. -/
structure Tracked (s : NativeSip) : Prop where
  dials : dials s.native = s.asked.map fun q => dialUri q.2 q.1
  matched : Matched s

variable {s t : NativeSip} {g g' : Globals}

theorem dials_remainRun (w : Work) (g : Globals) :
    dials (Native.remainRun w g) = dials g ++ ((workErrand w).bind Errand.uri).toList := by
  unfold dials
  rw [nativePipeline_remainRun, List.filterMap_append]
  cases workErrand w with
  | none => rfl
  | some e => cases e <;> rfl

theorem dials_head {uri : Str} (h : g.dialing = some uri) : (dials g).head? = some uri := by
  simp [dials, nativePipeline, h, Errand.uri]

/-- A post leaves a sleeping dial alone. -/
theorem Matched.post (h : Matched s) (hdials : dials s.native = s.asked.map fun q => dialUri q.2 q.1)
    (w : Work) (asked : List (Str × Buffers)) :
    Matched { s with
      native := Native.remainRun w s.native.begin, asked := s.asked ++ asked } := by
  intro uri huri ua hua q hq hplain
  have hhead : (dials s.native).head? = some uri := dials_head huri
  rw [hdials] at hhead
  cases hasked : s.asked with
  | nil => simp [hasked] at hhead
  | cons q' rest =>
    apply h uri huri ua hua q _ hplain
    simpa [hasked] using hq

/-- Awake, the event loop is about to connect to nobody. -/
theorem Matched.awake (h : s.native.dialing = none) : Matched s := by
  intro uri huri
  rw [h] at huri
  cases huri

/-- A handler other than a dial over a user agent. -/
theorem tracked_done (h : Tracked s) {w : Work} (hnext : s.native.next = some w)
    (hpipeline : nativePipeline s.native = (workErrand w).toList ++ nativePipeline g')
    (hdropped : ∀ uri, w = .makecall uri → s.native.gUa = none) (lib : Lib) :
    dials g' = (if Globals.spends s.native (.work lib) then s.asked.tail else s.asked).map
      (fun q => dialUri q.2 q.1) ∧ Agreeing s (.native (.work lib)) := by
  have hdials := h.dials
  unfold dials at hdials ⊢
  rw [hpipeline, List.filterMap_append] at hdials
  cases w with
  | makecall uri =>
    have hua := hdropped uri rfl
    refine ⟨?_, fun _ ua hua' => by rw [hua] at hua'; cases hua'⟩
    have hspends : Globals.spends s.native (.work lib) = true := by
      simp [Globals.spends, hua, hnext, workErrand, Errand.isDial]
    rw [hspends]
    cases hasked : s.asked with
    | nil => simp [hasked, workErrand, Errand.uri] at hdials
    | cons q rest =>
      rw [hasked] at hdials
      exact (List.cons.inj hdials).2
  | _ =>
    have hspends : Globals.spends s.native (.work lib) = false := by
      simp [Globals.spends, hnext, workErrand, Errand.isDial]
    refine ⟨?_, fun hdial => by simp [hnext, workErrand, Errand.isDial] at hdial⟩
    rw [hspends]
    exact hdials

/-- `makecall_worker` keeps the user agent it dials at. -/
theorem makecall_aor {lib : Lib} {uri : Str} (hnext : g.next = some (.makecall uri))
    (hstep : Native.step g (.work lib) = some g') : g'.gUa.map Ua.aor = g.gUa.map Ua.aor := by
  have hidle : Native.Action.idle g (.work lib) = true := by
    simp [Native.Action.idle, hnext, Work.creates]
  exact congrArg Prod.fst (registration_step hidle hstep)

/-- A dial goes to sleep with the URI of the oldest request. -/
theorem matched_sleep (h : Tracked s) {lib : Lib} {uri : Str}
    (hnext : s.native.next = some (.makecall uri))
    (hstep : Native.step s.native (.work lib) = some g') (hdialing : g'.dialing = some uri)
    (hpipeline : nativePipeline g' = nativePipeline s.native) :
    Matched ⟨g', s.initialized, s.asked⟩ ↔ Agreeing s (.native (.work lib)) := by
  have haor := makecall_aor hnext hstep
  have hhead : (s.asked.map fun q => dialUri q.2 q.1).head? = some uri := by
    rw [← h.dials, dials, ← hpipeline]
    exact dials_head hdialing
  have huri (q : Str × Buffers) (hq : q ∈ s.asked.head?) : uri = dialUri q.2 q.1 := by
    rw [List.head?_map, hq] at hhead
    exact (Option.some.inj hhead).symm
  constructor
  · intro hmatched _ ua hua q hq hplain
    have hsome : g'.gUa.map Ua.aor = some ua.aor := by
      rw [haor, hua]
      rfl
    obtain ⟨ua', hua', heq⟩ := Option.map_eq_some_iff.mp hsome
    have hright := hmatched uri hdialing ua' hua' q hq hplain
    rw [huri q hq, heq] at hright
    exact (dialUri_eq_iff hplain q.2 _).mp hright
  · intro hagree uri' huri' ua hua q hq hplain
    have hsame : uri' = uri := Option.some.inj (huri'.symm.trans hdialing)
    have hsome : s.native.gUa.map Ua.aor = some ua.aor := by
      rw [← haor, hua]
      rfl
    obtain ⟨ua', hua', heq⟩ := Option.map_eq_some_iff.mp hsome
    have hfits := hagree (by simp [hnext, workErrand, Errand.isDial]) ua' hua' q hq hplain
    rw [heq] at hfits
    rw [hsame, huri q hq]
    exact (dialUri_eq_iff hplain q.2 _).mpr hfits

theorem tracked_native (h : Tracked s) {a : Native.Action} (ha : ∀ w, a ≠ .post w)
    (hstep : Native.step s.native a = some g') :
    (Matched ⟨g', s.initialized, if Globals.spends s.native a then s.asked.tail else s.asked⟩ ↔
      Agreeing s (.native a)) ∧
    dials g' = (if Globals.spends s.native a then s.asked.tail else s.asked).map
      (fun q => dialUri q.2 q.1) := by
  cases a with
  | post w => exact absurd rfl (ha w)
  | event e =>
    have hdialing : g'.dialing = none := (step_frame hstep).dialing.trans (step_event.mp hstep).1
    refine ⟨iff_of_true (.awake hdialing) trivial, ?_⟩
    unfold dials
    rw [nativePipeline_event hstep]
    exact h.dials
  | connect result =>
    obtain ⟨uri, -, hpipeline⟩ := nativePipeline_connect hstep
    refine ⟨iff_of_true (.awake (step_frame hstep).dialing) trivial, ?_⟩
    have hdials := h.dials
    unfold dials at hdials ⊢
    rw [hpipeline] at hdials
    cases hasked : s.asked with
    | nil => simp [hasked, Errand.uri] at hdials
    | cons q rest =>
      rw [hasked] at hdials
      exact (List.cons.inj hdials).2
  | work lib =>
    obtain ⟨w, hnext, ⟨hpipeline, hdialing, hdropped⟩ | ⟨uri, rfl, hua, hpipeline, hdialing⟩⟩ :=
      nativePipeline_work hstep
    · obtain ⟨hdials, hagree⟩ := tracked_done h hnext hpipeline hdropped lib
      exact ⟨iff_of_true (.awake hdialing) hagree, hdials⟩
    · have hspends : Globals.spends s.native (.work lib) = false := by
        cases hsome : s.native.gUa with
        | none => exact absurd hsome hua
        | some ua => simp [Globals.spends, hsome]
      rw [hspends]
      refine ⟨matched_sleep h hnext hstep hdialing hpipeline, ?_⟩
      unfold dials
      rw [hpipeline]
      exact h.dials

theorem tracked_step (h : Tracked s) {a : SipAction} (hstep : sipStep s a = some t) :
    (Matched t ↔ Agreeing s a) ∧ dials t.native = t.asked.map fun q => dialUri q.2 q.1 := by
  have hpost (w : Work) (hw : (workErrand w).bind Errand.uri = none) :
      Matched { s with native := Native.remainRun w s.native.begin } ∧
        dials (Native.remainRun w s.native.begin) = s.asked.map fun q => dialUri q.2 q.1 := by
    have hmatched := h.matched.post h.dials w []
    rw [List.append_nil] at hmatched
    refine ⟨hmatched, ?_⟩
    rw [dials_remainRun, hw]
    exact (List.append_nil _).trans h.dials
  cases a with
  | nativeInit config ok =>
    simp only [sipStep] at hstep
    split at hstep
    · cases hstep
      exact ⟨iff_of_true h.matched trivial, h.dials⟩
    · cases hstep
      exact ⟨iff_of_true h.matched trivial, h.dials⟩
  | nativeRegister =>
    cases hstep
    obtain ⟨hmatched, hdials⟩ := hpost .register rfl
    exact ⟨iff_of_true hmatched trivial, hdials⟩
  | nativeReregister aor =>
    cases hstep
    obtain ⟨hmatched, hdials⟩ := hpost (.reregister aor) rfl
    exact ⟨iff_of_true hmatched trivial, hdials⟩
  | nativeMakeCall number =>
    cases hstep
    refine ⟨iff_of_true (h.matched.post h.dials _ _) trivial, ?_⟩
    simp only [dials_remainRun, List.map_append]
    congr 1
    exact h.dials
  | native a =>
    cases a with
    | post w =>
      simp only [sipStep] at hstep
      split at hstep
      · cases hstep
      next hw =>
        cases hstep
        obtain ⟨hmatched, hdials⟩ := hpost w (by cases w <;> first | rfl | exact absurd rfl hw)
        exact ⟨iff_of_true hmatched trivial, hdials⟩
    | _ =>
      obtain ⟨g, hg, rfl⟩ := Option.map_eq_some_iff.mp hstep
      exact tracked_native h (by simp) hg

/-- Every URI handed to `ua_connect` names its number at the server of the user agent
exactly if each dial finds the user agent of the account in the buffers. -/
theorem matched_iff_agreeing (as : List SipAction) :
    sipMachine.Always Matched .initial as ↔ sipMachine.Meets Agreeing .initial as := by
  apply Machine.always_iff_meets (I := Tracked)
  · intro s hs
    exact hs.matched
  · intro s a t hs hstep
    exact (tracked_step hs hstep).1
  · intro s a t hs ha hstep
    obtain ⟨hmatched, hdials⟩ := tracked_step hs hstep
    exact ⟨hdials, hmatched.mpr ha⟩
  · exact ⟨rfl, .awake rfl⟩

/-- After a re-registration with a new server the old one is dialled; and a long number
swallows the server. -/
theorem dialled_elsewhere :
    (∃ s, sipMachine.run .initial [.nativeInit .sample true, .nativeRegister, .native (.work .ok),
        .nativeReregister { SipConfig.sample with server := utf8 "198.51.100.7" }.buildAor,
        .native (.work .ok), .nativeMakeCall (utf8 "203"), .native (.work .ok)] = some s ∧
      s.native.dialing = some (utf8 "sip:203@192.0.2.1:5060") ∧
      s.native.gUa.map (fun ua => aorAuthority ua.aor) = some (utf8 "198.51.100.7:5060") ∧
      ¬ Matched s) ∧
    ∃ s uri, sipMachine.run .initial [.nativeInit .sample true, .nativeRegister,
        .native (.work .ok), .nativeMakeCall (List.replicate 251 49), .native (.work .ok)] = some s ∧
      s.native.dialing = some uri ∧ atSign ∉ uri ∧ ¬ Matched s := by
  constructor
  · exact ⟨_, rfl, rfl, rfl, by decide⟩
  · refine ⟨_, _, rfl, rfl, ?_, fun h => ?_⟩
    · decide
    · have hplain : plain (List.replicate 251 49) = true := by decide
      have hfits := ((dialUri_eq_iff hplain _ _).mp (h _ rfl _ rfl _ rfl hplain)).1
      rw [List.length_replicate] at hfits
      exact absurd hfits (by decide)

/-! ### The buffers and the AOR of one account -/

/-- The authority stands between the first `@` and the first `>` behind it. -/
theorem aorAuthority_eq {user authority : Str} (huser : atSign ∉ user)
    (hauthority : 62 ∉ authority) (rest : Str) :
    aorAuthority (utf8 "<sip:" ++ user ++ [atSign] ++ authority ++ 62 :: rest) = authority := by
  have hscheme : ∀ b ∈ utf8 "<sip:" ++ user, decide (b ≠ atSign) = true := by
    have hno : atSign ∉ utf8 "<sip:" ++ user := by
      simp only [List.mem_append, not_or]
      exact ⟨by decide, huser⟩
    exact fun b hb => decide_eq_true fun heq => hno (heq ▸ hb)
  have hends : ∀ b ∈ authority, decide (b ≠ 62) = true :=
    fun b hb => decide_eq_true fun heq => hauthority (heq ▸ hb)
  unfold aorAuthority
  rw [show utf8 "<sip:" ++ user ++ [atSign] ++ authority ++ 62 :: rest =
    (utf8 "<sip:" ++ user) ++ atSign :: (authority ++ 62 :: rest) by simp,
    List.dropWhile_append_of_pos hscheme, List.dropWhile_cons_of_neg (by simp), List.drop_one,
    List.tail_cons, List.takeWhile_append_of_pos hends, List.takeWhile_cons_of_neg (by simp),
    List.append_nil]

/-- With the account in the buffers unabridged, a dial agrees with the user agent that
was created for the same account. -/
theorem agreeing_of_same_account {c : SipConfig} {number : Str} (huser : atSign ∉ c.user)
    (hauthority : 62 ∉ c.authority) (hserver : c.server.length ≤ 63)
    (hfits : number.length + c.authority.length ≤ 250) (hsize : c.authority.length ≤ 95) :
    number.length ≤ 250 ∧ aorAuthority c.buildAor =
      (buildServerAuthority (nativeInit c) 96).take (250 - number.length) := by
  have haor : aorAuthority c.buildAor = c.authority := by
    have heq := aorAuthority_eq huser hauthority (utf8 ";auth_user=" ++ c.user ++
      utf8 ";auth_pass=" ++ c.password ++ utf8 ";regint=60")
    rw [← heq]
    congr 1
    simp only [SipConfig.buildAor, List.append_assoc]
    rfl
  have hbuffers : buildServerAuthority (nativeInit c) 96 = c.authority := by
    have hcopy : (nativeInit c).server = c.server := List.take_of_length_le hserver
    unfold buildServerAuthority SipConfig.authority at *
    rw [hcopy]
    split
    next hport =>
      rw [if_pos hport] at hsize
      exact List.take_of_length_le hsize
    next hport =>
      rw [if_neg hport] at hsize
      exact List.take_of_length_le hsize
  refine ⟨by omega, ?_⟩
  rw [haor, hbuffers, List.take_of_length_le (by omega)]

end SimplePhone.Service
