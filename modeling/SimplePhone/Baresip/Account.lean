import SimplePhone.Re.Param
import SimplePhone.Re.Uri

/-! `account_alloc`: an account from an AOR. The address is taken apart first, then each
parameter is looked for by its name. -/
namespace SimplePhone.Baresip

open Re

/-- The parameters beside `regint`, `auth_user` and `auth_pass`. -/
def otherNames : List Str :=
  ["prio", "rwait", "fbregint", "pubint", "tcpsrcport", "regq", "outbound1", "outbound2",
    "outbound", "sipnat", "mwi", "call_transfer", "sip_autoredirect", "100rel", "answermode",
    "answerdelay", "sip_autoanswer", "sip_autoanswer_beep", "dtmfmode", "uas_user", "uas_pass",
    "inreq_allowed", "audio_codecs", "video_codecs", "mediaenc", "medianat", "ptime", "rtcp_mux",
    "natpinhole", "autelev_pt", "audio_source", "audio_player", "stunserver", "stunuser",
    "stunpass", "cert", "extra"].map utf8

def parameterNames : List Str :=
  [utf8 "regint", utf8 "auth_user", utf8 "auth_pass"] ++ otherNames

/-- What is set already decides whether some parameters are looked for. -/
def consulted (params name : Str) : Bool :=
  if name = utf8 "outbound" then (msgParamDecode params (utf8 "outbound1")).isNone
  else if name = utf8 "uas_pass" then (msgParamDecode params (utf8 "uas_user")).isSome
  else if name ∈ [utf8 "audio_codecs", utf8 "stunuser", utf8 "stunpass"] then
    msgParamExists params name
  else true

/-- Video is switched off where `video_codecs` is named, with codecs or without. -/
def found (params name : Str) : Option (Str × Str) :=
  if name = utf8 "video_codecs" then
    if msgParamExists params name then some (name, (msgParamDecode params name).getD []) else none
  else if consulted params name then (msgParamDecode params name).map fun v => (name, v)
  else none

/-- `pl_bool` understands the value. -/
def isBool (v : Str) : Bool :=
  ["1", "true", "enable", "yes", "on", "0", "false", "disable", "no", "off"].any fun w =>
    sameCaseless v (utf8 w)

/-- `stunuri_decode_uri` -/
def stunUri (uri : Uri) : Bool :=
  (["stun", "stuns", "turn", "turns"].any fun w => sameCaseless uri.scheme (utf8 w)) &&
    match reRegex (literal (utf8 "transport=") ++ [.cls ⟨false, false, [(97, 122)]⟩ .plus])
        uri.headers with
    | some ([transport], _) =>
        sameCaseless transport (utf8 "udp") || sameCaseless transport (utf8 "tcp")
    | _ => true

/-- `[^,]+,[~]*` -/
def pairItems : List Item :=
  [.cls (.except ",") .plus, .chr 44, .cls (.unquoted "") .star]

/-- With these values `account_alloc` goes on; what it makes of them is left out. -/
def accepted (isFile : Str → Bool) (p : Str × Str) : Bool :=
  if p.1 ∈ [utf8 "rtcp_mux", utf8 "natpinhole"] then isBool p.2
  else if p.1 ∈ [utf8 "audio_source", utf8 "audio_player"] then (reRegex pairItems p.2).isSome
  else if p.1 = utf8 "stunserver" then (uriDecode p.2).any stunUri
  else if p.1 = utf8 "cert" then isFile p.2
  else true

structure Account where
  laddr : SipAddr
  /-- A random interval above 3600 seconds, unless it is given. -/
  regint : Option Nat
  authUser : Option Str
  authPass : Option Str
  /-- The other parameters that are set, with their values. -/
  others : List (Str × Str)
deriving DecidableEq

/-- `account_alloc`. It fails for an address that cannot be decoded and for the values that
are not accepted. -/
def accountAlloc (isFile : Str → Bool) (sipaddr : Str) : Option Account :=
  (sipAddrDecode sipaddr).bind fun laddr =>
    let others := otherNames.filterMap (found laddr.params)
    if others.all (accepted isFile) then
      some {
        laddr
        regint := (msgParamDecode laddr.params (utf8 "regint")).map plU32
        authUser := msgParamDecode laddr.params (utf8 "auth_user")
        authPass := msgParamDecode laddr.params (utf8 "auth_pass")
        others }
    else none

/-! ### Names -/

theorem plain_of_mem {name : Str} (h : name ∈ parameterNames) : Plain name := by
  have hall : (parameterNames.all fun name => decide (name ≠ []) && name.all fun b =>
      decide (lower b = b ∧ b ≠ semicolon ∧ b ≠ equals ∧ blank.has b = false)) = true := by
    decide +kernel
  obtain ⟨hne, hbytes⟩ := Bool.and_eq_true_iff.mp (List.all_eq_true.mp hall name h)
  refine ⟨of_decide_eq_true hne, ?_⟩
  intro b hb
  exact of_decide_eq_true (List.all_eq_true.mp hbytes b hb)

variable {params : Str} {isFile : Str → Bool}

theorem found_eq_none {name : Str} (hdecode : msgParamDecode params name = none)
    (hexists : name = utf8 "video_codecs" → msgParamExists params name = false) :
    found params name = none := by
  unfold found
  split
  next hname => rw [if_neg (by simp [hexists hname])]
  next =>
    rw [hdecode]
    exact ite_self _

theorem accountAlloc_eq_some {sipaddr : Str} {acc : Account} :
    accountAlloc isFile sipaddr = some acc ↔ sipAddrDecode sipaddr = some acc.laddr ∧
      acc.regint = (msgParamDecode acc.laddr.params (utf8 "regint")).map plU32 ∧
      acc.authUser = msgParamDecode acc.laddr.params (utf8 "auth_user") ∧
      acc.authPass = msgParamDecode acc.laddr.params (utf8 "auth_pass") ∧
      acc.others = otherNames.filterMap (found acc.laddr.params) ∧
      acc.others.all (accepted isFile) = true := by
  unfold accountAlloc
  rw [Option.bind_eq_some_iff]
  constructor
  · rintro ⟨laddr, haddr, h⟩
    simp only at h
    split at h
    next hall =>
      cases h
      exact ⟨haddr, rfl, rfl, rfl, rfl, hall⟩
    next => cases h
  · rintro ⟨haddr, hregint, huser, hpass, hothers, hall⟩
    refine ⟨acc.laddr, haddr, ?_⟩
    simp only [← hothers, if_pos hall, ← hregint, ← huser, ← hpass]

end SimplePhone.Baresip
