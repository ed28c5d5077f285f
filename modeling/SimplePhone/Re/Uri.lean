import Mathlib.Algebra.Group.Nat.Defs
import SimplePhone.Re.Regex

/-! `sip_addr_decode` and `uri_decode`: an address in angle brackets with its parameters,
and in it a URI with a user and a port. -/
namespace SimplePhone.Re

def openAngle : UInt8 := 60
def closeAngle : UInt8 := 62
def openBracket : UInt8 := 91
def closeBracket : UInt8 := 93

/-- `[^]` -/
def anything : Class := .except ""

def digit : Class := ⟨false, false, [(48, 57)]⟩

/-- `[0-9a-f:]` -/
def hexOrColon : Class := ⟨false, false, [(48, 57), (97, 102), (58, 58)]⟩

def notColon : Class := .except ":"

/-- What the host and the port of a URI consist of. -/
def hostPort : Class := .except "/;? "

/-- The number in base ten. -/
def value (s : Str) : Nat := s.foldl (fun v b => 10 * v + (b.toNat - 48)) 0

/-- `pl_u32` -/
def plU32 (s : Str) : Nat :=
  if s.all fun b => decide (48 ≤ b.toNat ∧ b.toNat ≤ 57) then value s % 2 ^ 32 else 0

/-- `pl_strcasecmp` -/
def sameCaseless (s t : Str) : Bool := s.map lower == t.map lower

structure Uri where
  scheme : Str
  user : Str
  password : Str
  host : Str
  port : Nat
  path : Str
  params : Str
  headers : Str
deriving DecidableEq

/-- `\[[0-9a-f:]+\][:]*[0-9]*` -/
def bracketedItems : List Item :=
  [.chr openBracket, .cls hexOrColon .plus, .chr closeBracket, .cls (.of ":") .star,
    .cls digit .star]

/-- `[^:]+[:]*[0-9]*` -/
def hostItems : List Item := [.cls notColon .plus, .cls (.of ":") .star, .cls digit .star]

def uriDecodeHostport (hostport : Str) : Option (Str × Str) :=
  match reRegex bracketedItems hostport with
  | some ([host, _, port], _) => some (host, port)
  | _ =>
      match reRegex hostItems hostport with
      | some ([host, _, port], _) => some (host, port)
      | _ => none

/-- `[^:]+:[^@:]*[:]*[^@]*@[^/;? ]+[^;? ]*[^?]*[^]*` -/
def uriItems : List Item :=
  [.cls notColon .plus, .chr colon, .cls (.except "@:") .star, .cls (.of ":") .star,
    .cls (.except "@") .star, .chr atSign, .cls hostPort .plus, .cls (.except ";? ") .star,
    .cls (.except "?") .star, .cls anything .star]

/-- `[^:]+:[^/;? ]+[^;? ]*[^?]*[^]*` -/
def userlessItems : List Item :=
  [.cls notColon .plus, .chr colon, .cls hostPort .plus, .cls (.except ";? ") .star,
    .cls (.except "?") .star, .cls anything .star]

/-- A port that is missing is zero, and a port keeps its low 16 bits. -/
def portOf (port : Str) : Nat := if port = [] then 0 else plU32 port % 2 ^ 16

def decodeWithUser (pl : Str) : Option Uri :=
  match reRegex uriItems pl with
  | some ([scheme, user, _, password, hostport, path, params, headers], _) =>
      (uriDecodeHostport hostport).map fun p =>
        ⟨scheme, user, password, p.1, portOf p.2, path, params, headers⟩
  | _ => none

def decodeWithoutUser (pl : Str) : Option Uri :=
  match reRegex userlessItems pl with
  | some ([scheme, hostport, path, params, headers], _) =>
      (uriDecodeHostport hostport).map fun p =>
        ⟨scheme, [], [], p.1, portOf p.2, path, params, headers⟩
  | _ => none

def uriDecode (pl : Str) : Option Uri :=
  match decodeWithUser pl with
  | some uri => some uri
  | none => decodeWithoutUser pl

structure SipAddr where
  dname : Str
  auri : Str
  params : Str
  uri : Uri
deriving DecidableEq

/-- `[~ \t\r\n<]*[ \t\r\n]*<[^>]+>[^]*` -/
def addrItems : List Item :=
  [.cls (.unquoted " \t\r\n<") .star, .cls (.of " \t\r\n") .star, .chr openAngle,
    .cls (.except ">") .plus, .chr closeAngle, .cls anything .star]

/-- `[^;]+[^]*` -/
def bareItems : List Item := [.cls (.except ";") .plus, .cls anything .star]

def sipAddrDecode (pl : Str) : Option SipAddr :=
  match reRegex addrItems pl with
  | some ([dname, _, auri, params], _) =>
      (uriDecode auri).map fun uri => ⟨dname, auri, params, uri⟩
  | _ =>
      match reRegex bareItems pl with
      | some ([auri, params], _) => (uriDecode auri).map fun uri => ⟨[], auri, params, uri⟩
      | _ => none

/-! ### Characters -/

theorem except_has_iff {chars : String} (hchars : ∀ c ∈ utf8 chars, c < 65) (b : UInt8) :
    (Class.except chars).has b = true ↔ b ∉ utf8 chars := by
  rw [except_has]
  constructor
  · intro h hb
    have heq : lower b = b := (lower_eq_iff (.inl (hchars b hb))).mpr rfl
    rw [heq] at h
    exact h hb
  · intro h hb
    have heq : b = lower b := (lower_eq_iff (.inl (hchars (lower b) hb))).mp rfl
    rw [← heq] at hb
    exact h hb

theorem hostPort_has (b : UInt8) : hostPort.has b = true ↔ b ∉ utf8 "/;? " :=
  except_has_iff (by decide +kernel) b

theorem notColon_has (b : UInt8) : notColon.has b = true ↔ b ≠ colon := by
  rw [notColon, except_has_iff (by decide +kernel)]
  exact not_congr List.mem_singleton

theorem anything_has (b : UInt8) : anything.has b = true :=
  (except_has_iff (by decide +kernel) b).mpr List.not_mem_nil

theorem lower_digit {b : UInt8} (h : 48 ≤ b.toNat ∧ b.toNat ≤ 57) : lower b = b := by
  refine if_neg fun h' => ?_
  have hle : (65 : UInt8).toNat ≤ b.toNat := UInt8.le_iff_toNat_le.mp h'.1
  have h65 : (65 : UInt8).toNat = 65 := rfl
  omega

theorem digit_has {b : UInt8} : digit.has b = true ↔ 48 ≤ b.toNat ∧ b.toNat ≤ 57 := by
  have hrange : digit.has b = true ↔ 48 ≤ (lower b).toNat ∧ (lower b).toNat ≤ 57 := by
    simp only [Class.has, digit, List.any_cons, List.any_nil, Bool.or_false, decide_eq_true_eq,
      Bool.not_false]
    split
    next h => exact iff_of_true rfl ⟨UInt8.le_iff_toNat_le.mp h.1, UInt8.le_iff_toNat_le.mp h.2⟩
    next h =>
      refine iff_of_false Bool.false_ne_true fun h' => h ?_
      exact ⟨UInt8.le_iff_toNat_le.mpr h'.1, UInt8.le_iff_toNat_le.mpr h'.2⟩
  rw [hrange]
  constructor
  · intro h
    by_cases hb : 65 ≤ b ∧ b ≤ 90
    · -- a letter in lower case is no digit
      have hlower : lower b = b + 32 := if_pos hb
      have hlow : 65 ≤ b.toNat := UInt8.le_iff_toNat_le.mp hb.1
      have hhigh : b.toNat ≤ 90 := UInt8.le_iff_toNat_le.mp hb.2
      have hadd : (b + 32).toNat = b.toNat + 32 := by
        rw [UInt8.toNat_add]
        exact Nat.mod_eq_of_lt (show b.toNat + 32 < 256 by omega)
      rw [hlower, hadd] at h
      omega
    · rwa [show lower b = b from if_neg hb] at h
  · intro h
    rwa [lower_digit h]

/-! ### The host and the port -/

variable {h digits s : Str}

/-- Text that consists of digits. -/
def Digits (s : Str) : Prop := ∀ b ∈ s, 48 ≤ b.toNat ∧ b.toNat ≤ 57

theorem Digits.plU32 (hs : Digits s) : plU32 s = value s % 2 ^ 32 := by
  refine if_pos (List.all_eq_true.mpr fun b hb => ?_)
  exact decide_eq_true (hs b hb)

/-- The address that is looked for in brackets, somewhere. -/
def Bracketed (s : Str) : Prop :=
  ∃ address, address ≠ [] ∧ (∀ b ∈ address, hexOrColon.has b = true) ∧
    [openBracket] ++ address ++ [closeBracket] <:+: s

theorem run_colon_digits (hdigits : Digits digits) :
    run [.cls (.of ":") .star, .cls digit .star] (colon :: digits) =
      .matched [[colon], digits] [] := by
  have hstop : ∀ b ∈ digits.head?, (Class.of ":").has b = false := by
    intro b hb
    have hrange := hdigits b (List.mem_of_mem_head? hb)
    cases hc : (Class.of ":").has b with
    | false => rfl
    | true =>
      have hmem := (of_has ":" b).mp hc
      rw [lower_digit hrange] at hmem
      have hb58 : b = 58 := List.mem_singleton.mp hmem
      subst hb58
      exact absurd hrange (by decide)
  have hhas : ∀ b ∈ digits, digit.has b = true := fun b hb => digit_has.mpr (hdigits b hb)
  have hlast : run [.cls digit .star] digits = .matched [digits] [] := run_cls_all rfl hhas nofun
  have hcolon : ∀ b ∈ [colon], (Class.of ":").has b = true := by decide +kernel
  change run [.cls (.of ":") .star, .cls digit .star] ([colon] ++ digits) = _
  rw [run_cls_append (n := .star) rfl hcolon hstop nofun, hlast]
  rfl

/-! #### In brackets -/

theorem hexOrColon_bracket : hexOrColon.has openBracket = false ∧
    hexOrColon.has closeBracket = false := by decide

theorem run_star_star (c c' : Class) (hc : c.quotes = false) (hc' : c'.quotes = false) (s : Str) :
    run [.cls c .star, .cls c' .star] s =
      .matched [s.takeWhile c.has, (s.dropWhile c.has).takeWhile c'.has]
        ((s.dropWhile c.has).dropWhile c'.has) := by
  rw [run_cls hc, if_neg nofun, run_cls hc', if_neg nofun]
  rfl

theorem run_bracketed {address : Str} (haddress : ∀ b ∈ address, hexOrColon.has b = true)
    (hne : address ≠ []) (r : Str) :
    run bracketedItems ([openBracket] ++ address ++ [closeBracket] ++ r) =
      (run [.cls (.of ":") .star, .cls digit .star] r).cons address := by
  have hstop : ∀ b ∈ (closeBracket :: r).head?, hexOrColon.has b = false := by
    rintro _ ⟨⟩
    exact hexOrColon_bracket.2
  rw [List.append_assoc, List.append_assoc, List.singleton_append, List.singleton_append,
    bracketedItems, run_chr, if_pos rfl, run_cls_append rfl haddress hstop fun _ => hne, run_chr,
    if_pos rfl]

theorem bracketed_of_run {captures : List Str} {rest : Str}
    (h : run bracketedItems s = .matched captures rest) :
    ∃ address, address ≠ [] ∧ (∀ b ∈ address, hexOrColon.has b = true) ∧
      [openBracket] ++ address ++ [closeBracket] <+: s ∧ captures.head? = some address := by
  cases s with
  | nil => cases h
  | cons b s =>
    rw [bracketedItems, run_chr] at h
    split at h
    next hb =>
      have hopen : b = openBracket := (lower_eq_iff (by decide)).mp hb.symm
      subst hopen
      rw [run_cls rfl] at h
      split at h
      · cases h
      next hne =>
        have hsplit := List.takeWhile_append_dropWhile (p := hexOrColon.has) (l := s)
        generalize s.dropWhile hexOrColon.has = t at h hsplit
        cases t with
        | nil => cases h
        | cons c t =>
          rw [run_chr] at h
          split at h
          next hc =>
            have hclose : c = closeBracket := (lower_eq_iff (by decide)).mp hc.symm
            subst hclose
            rw [run_star_star _ _ rfl rfl] at h
            cases h
            refine ⟨s.takeWhile hexOrColon.has, fun hnil => hne ⟨rfl, hnil⟩,
              fun _ => List.mem_takeWhile_imp, ⟨t, ?_⟩, rfl⟩
            conv_rhs => rw [← hsplit]
            simp
          next => cases h
    next => cases h

/-- Where a closing bracket follows, the search goes on. -/
theorem run_bracketed_ne_stop (hs : closeBracket ∈ s) : run bracketedItems s ≠ .stop := by
  cases s with
  | nil => cases hs
  | cons b s =>
    rw [bracketedItems, run_chr]
    split
    next hb =>
      have hopen : b = openBracket := (lower_eq_iff (by decide)).mp hb.symm
      have hmem : closeBracket ∈ s := by
        rcases List.mem_cons.mp hs with heq | hmem
        · exact absurd (heq.trans hopen) (by decide)
        · exact hmem
      rw [run_cls rfl]
      split
      · nofun
      · rw [← List.takeWhile_append_dropWhile (p := hexOrColon.has) (l := s)] at hmem
        have hdrop : closeBracket ∈ s.dropWhile hexOrColon.has := by
          rcases List.mem_append.mp hmem with htake | hdrop
          · have hhas := List.mem_takeWhile_imp htake
            rw [hexOrColon_bracket.2] at hhas
            cases hhas
          · exact hdrop
        cases hd : s.dropWhile hexOrColon.has with
        | nil =>
          rw [hd] at hdrop
          cases hdrop
        | cons c t =>
          rw [run_chr]
          split
          · rw [run_star_star _ _ rfl rfl]
            nofun
          · nofun
    next => nofun

theorem bracketed_iff : Bracketed s ↔ reRegex bracketedItems s ≠ none := by
  constructor
  · rintro ⟨address, hne, haddress, hinside⟩
    have hclose : closeBracket ∈ s := hinside.subset (by simp)
    induction s with
    | nil => cases hclose
    | cons b s ih =>
      unfold reRegex
      cases hrun : run bracketedItems (b :: s) with
      | stop => exact absurd hrun (run_bracketed_ne_stop hclose)
      | matched captures rest => exact Option.some_ne_none _
      | again =>
        rcases List.infix_cons_iff.mp hinside with hfront | hinside
        · obtain ⟨r, hr⟩ := hfront
          rw [← hr, run_bracketed haddress hne, run_star_star _ _ rfl rfl] at hrun
          cases hrun
        · exact ih hinside (hinside.subset (by simp))
  · intro h
    obtain ⟨⟨captures, rest⟩, hmatch⟩ := Option.ne_none_iff_exists'.mp h
    obtain ⟨t, -, hsuffix, hrun⟩ := exists_of_reRegex hmatch
    obtain ⟨address, hne, haddress, hfront, -⟩ := bracketed_of_run hrun
    exact ⟨address, hne, haddress, hfront.isInfix.trans hsuffix.isInfix⟩

/-! #### Around the colon -/

/-- The port has no bracket. -/
theorem bracketed_append (hdigits : Digits digits) :
    Bracketed (h ++ colon :: digits) ↔ Bracketed h := by
  constructor
  · rintro ⟨address, hne, haddress, pre, post, heq⟩
    refine ⟨address, hne, haddress, ?_⟩
    rcases List.append_eq_append_iff.mp heq with ⟨r, hr, -⟩ | ⟨r, hr, htail⟩
    · exact ⟨pre, r, hr.symm⟩
    · rcases List.eq_nil_or_concat r with rfl | ⟨r, b, rfl⟩
      · rw [List.append_nil] at hr
        exact ⟨pre, [], by rw [hr, List.append_nil]⟩
      · -- the closing bracket would be in the port
        exfalso
        rw [List.concat_eq_append] at hr htail
        have hlast := congrArg List.getLast? hr
        simp only [← List.append_assoc, List.getLast?_concat, Option.some.injEq] at hlast
        have hmem : closeBracket ∈ colon :: digits := by
          rw [htail, hlast]
          simp
        rcases List.mem_cons.mp hmem with heq | hmem
        · exact absurd heq (by decide)
        · exact absurd (hdigits closeBracket hmem) (by decide)
  · rintro ⟨address, hne, haddress, hinside⟩
    exact ⟨address, hne, haddress, hinside.trans (List.prefix_append _ _).isInfix⟩

theorem reRegex_hostItems (hh : colon ∉ h) (hne : h ≠ []) (hdigits : Digits digits) :
    reRegex hostItems (h ++ colon :: digits) = some ([h, [colon], digits], []) := by
  have hstop : ∀ b ∈ (colon :: digits).head?, notColon.has b = false := by
    rintro _ ⟨⟩
    decide
  refine reRegex_of_matched (by simp) ?_
  rw [hostItems, run_cls_append rfl (fun b hb => (notColon_has b).mpr fun heq => hh (heq ▸ hb)) hstop
    fun _ => hne, run_colon_digits hdigits]
  rfl

theorem uriDecodeHostport_plain (hh : colon ∉ h) (hne : h ≠ []) (hdigits : Digits digits)
    (hbracketed : ¬ Bracketed h) :
    uriDecodeHostport (h ++ colon :: digits) = some (h, digits) := by
  have hnone : reRegex bracketedItems (h ++ colon :: digits) = none := by
    by_contra hsome
    exact hbracketed ((bracketed_append hdigits).mp (bracketed_iff.mpr hsome))
  unfold uriDecodeHostport
  rw [hnone, reRegex_hostItems hh hne hdigits]

theorem uriDecodeHostport_bracketed (hh : ∀ b ∈ h, hexOrColon.has b = true) (hne : h ≠ [])
    (hdigits : Digits digits) :
    uriDecodeHostport ([openBracket] ++ h ++ [closeBracket] ++ colon :: digits) =
      some (h, digits) := by
  have hmatch : reRegex bracketedItems ([openBracket] ++ h ++ [closeBracket] ++ colon :: digits) =
      some ([h, [colon], digits], []) := by
    refine reRegex_of_matched (by simp) ?_
    rw [run_bracketed hh hne, run_colon_digits hdigits]
    rfl
  unfold uriDecodeHostport
  rw [hmatch]

/-- The host is what stands in brackets, and otherwise it has no colon. -/
theorem uriDecodeHostport_cases {hostport host port : Str}
    (h : uriDecodeHostport hostport = some (host, port)) :
    (host ≠ [] ∧ (∀ b ∈ host, hexOrColon.has b = true) ∧
      [openBracket] ++ host ++ [closeBracket] <:+: hostport) ∨
    (¬ Bracketed hostport ∧ ∃ w rest, reRegex hostItems hostport = some ([host, w, port], rest)) := by
  unfold uriDecodeHostport at h
  split at h
  next host' w port' rest hmatch =>
    cases h
    obtain ⟨t, -, hsuffix, hrun⟩ := exists_of_reRegex hmatch
    obtain ⟨address, hne, haddress, hfront, hhead⟩ := bracketed_of_run hrun
    cases hhead
    exact .inl ⟨hne, haddress, hfront.isInfix.trans hsuffix.isInfix⟩
  next hno =>
    split at h
    next host' w port' rest hmatch =>
      cases h
      refine .inr ⟨?_, w, rest, hmatch⟩
      intro hbracketed
      obtain ⟨⟨captures, rest'⟩, hsome⟩ := Option.ne_none_iff_exists'.mp (bracketed_iff.mp hbracketed)
      have hcaptured := captured_of_reRegex (by decide) hsome
      rcases hcaptured with _ | ⟨-, _ | ⟨-, _ | ⟨-, _ | _⟩⟩⟩
      exact hno _ _ _ _ hsome
    next => cases h

theorem unbracketed_of_decode {port : Str} (hdigits : Digits digits)
    (hdecode : uriDecodeHostport (h ++ colon :: digits) = some (h, port)) : ¬ Bracketed h := by
  rcases uriDecodeHostport_cases hdecode with ⟨-, hhex, hinside⟩ | ⟨hnot, -⟩
  · exfalso
    have hopen : openBracket ∈ h ++ colon :: digits := hinside.subset (by simp)
    rcases List.mem_append.mp hopen with hmem | hmem
    · exact absurd (hhex openBracket hmem) (by decide)
    · rcases List.mem_cons.mp hmem with heq | hmem
      · exact absurd heq (by decide)
      · exact absurd (hdigits openBracket hmem) (by decide)
  · exact fun hbracketed => hnot ((bracketed_append hdigits).mpr hbracketed)

theorem address_of_decode {port : Str} (hdigits : Digits digits) (hdecode : uriDecodeHostport
    ([openBracket] ++ h ++ [closeBracket] ++ colon :: digits) = some (h, port)) :
    h ≠ [] ∧ ∀ b ∈ h, hexOrColon.has b = true := by
  rcases uriDecodeHostport_cases hdecode with ⟨hne, hhex, -⟩ | ⟨-, w, rest, hmatch⟩
  · exact ⟨hne, hhex⟩
  · exfalso
    by_cases hcolon : colon ∈ h
    · rcases captured_of_reRegex (by decide) hmatch with _ | ⟨hhost, -⟩
      exact (notColon_has colon).mp (hhost.has colon hcolon) rfl
    · have hfront : colon ∉ [openBracket] ++ h ++ [closeBracket] := by
        simp only [List.mem_append, List.mem_singleton, not_or]
        exact ⟨⟨by decide, hcolon⟩, by decide⟩
      rw [reRegex_hostItems hfront (by simp) hdigits] at hmatch
      have hlength := congrArg List.length
        (List.cons.inj (Prod.mk.inj (Option.some.inj hmatch)).1).1
      simp only [List.length_append, List.length_singleton] at hlength
      omega

/-! ### URIs and addresses -/

theorem uriDecodeHostport_mem {hostport host port : Str}
    (h : uriDecodeHostport hostport = some (host, port)) : host ≠ [] ∧ ∀ b ∈ host, b ∈ hostport := by
  rcases uriDecodeHostport_cases h with ⟨hne, -, hinside⟩ | ⟨-, w, rest, hmatch⟩
  · exact ⟨hne, fun b hb => hinside.subset (by simp [hb])⟩
  · rcases captured_of_reRegex (by decide) hmatch with _ | ⟨hhost, -⟩
    exact ⟨hhost.ne_nil rfl, hhost.mem⟩

theorem decodeWithUser_eq {scheme user authority : Str} (hscheme : colon ∉ scheme)
    (hscheme' : scheme ≠ []) (huser : ∀ b ∈ user, b ≠ colon ∧ b ≠ atSign)
    (hauthority : ∀ b ∈ authority, hostPort.has b = true) (hne : authority ≠ []) :
    decodeWithUser (scheme ++ colon :: (user ++ atSign :: authority)) =
      (uriDecodeHostport authority).map fun p =>
        ⟨scheme, user, [], p.1, portOf p.2, [], [], []⟩ := by
  have hmatch : reRegex uriItems (scheme ++ colon :: (user ++ atSign :: authority)) =
      some ([scheme, user, [], [], authority, [], [], []], []) := by
    refine reRegex_of_matched (by simp) ?_
    have hcolon : ∀ b ∈ (colon :: (user ++ atSign :: authority)).head?, notColon.has b = false := by
      rintro _ ⟨⟩
      decide
    have hat (c : Class) (hc : c.has atSign = false) :
        ∀ b ∈ (atSign :: authority).head?, c.has b = false := by
      rintro _ ⟨⟩
      exact hc
    have hhas : ∀ b ∈ user, (Class.except "@:").has b = true := by
      intro b hb
      refine (except_has_iff (by decide +kernel) b).mpr fun hmem => ?_
      have hmem : b ∈ [atSign, colon] := hmem
      simp only [List.mem_cons, List.not_mem_nil, or_false] at hmem
      exact hmem.elim (huser b hb).2 (huser b hb).1
    rw [uriItems, run_cls_append rfl
      (fun b hb => (notColon_has b).mpr fun heq => hscheme (heq ▸ hb)) hcolon fun _ => hscheme',
      run_chr, if_pos rfl, run_cls_append (n := .star) rfl hhas (hat _ (by decide)) nofun]
    have hempty (c : Class) (hc : c.has atSign = false) (hq : c.quotes = false) (items : List Item) :
        run (.cls c .star :: items) (atSign :: authority) =
          (run items (atSign :: authority)).cons [] :=
      run_cls_append (s := []) (n := .star) hq nofun (hat c hc) nofun
    rw [hempty (.of ":") (by decide) rfl, hempty (.except "@") (by decide) rfl, run_chr,
      if_pos rfl, run_cls_all rfl hauthority fun _ => hne]
    rfl
  unfold decodeWithUser
  rw [hmatch]

theorem uriDecode_eq {scheme user authority : Str} {p : Str × Str} (hscheme : colon ∉ scheme)
    (hscheme' : scheme ≠ []) (huser : ∀ b ∈ user, b ≠ colon ∧ b ≠ atSign)
    (hauthority : ∀ b ∈ authority, hostPort.has b = true) (hne : authority ≠ [])
    (hp : uriDecodeHostport authority = some p) :
    uriDecode (scheme ++ colon :: (user ++ atSign :: authority)) =
      some ⟨scheme, user, [], p.1, portOf p.2, [], [], []⟩ := by
  unfold uriDecode
  rw [decodeWithUser_eq hscheme hscheme' huser hauthority hne, hp]
  rfl

theorem decodeWithUser_of_user {pl : Str} {uri : Uri} (h : uriDecode pl = some uri)
    (huser : uri.user ≠ []) : decodeWithUser pl = some uri := by
  unfold uriDecode at h
  split at h
  next hsome =>
    rw [hsome]
    exact h
  next =>
    unfold decodeWithoutUser at h
    split at h
    · obtain ⟨p, -, heq⟩ := Option.map_eq_some_iff.mp h
      rw [← heq] at huser
      exact absurd rfl huser
    · cases h

/-- What a URI with a user was decoded from. -/
theorem uriDecode_cases {pl : Str} {uri : Uri} (h : uriDecode pl = some uri) (huser : uri.user ≠ []) :
    (∀ b ∈ uri.user, b ≠ colon ∧ b ≠ atSign ∧ b ∈ pl) ∧
      ∃ hostport port, (∀ b ∈ hostport, hostPort.has b = true ∧ b ∈ pl) ∧
        uriDecodeHostport hostport = some (uri.host, port) ∧ uri.port = portOf port := by
  have hwith := decodeWithUser_of_user h huser
  unfold decodeWithUser at hwith
  split at hwith
  next scheme user w password hostport path params headers rest hmatch =>
    obtain ⟨⟨host, port⟩, hp, heq⟩ := Option.map_eq_some_iff.mp hwith
    subst heq
    rcases captured_of_reRegex (by decide) hmatch with _ | ⟨-, _ | ⟨hu, _ | ⟨-, _ | ⟨-, _ | ⟨hhp, -⟩⟩⟩⟩⟩
    refine ⟨fun b hb => ?_, hostport, port, fun b hb => ⟨hhp.has b hb, hhp.mem b hb⟩, hp, rfl⟩
    have hnot : b ∉ [atSign, colon] := (except_has_iff (by decide +kernel) b).mp (hu.has b hb)
    simp only [List.mem_cons, List.not_mem_nil, or_false, not_or] at hnot
    exact ⟨hnot.2, hnot.1, hu.mem b hb⟩
  next => cases hwith

theorem portOf_lt (port : Str) : portOf port < 2 ^ 16 := by
  unfold portOf
  split
  · decide
  · exact Nat.mod_lt _ (by decide)

theorem portOf_eq (hdigits : Digits digits) (hne : digits ≠ []) (hvalue : value digits < 2 ^ 16) :
    portOf digits = value digits := by
  unfold portOf
  rw [if_neg hne, hdigits.plU32, Nat.mod_eq_of_lt (show value digits < 2 ^ 32 by omega),
    Nat.mod_eq_of_lt hvalue]

/-- The address ends at the first closing angle bracket, whosever that is. -/
theorem reRegex_addrItems {x : Str} (hx : closeAngle ∈ x) (hhead : x.head? ≠ some closeAngle) :
    reRegex addrItems (openAngle :: x) =
      some ([[], [], x.takeWhile (· ≠ closeAngle), (x.dropWhile (· ≠ closeAngle)).tail], []) := by
  have hclass : (Class.except ">").has = (· ≠ closeAngle) := by
    funext b
    rw [Bool.eq_iff_iff, except_has_iff (by decide +kernel), decide_eq_true_eq]
    exact not_congr List.mem_singleton
  obtain ⟨params, hparams⟩ : ∃ params, x.dropWhile (· ≠ closeAngle) = closeAngle :: params := by
    cases hd : x.dropWhile (· ≠ closeAngle) with
    | nil => exact absurd (List.dropWhile_eq_nil_iff.mp hd closeAngle hx) (by simp)
    | cons b params =>
      have hhead' := List.head?_dropWhile_not (· ≠ closeAngle) x
      rw [hd] at hhead'
      have hb : b = closeAngle := of_not_not (of_decide_eq_false hhead')
      exact ⟨params, by rw [hb]⟩
  have hauri : x.takeWhile (· ≠ closeAngle) ≠ [] := by
    intro hnil
    have hsplit := List.takeWhile_append_dropWhile (p := (· ≠ closeAngle)) (l := x)
    rw [hnil, hparams, List.nil_append] at hsplit
    exact hhead (by rw [← hsplit]; rfl)
  have hlast : run [.cls anything .star] params = .matched [params] [] :=
    run_cls_all rfl (fun b _ => anything_has b) nofun
  refine reRegex_of_matched (List.cons_ne_nil _ _) ?_
  have hblank : run (.cls (.of " \t\r\n") .star :: addrItems.drop 2) (openAngle :: x) =
      (run (addrItems.drop 2) (openAngle :: x)).cons [] :=
    run_cls_append (s := []) (n := .star) rfl nofun (by rintro _ ⟨⟩; decide) nofun
  have hname : run addrItems (openAngle :: x) =
      (run (.cls (.of " \t\r\n") .star :: addrItems.drop 2) (openAngle :: x)).cons [] := rfl
  have hrest : run (addrItems.drop 2) (openAngle :: x) = .matched
      [x.takeWhile (· ≠ closeAngle), (x.dropWhile (· ≠ closeAngle)).tail] [] := by
    change run (.chr openAngle :: .cls (.except ">") .plus :: .chr closeAngle ::
      [.cls anything .star]) (openAngle :: x) = _
    rw [run_chr, if_pos rfl, run_cls rfl, hclass, if_neg fun h => hauri h.2, hparams, run_chr,
      if_pos rfl, hlast]
    rfl
  rw [hname, hblank, hrest]
  rfl

end SimplePhone.Re
