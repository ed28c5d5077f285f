import SimplePhone.Settings.QrGrammar
import SimplePhone.Text.UrlDecoder

/-! `QrPayload`: the account that a QR code carries as a SIP URI. -/
namespace SimplePhone.Settings.QrPayload

open Text

structure QrSipInfo where
  user : JString
  password : JString
  host : JString
  port : Int32
  realm : Option JString
deriving DecidableEq

/-! ### The code -/

def defaultPort : Int32 := 5060

def groupValue (m : Captures UInt16) (i : Nat) : JString := ((m[i - 1]?).bind id).getD []

/-- What the decoder rejects stays as it is. -/
def decodeUrl (tables : Tables) (s : JString) : JString := (decode tables.malformed s).getD s

/-- The body of the loop over the parameters. -/
def takeRealm (tables : Tables) (realm : Option JString) (param : JString) : Option JString :=
  match split (unit '=') 2 param with
  | [name, value] =>
      if equalsIgnoreCase (trim tables.blank name) (units "realm") then
        some (decodeUrl tables (trim tables.blank value))
      else realm
  | _ => realm

def parse (tables : Tables) (payload : JString) : Option QrSipInfo := do
  let m ← (regex tables.classes).matchStart (trim tables.blank payload)
  let user := decodeUrl tables (groupValue m 1)
  let password := decodeUrl tables (groupValue m 2)
  let host := decodeUrl tables (groupValue m 3)
  if user = [] ∨ password = [] ∨ host = [] then none
  else
    let port := ((toIntOrNull tables.zeros (groupValue m 4)).filter
      fun n => 1 ≤ n && n ≤ 65535).getD defaultPort
    let params := groupValue m 5
    let realm :=
      if params = [] then none else (params.splitOn (unit ';')).foldl (takeRealm tables) none
    some { user, password, host, port, realm }

/-! ### What a payload of that form says -/

/-- The number written with digits of ASCII. -/
def number (digits : JString) : Nat := digits.foldl (fun n c => 10 * n + (c.toNat - 48)) 0

def Parts.writtenPort (parts : Parts) : Nat :=
  match parts.port with
  | none => 5060
  | some digits => if 1 ≤ number digits ∧ number digits ≤ 65535 then number digits else 5060

/-- The value of a parameter with the name `realm`. -/
def realmValue (blank : UInt16 → Bool) (param : JString) : Option JString :=
  match split (unit '=') 2 param with
  | [name, value] =>
      if equalsIgnoreCase (trim blank name) (units "realm") then some (trim blank value) else none
  | _ => none

/-- That of the last one. -/
def Parts.realm (blank : UInt16 → Bool) (parts : Parts) : Option JString :=
  ((parts.params.getD []).splitOn (unit ';')).reverse.findSome? (realmValue blank)

/-- The parts themselves, nothing decoded. -/
def Parts.verbatim (blank : UInt16 → Bool) (parts : Parts) : QrSipInfo where
  user := parts.user
  password := parts.password
  host := parts.host
  port := Int32.ofNat parts.writtenPort
  realm := parts.realm blank

/-- The parts, and what they say, are read off the payload. -/
def Verbatim (tables : Tables) (payload : JString) : Prop :=
  ((parse tables payload).isSome = true ↔
    ∃ parts : Parts, parts.WellFormed ascii ∧ trim tables.blank payload = parts.text) ∧
  ∀ parts : Parts, parts.WellFormed ascii → trim tables.blank payload = parts.text →
    parse tables payload = some (parts.verbatim tables.blank)

variable {tables : Tables} {payload : JString} {parts : Parts}

/-- A printable unit of ASCII other than the percent sign, a tab or a line break. -/
def Plain (c : UInt16) : Prop :=
  32 ≤ c.toNat ∧ c.toNat ≤ 126 ∧ c ≠ unit '%' ∨ c = unit '\t' ∨ c = unit '\n' ∨ c = unit '\r'

instance (c : UInt16) : Decidable (Plain c) := inferInstanceAs (Decidable (_ ∨ _))

theorem takeRealm_eq (realm : Option JString) (param : JString) : takeRealm tables realm param =
    ((realmValue tables.blank param).map (decodeUrl tables)).or realm := by
  unfold takeRealm realmValue
  split
  · split <;> rfl
  · rfl

theorem foldl_takeRealm (params : List JString) (realm : Option JString) :
    params.foldl (takeRealm tables) realm =
      ((params.reverse.findSome? (realmValue tables.blank)).map (decodeUrl tables)).or realm := by
  induction params generalizing realm with
  | nil => rfl
  | cons param params ih =>
    rw [List.foldl_cons, ih, takeRealm_eq, List.reverse_cons, List.findSome?_append]
    cases params.reverse.findSome? (realmValue tables.blank) with
    | some value => rfl
    | none =>
      simp only [Option.map_none, Option.none_or, List.findSome?_cons, List.findSome?_nil]
      cases realmValue tables.blank param <;> rfl

/-! ### Ports -/

theorem digitChar_ascii : ∀ n < 10, (Nat.digitChar n).isDigit = true ∧
    (unit (Nat.digitChar n)).toNat = 48 + n := by decide

theorem exists_digits {w : JString} (h : ∀ c ∈ w, ascii.digit c = true) :
    ∃ cs : List Char, (∀ c ∈ cs, c.isDigit = true) ∧ cs.map unit = w := by
  induction w with
  | nil =>
    refine ⟨[], ?_, rfl⟩
    intro c hc
    cases hc
  | cons c w ih =>
    obtain ⟨cs, hcs, rfl⟩ := ih fun d hd => h d (List.mem_cons_of_mem c hd)
    have hc := h c List.mem_cons_self
    simp only [ascii, Bool.and_eq_true, decide_eq_true_eq, UInt16.le_iff_toNat_le] at hc
    change 48 ≤ c.toNat ∧ c.toNat ≤ 57 at hc
    obtain ⟨hdigit, hcode⟩ := digitChar_ascii (c.toNat - 48) (by omega)
    refine ⟨Nat.digitChar (c.toNat - 48) :: cs, List.forall_mem_cons.mpr ⟨hdigit, hcs⟩, ?_⟩
    rw [List.map_cons]
    apply congrArg (· :: cs.map unit)
    apply UInt16.toNat_inj.mp
    omega

theorem foldl_digits {cs : List Char} (hcs : ∀ c ∈ cs, c.isDigit = true) (n : Nat) :
    (cs.map unit).foldl (fun n c => 10 * n + (c.toNat - 48)) n = Nat.ofDigitChars 10 cs n := by
  induction cs generalizing n with
  | nil => rw [Nat.ofDigitChars_nil, List.map_nil, List.foldl_nil]
  | cons c cs ih =>
    have hunit := (toNat_unit_of_digit (hcs c List.mem_cons_self)).1
    rw [List.map_cons, List.foldl_cons, ih fun d hd => hcs d (List.mem_cons_of_mem c hd), hunit,
      Nat.ofDigitChars_cons]
    rfl

/-- The port that the code reads is the one written. -/
theorem port_eq (h : parts.WellFormed ascii) :
    ((toIntOrNull tables.zeros (parts.port.getD [])).filter
      fun n => 1 ≤ n && n ≤ 65535).getD defaultPort = Int32.ofNat parts.writtenPort := by
  unfold Parts.writtenPort
  cases hport : parts.port with
  | none => rfl
  | some w =>
    obtain ⟨hdigits, hpos, hlength⟩ := h.port w hport
    obtain ⟨cs, hcs, rfl⟩ := exists_digits hdigits
    rw [List.length_map] at hpos hlength
    have hvalue : number (cs.map unit) = Nat.ofDigitChars 10 cs 0 := foldl_digits hcs 0
    have hlt : Nat.ofDigitChars 10 cs 0 < 100000 := by
      have hpow : 10 ^ cs.length ≤ 10 ^ 5 := Nat.pow_le_pow_right (by decide) hlength
      have hbound := ofDigitChars_lt hcs 0
      omega
    have hread : toIntOrNull tables.zeros (cs.map unit) =
        some (Int32.ofNat (Nat.ofDigitChars 10 cs 0)) :=
      toIntOrNull_digits (List.ne_nil_of_length_pos hpos) hcs hlength
    have hint : (Int32.ofNat (Nat.ofDigitChars 10 cs 0)).toInt = Nat.ofDigitChars 10 cs 0 :=
      Int32.toInt_ofNat_of_lt (by omega)
    have hrange : (decide ((1 : Int32) ≤ Int32.ofNat (Nat.ofDigitChars 10 cs 0)) &&
        decide (Int32.ofNat (Nat.ofDigitChars 10 cs 0) ≤ 65535)) =
        decide (1 ≤ Nat.ofDigitChars 10 cs 0 ∧ Nat.ofDigitChars 10 cs 0 ≤ 65535) := by
      rw [← Bool.decide_and, decide_eq_decide, Int32.le_iff_toInt_le, Int32.le_iff_toInt_le, hint]
      change 1 ≤ (Nat.ofDigitChars 10 cs 0 : Int) ∧ (Nat.ofDigitChars 10 cs 0 : Int) ≤ 65535 ↔ _
      omega
    simp only [Option.getD_some, hread, hvalue, Option.filter_some, hrange, decide_eq_true_eq]
    split <;> rfl

/-! ### Payloads in units that are settled -/

theorem mem_text {w : JString} {c : UInt16} (hc : c ∈ w)
    (hw : w = parts.user ∨ w = parts.password ∨ w = parts.host ∨ some w = parts.port ∨
      some w = parts.params) : c ∈ parts.text := by
  unfold Parts.text
  simp only [List.mem_flatten, List.mem_cons, List.not_mem_nil, or_false, exists_eq_or_imp,
    exists_eq_left]
  rcases hw with rfl | rfl | rfl | hw | hw
  · exact .inr (.inl hc)
  · exact .inr (.inr (.inr (.inl hc)))
  · exact .inr (.inr (.inr (.inr (.inr (.inl hc)))))
  · rw [← hw]
    exact .inr (.inr (.inr (.inr (.inr (.inr (.inl (List.mem_append_right _ hc)))))))
  · rw [← hw]
    exact .inr (.inr (.inr (.inr (.inr (.inr (.inr (List.mem_append_right _ hc)))))))

theorem Parts.WellFormed.congr {classes classes' : Classes} (h : parts.WellFormed classes)
    (hsame : ∀ c ∈ parts.text, classes.space c = classes'.space c ∧
      classes.digit c = classes'.digit c ∧ classes.lineBreak c = classes'.lineBreak c) :
    parts.WellFormed classes' := by
  have hfield {w : JString} {chars : String} (hmem : ∀ c ∈ w, c ∈ parts.text)
      (hw : w ≠ [] ∧ ∀ c ∈ w, c ∉ units chars ∧ classes.space c = false) :
      w ≠ [] ∧ ∀ c ∈ w, c ∉ units chars ∧ classes'.space c = false := by
    refine ⟨hw.1, ?_⟩
    intro c hc
    rw [← (hsame c (hmem c hc)).1]
    exact hw.2 c hc
  refine ⟨hfield (fun c hc => mem_text hc (.inl rfl)) h.user,
    hfield (fun c hc => mem_text hc (.inr (.inl rfl))) h.password,
    hfield (fun c hc => mem_text hc (.inr (.inr (.inl rfl)))) h.host, ?_, ?_⟩
  · intro w hw
    refine ⟨?_, (h.port w hw).2⟩
    intro c hc
    rw [← (hsame c (mem_text hc (.inr (.inr (.inr (.inl hw.symm)))))).2.1]
    exact (h.port w hw).1 c hc
  · intro w hw c hc
    rw [← (hsame c (mem_text hc (.inr (.inr (.inr (.inr hw.symm)))))).2.2]
    exact h.params w hw c hc

theorem wellFormed_ascii (h : ∀ c ∈ parts.text, Settled c) :
    parts.WellFormed tables.classes ↔ parts.WellFormed ascii := by
  have hsame (c : UInt16) (hc : c ∈ parts.text) :
      tables.classes.space c = ascii.space c ∧ tables.classes.digit c = ascii.digit c ∧
        tables.classes.lineBreak c = ascii.lineBreak c :=
    ⟨if_pos (h c hc), if_pos (h c hc), if_pos (h c hc)⟩
  constructor
  · intro hparts
    exact hparts.congr hsame
  · intro hparts
    apply hparts.congr
    intro c hc
    obtain ⟨hspace, hdigit, hbreak⟩ := hsame c hc
    exact ⟨hspace.symm, hdigit.symm, hbreak.symm⟩

/-- A trimmed text does not end in a line break. -/
theorem lineBreak_getLast (h : ∀ c ∈ payload, Settled c) :
    ∀ c ∈ (trim tables.blank payload).getLast?, tables.classes.lineBreak c = false := by
  intro c hc
  have hsettled := h c (mem_of_mem_trim (List.mem_of_getLast? hc))
  have hblank := getLast_trim hc
  have hbreak : tables.classes.lineBreak c = ascii.lineBreak c := if_pos hsettled
  unfold isWhitespace at hblank
  rw [if_pos (UInt16.lt_iff_toNat_lt.mpr hsettled.1)] at hblank
  rw [hbreak]
  simp only [ascii, Bool.or_eq_false_iff, Bool.and_eq_false_iff, decide_eq_false_iff_not,
    UInt16.le_iff_toNat_le, ← UInt16.toNat_inj] at hblank ⊢
  change (¬9 ≤ c.toNat ∨ ¬c.toNat ≤ 13) ∧ _ at hblank
  change ¬c.toNat = 10 ∧ ¬c.toNat = 13
  omega

theorem matchStart_trim (h : ∀ c ∈ payload, Settled c) {cs : Captures UInt16} :
    (regex tables.classes).matchStart (trim tables.blank payload) = some cs ↔
      ∃ parts : Parts, parts.WellFormed ascii ∧ trim tables.blank payload = parts.text ∧
        cs = parts.captures := by
  apply (Parts.matchStart_regex (lineBreak_getLast h)).trans
  have hsettled {parts : Parts} (hs : trim tables.blank payload = parts.text) :
      ∀ c ∈ parts.text, Settled c :=
    fun c hc => h c (mem_of_mem_trim (hs ▸ hc))
  constructor
  · rintro ⟨parts, hparts, hs, hcs⟩
    exact ⟨parts, (wellFormed_ascii (hsettled hs)).mp hparts, hs, hcs⟩
  · rintro ⟨parts, hparts, hs, hcs⟩
    exact ⟨parts, (wellFormed_ascii (hsettled hs)).mpr hparts, hs, hcs⟩

theorem exists_of_parse (h : ∀ c ∈ payload, Settled c)
    (hparse : (parse tables payload).isSome = true) :
    ∃ parts : Parts, parts.WellFormed ascii ∧ trim tables.blank payload = parts.text := by
  cases hm : (regex tables.classes).matchStart (trim tables.blank payload) with
  | none =>
    unfold parse at hparse
    rw [hm] at hparse
    cases hparse
  | some cs =>
    obtain ⟨parts, hparts, hs, -⟩ := (matchStart_trim h).mp hm
    exact ⟨parts, hparts, hs⟩

/-- What is read off a payload, its parts decoded. -/
theorem parse_eq (h : ∀ c ∈ payload, Settled c) (hparts : parts.WellFormed ascii)
    (hs : trim tables.blank payload = parts.text) (huser : decodeUrl tables parts.user ≠ [])
    (hpassword : decodeUrl tables parts.password ≠ [])
    (hhost : decodeUrl tables parts.host ≠ []) :
    parse tables payload = some
      { user := decodeUrl tables parts.user
        password := decodeUrl tables parts.password
        host := decodeUrl tables parts.host
        port := Int32.ofNat parts.writtenPort
        realm := (parts.realm tables.blank).map (decodeUrl tables) } := by
  have hm := (matchStart_trim h).mpr ⟨parts, hparts, hs, rfl⟩
  have hrealm : (if parts.params.getD [] = [] then none
      else ((parts.params.getD []).splitOn (unit ';')).foldl (takeRealm tables) none) =
        (parts.realm tables.blank).map (decodeUrl tables) := by
    unfold Parts.realm
    split
    · rename_i hnil
      rw [hnil]
      rfl
    · rw [foldl_takeRealm, Option.or_none]
  rw [← port_eq hparts, ← hrealm]
  unfold parse
  rw [hm]
  exact if_neg (not_or.mpr ⟨huser, not_or.mpr ⟨hpassword, hhost⟩⟩)

/-! ### Plain payloads -/

theorem Plain.settled {c : UInt16} (h : Plain c) : Settled c := by
  unfold Settled
  rcases h with ⟨hlow, hhigh, -⟩ | rfl | rfl | rfl
  · omega
  · decide
  · decide
  · decide

theorem Plain.ne_percent {c : UInt16} (h : Plain c) : c ≠ unit '%' := by
  rcases h with ⟨-, -, hne⟩ | rfl | rfl | rfl
  · exact hne
  · decide
  · decide
  · decide

/-- What the decoder makes of a text without escapes. -/
def blankPlus (s : JString) : JString := s.map fun c => if c = unit '+' then unit ' ' else c

theorem decodeUrl_of_not_mem {s : JString} (h : unit '%' ∉ s) :
    decodeUrl tables s = blankPlus s := by
  unfold decodeUrl
  rw [decode_of_not_mem h]
  rfl

theorem blankPlus_eq_self {s : JString} : blankPlus s = s ↔ unit '+' ∉ s := by
  induction s with
  | nil => exact iff_of_true rfl List.not_mem_nil
  | cons c s ih =>
    have hcons : blankPlus (c :: s) = (if c = unit '+' then unit ' ' else c) :: blankPlus s := rfl
    rw [hcons, List.cons.injEq, ih, List.mem_cons, not_or]
    apply and_congr_left'
    split
    · rename_i hc
      subst hc
      decide
    · rename_i hc
      exact iff_of_true rfl (Ne.symm hc)

theorem mem_of_mem_splitOn {d c : UInt16} {s w : JString} (hw : w ∈ s.splitOn d) (hc : c ∈ w) :
    c ∈ s := by
  rw [List.splitOn_eq_splitOnP] at hw
  induction s generalizing w with
  | nil =>
    obtain rfl := List.mem_singleton.mp hw
    exact hc
  | cons x s ih =>
    rw [List.splitOnP_cons_eq_if_modifyHead] at hw
    split at hw
    · rcases List.mem_cons.mp hw with rfl | hw
      · cases hc
      · exact List.mem_cons_of_mem x (ih hw hc)
    · cases hs : s.splitOnP (· == d) with
      | nil => exact absurd hs (List.splitOnP_ne_nil _ s)
      | cons v vs =>
        rw [hs] at hw ih
        rcases List.mem_cons.mp hw with rfl | hw
        · rcases List.mem_cons.mp hc with rfl | hc
          · exact List.mem_cons_self
          · exact List.mem_cons_of_mem x (ih List.mem_cons_self hc)
        · exact List.mem_cons_of_mem x (ih (List.mem_cons_of_mem v hw) hc)

theorem mem_of_mem_realmValue {blank : UInt16 → Bool} {param value : JString} {c : UInt16}
    (h : realmValue blank param = some value) (hc : c ∈ value) : c ∈ param := by
  unfold realmValue at h
  rcases cut_succ (unit '=') 0 param with hcut | ⟨name, rest, -, hparam, hcut⟩
  · have hsplit : split (unit '=') 2 param = [param] := hcut
    rw [hsplit] at h
    cases h
  · have hsplit : split (unit '=') 2 param = [name, rest] := hcut
    rw [hsplit] at h
    simp only at h
    split at h
    · obtain rfl := Option.some.inj h
      rw [hparam]
      exact List.mem_append_right _ (List.mem_cons_of_mem _ (mem_of_mem_trim hc))
    · cases h

theorem mem_of_mem_realm {blank : UInt16 → Bool} {value : JString} {c : UInt16}
    (h : parts.realm blank = some value) (hc : c ∈ value) : c ∈ parts.text := by
  obtain ⟨param, hparam, hvalue⟩ := List.exists_of_findSome?_eq_some h
  have hmem := mem_of_mem_splitOn (List.mem_reverse.mp hparam) (mem_of_mem_realmValue hvalue hc)
  cases hparams : parts.params with
  | none =>
    rw [hparams] at hmem
    cases hmem
  | some params =>
    rw [hparams] at hmem
    exact mem_text hmem (.inr (.inr (.inr (.inr hparams.symm))))

theorem parse_plain (h : ∀ c ∈ payload, Plain c) (hparts : parts.WellFormed ascii)
    (hs : trim tables.blank payload = parts.text) : parse tables payload = some
      { user := blankPlus parts.user
        password := blankPlus parts.password
        host := blankPlus parts.host
        port := Int32.ofNat parts.writtenPort
        realm := (parts.realm tables.blank).map blankPlus } := by
  have hpercent (w : JString) (hw : ∀ c ∈ w, c ∈ parts.text) : unit '%' ∉ w :=
    fun hmem => (h _ (mem_of_mem_trim (hs ▸ hw _ hmem))).ne_percent rfl
  have huser : decodeUrl tables parts.user = blankPlus parts.user :=
    decodeUrl_of_not_mem (hpercent _ fun c hc => mem_text hc (.inl rfl))
  have hpassword : decodeUrl tables parts.password = blankPlus parts.password :=
    decodeUrl_of_not_mem (hpercent _ fun c hc => mem_text hc (.inr (.inl rfl)))
  have hhost : decodeUrl tables parts.host = blankPlus parts.host :=
    decodeUrl_of_not_mem (hpercent _ fun c hc => mem_text hc (.inr (.inr (.inl rfl))))
  have hrealm : (parts.realm tables.blank).map (decodeUrl tables) =
      (parts.realm tables.blank).map blankPlus := by
    apply Option.map_congr
    intro value hvalue
    exact decodeUrl_of_not_mem (hpercent _ fun c hc => mem_of_mem_realm hvalue hc)
  have hne {s : JString} (hs : s ≠ []) : blankPlus s ≠ [] :=
    fun hnil => hs (List.map_eq_nil_iff.mp hnil)
  have hsettled : ∀ c ∈ payload, Settled c := fun c hc => (h c hc).settled
  rw [parse_eq hsettled hparts hs (huser ▸ hne hparts.user.1) (hpassword ▸ hne hparts.password.1)
    (hhost ▸ hne hparts.host.1), huser, hpassword, hhost, hrealm]

/-- A plain payload is read verbatim unless it has a plus sign where the decoder sees it. -/
theorem verbatim_iff (h : ∀ c ∈ payload, Plain c) : Verbatim tables payload ↔
    ∀ parts : Parts, parts.WellFormed ascii → trim tables.blank payload = parts.text →
      unit '+' ∉ parts.user ∧ unit '+' ∉ parts.password ∧ unit '+' ∉ parts.host ∧
        ∀ value ∈ parts.realm tables.blank, unit '+' ∉ value := by
  have hiff {parts : Parts} (hparts : parts.WellFormed ascii)
      (hs : trim tables.blank payload = parts.text) :
      parse tables payload = some (parts.verbatim tables.blank) ↔
        unit '+' ∉ parts.user ∧ unit '+' ∉ parts.password ∧ unit '+' ∉ parts.host ∧
          ∀ value ∈ parts.realm tables.blank, unit '+' ∉ value := by
    rw [parse_plain h hparts hs, Option.some.injEq]
    unfold Parts.verbatim
    rw [QrSipInfo.mk.injEq, blankPlus_eq_self, blankPlus_eq_self, blankPlus_eq_self]
    apply and_congr_right'
    apply and_congr_right'
    apply and_congr_right'
    rw [and_iff_right rfl]
    cases parts.realm tables.blank with
    | none => exact iff_of_true rfl fun _ hvalue => (by cases hvalue)
    | some value =>
      rw [Option.map_some, Option.some.injEq, blankPlus_eq_self]
      exact ⟨fun hvalue _ hmem => Option.some.inj hmem ▸ hvalue, fun hall => hall value rfl⟩
  constructor
  · intro hverbatim parts hparts hs
    exact (hiff hparts hs).mp (hverbatim.2 parts hparts hs)
  · intro hplus
    have hall (parts : Parts) (hparts : parts.WellFormed ascii)
        (hs : trim tables.blank payload = parts.text) :
        parse tables payload = some (parts.verbatim tables.blank) :=
      (hiff hparts hs).mpr (hplus parts hparts hs)
    refine ⟨⟨exists_of_parse fun c hc => (h c hc).settled, ?_⟩, hall⟩
    rintro ⟨parts, hparts, hs⟩
    rw [hall parts hparts hs]
    rfl

theorem plain_of_all {s : JString} (h : (s.all fun c => decide (Plain c)) = true) :
    ∀ c ∈ s, Plain c :=
  fun c hc => of_decide_eq_true (List.all_eq_true.mp h c hc)

/-- A platform that knows nothing beyond ASCII. -/
def asciiTables : Tables where
  space _ := false
  digit _ := false
  lineBreak _ := false
  blank _ := false
  zeros := []
  malformed _ := []

theorem verbatim_realm :
    Verbatim asciiTables (units "\tsip:203:pass@192.0.2.1:5080;x=1; Realm = asterisk \r\n") := by
  have hplus : unit '+' ∉ units "\tsip:203:pass@192.0.2.1:5080;x=1; Realm = asterisk \r\n" := by
    decide
  apply (verbatim_iff (plain_of_all (by decide))).mpr
  intro parts _ hs
  have hmem (h : unit '+' ∈ parts.text) : False := hplus (mem_of_mem_trim (hs ▸ h))
  refine ⟨fun h => hmem (mem_text h (.inl rfl)), fun h => hmem (mem_text h (.inr (.inl rfl))),
    fun h => hmem (mem_text h (.inr (.inr (.inl rfl)))), ?_⟩
  intro value hvalue h
  exact hmem (mem_of_mem_realm hvalue h)

theorem plus_not_verbatim : (∀ c ∈ units "sip:+81:pass@192.0.2.1", Plain c) ∧
    ¬Verbatim asciiTables (units "sip:+81:pass@192.0.2.1") := by
  let parts : Parts := ⟨units "+81", units "pass", units "192.0.2.1", none, none⟩
  have htakes {chars : String} {w : JString} (hne : w ≠ [])
      (hcls : w.all (ascii.except chars) = true) :
      w ≠ [] ∧ ∀ c ∈ w, c ∉ units chars ∧ ascii.space c = false := by
    apply Parts.takes_except.mp
    refine ⟨List.all_eq_true.mp hcls, List.length_pos_of_ne_nil hne, ?_⟩
    intro n hn
    cases hn
  have hparts : parts.WellFormed ascii := by
    refine ⟨htakes (by decide) (by decide), htakes (by decide) (by decide),
      htakes (by decide) (by decide), ?_, ?_⟩
    · intro w hw
      cases hw
    · intro w hw
      cases hw
  have hread : parse asciiTables (units "sip:+81:pass@192.0.2.1") =
      some ⟨units " 81", units "pass", units "192.0.2.1", 5060, none⟩ := by decide +kernel
  refine ⟨plain_of_all (by decide), ?_⟩
  intro h
  have hverbatim := h.2 parts hparts (by decide)
  rw [hread, Option.some.injEq] at hverbatim
  exact absurd (congrArg QrSipInfo.user hverbatim) (by decide)

end SimplePhone.Settings.QrPayload
