import SimplePhone.Text.Pattern
import SimplePhone.Text.Kotlin

/-! The form of a payload that `QrPayload` reads off a QR code, as its regular expression has
it. What the expression takes has that form in one way only. -/
namespace SimplePhone.Settings.QrPayload

open Text

/-- `\s`, `\d` and what `.` leaves out. -/
structure Classes where
  space : UInt16 → Bool
  digit : UInt16 → Bool
  lineBreak : UInt16 → Bool
  digit_semicolon : digit (unit ';') = false
  lineBreak_lf : lineBreak (unit '\n') = true

def ascii : Classes where
  space c := 9 ≤ c && c ≤ 13 && c ≠ 11 || c = 32
  digit c := 48 ≤ c && c ≤ 57
  lineBreak c := c = 10 || c = 13
  digit_semicolon := by decide
  lineBreak_lf := by decide

/-- What the platform knows of the units on which the JDK and ICU do not agree, or which
are not of ASCII. -/
structure Tables where
  space : UInt16 → Bool
  digit : UInt16 → Bool
  lineBreak : UInt16 → Bool
  /-- `isWhitespace` -/
  blank : UInt16 → Bool
  /-- the zeros that `Character.digit` knows besides '0' -/
  zeros : List UInt16
  /-- the text of bytes that are not UTF-8 -/
  malformed : List UInt8 → JString

/-- The units about which nobody disagrees. -/
def Settled (c : UInt16) : Prop := c.toNat < 128 ∧ c.toNat ≠ 11 ∧ c.toNat ≠ 12

instance (c : UInt16) : Decidable (Settled c) := inferInstanceAs (Decidable (_ ∧ _))

def Tables.classes (tables : Tables) : Classes where
  space c := if Settled c then ascii.space c else tables.space c
  digit c := if Settled c then ascii.digit c else tables.digit c
  lineBreak c := if Settled c then ascii.lineBreak c else tables.lineBreak c
  digit_semicolon := by
    rw [if_pos (by decide)]
    decide
  lineBreak_lf := by
    rw [if_pos (by decide)]
    decide

/-- `[^…\s]` -/
def Classes.except (classes : Classes) (chars : String) (c : UInt16) : Bool :=
  c ∉ units chars && !classes.space c

/-- `$`: a line break that ends the text may follow. -/
def Classes.atEnd (classes : Classes) : JString → Bool
  | [] => true
  | [c] => classes.lineBreak c
  | [c, d] => c = unit '\r' && d = unit '\n'
  | _ => false

/-- The leading `^` holds the match at the start of the text. A pair of surrogates is two
units here and one point for the library, which only counts in `\d{1,5}`. -/
def regex (classes : Classes) : Pattern UInt16 :=
  .concat [
    .literal (units "sip:"), .field (classes.except ":@/") 1 none,
    .literal (units ":"), .field (classes.except "@/;") 1 none,
    .literal (units "@"), .field (classes.except ":@/;") 1 none,
    .marked (units ":") classes.digit 1 (some 5),
    .marked (units ";") (fun c => !classes.lineBreak c) 0 none,
    .anchor classes.atEnd]

structure Parts where
  user : JString
  password : JString
  host : JString
  port : Option JString
  params : Option JString

namespace Parts

def text (parts : Parts) : JString :=
  [units "sip:", parts.user, units ":", parts.password, units "@", parts.host,
    Pattern.behind (units ":") parts.port, Pattern.behind (units ";") parts.params].flatten

def captures (parts : Parts) : Captures UInt16 :=
  [some parts.user, some parts.password, some parts.host, parts.port, parts.params]

structure WellFormed (classes : Classes) (parts : Parts) : Prop where
  user : parts.user ≠ [] ∧ ∀ c ∈ parts.user, c ∉ units ":@/" ∧ classes.space c = false
  password : parts.password ≠ [] ∧ ∀ c ∈ parts.password, c ∉ units "@/;" ∧ classes.space c = false
  host : parts.host ≠ [] ∧ ∀ c ∈ parts.host, c ∉ units ":@/;" ∧ classes.space c = false
  port : ∀ w ∈ parts.port, (∀ c ∈ w, classes.digit c = true) ∧ 1 ≤ w.length ∧ w.length ≤ 5
  params : ∀ w ∈ parts.params, ∀ c ∈ w, classes.lineBreak c = false

variable {classes : Classes} {parts parts' : Parts} {cs : Captures UInt16} {s t : JString}

theorem takes_except {chars : String} {w : JString} :
    Pattern.Takes (classes.except chars) 1 none w ↔
      w ≠ [] ∧ ∀ c ∈ w, c ∉ units chars ∧ classes.space c = false := by
  unfold Pattern.Takes Classes.except
  simp only [Bool.and_eq_true, decide_eq_true_eq, Bool.not_eq_true']
  constructor
  · rintro ⟨hcls, hlength, -⟩
    exact ⟨List.ne_nil_of_length_pos hlength, hcls⟩
  · rintro ⟨hne, hcls⟩
    refine ⟨hcls, List.length_pos_of_ne_nil hne, ?_⟩
    intro n hn
    cases hn

theorem takes_params {w : JString} :
    Pattern.Takes (fun c => !classes.lineBreak c) 0 none w ↔
      ∀ c ∈ w, classes.lineBreak c = false := by
  unfold Pattern.Takes
  simp only [Bool.not_eq_true']
  constructor
  · rintro ⟨hcls, -, -⟩
    exact hcls
  · intro hcls
    refine ⟨hcls, Nat.zero_le _, ?_⟩
    intro n hn
    cases hn

theorem takes_port {w : JString} : Pattern.Takes classes.digit 1 (some 5) w ↔
    (∀ c ∈ w, classes.digit c = true) ∧ 1 ≤ w.length ∧ w.length ≤ 5 := by
  constructor
  · rintro ⟨hcls, hmin, hmax⟩
    exact ⟨hcls, hmin, hmax 5 rfl⟩
  · rintro ⟨hcls, hmin, hmax⟩
    refine ⟨hcls, hmin, ?_⟩
    rintro _ ⟨⟩
    exact hmax

/-- The pattern takes what is well formed, up to a line break at the end. -/
theorem matches_regex : (regex classes).Matches s cs t ↔ ∃ parts : Parts,
    parts.WellFormed classes ∧ s = parts.text ++ t ∧ classes.atEnd t = true ∧
      cs = parts.captures := by
  simp only [regex, Pattern.matches_concat_cons, Pattern.matches_literal, Pattern.matches_field,
    Pattern.matches_marked, takes_except, takes_params, takes_port]
  constructor
  · intro h
    obtain ⟨_, _, _, ⟨rfl, rfl⟩, h, rfl⟩ := h
    obtain ⟨_, _, _, ⟨user, rfl, huser, rfl⟩, h, rfl⟩ := h
    obtain ⟨_, _, _, ⟨rfl, rfl⟩, h, rfl⟩ := h
    obtain ⟨_, _, _, ⟨password, rfl, hpassword, rfl⟩, h, rfl⟩ := h
    obtain ⟨_, _, _, ⟨rfl, rfl⟩, h, rfl⟩ := h
    obtain ⟨_, _, _, ⟨host, rfl, hhost, rfl⟩, h, rfl⟩ := h
    obtain ⟨_, _, _, ⟨port, rfl, hport, rfl⟩, h, rfl⟩ := h
    obtain ⟨_, _, _, ⟨params, rfl, hparams, rfl⟩, h, rfl⟩ := h
    obtain ⟨_, _, _, ⟨rfl, hend, rfl⟩, h, rfl⟩ := h
    obtain ⟨rfl, rfl⟩ := Pattern.matches_concat_nil.mp h
    refine ⟨⟨user, password, host, port, params⟩, ⟨huser, hpassword, hhost, hport, hparams⟩, ?_,
      hend, rfl⟩
    simp only [text, List.flatten_cons, List.flatten_nil, List.append_assoc, List.nil_append]
  · rintro ⟨parts, h, rfl, hend, rfl⟩
    simp only [text, List.flatten_cons, List.flatten_nil, List.append_assoc, List.nil_append]
    refine ⟨[], _, _, ⟨rfl, rfl⟩, ?_, rfl⟩
    refine ⟨_, _, _, ⟨parts.user, rfl, h.user, rfl⟩, ?_, rfl⟩
    refine ⟨[], _, _, ⟨rfl, rfl⟩, ?_, rfl⟩
    refine ⟨_, _, _, ⟨parts.password, rfl, h.password, rfl⟩, ?_, rfl⟩
    refine ⟨[], _, _, ⟨rfl, rfl⟩, ?_, rfl⟩
    refine ⟨_, _, _, ⟨parts.host, rfl, h.host, rfl⟩, ?_, rfl⟩
    refine ⟨_, _, _, ⟨parts.port, rfl, h.port, rfl⟩, ?_, rfl⟩
    refine ⟨_, _, _, ⟨parts.params, rfl, h.params, rfl⟩, ?_, rfl⟩
    exact ⟨[], _, _, ⟨rfl, hend, rfl⟩, Pattern.matches_concat_nil.mpr ⟨rfl, rfl⟩, rfl⟩

/-! ### A payload has one form only -/

/-- A mark that is not of the class ends what the class takes. -/
theorem head_mark {cls : UInt16 → Bool} {mark : UInt16} (hmark : cls mark = false) :
    ∀ c ∈ (mark :: t).head?, cls c = false := by
  rintro _ ⟨⟩
  exact hmark

theorem head_behind {cls : UInt16 → Bool} {mark : UInt16} {o : Option JString}
    (hmark : cls mark = false) (ht : ∀ c ∈ t.head?, cls c = false) :
    ∀ c ∈ (Pattern.behind [mark] o ++ t).head?, cls c = false := by
  cases o with
  | none => exact ht
  | some w => exact head_mark hmark

theorem behind_append_inj {cls : UInt16 → Bool} {mark : UInt16} {o o' : Option JString}
    {t' : JString} (ho : ∀ w ∈ o, ∀ c ∈ w, cls c = true) (ho' : ∀ w ∈ o', ∀ c ∈ w, cls c = true)
    (ht : ∀ c ∈ t.head?, cls c = false) (ht' : ∀ c ∈ t'.head?, cls c = false)
    (hmark : t.head? ≠ some mark) (hmark' : t'.head? ≠ some mark)
    (h : Pattern.behind [mark] o ++ t = Pattern.behind [mark] o' ++ t') : o = o' ∧ t = t' := by
  cases o with
  | none =>
    cases o' with
    | none => exact ⟨rfl, h⟩
    | some w' => exact absurd (congrArg List.head? h) hmark
  | some w =>
    cases o' with
    | none => exact absurd (congrArg List.head? h.symm) hmark'
    | some w' =>
      obtain ⟨rfl, rfl⟩ :=
        Pattern.append_eq_append (ho w rfl) (ho' w' rfl) ht ht' (List.cons.inj h).2
      exact ⟨rfl, rfl⟩

theorem append_mark_inj {cls : UInt16 → Bool} (mark : UInt16) {w w' t' : JString}
    (hmark : cls mark = false) (hw : ∀ c ∈ w, cls c = true) (hw' : ∀ c ∈ w', cls c = true)
    (h : w ++ mark :: t = w' ++ mark :: t') : w = w' ∧ t = t' := by
  obtain ⟨rfl, hrest⟩ := Pattern.append_eq_append hw hw' (head_mark hmark) (head_mark hmark) h
  exact ⟨rfl, (List.cons.inj hrest).2⟩

theorem eq_of_text_eq (h : parts.WellFormed classes) (h' : parts'.WellFormed classes)
    (htext : parts.text = parts'.text) : parts = parts' := by
  obtain ⟨user, password, host, port, params⟩ := parts
  obtain ⟨user', password', host', port', params'⟩ := parts'
  simp only [text, List.flatten_cons, List.flatten_nil] at htext
  have hsip := List.append_cancel_left htext
  obtain ⟨rfl, hcolon⟩ := append_mark_inj (unit ':') rfl (takes_except.mpr h.user).1
    (takes_except.mpr h'.user).1 hsip
  obtain ⟨rfl, hat⟩ := append_mark_inj (unit '@') rfl (takes_except.mpr h.password).1
    (takes_except.mpr h'.password).1 hcolon
  have hnil (cls : UInt16 → Bool) : ∀ c ∈ ([] : JString).head?, cls c = false := by
    intro c hc
    cases hc
  have hparams (o : Option JString) (cls : UInt16 → Bool) (hcls : cls (unit ';') = false) :
      ∀ c ∈ (Pattern.behind (units ";") o ++ []).head?, cls c = false :=
    head_behind hcls (hnil cls)
  have hport (o : Option JString) :
      (Pattern.behind (units ";") o ++ []).head? ≠ some (unit ':') := by
    cases o with
    | none => exact Option.some_ne_none _ |>.symm
    | some w => exact fun heq => absurd (Option.some.inj heq) (by decide)
  obtain ⟨rfl, hrest⟩ := Pattern.append_eq_append (takes_except.mpr h.host).1
    (takes_except.mpr h'.host).1 (head_behind rfl (hparams params _ rfl))
    (head_behind rfl (hparams params' _ rfl)) hat
  obtain ⟨rfl, hlast⟩ := behind_append_inj (fun w hw => (h.port w hw).1)
    (fun w hw => (h'.port w hw).1) (hparams params _ classes.digit_semicolon)
    (hparams params' _ classes.digit_semicolon) (hport params) (hport params') hrest
  obtain ⟨rfl, -⟩ := behind_append_inj (fun _ _ _ _ => rfl) (fun _ _ _ _ => rfl) (hnil _) (hnil _)
    (Option.some_ne_none _).symm (Option.some_ne_none _).symm hlast
  rfl

/-! ### What is matched -/

theorem eq_nil_of_atEnd (ht : classes.atEnd t = true)
    (hlast : ∀ c ∈ t.getLast?, classes.lineBreak c = false) : t = [] := by
  match t with
  | [] => rfl
  | [c] => exact absurd ht (Bool.eq_false_iff.mp (hlast c rfl))
  | [c, d] =>
    have hd : d = unit '\n' := of_decide_eq_true (Bool.and_eq_true_iff.mp ht).2
    have hbreak : classes.lineBreak d = true := hd ▸ classes.lineBreak_lf
    exact absurd hbreak (Bool.eq_false_iff.mp (hlast d rfl))
  | _ :: _ :: _ :: _ => cases ht

/-- A text that no line break ends is matched just where it is well formed. -/
theorem matchStart_regex (hlast : ∀ c ∈ s.getLast?, classes.lineBreak c = false) :
    (regex classes).matchStart s = some cs ↔
      ∃ parts : Parts, parts.WellFormed classes ∧ s = parts.text ∧ cs = parts.captures := by
  have hall {cs : Captures UInt16} {t : JString} (h : (regex classes).Matches s cs t) :
      ∃ parts : Parts, parts.WellFormed classes ∧ s = parts.text ∧ cs = parts.captures := by
    obtain ⟨parts, hparts, rfl, hend, rfl⟩ := matches_regex.mp h
    have ht : t = [] := by
      apply eq_nil_of_atEnd hend
      intro c hc
      apply hlast c
      rw [List.getLast?_append, hc, Option.some_or]
      exact Option.mem_some_self c
    exact ⟨parts, hparts, by rw [ht, List.append_nil], rfl⟩
  constructor
  · intro h
    obtain ⟨t, ht⟩ := Pattern.matches_of_matchStart h
    exact hall ht
  · rintro ⟨parts, hparts, hs, rfl⟩
    have hmatch : (regex classes).Matches s parts.captures [] :=
      matches_regex.mpr ⟨parts, hparts, by rw [hs, List.append_nil], rfl, rfl⟩
    apply Pattern.matchStart_of_unique hmatch
    intro ds u hu
    obtain ⟨parts', hparts', hs', rfl⟩ := hall hu
    rw [eq_of_text_eq hparts hparts' (hs.symm.trans hs')]

end Parts

end SimplePhone.Settings.QrPayload
