import Mathlib.Algebra.Group.Nat.Defs
import Mathlib.Data.List.Basic
import Mathlib.Data.List.DropRight
import Mathlib.Data.List.TakeWhile
import Mathlib.Tactic.Common

/-! Kotlin strings, and the functions of its library that take a text apart into lines,
fields and numbers. -/
namespace SimplePhone.Text

/-- The UTF-16 units of a string. -/
abbrev JString := List UInt16

def unit (c : Char) : UInt16 := UInt16.ofNat c.toNat

def units (s : String) : JString := s.toList.map unit

/-! ### Lines -/

def lineSequence : JString → List JString
  | [] => [[]]
  | c :: s =>
      -- of the two units of a CR LF the second ends the line
      if c = unit '\r' ∧ s.head? = some (unit '\n') then lineSequence s
      else if c = unit '\n' ∨ c = unit '\r' then [] :: lineSequence s
      else (lineSequence s).modifyHead (c :: ·)

def joinToString (separator : JString) : List JString → JString := List.intercalate separator

/-- Without a line break. -/
def OneLine (s : JString) : Prop := unit '\n' ∉ s ∧ unit '\r' ∉ s

instance (s : JString) : Decidable (OneLine s) := inferInstanceAs (Decidable (_ ∧ _))

variable {s t : JString}

theorem OneLine.nil : OneLine [] := by
  constructor <;> exact List.not_mem_nil

theorem oneLine_cons {c : UInt16} :
    OneLine (c :: s) ↔ (c ≠ unit '\n' ∧ c ≠ unit '\r') ∧ OneLine s := by
  unfold OneLine
  rw [List.mem_cons, List.mem_cons, not_or, not_or, ne_comm (a := c), ne_comm (a := c)]
  constructor
  · rintro ⟨⟨hlf, hslf⟩, hcr, hscr⟩
    exact ⟨⟨hlf, hcr⟩, hslf, hscr⟩
  · rintro ⟨⟨hlf, hcr⟩, hslf, hscr⟩
    exact ⟨⟨hlf, hslf⟩, hcr, hscr⟩

theorem oneLine_append : OneLine (s ++ t) ↔ OneLine s ∧ OneLine t := by
  induction s with
  | nil => exact (and_iff_right OneLine.nil).symm
  | cons c s ih =>
    change OneLine (c :: (s ++ t)) ↔ _
    rw [oneLine_cons, oneLine_cons, ih]
    exact and_assoc.symm

theorem lineSequence_cons {c : UInt16} (hlf : c ≠ unit '\n') (hcr : c ≠ unit '\r') :
    lineSequence (c :: s) = (lineSequence s).modifyHead (c :: ·) := by
  rw [lineSequence, if_neg (fun h => hcr h.1), if_neg (not_or.mpr ⟨hlf, hcr⟩)]

theorem oneLine_of_mem {l : JString} (h : l ∈ lineSequence s) : OneLine l := by
  induction s generalizing l with
  | nil =>
    obtain rfl := List.mem_singleton.mp h
    exact OneLine.nil
  | cons c s ih =>
    unfold lineSequence at h
    split at h
    · exact ih h
    · split at h
      · rcases List.mem_cons.mp h with rfl | h
        · exact OneLine.nil
        · exact ih h
      · rename_i hc
        obtain ⟨hlf, hcr⟩ := not_or.mp hc
        cases hs : lineSequence s with
        | nil =>
          rw [hs] at h
          cases h
        | cons m ls =>
          rw [hs] at h ih
          rcases List.mem_cons.mp h with rfl | h
          · exact oneLine_cons.mpr ⟨⟨hlf, hcr⟩, ih List.mem_cons_self⟩
          · exact ih (List.mem_cons_of_mem m h)

theorem lineSequence_of_oneLine (h : OneLine s) : lineSequence s = [s] := by
  induction s with
  | nil => rfl
  | cons c s ih =>
    obtain ⟨⟨hlf, hcr⟩, hs⟩ := oneLine_cons.mp h
    rw [lineSequence_cons hlf hcr, ih hs]
    rfl

theorem lineSequence_append (h : OneLine s) :
    lineSequence (s ++ unit '\n' :: t) = s :: lineSequence t := by
  induction s with
  | nil =>
    change lineSequence (unit '\n' :: t) = _
    rw [lineSequence, if_neg (fun h => absurd h.1 (by decide)), if_pos (.inl rfl)]
  | cons c s ih =>
    obtain ⟨⟨hlf, hcr⟩, hs⟩ := oneLine_cons.mp h
    change lineSequence (c :: (s ++ unit '\n' :: t)) = _
    rw [lineSequence_cons hlf hcr, ih hs]
    rfl

/-- Lines that are joined come apart again. -/
theorem lineSequence_joinToString {ls : List JString} (hne : ls ≠ [])
    (h : ∀ l ∈ ls, OneLine l) : lineSequence (joinToString [unit '\n'] ls) = ls := by
  unfold joinToString
  induction ls with
  | nil => exact absurd rfl hne
  | cons l ls ih =>
    have hl := h l List.mem_cons_self
    cases ls with
    | nil =>
      rw [List.intercalate_singleton]
      exact lineSequence_of_oneLine hl
    | cons m ls =>
      have hls := ih (List.cons_ne_nil m ls) fun l' hl' => h l' (List.mem_cons_of_mem l hl')
      rw [List.intercalate_cons_cons, List.append_assoc]
      change lineSequence (l ++ unit '\n' :: List.intercalate [unit '\n'] (m :: ls)) = _
      rw [lineSequence_append hl, hls]

/-! ### Blanks and letters -/

/-- `blank` knows the white space beyond ASCII. -/
def isWhitespace (blank : UInt16 → Bool) (c : UInt16) : Bool :=
  if c < 128 then 9 ≤ c && c ≤ 13 || 28 ≤ c && c ≤ 32 else blank c

def trim (blank : UInt16 → Bool) (s : JString) : JString :=
  (s.dropWhile (isWhitespace blank)).rdropWhile (isWhitespace blank)

def lowercase (c : UInt16) : UInt16 := if 65 ≤ c ∧ c ≤ 90 then c + 32 else c

/-- Where one of the texts has only letters without another form outside ASCII. -/
def equalsIgnoreCase (s t : JString) : Bool := s.map lowercase == t.map lowercase

variable {blank : UInt16 → Bool}

theorem mem_of_mem_trim {c : UInt16} (h : c ∈ trim blank s) : c ∈ s :=
  (List.dropWhile_sublist _).subset ((List.rdropWhile_prefix _ _).sublist.subset h)

theorem getLast_trim {c : UInt16} (h : (trim blank s).getLast? = some c) :
    isWhitespace blank c = false := by
  cases hs : trim blank s with
  | nil =>
    rw [hs] at h
    cases h
  | cons d t =>
    have hne : trim blank s ≠ [] := hs ▸ List.cons_ne_nil d t
    rw [List.getLast?_eq_some_getLast hne, Option.some.injEq] at h
    rw [← h]
    exact Bool.eq_false_iff.mpr (List.rdropWhile_last_not (isWhitespace blank) _ hne)

theorem trim_eq_self (hhead : ∀ c ∈ s.head?, isWhitespace blank c = false)
    (hlast : ∀ c ∈ s.getLast?, isWhitespace blank c = false) : trim blank s = s := by
  have hdrop : s.dropWhile (isWhitespace blank) = s := by
    cases s with
    | nil => rfl
    | cons c s => exact List.dropWhile_cons_of_neg (Bool.eq_false_iff.mp (hhead c rfl))
  unfold trim
  rw [hdrop, List.rdropWhile_eq_self_iff]
  intro hne
  exact Bool.eq_false_iff.mp (hlast _ (List.getLast?_eq_some_getLast hne))

theorem trim_of_forall (h : ∀ c ∈ s, isWhitespace blank c = false) : trim blank s = s :=
  trim_eq_self (fun c hc => h c (List.mem_of_head? hc)) fun c hc => h c (List.mem_of_getLast? hc)

/-! ### Fields -/

/-- Cuts a text at its first delimiters, so many at most. -/
def cut (delimiter : UInt16) : Nat → JString → List JString
  | 0, s => [s]
  | n + 1, s =>
      match s.dropWhile (· ≠ delimiter) with
      | [] => [s]
      | _ :: rest => s.takeWhile (· ≠ delimiter) :: cut delimiter n rest

/-- For a positive limit. -/
def split (delimiter : UInt16) (limit : Nat) (s : JString) : List JString :=
  cut delimiter (limit - 1) s

variable {delimiter : UInt16} {n : Nat}

theorem cut_append (h : delimiter ∉ s) :
    cut delimiter (n + 1) (s ++ delimiter :: t) = s :: cut delimiter n t := by
  have hs : ∀ c ∈ s, decide (c ≠ delimiter) = true := by
    intro c hc
    rw [decide_eq_true_eq]
    rintro rfl
    exact h hc
  rw [cut, List.dropWhile_append_of_pos hs, List.takeWhile_append_of_pos hs,
    List.dropWhile_cons_of_neg (by simp), List.takeWhile_cons_of_neg (by simp), List.append_nil]

theorem cut_succ (delimiter : UInt16) (n : Nat) (s : JString) :
    cut delimiter (n + 1) s = [s] ∨ ∃ field rest, delimiter ∉ field ∧
      s = field ++ delimiter :: rest ∧
      cut delimiter (n + 1) s = field :: cut delimiter n rest := by
  cases hd : s.dropWhile (· ≠ delimiter) with
  | nil =>
    left
    rw [cut, hd]
  | cons c rest =>
    right
    have hc : c = delimiter := by
      have hne : s.dropWhile (· ≠ delimiter) ≠ [] := by
        rw [hd]
        exact List.cons_ne_nil c rest
      have hhead := List.head_dropWhile_not (fun x => decide (x ≠ delimiter)) hne
      simp only [hd, List.head_cons] at hhead
      simpa using hhead
    refine ⟨s.takeWhile (· ≠ delimiter), rest, ?_, ?_, ?_⟩
    · intro hmem
      have hall := List.all_eq_true.mp (List.all_takeWhile (l := s)) _ hmem
      simp at hall
    · have happend := List.takeWhile_append_dropWhile (p := fun x => decide (x ≠ delimiter)) (l := s)
      rw [hd, hc] at happend
      exact happend.symm
    · rw [cut, hd]

/-! ### Numbers

A `Long` is read with all units that `Character.digit` knows as decimal digits: those of
ASCII and, after each of `zeros`, those of another script. -/

def digitOf (zeros : List UInt16) (c : UInt16) : Option Nat :=
  ((unit '0' :: zeros).find? fun zero => zero.toNat ≤ c.toNat ∧ c.toNat < zero.toNat + 10).map
    fun zero => c.toNat - zero.toNat

def longMin : Int := -9223372036854775808

def longMax : Int := 9223372036854775807

def limitForMaxRadix : Int := (-longMax).tdiv 36

/-- The loop, in which the result is built up as a negative number. -/
def toLongLoop (zeros : List UInt16) (limit : Int) : (limitBeforeMul result : Int) → JString →
    Option Int
  | _, result, [] => some result
  | limitBeforeMul, result, c :: s =>
      match digitOf zeros c with
      | none => none
      | some digit =>
          if result < limitBeforeMul ∧
              (limitBeforeMul ≠ limitForMaxRadix ∨ result < limit.tdiv 10) then none
          else if result * 10 < limit + digit then none
          else
            toLongLoop zeros limit
              (if result < limitBeforeMul then limit.tdiv 10 else limitBeforeMul)
              (result * 10 - digit) s

def toLongOrNull (zeros : List UInt16) (s : JString) : Option Int64 :=
  match s with
  | [] => none
  | firstChar :: rest =>
      if firstChar < unit '0' then
        if rest = [] then none
        else if firstChar = unit '-' then
          (toLongLoop zeros longMin limitForMaxRadix 0 rest).map Int64.ofInt
        else if firstChar = unit '+' then
          (toLongLoop zeros (-longMax) limitForMaxRadix 0 rest).map fun n => Int64.ofInt (-n)
        else none
      else (toLongLoop zeros (-longMax) limitForMaxRadix 0 s).map fun n => Int64.ofInt (-n)

def toIntOrNull (zeros : List UInt16) (s : JString) : Option Int32 :=
  (toLongOrNull zeros s).bind fun n =>
    if -2147483648 ≤ n.toInt ∧ n.toInt ≤ 2147483647 then some (Int32.ofInt n.toInt) else none

/-- `toString`. -/
def longToString (n : Int64) : JString :=
  match n.toInt with
  | .ofNat m => (Nat.toDigits 10 m).map unit
  | .negSucc m => unit '-' :: (Nat.toDigits 10 (m + 1)).map unit

variable {zeros : List UInt16}

theorem toNat_unit_of_digit {c : Char} (h : c.isDigit = true) :
    (unit c).toNat = c.toNat ∧ 48 ≤ c.toNat ∧ c.toNat ≤ 57 := by
  obtain ⟨hlow, hhigh⟩ : 48 ≤ c.toNat ∧ c.toNat ≤ 57 := by
    simpa [Char.isDigit, UInt32.le_iff_toNat_le] using h
  refine ⟨?_, hlow, hhigh⟩
  unfold unit
  rw [UInt16.toNat_ofNat', Nat.mod_eq_of_lt (by omega)]

theorem digitOf_unit {c : Char} (h : c.isDigit = true) :
    digitOf zeros (unit c) = some (c.toNat - 48) := by
  obtain ⟨hunit, hlow, hhigh⟩ := toNat_unit_of_digit h
  have hzero : (unit '0').toNat = 48 := by decide
  unfold digitOf
  rw [List.find?_cons_of_pos]
  · rw [Option.map_some, hunit, hzero]
  · rw [decide_eq_true_eq, hunit, hzero]
    omega

/-- Digits only lower a result that is not positive. -/
theorem neg_ofDigitChars_le {cs : List Char} (n : Nat) :
    -(Nat.ofDigitChars 10 cs n : Int) ≤ -n := by
  rw [Nat.ofDigitChars_eq_ofDigitChars_zero]
  have hpow : 0 < 10 ^ cs.length := Nat.pow_pos (by decide)
  have hle : n ≤ 10 ^ cs.length * n := Nat.le_mul_of_pos_left n hpow
  omega

theorem tdiv_ten {limit : Int} (h : limit ≤ 0) : limit.tdiv 10 = -(-limit / 10) := by
  rw [← Int.tdiv_eq_ediv_of_nonneg (Int.neg_nonneg.mpr h), Int.neg_tdiv, Int.neg_neg]

/-- Digits whose value stays within the limit are read to their end. -/
theorem toLongLoop_digits {limit limitBeforeMul : Int} {cs : List Char}
    (hcs : ∀ c ∈ cs, c.isDigit = true) {n : Nat}
    (hbefore : limitBeforeMul = limitForMaxRadix ∨ limitBeforeMul = limit.tdiv 10)
    (hlimit : limit ≤ -(Nat.ofDigitChars 10 cs n : Int)) :
    toLongLoop zeros limit limitBeforeMul (-n) (cs.map unit) =
      some (-(Nat.ofDigitChars 10 cs n : Int)) := by
  induction cs generalizing limitBeforeMul n with
  | nil =>
    rw [Nat.ofDigitChars_nil]
    rfl
  | cons c cs ih =>
    have hc := hcs c List.mem_cons_self
    obtain ⟨-, hlow, hhigh⟩ := toNat_unit_of_digit hc
    rw [Nat.ofDigitChars_cons] at hlimit ⊢
    change limit ≤ -(Nat.ofDigitChars 10 cs (10 * n + (c.toNat - 48)) : Int) at hlimit
    change _ = some (-(Nat.ofDigitChars 10 cs (10 * n + (c.toNat - 48)) : Int))
    have hnext : -(n : Int) * 10 - (c.toNat - 48 : Nat) = -((10 * n + (c.toNat - 48) : Nat) : Int) := by
      push_cast
      omega
    have hfits : limit ≤ -((10 * n + (c.toNat - 48) : Nat) : Int) :=
      Int.le_trans hlimit (neg_ofDigitChars_le _)
    have hten : limit.tdiv 10 ≤ -n := by
      rw [tdiv_ten (by omega)]
      omega
    rw [List.map_cons, toLongLoop, digitOf_unit hc]
    simp only
    rw [if_neg, if_neg, hnext]
    · apply ih (fun d hd => hcs d (List.mem_cons_of_mem c hd)) _ hlimit
      split
      · exact .inr rfl
      · exact hbefore
    · omega
    · rintro ⟨hlt, hne | hlt'⟩
      · rcases hbefore with h | h
        · exact hne h
        · omega
      · omega

/-- What the loop reads lies between the limit and zero. -/
theorem toLongLoop_range {limit limitBeforeMul result n : Int} {s : JString}
    (hresult : limit ≤ result ∧ result ≤ 0)
    (h : toLongLoop zeros limit limitBeforeMul result s = some n) : limit ≤ n ∧ n ≤ 0 := by
  induction s generalizing limitBeforeMul result with
  | nil =>
    cases h
    exact hresult
  | cons c s ih =>
    rw [toLongLoop] at h
    cases hdigit : digitOf zeros c with
    | none =>
      rw [hdigit] at h
      cases h
    | some digit =>
      rw [hdigit] at h
      simp only at h
      split at h
      · cases h
      · split at h
        · cases h
        · apply ih _ h
          omega

/-- No conversion of `toLongOrNull` wraps around. -/
theorem toInt_ofInt_toLongLoop {limit n : Int} {s : JString}
    (hlimit : limit = longMin ∨ limit = -longMax)
    (h : toLongLoop zeros limit limitForMaxRadix 0 s = some n) :
    (limit = longMin → (Int64.ofInt n).toInt = n) ∧
      (limit = -longMax → (Int64.ofInt (-n)).toInt = -n) := by
  have hlow : longMin ≤ limit ∧ limit ≤ 0 := by
    rcases hlimit with rfl | rfl <;> decide
  obtain ⟨hle, hnonpos⟩ := toLongLoop_range ⟨hlow.2, Int.le_refl 0⟩ h
  unfold longMin at hlow
  constructor
  · rintro -
    exact Int64.toInt_ofInt_of_le (by omega) (by omega)
  · intro hmax
    unfold longMax at hmax
    exact Int64.toInt_ofInt_of_le (by omega) (by omega)

theorem isDigit_toDigits {m : Nat} : ∀ c ∈ Nat.toDigits 10 m, c.isDigit = true :=
  fun _ hc => Nat.isDigit_of_mem_toDigits (by decide) (by decide) hc

theorem toLongOrNull_digits {cs : List Char} (hne : cs ≠ []) (hcs : ∀ c ∈ cs, c.isDigit = true) :
    toLongOrNull zeros (cs.map unit) =
      (toLongLoop zeros (-longMax) limitForMaxRadix 0 (cs.map unit)).map
        fun n => Int64.ofInt (-n) := by
  cases cs with
  | nil => exact absurd rfl hne
  | cons c cs =>
    obtain ⟨hunit, hlow, -⟩ := toNat_unit_of_digit (hcs c List.mem_cons_self)
    rw [List.map_cons, toLongOrNull, if_neg]
    rw [UInt16.lt_iff_toNat_lt, hunit]
    exact Nat.not_lt.mpr hlow

theorem toLongOrNull_minus (hs : s ≠ []) : toLongOrNull zeros (unit '-' :: s) =
    (toLongLoop zeros longMin limitForMaxRadix 0 s).map Int64.ofInt := by
  rw [toLongOrNull, if_pos (by decide), if_neg hs, if_pos rfl]

/-- A number is read as it was written. -/
theorem toLongOrNull_longToString (n : Int64) : toLongOrNull zeros (longToString n) = some n := by
  have hlow : -2 ^ 63 ≤ n.toInt := n.le_toInt
  have hhigh : n.toInt < 2 ^ 63 := n.toInt_lt
  have hread (limit : Int) (m : Nat) (hlimit : limit ≤ -m) :
      toLongLoop zeros limit limitForMaxRadix 0 ((Nat.toDigits 10 m).map unit) =
        some (-(m : Int)) := by
    have hvalue : Nat.ofDigitChars 10 (Nat.toDigits 10 m) 0 = m := Nat.ofDigitChars_ten_toDigits
    have hdigits := isDigit_toDigits (m := m)
    generalize Nat.toDigits 10 m = cs at hvalue hdigits ⊢
    subst hvalue
    exact toLongLoop_digits hdigits (.inl rfl) hlimit
  unfold longToString
  cases hn : n.toInt with
  | ofNat m =>
    rw [hn] at hhigh
    have hm : -longMax ≤ -(m : Int) := by
      unfold longMax
      simp only [Int.ofNat_eq_natCast] at hhigh
      omega
    change toLongOrNull zeros ((Nat.toDigits 10 m).map unit) = _
    rw [toLongOrNull_digits Nat.toDigits_ne_nil isDigit_toDigits, hread (-longMax) m hm,
      Option.map_some, Int.neg_neg]
    change some (Int64.ofInt (Int.ofNat m)) = _
    rw [← hn, Int64.ofInt_toInt]
  | negSucc m =>
    rw [hn] at hlow
    have hm : longMin ≤ -((m + 1 : Nat) : Int) := by
      unfold longMin
      omega
    have hne : (Nat.toDigits 10 (m + 1)).map unit ≠ [] :=
      fun h => Nat.toDigits_ne_nil (List.map_eq_nil_iff.mp h)
    change toLongOrNull zeros (unit '-' :: (Nat.toDigits 10 (m + 1)).map unit) = _
    rw [toLongOrNull_minus hne, hread longMin (m + 1) hm, Option.map_some]
    change some (Int64.ofInt (Int.negSucc m)) = _
    rw [← hn, Int64.ofInt_toInt]

theorem ofDigitChars_lt {cs : List Char} (hcs : ∀ c ∈ cs, c.isDigit = true) (n : Nat) :
    Nat.ofDigitChars 10 cs n < (n + 1) * 10 ^ cs.length := by
  induction cs generalizing n with
  | nil =>
    rw [Nat.ofDigitChars_nil, List.length_nil, Nat.pow_zero, Nat.mul_one]
    exact Nat.lt_succ_self n
  | cons c cs ih =>
    obtain ⟨-, -, hhigh⟩ := toNat_unit_of_digit (hcs c List.mem_cons_self)
    have hzero : '0'.toNat = 48 := rfl
    rw [Nat.ofDigitChars_cons, List.length_cons, Nat.pow_succ']
    apply Nat.lt_of_lt_of_le (ih (fun d hd => hcs d (List.mem_cons_of_mem c hd)) _)
    rw [← Nat.mul_assoc]
    apply Nat.mul_le_mul_right
    omega

/-- A few digits are read as an `Int`. -/
theorem toIntOrNull_digits {cs : List Char} (hne : cs ≠ []) (hcs : ∀ c ∈ cs, c.isDigit = true)
    (hlength : cs.length ≤ 5) :
    toIntOrNull zeros (cs.map unit) = some (Int32.ofNat (Nat.ofDigitChars 10 cs 0)) := by
  have hlt : Nat.ofDigitChars 10 cs 0 < 100000 := by
    have hpow : 10 ^ cs.length ≤ 10 ^ 5 := Nat.pow_le_pow_right (by decide) hlength
    have hvalue := ofDigitChars_lt hcs 0
    omega
  have hread : toLongLoop zeros (-longMax) limitForMaxRadix 0 (cs.map unit) =
      some (-(Nat.ofDigitChars 10 cs 0 : Int)) := by
    have hlimit : -longMax ≤ -(Nat.ofDigitChars 10 cs 0 : Int) := by
      unfold longMax
      omega
    exact toLongLoop_digits (n := 0) hcs (.inl rfl) hlimit
  have hint : (Int64.ofInt (Nat.ofDigitChars 10 cs 0 : Int)).toInt = Nat.ofDigitChars 10 cs 0 :=
    Int64.toInt_ofInt_of_le (by omega) (by omega)
  unfold toIntOrNull
  rw [toLongOrNull_digits hne hcs, hread, Option.map_some, Int.neg_neg, Option.bind_some, hint,
    if_pos (by omega), Int32.ofInt_eq_ofNat]

/-- A number is written with digits and a minus sign. -/
theorem mem_longToString {n : Int64} {c : UInt16} (h : c ∈ longToString n) :
    c.toNat = 45 ∨ 48 ≤ c.toNat ∧ c.toNat ≤ 57 := by
  have hdigits (m : Nat) (hc : c ∈ (Nat.toDigits 10 m).map unit) :
      48 ≤ c.toNat ∧ c.toNat ≤ 57 := by
    obtain ⟨d, hd, rfl⟩ := List.mem_map.mp hc
    obtain ⟨hunit, hrange⟩ := toNat_unit_of_digit (isDigit_toDigits d hd)
    rwa [hunit]
  unfold longToString at h
  split at h
  · exact .inr (hdigits _ h)
  · rcases List.mem_cons.mp h with rfl | h
    · exact .inl (by decide)
    · exact .inr (hdigits _ h)

end SimplePhone.Text
