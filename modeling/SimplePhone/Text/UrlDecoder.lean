import SimplePhone.Text.Kotlin
import SimplePhone.Text.ModifiedUtf8

/-! The decoder of `application/x-www-form-urlencoded` for UTF-8, and a percent encoding that
it reads back. -/
namespace SimplePhone.Text

def utf16EncodeChar (c : Char) : JString :=
  if c.toNat < 0x10000 then [unit c]
  else
    [UInt16.ofNat (0xD800 + (c.toNat - 0x10000) / 0x400),
      UInt16.ofNat (0xDC00 + (c.toNat - 0x10000) % 0x400)]

def utf16Encode (cs : List Char) : JString := cs.flatMap utf16EncodeChar

/-- `malformed`: what is made of bytes that are not UTF-8. -/
def utf8ToUtf16 (malformed : List UInt8 → JString) (bytes : List UInt8) : JString :=
  if bytes = [] then []
  else
    match bytes.toByteArray.utf8Decode? with
    | some cs => utf16Encode cs.toList
    | none => malformed bytes

def hexDigitOf (c : UInt16) : Option Nat :=
  if 48 ≤ c ∧ c ≤ 57 then some (c.toNat - 48)
  else if 65 ≤ c ∧ c ≤ 70 then some (c.toNat - 55)
  else if 97 ≤ c ∧ c ≤ 102 then some (c.toNat - 87)
  else none

/-- `bytes`: of the escapes just before; `none` for the exception. -/
def decodeLoop (malformed : List UInt8 → JString) (bytes : List UInt8) : JString → Option JString
  | [] => some (utf8ToUtf16 malformed bytes)
  | c :: s =>
      if c = unit '%' then
        match s with
        | high :: low :: s => do
            let h ← hexDigitOf high
            let l ← hexDigitOf low
            decodeLoop malformed (bytes ++ [UInt8.ofNat (16 * h + l)]) s
        | _ => none
      else
        (decodeLoop malformed [] s).map fun t =>
          utf8ToUtf16 malformed bytes ++ (if c = unit '+' then unit ' ' else c) :: t

/-- `URLDecoder.decode`. -/
def decode (malformed : List UInt8 → JString) (s : JString) : Option JString :=
  decodeLoop malformed [] s

def hexDigit (n : Nat) : UInt16 := UInt16.ofNat (if n < 10 then 48 + n else 55 + n)

def percent (b : UInt8) : JString := [unit '%', hexDigit (b.toNat / 16), hexDigit (b.toNat % 16)]

def isUnreserved (c : Char) : Bool := c.isAlphanum || c ∈ ['-', '.', '_', '~']

def percentEncodeChar (c : Char) : JString :=
  if isUnreserved c then [unit c] else (String.utf8EncodeChar c).flatMap percent

def percentEncode (cs : List Char) : JString := cs.flatMap percentEncodeChar

variable {malformed : List UInt8 → JString} {bytes : List UInt8} {s : JString} {c : UInt16}
  {cs ds : List Char} {d : Char}

/-! ### Texts without escapes -/

theorem decodeLoop_cons (hc : c ≠ unit '%') :
    decodeLoop malformed bytes (c :: s) = (decodeLoop malformed [] s).map fun t =>
      utf8ToUtf16 malformed bytes ++ (if c = unit '+' then unit ' ' else c) :: t := by
  rw [decodeLoop.eq_def]
  exact if_neg hc

/-- Without escapes the decoder still has its way with a plus sign. -/
theorem decode_of_not_mem (h : unit '%' ∉ s) :
    decode malformed s = some (s.map fun c => if c = unit '+' then unit ' ' else c) := by
  unfold decode
  induction s with
  | nil => rfl
  | cons c s ih =>
    have hc : c ≠ unit '%' := fun hc => h (hc ▸ List.mem_cons_self)
    rw [decodeLoop_cons hc, ih fun hs => h (List.mem_cons_of_mem c hs)]
    rfl

/-! ### What has been encoded is decoded -/

theorem hexDigitOf_hexDigit : ∀ n < 16, hexDigitOf (hexDigit n) = some n := by decide

theorem decodeLoop_percent (b : UInt8) :
    decodeLoop malformed bytes (percent b ++ s) = decodeLoop malformed (bytes ++ [b]) s := by
  have hb : b.toNat < 256 := b.toNat_lt
  have hhigh := hexDigitOf_hexDigit (b.toNat / 16) (by omega)
  have hlow := hexDigitOf_hexDigit (b.toNat % 16) (by omega)
  have hjoin : UInt8.ofNat (16 * (b.toNat / 16) + b.toNat % 16) = b := by
    rw [Nat.div_add_mod, UInt8.ofNat_toNat]
  change decodeLoop malformed bytes (unit '%' :: hexDigit _ :: hexDigit _ :: s) = _
  rw [decodeLoop, if_pos rfl]
  simp only [hhigh, hlow, Option.bind_eq_bind, Option.bind_some, hjoin]

theorem decodeLoop_flatMap_percent (bs : List UInt8) :
    decodeLoop malformed bytes (bs.flatMap percent ++ s) =
      decodeLoop malformed (bytes ++ bs) s := by
  induction bs generalizing bytes with
  | nil => rw [List.flatMap_nil, List.nil_append, List.append_nil]
  | cons b bs ih =>
    rw [List.flatMap_cons, List.append_assoc, decodeLoop_percent, ih, List.append_assoc]
    rfl

theorem utf8ToUtf16_utf8Encode : utf8ToUtf16 malformed (utf8Encode cs) = utf16Encode cs := by
  cases cs with
  | nil => rfl
  | cons c cs =>
    have hne : utf8Encode (c :: cs) ≠ [] := by
      unfold utf8Encode
      rw [List.flatMap_cons]
      exact List.append_ne_nil_of_left_ne_nil String.utf8EncodeChar_ne_nil _
    have hdecode : (utf8Encode (c :: cs)).toByteArray.utf8Decode? = some (c :: cs).toArray :=
      List.utf8Decode?_utf8Encode
    unfold utf8ToUtf16
    rw [if_neg hne, hdecode]

theorem toNat_of_unreserved (h : isUnreserved d = true) :
    d.toNat = 45 ∨ d.toNat = 46 ∨ 48 ≤ d.toNat ∧ d.toNat ≤ 57 ∨ 65 ≤ d.toNat ∧ d.toNat ≤ 90 ∨
      d.toNat = 95 ∨ 97 ≤ d.toNat ∧ d.toNat ≤ 122 ∨ d.toNat = 126 := by
  unfold isUnreserved at h
  rcases Bool.or_eq_true_iff.mp h with h | h
  · change (decide (65 ≤ d.val ∧ d.val ≤ 90) || (decide (97 ≤ d.val) && decide (d.val ≤ 122)) ||
      (decide (48 ≤ d.val) && decide (d.val ≤ 57))) = true at h
    simp only [Bool.or_eq_true, Bool.and_eq_true, decide_eq_true_eq, UInt32.le_iff_toNat_le] at h
    change ((65 ≤ d.toNat ∧ d.toNat ≤ 90) ∨ 97 ≤ d.toNat ∧ d.toNat ≤ 122) ∨
      48 ≤ d.toNat ∧ d.toNat ≤ 57 at h
    omega
  · simp only [List.mem_cons, List.not_mem_nil, or_false, decide_eq_true_eq] at h
    rcases h with rfl | rfl | rfl | rfl <;> decide

/-- Of what an encoded text consists. -/
def Encoded (c : UInt16) : Prop :=
  c.toNat = 37 ∨ c.toNat = 45 ∨ c.toNat = 46 ∨ 48 ≤ c.toNat ∧ c.toNat ≤ 57 ∨
    65 ≤ c.toNat ∧ c.toNat ≤ 90 ∨ c.toNat = 95 ∨ 97 ≤ c.toNat ∧ c.toNat ≤ 122 ∨ c.toNat = 126

instance (c : UInt16) : Decidable (Encoded c) := inferInstanceAs (Decidable (_ ∨ _))

theorem toNat_unit (h : d.toNat < 65536) : (unit d).toNat = d.toNat := by
  unfold unit
  rw [UInt16.toNat_ofNat', Nat.mod_eq_of_lt h]

theorem toNat_hexDigit : ∀ n < 16, 48 ≤ (hexDigit n).toNat ∧ (hexDigit n).toNat ≤ 57 ∨
    65 ≤ (hexDigit n).toNat ∧ (hexDigit n).toNat ≤ 70 := by decide

theorem encoded_of_mem_percent {b : UInt8} (h : c ∈ percent b) : Encoded c := by
  have hb : b.toNat < 256 := b.toNat_lt
  unfold Encoded
  simp only [percent, List.mem_cons, List.not_mem_nil, or_false] at h
  rcases h with rfl | rfl | rfl
  · exact .inl (by decide)
  · have hdigit := toNat_hexDigit (b.toNat / 16) (by omega)
    omega
  · have hdigit := toNat_hexDigit (b.toNat % 16) (by omega)
    omega

theorem encoded_of_mem (h : c ∈ percentEncode cs) : Encoded c := by
  obtain ⟨d, -, hc⟩ := List.mem_flatMap.mp h
  unfold percentEncodeChar at hc
  split at hc
  · rename_i hd
    obtain rfl := List.mem_singleton.mp hc
    have hrange := toNat_of_unreserved hd
    have hunit : (unit d).toNat = d.toNat := toNat_unit (by omega)
    unfold Encoded
    omega
  · obtain ⟨b, -, hb⟩ := List.mem_flatMap.mp hc
    exact encoded_of_mem_percent hb

theorem percentEncode_ne_nil (h : cs ≠ []) : percentEncode cs ≠ [] := by
  cases cs with
  | nil => exact absurd rfl h
  | cons d cs =>
    unfold percentEncode percentEncodeChar
    rw [List.flatMap_cons]
    apply List.append_ne_nil_of_left_ne_nil
    split
    · exact List.cons_ne_nil _ _
    · cases hbytes : String.utf8EncodeChar d with
      | nil => exact absurd hbytes String.utf8EncodeChar_ne_nil
      | cons b bs => exact List.cons_ne_nil _ _

theorem utf16Encode_ne_nil (h : cs ≠ []) : utf16Encode cs ≠ [] := by
  cases cs with
  | nil => exact absurd rfl h
  | cons d cs =>
    unfold utf16Encode utf16EncodeChar
    rw [List.flatMap_cons]
    apply List.append_ne_nil_of_left_ne_nil
    split <;> exact List.cons_ne_nil _ _

/-- The bytes still to be read out are those of `ds`: the characters encoded last. -/
theorem decodeLoop_percentEncode :
    decodeLoop malformed (utf8Encode ds) (percentEncode cs) = some (utf16Encode (ds ++ cs)) := by
  induction cs generalizing ds with
  | nil =>
    have hread : utf8ToUtf16 malformed (utf8Encode ds) = utf16Encode ds := utf8ToUtf16_utf8Encode
    rw [List.append_nil, ← hread]
    rfl
  | cons d cs ih =>
    have happend : utf16Encode (ds ++ d :: cs) =
        utf16Encode ds ++ utf16EncodeChar d ++ utf16Encode cs := by
      unfold utf16Encode
      rw [List.flatMap_append, List.flatMap_cons, List.append_assoc]
    have hcons : percentEncode (d :: cs) = percentEncodeChar d ++ percentEncode cs := rfl
    rw [hcons]
    unfold percentEncodeChar
    split
    · rename_i hd
      have hrange := toNat_of_unreserved hd
      have hunit : (unit d).toNat = d.toNat := toNat_unit (by omega)
      have hpercent : unit d ≠ unit '%' := by
        have hcode : (unit '%').toNat = 37 := by decide
        intro h
        have hcodes := congrArg UInt16.toNat h
        omega
      have hplus : unit d ≠ unit '+' := by
        have hcode : (unit '+').toNat = 43 := by decide
        intro h
        have hcodes := congrArg UInt16.toNat h
        omega
      have hchar : utf16EncodeChar d = [unit d] := if_pos (by omega)
      have hrest : decodeLoop malformed (utf8Encode []) (percentEncode cs) =
          some (utf16Encode cs) := ih
      change decodeLoop malformed _ (unit d :: percentEncode cs) = _
      rw [decodeLoop_cons hpercent]
      change (decodeLoop malformed (utf8Encode []) _).map _ = _
      rw [hrest, Option.map_some, if_neg hplus, utf8ToUtf16_utf8Encode,
        happend, hchar, List.append_assoc]
      rfl
    · have hbytes : utf8Encode ds ++ String.utf8EncodeChar d = utf8Encode (ds ++ [d]) := by
        unfold utf8Encode
        rw [List.flatMap_append, List.flatMap_singleton]
      rw [decodeLoop_flatMap_percent, hbytes, ih, List.append_assoc]
      rfl

theorem decode_percentEncode : decode malformed (percentEncode cs) = some (utf16Encode cs) := by
  change decodeLoop malformed (utf8Encode []) _ = _
  rw [decodeLoop_percentEncode, List.nil_append]

end SimplePhone.Text
