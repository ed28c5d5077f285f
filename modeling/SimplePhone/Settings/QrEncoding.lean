import SimplePhone.Settings.QrPayload

/-! The credentials of any account come through `QrPayload` when they are percent-encoded. -/
namespace SimplePhone.Settings.QrPayload

open Text

/-- The payload that a provisioning page makes. -/
def encodePayload (user password host : List Char) (port : Nat) (realm : Option (List Char)) :
    JString :=
  units "sip:" ++ percentEncode user ++ units ":" ++ percentEncode password ++ units "@" ++
    percentEncode host ++ units ":" ++ (Nat.toDigits 10 port).map unit ++
    match realm with
    | none => []
    | some realm => units ";realm=" ++ percentEncode realm

variable {user password host : List Char} {port : Nat} {realm : Option (List Char)}

def encodedParts (user password host : List Char) (port : Nat) (realm : Option (List Char)) :
    Parts where
  user := percentEncode user
  password := percentEncode password
  host := percentEncode host
  port := some ((Nat.toDigits 10 port).map unit)
  params := realm.map fun realm => units "realm=" ++ percentEncode realm

theorem text_encodedParts : (encodedParts user password host port realm).text =
    encodePayload user password host port realm := by
  unfold Parts.text encodePayload encodedParts
  simp only [List.flatten_cons, List.flatten_nil, List.append_assoc, List.append_nil]
  cases realm <;> rfl

/-- Neither a blank nor a unit on which platforms differ. -/
def Visible (c : UInt16) : Prop := 33 ≤ c.toNat ∧ c.toNat < 127

instance (c : UInt16) : Decidable (Visible c) := inferInstanceAs (Decidable (_ ∧ _))

theorem visible_of_encoded {c : UInt16} (h : Encoded c) : Visible c := by
  unfold Encoded at h
  unfold Visible
  omega

theorem visible_of_mem_units {text : String} {c : UInt16}
    (h : ((units text).all fun c => decide (Visible c)) = true) (hc : c ∈ units text) : Visible c :=
  of_decide_eq_true (List.all_eq_true.mp h c hc)

theorem digit_of_mem {c : UInt16} (hc : c ∈ (Nat.toDigits 10 port).map unit) :
    48 ≤ c.toNat ∧ c.toNat ≤ 57 := by
  obtain ⟨d, hd, rfl⟩ := List.mem_map.mp hc
  obtain ⟨hunit, hrange⟩ := toNat_unit_of_digit (isDigit_toDigits d hd)
  rwa [hunit]

theorem visible_encodePayload :
    ∀ c ∈ encodePayload user password host port realm, Visible c := by
  intro c hc
  unfold encodePayload at hc
  simp only [List.mem_append] at hc
  rcases hc with (((((((hc | hc) | hc) | hc) | hc) | hc) | hc) | hc) | hc
  · exact visible_of_mem_units (by decide) hc
  · exact visible_of_encoded (encoded_of_mem hc)
  · exact visible_of_mem_units (by decide) hc
  · exact visible_of_encoded (encoded_of_mem hc)
  · exact visible_of_mem_units (by decide) hc
  · exact visible_of_encoded (encoded_of_mem hc)
  · exact visible_of_mem_units (by decide) hc
  · have hdigit := digit_of_mem hc
    unfold Visible
    omega
  · cases realm with
    | none => cases hc
    | some realm =>
      rcases List.mem_append.mp hc with hc | hc
      · exact visible_of_mem_units (by decide) hc
      · exact visible_of_encoded (encoded_of_mem hc)

theorem isWhitespace_of_visible {blank : UInt16 → Bool} {c : UInt16} (h : Visible c) :
    isWhitespace blank c = false := by
  unfold isWhitespace
  rw [if_pos (UInt16.lt_iff_toNat_lt.mpr (Nat.lt_of_lt_of_le h.2 (by decide)))]
  simp only [Bool.or_eq_false_iff, Bool.and_eq_false_iff, decide_eq_false_iff_not,
    UInt16.le_iff_toNat_le]
  change (¬9 ≤ c.toNat ∨ ¬c.toNat ≤ 13) ∧ (¬28 ≤ c.toNat ∨ ¬c.toNat ≤ 32)
  unfold Visible at h
  omega

theorem settled_of_visible {c : UInt16} (h : Visible c) : Settled c := by
  unfold Visible at h
  unfold Settled
  omega

theorem trim_of_visible {blank : UInt16 → Bool} {s : JString} (h : ∀ c ∈ s, Visible c) :
    trim blank s = s :=
  trim_of_forall fun c hc => isWhitespace_of_visible (h c hc)

theorem not_mem_of_encoded {chars : String} {c : UInt16}
    (hchars : (units chars).all (fun d => !decide (Encoded d)) = true) (h : Encoded c) :
    c ∉ units chars := by
  intro hc
  have hnot := List.all_eq_true.mp hchars c hc
  rw [decide_eq_true h] at hnot
  cases hnot

theorem space_of_encoded {c : UInt16} (h : Encoded c) : ascii.space c = false := by
  unfold Encoded at h
  simp only [ascii, Bool.or_eq_false_iff, Bool.and_eq_false_iff, decide_eq_false_iff_not,
    UInt16.le_iff_toNat_le, ← UInt16.toNat_inj]
  change ((¬9 ≤ c.toNat ∨ ¬c.toNat ≤ 13) ∨ _) ∧ ¬c.toNat = 32
  omega

theorem percentEncode_field {chars : String} {cs : List Char}
    (hchars : (units chars).all (fun d => !decide (Encoded d)) = true) (hne : cs ≠ []) :
    percentEncode cs ≠ [] ∧ ∀ c ∈ percentEncode cs, c ∉ units chars ∧ ascii.space c = false := by
  refine ⟨percentEncode_ne_nil hne, ?_⟩
  intro c hc
  have hencoded := encoded_of_mem hc
  exact ⟨not_mem_of_encoded hchars hencoded, space_of_encoded hencoded⟩

theorem wellFormed_encodedParts (huser : user ≠ []) (hpassword : password ≠ []) (hhost : host ≠ [])
    (hport : port ≤ 65535) :
    (encodedParts user password host port realm).WellFormed ascii := by
  refine ⟨percentEncode_field (by decide) huser, percentEncode_field (by decide) hpassword,
    percentEncode_field (by decide) hhost, ?_, ?_⟩
  · rintro _ ⟨⟩
    rw [List.length_map]
    refine ⟨?_, List.length_pos_of_ne_nil Nat.toDigits_ne_nil, ?_⟩
    · intro c hc
      have hdigit := digit_of_mem hc
      simp only [ascii, Bool.and_eq_true, decide_eq_true_eq, UInt16.le_iff_toNat_le]
      exact hdigit
    · exact (Nat.length_toDigits_le_iff (by decide) (by decide)).mpr (by omega)
  · intro w hw c hc
    obtain ⟨realm, -, rfl⟩ := Option.map_eq_some_iff.mp hw
    have hvisible : Visible c := by
      rcases List.mem_append.mp hc with hc | hc
      · exact visible_of_mem_units (by decide) hc
      · exact visible_of_encoded (encoded_of_mem hc)
    unfold Visible at hvisible
    simp only [ascii, Bool.or_eq_false_iff, decide_eq_false_iff_not, ← UInt16.toNat_inj]
    change ¬c.toNat = 10 ∧ ¬c.toNat = 13
    omega

theorem writtenPort_encodedParts (hpos : 1 ≤ port) (hport : port ≤ 65535) :
    (encodedParts user password host port realm).writtenPort = port := by
  have hnumber : number ((Nat.toDigits 10 port).map unit) = port :=
    (foldl_digits isDigit_toDigits 0).trans Nat.ofDigitChars_ten_toDigits
  change (if 1 ≤ number _ ∧ number _ ≤ 65535 then number _ else 5060) = port
  rw [hnumber, if_pos ⟨hpos, hport⟩]

theorem realm_encodedParts (blank : UInt16 → Bool) :
    (encodedParts user password host port realm).realm blank = realm.map percentEncode := by
  cases realm with
  | none => rfl
  | some realm =>
    have hsemicolon : unit ';' ∉ units "realm=" ++ percentEncode realm := by
      intro h
      rcases List.mem_append.mp h with h | h
      · exact absurd h (by decide)
      · exact absurd (encoded_of_mem h) (by decide)
    have hsplit : split (unit '=') 2 (units "realm=" ++ percentEncode realm) =
        [units "realm", percentEncode realm] := by
      have hequals : unit '=' ∉ units "realm" := by decide
      change cut (unit '=') (0 + 1) (units "realm" ++ unit '=' :: percentEncode realm) = _
      rw [cut_append hequals]
      rfl
    have hname : trim blank (units "realm") = units "realm" :=
      trim_of_visible fun c hc => visible_of_mem_units (by decide) hc
    have hvalue : trim blank (percentEncode realm) = percentEncode realm :=
      trim_of_visible fun c hc => visible_of_encoded (encoded_of_mem hc)
    have hread : realmValue blank (units "realm=" ++ percentEncode realm) =
        some (percentEncode realm) := by
      unfold realmValue
      rw [hsplit]
      simp only [hname, hvalue]
      exact if_pos (beq_self_eq_true _)
    change (List.splitOn (unit ';') (units "realm=" ++ percentEncode realm)).reverse.findSome?
      (realmValue blank) = _
    rw [List.splitOn_eq_singleton hsemicolon, List.reverse_singleton, List.findSome?_cons, hread]
    rfl

theorem decodeUrl_percentEncode {tables : Tables} (cs : List Char) :
    decodeUrl tables (percentEncode cs) = utf16Encode cs := by
  unfold decodeUrl
  rw [decode_percentEncode, Option.getD_some]

/-- Whatever an account consists of, it is read as it was encoded. -/
theorem parse_encodePayload (tables : Tables) (huser : user ≠ []) (hpassword : password ≠ [])
    (hhost : host ≠ []) (hpos : 1 ≤ port) (hport : port ≤ 65535) :
    parse tables (encodePayload user password host port realm) = some
      { user := utf16Encode user
        password := utf16Encode password
        host := utf16Encode host
        port := Int32.ofNat port
        realm := realm.map utf16Encode } := by
  have hvisible : ∀ c ∈ encodePayload user password host port realm, Visible c :=
    visible_encodePayload
  have hparts : (encodedParts user password host port realm).WellFormed ascii :=
    wellFormed_encodedParts huser hpassword hhost hport
  have hs : trim tables.blank (encodePayload user password host port realm) =
      (encodedParts user password host port realm).text := by
    rw [trim_of_visible hvisible, text_encodedParts]
  have hne {cs : List Char} (h : cs ≠ []) : decodeUrl tables (percentEncode cs) ≠ [] := by
    rw [decodeUrl_percentEncode]
    exact utf16Encode_ne_nil h
  rw [parse_eq (fun c hc => settled_of_visible (hvisible c hc)) hparts hs (hne huser)
    (hne hpassword) (hne hhost), writtenPort_encodedParts hpos hport, realm_encodedParts]
  simp only [encodedParts, decodeUrl_percentEncode, Option.map_map]
  have hrealm : decodeUrl tables ∘ percentEncode = utf16Encode :=
    funext decodeUrl_percentEncode
  rw [hrealm]

theorem parse_encodePayload_any : parse asciiTables
    (encodePayload " 内線+1".toList "p@ss:w;r/d%".toList "pbx.example".toList 65535
      (some [])) = some
      { user := utf16Encode " 内線+1".toList
        password := utf16Encode "p@ss:w;r/d%".toList
        host := utf16Encode "pbx.example".toList
        port := 65535
        realm := some [] } :=
  parse_encodePayload asciiTables (by decide) (by decide) (by decide) (by decide) (by decide)

end SimplePhone.Settings.QrPayload
