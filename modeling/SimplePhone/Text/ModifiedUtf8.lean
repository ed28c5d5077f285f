import Mathlib.Data.List.Chain
import Mathlib.Tactic.Common

/-! UTF-8 and the modified UTF-8 of the JNI, in which no character is a zero byte and
supplementary characters may be written as their two surrogates. Where a text in the
latter is UTF-8 as well, or was cut to become so, it is the former. -/
namespace SimplePhone.Text

def utf8Encode (cs : List Char) : List UInt8 := cs.flatMap String.utf8EncodeChar

/-- A code point of three bytes, be it a surrogate or not. -/
def threeBytes (v : Nat) : List UInt8 :=
  [UInt8.ofNat (v / 4096 + 0xE0), UInt8.ofNat (v / 64 % 64 + 0x80), UInt8.ofNat (v % 64 + 0x80)]

/-- `joined`: a pair of surrogates is written as one sequence of four bytes, as in UTF-8,
instead of two of three bytes. -/
def modifiedUtf8EncodeChar (joined : Bool) (c : Char) : List UInt8 :=
  if c.toNat = 0 then [0xC0, 0x80]
  else if joined || decide (c.toNat < 0x10000) then String.utf8EncodeChar c
  else threeBytes (0xD800 + (c.toNat - 0x10000) / 0x400) ++
    threeBytes (0xDC00 + (c.toNat - 0x10000) % 0x400)

def modifiedUtf8Encode (joined : Bool) (cs : List Char) : List UInt8 :=
  cs.flatMap (modifiedUtf8EncodeChar joined)

/-- The characters that both write alike. -/
def Common (joined : Bool) (c : Char) : Prop := c.toNat ≠ 0 ∧ (joined || decide (c.toNat < 0x10000))

instance (joined : Bool) (c : Char) : Decidable (Common joined c) :=
  inferInstanceAs (Decidable (_ ∧ _))

theorem modifiedUtf8EncodeChar_of_common {joined : Bool} {c : Char} (h : Common joined c) :
    modifiedUtf8EncodeChar joined c = String.utf8EncodeChar c := by
  unfold modifiedUtf8EncodeChar
  rw [if_neg h.1, if_pos h.2]

theorem modifiedUtf8Encode_of_common {joined : Bool} {cs : List Char}
    (h : ∀ c ∈ cs, Common joined c) : modifiedUtf8Encode joined cs = utf8Encode cs := by
  unfold modifiedUtf8Encode utf8Encode
  induction cs with
  | nil => rfl
  | cons c cs ih =>
    rw [List.flatMap_cons, List.flatMap_cons,
      modifiedUtf8EncodeChar_of_common (h c List.mem_cons_self),
      ih fun d hd => h d (List.mem_cons_of_mem c hd)]

theorem toNat_ofNat {n : Nat} (h : n < 256) : (UInt8.ofNat n).toNat = n := by
  rw [UInt8.toNat_ofNat', Nat.mod_eq_of_lt h]

/-! ### The bytes of a character -/

/-- The sequences of UTF-8, by their length. -/
inductive Sequence (c : Char) : List UInt8 → Prop where
  | one (a : UInt8) : c.toNat < 0x80 → a.toNat = c.toNat → Sequence c [a]
  | two (a b : UInt8) : 0x80 ≤ c.toNat → c.toNat < 0x800 → a.toNat = 0xC0 + c.toNat / 64 →
      b.toNat = 0x80 + c.toNat % 64 → Sequence c [a, b]
  | three (a b d : UInt8) : 0x800 ≤ c.toNat → c.toNat < 0x10000 →
      a.toNat = 0xE0 + c.toNat / 4096 → b.toNat = 0x80 + c.toNat / 64 % 64 →
      d.toNat = 0x80 + c.toNat % 64 → Sequence c [a, b, d]
  | four (a b d e : UInt8) : 0x10000 ≤ c.toNat → a.toNat = 0xF0 + c.toNat / 262144 →
      b.toNat = 0x80 + c.toNat / 4096 % 64 → d.toNat = 0x80 + c.toNat / 64 % 64 →
      e.toNat = 0x80 + c.toNat % 64 → Sequence c [a, b, d, e]

theorem toNat_lt (c : Char) : c.toNat < 0x110000 ∧ (c.toNat < 0xD800 ∨ 0xDFFF < c.toNat) := by
  have hvalid : c.toNat < 0xD800 ∨ 0xDFFF < c.toNat ∧ c.toNat < 0x110000 := c.valid
  omega

theorem sequence_utf8EncodeChar (c : Char) : Sequence c (String.utf8EncodeChar c) := by
  have hlt := (toNat_lt c).1
  unfold String.utf8EncodeChar
  change Sequence c (if c.toNat ≤ 0x7f then _ else if c.toNat ≤ 0x7ff then _ else
    if c.toNat ≤ 0xffff then _ else _)
  split
  · exact .one _ (by omega) (toNat_ofNat (n := c.toNat) (by omega))
  · split
    · refine .two _ _ (by omega) (by omega) ?_ ?_
      · exact (toNat_ofNat (n := c.toNat / 64 % 32 + 0xC0) (by omega)).trans (by omega)
      · exact (toNat_ofNat (n := c.toNat % 64 + 0x80) (by omega)).trans (by omega)
    · split
      · refine .three _ _ _ (by omega) (by omega) ?_ ?_ ?_
        · exact (toNat_ofNat (n := c.toNat / 4096 % 16 + 0xE0) (by omega)).trans (by omega)
        · exact (toNat_ofNat (n := c.toNat / 64 % 64 + 0x80) (by omega)).trans (by omega)
        · exact (toNat_ofNat (n := c.toNat % 64 + 0x80) (by omega)).trans (by omega)
      · refine .four _ _ _ _ (by omega) ?_ ?_ ?_ ?_
        · exact (toNat_ofNat (n := c.toNat / 262144 % 8 + 0xF0) (by omega)).trans (by omega)
        · exact (toNat_ofNat (n := c.toNat / 4096 % 64 + 0x80) (by omega)).trans (by omega)
        · exact (toNat_ofNat (n := c.toNat / 64 % 64 + 0x80) (by omega)).trans (by omega)
        · exact (toNat_ofNat (n := c.toNat % 64 + 0x80) (by omega)).trans (by omega)

/-- The byte of an ASCII character occurs in no other character. -/
theorem mem_utf8EncodeChar_ascii {b : UInt8} (hb : b.toNat < 0x80) (c : Char) :
    b ∈ String.utf8EncodeChar c ↔ c.toNat = b.toNat := by
  have hne {a : UInt8} (ha : 0x80 ≤ a.toNat) : b ≠ a := by
    rintro rfl
    omega
  have hseq := sequence_utf8EncodeChar c
  generalize String.utf8EncodeChar c = bytes at hseq
  cases hseq with
  | one a hc ha =>
    rw [List.mem_singleton, ← UInt8.toNat_inj, ha]
    exact eq_comm
  | two a d hc _ ha hd =>
    refine iff_of_false ?_ (by omega)
    simp [hne (show 0x80 ≤ a.toNat by omega), hne (show 0x80 ≤ d.toNat by omega)]
  | three a d e hc _ ha hd he =>
    refine iff_of_false ?_ (by omega)
    simp [hne (show 0x80 ≤ a.toNat by omega), hne (show 0x80 ≤ d.toNat by omega),
      hne (show 0x80 ≤ e.toNat by omega)]
  | four a d e f hc ha hd he hf =>
    refine iff_of_false ?_ (by omega)
    simp [hne (show 0x80 ≤ a.toNat by omega), hne (show 0x80 ≤ d.toNat by omega),
      hne (show 0x80 ≤ e.toNat by omega), hne (show 0x80 ≤ f.toNat by omega)]

/-! ### What may follow a byte -/

/-- In UTF-8 there is no byte C0, and ED does not begin a surrogate. -/
def Follows (a b : UInt8) : Prop :=
  a.toNat ≠ 0xC0 ∧ (a.toNat = 0xED → 0x80 ≤ b.toNat ∧ b.toNat < 0xA0)

theorem follows_of_ne {a : UInt8} (h : a.toNat ≠ 0xC0) (h' : a.toNat ≠ 0xED) (b : UInt8) :
    Follows a b := ⟨h, fun heq => absurd heq h'⟩

theorem isChain_utf8EncodeChar (c : Char) :
    (String.utf8EncodeChar c).IsChain Follows ∧
      ∀ a ∈ (String.utf8EncodeChar c).getLast?, ∀ b, Follows a b := by
  obtain ⟨hlt, hsurrogate⟩ := toNat_lt c
  have hseq := sequence_utf8EncodeChar c
  generalize String.utf8EncodeChar c = bytes at hseq
  cases hseq with
  | one a hc ha =>
    refine ⟨.singleton a, ?_⟩
    intro x hx b
    obtain rfl : a = x := Option.some.inj hx
    exact follows_of_ne (by omega) (by omega) b
  | two a d hc hc' ha hd =>
    refine ⟨List.isChain_pair.mpr (follows_of_ne (by omega) (by omega) d), ?_⟩
    intro x hx b
    obtain rfl : d = x := Option.some.inj hx
    exact follows_of_ne (by omega) (by omega) b
  | three a d e hc hc' ha hd he =>
    refine ⟨.cons_cons ⟨by omega, fun hed => by omega⟩
      (List.isChain_pair.mpr (follows_of_ne (by omega) (by omega) e)), ?_⟩
    intro x hx b
    obtain rfl : e = x := Option.some.inj hx
    exact follows_of_ne (by omega) (by omega) b
  | four a d e f hc ha hd he hf =>
    refine ⟨.cons_cons (follows_of_ne (by omega) (by omega) d)
      (.cons_cons (follows_of_ne (by omega) (by omega) e)
        (List.isChain_pair.mpr (follows_of_ne (by omega) (by omega) f))), ?_⟩
    intro x hx b
    obtain rfl : f = x := Option.some.inj hx
    exact follows_of_ne (by omega) (by omega) b

theorem isChain_utf8Encode (cs : List Char) : (utf8Encode cs).IsChain Follows := by
  induction cs with
  | nil => exact .nil
  | cons c cs ih =>
    obtain ⟨hchain, hlast⟩ := isChain_utf8EncodeChar c
    exact List.isChain_append.mpr ⟨hchain, ih, fun a ha b _ => hlast a ha b⟩

/-- What is not common begins with bytes that UTF-8 does not have. -/
theorem modifiedUtf8EncodeChar_of_not_common {joined : Bool} {c : Char} (h : ¬ Common joined c) :
    ∃ a b rest, modifiedUtf8EncodeChar joined c = a :: b :: rest ∧
      (a.toNat = 0xC0 ∨ a.toNat = 0xED ∧ 0xA0 ≤ b.toNat) := by
  have hlt := (toNat_lt c).1
  unfold modifiedUtf8EncodeChar
  split
  next => exact ⟨_, _, _, rfl, .inl rfl⟩
  next hzero =>
    have hsupplementary : ¬ (joined || decide (c.toNat < 0x10000)) = true :=
      fun hjoined => h ⟨hzero, hjoined⟩
    rw [if_neg hsupplementary]
    have hbig : 0x10000 ≤ c.toNat := by
      by_contra hsmall
      exact hsupplementary (by simp [show c.toNat < 0x10000 by omega])
    refine ⟨_, _, _, rfl, .inr ⟨?_, ?_⟩⟩
    · rw [toNat_ofNat (by omega)]
      omega
    · rw [toNat_ofNat (by omega)]
      omega

/-- A character that is not common does not look like text in UTF-8 either. -/
theorem exists_of_not_common {joined : Bool} {c : Char} (h : ¬ Common joined c) :
    ∃ b ∈ String.utf8EncodeChar c, b.toNat = 0 ∨ 0x80 ≤ b.toNat := by
  have hseq := sequence_utf8EncodeChar c
  generalize String.utf8EncodeChar c = bytes at hseq
  cases hseq with
  | one a hc ha =>
    refine ⟨a, List.mem_cons_self, .inl ?_⟩
    by_contra hzero
    exact h ⟨by omega, by simp [show c.toNat < 0x10000 by omega]⟩
  | two a d => exact ⟨a, List.mem_cons_self, .inr (by omega)⟩
  | three a d e => exact ⟨a, List.mem_cons_self, .inr (by omega)⟩
  | four a d e f => exact ⟨a, List.mem_cons_self, .inr (by omega)⟩

/-- The first bytes of a modified text, in front of an ASCII character: if they could be
UTF-8, they are the first bytes of the text in UTF-8; and if the rest of that is ASCII,
there is nothing that the two write differently. -/
theorem take_modifiedUtf8Encode {joined : Bool} {d : UInt8} (hd : d.toNat < 0x80)
    {cs : List Char} {n : Nat}
    (h : ((modifiedUtf8Encode joined cs).take n ++ [d]).IsChain Follows) :
    (modifiedUtf8Encode joined cs).take n = (utf8Encode cs).take n ∧
      ((∀ b ∈ (utf8Encode cs).drop n, b.toNat ≠ 0 ∧ b.toNat < 0x80) →
        ∀ c ∈ cs, Common joined c) := by
  induction cs generalizing n with
  | nil => exact ⟨rfl, nofun⟩
  | cons c cs ih =>
    have hcons : utf8Encode (c :: cs) = String.utf8EncodeChar c ++ utf8Encode cs := rfl
    have hcons' : modifiedUtf8Encode joined (c :: cs) =
      modifiedUtf8EncodeChar joined c ++ modifiedUtf8Encode joined cs := rfl
    by_cases hc : Common joined c
    · rw [modifiedUtf8EncodeChar_of_common hc] at hcons'
      rw [hcons', List.take_append, List.append_assoc] at h
      rw [hcons, hcons', List.take_append, List.take_append, List.drop_append]
      obtain ⟨htake, hcommon⟩ := ih h.right_of_append
      refine ⟨by rw [htake], ?_⟩
      intro hrest e he
      rcases List.mem_cons.mp he with rfl | he
      · exact hc
      · exact hcommon (fun b hb => hrest b (List.mem_append_right _ hb)) e he
    · obtain ⟨a, b, rest, heq, hforeign⟩ := modifiedUtf8EncodeChar_of_not_common hc
      rw [hcons', heq] at h
      cases n with
      | zero =>
        refine ⟨rfl, fun hrest => ?_⟩
        obtain ⟨x, hx, hodd⟩ := exists_of_not_common hc
        have hplain := hrest x (List.mem_append_left _ hx)
        omega
      | succ n =>
        -- the foreign bytes show
        have hno : ¬ (a.toNat ≠ 0xC0 ∧ (a.toNat = 0xED → b.toNat < 0xA0)) := by omega
        cases n with
        | zero =>
          have hfollows : Follows a d := List.isChain_pair.mp h
          exact absurd ⟨hfollows.1, fun hed => by have := hfollows.2 hed; omega⟩ hno
        | succ n =>
          have hfollows : Follows a b := (List.isChain_cons_cons.mp h).1
          exact absurd ⟨hfollows.1, fun hed => (hfollows.2 hed).2⟩ hno

/-- Characters of ASCII stay themselves, and nothing else becomes one. -/
theorem mem_modifiedUtf8EncodeChar_ascii {joined : Bool} {c : Char} {b : UInt8}
    (hzero : b.toNat ≠ 0) (hb : b.toNat < 0x80) :
    b ∈ modifiedUtf8EncodeChar joined c ↔ c.toNat = b.toNat := by
  by_cases hcommon : Common joined c
  · rw [modifiedUtf8EncodeChar_of_common hcommon]
    exact mem_utf8EncodeChar_ascii hb c
  · have hlt := (toNat_lt c).1
    have hne {n : Nat} (hlow : 0x80 ≤ n) (hhigh : n < 256) : b ≠ UInt8.ofNat n := by
      rintro rfl
      rw [toNat_ofNat hhigh] at hb
      omega
    have hthree {v : Nat} (hv : v < 0x10000) : b ∉ threeBytes v := by
      simp only [threeBytes, List.mem_cons, List.not_mem_nil, or_false, not_or]
      exact ⟨hne (by omega) (by omega), hne (by omega) (by omega), hne (by omega) (by omega)⟩
    refine iff_of_false ?_ ?_
    · unfold modifiedUtf8EncodeChar
      split
      · simp only [List.mem_cons, List.not_mem_nil, or_false, not_or]
        exact ⟨hne (n := 0xC0) (by decide) (by decide), hne (n := 0x80) (by decide) (by decide)⟩
      next hc =>
        rw [if_neg fun h => hcommon ⟨hc, h⟩]
        intro hmem
        rcases List.mem_append.mp hmem with h | h
        · exact hthree (by omega) h
        · exact hthree (by omega) h
    · intro hc
      refine hcommon ⟨by omega, ?_⟩
      rw [decide_eq_true (by omega), Bool.or_true]

theorem modifiedUtf8Encode_append (joined : Bool) (cs ds : List Char) :
    modifiedUtf8Encode joined (cs ++ ds) =
      modifiedUtf8Encode joined cs ++ modifiedUtf8Encode joined ds := List.flatMap_append

end SimplePhone.Text
