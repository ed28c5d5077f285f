import SimplePhone.Account
import SimplePhone.Text.ModifiedUtf8

/-! The AOR is built twice: by `SipConfig.buildAor` from the stored strings, and by
`register_worker` from the buffers that `nativeInit` has copied them to. -/
namespace SimplePhone.Settings

open Text

/-- The account as it is stored. -/
structure Account where
  server : String
  port : Int32
  user : String
  password : String
  realm : String
deriving DecidableEq

/-- `SipConfig.buildAor` -/
def Account.buildAor (a : Account) : String :=
  let authority := if ':' ∈ a.server.toList then a.server
    else a.server ++ ":" ++ toString a.port.toInt
  "<sip:" ++ a.user ++ "@" ++ authority ++ ">;auth_user=" ++ a.user ++ ";auth_pass=" ++
    a.password ++ ";regint=60"

/-- The arguments of `nativeInit` as `GetStringUTFChars` gives them. -/
def Account.toNative (joined : Bool) (a : Account) : SipConfig where
  server := modifiedUtf8Encode joined a.server.toList
  port := a.port.toInt
  user := modifiedUtf8Encode joined a.user.toList
  password := modifiedUtf8Encode joined a.password.toList
  realm := modifiedUtf8Encode joined a.realm.toList

/-- The account in UTF-8. -/
def Account.encode (a : Account) : SipConfig where
  server := utf8 a.server
  port := a.port.toInt
  user := utf8 a.user
  password := utf8 a.password
  realm := utf8 a.realm

/-- The first registration uses the AOR of the later ones. -/
def Account.Agrees (joined : Bool) (a : Account) : Prop :=
  buildAccountAor (nativeInit (a.toNative joined)) 256 = utf8 a.buildAor

/-! ### The buffers -/

/-- The buffers keep the account, except that a port which the server brings along may be
the one that is added to what is left of it. -/
def Fits (c : SipConfig) : Prop :=
  c.user.length ≤ 31 ∧ c.password.length ≤ 63 ∧
    (c.server.length ≤ 63 ∨ colon ∉ c.server.take 63 ∧
      c.server = c.server.take 63 ++ [colon] ++ decimal c.port)

instance (c : SipConfig) : Decidable (Fits c) := inferInstanceAs (Decidable (_ ∧ _))

/-- An AOR with the user, the authority and the password in their places. -/
def aor (user authority password : Str) : Str :=
  utf8 "<sip:" ++ user ++ [atSign] ++ authority ++ utf8 ">;auth_user=" ++ user ++
    utf8 ";auth_pass=" ++ password ++ utf8 ";regint=60"

theorem length_aor (user authority password : Str) :
    (aor user authority password).length =
      2 * user.length + authority.length + password.length + 39 := by
  have h1 : (utf8 "<sip:").length = 5 := rfl
  have h2 : (utf8 ">;auth_user=").length = 12 := rfl
  have h3 : (utf8 ";auth_pass=").length = 11 := rfl
  have h4 : (utf8 ";regint=60").length = 10 := rfl
  unfold aor
  simp only [List.length_append, h1, h2, h3, h4, List.length_singleton]
  omega

/-- With a port of 32 bits nothing is cut off a second time. -/
theorem buildAccountAor_nativeInit {c : SipConfig} (hport : (decimal c.port).length ≤ 11) :
    buildAccountAor (nativeInit c) 256 = aor (c.user.take 31)
      (if colon ∈ c.server.take 63 then c.server.take 63
        else c.server.take 63 ++ [colon] ++ decimal c.port) (c.password.take 63) := by
  have hauthority : buildServerAuthority (nativeInit c) 96 =
      if colon ∈ c.server.take 63 then c.server.take 63
        else c.server.take 63 ++ [colon] ++ decimal c.port := by
    unfold buildServerAuthority nativeInit bounded
    split
    · exact List.take_of_length_le (by rw [List.length_take]; omega)
    · refine List.take_of_length_le ?_
      simp only [List.length_append, List.length_take, List.length_singleton]
      omega
  have hsize : (if colon ∈ c.server.take 63 then c.server.take 63
      else c.server.take 63 ++ [colon] ++ decimal c.port).length ≤ 75 := by
    split
    · rw [List.length_take]
      omega
    · simp only [List.length_append, List.length_take, List.length_singleton]
      omega
  unfold buildAccountAor
  rw [hauthority]
  change bounded 256 (aor (c.user.take 31) _ (c.password.take 63)) = _
  refine List.take_of_length_le ?_
  rw [length_aor, List.length_take, List.length_take]
  omega

/-! ### Decimal numbers -/

theorem utf8EncodeChar_digit {c : Char} (h : c.isDigit = true) :
    ∃ b, String.utf8EncodeChar c = [b] ∧ 48 ≤ b.toNat ∧ b.toNat ≤ 57 := by
  obtain ⟨hlow, hhigh⟩ : 48 ≤ c.toNat ∧ c.toNat ≤ 57 := by
    simpa [Char.isDigit, UInt32.le_iff_toNat_le] using h
  have hseq := sequence_utf8EncodeChar c
  generalize String.utf8EncodeChar c = bytes at hseq
  cases hseq with
  | one a hc ha => exact ⟨a, rfl, by omega, by omega⟩
  | two a b hc => omega
  | three a b d hc => omega
  | four a b d e hc => omega

theorem toDigits_utf8 (n : Nat) :
    ((Nat.toDigits 10 n).flatMap String.utf8EncodeChar).length = (Nat.toDigits 10 n).length ∧
      ∀ b ∈ (Nat.toDigits 10 n).flatMap String.utf8EncodeChar, 48 ≤ b.toNat ∧ b.toNat ≤ 57 := by
  have hdigits (c : Char) (hc : c ∈ Nat.toDigits 10 n) : c.isDigit = true :=
    Nat.isDigit_of_mem_toDigits (by decide) (by decide) hc
  generalize Nat.toDigits 10 n = cs at hdigits ⊢
  induction cs with
  | nil => exact ⟨rfl, nofun⟩
  | cons c cs ih =>
    obtain ⟨hlength, hrange⟩ := ih fun d hd => hdigits d (List.mem_cons_of_mem c hd)
    obtain ⟨b, hb, hlow, hhigh⟩ := utf8EncodeChar_digit (hdigits c List.mem_cons_self)
    rw [List.flatMap_cons, hb]
    refine ⟨congrArg Nat.succ hlength, ?_⟩
    intro x hx
    rcases List.mem_cons.mp hx with rfl | hx
    · exact ⟨hlow, hhigh⟩
    · exact hrange x hx

theorem mem_decimal {i : Int} {b : UInt8} (h : b ∈ decimal i) :
    b.toNat = 45 ∨ 48 ≤ b.toNat ∧ b.toNat ≤ 57 := by
  cases i with
  | ofNat n => exact .inr ((toDigits_utf8 n).2 b h)
  | negSucc n =>
    rcases List.mem_cons.mp h with rfl | h
    · exact .inl rfl
    · exact .inr ((toDigits_utf8 (n + 1)).2 b h)

/-- `2147483647` and `-2147483648` are the longest. -/
theorem length_decimal (p : Int32) : (decimal p.toInt).length ≤ 11 := by
  have hlow : -2 ^ 31 ≤ p.toInt := p.le_toInt
  have hhigh : p.toInt < 2 ^ 31 := p.toInt_lt
  have hdigits (n : Nat) (hn : n < 10 ^ 10) :
      ((Nat.toDigits 10 n).flatMap String.utf8EncodeChar).length ≤ 10 := by
    rw [(toDigits_utf8 n).1]
    exact (Nat.length_toDigits_le_iff (by decide) (by decide)).mpr hn
  cases hp : p.toInt with
  | ofNat n =>
    rw [hp] at hhigh
    have hn := hdigits n (by simp only [Int.ofNat_eq_natCast] at hhigh; omega)
    simp only [decimal]
    omega
  | negSucc n =>
    rw [hp] at hlow
    have hn := hdigits (n + 1) (by omega)
    simp only [decimal, List.length_cons]
    omega

/-- The server is cut before its first colon. -/
theorem server_eq_of_late_colon {s rest digits user pass pass' : Str} (hs : s.length = 63)
    (hcolon : colon ∉ s) (hdigits : digits.length ≤ 11) (hangle : (62 : UInt8) ∉ digits)
    (hpass : pass'.length ≤ pass.length) (hrest : rest ≠ [])
    (h : aor (user.take 31) (s ++ [colon] ++ digits) pass' = aor user (s ++ rest) pass) :
    user.length ≤ 31 ∧ rest = [colon] ++ digits ∧ pass' = pass := by
  have hlength := congrArg List.length h
  simp only [length_aor, List.length_append, List.length_take, List.length_singleton] at hlength
  have hpos : 0 < rest.length := List.length_pos_of_ne_nil hrest
  have huser : user.length ≤ 31 := by
    by_contra hlong
    -- the colon of the left side stands where the right side is still in the server
    obtain ⟨u, w, huser, hu⟩ : ∃ u w, user = u ++ w ∧ user.take 31 = u :=
      ⟨_, _, (List.take_append_drop 31 user).symm, rfl⟩
    have hw : user.length = 31 + w.length := by
      rw [huser, List.length_append, ← hu, List.length_take]
      omega
    have htail : [atSign] ++ s ++ ([colon] ++ (digits ++ (utf8 ">;auth_user=" ++
        (u ++ (utf8 ";auth_pass=" ++ (pass' ++ utf8 ";regint=60")))))) =
        w ++ [atSign] ++ s ++ (rest ++ (utf8 ">;auth_user=" ++
          (u ++ w ++ (utf8 ";auth_pass=" ++ (pass ++ utf8 ";regint=60"))))) := by
      rw [hu, huser] at h
      unfold aor at h
      simp only [List.append_assoc] at h ⊢
      exact List.append_cancel_left (List.append_cancel_left h)
    have hleft (l : Str) : ([atSign] ++ s ++ ([colon] ++ l))[64]? = some colon := by
      rw [List.getElem?_append_right (by simp [hs])]
      simp [hs]
    have hright (l : Str) : (w ++ [atSign] ++ s ++ l)[64]? = s[63 - w.length]? := by
      rw [List.getElem?_append_left (by
        simp only [List.length_append, List.length_singleton]
        omega), List.getElem?_append_right (by
        simp only [List.length_append, List.length_singleton]
        omega)]
      simp only [List.length_append, List.length_singleton]
      congr 1
      omega
    have hmem : s[63 - w.length]? = some colon := by
      rw [← hright, ← htail, hleft]
    exact hcolon (List.mem_of_getElem? hmem)
  rw [List.take_of_length_le huser] at h
  have htail : [colon] ++ digits ++ (utf8 ">;auth_user=" ++ (user ++ (utf8 ";auth_pass=" ++
      (pass' ++ utf8 ";regint=60")))) = rest ++ (utf8 ">;auth_user=" ++ (user ++
        (utf8 ";auth_pass=" ++ (pass ++ utf8 ";regint=60")))) := by
    unfold aor at h
    simp only [List.append_assoc] at h ⊢
    exact List.append_cancel_left (List.append_cancel_left (List.append_cancel_left
      (List.append_cancel_left h)))
  have hsame : rest = [colon] ++ digits := by
    rcases List.append_eq_append_iff.mp htail with ⟨r, hr, htail'⟩ | ⟨r, hr, htail'⟩
    · have hlen := congrArg List.length hr
      simp only [List.length_append, List.length_singleton] at hlen
      have hnil : r = [] := List.eq_nil_of_length_eq_zero (by omega)
      rw [hr, hnil, List.append_nil]
    · cases r with
      | nil => rw [hr, List.append_nil]
      | cons b r =>
        -- the angle bracket of the right side would be part of the port
        have hb : b = 62 := (List.cons.inj htail').1.symm
        have hmem : b ∈ [colon] ++ digits := by
          rw [hr]
          exact List.mem_append_right rest List.mem_cons_self
        rw [hb] at hmem
        rcases List.mem_append.mp hmem with hc | hd
        · exact absurd hc (by decide)
        · exact absurd hd hangle
  refine ⟨huser, hsame, ?_⟩
  rw [hsame] at htail
  have hpassword := List.append_cancel_left (List.append_cancel_left
    (List.append_cancel_left (List.append_cancel_left htail)))
  exact List.append_cancel_right hpassword

theorem buildAccountAor_eq_iff {c : SipConfig} (hport : (decimal c.port).length ≤ 11) :
    buildAccountAor (nativeInit c) 256 = c.buildAor ↔ Fits c := by
  rw [buildAccountAor_nativeInit hport]
  change aor _ _ _ = aor c.user c.authority c.password ↔ _
  have hangle : (62 : UInt8) ∉ decimal c.port :=
    fun hmem => absurd (mem_decimal hmem) (by decide)
  have hlate : colon ∈ c.server → colon ∉ c.server.take 63 → (c.server.take 63).length = 63 := by
    intro hcolon htake
    rw [List.length_take]
    by_contra hshort
    rw [List.take_of_length_le (by omega)] at htake
    exact htake hcolon
  unfold SipConfig.authority Fits
  constructor
  · intro h
    have hlength := congrArg List.length h
    rw [length_aor, length_aor, List.length_take, List.length_take] at hlength
    split at h
    next hcolon =>
      rw [if_pos hcolon, if_pos (List.mem_of_mem_take hcolon), List.length_take] at hlength
      exact ⟨by omega, by omega, .inl (by omega)⟩
    next hcolon =>
      rw [if_neg hcolon] at hlength
      split at h
      next hserver =>
        have hs := hlate hserver hcolon
        have hrest : c.server.drop 63 ≠ [] := by
          intro hnil
          rw [← List.take_append_drop 63 c.server, hnil, List.append_nil] at hserver
          exact hcolon hserver
        rw [← List.take_append_drop 63 c.server, List.take_left' hs] at h
        obtain ⟨huser, hdigits, hpassword⟩ := server_eq_of_late_colon hs hcolon hport hangle
          (by rw [List.length_take]; omega) hrest h
        refine ⟨huser, ?_, .inr ⟨hcolon, ?_⟩⟩
        · have hpass := congrArg List.length hpassword
          rw [List.length_take] at hpass
          omega
        · rw [List.append_assoc, ← hdigits, List.take_append_drop]
      next hserver =>
        rw [if_neg hserver] at hlength
        simp only [List.length_append, List.length_take, List.length_singleton] at hlength
        exact ⟨by omega, by omega, .inl (by omega)⟩
  · rintro ⟨huser, hpassword, hserver⟩
    rw [List.take_of_length_le huser, List.take_of_length_le hpassword]
    congr 1
    rcases hserver with hshort | ⟨hcolon, hserver⟩
    · rw [List.take_of_length_le hshort]
    · have hmem : colon ∈ c.server := by
        rw [hserver]
        simp
      rw [if_neg hcolon, if_pos hmem, ← hserver]

/-! ### The strings -/

theorem utf8_append (s t : String) : utf8 (s ++ t) = utf8 s ++ utf8 t := by
  unfold utf8
  rw [String.toList_append, List.flatMap_append]

theorem utf8_toString (i : Int) : utf8 (toString i) = decimal i := by
  cases i with
  | ofNat n =>
    change utf8 n.repr = _
    unfold utf8
    rw [Nat.toList_repr]
    rfl
  | negSucc n =>
    change utf8 ("-" ++ (n + 1).repr) = _
    rw [utf8_append]
    unfold utf8
    rw [Nat.toList_repr]
    rfl

theorem colon_mem_utf8 (s : String) : colon ∈ utf8 s ↔ ':' ∈ s.toList := by
  have hchar (c : Char) : colon ∈ String.utf8EncodeChar c ↔ c = ':' := by
    rw [mem_utf8EncodeChar_ascii (by decide)]
    constructor
    · intro h
      exact Char.toNat_inj.mp h
    · rintro rfl
      rfl
  unfold utf8
  rw [List.mem_flatMap]
  constructor
  · rintro ⟨c, hc, hmem⟩
    rw [(hchar c).mp hmem] at hc
    exact hc
  · intro h
    exact ⟨':', h, (hchar ':').mpr rfl⟩

theorem utf8_buildAor (a : Account) : utf8 a.buildAor = a.encode.buildAor := by
  have hauthority : utf8 (if ':' ∈ a.server.toList then a.server
      else a.server ++ ":" ++ toString a.port.toInt) = a.encode.authority := by
    unfold SipConfig.authority Account.encode
    simp only [colon_mem_utf8]
    split
    · rfl
    · rw [utf8_append, utf8_append, utf8_toString]
      rfl
  unfold Account.buildAor SipConfig.buildAor
  simp only [utf8_append, hauthority]
  rfl

/-- The AOR of the native builder shows its fields in front of ASCII characters. -/
theorem infix_aor (user authority password : Str) :
    user ++ [atSign] <:+: aor user authority password ∧
      authority ++ [62] <:+: aor user authority password ∧
      password ++ [59] <:+: aor user authority password := by
  have h1 : utf8 ">;auth_user=" = [62] ++ utf8 ";auth_user=" := rfl
  have h2 : utf8 ";regint=60" = [59] ++ utf8 "regint=60" := rfl
  refine ⟨⟨utf8 "<sip:", authority ++ utf8 ">;auth_user=" ++ user ++ utf8 ";auth_pass=" ++
    password ++ utf8 ";regint=60", ?_⟩, ⟨utf8 "<sip:" ++ user ++ [atSign],
    utf8 ";auth_user=" ++ user ++ utf8 ";auth_pass=" ++ password ++ utf8 ";regint=60", ?_⟩,
    ⟨utf8 "<sip:" ++ user ++ [atSign] ++ authority ++ utf8 ">;auth_user=" ++ user ++
      utf8 ";auth_pass=", utf8 "regint=60", ?_⟩⟩
  · simp only [aor, List.append_assoc]
  · simp only [aor, List.append_assoc, h1]
  · simp only [aor, List.append_assoc, h2]

/-- Where the buffers are those of the account in UTF-8, only its size matters. -/
theorem agrees_iff_of_buffers {joined : Bool} {a : Account}
    (hserver : (a.toNative joined).server.take 63 = a.encode.server.take 63)
    (huser : (a.toNative joined).user.take 31 = a.encode.user.take 31)
    (hpassword : (a.toNative joined).password.take 63 = a.encode.password.take 63) :
    a.Agrees joined ↔ Fits a.encode := by
  have hport : (decimal a.port.toInt).length ≤ 11 := length_decimal a.port
  have hnative : buildAccountAor (nativeInit (a.toNative joined)) 256 =
      buildAccountAor (nativeInit a.encode) 256 := by
    rw [buildAccountAor_nativeInit (c := a.toNative joined) hport,
      buildAccountAor_nativeInit (c := a.encode) hport, hserver, huser, hpassword]
    rfl
  unfold Account.Agrees
  rw [hnative, utf8_buildAor]
  exact buildAccountAor_eq_iff hport

/-- Past the end of its buffer a server that fits has the port only. -/
theorem ascii_of_fits {c : SipConfig} (h : Fits c) :
    (∀ b ∈ c.server.drop 63, b.toNat ≠ 0 ∧ b.toNat < 0x80) ∧
      (∀ b ∈ c.user.drop 31, b.toNat ≠ 0 ∧ b.toNat < 0x80) ∧
      ∀ b ∈ c.password.drop 63, b.toNat ≠ 0 ∧ b.toNat < 0x80 := by
  obtain ⟨huser, hpassword, hserver⟩ := h
  rw [List.drop_of_length_le huser, List.drop_of_length_le hpassword]
  refine ⟨?_, nofun, nofun⟩
  rcases hserver with hshort | ⟨-, hserver⟩
  · rw [List.drop_of_length_le hshort]
    nofun
  · rw [List.append_assoc] at hserver
    have hdrop : c.server.drop 63 = [colon] ++ decimal c.port :=
      List.append_cancel_left ((List.take_append_drop 63 c.server).trans hserver)
    rw [hdrop]
    intro b hb
    rcases List.mem_append.mp hb with hc | hd
    · rw [List.mem_singleton.mp hc]
      decide
    · have hrange := mem_decimal hd
      omega

/-- The two builders agree exactly on the accounts that fit the buffers and consist of
characters which the JNI writes as UTF-8 does. -/
theorem agrees_iff_fits (joined : Bool) (a : Account) : a.Agrees joined ↔
    Fits a.encode ∧
      ∀ c ∈ a.server.toList ++ a.user.toList ++ a.password.toList, Common joined c := by
  constructor
  · intro h
    have hshown : (buildAccountAor (nativeInit (a.toNative joined)) 256).IsChain Follows :=
      h ▸ isChain_utf8Encode a.buildAor.toList
    rw [buildAccountAor_nativeInit (c := a.toNative joined) (length_decimal a.port)] at hshown
    obtain ⟨hatUser, hatServer, hatPassword⟩ := infix_aor
      ((a.toNative joined).user.take 31)
      (if colon ∈ (a.toNative joined).server.take 63 then (a.toNative joined).server.take 63
        else (a.toNative joined).server.take 63 ++ [colon] ++ decimal (a.toNative joined).port)
      ((a.toNative joined).password.take 63)
    have huserShown := hshown.infix hatUser
    have hpasswordShown := hshown.infix hatPassword
    obtain ⟨huser, hcommonUser⟩ :=
      take_modifiedUtf8Encode (d := atSign) (by decide) huserShown
    obtain ⟨hpassword, hcommonPassword⟩ :=
      take_modifiedUtf8Encode (d := 59) (by decide) hpasswordShown
    obtain ⟨d, hd, hchain⟩ : ∃ d : UInt8, d.toNat < 0x80 ∧
        ((a.toNative joined).server.take 63 ++ [d]).IsChain Follows := by
      have hserver := hshown.infix hatServer
      split at hserver
      · exact ⟨62, by decide, hserver⟩
      · rw [List.append_assoc] at hserver
        exact ⟨colon, by decide, hserver.left_of_append⟩
    obtain ⟨hserver, hcommonServer⟩ := take_modifiedUtf8Encode hd hchain
    have hfits : Fits a.encode := (agrees_iff_of_buffers hserver huser hpassword).mp h
    obtain ⟨hasciiServer, hasciiUser, hasciiPassword⟩ := ascii_of_fits hfits
    refine ⟨hfits, ?_⟩
    intro c hc
    rcases List.mem_append.mp hc with hc | hc
    · rcases List.mem_append.mp hc with hc | hc
      · exact hcommonServer hasciiServer c hc
      · exact hcommonUser hasciiUser c hc
    · exact hcommonPassword hasciiPassword c hc
  · rintro ⟨hfits, hcommon⟩
    have hencode (s : String) (hs : ∀ c ∈ s.toList, Common joined c) :
        modifiedUtf8Encode joined s.toList = utf8 s := modifiedUtf8Encode_of_common hs
    have hserver : (a.toNative joined).server = a.encode.server :=
      hencode a.server fun c hc => hcommon c (List.mem_append_left _ (List.mem_append_left _ hc))
    have huser : (a.toNative joined).user = a.encode.user :=
      hencode a.user fun c hc => hcommon c (List.mem_append_left _ (List.mem_append_right _ hc))
    have hpassword : (a.toNative joined).password = a.encode.password :=
      hencode a.password fun c hc => hcommon c (List.mem_append_right _ hc)
    refine (agrees_iff_of_buffers ?_ ?_ ?_).mpr hfits
    · rw [hserver]
    · rw [huser]
    · rw [hpassword]

/-- A user of 32 bytes is cut; a supplementary character written as two surrogates and a
zero character are not UTF-8. -/
theorem builders_differ :
    ¬ Account.Agrees true ⟨"192.0.2.1", 5060, "abcdefghijklmnopqrstuvwxyz012345", "p", ""⟩ ∧
    ¬ Account.Agrees false ⟨"192.0.2.1", 5060, "203", "😀", ""⟩ ∧
    ¬ Account.Agrees true ⟨"192.0.2.1", 5060, "203", "\x00", ""⟩ := by
  refine ⟨?_, ?_, ?_⟩
  · rw [agrees_iff_of_buffers rfl rfl rfl]
    decide
  · unfold Account.Agrees
    decide
  · unfold Account.Agrees
    decide

end SimplePhone.Settings
