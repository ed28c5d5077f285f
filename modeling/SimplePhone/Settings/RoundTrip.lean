import SimplePhone.Baresip.Account
import SimplePhone.Settings.Builders

/-! `account_alloc` reads the AOR that `SipConfig.buildAor` has written. Nothing in it is
escaped, so what comes back depends on what was stored. -/
namespace SimplePhone.Settings

open Re Baresip Text

/-- The host and the port an account stands for: a server with a colon brings its own port
along, an address that has colons itself in brackets. -/
inductive Names (server : Str) (port : Int) : Str → Int → Prop where
  | plain : colon ∉ server → Names server port server port
  | own (host digits : Str) : server = host ++ colon :: digits → colon ∉ host →
      Digits digits → digits ≠ [] → Names server port host (value digits)
  | bracketed (host digits : Str) :
      server = [openBracket] ++ host ++ [closeBracket] ++ colon :: digits →
      Digits digits → digits ≠ [] → Names server port host (value digits)

/-- baresip has got the stored account. -/
structure Matches (c : SipConfig) (acc : Baresip.Account) : Prop where
  user : acc.laddr.uri.user = c.user
  server : Names c.server c.port acc.laddr.uri.host acc.laddr.uri.port
  authUser : acc.authUser = some c.user
  authPass : acc.authPass = some c.password
  regint : acc.regint = some 60
  others : acc.others = []

/-- One of the parameters is found inside the value `x`, which `rest` follows. -/
def Injects (x rest : Str) : Prop :=
  ∃ name ∈ parameterNames, ∃ t, t ≠ [] ∧ t <:+ x ∧
    (ParamAt name (t ++ rest) ∨ name = utf8 "video_codecs" ∧ NameAt name (t ++ rest))

/-- The account comes back from its AOR, and the decoder finds no parameter inside a value. -/
def RoundTrips (isFile : Str → Bool) (c : SipConfig) (aor : Str) : Prop :=
  (∃ acc, accountAlloc isFile aor = some acc ∧ Matches c acc) ∧
    ¬ Injects c.user (utf8 ";auth_pass=" ++ c.password ++ utf8 ";regint=60") ∧
    ¬ Injects c.password (utf8 ";regint=60")

/-! ### The condition -/

/-- A name of a host, without anything in brackets that could be taken for an address. -/
structure HostName (host : Str) : Prop where
  ne_nil : host ≠ []
  has : ∀ b ∈ host, b ≠ colon ∧ b ≠ closeAngle ∧ hostPort.has b = true
  unbracketed : ¬ Bracketed host

inductive Locates (server : Str) (port : Int) : Prop where
  | plain : HostName server → 0 ≤ port → port < 65536 → Locates server port
  | own (host digits : Str) : server = host ++ colon :: digits → HostName host →
      Digits digits → digits ≠ [] → value digits < 65536 → Locates server port
  | bracketed (host digits : Str) :
      server = [openBracket] ++ host ++ [closeBracket] ++ colon :: digits →
      host ≠ [] → (∀ b ∈ host, hexOrColon.has b = true) →
      Digits digits → digits ≠ [] → value digits < 65536 → Locates server port

structure Representable (c : SipConfig) : Prop where
  user : ∀ b ∈ c.user, b ≠ colon ∧ b ≠ atSign ∧ b ≠ closeAngle
  wholeUser : Whole c.user
  wholePassword : Whole c.password
  hiddenUser : ¬ Injects c.user [semicolon]
  hiddenPassword : ¬ Injects c.password [semicolon]
  server : Locates c.server c.port

/-! ### Numbers -/

theorem digits_decimal (n : Nat) : Digits (decimal n) := (toDigits_utf8 n).2

theorem decimal_ne_nil (n : Nat) : decimal n ≠ [] := by
  intro hnil
  have hlength := (toDigits_utf8 n).1
  have hdigits : (Nat.toDigits 10 n).flatMap String.utf8EncodeChar = [] := hnil
  rw [hdigits] at hlength
  exact Nat.toDigits_ne_nil (List.eq_nil_of_length_eq_zero hlength.symm)

theorem value_concat (s : Str) (b : UInt8) : value (s ++ [b]) = 10 * value s + (b.toNat - 48) := by
  unfold value
  rw [List.foldl_append]
  rfl

theorem value_decimal (n : Nat) : value (decimal n) = n := by
  have hchar : ∀ d < 10, String.utf8EncodeChar d.digitChar = [UInt8.ofNat (48 + d)] ∧
      (UInt8.ofNat (48 + d)).toNat - 48 = d := by decide
  change value ((Nat.toDigits 10 n).flatMap String.utf8EncodeChar) = n
  induction n using Nat.strongRecOn with
  | ind n ih =>
    by_cases hn : n < 10
    · rw [Nat.toDigits_of_lt_base hn, List.flatMap_singleton, (hchar n hn).1]
      exact (value_concat [] _).trans ((Nat.zero_add _).trans (hchar n hn).2)
    · have hmod : n % 10 < 10 := Nat.mod_lt n (by decide)
      rw [Nat.toDigits_of_base_le (by decide) (by omega), List.flatMap_append,
        List.flatMap_singleton, (hchar _ hmod).1, value_concat, ih (n / 10) (by omega),
        (hchar _ hmod).2]
      omega

/-! ### The address -/

variable {c : SipConfig} {isFile : Str → Bool}

/-- What follows the address. -/
def params (c : SipConfig) : Str :=
  utf8 ";auth_user=" ++ c.user ++ utf8 ";auth_pass=" ++ c.password ++ utf8 ";regint=60"

theorem buildAor_eq (c : SipConfig) : c.buildAor = openAngle :: (utf8 "sip" ++ colon ::
    (c.user ++ atSign :: c.authority) ++ closeAngle :: params c) := by
  have hfront : utf8 "<sip:" = openAngle :: (utf8 "sip" ++ [colon]) := rfl
  have hangle : utf8 ">;auth_user=" = closeAngle :: utf8 ";auth_user=" := rfl
  unfold SipConfig.buildAor params
  rw [hfront, hangle]
  simp only [List.append_assoc, List.cons_append, List.nil_append]

theorem sipAddrDecode_buildAor (c : SipConfig) : sipAddrDecode c.buildAor =
    let x := utf8 "sip" ++ colon :: (c.user ++ atSign :: c.authority) ++ closeAngle :: params c
    (uriDecode (x.takeWhile (· ≠ closeAngle))).map fun uri =>
      ⟨[], x.takeWhile (· ≠ closeAngle), (x.dropWhile (· ≠ closeAngle)).tail, uri⟩ := by
  rw [buildAor_eq]
  unfold sipAddrDecode
  rw [reRegex_addrItems (by simp) (by simp [utf8]; decide)]

/-- Without an angle bracket in the account, the address is all of what was written. -/
theorem address_eq (huser : closeAngle ∉ c.user) (hauthority : closeAngle ∉ c.authority) :
    let address := utf8 "sip" ++ colon :: (c.user ++ atSign :: c.authority)
    let x := address ++ closeAngle :: params c
    x.takeWhile (· ≠ closeAngle) = address ∧ (x.dropWhile (· ≠ closeAngle)).tail = params c := by
  intro address x
  have haddress : ∀ b ∈ address, decide (b ≠ closeAngle) = true := by
    intro b hb
    refine decide_eq_true ?_
    rintro rfl
    simp only [address, List.mem_append, List.mem_cons] at hb
    rcases hb with hb | hb | hb | hb | hb
    · exact absurd hb (by decide)
    · exact absurd hb (by decide)
    · exact huser hb
    · exact absurd hb (by decide)
    · exact hauthority hb
  constructor
  · rw [List.takeWhile_append_of_pos haddress, List.takeWhile_cons_of_neg (by simp),
      List.append_nil]
  · rw [List.dropWhile_append_of_pos haddress, List.dropWhile_cons_of_neg (by simp)]
    rfl

/-! ### The parameters -/

theorem params_eq (c : SipConfig) : params c = semicolon :: (utf8 "auth_user" ++ equals ::
    (c.user ++ semicolon :: (utf8 "auth_pass" ++ equals ::
      (c.password ++ semicolon :: utf8 "regint=60")))) := by
  have huser : utf8 ";auth_user=" = semicolon :: (utf8 "auth_user" ++ [equals]) := rfl
  have hpass : utf8 ";auth_pass=" = semicolon :: (utf8 "auth_pass" ++ [equals]) := rfl
  have hregint : utf8 ";regint=60" = semicolon :: utf8 "regint=60" := rfl
  unfold params
  rw [huser, hpass, hregint]
  simp only [List.append_assoc, List.cons_append, List.nil_append]

theorem injects_iff (x r : Str) : Injects x (semicolon :: r) ↔ Injects x [semicolon] := by
  unfold Injects
  refine exists_congr fun name => and_congr_right fun hname => exists_congr fun t =>
    and_congr_right fun ht => and_congr_right fun _ => ?_
  have hplain := plain_of_mem hname
  rw [paramAt_inside hplain ht r, nameAt_inside hplain ht r]

theorem hidden_of_not_injects {x name : Str} (h : ¬ Injects x [semicolon])
    (hname : name ∈ parameterNames) : Hidden name x :=
  fun t ht hsuffix hat => h ⟨name, hname, t, ht, hsuffix, .inl hat⟩

theorem mem_userName : utf8 "auth_user" ∈ parameterNames := by simp [parameterNames]

theorem mem_passName : utf8 "auth_pass" ∈ parameterNames := by simp [parameterNames]

/-- A parameter that was not written is looked for in vain until the last one is reached. -/
theorem msgParamDecode_params (hu : ¬ Injects c.user [semicolon])
    (hp : ¬ Injects c.password [semicolon]) {name : Str} (hname : name ∈ parameterNames)
    (huser : name ≠ utf8 "auth_user") (hpass : name ≠ utf8 "auth_pass") :
    msgParamDecode (params c) name = msgParamDecode (utf8 ";regint=60") name := by
  have hplain := plain_of_mem hname
  rw [params_eq, msgParamDecode_other hplain (plain_of_mem mem_userName) huser
    (hidden_of_not_injects hu hname), msgParamDecode_other hplain (plain_of_mem mem_passName) hpass
    (hidden_of_not_injects hp hname)]
  rfl

theorem msgParamDecode_authUser (hu : ¬ Injects c.user [semicolon])
    (hp : ¬ Injects c.password [semicolon]) :
    msgParamDecode (params c) (utf8 "auth_user") = some c.user ↔ Whole c.user := by
  have hplain := plain_of_mem mem_userName
  rw [params_eq]
  refine msgParamDecode_own hplain (hidden_of_not_injects hu mem_userName) ?_
  rw [msgParamDecode_other hplain (plain_of_mem mem_passName) (by decide)
    (hidden_of_not_injects hp mem_userName)]
  decide

theorem msgParamDecode_authPass (hu : ¬ Injects c.user [semicolon])
    (hp : ¬ Injects c.password [semicolon]) :
    msgParamDecode (params c) (utf8 "auth_pass") = some c.password ↔ Whole c.password := by
  have hplain := plain_of_mem mem_passName
  rw [params_eq, msgParamDecode_other hplain (plain_of_mem mem_userName) (by decide)
    (hidden_of_not_injects hu mem_passName)]
  refine msgParamDecode_own hplain (hidden_of_not_injects hp mem_passName) ?_
  decide

theorem found_params (hu : ¬ Injects c.user [semicolon]) (hp : ¬ Injects c.password [semicolon]) :
    otherNames.filterMap (found (params c)) = [] := by
  have hnone : ∀ name ∈ otherNames, msgParamDecode (utf8 ";regint=60") name = none := by
    decide +kernel
  have hown : ∀ name ∈ otherNames, name ≠ utf8 "auth_user" ∧ name ≠ utf8 "auth_pass" := by
    decide +kernel
  rw [List.filterMap_eq_nil_iff]
  intro name hname
  have hmem : name ∈ parameterNames := List.mem_append_right _ hname
  refine found_eq_none ?_ ?_
  · rw [msgParamDecode_params hu hp hmem (hown name hname).1 (hown name hname).2]
    exact hnone name hname
  · rintro rfl
    have hplain := plain_of_mem hmem
    have hhidden {x : Str} (h : ¬ Injects x [semicolon]) (t : Str) (ht : t ≠ []) (hin : t <:+ x) :
        ¬ NameAt (utf8 "video_codecs") (t ++ [semicolon]) :=
      fun hat => h ⟨_, hmem, t, ht, hin, .inr ⟨rfl, hat⟩⟩
    refine msgParamExists_eq_false ?_
    rw [params_eq]
    refine not_nameAt_other_value hplain (plain_of_mem mem_userName) (by decide) _ (hhidden hu) ?_
    refine not_nameAt_other_value hplain (plain_of_mem mem_passName) (by decide) _ (hhidden hp) ?_
    intro t ht hsuffix
    rcases List.suffix_cons_iff.mp hsuffix with rfl | hsuffix
    · exact not_nameAt_other hplain (by decide +kernel : Plain (utf8 "regint")) (by decide) (utf8 "60")
    · obtain ⟨b, t, rfl⟩ := List.exists_cons_of_ne_nil ht
      refine not_nameAt_of_ne_semicolon ?_ _ _
      rintro rfl
      exact absurd (hsuffix.subset List.mem_cons_self) (by decide)

/-! ### The server -/

/-- Characters that stay in the host and the port, and in the address. -/
def InAuthority (s : Str) : Prop := ∀ b ∈ s, b ≠ closeAngle ∧ hostPort.has b = true

theorem InAuthority.append {s t : Str} (hs : InAuthority s) (ht : InAuthority t) :
    InAuthority (s ++ t) := by
  intro b hb
  rcases List.mem_append.mp hb with h | h
  · exact hs b h
  · exact ht b h

theorem digits_inAuthority {digits : Str} (h : Digits digits) :
    InAuthority ([colon] ++ digits) := by
  intro b hb
  rcases List.mem_append.mp hb with hb | hb
  · rw [List.mem_singleton.mp hb]
    decide
  · have hrange := h b hb
    refine ⟨?_, (hostPort_has b).mpr fun hmem => ?_⟩
    · rintro rfl
      exact absurd hrange (by decide)
    · have hmem : b ∈ [(47 : UInt8), 59, 63, 32] := hmem
      simp only [List.mem_cons, List.not_mem_nil, or_false] at hmem
      rcases hmem with rfl | rfl | rfl | rfl <;> exact absurd hrange (by decide)

theorem inAuthority_bracketed {host digits : Str} (hhost : InAuthority host)
    (hdigits : Digits digits) :
    InAuthority ([openBracket] ++ host ++ [closeBracket] ++ colon :: digits) := by
  have hopen : InAuthority [openBracket] := by
    intro b hb
    rw [List.mem_singleton.mp hb]
    decide
  have hclose : InAuthority [closeBracket] := by
    intro b hb
    rw [List.mem_singleton.mp hb]
    decide
  exact ((hopen.append hhost).append hclose).append (digits_inAuthority hdigits)

theorem hexOrColon_inAuthority {host : Str} (h : ∀ b ∈ host, hexOrColon.has b = true) :
    InAuthority host := by
  intro b hb
  have hhex := h b hb
  refine ⟨?_, (hostPort_has b).mpr fun hmem => ?_⟩
  · rintro rfl
    exact absurd hhex (by decide)
  · have hmem : b ∈ [(47 : UInt8), 59, 63, 32] := hmem
    simp only [List.mem_cons, List.not_mem_nil, or_false] at hmem
    rcases hmem with rfl | rfl | rfl | rfl <;> exact absurd hhex (by decide)

theorem authority_plain (hcolon : colon ∉ c.server) :
    c.authority = c.server ++ colon :: decimal c.port := by
  unfold SipConfig.authority
  rw [if_neg hcolon, List.append_assoc, List.singleton_append]

theorem authority_own (hcolon : colon ∈ c.server) : c.authority = c.server := if_pos hcolon

theorem Names.inAuthority {host : Str} {port : Int} (h : Names c.server c.port host port)
    (hport : 0 ≤ port) (hhost : InAuthority host) : InAuthority c.authority := by
  cases h with
  | plain hcolon =>
    rw [authority_plain hcolon]
    obtain ⟨n, hn⟩ := Int.eq_ofNat_of_zero_le hport
    rw [hn]
    exact hhost.append (digits_inAuthority (digits_decimal n))
  | own _ digits hserver hcolon hdigits =>
    rw [authority_own (by rw [hserver]; simp), hserver]
    exact hhost.append (digits_inAuthority hdigits)
  | bracketed _ digits hserver hdigits =>
    rw [authority_own (by rw [hserver]; simp), hserver]
    exact inAuthority_bracketed hhost hdigits

/-- Decoding the authority to what it names takes an account that locates a host. -/
theorem Names.locates {host text : Str} {port : Int} (h : Names c.server c.port host port)
    (hport : 0 ≤ port) (hlt : port < 65536) (hhost : InAuthority host)
    (hdecode : uriDecodeHostport c.authority = some (host, text)) :
    Locates c.server c.port := by
  have hne := (uriDecodeHostport_mem hdecode).1
  have hname (digits : Str) (hdigits : Digits digits) (hcolon : colon ∉ host)
      (hauthority : c.authority = host ++ colon :: digits) : HostName host := by
    rw [hauthority] at hdecode
    exact ⟨hne, fun b hb => ⟨fun heq => hcolon (heq ▸ hb), hhost b hb⟩,
      unbracketed_of_decode hdigits hdecode⟩
  cases h with
  | plain hcolon =>
    obtain ⟨n, hn⟩ := Int.eq_ofNat_of_zero_le hport
    refine .plain (hname (decimal n) (digits_decimal n) hcolon ?_) hport hlt
    rw [authority_plain hcolon, hn]
  | own _ digits hserver hcolon hdigits hdigits' =>
    refine .own host digits hserver (hname digits hdigits hcolon ?_) hdigits hdigits' (by omega)
    rw [authority_own (by rw [hserver]; simp), hserver]
  | bracketed _ digits hserver hdigits hdigits' =>
    rw [authority_own (by rw [hserver]; simp), hserver] at hdecode
    obtain ⟨-, hhex⟩ := address_of_decode hdigits hdecode
    exact .bracketed host digits hserver hne hhex hdigits hdigits' (by omega)

theorem Locates.names (h : Locates c.server c.port) : ∃ host digits,
    uriDecodeHostport c.authority = some (host, digits) ∧
      Names c.server c.port host (portOf digits) ∧ InAuthority c.authority := by
  cases h with
  | plain hhost hport hlt =>
    have hcolon : colon ∉ c.server := fun hmem => (hhost.has colon hmem).1 rfl
    obtain ⟨n, hn⟩ := Int.eq_ofNat_of_zero_le hport
    have hvalue : portOf (decimal n) = n := by
      rw [portOf_eq (digits_decimal n) (decimal_ne_nil n) (by rw [value_decimal]; omega),
        value_decimal]
    have hnames : Names c.server c.port c.server (portOf (decimal n)) := by
      rw [hvalue, ← hn]
      exact .plain hcolon
    refine ⟨c.server, decimal n, ?_, hnames, ?_⟩
    · rw [authority_plain hcolon, hn]
      exact uriDecodeHostport_plain hcolon hhost.ne_nil (digits_decimal n) hhost.unbracketed
    · exact hnames.inAuthority (Int.natCast_nonneg _) fun b hb => (hhost.has b hb).2
  | own host digits hserver hhost hdigits hdigits' hlt =>
    have hcolon : colon ∉ host := fun hmem => (hhost.has colon hmem).1 rfl
    have hnames : Names c.server c.port host (portOf digits) := by
      rw [portOf_eq hdigits hdigits' hlt]
      exact .own host digits hserver hcolon hdigits hdigits'
    refine ⟨host, digits, ?_, hnames, ?_⟩
    · rw [authority_own (by rw [hserver]; simp), hserver]
      exact uriDecodeHostport_plain hcolon hhost.ne_nil hdigits hhost.unbracketed
    · exact hnames.inAuthority (Int.natCast_nonneg _) fun b hb => (hhost.has b hb).2
  | bracketed host digits hserver hne hhex hdigits hdigits' hlt =>
    have hnames : Names c.server c.port host (portOf digits) := by
      rw [portOf_eq hdigits hdigits' hlt]
      exact .bracketed host digits hserver hdigits hdigits'
    refine ⟨host, digits, ?_, hnames, ?_⟩
    · rw [authority_own (by rw [hserver]; simp), hserver]
      exact uriDecodeHostport_bracketed hhex hne hdigits
    · exact hnames.inAuthority (Int.natCast_nonneg _) (hexOrColon_inAuthority hhex)

/-! ### There and back -/

theorem not_injects_user : ¬ Injects c.user [semicolon] ↔
    ¬ Injects c.user (utf8 ";auth_pass=" ++ c.password ++ utf8 ";regint=60") := by
  have hfront : utf8 ";auth_pass=" = semicolon :: utf8 "auth_pass=" := rfl
  rw [hfront, List.cons_append, List.cons_append]
  exact not_congr (injects_iff c.user _).symm

theorem not_injects_password : ¬ Injects c.password [semicolon] ↔
    ¬ Injects c.password (utf8 ";regint=60") :=
  not_congr (injects_iff c.password (utf8 "regint=60")).symm

theorem sipAddrDecode_of_authority {host digits : Str}
    (huser : ∀ b ∈ c.user, b ≠ colon ∧ b ≠ atSign ∧ b ≠ closeAngle)
    (hauthority : InAuthority c.authority)
    (hdecode : uriDecodeHostport c.authority = some (host, digits)) :
    sipAddrDecode c.buildAor = some ⟨[], utf8 "sip" ++ colon :: (c.user ++ atSign :: c.authority),
      params c, ⟨utf8 "sip", c.user, [], host, portOf digits, [], [], []⟩⟩ := by
  have hne : c.authority ≠ [] := by
    obtain ⟨hhost, hmem⟩ := uriDecodeHostport_mem hdecode
    obtain ⟨b, host, rfl⟩ := List.exists_cons_of_ne_nil hhost
    exact List.ne_nil_of_mem (hmem b List.mem_cons_self)
  obtain ⟨haddress, hparams⟩ := address_eq (c := c) (fun hmem => (huser _ hmem).2.2 rfl)
    fun hmem => (hauthority _ hmem).1 rfl
  rw [sipAddrDecode_buildAor]
  simp only [haddress, hparams]
  rw [uriDecode_eq (by decide) (by decide) (fun b hb => ⟨(huser b hb).1, (huser b hb).2.1⟩)
    (fun b hb => (hauthority b hb).2) hne hdecode]
  rfl

theorem ne_closeAngle_of_mem {b : UInt8} {x : Str} (h : b ∈ x.takeWhile (· ≠ closeAngle)) :
    b ≠ closeAngle :=
  of_decide_eq_true (List.mem_takeWhile_imp (p := fun b => decide (b ≠ closeAngle)) h)

theorem representable_of_roundTrips (h : RoundTrips isFile c c.buildAor) : Representable c := by
  obtain ⟨⟨acc, halloc, hmatches⟩, huser', hpassword'⟩ := h
  rw [← not_injects_user] at huser'
  rw [← not_injects_password] at hpassword'
  obtain ⟨haddr, -, hauthUser, hauthPass, -, -⟩ := accountAlloc_eq_some.mp halloc
  rw [sipAddrDecode_buildAor] at haddr
  obtain ⟨uri, huri, hladdr⟩ := Option.map_eq_some_iff.mp haddr
  have hne : c.user ≠ [] := by
    intro hnil
    rw [hmatches.authUser, hnil] at hauthUser
    exact msgParamDecode_ne_nil _ _ hauthUser.symm
  have huriUser : uri.user = c.user := by
    rw [← hmatches.user, ← hladdr]
  obtain ⟨huser, hostport, port, hhostport, hdecode, hport⟩ :=
    uriDecode_cases huri (huriUser ▸ hne)
  have hchars (b : UInt8) (hb : b ∈ c.user) : b ≠ colon ∧ b ≠ atSign ∧ b ≠ closeAngle := by
    obtain ⟨hcolon, hat, hmem⟩ := huser b (huriUser ▸ hb)
    exact ⟨hcolon, hat, ne_closeAngle_of_mem hmem⟩
  have hhost : InAuthority uri.host := by
    intro b hb
    obtain ⟨hhas, hmem⟩ := hhostport b ((uriDecodeHostport_mem hdecode).2 b hb)
    exact ⟨ne_closeAngle_of_mem hmem, hhas⟩
  have hnames : Names c.server c.port uri.host uri.port := by
    have hserver := hmatches.server
    rw [← hladdr] at hserver
    exact hserver
  have hauthority := hnames.inAuthority (Int.natCast_nonneg _) hhost
  -- with these characters the whole address is decoded, and the authority is in its place
  obtain ⟨haddress, hparams⟩ := address_eq (c := c) (fun hmem => (hchars _ hmem).2.2 rfl)
    fun hmem => (hauthority _ hmem).1 rfl
  have hwith := decodeWithUser_of_user huri (huriUser ▸ hne)
  have hne' : c.authority ≠ [] := by
    unfold SipConfig.authority
    split
    next hcolon => exact List.ne_nil_of_mem hcolon
    next => simp
  simp only [haddress] at hwith
  rw [decodeWithUser_eq (by decide) (by decide) (fun b hb => ⟨(hchars b hb).1, (hchars b hb).2.1⟩)
    (fun b hb => (hauthority b hb).2) hne'] at hwith
  obtain ⟨⟨host, text⟩, hauthority', heq⟩ := Option.map_eq_some_iff.mp hwith
  have hlt : (uri.port : Int) < 65536 := by
    have hlt := portOf_lt port
    rw [hport]
    omega
  rw [← heq] at hnames hhost hlt
  have hladdr' : acc.laddr.params = params c := by
    rw [← hladdr]
    exact hparams
  rw [hladdr'] at hauthUser hauthPass
  exact
    { user := hchars
      wholeUser := (msgParamDecode_authUser huser' hpassword').mp
        (hauthUser ▸ hmatches.authUser)
      wholePassword := (msgParamDecode_authPass huser' hpassword').mp
        (hauthPass ▸ hmatches.authPass)
      hiddenUser := huser'
      hiddenPassword := hpassword'
      server := hnames.locates (Int.natCast_nonneg _) hlt hhost hauthority' }

theorem roundTrips_of_representable (h : Representable c) : RoundTrips isFile c c.buildAor := by
  obtain ⟨host, digits, hdecode, hnames, hauthority⟩ := h.server.names
  have haddr := sipAddrDecode_of_authority h.user hauthority hdecode
  have hregint : msgParamDecode (params c) (utf8 "regint") = some (utf8 "60") := by
    rw [msgParamDecode_params h.hiddenUser h.hiddenPassword (by simp [parameterNames]) (by decide)
      (by decide)]
    decide
  refine ⟨⟨⟨_, some 60, some c.user, some c.password, []⟩, accountAlloc_eq_some.mpr
    ⟨haddr, ?_, ?_, ?_, ?_, rfl⟩, ⟨rfl, hnames, rfl, rfl, rfl, rfl⟩⟩,
    not_injects_user.mp h.hiddenUser, not_injects_password.mp h.hiddenPassword⟩
  · change some 60 = (msgParamDecode (params c) (utf8 "regint")).map plU32
    rw [hregint]
    decide
  · exact ((msgParamDecode_authUser h.hiddenUser h.hiddenPassword).mpr h.wholeUser).symm
  · exact ((msgParamDecode_authPass h.hiddenUser h.hiddenPassword).mpr h.wholePassword).symm
  · exact (found_params h.hiddenUser h.hiddenPassword).symm

/-! ### Ordinary values -/

theorem whole_of_ordinary {x : Str} (hne : x ≠ []) (hx : ∀ b ∈ x, b ∉ utf8 " \t\r\n;\"\\") :
    Whole x := by
  have hvalue (b : UInt8) (hb : b ∈ x) : b ≠ backslash ∧ b ≠ quote ∧ valueClass.has b = true := by
    have hnot : b ∉ [(32 : UInt8), 9, 13, 10, 59, 34, 92] := hx b hb
    simp only [List.mem_cons, List.not_mem_nil, or_false, not_or] at hnot
    refine ⟨hnot.2.2.2.2.2.2, hnot.2.2.2.2.2.1, (except_has_iff (by decide +kernel) b).mpr ?_⟩
    change b ∉ [(32 : UInt8), 9, 13, 10, 59]
    simp only [List.mem_cons, List.not_mem_nil, or_false, not_or]
    exact ⟨hnot.1, hnot.2.1, hnot.2.2.1, hnot.2.2.2.1, hnot.2.2.2.2.1⟩
  refine ⟨hne, ?_, ?_⟩
  · clear hx hne
    induction x with
    | nil => rfl
    | cons b x ih =>
      obtain ⟨hbackslash, hquote, hhas⟩ := hvalue b List.mem_cons_self
      have hbyte : scanByte false false b = some (false, false) := by
        unfold scanByte
        rw [if_neg Bool.false_ne_true, if_neg hbackslash, if_neg hquote, hhas, Bool.or_true,
          if_pos rfl]
      rw [scan_cons, hbyte]
      exact ih fun d hd => hvalue d (List.mem_cons_of_mem b hd)
  · refine if_neg fun h => ?_
    exact (hvalue quote (List.mem_of_mem_head? h.2.1)).2.1 rfl

theorem not_injects_of_ordinary {x : Str} (hx : semicolon ∉ x) : ¬ Injects x [semicolon] := by
  rintro ⟨name, -, t, ht, hsuffix, hat⟩
  obtain ⟨b, t, rfl⟩ := List.exists_cons_of_ne_nil ht
  have hb : b ≠ semicolon := by
    rintro rfl
    exact hx (hsuffix.subset List.mem_cons_self)
  rcases hat with h | ⟨-, h⟩
  · exact not_paramAt_of_ne_semicolon hb name _ h
  · exact not_nameAt_of_ne_semicolon hb name _ h

/-- Without blanks, quotes, backslashes and delimiters in its user and its password an
account is representable, wherever its server is found. -/
theorem representable_of_ordinary (huser : c.user ≠ [])
    (huser' : ∀ b ∈ c.user, b ∉ utf8 " \t\r\n;\"\\:@>") (hpassword : c.password ≠ [])
    (hpassword' : ∀ b ∈ c.password, b ∉ utf8 " \t\r\n;\"\\")
    (hserver : Locates c.server c.port) : Representable c where
  user b hb := by
    have hnot : b ∉ [(32 : UInt8), 9, 13, 10, 59, 34, 92, colon, atSign, closeAngle] := huser' b hb
    simp only [List.mem_cons, List.not_mem_nil, or_false, not_or] at hnot
    exact hnot.2.2.2.2.2.2.2
  wholeUser := whole_of_ordinary huser fun b hb hmem =>
    huser' b hb (List.mem_append_left [colon, atSign, closeAngle] hmem)
  wholePassword := whole_of_ordinary hpassword hpassword'
  hiddenUser := not_injects_of_ordinary fun hmem => absurd (huser' semicolon hmem) (by decide)
  hiddenPassword := not_injects_of_ordinary fun hmem => absurd (hpassword' semicolon hmem) (by decide)
  server := hserver

/-! ### The strings -/

theorem modifiedUtf8Encode_toString (joined : Bool) (i : Int) :
    modifiedUtf8Encode joined (toString i).toList = decimal i := by
  rw [← utf8_toString]
  refine modifiedUtf8Encode_of_common fun d hd => ?_
  have hdigit (n : Nat) (hd : d ∈ Nat.toDigits 10 n) : Common joined d := by
    have hrange : 48 ≤ d.toNat ∧ d.toNat ≤ 57 := by
      simpa [Char.isDigit, UInt32.le_iff_toNat_le] using
        Nat.isDigit_of_mem_toDigits (by decide) (by decide) hd
    refine ⟨by omega, ?_⟩
    rw [decide_eq_true (by omega), Bool.or_true]
  cases i with
  | ofNat n =>
    change d ∈ n.repr.toList at hd
    rw [Nat.toList_repr] at hd
    exact hdigit n hd
  | negSucc n =>
    change d ∈ ("-" ++ (n + 1).repr).toList at hd
    rw [String.toList_append, Nat.toList_repr] at hd
    rcases List.mem_cons.mp hd with rfl | hd
    · cases joined <;> decide
    · exact hdigit (n + 1) hd

theorem colon_mem_modifiedUtf8Encode (joined : Bool) (cs : List Char) :
    colon ∈ modifiedUtf8Encode joined cs ↔ ':' ∈ cs := by
  have hchar (d : Char) : colon ∈ modifiedUtf8EncodeChar joined d ↔ d = ':' := by
    rw [mem_modifiedUtf8EncodeChar_ascii (by decide) (by decide)]
    exact ⟨fun h => Char.toNat_inj.mp h, fun h => h ▸ rfl⟩
  unfold modifiedUtf8Encode
  rw [List.mem_flatMap]
  constructor
  · rintro ⟨d, hd, hmem⟩
    exact (hchar d).mp hmem ▸ hd
  · intro h
    exact ⟨':', h, (hchar ':').mpr rfl⟩

/-- The AOR that the JNI hands over is built of the bytes of the fields. -/
theorem modifiedUtf8Encode_buildAor (joined : Bool) (a : Account) :
    modifiedUtf8Encode joined a.buildAor.toList = (a.toNative joined).buildAor := by
  have hliteral : ∀ s ∈ ["<sip:", "@", ">;auth_user=", ";auth_pass=", ";regint=60", ":"],
      modifiedUtf8Encode joined s.toList = utf8 s := by
    cases joined <;> decide
  have hauthority : modifiedUtf8Encode joined (if ':' ∈ a.server.toList then a.server
      else a.server ++ ":" ++ toString a.port.toInt).toList = (a.toNative joined).authority := by
    unfold SipConfig.authority Account.toNative
    simp only [colon_mem_modifiedUtf8Encode]
    split
    · rfl
    · simp only [String.toList_append, modifiedUtf8Encode_append, modifiedUtf8Encode_toString]
      rw [hliteral ":" (by simp)]
      rfl
  unfold Account.buildAor SipConfig.buildAor
  simp only [String.toList_append, modifiedUtf8Encode_append, hauthority]
  rw [hliteral "<sip:" (by simp), hliteral "@" (by simp), hliteral ">;auth_user=" (by simp),
    hliteral ";auth_pass=" (by simp), hliteral ";regint=60" (by simp)]
  rfl

/-- An account comes back from its AOR, and nothing with it, exactly if it is representable. -/
theorem roundTrips_iff_representable (isFile : Str → Bool) (joined : Bool) (a : Account) :
    RoundTrips isFile (a.toNative joined) (modifiedUtf8Encode joined a.buildAor.toList) ↔
      Representable (a.toNative joined) := by
  rw [modifiedUtf8Encode_buildAor]
  exact ⟨representable_of_roundTrips, roundTrips_of_representable⟩

/-- A password that ends early and leaves a parameter behind, and a user that is taken for
a host. -/
theorem account_lost :
    ¬ RoundTrips (fun _ => true)
        (Account.toNative true ⟨"192.0.2.1", 5060, "203", "secret;mwi=no", "asterisk"⟩)
        (modifiedUtf8Encode true (Account.buildAor
          ⟨"192.0.2.1", 5060, "203", "secret;mwi=no", "asterisk"⟩).toList) ∧
      ¬ RoundTrips (fun _ => true)
        (Account.toNative true ⟨"192.0.2.1", 5060, "203@office", "secret", "asterisk"⟩)
        (modifiedUtf8Encode true (Account.buildAor
          ⟨"192.0.2.1", 5060, "203@office", "secret", "asterisk"⟩).toList) := by
  constructor
  · rintro ⟨⟨acc, halloc, hmatches⟩, -⟩
    have hothers : (accountAlloc (fun _ => true) (modifiedUtf8Encode true (Account.buildAor
        ⟨"192.0.2.1", 5060, "203", "secret;mwi=no", "asterisk"⟩).toList)).map (·.others) =
        some [(utf8 "mwi", utf8 "no")] := by decide +kernel
    rw [halloc, Option.map_some, hmatches.others] at hothers
    exact absurd hothers (by decide)
  · rintro ⟨⟨acc, halloc, hmatches⟩, -⟩
    have huser : (accountAlloc (fun _ => true) (modifiedUtf8Encode true (Account.buildAor
        ⟨"192.0.2.1", 5060, "203@office", "secret", "asterisk"⟩).toList)).map
          (·.laddr.uri.user) = some (utf8 "203") := by decide +kernel
    rw [halloc, Option.map_some, hmatches.user] at huser
    exact absurd huser (by decide)

end SimplePhone.Settings
