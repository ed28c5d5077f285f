import SimplePhone.Re.SdpText
import SimplePhone.Settings.RoundTrip

/-! An offer at the other side: what `sdp_encode` writes `sdp_decode` reads, and the answer to it
names what was offered. -/
namespace SimplePhone.Re

open Settings (digits_decimal decimal_ne_nil)

/-! ### Expressions -/

/-- Text that only a blank ends. -/
def Word (s : Str) : Prop := s ≠ [] ∧ ∀ b ∈ s, b ≠ 32

instance (s : Str) : Decidable (Word s) := inferInstanceAs (Decidable (_ ∧ _))

instance (l : SdpLine) : Decidable (Bare l) := inferInstanceAs (Decidable (_ ∧ _))

theorem except_char_has {chars : String} {c : UInt8} (hchars : utf8 chars = [c]) (hc : c < 65)
    (b : UInt8) : (Class.except chars).has b = true ↔ b ≠ c := by
  have hsmall : ∀ c' ∈ utf8 chars, c' < 65 := by
    intro c' hc'
    rw [hchars] at hc'
    rw [List.mem_singleton.mp hc']
    exact hc
  rw [except_has_iff hsmall, hchars]
  exact not_congr List.mem_singleton

theorem Word.has {s : Str} (h : Word s) : ∀ b ∈ s, (Class.except " ").has b = true :=
  fun b hb => (except_char_has rfl (by decide) b).mpr (h.2 b hb)

theorem except_blank : (Class.except " ").has 32 = false := by decide

theorem Digits.word {s : Str} (h : Digits s) (hs : s ≠ []) : Word s := by
  refine ⟨hs, ?_⟩
  rintro b hb rfl
  exact absurd (h 32 hb).1 (by decide)

theorem word_decimal (n : Nat) : Word (decimal n) := (digits_decimal n).word (decimal_ne_nil n)

theorem run_word {items : List Item} {n : Count} {s t : Str} (hs : Word s) :
    run (.cls (.except " ") n :: items) (s ++ 32 :: t) = (run items (32 :: t)).cons s := by
  refine run_cls_append rfl hs.has ?_ fun _ => hs.1
  rintro _ ⟨⟩
  exact except_blank

theorem run_anything (s : Str) : run [.cls anything .star] s = .matched [s] [] :=
  run_cls_all rfl (fun b _ => anything_has b) nofun

theorem reRegex_mediaItems {name port proto fmtv : Str} (hname : name ≠ [])
    (hletters : ∀ b ∈ name, letter.has b = true) (hport : Word port) (hproto : Word proto)
    (hfmtv : ∀ b ∈ fmtv.head?, b = 32) :
    reRegex mediaItems (name ++ blank1 ++ port ++ blank1 ++ proto ++ fmtv) =
      some ([name, port, proto, fmtv], []) := by
  have hassoc : name ++ blank1 ++ port ++ blank1 ++ proto ++ fmtv =
      name ++ 32 :: (port ++ 32 :: (proto ++ fmtv)) := by
    simp only [List.append_assoc]
    rfl
  have hblank : ∀ b ∈ (32 :: (port ++ 32 :: (proto ++ fmtv))).head?, letter.has b = false := by
    rintro _ ⟨⟩
    decide
  have hend : ∀ b ∈ fmtv.head?, (Class.except " ").has b = false := by
    intro b hb
    rw [hfmtv b hb]
    exact except_blank
  rw [hassoc]
  refine reRegex_of_matched (by simp) ?_
  unfold mediaItems
  rw [run_cls_append rfl hletters hblank fun _ => hname, run_chr, if_pos rfl, run_word hport,
    run_chr, if_pos rfl, run_cls_append rfl hproto.has hend fun _ => hproto.1,
    run_anything]
  rfl

/-- Formats are written with a blank before each. -/
def spaced (fmts : List Str) : Str := fmts.flatMap (blank1 ++ ·)

theorem spaced_head (fmts : List Str) : ∀ b ∈ (spaced fmts).head?, b = 32 := by
  cases fmts with
  | nil => nofun
  | cons fmt fmts =>
    rintro _ ⟨⟩
    rfl

theorem length_le_spaced (fmts : List Str) : fmts.length ≤ (spaced fmts).length := by
  induction fmts with
  | nil => exact Nat.le_refl 0
  | cons fmt fmts ih =>
    have hlength : (spaced (fmt :: fmts)).length = 1 + fmt.length + (spaced fmts).length := by
      unfold spaced
      rw [List.flatMap_cons, List.length_append, List.length_append]
      rfl
    rw [hlength, List.length_cons]
    omega

theorem fmtIds_spaced {fmts : List Str} (h : ∀ fmt ∈ fmts, Word fmt) {n : Nat}
    (hn : fmts.length ≤ n) : fmtIds n (spaced fmts) = fmts := by
  induction fmts generalizing n with
  | nil => cases n <;> rfl
  | cons fmt fmts ih =>
    have hfmt := h fmt (List.mem_cons_self ..)
    have hend : ∀ b ∈ (spaced fmts).head?, (Class.except " ").has b = false := by
      intro b hb
      rw [spaced_head fmts b hb]
      exact except_blank
    have hmatch : reRegex fmtItems (spaced (fmt :: fmts)) = some ([fmt], spaced fmts) := by
      change reRegex fmtItems (32 :: (fmt ++ spaced fmts)) = _
      refine reRegex_of_matched (List.cons_ne_nil _ _) ?_
      unfold fmtItems
      rw [run_chr, if_pos rfl, run_cls_append rfl hfmt.has hend fun _ => hfmt.1]
      rfl
    cases n with
    | zero => exact absurd hn (Nat.not_succ_le_zero _)
    | succ n =>
      unfold fmtIds
      rw [hmatch]
      simp only
      rw [ih (fun fmt hfmt => h fmt (List.mem_cons_of_mem _ hfmt)) (Nat.le_of_succ_le_succ hn)]

/-! ### Attributes -/

theorem attrSplit_attrLine {name val : Str} (hname : name ≠ []) (hcolon : colon ∉ name)
    (hval : val ≠ []) : SdpCursor.attrSplit (attrLine name val).2 = (name, val) := by
  have hhas : ∀ b ∈ name, notColon.has b = true :=
    fun b hb => (notColon_has b).mpr fun heq => hcolon (heq ▸ hb)
  have hend : ∀ b ∈ (colon :: val).head?, notColon.has b = false := by
    rintro _ ⟨⟩
    decide
  have hmatch : reRegex attrItems (name ++ colon :: val) = some ([name, val], []) := by
    refine reRegex_of_matched (by simp) ?_
    unfold attrItems
    rw [run_cls_append rfl hhas hend fun _ => hname, run_chr, if_pos rfl,
      run_cls_all rfl (fun b _ => anything_has b) fun _ => hval]
    rfl
  unfold SdpCursor.attrSplit attrLine
  simp only [hmatch]

theorem attrSplit_bare {s : Str} (h : colon ∉ s) : SdpCursor.attrSplit s = (s, []) := by
  have hmatch : reRegex attrItems s = none := by
    cases s with
    | nil => rfl
    | cons b s =>
      have hhas : ∀ b' ∈ b :: s, notColon.has b' = true :=
        fun b' hb' => (notColon_has b').mpr fun heq => h (heq ▸ hb')
      have hrun : run attrItems (b :: s) = .stop := by
        unfold attrItems
        rw [run_cls_all rfl hhas fun _ => List.cons_ne_nil b s]
        rfl
      simp only [reRegex, hrun]
  unfold SdpCursor.attrSplit
  simp only [hmatch]

/-- A line that is taken, whatever came before it. -/
def Readable [Inet] (l : SdpLine) : Prop :=
  ∀ c : SdpCursor, c.next = [] →
    (c.line true l.1 l.2).2 = 0 ∧ (c.line true l.1 l.2).1.next = []

namespace SdpCursor

theorem readLines_readable [Inet] {ls : List SdpLine} (h : ∀ l ∈ ls, Readable l) {c : SdpCursor}
    (hc : c.next = []) : (c.readLines true ls).2 = 0 := by
  induction ls generalizing c with
  | nil => rfl
  | cons l ls ih =>
    obtain ⟨type, val⟩ := l
    have hline := h (type, val) (List.mem_cons_self ..) c hc
    simp only at hline
    rw [readLines_cons]
    generalize c.line true type val = r at hline
    obtain ⟨c', err⟩ := r
    obtain ⟨rfl, hnext⟩ := hline
    exact ih (fun l hl => h l (List.mem_cons_of_mem _ hl)) hnext

theorem onMedia_ok {f : SdpMedia → SdpMedia × Nat} (hf : ∀ m, (f m).2 = 0) (c : SdpCursor) :
    (c.onMedia f).2 = 0 := by
  unfold onMedia
  split
  · rfl
  · exact hf _

theorem attrApply_other {name : Str} (h : name ∉ [utf8 "fmtp", utf8 "rtcp", utf8 "rtpmap"])
    (val : Str) (c : SdpCursor) : (c.attrApply name val).2 = 0 := by
  simp only [List.mem_cons, List.not_mem_nil, or_false, not_or] at h
  obtain ⟨hfmtp, hrtcp, hrtpmap⟩ := h
  unfold attrApply
  rw [if_neg hfmtp, if_neg hrtcp, if_neg hrtpmap]
  split
  · rfl
  split
  · rfl
  split
  · rfl
  split
  · rfl
  · rfl

theorem attrApply_fmtp (val : Str) (c : SdpCursor) :
    c.attrApply (utf8 "fmtp") val = c.onMedia (SdpMedia.attrDecodeFmtp val) := if_pos rfl

theorem attrApply_rtcp (val : Str) (c : SdpCursor) :
    c.attrApply (utf8 "rtcp") val = c.attrDecodeRtcp val := by
  unfold attrApply
  rw [if_neg (by decide), if_neg (by decide), if_neg (by decide),
    if_pos rfl]

theorem attrApply_rtpmap (val : Str) (c : SdpCursor) :
    c.attrApply (utf8 "rtpmap") val = c.onMedia (SdpMedia.attrDecodeRtpmap val) := by
  unfold attrApply
  rw [if_neg (by decide), if_neg (by decide), if_neg (by decide),
    if_neg (by decide), if_pos rfl]

end SdpCursor

theorem readable_of_type [Inet] {type : UInt8} {val : Str} (htype : type ≠ 109)
    (h : ∀ c : SdpCursor, (c.line true type val).2 = 0) : Readable (type, val) := by
  intro c hc
  have hkept := SdpCursor.line_kept htype val c
  exact ⟨h c, hkept.next.trans hc⟩

theorem readable_attr [Inet] {val name val' : Str}
    (hsplit : SdpCursor.attrSplit val = (name, val'))
    (h : ∀ c : SdpCursor, (c.attrApply name val').2 = 0) : Readable (97, val) := by
  refine readable_of_type (by decide) ?_
  intro c
  unfold SdpCursor.line SdpCursor.attrDecode
  rw [if_pos rfl, hsplit]
  exact h c

/-- An attribute of another kind than those with a syntax. -/
def Other (a : Str × Option Str) : Prop :=
  (SdpCursor.attrSplit (attrPrint a).2).1 ∉ [utf8 "fmtp", utf8 "rtcp", utf8 "rtpmap"]

theorem Other.readable [Inet] {a : Str × Option Str} (h : Other a) : Readable (attrPrint a) := by
  have hattr : Readable (97, (attrPrint a).2) := by
    apply readable_attr rfl
    intro c
    exact SdpCursor.attrApply_other h _ c
  obtain ⟨name, val⟩ := a
  cases val with
  | none => exact hattr
  | some val => exact hattr

theorem rtpmapValue_ne_nil (fmt : SdpFormat) (name : Str) : rtpmapValue fmt name ≠ [] := by
  unfold rtpmapValue blank1
  simp

theorem reRegex_rtpmapItems {fmt : SdpFormat} {name : Str} (hid : Word fmt.id) (hname : name ≠ [])
    (hslash : 47 ∉ name) : reRegex rtpmapItems (rtpmapValue fmt name) =
      some ([fmt.id, name, decimal fmt.srate, if 1 < fmt.ch then slash else [],
        if 1 < fmt.ch then decimal fmt.ch else []], []) := by
  have hvalue : rtpmapValue fmt name = fmt.id ++ 32 :: (name ++ 47 :: (decimal fmt.srate ++
      if 1 < fmt.ch then slash ++ decimal fmt.ch else [])) := by
    unfold rtpmapValue
    simp only [List.append_assoc]
    rfl
  have hhas : ∀ b ∈ name, (Class.except "/").has b = true := by
    intro b hb
    apply (except_char_has rfl (by decide) b).mpr
    rintro rfl
    exact hslash hb
  have hend : ∀ rest, ∀ b ∈ (47 :: rest).head?, (Class.except "/").has b = false := by
    rintro rest _ ⟨⟩
    decide
  have hdigits : ∀ b ∈ decimal fmt.srate, digit.has b = true :=
    fun b hb => digit_has.mpr (digits_decimal fmt.srate b hb)
  have hrest : run [.cls digit .plus, .cls (.of "/") .star, .cls anything .star]
      (decimal fmt.srate ++ if 1 < fmt.ch then slash ++ decimal fmt.ch else []) =
      .matched [decimal fmt.srate, if 1 < fmt.ch then slash else [],
        if 1 < fmt.ch then decimal fmt.ch else []] [] := by
    by_cases hch : 1 < fmt.ch
    · have hdigits' : ∀ b ∈ (slash ++ decimal fmt.ch).head?, digit.has b = false := by
        rintro _ ⟨⟩
        decide
      have hnot : ∀ b ∈ (decimal fmt.ch).head?, (Class.of "/").has b = false := by
        intro b hb
        have hdigit := digits_decimal fmt.ch b (List.mem_of_mem_head? hb)
        rw [Bool.eq_false_iff]
        intro hhas
        have hmem : lower b ∈ [47] := (of_has "/" b).mp hhas
        rw [lower_digit hdigit, List.mem_singleton] at hmem
        rw [hmem] at hdigit
        exact absurd hdigit.1 (by decide)
      have hone : ∀ b ∈ slash, (Class.of "/").has b = true := by
        intro b hb
        rw [List.mem_singleton.mp hb]
        decide
      rw [if_pos hch, if_pos hch, if_pos hch,
        run_cls_append rfl hdigits hdigits' fun _ => decimal_ne_nil fmt.srate,
        run_cls_append (n := .star) rfl hone hnot nofun, run_anything]
      rfl
    · rw [if_neg hch, if_neg hch, if_neg hch, List.append_nil,
        run_cls_all rfl hdigits fun _ => decimal_ne_nil fmt.srate]
      rfl
  rw [hvalue]
  refine reRegex_of_matched (by simp) ?_
  unfold rtpmapItems
  rw [run_word hid, run_chr, if_pos rfl, run_cls_append rfl hhas (hend _) fun _ => hname, run_chr,
    if_pos rfl, hrest]
  rfl

theorem readable_rtpmap [Inet] {fmt : SdpFormat} {name : Str} (hid : Word fmt.id)
    (hname : name ≠ []) (hslash : 47 ∉ name) :
    Readable (attrLine (utf8 "rtpmap") (rtpmapValue fmt name)) := by
  apply readable_attr
    (attrSplit_attrLine (by decide) (by decide) (rtpmapValue_ne_nil fmt name))
  intro c
  rw [SdpCursor.attrApply_rtpmap]
  apply SdpCursor.onMedia_ok
  intro m
  unfold SdpMedia.attrDecodeRtpmap
  simp only [reRegex_rtpmapItems hid hname hslash]

theorem reRegex_fmtpItems {id params : Str} (hid : Word id) :
    reRegex fmtpItems (id ++ blank1 ++ params) = some ([id, params], []) := by
  have hassoc : id ++ blank1 ++ params = id ++ 32 :: params := by
    rw [List.append_assoc]
    rfl
  rw [hassoc]
  refine reRegex_of_matched (by simp) ?_
  unfold fmtpItems
  rw [run_word hid, run_chr, if_pos rfl, run_anything]
  rfl

theorem readable_fmtp [Inet] {id params : Str} (hid : Word id) :
    Readable (attrLine (utf8 "fmtp") (id ++ blank1 ++ params)) := by
  have hne : id ++ blank1 ++ params ≠ [] := by simp [hid.1]
  apply readable_attr (attrSplit_attrLine (by decide) (by decide) hne)
  intro c
  rw [SdpCursor.attrApply_fmtp]
  apply SdpCursor.onMedia_ok
  intro m
  unfold SdpMedia.attrDecodeFmtp
  simp only [reRegex_fmtpItems hid]

theorem reRegex_digits (n : Nat) :
    reRegex [.cls digit .plus] (decimal n) = some ([decimal n], []) := by
  have hdigits : ∀ b ∈ decimal n, digit.has b = true :=
    fun b hb => digit_has.mpr (digits_decimal n b hb)
  refine reRegex_of_matched (decimal_ne_nil n) ?_
  rw [run_cls_all rfl hdigits fun _ => decimal_ne_nil n]
  rfl

theorem readable_rtcp [Inet] (port : Nat) : Readable (attrLine (utf8 "rtcp") (decimal port)) := by
  apply readable_attr
    (attrSplit_attrLine (by decide) (by decide) (decimal_ne_nil port))
  intro c
  rw [SdpCursor.attrApply_rtcp]
  unfold SdpCursor.attrDecodeRtcp
  apply SdpCursor.onMedia_ok
  intro m
  simp only [reRegex_digits]
  rfl

theorem dir_name_other (dir : SdpDir) :
    colon ∉ dir.name ∧ dir.name ∉ [utf8 "fmtp", utf8 "rtcp", utf8 "rtpmap"] := by
  obtain ⟨recv, send⟩ := dir
  cases recv <;> cases send <;> decide

theorem readable_dir [Inet] (dir : SdpDir) : Readable (97, dir.name) := by
  apply readable_attr (attrSplit_bare (dir_name_other dir).1)
  intro c
  exact SdpCursor.attrApply_other (dir_name_other dir).2 [] c

/-! ### What an offer is written as -/

namespace SdpMedia

/-- The formats that an offer names. -/
def offers (m : SdpMedia) : List Str :=
  if m.lfmtl.any SdpFormat.sup then ids m.lfmtl else [utf8 "0"]

/-- Nothing of the media line ends a word that it should not. -/
structure Proper (m : SdpMedia) : Prop where
  name : m.name ≠ []
  letters : ∀ b ∈ m.name, letter.has b = true
  proto : Word m.proto
  uproto : ∀ proto ∈ m.uproto, ∀ b ∈ proto, b ≠ 32
  ids : ∀ fmt ∈ m.lfmtl, Word fmt.id
  names : ∀ fmt ∈ m.lfmtl, ∀ name ∈ fmt.name, 47 ∉ name
  attrs : ∀ a ∈ m.lattrl, Other a

variable {m : SdpMedia}

theorem mediaOf_mediaLine (h : m.Proper) (port : Nat) {proto : Str} (hproto : Word proto)
    {fmts : List Str} (hfmts : ∀ fmt ∈ fmts, Word fmt) :
    mediaOf (m.mediaLine port proto fmts) = some (m.name, fmts) := by
  have hline : reRegex mediaItems (m.mediaLine port proto fmts).2 =
      some ([m.name, decimal port, proto, spaced fmts], []) :=
    reRegex_mediaItems h.name h.letters (word_decimal port) hproto (spaced_head fmts)
  have htype : (m.mediaLine port proto fmts).1 = 109 := rfl
  unfold mediaOf
  rw [if_pos htype, hline]
  simp only
  rw [fmtIds_spaced hfmts (length_le_spaced fmts)]

theorem readable_mediaLine [Inet] (h : m.Proper) (port : Nat) {proto : Str}
    (hproto : Word proto) (fmts : List Str) : Readable (m.mediaLine port proto fmts) := by
  have hmatch := reRegex_mediaItems h.name h.letters (word_decimal port) hproto
    (spaced_head fmts)
  intro c hc
  change (c.mediaDecode true (m.name ++ blank1 ++ decimal port ++ blank1 ++ proto ++
    spaced fmts)).2 = 0 ∧ (c.mediaDecode true (m.name ++ blank1 ++ decimal port ++ blank1 ++
    proto ++ spaced fmts)).1.next = []
  unfold SdpCursor.mediaDecode
  simp only [hmatch, hc, if_true]
  split
  · exact ⟨rfl, rfl⟩
  · exact ⟨rfl, rfl⟩

theorem formatLines_readable [Inet] (h : m.Proper) {fmt : SdpFormat} (hfmt : fmt ∈ m.lfmtl)
    (offer : Bool) : ∀ l ∈ m.formatLines offer fmt, l.1 = 97 ∧ Readable l := by
  have hid := h.ids fmt hfmt
  have hnames := h.names fmt hfmt
  unfold formatLines
  cases hname : fmt.name with
  | none => nofun
  | some name =>
    simp only
    split
    · nofun
    · rename_i hset
      have hne : name ≠ [] := by
        rintro rfl
        exact hset rfl
      intro l hl
      rw [List.mem_append] at hl
      rcases hl with hl | hl
      · split at hl
        · rw [List.mem_singleton.mp hl]
          exact ⟨rfl, readable_rtpmap hid hne (hnames name hname)⟩
        · cases hl
      · split at hl
        · rw [List.mem_singleton.mp hl]
          exact ⟨rfl, readable_fmtp hid⟩
        · cases hl

theorem attrPrint_type (a : Str × Option Str) : (attrPrint a).1 = 97 := by
  obtain ⟨name, val⟩ := a
  cases val <;> rfl

theorem lines_true (m : SdpMedia) (disabled : Bool) : m.lines true disabled =
    m.mediaLine m.lport m.proto (ids m.lfmtl) :: (m.lfmtl.flatMap (m.formatLines true) ++
      (if m.lportRtcp = 0 then [] else [attrLine (utf8 "rtcp") (decimal m.lportRtcp)]) ++
      [(97, (if disabled then .inactive else if true then m.ldir else m.dir : SdpDir).name)] ++
      m.lattrl.map attrPrint) := by
  have hall : (m.lfmtl.filter fun fmt => fmt.sup || true) = m.lfmtl := by
    rw [List.filter_eq_self]
    exact fun fmt _ => Bool.or_true fmt.sup
  unfold lines
  rw [hall]
  rfl

theorem lines_offer [Inet] (h : m.Proper) (disabled : Bool) : ∃ rest,
    m.lines true disabled = m.mediaLine m.lport m.proto (ids m.lfmtl) :: rest ∧
    ∀ l ∈ rest, l.1 = 97 ∧ Readable l := by
  refine ⟨_, lines_true m disabled, ?_⟩
  intro l hl
  rw [List.mem_append, List.mem_append, List.mem_append] at hl
  rcases hl with ((hl | hl) | hl) | hl
  · obtain ⟨fmt, hfmt, hl⟩ := List.mem_flatMap.mp hl
    exact formatLines_readable h hfmt true l hl
  · split at hl
    · cases hl
    · rw [List.mem_singleton.mp hl]
      exact ⟨rfl, readable_rtcp _⟩
  · rw [List.mem_singleton.mp hl]
    exact ⟨rfl, readable_dir _⟩
  · obtain ⟨a, ha, rfl⟩ := List.mem_map.mp hl
    exact ⟨attrPrint_type a, (h.attrs a ha).readable⟩

theorem offers_words (h : m.Proper) : ∀ fmt ∈ m.offers, Word fmt := by
  unfold offers
  split
  · intro id hid
    obtain ⟨fmt, hfmt, rfl⟩ := List.mem_map.mp hid
    exact h.ids fmt hfmt
  · intro id hid
    rw [List.mem_singleton.mp hid]
    exact word_decimal 0

theorem encode_offer [Inet] (h : m.Proper) : ∃ port proto rest,
    m.encode true = m.mediaLine port proto m.offers :: rest ∧ Word proto ∧
    ∀ l ∈ rest, l.1 = 97 ∧ Readable l := by
  have hproto : Word (if isset m.uproto then m.uproto.getD [] else m.proto) := by
    cases huproto : m.uproto with
    | none => exact h.proto
    | some proto =>
      cases proto with
      | nil => exact h.proto
      | cons b proto => exact ⟨List.cons_ne_nil b proto, h.uproto _ huproto⟩
  unfold encode offers
  simp only
  by_cases hsup : m.lfmtl.any SdpFormat.sup = true
  · rw [hsup]
    simp only [if_true]
    split
    · obtain ⟨rest, hlines, hrest⟩ := lines_offer h true
      exact ⟨_, _, rest, hlines, h.proto, hrest⟩
    · rw [if_neg (by rintro (hfalse | ⟨hfalse, -⟩) <;> cases hfalse)]
      obtain ⟨rest, hlines, hrest⟩ := lines_offer h false
      exact ⟨_, _, rest, hlines, h.proto, hrest⟩
  · rw [Bool.not_eq_true] at hsup
    rw [hsup]
    rw [if_neg fun hboth => Bool.false_ne_true hboth.1, if_pos (.inl rfl),
      if_neg Bool.false_ne_true]
    exact ⟨_, _, [], rfl, hproto, nofun⟩

end SdpMedia

namespace SdpSession

/-- A session whose offer can be read: nothing in it ends a word or a line that it should not. -/
structure Proper (s : SdpSession) : Prop where
  ipver : s.ipver = 4 ∨ s.ipver = 6
  laddr : Word s.laddr
  attrs : ∀ a ∈ s.lattrl, Other a
  medial : ∀ m ∈ s.offered.medial, m.Proper
  bare : ∀ l ∈ s.headLines ++ s.offered.medial.flatMap (SdpMedia.encode true), Bare l

variable {a b : SdpSession}

theorem connAddr_utf8IpV (hipver : a.ipver = 4 ∨ a.ipver = 6) (hladdr : Word a.laddr) :
    connAddr (utf8IpV a.ipver ++ a.laddr) ≠ none := by
  have hmatch : ∀ ipver : UInt8, utf8IpV a.ipver = utf8 "IN IP" ++ [ipver, 32] →
      run (connItems ipver) (utf8IpV a.ipver ++ a.laddr) = .matched [a.laddr] [] := by
    intro ipver hprint
    unfold connItems
    rw [hprint, List.append_assoc, run_literal]
    change run (.chr ipver :: .chr 32 :: [.cls (.except " ") .plus]) (ipver :: 32 :: a.laddr) = _
    rw [run_chr, if_pos rfl, run_chr, if_pos rfl, run_cls_all rfl hladdr.has fun _ => hladdr.1]
    rfl
  have hcons : utf8IpV a.ipver ++ a.laddr ≠ [] := List.append_ne_nil_of_right_ne_nil _ hladdr.1
  obtain ⟨b, pl, hpl⟩ := List.exists_cons_of_ne_nil hcons
  rw [hpl] at hmatch ⊢
  unfold connAddr
  rcases hipver with hipver | hipver
  · rw [hmatch 52 (by rw [hipver]; decide)]
    exact nofun
  · rw [hmatch 54 (by rw [hipver]; decide)]
    split <;> simp_all

theorem readable_conn [Inet] (hipver : a.ipver = 4 ∨ a.ipver = 6) (hladdr : Word a.laddr) :
    Readable (99, utf8IpV a.ipver ++ a.laddr) := by
  obtain ⟨addr, haddr⟩ := Option.ne_none_iff_exists'.mp (connAddr_utf8IpV hipver hladdr)
  refine readable_of_type (by decide) ?_
  intro c
  change (c.connDecode (utf8IpV a.ipver ++ a.laddr)).2 = 0
  unfold SdpCursor.connDecode
  rw [haddr]
  cases c.cur <;> rfl

theorem headLines_readable [Inet] (h : a.Proper) :
    ∀ l ∈ a.headLines, l.1 ≠ 109 ∧ Readable l := by
  intro l hl
  unfold headLines at hl
  simp only [List.mem_append, List.mem_cons, List.not_mem_nil, or_false] at hl
  rcases hl with (rfl | rfl | rfl | rfl | rfl) | hl
  · exact ⟨by decide, readable_of_type (by decide) fun c => rfl⟩
  · exact ⟨(by decide : (111 : UInt8) ≠ 109), readable_of_type (by decide) fun c => rfl⟩
  · exact ⟨by decide, readable_of_type (by decide) fun c => rfl⟩
  · exact ⟨(by decide : (99 : UInt8) ≠ 109), readable_conn h.ipver h.laddr⟩
  · exact ⟨by decide, readable_of_type (by decide) fun c => rfl⟩
  · obtain ⟨attr, hattr, rfl⟩ := List.mem_map.mp hl
    refine ⟨?_, (h.attrs attr hattr).readable⟩
    rw [SdpMedia.attrPrint_type]
    decide

theorem medial_readable [Inet] {ms : List SdpMedia} (h : ∀ m ∈ ms, m.Proper) :
    (∀ l ∈ ms.flatMap (SdpMedia.encode true), Readable l) ∧
    offeredMedia (ms.flatMap (SdpMedia.encode true)) = ms.map fun m => (m.name, m.offers) := by
  induction ms with
  | nil => exact ⟨nofun, rfl⟩
  | cons m ms ih =>
    have hm := h m (List.mem_cons_self ..)
    obtain ⟨hreadable, hoffered⟩ := ih fun m' hm' => h m' (List.mem_cons_of_mem _ hm')
    obtain ⟨port, proto, rest, hencode, hproto, hrest⟩ := SdpMedia.encode_offer hm
    have hnone : offeredMedia rest = [] := by
      unfold offeredMedia
      rw [List.filterMap_eq_nil_iff]
      intro l hl
      have htype : l.1 ≠ 109 := by
        rw [(hrest l hl).1]
        decide
      exact if_neg htype
    rw [List.flatMap_cons, hencode]
    constructor
    · intro l hl
      rw [List.mem_append, List.mem_cons] at hl
      rcases hl with (rfl | hl) | hl
      · exact SdpMedia.readable_mediaLine hm port hproto m.offers
      · exact (hrest l hl).2
      · exact hreadable l hl
    · have hline := SdpMedia.mediaOf_mediaLine hm port hproto (SdpMedia.offers_words hm)
      unfold offeredMedia at hnone hoffered ⊢
      rw [List.filterMap_append, List.filterMap_cons, hline, hnone, hoffered]
      rfl

theorem offeredMedia_headLines [Inet] (h : a.Proper) : offeredMedia a.headLines = [] := by
  unfold offeredMedia
  rw [List.filterMap_eq_nil_iff]
  exact fun l hl => if_neg (headLines_readable h l hl).1

theorem splitLines_offer (h : a.Proper) : splitLines none (a.encode true).1 =
    some (a.headLines ++ a.offered.medial.flatMap (SdpMedia.encode true)) :=
  splitLines_text h.bare

/-- A side that has no media lines in use yet reads any offer. -/
theorem offer_decoded [Inet] (ha : a.Proper) (hb : b.medial = []) :
    (b.decode true (a.encode true).1).2 = 0 := by
  have hreadable : ∀ l ∈ a.headLines ++ a.offered.medial.flatMap (SdpMedia.encode true),
      Readable l := by
    intro l hl
    rcases List.mem_append.mp hl with hl | hl
    · exact (headLines_readable ha l hl).2
    · exact (medial_readable ha.medial).1 l hl
  have hstart : b.start.next = [] := by
    unfold start
    rw [hb]
    rfl
  have hread := SdpCursor.readLines_readable hreadable hstart
  unfold decode read
  rw [SdpCursor.scan_split (splitLines_offer ha)]
  generalize b.start.readLines true _ = r at hread
  obtain ⟨c, err⟩ := r
  obtain rfl : err = 0 := hread
  rfl

theorem decode_offer [Inet] (ha : a.Proper) (hb : b.medial = []) :
    b.decode true (a.encode true).1 = ((b.decode true (a.encode true).1).1, 0) :=
  Prod.ext rfl (offer_decoded ha hb)

theorem decoded_answers [Inet] (ha : a.Proper) (hb : b.medial = [])
    (hfresh : ∀ m ∈ b.lmedial, m.rfmtl = []) :
    List.Forall₂ (fun m m' => Answers (m.name, m.offers) m') a.offered.medial
      (b.decode true (a.encode true).1).1.medial := by
  have hlines : b.medial.length ≤
      (offeredMedia (a.headLines ++ a.offered.medial.flatMap (SdpMedia.encode true))).length := by
    rw [hb]
    exact Nat.zero_le _
  have hanswers := answers_offer hfresh (splitLines_offer ha) hlines (decode_offer ha hb)
  have hoffered : offeredMedia (a.headLines ++ a.offered.medial.flatMap (SdpMedia.encode true)) =
      a.offered.medial.map fun m => (m.name, m.offers) := by
    have hhead := offeredMedia_headLines ha
    have hmedial := (medial_readable ha.medial).2
    unfold offeredMedia at hhead hmedial ⊢
    rw [List.filterMap_append, hhead, hmedial, List.nil_append]
  rw [hoffered, List.forall₂_map_left_iff] at hanswers
  exact hanswers

/-- An offer is read by a side that has no media lines in use yet, and the answer to it has a
line for each of it, under the same name, with formats that it names, in its order. -/
theorem offer_answered [Inet] (ha : a.Proper) (hb : b.medial = [])
    (hfresh : ∀ m ∈ b.lmedial, m.rfmtl = []) :
    ∃ b', b.decode true (a.encode true).1 = (b', 0) ∧
      List.Forall₂ (fun m m' => Answers (m.name, m.offers) m') a.offered.medial b'.medial :=
  ⟨_, decode_offer ha hb, decoded_answers ha hb hfresh⟩

/-- One side of a call, with a single codec. -/
def pcmaOnly (port : Nat) : SdpSession where
  lmedial := [{ SdpMedia.add (utf8 "audio") port (utf8 "RTP/AVP") with
    lfmtl := [⟨utf8 "8", none, none, some (utf8 "PCMA"), some 0, true, 8, 8000, 1⟩] }]
  medial := []
  lattrl := []
  laddr := utf8 "192.0.2.1"
  ipver := 4
  id := 1
  ver := 1
  rdir := .sendrecv

theorem pcmaOnly_proper : (pcmaOnly 5004).Proper where
  ipver := .inl rfl
  laddr := by decide +kernel
  attrs := nofun
  medial := by
    intro m hm
    obtain rfl := List.mem_singleton.mp hm
    exact {
      name := by decide
      letters := by decide +kernel
      proto := by decide +kernel
      uproto := nofun
      ids := by decide +kernel
      names := by decide
      attrs := nofun }
  bare := by decide +kernel

theorem pcmaOnly_fresh : ∀ m ∈ (pcmaOnly 6004).lmedial, m.rfmtl = [] := by
  intro m hm
  obtain rfl := List.mem_singleton.mp hm
  rfl

/-- A system that knows addresses of IPv4 only. -/
@[reducible]
def ipv4 : Inet where
  inetPton4 addr :=
    let parts := addr.splitOn 46
    parts.length = 4 && parts.all fun part => part = decimal (value part) ∧ value part < 256
  inetPton6 _ := false
  getaddrinfo _ := false

theorem offer_answered_pcma : ∃ b',
    @decode ipv4 true ((pcmaOnly 5004).encode true).1 (pcmaOnly 6004) = (b', 0) ∧
      List.Forall₂ (fun m m' => Answers (m.name, m.offers) m') (pcmaOnly 5004).offered.medial
        b'.medial :=
  @offer_answered _ _ ipv4 pcmaOnly_proper rfl pcmaOnly_fresh

/-! ### Rejected lines -/

/-- A rejected line has no attributes. -/
def Rejects (m : SdpMedia) : Prop := ∃ proto, m.encode false = [m.mediaLine 0 proto [utf8 "0"]]

theorem not_rejected_lines (m : SdpMedia) (disabled : Bool) (l : SdpLine) :
    m.lines false disabled ≠ [l] := by
  intro h
  have hlength := congrArg List.length h
  unfold SdpMedia.lines at hlength
  simp only [List.length_cons, List.length_append, List.length_nil] at hlength
  omega

/-- An answer rejects a line where it has no format for it, and for nothing else. -/
theorem rejects_encode {m : SdpMedia} (h : m.Declined) :
    Rejects m ↔ SdpMedia.supported m.lfmtl = [] := by
  have hnone : m.lfmtl.any SdpFormat.sup = false ↔ SdpMedia.supported m.lfmtl = [] := by
    rw [List.any_eq_false, SdpMedia.supported_eq_nil]
    exact forall₂_congr fun fmt _ => Bool.not_eq_true _ ▸ Iff.rfl
  rw [← hnone]
  unfold Rejects SdpMedia.encode
  simp only
  by_cases hsup : m.lfmtl.any SdpFormat.sup = true
  · rw [hsup]
    refine iff_of_false ?_ (Ne.symm Bool.false_ne_true)
    rintro ⟨proto, hproto⟩
    split at hproto
    · exact not_rejected_lines _ _ _ hproto
    · rename_i hopen
      split at hproto
      · rename_i hrejected
        rcases hrejected with hfalse | ⟨-, huproto⟩
        · cases hfalse
        · exact hopen ⟨rfl, .inr ⟨trivial, h huproto⟩⟩
      · exact not_rejected_lines _ _ _ hproto
  · rw [Bool.not_eq_true] at hsup
    rw [hsup]
    refine iff_of_true ?_ rfl
    rw [if_neg fun hboth => Bool.false_ne_true hboth.1, if_pos (.inl rfl)]
    exact ⟨_, rfl⟩

/-- Lines under a protocol that is not known have port zero when an offer has been read. -/
theorem read_declined [Inet] {s : SdpSession} {pl : Str} (h : (s.read true pl).2 = 0) :
    ∀ m ∈ (s.read true pl).1.medial, m.Declined := by
  unfold read at h ⊢
  simp only at h ⊢
  obtain ⟨ls, hls⟩ := SdpCursor.split_of_scan h
  rw [SdpCursor.scan_split hls] at h ⊢
  have hdeclines := @SdpCursor.readLines_declines s.start (s.start.readLines true ls).1 _ ls
  generalize s.start.readLines true ls = r at h hdeclines ⊢
  obtain ⟨c, err⟩ := r
  obtain rfl : err = 0 := h
  have hstart : s.start.Declines := by
    refine ⟨List.forall_mem_nil _, fun m hm => (Option.not_mem_none m hm).elim, ?_⟩
    intro m hm _
    obtain ⟨m', -, rfl⟩ := List.mem_map.mp hm
    rfl
  obtain ⟨hseen, hcur, hnext⟩ := hdeclines rfl hstart
  intro m hm
  change m ∈ c.seen ++ c.cur.toList ++ c.next at hm
  rw [List.mem_append, List.mem_append, Option.mem_toList] at hm
  rcases hm with (hm | hm) | hm
  · exact hseen m hm
  · exact hcur m hm
  · exact hnext m hm

theorem decode_medial [Inet] {s s' : SdpSession} {offer : Bool} {pl : Str}
    (h : s.decode offer pl = (s', 0)) : (s.read offer pl).2 = 0 ∧
      s'.medial = (s.read offer pl).1.medial.map (SdpMedia.alignFormats offer) := by
  unfold decode at h
  generalize s.read offer pl = r at h ⊢
  obtain ⟨s'', err⟩ := r
  cases err with
  | zero =>
    obtain ⟨rfl, -⟩ := Prod.mk.inj h
    exact ⟨rfl, rfl⟩
  | succ err => exact absurd (Prod.mk.inj h).2 (Nat.succ_ne_zero err)

/-- The answer to an offer that has been read rejects a line that is there for both sides where no
format of it is one of the other side's; one that is not is rejected only where nothing of it was
supported before. A protocol that is not known is no reason by itself: it makes the port zero. -/
theorem rejects_iff [Inet] {s s' : SdpSession} {pl : Str} (h : s.decode true pl = (s', 0)) :
    List.Forall₂ (fun m m' =>
      (SdpMedia.Shared m →
        (Rejects m' ↔ ∀ lfmt ∈ m.lfmtl, ∀ rfmt ∈ m.rfmtl, lfmt.cmp rfmt = false)) ∧
      (¬SdpMedia.Shared m → (Rejects m' ↔ ∀ lfmt ∈ m.lfmtl, lfmt.sup = false)))
      (s.read true pl).1.medial s'.medial := by
  obtain ⟨hread, hmedial⟩ := decode_medial h
  rw [hmedial, List.forall₂_map_right_iff, List.forall₂_same]
  intro m hm
  have hdeclined : (m.alignFormats true).Declined := by
    obtain ⟨lfmtl, rfmtl, halign, -⟩ := SdpMedia.alignFormats_eq true m
    rw [halign]
    exact read_declined hread m hm
  rw [rejects_encode hdeclined]
  refine ⟨fun hshared => SdpMedia.alignFormats_supported hshared true, fun hnot => ?_⟩
  rw [SdpMedia.alignFormats_not_shared hnot]
  exact SdpMedia.supported_eq_nil

theorem rejects_iff_pcma : ∃ b',
    @decode ipv4 true ((pcmaOnly 5004).encode true).1 (pcmaOnly 6004) = (b', 0) ∧
    List.Forall₂ (fun m m' =>
      (SdpMedia.Shared m →
        (Rejects m' ↔ ∀ lfmt ∈ m.lfmtl, ∀ rfmt ∈ m.rfmtl, lfmt.cmp rfmt = false)) ∧
      (¬SdpMedia.Shared m → (Rejects m' ↔ ∀ lfmt ∈ m.lfmtl, lfmt.sup = false)))
      (@read ipv4 true ((pcmaOnly 5004).encode true).1 (pcmaOnly 6004)).1.medial b'.medial :=
  have hdecode := @decode_offer _ (pcmaOnly 6004) ipv4 pcmaOnly_proper rfl
  ⟨_, hdecode, @rejects_iff ipv4 _ _ _ hdecode⟩

/-- Nothing is aligned where the address is the name of a host: the line is not rejected though no
format of it is known. -/
example : (@decode ipv4 true
    (utf8 "v=0\r\nc=IN IP4 example.com\r\nm=audio 5004 RTP/AVP 0\r\n")
    (pcmaOnly 6004)).1.medial.map (fun m => (m.encode false).head?) =
      [some (109, utf8 "audio 6004 RTP/AVP 8")] := by decide +kernel

end SdpSession

end SimplePhone.Re
