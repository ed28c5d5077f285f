import Mathlib.Data.List.Nodup
import SimplePhone.Re.SdpExchange

/-! The formats of an offer at the other side: what `sdp_encode` tells of each local format is
what the other side has of it as a remote one. -/
namespace SimplePhone.Re

open Settings (digits_decimal decimal_ne_nil value_decimal)

namespace SdpFormat

/-- A format as the other side hears of it. -/
def heard (fmt : SdpFormat) : SdpFormat :=
  { radd fmt.id with
    name := fmt.name
    srate := fmt.srate
    ch := fmt.ch
    params := if isset fmt.params then fmt.params else none }

/-- A format before it is aligned. -/
def unaligned (fmt : SdpFormat) : SdpFormat := { fmt with data := none, sup := false }

/-- A format with a name and with numbers that can be read again. -/
structure Exact (fmt : SdpFormat) : Prop where
  name : isset fmt.name = true
  srate : fmt.srate < 4294967296
  ch : 1 ≤ fmt.ch ∧ fmt.ch < 256

end SdpFormat

namespace SdpMedia

/-- A media line that maps each of its formats to a name. -/
structure Exact (m : SdpMedia) : Prop where
  isRtp : m.isRtp = true
  nodup : (ids m.lfmtl).Nodup
  formats : ∀ fmt ∈ m.lfmtl, fmt.Exact

/-- The payload types of the local formats, as `sdp_format_add` makes them. -/
structure Numbered (m : SdpMedia) : Prop where
  pt : ∀ fmt ∈ m.lfmtl, fmt.pt = atoi fmt.id
  distinct : (m.lfmtl.map SdpFormat.pt).Nodup

/-- A media line with the formats that codecs have been added for: each has its own static payload
type, or takes the next dynamic one. -/
inductive Built (name : Str) (port : Nat) (proto : Str) : SdpMedia → Prop
  | add : Built name port proto (.add name port proto)
  | codec {m m' : SdpMedia} {id : Option Str} {fname : Str} {srate ch : Nat} {data : Option Nat}
      {params : Option Str} (h : Built name port proto m)
      (hid : ∀ pt ∈ id.map atoi, pt < rtpDynptStart ∧ m.lformat pt = none)
      (hadd : m.formatAdd id fname srate ch data params = some m') : Built name port proto m'

/-- `add_telev_codec`, which is called after all codecs have been added. -/
def addTelevCodec (pt : Nat) (m : SdpMedia) : Option SdpMedia :=
  m.formatAdd (if (m.lformat pt).isNone then some (decimal pt) else none)
    (utf8 "telephone-event") 8000 1 none (some (utf8 "0-15"))

/-- The dynamic payload types to come are above those that are there. -/
structure Assigned (m : SdpMedia) : Prop where
  numbered : m.Numbered
  dynpt : rtpDynptStart ≤ m.dynpt
  below : ∀ fmt ∈ m.lfmtl, fmt.pt < m.dynpt

end SdpMedia

/-! ### The payload types of local formats -/

theorem atoi_decimal (n : Nat) : atoi (decimal n) = n := by
  have hdigits : ∀ b ∈ decimal n, digit.has b = true :=
    fun b hb => digit_has.mpr (digits_decimal n b hb)
  have htake : (decimal n).takeWhile digit.has = decimal n := List.takeWhile_eq_self_iff.mpr hdigits
  cases hdecimal : decimal n with
  | nil => exact absurd hdecimal (decimal_ne_nil n)
  | cons b rest =>
    have hb : 48 ≤ b.toNat ∧ b.toNat ≤ 57 :=
      digits_decimal n b (hdecimal ▸ List.mem_cons_self ..)
    have hspace : isSpace b = false := by
      unfold isSpace
      rw [decide_eq_false_iff_not]
      rintro (rfl | ⟨-, hle⟩)
      · exact absurd hb.1 (by decide)
      · have hle' : b.toNat ≤ 13 := UInt8.le_iff_toNat_le.mp hle
        omega
    unfold atoi
    rw [List.dropWhile_cons_of_neg (by rw [hspace]; exact Bool.false_ne_true)]
    rw [hdecimal] at htake
    split
    · rename_i heq
      obtain ⟨rfl, -⟩ := List.cons.inj heq
      exact absurd hb.1 (by decide)
    · rename_i heq
      obtain ⟨rfl, -⟩ := List.cons.inj heq
      exact absurd hb.1 (by decide)
    · rw [htake, ← hdecimal, value_decimal]

namespace SdpMedia

variable {m m' : SdpMedia} {id params : Option Str} {name proto : Str} {port srate ch : Nat}
  {data : Option Nat}

theorem lformat_eq_none {pt : Int} : m.lformat pt = none ↔ ∀ fmt ∈ m.lfmtl, fmt.pt ≠ pt := by
  unfold lformat
  rw [List.find?_eq_none]
  exact forall₂_congr fun fmt _ => not_congr decide_eq_true_iff

/-- A format under a payload type that is not there yet. -/
theorem Numbered.append (h : m.Numbered) {fmt : SdpFormat} (hpt : fmt.pt = atoi fmt.id)
    (hnew : m.lformat fmt.pt = none) (hlfmtl : m'.lfmtl = m.lfmtl ++ [fmt]) : m'.Numbered := by
  constructor
  · intro fmt' hfmt'
    rw [hlfmtl, List.mem_append, List.mem_singleton] at hfmt'
    rcases hfmt' with hfmt' | rfl
    · exact h.pt fmt' hfmt'
    · exact hpt
  · rw [hlfmtl, List.map_append, List.nodup_append]
    refine ⟨h.distinct, List.nodup_singleton _, ?_⟩
    intro pt hmem pt' hmem' heq
    obtain ⟨fmt', hfmt', rfl⟩ := List.mem_map.mp hmem
    rw [List.mem_singleton.mp hmem'] at heq
    exact lformat_eq_none.mp hnew fmt' hfmt' heq

/-- What `sdp_format_add` adds, and under which number. -/
theorem formatAdd_cases (hadd : m.formatAdd id name srate ch data params = some m') :
    ∃ fmt : SdpFormat, m'.lfmtl = m.lfmtl ++ [fmt] ∧ fmt.pt = atoi fmt.id ∧
      (some fmt.pt = id.map atoi ∧ m'.dynpt = m.dynpt ∨
        id = none ∧ fmt.pt = m.dynpt ∧ m'.dynpt = m.dynpt + 1) := by
  unfold formatAdd at hadd
  split at hadd
  · obtain rfl := Option.some.inj hadd
    exact ⟨_, rfl, rfl, .inl ⟨rfl, rfl⟩⟩
  · split at hadd
    · cases hadd
    · obtain rfl := Option.some.inj hadd
      exact ⟨_, rfl, rfl, .inr ⟨rfl, atoi_decimal m.dynpt, rfl⟩⟩

theorem Assigned.fresh (h : m.Assigned) : m.lformat m.dynpt = none :=
  lformat_eq_none.mpr fun fmt hfmt => Int.ne_of_lt (h.below fmt hfmt)

theorem Numbered.formatAdd (h : m.Assigned) (hid : ∀ pt ∈ id.map atoi, m.lformat pt = none)
    (hadd : m.formatAdd id name srate ch data params = some m') : m'.Numbered := by
  obtain ⟨fmt, hlfmtl, hpt, ⟨hgiven, -⟩ | ⟨-, hnext, -⟩⟩ := formatAdd_cases hadd
  · exact h.numbered.append hpt (hid _ hgiven.symm) hlfmtl
  · refine h.numbered.append hpt ?_ hlfmtl
    rw [hnext]
    exact h.fresh

theorem Built.assigned (h : Built name port proto m) : m.Assigned := by
  induction h with
  | add => exact ⟨⟨nofun, List.nodup_nil⟩, Nat.le_refl _, nofun⟩
  | @codec m m' id fname srate ch data params _ hid hadd ih =>
    have hnumbered := Numbered.formatAdd ih (fun pt hpt => (hid pt hpt).2) hadd
    have hstart := ih.dynpt
    obtain ⟨fmt, hlfmtl, -, hcase⟩ := formatAdd_cases hadd
    have hfmt : fmt.pt < m'.dynpt ∧ m.dynpt ≤ m'.dynpt := by
      rcases hcase with ⟨hgiven, hdynpt⟩ | ⟨-, hnext, hdynpt⟩
      · have hstatic := (hid _ hgiven.symm).1
        omega
      · omega
    refine ⟨hnumbered, hstart.trans hfmt.2, ?_⟩
    intro fmt' hfmt'
    rw [hlfmtl, List.mem_append, List.mem_singleton] at hfmt'
    rcases hfmt' with hfmt' | rfl
    · have hbelow := ih.below fmt' hfmt'
      omega
    · exact hfmt.1

/-- The formats of a line that has been built are told apart by their payload types. -/
theorem Built.numbered (h : Built name port proto m) : m.Numbered := h.assigned.numbered

/-- Nor is the number of the telephone events one of a codec. -/
theorem Built.telev (h : Built name port proto m) {pt : Nat} (hadd : m.addTelevCodec pt = some m') :
    m'.Numbered := by
  refine Numbered.formatAdd h.assigned ?_ hadd
  intro pt' hpt'
  split at hpt'
  · rename_i hfree
    obtain rfl := Option.some.inj hpt'
    rw [atoi_decimal]
    exact Option.isNone_iff_eq_none.mp hfree
  · cases hpt'

end SdpMedia

theorem updateFormat_append {fmtl fmtl' : List SdpFormat} {fmt : SdpFormat} {id : Str}
    (hid : fmt.id = id) (h : id ∉ SdpMedia.ids fmtl) (f : SdpFormat → SdpFormat) :
    updateFormat id f (fmtl ++ fmt :: fmtl') = fmtl ++ f fmt :: fmtl' := by
  induction fmtl with
  | nil =>
    change updateFormat id f (fmt :: fmtl') = f fmt :: fmtl'
    unfold updateFormat
    rw [if_pos hid]
  | cons fmt' fmtl ih =>
    have hne : fmt'.id ≠ id := fun heq => h (heq ▸ List.mem_cons_self ..)
    change updateFormat id f (fmt' :: (fmtl ++ fmt :: fmtl')) = _
    unfold updateFormat
    rw [if_neg hne, ih fun hmem => h (List.mem_cons_of_mem _ hmem)]
    rfl

theorem plU32_decimal {n : Nat} (hn : n < 4294967296) : plU32 (decimal n) = n := by
  rw [(digits_decimal n).plU32, value_decimal]
  exact Nat.mod_eq_of_lt hn

/-! ### Lines at a media line -/

/-- A reading that is at a media line with these remote formats. -/
structure At (seen : List SdpMedia) (rfmtl : List SdpFormat) (c : SdpCursor) : Prop where
  seen : c.seen = seen
  next : c.next = []
  lmedial : ∀ m ∈ c.lmedial, m.rfmtl = []
  cur : c.cur.map SdpMedia.rfmtl = some rfmtl

/-- What lines make of the remote formats. -/
def Takes [Inet] (seen : List SdpMedia) (ls : List SdpLine) (rfmtl rfmtl' : List SdpFormat) :
    Prop :=
  ∀ c : SdpCursor, At seen rfmtl c →
    (c.readLines true ls).2 = 0 ∧ At seen rfmtl' (c.readLines true ls).1

variable {seen : List SdpMedia} {rfmtl rfmtl' rfmtl'' : List SdpFormat} {c : SdpCursor}
  {ls ls' : List SdpLine}

theorem readLines_append [Inet] (h : (c.readLines true ls).2 = 0) :
    c.readLines true (ls ++ ls') = (c.readLines true ls).1.readLines true ls' := by
  induction ls generalizing c with
  | nil => rfl
  | cons l ls ih =>
    obtain ⟨type, val⟩ := l
    rw [SdpCursor.readLines_cons] at h
    rw [List.cons_append, SdpCursor.readLines_cons, SdpCursor.readLines_cons]
    generalize c.line true type val = r at h ⊢
    obtain ⟨c', err⟩ := r
    cases err with
    | zero => exact ih h
    | succ err => exact absurd h (Nat.succ_ne_zero err)

theorem Takes.nil [Inet] : Takes seen [] rfmtl rfmtl := fun _ hc => ⟨rfl, hc⟩

theorem Takes.append [Inet] (h : Takes seen ls rfmtl rfmtl')
    (h' : Takes seen ls' rfmtl' rfmtl'') :
    Takes seen (ls ++ ls') rfmtl rfmtl'' := by
  intro c hc
  obtain ⟨hok, hat⟩ := h c hc
  rw [readLines_append hok]
  exact h' _ hat

theorem takes_attr [Inet] {val name val' : Str}
    (hsplit : SdpCursor.attrSplit val = (name, val'))
    (h : ∀ c : SdpCursor, At seen rfmtl c →
      (c.attrApply name val').2 = 0 ∧ At seen rfmtl' (c.attrApply name val').1) :
    Takes seen [(97, val)] rfmtl rfmtl' := by
  intro c hc
  have hline : c.line true 97 val = c.attrApply name val' := by
    unfold SdpCursor.line SdpCursor.attrDecode
    rw [if_pos rfl, hsplit]
  obtain ⟨hok, hat⟩ := h c hc
  rw [SdpCursor.readLines_cons, hline]
  generalize c.attrApply name val' = r at hok hat
  obtain ⟨c', err⟩ := r
  obtain rfl : err = 0 := hok
  exact ⟨rfl, hat⟩

theorem At.onMedia (h : At seen rfmtl c) {f : SdpMedia → SdpMedia × Nat}
    (hf : ∀ m : SdpMedia, m.rfmtl = rfmtl → (f m).2 = 0 ∧ (f m).1.rfmtl = rfmtl') :
    (c.onMedia f).2 = 0 ∧ At seen rfmtl' (c.onMedia f).1 := by
  obtain ⟨m, hcur, hm⟩ := Option.map_eq_some_iff.mp h.cur
  obtain ⟨hok, hrfmtl⟩ := hf m hm
  unfold SdpCursor.onMedia
  rw [hcur]
  exact ⟨hok, h.seen, h.next, h.lmedial, congrArg some hrfmtl⟩

theorem At.setDir (h : At seen rfmtl c) (dir : SdpDir) : At seen rfmtl (c.setDir dir) := by
  obtain ⟨m, hcur, hm⟩ := Option.map_eq_some_iff.mp h.cur
  unfold SdpCursor.setDir
  rw [hcur]
  exact ⟨h.seen, h.next, h.lmedial, congrArg some hm⟩

theorem At.attrApply_other (h : At seen rfmtl c) {name : Str}
    (hname : name ∉ [utf8 "fmtp", utf8 "rtcp", utf8 "rtpmap"]) (val : Str) :
    At seen rfmtl (c.attrApply name val).1 := by
  simp only [List.mem_cons, List.not_mem_nil, or_false, not_or] at hname
  obtain ⟨hfmtp, hrtcp, hrtpmap⟩ := hname
  unfold SdpCursor.attrApply
  rw [if_neg hfmtp, if_neg hrtcp, if_neg hrtpmap]
  split
  · exact h.setDir _
  split
  · exact h.setDir _
  split
  · exact h.setDir _
  split
  · exact h.setDir _
  · exact h

theorem takes_other [Inet] {val name val' : Str}
    (hsplit : SdpCursor.attrSplit val = (name, val'))
    (hname : name ∉ [utf8 "fmtp", utf8 "rtcp", utf8 "rtpmap"]) :
    Takes seen [(97, val)] rfmtl rfmtl := by
  apply takes_attr hsplit
  intro c hc
  exact ⟨SdpCursor.attrApply_other hname val' c, hc.attrApply_other hname val'⟩

theorem takes_attrs [Inet] {lattrl : List (Str × Option Str)} (h : ∀ a ∈ lattrl, Other a) :
    Takes seen (lattrl.map attrPrint) rfmtl rfmtl := by
  induction lattrl with
  | nil => exact .nil
  | cons a lattrl ih =>
    have hfirst : Takes seen [(97, (attrPrint a).2)] rfmtl rfmtl :=
      takes_other rfl (h a (List.mem_cons_self ..))
    have hprint : attrPrint a = (97, (attrPrint a).2) :=
      Prod.ext (SdpMedia.attrPrint_type a) rfl
    rw [List.map_cons, hprint]
    exact hfirst.append (ih fun a ha => h a (List.mem_cons_of_mem _ ha))

theorem takes_rtcp [Inet] (port : Nat) :
    Takes seen [attrLine (utf8 "rtcp") (decimal port)] rfmtl rfmtl := by
  apply takes_attr
    (attrSplit_attrLine (by decide) (by decide) (decimal_ne_nil port))
  intro c hc
  rw [SdpCursor.attrApply_rtcp]
  unfold SdpCursor.attrDecodeRtcp
  apply hc.onMedia
  intro m hm
  simp only [reRegex_digits]
  exact ⟨rfl, hm⟩

/-! ### The lines of a format -/

theorem takes_rtpmap [Inet] {fmt rfmt : SdpFormat} {name : Str}
    {fmtl fmtl' : List SdpFormat} (hid : Word fmt.id) (hname : name ≠ []) (hslash : 47 ∉ name)
    (hexact : fmt.Exact)
    (hrfmt : rfmt.id = fmt.id) (hnew : fmt.id ∉ SdpMedia.ids fmtl) :
    Takes seen [attrLine (utf8 "rtpmap") (rtpmapValue fmt name)] (fmtl ++ rfmt :: fmtl')
      (fmtl ++ { rfmt with name := some name, srate := fmt.srate, ch := fmt.ch } :: fmtl') := by
  have hsrate := plU32_decimal hexact.srate
  have hch : (if (if 1 < fmt.ch then decimal fmt.ch else []) = [] then 1
      else plU32 (if 1 < fmt.ch then decimal fmt.ch else []) % 2 ^ 8) = fmt.ch := by
    obtain ⟨hpos, hlt⟩ := hexact.ch
    by_cases hch : 1 < fmt.ch
    · rw [if_pos hch, if_neg (decimal_ne_nil fmt.ch), plU32_decimal (by omega)]
      exact Nat.mod_eq_of_lt hlt
    · rw [if_neg hch, if_pos rfl]
      omega
  apply takes_attr
    (attrSplit_attrLine (by decide) (by decide) (rtpmapValue_ne_nil fmt name))
  intro c hc
  rw [SdpCursor.attrApply_rtpmap]
  apply hc.onMedia
  intro m hm
  unfold SdpMedia.attrDecodeRtpmap
  simp only [reRegex_rtpmapItems hid hname hslash, hsrate, hch]
  refine ⟨trivial, ?_⟩
  unfold SdpMedia.updateRemote
  simp only [hm]
  exact updateFormat_append hrfmt hnew _

theorem takes_fmtp [Inet] {rfmt : SdpFormat} {id params : Str} {fmtl fmtl' : List SdpFormat}
    (hid : Word id) (hrfmt : rfmt.id = id) (hnew : id ∉ SdpMedia.ids fmtl) :
    Takes seen [attrLine (utf8 "fmtp") (id ++ blank1 ++ params)] (fmtl ++ rfmt :: fmtl')
      (fmtl ++ { rfmt with params := some params } :: fmtl') := by
  have hne : id ++ blank1 ++ params ≠ [] := by simp [hid.1]
  apply takes_attr (attrSplit_attrLine (by decide) (by decide) hne)
  intro c hc
  rw [SdpCursor.attrApply_fmtp]
  apply hc.onMedia
  intro m hm
  unfold SdpMedia.attrDecodeFmtp
  simp only [reRegex_fmtpItems hid]
  refine ⟨trivial, ?_⟩
  unfold SdpMedia.updateRemote
  simp only [hm]
  exact updateFormat_append hrfmt hnew _

namespace SdpMedia

variable {m : SdpMedia} {fmt : SdpFormat} {fmtl fmtl' : List SdpFormat}

theorem takes_format [Inet] (h : m.Proper) (hexact : m.Exact) (hfmt : fmt ∈ m.lfmtl)
    (hnew : fmt.id ∉ ids fmtl) :
    Takes seen (m.formatLines true fmt) (fmtl ++ SdpFormat.radd fmt.id :: fmtl')
      (fmtl ++ fmt.heard :: fmtl') := by
  have hid := h.ids fmt hfmt
  have hset := (hexact.formats fmt hfmt).name
  cases hname : fmt.name with
  | none =>
    rw [hname] at hset
    cases hset
  | some name =>
    have hne : name ≠ [] := by
      rintro rfl
      rw [hname] at hset
      cases hset
    have hempty : name.isEmpty = false := List.isEmpty_eq_false_iff.mpr hne
    have hrtpmap := @takes_rtpmap seen _ fmt (SdpFormat.radd fmt.id) name fmtl fmtl' hid hne
      (h.names fmt hfmt name hname) (hexact.formats fmt hfmt) rfl hnew
    unfold formatLines SdpFormat.heard
    rw [hname]
    simp only [hempty, Bool.or_true, Bool.not_true, Bool.or_false, Bool.false_eq_true, if_false,
      hexact.isRtp, if_true]
    by_cases hparams : isset fmt.params = true
    · obtain ⟨params, hparams', -⟩ := (Option.any_eq_true _ _).mp hparams
      rw [if_pos hparams, if_pos hparams, hparams']
      exact hrtpmap.append (takes_fmtp hid rfl hnew)
    · rw [if_neg hparams, if_neg hparams]
      exact hrtpmap.append .nil

theorem ids_heard (fmtl : List SdpFormat) : ids (fmtl.map SdpFormat.heard) = ids fmtl := by
  unfold ids
  rw [List.map_map]
  rfl

theorem takes_formats [Inet] (h : m.Proper) (hexact : m.Exact)
    {read todo : List SdpFormat} (hsplit : m.lfmtl = read ++ todo) :
    Takes seen (todo.flatMap (m.formatLines true))
      (read.map SdpFormat.heard ++ (ids todo).map SdpFormat.radd)
      (m.lfmtl.map SdpFormat.heard) := by
  induction todo generalizing read with
  | nil =>
    rw [hsplit, List.append_nil]
    have hnil : read.map SdpFormat.heard ++ (ids []).map SdpFormat.radd =
        read.map SdpFormat.heard := List.append_nil _
    rw [hnil]
    exact .nil
  | cons fmt todo ih =>
    have hfmt : fmt ∈ m.lfmtl := by
      rw [hsplit]
      exact List.mem_append_right _ (List.mem_cons_self ..)
    have hnew : fmt.id ∉ ids (read.map SdpFormat.heard) := by
      have hnodup := hexact.nodup
      rw [hsplit, ids_append] at hnodup
      rw [ids_heard]
      intro hmem
      exact (List.nodup_append.mp hnodup).2.2 _ hmem _ (List.mem_cons_self ..) rfl
    have hfirst := @takes_format seen m fmt (read.map SdpFormat.heard)
      ((ids todo).map SdpFormat.radd) _ h hexact hfmt hnew
    have hrest := @ih (read ++ [fmt]) (by rw [hsplit, List.append_assoc]; rfl)
    rw [List.map_append, List.append_assoc] at hrest
    rw [List.flatMap_cons]
    exact hfirst.append hrest

/-- What follows a media line in an offer. -/
theorem takes_lines [Inet] (h : m.Proper) (hexact : m.Exact) (disabled : Bool) : ∃ rest,
    m.lines true disabled = m.mediaLine m.lport m.proto (ids m.lfmtl) :: rest ∧
    ∀ seen, Takes seen rest ((ids m.lfmtl).map SdpFormat.radd) (m.lfmtl.map SdpFormat.heard) := by
  refine ⟨_, lines_true m disabled, ?_⟩
  intro seen
  have hformats := @takes_formats seen m _ h hexact [] m.lfmtl rfl
  have hrtcp : ∀ rfmtl, Takes seen
      (if m.lportRtcp = 0 then [] else [attrLine (utf8 "rtcp") (decimal m.lportRtcp)])
      rfmtl rfmtl := by
    intro rfmtl
    split
    · exact .nil
    · exact takes_rtcp _
  have hdir : ∀ (dir : SdpDir) rfmtl, Takes seen [(97, dir.name)] rfmtl rfmtl := fun dir rfmtl =>
    takes_other (attrSplit_bare (dir_name_other dir).1) (dir_name_other dir).2
  exact ((hformats.append (hrtcp _)).append (hdir _ _)).append (takes_attrs h.attrs)

end SdpMedia

/-! ### The media lines of an offer -/

/-- What the other side has of a media line. -/
def Told (m m' : SdpMedia) : Prop :=
  m.lfmtl.any SdpFormat.sup = true → m'.rfmtl = m.lfmtl.map SdpFormat.heard

/-- A reading that has read these media lines. -/
structure Reading (ms : List SdpMedia) (c : SdpCursor) : Prop where
  next : c.next = []
  lmedial : ∀ m ∈ c.lmedial, m.rfmtl = []
  told : List.Forall₂ Told ms (c.seen ++ c.cur.toList)

variable {m : SdpMedia} {ms : List SdpMedia}

theorem Reading.mediaLine [Inet] (h : Reading ms c) (hm : m.Proper) (port : Nat)
    {proto : Str} (hproto : Word proto) {fmts : List Str} (hfmts : ∀ fmt ∈ fmts, Word fmt) :
    ∃ c', c.line true (m.mediaLine port proto fmts).1 (m.mediaLine port proto fmts).2 = (c', 0) ∧
      At (c.seen ++ c.cur.toList) (fmts.map SdpFormat.radd) c' := by
  have hmatch := reRegex_mediaItems hm.name hm.letters (word_decimal port) hproto
    (spaced_head fmts)
  have hids := fmtIds_spaced hfmts (length_le_spaced fmts)
  change ∃ c', c.mediaDecode true (m.name ++ blank1 ++ decimal port ++ blank1 ++ proto ++
    spaced fmts) = (c', 0) ∧ At (c.seen ++ c.cur.toList) (fmts.map SdpFormat.radd) c'
  unfold SdpCursor.mediaDecode
  simp only [hmatch, h.next, if_true]
  split
  · rename_i m' lmedial hfind
    obtain ⟨-, hrfmtl, hothers⟩ := SdpCursor.mediaFind_spec h.lmedial hfind
    refine ⟨_, rfl, rfl, rfl, hothers, ?_⟩
    change some (m'.rfmtl ++ (fmtIds (spaced fmts).length (spaced fmts)).map SdpFormat.radd) = _
    rw [hrfmtl, hids, List.nil_append]
  · refine ⟨_, rfl, rfl, rfl, h.lmedial, ?_⟩
    change some ([] ++ (fmtIds (spaced fmts).length (spaced fmts)).map SdpFormat.radd) = _
    rw [hids, List.nil_append]

/-- A media line with its attributes. -/
theorem encode_takes [Inet] (hm : m.Proper) (hexact : m.Exact) : ∃ port proto rest rfmtl,
    m.encode true = m.mediaLine port proto m.offers :: rest ∧ Word proto ∧
    (∀ seen, Takes seen rest (m.offers.map SdpFormat.radd) rfmtl) ∧
    (m.lfmtl.any SdpFormat.sup = true → rfmtl = m.lfmtl.map SdpFormat.heard) := by
  by_cases hsup : m.lfmtl.any SdpFormat.sup = true
  · have hlines : ∃ disabled, m.encode true = m.lines true disabled := by
      unfold SdpMedia.encode
      simp only
      rw [hsup]
      split
      · exact ⟨true, rfl⟩
      · rw [if_neg (by rintro (hfalse | ⟨hfalse, -⟩) <;> cases hfalse)]
        exact ⟨false, rfl⟩
    have hoffers : m.offers = SdpMedia.ids m.lfmtl := if_pos hsup
    obtain ⟨disabled, hencode⟩ := hlines
    obtain ⟨rest, hrest, htakes⟩ := SdpMedia.takes_lines hm hexact disabled
    rw [hoffers]
    exact ⟨_, _, rest, _, hencode.trans hrest, hm.proto, htakes, fun _ => rfl⟩
  · have hreject : ∃ port proto, m.encode true = [m.mediaLine port proto m.offers] ∧
        Word proto := by
      obtain ⟨port, proto, rest, hencode, hproto, -⟩ := SdpMedia.encode_offer hm
      have hlength : (m.encode true).length = 1 := by
        rw [Bool.not_eq_true] at hsup
        unfold SdpMedia.encode
        simp only
        rw [hsup, if_neg fun hboth => Bool.false_ne_true hboth.1, if_pos (.inl rfl)]
        rfl
      rw [hencode, List.length_cons] at hlength
      have hnil : rest = [] := List.eq_nil_of_length_eq_zero (Nat.succ.inj hlength)
      rw [hnil] at hencode
      exact ⟨port, proto, hencode, hproto⟩
    obtain ⟨port, proto, hencode, hproto⟩ := hreject
    exact ⟨port, proto, [], _, hencode, hproto, fun _ => .nil, fun hany => absurd hany hsup⟩

theorem Reading.media [Inet] (h : Reading ms c) (hm : m.Proper) (hexact : m.Exact) :
    (c.readLines true (m.encode true)).2 = 0 ∧
      Reading (ms ++ [m]) (c.readLines true (m.encode true)).1 := by
  obtain ⟨port, proto, rest, rfmtl, hencode, hproto, htakes, hrfmtl⟩ := encode_takes hm hexact
  obtain ⟨c', hline, hat⟩ := h.mediaLine hm port hproto (SdpMedia.offers_words hm)
  have hlines : c.readLines true (m.encode true) = c'.readLines true rest := by
    generalize m.mediaLine port proto m.offers = l at hencode hline
    obtain ⟨type, val⟩ := l
    simp only at hline
    rw [hencode, SdpCursor.readLines_cons]
    simp only [hline]
  obtain ⟨hok, hend⟩ := htakes _ c' hat
  obtain ⟨m', hcur, hm'⟩ := Option.map_eq_some_iff.mp hend.cur
  rw [hlines]
  refine ⟨hok, hend.next, hend.lmedial, ?_⟩
  have htold : Told m m' := fun hany => hm'.trans (hrfmtl hany)
  rw [hend.seen, hcur]
  exact List.rel_append h.told (.cons htold .nil)

theorem Reading.medial [Inet] {todo : List SdpMedia} (h : Reading ms c)
    (hm : ∀ m ∈ todo, m.Proper)
    (hexact : ∀ m ∈ todo, m.Exact) :
    Reading (ms ++ todo) (c.readLines true (todo.flatMap (SdpMedia.encode true))).1 := by
  induction todo generalizing ms c with
  | nil =>
    rw [List.append_nil]
    exact h
  | cons m todo ih =>
    obtain ⟨hok, hread⟩ := h.media (hm m (List.mem_cons_self ..)) (hexact m (List.mem_cons_self ..))
    have hrest := ih hread (fun m hm' => hm m (List.mem_cons_of_mem _ hm'))
      fun m hm' => hexact m (List.mem_cons_of_mem _ hm')
    rw [List.flatMap_cons, readLines_append hok]
    rw [List.append_assoc] at hrest
    exact hrest

/-- Lines ahead of the media lines. -/
theorem Reading.head [Inet] (h : Reading [] c) (hls : ∀ l ∈ ls, l.1 ≠ 109 ∧ Readable l) :
    Reading [] (c.readLines true ls).1 := by
  induction ls generalizing c with
  | nil => exact h
  | cons l ls ih =>
    obtain ⟨type, val⟩ := l
    obtain ⟨htype, hreadable⟩ := hls (type, val) (List.mem_cons_self ..)
    have hok := (hreadable c h.next).1
    have hkept := SdpCursor.line_kept htype val c
    have hempty : c.seen = [] ∧ c.cur = none := by
      have htold := List.forall₂_nil_left_iff.mp h.told
      rw [List.append_eq_nil_iff, Option.toList_eq_nil_iff] at htold
      exact htold
    have hnext : Reading [] (c.line true type val).1 := by
      refine ⟨hkept.next.trans h.next, ?_, ?_⟩
      · rw [hkept.lmedial]
        exact h.lmedial
      · have hcur := hkept.cur
        rw [hempty.2, Option.map_none, Option.map_eq_none_iff] at hcur
        rw [hkept.seen, hempty.1, hcur]
        exact .nil
    rw [SdpCursor.readLines_cons]
    simp only at hok
    generalize c.line true type val = r at hok hnext
    obtain ⟨c', err⟩ := r
    obtain rfl : err = 0 := hok
    exact ih hnext fun l hl => hls l (List.mem_cons_of_mem _ hl)

/-! ### The alignment -/

namespace SdpMedia

theorem Aligned.unaligned_rfmtl {offer : Bool} {a a' : Alignment} {rfmt : SdpFormat}
    (h : Aligned offer a rfmt a') :
    a'.rfmtl.map SdpFormat.unaligned =
      a.rfmtl.map SdpFormat.unaligned ++ [rfmt.unaligned] := by
  cases h with
  | missing hmissing => exact List.map_append
  | found before after lfmt hsplit hbefore hcmp => exact List.map_append

theorem foldl_unaligned (offer : Bool) (rfmtl : List SdpFormat) (a : Alignment) :
    (rfmtl.foldl (Alignment.step offer) a).rfmtl.map SdpFormat.unaligned =
      a.rfmtl.map SdpFormat.unaligned ++ rfmtl.map SdpFormat.unaligned := by
  induction rfmtl generalizing a with
  | nil => exact (List.append_nil _).symm
  | cons rfmt rfmtl ih =>
    rw [List.foldl_cons, ih, (aligned offer a rfmt).unaligned_rfmtl, List.append_assoc]
    rfl

theorem alignFormats_unaligned (offer : Bool) (m : SdpMedia) :
    (m.alignFormats offer).rfmtl.map SdpFormat.unaligned = m.rfmtl.map SdpFormat.unaligned := by
  unfold alignFormats
  split
  · rfl
  · exact foldl_unaligned offer m.rfmtl _

end SdpMedia

namespace SdpSession

variable {a b : SdpSession}

theorem decoded_told [Inet] (ha : a.Proper) (hexact : ∀ m ∈ a.offered.medial, m.Exact)
    (hb : b.medial = []) (hfresh : ∀ m ∈ b.lmedial, m.rfmtl = []) :
    List.Forall₂ (fun m m' => m.lfmtl.any SdpFormat.sup = true →
      m'.rfmtl.map SdpFormat.unaligned = m.lfmtl.map SdpFormat.heard) a.offered.medial
      (b.decode true (a.encode true).1).1.medial := by
  have hstart : Reading [] b.start := by
    refine ⟨?_, hfresh, .nil⟩
    unfold start
    rw [hb]
    rfl
  have hhead : ∀ l ∈ a.headLines, Readable l := fun l hl => (headLines_readable ha l hl).2
  have hok := SdpCursor.readLines_readable hhead hstart.next
  have hmedial := (hstart.head (headLines_readable ha)).medial ha.medial hexact
  rw [List.nil_append, ← readLines_append hok] at hmedial
  have hdecoded := offer_decoded ha hb
  unfold decode read at hdecoded ⊢
  rw [SdpCursor.scan_split (splitLines_offer ha)] at hdecoded ⊢
  generalize b.start.readLines true _ = r at hmedial hdecoded ⊢
  obtain ⟨c, err⟩ := r
  cases err with
  | succ err => exact absurd hdecoded (Nat.succ_ne_zero err)
  | zero =>
    have hnext : c.next = [] := hmedial.next
    have htold : List.Forall₂ Told a.offered.medial (c.seen ++ c.cur.toList) := hmedial.told
    simp only [back, hnext, List.append_nil]
    rw [List.forall₂_map_right_iff]
    apply htold.imp
    intro m m' hm hany
    rw [SdpMedia.alignFormats_unaligned, hm hany, List.map_map]
    rfl

/-- Whatever formats a side offers in a media line that it does not reject, the other side has
exactly these as remote formats, with their payload types, names, rates, channels and parameters,
in their order. -/
theorem offer_told [Inet] (ha : a.Proper) (hexact : ∀ m ∈ a.offered.medial, m.Exact)
    (hb : b.medial = []) (hfresh : ∀ m ∈ b.lmedial, m.rfmtl = []) :
    ∃ b', b.decode true (a.encode true).1 = (b', 0) ∧
      List.Forall₂ (fun m m' => m.lfmtl.any SdpFormat.sup = true →
        m'.rfmtl.map SdpFormat.unaligned = m.lfmtl.map SdpFormat.heard) a.offered.medial
        b'.medial :=
  ⟨_, decode_offer ha hb, decoded_told ha hexact hb hfresh⟩

theorem pcmaOnly_exact : ∀ m ∈ (pcmaOnly 5004).offered.medial, m.Exact := by
  intro m hm
  obtain rfl := List.mem_singleton.mp hm
  refine ⟨by decide, by decide, ?_⟩
  intro fmt hfmt
  obtain rfl := List.mem_singleton.mp hfmt
  exact ⟨by decide, by decide, by decide, by decide⟩

theorem offer_told_pcma : ∃ b',
    @decode ipv4 true ((pcmaOnly 5004).encode true).1 (pcmaOnly 6004) = (b', 0) ∧
      List.Forall₂ (fun m m' => m.lfmtl.any SdpFormat.sup = true →
        m'.rfmtl.map SdpFormat.unaligned = m.lfmtl.map SdpFormat.heard)
        (pcmaOnly 5004).offered.medial b'.medial :=
  @offer_told _ _ ipv4 pcmaOnly_proper pcmaOnly_exact rfl pcmaOnly_fresh

/-! ### What the other side sends -/

/-- What the other side says of a format of its own choice is what is known of it here. -/
theorem lformat_told {m m' : SdpMedia} (hnumbered : m.Numbered)
    (htold : m'.rfmtl.map SdpFormat.unaligned = m.lfmtl.map SdpFormat.heard) {name : Option Str}
    {f : SdpFormat} (hf : m'.rformat name = some f) :
    ∃ g, m.lformat f.pt = some g ∧ g.name = f.name ∧ g.srate = f.srate ∧ g.ch = f.ch := by
  have hmem : f ∈ m'.rfmtl := by
    unfold SdpMedia.rformat at hf
    split at hf
    · cases hf
    · exact List.mem_of_find?_eq_some hf
  have hheard : f.unaligned ∈ m.lfmtl.map SdpFormat.heard := by
    rw [← htold]
    exact List.mem_map_of_mem hmem
  obtain ⟨g, hg, heq⟩ := List.mem_map.mp hheard
  have hpt : g.pt = f.pt := (hnumbered.pt g hg).trans (congrArg SdpFormat.pt heq)
  have hname : g.heard.name = f.unaligned.name := congrArg SdpFormat.name heq
  have hsrate : g.heard.srate = f.unaligned.srate := congrArg SdpFormat.srate heq
  have hch : g.heard.ch = f.unaligned.ch := congrArg SdpFormat.ch heq
  refine ⟨g, ?_, hname, hsrate, hch⟩
  unfold SdpMedia.lformat
  cases hfind : m.lfmtl.find? fun fmt => fmt.pt = f.pt with
  | none => exact absurd (decide_eq_true hpt) (List.find?_eq_none.mp hfind g hg)
  | some g' =>
    have hfound := List.find?_some hfind
    have hpt' : g'.pt = f.pt := of_decide_eq_true hfound
    have hsame : g' = g := List.inj_on_of_nodup_map hnumbered.distinct
      (List.mem_of_find?_eq_some hfind) hg (hpt'.trans hpt.symm)
    rw [hsame]

/-- Whatever codec the other side chooses after an offer, it sends it under a payload type that
stands for the same codec on the side that made the offer. -/
theorem sent_is_decoded [Inet] (ha : a.Proper) (hexact : ∀ m ∈ a.offered.medial, m.Exact)
    (hb : b.medial = []) (hfresh : ∀ m ∈ b.lmedial, m.rfmtl = []) :
    ∃ b', b.decode true (a.encode true).1 = (b', 0) ∧
      List.Forall₂ (fun m m' => m.Numbered → m.lfmtl.any SdpFormat.sup = true →
        ∀ name f, m'.rformat name = some f → ∃ g, m.lformat f.pt = some g ∧
          g.name = f.name ∧ g.srate = f.srate ∧ g.ch = f.ch) a.offered.medial b'.medial := by
  refine ⟨_, decode_offer ha hb, (decoded_told ha hexact hb hfresh).imp ?_⟩
  intro m m' htold hnumbered hany name f hf
  exact lformat_told hnumbered (htold hany) hf

theorem sent_is_decoded_pcma : ∃ b',
    @decode ipv4 true ((pcmaOnly 5004).encode true).1 (pcmaOnly 6004) = (b', 0) ∧
      List.Forall₂ (fun m m' => m.Numbered → m.lfmtl.any SdpFormat.sup = true →
        ∀ name f, m'.rformat name = some f → ∃ g, m.lformat f.pt = some g ∧
          g.name = f.name ∧ g.srate = f.srate ∧ g.ch = f.ch) (pcmaOnly 5004).offered.medial
        b'.medial :=
  @sent_is_decoded _ _ ipv4 pcmaOnly_proper pcmaOnly_exact rfl pcmaOnly_fresh

end SdpSession

end SimplePhone.Re
