import SimplePhone.Re.SdpAlign

/-! The lines of a session description: a text is read line by line, and what an offer says of
its media lines is in the session afterwards and in the answer. -/
namespace SimplePhone.Re

/-! ### A text is its lines -/

/-- The lines of a text, `l` being the one that has begun. -/
def splitLines : Option SdpLine → Str → Option (List SdpLine)
  | l, [] => if l.isSome then none else some []
  | l, b :: pl =>
      if b = 13 ∨ b = 10 then
        match l with
        | none => splitLines none pl
        | some l => (splitLines none pl).map (l :: ·)
      else
        match l with
        | some (type, val) => splitLines (some (type, val ++ [b])) pl
        | none =>
            match pl with
            | 61 :: pl => if b = 0 then splitLines none pl else splitLines (some (b, [])) pl
            | _ => none

namespace SdpCursor

def readLines [Inet] (offer : Bool) : SdpCursor → List SdpLine → SdpCursor × Nat
  | c, [] => (c, 0)
  | c, (type, val) :: ls =>
      match c.line offer type val with
      | (c, 0) => readLines offer c ls
      | (c, err) => (c, err)

variable [Inet] {offer : Bool}

/-- A line that is read through, or ends the reading. -/
theorem readLines_cons (c : SdpCursor) (type : UInt8) (val : Str) (ls : List SdpLine) :
    c.readLines offer ((type, val) :: ls) =
      match c.line offer type val with
      | (c, 0) => c.readLines offer ls
      | (c, err) => (c, err) := rfl

theorem scan_split {l : Option SdpLine} {pl : Str} {ls : List SdpLine}
    (h : splitLines l pl = some ls) (c : SdpCursor) :
    c.scan offer l pl = c.readLines offer ls := by
  fun_induction splitLines l pl generalizing c ls with
  | case1 l hl => cases h
  | case2 l hl =>
    obtain rfl := Option.some.inj h
    unfold scan
    rw [if_neg hl]
    rfl
  | case3 b pl hb ih =>
    unfold scan
    rw [if_pos hb]
    exact ih h c
  | case4 b pl hb l ih =>
    obtain ⟨rest, hrest, rfl⟩ := Option.map_eq_some_iff.mp h
    obtain ⟨type, val⟩ := l
    unfold scan
    rw [if_pos hb, readLines_cons]
    simp only
    generalize c.line offer type val = r
    obtain ⟨c', err⟩ := r
    cases err with
    | zero => exact ih hrest c'
    | succ err => rfl
  | case5 b pl hb type val ih =>
    unfold scan
    rw [if_neg hb]
    exact ih h c
  | case6 pl hb ih =>
    unfold scan
    rw [if_neg hb]
    exact ih h c
  | case7 b hb pl htype ih =>
    unfold scan
    rw [if_neg hb]
    simp only [if_neg htype]
    exact ih h c
  | case8 b pl hb hpl => cases h

/-- A text that is read to its end has lines. -/
theorem split_of_scan {l : Option SdpLine} {pl : Str} {c : SdpCursor}
    (h : (c.scan offer l pl).2 = 0) : ∃ ls, splitLines l pl = some ls := by
  fun_induction splitLines l pl generalizing c with
  | case1 l hl =>
    unfold scan at h
    rw [if_pos hl] at h
    cases h
  | case2 l hl => exact ⟨[], rfl⟩
  | case3 b pl hb ih =>
    unfold scan at h
    rw [if_pos hb] at h
    exact ih h
  | case4 b pl hb l ih =>
    obtain ⟨type, val⟩ := l
    unfold scan at h
    rw [if_pos hb] at h
    simp only at h
    generalize c.line offer type val = r at h
    obtain ⟨c', err⟩ := r
    cases err with
    | zero =>
      obtain ⟨ls, hls⟩ := ih h
      exact ⟨_, Option.map_eq_some_iff.mpr ⟨ls, hls, rfl⟩⟩
    | succ err => cases h
  | case5 b pl hb type val ih =>
    unfold scan at h
    rw [if_neg hb] at h
    exact ih h
  | case6 pl hb ih =>
    unfold scan at h
    rw [if_neg hb] at h
    exact ih h
  | case7 b hb pl htype ih =>
    unfold scan at h
    rw [if_neg hb] at h
    simp only [if_neg htype] at h
    exact ih h
  | case8 b pl hb hpl =>
    unfold scan at h
    rw [if_neg hb] at h
    simp only at h
    exact absurd h (by decide)

end SdpCursor

/-- A line with a type and without an end in it. -/
def Bare (l : SdpLine) : Prop := (l.1 ≠ 0 ∧ l.1 ≠ 13 ∧ l.1 ≠ 10) ∧ ∀ b ∈ l.2, b ≠ 13 ∧ b ≠ 10

theorem splitLines_val {type : UInt8} {val val' : Str} (hval : ∀ b ∈ val', b ≠ 13 ∧ b ≠ 10)
    (pl : Str) :
    splitLines (some (type, val)) (val' ++ pl) = splitLines (some (type, val ++ val')) pl := by
  induction val' generalizing val with
  | nil => rw [List.nil_append, List.append_nil]
  | cons b val' ih =>
    obtain ⟨hcr, hlf⟩ := hval b (List.mem_cons_self ..)
    have hchar : splitLines (some (type, val)) (b :: (val' ++ pl)) =
        splitLines (some (type, val ++ [b])) (val' ++ pl) := by
      conv_lhs => unfold splitLines
      rw [if_neg (not_or.mpr ⟨hcr, hlf⟩)]
    rw [List.cons_append, hchar, ih fun b' hb' => hval b' (List.mem_cons_of_mem _ hb'),
      List.append_assoc]
    rfl

/-- What is written line by line is read line by line. -/
theorem splitLines_text {ls : List SdpLine} (h : ∀ l ∈ ls, Bare l) :
    splitLines none (ls.flatMap SdpLine.text) = some ls := by
  induction ls with
  | nil => rfl
  | cons l ls ih =>
    obtain ⟨type, val⟩ := l
    obtain ⟨⟨htype, hcr, hlf⟩, hval⟩ := h (type, val) (List.mem_cons_self ..)
    have hrest := ih fun l hl => h l (List.mem_cons_of_mem _ hl)
    rw [List.flatMap_cons]
    change splitLines none (type :: 61 :: (val ++ crlf ++ ls.flatMap SdpLine.text)) = _
    unfold splitLines
    rw [if_neg (not_or.mpr ⟨hcr, hlf⟩)]
    simp only [if_neg (show type ≠ 0 from htype)]
    rw [List.append_assoc, splitLines_val hval, List.nil_append]
    change splitLines (some (type, val)) (13 :: 10 :: ls.flatMap SdpLine.text) = _
    unfold splitLines
    rw [if_pos (.inl rfl)]
    simp only
    unfold splitLines
    rw [if_pos (.inr rfl)]
    simp only
    rw [hrest]
    rfl

/-! ### What an offer says of its media lines -/

/-- The name and the formats of a media line. -/
def mediaOf (l : SdpLine) : Option (Str × List Str) :=
  if l.1 = 109 then
    match reRegex mediaItems l.2 with
    | some ([name, _, _, fmtv], _) => some (name, fmtIds fmtv.length fmtv)
    | _ => none
  else none

def offeredMedia (ls : List SdpLine) : List (Str × List Str) := ls.filterMap mediaOf

namespace SdpMedia

def summary (m : SdpMedia) : Str × List Str := (m.name, ids m.rfmtl)

theorem ids_updateFormat (id : Str) {f : SdpFormat → SdpFormat} (hf : ∀ fmt, (f fmt).id = fmt.id)
    (fmtl : List SdpFormat) : ids (updateFormat id f fmtl) = ids fmtl := by
  induction fmtl with
  | nil => rfl
  | cons fmt fmtl ih =>
    unfold updateFormat
    split
    · change (f fmt).id :: ids fmtl = fmt.id :: ids fmtl
      rw [hf]
    · change fmt.id :: ids (updateFormat id f fmtl) = fmt.id :: ids fmtl
      rw [ih]

/-- What the attributes of a media line leave as it is. -/
def outline (m : SdpMedia) : (Str × List Str) × Option Str × Nat := (m.summary, m.uproto, m.rport)

theorem outline_updateRemote (id : Str) {f : SdpFormat → SdpFormat}
    (hf : ∀ fmt, (f fmt).id = fmt.id) (m : SdpMedia) :
    (m.updateRemote id f).outline = m.outline := by
  have hids := ids_updateFormat id hf m.rfmtl
  unfold outline summary updateRemote
  simp only [hids]
  rfl

theorem outline_attrDecodeFmtp (pl : Str) (m : SdpMedia) :
    (m.attrDecodeFmtp pl).1.outline = m.outline := by
  unfold attrDecodeFmtp
  split
  · apply outline_updateRemote
    exact fun fmt => rfl
  · rfl

theorem outline_attrDecodeRtpmap (pl : Str) (m : SdpMedia) :
    (m.attrDecodeRtpmap pl).1.outline = m.outline := by
  unfold attrDecodeRtpmap
  split
  · apply outline_updateRemote
    exact fun fmt => rfl
  · rfl

theorem summary_protoCmp (proto : Str) (update : Bool) (m : SdpMedia) :
    (m.protoCmp proto update).2.summary = m.summary := by
  unfold protoCmp
  split
  · rfl
  · split
    · split <;> rfl
    · rfl

end SdpMedia

/-- A line under a protocol that is not known counts as one with port zero. -/
def SdpMedia.Declined (m : SdpMedia) : Prop := m.uproto.isSome = true → m.rport = 0

namespace SdpCursor

/-- What lines other than media lines leave as it is. -/
structure Kept (c c' : SdpCursor) : Prop where
  seen : c'.seen = c.seen
  next : c'.next = c.next
  lmedial : c'.lmedial = c.lmedial
  cur : c'.cur.map SdpMedia.summary = c.cur.map SdpMedia.summary
  declined : (∀ m ∈ c.cur, m.Declined) → ∀ m ∈ c'.cur, m.Declined

theorem Kept.refl (c : SdpCursor) : Kept c c := ⟨rfl, rfl, rfl, rfl, id⟩

theorem onMedia_kept {f : SdpMedia → SdpMedia × Nat} (hf : ∀ m, (f m).1.outline = m.outline)
    (c : SdpCursor) : Kept c (c.onMedia f).1 := by
  unfold onMedia
  split
  · exact .refl c
  · rename_i m hcur
    obtain ⟨hsummary, hrest⟩ := Prod.mk.inj (hf m)
    obtain ⟨huproto, hrport⟩ := Prod.mk.inj hrest
    refine ⟨rfl, rfl, rfl, ?_, ?_⟩
    · rw [hcur, Option.map_some, Option.map_some, hsummary]
    · rintro hdeclined _ ⟨⟩ hset
      rw [hrport]
      rw [huproto] at hset
      exact hdeclined m hcur hset

theorem setDir_kept (dir : SdpDir) (c : SdpCursor) : Kept c (c.setDir dir) := by
  unfold setDir
  split
  · rename_i hcur
    exact ⟨rfl, rfl, rfl, rfl, id⟩
  · rename_i m hcur
    refine ⟨rfl, rfl, rfl, ?_, ?_⟩
    · rw [hcur]
      rfl
    · rintro hdeclined _ ⟨⟩
      exact hdeclined m hcur

theorem connDecode_kept [Inet] (pl : Str) (c : SdpCursor) : Kept c (c.connDecode pl).1 := by
  unfold connDecode
  split
  · exact .refl c
  · rename_i addr haddr
    split
    · exact ⟨rfl, rfl, rfl, rfl, id⟩
    · rename_i m hcur
      refine ⟨rfl, rfl, rfl, ?_, ?_⟩
      · rw [hcur]
        rfl
      · rintro hdeclined _ ⟨⟩ huproto
        have hrport : m.rport = 0 := hdeclined m hcur huproto
        change (Sa.set addr m.rport).port = 0
        rw [hrport]
        exact Sa.port_set_zero addr

theorem attrApply_kept (name val : Str) (c : SdpCursor) : Kept c (c.attrApply name val).1 := by
  unfold attrApply
  split
  · exact onMedia_kept (SdpMedia.outline_attrDecodeFmtp val) c
  split
  · exact setDir_kept _ c
  split
  · exact setDir_kept _ c
  split
  · exact onMedia_kept (fun _ => rfl) c
  split
  · exact onMedia_kept (SdpMedia.outline_attrDecodeRtpmap val) c
  split
  · exact setDir_kept _ c
  split
  · exact setDir_kept _ c
  · exact .refl c

theorem line_kept [Inet] {type : UInt8} (htype : type ≠ 109) (val : Str) (c : SdpCursor) :
    Kept c (c.line true type val).1 := by
  unfold line
  rw [if_neg htype]
  split
  · exact attrApply_kept _ _ c
  split
  · exact .refl c
  split
  · exact connDecode_kept val c
  split
  · exact .refl c
  · exact .refl c

/-- Where the reading of an offer is: what it has said so far is in the media lines, and of those
to come nothing is kept. -/
structure Tracks (n : Nat) (offered : List (Str × List Str)) (c : SdpCursor) : Prop where
  read : (c.seen ++ c.cur.toList).map SdpMedia.summary = offered
  left : c.next.length = n - offered.length
  next : ∀ m ∈ c.next, m.rfmtl = []
  lmedial : ∀ m ∈ c.lmedial, m.rfmtl = []

variable {n : Nat} {offered : List (Str × List Str)} {c c' : SdpCursor}

theorem Kept.tracks (h : Kept c c') (ht : Tracks n offered c) : Tracks n offered c' := by
  have hread := ht.read
  refine ⟨?_, ?_, ?_, ?_⟩
  · rw [List.map_append, h.seen, ← hread, List.map_append, ← Option.toList_map, h.cur,
      Option.toList_map]
  · rw [h.next]
    exact ht.left
  · rw [h.next]
    exact ht.next
  · rw [h.lmedial]
    exact ht.lmedial

theorem summary_enter {m : SdpMedia} (hm : m.rfmtl = []) (port fmtv : Str)
    (next lmedial : List SdpMedia) (c : SdpCursor) :
    ((c.enter m port fmtv next lmedial).seen ++
      (c.enter m port fmtv next lmedial).cur.toList).map SdpMedia.summary =
    (c.seen ++ c.cur.toList).map SdpMedia.summary ++ [(m.name, fmtIds fmtv.length fmtv)] := by
  have hids : ∀ fmts : List Str, SdpMedia.ids (fmts.map SdpFormat.radd) = fmts := by
    intro fmts
    unfold SdpMedia.ids
    rw [List.map_map]
    exact List.map_id fmts
  unfold enter
  simp only [Option.toList_some, List.map_append, List.map_cons, List.map_nil]
  unfold SdpMedia.summary
  simp only
  rw [hm, List.nil_append, hids]

theorem mediaFind_spec {name proto : Str} {ms rest : List SdpMedia} {m : SdpMedia}
    (hms : ∀ m ∈ ms, m.rfmtl = []) (h : mediaFind name proto ms = some (m, rest)) :
    m.name = name ∧ m.rfmtl = [] ∧ ∀ m' ∈ rest, m'.rfmtl = [] := by
  induction ms generalizing rest with
  | nil => cases h
  | cons m' ms ih =>
    have hrest : ∀ m ∈ ms, m.rfmtl = [] := fun m hm => hms m (List.mem_cons_of_mem _ hm)
    unfold mediaFind at h
    split at h
    · rename_i hfound
      obtain ⟨rfl, rfl⟩ := Prod.mk.inj (Option.some.inj h)
      have hsummary := SdpMedia.summary_protoCmp proto true m'
      obtain ⟨hname, hids⟩ := Prod.mk.inj hsummary
      refine ⟨hname.trans hfound.1.symm, ?_, hrest⟩
      rw [hms m' (List.mem_cons_self ..)] at hids
      exact List.map_eq_nil_iff.mp hids
    · obtain ⟨r, hr, heq⟩ := Option.map_eq_some_iff.mp h
      obtain ⟨m'', rest'⟩ := r
      obtain ⟨rfl, rfl⟩ := Prod.mk.inj heq
      obtain ⟨hname, hrfmtl, hothers⟩ := ih hrest hr
      refine ⟨hname, hrfmtl, fun m hm => ?_⟩
      rw [List.mem_cons] at hm
      cases hm with
      | inl heq => exact heq ▸ hms m' (List.mem_cons_self ..)
      | inr hmem => exact hothers m hmem

theorem mediaDecode_tracks {pl : Str} (h : c.mediaDecode true pl = (c', 0))
    (ht : Tracks n offered c) :
    ∃ o, mediaOf (109, pl) = some o ∧ Tracks n (offered ++ [o]) c' := by
  have hlength : ∀ o : Str × List Str, (offered ++ [o]).length = offered.length + 1 :=
    fun o => List.length_append
  have hread := ht.read
  have hleft := ht.left
  unfold mediaDecode at h
  split at h
  · rename_i name port proto fmtv rest hmatch
    have hmedia : mediaOf (109, pl) = some (name, fmtIds fmtv.length fmtv) := by
      unfold mediaOf
      rw [if_pos rfl]
      simp only [hmatch]
    refine ⟨_, hmedia, ?_⟩
    cases hnext : c.next with
    | nil =>
      rw [hnext] at h hleft
      simp only [if_true] at h
      split at h
      · rename_i m lmedial hfind
        obtain ⟨rfl, -⟩ := Prod.mk.inj h
        obtain ⟨hname, hrfmtl, hothers⟩ := mediaFind_spec ht.lmedial hfind
        refine ⟨?_, ?_, List.forall_mem_nil _, hothers⟩
        · have hsummary := @summary_enter { m with uproto := none } hrfmtl port fmtv [] lmedial c
          rw [hsummary, hread]
          simp only [hname]
        · rw [hlength]
          change 0 = n - (offered.length + 1)
          rw [List.length_nil] at hleft
          omega
      · obtain ⟨rfl, -⟩ := Prod.mk.inj h
        refine ⟨?_, ?_, List.forall_mem_nil _, ht.lmedial⟩
        · have hsummary :=
            @summary_enter (SdpMedia.radd name proto) rfl port fmtv [] c.lmedial c
          rw [hsummary, hread]
          rfl
        · rw [hlength]
          change 0 = n - (offered.length + 1)
          rw [List.length_nil] at hleft
          omega
    | cons m next =>
      rw [hnext] at h hleft
      have hrfmtl := ht.next m (hnext ▸ List.mem_cons_self ..)
      have hothers : ∀ m' ∈ next, m'.rfmtl = [] :=
        fun m' hm' => ht.next m' (hnext ▸ List.mem_cons_of_mem _ hm')
      have hsummary := SdpMedia.summary_protoCmp proto true m
      simp only at h
      split at h
      · rename_i hname
        generalize m.protoCmp proto true = r at h hsummary
        obtain ⟨same, m'⟩ := r
        obtain ⟨hname', hids⟩ := Prod.mk.inj hsummary
        simp only at h hname' hids
        rw [hrfmtl] at hids
        obtain ⟨rfl, -⟩ := Prod.mk.inj h
        refine ⟨?_, ?_, hothers, ht.lmedial⟩
        · have henter := @summary_enter
            { m' with uproto := if same = true then none else some proto }
            (List.map_eq_nil_iff.mp hids) port fmtv next c.lmedial c
          rw [henter, hread]
          simp only [hname', hname]
        · rw [hlength]
          change next.length = n - (offered.length + 1)
          rw [List.length_cons] at hleft
          omega
      · exact absurd (Prod.mk.inj h).2 (by decide)
  · exact absurd (Prod.mk.inj h).2 (by decide)

theorem line_tracks [Inet] {type : UInt8} {val : Str} (h : c.line true type val = (c', 0))
    (ht : Tracks n offered c) :
    Tracks n (offered ++ (mediaOf (type, val)).toList) c' := by
  by_cases htype : type = 109
  · subst htype
    obtain ⟨o, ho, htracks⟩ := mediaDecode_tracks h ht
    rw [ho]
    exact htracks
  · have hkept := line_kept htype val c
    rw [h] at hkept
    have hnone : mediaOf (type, val) = none := if_neg htype
    rw [hnone, Option.toList_none, List.append_nil]
    exact hkept.tracks ht

theorem readLines_tracks [Inet] {ls : List SdpLine} (h : c.readLines true ls = (c', 0))
    (ht : Tracks n offered c) : Tracks n (offered ++ offeredMedia ls) c' := by
  induction ls generalizing c offered with
  | nil =>
    obtain ⟨rfl, -⟩ := Prod.mk.inj h
    change Tracks n (offered ++ []) c
    rw [List.append_nil]
    exact ht
  | cons l ls ih =>
    obtain ⟨type, val⟩ := l
    rw [readLines_cons] at h
    have hstep := @line_tracks n offered c (c.line true type val).1 _ type val
    generalize c.line true type val = r at h hstep
    obtain ⟨c'', err⟩ := r
    cases err with
    | zero =>
      have hrest := ih h (hstep rfl ht)
      have hcons : offeredMedia ((type, val) :: ls) =
          (mediaOf (type, val)).toList ++ offeredMedia ls := by
        unfold offeredMedia
        rw [List.filterMap_cons]
        cases mediaOf (type, val) <;> rfl
      rw [hcons, ← List.append_assoc]
      exact hrest
    | succ err => exact absurd (Prod.mk.inj h).2 (Nat.succ_ne_zero err)

/-! ### Lines under a protocol that is not known -/

def Declines (c : SdpCursor) : Prop :=
  (∀ m ∈ c.seen, m.Declined) ∧ (∀ m ∈ c.cur, m.Declined) ∧ ∀ m ∈ c.next, m.Declined

theorem Kept.declines (h : Kept c c') (hd : Declines c) : Declines c' :=
  ⟨h.seen ▸ hd.1, h.declined hd.2.1, h.next ▸ hd.2.2⟩

theorem enter_declines (m : SdpMedia) (port fmtv : Str) {next : List SdpMedia}
    (lmedial : List SdpMedia) (hd : Declines c)
    (hnext : ∀ m ∈ next, m.Declined) :
    Declines (c.enter m port fmtv next lmedial) := by
  obtain ⟨hseen, hcur, -⟩ := hd
  refine ⟨?_, ?_, hnext⟩
  · intro m' hm'
    change m' ∈ c.seen ++ c.cur.toList at hm'
    rw [List.mem_append, Option.mem_toList] at hm'
    exact hm'.elim (hseen m') (hcur m')
  · intro m' hm' huproto
    obtain rfl := Option.some.inj hm'
    change (c.raddr.setPort (if m.uproto.isSome = true then 0 else _)).port = 0
    rw [if_pos huproto]
    exact Sa.port_setPort_zero c.raddr

theorem line_declines [Inet] {type : UInt8} {val : Str} (h : c.line true type val = (c', 0))
    (hd : Declines c) : Declines c' := by
  by_cases htype : type = 109
  · subst htype
    change c.mediaDecode true val = (c', 0) at h
    unfold mediaDecode at h
    split at h
    · cases hnext : c.next with
      | nil =>
        rw [hnext] at h
        simp only [if_true] at h
        split at h
        · obtain ⟨rfl, -⟩ := Prod.mk.inj h
          exact enter_declines _ _ _ _ hd (List.forall_mem_nil _)
        · obtain ⟨rfl, -⟩ := Prod.mk.inj h
          exact enter_declines _ _ _ _ hd (List.forall_mem_nil _)
      | cons m next =>
        rw [hnext] at h
        simp only at h
        split at h
        · obtain ⟨rfl, -⟩ := Prod.mk.inj h
          apply enter_declines _ _ _ _ hd
          exact fun m' hm' => hd.2.2 m' (hnext ▸ List.mem_cons_of_mem _ hm')
        · exact absurd (Prod.mk.inj h).2 (by decide)
    · exact absurd (Prod.mk.inj h).2 (by decide)
  · have hkept := line_kept htype val c
    rw [h] at hkept
    exact hkept.declines hd

theorem readLines_declines [Inet] {ls : List SdpLine} (h : c.readLines true ls = (c', 0))
    (hd : Declines c) : Declines c' := by
  induction ls generalizing c with
  | nil =>
    obtain ⟨rfl, -⟩ := Prod.mk.inj h
    exact hd
  | cons l ls ih =>
    obtain ⟨type, val⟩ := l
    rw [readLines_cons] at h
    have hstep := @line_declines c (c.line true type val).1 _ type val
    generalize c.line true type val = r at h hstep
    obtain ⟨c'', err⟩ := r
    cases err with
    | zero => exact ih h (hstep rfl hd)
    | succ err => exact absurd (Prod.mk.inj h).2 (Nat.succ_ne_zero err)

end SdpCursor

/-! ### The answer to an offer -/

namespace SdpMedia

/-- A line is rejected where nothing of it is supported; what else is offered in the answer was
offered before, unless the line is not there for both sides. -/
theorem encode_answer (m : SdpMedia) : ∃ port proto fmts rest,
    (m.alignFormats true).encode false =
      (m.alignFormats true).mediaLine port proto fmts :: rest ∧
    (Shared m → port = 0 ∧ fmts = [utf8 "0"] ∨ fmts.Sublist (ids m.rfmtl)) := by
  have hfmts : (((m.alignFormats true).lfmtl.filter fun fmt => fmt.sup || false).map
      SdpFormat.id) = ids (supported (m.alignFormats true).lfmtl) := by
    simp only [Bool.or_false]
    rfl
  have hlines : ∀ disabled, ∃ rest, (m.alignFormats true).lines false disabled =
      (m.alignFormats true).mediaLine (m.alignFormats true).lport (m.alignFormats true).proto
        (ids (supported (m.alignFormats true).lfmtl)) :: rest := by
    intro disabled
    unfold lines
    rw [hfmts]
    exact ⟨_, rfl⟩
  unfold encode
  simp only
  split
  · obtain ⟨rest, hrest⟩ := hlines true
    exact ⟨_, _, _, rest, hrest, fun hm => .inr (alignFormats_sublist hm)⟩
  split
  · exact ⟨_, _, _, [], rfl, fun _ => .inl ⟨rfl, rfl⟩⟩
  · obtain ⟨rest, hrest⟩ := hlines false
    exact ⟨_, _, _, rest, hrest, fun hm => .inr (alignFormats_sublist hm)⟩

end SdpMedia

namespace SdpSession

theorem tracks_start {s : SdpSession} (h : ∀ m ∈ s.lmedial, m.rfmtl = []) :
    s.start.Tracks s.medial.length [] := by
  refine ⟨rfl, List.length_map .., ?_, h⟩
  intro m hm
  obtain ⟨m', -, rfl⟩ := List.mem_map.mp hm
  rfl

/-- A line of an answer that names what was offered. -/
def Answers (o : Str × List Str) (m : SdpMedia) : Prop :=
  ∃ port proto fmts rest, m.encode false = m.mediaLine port proto fmts :: rest ∧ m.name = o.1 ∧
    (SdpMedia.Shared m → port = 0 ∧ fmts = [utf8 "0"] ∨ fmts.Sublist o.2)

theorem answers_aligned (m : SdpMedia) : Answers m.summary (m.alignFormats true) := by
  obtain ⟨port, proto, fmts, rest, hencode, hfmts⟩ := m.encode_answer
  obtain ⟨lfmtl, rfmtl, halign, -⟩ := SdpMedia.alignFormats_eq true m
  refine ⟨port, proto, fmts, rest, hencode, ?_, ?_⟩
  · rw [halign]
    rfl
  · intro hshared
    apply hfmts
    rw [halign] at hshared
    exact hshared

/-- Whatever an offer says, the answer has a line for each line of it, in the same order and
under the same name, and takes its formats from there, in the order of the offer. -/
theorem answers_offer [Inet] {s s' : SdpSession} {pl : Str} {ls : List SdpLine}
    (hfresh : ∀ m ∈ s.lmedial, m.rfmtl = []) (hls : splitLines none pl = some ls)
    (hlines : s.medial.length ≤ (offeredMedia ls).length) (h : s.decode true pl = (s', 0)) :
    List.Forall₂ Answers (offeredMedia ls) s'.medial := by
  unfold decode read at h
  rw [SdpCursor.scan_split hls] at h
  have htracks := @SdpCursor.readLines_tracks s.medial.length [] s.start
    (s.start.readLines true ls).1 _ ls
  generalize s.start.readLines true ls = r at h htracks
  obtain ⟨c, err⟩ := r
  cases err with
  | succ err => exact absurd (Prod.mk.inj h).2 (Nat.succ_ne_zero err)
  | zero =>
    obtain ⟨rfl, -⟩ := Prod.mk.inj h
    have hc := htracks rfl (tracks_start hfresh)
    rw [List.nil_append] at hc
    have hread : (c.seen ++ c.cur.toList).map SdpMedia.summary = offeredMedia ls := hc.read
    have hleft : c.next.length = s.medial.length - (offeredMedia ls).length := hc.left
    have hnext : c.next = [] := List.eq_nil_of_length_eq_zero (by omega)
    simp only [back, hnext, List.append_nil]
    rw [← hread, List.forall₂_map_left_iff, List.forall₂_map_right_iff, List.forall₂_same]
    exact fun m _ => answers_aligned m

end SdpSession

end SimplePhone.Re
