import SimplePhone.Re.Regex

/-! `msg_param_decode` and `msg_param_exists`: a parameter is looked for wherever a
semicolon stands, be it in the value of another one. -/
namespace SimplePhone.Re

def semicolon : UInt8 := 59
def equals : UInt8 := 61

def blank : Class := .of " \t\r\n"

/-- Blanks and semicolons end a value, outside of quotations and not behind a backslash. -/
def valueClass : Class := .unquoted " \t\r\n;"

/-- `;[ \t\r\n]*%s` -/
def nameItems (name : Str) : List Item :=
  .chr semicolon :: .cls blank .star :: literal name

/-- `;[ \t\r\n]*%s[ \t\r\n]*=[ \t\r\n]*` -/
def paramItems (name : Str) : List Item :=
  nameItems name ++ [.cls blank .star, .chr equals, .cls blank .star]

def msgParamDecode (params name : Str) : Option Str :=
  match reRegex (paramItems name ++ [.cls valueClass .plus]) params with
  | some ([_, _, _, v], _) => some v
  | _ => none

def nameEnd : Class := .of " \t\r\n;="

def msgParamExists (params name : Str) : Bool :=
  match reRegex (nameItems name ++ [.cls nameEnd .star]) params with
  | some ([_, v], rest) => !v.isEmpty || rest.isEmpty
  | _ => false

/-- The parameter is found here, with a value. -/
def ParamAt (name s : Str) : Prop :=
  ∃ captures rest, run (paramItems name ++ [.cls valueClass .plus]) s = .matched captures rest

/-- The parameter is found here, with a value or without. -/
def NameAt (name s : Str) : Prop :=
  ∃ w v rest, run (nameItems name ++ [.cls nameEnd .star]) s = .matched [w, v] rest ∧
    (v ≠ [] ∨ rest = [])

variable {items : List Item} {s t rest name : Str} {captures : List Str}

/-! ### In front of a semicolon -/

/-- Nothing here takes a semicolon. -/
def Barred : Item → Prop
  | .chr b => lower b ≠ semicolon
  | .cls c _ => c.quotes = false ∧ c.has semicolon = false

/-- How the items match a text that a semicolon ends. -/
def advance : List Item → Str → Option (List Str × Str)
  | [], s => some ([], s)
  | .chr _ :: _, [] => none
  | .chr a :: items, b :: s => if lower a = lower b then advance items s else none
  | .cls c n :: items, s =>
      if n = .plus ∧ s.takeWhile c.has = [] then none
      else (advance items (s.dropWhile c.has)).map fun p => (s.takeWhile c.has :: p.1, p.2)

theorem lower_semicolon : lower semicolon = semicolon := by decide

theorem run_barred {front : List Item} (hfront : ∀ item ∈ front, Barred item) (items : List Item)
    (s r : Str) : run (front ++ items) (s ++ semicolon :: r) =
      match advance front s with
      | none => .again
      | some (vs, t) => vs.foldr Outcome.cons (run items (t ++ semicolon :: r)) := by
  induction front generalizing s with
  | nil => rfl
  | cons item front ih =>
    have hrest := ih fun i hi => hfront i (List.mem_cons_of_mem item hi)
    have hitem := hfront item List.mem_cons_self
    rw [List.cons_append]
    cases item with
    | chr a =>
      cases s with
      | nil =>
        rw [List.nil_append, run_chr, lower_semicolon, if_neg hitem]
        rfl
      | cons b s =>
        rw [List.cons_append, run_chr]
        unfold advance
        split
        · exact hrest s
        · rfl
    | cls c n =>
      obtain ⟨hquotes, hbar⟩ := hitem
      have htake : (s ++ semicolon :: r).takeWhile c.has = s.takeWhile c.has := by
        rw [List.takeWhile_append]
        split
        next hall =>
          rw [List.takeWhile_cons_of_neg (by simp [hbar]), List.append_nil]
          exact (List.takeWhile_prefix c.has).eq_of_length hall |>.symm
        next => rfl
      have hdrop : (s ++ semicolon :: r).dropWhile c.has =
          s.dropWhile c.has ++ semicolon :: r := by
        rw [List.dropWhile_append]
        split
        next hall =>
          rw [List.dropWhile_cons_of_neg (by simp [hbar]), List.isEmpty_iff.mp hall,
            List.nil_append]
        next => rfl
      rw [run_cls hquotes, htake, hdrop]
      unfold advance
      split
      · rfl
      · rw [hrest]
        cases advance front (s.dropWhile c.has) with
        | none => rfl
        | some p => rfl

/-- A name of letters that a parameter may have. -/
def Plain (name : Str) : Prop :=
  name ≠ [] ∧ ∀ b ∈ name, lower b = b ∧ b ≠ semicolon ∧ b ≠ equals ∧ blank.has b = false

instance (name : Str) : Decidable (Plain name) := inferInstanceAs (Decidable (_ ∧ _))

theorem barred_nameItems (hname : Plain name) : ∀ item ∈ (nameItems name).tail, Barred item := by
  intro item hitem
  rcases List.mem_cons.mp hitem with rfl | hitem
  · exact ⟨rfl, by decide⟩
  · obtain ⟨b, hb, rfl⟩ := List.mem_map.mp hitem
    obtain ⟨hlower, hsemicolon, -⟩ := hname.2 b hb
    change lower b ≠ semicolon
    rw [hlower]
    exact hsemicolon

theorem barred_paramItems (hname : Plain name) :
    ∀ item ∈ (paramItems name).tail, Barred item := by
  intro item hitem
  rcases List.mem_append.mp hitem with hitem | hitem
  · exact barred_nameItems hname item hitem
  · simp only [List.mem_cons, List.not_mem_nil, or_false] at hitem
    rcases hitem with rfl | rfl | rfl
    · exact ⟨rfl, by decide⟩
    · exact (by decide : lower equals ≠ semicolon)
    · exact ⟨rfl, by decide⟩

/-! ### Values -/

/-- One byte of a value, inside a quotation or behind a backslash, or not. -/
def scanByte (quoted escaped : Bool) (b : UInt8) : Option (Bool × Bool) :=
  if escaped then some (quoted, false)
  else if b = backslash then some (quoted, true)
  else if b = quote then some (!quoted, false)
  else if quoted || valueClass.has b then some (quoted, false)
  else none

def scan : Bool → Bool → Str → Option (Bool × Bool)
  | quoted, escaped, [] => some (quoted, escaped)
  | quoted, escaped, b :: s => (scanByte quoted escaped b).bind fun p => scan p.1 p.2 s

/-- A value that is read as it is: no blank or semicolon outside of quotations that is not
escaped, no quotation and no escape left open, and not in quotes as a whole. -/
def Whole (s : Str) : Prop := s ≠ [] ∧ scan false false s = some (false, false) ∧ stripQuotes s = s

instance (s : Str) : Decidable (Whole s) := inferInstanceAs (Decidable (_ ∧ _))

/-- The value behind an equals sign. -/
def readValue (s : Str) : Str := stripQuotes (valueClass.span false false (s.dropWhile blank.has)).1

theorem span_cons (quoted escaped : Bool) (b : UInt8) (s : Str) :
    valueClass.span quoted escaped (b :: s) =
      match scanByte quoted escaped b with
      | some p => (valueClass.span p.1 p.2 s).map (b :: ·) id
      | none => ([], b :: s) := by
  conv_lhs => unfold Class.span
  unfold scanByte
  simp only [show valueClass.quotes = true from rfl, Bool.true_and, decide_eq_true_eq]
  split
  · rfl
  · split
    · rfl
    · split
      · rfl
      · split <;> rfl

theorem scan_cons (quoted escaped : Bool) (b : UInt8) (s : Str) : scan quoted escaped (b :: s) =
    (scanByte quoted escaped b).bind fun p => scan p.1 p.2 s := rfl

theorem span_append (quoted escaped : Bool) (s t : Str) :
    (valueClass.span quoted escaped (s ++ t)).1 =
      match scan quoted escaped s with
      | some (q, e) => s ++ (valueClass.span q e t).1
      | none => (valueClass.span quoted escaped s).1 := by
  induction s generalizing quoted escaped with
  | nil => rfl
  | cons b s ih =>
    rw [List.cons_append, span_cons, scan_cons, span_cons]
    cases scanByte quoted escaped b with
    | none => rfl
    | some p =>
      simp only [Prod.map_fst, Option.bind_some, ih]
      cases scan p.1 p.2 s <;> rfl

theorem span_append_snd (quoted escaped : Bool) (s : Str) :
    (valueClass.span quoted escaped s).1 ++ (valueClass.span quoted escaped s).2 = s := by
  induction s generalizing quoted escaped with
  | nil => rfl
  | cons b s ih =>
    rw [span_cons]
    cases scanByte quoted escaped b with
    | none => rfl
    | some p => exact congrArg (b :: ·) (ih p.1 p.2)

theorem length_span_of_stop {quoted escaped : Bool} {s : Str} (h : scan quoted escaped s = none) :
    (valueClass.span quoted escaped s).1.length < s.length := by
  induction s generalizing quoted escaped with
  | nil => cases h
  | cons b s ih =>
    rw [scan_cons] at h
    rw [span_cons]
    cases hb : scanByte quoted escaped b with
    | none => exact Nat.succ_pos _
    | some p =>
      rw [hb] at h
      exact Nat.succ_lt_succ (ih h)

/-- A semicolon is taken inside a quotation and behind a backslash only. -/
theorem scanByte_semicolon (quoted escaped : Bool) :
    scanByte quoted escaped semicolon = none ↔ quoted = false ∧ escaped = false := by
  cases quoted <;> cases escaped <;> decide

theorem span_semicolon (r : Str) : (valueClass.span false false (semicolon :: r)).1 = [] := by
  rw [span_cons, (scanByte_semicolon false false).mpr ⟨rfl, rfl⟩]

theorem span_eq_iff (s r : Str) : (valueClass.span false false (s ++ semicolon :: r)).1 = s ↔
    scan false false s = some (false, false) := by
  rw [span_append]
  cases h : scan false false s with
  | none =>
    refine iff_of_false ?_ nofun
    intro heq
    have hlt := length_span_of_stop h
    simp only at heq
    rw [heq] at hlt
    exact Nat.lt_irrefl _ hlt
  | some p =>
    obtain ⟨quoted, escaped⟩ := p
    simp only [List.append_right_eq_self, Option.some.injEq, Prod.mk.injEq]
    rw [← scanByte_semicolon, span_cons]
    cases scanByte quoted escaped semicolon with
    | none => simp
    | some q => simp

theorem stripQuotes_cases (s : Str) : stripQuotes s = s ∨ s = quote :: (stripQuotes s ++ [quote]) := by
  unfold stripQuotes
  split
  next h =>
    obtain ⟨hlength, hhead, hlast⟩ := h
    right
    cases s with
    | nil => cases hhead
    | cons b s =>
      cases hhead
      have hs : s ≠ [] := by
        rintro rfl
        exact absurd hlength (by decide)
      rw [List.getLast?_cons_of_ne_nil hs, List.getLast?_eq_some_getLast hs] at hlast
      rw [List.tail_cons]
      have hdrop := List.dropLast_append_getLast hs
      rw [Option.some.inj hlast] at hdrop
      rw [hdrop]
  next => exact .inl rfl

theorem stripQuotes_eq_nil {s : Str} : stripQuotes s = [] ↔ s = [] ∨ s = [quote, quote] := by
  constructor
  · intro h
    rcases stripQuotes_cases s with heq | heq
    · exact .inl (heq.symm.trans h)
    · rw [h] at heq
      exact .inr heq
  · rintro (rfl | rfl) <;> rfl

theorem blank_has {b : UInt8} (h : blank.has b = true) : b = 32 ∨ b = 9 ∨ b = 13 ∨ b = 10 := by
  have hmem : lower b ∈ [(32 : UInt8), 9, 13, 10] := (of_has " \t\r\n" b).mp h
  simp only [List.mem_cons, List.not_mem_nil, or_false] at hmem
  rcases hmem with hb | hb | hb | hb
  · exact .inl ((lower_eq_iff (by decide)).mp hb)
  · exact .inr (.inl ((lower_eq_iff (by decide)).mp hb))
  · exact .inr (.inr (.inl ((lower_eq_iff (by decide)).mp hb)))
  · exact .inr (.inr (.inr ((lower_eq_iff (by decide)).mp hb)))

theorem blank_stops {b : UInt8} (h : blank.has b = true) : scanByte false false b = none := by
  rcases blank_has h with rfl | rfl | rfl | rfl <;> decide

/-- A whole value is read as it is, and nothing else is: in particular not what is left
of another value without its quotes. -/
theorem readValue_eq_iff {s : Str} (hs : s ≠ []) (r : Str) :
    readValue (s ++ semicolon :: r) = s ↔ Whole s := by
  unfold readValue
  constructor
  · intro h
    have hpre := span_append_snd false false ((s ++ semicolon :: r).dropWhile blank.has)
    rcases stripQuotes_cases
      (valueClass.span false false ((s ++ semicolon :: r).dropWhile blank.has)).1 with heq | heq
    · rw [h] at heq
      obtain ⟨b, s, rfl⟩ := List.exists_cons_of_ne_nil hs
      have hb : blank.has b = false := by
        rw [← heq, List.cons_append] at hpre
        have hhead := List.head?_dropWhile_not blank.has (b :: s ++ semicolon :: r)
        rw [← hpre] at hhead
        simpa using hhead
      rw [List.cons_append, List.dropWhile_cons_of_neg (by simp [hb])] at heq
      have hspan : (valueClass.span false false (b :: s ++ semicolon :: r)).1 = b :: s := heq.symm
      refine ⟨hs, (span_eq_iff (b :: s) r).mp hspan, ?_⟩
      rw [List.cons_append, List.dropWhile_cons_of_neg (by simp [hb])] at h
      rw [← List.cons_append, hspan] at h
      exact h
    · -- the quotes and blanks at the front are one too many
      rw [h] at heq
      exfalso
      let f : UInt8 → Bool := fun b => decide (b = quote) || blank.has b
      have hquote : f quote = true := by simp [f]
      have hsemicolon : f semicolon = false := by decide
      have hleft : ((s ++ semicolon :: r).takeWhile f).length = (s.takeWhile f).length := by
        rw [List.takeWhile_append]
        split
        next hall =>
          rw [List.takeWhile_cons_of_neg (by simp [hsemicolon]), List.append_nil, hall]
        next => rfl
      have hsplit : (s ++ semicolon :: r).takeWhile f =
          (s ++ semicolon :: r).takeWhile blank.has ++
            ((s ++ semicolon :: r).dropWhile blank.has).takeWhile f := by
        conv_lhs => rw [← List.takeWhile_append_dropWhile (p := blank.has) (l := s ++ semicolon :: r)]
        refine List.takeWhile_append_of_pos fun b hb => ?_
        simp [f, List.mem_takeWhile_imp hb]
      have hright : (s.takeWhile f).length <
          (((s ++ semicolon :: r).dropWhile blank.has).takeWhile f).length := by
        rw [← hpre, heq, List.cons_append, List.takeWhile_cons_of_pos hquote, List.append_assoc,
          List.length_cons]
        refine Nat.lt_succ_of_le ?_
        rw [List.takeWhile_append]
        split
        next hall =>
          rw [List.length_append]
          omega
        next => exact Nat.le_refl _
      rw [hsplit, List.length_append] at hleft
      omega
  · rintro ⟨-, hscan, hstrip⟩
    obtain ⟨b, s, rfl⟩ := List.exists_cons_of_ne_nil hs
    have hb : blank.has b = false := by
      cases hb : blank.has b with
      | false => rfl
      | true =>
        rw [scan_cons, blank_stops hb] at hscan
        cases hscan
    rw [List.cons_append, List.dropWhile_cons_of_neg (by simp [hb]), ← List.cons_append,
      (span_eq_iff (b :: s) r).mpr hscan]
    exact hstrip

/-! ### Where a parameter is found -/

theorem run_blank_nil {items : List Item} {t : Str} (ht : ∀ b ∈ t.head?, blank.has b = false) :
    run (.cls blank .star :: items) t = (run items t).cons [] :=
  run_cls_append (s := []) (n := .star) rfl nofun ht nofun

theorem run_value (x : Str) : run [.cls blank .star, .cls valueClass .plus] x =
    if readValue x = [] then .again
    else .matched [x.takeWhile blank.has, readValue x]
      (valueClass.span false false (x.dropWhile blank.has)).2 := by
  have hstar : ¬ (Count.star = .plus ∧ x.takeWhile blank.has = []) := fun h => nomatch h.1
  rw [run_cls rfl, if_neg hstar]
  simp only [run, show valueClass.quotes = true from rfl, if_true, true_and]
  change Outcome.cons _ (if readValue x = [] then _ else _) = _
  split <;> rfl

theorem run_literal (name : Str) (items : List Item) (t : Str) :
    run (literal name ++ items) (name ++ t) = run items t := by
  induction name with
  | nil => rfl
  | cons b name ih =>
    change run (.chr b :: (literal name ++ items)) (b :: (name ++ t)) = _
    rw [run_chr, if_pos rfl]
    exact ih

theorem paramItems_append (name : Str) (items : List Item) : paramItems name ++ items =
    .chr semicolon :: .cls blank .star :: (literal name ++
      .cls blank .star :: .chr equals :: .cls blank .star :: items) := by
  simp only [paramItems, nameItems, List.cons_append, List.append_assoc, List.nil_append]

/-- A parameter where it was written. -/
theorem run_param_own (hname : Plain name) (x : Str) :
    run (paramItems name ++ [.cls valueClass .plus]) (semicolon :: (name ++ equals :: x)) =
      if readValue x = [] then .again
      else .matched [[], [], x.takeWhile blank.has, readValue x]
        (valueClass.span false false (x.dropWhile blank.has)).2 := by
  obtain ⟨b, name, rfl⟩ := List.exists_cons_of_ne_nil hname.1
  have hb : ∀ c ∈ (b :: name ++ equals :: x).head?, blank.has c = false := by
    rintro _ ⟨⟩
    exact (hname.2 b List.mem_cons_self).2.2.2
  have hequals : ∀ c ∈ (equals :: x).head?, blank.has c = false := by
    rintro _ ⟨⟩
    decide
  rw [paramItems_append, run_chr, if_pos rfl, run_blank_nil hb, run_literal, run_blank_nil hequals, run_chr,
    if_pos rfl, run_value]
  split <;> rfl

/-- The names of two parameters differ before the equals sign. -/
theorem run_literal_ne {name name' : Str} (hname : ∀ b ∈ name, lower b = b ∧ b ≠ equals)
    (hname' : ∀ b ∈ name', lower b = b ∧ b ≠ equals ∧ blank.has b = false) (hne : name ≠ name')
    (items : List Item) (x : Str) :
    run (literal name ++ .cls blank .star :: .chr equals :: items) (name' ++ equals :: x) =
      .again := by
  induction name generalizing name' with
  | nil =>
    obtain ⟨c, name', rfl⟩ := List.exists_cons_of_ne_nil hne.symm
    obtain ⟨hlower, hequals, hblank⟩ := hname' c List.mem_cons_self
    change run (.cls blank .star :: .chr equals :: items) (c :: (name' ++ equals :: x)) = _
    rw [run_blank_nil (by rintro _ ⟨⟩; exact hblank), run_chr, hlower, if_neg]
    · rfl
    · exact fun h => hequals h.symm
  | cons b name ih =>
    obtain ⟨hlower, hequals⟩ := hname b List.mem_cons_self
    change run (.chr b :: (literal name ++ .cls blank .star :: .chr equals :: items)) _ = _
    cases name' with
    | nil =>
      rw [List.nil_append, run_chr, hlower, if_neg]
      exact fun h => hequals h
    | cons c name' =>
      rw [List.cons_append, run_chr, hlower, (hname' c List.mem_cons_self).1]
      split
      next heq =>
        subst heq
        exact ih (fun d hd => hname d (List.mem_cons_of_mem b hd))
          (fun d hd => hname' d (List.mem_cons_of_mem b hd)) fun heq => hne (by rw [heq])
      next => rfl

theorem run_param_other {name' : Str} (hname : Plain name) (hname' : Plain name')
    (hne : name ≠ name') (x : Str) : run (paramItems name ++ [.cls valueClass .plus])
      (semicolon :: (name' ++ equals :: x)) = .again := by
  obtain ⟨b, rest, hrest⟩ := List.exists_cons_of_ne_nil hname'.1
  have hb : ∀ c ∈ (name' ++ equals :: x).head?, blank.has c = false := by
    rw [hrest]
    rintro _ ⟨⟩
    exact (hname'.2 b (hrest ▸ List.mem_cons_self)).2.2.2
  rw [paramItems_append, run_chr, if_pos rfl, run_blank_nil hb, run_literal_ne
    (fun c hc => ⟨(hname.2 c hc).1, (hname.2 c hc).2.2.1⟩)
    (fun c hc => ⟨(hname'.2 c hc).1, (hname'.2 c hc).2.2⟩) hne]
  rfl

theorem run_of_ne_semicolon {b : UInt8} (hb : b ≠ semicolon) (name : Str) (items : List Item)
    (s : Str) : run (nameItems name ++ items) (b :: s) = .again := by
  change run (.chr semicolon :: _) (b :: s) = _
  rw [run_chr, if_neg]
  rw [lower_semicolon]
  exact fun h => hb ((lower_eq_iff (by decide)).mp h.symm)

/-! ### Inside a value -/

/-- Whether anything is read does not depend on what comes behind the value. -/
theorem value_eq_nil_iff (u r : Str) :
    stripQuotes (valueClass.span false false (u ++ semicolon :: r)).1 = [] ↔
      stripQuotes (valueClass.span false false (u ++ [semicolon])).1 = [] := by
  rw [stripQuotes_eq_nil, stripQuotes_eq_nil, span_append, span_append]
  cases scan false false u with
  | none => rfl
  | some p =>
    obtain ⟨quoted, escaped⟩ := p
    simp only [span_cons]
    cases scanByte quoted escaped semicolon with
    | none => rfl
    | some q =>
      have hno (v : Str) : ¬ (u ++ semicolon :: v = [] ∨ u ++ semicolon :: v = [quote, quote]) := by
        rintro (h | h)
        · simp at h
        · have hmem : semicolon ∈ [quote, quote] := h ▸ by simp
          exact absurd hmem (by decide)
      exact iff_of_false (hno _) (hno _)

theorem run_value_only (u : Str) : run [.cls valueClass .plus] u =
    if stripQuotes (valueClass.span false false u).1 = [] then .again
    else .matched [stripQuotes (valueClass.span false false u).1]
      (valueClass.span false false u).2 := by
  simp only [run, show valueClass.quotes = true from rfl, if_true, true_and]
  split <;> rfl

theorem foldr_cons_matched (vs captures : List Str) (rest : Str) :
    vs.foldr Outcome.cons (.matched captures rest) = .matched (vs ++ captures) rest := by
  induction vs with
  | nil => rfl
  | cons v vs ih => rw [List.foldr_cons, ih, List.cons_append]; rfl

theorem foldr_cons_again (vs : List Str) : vs.foldr Outcome.cons .again = .again := by
  induction vs with
  | nil => rfl
  | cons v vs ih => rw [List.foldr_cons, ih]; rfl

/-- The run of a parameter inside a value: it is found here or not, and the search goes on. -/
theorem run_param_inside (hname : Plain name) (t r : Str) :
    run (paramItems name ++ [.cls valueClass .plus]) (semicolon :: (t ++ semicolon :: r)) =
      match advance (paramItems name).tail t with
      | none => .again
      | some (vs, u) =>
          if stripQuotes (valueClass.span false false (u ++ semicolon :: r)).1 = [] then .again
          else .matched
            (vs ++ [stripQuotes (valueClass.span false false (u ++ semicolon :: r)).1])
            (valueClass.span false false (u ++ semicolon :: r)).2 := by
  change run (.chr semicolon :: ((paramItems name).tail ++ [.cls valueClass .plus])) _ = _
  rw [run_chr, if_pos rfl, run_barred (barred_paramItems hname)]
  cases advance (paramItems name).tail t with
  | none => rfl
  | some p =>
    simp only [run_value_only]
    split
    · exact foldr_cons_again p.1
    · exact foldr_cons_matched p.1 _ _

theorem run_param_again_or (hname : Plain name) {t : Str} (ht : t ≠ []) (r : Str) :
    run (paramItems name ++ [.cls valueClass .plus]) (t ++ semicolon :: r) = .again ∨
      ParamAt name (t ++ semicolon :: r) := by
  obtain ⟨b, t, rfl⟩ := List.exists_cons_of_ne_nil ht
  by_cases hb : b = semicolon
  · subst hb
    unfold ParamAt
    rw [List.cons_append, run_param_inside hname]
    cases advance (paramItems name).tail t with
    | none => exact .inl rfl
    | some p =>
      simp only
      split
      · exact .inl rfl
      · exact .inr ⟨_, _, rfl⟩
  · refine .inl ?_
    rw [paramItems, List.append_assoc]
    exact run_of_ne_semicolon hb name _ _

theorem paramAt_inside (hname : Plain name) {t : Str} (ht : t ≠ []) (r : Str) :
    ParamAt name (t ++ semicolon :: r) ↔ ParamAt name (t ++ [semicolon]) := by
  obtain ⟨b, t, rfl⟩ := List.exists_cons_of_ne_nil ht
  by_cases hb : b = semicolon
  · subst hb
    unfold ParamAt
    rw [List.cons_append, List.cons_append, run_param_inside hname, run_param_inside hname]
    cases advance (paramItems name).tail t with
    | none => exact Iff.rfl
    | some p =>
      simp only [value_eq_nil_iff p.2 r]
      split
      · exact iff_of_false (by rintro ⟨_, _, ⟨⟩⟩) (by rintro ⟨_, _, ⟨⟩⟩)
      · exact iff_of_true ⟨_, _, rfl⟩ ⟨_, _, rfl⟩
  · have hnone (s : Str) : ¬ ParamAt name (b :: s) := by
      rintro ⟨captures, rest, h⟩
      rw [paramItems, List.append_assoc, run_of_ne_semicolon hb] at h
      cases h
    exact iff_of_false (hnone _) (hnone _)

theorem not_paramAt_of_ne_semicolon {b : UInt8} (hb : b ≠ semicolon) (name s : Str) :
    ¬ ParamAt name (b :: s) := by
  rintro ⟨captures, rest, h⟩
  rw [paramItems, List.append_assoc, run_of_ne_semicolon hb] at h
  cases h

/-! ### Names without a value -/

theorem classes_literal (name : Str) : classes (literal name) = [] := by
  induction name with
  | nil => rfl
  | cons b name ih => exact ih

theorem length_of_advance {items : List Item} {s t : Str} {vs : List Str}
    (h : advance items s = some (vs, t)) : vs.length = (classes items).length := by
  induction items generalizing s vs with
  | nil =>
    cases h
    rfl
  | cons item items ih =>
    cases item with
    | chr a =>
      cases s with
      | nil => cases h
      | cons b s =>
        unfold advance at h
        split at h
        · exact ih h
        · cases h
    | cls c n =>
      unfold advance at h
      split at h
      · cases h
      · obtain ⟨p, hp, heq⟩ := Option.map_eq_some_iff.mp h
        cases heq
        exact congrArg Nat.succ (ih hp)

theorem run_name_inside (hname : Plain name) (t r : Str) :
    run (nameItems name ++ [.cls nameEnd .star]) (semicolon :: (t ++ semicolon :: r)) =
      match advance (nameItems name).tail t with
      | none => .again
      | some (vs, u) => .matched (vs ++ [(u ++ semicolon :: r).takeWhile nameEnd.has])
          ((u ++ semicolon :: r).dropWhile nameEnd.has) := by
  change run (.chr semicolon :: ((nameItems name).tail ++ [.cls nameEnd .star])) _ = _
  rw [run_chr, if_pos rfl, run_barred (barred_nameItems hname)]
  cases advance (nameItems name).tail t with
  | none => rfl
  | some p =>
    simp only
    rw [run_cls rfl, if_neg fun h => nomatch h.1]
    exact foldr_cons_matched p.1 _ _

theorem not_nameAt_of_ne_semicolon {b : UInt8} (hb : b ≠ semicolon) (name s : Str) :
    ¬ NameAt name (b :: s) := by
  rintro ⟨w, v, rest, h, -⟩
  rw [run_of_ne_semicolon hb] at h
  cases h

theorem nameAt_inside (hname : Plain name) {t : Str} (ht : t ≠ []) (r : Str) :
    NameAt name (t ++ semicolon :: r) ↔ NameAt name (t ++ [semicolon]) := by
  obtain ⟨b, t, rfl⟩ := List.exists_cons_of_ne_nil ht
  by_cases hb : b = semicolon
  · subst hb
    -- what follows the name is in the value, or the semicolon behind it
    have hkey (r : Str) : NameAt name (semicolon :: (t ++ semicolon :: r)) ↔
        ∃ vs u, advance (nameItems name).tail t = some (vs, u) ∧
          ∃ c ∈ (u ++ [semicolon]).head?, nameEnd.has c = true := by
      unfold NameAt
      rw [run_name_inside hname]
      cases hadvance : advance (nameItems name).tail t with
      | none => simp
      | some p =>
        obtain ⟨vs, u⟩ := p
        have hlength : vs.length = 1 := by
          have hclasses : classes (nameItems name).tail = [(blank, .star)] := by
            change (blank, Count.star) :: classes (literal name) = _
            rw [classes_literal]
          rw [length_of_advance hadvance, hclasses]
          rfl
        obtain ⟨w, rfl⟩ := List.length_eq_one_iff.mp hlength
        obtain ⟨c, u', hu⟩ : ∃ c u', u ++ semicolon :: r = c :: u' ∧
            (u ++ [semicolon]).head? = some c := by
          cases u with
          | nil => exact ⟨semicolon, r, rfl, rfl⟩
          | cons c u => exact ⟨c, u ++ semicolon :: r, rfl, rfl⟩
        simp only [hu.1]
        cases hc : nameEnd.has c with
        | true =>
          refine iff_of_true ⟨w, _, _, rfl, .inl ?_⟩ ⟨_, _, rfl, c, hu.2, hc⟩
          rw [List.takeWhile_cons_of_pos hc]
          exact List.cons_ne_nil _ _
        | false =>
          refine iff_of_false ?_ ?_
          · rintro ⟨w', v, rest, h, hend⟩
            rw [List.takeWhile_cons_of_neg (by simp [hc]),
              List.dropWhile_cons_of_neg (by simp [hc])] at h
            cases h
            rcases hend with h | h
            · exact h rfl
            · cases h
          · rintro ⟨vs', u'', heq, c', hc', hhas⟩
            cases heq
            rw [hu.2] at hc'
            cases hc'
            rw [hc] at hhas
            cases hhas
    rw [List.cons_append, List.cons_append, hkey, hkey]
  · exact iff_of_false (not_nameAt_of_ne_semicolon hb name _)
      (not_nameAt_of_ne_semicolon hb name _)

theorem nameEnd_of_plain (hname : Plain name) {b : UInt8} (hb : b ∈ name) :
    nameEnd.has b = false := by
  obtain ⟨hlower, hsemicolon, hequals, hblank⟩ := hname.2 b hb
  have hmem : lower b ∉ [(32 : UInt8), 9, 13, 10] :=
    fun h => Bool.false_ne_true (hblank.symm.trans ((of_has " \t\r\n" b).mpr h))
  cases hb : nameEnd.has b with
  | false => rfl
  | true =>
    have hin : lower b ∈ [(32 : UInt8), 9, 13, 10] ++ [semicolon, equals] :=
      (of_has " \t\r\n;=" b).mp hb
    rcases List.mem_append.mp hin with h | h
    · exact absurd h hmem
    · rw [hlower] at h
      simp only [List.mem_cons, List.not_mem_nil, or_false] at h
      exact (h.elim hsemicolon hequals).elim

theorem not_nameAt_other {name' : Str} (hname : Plain name) (hname' : Plain name')
    (hne : name ≠ name') (x : Str) : ¬ NameAt name (semicolon :: (name' ++ equals :: x)) := by
  have hliteral (n n' : Str) (hn : ∀ b ∈ n, lower b = b ∧ b ≠ equals)
      (hn' : ∀ b ∈ n', lower b = b ∧ nameEnd.has b = false) (hne : n ≠ n') :
      run (literal n ++ [.cls nameEnd .star]) (n' ++ equals :: x) = .again ∨
        ∃ rest, run (literal n ++ [.cls nameEnd .star]) (n' ++ equals :: x) =
          .matched [[]] rest ∧ rest ≠ [] := by
    induction n generalizing n' with
    | nil =>
      obtain ⟨c, n', rfl⟩ := List.exists_cons_of_ne_nil hne.symm
      refine .inr ⟨c :: (n' ++ equals :: x), ?_, List.cons_ne_nil _ _⟩
      exact run_cls_append (s := []) (n := .star) rfl nofun
        (by rintro _ ⟨⟩; exact (hn' c List.mem_cons_self).2) nofun
    | cons b n ih =>
      obtain ⟨hlower, hequals⟩ := hn b List.mem_cons_self
      change run (.chr b :: (literal n ++ [.cls nameEnd .star])) _ = .again ∨ ∃ rest,
        run (.chr b :: (literal n ++ [.cls nameEnd .star])) _ = _ ∧ _
      cases n' with
      | nil =>
        refine .inl ?_
        rw [List.nil_append, run_chr, hlower, if_neg]
        exact hequals
      | cons c n' =>
        simp only [List.cons_append, run_chr, hlower, (hn' c List.mem_cons_self).1]
        split
        next heq =>
          subst heq
          exact ih n' (fun d hd => hn d (List.mem_cons_of_mem b hd))
            (fun d hd => hn' d (List.mem_cons_of_mem b hd)) fun heq => hne (by rw [heq])
        next => exact .inl rfl
  obtain ⟨b, name', rfl⟩ := List.exists_cons_of_ne_nil hname'.1
  have hb : ∀ c ∈ (b :: name' ++ equals :: x).head?, blank.has c = false := by
    rintro _ ⟨⟩
    exact (hname'.2 b List.mem_cons_self).2.2.2
  rintro ⟨w, v, rest, h, hend⟩
  change run (.chr semicolon :: .cls blank .star :: (literal name ++ [.cls nameEnd .star])) _ = _
    at h
  rw [run_chr, if_pos rfl, run_blank_nil hb] at h
  rcases hliteral name (b :: name') (fun c hc => ⟨(hname.2 c hc).1, (hname.2 c hc).2.2.1⟩)
    (fun c hc => ⟨(hname'.2 c hc).1, nameEnd_of_plain hname' hc⟩) hne with
    hagain | ⟨rest', hmatched, hrest⟩
  · rw [hagain] at h
    cases h
  · rw [hmatched] at h
    cases h
    rcases hend with hv | hr
    · exact hv rfl
    · exact hrest hr

/-! ### Parameters one after the other -/

/-- The parameter is not found in a value, however its text goes on behind it. -/
def Hidden (name x : Str) : Prop := ∀ t, t ≠ [] → t <:+ x → ¬ ParamAt name (t ++ [semicolon])

/-- The run of the parameter is over inside the value of another one, or inside its own. -/
theorem reRegex_value (hname : Plain name) {x : Str} (hx : Hidden name x) (before r : Str)
    (hbefore : semicolon ∉ before) :
    reRegex (paramItems name ++ [.cls valueClass .plus]) (before ++ (x ++ semicolon :: r)) =
      reRegex (paramItems name ++ [.cls valueClass .plus]) (semicolon :: r) := by
  rw [reRegex_skip, reRegex_skip]
  · intro t ht hsuffix
    refine (run_param_again_or hname ht r).resolve_right fun hat => ?_
    exact hx t ht hsuffix ((paramAt_inside hname ht r).mp hat)
  · intro t ht hsuffix
    obtain ⟨b, t, rfl⟩ := List.exists_cons_of_ne_nil ht
    have hb : b ≠ semicolon := by
      rintro rfl
      exact hbefore (hsuffix.subset List.mem_cons_self)
    rw [List.cons_append, paramItems, List.append_assoc]
    exact run_of_ne_semicolon hb name _ _

theorem semicolon_not_mem (hname : Plain name) : semicolon ∉ name ++ [equals] := by
  intro hmem
  rcases List.mem_append.mp hmem with h | h
  · exact (hname.2 semicolon h).2.1 rfl
  · exact absurd (List.mem_singleton.mp h) (by decide)

theorem msgParamDecode_other {name' x : Str} (hname : Plain name) (hname' : Plain name')
    (hne : name ≠ name') (hx : Hidden name x) (r : Str) :
    msgParamDecode (semicolon :: (name' ++ equals :: (x ++ semicolon :: r))) name =
      msgParamDecode (semicolon :: r) name := by
  have hskip := reRegex_of_again (run_param_other hname hname' hne (x ++ semicolon :: r))
  have hvalue := reRegex_value hname hx (name' ++ [equals]) r (semicolon_not_mem hname')
  rw [List.append_assoc, List.singleton_append] at hvalue
  unfold msgParamDecode
  rw [hskip, hvalue]

theorem msgParamDecode_own {x r : Str} (hname : Plain name) (hx : Hidden name x)
    (hr : msgParamDecode (semicolon :: r) name = none) :
    msgParamDecode (semicolon :: (name ++ equals :: (x ++ semicolon :: r))) name = some x ↔
      Whole x := by
  have hown := run_param_own hname (x ++ semicolon :: r)
  have hvalue := reRegex_value hname hx (name ++ [equals]) r (semicolon_not_mem hname)
  rw [List.append_assoc, List.singleton_append] at hvalue
  split at hown
  next hnil =>
    have hnone : msgParamDecode (semicolon :: (name ++ equals :: (x ++ semicolon :: r))) name =
        none := by
      unfold msgParamDecode
      rw [reRegex_of_again hown, hvalue]
      exact hr
    rw [hnone]
    refine iff_of_false nofun fun hwhole => hwhole.1 ?_
    rw [← (readValue_eq_iff hwhole.1 r).mpr hwhole, hnil]
  next hne =>
    have hsome : msgParamDecode (semicolon :: (name ++ equals :: (x ++ semicolon :: r))) name =
        some (readValue (x ++ semicolon :: r)) := by
      unfold msgParamDecode
      rw [reRegex_of_matched (List.cons_ne_nil _ _) hown]
    rw [hsome, Option.some.injEq]
    by_cases hnil : x = []
    · subst hnil
      exact absurd (span_semicolon r ▸ rfl : readValue ([] ++ semicolon :: r) = []) hne
    · exact readValue_eq_iff hnil r

theorem msgParamExists_eq_false (h : ∀ t, t ≠ [] → t <:+ s → ¬ NameAt name t) :
    msgParamExists s name = false := by
  unfold msgParamExists
  split
  next w v rest hmatch =>
    obtain ⟨t, ht, hsuffix, hrun⟩ := exists_of_reRegex hmatch
    by_contra hfound
    refine h t ht hsuffix ⟨w, v, rest, hrun, ?_⟩
    cases v with
    | cons b v => exact .inl (List.cons_ne_nil b v)
    | nil =>
      cases rest with
      | nil => exact .inr rfl
      | cons b rest => exact absurd rfl hfound
  next => rfl

theorem suffix_append_cases {t x y : Str} (h : t <:+ x ++ y) :
    t <:+ y ∨ ∃ u, u ≠ [] ∧ u <:+ x ∧ t = u ++ y := by
  induction x with
  | nil => exact .inl h
  | cons b x ih =>
    rcases List.suffix_cons_iff.mp h with rfl | h
    · exact .inr ⟨b :: x, List.cons_ne_nil b x, List.suffix_rfl, rfl⟩
    · rcases ih h with hy | ⟨u, hu, hsuffix, heq⟩
      · exact .inl hy
      · exact .inr ⟨u, hu, hsuffix.trans (List.suffix_cons b x), heq⟩

theorem not_nameAt_value (hname : Plain name) {x before : Str} (r : Str)
    (hbefore : semicolon ∉ before)
    (hx : ∀ t, t ≠ [] → t <:+ x → ¬ NameAt name (t ++ [semicolon]))
    (hr : ∀ t, t ≠ [] → t <:+ semicolon :: r → ¬ NameAt name t) :
    ∀ t, t ≠ [] → t <:+ before ++ (x ++ semicolon :: r) → ¬ NameAt name t := by
  intro t ht hsuffix
  rcases suffix_append_cases hsuffix with hsuffix | ⟨u, hu, hin, rfl⟩
  · rcases suffix_append_cases hsuffix with hsuffix | ⟨u, hu, hin, rfl⟩
    · exact hr t ht hsuffix
    · rw [nameAt_inside hname hu]
      exact hx u hu hin
  · obtain ⟨b, u, rfl⟩ := List.exists_cons_of_ne_nil hu
    refine not_nameAt_of_ne_semicolon ?_ name _
    rintro rfl
    exact hbefore (hin.subset List.mem_cons_self)

theorem not_nameAt_other_value {name' x : Str} (hname : Plain name) (hname' : Plain name')
    (hne : name ≠ name') (r : Str)
    (hx : ∀ t, t ≠ [] → t <:+ x → ¬ NameAt name (t ++ [semicolon]))
    (hr : ∀ t, t ≠ [] → t <:+ semicolon :: r → ¬ NameAt name t) :
    ∀ t, t ≠ [] → t <:+ semicolon :: (name' ++ equals :: (x ++ semicolon :: r)) →
      ¬ NameAt name t := by
  intro t ht hsuffix
  rcases List.suffix_cons_iff.mp hsuffix with rfl | hsuffix
  · exact not_nameAt_other hname hname' hne _
  · refine not_nameAt_value hname r (semicolon_not_mem hname') hx hr t ht ?_
    rw [List.append_assoc, List.singleton_append]
    exact hsuffix

theorem run_last_plus {items : List Item} {c : Class}
    (h : run (items ++ [.cls c .plus]) s = .matched captures rest) :
    ∃ v, captures.getLast? = some v ∧ v ≠ [] := by
  induction items generalizing s captures with
  | nil =>
    simp only [List.nil_append, run] at h
    generalize (if c.quotes = true then _ else _) = v at h
    split at h
    · cases h
    next hv =>
      cases h
      exact ⟨_, rfl, fun hnil => hv ⟨trivial, hnil⟩⟩
  | cons item items ih =>
    cases item with
    | chr a =>
      cases s with
      | nil => cases h
      | cons b s =>
        rw [List.cons_append, run_chr] at h
        split at h
        · exact ih h
        · cases h
    | cls c' n =>
      rw [List.cons_append] at h
      simp only [run] at h
      generalize (if c'.quotes = true then _ else _) = v at h
      split at h
      · cases h
      · obtain ⟨vs, rfl, hvs⟩ := Outcome.cons_eq_matched.mp h
        obtain ⟨v, hv, hne⟩ := ih hvs
        refine ⟨v, ?_, hne⟩
        rw [List.getLast?_cons_of_ne_nil (by rintro rfl; cases hv)]
        exact hv

/-- A value that is found is not empty. -/
theorem msgParamDecode_ne_nil (params name : Str) : msgParamDecode params name ≠ some [] := by
  unfold msgParamDecode
  split
  next v rest hmatch =>
    obtain ⟨t, -, -, hrun⟩ := exists_of_reRegex hmatch
    obtain ⟨w, hw, hne⟩ := run_last_plus hrun
    intro h
    cases h
    cases hw
    exact hne rfl
  next => nofun

end SimplePhone.Re
