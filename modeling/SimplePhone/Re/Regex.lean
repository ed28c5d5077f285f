import Mathlib.Data.List.Forall2
import Mathlib.Data.List.TakeWhile
import SimplePhone.Account

/-! `re_regex`, the matcher of libre. It looks for the first place where the expression
matches, takes as much as it can for each class, and never takes anything back. -/
namespace SimplePhone.Re

/-- `tolower` -/
def lower (b : UInt8) : UInt8 := if 65 ≤ b ∧ b ≤ 90 then b + 32 else b

/-- `*` and `+`. The expressions here use no fixed counts. -/
inductive Count where
  | star
  | plus
deriving DecidableEq

/-- `[abc]`, `[^abc]` and, with quotes and escapes, `[~abc]`. -/
structure Class where
  negated : Bool
  quotes : Bool
  ranges : List (UInt8 × UInt8)
deriving DecidableEq

inductive Item where
  | chr (b : UInt8)
  | cls (c : Class) (n : Count)
deriving DecidableEq

def Class.of (chars : String) : Class := ⟨false, false, (utf8 chars).map fun b => (b, b)⟩

def Class.except (chars : String) : Class := ⟨true, false, (utf8 chars).map fun b => (b, b)⟩

def Class.unquoted (chars : String) : Class := ⟨true, true, (utf8 chars).map fun b => (b, b)⟩

def literal (chars : Str) : List Item := chars.map .chr

/-- `expr_match` -/
def Class.has (c : Class) (b : UInt8) : Bool :=
  if c.ranges.any fun r => decide (r.1 ≤ lower b ∧ lower b ≤ r.2) then !c.negated else c.negated

def quote : UInt8 := 34
def backslash : UInt8 := 92

/-- What a class takes and what it leaves, from inside a quotation or behind a backslash. -/
def Class.span (c : Class) : Bool → Bool → Str → Str × Str
  | _, _, [] => ([], [])
  | quoted, escaped, b :: s =>
      if c.quotes && escaped then (c.span quoted false s).map (b :: ·) id
      else if c.quotes && decide (b = backslash) then (c.span quoted true s).map (b :: ·) id
      else if c.quotes && decide (b = quote) then (c.span (!quoted) false s).map (b :: ·) id
      else if c.quotes && quoted || c.has b then (c.span quoted false s).map (b :: ·) id
      else ([], b :: s)

def stripQuotes (s : Str) : Str :=
  if 1 < s.length ∧ s.head? = some quote ∧ s.getLast? = some quote then s.tail.dropLast else s

/-- At the end of the input the search is given up, not tried from the next place. -/
inductive Outcome where
  | again
  | stop
  | matched (captures : List Str) (rest : Str)
deriving DecidableEq

def Outcome.cons (v : Str) : Outcome → Outcome
  | .matched captures rest => .matched (v :: captures) rest
  | o => o

def run : List Item → Str → Outcome
  | [], s => .matched [] s
  | .chr _ :: _, [] => .stop
  | .chr a :: items, b :: s => if lower a = lower b then run items s else .again
  | .cls c n :: items, s =>
      let v := if c.quotes then stripQuotes (c.span false false s).1 else (c.span false false s).1
      if n = .plus ∧ v = [] then .again else (run items (c.span false false s).2).cons v

/-- The captures of the first match, with what is left of the input. -/
def reRegex (items : List Item) : Str → Option (List Str × Str)
  | [] => none
  | b :: s =>
      match run items (b :: s) with
      | .matched captures rest => some (captures, rest)
      | .again => reRegex items s
      | .stop => none

/-! ### Characters of a class -/

/-- Only letters have a case. -/
theorem lower_eq_iff {b c : UInt8} (hc : c < 65 ∨ 90 < c ∧ c < 97 ∨ 122 < c) :
    lower b = c ↔ b = c := by
  unfold lower
  split
  next hb =>
    have hadd : (b + 32).toNat = b.toNat + 32 := by
      have hle : b.toNat ≤ 90 := UInt8.le_iff_toNat_le.mp hb.2
      rw [UInt8.toNat_add]
      exact Nat.mod_eq_of_lt (show b.toNat + 32 < 256 by omega)
    simp only [UInt8.le_iff_toNat_le, UInt8.lt_iff_toNat_lt, ← UInt8.toNat_inj, hadd] at hb hc ⊢
    have h65 : (65 : UInt8).toNat = 65 := rfl
    have h90 : (90 : UInt8).toNat = 90 := rfl
    have h97 : (97 : UInt8).toNat = 97 := rfl
    have h122 : (122 : UInt8).toNat = 122 := rfl
    omega
  next => exact Iff.rfl

theorem any_ranges (chars : Str) (b : UInt8) :
    ((chars.map fun c => (c, c)).any fun r => decide (r.1 ≤ lower b ∧ lower b ≤ r.2)) =
      decide (lower b ∈ chars) := by
  induction chars with
  | nil => rfl
  | cons c chars ih =>
    rw [List.map_cons, List.any_cons, ih, ← Bool.decide_or]
    congr 1
    rw [List.mem_cons]
    have hc : c ≤ lower b ∧ lower b ≤ c ↔ lower b = c :=
      ⟨fun h => UInt8.le_antisymm h.2 h.1, fun h => h ▸ ⟨UInt8.le_refl _, UInt8.le_refl _⟩⟩
    rw [hc]

theorem of_has (chars : String) (b : UInt8) :
    (Class.of chars).has b = true ↔ lower b ∈ utf8 chars := by
  unfold Class.has Class.of
  simp only [any_ranges, decide_eq_true_eq]
  split
  · rename_i hmem
    exact iff_of_true rfl hmem
  · rename_i hmem
    exact iff_of_false Bool.false_ne_true hmem

theorem except_has (chars : String) (b : UInt8) :
    (Class.except chars).has b = true ↔ lower b ∉ utf8 chars := by
  unfold Class.has Class.except
  simp only [any_ranges, decide_eq_true_eq]
  split
  · rename_i hmem
    exact iff_of_false Bool.false_ne_true (not_not_intro hmem)
  · rename_i hmem
    exact iff_of_true rfl hmem

/-! ### One item at a time -/

variable {items : List Item} {c : Class} {n : Count} {s t rest : Str} {b : UInt8}
  {captures : List Str}

theorem run_chr (a b : UInt8) (items : List Item) (s : Str) :
    run (.chr a :: items) (b :: s) = if lower a = lower b then run items s else .again := rfl

theorem Outcome.cons_eq_matched {v : Str} {o : Outcome} : o.cons v = .matched captures rest ↔
    ∃ vs, captures = v :: vs ∧ o = .matched vs rest := by
  cases o with
  | matched vs r =>
    simp only [Outcome.cons, Outcome.matched.injEq]
    constructor
    · rintro ⟨rfl, rfl⟩
      exact ⟨vs, rfl, rfl, rfl⟩
    · rintro ⟨_, rfl, rfl, rfl⟩
      exact ⟨rfl, rfl⟩
  | _ => simp [Outcome.cons]

/-- Without quotes a class takes the longest run of its characters. -/
theorem span_eq (hc : c.quotes = false) (quoted escaped : Bool) (s : Str) :
    c.span quoted escaped s = (s.takeWhile c.has, s.dropWhile c.has) := by
  induction s generalizing quoted escaped with
  | nil => rfl
  | cons b s ih =>
    unfold Class.span
    simp only [hc, Bool.false_and, Bool.false_or, Bool.false_eq_true, if_false]
    cases hb : c.has b with
    | true => simp [ih, hb]
    | false => simp [hb]

theorem run_cls (hc : c.quotes = false) : run (.cls c n :: items) s =
    if n = .plus ∧ s.takeWhile c.has = [] then .again
    else (run items (s.dropWhile c.has)).cons (s.takeWhile c.has) := by
  simp only [run, hc, span_eq hc, Bool.false_eq_true, if_false]

/-- A class in front of a text that begins with what it does not take. -/
theorem run_cls_append (hc : c.quotes = false) (hs : ∀ b ∈ s, c.has b = true)
    (ht : ∀ b ∈ t.head?, c.has b = false) (hn : n = .plus → s ≠ []) :
    run (.cls c n :: items) (s ++ t) = (run items t).cons s := by
  have htake : (s ++ t).takeWhile c.has = s := by
    rw [List.takeWhile_append_of_pos hs]
    cases t with
    | nil => simp
    | cons b t =>
      rw [List.takeWhile_cons_of_neg (by simp [ht b rfl]), List.append_nil]
  have hdrop : (s ++ t).dropWhile c.has = t := by
    rw [List.dropWhile_append_of_pos hs]
    cases t with
    | nil => rfl
    | cons b t => rw [List.dropWhile_cons_of_neg (by simp [ht b rfl])]
  rw [run_cls hc, htake, hdrop, if_neg]
  rintro ⟨hplus, hnil⟩
  exact hn hplus hnil

theorem run_cls_all (hc : c.quotes = false) (hs : ∀ b ∈ s, c.has b = true)
    (hn : n = .plus → s ≠ []) : run (.cls c n :: items) s = (run items []).cons s := by
  have h : run (.cls c n :: items) (s ++ []) = (run items []).cons s :=
    run_cls_append hc hs nofun hn
  rwa [List.append_nil] at h

theorem reRegex_of_matched (hs : s ≠ []) (h : run items s = .matched captures rest) :
    reRegex items s = some (captures, rest) := by
  cases s with
  | nil => exact absurd rfl hs
  | cons b s => simp only [reRegex, h]

theorem reRegex_of_again (h : run items (b :: s) = .again) :
    reRegex items (b :: s) = reRegex items s := by
  simp only [reRegex, h]

/-! ### Where the search ends -/

theorem reRegex_skip {pre post : Str} (h : ∀ t, t ≠ [] → t <:+ pre → run items (t ++ post) = .again) :
    reRegex items (pre ++ post) = reRegex items post := by
  induction pre with
  | nil => rfl
  | cons b pre ih =>
    have hb : run items (b :: (pre ++ post)) = .again :=
      h (b :: pre) (List.cons_ne_nil b pre) List.suffix_rfl
    rw [List.cons_append, reRegex_of_again hb]
    exact ih fun t ht hsuffix => h t ht (hsuffix.trans (List.suffix_cons b pre))

theorem exists_of_reRegex (h : reRegex items s = some (captures, rest)) :
    ∃ t, t ≠ [] ∧ t <:+ s ∧ run items t = .matched captures rest := by
  induction s with
  | nil => cases h
  | cons b s ih =>
    unfold reRegex at h
    split at h
    next vs r hrun =>
      cases h
      exact ⟨b :: s, List.cons_ne_nil b s, List.suffix_rfl, hrun⟩
    next =>
      obtain ⟨t, ht, hsuffix, hrun⟩ := ih h
      exact ⟨t, ht, hsuffix.trans (List.suffix_cons b s), hrun⟩
    next => cases h

/-! ### What a match captures -/

def classes : List Item → List (Class × Count)
  | [] => []
  | .chr _ :: items => classes items
  | .cls c n :: items => (c, n) :: classes items

/-- A capture of a class without quotes. -/
structure Captured (s : Str) (p : Class × Count) (v : Str) : Prop where
  has : ∀ b ∈ v, p.1.has b = true
  mem : ∀ b ∈ v, b ∈ s
  ne_nil : p.2 = .plus → v ≠ []

theorem captured_of_run (hquotes : ∀ p ∈ classes items, p.1.quotes = false)
    (h : run items s = .matched captures rest) :
    List.Forall₂ (Captured s) (classes items) captures := by
  induction items generalizing s captures with
  | nil =>
    cases h
    exact .nil
  | cons item items ih =>
    cases item with
    | chr a =>
      cases s with
      | nil => cases h
      | cons b s =>
        rw [run_chr] at h
        split at h
        · exact (ih hquotes h).imp fun _ _ hv =>
            ⟨hv.has, fun x hx => List.mem_cons_of_mem b (hv.mem x hx), hv.ne_nil⟩
        · cases h
    | cls c n =>
      rw [run_cls (hquotes (c, n) List.mem_cons_self)] at h
      split at h
      · cases h
      next hne =>
        obtain ⟨vs, rfl, hvs⟩ := Outcome.cons_eq_matched.mp h
        refine .cons ⟨fun b hb => List.mem_takeWhile_imp hb, fun b hb =>
          (List.takeWhile_sublist _).subset hb, fun hplus hnil => hne ⟨hplus, hnil⟩⟩ ?_
        exact (ih (fun p hp => hquotes p (List.mem_cons_of_mem _ hp)) hvs).imp fun _ _ hv =>
          ⟨hv.has, fun x hx => (List.dropWhile_sublist _).subset (hv.mem x hx), hv.ne_nil⟩

theorem captured_of_reRegex (hquotes : ∀ p ∈ classes items, p.1.quotes = false)
    (h : reRegex items s = some (captures, rest)) :
    List.Forall₂ (Captured s) (classes items) captures := by
  induction s with
  | nil => cases h
  | cons b s ih =>
    unfold reRegex at h
    split at h
    next vs r hrun =>
      cases h
      exact captured_of_run hquotes hrun
    next =>
      exact (ih h).imp fun _ _ hv =>
        ⟨hv.has, fun x hx => List.mem_cons_of_mem b (hv.mem x hx), hv.ne_nil⟩
    next => cases h

end SimplePhone.Re
