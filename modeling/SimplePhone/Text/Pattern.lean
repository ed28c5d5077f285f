import Mathlib.Data.List.Basic
import Mathlib.Tactic.Common

/-! Regular expressions as a backtracking matcher reads them: greedy, and with what each of
their groups has captured. Nothing here refers to a particular program. -/
namespace SimplePhone.Text

universe u v

inductive Pattern (α : Type u) where
  | one (cls : α → Bool)
  /-- `cls{min,max}` -/
  | many (cls : α → Bool) (min : Nat) (max : Option Nat)
  | seq (p q : Pattern α)
  /-- `(?:p)?` -/
  | opt (p : Pattern α)
  /-- `(p)` -/
  | group (p : Pattern α)
  /-- an anchor; it may look at what follows -/
  | anchor (holds : List α → Bool)

/-- In the order of the groups; `none` for one that has not taken part. -/
abbrev Captures (α : Type u) := List (Option (List α))

namespace Pattern

variable {α : Type u} {β : Type v}

def concat : List (Pattern α) → Pattern α
  | [] => .anchor fun _ => true
  | p :: ps => .seq p (concat ps)

def literal [DecidableEq α] (w : List α) : Pattern α := concat (w.map fun c => .one (· = c))

def groups : Pattern α → Nat
  | .one _ | .many _ _ _ | .anchor _ => 0
  | .seq p q => p.groups + q.groups
  | .opt p => p.groups
  | .group p => p.groups + 1

/-! ### The matcher

The rest of the pattern is a continuation: a choice is undone when it fails. -/

def runMany (cls : α → Bool) (k : List α → Option β) : Nat → Option Nat → List α → Option β
  | min, _, [] => if min = 0 then k [] else none
  | min, max, c :: s =>
      let longer :=
        if max ≠ some 0 ∧ cls c then runMany cls k (min - 1) (max.map (· - 1)) s else none
      longer.or (if min = 0 then k (c :: s) else none)

def run : Pattern α → List α → (Captures α → List α → Option β) → Option β
  | .one _, [], _ => none
  | .one cls, c :: s, k => if cls c then k [] s else none
  | .many cls min max, s, k => runMany cls (k []) min max s
  | .seq p q, s, k => p.run s fun cs t => q.run t fun ds u => k (cs ++ ds) u
  | .opt p, s, k => (p.run s k).or (k (List.replicate p.groups none) s)
  | .group p, s, k => p.run s fun cs t => k (some (s.take (s.length - t.length)) :: cs) t
  | .anchor holds, s, k => if holds s then k [] s else none

/-- The captures of a match at the start of the text. -/
def matchStart (p : Pattern α) (s : List α) : Option (Captures α) := p.run s fun cs _ => some cs

/-! ### What there is to match -/

/-- The pattern can take the text `s` up to its rest `t`. -/
def Matches : Pattern α → List α → Captures α → List α → Prop
  | .one cls, s, cs, t => ∃ c, s = c :: t ∧ cls c = true ∧ cs = []
  | .many cls min max, s, cs, t => ∃ w, s = w ++ t ∧ (∀ c ∈ w, cls c = true) ∧
      min ≤ w.length ∧ (∀ n ∈ max, w.length ≤ n) ∧ cs = []
  | .seq p q, s, cs, t => ∃ ds u es, p.Matches s ds u ∧ q.Matches u es t ∧ cs = ds ++ es
  | .opt p, s, cs, t => p.Matches s cs t ∨ cs = List.replicate p.groups none ∧ t = s
  | .group p, s, cs, t => ∃ w ds, s = w ++ t ∧ p.Matches s ds t ∧ cs = some w :: ds
  | .anchor holds, s, cs, t => t = s ∧ holds s = true ∧ cs = []

variable {p q : Pattern α} {s t : List α} {cs : Captures α}

theorem Matches.suffix (h : p.Matches s cs t) : ∃ w, s = w ++ t := by
  induction p generalizing s cs t with
  | one cls =>
    obtain ⟨c, hs, -, -⟩ := h
    exact ⟨[c], hs⟩
  | many cls min max =>
    obtain ⟨w, hs, -, -, -, -⟩ := h
    exact ⟨w, hs⟩
  | seq p q ihp ihq =>
    obtain ⟨ds, u, es, hp, hq, -⟩ := h
    obtain ⟨v, hv⟩ := ihp hp
    obtain ⟨w, hw⟩ := ihq hq
    refine ⟨v ++ w, ?_⟩
    rw [hv, hw, List.append_assoc]
  | opt p ih =>
    rcases h with h | ⟨-, rfl⟩
    · exact ih h
    · exact ⟨[], rfl⟩
  | group p ih =>
    obtain ⟨w, ds, hs, -, -⟩ := h
    exact ⟨w, hs⟩
  | anchor holds =>
    obtain ⟨rfl, -, -⟩ := h
    exact ⟨[], rfl⟩

theorem take_length_sub (w t : List α) : (w ++ t).take ((w ++ t).length - t.length) = w := by
  rw [List.length_append, Nat.add_sub_cancel, List.take_left]

/-! ### The matcher finds what there is -/

/-- Where the matcher stops taking units. -/
theorem runMany_stop (cls : α → Bool) {k : List α → Option β} {min : Nat} (max : Option Nat)
    {r : β} (h : (if min = 0 then k s else none) = some r) :
    ∃ w t, s = w ++ t ∧ (∀ c ∈ w, cls c = true) ∧ min ≤ w.length ∧ (∀ n ∈ max, w.length ≤ n) ∧
      k t = some r := by
  split at h
  · rename_i hmin
    exact ⟨[], s, rfl, List.forall_mem_nil _, Nat.le_of_eq hmin, fun n _ => Nat.zero_le n, h⟩
  · cases h

theorem runMany_sound {cls : α → Bool} {k : List α → Option β} {min : Nat} {max : Option Nat}
    {r : β} (h : runMany cls k min max s = some r) :
    ∃ w t, s = w ++ t ∧ (∀ c ∈ w, cls c = true) ∧ min ≤ w.length ∧ (∀ n ∈ max, w.length ≤ n) ∧
      k t = some r := by
  induction s generalizing min max with
  | nil => exact runMany_stop cls max h
  | cons c s ih =>
    rw [runMany] at h
    rcases Option.or_eq_some_iff.mp h with hlonger | ⟨-, hstop⟩
    · split at hlonger
      · rename_i hc
        obtain ⟨w, t, hs, hcls, hmin, hmax, hk⟩ := ih hlonger
        refine ⟨c :: w, t, congrArg (c :: ·) hs, List.forall_mem_cons.mpr ⟨hc.2, hcls⟩, ?_, ?_, hk⟩
        · rw [List.length_cons]
          omega
        · intro n hn
          have hle : w.length ≤ n - 1 := hmax _ (Option.map_eq_some_iff.mpr ⟨n, hn, rfl⟩)
          have hpos : n ≠ 0 := by
            rintro rfl
            exact hc.1 hn
          rw [List.length_cons]
          omega
      · cases hlonger
    · exact runMany_stop cls max hstop

theorem runMany_complete {cls : α → Bool} {k : List α → Option β} {min : Nat} {max : Option Nat}
    {w t : List α} (hcls : ∀ c ∈ w, cls c = true) (hmin : min ≤ w.length)
    (hmax : ∀ n ∈ max, w.length ≤ n) (hk : (k t).isSome = true) :
    (runMany cls k min max (w ++ t)).isSome = true := by
  induction w generalizing min max with
  | nil =>
    have hzero : min = 0 := Nat.le_zero.mp hmin
    cases t with
    | nil =>
      change (runMany cls k min max []).isSome = true
      rw [runMany, if_pos hzero]
      exact hk
    | cons c t =>
      change (runMany cls k min max (c :: t)).isSome = true
      rw [runMany, Option.isSome_or, if_pos hzero, hk, Bool.or_true]
  | cons c w ih =>
    have hc : max ≠ some 0 ∧ cls c = true := by
      refine ⟨?_, hcls c List.mem_cons_self⟩
      rintro rfl
      exact absurd (hmax 0 rfl) (Nat.not_succ_le_zero _)
    change (runMany cls k min max (c :: (w ++ t))).isSome = true
    rw [runMany, if_pos hc, Option.isSome_or]
    rw [ih (fun d hd => hcls d (List.mem_cons_of_mem c hd)), Bool.true_or]
    · rw [List.length_cons] at hmin
      omega
    · intro n hn
      obtain ⟨m, hm, rfl⟩ := Option.map_eq_some_iff.mp hn
      have hle := hmax m hm
      rw [List.length_cons] at hle
      omega

theorem run_sound {k : Captures α → List α → Option β} {r : β} (h : p.run s k = some r) :
    ∃ cs t, p.Matches s cs t ∧ k cs t = some r := by
  induction p generalizing s k with
  | one cls =>
    cases s with
    | nil => cases h
    | cons c s =>
      rw [run] at h
      split at h
      · exact ⟨[], s, ⟨c, rfl, by assumption, rfl⟩, h⟩
      · cases h
  | many cls min max =>
    obtain ⟨w, t, hs, hcls, hmin, hmax, hk⟩ := runMany_sound h
    exact ⟨[], t, ⟨w, hs, hcls, hmin, hmax, rfl⟩, hk⟩
  | seq p q ihp ihq =>
    obtain ⟨ds, u, hp, hrest⟩ := ihp h
    obtain ⟨es, t, hq, hk⟩ := ihq hrest
    exact ⟨ds ++ es, t, ⟨ds, u, es, hp, hq, rfl⟩, hk⟩
  | opt p ih =>
    rcases Option.or_eq_some_iff.mp h with htaken | ⟨-, hskipped⟩
    · obtain ⟨cs, t, hp, hk⟩ := ih htaken
      exact ⟨cs, t, .inl hp, hk⟩
    · exact ⟨_, s, .inr ⟨rfl, rfl⟩, hskipped⟩
  | group p ih =>
    obtain ⟨ds, t, hp, hk⟩ := ih h
    obtain ⟨w, rfl⟩ := hp.suffix
    rw [take_length_sub] at hk
    exact ⟨some w :: ds, t, ⟨w, ds, rfl, hp, rfl⟩, hk⟩
  | anchor holds =>
    rw [run] at h
    split at h
    · exact ⟨[], s, ⟨rfl, by assumption, rfl⟩, h⟩
    · cases h

theorem run_complete {k : Captures α → List α → Option β} (h : p.Matches s cs t)
    (hk : (k cs t).isSome = true) : (p.run s k).isSome = true := by
  induction p generalizing s cs t k with
  | one cls =>
    obtain ⟨c, rfl, hc, rfl⟩ := h
    rw [run, if_pos hc]
    exact hk
  | many cls min max =>
    obtain ⟨w, rfl, hcls, hmin, hmax, rfl⟩ := h
    exact runMany_complete hcls hmin hmax hk
  | seq p q ihp ihq =>
    obtain ⟨ds, u, es, hp, hq, rfl⟩ := h
    exact ihp hp (ihq hq hk)
  | opt p ih =>
    rw [run, Option.isSome_or]
    rcases h with h | ⟨rfl, rfl⟩
    · rw [ih h hk, Bool.true_or]
    · rw [hk, Bool.or_true]
  | group p ih =>
    obtain ⟨w, ds, rfl, hp, rfl⟩ := h
    apply ih hp
    rw [take_length_sub]
    exact hk
  | anchor holds =>
    obtain ⟨rfl, hholds, rfl⟩ := h
    rw [run, if_pos hholds]
    exact hk

theorem matches_of_matchStart (h : p.matchStart s = some cs) : ∃ t, p.Matches s cs t := by
  obtain ⟨ds, t, hmatches, hcs⟩ := run_sound h
  cases hcs
  exact ⟨t, hmatches⟩

/-- Where the text can be matched in one way only, that way is found. -/
theorem matchStart_of_unique (h : p.Matches s cs t)
    (hunique : ∀ ds u, p.Matches s ds u → ds = cs) : p.matchStart s = some cs := by
  have hsome : (p.matchStart s).isSome = true := run_complete h rfl
  obtain ⟨ds, hds⟩ := Option.isSome_iff_exists.mp hsome
  obtain ⟨u, hu⟩ := matches_of_matchStart hds
  rw [hds, hunique ds u hu]

/-! ### Texts of fields -/

theorem matches_concat_nil : (concat []).Matches s cs t ↔ t = s ∧ cs = [] := by
  constructor
  · rintro ⟨ht, -, hcs⟩
    exact ⟨ht, hcs⟩
  · rintro ⟨ht, hcs⟩
    exact ⟨ht, rfl, hcs⟩

theorem matches_concat_cons {ps : List (Pattern α)} : (concat (p :: ps)).Matches s cs t ↔
    ∃ ds u es, p.Matches s ds u ∧ (concat ps).Matches u es t ∧ cs = ds ++ es := Iff.rfl

theorem matches_literal [DecidableEq α] {w : List α} :
    (literal w).Matches s cs t ↔ s = w ++ t ∧ cs = [] := by
  induction w generalizing s cs with
  | nil =>
    apply matches_concat_nil.trans
    rw [eq_comm, List.nil_append]
  | cons c w ih =>
    apply matches_concat_cons.trans
    constructor
    · rintro ⟨ds, u, es, ⟨d, rfl, hd, rfl⟩, hrest, rfl⟩
      obtain ⟨rfl, rfl⟩ := ih.mp hrest
      exact ⟨congrArg (· :: (w ++ t)) (of_decide_eq_true hd), rfl⟩
    · rintro ⟨rfl, rfl⟩
      exact ⟨[], w ++ t, [], ⟨c, rfl, decide_eq_true rfl, rfl⟩, ih.mpr ⟨rfl, rfl⟩, rfl⟩

/-- `cls{min,max}` can take the whole field. -/
def Takes (cls : α → Bool) (min : Nat) (max : Option Nat) (w : List α) : Prop :=
  (∀ c ∈ w, cls c = true) ∧ min ≤ w.length ∧ ∀ n ∈ max, w.length ≤ n

/-- `(cls{min,max})` -/
def field (cls : α → Bool) (min : Nat) (max : Option Nat) : Pattern α := .group (.many cls min max)

variable {cls : α → Bool} {min : Nat} {max : Option Nat}

theorem matches_field : (field cls min max).Matches s cs t ↔
    ∃ w, s = w ++ t ∧ Takes cls min max w ∧ cs = [some w] := by
  constructor
  · rintro ⟨w, ds, rfl, ⟨v, hv, hcls, hmin, hmax, rfl⟩, rfl⟩
    obtain rfl := List.append_cancel_right hv
    exact ⟨w, rfl, ⟨hcls, hmin, hmax⟩, rfl⟩
  · rintro ⟨w, rfl, ⟨hcls, hmin, hmax⟩, rfl⟩
    exact ⟨w, [], rfl, ⟨w, rfl, hcls, hmin, hmax, rfl⟩, rfl⟩

/-- `(?:mark(cls{min,max}))?` -/
def marked [DecidableEq α] (mark : List α) (cls : α → Bool) (min : Nat) (max : Option Nat) :
    Pattern α := .opt (.seq (literal mark) (field cls min max))

/-- A field behind its mark, where it is there. -/
def behind (mark : List α) : Option (List α) → List α
  | none => []
  | some w => mark ++ w

theorem matches_marked [DecidableEq α] {mark : List α} :
    (marked mark cls min max).Matches s cs t ↔
      ∃ o, s = behind mark o ++ t ∧ (∀ w ∈ o, Takes cls min max w) ∧ cs = [o] := by
  have hgroups : (Pattern.seq (literal mark) (field cls min max)).groups = 1 := by
    have hliteral : (literal mark).groups = 0 := by
      induction mark with
      | nil => rfl
      | cons c mark ih => exact (Nat.zero_add _).trans ih
    exact congrArg (· + 1) hliteral
  constructor
  · rintro (⟨ds, u, es, hmark, hfield, rfl⟩ | ⟨rfl, rfl⟩)
    · obtain ⟨rfl, rfl⟩ := matches_literal.mp hmark
      obtain ⟨w, rfl, hw, rfl⟩ := matches_field.mp hfield
      refine ⟨some w, (List.append_assoc _ _ _).symm, ?_, rfl⟩
      rintro _ ⟨⟩
      exact hw
    · rw [hgroups]
      refine ⟨none, rfl, ?_, rfl⟩
      intro w hw
      cases hw
  · rintro ⟨o, rfl, ho, rfl⟩
    cases o with
    | none =>
      right
      rw [hgroups]
      exact ⟨rfl, rfl⟩
    | some w =>
      left
      have hfield : (field cls min max).Matches (w ++ t) [some w] t :=
        matches_field.mpr ⟨w, rfl, ho w rfl, rfl⟩
      exact ⟨[], w ++ t, [some w], matches_literal.mpr ⟨List.append_assoc _ _ _, rfl⟩, hfield, rfl⟩

/-- Where units of a class end, what they were is known. -/
theorem append_eq_append {w w' t' : List α} (hw : ∀ c ∈ w, cls c = true)
    (hw' : ∀ c ∈ w', cls c = true) (ht : ∀ c ∈ t.head?, cls c = false)
    (ht' : ∀ c ∈ t'.head?, cls c = false) (h : w ++ t = w' ++ t') : w = w' ∧ t = t' := by
  have hstop {v : List α} (hv : ∀ c ∈ v.head?, cls c = false) : v.takeWhile cls = [] := by
    cases v with
    | nil => rfl
    | cons c v => exact List.takeWhile_cons_of_neg (Bool.eq_false_iff.mp (hv c rfl))
  have htake := congrArg (List.takeWhile cls) h
  rw [List.takeWhile_append_of_pos hw, List.takeWhile_append_of_pos hw', hstop ht, hstop ht',
    List.append_nil, List.append_nil] at htake
  subst htake
  exact ⟨rfl, List.append_cancel_left h⟩

end Pattern
end SimplePhone.Text
