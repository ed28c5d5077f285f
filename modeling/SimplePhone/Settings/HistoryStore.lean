import SimplePhone.App.Activity
import SimplePhone.Text.Kotlin

/-! The call history in the shared preferences: a line for each call, the newest first.
Every addition reads the whole of it, drops what it cannot read and writes it back. -/
namespace SimplePhone.Settings

open Text
open App (historyMax)

structure HistoryEntry where
  epochMillis : Int64
  direction : JString
  number : JString
deriving DecidableEq

/-- `none` for a broken line. -/
def parseLine (zeros : List UInt16) (line : JString) : Option HistoryEntry :=
  match split (unit '|') 3 line with
  | [epoch, direction, number] => (toLongOrNull zeros epoch).map (⟨·, direction, number⟩)
  | _ => none

def getHistory (zeros : List UInt16) : Option JString → List HistoryEntry
  | none => []
  | some raw => (lineSequence raw).filterMap (parseLine zeros)

def HistoryEntry.line (e : HistoryEntry) : JString :=
  longToString e.epochMillis ++ unit '|' :: (e.direction ++ unit '|' :: e.number)

/-- What is stored after an addition at the time `now`. -/
def addHistory (zeros : List UInt16) (now : Int64) (direction number : JString)
    (stored : Option JString) : Option JString :=
  let entries := ⟨now, direction, number⟩ :: getHistory zeros stored
  some (joinToString [unit '\n'] ((entries.take historyMax).map HistoryEntry.line))

def addAll (zeros : List UInt16) (additions : List HistoryEntry) (stored : Option JString) :
    Option JString :=
  additions.foldl (fun s e => addHistory zeros e.epochMillis e.direction e.number s) stored

/-- What an addition may be. -/
def HistoryEntry.Plain (e : HistoryEntry) : Prop :=
  (unit '|' ∉ e.direction ∧ OneLine e.direction) ∧ OneLine e.number

instance (e : HistoryEntry) : Decidable e.Plain := inferInstanceAs (Decidable (_ ∧ _))

variable {zeros : List UInt16} {e : HistoryEntry} {line : JString}

/-! ### One line -/

theorem bar_notMem_longToString (n : Int64) : unit '|' ∉ longToString n := by
  intro h
  have hbar : (unit '|').toNat = 124 := by decide
  have hrange := mem_longToString h
  omega

theorem oneLine_longToString (n : Int64) : OneLine (longToString n) := by
  have hlf : (unit '\n').toNat = 10 := by decide
  have hcr : (unit '\r').toNat = 13 := by decide
  constructor
  · intro h
    have hrange := mem_longToString h
    omega
  · intro h
    have hrange := mem_longToString h
    omega

theorem HistoryEntry.Plain.oneLine_line (h : e.Plain) : OneLine e.line := by
  obtain ⟨⟨-, hdirection⟩, hnumber⟩ := h
  have hbar : unit '|' ≠ unit '\n' ∧ unit '|' ≠ unit '\r' := by decide
  unfold HistoryEntry.line
  rw [oneLine_append, oneLine_cons, oneLine_append, oneLine_cons]
  exact ⟨oneLine_longToString e.epochMillis, hbar, hdirection, hbar, hnumber⟩

theorem HistoryEntry.Plain.parseLine_line (h : e.Plain) : parseLine zeros e.line = some e := by
  obtain ⟨⟨hbar, -⟩, -⟩ := h
  have hsplit : split (unit '|') 3 e.line =
      [longToString e.epochMillis, e.direction, e.number] := by
    unfold split HistoryEntry.line
    rw [cut_append (bar_notMem_longToString e.epochMillis), cut_append hbar]
    rfl
  unfold parseLine
  rw [hsplit]
  simp only
  rw [toLongOrNull_longToString]
  rfl

/-- What is read can be stored again. -/
theorem plain_of_parseLine (hline : OneLine line) (h : parseLine zeros line = some e) :
    e.Plain := by
  unfold parseLine split at h
  rcases cut_succ (unit '|') 1 line with hcut | ⟨epoch, rest, -, rfl, hcut⟩
  · rw [hcut] at h
    cases h
  · have hrest : OneLine rest := (oneLine_cons.mp (oneLine_append.mp hline).2).2
    rcases cut_succ (unit '|') 0 rest with hcut' | ⟨direction, number, hbar, rfl, hcut'⟩
    · rw [hcut, hcut'] at h
      cases h
    · obtain ⟨hdirection, hnumber⟩ := oneLine_append.mp hrest
      rw [hcut, hcut'] at h
      obtain ⟨n, -, rfl⟩ := Option.map_eq_some_iff.mp h
      exact ⟨⟨hbar, hdirection⟩, (oneLine_cons.mp hnumber).2⟩

/-! ### The whole history -/

theorem plain_of_mem {stored : Option JString} (h : e ∈ getHistory zeros stored) : e.Plain := by
  cases stored with
  | none => cases h
  | some raw =>
    obtain ⟨line, hline, hparse⟩ := List.mem_filterMap.mp h
    exact plain_of_parseLine (oneLine_of_mem hline) hparse

theorem getHistory_joinToString {entries : List HistoryEntry} (hne : entries ≠ [])
    (h : ∀ e ∈ entries, e.Plain) :
    getHistory zeros (some (joinToString [unit '\n'] (entries.map HistoryEntry.line))) =
      entries := by
  have hlines : ∀ l ∈ entries.map HistoryEntry.line, OneLine l := by
    intro l hl
    obtain ⟨e, he, rfl⟩ := List.mem_map.mp hl
    exact (h e he).oneLine_line
  have hparse : ∀ e ∈ entries, (parseLine zeros ∘ HistoryEntry.line) e = some e :=
    fun e he => (h e he).parseLine_line
  simp only [getHistory]
  rw [lineSequence_joinToString (fun hnil => hne (List.map_eq_nil_iff.mp hnil)) hlines,
    List.filterMap_map, List.filterMap_congr hparse]
  exact List.filterMap_some

/-- An addition comes first and pushes out the oldest. -/
theorem getHistory_addHistory (h : e.Plain) (stored : Option JString) :
    getHistory zeros (addHistory zeros e.epochMillis e.direction e.number stored) =
      (e :: getHistory zeros stored).take historyMax := by
  apply getHistory_joinToString
  · exact List.cons_ne_nil e _
  · intro a ha
    rcases List.mem_cons.mp (List.mem_of_mem_take ha) with rfl | ha
    · exact h
    · exact plain_of_mem ha

/-- The history that the activity writes to is the stored one. -/
theorem map_getHistory_addHistory (view : HistoryEntry → App.HistoryEntry) (h : e.Plain)
    (stored : Option JString) :
    (getHistory zeros (addHistory zeros e.epochMillis e.direction e.number stored)).map view =
      App.addHistory ((getHistory zeros stored).map view) (view e) := by
  rw [getHistory_addHistory h, List.map_take]
  rfl

theorem take_append_take {α : Type} (l m : List α) (n : Nat) :
    (l ++ m.take n).take n = (l ++ m).take n := by
  rw [List.take_append, List.take_append, List.take_take, Nat.min_eq_left (Nat.sub_le n l.length)]

theorem getHistory_addHistory_addAll {additions : List HistoryEntry}
    (h : ∀ a ∈ additions, a.Plain) (he : e.Plain) (stored : Option JString) :
    getHistory zeros
        (addHistory zeros e.epochMillis e.direction e.number (addAll zeros additions stored)) =
      (e :: (additions.reverse ++ getHistory zeros stored)).take historyMax := by
  induction additions generalizing stored with
  | nil => exact getHistory_addHistory he stored
  | cons a additions ih =>
    change getHistory zeros (addHistory zeros e.epochMillis e.direction e.number
      (addAll zeros additions (addHistory zeros a.epochMillis a.direction a.number stored))) = _
    rw [ih (fun b hb => h b (List.mem_cons_of_mem a hb)),
      getHistory_addHistory (h a List.mem_cons_self), ← List.cons_append, take_append_take,
      List.reverse_cons, List.append_assoc]
    rfl

/-- After any additions, another one is followed by the first 29 entries there were; none is
lost before that. -/
theorem history_law (zeros : List UInt16) (stored : Option JString)
    (additions : List HistoryEntry) (e : HistoryEntry) (h : ∀ a ∈ additions, a.Plain)
    (he : e.Plain) :
    let before := addAll zeros additions stored
    let after := addHistory zeros e.epochMillis e.direction e.number before
    getHistory zeros after = e :: (getHistory zeros before).take 29 ∧
      (getHistory zeros after).length ≤ 30 ∧
      getHistory zeros after = (e :: (additions.reverse ++ getHistory zeros stored)).take 30 := by
  intro before after
  have hafter : getHistory zeros after = (e :: getHistory zeros before).take historyMax :=
    getHistory_addHistory he before
  refine ⟨hafter, ?_, getHistory_addHistory_addAll h he stored⟩
  rw [hafter]
  exact List.length_take_le historyMax (e :: getHistory zeros before)

/-- With a stored text of which only the third line is sound. -/
theorem history_law_broken :
    let stored := some ("12|a\r\n\n+7|着信|203|9\rx|y|z".toList.map unit)
    let a : HistoryEntry := ⟨1700000000000, "発信".toList.map unit, "*1|2".toList.map unit⟩
    let e : HistoryEntry := ⟨-5, "不在".toList.map unit, []⟩
    let before := addAll [] [a] stored
    let after := addHistory [] e.epochMillis e.direction e.number before
    getHistory [] after = e :: (getHistory [] before).take 29 ∧
      (getHistory [] after).length ≤ 30 ∧
      getHistory [] after = (e :: ([a].reverse ++ getHistory [] stored)).take 30 :=
  history_law [] _ [_] _ (by decide) (by decide)

example : getHistory [] (some ("12|a\r\n\n+7|着信|203|9\rx|y|z".toList.map unit)) =
    [⟨7, "着信".toList.map unit, "203|9".toList.map unit⟩] := by decide

end SimplePhone.Settings
