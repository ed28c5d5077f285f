import Mathlib.Data.List.Forall2
import Mathlib.Data.List.TakeDrop
import SimplePhone.Re.Sdp

/-! What the alignment of formats makes of any offer: the answer has each format that it names
from the offer, in the order of the offer. -/
namespace SimplePhone.Re

namespace SdpMedia

/-- The formats that the other side has as well. -/
def supported (fmtl : List SdpFormat) : List SdpFormat := fmtl.filter SdpFormat.sup

def ids (fmtl : List SdpFormat) : List Str := fmtl.map SdpFormat.id

theorem supported_append (fmtl fmtl' : List SdpFormat) :
    supported (fmtl ++ fmtl') = supported fmtl ++ supported fmtl' := List.filter_append ..

theorem ids_append (fmtl fmtl' : List SdpFormat) : ids (fmtl ++ fmtl') = ids fmtl ++ ids fmtl' :=
  List.map_append ..

theorem supported_eq_nil {fmtl : List SdpFormat} :
    supported fmtl = [] ↔ ∀ fmt ∈ fmtl, fmt.sup = false := by
  unfold supported
  rw [List.filter_eq_nil_iff]
  exact forall₂_congr fun fmt _ => Bool.not_eq_true _ ▸ Iff.rfl

/-! ### One remote format -/

/-- The local format that a remote one finds. -/
def adopt (offer : Bool) (rfmt lfmt : SdpFormat) : SdpFormat :=
  let found := { lfmt with rparams := rfmt.params, sup := true }
  if offer then { found with id := rfmt.id, pt := atoi rfmt.id } else found

inductive Aligned (offer : Bool) (a : Alignment) (rfmt : SdpFormat) : Alignment → Prop where
  | missing (h : ∀ lfmt ∈ a.lfmtl, lfmt.cmp rfmt = false) :
      Aligned offer a rfmt ⟨a.lfmtl, a.rfmtl ++ [{ rfmt with sup := false }], a.ptOffer⟩
  | found (before after : List SdpFormat) (lfmt : SdpFormat)
      (hsplit : a.lfmtl = before ++ lfmt :: after)
      (hbefore : ∀ l ∈ before, l.cmp rfmt = false) (hcmp : lfmt.cmp rfmt = true) :
      Aligned offer a rfmt
        ⟨if offer then before ++ after ++ [adopt offer rfmt lfmt]
          else before ++ adopt offer rfmt lfmt :: after,
          a.rfmtl ++ [{ rfmt with sup := true, data := lfmt.data }],
          if offer ∧ a.ptOffer < atoi rfmt.id then atoi rfmt.id else a.ptOffer⟩

theorem aligned (offer : Bool) (a : Alignment) (rfmt : SdpFormat) :
    Aligned offer a rfmt (a.step offer rfmt) := by
  unfold Alignment.step
  rw [List.span_eq_takeWhile_dropWhile]
  have happend := @List.takeWhile_append_dropWhile _ (fun lfmt : SdpFormat => !lfmt.cmp rfmt)
    a.lfmtl
  have hbefore : ∀ l ∈ a.lfmtl.takeWhile fun lfmt => !lfmt.cmp rfmt, l.cmp rfmt = false := by
    intro l hl
    have htake := List.mem_takeWhile_imp hl
    simpa using htake
  cases hdrop : a.lfmtl.dropWhile fun lfmt => !lfmt.cmp rfmt with
  | nil =>
    rw [hdrop, List.append_nil] at happend
    rw [happend] at hbefore
    exact .missing hbefore
  | cons lfmt after =>
    rw [hdrop] at happend
    have hcmp : lfmt.cmp rfmt = true := by
      have hhead := List.head?_dropWhile_not (fun lfmt : SdpFormat => !lfmt.cmp rfmt) a.lfmtl
      rw [hdrop] at hhead
      simpa using hhead
    have hfound := @Aligned.found offer a rfmt _ after lfmt happend.symm hbefore hcmp
    cases offer with
    | false => simpa [adopt] using hfound
    | true => simpa [adopt] using hfound

/-! ### All remote formats -/

theorem supported_sublist {fmtl fmtl' : List SdpFormat} (h : fmtl.Sublist fmtl') :
    (ids (supported fmtl)).Sublist (ids (supported fmtl')) := (h.filter _).map _

theorem Aligned.sublist {a a' : Alignment} {rfmt : SdpFormat} (h : Aligned true a rfmt a') :
    (ids (supported a'.lfmtl)).Sublist (ids (supported a.lfmtl) ++ [rfmt.id]) := by
  cases h with
  | missing hmissing => exact List.sublist_append_left ..
  | found before after lfmt hsplit hbefore hcmp =>
    have hrest : (ids (supported (before ++ after))).Sublist (ids (supported a.lfmtl)) := by
      apply supported_sublist
      rw [hsplit]
      exact List.Sublist.append_left (List.sublist_cons_self lfmt after) before
    simp only [if_true]
    rw [supported_append, ids_append]
    exact hrest.append_right [rfmt.id]

theorem foldl_sublist (rfmtl : List SdpFormat) (a : Alignment) :
    (ids (supported (rfmtl.foldl (Alignment.step true) a).lfmtl)).Sublist
      (ids (supported a.lfmtl) ++ ids rfmtl) := by
  induction rfmtl generalizing a with
  | nil => exact List.sublist_append_left ..
  | cons rfmt rfmtl ih =>
    rw [List.foldl_cons]
    have hrest := ih (a.step true rfmt)
    have hstep := (aligned true a rfmt).sublist
    apply hrest.trans
    change List.Sublist _ (ids (supported a.lfmtl) ++ ([rfmt.id] ++ ids rfmtl))
    rw [← List.append_assoc]
    exact hstep.append_right (ids rfmtl)

theorem foldr_reorderStep (lfmtl : List SdpFormat) (ptOffer : Int) :
    (lfmtl.foldr reorderStep ([], [], ptOffer)).1 = supported lfmtl ∧
      ∀ lfmt ∈ (lfmtl.foldr reorderStep ([], [], ptOffer)).2.1, lfmt.sup = false := by
  induction lfmtl with
  | nil => exact ⟨rfl, fun lfmt hlfmt => by cases hlfmt⟩
  | cons lfmt lfmtl ih =>
    rw [List.foldr_cons]
    generalize lfmtl.foldr reorderStep ([], [], ptOffer) = r at ih ⊢
    obtain ⟨kept, moved, pt⟩ := r
    obtain ⟨hkept, hmoved⟩ := ih
    simp only at hkept hmoved
    unfold reorderStep
    simp only
    by_cases hsup : lfmt.sup = true
    · rw [if_pos hsup]
      refine ⟨?_, hmoved⟩
      unfold supported
      rw [List.filter_cons_of_pos hsup, hkept]
      rfl
    · have hkept' : kept = supported (lfmt :: lfmtl) := by
        unfold supported
        rw [List.filter_cons_of_neg hsup]
        exact hkept
      have hfalse : lfmt.sup = false := Bool.not_eq_true _ ▸ hsup
      have hend : ∀ f : SdpFormat, f.sup = false → ∀ f' ∈ moved ++ [f], f'.sup = false := by
        intro f hf f' hf'
        rw [List.mem_append, List.mem_singleton] at hf'
        cases hf' with
        | inl hmem => exact hmoved f' hmem
        | inr heq =>
          rw [heq]
          exact hf
      rw [if_neg hsup]
      split
      · exact ⟨hkept', hend _ hfalse⟩
      · exact ⟨hkept', hend _ hfalse⟩

/-- What is not supported is put at the end. -/
theorem supported_reorder (lfmtl : List SdpFormat) (ptOffer : Int) :
    supported (reorder lfmtl ptOffer) = supported lfmtl := by
  obtain ⟨hkept, hmoved⟩ := foldr_reorderStep lfmtl ptOffer
  unfold reorder
  simp only
  rw [supported_append, supported_eq_nil.mpr hmoved, hkept, List.append_nil]
  unfold supported
  rw [List.filter_filter]
  congr 1
  funext lfmt
  exact Bool.and_self lfmt.sup

theorem supported_cleared (lfmtl : List SdpFormat) :
    supported (lfmtl.map fun lfmt => { lfmt with rparams := none, sup := false }) = [] := by
  apply supported_eq_nil.mpr
  intro fmt hfmt
  obtain ⟨lfmt, -, rfl⟩ := List.mem_map.mp hfmt
  rfl

/-! ### Which lines have a format -/

/-- Nothing is supported afterwards if nothing was and no remote format finds a local one. -/
theorem foldl_supported (offer : Bool) (rfmtl : List SdpFormat) (a : Alignment) :
    supported (rfmtl.foldl (Alignment.step offer) a).lfmtl = [] ↔
      supported a.lfmtl = [] ∧ ∀ lfmt ∈ a.lfmtl, ∀ rfmt ∈ rfmtl, lfmt.cmp rfmt = false := by
  induction rfmtl generalizing a with
  | nil => exact (and_iff_left fun _ _ => List.forall_mem_nil _).symm
  | cons rfmt rfmtl ih =>
    rw [List.foldl_cons, ih]
    have hstep := aligned offer a rfmt
    generalize a.step offer rfmt = a' at hstep
    cases hstep with
    | missing hmissing =>
      apply and_congr_right'
      refine forall₂_congr fun lfmt hlfmt => ?_
      rw [List.forall_mem_cons]
      exact (and_iff_right (hmissing lfmt hlfmt)).symm
    | found before after lfmt hsplit hbefore hcmp =>
      apply iff_of_false
      · rintro ⟨hnil, -⟩
        have hadopted : (adopt offer rfmt lfmt).sup = true := by
          cases offer <;> rfl
        have hnone := supported_eq_nil.mp hnil (adopt offer rfmt lfmt) (by cases offer <;> simp)
        rw [hadopted] at hnone
        cases hnone
      · rintro ⟨-, hnone⟩
        have hlfmt : lfmt ∈ a.lfmtl := by
          rw [hsplit]
          exact List.mem_append_right _ (List.mem_cons_self ..)
        have hnot := hnone lfmt hlfmt rfmt (List.mem_cons_self ..)
        rw [hcmp] at hnot
        cases hnot

/-- A line that is there for both sides. -/
def Shared (m : SdpMedia) : Prop := m.disabled = false ∧ m.rport ≠ 0 ∧ m.fmtIgnore = false

theorem alignFormats_not_shared {m : SdpMedia} (h : ¬Shared m) {offer : Bool} :
    m.alignFormats offer = m := by
  unfold alignFormats
  rw [if_pos]
  by_contra hnone
  simp only [not_or, Bool.not_eq_true] at hnone
  exact h hnone

theorem alignFormats_shared {m : SdpMedia} (h : Shared m) (offer : Bool) :
    m.alignFormats offer =
      let lfmtl := m.lfmtl.map fun lfmt => { lfmt with rparams := none, sup := false }
      let a := m.rfmtl.foldl (Alignment.step offer) ⟨lfmtl, [], rtpDynptStart⟩
      { m with
        lfmtl := if offer then reorder a.lfmtl a.ptOffer else a.lfmtl
        rfmtl := a.rfmtl } := by
  unfold alignFormats
  rw [if_neg]
  rintro (hdisabled | hrport | hignore)
  · cases h.1.symm.trans hdisabled
  · exact h.2.1 hrport
  · cases h.2.2.symm.trans hignore

/-- A line has a supported format afterwards where a format of the one side is one of the
other's. -/
theorem alignFormats_supported {m : SdpMedia} (h : Shared m) (offer : Bool) :
    supported (m.alignFormats offer).lfmtl = [] ↔
      ∀ lfmt ∈ m.lfmtl, ∀ rfmt ∈ m.rfmtl, lfmt.cmp rfmt = false := by
  have hfold := foldl_supported offer m.rfmtl
    ⟨m.lfmtl.map fun lfmt => { lfmt with rparams := none, sup := false }, [], rtpDynptStart⟩
  simp only [supported_cleared, true_and, List.forall_mem_map] at hfold
  rw [alignFormats_shared h]
  cases offer with
  | false => exact hfold
  | true =>
    simp only [if_true]
    rw [supported_reorder]
    exact hfold

theorem Aligned.ids_rfmtl {offer : Bool} {a a' : Alignment} {rfmt : SdpFormat}
    (h : Aligned offer a rfmt a') : ids a'.rfmtl = ids a.rfmtl ++ [rfmt.id] := by
  cases h with
  | missing hmissing => exact ids_append ..
  | found before after lfmt hsplit hbefore hcmp => exact ids_append ..

theorem foldl_ids (offer : Bool) (rfmtl : List SdpFormat) (a : Alignment) :
    ids (rfmtl.foldl (Alignment.step offer) a).rfmtl = ids a.rfmtl ++ ids rfmtl := by
  induction rfmtl generalizing a with
  | nil => exact (List.append_nil _).symm
  | cons rfmt rfmtl ih =>
    rw [List.foldl_cons, ih, (aligned offer a rfmt).ids_rfmtl, List.append_assoc]
    rfl

/-- It changes the lists of formats only, and of the remote ones not their ids. -/
theorem alignFormats_eq (offer : Bool) (m : SdpMedia) : ∃ lfmtl rfmtl,
    m.alignFormats offer = { m with lfmtl := lfmtl, rfmtl := rfmtl } ∧ ids rfmtl = ids m.rfmtl := by
  unfold alignFormats
  split
  · exact ⟨m.lfmtl, m.rfmtl, rfl, rfl⟩
  · exact ⟨_, _, rfl, foldl_ids offer m.rfmtl _⟩

/-- After an offer the formats of the answer are among those that were offered, in their order. -/
theorem alignFormats_sublist {m : SdpMedia} (h : Shared m) :
    (ids (supported (m.alignFormats true).lfmtl)).Sublist (ids m.rfmtl) := by
  rw [alignFormats_shared h]
  simp only [if_true]
  rw [supported_reorder]
  have hfold := foldl_sublist m.rfmtl
    ⟨m.lfmtl.map fun lfmt => { lfmt with rparams := none, sup := false }, [], rtpDynptStart⟩
  simp only [supported_cleared] at hfold
  exact hfold

end SdpMedia

end SimplePhone.Re
