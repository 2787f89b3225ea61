import PapyrusAnalysis.Diagnostic.Basic
import PapyrusAnalysis.Proofs.Text.Order

/-!
# Sorted reports

Sorting is stable, so leaving out part of a list before sorting it comes to the same as leaving it
out afterwards. Hence what a sorted report says about a file are the diagnostics of that file by
offset, and these together determine the report.

## Main results

* `filter_mergeSort`: filtering commutes with sorting.
* `Report.filter_sorted`: what a sorted report says about a file.
* `Report.sorted_congr`: a sorted report depends on what is said about each file only.
-/

namespace PapyrusAnalysis

section Lists

variable {α κ : Type} {le : α → α → Bool}

/-- Sorting puts the first element of a list in front of those that it may stand before. -/
theorem mergeSort_cons_eq (trans : ∀ a b c, le a b → le b c → le a c)
    (total : ∀ a b, le a b || le b a) (a : α) (l : List α) :
    (a :: l).mergeSort le =
        (l.mergeSort le).filter (!le a ·) ++ a :: (l.mergeSort le).filter (le a ·) ∧
      (l.mergeSort le).filter (!le a ·) ++ (l.mergeSort le).filter (le a ·) = l.mergeSort le := by
  obtain ⟨before, after, sorted, rest, unfit⟩ := List.mergeSort_cons trans total a l
  have ordered := List.pairwise_mergeSort trans total (a :: l)
  rw [sorted, List.pairwise_append, List.pairwise_cons] at ordered
  have fit : ∀ b ∈ after, le a b := ordered.2.1.1
  have first : (l.mergeSort le).filter (!le a ·) = before := by
    rw [rest, List.filter_append, List.filter_eq_self.2 unfit, List.filter_eq_nil_iff.2,
      List.append_nil]
    intro b hb
    simp [fit b hb]
  have second : (l.mergeSort le).filter (le a ·) = after := by
    rw [rest, List.filter_append, List.filter_eq_self.2 fit, List.filter_eq_nil_iff.2,
      List.nil_append]
    intro b hb
    simpa using unfit b hb
  rw [first, second]
  exact ⟨sorted, rest.symm⟩

theorem filter_mergeSort (trans : ∀ a b c, le a b → le b c → le a c)
    (total : ∀ a b, le a b || le b a) (keep : α → Bool) (l : List α) :
    (l.mergeSort le).filter keep = (l.filter keep).mergeSort le := by
  induction l with
  | nil => simp
  | cons a l ih =>
    obtain ⟨sorted, parts⟩ := mergeSort_cons_eq trans total a l
    rw [sorted, List.filter_append, List.filter_cons]
    by_cases kept : keep a
    · rw [if_pos kept, List.filter_cons, if_pos kept, List.filter_comm, List.filter_comm keep, ih]
      exact (mergeSort_cons_eq trans total a (l.filter keep)).1.symm
    · rw [if_neg kept, ← List.filter_append, parts, ih, List.filter_cons, if_neg kept]

/-- Lists that are sorted by a key are the same if they have the same elements for each key, in the
same order. -/
theorem eq_of_filter_eq [DecidableEq κ] (key : α → κ) {r : κ → κ → Prop}
    (antisymm : ∀ {k k'}, r k k' → r k' k → k = k') {l l' : List α}
    (hl : l.Pairwise fun a b => r (key a) (key b)) (hl' : l'.Pairwise fun a b => r (key a) (key b))
    (same : ∀ k, l.filter (key · = k) = l'.filter (key · = k)) : l = l' := by
  induction l generalizing l' with
  | nil =>
    cases l' with
    | nil => rfl
    | cons b l' => simpa using same (key b)
  | cons a l ih =>
    cases l' with
    | nil => simpa using same (key a)
    | cons b l' =>
      rw [List.pairwise_cons] at hl hl'
      have mem {x : α} : x ∈ a :: l ↔ x ∈ b :: l' := by
        have := congrArg (x ∈ ·) (same (key x))
        simpa only [List.mem_filter, decide_true, and_true, eq_iff_iff] using this
      have keys : key a = key b := by
        rcases List.mem_cons.1 (mem.1 List.mem_cons_self) with rfl | ha
        · rfl
        rcases List.mem_cons.1 (mem.2 List.mem_cons_self) with rfl | hb
        · rfl
        exact antisymm (hl.1 b hb) (hl'.1 a ha)
      have heads := same (key a)
      rw [List.filter_cons, List.filter_cons, if_pos (by simp), if_pos (by simp [keys])] at heads
      obtain ⟨rfl, -⟩ := List.cons.inj heads
      refine congrArg _ (ih hl.2 hl'.2 fun k => ?_)
      have whole := same k
      rw [List.filter_cons, List.filter_cons] at whole
      split at whole
      · exact (List.cons.inj whole).2
      · exact whole

end Lists

theorem fileOrder_eq_compare (a b : Option String) : fileOrder a b = compare a b := by
  cases a <;> cases b <;> rfl

namespace Report

/-- Diagnostics are compared by their files and then by their offsets. -/
def byPlace : Diagnostic → Diagnostic → Ordering :=
  compareLex (compareOn Diagnostic.file) (compareOn Diagnostic.offset)

instance : Std.TransCmp byPlace := inferInstanceAs (Std.TransCmp (compareLex _ _))

theorem inOrder_eq (a b : Diagnostic) : inOrder a b = (byPlace a b).isLE := by
  unfold inOrder byPlace compareLex compareOn
  rw [fileOrder_eq_compare]
  cases compare a.file b.file with
  | lt | gt => rfl
  | eq => exact Bool.eq_iff_iff.2 (decide_eq_true_iff.trans Nat.isLE_compare.symm)

theorem inOrder_trans (a b c : Diagnostic) (h : inOrder a b) (h' : inOrder b c) :
    inOrder a c := by
  rw [inOrder_eq] at h h' ⊢
  exact Std.TransCmp.isLE_trans h h'

theorem inOrder_total (a b : Diagnostic) : inOrder a b || inOrder b a := by
  have swap : byPlace b a = (byPlace a b).swap := Std.OrientedCmp.eq_swap
  rw [inOrder_eq, inOrder_eq, swap]
  cases byPlace a b <;> rfl

/-- Diagnostics in order have files in order. -/
theorem files_of_inOrder {a b : Diagnostic} (h : inOrder a b) :
    (compare a.file b.file).isLE := by
  unfold inOrder at h
  rw [fileOrder_eq_compare] at h
  cases hc : compare a.file b.file with
  | lt | eq => rfl
  | gt => rw [hc] at h; cases h

theorem files_sorted (r : Report) :
    (sorted r).Pairwise fun a b => (compare a.file b.file).isLE :=
  (List.pairwise_mergeSort inOrder_trans inOrder_total r).imp files_of_inOrder

/-- Whether one diagnostic comes before another by offset. -/
def byOffset (a b : Diagnostic) : Bool := a.offset ≤ b.offset

/-- What a sorted report says about a file. -/
theorem filter_sorted (r : Report) (file : Option String) :
    (sorted r).filter (·.file = file) = (r.filter (·.file = file)).mergeSort byOffset := by
  unfold sorted
  rw [filter_mergeSort inOrder_trans inOrder_total]
  have same := List.map_mergeSort (f := id) (r := inOrder) (s := byOffset)
    (l := r.filter (·.file = file)) ?_
  · simpa using same
  · intro a ha b hb
    have files : a.file = b.file := by
      simp only [List.mem_filter, decide_eq_true_eq] at ha hb
      rw [ha.2, hb.2]
    unfold inOrder
    rw [fileOrder_eq_compare, files, Std.compare_self]
    rfl

/-- A sorted report depends on what is said about each file only. -/
theorem sorted_congr {r r' : Report}
    (h : ∀ file, r.filter (·.file = file) = r'.filter (·.file = file)) : sorted r = sorted r' := by
  refine eq_of_filter_eq Diagnostic.file (r := fun f g => (compare f g).isLE) ?_
    (files_sorted r) (files_sorted r') fun file => ?_
  · intro f g h h'
    exact Std.LawfulEqCmp.eq_of_compare (Std.OrientedCmp.isLE_antisymm h h')
  · rw [filter_sorted, filter_sorted, h]

end Report

end PapyrusAnalysis
