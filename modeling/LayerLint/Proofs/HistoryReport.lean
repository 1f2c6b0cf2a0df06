import Mathlib.Algebra.Order.Ring.Nat
import LayerLint.History
import LayerLint.Proofs.Order

/-!
# Reports on layer histories

The total of a report is the sum of the sizes as far as 64 bits can hold it: once the sum is cut off
it stays at the largest number, so it does not matter when that happens (`toNat_totalBytes`). The
layers are sorted by size and stay in order where the sizes are the same, and there is only one list
like that (`eq_of_sorted`). In it the layers that reach a threshold come first, so the findings are
about a first part of the list. Taken together this leaves only one report (`analyze_exact`).
-/

namespace LayerLint.History

/-! ## The total -/

theorem toNat_addSaturating (a b : UInt64) :
    (addSaturating a b).toNat = min (a.toNat + b.toNat) (UInt64.size - 1) := by
  have hfits : min (a.toNat + b.toNat) (UInt64.size - 1) < UInt64.size :=
    Nat.lt_of_le_of_lt (Nat.min_le_right _ _) (by decide)
  unfold addSaturating
  rw [UInt64.toNat_ofNat_of_lt' hfits]

theorem toNat_foldl_addSaturating (layers : List Layer) (total : UInt64) :
    (layers.foldl (fun total l => addSaturating total l.size) total).toNat =
      min (total.toNat + (layers.map (·.size.toNat)).sum) (UInt64.size - 1) := by
  induction layers generalizing total with
  | nil =>
    have := total.toNat_lt_size
    simp only [List.foldl_nil, List.map_nil, List.sum_nil]
    omega
  | cons l layers ih =>
    rw [List.foldl_cons, ih, toNat_addSaturating]
    simp only [List.map_cons, List.sum_cons]
    omega

theorem toNat_totalBytes (layers : List Layer) :
    (totalBytes layers).toNat = min (layers.map (·.size.toNat)).sum (UInt64.size - 1) := by
  unfold totalBytes
  rw [toNat_foldl_addSaturating]
  simp

/-! ## The order of layers -/

def atLeastAsLarge (a b : Layer) : Bool := b.size ≤ a.size

theorem atLeastAsLarge_trans (a b c : Layer) (hab : atLeastAsLarge a b = true)
    (hbc : atLeastAsLarge b c = true) : atLeastAsLarge a c = true :=
  decide_eq_true (UInt64.le_trans (of_decide_eq_true hbc) (of_decide_eq_true hab))

theorem atLeastAsLarge_total (a b : Layer) :
    (atLeastAsLarge a b || atLeastAsLarge b a) = true := by
  simpa [atLeastAsLarge] using UInt64.le_total b.size a.size

/-- The layers by size, the largest first, and layers of one size as they were. -/
structure IsSorted (layers sorted : List Layer) : Prop where
  ordered : sorted.Pairwise fun a b => b.size ≤ a.size
  stable : ∀ size, (sorted.filter fun l => l.size = size) = layers.filter fun l => l.size = size

theorem sortBySize_perm (layers : List Layer) : (sortBySize layers).Perm layers :=
  List.mergeSort_perm layers atLeastAsLarge

theorem isSorted_sortBySize (layers : List Layer) : IsSorted layers (sortBySize layers) where
  ordered := (List.pairwise_mergeSort atLeastAsLarge_trans atLeastAsLarge_total layers).imp
    of_decide_eq_true
  stable size := by
    refine filter_mergeSort atLeastAsLarge_trans atLeastAsLarge_total (fun a b ha hb => ?_) layers
    have hsame : b.size = a.size := (of_decide_eq_true hb).trans (of_decide_eq_true ha).symm
    exact decide_eq_true (UInt64.le_of_eq hsame)

theorem mem_iff_of_sizes {xs ys : List Layer}
    (h : ∀ size, (xs.filter fun l => l.size = size) = ys.filter fun l => l.size = size)
    (l : Layer) :
    l ∈ xs ↔ l ∈ ys := by
  have hmem : l ∈ xs.filter (fun l' => l'.size = l.size) ↔
      l ∈ ys.filter fun l' => l'.size = l.size := by rw [h]
  simpa using hmem

/-- A list in order is known by its layers of each size. -/
theorem eq_of_sorted {xs ys : List Layer} (hx : xs.Pairwise fun a b => b.size ≤ a.size)
    (hy : ys.Pairwise fun a b => b.size ≤ a.size)
    (h : ∀ size, (xs.filter fun l => l.size = size) = ys.filter fun l => l.size = size) :
    xs = ys := by
  induction xs generalizing ys with
  | nil =>
    refine (List.eq_nil_iff_forall_not_mem.2 fun l hl => ?_).symm
    exact List.not_mem_nil ((mem_iff_of_sizes h l).2 hl)
  | cons a xs ih =>
    obtain ⟨b, ys, rfl⟩ := List.exists_cons_of_ne_nil
      (List.ne_nil_of_mem ((mem_iff_of_sizes h a).1 (List.mem_cons_self ..)))
    obtain ⟨hxhead, hxtail⟩ := List.pairwise_cons.1 hx
    obtain ⟨hyhead, hytail⟩ := List.pairwise_cons.1 hy
    -- both lists start with a layer of the largest size
    have hsize : a.size = b.size := by
      refine UInt64.le_antisymm ?_ ?_
      · rcases List.mem_cons.1 ((mem_iff_of_sizes h a).1 (List.mem_cons_self ..)) with heq | hmem
        · rw [heq]
          exact UInt64.le_refl _
        · exact hyhead a hmem
      · rcases List.mem_cons.1 ((mem_iff_of_sizes h b).2 (List.mem_cons_self ..)) with heq | hmem
        · rw [heq]
          exact UInt64.le_refl _
        · exact hxhead b hmem
    have hfirst := h a.size
    rw [List.filter_cons_of_pos (by simp), List.filter_cons_of_pos (by simp [hsize])] at hfirst
    obtain ⟨rfl, hrest⟩ := List.cons.inj hfirst
    refine congrArg (a :: ·) (ih hxtail hytail fun size => ?_)
    by_cases hne : a.size = size
    · rw [← hne]
      exact hrest
    · have hother := h size
      rwa [List.filter_cons_of_neg (by simpa using hne),
        List.filter_cons_of_neg (by simpa using hne)] at hother

/-! ## The report -/

/-- The report is about these layers and flags those of at least `threshold` bytes. -/
structure ReportsOn (layers : List Layer) (threshold : UInt64) (r : HistoryReport) : Prop where
  total : r.totalBytes.toNat = min (layers.map (·.size.toNat)).sum (UInt64.size - 1)
  count : r.layerCount = layers.length
  perm : r.layers.Perm layers
  sorted : IsSorted layers r.layers
  /-- One finding for each layer of the longest first part that reaches the threshold. -/
  findings : r.findings = (r.layers.takeWhile fun l => threshold ≤ l.size).map fun l =>
    { layer := l, recommendation := recommendation l.createdBy }
  /-- No layer behind that part reaches the threshold. -/
  behind : ∀ l ∈ r.layers.dropWhile fun l => threshold ≤ l.size, l.size < threshold

theorem pairwise_reaches {layers : List Layer} (h : layers.Pairwise fun a b => b.size ≤ a.size)
    (threshold : UInt64) : layers.Pairwise fun a b =>
      decide (threshold ≤ b.size) = true → decide (threshold ≤ a.size) = true :=
  h.imp fun hab hb => decide_eq_true (UInt64.le_trans (of_decide_eq_true hb) hab)

theorem reportsOn_analyze (layers : List Layer) (threshold : UInt64) :
    ReportsOn layers threshold (analyze layers threshold) where
  total := toNat_totalBytes layers
  count := rfl
  perm := sortBySize_perm layers
  sorted := isSorted_sortBySize layers
  findings := by
    show ((sortBySize layers).filter _).map _ = _
    rw [filter_eq_takeWhile (pairwise_reaches (isSorted_sortBySize layers).ordered threshold)]
    rfl
  behind l hl := by
    have hshort := not_of_mem_dropWhile
      (pairwise_reaches (isSorted_sortBySize layers).ordered threshold) hl
    exact UInt64.not_le.1 (of_decide_eq_false (Bool.eq_false_iff.2 hshort))

theorem ReportsOn.eq_analyze {layers : List Layer} {threshold : UInt64} {r : HistoryReport}
    (h : ReportsOn layers threshold r) : r = analyze layers threshold := by
  have h' := reportsOn_analyze layers threshold
  have htotal : r.totalBytes = (analyze layers threshold).totalBytes :=
    UInt64.toNat_inj.1 (h.total.trans h'.total.symm)
  have hlayers : r.layers = (analyze layers threshold).layers :=
    eq_of_sorted h.sorted.ordered h'.sorted.ordered fun size =>
      (h.sorted.stable size).trans (h'.sorted.stable size).symm
  have hfindings : r.findings = (analyze layers threshold).findings := by
    rw [h.findings, h'.findings, hlayers]
  have hcount : r.layerCount = (analyze layers threshold).layerCount := h.count
  rcases r with ⟨totalBytes, layerCount, sorted, findings⟩
  simp only at htotal hlayers hfindings hcount
  rw [htotal, hlayers, hfindings, hcount]

/-- The order of the layers in the history does not matter for the total and the findings. -/
theorem analyze_perm {layers layers' : List Layer} (h : layers'.Perm layers)
    (threshold : UInt64) :
    (analyze layers' threshold).totalBytes = (analyze layers threshold).totalBytes ∧
      (analyze layers' threshold).findings.Perm (analyze layers threshold).findings := by
  constructor
  · have hsum : (layers'.map (·.size.toNat)).sum = (layers.map (·.size.toNat)).sum :=
      (h.map _).sum_nat
    refine UInt64.toNat_inj.1 ?_
    rw [(reportsOn_analyze layers' threshold).total, (reportsOn_analyze layers threshold).total,
      hsum]
  · have hsorted : (sortBySize layers').Perm (sortBySize layers) :=
      (sortBySize_perm layers').trans (h.trans (sortBySize_perm layers).symm)
    exact (hsorted.filter _).map _

/-- The report on a list of layers has the sum of their sizes, cut off at 64 bits, the layers from
the largest to the smallest, with the order among equals kept, and a finding for each layer of the
first part that reaches the threshold, behind which none does. It is the only report like that, and
its total and its findings do not depend on the order of the layers. -/
theorem analyze_exact (layers : List Layer) (threshold : UInt64) :
    (∀ r, r = analyze layers threshold ↔ ReportsOn layers threshold r) ∧
    ∀ layers' : List Layer, layers'.Perm layers →
      (analyze layers' threshold).totalBytes = (analyze layers threshold).totalBytes ∧
        (analyze layers' threshold).findings.Perm (analyze layers threshold).findings := by
  refine ⟨fun r => ⟨?_, ReportsOn.eq_analyze⟩, fun layers' h => analyze_perm h threshold⟩
  rintro rfl
  exact reportsOn_analyze layers threshold

/-- Two layers of one size, together too large for 64 bits, and a small one in front of them. -/
theorem analyze_exact_of_tie :
    let layer (id : Text) (size : UInt64) : Layer := { id, size, createdBy := "RUN make" }
    let a := layer "a" 5
    let b := layer "b" 18446744073709551614
    let c := layer "c" 18446744073709551614
    let flagged (l : Layer) : LargeLayer :=
      ⟨l, "Check whether this layer's content is needed in the final image."⟩
    analyze [a, b, c] 6 =
        { totalBytes := 18446744073709551615, layerCount := 3, layers := [b, c, a]
          findings := [flagged b, flagged c] } ∧
      [c, a, b].Perm [a, b, c] ∧
      (analyze [c, a, b] 6).totalBytes = (analyze [a, b, c] 6).totalBytes ∧
      (analyze [c, a, b] 6).findings.Perm (analyze [a, b, c] 6).findings := by
  intro layer a b c flagged
  have hperm : [c, a, b].Perm [a, b, c] := by decide
  obtain ⟨hexact, horder⟩ := analyze_exact [a, b, c] 6
  refine ⟨((hexact _).2 ⟨by decide +kernel, rfl, by decide, ⟨by decide, fun size => ?_⟩,
    by decide +kernel, by decide⟩).symm, hperm, horder _ hperm⟩
  by_cases hsize : a.size = size
  · subst hsize
    decide
  · simp [List.filter_cons, hsize]

end LayerLint.History
