import LayerLint.Report

/-!
# Order by severity

Sorting by severity puts the suggestions of each severity into one block, the gravest first, and
leaves the order within a block as it was. That a sort is stable (`filter_mergeSort`) and that a
test which fails from some element on keeps a first part of a list (`filter_eq_takeWhile`) has
nothing to do with severities.
-/

namespace LayerLint

/-- Sorting leaves the order of elements alone that compare as equal. -/
theorem filter_mergeSort {α : Type} {le : α → α → Bool}
    (htrans : ∀ a b c, le a b = true → le b c = true → le a c = true)
    (htotal : ∀ a b, (le a b || le b a) = true) {p : α → Bool}
    (hp : ∀ a b, p a = true → p b = true → le a b = true) (xs : List α) :
    (xs.mergeSort le).filter p = xs.filter p := by
  have hsorted : (xs.filter p).Pairwise fun a b => le a b = true := by
    refine List.pairwise_iff_forall_sublist.2 fun {a b} hab => ?_
    have ha := (List.mem_filter.1 (hab.subset (by simp : a ∈ [a, b]))).2
    have hb := (List.mem_filter.1 (hab.subset (by simp : b ∈ [a, b]))).2
    exact hp a b ha hb
  have hsub : (xs.filter p).Sublist (xs.mergeSort le) :=
    List.sublist_mergeSort htrans htotal hsorted List.filter_sublist
  have hfilter : (xs.filter p).Sublist ((xs.mergeSort le).filter p) := by
    simpa only [List.filter_filter, Bool.and_self] using hsub.filter p
  exact (hfilter.eq_of_length ((List.mergeSort_perm xs le).filter p).length_eq.symm).symm

theorem filter_eq_takeWhile {α : Type} {p : α → Bool} {xs : List α}
    (h : xs.Pairwise fun a b => p b = true → p a = true) : xs.filter p = xs.takeWhile p := by
  induction xs with
  | nil => rfl
  | cons a xs ih =>
    obtain ⟨hhead, htail⟩ := List.pairwise_cons.1 h
    by_cases ha : p a = true
    · rw [List.filter_cons_of_pos ha, List.takeWhile_cons_of_pos ha, ih htail]
    · rw [List.filter_cons_of_neg ha, List.takeWhile_cons_of_neg ha]
      exact List.filter_eq_nil_iff.2 fun b hb hpb => ha (hhead b hb hpb)

theorem not_of_mem_dropWhile {α : Type} {p : α → Bool} {xs : List α}
    (h : xs.Pairwise fun a b => p b = true → p a = true) {b : α} (hb : b ∈ xs.dropWhile p) :
    ¬ p b = true := by
  induction xs with
  | nil => cases hb
  | cons a xs ih =>
    obtain ⟨hhead, htail⟩ := List.pairwise_cons.1 h
    by_cases ha : p a = true
    · rw [List.dropWhile_cons_of_pos ha] at hb
      exact ih htail hb
    · rw [List.dropWhile_cons_of_neg ha] at hb
      rcases List.mem_cons.1 hb with rfl | hb
      · exact ha
      · exact fun hpb => ha (hhead b hb hpb)

namespace Rule

def atLeastAsGrave (a b : Suggestion) : Bool := a.severity.rank ≤ b.severity.rank

theorem atLeastAsGrave_trans (a b c : Suggestion) (hab : atLeastAsGrave a b = true)
    (hbc : atLeastAsGrave b c = true) : atLeastAsGrave a c = true :=
  decide_eq_true (Nat.le_trans (of_decide_eq_true hab) (of_decide_eq_true hbc))

theorem atLeastAsGrave_total (a b : Suggestion) :
    (atLeastAsGrave a b || atLeastAsGrave b a) = true := by
  simpa [atLeastAsGrave] using Nat.le_total a.severity.rank b.severity.rank

theorem pairwise_sortBySeverity (ss : List Suggestion) :
    (sortBySeverity ss).Pairwise fun a b => a.severity.rank ≤ b.severity.rank :=
  (List.pairwise_mergeSort atLeastAsGrave_trans atLeastAsGrave_total ss).imp of_decide_eq_true

def block (severity : Severity) (ss : List Suggestion) : List Suggestion :=
  ss.filter fun s => s.severity = severity

/-- Sorting is stable: it leaves the order within a severity alone. -/
theorem block_sortBySeverity (severity : Severity) (ss : List Suggestion) :
    block severity (sortBySeverity ss) = block severity ss := by
  refine filter_mergeSort atLeastAsGrave_trans atLeastAsGrave_total (fun a b ha hb => ?_) ss
  exact decide_eq_true (Nat.le_of_eq (by rw [of_decide_eq_true ha, of_decide_eq_true hb]))

/-- A list in order of severity is made of its blocks. -/
theorem eq_blocks_of_pairwise {ss : List Suggestion}
    (h : ss.Pairwise fun a b => a.severity.rank ≤ b.severity.rank) :
    ss = block .high ss ++ block .medium ss ++ block .low ss := by
  induction ss with
  | nil => rfl
  | cons a ss ih =>
    obtain ⟨hhead, htail⟩ := List.pairwise_cons.1 h
    have hnil : ∀ severity : Severity, severity.rank < a.severity.rank →
        block severity ss = [] := by
      intro severity hlt
      refine List.filter_eq_nil_iff.2 fun b hb hsev => ?_
      have := hhead b hb
      rw [of_decide_eq_true hsev] at this
      omega
    have hcons : ∀ severity : Severity, block severity (a :: ss) =
        if a.severity = severity then a :: block severity ss else block severity ss := by
      intro severity
      simp [block, List.filter_cons]
    have ih := ih htail
    rw [hcons, hcons, hcons]
    cases ha : a.severity with
    | high => simpa using ih
    | medium =>
      rw [hnil .high (by rw [ha]; decide)] at ih ⊢
      simpa using ih
    | low =>
      rw [hnil .high (by rw [ha]; decide), hnil .medium (by rw [ha]; decide)] at ih ⊢
      simpa using ih

theorem sortBySeverity_eq_blocks (ss : List Suggestion) :
    sortBySeverity ss = block .high ss ++ block .medium ss ++ block .low ss := by
  rw [eq_blocks_of_pairwise (pairwise_sortBySeverity ss), block_sortBySeverity,
    block_sortBySeverity, block_sortBySeverity]

end Rule

end LayerLint
