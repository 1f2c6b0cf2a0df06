import LayerLint.Dockerfile
import LayerLint.Proofs.LogicalLines

/-!
# Reading a text

The instructions of a text carry the numbers of the physical lines they start on, in increasing
order. The arguments of an instruction stand on one line and do not end in white space. When the
text is not cut off within a continuation, they do not end in a continuation mark either.
-/

namespace LayerLint

/-! ## Numbered lines -/

namespace Text

/-- The lines with their numbers, counted from `k + 1`. -/
def numberFrom (k : Nat) (lines : List Text) : List (Nat × Text) :=
  (lines.zipIdx k).map fun (line, k) => (k + 1, line)

theorem numberFrom_cons (k : Nat) (line : Text) (lines : List Text) :
    numberFrom k (line :: lines) = (k + 1, line) :: numberFrom (k + 1) lines := rfl

theorem numberFrom_append (k : Nat) (xs ys : List Text) :
    numberFrom k (xs ++ ys) = numberFrom k xs ++ numberFrom (k + xs.length) ys := by
  unfold numberFrom
  rw [List.zipIdx_append, List.map_append]

theorem map_snd_numberFrom (k : Nat) (lines : List Text) :
    (numberFrom k lines).map Prod.snd = lines := by
  induction lines generalizing k with
  | nil => rfl
  | cons line lines ih => rw [numberFrom_cons, List.map_cons, ih]

theorem map_fst_numberFrom (k : Nat) (lines : List Text) :
    (numberFrom k lines).map Prod.fst = List.range' (k + 1) lines.length := by
  induction lines generalizing k with
  | nil => rfl
  | cons line lines ih =>
    rw [numberFrom_cons, List.map_cons, ih, List.length_cons, List.range'_succ]

theorem newline_notMem_of_mem_numberFrom {t : Text} {k : Nat} {x : Nat × Text}
    (h : x ∈ numberFrom k t.lines) : '\n' ∉ x.2 :=
  newline_notMem_of_mem_lines
    (map_snd_numberFrom k t.lines ▸ List.mem_map_of_mem (f := Prod.snd) h)

end Text

/-! ## Lines of instructions -/

namespace Instruction

theorem ofLogicalLine?_eq_some {l : LogicalLine} {i : Instruction}
    (h : ofLogicalLine? l = some i) :
    i.line = l.line ∧ i.argsText = l.argsText ∧ i.arguments = splitArguments l.argsText ∧
      i.raw = l.raw := by
  obtain ⟨directive, -, rfl⟩ := Option.map_eq_some_iff.1 h
  exact ⟨rfl, rfl, rfl, rfl⟩

theorem map_line_filterMap_sublist (ls : List LogicalLine) :
    ((ls.filterMap ofLogicalLine?).map (·.line)).Sublist (ls.map (·.line)) := by
  induction ls with
  | nil => exact List.Sublist.refl _
  | cons l ls ih =>
    cases h : ofLogicalLine? l with
    | none =>
      rw [List.filterMap_cons_none h]
      exact ih.cons _
    | some i =>
      rw [List.filterMap_cons_some h, List.map_cons, List.map_cons, (ofLogicalLine?_eq_some h).1]
      exact ih.cons_cons _

end Instruction

namespace Dockerfile

open Text

theorem parse_instructions (t : Text) :
    (parse t).instructions =
      (LogicalLine.scan none (numberFrom 0 t.lines)).filterMap Instruction.ofLogicalLine? := rfl

theorem map_line_parse_sublist (t : Text) :
    ((parse t).instructions.map (·.line)).Sublist (List.range' 1 t.lines.length) := by
  have hscan := LogicalLine.map_line_scan_sublist none (numberFrom 0 t.lines)
  rw [map_fst_numberFrom] at hscan
  rw [parse_instructions]
  exact (Instruction.map_line_filterMap_sublist _).trans hscan

theorem pairwise_line_parse (t : Text) :
    (parse t).instructions.Pairwise (·.line < ·.line) := by
  have h := List.Pairwise.sublist (map_line_parse_sublist t) List.pairwise_lt_range'
  exact List.pairwise_map.1 h

theorem trimmedText_argsText {t : Text} {i : Instruction} (hi : i ∈ (parse t).instructions) :
    LogicalLine.TrimmedText i.argsText := by
  rw [parse_instructions] at hi
  obtain ⟨l, hl, hli⟩ := List.mem_filterMap.1 hi
  have htext : LogicalLine.TrimmedText l.text :=
    LogicalLine.trimmedText_of_mem_scan (fun _ => newline_notMem_of_mem_numberFrom) (by simp) l hl
  rw [(Instruction.ofLogicalLine?_eq_some hli).2.1]
  exact htext.of_suffix ((List.dropWhile_suffix _).trans (List.dropWhile_suffix _))

theorem head?_argsText {t : Text} {i : Instruction} (hi : i ∈ (parse t).instructions) {c : Char}
    (hc : i.argsText.head? = some c) : isSpaceOrTab c = false := by
  obtain ⟨l, -, hli⟩ := List.mem_filterMap.1 (parse_instructions t ▸ hi)
  rw [(Instruction.ofLogicalLine?_eq_some hli).2.1] at hc
  have := List.head?_dropWhile_not isSpaceOrTab l.text.afterFirstWord
  unfold LogicalLine.argsText at hc
  simpa [hc] using this

theorem closedText_argsText_of_line {l : LogicalLine} (hl : LogicalLine.ClosedText l.text)
    {i : Instruction} (hi : Instruction.ofLogicalLine? l = some i) (hne : i.argsText ≠ []) :
    LogicalLine.ClosedText i.argsText := by
  have hsuffix : i.argsText <:+ l.text := by
    rw [(Instruction.ofLogicalLine?_eq_some hi).2.1]
    exact (List.dropWhile_suffix _).trans (List.dropWhile_suffix _)
  exact {
    one_line := fun hmem => hl.one_line (hsuffix.subset hmem)
    last := by
      rw [getLast?_of_suffix hsuffix hne]
      exact hl.last }

/-- The arguments of an instruction end where a logical line ends. -/
theorem closedText_argsText {t : Text} (hclosed : LogicalLine.EndsClosed t.lines) {i : Instruction}
    (hi : i ∈ (parse t).instructions) (hne : i.argsText ≠ []) :
    LogicalLine.ClosedText i.argsText := by
  rw [parse_instructions] at hi
  obtain ⟨l, hl, hli⟩ := List.mem_filterMap.1 hi
  have htext : LogicalLine.ClosedText l.text :=
    LogicalLine.closedText_of_mem_scan (fun _ => newline_notMem_of_mem_numberFrom) (by simp)
      (by rw [map_snd_numberFrom]; exact hclosed.finishes) l hl
  exact closedText_argsText_of_line htext hli hne

/-- So do those of any instruction that another one follows. -/
theorem pairwise_closedText_argsText (t : Text) :
    (parse t).instructions.Pairwise fun i _ =>
      i.argsText ≠ [] → LogicalLine.ClosedText i.argsText := by
  rw [parse_instructions, List.pairwise_filterMap]
  refine List.Pairwise.imp (fun hl i hi _ _ => closedText_argsText_of_line hl hi) ?_
  exact LogicalLine.pairwise_closedText_scan (fun _ => newline_notMem_of_mem_numberFrom) (by simp)

end Dockerfile

end LayerLint
