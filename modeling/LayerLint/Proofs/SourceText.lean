import Mathlib.Algebra.GroupWithZero.Nat
import LayerLint.Proofs.Chain
import LayerLint.Proofs.Layout

/-!
# Source text

The source texts of the instructions, one under the other, are a Dockerfile of their own
(`Dockerfile.source`). A logical line can be read again from its source text (`Rereads`), and a
list of them from their source texts as long as none but the last is cut off (`Reprints`). Lines
with an unknown directive may be missing from the list, so the Dockerfile is read again from what
was kept of it, with nothing changed but the line numbers (`parse_source`).
-/

namespace LayerLint

open List (Forall₂)

theorem Text.not_atLineStart_append (a : Text) {b : Text} (hb : '\n' ∉ b) (hne : b ≠ []) :
    ¬ AtLineStart (a ++ b) := by
  rintro (hnil | hlast)
  · exact hne (List.append_eq_nil_iff.1 hnil).2
  · rw [List.getLast?_append_of_ne_nil _ hne] at hlast
    exact hb (List.mem_of_getLast? hlast)

theorem Text.trimmedLines_join_cons {a : Text} (bs : List Text) (ha : ¬ AtLineStart a) :
    trimmedLines (join ['\n'] (a :: bs)) = trimmedLines a ++ trimmedLines (join ['\n'] bs) := by
  cases bs with
  | nil =>
    rw [join_singleton]
    exact (List.append_nil _).symm
  | cons b bs => rw [join_cons_cons, List.singleton_append, trimmedLines_append_under _ ha]

namespace LogicalLine

open Text

/-! ## One logical line -/

/-- The line can be read again from its source text, wherever that stands. `opened` says whether it
waits for its continuation. -/
structure Rereads (opened : Bool) (l : LogicalLine) : Prop where
  ended : ¬ AtLineStart l.raw
  scan_raw : ∀ k rest, scan none (numberFrom k l.raw.trimmedLines ++ rest) =
    resume opened (l.relabel fun _ => k + 1) rest

section
variable {line : Text} (hline : '\n' ∉ line) (hcontent : isSkippable line = false)
include hcontent

theorem trimEnd_ne_nil : line.trimEnd ≠ [] := by
  intro hnil
  rw [← isSkippable_trimEnd, hnil] at hcontent
  cases hcontent

include hline

theorem not_atLineStart_append_trimEnd (a : Text) : ¬ AtLineStart (a ++ line.trimEnd) :=
  not_atLineStart_append a (fun hmem => hline (mem_of_mem_trimEnd hmem)) (trimEnd_ne_nil hcontent)

theorem trimmedLines_trimEnd : trimmedLines line.trimEnd = [line.trimEnd] := by
  have hend : '\n' ∉ line.trimEnd := fun hmem => hline (mem_of_mem_trimEnd hmem)
  rw [trimmedLines_of_no_newline hend (trimEnd_ne_nil hcontent), trimEnd_trimEnd]

theorem rereads_ofLine (number : Nat) : Rereads (continues line) (ofLine number line) where
  ended := not_atLineStart_append_trimEnd hline hcontent []
  scan_raw k rest := by
    show scan none (numberFrom k (trimmedLines line.trimEnd) ++ rest) = _
    rw [trimmedLines_trimEnd hline hcontent]
    show scan none ((k + 1, line.trimEnd) :: rest) = _
    rw [scan_cons_content none _ rest (by rwa [isSkippable_trimEnd]), continues_trimEnd,
      grow_trimEnd]
    rfl

theorem Rereads.extend {l : LogicalLine} (h : Rereads true l) :
    Rereads (continues line) (l.extend line) where
  ended := by
    have h := not_atLineStart_append_trimEnd hline hcontent (l.raw ++ ['\n'])
    rwa [List.append_assoc] at h
  scan_raw k rest := by
    show scan none (numberFrom k (trimmedLines (l.raw ++ '\n' :: line.trimEnd)) ++ rest) = _
    rw [trimmedLines_append_under _ h.ended, trimmedLines_trimEnd hline hcontent,
      numberFrom_append, List.append_assoc, h.scan_raw]
    show scan (some _) ((k + l.raw.trimmedLines.length + 1, line.trimEnd) :: rest) = _
    rw [scan_cons_content _ _ rest (by rwa [isSkippable_trimEnd]), continues_trimEnd,
      grow_trimEnd]
    rfl

theorem rereads_grow {pending : Option LogicalLine}
    (hpending : ∀ l, pending = some l → Rereads true l) (number : Nat) :
    Rereads (continues line) (grow pending number line) := by
  cases pending with
  | none => exact rereads_ofLine hline hcontent number
  | some l => exact (hpending l rfl).extend hline hcontent

end

/-! ## Lists of logical lines -/

/-- Each line can be read again, and only the last may wait for a continuation. -/
inductive Reprints : List LogicalLine → Prop
  | nil : Reprints []
  | last {l : LogicalLine} : Rereads true l → Reprints [l]
  | cons {l : LogicalLine} {ls : List LogicalLine} : Rereads false l → Reprints ls →
    Reprints (l :: ls)

theorem Reprints.sublist {ls ls' : List LogicalLine} (h : Reprints ls) (hsub : ls'.Sublist ls) :
    Reprints ls' := by
  induction h generalizing ls' with
  | nil =>
    rw [List.sublist_nil.1 hsub]
    exact .nil
  | last hl =>
    rcases List.sublist_singleton.1 hsub with rfl | rfl
    · exact .nil
    · exact .last hl
  | cons hl _ ih =>
    cases hsub with
    | cons _ hsub => exact ih hsub
    | cons_cons _ hsub => exact .cons hl (ih hsub)

theorem reprints_scan {pending : Option LogicalLine} {xs : List (Nat × Text)}
    (hlines : ∀ x ∈ xs, '\n' ∉ x.2) (hpending : ∀ l, pending = some l → Rereads true l) :
    Reprints (scan pending xs) := by
  induction xs generalizing pending with
  | nil =>
    cases pending with
    | none => exact .nil
    | some l => exact .last (hpending l rfl)
  | cons x xs ih =>
    obtain ⟨number, line⟩ := x
    have hline : '\n' ∉ line := hlines _ (List.mem_cons_self ..)
    have hrest : ∀ x ∈ xs, '\n' ∉ x.2 := fun x hx => hlines x (List.mem_cons_of_mem _ hx)
    cases hskip : isSkippable line with
    | true =>
      rw [scan_cons, if_pos hskip]
      exact ih hrest hpending
    | false =>
      have hgrow := rereads_grow hline hskip hpending number
      rw [scan_cons_content pending number xs hskip]
      cases hcont : continues line with
      | true =>
        rw [hcont] at hgrow
        exact ih hrest fun l hl => Option.some.inj hl ▸ hgrow
      | false =>
        rw [hcont] at hgrow
        exact .cons hgrow (ih hrest fun l hl => nomatch hl)

end LogicalLine

/-! ## Instructions -/

namespace Instruction

/-- The instructions under each other, the first on the line after `k`. -/
def stack : (k : Nat) → List Instruction → List Instruction
  | _, [] => []
  | k, i :: is => i.relabel (fun _ => k + 1) :: stack (k + i.raw.lines.length) is

theorem stack_eq_mapIdx (k : Nat) (is : List Instruction) :
    stack k is = is.mapIdx fun n i =>
      i.relabel fun _ => k + 1 + ((is.take n).map fun j => j.raw.lines.length).sum := by
  induction is generalizing k with
  | nil => rfl
  | cons i is ih =>
    rw [stack, ih, List.mapIdx_cons, Nat.add_right_comm]
    simp only [List.take_zero, List.map_nil, List.sum_nil, Nat.add_zero, List.take_succ_cons,
      List.map_cons, List.sum_cons, Nat.add_assoc]

theorem stack_forall₂ (k : Nat) (is : List Instruction) :
    Forall₂ (fun i j => ∃ n, j = i.relabel fun _ => n) is (stack k is) := by
  induction is generalizing k with
  | nil => exact .nil
  | cons i is ih => exact .cons ⟨k + 1, rfl⟩ (ih _)

theorem map_filter_ofLogicalLine? (ls : List LogicalLine) :
    (ls.filter fun l => (ofLogicalLine? l).isSome).map ofLogicalLine? =
      (ls.filterMap ofLogicalLine?).map some := by
  induction ls with
  | nil => rfl
  | cons l ls ih => cases hl : ofLogicalLine? l <;> simp [hl, ih]

theorem ofLogicalLine?_relabel_eq_some {l : LogicalLine} {i : Instruction}
    (h : ofLogicalLine? l = some i) (f : Nat → Nat) :
    ofLogicalLine? (l.relabel f) = some (i.relabel f) := by
  rw [ofLogicalLine?_relabel, h]
  rfl

/-- What is read from the source texts of instructions is these instructions again. The induction is
on the lines that they were read from, the last of which the end of the text may cut off. -/
theorem scan_source {ls : List LogicalLine} (h : LogicalLine.Reprints ls) {is : List Instruction}
    (his : ls.map ofLogicalLine? = is.map some) (k : Nat) :
    (LogicalLine.scan none
      (Text.numberFrom k (Text.trimmedLines (Text.join ['\n'] (is.map (·.raw)))))).filterMap
        ofLogicalLine? = stack k is := by
  induction h generalizing is k with
  | nil =>
    rw [List.map_nil, eq_comm, List.map_eq_nil_iff] at his
    rw [his]
    rfl
  | @last l hl =>
    obtain ⟨i, is, rfl, hi, his⟩ := List.map_eq_cons_iff.1 his.symm
    have hraw : i.raw = l.raw := (ofLogicalLine?_eq_some hi.symm).2.2.2
    have hscan := hl.scan_raw k []
    rw [List.append_nil, ← hraw] at hscan
    rw [List.map_eq_nil_iff.1 his, List.map_singleton, Text.join_singleton, hscan]
    show List.filterMap ofLogicalLine? [l.relabel _] = _
    rw [List.filterMap_cons_some (ofLogicalLine?_relabel_eq_some hi.symm _)]
    rfl
  | @cons l ls hl _ ih =>
    obtain ⟨i, is, rfl, hi, his⟩ := List.map_eq_cons_iff.1 his.symm
    have hraw : i.raw = l.raw := (ofLogicalLine?_eq_some hi.symm).2.2.2
    rw [List.map_cons, Text.trimmedLines_join_cons _ (hraw ▸ hl.ended), Text.numberFrom_append,
      hraw, hl.scan_raw, Text.length_trimmedLines]
    show List.filterMap ofLogicalLine? (l.relabel _ :: LogicalLine.scan none _) = _
    rw [List.filterMap_cons_some (ofLogicalLine?_relabel_eq_some hi.symm _), ih his.symm, stack,
      hraw]

end Instruction

/-! ## Dockerfiles -/

namespace Dockerfile

def source (d : Dockerfile) : Text := Text.join "\n" (d.instructions.map (·.raw))

theorem parse_source_instructions (t : Text) :
    (parse (parse t).source).instructions = Instruction.stack 0 (parse t).instructions := by
  have hscan : LogicalLine.Reprints (LogicalLine.scan none (Text.numberFrom 0 t.lines)) :=
    LogicalLine.reprints_scan (fun _ => Text.newline_notMem_of_mem_numberFrom) (by simp)
  have hread := hscan.sublist
    (List.filter_sublist (p := fun l => (Instruction.ofLogicalLine? l).isSome))
  rw [parse_instructions_eq (source _), parse_instructions t]
  exact Instruction.scan_source hread (Instruction.map_filter_ofLogicalLine? _) 0

theorem baseImages_eq_of_alike {t t' : Text}
    (h : Forall₂ Stage.Alike (parse t).stages (parse t').stages) :
    (parse t).baseImages = (parse t').baseImages := by
  have hnames : (parse t).stages.map (fun s => Image.name s.baseImage) =
      (parse t').stages.map fun s => Image.name s.baseImage :=
    map_eq_of_forall₂ h fun s s' hs => by rw [hs.baseImage]
  exact congrArg (fun names => (names.filter (· ≠ [])).eraseDups) hnames

/-- A Dockerfile reads the same from the source texts of its instructions. Only the lines are
others: each instruction starts on the line behind the physical lines of those before it. -/
theorem parse_source (t : Text) :
    (parse (parse t).source).instructions = (parse t).instructions.mapIdx (fun k i =>
        i.relabel fun _ =>
          1 + (((parse t).instructions.take k).map fun j => j.raw.lines.length).sum) ∧
      Forall₂ Stage.Alike (parse t).stages (parse (parse t).source).stages ∧
      (parse (parse t).source).multiStage = (parse t).multiStage ∧
      (parse (parse t).source).baseImages = (parse t).baseImages := by
  have hlist : Forall₂ (fun i j => ∃ n, j = i.relabel fun _ => n) (parse t).instructions
      (parse (parse t).source).instructions := by
    rw [parse_source_instructions]
    exact Instruction.stack_forall₂ 0 _
  have halike : ∀ i j : Instruction, (∃ n, j = i.relabel fun _ => n) → i.Alike j := by
    rintro i j ⟨n, hj⟩
    exact Instruction.alike_relabel _ i j hj
  have h : (parse t).Corresponds _ (parse (parse t).source) :=
    ofInstructions_corresponds halike hlist
  refine ⟨?_, h.stages, h.multiStage.symm, (baseImages_eq_of_alike h.stages).symm⟩
  rw [parse_source_instructions, Instruction.stack_eq_mapIdx, Nat.zero_add]

end Dockerfile

end LayerLint
