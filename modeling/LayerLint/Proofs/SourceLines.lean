import LayerLint.Proofs.LineGroups
import LayerLint.Proofs.Parse
import LayerLint.Proofs.Stages

/-!
# Where instructions stand

An instruction is read from a group of physical lines and carries the number of the first of them.
Its source text has one line for each line of the group (`StandsIn.splitOn_raw`), and the groups of
a text follow each other (`pairwise_groups`). So no two instructions share a line, and a line leads
to at most one instruction and to the stage that holds it (`parse_located`).
-/

namespace LayerLint

/-! ## Numbered lines -/

namespace Text

/-- The physical line with that number, counted from one. -/
def line? (t : Text) : Nat → Option Text
  | 0 => none
  | k + 1 => t.lines[k]?

theorem line?_of_mem_numberedLines {t : Text} {x : Nat × Text} (h : x ∈ t.numberedLines) :
    t.line? x.1 = some x.2 := by
  obtain ⟨⟨line, k⟩, hmem, rfl⟩ := List.mem_map.1 h
  exact List.mem_zipIdx_iff_getElem?.1 hmem

theorem pairwise_numberedLines (t : Text) : t.numberedLines.Pairwise (·.1 < ·.1) := by
  have h : (t.numberedLines.map Prod.fst).Pairwise (· < ·) := by
    show ((numberFrom 0 t.lines).map Prod.fst).Pairwise (· < ·)
    rw [map_fst_numberFrom]
    exact List.pairwise_lt_range'
  exact List.pairwise_map.1 h

theorem count_join_newline {c : Text} {cs : List Text} (h : ∀ x ∈ c :: cs, '\n' ∉ x) :
    (join "\n" (c :: cs)).count '\n' = cs.length := by
  induction cs generalizing c with
  | nil =>
    rw [join_singleton]
    exact List.count_eq_zero.2 (h c (List.mem_cons_self ..))
  | cons d cs ih =>
    obtain ⟨hc, hrest⟩ := List.forall_mem_cons.1 h
    rw [join_cons_cons, List.count_append, List.count_append, ih hrest, List.count_eq_zero.2 hc,
      List.length_cons, Nat.zero_add, Nat.add_comm]
    rfl

end Text

/-! ## Groups of lines -/

namespace LogicalLine

theorem number_add_length_lt {first : Nat × Text} {rest : List (Nat × Text)}
    (hpairwise : (first :: rest).Pairwise (·.1 < ·.1)) {bound : Nat}
    (hbound : ∀ x ∈ first :: rest, x.1 < bound) : first.1 + rest.length < bound := by
  induction rest generalizing first with
  | nil => exact hbound first (List.mem_cons_self ..)
  | cons second rest ih =>
    obtain ⟨hfirst, hrest⟩ := List.pairwise_cons.1 hpairwise
    have hlt := hfirst second (List.mem_cons_self ..)
    have ih := ih hrest fun x hx => hbound x (List.mem_cons_of_mem _ hx)
    rw [List.length_cons]
    omega

/-- The group stands in the text: its lines are lines of the text, in order. -/
structure StandsIn (t : Text) (group : List (Nat × Text)) : Prop where
  nonempty : group ≠ []
  sublist : group.Sublist t.numberedLines

namespace StandsIn

variable {t : Text} {group : List (Nat × Text)} (h : StandsIn t group)
include h

theorem pairwise : group.Pairwise (·.1 < ·.1) := t.pairwise_numberedLines.sublist h.sublist

theorem line?_eq {x : Nat × Text} (hx : x ∈ group) : t.line? x.1 = some x.2 :=
  Text.line?_of_mem_numberedLines (h.sublist.subset hx)

theorem newline_notMem : ∀ line ∈ group.map fun x => x.2.trimEnd, '\n' ∉ line := by
  intro line hline hmem
  obtain ⟨x, hx, rfl⟩ := List.mem_map.1 hline
  exact Text.newline_notMem_of_mem_numberFrom (t := t) (k := 0) (h.sublist.subset hx)
    (Text.mem_of_mem_trimEnd hmem)

theorem splitOn_raw : (ofGroup group).raw.splitOn '\n' = group.map fun x => x.2.trimEnd :=
  List.splitOn_intercalate '\n' h.newline_notMem (by simpa using h.nonempty)

/-- What lies behind all lines of a group lies behind its first line and one more line for each
line feed of its source text. -/
theorem line_add_count_lt {bound : Nat} (hbound : ∀ x ∈ group, x.1 < bound) :
    (ofGroup group).line + (ofGroup group).raw.count '\n' < bound := by
  have hpairwise := h.pairwise
  have hnewline := h.newline_notMem
  obtain ⟨first, rest, rfl⟩ := List.exists_cons_of_ne_nil h.nonempty
  rw [List.map_cons] at hnewline
  have hcount : (ofGroup (first :: rest)).raw.count '\n' = rest.length :=
    (Text.count_join_newline hnewline).trans (List.length_map ..)
  rw [hcount]
  exact number_add_length_lt hpairwise hbound

end StandsIn

section
variable (t : Text)

theorem flatten_groups_sublist :
    (groups (content t.numberedLines)).flatten.Sublist t.numberedLines := by
  rw [(eq_groups_iff.1 rfl).whole]
  exact List.filter_sublist

theorem standsIn_of_mem_groups {group : List (Nat × Text)}
    (h : group ∈ groups (content t.numberedLines)) : StandsIn t group where
  nonempty := (eq_groups_iff.1 rfl).nonempty group h
  sublist := (List.sublist_flatten_of_mem h).trans (flatten_groups_sublist t)

theorem pairwise_groups : (groups (content t.numberedLines)).Pairwise fun g h =>
    ∀ x ∈ g, ∀ y ∈ h, x.1 < y.1 :=
  (List.pairwise_flatten.1
    (t.pairwise_numberedLines.sublist (flatten_groups_sublist t))).2

end

end LogicalLine

/-! ## Instructions -/

namespace Dockerfile

open LogicalLine

theorem parse_instructions_eq_groups (t : Text) :
    (parse t).instructions = (groups (content t.numberedLines)).filterMap fun g =>
      Instruction.ofLogicalLine? (ofGroup g) := by
  have hscan : LogicalLine.ofText t = (groups (content t.numberedLines)).map ofGroup :=
    scan_pendingOf [] t.numberedLines (by simp)
  show (LogicalLine.ofText t).filterMap _ = _
  rw [hscan, List.filterMap_map]
  rfl

theorem exists_group {t : Text} {i : Instruction} (hi : i ∈ (parse t).instructions) :
    ∃ g, StandsIn t g ∧ i.line = (ofGroup g).line ∧ i.raw = (ofGroup g).raw := by
  rw [parse_instructions_eq_groups] at hi
  obtain ⟨g, hg, hgi⟩ := List.mem_filterMap.1 hi
  obtain ⟨hline, -, -, hraw⟩ := Instruction.ofLogicalLine?_eq_some hgi
  exact ⟨g, standsIn_of_mem_groups t hg, hline, hraw⟩

theorem pairwise_line_add_count (t : Text) :
    (parse t).instructions.Pairwise fun i j => i.line + i.raw.count '\n' < j.line := by
  rw [parse_instructions_eq_groups, List.pairwise_filterMap]
  refine (pairwise_groups t).imp_of_mem fun {g h} hg hh hgh i hi j hj => ?_
  obtain ⟨hline, -, -, hraw⟩ := Instruction.ofLogicalLine?_eq_some hi
  obtain ⟨hline', -⟩ := Instruction.ofLogicalLine?_eq_some hj
  obtain ⟨first, rest, rfl⟩ := List.exists_cons_of_ne_nil (standsIn_of_mem_groups t hh).nonempty
  rw [hline, hraw, hline']
  exact (standsIn_of_mem_groups t hg).line_add_count_lt fun x hx =>
    hgh x hx first (List.mem_cons_self ..)

/-- The instructions of `d` stand in the text `t` where their numbers say. -/
structure Located (t : Text) (d : Dockerfile) : Prop where
  /-- The number of an instruction is that of the line on which its source text starts. -/
  first : ∀ i ∈ d.instructions, 1 ≤ i.line ∧
    ∃ line, t.line? i.line = some line ∧ (i.raw.splitOn '\n').head? = some line.trimEnd
  /-- All lines of its source text are lines of the text, in order from that number on. -/
  source : ∀ i ∈ d.instructions, ∃ numbers : List Nat, numbers.head? = some i.line ∧
    numbers.Pairwise (· < ·) ∧
    (i.raw.splitOn '\n').map some = numbers.map fun n => (t.line? n).map Text.trimEnd
  /-- Instructions do not reach into each other. -/
  disjoint : d.instructions.Pairwise fun i j => i.line + i.raw.count '\n' < j.line
  /-- The line of an instruction leads to the one stage that holds its position. -/
  stage : ∀ (k : Nat) (i : Instruction), d.instructions[k]? = some i → ∃ s ∈ d.stages,
    d.stageForLine i.line = some s ∧ ∀ s' ∈ d.stages, s'.Contains k ↔ s' = s
  /-- Other lines lead nowhere. -/
  no_stage : ∀ line, (∀ i ∈ d.instructions, i.line ≠ line) → d.stageForLine line = none

theorem exists_stage_of_position {d : Dockerfile}
    (htiles : Stage.Tiles d.instructions.length 0 0 d.stages)
    (hlines : d.instructions.Pairwise (·.line < ·.line)) {k : Nat} {i : Instruction}
    (hk : d.instructions[k]? = some i) : ∃ s ∈ d.stages,
      d.stageForLine i.line = some s ∧ ∀ s' ∈ d.stages, s'.Contains k ↔ s' = s := by
  obtain ⟨hlt, -⟩ := List.getElem?_eq_some_iff.1 hk
  obtain ⟨s, hs, hcontains⟩ := htiles.exists_contains (Nat.zero_le k) hlt
  refine ⟨s, hs, stageForLine_of_contains htiles hlines hs hk hcontains, fun s' hs' => ?_⟩
  constructor
  · intro hcontains'
    have hfind := htiles.find?_contains hs' hcontains'
    rw [htiles.find?_contains hs hcontains] at hfind
    exact (Option.some.inj hfind).symm
  · rintro rfl
    exact hcontains

theorem stageForLine_eq_none {d : Dockerfile} {line : Nat}
    (h : ∀ i ∈ d.instructions, i.line ≠ line) : d.stageForLine line = none := by
  have hfind : d.instructions.findIdx? (fun i => i.line = line) = none :=
    List.findIdx?_eq_none_iff.2 fun i hi => decide_eq_false (h i hi)
  unfold stageForLine
  rw [hfind]
  rfl

theorem parse_located (t : Text) : Located t (parse t) where
  first i hi := by
    obtain ⟨g, hg, hline, hraw⟩ := exists_group hi
    have hsplit := hg.splitOn_raw
    obtain ⟨⟨number, line⟩, rest, rfl⟩ := List.exists_cons_of_ne_nil hg.nonempty
    have hnumber : i.line = number := hline
    have hfirst : t.line? number = some line := hg.line?_eq (List.mem_cons_self ..)
    rw [hraw, hsplit, hnumber]
    refine ⟨Nat.pos_of_ne_zero ?_, line, hfirst, rfl⟩
    rintro rfl
    cases hfirst
  source i hi := by
    obtain ⟨g, hg, hline, hraw⟩ := exists_group hi
    refine ⟨g.map Prod.fst, ?_, List.pairwise_map.2 hg.pairwise, ?_⟩
    · obtain ⟨x, rest, rfl⟩ := List.exists_cons_of_ne_nil hg.nonempty
      exact congrArg some hline.symm
    · rw [hraw, hg.splitOn_raw, List.map_map, List.map_map]
      refine List.map_congr_left fun x hx => ?_
      simp only [Function.comp_apply, hg.line?_eq hx, Option.map_some]
  disjoint := pairwise_line_add_count t
  stage _ _ := exists_stage_of_position (Stage.ofInstructions_tiles _) (pairwise_line_parse t)
  no_stage _ := stageForLine_eq_none

end Dockerfile

end LayerLint
