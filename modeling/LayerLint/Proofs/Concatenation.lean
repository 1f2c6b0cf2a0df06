import LayerLint.Proofs.Layout

/-!
# One Dockerfile behind another

A text that ends with a line and leaves no continuation open is read apart from what stands behind
it (`parse_instructions_append`). When what stands behind opens a stage of its own, the stages stay
apart as well (`Stage.ofInstructions_append`), and every rule that looks at one stage or one
instruction at a time reports on the first text and then on the second (`parse_append`).
-/

namespace LayerLint

open List (Forall₂)

/-! ## Instructions -/

theorem Text.numberFrom_add (k n : Nat) (lines : List Text) :
    numberFrom (k + n) lines = (numberFrom k lines).map (Prod.map (· + n) id) := by
  induction lines generalizing k with
  | nil => rfl
  | cons line lines ih =>
    rw [numberFrom_cons, numberFrom_cons, List.map_cons, ← ih, Nat.add_right_comm, Prod.map_apply,
      id_eq, Nat.add_right_comm]

theorem Dockerfile.instructions_numberFrom_add (k n : Nat) (lines : List Text) :
    (LogicalLine.scan none (Text.numberFrom (k + n) lines)).filterMap Instruction.ofLogicalLine? =
      ((LogicalLine.scan none (Text.numberFrom k lines)).filterMap
        Instruction.ofLogicalLine?).map (Instruction.relabel (· + n)) := by
  have hshift := LogicalLine.scan_map_relabel (· + n) none (Text.numberFrom k lines)
  rw [Option.map_none, ← Text.numberFrom_add] at hshift
  rw [hshift, List.filterMap_map, List.map_filterMap]
  exact congrArg (List.filterMap · _) (funext fun l => Instruction.ofLogicalLine?_relabel _ l)

theorem Dockerfile.parse_instructions_append {a : Text} (b : Text) (ha : Text.AtLineStart a)
    (hclosed : LogicalLine.EndsClosed a.lines) :
    (parse (a ++ b)).instructions =
      (parse a).instructions ++
        (parse b).instructions.map (Instruction.relabel (· + a.lines.length)) := by
  have hfinishes : LogicalLine.Finishes none ((Text.numberFrom 0 a.lines).map Prod.snd) := by
    rw [Text.map_snd_numberFrom]
    exact hclosed.finishes
  rw [parse_instructions, Text.lines_append b ha, Text.numberFrom_append,
    LogicalLine.scan_append hfinishes, List.filterMap_append, instructions_numberFrom_add,
    parse_instructions a, parse_instructions b]

/-! ## Stages -/

namespace Stage

def behind (stages lines instructions : Nat) (s : Stage) : Stage :=
  { s with
    index := s.index + stages
    name := s.givenName.getD (defaultName (s.index + stages))
    startLine := s.startLine + lines
    start := s.start + instructions
    stop := s.stop + instructions }

theorem fromsAt_append (k : Nat) (is js : List Instruction) :
    fromsAt k (is ++ js) = fromsAt k is ++ fromsAt (k + is.length) js := by
  unfold fromsAt
  rw [List.zipIdx_append, List.map_append, List.filter_append]

theorem fromsAt_relabel (k n lines : Nat) (is : List Instruction) :
    fromsAt (k + n) (is.map (Instruction.relabel (· + lines))) =
      (fromsAt k is).map (Prod.map (· + n) (Instruction.relabel (· + lines))) := by
  induction is generalizing k with
  | nil => rfl
  | cons i is ih =>
    rw [List.map_cons, fromsAt_cons, fromsAt_cons, Nat.add_right_comm, ih]
    show (if i.directive = .from then _ else _) = _
    split
    · rfl
    · rfl

theorem length_ofFroms (total index start : Nat) (ps : List (Nat × Instruction)) :
    (ofFroms total index start ps).length = ps.length := by
  induction ps generalizing index start with
  | nil => rfl
  | cons p ps ih => exact congrArg (· + 1) (ih _ _)

/-- The stages of the first `FROM`s end where the next one stands. -/
theorem ofFroms_append {ps : List (Nat × Instruction)} (hps : ps ≠ []) (total index start q : Nat)
    (opener : Instruction) (qs : List (Nat × Instruction)) :
    ofFroms total index start (ps ++ (q, opener) :: qs) =
      ofFroms q index start ps ++ ofFroms total (index + ps.length) q ((q, opener) :: qs) := by
  induction ps generalizing index start with
  | nil => exact absurd rfl hps
  | cons p ps ih =>
    cases ps with
    | nil => rfl
    | cons p' ps =>
      have ih := ih (List.cons_ne_nil _ _) (index + 1) p'.1
      rw [List.length_cons, Nat.add_comm _ 1, ← Nat.add_assoc, List.cons_append, ofFroms]
      exact congrArg (_ :: ·) ih

theorem ofFroms_behind (total index start stages lines instructions : Nat)
    (ps : List (Nat × Instruction)) :
    ofFroms (total + instructions) (index + stages) (start + instructions)
        (ps.map (Prod.map (· + instructions) (Instruction.relabel (· + lines)))) =
      (ofFroms total index start ps).map (behind stages lines instructions) := by
  induction ps generalizing index start with
  | nil => rfl
  | cons p ps ih =>
    cases ps with
    | nil => rfl
    | cons p' ps =>
      have ih := ih (index + 1) p'.1
      rw [Nat.add_right_comm] at ih
      exact congrArg (_ :: ·) ih

theorem ofInstructions_append {is js : List Instruction} (his : ∃ i ∈ is, i.directive = .from)
    {first : Instruction} (hjs : js.head? = some first) (hfirst : first.directive = .from)
    (lines : Nat) :
    ofInstructions (is ++ js.map (Instruction.relabel (· + lines))) =
      ofInstructions is ++
        (ofInstructions js).map (behind (ofInstructions is).length lines is.length) := by
  obtain ⟨tail, rfl⟩ := List.head?_eq_some_iff.1 hjs
  obtain ⟨hne, hstages⟩ := ofInstructions_eq_ofFroms his
  obtain ⟨-, hstages'⟩ :=
    ofInstructions_eq_ofFroms ⟨first, List.mem_cons_self (l := tail), hfirst⟩
  have hboth : ∃ i ∈ is ++ (first :: tail).map (Instruction.relabel (· + lines)),
      i.directive = .from := by
    obtain ⟨i, hi, hf⟩ := his
    exact ⟨i, List.mem_append_left _ hi, hf⟩
  have hfroms : fromsAt 0 (first :: tail) = (0, first) :: fromsAt 1 tail := by
    rw [fromsAt_cons, if_pos hfirst]
  have hlength : (ofInstructions is).length = (fromsAt 0 is).length := by
    rw [hstages, length_ofFroms]
  have htotal : (is ++ (first :: tail).map (Instruction.relabel (· + lines))).length =
      (first :: tail).length + is.length := by
    rw [List.length_append, List.length_map, Nat.add_comm]
  rw [(ofInstructions_eq_ofFroms hboth).2, htotal, fromsAt_append, fromsAt_relabel, hfroms,
    List.map_cons, Prod.map_apply]
  -- the first `FROM` behind stands right behind the instructions in front
  rw [ofFroms_append hne, hlength, hstages, hstages', hfroms, ← ofFroms_behind, List.map_cons,
    Prod.map_apply]
  simp only [Nat.zero_add]

end Stage

namespace Dockerfile

theorem stageInstructions_append {d e : Dockerfile} {rest : List Instruction}
    (h : e.instructions = d.instructions ++ rest) {s : Stage}
    (hs : s.start ≤ s.stop ∧ s.stop ≤ d.instructions.length) :
    e.stageInstructions s = d.stageInstructions s := by
  have hlength : s.stop ≤ e.instructions.length := by
    rw [h, List.length_append]
    omega
  unfold stageInstructions
  rw [if_pos hs, if_pos ⟨hs.1, hlength⟩, h, List.drop_append_of_le_length (by omega),
    List.take_append_of_le_length (by rw [List.length_drop]; omega)]

theorem stageInstructions_behind {d e : Dockerfile} {before : List Instruction}
    {f : Instruction → Instruction} (h : e.instructions = before ++ d.instructions.map f)
    (stages lines : Nat) (s : Stage) :
    e.stageInstructions (s.behind stages lines before.length) = (d.stageInstructions s).map f := by
  have hbounds : (s.behind stages lines before.length).start ≤
        (s.behind stages lines before.length).stop ∧
      (s.behind stages lines before.length).stop ≤ e.instructions.length ↔
      s.start ≤ s.stop ∧ s.stop ≤ d.instructions.length := by
    rw [h, List.length_append, List.length_map]
    simp only [Stage.behind]
    omega
  unfold stageInstructions
  simp only [hbounds]
  split
  · rw [h]
    simp only [Stage.behind]
    rw [Nat.add_comm s.start, List.drop_length_add_append, Nat.add_comm before.length,
      Nat.add_sub_add_right, ← List.map_drop, List.map_take]
  · rfl

/-- The stages of the first Dockerfile with their instructions, then those of the second. -/
theorem staged_append {is js : List Instruction} (his : ∃ i ∈ is, i.directive = .from)
    {first : Instruction} (hjs : js.head? = some first) (hfirst : first.directive = .from)
    (lines : Nat) :
    (ofInstructions (is ++ js.map (Instruction.relabel (· + lines)))).staged =
      (ofInstructions is).staged ++ (ofInstructions js).staged.map fun (s, part) =>
        (s.behind (Stage.ofInstructions is).length lines is.length,
          part.map (Instruction.relabel (· + lines))) := by
  have htiles := Stage.ofInstructions_tiles is
  unfold staged
  show (Stage.ofInstructions (is ++ js.map _)).map _ = _
  rw [Stage.ofInstructions_append his hjs hfirst, List.map_append, List.map_map, List.map_map]
  congr 1
  · refine List.map_congr_left fun s hs => ?_
    rw [stageInstructions_append (d := ofInstructions is) rfl (htiles.bounds hs).2]
  · refine List.map_congr_left fun s _ => ?_
    rw [Function.comp_apply, Function.comp_apply,
      stageInstructions_behind (d := ofInstructions js) rfl]

theorem parse_stages_append {a b : Text} (hline : a.getLast? = some '\n')
    (hclosed : LogicalLine.EndsClosed a.lines)
    (hfrom : ∃ i ∈ (parse a).instructions, i.directive = .from)
    (hfirst : ∃ i, (parse b).instructions.head? = some i ∧ i.directive = .from) :
    (parse (a ++ b)).stages = (parse a).stages ++ (parse b).stages.map (Stage.behind
      (parse a).stages.length a.lines.length (parse a).instructions.length) := by
  obtain ⟨first, hhead, hfirst⟩ := hfirst
  show Stage.ofInstructions (parse (a ++ b)).instructions = _
  rw [parse_instructions_append b (.inr hline) hclosed]
  exact Stage.ofInstructions_append hfrom hhead hfirst _

end Dockerfile

/-! ## Rules -/

/-- The suggestion but for its title, which may name a stage. -/
def Suggestion.untitled (s : Suggestion) : Suggestion := { s with title := [] }

namespace Rule

variable {r : Rule}

theorem instructionwise_append (hr : r ∈ instructionwise) {d e f : Dockerfile}
    (h : f.instructions = d.instructions ++ e.instructions) :
    r.detect f = r.detect d ++ r.detect e := by
  have hdirective : ∀ directive, f.withDirective directive =
      d.withDirective directive ++ e.withDirective directive := fun directive => by
    unfold Dockerfile.withDirective
    rw [h, List.filter_append]
  simp only [instructionwise, List.mem_cons, List.not_mem_nil, or_false] at hr
  rcases hr with rfl | rfl | rfl | rfl
  · show ((f.withDirective .run).filter _).filterMap _ = _
    rw [hdirective, List.filter_append, List.filterMap_append]
    rfl
  · show ((f.withDirective .add).filter _).map _ = _
    rw [hdirective, List.filter_append, List.map_append]
    rfl
  all_goals
    show ((f.withDirective .run).filter _).map _ = _
    rw [hdirective, List.filter_append, List.map_append]
    rfl

theorem untitled_copyOrders (s s' : Stage) (is : List Instruction) :
    (copyOrders s is).map Suggestion.untitled = (copyOrders s' is).map Suggestion.untitled := by
  induction is with
  | nil => rfl
  | cons i is ih =>
    rw [copyOrders, copyOrders, List.map_append, List.map_append, ih]
    congr 1
    split
    · cases is.find? copiesManifest with
      | none => rfl
      | some manifest => rfl
    · rfl

theorem untitled_lateWorkdirs (s s' : Stage) (seen : Bool) (is : List Instruction) :
    (lateWorkdirs s seen is).map Suggestion.untitled =
      (lateWorkdirs s' seen is).map Suggestion.untitled := by
  induction is generalizing seen with
  | nil => rfl
  | cons i is ih =>
    unfold lateWorkdirs
    split
    · exact ih true
    · exact ih true
    · rw [List.map_append, List.map_append, ih]
      congr 1
      split
      · rfl
      · rfl
    · exact ih seen

/-- A rule of this kind reports on one stage after the other, and the stage itself shows in nothing
but the title. -/
theorem stagewise_detect (hr : r ∈ stagewise) :
    ∃ report : Stage → List Instruction → List Suggestion,
      (∀ d : Dockerfile, r.detect d = d.staged.flatMap fun (s, is) => report s is) ∧
      ∀ s s' is,
        (report s is).map Suggestion.untitled = (report s' is).map Suggestion.untitled := by
  simp only [stagewise, List.mem_cons, List.not_mem_nil, or_false] at hr
  rcases hr with rfl | rfl | rfl | rfl | rfl
  · refine ⟨repeatedInstalls, fun d => rfl, fun s s' is => ?_⟩
    unfold repeatedInstalls
    rw [List.map_map, List.map_map]
    rfl
  · exact ⟨fun _ is => separateUpdates is, fun d => rfl, fun s s' is => rfl⟩
  · exact ⟨copyOrders, fun d => rfl, untitled_copyOrders⟩
  · exact ⟨fun s is => lateWorkdirs s false is, fun d => rfl,
      fun s s' is => untitled_lateWorkdirs s s' false is⟩
  · refine ⟨fun s is => (copyBlocks [] is).map (combineCopiesSuggestion s), fun d => rfl,
      fun s s' is => ?_⟩
    rw [List.map_map, List.map_map]
    rfl

theorem detect_relabel (hr : r ∈ all) (f : Nat → Nat) (is : List Instruction) :
    (r.detect (.ofInstructions is)).map (Suggestion.relabel f) =
      r.detect (.ofInstructions (is.map (Instruction.relabel f))) := by
  have hcorresponds := Dockerfile.ofInstructions_corresponds (Instruction.alike_relabel f)
    (Instruction.forall₂_map_relabel f is)
  have hdetect := detect_corresponds (Instruction.alike_relabel f) hcorresponds hr
  exact map_eq_right_of_forall₂ hdetect fun s t hst => hst.eq_relabel

/-- The report on what stands behind is that on the same instructions alone, but for titles. -/
theorem untitled_report_behind {report : Stage → List Instruction → List Suggestion}
    (huntitled : ∀ s s' is,
      (report s is).map Suggestion.untitled = (report s' is).map Suggestion.untitled)
    (move : Stage → Stage) (f : Nat → Nat) (is : List Instruction) :
    ((Dockerfile.ofInstructions is).staged.flatMap fun (s, part) =>
        report (move s) (part.map (Instruction.relabel f))).map Suggestion.untitled =
      ((Dockerfile.ofInstructions (is.map (Instruction.relabel f))).staged.flatMap
        fun (s, part) => report s part).map Suggestion.untitled := by
  have hcorresponds := Dockerfile.ofInstructions_corresponds (Instruction.alike_relabel f)
    (Instruction.forall₂_map_relabel f is)
  rw [List.map_flatMap, List.map_flatMap]
  refine flatMap_eq_of_forall₂ hcorresponds.staged ?_
  rintro ⟨s, part⟩ ⟨s', part'⟩ ⟨-, hpart⟩
  have hpart : part.map (Instruction.relabel f) = part' :=
    map_eq_right_of_forall₂ hpart fun i j hij => hij.symm
  rw [← hpart]
  exact huntitled _ _ _

section
variable {is js : List Instruction} (his : ∃ i ∈ is, i.directive = .from) {first : Instruction}
  (hjs : js.head? = some first) (hfirst : first.directive = .from) (lines : Nat)
include his hjs hfirst

theorem stagewise_append (hr : r ∈ stagewise) (hall : r ∈ all) :
    ∃ found, r.detect (.ofInstructions (is ++ js.map (Instruction.relabel (· + lines)))) =
        r.detect (.ofInstructions is) ++ found ∧
      found.map Suggestion.untitled =
        (r.detect (.ofInstructions js)).map fun s => (s.relabel (· + lines)).untitled := by
  obtain ⟨report, hdetect, huntitled⟩ := stagewise_detect hr
  have hbehind := untitled_report_behind huntitled
    (Stage.behind (Stage.ofInstructions is).length lines is.length) (· + lines) js
  rw [← hdetect, ← detect_relabel hall, List.map_map] at hbehind
  refine ⟨_, ?_, hbehind⟩
  rw [hdetect, Dockerfile.staged_append his hjs hfirst, List.flatMap_append, ← hdetect,
    List.flatMap_map]

end

end Rule

namespace Dockerfile

/-- A text that ends with a line, has a `FROM` and leaves no continuation open, and behind it a text
that starts with a `FROM`: instructions and stages are those of the first text and then those of the
second, moved behind them, and so are the suggestions of all rules that do not look at the whole
Dockerfile. The title of a suggestion may name a stage, and so may change with its number. -/
theorem parse_append {a b : Text} (hline : a.getLast? = some '\n')
    (hclosed : LogicalLine.EndsClosed a.lines)
    (hfrom : ∃ i ∈ (parse a).instructions, i.directive = .from)
    (hfirst : ∃ i, (parse b).instructions.head? = some i ∧ i.directive = .from) :
    (parse (a ++ b)).instructions = (parse a).instructions ++
        (parse b).instructions.map (Instruction.relabel (· + a.lines.length)) ∧
      (parse (a ++ b)).stages = (parse a).stages ++ (parse b).stages.map (Stage.behind
        (parse a).stages.length a.lines.length (parse a).instructions.length) ∧
      ∀ r ∈ Rule.all, r.code ≠ "DFO006".toList → r.code ≠ "DFO007".toList →
        ∃ found, r.detect (parse (a ++ b)) = r.detect (parse a) ++ found ∧
          found.map Suggestion.untitled =
            (r.detect (parse b)).map fun s => (s.relabel (· + a.lines.length)).untitled := by
  have hinstructions := parse_instructions_append b (.inr hline) hclosed
  have hparse : ∀ t, parse t = ofInstructions (parse t).instructions := fun _ => rfl
  refine ⟨hinstructions, parse_stages_append hline hclosed hfrom hfirst, fun r hr h6 h7 => ?_⟩
  obtain ⟨first, hhead, hfirst⟩ := hfirst
  rw [hparse (a ++ b), hinstructions]
  rcases Rule.mem_all_cases hr with hkind | hkind | rfl | rfl
  · exact Rule.stagewise_append hfrom hhead hfirst _ hkind hr
  · refine ⟨_, Rule.instructionwise_append hkind
      (e := .ofInstructions ((parse b).instructions.map _)) rfl, ?_⟩
    rw [← Rule.detect_relabel hr, List.map_map]
    rfl
  · exact absurd rfl h6
  · exact absurd rfl h7

/-- The first text ends in a comment that looks continued, the second starts with a line that is
dropped. -/
theorem parse_append_of_comment :
    let a : Text := "FROM a\nRUN apk update \\\n  -q\n# end \\\n".toList
    let b : Text := "BOGUS\nFROM b\nRUN apk update\n".toList
    (parse (a ++ b)).stages = (parse a).stages ++ (parse b).stages.map (Stage.behind 1 4 2) ∧
      ∃ found, Rule.separateUpdate.detect (parse (a ++ b)) =
          Rule.separateUpdate.detect (parse a) ++ found ∧
        found.map Suggestion.untitled =
          (Rule.separateUpdate.detect (parse b)).map fun s => (s.relabel (· + 4)).untitled := by
  intro a b
  have hclosed : LogicalLine.EndsClosed a.lines := by
    intro line hline
    rw [← Option.some.inj hline]
    decide
  have h := parse_append (a := a) (b := b) (by decide) hclosed (by decide) ⟨_, rfl, rfl⟩
  exact ⟨h.2.1, h.2.2 Rule.separateUpdate (List.mem_cons_of_mem _ (List.mem_cons_self ..))
    (by decide) (by decide)⟩

end Dockerfile

end LayerLint
