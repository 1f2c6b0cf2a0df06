import LayerLint.Proofs.InstructionLine
import LayerLint.Proofs.StringList

/-!
# Exec form and shell form

A `RUN` line has the same arguments and the same command whether its words stand there as they are
or as a JSON list of strings (`Instruction.run_standsFor`). One such line can be put in the place of
the other as long as neither is continued (`Dockerfile.parse_corresponds_of_run`), so the rules
find the same either way, and only the snippets that quote the line differ (`analyze_execForm`).
-/

namespace LayerLint

open List (Forall₂)

/-! ## `RUN` lines -/

theorem endsLine_join {ws : List Text} (hws : ∀ w ∈ ws, w.IsWord)
    (hlast : ∀ w, ws.getLast? = some w → w.getLast? ≠ some '\\') :
    EndsLine (Text.join [' '] ws) where
  one_line := Text.newline_notMem_join hws
  closed := by
    unfold continues
    rw [Text.trimEnd_of_trim (Text.trim_join [' '] hws),
      Text.getLast?_join _ fun w hw => (hws w hw).ne_nil, decide_eq_false_iff_not]
    intro h
    obtain ⟨w, hw, hmark⟩ := Option.bind_eq_some_iff.1 h
    exact hlast w hw hmark

/-- A text that ends in an array ends in a bracket. -/
theorem continues_append_array {ws : List Text} {array : Text}
    (harray : Json.stringList? array = some ws) (s : Text) : continues (s ++ array) = false := by
  obtain ⟨hopen, hclose, -⟩ := Json.stringList?_trim harray
  have hne : array.trim ≠ [] := by
    intro hnil
    rw [hnil] at hopen
    cases hopen
  have hend : array.trimEnd.getLast? = some ']' := by
    rw [← Text.getLast?_of_suffix (Text.trim_suffix_trimEnd array) hne, hclose]
  have hlast : (s ++ array.trimEnd).getLast? = some ']' := by
    rw [List.getLast?_append, hend]
    rfl
  obtain ⟨w, hw, hcut⟩ := Text.exists_eq_trimEnd_append array
  unfold continues
  rw [hcut, ← List.append_assoc, Text.trimEnd_append_of_blank _ hw,
    Text.trimEnd_of_getLast? hlast (by decide), hlast]
  decide

theorem endsLine_array {ws : List Text} {array : Text} (harray : Json.stringList? array = some ws)
    (hline : '\n' ∉ array) : EndsLine array where
  one_line := hline
  closed := continues_append_array harray []

namespace Instruction

variable {ws : List Text} {array : Text}

/-- In shell form the arguments are the words, and the command is the text. -/
theorem run_of_words (number : Nat) (hws : ∀ w ∈ ws, w.IsWord)
    (hfirst : ∀ w, ws.head? = some w → w.head? ≠ some '[') :
    (onLine .run number (Text.join [' '] ws)).arguments = ws ∧
      (onLine .run number (Text.join [' '] ws)).command = Text.join [' '] ws := by
  have htrim := Text.trim_join [' '] hws
  have hopen : (Text.join [' '] ws).trim.head? ≠ some '[' := by
    rw [htrim, Text.head?_join _ fun w hw => (hws w hw).ne_nil]
    intro h
    obtain ⟨w, hw, hbracket⟩ := Option.bind_eq_some_iff.1 h
    exact hfirst w hw hbracket
  constructor
  · show splitArguments _ = ws
    unfold splitArguments
    rw [if_neg hopen, htrim, Text.words_join hws]
  · unfold command
    rw [Text.head?_trimStart, ← Text.head?_trim, trim_argsText_onLine, if_neg hopen]
    exact Text.dropWhile_isSpaceOrTab_of_trim htrim

/-- In exec form the arguments are the members of the list, and the command joins them. -/
theorem run_of_stringList (number : Nat) (harray : Json.stringList? array = some ws) :
    (onLine .run number array).arguments = ws ∧
      (onLine .run number array).command = Text.join [' '] ws := by
  obtain ⟨hopen, -, hlist⟩ := Json.stringList?_trim harray
  have harguments : (onLine .run number array).arguments = ws := by
    show splitArguments array = ws
    unfold splitArguments
    rw [if_pos hopen, hlist]
    rfl
  refine ⟨harguments, ?_⟩
  unfold command
  rw [Text.head?_trimStart, ← Text.head?_trim, trim_argsText_onLine, if_pos hopen, harguments]
  rfl

/-- The rules cannot tell the instructions apart but by the source text that they quote. -/
structure StandsFor (i j : Instruction) : Prop where
  alike : i.Alike j
  line : i.line = j.line
  quoted : i.isCopyLike → i.raw = j.raw ∧ i.argsText = j.argsText

theorem StandsFor.refl (i : Instruction) : i.StandsFor i :=
  ⟨⟨rfl, rfl, rfl, fun _ => rfl⟩, rfl, fun _ => ⟨rfl, rfl⟩⟩

theorem StandsFor.relabel {i j : Instruction} (h : i.StandsFor j) (f : Nat → Nat) :
    (i.relabel f).StandsFor (j.relabel f) :=
  ⟨⟨h.alike.directive, h.alike.arguments, h.alike.command, h.alike.clause⟩, congrArg f h.line,
    h.quoted⟩

theorem run_standsFor (number : Nat) (hws : ∀ w ∈ ws, w.IsWord)
    (hfirst : ∀ w, ws.head? = some w → w.head? ≠ some '[')
    (harray : Json.stringList? array = some ws) :
    (onLine .run number (Text.join [' '] ws)).StandsFor (onLine .run number array) := by
  obtain ⟨harguments, hcommand⟩ := run_of_words number hws hfirst
  obtain ⟨harguments', hcommand'⟩ := run_of_stringList number harray
  exact {
    alike := {
      directive := rfl
      arguments := harguments.trans harguments'.symm
      command := hcommand.trans hcommand'.symm
      clause := fun h => nomatch h }
    line := rfl
    quoted := fun h => nomatch h }

end Instruction

/-! ## One line in the place of another -/

namespace Dockerfile

open Text

theorem parse_corresponds_of_run {a b s t : Text} (ha : AtLineStart a)
    (hclosed : LogicalLine.EndsClosed a.lines) (hb : AtLineEnd b) (hs : EndsLine s)
    (ht : EndsLine t) (hst : (Instruction.onLine .run 1 s).StandsFor (.onLine .run 1 t)) :
    (parse (a ++ (Directive.run.keyword ++ ' ' :: s) ++ b)).Corresponds Instruction.StandsFor
      (parse (a ++ (Directive.run.keyword ++ ' ' :: t) ++ b)) := by
  have hself : ∀ is : List Instruction, Forall₂ Instruction.StandsFor is is := fun is =>
    List.forall₂_same.2 fun i _ => .refl i
  refine ofInstructions_corresponds (fun i j hij => hij.alike) ?_
  show Forall₂ _ (parse _).instructions (parse _).instructions
  obtain ⟨rest, hrest⟩ := exists_parse_keyword_append .run hb
  rw [List.append_assoc a, List.append_assoc a, parse_instructions_append _ ha hclosed,
    parse_instructions_append _ ha hclosed, hrest s hs, hrest t ht]
  exact List.rel_append (hself _) (.cons (hst.relabel _) (hself _))

end Dockerfile

/-! ## Reports -/

def Suggestion.withoutBefore (s : Suggestion) : Suggestion := { s with before := none }

theorem Suggestion.Corresponds.withoutBefore_eq {s t : Suggestion}
    (h : s.Corresponds Instruction.StandsFor t) : s.withoutBefore = t.withoutBefore := by
  have hlines : s.lines = t.lines := by
    rw [← h.map_lines (f := id) fun i j hij => hij.line, List.map_id]
  unfold withoutBefore
  rw [hlines, h.code, h.severity, h.title, h.recommendation, h.after fun i j hij => hij.quoted]

/-- Exec form and shell form are checked alike: when the words of a `RUN` line are written as a
JSON list instead, the suggestions stay the same but for the text before the change. -/
theorem analyze_execForm (ignore : List Text) {a b array : Text} {ws : List Text}
    (ha : Text.AtLineStart a) (hclosed : LogicalLine.EndsClosed a.lines) (hb : Text.AtLineEnd b)
    (hws : ∀ w ∈ ws, w ≠ [] ∧ ∀ c ∈ w, isBlank c = false)
    (hfirst : ∀ w, ws.head? = some w → w.head? ≠ some '[')
    (hlast : ∀ w, ws.getLast? = some w → w.getLast? ≠ some '\\')
    (harray : Json.stringList? array = some ws) (hline : '\n' ∉ array) :
    (analyze ignore (a ++ ("RUN ".toList ++ Text.join " " ws) ++ b)).suggestions.map
        Suggestion.withoutBefore =
      (analyze ignore (a ++ ("RUN ".toList ++ array) ++ b)).suggestions.map
        Suggestion.withoutBefore := by
  have hwords : ∀ w ∈ ws, w.IsWord := fun w hw => ⟨(hws w hw).1, (hws w hw).2⟩
  have hparse := Dockerfile.parse_corresponds_of_run ha hclosed hb
    (endsLine_join hwords hlast) (endsLine_array harray hline)
    (Instruction.run_standsFor 1 hwords hfirst harray)
  have hrules := Rule.runAll_corresponds (fun i j hij => hij.alike) hparse (Rule.isIgnored ignore)
  exact map_eq_of_forall₂ hrules fun s t hst => hst.withoutBefore_eq

/-- The line stands behind a comment that looks continued, and an escape spells a letter of the
list. -/
theorem analyze_execForm_of_escape :
    let a : Text := "FROM debian:12\nRUN apt-get update && \\\n  true\n# next \\\n".toList
    let b : Text := "\r\nCMD [\"curl\"]\n".toList
    let ws : List Text := ["apt-get".toList, "install".toList, "curl".toList]
    let array : Text := " [ \"apt-get\" ,\"install\",\t\"c\\u0075rl\"]\t".toList
    Json.stringList? array = some ws ∧
      (analyze ["DFO003"] (a ++ ("RUN ".toList ++ Text.join " " ws) ++ b)).suggestions.map
          Suggestion.withoutBefore =
        (analyze ["DFO003"] (a ++ ("RUN ".toList ++ array) ++ b)).suggestions.map
          Suggestion.withoutBefore := by
  intro a b ws array
  have hclosed : LogicalLine.EndsClosed a.lines := by
    intro line hline
    rw [← Option.some.inj hline]
    decide
  have hwords : ws.all (fun w => decide (w ≠ []) && w.all fun c => !isBlank c) = true := by decide
  simp only [List.all_eq_true, Bool.and_eq_true, decide_eq_true_eq, Bool.not_eq_true'] at hwords
  have harray : Json.stringList? array = some ws := by decide +kernel
  refine ⟨harray, analyze_execForm _ (.inr (by decide)) hclosed (.inr (.inr ⟨_, rfl⟩)) hwords ?_ ?_
    harray (by decide)⟩
  · intro w hw
    rw [← Option.some.inj hw]
    decide
  · intro w hw
    rw [← Option.some.inj hw]
    decide

end LayerLint
