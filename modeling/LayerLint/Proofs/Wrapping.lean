import LayerLint.Proofs.ContinuedLines
import LayerLint.Proofs.InstructionLine

/-!
# Wrapped lines

A line can be broken at any of the gaps between its words (`wrap`). The scan puts the words together
again (`scan_wrap`), so an instruction has the same directive and the same arguments however its
line is broken (`Dockerfile.exists_parse_wrap`). The instructions behind it move by the number of
breaks, and the rules find the same (`analyze_wrap`).
-/

namespace LayerLint

open List (Forall₂)

/-! ## Lines broken at gaps -/

/-- What stands in front of a word: a space, or a break and the indentation of the next line. -/
def gap : Option Text → Text
  | none => [' ']
  | some indent => [' ', '\\', '\n'] ++ indent

/-- A keyword and behind it words, each with its gap. -/
def wrap (keyword : Text) (ws : List (Option Text × Text)) : Text :=
  keyword ++ ws.flatMap fun (indent, word) => gap indent ++ word

def breaks (ws : List (Option Text × Text)) : Nat := ws.countP fun (indent, _) => indent.isSome

structure Wrappable (p : Option Text × Text) : Prop where
  word : p.2.IsWord
  indent : ∀ indent, p.1 = some indent → ∀ c ∈ indent, isBlank c ∧ c ≠ '\n'
  start : ∀ indent, p.1 = some indent → p.2.head? ≠ some '#'

theorem wrap_space (y v : Text) (ws : List (Option Text × Text)) :
    wrap y ((none, v) :: ws) = wrap (y ++ ' ' :: v) ws := by
  simp [wrap, gap]

theorem wrap_break (y indent v : Text) (ws : List (Option Text × Text)) :
    wrap y ((some indent, v) :: ws) = y ++ [' ', '\\'] ++ '\n' :: (indent ++ wrap v ws) := by
  simp [wrap, gap]

def unbroken (ws : List (Option Text × Text)) : List (Option Text × Text) :=
  ws.map fun (_, word) => (none, word)

theorem map_snd_unbroken (ws : List (Option Text × Text)) :
    (unbroken ws).map Prod.snd = ws.map Prod.snd := by
  unfold unbroken
  rw [List.map_map]
  rfl

theorem wrap_unbroken (keyword : Text) (ws : List (Option Text × Text)) :
    wrap keyword (unbroken ws) = Text.join [' '] (keyword :: ws.map Prod.snd) := by
  unfold wrap unbroken
  rw [Text.join_cons, List.flatMap_map, List.flatMap_map]
  rfl

theorem breaks_unbroken (ws : List (Option Text × Text)) : breaks (unbroken ws) = 0 := by
  unfold breaks unbroken
  rw [List.countP_map, List.countP_eq_zero]
  exact fun _ _ => Bool.false_ne_true

/-- Words that can stand behind their gaps, the last of which ends the logical line. -/
structure EndsWrapped (ws : List (Option Text × Text)) : Prop where
  wrappable : ∀ p ∈ ws, Wrappable p
  last : ∀ p, ws.getLast? = some p → p.2.getLast? ≠ some '\\'

theorem EndsWrapped.unbroken {ws : List (Option Text × Text)} (h : EndsWrapped ws) :
    EndsWrapped (unbroken ws) where
  wrappable p hp := by
    obtain ⟨q, hq, rfl⟩ := List.mem_map.1 hp
    exact ⟨(h.wrappable q hq).word, by simp, by simp⟩
  last p hp := by
    unfold LayerLint.unbroken at hp
    rw [List.getLast?_map] at hp
    obtain ⟨q, hq, rfl⟩ := Option.map_eq_some_iff.1 hp
    exact h.last q hq

theorem Text.join_space_word (y v : Text) (vs : List Text) :
    Text.join [' '] (y :: v :: vs) = Text.join [' '] ((y ++ ' ' :: v) :: vs) := by
  simp [join_cons]

theorem LinePart.of_word {w : Text} (h : w.IsWord) (hstart : w.head? ≠ some '#') : LinePart w where
  one_line := h.newline_notMem
  start := by
    obtain ⟨c, rest, rfl⟩ := List.exists_cons_of_ne_nil h.ne_nil
    exact ⟨c, rfl, h.solid c (List.mem_cons_self ..), fun hc => hstart (by rw [hc]; rfl)⟩
  stop := ⟨w.getLast h.ne_nil, List.getLast?_eq_some_getLast h.ne_nil,
    h.solid _ (List.getLast_mem h.ne_nil)⟩

theorem LinePart.append_word {y w : Text} (h : LinePart y) (hw : w.IsWord) :
    LinePart (y ++ ' ' :: w) where
  one_line := List.not_mem_append h.one_line (by simp [hw.newline_notMem])
  start := by
    obtain ⟨c, hc, hstart⟩ := h.start
    exact ⟨c, by rw [List.head?_append, hc]; rfl, hstart⟩
  stop := by
    refine ⟨w.getLast hw.ne_nil, ?_, hw.solid _ (List.getLast_mem hw.ne_nil)⟩
    rw [List.append_cons, List.getLast?_append_of_ne_nil _ hw.ne_nil,
      List.getLast?_eq_some_getLast hw.ne_nil]

/-- The scan puts the words of a broken line together again. The induction is on the words; `y` is
what stands already on the line under way, and `w` the indentation of that line. -/
theorem scan_wrap {ws : List (Option Text × Text)} (hws : ∀ p ∈ ws, Wrappable p) {b : Text}
    {after : List Text} (hafter : ∀ line : Text, '\n' ∉ line → line ≠ [] →
      Text.trimmedLines (line ++ b) = line.trimEnd :: after)
    {pending : Option LogicalLine} (hpending : ∀ l, pending = some l → l.text ≠ [])
    {w y : Text} (hw : ∀ c ∈ w, isBlank c ∧ c ≠ '\n') (h : LinePart y)
    (hmark : (Text.join [' '] (y :: ws.map Prod.snd)).getLast? ≠ some '\\') (k : Nat) :
    ∃ l, LogicalLine.scan pending
        (Text.numberFrom k (Text.trimmedLines (w ++ wrap y ws ++ b))) =
        l :: LogicalLine.scan none (Text.numberFrom (k + 1 + breaks ws) after) ∧
      LogicalLine.Adds pending (k + 1) (Text.join [' '] (y :: ws.map Prod.snd)) l := by
  induction ws generalizing pending w y k with
  | nil =>
    rw [List.map_nil, Text.join_singleton] at hmark ⊢
    have hwrap : wrap y [] = y := List.append_nil y
    rw [hwrap]
    exact scan_line hpending hw k ⟨h, hmark⟩ hafter
  | cons p ws ih =>
    obtain ⟨_ | indent, v⟩ := p
    all_goals obtain ⟨hp, hws⟩ := List.forall_mem_cons.1 hws
    · rw [List.map_cons, Text.join_space_word] at hmark ⊢
      rw [wrap_space]
      exact ih hws hpending hw (h.append_word hp.word) hmark k
    · rw [List.map_cons, Text.join_cons_cons, List.singleton_append] at hmark ⊢
      obtain ⟨l, hscan, hadds⟩ := scan_continued_line hpending hw k h (indent ++ wrap v ws ++ b)
      have hl : ∀ l', some l = some l' → l'.text ≠ [] := by
        rintro _ ⟨⟩
        rw [hadds.text]
        exact List.append_ne_nil_of_right_ne_nil _ h.ne_nil
      have hv : LinePart v := .of_word hp.word (hp.start indent rfl)
      have hmark : (Text.join [' '] (v :: ws.map Prod.snd)).getLast? ≠ some '\\' := by
        have hne : Text.join [' '] (v :: ws.map Prod.snd) ≠ [] := by
          rw [Text.join_cons]
          exact List.append_ne_nil_of_left_ne_nil hv.ne_nil _
        rwa [List.append_cons, List.getLast?_append_of_ne_nil _ hne] at hmark
      obtain ⟨l', hscan', hadds'⟩ := ih hws hl (hp.indent indent rfl) hv hmark (k + 1)
      have hbreaks : breaks ((some indent, v) :: ws) = breaks ws + 1 :=
        List.countP_cons_of_pos rfl
      refine ⟨l', ?_, hadds.trans hadds'⟩
      have hsplit : w ++ wrap y ((some indent, v) :: ws) ++ b =
          w ++ y ++ [' ', '\\'] ++ '\n' :: (indent ++ wrap v ws ++ b) := by
        rw [wrap_break]
        simp
      rw [hsplit, hscan, hscan', hbreaks]
      congr 3
      omega

/-! ## Instructions -/

/-- The instruction that a keyword and words with single spaces between them make up. -/
def Instruction.ofWords (directive : Directive) (words : List Text) (line : Nat) (raw : Text)
    (continued : Bool) : Instruction where
  directive := directive
  raw := raw
  line := line
  argsText := Text.join [' '] words
  arguments := splitArguments (Text.join [' '] words)
  continued := continued

section
variable {keyword : Text} {directive : Directive}
  (hkeyword : Directive.ofKeyword? keyword = some directive)
include hkeyword

theorem Instruction.ofLogicalLine?_words {l : LogicalLine} {words : List Text}
    (hwords : ∀ w ∈ words, w.IsWord) (htext : l.text = Text.join [' '] (keyword :: words)) :
    ofLogicalLine? l = some (ofWords directive words l.line l.raw l.continued) := by
  have hsolid : ∀ c ∈ keyword, (!isBlank c) = true := fun c hc => by
    rw [(Directive.isWord_of_ofKeyword? hkeyword).solid c hc]
    rfl
  have hsplit : l.keyword = keyword ∧ l.argsText = Text.join [' '] words := by
    unfold LogicalLine.keyword LogicalLine.argsText Text.firstWord Text.afterFirstWord
    rw [htext]
    cases words with
    | nil =>
      rw [Text.join_singleton, List.takeWhile_eq_self_iff.2 hsolid,
        List.dropWhile_eq_nil_iff.2 hsolid]
      exact ⟨rfl, rfl⟩
    | cons w words =>
      have htrim := Text.trim_join [' '] hwords
      have hargs := Text.dropWhile_isSpaceOrTab_of_trim htrim
      rw [Text.trimEnd_of_trim htrim] at hargs
      rw [Text.join_cons_cons, List.takeWhile_append_of_pos hsolid,
        List.dropWhile_append_of_pos hsolid]
      exact ⟨List.append_nil _, hargs⟩
  unfold ofLogicalLine?
  rw [hsplit.1, hsplit.2, hkeyword]
  rfl

/-- The line does not end in a mark, also when it is a keyword alone. -/
theorem getLast?_join_keyword {ws : List (Option Text × Text)} (hws : EndsWrapped ws) :
    (Text.join [' '] (keyword :: ws.map Prod.snd)).getLast? ≠ some '\\' := by
  have hne : ∀ w ∈ keyword :: ws.map Prod.snd, w ≠ [] := by
    refine List.forall_mem_cons.2 ⟨(Directive.isWord_of_ofKeyword? hkeyword).ne_nil, ?_⟩
    exact List.forall_mem_map.2 fun p hp => (hws.wrappable p hp).word.ne_nil
  rw [Text.getLast?_join _ hne, List.getLast?_cons, Option.bind_some, List.getLast?_map]
  cases hp : ws.getLast? with
  | none =>
    intro hend
    exact Directive.mark_notMem_keyword hkeyword (List.mem_of_mem_getLast? hend)
  | some p => exact hws.last p hp

/-- However a line is broken, its instruction says the same and stands on its first line. What
follows moves by the number of breaks. -/
theorem Dockerfile.exists_parse_wrap {b : Text} (hb : Text.AtLineEnd b) :
    ∃ rest : List Instruction, ∀ ws : List (Option Text × Text), EndsWrapped ws →
      ∃ raw continued, (parse (wrap keyword ws ++ b)).instructions =
        .ofWords directive (ws.map Prod.snd) 1 raw continued ::
          rest.map (Instruction.relabel (· + breaks ws)) := by
  obtain ⟨after, hafter⟩ := exists_trimmedLines hb
  refine ⟨(LogicalLine.scan none (Text.numberFrom 1 after)).filterMap Instruction.ofLogicalLine?,
    fun ws hws => ?_⟩
  have hwords : ∀ w ∈ ws.map Prod.snd, w.IsWord :=
    List.forall_mem_map.2 fun p hp => (hws.wrappable p hp).word
  have hstart : LinePart keyword :=
    .of_word (Directive.isWord_of_ofKeyword? hkeyword) (Directive.head?_keyword_ne hkeyword)
  have hnone : ∀ l : LogicalLine, none = some l → l.text ≠ [] := by simp
  have hempty : ∀ c ∈ ([] : Text), isBlank c ∧ c ≠ '\n' := by simp
  obtain ⟨l, hscan, hadds⟩ := scan_wrap hws.wrappable hafter hnone hempty hstart
    (getLast?_join_keyword hkeyword hws) 0
  have hread := Instruction.ofLogicalLine?_words hkeyword hwords hadds.text
  refine ⟨l.raw, l.continued, ?_⟩
  rw [List.nil_append] at hscan
  rw [parse_instructions_eq, hscan, List.filterMap_cons_some hread, hadds.line, Nat.zero_add,
    instructions_numberFrom_add]
  rfl

end

/-! ## Reports -/

/-- The number of a line once the line `k` is broken into `n` more. -/
def numberAfterBreaks (k n number : Nat) : Nat := if k < number then number + n else number

/-- The instructions say the same, and the line of the second is where the first has moved to. -/
structure Instruction.Moves (move : Nat → Nat) (i j : Instruction) : Prop where
  directive : j.directive = i.directive
  argsText : j.argsText = i.argsText
  arguments : j.arguments = i.arguments
  line : j.line = move i.line

theorem Instruction.Moves.alike {move : Nat → Nat} {i j : Instruction} (h : i.Moves move j) :
    i.Alike j where
  directive := h.directive.symm
  arguments := h.arguments.symm
  command := by
    unfold command
    rw [h.argsText, h.arguments]
  clause _ := h.argsText.symm

/-- Lines increase, so the instructions in front keep theirs and those behind all move. -/
theorem forall₂_moves {before rest : List Instruction} {i j : Instruction} (n : Nat)
    (hij : i.Moves id j) (hlines : (before ++ i :: rest).Pairwise (·.line < ·.line)) :
    Forall₂ (Instruction.Moves (numberAfterBreaks i.line n)) (before ++ i :: rest)
      (before ++ j :: rest.map (Instruction.relabel (· + n))) := by
  obtain ⟨-, htail, hfront⟩ := List.pairwise_append.1 hlines
  obtain ⟨hbehind, -⟩ := List.pairwise_cons.1 htail
  have hstay : ∀ m, m ≤ i.line → numberAfterBreaks i.line n m = m := fun m hm =>
    if_neg (Nat.not_lt.2 hm)
  refine List.rel_append (List.forall₂_same.2 fun k hk => ?_) (.cons ?_ ?_)
  · have hlt := hfront k hk i (List.mem_cons_self ..)
    exact ⟨rfl, rfl, rfl, (hstay k.line (Nat.le_of_lt hlt)).symm⟩
  · exact ⟨hij.directive, hij.argsText, hij.arguments,
      hij.line.trans (hstay i.line (Nat.le_refl _)).symm⟩
  · rw [List.forall₂_map_right_iff, List.forall₂_same]
    intro k hk
    exact ⟨rfl, rfl, rfl, (if_pos (hbehind k hk)).symm⟩

theorem Instruction.relabel_add (i : Instruction) (m n : Nat) :
    (i.relabel (· + m)).relabel (· + n) = i.relabel (· + (m + n)) := by
  unfold relabel
  simp only [Nat.add_assoc]

section
variable {keyword : Text} {directive : Directive}
  (hkeyword : Directive.ofKeyword? keyword = some directive) {a b : Text}
  (ha : Text.AtLineStart a) (hclosed : LogicalLine.EndsClosed a.lines) (hb : Text.AtLineEnd b)
  {ws : List (Option Text × Text)} (hws : EndsWrapped ws)
include hkeyword ha hclosed hb hws

/-- A line within a text, as it is and broken. -/
theorem Dockerfile.exists_parse_unbroken_wrap :
    ∃ before i j rest, i.line = a.lines.length + 1 ∧ i.directive = directive ∧
      i.argsText = Text.join [' '] (ws.map Prod.snd) ∧ i.Moves id j ∧
      (parse (a ++ wrap keyword (unbroken ws) ++ b)).instructions = before ++ i :: rest ∧
      (parse (a ++ wrap keyword ws ++ b)).instructions =
        before ++ j :: rest.map (Instruction.relabel (· + breaks ws)) := by
  obtain ⟨rest, hrest⟩ := exists_parse_wrap hkeyword hb
  obtain ⟨raw, continued, hparse⟩ := hrest (unbroken ws) hws.unbroken
  obtain ⟨raw', continued', hparse'⟩ := hrest ws hws
  rw [map_snd_unbroken, breaks_unbroken] at hparse
  refine ⟨(parse a).instructions,
    .relabel (· + a.lines.length) (.ofWords directive _ 1 raw continued),
    .relabel (· + a.lines.length) (.ofWords directive _ 1 raw' continued'),
    rest.map (Instruction.relabel (· + a.lines.length)), Nat.add_comm .., rfl, rfl,
    ⟨rfl, rfl, rfl, rfl⟩, ?_, ?_⟩
  · rw [List.append_assoc, parse_instructions_append _ ha hclosed, hparse, List.map_cons,
      List.map_map]
    rfl
  · rw [List.append_assoc, parse_instructions_append _ ha hclosed, hparse', List.map_cons,
      List.map_map, List.map_map]
    congr 2
    refine List.map_congr_left fun k _ => ?_
    rw [Function.comp_apply, Function.comp_apply, Instruction.relabel_add, Instruction.relabel_add,
      Nat.add_comm]

end

def Suggestion.withoutSnippets (s : Suggestion) : Suggestion :=
  { s with before := none, after := none }

theorem Suggestion.Corresponds.withoutSnippets_eq {move : Nat → Nat} {s t : Suggestion}
    (h : s.Corresponds (Instruction.Moves move) t) :
    (s.relabel move).withoutSnippets = t.withoutSnippets := by
  have hlines : s.lines.map move = t.lines := h.map_lines fun i j hij => hij.line.symm
  unfold relabel withoutSnippets
  rw [hlines, h.code, h.severity, h.title, h.recommendation]

/-- How a line is wrapped does not matter: when a line of single-spaced words is broken at some of
its gaps, each break with a mark and an indentation, every instruction keeps its directive and its
arguments, and the suggestions stay the same but for their snippets. The lines behind move by the
number of breaks; the instruction itself stays on the line where it starts. -/
theorem analyze_wrap (ignore : List Text) {a b keyword : Text} {directive : Directive}
    {ws : List (Option Text × Text)} (ha : Text.AtLineStart a)
    (hclosed : LogicalLine.EndsClosed a.lines) (hb : Text.AtLineEnd b)
    (hkeyword : Directive.ofKeyword? keyword = some directive)
    (hwords : ∀ p ∈ ws, p.2 ≠ [] ∧ ∀ c ∈ p.2, isBlank c = false)
    (hlast : ∀ p, ws.getLast? = some p → p.2.getLast? ≠ some '\\')
    (hbreaks : ∀ p ∈ ws, ∀ indent, p.1 = some indent →
      (∀ c ∈ indent, isBlank c ∧ c ≠ '\n') ∧ p.2.head? ≠ some '#') :
    let line := Text.join " " (keyword :: ws.map Prod.snd)
    let move := numberAfterBreaks (a.lines.length + 1) (breaks ws)
    (∃ i ∈ (Dockerfile.parse (a ++ line ++ b)).instructions, i.line = a.lines.length + 1 ∧
      i.directive = directive ∧ i.argsText = Text.join " " (ws.map Prod.snd)) ∧
    Forall₂ (Instruction.Moves move) (Dockerfile.parse (a ++ line ++ b)).instructions
      (Dockerfile.parse (a ++ wrap keyword ws ++ b)).instructions ∧
    (analyze ignore (a ++ wrap keyword ws ++ b)).suggestions.map Suggestion.withoutSnippets =
      (analyze ignore (a ++ line ++ b)).suggestions.map fun s =>
        (s.relabel move).withoutSnippets := by
  intro line move
  have hws : EndsWrapped ws := {
    wrappable := fun p hp => {
      word := ⟨(hwords p hp).1, (hwords p hp).2⟩
      indent := fun indent hindent => (hbreaks p hp indent hindent).1
      start := fun indent hindent => (hbreaks p hp indent hindent).2 }
    last := hlast }
  obtain ⟨before, i, j, rest, hline, hdirective, hargs, hij, hparse, hparse'⟩ :=
    Dockerfile.exists_parse_unbroken_wrap hkeyword ha hclosed hb hws
  have hunbroken : wrap keyword (unbroken ws) = line := wrap_unbroken keyword ws
  rw [hunbroken] at hparse
  have hlines := Dockerfile.pairwise_line_parse (a ++ line ++ b)
  have hmoves : Forall₂ (Instruction.Moves move) (Dockerfile.parse (a ++ line ++ b)).instructions
      (Dockerfile.parse (a ++ wrap keyword ws ++ b)).instructions := by
    rw [hparse] at hlines
    have hmove : move = numberAfterBreaks i.line (breaks ws) := by rw [hline]
    rw [hparse, hparse', hmove]
    exact forall₂_moves (breaks ws) hij hlines
  refine ⟨⟨i, ?_, hline, hdirective, hargs⟩, hmoves, ?_⟩
  · rw [hparse]
    exact List.mem_append_right _ (List.mem_cons_self ..)
  · have hrules := Rule.runAll_corresponds (fun i j hij => hij.alike)
      (Dockerfile.ofInstructions_corresponds (fun i j hij => hij.alike) hmoves)
      (Rule.isIgnored ignore)
    exact (map_eq_of_forall₂ hrules fun s t hst => hst.withoutSnippets_eq).symm

/-- An exec form broken behind the keyword and within the list, under a comment that looks continued
and in front of a carriage return; one of its words ends in a backslash. -/
theorem analyze_wrap_of_array :
    let a : Text := "FROM debian:12\n# install \\\n".toList
    let b : Text := "\r\nRUN apt-get install git\n".toList
    let ws : List (Option Text × Text) :=
      [(some "\t".toList, "[\"apt-get\",".toList), (none, "\"install\",\"#\\\\".toList),
        (some [], "curl\"]".toList)]
    wrap "run".toList ws = "run \\\n\t[\"apt-get\", \"install\",\"#\\\\ \\\ncurl\"]".toList ∧
    (analyze [] (a ++ wrap "run".toList ws ++ b)).suggestions.map Suggestion.withoutSnippets =
      (analyze [] (a ++ Text.join " " ("run".toList :: ws.map Prod.snd) ++ b)).suggestions.map
        fun s => (s.relabel (numberAfterBreaks 3 2)).withoutSnippets := by
  intro a b ws
  have hclosed : LogicalLine.EndsClosed a.lines := by
    intro line hline
    rw [← Option.some.inj hline]
    decide
  have hwords : ∀ p ∈ ws, p.2 ≠ [] ∧ ∀ c ∈ p.2, isBlank c = false := by
    have hall : (ws.all fun p => !p.2.isEmpty && p.2.all fun c => !isBlank c) = true := by decide
    simpa using hall
  have hlast : ∀ p, ws.getLast? = some p → p.2.getLast? ≠ some '\\' := by
    intro p hp
    rw [← Option.some.inj hp]
    decide
  have hbreaks : ∀ p ∈ ws, ∀ indent, p.1 = some indent →
      (∀ c ∈ indent, isBlank c ∧ c ≠ '\n') ∧ p.2.head? ≠ some '#' := by
    have hall : (ws.all fun p => ((p.1.getD []).all fun c => isBlank c && c != '\n') &&
        p.2.head? != some '#') = true := by decide
    intro p hp indent hindent
    have hp := List.all_eq_true.1 hall p hp
    simpa [hindent] using hp
  exact ⟨by decide, (analyze_wrap [] (.inr (by decide)) hclosed (.inr (.inr ⟨_, rfl⟩)) rfl hwords
    hlast hbreaks).2.2⟩

end LayerLint
