import LayerLint.Proofs.Correspondence

/-!
# Layout

A text is read through its lines without the white space at their ends (`parse_instructions_eq`),
and a skippable line among them only moves the numbers of the lines behind it
(`instructions_insert`). So a comment or a blank line in any place, also within a continuation,
changes nothing in a report but the line numbers, and white space at the end of a line changes
nothing at all (`analyze_layout`).
-/

namespace LayerLint

open List (Forall₂)

/-! ## Lines without the white space at their ends -/

namespace Text

def trimmedLines (t : Text) : List Text := t.lines.map trimEnd

theorem length_trimmedLines (t : Text) : t.trimmedLines.length = t.lines.length :=
  List.length_map ..

theorem trimmedLines_append {a : Text} (b : Text) (h : AtLineStart a) :
    trimmedLines (a ++ b) = trimmedLines a ++ trimmedLines b := by
  unfold trimmedLines
  rw [lines_append b h, List.map_append]

/-- The carriage return of a line end goes the way of all white space there. -/
theorem trimmedLines_append_newline {l : Text} (rest : Text) (hl : '\n' ∉ l) :
    trimmedLines (l ++ '\n' :: rest) = l.trimEnd :: trimmedLines rest := by
  obtain ⟨line, hline, rfl | rfl⟩ := lines_append_newline rest hl
  · unfold trimmedLines
    rw [hline, List.map_cons]
  · unfold trimmedLines
    rw [hline, List.map_cons,
      trimEnd_append_of_blank line (List.forall_mem_singleton.2 (by decide))]

theorem trimmedLines_of_no_newline {l : Text} (hl : '\n' ∉ l) (hne : l ≠ []) :
    trimmedLines l = [l.trimEnd] := by
  unfold trimmedLines
  rw [lines_of_no_newline hl hne, List.map_singleton]

/-- A text whose last line has no line feed yet, and a text under it. -/
theorem trimmedLines_append_under {a : Text} (b : Text) (ha : ¬ AtLineStart a) :
    trimmedLines (a ++ '\n' :: b) = trimmedLines a ++ trimmedLines b := by
  obtain ⟨p, l, rfl, hp, hl⟩ := exists_lastLine a
  have hne : l ≠ [] := by
    rintro rfl
    exact ha (by rwa [List.append_nil])
  rw [List.append_assoc, trimmedLines_append _ hp, trimmedLines_append_newline b hl,
    trimmedLines_append _ hp, trimmedLines_of_no_newline hl hne, List.append_assoc]
  rfl

theorem numberFrom_map (f : Text → Text) (k : Nat) (lines : List Text) :
    numberFrom k (lines.map f) = (numberFrom k lines).map (Prod.map id f) := by
  induction lines generalizing k with
  | nil => rfl
  | cons line lines ih =>
    rw [List.map_cons, numberFrom_cons, numberFrom_cons, List.map_cons, ih]
    rfl

/-! ## One more line -/

/-- The number of a line once another is put in behind the first `k`. -/
def numberAfterInsert (k number : Nat) : Nat := if k < number then number + 1 else number

theorem numberFrom_of_le {k m : Nat} {lines : List Text} (h : m + lines.length ≤ k) :
    (numberFrom m lines).map (Prod.map (numberAfterInsert k) id) = numberFrom m lines := by
  induction lines generalizing m with
  | nil => rfl
  | cons line lines ih =>
    rw [List.length_cons] at h
    have hstay : numberAfterInsert k (m + 1) = m + 1 := if_neg (by omega)
    rw [numberFrom_cons, List.map_cons, ih (by omega), Prod.map_apply, hstay, id_eq]

theorem numberFrom_of_ge {k m : Nat} (lines : List Text) (h : k ≤ m) :
    (numberFrom m lines).map (Prod.map (numberAfterInsert k) id) = numberFrom (m + 1) lines := by
  induction lines generalizing m with
  | nil => rfl
  | cons line lines ih =>
    have hmove : numberAfterInsert k (m + 1) = m + 1 + 1 := if_pos (by omega)
    rw [numberFrom_cons, List.map_cons, ih (by omega), Prod.map_apply, hmove, id_eq,
      numberFrom_cons]

/-- `InsertsLine line k t t'`: the text `t'` is `t` with the line `line` put in behind its first
`k` lines. -/
inductive InsertsLine (line : Text) : Nat → Text → Text → Prop
  /-- The line ends in a line feed and stands in front of a line or behind the last line feed. -/
  | between (a b : Text) (ha : AtLineStart a) :
    InsertsLine line a.lines.length (a ++ b) (a ++ line ++ '\n' :: b)
  /-- The line stands behind the last line feed and ends with the text. -/
  | last (a : Text) (ha : AtLineStart a) (hne : line ≠ []) :
    InsertsLine line a.lines.length a (a ++ line)
  /-- The line stands behind a last line that had no line feed. -/
  | behind (a feed : Text) (ha : ¬ AtLineStart a) (hfeed : feed = ['\n'] ∨ feed = [] ∧ line ≠ []) :
    InsertsLine line a.lines.length a (a ++ '\n' :: (line ++ feed))

/-- A line can be put in everywhere. -/
theorem exists_insertsLine (line : Text) {t : Text} {k : Nat} (h : k ≤ t.lines.length) :
    ∃ t', InsertsLine line k t t' := by
  rcases Nat.lt_or_eq_of_le h with h | rfl
  · obtain ⟨a, b, rfl, ha, rfl⟩ := exists_eq_append_of_lt h
    exact ⟨_, .between a b ha⟩
  · by_cases ht : AtLineStart t
    · refine ⟨t ++ line ++ ['\n'], ?_⟩
      have hend : InsertsLine line t.lines.length (t ++ []) _ := .between t [] ht
      rwa [List.append_nil] at hend
    · exact ⟨_, .behind t ['\n'] ht (.inl rfl)⟩

theorem InsertsLine.trimmedLines {line t t' : Text} {k : Nat} (hline : '\n' ∉ line)
    (h : InsertsLine line k t t') :
    ∃ xs ys, xs.length = k ∧ t.trimmedLines = xs ++ ys ∧
      t'.trimmedLines = xs ++ line.trimEnd :: ys := by
  cases h with
  | between a b ha =>
    refine ⟨a.trimmedLines, b.trimmedLines, length_trimmedLines a, trimmedLines_append b ha, ?_⟩
    rw [List.append_assoc, trimmedLines_append _ ha, trimmedLines_append_newline b hline]
  | last a ha hne =>
    refine ⟨t.trimmedLines, [], length_trimmedLines t, (List.append_nil _).symm, ?_⟩
    rw [trimmedLines_append _ ha, trimmedLines_of_no_newline hline hne]
  | behind a feed ha hfeed =>
    have hlast : Text.trimmedLines (line ++ feed) = [line.trimEnd] := by
      rcases hfeed with rfl | ⟨rfl, hne⟩
      · exact trimmedLines_append_newline [] hline
      · rw [List.append_nil, trimmedLines_of_no_newline hline hne]
    refine ⟨t.trimmedLines, [], length_trimmedLines t, (List.append_nil _).symm, ?_⟩
    rw [trimmedLines_append_under _ ha, hlast]

/-! ## White space at the end of a line -/

/-- Nothing is left of the line in front of the text but its line end. -/
def AtLineEnd (b : Text) : Prop :=
  b = [] ∨ (∃ rest, b = '\n' :: rest) ∨ ∃ rest, b = '\r' :: '\n' :: rest

theorem trimmedLines_append_blank (a : Text) {w : Text} (rest : Text)
    (hw : ∀ c ∈ w, isBlank c ∧ c ≠ '\n') :
    trimmedLines (a ++ (w ++ '\n' :: rest)) = trimmedLines (a ++ '\n' :: rest) := by
  obtain ⟨p, l, rfl, hp, hl⟩ := exists_lastLine a
  have hlw : '\n' ∉ l ++ w := List.not_mem_append hl fun h => (hw _ h).2 rfl
  rw [List.append_assoc, List.append_assoc, trimmedLines_append _ hp, trimmedLines_append _ hp,
    trimmedLines_append_newline rest hl, ← List.append_assoc l w,
    trimmedLines_append_newline rest hlw, trimEnd_append_of_blank l fun c hc => (hw c hc).1]

end Text

/-! ## Reading -/

namespace Instruction

def relabel (f : Nat → Nat) (i : Instruction) : Instruction := { i with line := f i.line }

theorem ofLogicalLine?_relabel (f : Nat → Nat) (l : LogicalLine) :
    ofLogicalLine? (l.relabel f) = (ofLogicalLine? l).map (relabel f) := by
  unfold ofLogicalLine?
  rw [Option.map_map]
  rfl

theorem alike_relabel (f : Nat → Nat) : ∀ i j : Instruction, j = i.relabel f → i.Alike j := by
  rintro i _ rfl
  exact ⟨rfl, rfl, rfl, fun _ => rfl⟩

theorem forall₂_map_relabel (f : Nat → Nat) (is : List Instruction) :
    Forall₂ (fun i j => j = i.relabel f) is (is.map (relabel f)) := by
  rw [List.forall₂_map_right_iff, List.forall₂_same]
  exact fun _ _ => rfl

end Instruction

namespace Dockerfile

open Text

theorem parse_instructions_eq (t : Text) :
    (parse t).instructions =
      (LogicalLine.scan none (numberFrom 0 t.trimmedLines)).filterMap
        Instruction.ofLogicalLine? := by
  unfold trimmedLines
  rw [numberFrom_map, LogicalLine.scan_map_trimEnd, parse_instructions]

theorem instructions_insert {line t t' : Text} {k : Nat} (hskip : isSkippable line = true)
    (hline : '\n' ∉ line) (h : InsertsLine line k t t') :
    (parse t').instructions =
      (parse t).instructions.map (Instruction.relabel (numberAfterInsert k)) := by
  obtain ⟨xs, ys, rfl, ht, ht'⟩ := h.trimmedLines hline
  have hskip : isSkippable line.trimEnd = true := by rwa [isSkippable_trimEnd]
  have hnumbers : (numberFrom 0 (xs ++ ys)).map (Prod.map (numberAfterInsert xs.length) id) =
      numberFrom 0 xs ++ numberFrom (xs.length + 1) ys := by
    rw [numberFrom_append, List.map_append, numberFrom_of_le (by omega),
      numberFrom_of_ge ys (by omega), Nat.zero_add]
  have hscan := LogicalLine.scan_map_relabel (numberAfterInsert xs.length) none
    (numberFrom 0 (xs ++ ys))
  rw [Option.map_none, hnumbers] at hscan
  rw [parse_instructions_eq t', ht', numberFrom_append, numberFrom_cons,
    LogicalLine.scan_skip _ _ _ _ hskip, Nat.zero_add, hscan, List.filterMap_map,
    parse_instructions_eq t, ht, List.map_filterMap]
  exact congrArg (List.filterMap · _) (funext fun l => Instruction.ofLogicalLine?_relabel _ l)

theorem parse_append_blank (a : Text) {w b : Text} (hw : ∀ c ∈ w, isBlank c ∧ c ≠ '\n')
    (hb : AtLineEnd b) : parse (a ++ w ++ b) = parse (a ++ b) := by
  suffices h : (parse (a ++ w ++ b)).instructions = (parse (a ++ b)).instructions from
    congrArg ofInstructions h
  rw [List.append_assoc]
  rcases hb with rfl | ⟨rest, rfl⟩ | ⟨rest, rfl⟩
  · obtain ⟨p, l, rfl, hp, hl⟩ := exists_lastLine a
    have hlw : '\n' ∉ l ++ w := List.not_mem_append hl fun h => (hw _ h).2 rfl
    rw [List.append_nil, List.append_nil, List.append_assoc]
    by_cases hne : l ++ w = []
    · rw [hne, (List.append_eq_nil_iff.1 hne).1]
    · have htrim : (l ++ w).trimEnd = l.trimEnd :=
        trimEnd_append_of_blank l fun c hc => (hw c hc).1
      rw [parse_instructions_eq, parse_instructions_eq, trimmedLines_append _ hp,
        trimmedLines_of_no_newline hlw hne, htrim, trimmedLines_append _ hp]
      by_cases hl' : l = []
      · -- white space behind the last line feed is a blank line of its own
        rw [hl', numberFrom_append, numberFrom_cons,
          LogicalLine.scan_skip _ _ _ _ (by decide), numberFrom_append]
        rfl
      · rw [trimmedLines_of_no_newline hl hl']
  · rw [parse_instructions_eq, parse_instructions_eq, trimmedLines_append_blank a rest hw]
  · have hcr : ∀ c ∈ ['\r'], isBlank c ∧ c ≠ '\n' := List.forall_mem_singleton.2 (by decide)
    have hwcr : ∀ c ∈ w ++ ['\r'], isBlank c ∧ c ≠ '\n' := fun c hc =>
      (List.mem_append.1 hc).elim (hw c) (hcr c)
    have h := trimmedLines_append_blank a rest hwcr
    rw [← trimmedLines_append_blank a rest hcr, List.append_assoc] at h
    rw [parse_instructions_eq, parse_instructions_eq]
    exact congrArg (fun lines => (LogicalLine.scan none (numberFrom 0 lines)).filterMap _) h

theorem parse_corresponds_of_insert {line t t' : Text} {k : Nat} (hskip : isSkippable line = true)
    (hline : '\n' ∉ line) (h : InsertsLine line k t t') :
    (parse t).Corresponds (fun i j => j = i.relabel (numberAfterInsert k)) (parse t') := by
  refine ofInstructions_corresponds (Instruction.alike_relabel _) ?_
  show Forall₂ _ (parse t).instructions (parse t').instructions
  rw [instructions_insert hskip hline h]
  exact Instruction.forall₂_map_relabel _ _

end Dockerfile

/-! ## Reports -/

def Suggestion.relabel (f : Nat → Nat) (s : Suggestion) : Suggestion :=
  { s with lines := s.lines.map f }

theorem Suggestion.Corresponds.eq_relabel {f : Nat → Nat} {s t : Suggestion}
    (h : s.Corresponds (fun i j => j = i.relabel f) t) : s.relabel f = t := by
  have hlines : s.lines.map f = t.lines := h.map_lines fun i j hij => by rw [hij]; rfl
  unfold relabel
  rw [hlines, h.code, h.severity, h.title, h.recommendation,
    h.before fun i j hij => by rw [hij]; rfl,
    h.after fun i j hij _ => by rw [hij]; exact ⟨rfl, rfl⟩]

/-- Layout does not matter: a blank line or a comment put in behind the first `k` lines, wherever
that is, moves the numbers above `k` by one, and white space at the end of a line moves nothing. -/
theorem analyze_layout (ignore : List Text) :
    (∀ (line t : Text) (k : Nat), k ≤ t.lines.length → ∃ t', Text.InsertsLine line k t t') ∧
    (∀ (line t t' : Text) (k : Nat),
      (∀ c, line.find? (fun c => !isBlank c) = some c → c = '#') → '\n' ∉ line →
      Text.InsertsLine line k t t' →
      (analyze ignore t').suggestions =
          (analyze ignore t).suggestions.map (Suggestion.relabel (Text.numberAfterInsert k)) ∧
        (analyze ignore t').summary = (analyze ignore t).summary) ∧
    ∀ a w b : Text, (∀ c ∈ w, isBlank c ∧ c ≠ '\n') → Text.AtLineEnd b →
      analyze ignore (a ++ w ++ b) = analyze ignore (a ++ b) := by
  refine ⟨fun line t k hk => Text.exists_insertsLine line hk,
    fun line t t' k hskip hline h => ?_, fun a w b hw hb => ?_⟩
  · have hparse := Dockerfile.parse_corresponds_of_insert ((isSkippable_iff line).2 hskip) hline h
    have hrules := Rule.runAll_corresponds (Instruction.alike_relabel _) hparse
      (Rule.isIgnored ignore)
    refine ⟨?_, (Report.summary_eq_of_corresponds hparse hrules).symm⟩
    have hsame := map_eq_of_forall₂ hrules fun s t hst => hst.eq_relabel
    exact (hsame.trans (List.map_id _)).symm
  · unfold analyze
    rw [Dockerfile.parse_append_blank a hw hb]

/-- A comment within a continued instruction, and a tab and a carriage return behind its
continuation mark. -/
theorem analyze_layout_within_continuation :
    (analyze [] ("RUN apt-get update\nRUN apt-get install \\\n".toList ++ "  # tools \\".toList ++
        '\n' :: "  curl\n".toList)).suggestions =
      (analyze [] ("RUN apt-get update\nRUN apt-get install \\\n".toList ++
        "  curl\n".toList)).suggestions.map (Suggestion.relabel (Text.numberAfterInsert 2)) ∧
    analyze [] ("RUN apt-get install \\".toList ++ "\t\r".toList ++ "\n  curl\n".toList) =
      analyze [] ("RUN apt-get install \\".toList ++ "\n  curl\n".toList) := by
  have hcomment : ("  # tools \\".toList.find? fun c => !isBlank c) = some '#' := by decide
  have hinsert : Text.InsertsLine "  # tools \\".toList 2 _ _ :=
    .between "RUN apt-get update\nRUN apt-get install \\\n".toList "  curl\n".toList
      (.inr (by decide))
  have hblank : ∀ c ∈ "\t\r".toList, isBlank c ∧ c ≠ '\n' :=
    List.forall_mem_cons.2 ⟨by decide, List.forall_mem_singleton.2 (by decide)⟩
  exact ⟨((analyze_layout []).2.1 _ _ _ 2
    (fun c hc => Option.some.inj (hc.symm.trans hcomment)) (by decide) hinsert).1,
    (analyze_layout []).2.2 _ _ _ hblank (.inr (.inl ⟨_, rfl⟩))⟩

end LayerLint
