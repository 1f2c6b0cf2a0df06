import Mathlib.Data.List.Infix
import LayerLint.Proofs.ChainReadings
import LayerLint.Proofs.InstructionLine
import LayerLint.Proofs.MergedRun
import LayerLint.Proofs.Splice

/-!
# The cleaned `RUN`

The text that is proposed for an install without cleanup is the command with a flag behind its
install phrase, or with one more step at its end. It reads as one `RUN` (`parse_runLine`,
`parse_chain`) that cleans up and installs with the same managers (`exists_cleansUp_withCleanup`).
This holds also of a command that ends in a continuation mark, as the last one of a text may. Where
the flag goes in, that mark is dropped when the line is read again, and it is part of no phrase.
-/

namespace LayerLint

open LogicalLine (ClosedText TrimmedText)

/-! ## A `RUN` on one line -/

theorem startsInWord_unmarked {t : Text} (h : startsInWord t = false) :
    startsInWord (unmarked t) = false := by
  obtain ⟨T, -, ht⟩ := exists_eq_unmarked_append t
  cases hu : unmarked t with
  | nil => rfl
  | cons c u =>
    rw [ht, hu] at h
    exact h

theorem parse_runLine {c rest : Text} (h : ShellCommand c) (hrest : TrimmedText rest) :
    ∃ i, (Dockerfile.parse (['R', 'U', 'N', ' '] ++ (c ++ rest))).instructions = [i] ∧
      i.directive = .run ∧ i.command = c ++ unmarked rest := by
  have hfront : ClosedText (['R', 'U', 'N', ' '] ++ c) := .append (by decide) h.closed
  have hline : LinePart (['R', 'U', 'N', ' '] ++ (c ++ rest)) :=
    .of_trimmed (by decide) rfl (by decide) (by decide) (h.closed.append_trimmed hrest)
      (List.append_ne_nil_of_left_ne_nil h.ne_nil rest)
  have htext : (LogicalLine.ofLine 1 (['R', 'U', 'N', ' '] ++ (c ++ rest))).text =
      ['R', 'U', 'N', ' '] ++ (c ++ unmarked rest) := by
    have hbody := hline.body_append (w := []) (by simp)
    rw [List.nil_append] at hbody
    show body _ = _
    rw [hbody, ← List.append_assoc, unmarked_append hfront,
      List.append_assoc]
  have hskip : isSkippable (['R', 'U', 'N', ' '] ++ (c ++ rest)) = false := by
    refine Bool.eq_false_iff.2 fun hskip => ?_
    exact absurd ((isSkippable_iff _).1 hskip 'R' rfl) (by decide)
  obtain ⟨i, hi, hrun, hcommand⟩ := h.ofLogicalLine? htext
  refine ⟨i, ?_, hrun, hcommand⟩
  rw [Dockerfile.parse_instructions, scan_single hline.one_line hskip, List.filterMap_cons_some hi]
  rfl

/-! ## A command cut behind its install -/

/-- The command is cut behind a word `V` that stands apart from what is in front of it. -/
structure CutBehind (V command upTo rest : Text) : Prop where
  command_eq : command = upTo ++ rest
  ends_word : startsInWord rest = false
  verb : ∃ s : Text, s.EndsApart ∧ upTo = s ++ V

theorem exists_cut {m : PackageManager} {command : Text} (h : m.installsIn command = true) :
    ∃ V ∈ m.installPhrase.verbs, ∃ upTo rest, splitAtInstall? m command = some (upTo, rest) ∧
      CutBehind V command upTo rest := by
  obtain ⟨rest, hrest⟩ := Option.isSome_iff_exists.1 h
  obtain ⟨s, rfl, rfl⟩ := Phrase.exists_spelling_of_after? hrest
  have htext : s.text = s.before ++ s.phrase ++ s.behind := by
    rw [Phrase.Spelling.text, s.tail_eq, List.append_assoc]
  refine ⟨s.verb, s.verb_mem, s.before ++ s.phrase, s.behind, ?_, htext, s.ends_word,
    _, s.endsApart, by simp [Phrase.Spelling.phrase]⟩
  unfold splitAtInstall?
  rw [hrest, Option.map_some, htext, List.length_append, Nat.add_sub_cancel, List.take_left]

theorem CommandText.trimmedText {c : Text} (h : CommandText c) : TrimmedText c where
  one_line := h.one_line
  last d hd := by
    obtain ⟨x, hx, hblank⟩ := h.last
    exact Option.some.inj (hx.symm.trans hd) ▸ hblank

/-- Another text may stand behind the first word of a command. -/
theorem CommandText.graft {a b t : Text} (h : CommandText (a ++ b))
    (ha : ∃ x ∈ a, isBlank x = false) (ht : ClosedText t) : ShellCommand (a ++ t) := by
  have hline : '\n' ∉ a := fun hmem => h.one_line (List.mem_append_left b hmem)
  have hclosed : ClosedText (a ++ t) := ht.append hline
  obtain ⟨d, hd, hblank, -⟩ := hclosed.last
  have hshell := h.shell
  rw [Text.head?_trim_append ha, ← Text.head?_trim_append ha t] at hshell
  have hstart := h.start
  obtain ⟨x, hx, -⟩ := ha
  obtain ⟨y, a, rfl⟩ := List.exists_cons_of_ne_nil (List.ne_nil_of_mem hx)
  exact {
    one_line := hclosed.one_line
    last := ⟨d, hd, hblank⟩
    start := hstart
    shell := hshell
    closed := hclosed }

/-! ## What a flag changes -/

namespace PackageManager

theorem token_installPhrase (m m' : PackageManager) {V : Text} (hV : V ∈ m.installPhrase.verbs) :
    m'.installPhrase.Token V := by
  have hletters : ∀ m : PackageManager, ∀ verb ∈ m.installPhrase.verbs, ∀ c ∈ verb,
      isWordChar c = true := by
    intro m verb hverb
    refine List.all_eq_true.1 ?_
    revert verb
    cases m <;> decide
  have hapart : ∀ verb ∈ m.installPhrase.verbs, m'.installPhrase.StartsApart verb := by
    cases m <;> cases m' <;> decide
  exact {
    solid := m'.solid_installPhrase
    verbs := hletters m'
    isWord := m.solid_installPhrase.2 V hV
    letters := hletters m V hV
    apart := hapart V hV }

def flagText (m : PackageManager) : Text := ' ' :: m.cleanupHint

theorem startsApart_flagText {m : PackageManager} (hflag : m.hintIsFlag = true)
    (m' : PackageManager) :
    ∀ v, v <:+ m.flagText → v ≠ [] → m'.installPhrase.StartsApart v := by
  have htails : ∀ v ∈ m.flagText.tails, v ≠ [] → m'.installPhrase.StartsApart v := by
    cases m with
    | apk => cases m' <;> decide
    | pip => cases m' <;> decide
    | _ => cases hflag
  exact fun v hv => htails v ((List.mem_tails v _).2 hv)

theorem closedText_cleanupHint (m : PackageManager) : ClosedText m.cleanupHint := by
  cases m
  all_goals exact ⟨by decide, _, rfl, by decide, by decide⟩

theorem idle_installPhrase (m : PackageManager) {x : Char} (hx : isBlank x = true ∨ x = '\\') :
    m.installPhrase.Idle x := by
  rcases hx with hx | rfl
  · refine ⟨isWordChar_of_isBlank hx, fun verb hverb hmem => ?_⟩
    rw [(m.solid_installPhrase.2 verb hverb).solid x hmem] at hx
    cases hx
  · cases m <;> exact ⟨by decide, by decide⟩

/-- Neither a flag behind a verb nor the lack of a mark at the end makes an install. -/
theorem installsIn_spliced {m m' : PackageManager} (hflag : m.hintIsFlag = true)
    {V command upTo rest : Text} (hV : V ∈ m.installPhrase.verbs)
    (h : CutBehind V command upTo rest) :
    m'.installsIn (upTo ++ (m.flagText ++ unmarked rest)) = m'.installsIn command := by
  obtain ⟨s, hs, rfl⟩ := h.verb
  have htoken : m'.installPhrase.Token V := m.token_installPhrase m' hV
  have hne : m.flagText ≠ [] := List.cons_ne_nil _ _
  have hword : endsInWord m.flagText = true := by
    cases m <;> first | rfl | cases hflag
  obtain ⟨T, hT, hrest⟩ := exists_eq_unmarked_append rest
  -- both texts agree up to the verb; behind it, no name starts in the flag and no verb has the mark
  have hbehind : (atWordStart? m'.installPhrase.rest? true (m.flagText ++ unmarked rest)).isSome =
      (atWordStart? m'.installPhrase.rest? true rest).isSome := by
    conv_rhs => rw [hrest]
    have hidle : ∀ x ∈ T, m'.installPhrase.Idle x := fun x hx => m'.idle_installPhrase (hT x hx)
    rw [Phrase.isSome_append_idle m'.readable_installPhrase hidle,
      Phrase.atWordStart?_skip hne (startsApart_flagText hflag m'), hword]
  have hspace : startsInWord (m.flagText ++ unmarked rest) = false :=
    show isWordChar ' ' = false by decide
  unfold installsIn
  rw [h.command_eq, List.append_assoc, List.append_assoc, htoken.occursIn_append hspace hs,
    htoken.occursIn_append h.ends_word hs, hbehind]

end PackageManager

theorem Text.anyTail_append {p : Text → Bool} {b : Text} (hb : p b = true) (a : Text) :
    Text.anyTail p (a ++ b) = true := by
  induction a with
  | nil => cases b <;> simp [Text.anyTail, hb]
  | cons c a ih => rw [List.cons_append, Text.anyTail, ih, Bool.or_true]

theorem hasCleanup_flag {m : PackageManager} (hflag : m.hintIsFlag = true) (a : Text) {r : Text}
    (hr : startsInWord r = false) : hasCleanup (a ++ (m.cleanupHint ++ r)) = true := by
  have hmarker : ∀ t, startsInWord t = false →
      hasCleanup (a ++ ("--no-cache".toList ++ t)) = true := by
    intro t ht
    have hmem : ⟨["--no-cache"], true⟩ ∈ CleanupMarker.all := by simp [CleanupMarker.all]
    refine Text.anyTail_append (List.any_eq_true.2 ⟨_, hmem, ?_⟩) a
    show (!(true && startsInWord t)) = true
    rw [ht]
    rfl
  cases m with
  | apk => exact hmarker r hr
  | pip => exact hmarker ("-dir".toList ++ r) (show isWordChar '-' = false by decide)
  | _ => cases hflag

/-! ## The proposed text -/

/-- The instruction is a `RUN` that installs as the command does and keeps no cache. -/
structure Instruction.CleansUp (i : Instruction) (command : Text) : Prop where
  directive : i.directive = .run
  cleanup : hasCleanup i.command = true
  managers : installManagers i.command = installManagers command

theorem exists_cleansUp_of_flag {m : PackageManager} (hflag : m.hintIsFlag = true)
    {V command upTo rest : Text} (hV : V ∈ m.installPhrase.verbs)
    (h : CutBehind V command upTo rest) (hcommand : CommandText command) :
    ∃ i, (Dockerfile.parse
        (['R', 'U', 'N', ' '] ++ (upTo ++ (m.flagText ++ rest)))).instructions = [i] ∧
      i.CleansUp command := by
  have hfront : ShellCommand (upTo ++ m.flagText) := by
    obtain ⟨s, -, rfl⟩ := h.verb
    have hword := m.solid_installPhrase.2 V hV
    obtain ⟨v, hv⟩ := List.exists_mem_of_ne_nil V hword.ne_nil
    exact (h.command_eq ▸ hcommand).graft ⟨v, List.mem_append_right s hv, hword.solid v hv⟩
      (.append (s := [' ']) (by decide) m.closedText_cleanupHint)
  have hrest : TrimmedText rest := hcommand.trimmedText.of_suffix ⟨upTo, h.command_eq.symm⟩
  obtain ⟨i, hparse, hrun, hi⟩ := parse_runLine hfront hrest
  rw [List.append_assoc] at hparse hi
  refine ⟨i, hparse, hrun, ?_, ?_⟩
  · rw [hi]
    have := hasCleanup_flag hflag (upTo ++ [' ']) (startsInWord_unmarked h.ends_word)
    rwa [List.append_assoc] at this
  · rw [hi]
    exact List.filter_congr fun m' _ => PackageManager.installsIn_spliced hflag hV h

theorem exists_cleansUp_of_step {m : PackageManager} (hstep : m.hintIsFlag = false)
    {command : Text} (hcommand : CommandText command) :
    ∃ i, (Dockerfile.parse (Rule.mergedRun [command, m.cleanupHint])).instructions = [i] ∧
      i.CleansUp command := by
  have hhint : hasCleanup m.cleanupHint = true ∧ installManagers m.cleanupHint = [] := by
    cases m with
    | apk => cases hstep
    | pip => cases hstep
    | _ => decide
  have hclosed : ∀ d ∈ [m.cleanupHint], ClosedText d := by simpa using m.closedText_cleanupHint
  obtain ⟨i, hparse, hrun, hi⟩ := parse_chain hcommand hclosed (by simp)
  rw [Text.join_cons_cons, Text.join_singleton] at hi
  refine ⟨i, hparse, hrun, ?_, ?_⟩
  · rw [hi, hasCleanup_joint, hhint.1, Bool.or_true]
  · rw [hi, installManagers_joint, hhint.2]
    exact List.filter_congr fun m _ => by simp [mem_installManagers]

theorem exists_cleansUp_withCleanup {m : PackageManager} {command : Text}
    (h : m.installsIn command = true) (hcommand : CommandText command) :
    ∃ i, (Dockerfile.parse (Rule.withCleanup m command)).instructions = [i] ∧
      i.CleansUp command := by
  cases hflag : m.hintIsFlag with
  | true =>
    obtain ⟨V, hV, upTo, rest, hsplit, hcut⟩ := exists_cut h
    have htext : Rule.withCleanup m command =
        ['R', 'U', 'N', ' '] ++ (upTo ++ (m.flagText ++ rest)) := by
      unfold Rule.withCleanup
      rw [hflag, if_pos rfl, hsplit]
      simp [Text.concat, PackageManager.flagText]
    rw [htext]
    exact exists_cleansUp_of_flag hflag hV hcut hcommand
  | false =>
    have htext : Rule.withCleanup m command = Rule.mergedRun [command, m.cleanupHint] := by
      unfold Rule.withCleanup
      rw [hflag, if_neg Bool.false_ne_true]
      simp [Text.concat, Rule.mergedRun, Text.join_cons_cons, Text.join_singleton]
    rw [htext]
    exact exists_cleansUp_of_step hflag hcommand

/-! ## Suggestions to clean up -/

namespace Rule

variable {d : Dockerfile}

theorem mem_missingCleanup_iff {s : Suggestion} :
    s ∈ missingCleanup.detect d ↔
      ∃ i ∈ d.withDirective .run, hasCleanup i.command = false ∧
        ∃ m, (installManagers i.command).head? = some m ∧ missingCleanupSuggestion i m = s := by
  unfold missingCleanup
  simp only [List.mem_filterMap, List.mem_filter, Option.map_eq_some_iff, Bool.not_eq_true',
    and_assoc]

theorem mem_missingCleanup {s : Suggestion} (hs : s ∈ missingCleanup.detect d) :
    ∃ i ∈ d.instructions, i.directive = .run ∧
      ∃ m : PackageManager, m.installsIn i.command = true ∧ s = missingCleanupSuggestion i m := by
  obtain ⟨i, hi, -, m, hm, rfl⟩ := mem_missingCleanup_iff.1 hs
  obtain ⟨hi, hrun⟩ := List.mem_filter.1 hi
  exact ⟨i, hi, of_decide_eq_true hrun, m, mem_installManagers.1 (List.mem_of_mem_head? hm), rfl⟩

theorem missingCleanup_detect_eq_nil (h : ∀ i ∈ d.instructions, hasCleanup i.command = true) :
    missingCleanup.detect d = [] := by
  have hnone : ((d.withDirective .run).filter fun i => !hasCleanup i.command) = [] :=
    List.filter_eq_nil_iff.2 fun i hi => by simp [h i (List.mem_filter.1 hi).1]
  unfold missingCleanup
  simp only [hnone, List.filterMap_nil]

end Rule

/-- A suggestion to clean up is about one `RUN`. When that is in shell form, the proposed text reads
as one `RUN` that installs with the same managers and cleans up, so that nothing more is reported
about it. This needs nothing of the text around: the `RUN` may be cut off in a continuation. -/
theorem analyze_cleanedRun (ignore : List Text) {t : Text} {s : Suggestion}
    (hs : s ∈ (analyze ignore t).suggestions) (hcode : s.code = "DFO004".toList) :
    ∃ i, (Dockerfile.parse t).cited s = [i] ∧ i.directive = .run ∧
      (i.argsText.trim.head? ≠ some '[' →
        ∃ after j, s.after = some after ∧ (Dockerfile.parse after).instructions = [j] ∧
          j.CleansUp i.command ∧ Rule.missingCleanup.detect (Dockerfile.parse after) = []) := by
  have hrule : Rule.missingCleanup ∈ Rule.all := by simp [Rule.all]
  obtain ⟨i, hi, hrun, m, hinstall, rfl⟩ :=
    Rule.mem_missingCleanup (Rule.mem_detect_of_mem_runAll hrule hs hcode)
  refine ⟨i, ?_, hrun, fun hshell => ?_⟩
  · exact filter_line_mem (List.singleton_sublist.2 hi) (Dockerfile.pairwise_line_parse t)
  · have hcommand : CommandText i.command :=
      commandText_of_mem hi hshell (Rule.command_ne_nil_of_installsIn hinstall)
    obtain ⟨j, hparse, hcleans⟩ := exists_cleansUp_withCleanup hinstall hcommand
    refine ⟨_, j, rfl, hparse, hcleans, Rule.missingCleanup_detect_eq_nil fun k hk => ?_⟩
    rw [show k = j from List.mem_singleton.1 (hparse ▸ hk)]
    exact hcleans.cleanup

/-- The command of the `RUN` ends in a mark of its own, since a second one cuts the text off. -/
theorem analyze_cleanedRun_of_marked :
    ∃ s ∈ (analyze [] "RUN pip3 install\\\\".toList).suggestions, s.code = "DFO004".toList ∧
      ∃ i, (Dockerfile.parse "RUN pip3 install\\\\".toList).cited s = [i] ∧
        i.directive = .run ∧ i.argsText.trim.head? ≠ some '[' ∧
        ∃ after j, s.after = some after ∧ (Dockerfile.parse after).instructions = [j] ∧
          j.CleansUp i.command ∧ Rule.missingCleanup.detect (Dockerfile.parse after) = [] := by
  have hs : (Rule.missingCleanup.detect
      (Dockerfile.parse "RUN pip3 install\\\\".toList)).head (by decide) ∈
        (analyze [] "RUN pip3 install\\\\".toList).suggestions :=
    Rule.mem_runAll.2 ⟨Rule.missingCleanup, by simp [Rule.all], rfl, List.head_mem _⟩
  obtain ⟨i, hi, hrun, hafter⟩ := analyze_cleanedRun [] hs (by decide)
  have hshell : ∀ j ∈ (Dockerfile.parse "RUN pip3 install\\\\".toList).instructions,
      j.argsText.trim.head? ≠ some '[' := by decide
  have hshell : i.argsText.trim.head? ≠ some '[' :=
    hshell i (List.mem_of_mem_filter (hi ▸ List.mem_singleton_self i))
  exact ⟨_, hs, by decide, i, hi, hrun, hshell, hafter hshell⟩

end LayerLint
