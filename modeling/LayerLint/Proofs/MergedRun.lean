import LayerLint.Proofs.Chain
import LayerLint.Proofs.Codes
import LayerLint.Proofs.ContinuedLines

/-!
# The merged `RUN`

The text that replaces several `RUN`s spreads their commands over continued lines. It reads as one
`RUN` whose command is the chain of theirs (`parse_mergedRun`). Commands that stand in a text which
no continuation runs out of are fit for this (`shellCommand_of_mem`). With what is known about
chains, the text that is proposed for a suggestion does what the cited `RUN`s do, and leaves no
update apart from its install (`analyze_mergedRun`).
-/

namespace LayerLint

open LogicalLine (ClosedText TrimmedText)

/-! ## Reading the merged text -/

def chainIndent : Text := [' ', ' ', ' ', ' ']

def chainOperator : Text := ['&', '&', ' ']

def lineBreak : Text := [' ', '\\', '\n'] ++ (chainIndent ++ chainOperator)

theorem isBlank_of_mem_chainIndent : ∀ c ∈ chainIndent, isBlank c ∧ c ≠ '\n' := by
  intro c hc
  rw [List.eq_of_mem_replicate (show c ∈ List.replicate 4 ' ' from hc)]
  decide

theorem closedText_operator : ClosedText ['&', '&'] := ⟨by decide, '&', rfl, by decide, by decide⟩

theorem unmarked_chainOperator (rest : Text) :
    unmarked (chainOperator ++ rest) = ['&', '&'] ++ unmarked (' ' :: rest) :=
  unmarked_append closedText_operator (' ' :: rest)

/-- An operator keeps a mark at the end away from what stands in front. -/
theorem unmarked_joint {y : Text} (hy : '\n' ∉ y) (rest : Text) :
    unmarked (y ++ (joint ++ rest)) = y ++ ' ' :: unmarked (chainOperator ++ rest) := by
  have hfront : ClosedText (y ++ [' ', '&', '&']) :=
    .append hy (.append (s := [' ']) (by decide) closedText_operator)
  have h := unmarked_append hfront (' ' :: rest)
  rw [List.append_assoc, List.append_assoc] at h
  rw [unmarked_chainOperator]
  exact h

/-- Commands on lines that continue each other are one logical line, the chain of them without a
mark at its end. `y` is the text on the line under way, `w` the white space in front of it. -/
theorem scan_marked_chain {cs : List Text} (hcs : ∀ c ∈ cs, TrimmedText c ∧ c ≠ [])
    {pending : Option LogicalLine} (hpending : ∀ l, pending = some l → l.text ≠ []) {w y : Text}
    (hw : ∀ c ∈ w, isBlank c ∧ c ≠ '\n') (h : LinePart y) (hend : cs = [] → unmarked y ≠ [])
    (k : Nat) :
    ∃ l, LogicalLine.scan pending
        (Text.numberFrom k (Text.trimmedLines (w ++ y ++ cs.flatMap (lineBreak ++ ·)))) = [l] ∧
      l.text = LogicalLine.lead pending ++ unmarked (y ++ cs.flatMap (joint ++ ·)) := by
  induction cs generalizing pending w y k with
  | nil =>
    rw [List.flatMap_nil, List.flatMap_nil, List.append_nil, List.append_nil]
    exact scan_last_line hpending hw k h (hend rfl)
  | cons c cs ih =>
    obtain ⟨⟨hc, hne⟩, hcs⟩ := List.forall_mem_cons.1 hcs
    have hsplit : w ++ y ++ (c :: cs).flatMap (lineBreak ++ ·) =
        w ++ y ++ [' ', '\\'] ++ '\n' :: (chainIndent ++ (chainOperator ++ c) ++
          cs.flatMap (lineBreak ++ ·)) := by
      rw [List.append_assoc (w ++ y)]
      rfl
    obtain ⟨l, hscan, hadds⟩ := scan_continued_line hpending hw k h
      (chainIndent ++ (chainOperator ++ c) ++ cs.flatMap (lineBreak ++ ·))
    have hl : ∀ l', some l = some l' → l'.text ≠ [] := by
      rintro _ ⟨⟩
      rw [hadds.text]
      exact List.append_ne_nil_of_right_ne_nil _ h.ne_nil
    have hpart : LinePart (chainOperator ++ c) :=
      .of_trimmed (by decide) rfl (by decide) (by decide) hc hne
    have hend : unmarked (chainOperator ++ c) ≠ [] := by
      rw [unmarked_chainOperator]
      exact List.cons_ne_nil _ _
    obtain ⟨l', hscan', htext'⟩ :=
      ih hcs hl isBlank_of_mem_chainIndent hpart (fun _ => hend) (k + 1)
    refine ⟨l', by rw [hsplit, hscan, hscan'], ?_⟩
    rw [htext', List.flatMap_cons, List.append_assoc joint, unmarked_joint h.one_line]
    simp [LogicalLine.lead, hadds.text]

theorem closedText_chain {y : Text} {cs : List Text} (hy : '\n' ∉ y) (hcs : ∀ c ∈ cs, ClosedText c)
    (hend : cs = [] → ClosedText y) : ClosedText (y ++ cs.flatMap (joint ++ ·)) := by
  induction cs generalizing y with
  | nil =>
    rw [List.flatMap_nil, List.append_nil]
    exact hend rfl
  | cons c cs ih =>
    obtain ⟨hc, hcs⟩ := List.forall_mem_cons.1 hcs
    have hfront : ClosedText (y ++ (joint ++ c)) := .append hy (.append (by decide) hc)
    rw [List.flatMap_cons, ← List.append_assoc]
    exact ih hfront.one_line hcs fun _ => hfront

/-- Commands of which none ends in a mark are the chain of them. -/
theorem scan_chain {cs : List Text} (hcs : ∀ c ∈ cs, ClosedText c) {pending : Option LogicalLine}
    (hpending : ∀ l, pending = some l → l.text ≠ []) {w y : Text}
    (hw : ∀ c ∈ w, isBlank c ∧ c ≠ '\n') (h : LinePart y) (hend : cs = [] → ClosedText y)
    (k : Nat) :
    ∃ l, LogicalLine.scan pending
        (Text.numberFrom k (Text.trimmedLines (w ++ y ++ cs.flatMap (lineBreak ++ ·)))) = [l] ∧
      l.text = LogicalLine.lead pending ++ (y ++ cs.flatMap (joint ++ ·)) := by
  have htrimmed : ∀ c ∈ cs, TrimmedText c ∧ c ≠ [] := fun c hc =>
    ⟨(hcs c hc).trimmedText, (hcs c hc).ne_nil⟩
  have hunmarked : cs = [] → unmarked y ≠ [] := fun hnil => by
    rw [(hend hnil).unmarked_eq]
    exact h.ne_nil
  obtain ⟨l, hscan, hl⟩ := scan_marked_chain htrimmed hpending hw h hunmarked k
  rw [(closedText_chain h.one_line hcs hend).unmarked_eq] at hl
  exact ⟨l, hscan, hl⟩

/-- The text of a command as an instruction in shell form has it. -/
structure CommandText (c : Text) : Prop where
  one_line : '\n' ∉ c
  last : ∃ x, c.getLast? = some x ∧ isBlank x = false
  start : ∀ x, c.head? = some x → isSpaceOrTab x = false
  shell : c.trim.head? ≠ some '['

/-- A command that does not go on where the next line follows it. -/
structure ShellCommand (c : Text) : Prop extends CommandText c where
  closed : ClosedText c

namespace CommandText

variable {c : Text} (h : CommandText c)
include h

theorem ne_nil : c ≠ [] := by
  rintro rfl
  obtain ⟨x, hx, -⟩ := h.last
  cases hx

theorem dropWhile_append (rest : Text) : (c ++ rest).dropWhile isSpaceOrTab = c ++ rest := by
  obtain ⟨x, c, rfl⟩ := List.exists_cons_of_ne_nil h.ne_nil
  exact List.dropWhile_cons_of_neg (by simp [h.start x rfl])

/-- What follows a command does not turn it into an exec form. -/
theorem head?_append (rest : Text) : (c ++ rest).trimStart.head? ≠ some '[' := by
  obtain ⟨x, hx, hblank⟩ := h.last
  rw [Text.head?_trimStart, ← Text.head?_trim,
    Text.head?_trim_append ⟨x, List.mem_of_mem_getLast? hx, hblank⟩]
  exact h.shell

theorem linePart : LinePart (['R', 'U', 'N', ' '] ++ c) where
  one_line := List.not_mem_append (by decide) h.one_line
  start := ⟨'R', rfl, by decide, by decide⟩
  stop := by
    obtain ⟨x, hx, hblank⟩ := h.last
    exact ⟨x, (List.getLast?_append_of_ne_nil _ h.ne_nil).trans hx, hblank⟩

end CommandText

/-- A logical line that holds `RUN` and a command reads as that. -/
theorem CommandText.ofLogicalLine? {c rest : Text} (h : CommandText c) {l : LogicalLine}
    (hl : l.text = ['R', 'U', 'N', ' '] ++ (c ++ rest)) :
    ∃ i, Instruction.ofLogicalLine? l = some i ∧ i.directive = .run ∧ i.command = c ++ rest := by
  have hkeyword : l.keyword = ['R', 'U', 'N'] := by
    unfold LogicalLine.keyword
    rw [hl]
    rfl
  have hargs : l.argsText = c ++ rest := by
    unfold LogicalLine.argsText
    rw [hl]
    exact h.dropWhile_append rest
  refine ⟨{ directive := .run, raw := l.raw, line := l.line, argsText := l.argsText,
            arguments := Instruction.splitArguments l.argsText, continued := l.continued },
    ?_, rfl, ?_⟩
  · unfold Instruction.ofLogicalLine?
    rw [hkeyword]
    rfl
  · unfold Instruction.command
    rw [if_neg, hargs]
    rw [hargs]
    exact h.head?_append rest

/-- The first of several commands may end in a mark of its own, since another one follows it. -/
theorem parse_chain {c : Text} {cs : List Text} (h : CommandText c)
    (hcs : ∀ d ∈ cs, ClosedText d) (hend : cs = [] → ClosedText c) :
    ∃ i, (Dockerfile.parse (Rule.mergedRun (c :: cs))).instructions = [i] ∧
      i.directive = .run ∧ i.command = Text.join joint (c :: cs) := by
  have htext : Rule.mergedRun (c :: cs) =
      [] ++ (['R', 'U', 'N', ' '] ++ c) ++ cs.flatMap (lineBreak ++ ·) := by
    show ['R', 'U', 'N', ' '] ++ (Text.join lineBreak (c :: cs) ++ []) = _
    rw [List.append_nil, Text.join_cons, List.nil_append, List.append_assoc]
  have hfirst : cs = [] → ClosedText (['R', 'U', 'N', ' '] ++ c) := fun hnil =>
    .append (by decide) (hend hnil)
  have hnone : ∀ l : LogicalLine, none = some l → l.text ≠ [] := by simp
  have hempty : ∀ c ∈ ([] : Text), isBlank c ∧ c ≠ '\n' := by simp
  obtain ⟨l, hscan, hl⟩ := scan_chain hcs hnone hempty h.linePart hfirst 0
  have hl : l.text = ['R', 'U', 'N', ' '] ++ (c ++ cs.flatMap (joint ++ ·)) := by
    rw [hl, List.append_assoc]
    rfl
  obtain ⟨i, hi, hrun, hcommand⟩ := h.ofLogicalLine? hl
  refine ⟨i, ?_, hrun, by rw [hcommand, Text.join_cons]⟩
  rw [Dockerfile.parse_instructions_eq, htext, hscan, List.filterMap_cons_some hi]
  rfl

theorem parse_mergedRun {c : Text} {cs : List Text} (h : ShellCommand c)
    (hcs : ∀ d ∈ cs, ClosedText d) :
    ∃ i, (Dockerfile.parse (Rule.mergedRun (c :: cs))).instructions = [i] ∧
      i.directive = .run ∧ i.command = Text.join joint (c :: cs) :=
  parse_chain h.toCommandText hcs fun _ => h.closed

/-! ## Commands of a text -/

theorem command_of_shell {i : Instruction} (hshell : i.argsText.trim.head? ≠ some '[') :
    i.command = i.argsText := by
  rw [Text.head?_trim, ← Text.head?_trimStart] at hshell
  exact if_neg hshell

theorem commandText_of_mem {t : Text} {i : Instruction} (hi : i ∈ (Dockerfile.parse t).instructions)
    (hshell : i.argsText.trim.head? ≠ some '[') (hne : i.command ≠ []) :
    CommandText i.command := by
  rw [command_of_shell hshell] at hne ⊢
  have htrimmed := Dockerfile.trimmedText_argsText hi
  have hlast := List.getLast?_eq_some_getLast hne
  exact {
    one_line := htrimmed.one_line
    last := ⟨_, hlast, htrimmed.last _ hlast⟩
    start := fun x hx => Dockerfile.head?_argsText hi hx
    shell := hshell }

theorem shellCommand_of_mem {t : Text} (hclosed : LogicalLine.EndsClosed t.lines) {i : Instruction}
    (hi : i ∈ (Dockerfile.parse t).instructions) (hshell : i.argsText.trim.head? ≠ some '[')
    (hne : i.command ≠ []) : ShellCommand i.command where
  toCommandText := commandText_of_mem hi hshell hne
  closed := by
    rw [command_of_shell hshell] at hne ⊢
    exact Dockerfile.closedText_argsText hclosed hi hne

/-! ## Suggestions that merge -/

/-- The suggestion is about installs or updates by that manager. -/
inductive Suggestion.About (m : PackageManager) : Suggestion → Prop
  | installs (st : Stage) (is : List Instruction) : About m (Rule.combineInstallsSuggestion st m is)
  | update (i : Instruction) (next : Option Instruction) :
    About m (Rule.separateUpdateSuggestion m i next)

theorem PackageManager.command_injective {m m' : PackageManager} (h : m.command = m'.command) :
    m = m' := by
  cases m <;> cases m' <;> first | rfl | exact absurd h (by decide)

theorem Text.middle_eq_of_concat_eq {a b x y : Text}
    (h : Text.concat [a, x, b] = Text.concat [a, y, b]) : x = y := by
  simpa [Text.concat] using h

theorem Rule.manager_eq_of_separateUpdateSuggestion_eq {m m' : PackageManager}
    {i i' : Instruction} {next next' : Option Instruction}
    (h : separateUpdateSuggestion m i next = separateUpdateSuggestion m' i' next') : m = m' := by
  cases next with
  | none =>
    cases next' with
    | none =>
      exact PackageManager.command_injective
        (Text.middle_eq_of_concat_eq (congrArg Suggestion.title h))
    | some _ => cases (congrArg Suggestion.before h : none = some _)
  | some _ =>
    cases next' with
    | none => cases (congrArg Suggestion.before h : some _ = none)
    | some _ =>
      exact PackageManager.command_injective
        (Text.middle_eq_of_concat_eq (congrArg Suggestion.title h))

/-- The text of a suggestion names one manager. -/
theorem Suggestion.About.unique {m m' : PackageManager} {s : Suggestion} (h : s.About m)
    (h' : s.About m') : m = m' := by
  have hcodes : ∀ {st : Stage} {is : List Instruction} {i : Instruction}
      {next : Option Instruction} {m m' : PackageManager},
      Rule.combineInstallsSuggestion st m is ≠ Rule.separateUpdateSuggestion m' i next := by
    intro st is i next m m' heq
    have hcode : Rule.combineInstalls.code = Rule.separateUpdate.code :=
      (congrArg Suggestion.code heq).trans (Rule.code_separateUpdateSuggestion m' i next)
    exact absurd hcode (by decide)
  cases h with
  | installs st is =>
    generalize hs : Rule.combineInstallsSuggestion st m is = s at h'
    cases h' with
    | installs st' is' =>
      exact PackageManager.command_injective
        (Text.middle_eq_of_concat_eq (congrArg Suggestion.recommendation hs))
    | update i next => exact absurd hs hcodes
  | update i next =>
    generalize hs : Rule.separateUpdateSuggestion m i next = s at h'
    cases h' with
    | installs st' is' => exact absurd hs.symm hcodes
    | update i' next' => exact Rule.manager_eq_of_separateUpdateSuggestion_eq hs

namespace Rule

variable {d : Dockerfile} {s : Suggestion}

/-- The suggestion proposes to merge these `RUN`s, one of which installs with the manager. -/
structure Merges (m : PackageManager) (is : List Instruction) (s : Suggestion) : Prop where
  about : s.About m
  lines : s.lines = is.map (·.line)
  several : 2 ≤ is.length
  after : s.after = some (mergedRun (is.map (·.command)))
  runs : ∀ i ∈ is, i.directive = .run ∧ i.command ≠ []
  installs : ∃ i ∈ is, m.installsIn i.command = true

theorem command_ne_nil_of_installsIn {m : PackageManager} {c : Text}
    (h : m.installsIn c = true) : c ≠ [] := by
  rintro rfl
  cases h

theorem command_ne_nil_of_updatesIn {m : PackageManager} {c : Text}
    (h : m.updatesIn c = true) : c ≠ [] := by
  rintro rfl
  cases m <;> cases h

theorem merges_of_mem_combineInstalls (hs : s ∈ combineInstalls.detect d) :
    ∃ m is, is.Sublist d.instructions ∧ Merges m is s := by
  obtain ⟨p, hp, hs⟩ := List.mem_flatMap.1 hs
  obtain ⟨st, -, rfl⟩ := List.mem_map.1 hp
  obtain ⟨m, hlen, rfl⟩ := mem_repeatedInstalls hs
  have hinstalls : ∀ i ∈ installRuns (d.stageInstructions st) m,
      i.directive = .run ∧ m.installsIn i.command = true := fun i hi =>
    (mem_installRuns.1 hi).2
  refine ⟨m, installRuns (d.stageInstructions st) m, ?_, .installs st _, rfl, hlen, rfl,
    fun i hi => ⟨(hinstalls i hi).1, command_ne_nil_of_installsIn (hinstalls i hi).2⟩, ?_⟩
  · exact (installRuns_sublist _ m).trans (Dockerfile.stageInstructions_sublist d st)
  · obtain ⟨i, hi⟩ := List.exists_mem_of_length_pos (Nat.lt_of_lt_of_le Nat.zero_lt_two hlen)
    exact ⟨i, hi, (hinstalls i hi).2⟩

theorem merges_of_mem_separateUpdate (hs : s ∈ separateUpdate.detect d) (hafter : s.after ≠ none) :
    ∃ m is, is.Sublist d.instructions ∧ Merges m is s := by
  obtain ⟨p, hp, hs⟩ := List.mem_flatMap.1 hs
  obtain ⟨st, -, rfl⟩ := List.mem_map.1 hp
  obtain ⟨before, i, rest, m, his, hrun, hupdate, -, rfl⟩ := mem_separateUpdates hs
  cases hpair : pairedInstall? m rest.head? with
  | none =>
    rw [hpair] at hafter
    exact absurd rfl hafter
  | some next =>
    obtain ⟨hnext, hnextRun, hinstall⟩ := pairedInstall?_eq_some hpair
    obtain ⟨tail, rfl⟩ := List.head?_eq_some_iff.1 hnext
    have hsub : [i, next].Sublist (d.stageInstructions st) := by
      have hhere : [i, next].Sublist (i :: next :: tail) :=
        ((List.nil_sublist tail).cons_cons next).cons_cons i
      exact his ▸ hhere.trans (List.sublist_append_right before _)
    refine ⟨m, [i, next], hsub.trans (Dockerfile.stageInstructions_sublist d st),
      .update i _, rfl, Nat.le_refl 2, rfl, ?_, next, by simp, hinstall⟩
    intro j hj
    rcases List.mem_pair.1 hj with rfl | rfl
    · exact ⟨hrun, command_ne_nil_of_updatesIn hupdate⟩
    · exact ⟨hnextRun, command_ne_nil_of_installsIn hinstall⟩

/-- No update is reported for a manager with which every instruction installs. -/
theorem not_about_of_installsIn {m : PackageManager}
    (h : ∀ i ∈ d.instructions, m.installsIn i.command = true) :
    ∀ r ∈ separateUpdate.detect d, ¬ r.About m := by
  intro r hr habout
  obtain ⟨p, hp, hr⟩ := List.mem_flatMap.1 hr
  obtain ⟨st, -, rfl⟩ := List.mem_map.1 hp
  obtain ⟨before, i, rest, m', his, -, -, hinstall, rfl⟩ := mem_separateUpdates hr
  have hi : i ∈ d.stageInstructions st := his ▸ by simp
  rw [(Suggestion.About.update i _).unique habout,
    h i ((Dockerfile.stageInstructions_sublist d st).subset hi)] at hinstall
  cases hinstall

end Rule

/-! ## What the merged text does -/

def Dockerfile.cited (d : Dockerfile) (s : Suggestion) : List Instruction :=
  d.instructions.filter fun i => i.line ∈ s.lines

/-- Suggestions that merge are about the `RUN`s they cite. -/
theorem Rule.exists_merges {ignore : List Text} {t : Text} {s : Suggestion}
    (hs : s ∈ (analyze ignore t).suggestions)
    (hcode : s.code = "DFO001".toList ∨ s.code = "DFO002".toList ∧ s.after ≠ none) :
    ∃ m is, is.Sublist (Dockerfile.parse t).instructions ∧ Merges m is s ∧
      (Dockerfile.parse t).cited s = is := by
  obtain ⟨m, is, hsub, hm⟩ :
      ∃ m is, is.Sublist (Dockerfile.parse t).instructions ∧ Merges m is s := by
    rcases hcode with hcode | ⟨hcode, hafter⟩
    · exact merges_of_mem_combineInstalls
        (mem_detect_of_mem_runAll (List.mem_cons_self ..) hs hcode)
    · exact merges_of_mem_separateUpdate
        (mem_detect_of_mem_runAll (List.mem_cons_of_mem _ (List.mem_cons_self ..)) hs hcode) hafter
  refine ⟨m, is, hsub, hm, ?_⟩
  unfold Dockerfile.cited
  rw [hm.lines]
  exact filter_line_mem hsub (Dockerfile.pairwise_line_parse t)

/-- The instruction is a `RUN` that does what the others do, one after the other. -/
structure Instruction.Chains (i : Instruction) (cs : List Instruction) : Prop where
  directive : i.directive = .run
  command : i.command = Text.join " && " (cs.map (·.command))
  packages : installArguments i.command = cs.flatMap fun c => installArguments c.command
  installs : ∀ m, m ∈ installManagers i.command ↔ ∃ c ∈ cs, m ∈ installManagers c.command
  updates : ∀ m, m ∈ updateManagers i.command ↔ ∃ c ∈ cs, m ∈ updateManagers c.command

theorem Instruction.chains_of_command {i : Instruction} {cs : List Instruction}
    (hrun : i.directive = .run) (hcommand : i.command = Text.join joint (cs.map (·.command))) :
    i.Chains cs where
  directive := hrun
  command := hcommand
  packages := by rw [hcommand, installArguments_join, List.flatMap_map]
  installs m := by
    rw [hcommand, mem_installManagers_join]
    simp
  updates m := by
    rw [hcommand, mem_updateManagers_join]
    simp

/-- The text that is proposed for several installs, or for an update and its install, reads as one
`RUN` that does what the cited ones do, provided that these are in shell form and no continuation
runs out of the text. The update is no longer reported for the manager in question. -/
theorem analyze_mergedRun (ignore : List Text) {t : Text}
    (hclosed : LogicalLine.EndsClosed t.lines) {s : Suggestion}
    (hs : s ∈ (analyze ignore t).suggestions)
    (hcode : s.code = "DFO001".toList ∨ s.code = "DFO002".toList ∧ s.after ≠ none)
    (hshell : ∀ i ∈ (Dockerfile.parse t).cited s, i.argsText.trim.head? ≠ some '[') :
    ∃ after i, s.after = some after ∧ (Dockerfile.parse after).instructions = [i] ∧
      i.Chains ((Dockerfile.parse t).cited s) ∧ (∃ m, s.About m) ∧
      ∀ m, s.About m → ∀ r ∈ Rule.separateUpdate.detect (Dockerfile.parse after), ¬ r.About m := by
  obtain ⟨m, is, hsub, hm, hcited⟩ := Rule.exists_merges hs hcode
  rw [hcited] at hshell ⊢
  have hcommands : ∀ i ∈ is, ShellCommand i.command := fun i hi =>
    shellCommand_of_mem hclosed (hsub.subset hi) (hshell i hi) (hm.runs i hi).2
  obtain ⟨j, hj, hinstall⟩ := hm.installs
  obtain ⟨c, cs, rfl⟩ := List.exists_cons_of_ne_nil (List.ne_nil_of_mem hj)
  have hrest : ∀ d ∈ cs.map (·.command), ClosedText d := by
    intro d hd
    obtain ⟨i, hi, rfl⟩ := List.mem_map.1 hd
    exact (hcommands i (List.mem_cons_of_mem _ hi)).closed
  obtain ⟨i, hparse, hrun, hcommand⟩ :=
    parse_mergedRun (hcommands c (List.mem_cons_self ..)) hrest
  have hchains : i.Chains (c :: cs) := Instruction.chains_of_command hrun hcommand
  refine ⟨_, i, hm.after, hparse, hchains, ⟨m, hm.about⟩, fun m' hm' => ?_⟩
  rw [hm'.unique hm.about]
  refine Rule.not_about_of_installsIn fun k hk => ?_
  rw [show k = i from List.mem_singleton.1 (hparse ▸ hk)]
  exact mem_installManagers.1 ((hchains.installs m).2 ⟨j, hj, mem_installManagers.2 hinstall⟩)

/-- An update and an install that is written over two lines. -/
theorem analyze_mergedRun_of_continued :
    LogicalLine.EndsClosed (Text.lines "RUN apk update\nRUN apk add \\\n  git\n".toList) ∧
    ∃ s ∈ (analyze [] "RUN apk update\nRUN apk add \\\n  git\n".toList).suggestions,
      s.code = "DFO002".toList ∧ s.after ≠ none ∧
      ∃ after i, s.after = some after ∧ (Dockerfile.parse after).instructions = [i] ∧
        i.Chains
          ((Dockerfile.parse "RUN apk update\nRUN apk add \\\n  git\n".toList).cited s) := by
  have hclosed :
      LogicalLine.EndsClosed (Text.lines "RUN apk update\nRUN apk add \\\n  git\n".toList) := by
    intro line hline
    rw [← Option.some.inj hline]
    decide
  have hs : (Rule.separateUpdate.detect
      (Dockerfile.parse "RUN apk update\nRUN apk add \\\n  git\n".toList)).head (by decide) ∈
        (analyze [] "RUN apk update\nRUN apk add \\\n  git\n".toList).suggestions :=
    Rule.mem_runAll.2 ⟨Rule.separateUpdate, List.mem_cons_of_mem _ (List.mem_cons_self ..), rfl,
      List.head_mem _⟩
  refine ⟨hclosed, _, hs, by decide, by decide, ?_⟩
  obtain ⟨after, i, hafter, hparse, hchains, -⟩ :=
    analyze_mergedRun [] hclosed hs (.inr ⟨by decide, by decide⟩) (by decide)
  exact ⟨after, i, hafter, hparse, hchains⟩

end LayerLint
