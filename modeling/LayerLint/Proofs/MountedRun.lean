import LayerLint.Proofs.ArgumentWords

/-!
# Cache mounts

Two rules look for a cache mount. One reads the leading flags of a `RUN` and takes the options of a
mount in any order (`Rule.hasCacheMount`). The other looks for the start of such a flag in the
command, where the type of the mount has to come first. They agree about a flag that names the type
first (`MountsTypeFirst.hasCacheMount`, `MountsTypeFirst.hasCleanup`) and can differ about every
other one (`cacheMountsExcused_iff`). The flag that is proposed for an install without a mount names
the type first, so that both rules have nothing more to say (`analyze_mountedRun`).
-/

namespace LayerLint

open LogicalLine (ClosedText)

/-! ## Flags that name the type first -/

/-- A leading flag mounts a cache and names that type as its first option. -/
def Instruction.MountsTypeFirst (i : Instruction) : Prop :=
  ∃ flag ∈ i.flags, "--mount=type=cache".toList <+: flag

/-- The start of a cache mount excuses a command wherever it stands. -/
theorem hasCleanup_mount (a b : Text) :
    hasCleanup (a ++ ("--mount=type=cache".toList ++ b)) = true := by
  have hmem : ⟨["--mount=type=cache"], false⟩ ∈ CleanupMarker.all := by simp [CleanupMarker.all]
  exact Text.anyTail_append (List.any_eq_true.2 ⟨_, hmem, rfl⟩) a

theorem Instruction.MountsTypeFirst.hasCacheMount {i : Instruction} (h : i.MountsTypeFirst) :
    Rule.hasCacheMount i = true := by
  obtain ⟨flag, hflag, options, rfl⟩ := h
  refine List.any_eq_true.2 ⟨_, hflag, ?_⟩
  have htype : Text.mentions "type=cache".toList ("--mount=type=cache".toList ++ options) = true :=
    Text.anyTail_append (b := "type=cache".toList ++ options) rfl "--mount=".toList
  rw [Bool.and_eq_true]
  exact ⟨rfl, htype⟩

theorem Instruction.MountsTypeFirst.hasCleanup {i : Instruction} (h : i.MountsTypeFirst) {t : Text}
    (hi : i ∈ (Dockerfile.parse t).instructions) : hasCleanup i.command = true := by
  obtain ⟨flag, hflag, options, rfl⟩ := h
  obtain ⟨a, b, hcommand⟩ := infix_command_of_mem hi ((List.takeWhile_prefix _).subset hflag)
  rw [← hcommand, List.append_assoc, List.append_assoc]
  exact hasCleanup_mount a (options ++ b)

/-! ## Installs that are excused -/

def Instruction.Excused (d : Dockerfile) (i : Instruction) : Prop :=
  ∀ s ∈ Rule.missingCleanup.detect d, i ∉ d.cited s

def Dockerfile.CacheMountsExcused (d : Dockerfile) : Prop :=
  ∀ i ∈ d.withDirective .run, Rule.hasCacheMount i = true → i.Excused d

theorem Instruction.excused_iff {t : Text} {i : Instruction}
    (hi : i ∈ (Dockerfile.parse t).withDirective .run) :
    i.Excused (Dockerfile.parse t) ↔
      (installManagers i.command ≠ [] → LayerLint.hasCleanup i.command = true) := by
  have hcited : ∀ k ∈ (Dockerfile.parse t).withDirective .run, ∀ m,
      (Dockerfile.parse t).cited (Rule.missingCleanupSuggestion k m) = [k] := fun k hk m =>
    filter_line_mem (List.singleton_sublist.2 (List.mem_of_mem_filter hk))
      (Dockerfile.pairwise_line_parse t)
  constructor
  · intro hexcused hmanagers
    by_contra hclean
    obtain ⟨m, ms, hm⟩ := List.exists_cons_of_ne_nil hmanagers
    refine hexcused (Rule.missingCleanupSuggestion i m) ?_ ?_
    · exact Rule.mem_missingCleanup_iff.2
        ⟨i, hi, Bool.eq_false_iff.2 hclean, m, by rw [hm]; rfl, rfl⟩
    · rw [hcited i hi m]
      exact List.mem_singleton_self i
  · intro hclean s hs hmem
    obtain ⟨k, hk, hdirty, m, hm, rfl⟩ := Rule.mem_missingCleanup_iff.1 hs
    rw [hcited k hk m, List.mem_singleton] at hmem
    subst hmem
    rw [hclean (List.ne_nil_of_mem (List.mem_of_mem_head? hm))] at hdirty
    cases hdirty

/-- A mount that names its type first always excuses the install. The mounts of a text excuse all
their installs if and only if those that name another option first are not needed for that. -/
theorem cacheMountsExcused_iff (t : Text) :
    (∀ i ∈ (Dockerfile.parse t).withDirective .run, i.MountsTypeFirst →
        Rule.hasCacheMount i = true ∧ i.Excused (Dockerfile.parse t)) ∧
      ((Dockerfile.parse t).CacheMountsExcused ↔
        ∀ i ∈ (Dockerfile.parse t).withDirective .run, Rule.hasCacheMount i = true →
          ¬ i.MountsTypeFirst → installManagers i.command ≠ [] → hasCleanup i.command = true) := by
  have hfirst : ∀ i ∈ (Dockerfile.parse t).withDirective .run, i.MountsTypeFirst →
      i.Excused (Dockerfile.parse t) := fun i hi hmount =>
    (Instruction.excused_iff hi).2 fun _ => hmount.hasCleanup (List.mem_of_mem_filter hi)
  refine ⟨fun i hi hmount => ⟨hmount.hasCacheMount, hfirst i hi hmount⟩, ?_, ?_⟩
  · exact fun hexcused i hi hcache _ => (Instruction.excused_iff hi).1 (hexcused i hi hcache)
  · intro hother i hi hcache
    by_cases hmount : i.MountsTypeFirst
    · exact hfirst i hi hmount
    · exact (Instruction.excused_iff hi).2 (hother i hi hcache hmount)

/-- The mount has its type behind its target, and the install is told to clean up. -/
theorem not_cacheMountsExcused_of_target_first :
    ¬ (Dockerfile.parse
      "RUN --mount=target=/root/.npm,type=cache npm ci\n".toList).CacheMountsExcused := by
  intro hexcused
  have hreported : ∃ i ∈ (Dockerfile.parse
      "RUN --mount=target=/root/.npm,type=cache npm ci\n".toList).withDirective .run,
      Rule.hasCacheMount i = true ∧ installManagers i.command ≠ [] ∧
        hasCleanup i.command = false := by
    decide
  obtain ⟨i, hi, hcache, hmanagers, hdirty⟩ := hreported
  rw [(Instruction.excused_iff hi).1 (hexcused i hi hcache) hmanagers] at hdirty
  cases hdirty

/-! ## The flag that is proposed -/

def cacheMountFlag (command : Text) : Text :=
  "--mount=type=cache,target=".toList ++ Rule.cacheTarget command

/-- The instruction is the `RUN` with one more flag in front. -/
structure Instruction.GainsFlag (j i : Instruction) (flag : Text) : Prop where
  directive : j.directive = .run
  arguments : j.arguments = flag :: i.arguments
  flags : j.flags = flag :: i.flags
  positional : j.positional = i.positional

theorem Instruction.gainsFlag_of_arguments {j i : Instruction} {flag : Text}
    (hrun : j.directive = .run) (hflag : isFlag flag = true)
    (harguments : j.arguments = flag :: i.arguments) : j.GainsFlag i flag where
  directive := hrun
  arguments := harguments
  flags := by
    unfold flags
    rw [harguments, List.takeWhile_cons_of_pos hflag]
  positional := by
    unfold positional
    rw [harguments, List.dropWhile_cons_of_pos hflag]

theorem prefix_cacheMountFlag (command : Text) :
    "--mount=type=cache".toList <+: cacheMountFlag command :=
  List.IsPrefix.trans (by decide) (List.prefix_append "--mount=type=cache,target=".toList _)

theorem isWord_cacheMountFlag (command : Text) : (cacheMountFlag command).IsWord := by
  unfold cacheMountFlag Rule.cacheTarget
  split
  · decide
  · decide

/-- A flag in front of the command of a `RUN` in shell form. -/
theorem Instruction.ShellForm.exists_gainsFlag {i : Instruction} (hshell : i.ShellForm) {t : Text}
    (hi : i ∈ (Dockerfile.parse t).instructions) (hcommand : ClosedText i.command) {flag : Text}
    (hword : flag.IsWord) (hflag : isFlag flag = true) :
    ∃ j, (Dockerfile.parse
        (Directive.run.keyword ++ ' ' :: (flag ++ ' ' :: i.command))).instructions = [j] ∧
      j.GainsFlag i flag := by
  have hclosed : ClosedText (flag ++ ' ' :: i.command) := by
    rw [List.append_cons]
    exact hcommand.append (List.not_mem_append hword.newline_notMem (by decide))
  have hhead : (flag ++ ' ' :: i.command).trim.head? ≠ some '[' := by
    obtain ⟨rest, rfl⟩ := List.isPrefixOf_iff_prefix.1 hflag
    rw [Text.head?_trim]
    exact fun h => absurd (show some '-' = some '[' from h) (by decide)
  have hwords : (flag ++ ' ' :: i.command).words = flag :: i.arguments := by
    rw [hword.words_append fun c hc => ?_, Text.words_cons_of_blank (by decide),
      hshell.words_command hi]
    rw [← Option.some.inj hc]
    decide
  have harguments : splitArguments (flag ++ ' ' :: i.command) = flag :: i.arguments := by
    rw [splitArguments_eq, stringList?_eq_none hhead, Option.getD_none, hwords]
  exact ⟨_, Dockerfile.parse_keyword_append .run hclosed.endsLine,
    gainsFlag_of_arguments rfl hflag harguments⟩

namespace Rule

variable {d : Dockerfile}

theorem mem_cacheMount {s : Suggestion} (hs : s ∈ cacheMount.detect d) :
    ∃ i ∈ d.instructions, i.directive = .run ∧ isJsInstall i.command = true ∧
      s = cacheMountSuggestion i := by
  obtain ⟨i, hi, rfl⟩ := List.mem_map.1 hs
  obtain ⟨hi, htest⟩ := List.mem_filter.1 hi
  obtain ⟨hi, hrun⟩ := List.mem_filter.1 hi
  exact ⟨i, hi, of_decide_eq_true hrun, (Bool.and_eq_true _ _ ▸ htest).1, rfl⟩

theorem cacheMount_detect_eq_nil (h : ∀ i ∈ d.instructions, hasCacheMount i = true) :
    cacheMount.detect d = [] := by
  have hnone : ((d.withDirective .run).filter fun i =>
      isJsInstall i.command && !hasCacheMount i) = [] :=
    List.filter_eq_nil_iff.2 fun i hi => by simp [h i (List.mem_filter.1 hi).1]
  unfold cacheMount
  simp only [hnone, List.map_nil]

theorem after_cacheMountSuggestion (i : Instruction) :
    (cacheMountSuggestion i).after =
      some (Directive.run.keyword ++ ' ' :: (cacheMountFlag i.command ++ ' ' :: i.command)) := by
  have hfront : "RUN --mount=type=cache,target=".toList =
      Directive.run.keyword ++ ' ' :: "--mount=type=cache,target=".toList := by decide
  have hspace : " ".toList = [' '] := rfl
  unfold cacheMountSuggestion Text.concat cacheMountFlag
  simp only [List.flatten_cons, List.flatten_nil, hfront, hspace, List.append_assoc,
    List.append_nil, List.cons_append, List.nil_append]

end Rule

/-- A suggestion to mount a cache is about one `RUN`. When that is in shell form, the proposed text
reads as the same `RUN` with one more flag, and neither the rule about mounts nor the one about
cleanups reports anything for it. -/
theorem analyze_mountedRun (ignore : List Text) {t : Text}
    (hclosed : LogicalLine.EndsClosed t.lines) {s : Suggestion}
    (hs : s ∈ (analyze ignore t).suggestions) (hcode : s.code = "DFO011".toList) :
    ∃ i, (Dockerfile.parse t).cited s = [i] ∧ i.directive = .run ∧
      (i.ShellForm →
        ∃ after j, s.after = some after ∧ (Dockerfile.parse after).instructions = [j] ∧
          j.GainsFlag i (cacheMountFlag i.command) ∧
          Rule.cacheMount.detect (Dockerfile.parse after) = [] ∧
          Rule.missingCleanup.detect (Dockerfile.parse after) = []) := by
  have hrule : Rule.cacheMount ∈ Rule.all := by simp [Rule.all]
  obtain ⟨i, hi, hrun, hinstall, rfl⟩ :=
    Rule.mem_cacheMount (Rule.mem_detect_of_mem_runAll hrule hs hcode)
  refine ⟨i, ?_, hrun, fun hshell => ?_⟩
  · exact filter_line_mem (List.singleton_sublist.2 hi) (Dockerfile.pairwise_line_parse t)
  · have hne : i.command ≠ [] := by
      intro hnil
      rw [hnil] at hinstall
      cases hinstall
    obtain ⟨j, hparse, hgains⟩ := hshell.exists_gainsFlag hi
      (hshell.closedText_command hi hclosed hne) (isWord_cacheMountFlag i.command) rfl
    have hfirst : j.MountsTypeFirst :=
      ⟨_, hgains.flags ▸ List.mem_cons_self .., prefix_cacheMountFlag i.command⟩
    have hj := hparse ▸ List.mem_singleton_self j
    refine ⟨_, j, Rule.after_cacheMountSuggestion i, hparse, hgains,
      Rule.cacheMount_detect_eq_nil fun k hk => ?_,
      Rule.missingCleanup_detect_eq_nil fun k hk => ?_⟩
    · rw [show k = j from List.mem_singleton.1 (hparse ▸ hk)]
      exact hfirst.hasCacheMount
    · rw [show k = j from List.mem_singleton.1 (hparse ▸ hk)]
      exact hfirst.hasCleanup hj

/-- The `RUN` has a flag already and goes on to a second line. -/
theorem analyze_mountedRun_of_flag :
    LogicalLine.EndsClosed
        (Text.lines "RUN --network=none npm ci \\\n  && yarn install\n".toList) ∧
    ∃ s ∈ (analyze [] "RUN --network=none npm ci \\\n  && yarn install\n".toList).suggestions,
      s.code = "DFO011".toList ∧
      ∃ i, (Dockerfile.parse
          "RUN --network=none npm ci \\\n  && yarn install\n".toList).cited s = [i] ∧
        i.directive = .run ∧ i.ShellForm ∧
        ∃ after j, s.after = some after ∧ (Dockerfile.parse after).instructions = [j] ∧
          j.GainsFlag i (cacheMountFlag i.command) ∧
          Rule.cacheMount.detect (Dockerfile.parse after) = [] ∧
          Rule.missingCleanup.detect (Dockerfile.parse after) = [] := by
  have hclosed : LogicalLine.EndsClosed
      (Text.lines "RUN --network=none npm ci \\\n  && yarn install\n".toList) := by
    intro line hline
    rw [← Option.some.inj hline]
    decide
  have hs : (Rule.cacheMount.detect (Dockerfile.parse
      "RUN --network=none npm ci \\\n  && yarn install\n".toList)).head (by decide) ∈
        (analyze [] "RUN --network=none npm ci \\\n  && yarn install\n".toList).suggestions :=
    Rule.mem_runAll.2 ⟨Rule.cacheMount, by simp [Rule.all], rfl, List.head_mem _⟩
  obtain ⟨i, hi, hrun, hafter⟩ := analyze_mountedRun [] hclosed hs (by decide)
  have hshell : ∀ j ∈ (Dockerfile.parse
      "RUN --network=none npm ci \\\n  && yarn install\n".toList).instructions,
      j.ShellForm := by decide
  have hshell : i.ShellForm :=
    hshell i (List.mem_of_mem_filter (hi ▸ List.mem_singleton_self i))
  exact ⟨hclosed, _, hs, by decide, i, hi, hrun, hshell, hafter hshell⟩

end LayerLint
