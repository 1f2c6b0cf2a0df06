import Mathlib.Data.List.Forall2
import LayerLint.Report
import LayerLint.Proofs.InstallTable
import LayerLint.Proofs.Parse
import LayerLint.Proofs.Stages

/-!
# What suggestions cite

`Cites s is`: the lines of `s` are those of one or more of the instructions `is`, in their order.
Every rule but one cites within a stage: five rules look at one stage at a time, four at one
instruction, and one at Dockerfiles of a single stage. The rule about the whole context cites across
stages.
-/

namespace LayerLint

def Cites (s : Suggestion) (is : List Instruction) : Prop :=
  ∃ cited, cited ≠ [] ∧ cited.Sublist is ∧ s.lines = cited.map (·.line)

section
variable {s : Suggestion} {is js : List Instruction}

theorem Cites.mono (h : Cites s is) (hsub : is.Sublist js) : Cites s js := by
  obtain ⟨cited, hne, hcited, hlines⟩ := h
  exact ⟨cited, hne, hcited.trans hsub, hlines⟩

theorem Cites.of_mem {i : Instruction} (hi : i ∈ is) (hlines : s.lines = [i.line]) : Cites s is :=
  ⟨[i], List.cons_ne_nil _ _, List.singleton_sublist.2 hi, hlines⟩

theorem Cites.lines_ne_nil (h : Cites s is) : s.lines ≠ [] := by
  obtain ⟨cited, hne, -, hlines⟩ := h
  simpa [hlines] using hne

theorem Cites.pairwise (h : Cites s is) (his : is.Pairwise (·.line < ·.line)) :
    s.lines.Pairwise (· < ·) := by
  obtain ⟨cited, -, hcited, hlines⟩ := h
  rw [hlines, List.pairwise_map]
  exact his.sublist hcited

theorem Cites.exists_mem (h : Cites s is) {line : Nat} (hline : line ∈ s.lines) :
    ∃ i ∈ is, i.line = line := by
  obtain ⟨cited, -, hcited, hlines⟩ := h
  rw [hlines] at hline
  obtain ⟨i, hi, rfl⟩ := List.mem_map.1 hline
  exact ⟨i, hcited.subset hi, rfl⟩

/-- Lines tell instructions apart, so those that are cited can be read off the lines. -/
theorem filter_line_mem (hsub : is.Sublist js) (hjs : js.Pairwise (·.line < ·.line)) :
    (js.filter fun i => i.line ∈ is.map (·.line)) = is := by
  induction hsub with
  | slnil => rfl
  | @cons is js j hsub ih =>
    obtain ⟨hj, hjs⟩ := List.pairwise_cons.1 hjs
    have hskip : j.line ∉ is.map (·.line) := by
      intro hmem
      obtain ⟨i, hi, heq⟩ := List.mem_map.1 hmem
      have := hj i (hsub.subset hi)
      omega
    rw [List.filter_cons_of_neg (by simpa using hskip), ih hjs]
  | @cons_cons is js j hsub ih =>
    obtain ⟨hj, hjs⟩ := List.pairwise_cons.1 hjs
    have hrest : (js.filter fun i => i.line ∈ (j :: is).map (·.line)) =
        js.filter fun i => i.line ∈ is.map (·.line) := by
      refine List.filter_congr fun i hi => ?_
      have := hj i hi
      simp only [List.map_cons, List.mem_cons]
      rw [decide_eq_decide]
      exact or_iff_right (by omega)
    rw [List.filter_cons_of_pos (by simp), hrest, ih hjs]

end

def CitesStage (d : Dockerfile) (s : Suggestion) : Prop :=
  ∃ st ∈ d.stages, Cites s (d.stageInstructions st)

theorem citesStage_of_staged {d : Dockerfile} {f : Stage × List Instruction → List Suggestion}
    (hf : ∀ st is, ∀ s ∈ f (st, is), Cites s is) {s : Suggestion} (hs : s ∈ d.staged.flatMap f) :
    CitesStage d s := by
  obtain ⟨p, hp, hs⟩ := List.mem_flatMap.1 hs
  obtain ⟨st, hst, rfl⟩ := List.mem_map.1 hp
  exact ⟨st, hst, hf st _ s hs⟩

/-- The suggestions go stage by stage, and within a stage there is one for each thing that is found
there. -/
def StageByStage {α : Type} (d : Dockerfile) (found : Stage → List α)
    (reports : Stage → α → Suggestion → Prop) (ss : List Suggestion) : Prop :=
  ∃ parts : Stage → List Suggestion, ss = d.stages.flatMap parts ∧
    ∀ st ∈ d.stages, List.Forall₂ (reports st) (found st) (parts st)

theorem stageByStage_staged {α : Type} {d : Dockerfile} {found : Stage → List α}
    {reports : Stage → α → Suggestion → Prop} {f : Stage × List Instruction → List Suggestion}
    (h : ∀ st ∈ d.stages,
      List.Forall₂ (reports st) (found st) (f (st, d.stageInstructions st))) :
    StageByStage d found reports (d.staged.flatMap f) :=
  ⟨fun st => f (st, d.stageInstructions st), List.flatMap_map .., h⟩

namespace Rule

/-! ## What the rules about one stage find -/

theorem mem_separateUpdates {is : List Instruction} {s : Suggestion}
    (hs : s ∈ separateUpdates is) :
    ∃ before i rest m, is = before ++ i :: rest ∧ i.directive = .run ∧
      m.updatesIn i.command = true ∧ m.installsIn i.command = false ∧
      s = separateUpdateSuggestion m i (pairedInstall? m rest.head?) := by
  induction is with
  | nil => cases hs
  | cons i rest ih =>
    rcases List.mem_append.1 hs with hs | hs
    · unfold separateUpdatesAt at hs
      split at hs
      · next hrun =>
        obtain ⟨m, hm, rfl⟩ := List.mem_map.1 hs
        obtain ⟨hupdate, hinstall⟩ := List.mem_filter.1 hm
        exact ⟨[], i, rest, m, rfl, hrun, (List.mem_filter.1 hupdate).2, by simpa using hinstall,
          rfl⟩
      · cases hs
    · obtain ⟨before, j, more, m, rfl, h⟩ := ih hs
      exact ⟨i :: before, j, more, m, rfl, h⟩

theorem pairedInstall?_eq_some {m : PackageManager} {next : Option Instruction} {i : Instruction}
    (h : pairedInstall? m next = some i) :
    next = some i ∧ i.directive = .run ∧ m.installsIn i.command = true := by
  obtain ⟨hnext, hpair⟩ := Option.filter_eq_some_iff.1 h
  obtain ⟨hrun, hinstall⟩ := Bool.and_eq_true_iff.1 hpair
  exact ⟨hnext, of_decide_eq_true hrun, hinstall⟩

theorem mem_copyOrders {st : Stage} {is : List Instruction} {s : Suggestion}
    (hs : s ∈ copyOrders st is) :
    ∃ before i rest manifest, is = before ++ i :: rest ∧ i.copiesWholeContext = true ∧
      rest.find? copiesManifest = some manifest ∧ s = copyOrderSuggestion st i manifest := by
  induction is with
  | nil => cases hs
  | cons i rest ih =>
    rcases List.mem_append.1 hs with hs | hs
    · split at hs
      · next hwhole =>
        obtain ⟨manifest, hfind, rfl⟩ := Option.map_eq_some_iff.1 (Option.mem_toList.1 hs)
        exact ⟨[], i, rest, manifest, rfl, hwhole, hfind, rfl⟩
      · cases hs
    · obtain ⟨before, j, more, manifest, rfl, h⟩ := ih hs
      exact ⟨i :: before, j, more, manifest, rfl, h⟩

theorem mem_lateWorkdirs {st : Stage} {seen : Bool} {is : List Instruction} {s : Suggestion}
    (hs : s ∈ lateWorkdirs st seen is) :
    ∃ i ∈ is, i.directive = .workdir ∧ s = workdirSuggestion st i := by
  induction is generalizing seen with
  | nil => cases hs
  | cons i rest ih =>
    have hrest : ∀ {seen}, s ∈ lateWorkdirs st seen rest →
        ∃ j ∈ i :: rest, j.directive = .workdir ∧ s = workdirSuggestion st j := fun h =>
      let ⟨j, hj, heq⟩ := ih h
      ⟨j, List.mem_cons_of_mem _ hj, heq⟩
    unfold lateWorkdirs at hs
    split at hs
    · exact hrest hs
    · exact hrest hs
    · next hdir =>
      rcases List.mem_append.1 hs with hs | hs
      · split at hs
        · exact ⟨i, List.mem_cons_self .., hdir, List.mem_singleton.1 hs⟩
        · cases hs
      · exact hrest hs
    · exact hrest hs

theorem mem_finishedBlock {block b : List Instruction}
    (h : b ∈ if 2 ≤ block.length then [block] else []) : b = block ∧ 2 ≤ block.length := by
  split at h
  · next hlen => exact ⟨List.mem_singleton.1 h, hlen⟩
  · cases h

/-- A block is made of instructions in order, first those of the block under way. -/
theorem mem_copyBlocks {block is b : List Instruction} (h : b ∈ copyBlocks block is) :
    2 ≤ b.length ∧ b.Sublist (block ++ is) := by
  induction is generalizing block with
  | nil =>
    obtain ⟨rfl, hlen⟩ := mem_finishedBlock h
    exact ⟨hlen, List.sublist_append_left _ _⟩
  | cons i rest ih =>
    unfold copyBlocks at h
    split at h
    · obtain ⟨hlen, hsub⟩ := ih h
      exact ⟨hlen, by simpa using hsub⟩
    · rcases List.mem_append.1 h with h | h
      · obtain ⟨rfl, hlen⟩ := mem_finishedBlock h
        exact ⟨hlen, List.sublist_append_left _ _⟩
      · obtain ⟨hlen, hsub⟩ := ih h
        exact ⟨hlen, (hsub.trans (List.sublist_cons_self i rest)).trans
          (List.sublist_append_right block _)⟩

/-! ## Rules about one stage at a time -/

theorem repeatedInstalls_cites {st : Stage} {is : List Instruction} {s : Suggestion}
    (hs : s ∈ repeatedInstalls st is) : Cites s is := by
  obtain ⟨m, hlen, rfl⟩ := mem_repeatedInstalls hs
  refine ⟨installRuns is m, fun hnil => ?_, installRuns_sublist is m, rfl⟩
  rw [hnil] at hlen
  cases hlen

theorem separateUpdates_cites {is : List Instruction} {s : Suggestion}
    (hs : s ∈ separateUpdates is) : Cites s is := by
  obtain ⟨before, i, rest, m, rfl, -, -, -, rfl⟩ := mem_separateUpdates hs
  refine Cites.mono ?_ (List.sublist_append_right before _)
  cases hpair : pairedInstall? m rest.head? with
  | none => exact Cites.of_mem (List.mem_cons_self ..) rfl
  | some next =>
    obtain ⟨tail, rfl⟩ := List.head?_eq_some_iff.1 (pairedInstall?_eq_some hpair).1
    refine ⟨[i, next], List.cons_ne_nil _ _, ?_, rfl⟩
    exact ((List.nil_sublist tail).cons_cons next).cons_cons i

theorem copyOrders_cites {st : Stage} {is : List Instruction} {s : Suggestion}
    (hs : s ∈ copyOrders st is) : Cites s is := by
  obtain ⟨before, i, rest, manifest, rfl, -, hfind, rfl⟩ := mem_copyOrders hs
  refine Cites.mono ⟨[i, manifest], List.cons_ne_nil _ _, ?_, rfl⟩
    (List.sublist_append_right before _)
  exact (List.singleton_sublist.2 (List.mem_of_find?_eq_some hfind)).cons_cons i

theorem lateWorkdirs_cites {st : Stage} {seen : Bool} {is : List Instruction} {s : Suggestion}
    (hs : s ∈ lateWorkdirs st seen is) : Cites s is := by
  obtain ⟨i, hi, -, rfl⟩ := mem_lateWorkdirs hs
  exact Cites.of_mem hi rfl

theorem combineCopies_cites {st : Stage} {is b : List Instruction} (h : b ∈ copyBlocks [] is) :
    Cites (combineCopiesSuggestion st b) is := by
  obtain ⟨hlen, hsub⟩ := mem_copyBlocks h
  refine ⟨b, fun hnil => ?_, hsub, rfl⟩
  rw [hnil] at hlen
  cases hlen

/-! ## Kinds of rules -/

def stagewise : List Rule :=
  [combineInstalls, separateUpdate, copyOrder, workdirPosition, combineCopies]

def instructionwise : List Rule := [missingCleanup, preferCopy, splitLongRun, cacheMount]

theorem mem_all_cases {r : Rule} (hr : r ∈ all) :
    r ∈ stagewise ∨ r ∈ instructionwise ∨ r = considerMultiStage ∨ r = wholeContext := by
  simp only [all, stagewise, instructionwise, List.mem_cons, List.not_mem_nil, or_false] at hr ⊢
  rcases hr with h | h | h | h | h | h | h | h | h | h | h <;> simp only [h, true_or, or_true]

theorem citesStage_of_mem_stagewise {d : Dockerfile} {s : Suggestion} {r : Rule}
    (hr : r ∈ stagewise) (hs : s ∈ r.detect d) : CitesStage d s := by
  simp only [stagewise, List.mem_cons, List.not_mem_nil, or_false] at hr
  rcases hr with rfl | rfl | rfl | rfl | rfl
  · exact citesStage_of_staged (fun _ _ _ hs => repeatedInstalls_cites hs) hs
  · exact citesStage_of_staged (fun _ _ _ hs => separateUpdates_cites hs) hs
  · exact citesStage_of_staged (fun _ _ _ hs => copyOrders_cites hs) hs
  · exact citesStage_of_staged (fun _ _ _ hs => lateWorkdirs_cites hs) hs
  · refine citesStage_of_staged (fun st is s hs => ?_) hs
    obtain ⟨b, hb, rfl⟩ := List.mem_map.1 hs
    exact combineCopies_cites hb

theorem lines_of_mem_instructionwise {d : Dockerfile} {s : Suggestion} {r : Rule}
    (hr : r ∈ instructionwise) (hs : s ∈ r.detect d) :
    ∃ i ∈ d.instructions, s.lines = [i.line] := by
  have hmem : ∀ {directive : Directive} {p : Instruction → Bool} {i : Instruction},
      i ∈ (d.withDirective directive).filter p → i ∈ d.instructions := fun hi =>
    (List.mem_filter.1 (List.mem_filter.1 hi).1).1
  simp only [instructionwise, List.mem_cons, List.not_mem_nil, or_false] at hr
  rcases hr with rfl | rfl | rfl | rfl
  · obtain ⟨i, hi, hm⟩ := List.mem_filterMap.1 hs
    obtain ⟨m, -, rfl⟩ := Option.map_eq_some_iff.1 hm
    exact ⟨i, hmem hi, rfl⟩
  all_goals
    obtain ⟨i, hi, rfl⟩ := List.mem_map.1 hs
    exact ⟨i, hmem hi, rfl⟩

def buildToolRuns (d : Dockerfile) : List Instruction :=
  (d.withDirective .run).filter fun i => installedBuildTools i.command ≠ []

theorem considerMultiStage_detect (d : Dockerfile) :
    considerMultiStage.detect d =
      if d.multiStage || (buildToolRuns d).isEmpty then []
      else [multiStageSuggestion (baseOrPlaceholder d)
        ((buildToolRuns d).flatMap fun i => installedBuildTools i.command).eraseDups
        ((buildToolRuns d).map (·.line))] := rfl

theorem considerMultiStage_cites {d : Dockerfile} {s : Suggestion}
    (hs : s ∈ considerMultiStage.detect d) : d.multiStage = false ∧ Cites s d.instructions := by
  rw [considerMultiStage_detect] at hs
  split at hs
  · cases hs
  · next hcond =>
    simp only [Bool.or_eq_true, List.isEmpty_iff, not_or, Bool.not_eq_true] at hcond
    rw [List.mem_singleton.1 hs]
    exact ⟨hcond.1, _, hcond.2, List.filter_sublist.trans List.filter_sublist, rfl⟩

theorem wholeContext_cites {d : Dockerfile} {s : Suggestion} (hs : s ∈ wholeContext.detect d) :
    s.code = "DFO007".toList ∧ Cites s d.instructions := by
  by_cases hcopies : (d.instructions.filter (·.copiesWholeContext)).isEmpty = true
  · rw [show wholeContext.detect d = [] from if_pos hcopies] at hs
    cases hs
  · rw [show wholeContext.detect d = [_] from if_neg hcopies] at hs
    rw [List.mem_singleton.1 hs]
    exact ⟨rfl, _, by simpa using hcopies, List.filter_sublist, rfl⟩

/-! ## All rules -/

theorem mem_runAll {skip : Text → Bool} {d : Dockerfile} {s : Suggestion} :
    s ∈ runAll skip d ↔ ∃ r ∈ all, skip r.code = false ∧ s ∈ r.detect d := by
  unfold runAll sortBySeverity
  rw [List.mem_mergeSort, List.mem_flatMap]
  simp only [List.mem_filter, Bool.not_eq_true', and_assoc]

section
variable {is : List Instruction} {s : Suggestion}

theorem exists_stage_of_mem {i : Instruction} (hi : i ∈ is) :
    ∃ st ∈ (Dockerfile.ofInstructions is).stages,
      i ∈ (Dockerfile.ofInstructions is).stageInstructions st := by
  rw [← Dockerfile.flatMap_stageInstructions_ofInstructions is] at hi
  exact List.mem_flatMap.1 hi

/-- With one stage, to cite instructions is to cite within it. -/
theorem citesStage_of_single (hsingle : (Dockerfile.ofInstructions is).multiStage = false)
    (h : Cites s is) : CitesStage (Dockerfile.ofInstructions is) s := by
  have hlen : (Stage.ofInstructions is).length = 1 := by
    have h1 : ¬ 1 < (Stage.ofInstructions is).length := of_decide_eq_false hsingle
    have h2 := List.length_pos_iff.2 (Stage.ofInstructions_ne_nil is)
    omega
  obtain ⟨st, hst⟩ := List.length_eq_one_iff.1 hlen
  have hwhole := Dockerfile.flatMap_stageInstructions_ofInstructions is
  rw [hst, List.flatMap_singleton] at hwhole
  refine ⟨st, ?_, ?_⟩
  · show st ∈ Stage.ofInstructions is
    rw [hst]
    exact List.mem_singleton_self st
  · rw [hwhole]
    exact h

/-- Every suggestion cites instructions, and those of every rule but one cite within a stage. -/
theorem cites_of_mem_runAll {skip : Text → Bool}
    (hs : s ∈ runAll skip (Dockerfile.ofInstructions is)) :
    Cites s is ∧ (s.code ≠ "DFO007".toList → CitesStage (Dockerfile.ofInstructions is) s) := by
  have hall : CitesStage (Dockerfile.ofInstructions is) s → Cites s is := by
    rintro ⟨st, -, h⟩
    exact h.mono (Dockerfile.stageInstructions_sublist _ _)
  obtain ⟨r, hr, -, hs⟩ := mem_runAll.1 hs
  rcases mem_all_cases hr with hr | hr | rfl | rfl
  · have h := citesStage_of_mem_stagewise hr hs
    exact ⟨hall h, fun _ => h⟩
  · obtain ⟨i, hi, hlines⟩ := lines_of_mem_instructionwise hr hs
    obtain ⟨st, hst, hi⟩ := exists_stage_of_mem hi
    have h : CitesStage (Dockerfile.ofInstructions is) s := ⟨st, hst, Cites.of_mem hi hlines⟩
    exact ⟨hall h, fun _ => h⟩
  · obtain ⟨hsingle, h⟩ := considerMultiStage_cites hs
    exact ⟨h, fun _ => citesStage_of_single hsingle h⟩
  · obtain ⟨hcode, h⟩ := wholeContext_cites hs
    exact ⟨h, fun hne => absurd hcode hne⟩

end

end Rule

/-! ## Reports -/

/-- A suggestion that cites an instruction of a text is placed in a stage. -/
theorem Report.placement_ne_none {t : Text} {r : Report} (hr : r.dockerfile = Dockerfile.parse t)
    {s : Suggestion} (hs : Cites s r.dockerfile.instructions) : r.placement s ≠ none := by
  obtain ⟨line, more, hlines⟩ := List.exists_cons_of_ne_nil hs.lines_ne_nil
  obtain ⟨i, hi, hline⟩ := hs.exists_mem (hlines ▸ List.mem_cons_self ..)
  rw [hr] at hi
  obtain ⟨st, hst, hmem⟩ := Rule.exists_stage_of_mem hi
  have htiles := Stage.ofInstructions_tiles (Dockerfile.parse t).instructions
  have hstage : r.dockerfile.stageForLine line = some st := by
    rw [hr, ← hline]
    exact Dockerfile.stageForLine_eq htiles (Dockerfile.pairwise_line_parse t) hst hmem
  have hindex : st.index < r.dockerfile.stages.length := by
    obtain ⟨k, hk⟩ := List.mem_iff_getElem?.1 hst
    obtain ⟨hlt, -⟩ := List.getElem?_eq_some_iff.1 hk
    rw [hr, htiles.index_eq hk, Nat.zero_add]
    exact hlt
  have hplace : r.placement s = some st.index := by
    unfold placement
    rw [hlines, List.head?_cons]
    show (r.dockerfile.stageForLine line).bind _ = _
    rw [hstage]
    exact if_pos hindex
  rw [hplace]
  exact Option.some_ne_none _

/-- Every suggestion is anchored in the text: it cites instructions, each on a line of its own and
in order, and all in one stage unless it is about the whole context. -/
theorem analyze_anchored (ignore : List Text) (t : Text) :
    (∀ s ∈ (analyze ignore t).suggestions,
      s.lines ≠ [] ∧ s.lines.Pairwise (· < ·) ∧
      (∀ line ∈ s.lines, ∃ i ∈ (Dockerfile.parse t).instructions, i.line = line) ∧
      (s.code ≠ "DFO007".toList → ∃ st ∈ (Dockerfile.parse t).stages, ∀ line ∈ s.lines,
        (∃ i ∈ (Dockerfile.parse t).stageInstructions st, i.line = line) ∧
          (Dockerfile.parse t).stageForLine line = some st)) ∧
    ∀ min, ∀ g ∈ (analyze ignore t).byStage min, g.stage ≠ none := by
  have hcites : ∀ s ∈ (analyze ignore t).suggestions,
      Cites s (Dockerfile.parse t).instructions ∧
        (s.code ≠ "DFO007".toList → CitesStage (Dockerfile.parse t) s) :=
    fun s hs => Rule.cites_of_mem_runAll hs
  refine ⟨fun s hs => ?_, fun min g hg hnone => ?_⟩
  · obtain ⟨h, hstage⟩ := hcites s hs
    refine ⟨h.lines_ne_nil, h.pairwise (Dockerfile.pairwise_line_parse t),
      fun line hline => h.exists_mem hline, fun hcode => ?_⟩
    obtain ⟨st, hst, h⟩ := hstage hcode
    refine ⟨st, hst, fun line hline => ?_⟩
    obtain ⟨i, hi, rfl⟩ := h.exists_mem hline
    exact ⟨⟨i, hi, rfl⟩, Dockerfile.stageForLine_eq (Stage.ofInstructions_tiles _)
      (Dockerfile.pairwise_line_parse t) hst hi⟩
  · -- a group without a stage holds suggestions without a placement, and there are none
    obtain ⟨hg, hne⟩ := List.mem_filter.1 hg
    rcases List.mem_append.1 hg with hg | hg
    · obtain ⟨p, -, rfl⟩ := List.mem_map.1 hg
      cases hnone
    · rw [List.mem_singleton.1 hg] at hne
      obtain ⟨s, hs⟩ := List.exists_mem_of_ne_nil _ (of_decide_eq_true hne)
      obtain ⟨hshown, hplace⟩ := List.mem_filter.1 hs
      exact Report.placement_ne_none rfl (hcites s (List.mem_filter.1 hshown).1).1
        (of_decide_eq_true hplace)

end LayerLint
