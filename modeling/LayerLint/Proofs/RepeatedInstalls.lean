import Mathlib.Data.List.Forall2
import Mathlib.Data.List.Induction
import LayerLint.Proofs.Chain
import LayerLint.Proofs.Citations

/-!
# Repeated installs

The rule about repeated installs lists the managers of a stage in the order of their first use. One
more instruction puts the managers that it is the first to use behind the others, in the order of
`PackageManager.all` (`managersInOrder_append`). So the list goes by the first `RUN` that uses a
manager, and by that order among those that come up in the same `RUN` (`pairwise_managersInOrder`).
Of these managers the rule reports the ones that two or more `RUN`s use, and cites all of these
`RUN`s (`combineInstalls_detect_exact`).
-/

namespace LayerLint

def Instruction.InstallsWith (i : Instruction) (m : PackageManager) : Prop :=
  i.directive = .run ∧ m ∈ installManagers i.command

instance (i : Instruction) (m : PackageManager) : Decidable (i.InstallsWith m) :=
  inferInstanceAs (Decidable (_ ∧ _))

def installsWith (m : PackageManager) (is : List Instruction) : List Instruction :=
  is.filter fun i => i.InstallsWith m

theorem eraseDups_of_nodup {α : Type} [DecidableEq α] {xs : List α} (h : xs.Nodup) :
    xs.eraseDups = xs := by
  induction xs with
  | nil => rfl
  | cons x xs ih =>
    obtain ⟨hx, hxs⟩ := List.nodup_cons.1 h
    have hkeep : (xs.filter fun y => !y == x) = xs := by
      refine List.filter_eq_self.2 fun y hy => ?_
      have hne : y ≠ x := fun heq => hx (heq ▸ hy)
      simpa using hne
    rw [List.eraseDups_cons, hkeep, ih hxs]

/-! ## The order of managers -/

def firstUse (is : List Instruction) (m : PackageManager) : Nat :=
  is.findIdx fun i => i.InstallsWith m

/-- `a` is used before `b`, or both are first used in one instruction and `a` is looked for before
`b`. -/
def UsedBefore (is : List Instruction) (a b : PackageManager) : Prop :=
  firstUse is a < firstUse is b ∨
    firstUse is a = firstUse is b ∧ PackageManager.all.idxOf a < PackageManager.all.idxOf b

theorem UsedBefore.ne {is : List Instruction} {a b : PackageManager} (h : UsedBefore is a b) :
    a ≠ b := by
  rintro rfl
  unfold UsedBefore at h
  omega

theorem PackageManager.pairwise_all :
    all.Pairwise fun a b => all.idxOf a < all.idxOf b := by
  decide

theorem firstUse_append_of_mem {is : List Instruction} {m : PackageManager}
    (h : ∃ i ∈ is, i.InstallsWith m) (js : List Instruction) :
    firstUse (is ++ js) m = firstUse is m ∧ firstUse is m < is.length := by
  have hlt : firstUse is m < is.length := List.findIdx_lt_length.2 (by simpa using h)
  refine ⟨?_, hlt⟩
  unfold firstUse at hlt ⊢
  rw [List.findIdx_append, if_pos hlt]

theorem firstUse_append_singleton {is : List Instruction} {m : PackageManager} {i : Instruction}
    (h : ¬ ∃ j ∈ is, j.InstallsWith m) (hi : i.InstallsWith m) :
    firstUse (is ++ [i]) m = is.length := by
  have hnone : is.findIdx (fun j => decide (j.InstallsWith m)) = is.length :=
    List.findIdx_eq_length.2 fun j hj => decide_eq_false fun hm => h ⟨j, hj, hm⟩
  unfold firstUse
  rw [List.findIdx_append, hnone, if_neg (Nat.lt_irrefl _), List.findIdx_cons]
  simp [hi]

namespace Rule

def managersOf (i : Instruction) : List PackageManager :=
  PackageManager.all.filter fun m => i.InstallsWith m

theorem mem_managersOf {i : Instruction} {m : PackageManager} :
    m ∈ managersOf i ↔ i.InstallsWith m := by
  simp [managersOf, PackageManager.mem_all]

theorem managersInOrder_eq_eraseDups (is : List Instruction) :
    managersInOrder is = (is.flatMap managersOf).eraseDups := by
  have hone : ∀ i : Instruction,
      managersOf i = if i.directive = .run then installManagers i.command else [] := by
    intro i
    unfold managersOf Instruction.InstallsWith
    by_cases hrun : i.directive = .run
    · rw [if_pos hrun]
      refine List.filter_congr fun m _ => ?_
      simp [hrun, mem_installManagers]
    · simp [hrun]
  have hflat : ((runs is).flatMap fun i => installManagers i.command) = is.flatMap managersOf := by
    induction is with
    | nil => rfl
    | cons i is ih =>
      rw [List.flatMap_cons, ← ih, hone]
      unfold runs
      by_cases hrun : i.directive = .run
      · rw [List.filter_cons_of_pos (by simpa using hrun), if_pos hrun, List.flatMap_cons]
      · rw [List.filter_cons_of_neg (by simpa using hrun), if_neg hrun, List.nil_append]
  unfold managersInOrder
  rw [hflat]

theorem mem_managersInOrder {is : List Instruction} {m : PackageManager} :
    m ∈ managersInOrder is ↔ ∃ i ∈ is, i.InstallsWith m := by
  simp only [managersInOrder_eq_eraseDups, List.mem_eraseDups, List.mem_flatMap, mem_managersOf]

/-- One more instruction adds the managers that it is the first to use. -/
theorem managersInOrder_append (is : List Instruction) (i : Instruction) :
    managersInOrder (is ++ [i]) =
      managersInOrder is ++ (managersOf i).filter fun m => m ∉ managersInOrder is := by
  have hnodup : (managersOf i).Nodup :=
    (PackageManager.pairwise_all.imp fun h heq => by simp [heq] at h).filter _
  have hnew : (managersOf i).removeAll (is.flatMap managersOf) =
      (managersOf i).filter fun m => m ∉ managersInOrder is := by
    unfold List.removeAll
    refine List.filter_congr fun m _ => ?_
    simp only [managersInOrder_eq_eraseDups, List.mem_eraseDups, List.elem_eq_mem, decide_not]
  rw [managersInOrder_eq_eraseDups, List.flatMap_append, List.flatMap_singleton,
    List.eraseDups_append, ← managersInOrder_eq_eraseDups, hnew,
    eraseDups_of_nodup (hnodup.filter _)]

theorem pairwise_managersInOrder (is : List Instruction) :
    (managersInOrder is).Pairwise (UsedBefore is) := by
  induction is using List.reverseRecOn with
  | nil => exact List.Pairwise.nil
  | append_singleton is i ih =>
    have hold : ∀ m ∈ managersInOrder is,
        firstUse (is ++ [i]) m = firstUse is m ∧ firstUse is m < is.length := fun m hm =>
      firstUse_append_of_mem (mem_managersInOrder.1 hm) [i]
    have hnew : ∀ m ∈ (managersOf i).filter fun m => m ∉ managersInOrder is,
        firstUse (is ++ [i]) m = is.length := by
      intro m hm
      obtain ⟨hmem, hfresh⟩ := List.mem_filter.1 hm
      refine firstUse_append_singleton (fun hused => ?_) (mem_managersOf.1 hmem)
      exact of_decide_eq_true hfresh (mem_managersInOrder.2 hused)
    rw [managersInOrder_append]
    refine List.pairwise_append.2 ⟨?_, ?_, fun a ha b hb => .inl ?_⟩
    · refine ih.imp_of_mem fun {a b} ha hb hab => ?_
      unfold UsedBefore at hab ⊢
      rw [(hold a ha).1, (hold b hb).1]
      exact hab
    · -- the managers that are new in one instruction come in the order of the search for them
      have hlooked := PackageManager.pairwise_all.sublist
        ((List.filter_sublist (p := fun m => decide (m ∉ managersInOrder is))).trans
          (List.filter_sublist (p := fun m => decide (i.InstallsWith m))))
      refine hlooked.imp_of_mem fun {a b} ha hb hab => .inr ⟨?_, hab⟩
      rw [hnew a ha, hnew b hb]
    · have := hold a ha
      have := hnew b hb
      omega

theorem installRuns_eq (is : List Instruction) (m : PackageManager) :
    installRuns is m = installsWith m is := by
  unfold installRuns runs installsWith
  rw [List.filter_filter]
  refine List.filter_congr fun i _ => ?_
  rw [Bool.eq_iff_iff]
  simp [Instruction.InstallsWith, mem_installManagers, and_comm]

/-! ## What the rule reports -/

/-- The managers that two or more of the instructions install with, each once, in the order of
their first use. -/
structure AreRepeated (is : List Instruction) (ms : List PackageManager) : Prop where
  mem_iff : ∀ m, m ∈ ms ↔ 2 ≤ (installsWith m is).length
  nodup : ms.Nodup
  ordered : ms.Pairwise (UsedBefore is)

/-- The suggestion is about the installs with the manager in the stage and cites all of them. -/
structure ReportsInstalls (d : Dockerfile) (st : Stage) (m : PackageManager) (s : Suggestion) :
    Prop where
  code : s.code = "DFO001".toList
  title : s.title = Text.concat
    [Text.ofNat (installsWith m (d.stageInstructions st)).length, " separate `", m.command,
      "` install layers in stage `", st.name, "`"]
  lines : s.lines = (installsWith m (d.stageInstructions st)).map (·.line)

theorem areRepeated_filter (is : List Instruction) :
    AreRepeated is ((managersInOrder is).filter fun m => 2 ≤ (installRuns is m).length) := by
  have hordered := (pairwise_managersInOrder is).filter
    fun m => decide (2 ≤ (installRuns is m).length)
  refine ⟨fun m => ?_, hordered.imp UsedBefore.ne, hordered⟩
  rw [List.mem_filter, decide_eq_true_eq, installRuns_eq]
  refine and_iff_right_of_imp fun htwo => ?_
  obtain ⟨i, hi⟩ := List.exists_mem_of_length_pos (Nat.lt_of_lt_of_le Nat.zero_lt_two htwo)
  obtain ⟨hmem, hinstalls⟩ := List.mem_filter.1 hi
  exact mem_managersInOrder.2 ⟨i, hmem, of_decide_eq_true hinstalls⟩

theorem combineInstalls_reports {d : Dockerfile} {st : Stage} {m : PackageManager} :
    ReportsInstalls d st m
      (combineInstallsSuggestion st m (installRuns (d.stageInstructions st) m)) := by
  rw [installRuns_eq]
  exact ⟨rfl, rfl, rfl⟩

/-- The rule reports, stage by stage, the managers with two or more installing `RUN`s in the stage
and no others: one suggestion for each, in the order of first use, which cites all of these `RUN`s
in their order. -/
theorem combineInstalls_detect_exact (d : Dockerfile) :
    ∃ found : Stage → List PackageManager,
      (∀ st ∈ d.stages, AreRepeated (d.stageInstructions st) (found st)) ∧
      StageByStage d found (ReportsInstalls d) (combineInstalls.detect d) := by
  refine ⟨_, fun st _ => areRepeated_filter (d.stageInstructions st),
    stageByStage_staged fun st _ => ?_⟩
  show List.Forall₂ _ _ (repeatedInstalls st (d.stageInstructions st))
  rw [repeatedInstalls_eq]
  exact List.forall₂_map_right_iff.2 (List.forall₂_same.2 fun m _ => combineInstalls_reports)

example : (combineInstalls.detect (Dockerfile.parse
    "RUN npm ci && apt-get install a\nRUN apt-get install b\nRUN npm ci".toList)).map (·.lines) =
      [[1, 2], [1, 3]] := by
  decide +kernel

end Rule

end LayerLint
