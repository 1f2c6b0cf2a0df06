import Mathlib.Tactic.SplitIfs
import LayerLint.Estimate

/-!
# Installed modules that are copied

The figures and the advice of an estimate both say when `node_modules` is copied into the image, and
each looks for the word on its own. The figures look at the copies of the final stage
(`countsModules_iff`). The advice looks at all its instructions (`advisesModules_iff`), so a `RUN`
or an `ENV` with the word in it is enough, and the two agree only when a copy has the word as well
(`modulesAgree_iff`).
-/

namespace LayerLint

/-! ## Words in a text -/

namespace Text

theorem anyTail_iff {p : Text → Bool} {t : Text} :
    anyTail p t = true ↔ ∃ tail, tail <:+ t ∧ p tail = true := by
  induction t with
  | nil => simp [anyTail]
  | cons c t ih =>
    rw [anyTail, Bool.or_eq_true, ih]
    constructor
    · rintro (hp | ⟨tail, htail, hp⟩)
      · exact ⟨c :: t, List.suffix_rfl, hp⟩
      · exact ⟨tail, htail.trans (List.suffix_cons c t), hp⟩
    · rintro ⟨tail, htail, hp⟩
      rcases List.suffix_cons_iff.1 htail with rfl | htail
      · exact .inl hp
      · exact .inr ⟨tail, htail, hp⟩

theorem mentions_iff {needle t : Text} : mentions needle t = true ↔ needle <:+: t := by
  unfold mentions
  rw [anyTail_iff, List.infix_iff_prefix_suffix]
  simp only [List.isPrefixOf_iff_prefix, and_comm]

end Text

def Instruction.MentionsModules (i : Instruction) : Prop := "node_modules".toList <:+: i.argsText

def Dockerfile.finalInstructions (d : Dockerfile) : List Instruction :=
  (d.finalStage?.map d.stageInstructions).getD []

namespace Estimate

def modulesLabel : Text := "node_modules copied"

def modulesAdvice : Text :=
  Text.concat ["node_modules is copied from the build context; add it to .dockerignore and ",
    "install inside the image."]

def CountsModules (e : Estimate) : Prop := ∃ c ∈ e.breakdown, c.label = modulesLabel

def AdvisesModules (e : Estimate) : Prop := modulesAdvice ∈ e.recommendations

def ModulesAgree (e : Estimate) : Prop := e.AdvisesModules ↔ e.CountsModules

instance (e : Estimate) : Decidable e.ModulesAgree :=
  inferInstanceAs (Decidable (_ ∈ _ ↔ ∃ c ∈ e.breakdown, c.label = modulesLabel))

/-! ## Figures -/

section
variable {i : Instruction}

theorem label_copyContribution_eq :
    (copyContribution i).label =
      if Text.mentions "node_modules" i.argsText then modulesLabel
      else if i.copiesWholeContext then "build context"
      else if i.hasFlag "--from" then "artifacts from another stage"
      else "files" := by
  unfold copyContribution
  split_ifs <;> rfl

theorem label_copyContribution : (copyContribution i).label = modulesLabel ↔ i.MentionsModules := by
  unfold Instruction.MentionsModules
  rw [← Text.mentions_iff, label_copyContribution_eq]
  by_cases hmentions : Text.mentions "node_modules" i.argsText = true
  · rw [if_pos hmentions]
    exact iff_of_true rfl hmentions
  · rw [if_neg hmentions]
    refine iff_of_false ?_ hmentions
    split_ifs <;> decide

theorem contribution?_of_isCopyLike (h : i.isCopyLike = true) :
    contribution? i = some (copyContribution i) := by
  unfold contribution?
  rcases (Bool.or_eq_true _ _).mp h with h | h <;> rw [of_decide_eq_true h]

/-- Only a copy has the label. -/
theorem label_ne_of_not_isCopyLike (h : i.isCopyLike = false) {c : Contribution}
    (hc : contribution? i = some c) : c.label ≠ modulesLabel := by
  unfold contribution? at hc
  split at hc
  · obtain ⟨m, -, rfl⟩ := Option.map_eq_some_iff.1 hc
    show Text.concat [m.command, " install"] ≠ modulesLabel
    cases m <;> decide
  · next hcopy => simp [Instruction.isCopyLike, hcopy] at h
  · next hadd => simp [Instruction.isCopyLike, hadd] at h
  · cases hc

theorem exists_contribution?_iff :
    (∃ c, contribution? i = some c ∧ c.label = modulesLabel) ↔
      i.isCopyLike = true ∧ i.MentionsModules := by
  cases hcopy : i.isCopyLike with
  | true => simp [contribution?_of_isCopyLike hcopy, label_copyContribution]
  | false =>
    refine iff_of_false ?_ (by simp)
    rintro ⟨c, hc, hlabel⟩
    exact label_ne_of_not_isCopyLike hcopy hc hlabel

end

theorem countsModules_iff (d : Dockerfile) :
    (ofDockerfile d).CountsModules ↔
      ∃ i ∈ d.finalInstructions, i.isCopyLike = true ∧ i.MentionsModules := by
  unfold CountsModules ofDockerfile Dockerfile.finalInstructions
  cases d.finalStage? with
  | none => simp [empty]
  | some stage =>
    show (∃ c ∈ (d.stageInstructions stage).filterMap contribution?, _) ↔
      ∃ i ∈ d.stageInstructions stage, _
    simp only [← exists_contribution?_iff, List.mem_filterMap]
    constructor
    · rintro ⟨c, ⟨i, hi, hc⟩, hlabel⟩
      exact ⟨i, hi, c, hc, hlabel⟩
    · rintro ⟨i, hi, c, hc, hlabel⟩
      exact ⟨c, ⟨i, hi, hc⟩, hlabel⟩

/-! ## Advice -/

theorem mem_adviceIf {condition : Bool} {advice text : Text} :
    text ∈ adviceIf condition advice ↔ condition = true ∧ text = advice := by
  unfold adviceIf
  cases condition <;> simp

/-- The sentence is not one of the others that can be given. -/
theorem modulesAdvice_mem_advice {d : Dockerfile} {is : List Instruction} {baseImage : Text}
    {baseMb estimatedMb : Float} :
    modulesAdvice ∈ advice d is baseImage baseMb estimatedMb ↔
      (is.any fun i => Text.mentions "node_modules" i.argsText) = true := by
  have hhead : modulesAdvice.head? = some 'n' := by decide
  have hfull : ∀ rest : Text, modulesAdvice ≠ Text.concat ["`", baseImage, rest] := by
    intro rest heq
    have hmark : (Text.concat ["`", baseImage, rest]).head? = some '`' := rfl
    rw [heq, hmark] at hhead
    exact absurd hhead (by decide)
  unfold advice
  simp only [List.mem_append, mem_adviceIf, hfull, and_false, false_or]
  constructor
  · rintro (((⟨h, -⟩ | ⟨-, h⟩) | ⟨-, h⟩) | ⟨-, h⟩)
    · exact h
    · exact absurd (hhead.symm.trans (congrArg List.head? h)) (by decide)
    · exact absurd (hhead.symm.trans (congrArg List.head? h)) (by decide)
    · exact absurd (hhead.symm.trans (congrArg List.head? h)) (by decide)
  · exact fun h => .inl (.inl (.inl ⟨h, rfl⟩))

theorem advisesModules_iff (d : Dockerfile) :
    (ofDockerfile d).AdvisesModules ↔ ∃ i ∈ d.finalInstructions, i.MentionsModules := by
  unfold AdvisesModules ofDockerfile Dockerfile.finalInstructions Instruction.MentionsModules
  cases d.finalStage? with
  | none => simp [empty]
  | some stage =>
    show modulesAdvice ∈ advice d (d.stageInstructions stage) stage.baseImage _ _ ↔
      ∃ i ∈ d.stageInstructions stage, _
    rw [modulesAdvice_mem_advice, List.any_eq_true]
    simp only [Text.mentions_iff]

/-- The figures of a text have the entry for copied modules exactly when a copy of its final stage
has the word in it, and then the advice is given. The advice is given for every other instruction
with the word in it too, so both agree if and only if a copy has it whenever any instruction has. -/
theorem modulesAgree_iff (t : Text) :
    let d := Dockerfile.parse t
    ((ofDockerfile d).CountsModules ↔
        ∃ i ∈ d.finalInstructions, i.isCopyLike = true ∧ i.MentionsModules) ∧
      ((ofDockerfile d).AdvisesModules ↔ ∃ i ∈ d.finalInstructions, i.MentionsModules) ∧
      ((ofDockerfile d).CountsModules → (ofDockerfile d).AdvisesModules) ∧
      ((ofDockerfile d).ModulesAgree ↔
        ∀ i ∈ d.finalInstructions, i.MentionsModules →
          ∃ j ∈ d.finalInstructions, j.isCopyLike = true ∧ j.MentionsModules) := by
  intro d
  unfold ModulesAgree
  rw [countsModules_iff, advisesModules_iff]
  have hcopied : (∃ i ∈ d.finalInstructions, i.isCopyLike = true ∧ i.MentionsModules) →
      ∃ i ∈ d.finalInstructions, i.MentionsModules := fun ⟨i, hi, _, hmentions⟩ =>
    ⟨i, hi, hmentions⟩
  refine ⟨.rfl, .rfl, hcopied, fun hagree i hi hmentions => hagree.1 ⟨i, hi, hmentions⟩, ?_⟩
  exact fun hcopy => ⟨fun ⟨i, hi, hmentions⟩ => hcopy i hi hmentions, hcopied⟩

/-- The word stands in a command that removes the modules, and nothing is copied. -/
theorem not_modulesAgree_of_removal :
    ¬ (ofDockerfile (Dockerfile.parse
      "FROM scratch\nRUN rm -rf node_modules\n".toList)).ModulesAgree := by
  decide +kernel

end Estimate

end LayerLint
