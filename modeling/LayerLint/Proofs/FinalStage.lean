import LayerLint.Estimate
import LayerLint.Proofs.Concatenation

/-!
# Only the final stage counts

An estimate goes by the base image and the instructions of the final stage, and by whether there
are other stages at all (`Estimate.ofDockerfile_congr`). Behind a text with stages of its own, the
final stage is that of the second text with its lines moved (`exists_finalStage_append`). So nothing
of the first text shows in the estimate but its number of lines (`ofDockerfile_append_eq`).
-/

namespace LayerLint

/-- A text behind which another Dockerfile can stand: it ends with a line, leaves no continuation
open and has a stage of its own. -/
structure Dockerfile.LeadsIn (a : Text) : Prop where
  ends_line : a.getLast? = some '\n'
  closed : LogicalLine.EndsClosed a.lines
  opens_stage : ∃ i ∈ (parse a).instructions, i.directive = .from

namespace Dockerfile

theorem finalStage?_parse (t : Text) : ∃ s, (parse t).finalStage? = some s :=
  ⟨_, List.getLast?_eq_some_getLast (Stage.ofInstructions_ne_nil _)⟩

theorem multiStage_parse (t : Text) :
    (parse t).multiStage = true ↔ 1 < (parse t).stages.length := decide_eq_true_iff

section
variable {a b : Text} (ha : LeadsIn a)
  (hb : ∃ i, (parse b).instructions.head? = some i ∧ i.directive = .from)
include ha hb

/-- The final stage behind another text is that of the second text, moved. -/
theorem exists_finalStage_append :
    ∃ s s', (parse b).finalStage? = some s ∧ (parse (a ++ b)).finalStage? = some s' ∧
      s'.baseImage = s.baseImage ∧
      (parse (a ++ b)).stageInstructions s' =
        ((parse b).stageInstructions s).map (Instruction.relabel (· + a.lines.length)) := by
  obtain ⟨s, hs⟩ := finalStage?_parse b
  have hlast : (parse b).stages.getLast? = some s := hs
  have hinstructions := parse_instructions_append b (.inr ha.ends_line) ha.closed
  refine ⟨s, s.behind (parse a).stages.length a.lines.length (parse a).instructions.length, hs, ?_,
    rfl, stageInstructions_behind hinstructions _ _ s⟩
  unfold finalStage?
  rw [parse_stages_append ha.ends_line ha.closed ha.opens_stage hb, List.getLast?_append,
    List.getLast?_map, hlast]
  rfl

theorem multiStage_append : (parse (a ++ b)).multiStage = true := by
  have hfirst : 0 < (parse a).stages.length :=
    List.length_pos_iff.2 (Stage.ofInstructions_ne_nil _)
  have hsecond : 0 < (parse b).stages.length :=
    List.length_pos_iff.2 (Stage.ofInstructions_ne_nil _)
  rw [multiStage_parse, parse_stages_append ha.ends_line ha.closed ha.opens_stage hb,
    List.length_append, List.length_map]
  omega

end

end Dockerfile

namespace Estimate

theorem ofDockerfile_congr {d e : Dockerfile} {s s' : Stage} (hs : d.finalStage? = some s)
    (hs' : e.finalStage? = some s') (himage : s.baseImage = s'.baseImage)
    (his : d.stageInstructions s = e.stageInstructions s')
    (hmulti : d.multiStage = e.multiStage) : ofDockerfile d = ofDockerfile e := by
  unfold ofDockerfile
  rw [hs, hs']
  dsimp only
  unfold advice
  rw [himage, his, hmulti]

open Dockerfile

/-- The size of an image is estimated from its final stage alone: behind two texts with the same
number of lines, the same text with a stage of its own gives the same estimate, whatever the stages
in front of it hold. -/
theorem ofDockerfile_append_eq {a a' b : Text} (ha : LeadsIn a) (ha' : LeadsIn a')
    (hlines : a.lines.length = a'.lines.length)
    (hb : ∃ i, (parse b).instructions.head? = some i ∧ i.directive = .from) :
    ofDockerfile (parse (a ++ b)) = ofDockerfile (parse (a' ++ b)) := by
  obtain ⟨s, t, hs, ht, himage, his⟩ := exists_finalStage_append ha hb
  obtain ⟨s', t', hs', ht', himage', his'⟩ := exists_finalStage_append ha' hb
  obtain rfl : s = s' := Option.some.inj (hs.symm.trans hs')
  apply ofDockerfile_congr ht ht'
  · rw [himage, himage']
  · rw [his, his', hlines]
  · rw [multiStage_append ha hb, multiStage_append ha' hb]

/-- In front of the same stage stand a large image with an install and a copy of everything, its
end a comment that looks continued, and a small image with empty lines. -/
theorem ofDockerfile_append_eq_of_heavy_stage :
    let a : Text := "FROM node:18\nCOPY . .\nRUN npm install \\\n  && npm run build\n# \\\n".toList
    let a' : Text := "FROM scratch\n\n\n\n\n".toList
    let b : Text := "BOGUS\nFROM nginx:alpine\nCOPY --from=0 /app /srv\n".toList
    (parse (a ++ b)).instructions.length = 5 ∧ (parse (a' ++ b)).instructions.length = 3 ∧
      ofDockerfile (parse (a ++ b)) = ofDockerfile (parse (a' ++ b)) := by
  intro a a' b
  have hclosed : LogicalLine.EndsClosed a.lines := by
    intro line hline
    rw [← Option.some.inj hline]
    decide
  have hclosed' : LogicalLine.EndsClosed a'.lines := by
    intro line hline
    rw [← Option.some.inj hline]
    decide
  exact ⟨by decide, by decide, ofDockerfile_append_eq ⟨by decide, hclosed, by decide⟩
    ⟨by decide, hclosed', by decide⟩ (by decide) ⟨_, rfl, rfl⟩⟩

end Estimate

end LayerLint
