import Mathlib.Data.List.Nodup
import LayerLint.Proofs.Citations

/-!
# Codes

The codes of the rules differ, and a rule reports under its own code only. So the code of a
suggestion tells which rule it comes from (`mem_detect_of_mem_runAll`).
-/

namespace LayerLint.Rule

variable {d : Dockerfile} {s : Suggestion} {r r' : Rule}

theorem nodup_codes : (all.map (·.code)).Nodup := by decide

theorem eq_of_code_eq (hr : r ∈ all) (hr' : r' ∈ all) (h : r.code = r'.code) : r = r' :=
  List.inj_on_of_nodup_map nodup_codes hr hr' h

theorem code_separateUpdateSuggestion (m : PackageManager) (i : Instruction)
    (next : Option Instruction) :
    (separateUpdateSuggestion m i next).code = separateUpdate.code := by
  cases next <;> rfl

theorem code_of_mem_stagewise (hr : r ∈ stagewise) (hs : s ∈ r.detect d) : s.code = r.code := by
  simp only [stagewise, List.mem_cons, List.not_mem_nil, or_false] at hr
  rcases hr with rfl | rfl | rfl | rfl | rfl
  all_goals obtain ⟨⟨st, is⟩, -, hs⟩ := List.mem_flatMap.1 hs
  · obtain ⟨m, -, rfl⟩ := List.mem_map.1 hs
    rfl
  · obtain ⟨-, i, rest, m, -, -, -, -, rfl⟩ := mem_separateUpdates hs
    exact code_separateUpdateSuggestion m i _
  · obtain ⟨-, i, rest, manifest, -, -, -, rfl⟩ := mem_copyOrders hs
    rfl
  · obtain ⟨i, -, -, rfl⟩ := mem_lateWorkdirs hs
    rfl
  · obtain ⟨b, -, rfl⟩ := List.mem_map.1 hs
    rfl

theorem code_of_mem_instructionwise (hr : r ∈ instructionwise) (hs : s ∈ r.detect d) :
    s.code = r.code := by
  simp only [instructionwise, List.mem_cons, List.not_mem_nil, or_false] at hr
  rcases hr with rfl | rfl | rfl | rfl
  · obtain ⟨i, -, hm⟩ := List.mem_filterMap.1 hs
    obtain ⟨m, -, rfl⟩ := Option.map_eq_some_iff.1 hm
    rfl
  all_goals
    obtain ⟨i, -, rfl⟩ := List.mem_map.1 hs
    rfl

theorem code_of_mem_detect (hr : r ∈ all) (hs : s ∈ r.detect d) : s.code = r.code := by
  rcases mem_all_cases hr with hr | hr | rfl | rfl
  · exact code_of_mem_stagewise hr hs
  · exact code_of_mem_instructionwise hr hs
  · rw [considerMultiStage_detect] at hs
    split at hs
    · cases hs
    · rw [List.mem_singleton.1 hs]
      rfl
  · exact (wholeContext_cites hs).1

theorem mem_detect_of_mem_runAll {skip : Text → Bool} (hr : r ∈ all) (hs : s ∈ runAll skip d)
    (hcode : s.code = r.code) : s ∈ r.detect d := by
  obtain ⟨r', hr', -, hs⟩ := mem_runAll.1 hs
  rw [eq_of_code_eq hr hr' (hcode.symm.trans (code_of_mem_detect hr' hs))]
  exact hs

end LayerLint.Rule
