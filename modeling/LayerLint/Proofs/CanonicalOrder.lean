import LayerLint.Proofs.Codes
import LayerLint.Proofs.Order

/-!
# Canonical order

The rules discover suggestions one rule after the other (`discovered`), and a report lists them by
severity (`runAll_eq_blocks`). Since a rule reports under its own code only, leaving rules out of
the run leaves out just the suggestions with their codes (`runAll_eq_filter`). Since the gravest
come first, a cut at a severity keeps the first blocks of the report (`atLeast_analyze`,
`runAll_canonical`).
-/

namespace LayerLint

namespace Rule

/-- What the rules that are not skipped find, rule by rule in the order of the registry. -/
def discovered (skip : Text → Bool) (d : Dockerfile) : List Suggestion :=
  (all.filter fun r => !skip r.code).flatMap fun r => r.detect d

theorem runAll_eq_blocks (skip : Text → Bool) (d : Dockerfile) :
    runAll skip d =
      block .high (discovered skip d) ++ block .medium (discovered skip d) ++
        block .low (discovered skip d) :=
  sortBySeverity_eq_blocks (discovered skip d)

/-! ## Rules left out -/

theorem filter_detect {r : Rule} (hr : r ∈ all) (skip : Text → Bool) (d : Dockerfile) :
    (r.detect d).filter (fun s => !skip s.code) = if !skip r.code then r.detect d else [] := by
  have hcode : ∀ s ∈ r.detect d, (!skip s.code) = !skip r.code := fun s hs => by
    rw [code_of_mem_detect hr hs]
  rw [List.filter_congr hcode]
  split
  · next hrun => rw [hrun, List.filter_true]
  · next hskip => rw [Bool.eq_false_iff.2 hskip, List.filter_false]

theorem discovered_eq_filter (skip : Text → Bool) (d : Dockerfile) :
    discovered skip d = (discovered (fun _ => false) d).filter fun s => !skip s.code := by
  have hrun : ∀ rules : List Rule, (∀ r ∈ rules, r ∈ all) →
      ((rules.filter fun r => !skip r.code).flatMap fun r => r.detect d) =
        (rules.flatMap fun r => r.detect d).filter fun s => !skip s.code := by
    intro rules hrules
    induction rules with
    | nil => rfl
    | cons r rules ih =>
      obtain ⟨hr, hrules⟩ := List.forall_mem_cons.1 hrules
      rw [List.flatMap_cons, List.filter_append, ← ih hrules, filter_detect hr, List.filter_cons]
      split
      · rfl
      · rfl
  have hall : (all.filter fun _ => !false) = all := List.filter_true all
  unfold discovered
  rw [hrun all fun _ hr => hr, hall]

theorem block_filter (severity : Severity) (p : Suggestion → Bool) (ss : List Suggestion) :
    block severity (ss.filter p) = (block severity ss).filter p := by
  unfold block
  rw [List.filter_filter, List.filter_filter]
  exact List.filter_congr fun s _ => Bool.and_comm _ _

theorem runAll_eq_filter_skip (skip : Text → Bool) (d : Dockerfile) :
    runAll skip d = (runAll (fun _ => false) d).filter fun s => !skip s.code := by
  rw [runAll_eq_blocks, discovered_eq_filter, runAll_eq_blocks, List.filter_append,
    List.filter_append, block_filter, block_filter, block_filter]

/-- To leave out the rules that a list names is to run all of them and then leave out the
suggestions under a code that the list names; letter case does not matter. -/
theorem runAll_eq_filter (ignore : List Text) (d : Dockerfile) :
    runAll (isIgnored ignore) d =
      (runAll (isIgnored []) d).filter fun s =>
        ∀ entry ∈ ignore, entry.foldCase ≠ s.code.foldCase := by
  have hnone : isIgnored [] = fun _ => false := rfl
  rw [runAll_eq_filter_skip, hnone]
  refine List.filter_congr fun s _ => ?_
  rw [Bool.eq_iff_iff]
  simp [isIgnored, Text.sameLetters]

end Rule

/-! ## Reports -/

theorem prefix_of_filter_atLeast {ss : List Suggestion}
    (h : ss.Pairwise fun a b => a.severity.rank ≤ b.severity.rank) (min : Severity) :
    (ss.filter fun s => s.severity.atLeast min) <+: ss := by
  rw [filter_eq_takeWhile (h.imp fun {a b} hab hb => ?_)]
  · exact List.takeWhile_prefix _
  · -- nothing behind a suggestion that is cut off is any graver
    exact decide_eq_true (Nat.le_trans hab (of_decide_eq_true hb))

theorem filter_atLeast_block (min severity : Severity) (ss : List Suggestion) :
    ((Rule.block severity ss).filter fun s => s.severity.atLeast min) =
      if severity.atLeast min then Rule.block severity ss else [] := by
  have hseverity : ∀ s ∈ Rule.block severity ss,
      s.severity.atLeast min = severity.atLeast min := fun s hs => by
    rw [of_decide_eq_true (List.mem_filter.1 hs).2]
  rw [List.filter_congr hseverity]
  split
  · next hkept => rw [hkept, List.filter_true]
  · next hcut => rw [Bool.eq_false_iff.2 hcut, List.filter_false]

/-- A cut at a severity keeps the blocks of this severity and of the graver ones. -/
theorem atLeast_analyze (ignore : List Text) (t : Text) (min : Severity) :
    (analyze ignore t).atLeast min =
      (Severity.all.filter fun severity => severity.atLeast min).flatMap fun severity =>
        Rule.block severity (Rule.discovered (Rule.isIgnored ignore) (Dockerfile.parse t)) := by
  show (Rule.runAll (Rule.isIgnored ignore) (Dockerfile.parse t)).filter _ = _
  rw [Rule.runAll_eq_blocks, List.filter_append, List.filter_append, filter_atLeast_block,
    filter_atLeast_block, filter_atLeast_block]
  cases min <;> simp [Severity.all, Severity.atLeast, Severity.rank]

theorem Report.count_eq_length_block (r : Report) (severity : Severity) :
    r.count severity = (Rule.block severity r.suggestions).length :=
  List.countP_eq_length_filter

theorem Report.length_suggestions {r : Report}
    (h : r.suggestions.Pairwise fun a b => a.severity.rank ≤ b.severity.rank) :
    r.suggestions.length = r.count .high + r.count .medium + r.count .low := by
  have hlength := congrArg List.length (Rule.eq_blocks_of_pairwise h)
  rw [List.length_append, List.length_append] at hlength
  rw [count_eq_length_block, count_eq_length_block, count_eq_length_block]
  exact hlength

theorem count_analyze (ignore : List Text) (t : Text) (severity : Severity) :
    (analyze ignore t).count severity =
      (Rule.block severity
        (Rule.discovered (Rule.isIgnored ignore) (Dockerfile.parse t))).length := by
  rw [Report.count_eq_length_block]
  exact congrArg List.length (Rule.block_sortBySeverity _ _)

/-- The rules report what they discover, the high suggestions first, then the medium and then the
low ones, and within each severity in the order of discovery. So a report that is cut off at a
severity keeps its first part, up to the last suggestion of that severity, and the summary counts
the three parts. -/
theorem Rule.runAll_canonical :
    (∀ (skip : Text → Bool) (d : Dockerfile),
      runAll skip d =
        (discovered skip d).filter (fun s => s.severity = .high) ++
          (discovered skip d).filter (fun s => s.severity = .medium) ++
          (discovered skip d).filter fun s => s.severity = .low) ∧
    ∀ (ignore : List Text) (t : Text),
      let report := analyze ignore t
      let found := discovered (isIgnored ignore) (Dockerfile.parse t)
      (∀ min, report.atLeast min <+: report.suggestions ∧
        report.atLeast min = (Severity.all.filter fun severity => severity.atLeast min).flatMap
          fun severity => found.filter fun s => s.severity = severity) ∧
      report.summary.high = (found.filter fun s => s.severity = .high).length ∧
      report.summary.medium = (found.filter fun s => s.severity = .medium).length ∧
      report.summary.low = (found.filter fun s => s.severity = .low).length ∧
      report.summary.high + report.summary.medium + report.summary.low =
        report.summary.totalSuggestions := by
  refine ⟨runAll_eq_blocks, fun ignore t => ?_⟩
  have hsorted : (analyze ignore t).suggestions.Pairwise fun a b =>
      a.severity.rank ≤ b.severity.rank := pairwise_sortBySeverity _
  exact ⟨fun min => ⟨prefix_of_filter_atLeast hsorted min, atLeast_analyze ignore t min⟩,
    count_analyze ignore t .high,
    count_analyze ignore t .medium, count_analyze ignore t .low,
    (Report.length_suggestions hsorted).symm⟩

end LayerLint
