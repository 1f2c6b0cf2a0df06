import Mathlib.Data.List.Induction
import Mathlib.Data.List.Nodup
import LayerLint.Proofs.Chain
import LayerLint.Rule.CombineInstalls

/-!
# The table of installs

The rule about repeated installs lists `RUN`s under managers while it goes over a stage. The table
can be said without the loop: the managers in the order of their first use (`managersInOrder`), and
under each of them the `RUN`s that install with it (`installRuns`). The loop meets pairs of a `RUN`
and a manager (`installs`). One pair more puts the `RUN` behind those of its manager
(`addInstall_of_mem`) or the manager behind the others (`addInstall_of_not_mem`), and so the table
of any list of pairs has the managers of the pairs and lists the pairs of each (`foldl_addInstall`).
-/

namespace LayerLint.Rule

def installRuns (is : List Instruction) (m : PackageManager) : List Instruction :=
  (runs is).filter fun i => m.installsIn i.command

def managersInOrder (is : List Instruction) : List PackageManager :=
  ((runs is).flatMap fun i => installManagers i.command).eraseDups

theorem mem_installRuns {is : List Instruction} {m : PackageManager} {i : Instruction} :
    i ∈ installRuns is m ↔ i ∈ is ∧ i.directive = .run ∧ m.installsIn i.command = true := by
  simp only [installRuns, runs, List.mem_filter, decide_eq_true_eq, and_assoc]

theorem installRuns_sublist (is : List Instruction) (m : PackageManager) :
    (installRuns is m).Sublist is :=
  List.filter_sublist.trans List.filter_sublist

/-! ## One pair more -/

section
variable {ms : List PackageManager} {m : PackageManager} (run : Instruction)
  (runsOf : PackageManager → List Instruction)

theorem addInstall_of_not_mem (hm : m ∉ ms) :
    addInstall run m (ms.map fun k => (k, runsOf k)) =
      (ms.map fun k => (k, runsOf k)) ++ [(m, [run])] := by
  induction ms with
  | nil => rfl
  | cons k ms ih =>
    obtain ⟨hk, hms⟩ := not_or.1 (mt List.mem_cons.2 hm)
    rw [List.map_cons, addInstall, if_neg (Ne.symm hk), ih hms, List.cons_append]

theorem addInstall_of_mem (hm : m ∈ ms) (hnodup : ms.Nodup) :
    addInstall run m (ms.map fun k => (k, runsOf k)) =
      ms.map fun k => (k, if k = m then runsOf k ++ [run] else runsOf k) := by
  induction ms with
  | nil => cases hm
  | cons k ms ih =>
    obtain ⟨hk, hms⟩ := List.nodup_cons.1 hnodup
    rw [List.map_cons, List.map_cons, addInstall]
    by_cases hkm : k = m
    · subst hkm
      rw [if_pos rfl, if_pos rfl]
      refine congrArg (_ :: ·) (List.map_congr_left fun j hj => ?_)
      have hne : j ≠ k := fun h => hk (h ▸ hj)
      rw [if_neg hne]
    · rw [if_neg hkm, if_neg hkm, ih ((List.mem_cons.1 hm).resolve_left (Ne.symm hkm)) hms]

end

/-! ## The whole loop -/

theorem eraseDups_append_singleton {α : Type} [DecidableEq α] (xs : List α) (x : α) :
    (xs ++ [x]).eraseDups = if x ∈ xs then xs.eraseDups else xs.eraseDups ++ [x] := by
  rw [List.eraseDups_append]
  split
  · next h => simp [List.removeAll, h]
  · next h => simp [List.removeAll, h, List.eraseDups_cons]

theorem nodup_eraseDups {α : Type} [DecidableEq α] (xs : List α) : xs.eraseDups.Nodup := by
  induction xs using List.reverseRecOn with
  | nil => exact List.nodup_nil
  | append_singleton xs x ih =>
    rw [eraseDups_append_singleton]
    split
    · exact ih
    · next hx =>
      rw [← List.concat_eq_append]
      exact ih.concat (mt List.mem_eraseDups.1 hx)

def installs (is : List Instruction) : List (Instruction × PackageManager) :=
  (runs is).flatMap fun i => (installManagers i.command).map fun m => (i, m)

def runsUnder (pairs : List (Instruction × PackageManager)) (m : PackageManager) :
    List Instruction :=
  (pairs.filter fun p => p.2 = m).map Prod.fst

theorem runsUnder_append_singleton (pairs : List (Instruction × PackageManager))
    (p : Instruction × PackageManager) (m : PackageManager) :
    runsUnder (pairs ++ [p]) m =
      if m = p.2 then runsUnder pairs m ++ [p.1] else runsUnder pairs m := by
  unfold runsUnder
  rw [List.filter_append, List.map_append]
  by_cases h : p.2 = m
  · simp [h]
  · simp [h, Ne.symm h]

theorem runsUnder_eq_nil {pairs : List (Instruction × PackageManager)} {m : PackageManager}
    (h : m ∉ pairs.map Prod.snd) : runsUnder pairs m = [] := by
  unfold runsUnder
  rw [List.map_eq_nil_iff, List.filter_eq_nil_iff]
  intro p hp hpm
  exact h (List.mem_map.2 ⟨p, hp, of_decide_eq_true hpm⟩)

theorem foldl_addInstall (pairs : List (Instruction × PackageManager)) :
    pairs.foldl (fun table p => addInstall p.1 p.2 table) [] =
      (pairs.map Prod.snd).eraseDups.map fun m => (m, runsUnder pairs m) := by
  induction pairs using List.reverseRecOn with
  | nil => rfl
  | append_singleton pairs p ih =>
    rw [List.foldl_append, List.foldl_cons, List.foldl_nil, ih, List.map_append,
      List.map_singleton, eraseDups_append_singleton]
    split
    · next hm =>
      rw [addInstall_of_mem _ _ (List.mem_eraseDups.2 hm) (nodup_eraseDups _)]
      simp only [runsUnder_append_singleton]
    · next hm =>
      rw [addInstall_of_not_mem _ _ (mt List.mem_eraseDups.1 hm), List.map_append,
        List.map_singleton, runsUnder_append_singleton, if_pos rfl, runsUnder_eq_nil hm]
      refine congrArg (· ++ _) (List.map_congr_left fun k hk => ?_)
      have hne : k ≠ p.2 := fun h => hm (h ▸ List.mem_eraseDups.1 hk)
      rw [runsUnder_append_singleton, if_neg hne]

theorem installTable_eq_foldl (is : List Instruction) :
    installTable is = (installs is).foldl (fun table p => addInstall p.1 p.2 table) [] := by
  unfold installTable installs
  rw [List.foldl_flatMap]
  simp only [List.foldl_map]

theorem filter_installManagers (command : Text) (m : PackageManager) :
    (installManagers command).filter (· = m) = if m.installsIn command then [m] else [] := by
  have hnodup : (installManagers command).Nodup := List.Nodup.filter _ (by decide)
  rw [List.filter_eq, hnodup.count]
  simp only [mem_installManagers]
  split <;> rfl

theorem map_snd_installs (is : List Instruction) :
    (installs is).map Prod.snd = (runs is).flatMap fun i => installManagers i.command := by
  unfold installs
  rw [List.map_flatMap]
  simp only [List.map_map, Function.comp_def, List.map_id']

theorem runsUnder_installs (is : List Instruction) (m : PackageManager) :
    runsUnder (installs is) m = installRuns is m := by
  unfold runsUnder installs installRuns
  induction runs is with
  | nil => rfl
  | cons i rest ih =>
    have hone : (((installManagers i.command).map fun k => (i, k)).filter fun p => p.2 = m).map
        Prod.fst = if m.installsIn i.command then [i] else [] := by
      rw [List.filter_map, List.map_map]
      show (((installManagers i.command).filter (· = m)).map fun _ => i) = _
      rw [filter_installManagers]
      split <;> rfl
    rw [List.flatMap_cons, List.filter_append, List.map_append, ih, hone, List.filter_cons]
    split <;> rfl

theorem installTable_eq (is : List Instruction) :
    installTable is = (managersInOrder is).map fun m => (m, installRuns is m) := by
  rw [installTable_eq_foldl, foldl_addInstall, map_snd_installs, ← managersInOrder]
  simp only [runsUnder_installs]

theorem repeatedInstalls_eq (s : Stage) (is : List Instruction) :
    repeatedInstalls s is =
      ((managersInOrder is).filter fun m => 2 ≤ (installRuns is m).length).map fun m =>
        combineInstallsSuggestion s m (installRuns is m) := by
  unfold repeatedInstalls
  rw [installTable_eq, List.filter_map, List.map_map]
  rfl

theorem mem_repeatedInstalls {s : Stage} {is : List Instruction} {x : Suggestion}
    (hx : x ∈ repeatedInstalls s is) :
    ∃ m, 2 ≤ (installRuns is m).length ∧
      x = combineInstallsSuggestion s m (installRuns is m) := by
  rw [repeatedInstalls_eq] at hx
  obtain ⟨m, hm, rfl⟩ := List.mem_map.1 hx
  exact ⟨m, of_decide_eq_true (List.mem_filter.1 hm).2, rfl⟩

end LayerLint.Rule
