import Mathlib.Data.List.Forall2
import LayerLint.Proofs.Citations
import LayerLint.Proofs.Order

/-!
# Dockerfiles that correspond

`R` relates the instructions of two Dockerfiles one to one. When related instructions are alike to
the rules (`Instruction.Alike`: same directive, arguments and command), the rules find the same on
both sides, in the same order; only lines and source texts are those of the instructions of each
side (`Suggestion.Corresponds`).
-/

namespace LayerLint

open List (Forall₂)

/-- The instructions differ at most in their lines, their source texts and, unless they open a
stage, in how their arguments are written. -/
structure Instruction.Alike (i j : Instruction) : Prop where
  directive : i.directive = j.directive
  arguments : i.arguments = j.arguments
  command : i.command = j.command
  clause : i.directive = .from → i.argsText = j.argsText

/-- The stages differ at most in their start lines. -/
structure Stage.Alike (s t : Stage) : Prop where
  index : s.index = t.index
  name : s.name = t.name
  baseImage : s.baseImage = t.baseImage
  givenName : s.givenName = t.givenName
  start : s.start = t.start
  stop : s.stop = t.stop

structure Dockerfile.Corresponds (R : Instruction → Instruction → Prop) (d e : Dockerfile) :
    Prop where
  instructions : Forall₂ R d.instructions e.instructions
  stages : Forall₂ Stage.Alike d.stages e.stages
  multiStage : d.multiStage = e.multiStage

/-- The suggestions say the same about related instructions. Their snippets agree as far as the
source texts that are quoted in them do. -/
structure Suggestion.Corresponds (R : Instruction → Instruction → Prop) (s t : Suggestion) :
    Prop where
  code : s.code = t.code
  severity : s.severity = t.severity
  title : s.title = t.title
  recommendation : s.recommendation = t.recommendation
  lines : ∃ is js, Forall₂ R is js ∧ s.lines = is.map (·.line) ∧ t.lines = js.map (·.line)
  before : (∀ i j, R i j → i.raw = j.raw) → s.before = t.before
  after : (∀ i j, R i j → i.isCopyLike → i.raw = j.raw ∧ i.argsText = j.argsText) →
    s.after = t.after

/-! ## Related lists -/

section
variable {α β γ : Type} {R : α → β → Prop} {xs : List α} {ys : List β}

theorem map_eq_of_forall₂ {f : α → γ} {g : β → γ} (h : Forall₂ R xs ys)
    (hfg : ∀ x y, R x y → f x = g y) : xs.map f = ys.map g := by
  induction h with
  | nil => rfl
  | cons hxy _ ih => rw [List.map_cons, List.map_cons, hfg _ _ hxy, ih]

theorem map_eq_right_of_forall₂ {f : α → β} (h : Forall₂ R xs ys)
    (hf : ∀ x y, R x y → f x = y) : xs.map f = ys :=
  (map_eq_of_forall₂ h hf).trans (List.map_id ys)

theorem filter_forall₂ {p : α → Bool} {q : β → Bool} (h : Forall₂ R xs ys)
    (hpq : ∀ x y, R x y → p x = q y) : Forall₂ R (xs.filter p) (ys.filter q) := by
  refine List.rel_filter (fun x y hxy => ?_) h
  show p x = true ↔ q y = true
  rw [hpq x y hxy]

theorem flatMap_eq_of_forall₂ {f : α → List γ} {g : β → List γ} (h : Forall₂ R xs ys)
    (hfg : ∀ x y, R x y → f x = g y) : xs.flatMap f = ys.flatMap g := by
  rw [List.flatMap_def, List.flatMap_def, map_eq_of_forall₂ h hfg]

theorem isEmpty_eq_of_forall₂ (h : Forall₂ R xs ys) : xs.isEmpty = ys.isEmpty := by
  cases h <;> rfl

theorem all_eq_of_forall₂ {p : α → Bool} {q : β → Bool} (h : Forall₂ R xs ys)
    (hpq : ∀ x y, R x y → p x = q y) : xs.all p = ys.all q := by
  induction h with
  | nil => rfl
  | cons hxy _ ih => rw [List.all_cons, List.all_cons, hpq _ _ hxy, ih]

theorem find?_rel {p : α → Bool} {q : β → Bool} (h : Forall₂ R xs ys)
    (hpq : ∀ x y, R x y → p x = q y) :
    Option.Rel (fun x y => R x y ∧ p x = true) (xs.find? p) (ys.find? q) := by
  induction h with
  | nil => exact .none
  | @cons x y _ _ hxy _ ih =>
    rw [List.find?_cons, List.find?_cons, ← hpq x y hxy]
    split
    · next hx => exact .some ⟨hxy, hx⟩
    · exact ih

theorem head?_rel (h : Forall₂ R xs ys) : Option.Rel R xs.head? ys.head? := by
  cases h with
  | nil => exact .none
  | cons hxy _ => exact .some hxy

theorem toList_map_forall₂ {δ ε : Type} {P : δ → ε → Prop} {f : α → δ} {g : β → ε} {x : Option α}
    {y : Option β} (h : Option.Rel R x y) (hfg : ∀ a b, R a b → P (f a) (g b)) :
    Forall₂ P (x.map f).toList (y.map g).toList := by
  cases h with
  | none => exact .nil
  | some hab => exact .cons (hfg _ _ hab) .nil

end

theorem Suggestion.Corresponds.map_lines {R : Instruction → Instruction → Prop} {s t : Suggestion}
    (h : s.Corresponds R t) {f : Nat → Nat} (hf : ∀ i j, R i j → f i.line = j.line) :
    s.lines.map f = t.lines := by
  obtain ⟨is, js, hij, hs, ht⟩ := h.lines
  rw [hs, ht, List.map_map]
  exact map_eq_of_forall₂ hij hf

/-! ## What the rules read -/

namespace Instruction.Alike

variable {i j : Instruction}

theorem isCopyLike (h : i.Alike j) : i.isCopyLike = j.isCopyLike := by
  unfold Instruction.isCopyLike
  rw [h.directive]

theorem flags (h : i.Alike j) : i.flags = j.flags := by
  unfold Instruction.flags
  rw [h.arguments]

theorem positional (h : i.Alike j) : i.positional = j.positional := by
  unfold Instruction.positional
  rw [h.arguments]

theorem copySources (h : i.Alike j) : i.copySources = j.copySources := by
  unfold Instruction.copySources
  rw [h.positional]

theorem copiesWholeContext (h : i.Alike j) : i.copiesWholeContext = j.copiesWholeContext := by
  unfold Instruction.copiesWholeContext Instruction.hasFlag
  rw [h.isCopyLike, h.flags, h.copySources]

theorem hasDirective (h : i.Alike j) (directive : Directive) :
    decide (i.directive = directive) = decide (j.directive = directive) := by
  rw [h.directive]

end Instruction.Alike

/-! ## Stages -/

theorem Stage.ofFrom_alike {i j : Instruction} (h : i.argsText = j.argsText)
    (index start stop : Nat) : (ofFrom index i start stop).Alike (ofFrom index j start stop) := by
  unfold ofFrom
  rw [h]
  exact ⟨rfl, rfl, rfl, rfl, rfl, rfl⟩

section
variable {R : Instruction → Instruction → Prop} (hR : ∀ i j, R i j → i.Alike j)
  {is js : List Instruction}
include hR

theorem Stage.fromsAt_forall₂ (h : Forall₂ R is js) (k : Nat) :
    Forall₂ (fun p q => p.1 = q.1 ∧ R p.2 q.2 ∧ p.2.directive = .from)
      (fromsAt k is) (fromsAt k js) := by
  induction h generalizing k with
  | nil => exact .nil
  | @cons i j _ _ hij _ ih =>
    rw [fromsAt_cons, fromsAt_cons, ← (hR i j hij).directive]
    split
    · next hfrom => exact .cons ⟨rfl, hij, hfrom⟩ (ih (k + 1))
    · exact ih (k + 1)

theorem Stage.ofFroms_forall₂ {ps qs : List (Nat × Instruction)}
    (h : Forall₂ (fun p q => p.1 = q.1 ∧ R p.2 q.2 ∧ p.2.directive = .from) ps qs)
    (total index start : Nat) :
    Forall₂ Stage.Alike (ofFroms total index start ps) (ofFroms total index start qs) := by
  induction h generalizing index start with
  | nil => exact .nil
  | @cons p q ps qs hpq hrest ih =>
    obtain ⟨k, i⟩ := p
    obtain ⟨l, j⟩ := q
    obtain ⟨-, hij, hfrom⟩ := hpq
    have hfirst := ofFrom_alike ((hR i j hij).clause hfrom) index start
    cases hrest with
    | nil => exact .cons (hfirst total) .nil
    | @cons p q _ _ hnext _ =>
      obtain ⟨k', _⟩ := p
      obtain ⟨l', _⟩ := q
      obtain rfl : k' = l' := hnext.1
      exact .cons (hfirst k') (ih (index + 1) k')

theorem Stage.ofInstructions_forall₂ (h : Forall₂ R is js) :
    Forall₂ Stage.Alike (ofInstructions is) (ofInstructions js) := by
  have hfroms := fromsAt_forall₂ hR h 0
  by_cases hfrom : ∃ i ∈ is, i.directive = .from
  · obtain ⟨hne, hstages⟩ := ofInstructions_eq_ofFroms hfrom
    have hfrom' : ∃ j ∈ js, j.directive = .from := by
      by_contra hno
      have hnil : fromsAt 0 js = [] := fromsAt_eq_nil.2 (by simpa using hno)
      rw [hnil, List.forall₂_nil_right_iff] at hfroms
      exact hne hfroms
    rw [hstages, (ofInstructions_eq_ofFroms hfrom').2, h.length_eq]
    exact ofFroms_forall₂ hR hfroms _ _ _
  · have hno : ∀ i ∈ is, i.directive ≠ .from := by simpa using hfrom
    rw [fromsAt_eq_nil.2 hno, List.forall₂_nil_left_iff] at hfroms
    rw [ofInstructions_of_no_from hno, ofInstructions_of_no_from (fromsAt_eq_nil.1 hfroms),
      h.length_eq]
    exact .cons ⟨rfl, rfl, rfl, rfl, rfl, rfl⟩ .nil

theorem Dockerfile.ofInstructions_corresponds (h : Forall₂ R is js) :
    Dockerfile.Corresponds R (.ofInstructions is) (.ofInstructions js) where
  instructions := h
  stages := Stage.ofInstructions_forall₂ hR h
  multiStage := by
    show decide (1 < (Stage.ofInstructions is).length) =
      decide (1 < (Stage.ofInstructions js).length)
    rw [(Stage.ofInstructions_forall₂ hR h).length_eq]

end

namespace Dockerfile.Corresponds

variable {R : Instruction → Instruction → Prop} {d e : Dockerfile}

theorem stageInstructions (h : Corresponds R d e) {s t : Stage} (hst : s.Alike t) :
    Forall₂ R (d.stageInstructions s) (e.stageInstructions t) := by
  unfold Dockerfile.stageInstructions
  rw [hst.start, hst.stop, h.instructions.length_eq]
  split
  · exact List.forall₂_take _ (List.forall₂_drop _ h.instructions)
  · exact .nil

theorem staged (h : Corresponds R d e) :
    Forall₂ (fun p q => p.1.Alike q.1 ∧ Forall₂ R p.2 q.2) d.staged e.staged := by
  unfold Dockerfile.staged
  rw [List.forall₂_map_left_iff, List.forall₂_map_right_iff]
  exact h.stages.imp fun s t hst => ⟨hst, h.stageInstructions hst⟩

theorem withDirective (h : Corresponds R d e) (hR : ∀ i j, R i j → i.Alike j)
    (directive : Directive) :
    Forall₂ R (d.withDirective directive) (e.withDirective directive) :=
  filter_forall₂ h.instructions fun i j hij => (hR i j hij).hasDirective directive

theorem baseOrPlaceholder (h : Corresponds R d e) :
    Rule.baseOrPlaceholder d = Rule.baseOrPlaceholder e := by
  have hbase : d.finalStage?.map (·.baseImage) = e.finalStage?.map (·.baseImage) := by
    unfold finalStage?
    rw [← List.getLast?_map, ← List.getLast?_map,
      map_eq_of_forall₂ h.stages fun s t hst => hst.baseImage]
  unfold Rule.baseOrPlaceholder
  rw [hbase]

end Dockerfile.Corresponds

/-! ## Rules about one stage at a time -/

namespace Rule

section
variable {R : Instruction → Instruction → Prop} (hR : ∀ i j, R i j → i.Alike j)
  {is js : List Instruction} {st st' : Stage}
include hR

theorem runs_forall₂ (h : Forall₂ R is js) : Forall₂ R (runs is) (runs js) :=
  filter_forall₂ h fun i j hij => (hR i j hij).hasDirective .run

theorem installRuns_forall₂ (h : Forall₂ R is js) (m : PackageManager) :
    Forall₂ R (installRuns is m) (installRuns js m) :=
  filter_forall₂ (runs_forall₂ hR h) fun i j hij => by rw [(hR i j hij).command]

theorem managersInOrder_eq (h : Forall₂ R is js) : managersInOrder is = managersInOrder js := by
  unfold managersInOrder
  rw [flatMap_eq_of_forall₂ (runs_forall₂ hR h) fun i j hij => by rw [(hR i j hij).command]]

theorem combineInstallsSuggestion_corresponds (hst : st.Alike st') (h : Forall₂ R is js)
    (m : PackageManager) :
    (combineInstallsSuggestion st m is).Corresponds R (combineInstallsSuggestion st' m js) where
  code := rfl
  severity := rfl
  title := by
    unfold combineInstallsSuggestion
    rw [h.length_eq, hst.name]
  recommendation := rfl
  lines := ⟨is, js, h, rfl, rfl⟩
  before hraw := by
    unfold combineInstallsSuggestion
    rw [map_eq_of_forall₂ h hraw]
  after _ := by
    unfold combineInstallsSuggestion
    rw [map_eq_of_forall₂ h fun i j hij => (hR i j hij).command]

theorem repeatedInstalls_corresponds (hst : st.Alike st') (h : Forall₂ R is js) :
    Forall₂ (Suggestion.Corresponds R) (repeatedInstalls st is) (repeatedInstalls st' js) := by
  have hlength : ∀ m, (installRuns is m).length = (installRuns js m).length := fun m =>
    (installRuns_forall₂ hR h m).length_eq
  simp only [repeatedInstalls_eq, managersInOrder_eq hR h, hlength]
  rw [List.forall₂_map_left_iff, List.forall₂_map_right_iff, List.forall₂_same]
  intro m _
  exact combineInstallsSuggestion_corresponds hR hst (installRuns_forall₂ hR h m) m

theorem pairedInstall?_rel {next next' : Option Instruction} (h : Option.Rel R next next')
    (m : PackageManager) : Option.Rel R (pairedInstall? m next) (pairedInstall? m next') := by
  cases h with
  | none => exact .none
  | @some i j hij =>
    unfold pairedInstall?
    rw [Option.filter_some, Option.filter_some, (hR i j hij).directive, (hR i j hij).command]
    split
    · exact .some hij
    · exact .none

theorem separateUpdateSuggestion_corresponds {i j : Instruction} (hij : R i j)
    {install install' : Option Instruction} (h : Option.Rel R install install')
    (m : PackageManager) :
    (separateUpdateSuggestion m i install).Corresponds R
      (separateUpdateSuggestion m j install') := by
  cases h with
  | none =>
    exact ⟨rfl, rfl, rfl, rfl, ⟨[i], [j], .cons hij .nil, rfl, rfl⟩, fun _ => rfl, fun _ => rfl⟩
  | @some k l hkl =>
    refine ⟨rfl, rfl, rfl, rfl, ⟨[i, k], [j, l], .cons hij (.cons hkl .nil), rfl, rfl⟩,
      fun hraw => ?_, fun _ => ?_⟩
    · show some (Text.concat [i.raw, "\n", k.raw]) = some (Text.concat [j.raw, "\n", l.raw])
      rw [hraw i j hij, hraw k l hkl]
    · show some (mergedRun [i.command, k.command]) = some (mergedRun [j.command, l.command])
      rw [(hR i j hij).command, (hR k l hkl).command]

theorem separateUpdatesAt_corresponds {i j : Instruction} (hij : R i j)
    {next next' : Option Instruction} (h : Option.Rel R next next') :
    Forall₂ (Suggestion.Corresponds R) (separateUpdatesAt i next) (separateUpdatesAt j next') := by
  unfold separateUpdatesAt
  rw [(hR i j hij).directive, (hR i j hij).command]
  split
  · rw [List.forall₂_map_left_iff, List.forall₂_map_right_iff, List.forall₂_same]
    intro m _
    exact separateUpdateSuggestion_corresponds hR hij (pairedInstall?_rel hR h m) m
  · exact .nil

theorem separateUpdates_corresponds (h : Forall₂ R is js) :
    Forall₂ (Suggestion.Corresponds R) (separateUpdates is) (separateUpdates js) := by
  induction h with
  | nil => exact .nil
  | cons hij hrest ih =>
    exact List.rel_append (separateUpdatesAt_corresponds hR hij (head?_rel hrest)) ih

theorem copiesManifest_eq {i j : Instruction} (hij : R i j) :
    copiesManifest i = copiesManifest j := by
  unfold copiesManifest
  rw [(hR i j hij).isCopyLike, (hR i j hij).copySources]

omit hR in
theorem copyOrderSuggestion_corresponds (hst : st.Alike st') {i j k l : Instruction} (hij : R i j)
    (hi : i.isCopyLike) (hkl : R k l) (hk : k.isCopyLike) :
    (copyOrderSuggestion st i k).Corresponds R (copyOrderSuggestion st' j l) where
  code := rfl
  severity := rfl
  title := by
    unfold copyOrderSuggestion
    rw [hst.name]
  recommendation := rfl
  lines := ⟨[i, k], [j, l], .cons hij (.cons hkl .nil), rfl, rfl⟩
  before hraw := by
    unfold copyOrderSuggestion
    rw [hraw i j hij, hraw k l hkl]
  after hsource := by
    unfold copyOrderSuggestion
    rw [(hsource i j hij hi).1, (hsource k l hkl hk).1]

theorem copyOrders_corresponds (hst : st.Alike st') (h : Forall₂ R is js) :
    Forall₂ (Suggestion.Corresponds R) (copyOrders st is) (copyOrders st' js) := by
  induction h with
  | nil => exact .nil
  | @cons i j is js hij hrest ih =>
    refine List.rel_append ?_ ih
    rw [← (hR i j hij).copiesWholeContext]
    split
    · next hwhole =>
      have hi : i.isCopyLike := by
        unfold Instruction.copiesWholeContext at hwhole
        exact (Bool.and_eq_true_iff.1 (Bool.and_eq_true_iff.1 hwhole).1).1
      refine toList_map_forall₂
        (find?_rel hrest fun k l hkl => copiesManifest_eq hR hkl) fun k l hkl => ?_
      have hk : k.isCopyLike := by
        have hmanifest := hkl.2
        unfold copiesManifest at hmanifest
        exact (Bool.and_eq_true_iff.1 hmanifest).1
      exact copyOrderSuggestion_corresponds hst hij hi hkl.1 hk
    · exact .nil

theorem lateWorkdirs_corresponds (hst : st.Alike st') (h : Forall₂ R is js) (seen : Bool) :
    Forall₂ (Suggestion.Corresponds R) (lateWorkdirs st seen is) (lateWorkdirs st' seen js) := by
  induction h generalizing seen with
  | nil => exact .nil
  | @cons i j is js hij _ ih =>
    unfold lateWorkdirs
    rw [← (hR i j hij).directive]
    split
    · exact ih true
    · exact ih true
    · refine List.rel_append ?_ (ih seen)
      split
      · refine .cons ⟨rfl, rfl, ?_, rfl, ⟨[i], [j], .cons hij .nil, rfl, rfl⟩, fun _ => rfl,
          fun _ => rfl⟩ .nil
        unfold workdirSuggestion
        rw [hst.name]
      · exact .nil
    · exact ih seen

theorem copyBlocks_forall₂ {block block' : List Instruction} (hblock : Forall₂ R block block')
    (h : Forall₂ R is js) :
    Forall₂ (Forall₂ R) (copyBlocks block is) (copyBlocks block' js) := by
  have hfinished : ∀ {b c : List Instruction}, Forall₂ R b c → Forall₂ (Forall₂ R)
      (if 2 ≤ b.length then [b] else []) (if 2 ≤ c.length then [c] else []) := by
    intro b c hbc
    rw [hbc.length_eq]
    split
    · exact .cons hbc .nil
    · exact .nil
  induction h generalizing block block' with
  | nil => exact hfinished hblock
  | @cons i j is js hij _ ih =>
    unfold copyBlocks
    rw [← (hR i j hij).directive]
    split
    · exact ih (List.rel_append hblock (.cons hij .nil))
    · exact List.rel_append (hfinished hblock) (ih .nil)

theorem mergedCopy?_eq (h : Forall₂ R is js) : mergedCopy? is = mergedCopy? js := by
  have hall : ∀ destination : Text,
      (is.all fun i => i.flags = [] && i.positional.getLast? = some destination) =
        js.all fun i => i.flags = [] && i.positional.getLast? = some destination :=
    fun destination => all_eq_of_forall₂ h fun i j hij => by
      rw [(hR i j hij).flags, (hR i j hij).positional]
  have hsources : is.flatMap (·.copySources) = js.flatMap (·.copySources) :=
    flatMap_eq_of_forall₂ h fun i j hij => (hR i j hij).copySources
  unfold mergedCopy?
  simp only [hall, hsources]
  cases h with
  | nil => rfl
  | cons hij _ => rw [List.head?_cons, List.head?_cons, Option.bind_eq_bind, Option.bind_some,
      Option.bind_eq_bind, Option.bind_some, (hR _ _ hij).positional]

theorem combineCopiesSuggestion_corresponds (hst : st.Alike st') (h : Forall₂ R is js) :
    (combineCopiesSuggestion st is).Corresponds R (combineCopiesSuggestion st' js) where
  code := rfl
  severity := rfl
  title := by
    unfold combineCopiesSuggestion
    rw [h.length_eq, hst.name]
  recommendation := rfl
  lines := ⟨is, js, h, rfl, rfl⟩
  before hraw := by
    unfold combineCopiesSuggestion
    rw [mergedCopy?_eq hR h, map_eq_of_forall₂ h hraw]
  after _ := mergedCopy?_eq hR h

theorem stagewise_corresponds {d e : Dockerfile} (h : d.Corresponds R e)
    {r : Rule} (hr : r ∈ stagewise) :
    Forall₂ (Suggestion.Corresponds R) (r.detect d) (r.detect e) := by
  simp only [stagewise, List.mem_cons, List.not_mem_nil, or_false] at hr
  rcases hr with rfl | rfl | rfl | rfl | rfl
  · exact List.rel_flatMap h.staged fun _ _ hpq => repeatedInstalls_corresponds hR hpq.1 hpq.2
  · exact List.rel_flatMap h.staged fun _ _ hpq => separateUpdates_corresponds hR hpq.2
  · exact List.rel_flatMap h.staged fun _ _ hpq => copyOrders_corresponds hR hpq.1 hpq.2
  · exact List.rel_flatMap h.staged fun _ _ hpq => lateWorkdirs_corresponds hR hpq.1 hpq.2 false
  · exact List.rel_flatMap h.staged fun _ _ hpq =>
      List.rel_map (fun _ _ hb => combineCopiesSuggestion_corresponds hR hpq.1 hb)
        (copyBlocks_forall₂ hR .nil hpq.2)

/-! ## Rules about one instruction at a time -/

theorem missingCleanupSuggestion_corresponds {i j : Instruction} (hij : R i j)
    (m : PackageManager) :
    (missingCleanupSuggestion i m).Corresponds R (missingCleanupSuggestion j m) where
  code := rfl
  severity := rfl
  title := rfl
  recommendation := rfl
  lines := ⟨[i], [j], .cons hij .nil, rfl, rfl⟩
  before hraw := congrArg some (hraw i j hij)
  after _ := by
    unfold missingCleanupSuggestion
    rw [(hR i j hij).command]

omit hR in
theorem preferCopySuggestion_corresponds {i j : Instruction} (hij : R i j) (hi : i.isCopyLike) :
    (preferCopySuggestion i).Corresponds R (preferCopySuggestion j) where
  code := rfl
  severity := rfl
  title := rfl
  recommendation := rfl
  lines := ⟨[i], [j], .cons hij .nil, rfl, rfl⟩
  before hraw := congrArg some (hraw i j hij)
  after hsource := by
    unfold preferCopySuggestion
    rw [(hsource i j hij hi).2]

theorem longRunSuggestion_corresponds {i j : Instruction} (hij : R i j) :
    (longRunSuggestion i).Corresponds R (longRunSuggestion j) where
  code := rfl
  severity := rfl
  title := by
    unfold longRunSuggestion
    rw [(hR i j hij).command]
  recommendation := rfl
  lines := ⟨[i], [j], .cons hij .nil, rfl, rfl⟩
  before _ := rfl
  after _ := rfl

theorem cacheMountSuggestion_corresponds {i j : Instruction} (hij : R i j) :
    (cacheMountSuggestion i).Corresponds R (cacheMountSuggestion j) where
  code := rfl
  severity := rfl
  title := rfl
  recommendation := rfl
  lines := ⟨[i], [j], .cons hij .nil, rfl, rfl⟩
  before hraw := congrArg some (hraw i j hij)
  after _ := by
    unfold cacheMountSuggestion
    rw [(hR i j hij).command]

theorem missingCleanup_corresponds {d e : Dockerfile} (h : d.Corresponds R e) :
    Forall₂ (Suggestion.Corresponds R) (missingCleanup.detect d) (missingCleanup.detect e) := by
  have hruns := filter_forall₂ (h.withDirective hR .run) fun i j hij =>
    show (!hasCleanup i.command) = !hasCleanup j.command by rw [(hR i j hij).command]
  refine List.rel_filterMap (fun i j hij => ?_) hruns
  rw [(hR i j hij).command]
  cases (installManagers j.command).head? with
  | none => exact .none
  | some m => exact .some (missingCleanupSuggestion_corresponds hR hij m)

theorem preferCopy_corresponds {d e : Dockerfile} (h : d.Corresponds R e) :
    Forall₂ (Suggestion.Corresponds R) (preferCopy.detect d) (preferCopy.detect e) := by
  have hadds : Forall₂ (fun i j => i.directive = .add ∧ R i j) (d.withDirective .add)
      (e.withDirective .add) :=
    List.forall₂_and_left _ _ |>.2
      ⟨fun i hi => of_decide_eq_true (List.mem_filter.1 hi).2, h.withDirective hR .add⟩
  have hsources : ∀ i j, R i j → addSources i = addSources j := fun i j hij => by
    unfold addSources
    rw [(hR i j hij).copySources, (hR i j hij).positional]
  refine List.rel_map (fun i j hij => preferCopySuggestion_corresponds hij.2 ?_)
    (filter_forall₂ hadds fun i j hij => by rw [hsources i j hij.2])
  unfold Instruction.isCopyLike
  rw [hij.1]
  rfl

theorem instructionwise_corresponds {d e : Dockerfile} (h : d.Corresponds R e)
    {r : Rule} (hr : r ∈ instructionwise) :
    Forall₂ (Suggestion.Corresponds R) (r.detect d) (r.detect e) := by
  simp only [instructionwise, List.mem_cons, List.not_mem_nil, or_false] at hr
  rcases hr with rfl | rfl | rfl | rfl
  · exact missingCleanup_corresponds hR h
  · exact preferCopy_corresponds hR h
  · exact List.rel_map (fun _ _ hij => longRunSuggestion_corresponds hR hij)
      (filter_forall₂ (h.withDirective hR .run) fun i j hij => by rw [(hR i j hij).command])
  · refine List.rel_map (fun _ _ hij => cacheMountSuggestion_corresponds hR hij)
      (filter_forall₂ (h.withDirective hR .run) fun i j hij => ?_)
    unfold hasCacheMount
    rw [(hR i j hij).command, (hR i j hij).flags]

/-! ## Rules about the whole Dockerfile -/

theorem considerMultiStage_corresponds {d e : Dockerfile} (h : d.Corresponds R e) :
    Forall₂ (Suggestion.Corresponds R) (considerMultiStage.detect d)
      (considerMultiStage.detect e) := by
  have hruns : Forall₂ R (buildToolRuns d) (buildToolRuns e) :=
    filter_forall₂ (h.withDirective hR .run) fun i j hij => by rw [(hR i j hij).command]
  have htools : ((buildToolRuns d).flatMap fun i => installedBuildTools i.command) =
      (buildToolRuns e).flatMap fun i => installedBuildTools i.command :=
    flatMap_eq_of_forall₂ hruns fun i j hij => by rw [(hR i j hij).command]
  rw [considerMultiStage_detect, considerMultiStage_detect, h.multiStage, h.baseOrPlaceholder,
    htools, isEmpty_eq_of_forall₂ hruns]
  split
  · exact .nil
  · exact .cons ⟨rfl, rfl, rfl, rfl, ⟨_, _, hruns, rfl, rfl⟩, fun _ => rfl, fun _ => rfl⟩ .nil

theorem wholeContext_corresponds {d e : Dockerfile} (h : d.Corresponds R e) :
    Forall₂ (Suggestion.Corresponds R) (wholeContext.detect d) (wholeContext.detect e) := by
  have hcopies : Forall₂ R (d.instructions.filter (·.copiesWholeContext))
      (e.instructions.filter (·.copiesWholeContext)) :=
    filter_forall₂ h.instructions fun i j hij => (hR i j hij).copiesWholeContext
  unfold wholeContext
  simp only [isEmpty_eq_of_forall₂ hcopies, h.multiStage]
  split
  · exact .nil
  · exact .cons ⟨rfl, rfl, rfl, rfl, ⟨_, _, hcopies, rfl, rfl⟩, fun _ => rfl, fun _ => rfl⟩ .nil

/-! ## All rules -/

theorem detect_corresponds {d e : Dockerfile} (h : d.Corresponds R e) {r : Rule} (hr : r ∈ all) :
    Forall₂ (Suggestion.Corresponds R) (r.detect d) (r.detect e) := by
  rcases mem_all_cases hr with hr | hr | rfl | rfl
  · exact stagewise_corresponds hR h hr
  · exact instructionwise_corresponds hR h hr
  · exact considerMultiStage_corresponds hR h
  · exact wholeContext_corresponds hR h

omit hR in
theorem sortBySeverity_corresponds {ss ts : List Suggestion}
    (h : Forall₂ (Suggestion.Corresponds R) ss ts) :
    Forall₂ (Suggestion.Corresponds R) (sortBySeverity ss) (sortBySeverity ts) := by
  have hblock : ∀ severity, Forall₂ (Suggestion.Corresponds R) (block severity ss)
      (block severity ts) := fun severity =>
    filter_forall₂ h fun s t hst => by rw [hst.severity]
  rw [sortBySeverity_eq_blocks, sortBySeverity_eq_blocks]
  exact List.rel_append (List.rel_append (hblock .high) (hblock .medium)) (hblock .low)

/-- What the rules say about a Dockerfile they say about one that corresponds to it, in the same
order. -/
theorem runAll_corresponds {d e : Dockerfile} (h : d.Corresponds R e) (skip : Text → Bool) :
    Forall₂ (Suggestion.Corresponds R) (runAll skip d) (runAll skip e) := by
  refine sortBySeverity_corresponds (List.rel_flatten ?_)
  rw [List.forall₂_map_left_iff, List.forall₂_map_right_iff, List.forall₂_same]
  exact fun r hr => detect_corresponds hR h (List.mem_filter.1 hr).1

end

end Rule

/-! ## Reports -/

theorem Report.count_eq_of_corresponds {R : Instruction → Instruction → Prop} {r r' : Report}
    (h : Forall₂ (Suggestion.Corresponds R) r.suggestions r'.suggestions) (severity : Severity) :
    r.count severity = r'.count severity := by
  unfold count
  rw [List.countP_eq_length_filter, List.countP_eq_length_filter]
  exact (filter_forall₂ h fun s t hst => by rw [hst.severity]).length_eq

theorem Report.summary_eq_of_corresponds {R : Instruction → Instruction → Prop} {r r' : Report}
    (hd : r.dockerfile.Corresponds R r'.dockerfile)
    (h : Forall₂ (Suggestion.Corresponds R) r.suggestions r'.suggestions) :
    r.summary = r'.summary := by
  unfold summary
  rw [hd.instructions.length_eq, hd.stages.length_eq, hd.multiStage, h.length_eq,
    count_eq_of_corresponds h, count_eq_of_corresponds h, count_eq_of_corresponds h]

end LayerLint
