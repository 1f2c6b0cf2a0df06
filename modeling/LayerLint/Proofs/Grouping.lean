import Mathlib.Data.List.Forall2
import Mathlib.Data.List.Nodup
import LayerLint.Output.Document
import LayerLint.Output.Terminal

/-!
# Grouping by stage

A report has a place for each stage, in order, and at the end one for suggestions without a stage
(`Report.places`). Every suggestion has one place, so the groups share out what is shown
(`Report.perm_parts`): nothing is lost, doubled or moved in a group. When the stages are numbered
by their positions, a group holds the suggestions whose first line lies in its stage
(`Report.placement_eq_iff`). A suggestion that is shown leaves a few lines on a terminal
(`Terminal.ShowsSuggestion`) and an object in a document (`Document.ShowsSuggestion`). The terminal
output goes by groups and the document by the whole list, so both show the same suggestions.
-/

namespace LayerLint

open List (Forall₂)

/-- The elements sorted by their keys, one key after the other. -/
theorem perm_flatMap_filter_key {α κ : Type} [DecidableEq κ] (key : α → κ) {keys : List κ}
    (hkeys : keys.Nodup) {xs : List α} (h : ∀ x ∈ xs, key x ∈ keys) :
    (keys.flatMap fun k => xs.filter fun x => key x = k).Perm xs := by
  induction keys generalizing xs with
  | nil =>
    rw [List.eq_nil_iff_forall_not_mem.2 fun x hx => List.not_mem_nil (h x hx)]
    exact .refl _
  | cons k keys ih =>
    obtain ⟨hk, hkeys⟩ := List.nodup_cons.1 hkeys
    have hothers : (keys.flatMap fun k' => xs.filter fun x => key x = k') =
        keys.flatMap fun k' => (xs.filter fun x => !decide (key x = k)).filter fun x =>
          key x = k' := by
      rw [List.flatMap_def, List.flatMap_def]
      refine congrArg List.flatten (List.map_congr_left fun k' hk' => ?_)
      rw [List.filter_filter]
      refine List.filter_congr fun x _ => ?_
      by_cases hx : key x = k'
      · have hne : k' ≠ k := fun heq => hk (heq ▸ hk')
        simp [hx, hne]
      · simp [hx]
    have hrest : ∀ x ∈ xs.filter fun x => !decide (key x = k), key x ∈ keys := by
      intro x hx
      obtain ⟨hx, hne⟩ := List.mem_filter.1 hx
      exact (List.mem_cons.1 (h x hx)).resolve_left (by simpa using hne)
    rw [List.flatMap_cons, hothers]
    exact ((ih hkeys hrest).append_left _).trans (List.filter_append_perm _ xs)

namespace Report

/-! ## Places -/

/-- The stages with their positions, and behind them no stage. -/
def places (r : Report) : List (Option Stage × Option Nat) :=
  (r.dockerfile.stages.zipIdx.map fun (stage, k) => (some stage, some k)) ++ [(none, none)]

/-- The group of a place, which may have no suggestions. -/
def groupAt (r : Report) (min : Severity) (place : Option Stage × Option Nat) : StageGroup where
  stage := place.1
  suggestions := (r.atLeast min).filter fun s => r.placement s = place.2

theorem byStage_eq (r : Report) (min : Severity) :
    r.byStage min = (r.places.map (r.groupAt min)).filter fun g => g.suggestions ≠ [] := by
  unfold byStage places
  rw [List.map_append, List.map_map]
  rfl

theorem mem_byStage {r : Report} {min : Severity} {g : StageGroup} :
    g ∈ r.byStage min ↔ (∃ place ∈ r.places, r.groupAt min place = g) ∧ g.suggestions ≠ [] := by
  rw [byStage_eq, List.mem_filter, List.mem_map, decide_eq_true_eq]

theorem mem_places {r : Report} {place : Option Stage × Option Nat} (h : place ∈ r.places) :
    (∃ st k, r.dockerfile.stages[k]? = some st ∧ place = (some st, some k)) ∨
      place = (none, none) := by
  rcases List.mem_append.1 h with h | h
  · obtain ⟨⟨st, k⟩, hst, rfl⟩ := List.mem_map.1 h
    exact .inl ⟨st, k, List.mem_zipIdx_iff_getElem?.1 hst, rfl⟩
  · exact .inr (List.mem_singleton.1 h)

theorem map_fst_places (r : Report) :
    r.places.map Prod.fst = r.dockerfile.stages.map some ++ [none] := by
  unfold places
  rw [List.map_append, List.map_map]
  congr 1
  conv_rhs => rw [← List.zipIdx_map_fst 0 r.dockerfile.stages, List.map_map]
  rfl

theorem map_snd_places (r : Report) :
    r.places.map Prod.snd = (List.range r.dockerfile.stages.length).map some ++ [none] := by
  unfold places
  rw [List.map_append, List.map_map]
  congr 1
  rw [List.range_eq_range', ← List.zipIdx_map_snd 0 r.dockerfile.stages, List.map_map]
  rfl

theorem nodup_snd_places (r : Report) : (r.places.map Prod.snd).Nodup := by
  rw [map_snd_places, List.nodup_append]
  refine ⟨List.nodup_range.map fun _ _ => Option.some.inj, List.nodup_singleton _, ?_⟩
  intro k hk k' hk'
  obtain ⟨n, -, rfl⟩ := List.mem_map.1 hk
  rw [List.mem_singleton.1 hk']
  exact Option.some_ne_none n

/-- A placement is a position of a stage, whatever the stages say about their index. -/
theorem placement_mem (r : Report) (s : Suggestion) : r.placement s ∈ r.places.map Prod.snd := by
  rw [map_snd_places]
  cases hplace : r.placement s with
  | none => exact List.mem_append_right _ (List.mem_singleton_self _)
  | some k =>
    refine List.mem_append_left _ (List.mem_map_of_mem (List.mem_range.2 ?_))
    unfold placement at hplace
    obtain ⟨line, -, hplace⟩ := Option.bind_eq_some_iff.1 hplace
    obtain ⟨stage, -, hplace⟩ := Option.bind_eq_some_iff.1 hplace
    split at hplace
    · next hlt =>
      rw [← Option.some.inj hplace]
      exact hlt
    · cases hplace

/-! ## Parts of what is shown -/

def partAt (r : Report) (min : Severity) (place : Option Stage × Option Nat) :
    List (Suggestion × Nat) :=
  (r.atLeast min).zipIdx.filter fun x => r.placement x.1 = place.2

theorem map_fst_partAt (r : Report) (min : Severity) (place : Option Stage × Option Nat) :
    (r.partAt min place).map Prod.fst = (r.groupAt min place).suggestions := by
  show _ = (r.atLeast min).filter _
  conv_rhs => rw [← List.zipIdx_map_fst 0 (r.atLeast min), List.filter_map]
  rfl

/-- The parts of the groups: the same suggestions, with their positions. -/
def parts (r : Report) (min : Severity) : List (List (Suggestion × Nat)) :=
  (r.places.map (r.partAt min)).filter fun part => part ≠ []

theorem map_suggestions_byStage (r : Report) (min : Severity) :
    (r.byStage min).map (·.suggestions) = (r.parts min).map (·.map Prod.fst) := by
  unfold parts
  rw [byStage_eq, List.filter_map, List.filter_map, List.map_map, List.map_map]
  have hsame : ((fun g : StageGroup => decide (g.suggestions ≠ [])) ∘ r.groupAt min) =
      (fun part => decide (part ≠ [])) ∘ r.partAt min := by
    funext place
    simp only [Function.comp_apply, ← map_fst_partAt]
    simp
  rw [hsame]
  exact List.map_congr_left fun place _ => (map_fst_partAt r min place).symm

theorem perm_parts (r : Report) (min : Severity) :
    (r.parts min).flatten.Perm (r.atLeast min).zipIdx := by
  unfold parts
  rw [List.flatten_filter_ne_nil]
  have hplaced : ∀ x ∈ (r.atLeast min).zipIdx, r.placement x.1 ∈ r.places.map Prod.snd :=
    fun x _ => r.placement_mem x.1
  have h := perm_flatMap_filter_key (fun x : Suggestion × Nat => r.placement x.1)
    r.nodup_snd_places hplaced
  rw [List.flatMap_map] at h
  exact h

theorem part_ne_nil_and_sublist {r : Report} {min : Severity} {part : List (Suggestion × Nat)}
    (h : part ∈ r.parts min) : part ≠ [] ∧ part.Sublist (r.atLeast min).zipIdx := by
  obtain ⟨h, hne⟩ := List.mem_filter.1 h
  obtain ⟨place, -, rfl⟩ := List.mem_map.1 h
  exact ⟨of_decide_eq_true hne, List.filter_sublist⟩

theorem perm_flatMap_byStage (r : Report) (min : Severity) :
    ((r.byStage min).flatMap (·.suggestions)).Perm (r.atLeast min) := by
  have h := (r.perm_parts min).map Prod.fst
  rw [List.zipIdx_map_fst, List.map_flatten, ← map_suggestions_byStage] at h
  exact h

/-! ## Stages numbered by their positions -/

def stageOf (r : Report) (s : Suggestion) : Option Stage :=
  s.lines.head?.bind r.dockerfile.stageForLine

theorem mem_stages_of_stageForLine {d : Dockerfile} {line : Nat} {st : Stage}
    (h : d.stageForLine line = some st) : st ∈ d.stages := by
  unfold Dockerfile.stageForLine at h
  obtain ⟨position, -, h⟩ := Option.bind_eq_some_iff.1 h
  exact List.mem_of_find?_eq_some h

section
variable {r : Report}
  (hindex : ∀ (k : Nat) (st : Stage), r.dockerfile.stages[k]? = some st → st.index = k)
include hindex

/-- A stage is found again at its index. -/
theorem getElem?_index {st : Stage} (hst : st ∈ r.dockerfile.stages) :
    r.dockerfile.stages[st.index]? = some st := by
  obtain ⟨k, hk⟩ := List.mem_iff_getElem?.1 hst
  rw [hindex k st hk]
  exact hk

theorem placement_eq_map (s : Suggestion) : r.placement s = (r.stageOf s).map (·.index) := by
  unfold placement stageOf
  cases s.lines.head? with
  | none => rfl
  | some line =>
    show (r.dockerfile.stageForLine line).bind _ = _
    rw [Option.bind_some]
    cases hst : r.dockerfile.stageForLine line with
    | none => rfl
    | some st =>
      have hlt : st.index < r.dockerfile.stages.length :=
        (List.getElem?_eq_some_iff.1
          (getElem?_index hindex (mem_stages_of_stageForLine hst))).1
      exact if_pos hlt

theorem placement_eq_iff {place : Option Stage × Option Nat} (hplace : place ∈ r.places)
    (s : Suggestion) : r.placement s = place.2 ↔ r.stageOf s = place.1 := by
  rw [placement_eq_map hindex]
  rcases mem_places hplace with ⟨st, k, hst, rfl⟩ | rfl
  · constructor
    · intro h
      obtain ⟨st', hst', hk⟩ := Option.map_eq_some_iff.1 h
      obtain ⟨line, -, hline⟩ := Option.bind_eq_some_iff.1 hst'
      have hfound := getElem?_index hindex (mem_stages_of_stageForLine hline)
      rw [hk, hst] at hfound
      rw [hst', hfound]
    · intro h
      rw [h]
      exact congrArg some (hindex k st hst)
  · exact Option.map_eq_none_iff

/-- A group holds the shown suggestions of its stage, in order. -/
theorem suggestions_of_mem_byStage {min : Severity} {g : StageGroup} (hg : g ∈ r.byStage min) :
    g.suggestions = (r.atLeast min).filter fun s => r.stageOf s = g.stage := by
  obtain ⟨⟨place, hplace, rfl⟩, -⟩ := mem_byStage.1 hg
  refine List.filter_congr fun s _ => ?_
  rw [decide_eq_decide]
  exact placement_eq_iff hindex hplace s

theorem mem_group_iff {min : Severity} {s : Suggestion} (hs : s ∈ r.atLeast min)
    (stage : Option Stage) :
    (∃ g ∈ r.byStage min, g.stage = stage ∧ s ∈ g.suggestions) ↔ r.stageOf s = stage := by
  constructor
  · rintro ⟨g, hg, rfl, hmem⟩
    rw [suggestions_of_mem_byStage hindex hg] at hmem
    exact of_decide_eq_true (List.mem_filter.1 hmem).2
  · rintro rfl
    obtain ⟨g, hg, hmem⟩ := List.mem_flatMap.1 ((r.perm_flatMap_byStage min).mem_iff.2 hs)
    refine ⟨g, hg, ?_, hmem⟩
    rw [suggestions_of_mem_byStage hindex hg] at hmem
    exact (of_decide_eq_true (List.mem_filter.1 hmem).2).symm

end

end Report

/-! ## What a suggestion leaves in an output -/

namespace Terminal

def styleOf : Severity → Style
  | .high => .boldRed
  | .medium => .boldYellow
  | .low => .cyan

theorem badge_eq (colours : Bool) (s : Severity) :
    badge colours s = paint colours (styleOf s) (Text.padRight 6 (s.label.map Char.toUpper)) := by
  cases s <;> rfl

/-- A heading, and below it the lines of the snippet, further in. -/
def ShowsSnippet (colours : Bool) (heading : Text) (style : Style) (t : Text)
    (lines : List Text) : Prop :=
  lines = Text.concat ["         ", paint colours .dimmed heading] ::
    t.lines.map fun line => Text.concat ["           ", paint colours style line]

/-- The lines of a suggestion: the severity in capitals, the code, the cited lines and the title on
the first, the recommendation on the second, and the snippets below them if there are both. -/
structure ShowsSuggestion (colours : Bool) (s : Suggestion) (lines : List Text) : Prop where
  title : lines[0]? = some (Text.concat ["  ",
    paint colours (styleOf s.severity) (Text.padRight 6 (s.severity.label.map Char.toUpper)), " ",
    paint colours .dimmed s.code, " ",
    paint colours .dimmed (Text.concat ["line ", Text.join "," (s.lines.map Text.ofNat)]), " ",
    s.title])
  recommendation : lines[1]? = some (Text.concat ["         ", s.recommendation])
  length_eq : s.before = none ∨ s.after = none → lines.length = 2
  snippets : ∀ before after, s.before = some before → s.after = some after →
    ∃ old new, lines.drop 2 = old ++ new ∧ ShowsSnippet colours "before:" .red before old ∧
      ShowsSnippet colours "after:" .green after new

theorem suggestion_shows (colours : Bool) (s : Suggestion) :
    ShowsSuggestion colours s (suggestion colours s) where
  title := by
    rw [← badge_eq]
    rfl
  recommendation := rfl
  length_eq h := by
    have hnone : snippets colours s = [] := by
      unfold snippets
      split
      · next hbefore hafter => simp [hbefore, hafter] at h
      · rfl
    unfold suggestion
    rw [hnone]
    rfl
  snippets before after hbefore hafter := by
    refine ⟨_, _, ?_, rfl, rfl⟩
    show snippets colours s = _
    unfold snippets
    rw [hbefore, hafter]
    rfl

/-- The lines of a group: an empty one, the stage, and the suggestions one after the other. -/
def ShowsGroup (colours : Bool) (g : StageGroup) (lines : List Text) : Prop :=
  ∃ blocks, Forall₂ (ShowsSuggestion colours) g.suggestions blocks ∧
    lines = [] :: paint colours .bold (stageHeading g.stage) :: blocks.flatten

theorem group_shows (colours : Bool) (g : StageGroup) :
    ShowsGroup colours g (group colours g) := by
  refine ⟨g.suggestions.map (suggestion colours), ?_, rfl⟩
  rw [List.forall₂_map_right_iff]
  exact List.forall₂_same.2 fun s _ => suggestion_shows colours s

/-- The terminal output on a file shows these groups, one after the other: between a line about the
file, with another below it if there are no groups, and the totals, with the estimate and the
history below them. -/
def Shows (colours : Bool) (min : Severity) (o : FileOutput) (groups : List StageGroup)
    (output : Text) : Prop :=
  ∃ blocks, Forall₂ (ShowsGroup colours) groups blocks ∧
    output = Text.unlines (
      [Text.concat [paint colours .bold o.file, ": ",
        counted o.report.summary.totalInstructions "instruction", ", ",
        counted o.report.summary.totalStages "stage"]]
      ++ (if groups = [] then
          [Text.concat ["  No suggestions at or above ", min.label, " severity."]]
        else [])
      ++ blocks.flatten
      ++ [[], totals colours o.report.summary]
      ++ o.estimate.toList.flatMap (estimate colours)
      ++ o.history.toList.flatMap (history colours))

theorem render_shows (colours : Bool) (min : Severity) (o : FileOutput) :
    Shows colours min o (o.report.byStage min) (render colours min [o]) := by
  refine ⟨(o.report.byStage min).map (group colours), ?_, ?_⟩
  · rw [List.forall₂_map_right_iff]
    exact List.forall₂_same.2 fun g _ => group_shows colours g
  · have hrender : render colours min [o] = Text.unlines (file colours min o) := by
      show List.intercalate ['\n'] [_] = _
      rw [List.intercalate_singleton]
    rw [hrender]
    refine congrArg Text.unlines ?_
    obtain ⟨name, r, e, h⟩ := o
    cases e <;> cases h <;>
      simp only [Option.toList_some, Option.toList_none, List.flatMap_singleton,
        List.flatMap_nil] <;>
      rfl

end Terminal

namespace Document

structure ShowsSuggestion (s : Suggestion) (fields : List (Text × Json)) : Prop where
  code : fields.lookup "code".toList = some (.string s.code)
  severity : fields.lookup "severity".toList = some (.string s.severity.label)
  title : fields.lookup "title".toList = some (.string s.title)
  recommendation : fields.lookup "recommendation".toList = some (.string s.recommendation)
  lines : fields.lookup "lines".toList = some (.array (s.lines.map .nat))
  before : fields.lookup "before".toList = s.before.map .string
  after : fields.lookup "after".toList = s.after.map .string

theorem ofSuggestion_shows (s : Suggestion) :
    ∃ fields, ofSuggestion s = .object fields ∧ ShowsSuggestion s fields := by
  refine ⟨_, rfl, rfl, rfl, rfl, rfl, rfl, ?_, ?_⟩
  · cases s.before <;> cases s.after <;> rfl
  · cases s.before <;> cases s.after <;> rfl

/-- The document on a file is an array with one object, and its field for suggestions has an object
for each of these, one after the other. -/
def Shows (layout : Json.Layout) (shown : List Suggestion) (output : Text) : Prop :=
  ∃ fields objects, Forall₂ ShowsSuggestion shown objects ∧
    fields.lookup "suggestions".toList = some (.array (objects.map .object)) ∧
    output = (Json.array [.object fields]).render layout ++ ['\n']

theorem render_shows (layout : Json.Layout) (min : Severity) (o : FileOutput) :
    Shows layout (o.report.atLeast min) (render layout min [o]) := by
  choose fields hfields hshows using ofSuggestion_shows
  refine ⟨_, (o.report.atLeast min).map fields, ?_, ?_, rfl⟩
  · rw [List.forall₂_map_right_iff]
    exact List.forall₂_same.2 fun s _ => hshows s
  · rw [List.map_map]
    show some (Json.array ((o.report.atLeast min).map ofSuggestion)) = _
    rw [show ofSuggestion = Json.object ∘ fields from funext hfields]

end Document

namespace Report

/-- Grouping shares out the suggestions that are shown, each counted with its position: every group
takes some of them, in their order, and together the groups take each once. The groups follow the
stages, with at most one behind them that has no stage. When the stages are numbered by their
positions, a group has the suggestions whose first line lies in its stage. So the terminal output,
which goes by groups, shows the same suggestions as the document. -/
theorem byStage_partitions (r : Report) (min : Severity) :
    (∃ parts : List (List (Suggestion × Nat)),
      (r.byStage min).map (·.suggestions) = parts.map (·.map Prod.fst) ∧
      parts.flatten.Perm (r.atLeast min).zipIdx ∧
      ∀ part ∈ parts, part ≠ [] ∧ part.Sublist (r.atLeast min).zipIdx) ∧
    ((r.byStage min).map (·.stage)).Sublist (r.dockerfile.stages.map some ++ [none]) ∧
    ((∀ (k : Nat) (st : Stage), r.dockerfile.stages[k]? = some st → st.index = k) →
      (∀ g ∈ r.byStage min, g.suggestions = (r.atLeast min).filter fun s =>
        s.lines.head?.bind r.dockerfile.stageForLine = g.stage) ∧
      ∀ st ∈ r.dockerfile.stages, ∀ s ∈ r.atLeast min,
        (∃ g ∈ r.byStage min, g.stage = some st ∧ s ∈ g.suggestions) ↔
          s.lines.head?.bind r.dockerfile.stageForLine = some st) ∧
    ∀ colours layout file estimate history,
      Terminal.Shows colours min { file, report := r, estimate, history } (r.byStage min)
        (Terminal.render colours min [{ file, report := r, estimate, history }]) ∧
      Document.Shows layout (r.atLeast min)
        (Document.render layout min [{ file, report := r, estimate, history }]) ∧
      ((r.byStage min).flatMap (·.suggestions)).Perm (r.atLeast min) := by
  refine ⟨⟨r.parts min, r.map_suggestions_byStage min, r.perm_parts min,
    fun part hpart => part_ne_nil_and_sublist hpart⟩, ?_, fun hindex => ⟨fun g hg => ?_, ?_⟩, ?_⟩
  · rw [byStage_eq, ← map_fst_places]
    have hsub := (List.filter_sublist (p := fun g : StageGroup => decide (g.suggestions ≠ []))
      (l := r.places.map (r.groupAt min))).map (·.stage)
    rw [List.map_map] at hsub
    exact hsub
  · exact suggestions_of_mem_byStage hindex hg
  · exact fun st _ s hs => mem_group_iff hindex hs (some st)
  · intro colours layout file estimate history
    exact ⟨Terminal.render_shows colours min _, Document.render_shows layout min ⟨file, r, _, _⟩,
      r.perm_flatMap_byStage min⟩

/-- Ranges that overlap, two instructions on one line, a suggestion that is there twice, one with an
unknown line and one without lines; and the output in both forms. -/
theorem byStage_partitions_of_overlap :
    let copy (line : Nat) : Instruction :=
      { directive := .copy, raw := [], line, argsText := [], arguments := [], continued := false }
    let stage (index start stop : Nat) : Stage :=
      { index, name := "s", baseImage := [], givenName := none, startLine := 1, start, stop }
    let found (lines : List Nat) : Suggestion :=
      { code := "DFO010", severity := .low, title := "Copies", recommendation := "Merge", lines
        before := none, after := none }
    let rewritten : Suggestion :=
      { found [5] with before := some "COPY a /\nCOPY b /", after := some "COPY a b /" }
    let r : Report :=
      { dockerfile :=
          { instructions := [copy 2, copy 2, copy 5], stages := [stage 0 0 2, stage 1 1 3]
            multiStage := true, baseImages := [] }
        suggestions := [rewritten, found [2], found [9], found [], found [2]] }
    (∀ g ∈ r.byStage .low, g.suggestions = (r.atLeast .low).filter fun s =>
      s.lines.head?.bind r.dockerfile.stageForLine = g.stage) ∧
    r.byStage .low = [⟨some (stage 0 0 2), [found [2], found [2]]⟩,
      ⟨some (stage 1 1 3), [rewritten]⟩, ⟨none, [found [9], found []]⟩] ∧
    Terminal.render false .low [⟨"Dockerfile", r, none, none⟩] = Text.unlines
      ["Dockerfile: 3 instructions, 2 stages",
        "", "Stage s", "  LOW    DFO010 line 2 Copies", "         Merge",
        "  LOW    DFO010 line 2 Copies", "         Merge",
        "", "Stage s", "  LOW    DFO010 line 5 Copies", "         Merge",
        "         before:", "           COPY a /", "           COPY b /",
        "         after:", "           COPY a b /",
        "", "General", "  LOW    DFO010 line 9 Copies", "         Merge",
        "  LOW    DFO010 line  Copies", "         Merge",
        "", "5 suggestions: 5 low"] ∧
    Document.Shows .oneLine [rewritten, found [2], found [9], found [], found [2]]
      (Document.render .oneLine .low [⟨"Dockerfile", r, none, none⟩]) := by
  intro copy stage found rewritten r
  have hindex : ∀ (k : Nat) (st : Stage), r.dockerfile.stages[k]? = some st → st.index = k := by
    rintro (_ | _ | k) st hst
    · cases hst
      rfl
    · cases hst
      rfl
    · cases hst
  obtain ⟨-, -, hgroups, houtput⟩ := byStage_partitions r .low
  obtain ⟨-, hdocument, -⟩ := houtput false .oneLine "Dockerfile" none none
  exact ⟨(hgroups hindex).1, by decide, by decide +kernel, hdocument⟩

end Report

end LayerLint
