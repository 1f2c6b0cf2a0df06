import Mathlib.Data.List.Forall2
import LayerLint.Proofs.Grouping
import LayerLint.Proofs.Words

/-!
# Colours are decoration

Styles are set and reset by escape sequences, which can be taken out again (`Style.erase`). What is
left of a painted text is the text, whatever stands behind it, and that is kept when texts are put
together (`Erases`). So the lines about a file with colours are, piece by piece, those without,
and the colours can be erased from the whole output (`Terminal.erase_render`).
-/

namespace LayerLint

open List (Forall₂)

/-! ## Taking styles out -/

namespace Style

/-- The characters of the codes in a sequence. -/
def isParameter (c : Char) : Bool := Decimal.isDigit c || c = ';'

/-- What follows the sequence that the text starts with, if it starts with one: an escape, a
bracket, numbers with semicolons between them, and an `m`. -/
def afterSequence? : Text → Option Text
  | '\x1b' :: '[' :: rest =>
    match rest.dropWhile isParameter with
    | 'm' :: more => some more
    | _ => none
  | _ => none

theorem length_of_afterSequence? {t more : Text} (h : afterSequence? t = some more) :
    more.length < t.length := by
  unfold afterSequence? at h
  split at h
  · next rest =>
    split at h
    · next hdrop =>
      cases h
      have hle := (List.dropWhile_sublist isParameter (l := rest)).length_le
      rw [hdrop, List.length_cons] at hle
      simp only [List.length_cons]
      omega
    · cases h
  · cases h

/-- The text without the sequences that set and reset styles. -/
def erase (t : Text) : Text :=
  match t with
  | [] => []
  | c :: rest =>
    match _ : afterSequence? (c :: rest) with
    | some more => erase more
    | none => c :: erase rest
termination_by t.length
decreasing_by
  · exact length_of_afterSequence? ‹_›
  · exact Nat.lt_succ_self _

theorem erase_nil : erase [] = [] := by rw [erase]

theorem erase_cons {c : Char} (hc : c ≠ '\x1b') (t : Text) : erase (c :: t) = c :: erase t := by
  have hnone : afterSequence? (c :: t) = none := by
    unfold afterSequence?
    split
    · next h => exact absurd (List.cons.inj h).1 hc
    · rfl
  rw [erase]
  split
  · next h => cases hnone.symm.trans h
  · rfl

theorem erase_sequence {codes : Text} (hcodes : ∀ c ∈ codes, isParameter c = true) (t : Text) :
    erase ('\x1b' :: '[' :: (codes ++ 'm' :: t)) = erase t := by
  have hsome : afterSequence? ('\x1b' :: '[' :: (codes ++ 'm' :: t)) = some t := by
    have hdrop : (codes ++ 'm' :: t).dropWhile isParameter = 'm' :: t := by
      refine Text.dropWhile_append_of_stop hcodes fun c hc => ?_
      obtain rfl := Option.some.inj hc
      decide
    simp only [afterSequence?, hdrop]
  rw [erase]
  split
  · next h => rw [Option.some.inj (hsome.symm.trans h)]
  · next h => cases hsome.symm.trans h

-- other sequences than those for styles stay
example : erase "a\x1b[1;31mb\x1b[0m\x1b[2Kc".toList = "ab\x1b[2Kc".toList := by cbv

end Style

def NoEscape (t : Text) : Prop := '\x1b' ∉ t

instance (t : Text) : Decidable (NoEscape t) := inferInstanceAs (Decidable (_ ∉ _))

theorem noEscape_cons {c : Char} {t : Text} : NoEscape (c :: t) ↔ c ≠ '\x1b' ∧ NoEscape t := by
  unfold NoEscape
  rw [List.mem_cons, not_or, eq_comm]

theorem noEscape_append {a b : Text} : NoEscape (a ++ b) ↔ NoEscape a ∧ NoEscape b := by
  unfold NoEscape
  rw [List.mem_append, not_or]

theorem noEscape_concat {ts : List Text} : NoEscape (Text.concat ts) ↔ ∀ t ∈ ts, NoEscape t := by
  unfold NoEscape Text.concat
  simp only [List.mem_flatten, not_exists, not_and]

theorem noEscape_join {sep : Text} (hsep : NoEscape sep) {ts : List Text}
    (h : ∀ t ∈ ts, NoEscape t) : NoEscape (Text.join sep ts) := by
  intro hmem
  rcases Text.mem_join hmem with hmem | ⟨t, ht, hmem⟩
  · exact hsep hmem
  · exact h t ht hmem

/-- `Erases styled plain`: without its styles the first text is the second, whatever follows. -/
def Erases (styled plain : Text) : Prop :=
  ∀ rest, Style.erase (styled ++ rest) = plain ++ Style.erase rest

namespace Erases

theorem nil : Erases [] [] := fun _ => rfl

theorem append {a a' b b' : Text} (ha : Erases a a') (hb : Erases b b') :
    Erases (a ++ b) (a' ++ b') := by
  intro rest
  rw [List.append_assoc, ha, hb, List.append_assoc]

theorem of_noEscape {t : Text} (h : NoEscape t := by decide) : Erases t t := by
  intro rest
  induction t with
  | nil => rfl
  | cons c t ih =>
    obtain ⟨hc, ht⟩ := noEscape_cons.1 h
    rw [List.cons_append, Style.erase_cons hc, ih ht, List.cons_append]

theorem concat {ts ts' : List Text} (h : Forall₂ Erases ts ts') :
    Erases (Text.concat ts) (Text.concat ts') := by
  induction h with
  | nil => exact nil
  | cons ht _ ih => exact ht.append ih

theorem join {sep : Text} (hsep : NoEscape sep) {ts ts' : List Text} (h : Forall₂ Erases ts ts') :
    Erases (Text.join sep ts) (Text.join sep ts') := by
  induction h with
  | nil => exact nil
  | @cons a a' ts ts' ha hts ih =>
    cases hts with
    | nil =>
      rw [Text.join_singleton, Text.join_singleton]
      exact ha
    | cons =>
      rw [Text.join_cons_cons, Text.join_cons_cons]
      exact ha.append ((of_noEscape hsep).append ih)

theorem unlines {ts ts' : List Text} (h : Forall₂ Erases ts ts') :
    Erases (Text.unlines ts) (Text.unlines ts') := by
  refine concat ?_
  rw [List.forall₂_map_left_iff, List.forall₂_map_right_iff]
  exact h.imp fun a a' ha => ha.append of_noEscape

end Erases

theorem Style.afterResets_of_noEscape (again : Text) {t : Text} (h : NoEscape t) :
    afterResets again t = t := by
  induction t with
  | nil => rfl
  | cons c t ih =>
    obtain ⟨hc, ht⟩ := noEscape_cons.1 h
    rw [afterResets, ih ht]
    rintro rest rfl
    exact absurd rfl hc

theorem erases_start (s : Style) : Erases s.start [] := by
  intro rest
  have hcodes : ∀ c ∈ s.codes, Style.isParameter c = true := by
    refine List.all_eq_true.1 ?_
    cases s <;> decide
  have hstart : s.start ++ rest = '\x1b' :: '[' :: (s.codes ++ 'm' :: rest) := by
    simp [Style.start, Text.concat]
  rw [hstart, Style.erase_sequence hcodes]
  rfl

theorem erases_reset : Erases Style.reset [] := by
  intro rest
  have hcodes : ∀ c ∈ ['0'], Style.isParameter c = true := List.all_eq_true.1 (by decide)
  exact Style.erase_sequence hcodes rest

/-- A painted text is the text, once the paint is off. -/
theorem erases_paint (s : Style) {t : Text} (h : NoEscape t) :
    Erases (paint true s t) (paint false s t) := by
  show Erases (Text.concat [s.start, Style.afterResets s.start t, Style.reset]) t
  rw [Style.afterResets_of_noEscape _ h]
  have hpieces := Erases.concat
    (.cons (erases_start s) (.cons (.of_noEscape h) (.cons erases_reset .nil)))
  simpa [Text.concat] using hpieces

/-! ## Texts without escapes -/

theorem noEscape_ofNat (n : Nat) : NoEscape (Text.ofNat n) := fun hmem =>
  absurd (Nat.isDigit_of_mem_toDigits (by decide) (by decide) hmem) (by decide)

theorem noEscape_replicate {c : Char} (hc : c ≠ '\x1b') (n : Nat) :
    NoEscape (List.replicate n c) := fun hmem => hc (List.eq_of_mem_replicate hmem).symm

theorem noEscape_fixedMagnitude (places : Nat) (x : Float) :
    NoEscape (Decimal.fixedMagnitude places x) := by
  refine noEscape_append.2 ⟨noEscape_ofNat _, ?_⟩
  split
  · exact List.not_mem_nil
  · exact noEscape_cons.2 ⟨by decide, noEscape_append.2
      ⟨noEscape_replicate (by decide) _, noEscape_ofNat _⟩⟩

theorem noEscape_fixed (places : Nat) (x : Float) : NoEscape (Decimal.fixed places x) := by
  have hsign : NoEscape (Decimal.sign x) := by
    unfold Decimal.sign
    split <;> decide
  unfold Decimal.fixed
  split
  · exact noEscape_append.2 ⟨hsign, noEscape_fixedMagnitude places x⟩
  · split
    · exact noEscape_append.2 ⟨hsign, by decide⟩
    · decide

theorem noEscape_formatBytes (bytes : UInt64) : NoEscape (History.formatBytes bytes) := by
  unfold History.formatBytes
  split
  · next unit scale hfind =>
    have hunit : ∀ u ∈ History.units, NoEscape u.1 := by
      unfold History.units
      simp only [List.forall_mem_cons]
      decide
    exact noEscape_append.2 ⟨noEscape_fixed _ _, hunit _ (List.mem_of_find?_eq_some hfind)⟩
  · exact noEscape_append.2 ⟨noEscape_ofNat _, by decide⟩

theorem noEscape_padLeft {t : Text} (h : NoEscape t) (width : Nat) : NoEscape (t.padLeft width) :=
  noEscape_append.2 ⟨noEscape_replicate (by decide) _, h⟩

theorem noEscape_padRight {t : Text} (h : NoEscape t) (width : Nat) : NoEscape (t.padRight width) :=
  noEscape_append.2 ⟨h, noEscape_replicate (by decide) _⟩

/-! ## The texts of an output -/

def Stage.texts (s : Stage) : List Text := [s.name, s.baseImage]

def Suggestion.texts (s : Suggestion) : List Text :=
  [s.code, s.title, s.recommendation] ++ s.before.toList ++ s.after.toList

def Estimate.texts (e : Estimate) : List Text :=
  e.baseImage :: (e.breakdown.map (·.label) ++ e.recommendations)

def HistoryReport.texts (h : HistoryReport) : List Text :=
  h.findings.flatMap fun f => [f.layer.createdBy, f.recommendation]

def FileOutput.texts (o : FileOutput) : List Text :=
  o.file :: (o.report.dockerfile.stages.flatMap Stage.texts
    ++ o.report.suggestions.flatMap Suggestion.texts
    ++ o.estimate.toList.flatMap Estimate.texts ++ o.history.toList.flatMap HistoryReport.texts)

/-! ## The output -/

section
variable {α : Type} {l : List α}

theorem erases_map {f g : α → Text} (h : ∀ a ∈ l, Erases (f a) (g a)) :
    Forall₂ Erases (l.map f) (l.map g) := by
  rw [List.forall₂_map_left_iff, List.forall₂_map_right_iff]
  exact List.forall₂_same.2 h

theorem erases_flatMap {f g : α → List Text} (h : ∀ a ∈ l, Forall₂ Erases (f a) (g a)) :
    Forall₂ Erases (l.flatMap f) (l.flatMap g) := by
  refine List.rel_flatten ?_
  rw [List.forall₂_map_left_iff, List.forall₂_map_right_iff]
  exact List.forall₂_same.2 h

end

namespace Terminal

theorem erases_badge (s : Severity) : Erases (badge true s) (badge false s) := by
  cases s <;> exact erases_paint _ (by decide)

theorem erases_snippet {heading t : Text} (hheading : NoEscape heading) (style : Style)
    (ht : NoEscape t) :
    Forall₂ Erases (snippet true heading style t) (snippet false heading style t) := by
  refine .cons (.concat ?_) (erases_map fun line hline => .concat ?_)
  · exact .cons .of_noEscape (.cons (erases_paint _ hheading) .nil)
  · have hline : NoEscape line := fun hmem => ht (Text.mem_of_mem_lines hline hmem)
    exact .cons .of_noEscape (.cons (erases_paint _ hline) .nil)

section
variable {s : Suggestion} (h : ∀ t ∈ s.texts, NoEscape t)
include h

theorem erases_snippets : Forall₂ Erases (snippets true s) (snippets false s) := by
  unfold snippets
  split
  · next before after hbefore hafter =>
    have hbefore : NoEscape before := h _ (by simp [Suggestion.texts, hbefore])
    have hafter : NoEscape after := h _ (by simp [Suggestion.texts, hafter])
    exact List.rel_append (erases_snippet (by decide) _ hbefore)
      (erases_snippet (by decide) _ hafter)
  · exact .nil

theorem erases_suggestion : Forall₂ Erases (suggestion true s) (suggestion false s) := by
  have hcode : NoEscape s.code := h _ (by simp [Suggestion.texts])
  have htitle : NoEscape s.title := h _ (by simp [Suggestion.texts])
  have hrecommendation : NoEscape s.recommendation := h _ (by simp [Suggestion.texts])
  have hnumbers : NoEscape (Text.join "," (s.lines.map Text.ofNat)) :=
    noEscape_join (by decide) (List.forall_mem_map.2 fun n _ => noEscape_ofNat n)
  have hcited : NoEscape (Text.concat ["line ", Text.join "," (s.lines.map Text.ofNat)]) := by
    simp only [noEscape_concat, List.forall_mem_cons]
    exact ⟨by decide, hnumbers, by simp⟩
  refine List.rel_append (.cons (.concat ?_) (.cons (.concat ?_) .nil)) (erases_snippets h)
  · simp only [List.forall₂_cons]
    exact ⟨.of_noEscape, erases_badge _, .of_noEscape,
      erases_paint _ hcode, .of_noEscape, erases_paint _ hcited,
      .of_noEscape, .of_noEscape htitle, .nil⟩
  · exact .cons .of_noEscape (.cons (.of_noEscape hrecommendation) .nil)

end

theorem noEscape_stageHeading {stage : Option Stage} (h : ∀ s ∈ stage, ∀ t ∈ s.texts, NoEscape t) :
    NoEscape (stageHeading stage) := by
  cases stage with
  | none => decide
  | some s =>
    have hname : NoEscape s.name := h s rfl _ (by simp [Stage.texts])
    have hbase : NoEscape s.baseImage := h s rfl _ (by simp [Stage.texts])
    unfold stageHeading
    dsimp only
    split <;> simp only [noEscape_concat, List.forall_mem_cons]
    · exact ⟨by decide, hname, by simp⟩
    · exact ⟨by decide, hname, by decide, hbase, by decide, by simp⟩

theorem erases_group {g : StageGroup} (hstage : ∀ s ∈ g.stage, ∀ t ∈ s.texts, NoEscape t)
    (hsuggestions : ∀ s ∈ g.suggestions, ∀ t ∈ s.texts, NoEscape t) :
    Forall₂ Erases (group true g) (group false g) := by
  refine List.rel_append (.cons .nil (.cons (erases_paint _ ?_) .nil)) ?_
  · exact noEscape_stageHeading hstage
  · exact erases_flatMap fun s hs => erases_suggestion (hsuggestions s hs)

theorem noEscape_label (s : Severity) : NoEscape s.label := by cases s <;> decide

theorem noEscape_counted (n : Nat) {noun : Text} (h : NoEscape noun) :
    NoEscape (counted n noun) := by
  have hplural : NoEscape (plural n) := by
    unfold plural
    split <;> decide
  unfold counted
  simp only [noEscape_concat, List.forall_mem_cons]
  exact ⟨noEscape_ofNat n, by decide, h, hplural, by simp⟩

theorem erases_totals (s : Summary) : Erases (totals true s) (totals false s) := by
  have hcounts : ∀ t ∈ severityCounts s, NoEscape t := by
    intro t ht
    obtain ⟨severity, -, rfl⟩ := List.mem_map.1 ht
    simp only [noEscape_concat, List.forall_mem_cons]
    exact ⟨noEscape_ofNat _, by decide, noEscape_label severity, by simp⟩
  unfold totals
  split
  · exact erases_paint _ (by decide)
  · refine .of_noEscape ?_
    simp only [noEscape_concat, List.forall_mem_cons]
    exact ⟨noEscape_counted _ (by decide), by decide, noEscape_join (by decide) hcounts, by simp⟩

/-- A group shows stages and suggestions of the report. -/
theorem group_of_mem_byStage {r : Report} {min : Severity} {g : StageGroup}
    (h : g ∈ r.byStage min) :
    (∀ s ∈ g.stage, s ∈ r.dockerfile.stages) ∧ ∀ s ∈ g.suggestions, s ∈ r.suggestions := by
  obtain ⟨⟨place, hplace, rfl⟩, -⟩ := Report.mem_byStage.1 h
  refine ⟨fun s hs => ?_, fun s hs => List.mem_of_mem_filter (List.mem_of_mem_filter hs)⟩
  rcases Report.mem_places hplace with ⟨stage, k, hstage, rfl⟩ | rfl
  · cases hs
    exact List.mem_of_getElem? hstage
  · cases hs

theorem erases_report (min : Severity) {file : Text} (hfile : NoEscape file) {r : Report}
    (hstages : ∀ s ∈ r.dockerfile.stages, ∀ t ∈ s.texts, NoEscape t)
    (hsuggestions : ∀ s ∈ r.suggestions, ∀ t ∈ s.texts, NoEscape t) :
    Forall₂ Erases (report true min file r) (report false min file r) := by
  unfold report
  refine List.rel_append (List.rel_append (List.rel_append (.cons (.concat ?heading) .nil) ?none)
    ?groups) (.cons .nil (.cons (erases_totals _) .nil))
  case heading =>
    simp only [List.forall₂_cons]
    exact ⟨erases_paint _ hfile, .of_noEscape,
      .of_noEscape (noEscape_counted _ (by decide)), .of_noEscape,
      .of_noEscape (noEscape_counted _ (by decide)), .nil⟩
  case none =>
    split
    · refine .cons (.of_noEscape ?_) .nil
      simp only [noEscape_concat, List.forall_mem_cons]
      exact ⟨by decide, noEscape_label min, by decide, by simp⟩
    · exact .nil
  case groups =>
    refine erases_flatMap fun g hg => ?_
    obtain ⟨hstage, hshown⟩ := group_of_mem_byStage hg
    exact erases_group (fun s hs => hstages s (hstage s hs))
      fun s hs => hsuggestions s (hshown s hs)

theorem noEscape_contribution {c : Contribution} (h : NoEscape c.label) :
    NoEscape (contribution c) := by
  unfold contribution
  simp only [noEscape_concat, List.forall_mem_cons]
  exact ⟨by decide, noEscape_padRight (noEscape_ofNat _) _, by decide,
    noEscape_padLeft (noEscape_fixed _ _) _, by decide, h, by simp⟩

theorem erases_estimate {e : Estimate} (h : ∀ t ∈ e.texts, NoEscape t) :
    Forall₂ Erases (estimate true e) (estimate false e) := by
  have hbase : NoEscape e.baseImage := h _ (by simp [Estimate.texts])
  unfold estimate
  refine List.rel_append (List.rel_append (.cons .nil (.cons (.concat ?heading) .nil)) ?breakdown)
    ?recommendations
  case heading =>
    simp only [List.forall₂_cons]
    exact ⟨erases_paint _ (by decide), .of_noEscape,
      .of_noEscape (noEscape_fixed _ _), .of_noEscape, .of_noEscape hbase,
      .of_noEscape, .of_noEscape (noEscape_fixed _ _), .of_noEscape, .nil⟩
  case breakdown =>
    refine erases_map fun c hc => .of_noEscape (noEscape_contribution (h _ ?_))
    exact List.mem_cons_of_mem _ (List.mem_append_left _ (List.mem_map_of_mem hc))
  case recommendations =>
    refine erases_map fun t ht => .of_noEscape ?_
    have ht : NoEscape t := h t (by simp [Estimate.texts, ht])
    simp only [noEscape_concat, List.forall_mem_cons]
    exact ⟨by decide, ht, by simp⟩

theorem erases_largeLayer {f : LargeLayer} (hcreated : NoEscape f.layer.createdBy)
    (hrecommendation : NoEscape f.recommendation) :
    Forall₂ Erases (largeLayer true f) (largeLayer false f) := by
  refine .cons (.concat ?_) (.cons (.of_noEscape ?_) .nil)
  · simp only [List.forall₂_cons]
    exact ⟨.of_noEscape, erases_paint _ (noEscape_padLeft (noEscape_formatBytes _) _),
      .of_noEscape, .of_noEscape hcreated, .nil⟩
  · simp only [noEscape_concat, List.forall_mem_cons]
    exact ⟨by decide, hrecommendation, by simp⟩

theorem erases_history {h : HistoryReport} (htexts : ∀ t ∈ h.texts, NoEscape t) :
    Forall₂ Erases (history true h) (history false h) := by
  unfold history
  refine List.rel_append (.cons .nil (.cons (.concat ?heading) .nil))
    (erases_flatMap fun f hf => ?finding)
  case heading =>
    simp only [List.forall₂_cons]
    exact ⟨erases_paint _ (by decide), .of_noEscape,
      .of_noEscape (noEscape_ofNat _), .of_noEscape,
      .of_noEscape (noEscape_formatBytes _), .of_noEscape, .nil⟩
  case finding =>
    have hmem : ∀ t ∈ [f.layer.createdBy, f.recommendation], NoEscape t := fun t ht =>
      htexts t (List.mem_flatMap.2 ⟨f, hf, ht⟩)
    exact erases_largeLayer (hmem _ (by simp)) (hmem _ (by simp))

theorem erases_file (min : Severity) {o : FileOutput} (h : ∀ t ∈ o.texts, NoEscape t) :
    Forall₂ Erases (file true min o) (file false min o) := by
  unfold FileOutput.texts at h
  simp only [List.forall_mem_cons, List.forall_mem_append] at h
  obtain ⟨hfile, ⟨⟨hstages, hsuggestions⟩, hestimate⟩, hhistory⟩ := h
  refine List.rel_append (List.rel_append (erases_report min hfile ?_ ?_) ?_) ?_
  · exact fun s hs t ht => hstages t (List.mem_flatMap.2 ⟨s, hs, ht⟩)
  · exact fun s hs t ht => hsuggestions t (List.mem_flatMap.2 ⟨s, hs, ht⟩)
  · cases he : o.estimate with
    | none => exact .nil
    | some e => exact erases_estimate fun t ht => hestimate t (by simpa [he] using ht)
  · cases hh : o.history with
    | none => exact .nil
    | some h => exact erases_history fun t ht => hhistory t (by simpa [hh] using ht)

/-- Colours are decoration: when no text that is shown has an escape in it, the output with colours
is the output without them and with sequences for styles added, at any severity. -/
theorem erase_render {outputs : List FileOutput} (h : ∀ o ∈ outputs, ∀ t ∈ o.texts, NoEscape t)
    (min : Severity) : Style.erase (render true min outputs) = render false min outputs := by
  have herases : Erases (render true min outputs) (render false min outputs) :=
    .join (by decide) (erases_map fun o ho => .unlines (erases_file min (h o ho)))
  have hrest := herases []
  rwa [List.append_nil, Style.erase_nil, List.append_nil] at hrest

/-- A file with snippets, an estimate and a large layer in its history, and one without a name. -/
theorem erase_render_of_snippets :
    let merge : Suggestion :=
      { code := "DFO010".toList, severity := .low, title := "Merge".toList
        recommendation := "One COPY".toList, lines := [2, 3]
        before := some "COPY a /x/\nCOPY b /x/".toList, after := some "COPY a b /x/".toList }
    let d := Dockerfile.parse "FROM node:18 AS build\nCOPY a /x/\nCOPY b /x/\n".toList
    let e : Estimate :=
      { baseImage := "node:18".toList, baseMb := 1000.0, estimatedMb := 1002.0
        breakdown := [⟨2, "files".toList, 1.0⟩, ⟨3, "files".toList, 1.0⟩]
        recommendations := ["Use slim".toList] }
    let large : LargeLayer := ⟨⟨"a".toList, 60000000, "npm ci".toList⟩, "Omit dev".toList⟩
    let outputs : List FileOutput :=
      [⟨"Dockerfile".toList, ⟨d, [merge]⟩, some e, some ⟨60000000, 1, [large.layer], [large]⟩⟩,
        ⟨[], ⟨Dockerfile.parse [], []⟩, none, none⟩]
    (∀ o ∈ outputs, ∀ t ∈ o.texts, NoEscape t) ∧
      render true .low outputs ≠ render false .low outputs ∧
      Style.erase (render true .low outputs) = render false .low outputs := by
  intro merge d e large outputs
  have h : ∀ o ∈ outputs, ∀ t ∈ o.texts, NoEscape t := by decide +kernel
  exact ⟨h, by decide +kernel, erase_render h .low⟩

end Terminal

end LayerLint
