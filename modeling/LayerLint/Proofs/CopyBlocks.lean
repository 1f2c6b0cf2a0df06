import Mathlib.Data.List.Nodup
import LayerLint.Proofs.Citations

/-!
# Blocks of `COPY`s

A block is a maximal run of two or more `COPY`s that follow each other directly (`IsCopyBlock`). The
rule about consecutive `COPY`s walks through the instructions of a stage with the `COPY`s since the
last other instruction in hand (`Pending`). Where that run ends, at another instruction or at the
end of the stage, it is a block if it is long enough, and no other block starts in it
(`Pending.isCopyBlock_iff`). So the rule finds the blocks of a stage, each once and in order
(`Pending.exists_blocks`). The positions that it cites lie in the stage; with disjoint stages no
position is cited twice (`combineCopies_detect_exact`).
-/

namespace LayerLint

/-! ## Maximal runs -/

/-- The positions from `start` on and before `stop`. -/
@[ext] structure Span where
  start : Nat
  stop : Nat
  deriving DecidableEq, Repr

namespace Span

def instructions (b : Span) (is : List Instruction) : List Instruction :=
  (is.drop b.start).take (b.stop - b.start)

/-- The positions, counted from `offset`. -/
def positions (b : Span) (offset : Nat) : List Nat :=
  List.range' (offset + b.start) (b.stop - b.start)

theorem mem_positions {b : Span} {offset p : Nat} :
    p ∈ b.positions offset ↔ ∃ k, b.start ≤ k ∧ k < b.stop ∧ p = offset + k := by
  unfold positions
  rw [List.mem_range'_1]
  constructor
  · intro h
    exact ⟨p - offset, by omega, by omega, by omega⟩
  · rintro ⟨k, hlow, hhigh, rfl⟩
    omega

end Span

def CopyAt (is : List Instruction) (k : Nat) : Prop :=
  ∃ i, is[k]? = some i ∧ i.directive = .copy

def AllCopies (is : List Instruction) (b : Span) : Prop :=
  ∀ k, b.start ≤ k → k < b.stop → CopyAt is k

/-- Two or more `COPY`s that follow each other directly. -/
structure IsCopyRun (is : List Instruction) (b : Span) : Prop where
  several : b.start + 2 ≤ b.stop
  copies : AllCopies is b

/-- A run of `COPY`s that is part of no longer one. -/
structure IsCopyBlock (is : List Instruction) (b : Span) : Prop extends IsCopyRun is b where
  maximal : ∀ c, IsCopyRun is c → c.start ≤ b.start → b.stop ≤ c.stop → c = b

section
variable {is : List Instruction} {b : Span}

theorem AllCopies.extend (h : AllCopies is b) (hcopy : CopyAt is b.stop) :
    AllCopies is ⟨b.start, b.stop + 1⟩ := by
  intro k hlow hhigh
  rcases Nat.lt_or_eq_of_le (Nat.le_of_lt_succ hhigh) with hlt | rfl
  · exact h k hlow hlt
  · exact hcopy

theorem AllCopies.extend_front (h : AllCopies is b) {k : Nat} (hk : k + 1 = b.start)
    (hcopy : CopyAt is k) : AllCopies is ⟨k, b.stop⟩ := by
  intro j hlow hhigh
  rcases Nat.lt_or_eq_of_le hlow with hlt | rfl
  · exact h j (hk ▸ hlt) hhigh
  · exact hcopy

/-- A run is maximal if there is no `COPY` at either end of it. -/
theorem isCopyBlock_iff_ends : IsCopyBlock is b ↔
    IsCopyRun is b ∧ (∀ k, k + 1 = b.start → ¬ CopyAt is k) ∧ ¬ CopyAt is b.stop := by
  constructor
  · intro h
    have htwo := h.several
    refine ⟨h.toIsCopyRun, fun k hk hcopy => ?_, fun hcopy => ?_⟩
    · have hlonger : k + 2 ≤ b.stop := by omega
      have hsame := h.maximal ⟨k, b.stop⟩ ⟨hlonger, h.copies.extend_front hk hcopy⟩
        (Nat.le.intro hk) (Nat.le_refl _)
      have hstart : k = b.start := congrArg Span.start hsame
      omega
    · have hlonger : b.start + 2 ≤ b.stop + 1 := by omega
      have hsame := h.maximal ⟨b.start, b.stop + 1⟩ ⟨hlonger, h.copies.extend hcopy⟩
        (Nat.le_refl _) (Nat.le_succ _)
      have hstop : b.stop + 1 = b.stop := congrArg Span.stop hsame
      omega
  · rintro ⟨hrun, hbefore, hbehind⟩
    have htwo := hrun.several
    refine ⟨hrun, fun c hc hstart hstop => Span.ext ?_ ?_⟩
    · by_contra hne
      exact hbefore (b.start - 1) (by omega) (hc.copies _ (by omega) (by omega))
    · by_contra hne
      exact hbehind (hc.copies _ (by omega) (by omega))

end

/-! ## The walk through a stage -/

/-- The `COPY`s in front of position `b.stop`, from the last other instruction on. -/
structure Pending (is : List Instruction) (b : Span) : Prop where
  le : b.start ≤ b.stop
  copies : AllCopies is b
  opens : ∀ k, k + 1 = b.start → ¬ CopyAt is k

namespace Pending

variable {is : List Instruction} {b : Span}

theorem extend (h : Pending is b) (hcopy : CopyAt is b.stop) :
    Pending is ⟨b.start, b.stop + 1⟩ where
  le := Nat.le_succ_of_le h.le
  copies := h.copies.extend hcopy
  opens := h.opens

theorem restart (hother : ¬ CopyAt is b.stop) : Pending is ⟨b.stop + 1, b.stop + 1⟩ where
  le := Nat.le_refl _
  copies _ hlow hhigh := absurd hhigh (Nat.not_lt.2 hlow)
  opens _ hk := Nat.succ.inj hk ▸ hother

theorem instructions_extend (h : Pending is b) {i : Instruction} {rest : List Instruction}
    (hrest : is.drop b.stop = i :: rest) :
    Span.instructions ⟨b.start, b.stop + 1⟩ is = b.instructions is ++ [i] := by
  have hi : is[b.stop]? = some i := by
    rw [← List.head?_drop, hrest, List.head?_cons]
  have hle := h.le
  have hsucc : b.stop + 1 - b.start = (b.stop - b.start) + 1 := by omega
  have hget : (is.drop b.start)[b.stop - b.start]? = some i := by
    rw [List.getElem?_drop, Nat.add_sub_cancel' hle, hi]
  unfold Span.instructions
  simp only
  rw [hsucc, List.take_add_one, hget]
  rfl

/-- Where the run ends, the next block is that run if it is long enough, and starts behind it
otherwise. -/
theorem isCopyBlock_iff (h : Pending is b) (hother : ¬ CopyAt is b.stop) {c : Span} :
    IsCopyBlock is c ∧ b.start ≤ c.start ↔
      (b.start + 2 ≤ b.stop ∧ c = b) ∨ IsCopyBlock is c ∧ b.stop + 1 ≤ c.start := by
  constructor
  · rintro ⟨hc, hstart⟩
    obtain ⟨hrun, hbefore, hbehind⟩ := isCopyBlock_iff_ends.1 hc
    have htwo := hrun.several
    rcases Nat.lt_trichotomy c.start b.stop with hlt | heq | hgt
    · -- a block that starts inside the run starts with it and ends with it
      have hsame : c.start = b.start := by
        by_contra hne
        exact hbefore (c.start - 1) (by omega) (h.copies _ (by omega) (by omega))
      have hend : c.stop = b.stop := by
        rcases Nat.lt_trichotomy c.stop b.stop with hstop | hstop | hstop
        · exact absurd (h.copies c.stop (by omega) hstop) hbehind
        · exact hstop
        · exact absurd (hrun.copies b.stop (by omega) hstop) hother
      exact .inl ⟨by omega, Span.ext hsame hend⟩
    · exact absurd (heq ▸ hrun.copies c.start (Nat.le_refl _) (by omega)) hother
    · exact .inr ⟨hc, hgt⟩
  · rintro (⟨htwo, rfl⟩ | ⟨hc, hstart⟩)
    · exact ⟨isCopyBlock_iff_ends.2 ⟨⟨htwo, h.copies⟩, h.opens, hother⟩, Nat.le_refl _⟩
    · exact ⟨hc, by have := h.le; omega⟩

theorem length_instructions (h : Pending is b) :
    (b.instructions is).length = b.stop - b.start := by
  have hle : b.start = b.stop ∨ b.stop ≤ is.length := by
    rcases Nat.lt_or_eq_of_le h.le with hlt | heq
    · obtain ⟨i, hi, -⟩ := h.copies (b.stop - 1) (by omega) (by omega)
      have := (List.getElem?_eq_some_iff.1 hi).1
      omega
    · exact .inl heq
  unfold Span.instructions
  rw [List.length_take, List.length_drop]
  omega

def finished (b : Span) : List Span := if b.start + 2 ≤ b.stop then [b] else []

theorem mem_finished {c : Span} : c ∈ finished b ↔ b.start + 2 ≤ b.stop ∧ c = b := by
  unfold finished
  split <;> simp [*]

theorem map_finished (h : Pending is b) :
    (finished b).map (·.instructions is) =
      if 2 ≤ (b.instructions is).length then [b.instructions is] else [] := by
  have hlength := h.length_instructions
  unfold finished
  by_cases htwo : b.start + 2 ≤ b.stop
  · rw [if_pos htwo, if_pos (by omega), List.map_singleton]
  · rw [if_neg htwo, if_neg (by omega), List.map_nil]

theorem pairwise_finished : (finished b).Pairwise fun c c' => c.stop < c'.start := by
  unfold finished
  split
  · exact List.pairwise_singleton _ _
  · exact List.Pairwise.nil

/-- From a run in hand, the walk finds the blocks that start with it or behind it. -/
theorem exists_blocks (h : Pending is b) {rest : List Instruction} (hrest : is.drop b.stop = rest) :
    ∃ bs : List Span, Rule.copyBlocks (b.instructions is) rest = bs.map (·.instructions is) ∧
      (bs.Pairwise fun c c' => c.stop < c'.start) ∧
      ∀ c, c ∈ bs ↔ IsCopyBlock is c ∧ b.start ≤ c.start := by
  induction rest generalizing b with
  | nil =>
    have hend : ∀ k, b.stop ≤ k → ¬ CopyAt is k := by
      rintro k hk ⟨i, hi, -⟩
      have hlt := (List.getElem?_eq_some_iff.1 hi).1
      have hlen := List.drop_eq_nil_iff.1 hrest
      omega
    refine ⟨finished b, h.map_finished.symm, pairwise_finished, fun c => ?_⟩
    rw [h.isCopyBlock_iff (hend _ (Nat.le_refl _)), mem_finished]
    refine (or_iff_left fun ⟨hc, hstart⟩ => ?_).symm
    have := hc.several
    exact hend c.start (by omega) (hc.copies _ (Nat.le_refl _) (by omega))
  | cons i rest ih =>
    have hi : is[b.stop]? = some i := by rw [← List.head?_drop, hrest, List.head?_cons]
    have hnext : is.drop (b.stop + 1) = rest := by
      rw [← List.tail_drop, hrest, List.tail_cons]
    unfold Rule.copyBlocks
    by_cases hcopy : i.directive = .copy
    · rw [if_pos hcopy, ← h.instructions_extend hrest]
      exact ih (h.extend ⟨i, hi, hcopy⟩) hnext
    · have hother : ¬ CopyAt is b.stop := by
        rintro ⟨j, hj, hcopy'⟩
        exact hcopy (Option.some.inj (hi.symm.trans hj) ▸ hcopy')
      obtain ⟨bs, hbs, hpairwise, hmem⟩ := ih (restart hother) hnext
      have hnil : Span.instructions ⟨b.stop + 1, b.stop + 1⟩ is = [] := by
        simp [Span.instructions]
      rw [hnil] at hbs
      refine ⟨finished b ++ bs, ?_, ?_, fun c => ?_⟩
      · rw [if_neg hcopy, hbs, List.map_append, h.map_finished]
      · refine List.pairwise_append.2 ⟨pairwise_finished, hpairwise, fun c hc c' hc' => ?_⟩
        rw [(mem_finished.1 hc).2]
        exact ((hmem c').1 hc').2
      · rw [List.mem_append, mem_finished, hmem, h.isCopyBlock_iff hother]

end Pending

structure AreCopyBlocks (is : List Instruction) (bs : List Span) : Prop where
  mem_iff : ∀ b, b ∈ bs ↔ IsCopyBlock is b
  ordered : bs.Pairwise fun b c => b.stop < c.start

theorem exists_areCopyBlocks (is : List Instruction) :
    ∃ bs : List Span, AreCopyBlocks is bs ∧
      Rule.copyBlocks [] is = bs.map (·.instructions is) := by
  have hstart : Pending is ⟨0, 0⟩ :=
    ⟨Nat.le_refl _, fun _ _ h => absurd h (Nat.not_lt_zero _),
      fun _ h => absurd h (Nat.succ_ne_zero _)⟩
  obtain ⟨bs, hbs, hpairwise, hmem⟩ := hstart.exists_blocks (List.drop_zero)
  exact ⟨bs, ⟨fun b => (hmem b).trans (and_iff_left (Nat.zero_le _)), hpairwise⟩, hbs⟩

/-! ## What the rule reports -/

structure ReportsBlock (d : Dockerfile) (st : Stage) (b : Span) (s : Suggestion) : Prop where
  code : s.code = "DFO010".toList
  title : s.title = Text.concat [Text.ofNat (b.stop - b.start),
    " consecutive COPY instructions in stage `", st.name, "`"]
  lines : s.lines = (b.instructions (d.stageInstructions st)).map (·.line)
  /-- What is cited stands at these positions of the whole list. -/
  placed : (b.instructions (d.stageInstructions st)).map some =
    (b.positions st.start).map fun p => d.instructions[p]?
  within : ∀ p ∈ b.positions st.start, st.Contains p

namespace IsCopyBlock

theorem pending {is : List Instruction} {b : Span} (h : IsCopyBlock is b) : Pending is b where
  le := Nat.le_trans (Nat.le_add_right _ 2) h.several
  copies := h.copies
  opens := (isCopyBlock_iff_ends.1 h).2.1

variable {d : Dockerfile} {st : Stage} {b : Span} (h : IsCopyBlock (d.stageInstructions st) b)
include h

theorem contains {p : Nat} (hp : p ∈ b.positions st.start) : st.Contains p := by
  obtain ⟨k, hlow, hhigh, rfl⟩ := Span.mem_positions.1 hp
  obtain ⟨i, hi, -⟩ := h.copies k hlow hhigh
  exact (Dockerfile.getElem?_stageInstructions hi).2

theorem map_some_instructions : (b.instructions (d.stageInstructions st)).map some =
    (b.positions st.start).map fun p => d.instructions[p]? := by
  have hlength := h.pending.length_instructions
  refine List.ext_getElem? fun k => ?_
  rw [List.getElem?_map, List.getElem?_map]
  by_cases hk : k < b.stop - b.start
  · obtain ⟨i, hi, -⟩ := h.copies (b.start + k) (Nat.le_add_right _ _) (by omega)
    have hwhole := (Dockerfile.getElem?_stageInstructions hi).1
    unfold Span.instructions Span.positions
    rw [List.getElem?_take_of_lt hk, List.getElem?_drop, hi, List.getElem?_range' hk, Nat.one_mul,
      Option.map_some, Option.map_some, Nat.add_assoc, hwhole]
  · have hpositions : (b.positions st.start).length = b.stop - b.start := List.length_range'
    rw [List.getElem?_eq_none (by omega), List.getElem?_eq_none (by omega)]
    rfl

theorem reportsBlock : ReportsBlock d st b
    (Rule.combineCopiesSuggestion st (b.instructions (d.stageInstructions st))) where
  code := rfl
  title := by
    rw [← h.pending.length_instructions]
    rfl
  lines := rfl
  placed := h.map_some_instructions
  within _ hp := h.contains hp

end IsCopyBlock

/-- Blocks in order have no position in common. -/
theorem nodup_positions {bs : List Span} (h : bs.Pairwise fun b c => b.stop < c.start)
    (offset : Nat) : (bs.flatMap (·.positions offset)).Nodup := by
  refine List.nodup_flatMap.2 ⟨fun b _ => List.nodup_range', h.imp fun {b c} hbc p hb hc => ?_⟩
  obtain ⟨k, -, hk, rfl⟩ := Span.mem_positions.1 hb
  obtain ⟨k', hk', -, heq⟩ := Span.mem_positions.1 hc
  omega

/-- The rule reports, stage by stage and in order, the blocks of `COPY`s in the stage and no others:
one suggestion for each, which cites the block. All of the block lies in the stage, and if no two
stages have a position in common, no `COPY` is cited twice. -/
theorem Rule.combineCopies_detect_exact (d : Dockerfile) :
    ∃ found : Stage → List Span,
      (∀ st ∈ d.stages, AreCopyBlocks (d.stageInstructions st) (found st)) ∧
      StageByStage d found (ReportsBlock d) (combineCopies.detect d) ∧
      ((d.stages.Pairwise fun st st' => ∀ p, st.Contains p → ¬ st'.Contains p) →
        (d.stages.flatMap fun st => (found st).flatMap (·.positions st.start)).Nodup) := by
  choose blocks hblocks hcopyBlocks using exists_areCopyBlocks
  refine ⟨fun st => blocks (d.stageInstructions st), fun st _ => hblocks _,
    stageByStage_staged fun st _ => ?_, fun hapart => ?_⟩
  · show List.Forall₂ _ _ ((copyBlocks [] (d.stageInstructions st)).map _)
    rw [hcopyBlocks, List.map_map]
    refine List.forall₂_map_right_iff.2 (List.forall₂_same.2 fun b hb => ?_)
    exact (((hblocks _).mem_iff b).1 hb).reportsBlock
  · refine List.nodup_flatMap.2 ⟨fun st _ => nodup_positions (hblocks _).ordered _, ?_⟩
    refine hapart.imp fun {st st'} hdisjoint p hp hp' => ?_
    obtain ⟨b, hb, hp⟩ := List.mem_flatMap.1 hp
    obtain ⟨b', hb', hp'⟩ := List.mem_flatMap.1 hp'
    exact hdisjoint p ((((hblocks _).mem_iff b).1 hb).contains hp)
      ((((hblocks _).mem_iff b').1 hb').contains hp')

/-- Five `COPY`s in a row that the end of a stage cuts in two, and a last stage of a single one. -/
theorem Rule.combineCopies_detect_exact_of_adjacent :
    let copy (line : Nat) : Instruction :=
      { directive := .copy, raw := [], line, argsText := [], arguments := [], continued := false }
    let stage (index start stop : Nat) : Stage :=
      { index, name := [], baseImage := [], givenName := none, startLine := 1, start, stop }
    let d : Dockerfile :=
      { instructions := [copy 1, copy 2, copy 4, copy 4, copy 7, copy 9]
        stages := [stage 0 0 2, stage 1 2 5, stage 2 5 6], multiStage := true, baseImages := [] }
    (d.stages.Pairwise fun st st' => ∀ p, st.Contains p → ¬ st'.Contains p) ∧
      (∃ found : Stage → List Span,
        (∀ st ∈ d.stages, AreCopyBlocks (d.stageInstructions st) (found st)) ∧
        (d.stages.flatMap fun st => (found st).flatMap (·.positions st.start)).Nodup) ∧
      (combineCopies.detect d).map (·.lines) = [[1, 2], [4, 4, 7]] := by
  intro copy stage d
  have hapart : d.stages.Pairwise fun st st' => ∀ p, st.Contains p → ¬ st'.Contains p := by
    simp only [d, stage, List.pairwise_cons, List.forall_mem_cons, Stage.Contains]
    refine ⟨⟨?_, ?_, by simp⟩, ⟨?_, by simp⟩, by simp⟩ <;> omega
  obtain ⟨found, hfound, -, hnodup⟩ := combineCopies_detect_exact d
  exact ⟨hapart, ⟨found, hfound, hnodup hapart⟩, by decide⟩

end LayerLint
