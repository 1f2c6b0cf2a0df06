import Mathlib.Data.List.SplitBy
import LayerLint.Proofs.Chain
import LayerLint.Proofs.LogicalLines

/-!
# Logical lines as groups of physical lines

The scan carries a line along that waits for its continuation. What it gives can be said without
that: the lines that are not skippable are cut behind every line without a continuation mark
(`groups`), and each group makes one logical line (`ofGroup`). One line adds itself to the group
under way (`grow_pendingOf`), and so the scan from the middle of a group on gives the groups of all
lines from its start on (`scan_pendingOf`).
-/

namespace LayerLint

theorem Text.join_append_singleton (sep c : Text) {cs : List Text} (h : cs ≠ []) :
    Text.join sep (cs ++ [c]) = Text.join sep cs ++ (sep ++ c) := by
  obtain ⟨d, cs, rfl⟩ := List.exists_cons_of_ne_nil h
  rw [List.cons_append, join_cons, join_cons, List.flatMap_append, List.flatMap_singleton,
    List.append_assoc]

theorem Text.join_eq_nil {sep : Text} {cs : List Text} (h : ∀ c ∈ cs, c ≠ []) :
    Text.join sep cs = [] ↔ cs = [] := by
  cases cs with
  | nil => exact iff_of_true rfl rfl
  | cons c cs =>
    rw [join_cons, List.append_eq_nil_iff]
    exact iff_of_false (fun hnil => h c (List.mem_cons_self ..) hnil.1) (List.cons_ne_nil _ _)

namespace LogicalLine

/-! ## Cutting lines into groups -/

def content (xs : List (Nat × Text)) : List (Nat × Text) := xs.filter fun x => !isSkippable x.2

/-- The lines cut into groups: a line stays with the next one when it ends in a continuation
mark. -/
def groups (xs : List (Nat × Text)) : List (List (Nat × Text)) :=
  xs.splitBy fun x _ => continues x.2

/-- `gs` is `xs` cut behind every line without a continuation mark. Behind the last group nothing
is cut, so it may end in a mark. -/
structure CutsBehindEnds (xs : List (Nat × Text)) (gs : List (List (Nat × Text))) : Prop where
  whole : gs.flatten = xs
  nonempty : ∀ g ∈ gs, g ≠ []
  within : ∀ g ∈ gs, ∀ x ∈ g.dropLast, continues x.2 = true
  between : ∀ g ∈ gs.dropLast, ∀ x, g.getLast? = some x → continues x.2 = false

/-- A chain whose links do not depend on what comes next. -/
theorem isChain_iff_forall_dropLast {α : Type} {p : α → Prop} {l : List α} :
    l.IsChain (fun x _ => p x) ↔ ∀ x ∈ l.dropLast, p x := by
  induction l with
  | nil => simp
  | cons x l ih =>
    cases l with
    | nil => simp
    | cons y l => rw [List.isChain_cons_cons, ih, List.dropLast_cons_cons, List.forall_mem_cons]

/-- Where no group is empty, what ends a group does not hang on the group behind it. -/
theorem isChain_ends_iff {gs : List (List (Nat × Text))} (hne : ∀ g ∈ gs, g ≠ []) :
    (gs.IsChain fun g h => ∃ (hg : g ≠ []) (_ : h ≠ []), continues (g.getLast hg).2 = false) ↔
      ∀ g ∈ gs.dropLast, ∀ x, g.getLast? = some x → continues x.2 = false := by
  rw [← isChain_iff_forall_dropLast]
  refine List.IsChain.iff_of_mem_imp fun g h hg hh => ?_
  have hlast := List.getLast?_eq_some_getLast (hne g hg)
  constructor
  · rintro ⟨_, _, hend⟩ x hx
    rwa [← Option.some.inj (hlast.symm.trans hx)]
  · intro hend
    exact ⟨hne g hg, hne h hh, hend _ hlast⟩

theorem eq_groups_iff {xs : List (Nat × Text)} {gs : List (List (Nat × Text))} :
    gs = groups xs ↔ CutsBehindEnds xs gs := by
  rw [eq_comm, groups, List.splitBy_eq_iff]
  constructor
  · rintro ⟨hwhole, hnil, hwithin, hbetween⟩
    have hne : ∀ g ∈ gs, g ≠ [] := fun g hg h => hnil (h ▸ hg)
    exact {
      whole := hwhole.symm
      nonempty := hne
      within := fun g hg => isChain_iff_forall_dropLast.1 (hwithin g hg)
      between := (isChain_ends_iff hne).1 hbetween }
  · intro h
    exact ⟨h.whole.symm, fun hmem => h.nonempty _ hmem rfl,
      fun g hg => isChain_iff_forall_dropLast.2 (h.within g hg),
      (isChain_ends_iff h.nonempty).2 h.between⟩

theorem groups_of_open {group : List (Nat × Text)} (h : ∀ x ∈ group, continues x.2 = true)
    (hne : group ≠ []) : groups group = [group] :=
  List.splitBy_of_isChain hne
    (isChain_iff_forall_dropLast.2 fun x hx => h x (List.dropLast_subset _ hx))

theorem groups_of_closed {group : List (Nat × Text)} (h : ∀ x ∈ group, continues x.2 = true)
    {x : Nat × Text} (hx : continues x.2 = false) (rest : List (Nat × Text)) :
    groups (group ++ x :: rest) = (group ++ [x]) :: groups rest := by
  have hfirst : groups (group ++ [x]) = [group ++ [x]] := by
    refine List.splitBy_of_isChain (by simp) (isChain_iff_forall_dropLast.2 ?_)
    rwa [List.dropLast_concat]
  have hcut : group ++ x :: rest = group ++ [x] ++ rest := by simp
  unfold groups at hfirst ⊢
  rw [hcut, List.splitBy_append, hfirst, List.singleton_append]
  intro y hy z _
  rw [List.getLast?_concat, Option.mem_some_iff] at hy
  rw [← hy]
  exact hx

/-! ## The logical line of a group -/

/-- A line with a continuation mark has what stands in front of the mark for its body; another line
is its own body. White space at both ends does not belong to it. -/
inductive HasBody : (line : Text) → (marked : Bool) → (body : Text) → Prop
  | marked (front gap : Text) : (∀ c ∈ gap, isBlank c = true) →
      HasBody (front ++ '\\' :: gap) true front.trim
  | unmarked (line : Text) : (∀ front gap, line = front ++ '\\' :: gap →
      ∃ c ∈ gap, isBlank c = false) → HasBody line false line.trim

theorem hasBody (line : Text) : HasBody line (continues line) (body line) := by
  cases hmark : continues line with
  | true =>
    obtain ⟨front, gap, rfl, hgap⟩ := (continues_iff line).1 hmark
    rw [body_append_mark front hgap]
    exact .marked front gap hgap
  | false =>
    rw [body_of_not_continues hmark]
    refine .unmarked line fun front gap hline => ?_
    by_contra hblank
    simp only [not_exists, not_and, Bool.not_eq_false] at hblank
    exact Bool.false_ne_true (hmark.symm.trans ((continues_iff line).2 ⟨front, gap, hline, hblank⟩))

/-- What is left of the lines of a group, where anything is. -/
def parts (group : List (Nat × Text)) : List Text :=
  (group.map fun x => body x.2).filter (· ≠ [])

def ofGroup (group : List (Nat × Text)) : LogicalLine where
  line := (group.head?.map Prod.fst).getD 0
  text := Text.join " " (parts group)
  raw := Text.join "\n" (group.map fun x => x.2.trimEnd)
  continued := 2 ≤ group.length

/-- What the scan carries along behind the first lines of a group. -/
def pendingOf (group : List (Nat × Text)) : Option LogicalLine :=
  if group = [] then none else some (ofGroup group)

theorem text_ofGroup_append (group : List (Nat × Text)) (number : Nat) (line : Text) :
    (ofGroup (group ++ [(number, line)])).text =
      if body line = [] then (ofGroup group).text
      else if (ofGroup group).text = [] then body line
      else (ofGroup group).text ++ ' ' :: body line := by
  have hparts : parts (group ++ [(number, line)]) =
      parts group ++ if body line = [] then [] else [body line] := by
    unfold parts
    rw [List.map_append, List.filter_append]
    congr 1
    split <;> simp [*]
  have hnil : (ofGroup group).text = [] ↔ parts group = [] :=
    Text.join_eq_nil fun c hc => by simpa using (List.mem_filter.1 hc).2
  show Text.join " " (parts (group ++ [(number, line)])) = _
  rw [hparts]
  split
  · rw [List.append_nil]
    rfl
  · split
    · next h => rw [hnil.1 h, List.nil_append, Text.join_singleton]
    · next h => exact Text.join_append_singleton _ _ fun hp => h (hnil.2 hp)

theorem raw_ofGroup_append {group : List (Nat × Text)} (hne : group ≠ []) (number : Nat)
    (line : Text) :
    (ofGroup (group ++ [(number, line)])).raw = (ofGroup group).raw ++ '\n' :: line.trimEnd := by
  have hmap : group.map (fun x => x.2.trimEnd) ≠ [] := by simpa using hne
  show Text.join "\n" ((group ++ [(number, line)]).map fun x => x.2.trimEnd) = _
  rw [List.map_append, List.map_singleton, Text.join_append_singleton _ _ hmap]
  rfl

/-- A line adds itself to the group under way. -/
theorem grow_pendingOf (group : List (Nat × Text)) (number : Nat) (line : Text) :
    grow (pendingOf group) number line = ofGroup (group ++ [(number, line)]) := by
  have htext := text_ofGroup_append group number line
  cases group with
  | nil =>
    have htext : (ofGroup [(number, line)]).text = body line := by
      rw [List.nil_append] at htext
      rw [htext]
      split
      · next h => exact h.symm
      · rfl
    exact (LogicalLine.mk.injEq ..).mpr ⟨rfl, htext.symm, (Text.join_singleton _ _).symm, rfl⟩
  | cons x group =>
    have hraw := raw_ofGroup_append (List.cons_ne_nil x group) number line
    have hcontinued : (ofGroup (x :: group ++ [(number, line)])).continued = true := by
      show decide (2 ≤ _) = true
      rw [List.length_append]
      simp
    exact (LogicalLine.mk.injEq ..).mpr ⟨rfl, htext.symm, hraw.symm, hcontinued.symm⟩

theorem scan_pendingOf (group xs : List (Nat × Text))
    (hgroup : ∀ x ∈ group, continues x.2 = true) :
    scan (pendingOf group) xs = (groups (group ++ content xs)).map ofGroup := by
  induction xs generalizing group with
  | nil =>
    show (pendingOf group).toList = (groups (group ++ [])).map ofGroup
    rw [List.append_nil]
    by_cases hne : group = []
    · rw [hne]
      rfl
    · rw [groups_of_open hgroup hne, pendingOf, if_neg hne]
      rfl
  | cons x xs ih =>
    obtain ⟨number, line⟩ := x
    cases hskip : isSkippable line with
    | true =>
      have hcontent : content ((number, line) :: xs) = content xs := by simp [content, hskip]
      rw [scan_cons, if_pos hskip, hcontent]
      exact ih group hgroup
    | false =>
      have hcontent : content ((number, line) :: xs) = (number, line) :: content xs := by
        simp [content, hskip]
      rw [scan_cons_content _ number xs hskip, grow_pendingOf, hcontent]
      cases hcont : continues line with
      | true =>
        have hgroup : ∀ x ∈ group ++ [(number, line)], continues x.2 = true :=
          List.forall_mem_append.2 ⟨hgroup, List.forall_mem_singleton.2 hcont⟩
        have ih := ih _ hgroup
        rw [pendingOf, if_neg (by simp), List.append_assoc, List.singleton_append] at ih
        exact ih
      | false =>
        rw [groups_of_closed hgroup hcont, List.map_cons]
        exact congrArg (_ :: ·) (ih [] (by simp))

/-- The logical lines of a text: its lines are numbered from one, the skippable ones are left out,
the others are cut into groups behind every line without a continuation mark, and each group makes
a logical line. There is only one such cut. Skippable lines are the blank ones and the comments; a
mark is a backslash with nothing but white space behind it, and is not part of the body. -/
theorem ofText_eq_map_ofGroup (t : Text) :
    ofText t = (groups (content t.numberedLines)).map ofGroup ∧
      (∀ gs, gs = groups (content t.numberedLines) ↔
        CutsBehindEnds (content t.numberedLines) gs) ∧
      ∀ line, (isSkippable line = true ↔ line.trim = [] ∨ line.trim.head? = some '#') ∧
        HasBody line (continues line) (body line) :=
  ⟨scan_pendingOf [] t.numberedLines (by simp), fun _ => eq_groups_iff, fun line =>
    ⟨isSkippable_iff_trim line, hasBody line⟩⟩

/-- A comment within a group, a line with nothing but its mark, and a line that ends in two marks
where the text ends. -/
example :
    (groups (content (Text.numberedLines "\nRUN a \\\n# b\n\\\n  c\nd \\\\ ".toList))).map ofGroup =
      [{ line := 2, text := "RUN a c", raw := "RUN a \\\n\\\n  c", continued := true },
       { line := 6, text := "d \\", raw := "d \\\\", continued := false }] := by
  decide

end LogicalLine

end LayerLint
