import LayerLint.Proofs.Ink
import LayerLint.Proofs.LineGroups

/-!
# The merged `COPY`

The text that replaces several `COPY`s has their sources and the destination with spaces between
them. They are read back from there if and only if each of them is one word, the last one does not
end in a continuation mark, and together they do not look like an array
(`exists_parse_copyLine_iff`). That nothing else is read back follows from the ink: the text has no
more than the arguments have, so no mark and no syntax of an array can be taken away when it is
read. `COPY`s in shell form always meet the condition, and the members of an array need not
(`analyze_mergedCopy`).
-/

namespace LayerLint

open LogicalLine (ClosedText TrimmedText)
open Text (ink inkOf)

/-! ## Arguments with spaces between them -/

/-- Arguments that can be told apart by the spaces between them. -/
structure Spellable (args : List Text) : Prop where
  words : ∀ a ∈ args, a.IsWord
  unmarked : ∀ a, args.getLast? = some a → a.getLast? ≠ some '\\'
  shell : Json.stringList? (Text.join [' '] args) = none

def copyText (sources : List Text) (destination : Text) : Text :=
  Text.join [' '] sources ++ ' ' :: destination

section
variable {sources : List Text} {destination : Text}

theorem ink_copyText (sources : List Text) (destination : Text) :
    ink (copyText sources destination) = inkOf (sources ++ [destination]) := by
  unfold copyText
  rw [Text.ink_append, Text.ink_cons_of_blank (by decide), Text.ink_join, Text.inkOf_append,
    Text.inkOf_cons, Text.inkOf_nil, Nat.add_zero]

variable (h : ∀ a ∈ sources ++ [destination], a.IsWord)
include h

theorem words_copyText : (copyText sources destination).words = sources ++ [destination] := by
  obtain ⟨hsources, hdestination⟩ := List.forall_mem_append.1 h
  unfold copyText
  rw [Text.words_append_cons (by decide), Text.words_join hsources,
    (List.forall_mem_singleton.1 hdestination).words]

theorem trim_copyText :
    (copyText sources destination).trim = Text.join [' '] (sources ++ [destination]) := by
  rw [← Text.trim_join [' '] h]
  by_cases hnil : sources = []
  · have hspace : Text.trimStart (' ' :: destination) = Text.trimStart destination :=
      List.dropWhile_cons_of_pos (by decide)
    rw [hnil, List.nil_append, Text.join_singleton]
    show Text.trimEnd (Text.trimStart (' ' :: destination)) = Text.trim destination
    rw [hspace]
    rfl
  · rw [Text.join_append_singleton _ _ hnil]
    rfl

theorem newline_notMem_copyText : '\n' ∉ copyText sources destination := by
  obtain ⟨hsources, hdestination⟩ := List.forall_mem_append.1 h
  refine List.not_mem_append (Text.newline_notMem_join hsources) ?_
  have hword := (List.forall_mem_singleton.1 hdestination).newline_notMem
  simp [hword]

/-- The text ends where its last argument does. -/
theorem continues_copyText :
    continues (copyText sources destination) = true ↔ destination.getLast? = some '\\' := by
  have hword := h destination (by simp)
  have hlast : (copyText sources destination).getLast? = destination.getLast? :=
    (Text.getLast?_of_suffix ((List.suffix_cons ' ' _).trans (List.suffix_append _ _))
      hword.ne_nil).symm
  have hend := List.getLast?_eq_some_getLast hword.ne_nil
  have htrim := Text.trimEnd_of_getLast? (hlast.trans hend) (hword.solid _ (List.getLast_mem _))
  unfold continues
  rw [htrim, hlast, decide_eq_true_eq]

end

/-! ## Reading the arguments back -/

def copyLine (sources : List Text) (destination : Text) : Text :=
  Directive.copy.keyword ++ ' ' :: copyText sources destination

section
variable {sources : List Text} {destination : Text}

theorem Spellable.exists_parse (h : Spellable (sources ++ [destination])) :
    ∃ j, (Dockerfile.parse (copyLine sources destination)).instructions = [j] ∧
      j.directive = .copy ∧ j.arguments = sources ++ [destination] := by
  have hmark : continues (copyText sources destination) = false := by
    rw [Bool.eq_false_iff, Ne, continues_copyText h.words]
    exact h.unmarked destination List.getLast?_concat
  have hline : EndsLine (copyText sources destination) :=
    ⟨newline_notMem_copyText h.words, hmark⟩
  refine ⟨_, Dockerfile.parse_keyword_append .copy hline, rfl, ?_⟩
  show Instruction.splitArguments (copyText sources destination) = _
  rw [Instruction.splitArguments_eq, trim_copyText h.words, h.shell, Option.getD_none,
    words_copyText h.words]

/-- The line has no more ink than its keyword and the arguments. -/
theorem ink_copyLine (sources : List Text) (destination : Text) :
    ink (copyLine sources destination) =
      Directive.copy.keyword.length + inkOf (sources ++ [destination]) := by
  have hkeyword : Text.IsWord Directive.copy.keyword := by decide
  unfold copyLine
  rw [Text.ink_append, hkeyword.ink_eq, Text.ink_cons_of_blank (by decide), ink_copyText]

variable {j : Instruction}
  (hparse : (Dockerfile.parse (copyLine sources destination)).instructions = [j])
  (hcopy : j.directive = .copy) (harguments : j.arguments = sources ++ [destination])
include hparse hcopy harguments

/-- An array would have more ink than its members. -/
theorem shellForm_of_parse_copyLine : j.ShellForm := by
  have hj : j ∈ (Dockerfile.parse (copyLine sources destination)).instructions :=
    hparse ▸ List.mem_singleton_self j
  have hink := Dockerfile.ink_argsText_le hj
  rw [ink_copyLine, hcopy, ← harguments] at hink
  refine Option.eq_none_iff_forall_ne_some.2 fun ss hss => ?_
  have harray := Json.ink_stringList? hss
  rw [Text.ink_trim] at harray
  rw [Instruction.arguments_of_mem hj, hss, Option.getD_some] at hink
  omega

/-- A mark at the end of the line would take ink away. -/
theorem continues_of_parse_copyLine (hwords : ∀ a ∈ sources ++ [destination], a.IsWord) :
    continues (copyText sources destination) = false := by
  have hj : j ∈ (Dockerfile.parse (copyLine sources destination)).instructions :=
    hparse ▸ List.mem_singleton_self j
  have hshell := shellForm_of_parse_copyLine hparse hcopy harguments
  have hline : '\n' ∉ copyLine sources destination :=
    List.not_mem_append (by decide) (by simp [newline_notMem_copyText hwords])
  have hargs := Dockerfile.ink_argsText_of_line hline (isSkippable_keyword_append .copy _) hj
  have hwhole : inkOf (sources ++ [destination]) = ink j.argsText := by
    rw [← harguments, hshell.arguments_eq hj, Text.inkOf_words]
  have hbody := ink_body (copyLine sources destination)
  rw [ink_copyLine, hwhole, ← hargs, hcopy] at hbody
  have hmark : continues (copyLine sources destination) = false := by
    refine Bool.eq_false_iff.2 fun hmark => ?_
    rw [if_pos hmark] at hbody
    omega
  exact (continues_keyword_append .copy _).symm.trans hmark

theorem spellable_of_parse_copyLine : Spellable (sources ++ [destination]) := by
  have hj : j ∈ (Dockerfile.parse (copyLine sources destination)).instructions :=
    hparse ▸ List.mem_singleton_self j
  have hshell := shellForm_of_parse_copyLine hparse hcopy harguments
  have hwords : ∀ a ∈ sources ++ [destination], a.IsWord := fun a ha =>
    hshell.isWord hj (harguments ▸ ha)
  have hmark : continues (copyText sources destination) = false :=
    continues_of_parse_copyLine hparse hcopy harguments hwords
  refine ⟨hwords, fun a ha => ?_, ?_⟩
  · rw [List.getLast?_concat] at ha
    rw [← Option.some.inj ha, Ne, ← continues_copyText hwords, hmark]
    decide
  · have hline :=
      Dockerfile.parse_keyword_append .copy ⟨newline_notMem_copyText hwords, hmark⟩
    obtain rfl := List.singleton_inj.1 (hparse.symm.trans hline)
    rw [← trim_copyText hwords, ← Instruction.trim_argsText_onLine .copy 1]
    exact hshell

end

/-- The arguments are read back if and only if they are spellable. -/
theorem exists_parse_copyLine_iff {sources : List Text} {destination : Text} :
    (∃ j, (Dockerfile.parse (copyLine sources destination)).instructions = [j] ∧
      j.directive = .copy ∧ j.arguments = sources ++ [destination]) ↔
      Spellable (sources ++ [destination]) :=
  ⟨fun ⟨_, hparse, hcopy, harguments⟩ => spellable_of_parse_copyLine hparse hcopy harguments,
    Spellable.exists_parse⟩

/-! ## `COPY`s without flags -/

namespace Instruction

theorem arguments_of_copy {i : Instruction} {destination : Text} (hflags : i.flags = [])
    (hlast : i.positional.getLast? = some destination) :
    i.arguments = i.copySources ++ [destination] := by
  have hsplit : i.flags ++ i.positional = i.arguments := List.takeWhile_append_dropWhile
  rw [hflags, List.nil_append] at hsplit
  rw [← hsplit]
  exact (List.dropLast_append_getLast? _ hlast).symm

theorem flags_eq_nil_iff {i : Instruction} :
    i.flags = [] ↔ ∀ a, i.arguments.head? = some a → isFlag a = false := by
  unfold flags
  cases i.arguments with
  | nil => simp
  | cons a rest => simp [List.takeWhile_cons]

theorem copy_of_arguments {j : Instruction} {sources : List Text} {destination : Text}
    (hflags : j.flags = []) (harguments : j.arguments = sources ++ [destination]) :
    j.copySources = sources ∧ j.positional.getLast? = some destination := by
  have hsplit : j.flags ++ j.positional = j.arguments := List.takeWhile_append_dropWhile
  rw [hflags, List.nil_append, harguments] at hsplit
  unfold copySources
  rw [hsplit, List.dropLast_concat, List.getLast?_concat]
  exact ⟨rfl, rfl⟩

/-- The first argument of the merged `COPY` is the first one of some `COPY`. -/
theorem exists_head?_arguments {is : List Instruction} {destination : Text}
    (h : ∀ i ∈ is, i.arguments = i.copySources ++ [destination]) (hne : is ≠ []) {a : Text}
    (ha : (is.flatMap (·.copySources) ++ [destination]).head? = some a) :
    ∃ i ∈ is, i.arguments.head? = some a := by
  induction is with
  | nil => exact absurd rfl hne
  | cons i is ih =>
    obtain ⟨hi, his⟩ := List.forall_mem_cons.1 h
    rw [List.flatMap_cons, List.append_assoc] at ha
    cases hsources : i.copySources with
    | cons b bs =>
      refine ⟨i, List.mem_cons_self .., ?_⟩
      rw [hsources] at hi ha
      rw [hi]
      exact ha
    | nil =>
      rw [hsources] at hi ha
      by_cases hnil : is = []
      · subst hnil
        refine ⟨i, List.mem_cons_self .., ?_⟩
        rw [hi]
        exact ha
      · obtain ⟨k, hk, hhead⟩ := ih his hnil ha
        exact ⟨k, List.mem_cons_of_mem i hk, hhead⟩

end Instruction

/-! ## Suggestions that merge `COPY`s -/

namespace Rule

theorem directive_of_mem_copyBlocks {block is b : List Instruction}
    (hblock : ∀ i ∈ block, i.directive = .copy) (h : b ∈ copyBlocks block is) :
    ∀ i ∈ b, i.directive = .copy := by
  induction is generalizing block with
  | nil =>
    obtain ⟨rfl, -⟩ := mem_finishedBlock h
    exact hblock
  | cons i rest ih =>
    unfold copyBlocks at h
    split at h
    · next hcopy =>
      exact ih (List.forall_mem_append.2 ⟨hblock, List.forall_mem_singleton.2 hcopy⟩) h
    · rcases List.mem_append.1 h with h | h
      · obtain ⟨rfl, -⟩ := mem_finishedBlock h
        exact hblock
      · exact ih (by simp) h

/-- The suggestion proposes to merge these `COPY`s, which have no flags and one destination. -/
structure MergesCopies (is : List Instruction) (destination : Text) (s : Suggestion) : Prop where
  lines : s.lines = is.map (·.line)
  several : 2 ≤ is.length
  copies : ∀ i ∈ is, i.directive = .copy ∧ i.flags = [] ∧ i.positional.getLast? = some destination
  after : s.after = some (copyLine (is.flatMap (·.copySources)) destination)

theorem concat_eq_copyLine (sources : List Text) (destination : Text) :
    Text.concat ["COPY ", Text.join " " sources, " ", destination] =
      copyLine sources destination := by
  have hfront : "COPY ".toList = Directive.copy.keyword ++ [' '] := by decide
  have hspace : " ".toList = [' '] := rfl
  unfold Text.concat copyLine copyText
  simp only [List.flatten_cons, List.flatten_nil, hfront, hspace, List.append_assoc,
    List.append_nil, List.cons_append, List.nil_append]

theorem exists_of_mergedCopy? {block : List Instruction} {text : Text}
    (h : mergedCopy? block = some text) :
    ∃ destination, text = copyLine (block.flatMap (·.copySources)) destination ∧
      ∀ i ∈ block, i.flags = [] ∧ i.positional.getLast? = some destination := by
  simp only [mergedCopy?, bind, Option.bind_eq_some_iff] at h
  obtain ⟨first, -, destination, -, h⟩ := h
  split at h
  · next hall =>
    refine ⟨destination, ?_, fun i hi => ?_⟩
    · rw [← Option.some.inj h]
      exact concat_eq_copyLine _ destination
    · simpa using List.all_eq_true.1 hall i hi
  · cases h

theorem exists_mergesCopies {d : Dockerfile} {s : Suggestion} (hs : s ∈ combineCopies.detect d)
    (hafter : s.after ≠ none) :
    ∃ is destination, is.Sublist d.instructions ∧ MergesCopies is destination s := by
  obtain ⟨p, hp, hs⟩ := List.mem_flatMap.1 hs
  obtain ⟨st, -, rfl⟩ := List.mem_map.1 hp
  obtain ⟨block, hblock, rfl⟩ := List.mem_map.1 hs
  obtain ⟨hlen, hsub⟩ := mem_copyBlocks hblock
  have hcopy := directive_of_mem_copyBlocks (by simp) hblock
  obtain ⟨text, htext⟩ := Option.ne_none_iff_exists'.1 hafter
  obtain ⟨destination, rfl, hall⟩ := exists_of_mergedCopy? htext
  exact ⟨block, destination, hsub.trans (Dockerfile.stageInstructions_sublist d st), rfl, hlen,
    fun i hi => ⟨hcopy i hi, hall i hi⟩, htext⟩

namespace MergesCopies

variable {is : List Instruction} {destination : Text} {s : Suggestion}
  (h : MergesCopies is destination s)
include h

theorem ne_nil : is ≠ [] := by
  rintro rfl
  exact absurd h.several (by decide)

theorem arguments_eq : ∀ i ∈ is, i.arguments = i.copySources ++ [destination] := fun i hi =>
  Instruction.arguments_of_copy (h.copies i hi).2.1 (h.copies i hi).2.2

/-- No argument of the merged `COPY` is taken for a flag. -/
theorem flags_eq_nil {j : Instruction}
    (harguments : j.arguments = is.flatMap (·.copySources) ++ [destination]) : j.flags = [] := by
  refine Instruction.flags_eq_nil_iff.2 fun a ha => ?_
  obtain ⟨i, hi, hhead⟩ :=
    Instruction.exists_head?_arguments h.arguments_eq h.ne_nil (harguments ▸ ha)
  exact Instruction.flags_eq_nil_iff.1 (h.copies i hi).2.1 a hhead

/-- Only the last instruction of a text can end in a mark, and the first `COPY` is not that. -/
theorem destination_unmarked {t : Text} (hsub : is.Sublist (Dockerfile.parse t).instructions)
    (hargs : ∀ i ∈ is, i.arguments = i.argsText.words) : destination.getLast? ≠ some '\\' := by
  obtain ⟨i, rest, rfl⟩ := List.exists_cons_of_ne_nil h.ne_nil
  obtain ⟨k, hk⟩ : ∃ k, k ∈ rest :=
    List.exists_mem_of_length_pos (Nat.le_of_succ_le_succ h.several)
  have hi : i ∈ i :: rest := List.mem_cons_self ..
  have hpairs := (Dockerfile.pairwise_closedText_argsText t).sublist hsub
  have hwords : i.argsText.words = i.copySources ++ [destination] :=
    (hargs i hi).symm.trans (h.arguments_eq i hi)
  have hne : i.argsText ≠ [] := by
    intro hnil
    rw [hnil] at hwords
    exact List.append_ne_nil_of_right_ne_nil _ (List.cons_ne_nil destination []) hwords.symm
  obtain ⟨c, hlast, hblank, hmark⟩ := ((List.pairwise_cons.1 hpairs).1 k hk hne).last
  have hend := Text.getLast?_words hlast hblank
  rw [hwords, List.getLast?_concat, Option.bind_some] at hend
  rw [hend]
  exact fun heq => hmark (Option.some.inj heq)

/-- `COPY`s in shell form have words for arguments, and only the last instruction of a text can end
in a mark. -/
theorem spellable {t : Text} (hsub : is.Sublist (Dockerfile.parse t).instructions)
    (hshell : ∀ i ∈ is, i.argsText.trim.head? ≠ some '[') :
    Spellable (is.flatMap (·.copySources) ++ [destination]) := by
  have hargs : ∀ i ∈ is, i.arguments = i.argsText.words := fun i hi =>
    Instruction.ShellForm.arguments_eq (hsub.subset hi)
      (Instruction.stringList?_eq_none (hshell i hi))
  have hwords : ∀ a ∈ is.flatMap (·.copySources) ++ [destination], a.IsWord := by
    intro a ha
    obtain ⟨i, hi, ha⟩ : ∃ i ∈ is, a ∈ i.arguments := by
      rcases List.mem_append.1 ha with ha | ha
      · obtain ⟨i, hi, ha⟩ := List.mem_flatMap.1 ha
        exact ⟨i, hi, h.arguments_eq i hi ▸ List.mem_append_left _ ha⟩
      · obtain ⟨i, hi⟩ := List.exists_mem_of_ne_nil is h.ne_nil
        exact ⟨i, hi, h.arguments_eq i hi ▸ List.mem_append_right _ ha⟩
    exact Text.isWord_of_mem_words (hargs i hi ▸ ha)
  refine ⟨hwords, fun a ha => ?_, ?_⟩
  · rw [List.getLast?_concat] at ha
    rw [← Option.some.inj ha]
    exact h.destination_unmarked hsub hargs
  · have hhead : (Text.join [' '] (is.flatMap (·.copySources) ++ [destination])).trim.head? ≠
        some '[' := by
      rw [Text.trim_join _ hwords, Text.head?_join _ fun a ha => (hwords a ha).ne_nil]
      intro hopen
      obtain ⟨a, ha, hbracket⟩ := Option.bind_eq_some_iff.1 hopen
      obtain ⟨i, hi, hfirst⟩ := Instruction.exists_head?_arguments h.arguments_eq h.ne_nil ha
      refine hshell i hi ?_
      rw [← Text.head?_words, ← hargs i hi, hfirst]
      exact hbracket
    have hnone := Instruction.stringList?_eq_none hhead
    rwa [Text.trim_join _ hwords] at hnone

end MergesCopies

end Rule

/-! ## What the merged text copies -/

/-- The proposed text reads as one `COPY` without flags that copies all that the cited ones copy, to
where each of them copies it. -/
def Suggestion.CopiesAlike (s : Suggestion) (d : Dockerfile) : Prop :=
  ∃ after j, s.after = some after ∧ (Dockerfile.parse after).instructions = [j] ∧
    j.directive = .copy ∧ j.flags = [] ∧
    (∀ i ∈ d.cited s, j.positional.getLast? = i.positional.getLast?) ∧
    j.copySources = (d.cited s).flatMap (·.copySources)

/-- A suggestion with a text is about `COPY`s with one destination. The text copies the same if and
only if their arguments can be told apart by spaces, as those in shell form always can. -/
theorem analyze_mergedCopy (ignore : List Text) {t : Text} {s : Suggestion}
    (hs : s ∈ (analyze ignore t).suggestions) (hcode : s.code = "DFO010".toList)
    (hafter : s.after ≠ none) :
    ∃ destination,
      (∀ i ∈ (Dockerfile.parse t).cited s,
        i.directive = .copy ∧ i.flags = [] ∧ i.positional.getLast? = some destination) ∧
      (s.CopiesAlike (Dockerfile.parse t) ↔
        Spellable (((Dockerfile.parse t).cited s).flatMap (·.copySources) ++ [destination])) ∧
      ((∀ i ∈ (Dockerfile.parse t).cited s, i.argsText.trim.head? ≠ some '[') →
        s.CopiesAlike (Dockerfile.parse t)) := by
  have hrule : Rule.combineCopies ∈ Rule.all := by simp [Rule.all]
  obtain ⟨is, destination, hsub, hm⟩ :=
    Rule.exists_mergesCopies (Rule.mem_detect_of_mem_runAll hrule hs hcode) hafter
  have hcited : (Dockerfile.parse t).cited s = is := by
    unfold Dockerfile.cited
    rw [hm.lines]
    exact filter_line_mem hsub (Dockerfile.pairwise_line_parse t)
  have halike : s.CopiesAlike (Dockerfile.parse t) ↔
      Spellable (is.flatMap (·.copySources) ++ [destination]) := by
    unfold Suggestion.CopiesAlike
    rw [hcited, ← exists_parse_copyLine_iff]
    constructor
    · rintro ⟨after, j, hj, hparse, hcopy, hflags, hlast, hsources⟩
      obtain rfl := Option.some.inj (hm.after.symm.trans hj)
      obtain ⟨i, hi⟩ := List.exists_mem_of_ne_nil is hm.ne_nil
      have hdestination := (hlast i hi).trans (hm.copies i hi).2.2
      exact ⟨j, hparse, hcopy, hsources ▸ Instruction.arguments_of_copy hflags hdestination⟩
    · rintro ⟨j, hparse, hcopy, harguments⟩
      have hflags := hm.flags_eq_nil harguments
      obtain ⟨hsources, hlast⟩ := Instruction.copy_of_arguments hflags harguments
      exact ⟨_, j, hm.after, hparse, hcopy, hflags,
        fun i hi => hlast.trans (hm.copies i hi).2.2.symm, hsources⟩
  rw [hcited]
  exact ⟨destination, hm.copies, halike, fun hshell => halike.2 (hm.spellable hsub hshell)⟩

/-- Two `COPY`s, the second of which is written over two lines. -/
theorem analyze_mergedCopy_of_continued :
    ∃ s ∈ (analyze [] "COPY a b /x/\nCOPY c \\\n  /x/\n".toList).suggestions,
      s.code = "DFO010".toList ∧ s.after ≠ none ∧
      (∀ i ∈ (Dockerfile.parse "COPY a b /x/\nCOPY c \\\n  /x/\n".toList).cited s,
        i.argsText.trim.head? ≠ some '[') ∧
      s.CopiesAlike (Dockerfile.parse "COPY a b /x/\nCOPY c \\\n  /x/\n".toList) := by
  have hs : (Rule.combineCopies.detect
      (Dockerfile.parse "COPY a b /x/\nCOPY c \\\n  /x/\n".toList)).head (by decide) ∈
        (analyze [] "COPY a b /x/\nCOPY c \\\n  /x/\n".toList).suggestions :=
    Rule.mem_runAll.2 ⟨Rule.combineCopies, by simp [Rule.all], rfl, List.head_mem _⟩
  obtain ⟨_, -, -, halike⟩ := analyze_mergedCopy [] hs (by decide) (by decide)
  exact ⟨_, hs, by decide, by decide, by decide, halike (by decide)⟩

theorem Suggestion.CopiesAlike.copySources_eq {s : Suggestion} {d : Dockerfile}
    (h : s.CopiesAlike d) {after : Text} (hafter : s.after = some after) :
    ∀ j ∈ (Dockerfile.parse after).instructions,
      j.copySources = (d.cited s).flatMap (·.copySources) := by
  obtain ⟨after', j', hafter', hj', -, -, -, hsources⟩ := h
  obtain rfl := Option.some.inj (hafter'.symm.trans hafter)
  intro j hj
  rw [show j = j' from List.mem_singleton.1 (hj' ▸ hj)]
  exact hsources

/-- A path with a space in it is read back as two paths. -/
theorem not_copiesAlike_of_space :
    ∃ s ∈ (analyze [] "COPY [\"a b\", \"/x/\"]\nCOPY c /x/\n".toList).suggestions,
      s.code = "DFO010".toList ∧ s.after ≠ none ∧
      ¬ s.CopiesAlike (Dockerfile.parse "COPY [\"a b\", \"/x/\"]\nCOPY c /x/\n".toList) := by
  have hdetect : (Rule.combineCopies.detect
      (Dockerfile.parse "COPY [\"a b\", \"/x/\"]\nCOPY c /x/\n".toList)).head?.bind (·.after) =
        some "COPY a b c /x/".toList := by decide +kernel
  obtain ⟨s, hhead, hafter⟩ := Option.bind_eq_some_iff.1 hdetect
  have hmem := List.mem_of_mem_head? hhead
  have hcited : ∀ s ∈ Rule.combineCopies.detect
      (Dockerfile.parse "COPY [\"a b\", \"/x/\"]\nCOPY c /x/\n".toList),
      s.code = "DFO010".toList ∧
      ((Dockerfile.parse "COPY [\"a b\", \"/x/\"]\nCOPY c /x/\n".toList).cited s).flatMap
        (·.copySources) = ["a b".toList, "c".toList] := by decide +kernel
  obtain ⟨hcode, hsources⟩ := hcited s hmem
  have hmerged : ∃ j ∈ (Dockerfile.parse "COPY a b c /x/".toList).instructions,
      j.copySources ≠ ["a b".toList, "c".toList] := by decide
  refine ⟨s, Rule.mem_runAll.2 ⟨Rule.combineCopies, by simp [Rule.all], rfl, hmem⟩, hcode,
    by simp [hafter], fun halike => ?_⟩
  obtain ⟨j, hj, hne⟩ := hmerged
  exact hne ((halike.copySources_eq hafter j hj).trans hsources)

end LayerLint
