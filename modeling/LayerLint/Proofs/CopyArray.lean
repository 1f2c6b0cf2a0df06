import LayerLint.Proofs.ExecForm
import LayerLint.Proofs.Ink

/-!
# `COPY` and `ADD` with an array

The paths of a `COPY` can be written as an array, and its flags stand in front of that. An array is
looked for only where the arguments start, so flags hide it: the words of its text are taken for the
paths (`splitArguments_arrayText`). The paths of the array are read if and only if there are no
flags (`parse_readsArray_iff`). They cannot come out of the words by chance, since the brackets have
ink.
-/

namespace LayerLint

open Text (AtLineStart AtLineEnd)

/-! ## A line among others -/

namespace Dockerfile

/-- A line that is not continued is read the same in front of other lines. -/
theorem mem_parse_append {line b : Text} (hline : EndsLine line) (hskip : isSkippable line = false)
    (hb : AtLineEnd b) {j : Instruction} (hj : j ∈ (parse line).instructions) :
    j ∈ (parse (line ++ b)).instructions := by
  obtain ⟨rest, hrest⟩ := exists_parse_append hb
  rw [hrest line hline hskip]
  exact List.mem_append_left _ hj

/-- The same behind lines that leave no continuation open, but for the number of the line. -/
theorem relabel_mem_parse {a line b : Text} (ha : AtLineStart a)
    (hclosed : LogicalLine.EndsClosed a.lines) (hb : AtLineEnd b) (hline : EndsLine line)
    (hskip : isSkippable line = false) {j : Instruction} (hj : j ∈ (parse line).instructions) :
    j.relabel (· + a.lines.length) ∈ (parse (a ++ line ++ b)).instructions := by
  rw [List.append_assoc, parse_instructions_append _ ha hclosed]
  exact List.mem_append_right _ (List.mem_map_of_mem (mem_parse_append hline hskip hb hj))

end Dockerfile

/-! ## Flags in front of an array -/

def arrayText (flags : List Text) (array : Text) : Text := Text.join [' '] (flags ++ [array])

theorem arrayText_eq (flags : List Text) (array : Text) :
    arrayText flags array = flags.flatMap (· ++ [' ']) ++ array := by
  unfold arrayText
  induction flags with
  | nil => exact Text.join_singleton _ _
  | cons f flags ih =>
    obtain ⟨w, ws, hws⟩ : ∃ w ws, flags ++ [array] = w :: ws :=
      List.exists_cons_of_ne_nil (by simp)
    rw [List.cons_append, hws, Text.join_cons_cons, ← hws, ih, List.flatMap_cons]
    simp only [List.append_assoc]

def AreFlags (flags : List Text) : Prop :=
  ∀ f ∈ flags, Instruction.isFlag f = true ∧ ∀ c ∈ f, isBlank c = false

theorem Instruction.head?_of_isFlag {f : Text} (h : isFlag f = true) : f.head? = some '-' := by
  obtain ⟨rest, rfl⟩ := List.isPrefixOf_iff_prefix.1 h
  rfl

section
variable {flags ws : List Text} {array : Text}

theorem AreFlags.isWord (h : AreFlags flags) {f : Text} (hf : f ∈ flags) : f.IsWord where
  ne_nil := by
    rintro rfl
    cases (h _ hf).1
  solid := (h f hf).2

theorem words_arrayText (h : AreFlags flags) :
    (arrayText flags array).words = flags ++ array.words := by
  rw [arrayText_eq]
  induction flags with
  | nil => rfl
  | cons f flags ih =>
    obtain ⟨-, hrest⟩ := List.forall_mem_cons.1 h
    rw [List.flatMap_cons, List.append_assoc, List.append_assoc, List.singleton_append,
      Text.words_append_cons (by decide), (h.isWord (List.mem_cons_self ..)).words, ih hrest]
    rfl

variable (harray : Json.stringList? array = some ws)
include harray

theorem endsLine_arrayText (h : AreFlags flags) (hline : '\n' ∉ array) :
    EndsLine (arrayText flags array) where
  one_line hmem := by
    rcases Text.mem_join hmem with hsep | ⟨w, hw, hmem⟩
    · exact absurd hsep (by decide)
    · rcases List.mem_append.1 hw with hw | hw
      · exact (h.isWord hw).newline_notMem hmem
      · exact hline (List.mem_singleton.1 hw ▸ hmem)
  closed := by
    rw [arrayText_eq]
    exact continues_append_array harray _

/-- The first word of an array starts with the bracket. -/
theorem isFlag_of_head?_words {w : Text} (hw : array.words.head? = some w) :
    Instruction.isFlag w = false := by
  have hopen := Text.head?_words array
  rw [hw, (Json.stringList?_trim harray).1] at hopen
  refine Bool.eq_false_iff.2 fun hflag => ?_
  rw [Option.bind_some, Instruction.head?_of_isFlag hflag] at hopen
  cases hopen

/-- An array is read only where the arguments start. -/
theorem splitArguments_arrayText (h : AreFlags flags) :
    Instruction.splitArguments (arrayText flags array) =
      if flags = [] then ws else flags ++ array.words := by
  rw [Instruction.splitArguments_eq, words_arrayText h]
  cases flags with
  | nil =>
    rw [show arrayText [] array = array from Text.join_singleton _ _,
      (Json.stringList?_trim harray).2.2]
    rfl
  | cons f flags =>
    have hhead : (arrayText (f :: flags) array).trim.head? = some '-' := by
      rw [← Text.head?_words, words_arrayText h]
      exact Instruction.head?_of_isFlag (h f (List.mem_cons_self ..)).1
    rw [Instruction.stringList?_eq_none (by rw [hhead]; decide)]
    rfl

/-- The words of an array have more ink than its members. -/
theorem words_ne_of_array : array.words ≠ ws := by
  rintro rfl
  have hink := Json.ink_stringList? harray
  rw [Text.inkOf_words] at hink
  exact Nat.lt_irrefl _ hink

end

/-! ## The paths of a `COPY` -/

namespace Instruction

theorem flags_positional_of_arguments {i : Instruction} {fs ps : List Text}
    (h : i.arguments = fs ++ ps) (hfs : AreFlags fs)
    (hps : ∀ p, ps.head? = some p → isFlag p = false) : i.flags = fs ∧ i.positional = ps := by
  have hall : ∀ f ∈ fs, isFlag f = true := fun f hf => (hfs f hf).1
  unfold flags positional
  rw [h, List.takeWhile_append_of_pos hall, List.dropWhile_append_of_pos hall]
  cases ps with
  | nil => exact ⟨List.append_nil _, rfl⟩
  | cons p ps => simp [hps p rfl]

theorem flags_positional_of_arrayText {i : Instruction} {fs ws : List Text} {array : Text}
    (h : i.arguments = splitArguments (arrayText fs array)) (hfs : AreFlags fs)
    (harray : Json.stringList? array = some ws)
    (hfirst : ∀ w, ws.head? = some w → isFlag w = false) :
    i.flags = fs ∧ i.positional = if fs = [] then ws else array.words := by
  rw [splitArguments_arrayText harray hfs] at h
  split at h
  · next hnil =>
    subst hnil
    exact flags_positional_of_arguments h hfs hfirst
  · next hne =>
    rw [if_neg hne]
    exact flags_positional_of_arguments h hfs fun w hw => isFlag_of_head?_words harray hw

theorem copiesWholeContext_iff {i : Instruction} (hcopy : i.isCopyLike = true) :
    i.copiesWholeContext = true ↔
      (∀ f ∈ i.flags, f ≠ "--from".toList ∧ ¬ "--from=".toList <+: f) ∧
        (".".toList ∈ i.copySources ∨ "./".toList ∈ i.copySources) := by
  have hname : "--from".toList ++ ['='] = "--from=".toList := by decide
  unfold copiesWholeContext hasFlag
  rw [hcopy, hname]
  simp only [Bool.true_and, Bool.and_eq_true, Bool.not_eq_true', List.any_eq_false,
    List.any_eq_true, Bool.or_eq_true, decide_eq_true_eq, List.isPrefixOf_iff_prefix, not_or,
    and_or_left, exists_or, exists_eq_right]

/-- The instruction copies the paths of an array behind flags. -/
structure ReadsArray (i : Instruction) (fs ws : List Text) : Prop where
  flags : i.flags = fs
  positional : i.positional = ws
  sources : i.copySources = ws.dropLast
  whole : i.copiesWholeContext = true ↔
    (∀ f ∈ fs, f ≠ "--from".toList ∧ ¬ "--from=".toList <+: f) ∧
      (".".toList ∈ ws.dropLast ∨ "./".toList ∈ ws.dropLast)

theorem readsArray_iff {i : Instruction} (hcopy : i.isCopyLike = true) {fs ws : List Text} :
    i.ReadsArray fs ws ↔ i.flags = fs ∧ i.positional = ws := by
  refine ⟨fun h => ⟨h.flags, h.positional⟩, ?_⟩
  rintro ⟨rfl, rfl⟩
  exact ⟨rfl, rfl, rfl, copiesWholeContext_iff hcopy⟩

end Instruction

namespace Dockerfile

open Instruction (isFlag)

/-- A `COPY` or an `ADD` with an array is read as the array says if and only if no flags stand in
front of it. Behind flags the paths are the words of the array's text. -/
theorem parse_readsArray_iff {d : Directive} (hd : d = .copy ∨ d = .add) {flags ws : List Text}
    {a array b : Text} (ha : AtLineStart a) (hclosed : LogicalLine.EndsClosed a.lines)
    (hb : AtLineEnd b) (hflags : AreFlags flags) (harray : Json.stringList? array = some ws)
    (hline : '\n' ∉ array) (hfirst : ∀ w, ws.head? = some w → isFlag w = false) :
    ∃ i ∈ (parse (a ++ (d.keyword ++ ' ' :: arrayText flags array) ++ b)).instructions,
      i.line = a.lines.length + 1 ∧ i.directive = d ∧ i.flags = flags ∧
        (flags ≠ [] → i.positional = array.words) ∧ (i.ReadsArray flags ws ↔ flags = []) := by
  have hends := endsLine_arrayText harray hflags hline
  let j : Instruction := .onLine d 1 (arrayText flags array)
  have hmem : j ∈ (parse (d.keyword ++ ' ' :: arrayText flags array)).instructions := by
    rw [parse_keyword_append d hends]
    exact List.mem_singleton_self j
  have hcopy : (j.relabel (· + a.lines.length)).isCopyLike = true := by
    rcases hd with rfl | rfl <;> rfl
  obtain ⟨hfound, hpaths⟩ := Instruction.flags_positional_of_arrayText
    (i := j.relabel (· + a.lines.length)) rfl hflags harray hfirst
  refine ⟨_, relabel_mem_parse ha hclosed hb (hends.keyword_append _)
    (isSkippable_keyword_append _ _) hmem, Nat.add_comm 1 _, rfl, hfound, fun hne => ?_, ?_⟩
  · rw [hpaths, if_neg hne]
  · rw [Instruction.readsArray_iff hcopy, and_iff_right hfound, hpaths]
    split
    · next hnil => exact iff_of_true rfl hnil
    · next hne => exact iff_of_false (words_ne_of_array harray) hne

/-- Without flags a path can have a space in it, and an escape can spell the dot. -/
theorem parse_readsArray_of_escape :
    let array : Text := " [\"\\u002e\" , \"/my app/\"]".toList
    let ws : List Text := [".".toList, "/my app/".toList]
    Json.stringList? array = some ws ∧
      ∃ i ∈ (parse ("FROM node:18\nRUN a && \\\n  b\n".toList ++
          (Directive.copy.keyword ++ ' ' :: arrayText [] array) ++
            "\r\nCMD node\n".toList)).instructions,
        i.line = 4 ∧ i.ReadsArray [] ws := by
  intro array ws
  have harray : Json.stringList? array = some ws := by decide +kernel
  have hclosed : LogicalLine.EndsClosed
      (Text.lines "FROM node:18\nRUN a && \\\n  b\n".toList) := by
    intro line hline
    rw [← Option.some.inj hline]
    decide
  have hflags : AreFlags [] := List.forall_mem_nil _
  obtain ⟨i, hi, hline, -, -, -, hreads⟩ := parse_readsArray_iff (.inl rfl) (.inr (by decide))
    hclosed (.inr (.inr ⟨_, rfl⟩)) hflags harray (by decide)
    fun w hw => by rw [← Option.some.inj hw]; decide
  exact ⟨harray, i, hi, hline, hreads.2 rfl⟩

/-- Behind a flag the brackets and quotes of the array are part of the paths. -/
theorem not_readsArray_of_flag :
    Json.stringList? "[\".\", \"/x/\"]".toList = some [".".toList, "/x/".toList] ∧
      ∃ i ∈ (parse "COPY --chown=app [\".\", \"/x/\"]\n".toList).instructions,
        ¬ i.ReadsArray ["--chown=app".toList] [".".toList, "/x/".toList] := by
  obtain ⟨i, hi, hpaths⟩ : ∃ i ∈ (parse "COPY --chown=app [\".\", \"/x/\"]\n".toList).instructions,
      i.positional = ["[\".\",".toList, "\"/x/\"]".toList] := by decide +kernel
  refine ⟨by decide +kernel, i, hi, fun h => ?_⟩
  exact absurd (hpaths.symm.trans h.positional) (by decide)

end Dockerfile

end LayerLint
