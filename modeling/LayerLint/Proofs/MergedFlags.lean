import LayerLint.Proofs.ArgumentWords

/-!
# Flags of the merged `RUN`

In the text that replaces several `RUN`s each command stands with its flags, but only those of the
first one are in front of everything else: the flags of the others stand behind an operator
(`exists_parse_marked_chain`). So the merged `RUN` has the flags of the first one, and loses every
flag that this does not have (`analyze_mergedFlags`). The last command may end in a continuation
mark, which is dropped when the text is read; the flags do not depend on it.
-/

namespace LayerLint

open LogicalLine (ClosedText TrimmedText)

/-! ## Arguments of the merged text -/

/-- A logical line that holds `RUN` and a text reads as a `RUN`, whatever the text is. -/
theorem exists_ofLogicalLine?_run {l : LogicalLine} {text : Text}
    (hl : l.text = ['R', 'U', 'N', ' '] ++ text) :
    ∃ j, Instruction.ofLogicalLine? l = some j ∧ j.directive = .run ∧
      j.argsText.trim = text.trim := by
  have hkeyword : l.keyword = ['R', 'U', 'N'] := by
    unfold LogicalLine.keyword
    rw [hl]
    rfl
  have hargs : l.argsText.trim = text.trim := by
    unfold LogicalLine.argsText
    rw [hl, Text.trim_dropWhile_isSpaceOrTab]
    show Text.trimEnd (Text.trimStart (' ' :: text)) = _
    rw [show Text.trimStart (' ' :: text) = text.trimStart from
      List.dropWhile_cons_of_pos (by decide)]
    rfl
  unfold Instruction.ofLogicalLine?
  rw [hkeyword]
  exact ⟨_, rfl, rfl, hargs⟩

/-- Behind the words of the first command the arguments have an operator, unless the whole text
happens to be an array. -/
theorem exists_parse_marked_chain {c : Text} {cs : List Text}
    (hcs : ∀ d ∈ c :: cs, TrimmedText d ∧ d ≠ []) (hne : cs ≠ []) :
    ∃ j more, (Dockerfile.parse (Rule.mergedRun (c :: cs))).instructions = [j] ∧
      j.directive = .run ∧ (c.trim.head? ≠ some '[' → j.ShellForm) ∧
      (j.ShellForm → j.arguments = c.words ++ ['&', '&'] :: more) := by
  obtain ⟨d, ds, rfl⟩ := List.exists_cons_of_ne_nil hne
  obtain ⟨⟨hc, hcne⟩, hcs⟩ := List.forall_mem_cons.1 hcs
  have hpart : LinePart (['R', 'U', 'N', ' '] ++ c) :=
    .of_trimmed (by decide) rfl (by decide) (by decide) hc hcne
  have htext : Rule.mergedRun (c :: d :: ds) =
      [] ++ (['R', 'U', 'N', ' '] ++ c) ++ (d :: ds).flatMap (lineBreak ++ ·) := by
    show ['R', 'U', 'N', ' '] ++ (Text.join lineBreak (c :: d :: ds) ++ []) = _
    rw [List.append_nil, Text.join_cons, List.nil_append, List.append_assoc]
  have hnone : ∀ l : LogicalLine, none = some l → l.text ≠ [] := by simp
  have hempty : ∀ c ∈ ([] : Text), isBlank c ∧ c ≠ '\n' := by simp
  obtain ⟨l, hscan, hl⟩ :=
    scan_marked_chain hcs hnone hempty hpart (fun hnil => absurd hnil hne) 0
  obtain ⟨behind, hapart, hl⟩ : ∃ behind : Text, behind.StartsApart ∧
      l.text = ['R', 'U', 'N', ' '] ++ (c ++ ' ' :: (['&', '&'] ++ behind)) := by
    refine ⟨unmarked (' ' :: (d ++ ds.flatMap (joint ++ ·))), ?_, ?_⟩
    · obtain ⟨T, -, hT⟩ := exists_eq_unmarked_append (' ' :: (d ++ ds.flatMap (joint ++ ·)))
      intro x hx
      obtain ⟨u, hu⟩ := List.head?_eq_some_iff.1 hx
      rw [hu] at hT
      rw [← (List.cons.inj hT).1]
      decide
    · rw [hl, List.flatMap_cons, List.append_assoc joint, unmarked_joint hpart.one_line,
        unmarked_chainOperator, List.append_assoc]
      rfl
  obtain ⟨j, hj, hrun, htrim⟩ := exists_ofLogicalLine?_run hl
  have hparse : (Dockerfile.parse (Rule.mergedRun (c :: d :: ds))).instructions = [j] := by
    rw [Dockerfile.parse_instructions_eq, htext, hscan, List.filterMap_cons_some hj]
    rfl
  have hsolid : ∃ x ∈ c, isBlank x = false :=
    ⟨_, List.getLast_mem hcne, hc.last _ (List.getLast?_eq_some_getLast hcne)⟩
  have hword : Text.IsWord ['&', '&'] := by decide
  refine ⟨j, behind.words, hparse, hrun, fun hhead => ?_, fun hshell => ?_⟩
  · refine Instruction.stringList?_eq_none ?_
    rw [htrim, Text.head?_trim_append hsolid]
    exact hhead
  · rw [hshell.arguments_eq (hparse ▸ List.mem_singleton_self j), ← Text.words_trim, htrim,
      Text.words_trim, Text.words_append_cons (by decide), hword.words_append hapart]

/-! ## Flags in front of a command -/

def StartsSolid (a : Text) : Prop := ∃ c, a.head? = some c ∧ isBlank c = false

theorem exists_prefix_words {t : Text} (h : StartsSolid t) :
    ∃ w ws, t.words = w :: ws ∧ w <+: t := by
  obtain ⟨c, hhead, hc⟩ := h
  induction t using Text.word_induction with
  | blank w hw =>
    rw [hw c (List.mem_of_mem_head? hhead)] at hc
    cases hc
  | word w v t hw hv ht _ =>
    cases w with
    | nil => exact ⟨v, t.words, hv.words_append ht, List.prefix_append v t⟩
    | cons d w =>
      rw [← Option.some.inj hhead, hw d (List.mem_cons_self ..)] at hc
      cases hc

/-- The flags stand in front of a command that is made of the arguments. -/
theorem takeWhile_words_join {flags rest : List Text}
    (hflags : ∀ f ∈ flags, f.IsWord ∧ Instruction.isFlag f = true)
    (hrest : ∀ a, rest.head? = some a → StartsSolid a ∧ Instruction.isFlag a = false) :
    (Text.join [' '] (flags ++ rest)).words.takeWhile Instruction.isFlag = flags := by
  induction flags with
  | nil =>
    cases rest with
    | nil => rfl
    | cons a rest =>
      obtain ⟨⟨c, hhead, hc⟩, hnot⟩ := hrest a rfl
      obtain ⟨a, rfl⟩ := List.head?_eq_some_iff.1 hhead
      have hapart : Text.StartsApart (rest.flatMap ([' '] ++ ·)) := by
        cases rest with
        | nil => exact fun _ hx => nomatch hx
        | cons b rest => exact Text.startsApart_cons (by decide) _
      rw [List.nil_append, Text.join_cons]
      obtain ⟨w, ws, hwords, hprefix⟩ :=
        exists_prefix_words (t := c :: a ++ rest.flatMap ([' '] ++ ·)) ⟨c, rfl, hc⟩
      rw [hwords, List.takeWhile_cons_of_neg]
      intro hw
      have hwhole := List.isPrefixOf_iff_prefix.2
        ((List.isPrefixOf_iff_prefix.1 hw).trans hprefix)
      rw [Instruction.isFlag_of_append (List.cons_ne_nil c a) hapart hwhole] at hnot
      cases hnot
  | cons f flags ih =>
    obtain ⟨⟨hword, hflag⟩, hflags⟩ := List.forall_mem_cons.1 hflags
    have ih := ih hflags
    rw [List.cons_append]
    cases hnext : flags ++ rest with
    | nil =>
      obtain ⟨rfl, -⟩ := List.append_eq_nil_iff.1 hnext
      rw [Text.join_singleton, hword.words, List.takeWhile_cons_of_pos hflag]
      rfl
    | cons a more =>
      rw [hnext] at ih
      rw [Text.join_cons_cons, List.singleton_append,
        hword.words_append (Text.startsApart_cons (by decide) _),
        List.takeWhile_cons_of_pos hflag, Text.words_cons_of_blank (by decide), ih]

/-! ## Suggestions that lose flags -/

/-- The commands can stand on lines of their own, and the first one can be told from its flags. -/
structure Chainable (is : List Instruction) : Prop where
  trimmed : ∀ i ∈ is, TrimmedText i.command
  flags : ∀ i, is.head? = some i → ∀ flag ∈ i.flags, flag.IsWord
  positional : ∀ i, is.head? = some i → ∀ a, i.positional.head? = some a → StartsSolid a

theorem startsSolid_of_isWord {a : Text} (h : a.IsWord) : StartsSolid a :=
  ⟨_, List.head?_eq_some_head h.ne_nil, h.solid _ (List.head_mem _)⟩

section
variable {t : Text} {i : Instruction} (hi : i ∈ (Dockerfile.parse t).instructions)
include hi

theorem Instruction.ShellForm.trimmedText_command (hshell : i.ShellForm) :
    TrimmedText i.command := by
  by_cases hopen : i.argsText.trim.head? = some '['
  · have hwords : ∀ a ∈ i.arguments, a.IsWord := fun a ha => hshell.isWord hi ha
    rw [command_of_bracket hopen]
    refine ⟨Text.newline_notMem_join hwords, fun c hc => ?_⟩
    rw [Text.getLast?_join _ fun a ha => (hwords a ha).ne_nil] at hc
    obtain ⟨a, ha, hc⟩ := Option.bind_eq_some_iff.1 hc
    exact (hwords a (List.mem_of_mem_getLast? ha)).solid c (List.mem_of_mem_getLast? hc)
  · rw [command_of_shell hopen]
    exact Dockerfile.trimmedText_argsText hi

/-- The command starts with the flags of its instruction, and with no other ones. -/
theorem Instruction.takeWhile_words_command (hflags : ∀ flag ∈ i.flags, flag.IsWord)
    (hpositional : ∀ a, i.positional.head? = some a → StartsSolid a) :
    i.command.words.takeWhile isFlag = i.flags := by
  by_cases hopen : i.argsText.trim.head? = some '['
  · have hsplit : i.flags ++ i.positional = i.arguments := List.takeWhile_append_dropWhile
    rw [command_of_bracket hopen, ← hsplit]
    refine takeWhile_words_join (fun f hf => ⟨hflags f hf, ?_⟩) fun a ha => ⟨hpositional a ha, ?_⟩
    · exact List.all_eq_true.1 List.all_takeWhile f hf
    · have hnot := List.head?_dropWhile_not isFlag i.arguments
      unfold positional at ha
      simpa [ha] using hnot
  · have hshell : i.ShellForm := stringList?_eq_none hopen
    rw [hshell.words_command hi]
    rfl

end

theorem chainable_of_shellForm {t : Text} {is : List Instruction}
    (hmem : ∀ i ∈ is, i ∈ (Dockerfile.parse t).instructions) (hshell : ∀ i ∈ is, i.ShellForm) :
    Chainable is := by
  have hwords : ∀ i, is.head? = some i → ∀ a ∈ i.arguments, a.IsWord := fun i hi a ha =>
    have hi := List.mem_of_mem_head? hi
    (hshell i hi).isWord (hmem i hi) ha
  refine ⟨fun i hi => (hshell i hi).trimmedText_command (hmem i hi), ?_, ?_⟩
  · exact fun i hi flag hflag => hwords i hi flag ((List.takeWhile_prefix _).subset hflag)
  · exact fun i hi a ha => startsSolid_of_isWord
      (hwords i hi a ((List.dropWhile_suffix _).subset (List.mem_of_mem_head? ha)))

/-- The proposed text reads as one `RUN` that has every flag of the cited ones. -/
def Suggestion.KeepsFlags (s : Suggestion) (d : Dockerfile) : Prop :=
  ∃ after j, s.after = some after ∧ (Dockerfile.parse after).instructions = [j] ∧
    j.directive = .run ∧ ∀ i ∈ d.cited s, ∀ flag ∈ i.flags, flag ∈ j.flags

theorem Suggestion.KeepsFlags.mem_flags {s : Suggestion} {d : Dockerfile} (h : s.KeepsFlags d)
    {after : Text} (hafter : s.after = some after) :
    ∀ i ∈ d.cited s, ∀ flag ∈ i.flags,
      ∀ j ∈ (Dockerfile.parse after).instructions, flag ∈ j.flags := by
  obtain ⟨after', j', hafter', hj', -, hkeeps⟩ := h
  obtain rfl := Option.some.inj (hafter'.symm.trans hafter)
  intro i hi flag hflag j hj
  rw [show j = j' from List.mem_singleton.1 (hj' ▸ hj)]
  exact hkeeps i hi flag hflag

theorem takeWhile_append_cons_of_neg {α : Type} {p : α → Bool} {x : α} (hx : p x = false)
    (xs ys : List α) : (xs ++ x :: ys).takeWhile p = xs.takeWhile p := by
  induction xs with
  | nil => exact List.takeWhile_cons_of_neg (by simp [hx])
  | cons y xs ih => rw [List.cons_append, List.takeWhile_cons, List.takeWhile_cons, ih]

/-- The text that is proposed for several installs, or for an update and its install, reads as one
`RUN`. Unless it happens to be an array, that has the flags of the first one cited, so it keeps all
their flags if and only if the first one has them. The commands have to be chainable for this, and
in shell form they always are. -/
theorem analyze_mergedFlags (ignore : List Text) {t : Text} {s : Suggestion}
    (hs : s ∈ (analyze ignore t).suggestions)
    (hcode : s.code = "DFO001".toList ∨ s.code = "DFO002".toList ∧ s.after ≠ none) :
    ∃ first rest after, (Dockerfile.parse t).cited s = first :: rest ∧ s.after = some after ∧
      ((∀ i ∈ first :: rest, i.ShellForm) → Chainable (first :: rest)) ∧
      (Chainable (first :: rest) →
        ∃ j, (Dockerfile.parse after).instructions = [j] ∧ j.directive = .run ∧
          (first.command.trim.head? ≠ some '[' → j.ShellForm) ∧
          (j.ShellForm → j.flags = first.flags ∧
            (s.KeepsFlags (Dockerfile.parse t) ↔
              ∀ i ∈ rest, ∀ flag ∈ i.flags, flag ∈ first.flags))) := by
  obtain ⟨m, is, hsub, hm, hcited⟩ := Rule.exists_merges hs hcode
  obtain ⟨first, rest, rfl⟩ := List.exists_cons_of_ne_nil (show is ≠ [] by
    rintro rfl
    exact absurd hm.several (by decide))
  refine ⟨first, rest, _, hcited, hm.after, ?_, fun hchain => ?_⟩
  · exact chainable_of_shellForm fun i hi => hsub.subset hi
  · have hcommands : ∀ d ∈ (first :: rest).map (·.command), TrimmedText d ∧ d ≠ [] := by
      intro d hd
      obtain ⟨i, hi, rfl⟩ := List.mem_map.1 hd
      exact ⟨hchain.trimmed i hi, (hm.runs i hi).2⟩
    have hne : rest.map (·.command) ≠ [] := by
      intro hnil
      rw [List.map_eq_nil_iff] at hnil
      rw [hnil] at hm
      exact absurd (show 2 ≤ 1 from hm.several) (by decide)
    obtain ⟨j, more, hparse, hrun, hshell, harguments⟩ := exists_parse_marked_chain hcommands hne
    refine ⟨j, hparse, hrun, hshell, fun hform => ?_⟩
    have hj : j.flags = first.flags := by
      unfold Instruction.flags
      rw [harguments hform, takeWhile_append_cons_of_neg rfl]
      exact Instruction.takeWhile_words_command (hsub.subset (List.mem_cons_self ..))
        (hchain.flags first rfl) (hchain.positional first rfl)
    refine ⟨hj, ?_, ?_⟩
    · intro hkeeps i hi flag hflag
      exact hj ▸ hkeeps.mem_flags hm.after i (hcited ▸ List.mem_cons_of_mem first hi) flag hflag j
        (hparse ▸ List.mem_singleton_self j)
    · intro hall
      refine ⟨_, j, hm.after, hparse, hrun, ?_⟩
      rw [hcited, hj]
      exact List.forall_mem_cons.2 ⟨fun _ hflag => hflag, hall⟩

/-- Only the update has a flag, and the install goes on to a second line. -/
theorem analyze_mergedFlags_of_first :
    ∃ s ∈ (analyze [] "RUN --network=host apk update\nRUN apk add \\\n  git\n".toList).suggestions,
      s.code = "DFO002".toList ∧ s.after ≠ none ∧
      ∃ first rest, (Dockerfile.parse
          "RUN --network=host apk update\nRUN apk add \\\n  git\n".toList).cited s =
            first :: rest ∧
        Chainable (first :: rest) ∧ first.flags = ["--network=host".toList] ∧
        s.KeepsFlags (Dockerfile.parse
          "RUN --network=host apk update\nRUN apk add \\\n  git\n".toList) := by
  have hs : (Rule.separateUpdate.detect (Dockerfile.parse
      "RUN --network=host apk update\nRUN apk add \\\n  git\n".toList)).head (by decide) ∈
        (analyze [] "RUN --network=host apk update\nRUN apk add \\\n  git\n".toList).suggestions :=
    Rule.mem_runAll.2 ⟨Rule.separateUpdate, by simp [Rule.all], rfl, List.head_mem _⟩
  obtain ⟨first, rest, after, hcited, -, hshell, hmerged⟩ :=
    analyze_mergedFlags [] hs (.inr ⟨by decide, by decide⟩)
  have hchain := hshell (hcited ▸ by decide)
  have hfirst : ∀ i, (first :: rest).head? = some i →
      i.flags = ["--network=host".toList] ∧ i.command.trim.head? ≠ some '[' :=
    hcited ▸ by decide
  have hrest : ∀ i ∈ (first :: rest).tail, i.flags = [] := hcited ▸ by decide
  obtain ⟨j, -, -, hform, hkeeps⟩ := hmerged hchain
  refine ⟨_, hs, by decide, by decide, first, rest, hcited, hchain, (hfirst first rfl).1,
    (hkeeps (hform (hfirst first rfl).2)).2.2 ?_⟩
  intro i hi flag hflag
  rw [hrest i hi] at hflag
  cases hflag

/-- The mount of the second install stands behind the operator. -/
theorem not_keepsFlags_of_second_mount :
    ∃ s ∈ (analyze [] ("RUN apt-get install a\n" ++
        "RUN --mount=type=cache,target=/var/cache/apt apt-get install b\n").toList).suggestions,
      s.code = "DFO001".toList ∧
      ¬ s.KeepsFlags (Dockerfile.parse ("RUN apt-get install a\n" ++
        "RUN --mount=type=cache,target=/var/cache/apt apt-get install b\n").toList) := by
  have hs : (Rule.combineInstalls.detect (Dockerfile.parse ("RUN apt-get install a\n" ++
      "RUN --mount=type=cache,target=/var/cache/apt apt-get install b\n").toList)).head
        (by decide) ∈ (analyze [] ("RUN apt-get install a\n" ++
        "RUN --mount=type=cache,target=/var/cache/apt apt-get install b\n").toList).suggestions :=
    Rule.mem_runAll.2 ⟨Rule.combineInstalls, by simp [Rule.all], rfl, List.head_mem _⟩
  exact ⟨_, hs, by decide, fun hkeeps => absurd (hkeeps.mem_flags rfl) (by decide)⟩

end LayerLint
