import Mathlib.Data.List.Chain
import LayerLint.Proofs.Ink

/-!
# Commands that are the text behind the keyword

An array gives the command its members with spaces between them. Without an array the command should
be the text behind the keyword as it stands, but a text that opens with a bracket is taken apart
into words before anyone asks whether it is an array. So a shell test keeps its spacing only if it
has none to lose (`join_words_eq_iff`), and that is the one way in which a command differs from its
text (`command_eq_argsText_iff`). In shell form the words are the same in any case.
-/

namespace LayerLint

namespace Text

/-- The white space is single spaces, and none is at the end. -/
structure Squeezed (t : Text) : Prop where
  spaces : ∀ c ∈ t, isBlank c → c = ' '
  single : t.IsChain fun c d => isBlank c = false ∨ isBlank d = false
  last : ∀ c, t.getLast? = some c → isBlank c = false

/-- The white space is single spaces between words. -/
structure EvenlySpaced (t : Text) : Prop extends Squeezed t where
  first : ∀ c, t.head? = some c → isBlank c = false

theorem squeezed_nil : Squeezed [] where
  spaces _ h := nomatch h
  single := .nil
  last _ h := nomatch h

theorem squeezed_cons {c : Char} {t : Text} :
    Squeezed (c :: t) ↔ (isBlank c → c = ' ' ∧ t.head?.any (!isBlank ·)) ∧ Squeezed t := by
  constructor
  · intro h
    obtain ⟨hnext, hsingle⟩ := List.isChain_cons.1 h.single
    refine ⟨fun hc => ⟨h.spaces c (List.mem_cons_self ..) hc, ?_⟩, ?_, hsingle, ?_⟩
    · cases t with
      | nil => exact absurd hc (by simp [h.last c rfl])
      | cons d t => simpa [hc] using hnext d rfl
    · exact fun d hd => h.spaces d (List.mem_cons_of_mem c hd)
    · exact fun d hd => h.last d (by rw [List.getLast?_cons, hd]; rfl)
  · rintro ⟨hfirst, h⟩
    refine ⟨List.forall_mem_cons.2 ⟨fun hc => (hfirst hc).1, h.spaces⟩, ?_, fun d hd => ?_⟩
    · refine List.isChain_cons.2 ⟨fun d hd => ?_, h.single⟩
      cases hc : isBlank c with
      | false => exact .inl rfl
      | true => simpa [Option.mem_def.1 hd] using (hfirst hc).2
    · cases t with
      | nil =>
        obtain rfl : c = d := Option.some.inj hd
        exact Bool.eq_false_iff.2 fun hc => nomatch (hfirst hc).2
      | cons e t => exact h.last d (by rwa [List.getLast?_cons_cons] at hd)

theorem length_squeeze_le (t : Text) : (squeeze t).length ≤ t.length := by
  fun_induction squeeze t with
  | case1 => exact Nat.le_refl 0
  | case2 c t _ _ ih => exact Nat.succ_le_succ ih
  | case3 c t _ _ ih => exact Nat.le_succ_of_le ih
  | case4 c t _ ih => exact Nat.succ_le_succ ih

theorem squeeze_eq_self_iff (t : Text) : squeeze t = t ↔ t.Squeezed := by
  induction t with
  | nil => exact iff_of_true rfl squeezed_nil
  | cons c t ih =>
    rw [squeezed_cons, ← ih]
    cases hc : isBlank c with
    | false => simp [squeeze_cons hc]
    | true =>
      rw [squeeze, if_pos hc]
      split
      · next hnext => simp [hnext, eq_comm]
      · next hnext =>
        refine iff_of_false (fun h => ?_) fun h => hnext (h.1 rfl).2
        have hlength := length_squeeze_le t
        rw [h, List.length_cons] at hlength
        omega

/-- A text is its words with single spaces between them. -/
theorem join_words_eq_iff (t : Text) : join [' '] t.words = t ↔ t.EvenlySpaced := by
  rw [join_words]
  constructor
  · intro h
    have hsuffix : t.trimStart <:+ t := List.dropWhile_suffix isBlank
    have hstart : t.trimStart = t := by
      refine hsuffix.eq_of_length (Nat.le_antisymm hsuffix.length_le ?_)
      have hlength := length_squeeze_le t.trimStart
      rwa [h] at hlength
    rw [hstart] at h
    refine ⟨(squeeze_eq_self_iff t).1 h, fun c hc => ?_⟩
    have hfirst := List.head?_dropWhile_not isBlank t
    rw [show t.dropWhile isBlank = t from hstart, hc] at hfirst
    simpa using hfirst
  · intro h
    have hstart : t.trimStart = t := by
      cases t with
      | nil => rfl
      | cons c t => exact List.dropWhile_cons_of_neg (by simp [h.first c rfl])
    rw [hstart, squeeze_eq_self_iff]
    exact h.toSqueezed

theorem EvenlySpaced.trim_eq {t : Text} (h : t.EvenlySpaced) : t.trim = t := by
  rw [← (join_words_eq_iff t).2 h]
  exact trim_join _ fun w hw => isWord_of_mem_words hw

end Text

namespace Instruction

section
variable {t : Text} {i : Instruction} (hi : i ∈ (Dockerfile.parse t).instructions)
include hi

theorem command_of_array {ss : List Text} (h : Json.stringList? i.argsText = some ss) :
    i.command = Text.join [' '] ss := by
  obtain ⟨hopen, -, harray⟩ := Json.stringList?_trim h
  rw [command_of_bracket hopen, arguments_of_mem hi, harray]
  rfl

/-- A bracket that opens no array leaves the words and loses the spacing. -/
theorem ShellForm.command_eq_iff (hshell : i.ShellForm) (hopen : i.argsText.trim.head? = some '[') :
    i.command = i.argsText ↔ i.argsText.EvenlySpaced := by
  rw [command_of_bracket hopen, hshell.arguments_eq hi, Text.join_words_eq_iff]

/-- The members of an array have less ink than the text behind the keyword. -/
theorem command_ne_of_not_shellForm (harray : ¬ i.ShellForm) : i.command ≠ i.argsText := by
  obtain ⟨ss, hss⟩ := Option.ne_none_iff_exists'.1 harray
  obtain ⟨hopen, -, -⟩ := Json.stringList?_trim hss
  rw [Text.trim_trim] at hopen
  intro heq
  have hink := Json.ink_stringList? hss
  rw [Text.ink_trim, ← heq, command_of_bracket hopen, arguments_of_mem hi, hss, Option.getD_some,
    Text.ink_join] at hink
  exact Nat.lt_irrefl _ hink

end

end Instruction

namespace Dockerfile

/-- The command is made of the members of an array. Without an array it is the text behind the
keyword, except for a text that opens with a bracket and is not evenly spaced, and only the spacing
of that is lost. -/
theorem command_eq_argsText_iff {t : Text} {i : Instruction} (hi : i ∈ (parse t).instructions) :
    (∀ ss, Json.stringList? i.argsText = some ss → i.command = Text.join [' '] ss) ∧
      (Json.stringList? i.argsText = none → (i.command = i.argsText ↔
        i.argsText.trim.head? ≠ some '[' ∨ i.argsText.EvenlySpaced)) ∧
      (i.ShellForm → i.command.words = i.argsText.words) := by
  refine ⟨fun ss hss => Instruction.command_of_array hi hss, fun hnone => ?_, fun hshell =>
    (hshell.words_command hi).trans (hshell.arguments_eq hi)⟩
  by_cases hopen : i.argsText.trim.head? = some '['
  · rw [or_iff_right (not_not_intro hopen)]
    by_cases hshell : i.ShellForm
    · exact hshell.command_eq_iff hi hopen
    · -- an array behind white space that is not the format's
      refine iff_of_false (Instruction.command_ne_of_not_shellForm hi hshell) fun heven => ?_
      exact hshell ((congrArg Json.stringList? heven.trim_eq).trans hnone)
  · exact iff_of_true (command_of_shell hopen) (.inl hopen)

/-- A shell test over two physical lines is evenly spaced where they meet. -/
theorem command_of_continuedTest :
    ∃ i ∈ (parse "RUN [ -f a ] && \\\n  make\n".toList).instructions,
      Json.stringList? i.argsText = none ∧ i.argsText.trim.head? = some '[' ∧
        i.command = i.argsText := by
  obtain ⟨i, hi, hargs⟩ : ∃ i ∈ (parse "RUN [ -f a ] && \\\n  make\n".toList).instructions,
      i.argsText = "[ -f a ] && make".toList := by decide
  have hnone : Json.stringList? i.argsText = none := by
    rw [hargs]
    decide +kernel
  refine ⟨i, hi, hnone, by rw [hargs]; decide, ?_⟩
  refine ((command_eq_argsText_iff hi).2.1 hnone).2 (.inr ?_)
  rw [hargs]
  exact (Text.join_words_eq_iff _).1 (by decide)

/-- Two spaces behind a shell test become one. -/
theorem command_ne_argsText_of_test :
    ∃ i ∈ (parse "RUN [ -f a ]  && make\n".toList).instructions,
      Json.stringList? i.argsText = none ∧ i.command ≠ i.argsText := by
  decide +kernel

end Dockerfile

end LayerLint
