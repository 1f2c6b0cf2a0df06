import LayerLint.Proofs.CleanedRun
import LayerLint.Proofs.StringList

/-!
# Arguments and the text they stand in

The arguments of an instruction are the members of an array, or else the words behind the keyword
(`splitArguments_eq`). Either way each of them stands in the command as it is
(`infix_command_of_mem`). In shell form the words of the command are the arguments again
(`words_command`), so they are read back from any line that has the command on it.
-/

namespace LayerLint

open LogicalLine (ClosedText TrimmedText EndsClosed)

namespace Text

/-! ## Words at the ends of a text -/

theorem words_append_blank (t : Text) {w : Text} (hw : ∀ c ∈ w, isBlank c) :
    words (t ++ w) = words t := by
  cases w with
  | nil => rw [List.append_nil]
  | cons c w =>
    obtain ⟨hc, hw⟩ := List.forall_mem_cons.1 hw
    rw [words_append_cons hc, words_of_blank hw, List.append_nil]

theorem trim_trim (t : Text) : trim (trim t) = trim t := by
  show trim (trimEnd t.trimStart) = trimEnd t.trimStart
  rw [trim_trimEnd]
  unfold trim trimStart
  rw [List.dropWhile_idempotent]

theorem words_trim (t : Text) : words t.trim = words t := by
  obtain ⟨w, hw, ht⟩ := exists_eq_trimEnd_append t.trimStart
  have h := words_append_blank (trimEnd t.trimStart) hw
  rw [← ht, words_trimStart] at h
  exact h.symm

/-- The first word starts where the text does but for the white space in front of it. -/
theorem head?_words (t : Text) : (words t).head?.bind List.head? = t.trim.head? := by
  rw [head?_trim, ← head?_trimStart]
  induction t using word_induction with
  | blank w hw =>
    rw [words_of_blank hw, show w.trimStart = [] from List.dropWhile_eq_nil_iff.2 hw]
    rfl
  | word w v t hw hv ht _ =>
    obtain ⟨c, v', rfl⟩ := List.exists_cons_of_ne_nil hv.ne_nil
    rw [words_blank_append hw, hv.words_append ht, trimStart_blank_append hw hv]
    rfl

/-- The last word ends where the text does when there is no white space at its end. -/
theorem getLast?_words {t : Text} {c : Char} (hlast : t.getLast? = some c)
    (hc : isBlank c = false) : (words t).getLast?.bind List.getLast? = some c := by
  induction t using word_induction with
  | blank w hw =>
    rw [hw c (List.mem_of_mem_getLast? hlast)] at hc
    cases hc
  | word w v t hw hv ht ih =>
    rw [words_blank_append hw, hv.words_append ht, List.getLast?_cons]
    by_cases hnil : t = []
    · subst hnil
      rw [List.append_nil, List.getLast?_append_of_ne_nil w hv.ne_nil] at hlast
      exact hlast
    · have hsuffix : t <:+ w ++ (v ++ t) := (List.suffix_append v t).trans (List.suffix_append w _)
      have hlast := ih ((getLast?_of_suffix hsuffix hnil).trans hlast)
      obtain ⟨u, hu, -⟩ := Option.bind_eq_some_iff.1 hlast
      rw [hu] at hlast ⊢
      exact hlast

theorem infix_of_mem_words {t v : Text} (h : v ∈ words t) : v <:+: t := by
  induction t using word_induction with
  | blank w hw => exact absurd (words_of_blank hw ▸ h) List.not_mem_nil
  | word w u t hw hu ht ih =>
    rw [words_blank_append hw, hu.words_append ht] at h
    rcases List.mem_cons.1 h with rfl | h
    · exact ⟨w, t, List.append_assoc ..⟩
    · exact (ih h).trans ((List.suffix_append u t).trans (List.suffix_append w _)).isInfix

theorem infix_join_of_mem (sep : Text) {ws : List Text} {w : Text} (h : w ∈ ws) :
    w <:+: join sep ws := by
  induction ws with
  | nil => cases h
  | cons v ws ih =>
    rcases List.mem_cons.1 h with rfl | h
    · rw [join_cons]
      exact (List.prefix_append _ _).isInfix
    · obtain ⟨u, ws, rfl⟩ := List.exists_cons_of_ne_nil (List.ne_nil_of_mem h)
      rw [join_cons_cons]
      exact (ih h).trans ((List.suffix_append sep _).trans (List.suffix_append v _)).isInfix

end Text

/-! ## Where arguments come from -/

namespace Instruction

def ShellForm (i : Instruction) : Prop := Json.stringList? i.argsText.trim = none

instance (i : Instruction) : Decidable i.ShellForm := inferInstanceAs (Decidable (_ = none))

/-- An array opens with a bracket. -/
theorem stringList?_eq_none {text : Text} (hopen : text.trim.head? ≠ some '[') :
    Json.stringList? text.trim = none := by
  refine Option.eq_none_iff_forall_ne_some.2 fun ss hss => hopen ?_
  rw [← Text.trim_trim]
  exact (Json.stringList?_trim hss).1

theorem splitArguments_eq (text : Text) :
    splitArguments text = (Json.stringList? text.trim).getD text.words := by
  unfold splitArguments
  simp only [Text.words_trim]
  split
  · rfl
  · next hopen =>
    rw [stringList?_eq_none hopen]
    rfl

/-- A word is a flag by itself, whatever stands behind it. -/
theorem isFlag_of_append {a t : Text} (ha : a ≠ []) (ht : Text.StartsApart t)
    (h : isFlag (a ++ t) = true) : isFlag a = true := by
  match a, t with
  | [], _ => exact absurd rfl ha
  | [c], [] => exact h
  | [c], d :: t =>
    -- the second dash would have to be white space
    have hd : isBlank d = true := ht d rfl
    obtain ⟨rest, hrest⟩ := List.isPrefixOf_iff_prefix.1 h
    obtain ⟨-, hrest⟩ := List.cons.inj (show '-' :: '-' :: rest = c :: d :: t from hrest)
    rw [← (List.cons.inj hrest).1] at hd
    exact absurd hd (by decide)
  | c :: d :: a, t => exact h

theorem arguments_of_mem {t : Text} {i : Instruction} (hi : i ∈ (Dockerfile.parse t).instructions) :
    i.arguments = (Json.stringList? i.argsText.trim).getD i.argsText.words := by
  obtain ⟨l, -, hli⟩ := List.mem_filterMap.1 (Dockerfile.parse_instructions t ▸ hi)
  obtain ⟨-, hargs, harguments, -⟩ := ofLogicalLine?_eq_some hli
  rw [harguments, ← hargs, splitArguments_eq]

theorem command_of_bracket {i : Instruction} (h : i.argsText.trim.head? = some '[') :
    i.command = Text.join [' '] i.arguments := by
  rw [Text.head?_trim, ← Text.head?_trimStart] at h
  exact if_pos h

section
variable {t : Text} {i : Instruction} (hi : i ∈ (Dockerfile.parse t).instructions)
include hi

/-- An argument stands in the command as it is. -/
theorem infix_command_of_mem {a : Text} (ha : a ∈ i.arguments) : a <:+: i.command := by
  by_cases hopen : i.argsText.trim.head? = some '['
  · rw [command_of_bracket hopen]
    exact Text.infix_join_of_mem _ ha
  · rw [arguments_of_mem hi, stringList?_eq_none hopen] at ha
    rw [command_of_shell hopen]
    exact Text.infix_of_mem_words ha

variable (hshell : i.ShellForm)
include hshell

theorem ShellForm.arguments_eq : i.arguments = i.argsText.words := by
  rw [arguments_of_mem hi, show Json.stringList? i.argsText.trim = none from hshell]
  rfl

theorem ShellForm.isWord {a : Text} (ha : a ∈ i.arguments) : a.IsWord :=
  Text.isWord_of_mem_words (hshell.arguments_eq hi ▸ ha)

/-- The command is the text behind the keyword, or the words of that with single spaces. -/
theorem ShellForm.words_command : i.command.words = i.arguments := by
  by_cases hopen : i.argsText.trim.head? = some '['
  · rw [command_of_bracket hopen, Text.words_join fun a ha => hshell.isWord hi ha]
  · rw [command_of_shell hopen, hshell.arguments_eq hi]

theorem ShellForm.closedText_command (hclosed : EndsClosed t.lines) (hne : i.command ≠ []) :
    ClosedText i.command := by
  by_cases hopen : i.argsText.trim.head? = some '['
  · have hargs : i.argsText ≠ [] := by
      intro hnil
      rw [hnil] at hopen
      cases hopen
    obtain ⟨c, hlast, hblank, hmark⟩ := (Dockerfile.closedText_argsText hclosed hi hargs).last
    have hwords : ∀ a ∈ i.arguments, a.IsWord := fun a ha => hshell.isWord hi ha
    have hend : (Text.join [' '] i.arguments).getLast? = some c := by
      rw [Text.getLast?_join _ fun a ha => (hwords a ha).ne_nil, hshell.arguments_eq hi]
      exact Text.getLast?_words hlast hblank
    rw [command_of_bracket hopen]
    exact ⟨Text.newline_notMem_join hwords, c, hend, hblank, hmark⟩
  · rw [command_of_shell hopen] at hne ⊢
    exact Dockerfile.closedText_argsText hclosed hi hne

end

end Instruction

end LayerLint
