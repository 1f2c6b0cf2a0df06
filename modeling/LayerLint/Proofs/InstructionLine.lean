import LayerLint.Proofs.Concatenation
import LayerLint.Proofs.Words

/-!
# An instruction on one line

A directive, a space and a text that does not go on (`EndsLine`) make one instruction on a line of
their own (`Instruction.onLine`), whatever stands on the lines behind it
(`Dockerfile.exists_parse_keyword_append`).
-/

namespace LayerLint

/-! ## Keywords -/

theorem letter_of_isLower_toLower {c : Char} (h : c.toLower.isLower = true) :
    65 ≤ c.toNat ∧ c.toNat ≤ 90 ∨ 97 ≤ c.toNat ∧ c.toNat ≤ 122 := by
  by_cases hupper : c.val ≥ 'A'.val ∧ c.val ≤ 'Z'.val
  · exact .inl hupper
  · have hsame : c.toLower = c := dif_neg hupper
    rw [hsame] at h
    have hlower := (Bool.and_eq_true _ _).mp h
    exact .inr ⟨of_decide_eq_true hlower.1, of_decide_eq_true hlower.2⟩

namespace Directive

theorem isLower_of_mem_foldCase (d : Directive) :
    ∀ c ∈ Text.foldCase d.keyword, c.isLower = true := by
  have hall : (Text.foldCase d.keyword).all Char.isLower = true := by cases d <;> decide
  exact List.all_eq_true.1 hall

theorem ofKeyword?_keyword (d : Directive) : ofKeyword? d.keyword = some d := by
  cases d <;> decide

theorem keyword_ne_nil (d : Directive) : d.keyword ≠ [] := by
  cases d <;> decide

section
variable {keyword : Text} {d : Directive} (h : ofKeyword? keyword = some d)
include h

theorem foldCase_keyword : Text.foldCase d.keyword = keyword.foldCase := by
  unfold ofKeyword? at h
  have hfound := List.find?_some h
  exact eq_of_beq hfound

/-- A keyword is made of letters. -/
theorem letter_of_mem_keyword {c : Char} (hc : c ∈ keyword) :
    65 ≤ c.toNat ∧ c.toNat ≤ 90 ∨ 97 ≤ c.toNat ∧ c.toNat ≤ 122 := by
  apply letter_of_isLower_toLower
  apply d.isLower_of_mem_foldCase
  rw [foldCase_keyword h]
  exact List.mem_map_of_mem hc

theorem isWord_of_ofKeyword? : keyword.IsWord where
  ne_nil := by
    rintro rfl
    exact d.keyword_ne_nil (List.map_eq_nil_iff.1 (foldCase_keyword h))
  solid c hc := by
    have hletter := letter_of_mem_keyword h hc
    exact isBlank_of_ascii (by omega) (by omega)

theorem mark_notMem_keyword : '\\' ∉ keyword := by
  intro hmem
  have hletter := letter_of_mem_keyword h hmem
  revert hletter
  decide

theorem head?_keyword_ne : keyword.head? ≠ some '#' := by
  intro hhead
  have hletter := letter_of_mem_keyword h (List.mem_of_mem_head? hhead)
  revert hletter
  decide

end

theorem isWord_keyword (d : Directive) : d.keyword.IsWord :=
  isWord_of_ofKeyword? d.ofKeyword?_keyword

end Directive

theorem Text.IsWord.newline_notMem {w : Text} (h : w.IsWord) : '\n' ∉ w := by
  intro hmem
  exact absurd (h.solid _ hmem) (by decide)

theorem Text.newline_notMem_join {ws : List Text} (h : ∀ w ∈ ws, w.IsWord) :
    '\n' ∉ join [' '] ws := by
  intro hmem
  rcases mem_join hmem with hsep | ⟨w, hw, hmem⟩
  · exact absurd hsep (by decide)
  · exact (h w hw).newline_notMem hmem

namespace Text

/-! ## White space around the arguments -/

theorem isBlank_of_isSpaceOrTab {c : Char} (h : isSpaceOrTab c) : isBlank c := by
  simp only [isSpaceOrTab, Bool.or_eq_true, decide_eq_true_eq] at h
  rcases h with rfl | rfl <;> decide

theorem trim_dropWhile_isSpaceOrTab (t : Text) : trim (t.dropWhile isSpaceOrTab) = trim t := by
  have hblank : ∀ c ∈ t.takeWhile isSpaceOrTab, isBlank c := fun c hc =>
    isBlank_of_isSpaceOrTab (List.all_eq_true.1 List.all_takeWhile c hc)
  have h : trimStart (t.takeWhile isSpaceOrTab ++ t.dropWhile isSpaceOrTab) =
      trimStart (t.dropWhile isSpaceOrTab) := List.dropWhile_append_of_pos hblank
  rw [List.takeWhile_append_dropWhile] at h
  unfold trim
  rw [h]

theorem trimEnd_of_trim {t : Text} (h : trim t = t) : trimEnd t = t := by
  rw [← h]
  exact trimEnd_trimEnd _

theorem dropWhile_isSpaceOrTab_of_trim {t : Text} (h : trim t = t) :
    (trimEnd t).dropWhile isSpaceOrTab = t := by
  rw [trimEnd_of_trim h]
  cases t with
  | nil => rfl
  | cons c t =>
    have hfound : (c :: t).find? (fun c => !isBlank c) = some c := by
      rw [← head?_trim, h]
      rfl
    have hc : ¬ isBlank c := by simpa using List.find?_some hfound
    exact List.dropWhile_cons_of_neg fun htab => hc (isBlank_of_isSpaceOrTab htab)

end Text

/-! ## Lines that end their instruction -/

theorem continues_cons {c : Char} (t : Text) (hc : c ≠ '\\') :
    continues (c :: t) = continues t := by
  unfold continues
  rw [Text.trimEnd_cons]
  split
  · next hnil =>
    have hsingle : (Text.trimEnd [c]).getLast? ≠ some '\\' := by
      intro h
      exact hc (List.mem_singleton.1 (Text.mem_of_mem_trimEnd (List.mem_of_mem_getLast? h))).symm
    simp [hnil, hsingle]
  · next hne =>
    obtain ⟨d, s, hs⟩ := List.exists_cons_of_ne_nil hne
    rw [hs, List.getLast?_cons_cons]

theorem continues_append {s : Text} (hs : '\\' ∉ s) (t : Text) :
    continues (s ++ t) = continues t := by
  induction s with
  | nil => rfl
  | cons c s ih =>
    rw [List.mem_cons, not_or] at hs
    rw [List.cons_append, continues_cons _ (Ne.symm hs.1), ih hs.2]

theorem continues_keyword_append (d : Directive) (text : Text) :
    continues (d.keyword ++ ' ' :: text) = continues text := by
  rw [continues_append (Directive.mark_notMem_keyword d.ofKeyword?_keyword),
    continues_cons _ (by decide)]

/-- A text that stands on one line, the last of its instruction. -/
structure EndsLine (text : Text) : Prop where
  one_line : '\n' ∉ text
  closed : continues text = false

theorem LogicalLine.ClosedText.endsLine {text : Text} (h : ClosedText text) : EndsLine text where
  one_line := h.one_line
  closed := by
    obtain ⟨c, hlast, hblank, hmark⟩ := h.last
    unfold continues
    rw [Text.trimEnd_of_getLast? hlast hblank, hlast]
    simpa using hmark

theorem EndsLine.keyword_append {text : Text} (h : EndsLine text) (d : Directive) :
    EndsLine (d.keyword ++ ' ' :: text) where
  one_line := List.not_mem_append d.isWord_keyword.newline_notMem (by simp [h.one_line])
  closed := (continues_keyword_append d text).trans h.closed

section
variable (d : Directive)

theorem isSkippable_keyword_append (text : Text) : isSkippable (d.keyword ++ text) = false := by
  obtain ⟨c, rest, hkeyword⟩ := List.exists_cons_of_ne_nil d.keyword_ne_nil
  have hhead := Directive.head?_keyword_ne d.ofKeyword?_keyword
  have hblank := d.isWord_keyword.solid
  rw [hkeyword] at hhead hblank ⊢
  refine Bool.eq_false_iff.2 fun hskip => hhead (congrArg some ?_)
  exact (isSkippable_iff _).1 hskip c (List.find?_cons_of_pos (by simp [hblank]))

theorem body_keyword_append {text : Text} (h : continues text = false) :
    body (d.keyword ++ ' ' :: text) = d.keyword ++ Text.trimEnd (' ' :: text) := by
  have hword := d.isWord_keyword
  obtain ⟨c, rest, hkeyword⟩ := List.exists_cons_of_ne_nil hword.ne_nil
  have hlast := List.getLast?_eq_some_getLast hword.ne_nil
  have hend := Text.trimEnd_append_of_getLast? hlast (hword.solid _ (List.getLast_mem _))
  rw [body_of_not_continues ((continues_keyword_append d text).trans h),
    Text.trim_eq_trimStart_trimEnd, hend, hkeyword]
  exact List.dropWhile_cons_of_neg (by simp [hword.solid c (hkeyword ▸ List.mem_cons_self ..)])

/-! ## The instruction of a line -/

namespace Instruction

def onLine (number : Nat) (text : Text) : Instruction where
  directive := d
  raw := Text.trimEnd (d.keyword ++ ' ' :: text)
  line := number
  argsText := text.trimEnd.dropWhile isSpaceOrTab
  arguments := splitArguments text
  continued := false

theorem splitArguments_congr {s t : Text} (h : s.trim = t.trim) :
    splitArguments s = splitArguments t := by
  unfold splitArguments
  rw [h]

theorem trim_argsText_onLine (number : Nat) (text : Text) :
    (onLine d number text).argsText.trim = text.trim := by
  show Text.trim (text.trimEnd.dropWhile isSpaceOrTab) = _
  rw [Text.trim_dropWhile_isSpaceOrTab, Text.trim_trimEnd]

theorem ofLogicalLine?_keyword_append (number : Nat) {text : Text} (h : continues text = false) :
    ofLogicalLine? (.ofLine number (d.keyword ++ ' ' :: text)) = some (onLine d number text) := by
  have hsolid : ∀ c ∈ d.keyword, (!isBlank c) = true := fun c hc => by
    rw [d.isWord_keyword.solid c hc]
    rfl
  have hsplit : (LogicalLine.ofLine number (d.keyword ++ ' ' :: text)).keyword = d.keyword ∧
      (LogicalLine.ofLine number (d.keyword ++ ' ' :: text)).argsText =
        (onLine d number text).argsText := by
    show (body _).firstWord = _ ∧ (body _).afterFirstWord.dropWhile isSpaceOrTab = _
    unfold Text.firstWord Text.afterFirstWord
    rw [body_keyword_append d h, List.takeWhile_append_of_pos hsolid,
      List.dropWhile_append_of_pos hsolid, Text.trimEnd_cons]
    split
    · next hnil =>
      -- nothing but white space behind the keyword: the space goes with it
      show _ ∧ _ = text.trimEnd.dropWhile isSpaceOrTab
      rw [hnil]
      exact ⟨List.append_nil _, rfl⟩
    · exact ⟨List.append_nil _, rfl⟩
  unfold ofLogicalLine?
  rw [hsplit.1, hsplit.2, d.ofKeyword?_keyword, splitArguments_congr (trim_argsText_onLine ..)]
  rfl

end Instruction

/-- A text on one line reads as that line, also when it waits for a continuation. -/
theorem scan_single {line : Text} (hline : '\n' ∉ line) (hskip : isSkippable line = false) :
    LogicalLine.scan none (Text.numberFrom 0 line.lines) = [LogicalLine.ofLine 1 line] := by
  have hne : line ≠ [] := by
    rintro rfl
    cases hskip
  rw [Text.lines_of_no_newline hline hne, Text.numberFrom_cons,
    LogicalLine.scan_cons_content none _ _ hskip]
  unfold LogicalLine.resume
  split <;> rfl

namespace Dockerfile

open Text

theorem parse_keyword_append {text : Text} (h : EndsLine text) :
    (parse (d.keyword ++ ' ' :: text)).instructions = [.onLine d 1 text] := by
  rw [parse_instructions,
    scan_single (h.keyword_append d).one_line (isSkippable_keyword_append d _),
    List.filterMap_cons_some (Instruction.ofLogicalLine?_keyword_append d 1 h.closed)]
  rfl

theorem exists_trimmedLines {b : Text} (hb : AtLineEnd b) :
    ∃ after, ∀ line : Text, '\n' ∉ line → line ≠ [] →
      trimmedLines (line ++ b) = line.trimEnd :: after := by
  rcases hb with rfl | ⟨rest, rfl⟩ | ⟨rest, rfl⟩
  · refine ⟨[], fun line hline hne => ?_⟩
    rw [List.append_nil, trimmedLines_of_no_newline hline hne]
  · exact ⟨trimmedLines rest, fun line hline _ => trimmedLines_append_newline rest hline⟩
  · refine ⟨trimmedLines rest, fun line hline _ => ?_⟩
    have hcr : ∀ c ∈ ['\r'], isBlank c ∧ c ≠ '\n' := List.forall_mem_singleton.2 (by decide)
    exact (trimmedLines_append_blank line rest hcr).trans (trimmedLines_append_newline rest hline)

/-- What follows a line that is not continued does not depend on the line. -/
theorem exists_parse_append {b : Text} (hb : AtLineEnd b) :
    ∃ rest, ∀ line : Text, EndsLine line → isSkippable line = false →
      (parse (line ++ b)).instructions = (parse line).instructions ++ rest := by
  obtain ⟨after, hafter⟩ := exists_trimmedLines hb
  refine ⟨(LogicalLine.scan none (numberFrom 1 after)).filterMap Instruction.ofLogicalLine?,
    fun line hline hskip => ?_⟩
  have hne : line ≠ [] := by
    rintro rfl
    cases hskip
  have hscan : LogicalLine.scan none (numberFrom 0 (trimmedLines (line ++ b))) =
      [LogicalLine.ofLine 1 line] ++ LogicalLine.scan none (numberFrom 1 after) := by
    rw [hafter _ hline.one_line hne, numberFrom_cons,
      LogicalLine.scan_cons_content none _ _ (by rwa [isSkippable_trimEnd]), continues_trimEnd,
      hline.closed, LogicalLine.grow_trimEnd]
    rfl
  rw [parse_instructions_eq, hscan, List.filterMap_append, parse_instructions,
    scan_single hline.one_line hskip]

theorem exists_parse_keyword_append {b : Text} (hb : AtLineEnd b) :
    ∃ rest, ∀ text : Text, EndsLine text →
      (parse (d.keyword ++ ' ' :: text ++ b)).instructions = .onLine d 1 text :: rest := by
  obtain ⟨rest, hrest⟩ := exists_parse_append hb
  refine ⟨rest, fun text htext => ?_⟩
  rw [hrest _ (htext.keyword_append d) (isSkippable_keyword_append d _),
    parse_keyword_append d htext, List.singleton_append]

end Dockerfile

end

end LayerLint
