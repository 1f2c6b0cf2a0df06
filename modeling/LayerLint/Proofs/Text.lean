import Mathlib.Data.List.TakeWhile
import LayerLint.Text.Blank
import LayerLint.Text.Lines

/-!
# Trimming, words, physical lines and byte offsets

White space at the end of a text does not survive trimming, and `lines` splits a text wherever a
line starts. A carriage return in front of a line feed is the only white space that the split
itself takes away, so lines agree up to the white space at their ends with the plain pieces between
line feeds. An offset in bytes of UTF-8 is the length of a part of the text when it lies between two
characters (`CutAt`).
-/

namespace LayerLint

theorem isBlank_of_ascii {c : Char} (hlow : 33 ≤ c.toNat) (hhigh : c.toNat ≤ 126) :
    isBlank c = false := by
  unfold isBlank blankRanges
  rw [inRanges, if_neg (by omega), if_neg (by omega), inRanges, if_neg (by omega),
    if_neg (by omega), inRanges, if_pos (by omega)]

namespace Text

/-! ## Leading runs -/

section
variable {p : Char → Bool} {w rest : Text} (hw : ∀ c ∈ w, p c = true)
  (hrest : ∀ c ∈ rest.head?, p c = false)
include hw hrest

theorem takeWhile_append_of_stop : (w ++ rest).takeWhile p = w := by
  rw [List.takeWhile_append_of_pos hw]
  cases rest with
  | nil => exact List.append_nil w
  | cons c rest => rw [List.takeWhile_cons_of_neg (by simp [hrest c rfl]), List.append_nil]

theorem dropWhile_append_of_stop : (w ++ rest).dropWhile p = rest := by
  rw [List.dropWhile_append_of_pos hw]
  cases rest with
  | nil => rfl
  | cons c rest => rw [List.dropWhile_cons_of_neg (by simp [hrest c rfl])]

end

/-! ## Trimming -/

theorem trimEnd_append_of_blank {w : Text} (t : Text) (hw : ∀ c ∈ w, isBlank c) :
    trimEnd (t ++ w) = trimEnd t := by
  unfold trimEnd
  rw [List.reverse_append, List.dropWhile_append_of_pos (by simpa using hw)]

theorem exists_eq_trimEnd_append (t : Text) :
    ∃ w, (∀ c ∈ w, isBlank c) ∧ t = trimEnd t ++ w := by
  refine ⟨(t.reverse.takeWhile isBlank).reverse, fun c hc => ?_, ?_⟩
  · exact List.all_eq_true.1 List.all_takeWhile c (List.mem_reverse.1 hc)
  · unfold trimEnd
    rw [← List.reverse_append, List.takeWhile_append_dropWhile, List.reverse_reverse]

theorem mem_of_mem_trimEnd {t : Text} {c : Char} (h : c ∈ trimEnd t) : c ∈ t := by
  obtain ⟨w, -, ht⟩ := exists_eq_trimEnd_append t
  rw [ht]
  exact List.mem_append_left w h

@[simp] theorem trimEnd_trimEnd (t : Text) : trimEnd (trimEnd t) = trimEnd t := by
  obtain ⟨w, hw, ht⟩ := exists_eq_trimEnd_append t
  have h := trimEnd_append_of_blank (trimEnd t) hw
  rw [← ht] at h
  exact h.symm

theorem trim_append_of_blank {w : Text} (t : Text) (hw : ∀ c ∈ w, isBlank c) :
    trim (t ++ w) = trim t := by
  unfold trim trimStart
  rw [List.dropWhile_append]
  split
  · next hnil =>
    rw [List.isEmpty_iff.1 hnil, List.dropWhile_eq_nil_iff.2 hw]
  · exact trimEnd_append_of_blank _ hw

@[simp] theorem trim_trimEnd (t : Text) : trim (trimEnd t) = trim t := by
  obtain ⟨w, hw, ht⟩ := exists_eq_trimEnd_append t
  have h := trim_append_of_blank (trimEnd t) hw
  rw [← ht] at h
  exact h.symm

theorem trimEnd_of_getLast? {t : Text} {c : Char} (h : t.getLast? = some c)
    (hc : isBlank c = false) : trimEnd t = t := by
  obtain ⟨s, rfl⟩ := List.getLast?_eq_some_iff.1 h
  simp [trimEnd, hc]

theorem trimEnd_append_of_getLast? {t : Text} {c : Char} (h : t.getLast? = some c)
    (hc : isBlank c = false) (r : Text) : trimEnd (t ++ r) = t ++ trimEnd r := by
  obtain ⟨s, rfl⟩ := List.getLast?_eq_some_iff.1 h
  unfold trimEnd
  rw [List.reverse_append, List.dropWhile_append]
  split
  · next hnil => simp [List.isEmpty_iff.1 hnil, hc]
  · rw [List.reverse_append, List.reverse_reverse]

theorem getLast?_trimEnd {t : Text} (h : trimEnd t ≠ []) :
    ∃ c, (trimEnd t).getLast? = some c ∧ isBlank c = false := by
  have hne : t.reverse.dropWhile isBlank ≠ [] := by simpa [trimEnd] using h
  obtain ⟨c, rest, hc⟩ := List.exists_cons_of_ne_nil hne
  refine ⟨c, by simp [trimEnd, hc], ?_⟩
  have := List.head?_dropWhile_not isBlank t.reverse
  simpa [hc] using this

theorem getLast?_of_suffix {s t : Text} (h : s <:+ t) (hne : s ≠ []) :
    s.getLast? = t.getLast? := by
  obtain ⟨u, rfl⟩ := h
  rw [List.getLast?_append, List.getLast?_eq_some_getLast hne]
  rfl

/-- Both ends can be trimmed in either order. -/
theorem trim_eq_trimStart_trimEnd (t : Text) : trim t = trimStart (trimEnd t) := by
  rw [← trim_trimEnd]
  unfold trim
  by_cases hne : trimStart (trimEnd t) = []
  · rw [hne]
    rfl
  · have hsuffix : trimStart (trimEnd t) <:+ trimEnd t := List.dropWhile_suffix isBlank
    have hfull : trimEnd t ≠ [] := fun hnil => hne (by rw [hnil]; rfl)
    obtain ⟨c, hc, hblank⟩ := getLast?_trimEnd hfull
    exact trimEnd_of_getLast? ((getLast?_of_suffix hsuffix hne).trans hc) hblank

theorem trim_suffix_trimEnd (t : Text) : trim t <:+ trimEnd t := by
  rw [trim_eq_trimStart_trimEnd]
  exact List.dropWhile_suffix isBlank

theorem trimEnd_cons (c : Char) (t : Text) :
    trimEnd (c :: t) = if trimEnd t = [] then trimEnd [c] else c :: trimEnd t := by
  unfold trimEnd
  rw [List.reverse_cons, List.dropWhile_append]
  simp only [List.isEmpty_iff, List.reverse_eq_nil_iff]
  split
  · rfl
  · rw [List.reverse_append]
    rfl

theorem trimEnd_cons_of_not_blank {c : Char} (t : Text) (hc : isBlank c = false) :
    trimEnd (c :: t) = c :: trimEnd t := by
  rw [trimEnd_cons]
  split
  · next hnil => rw [hnil, trimEnd_of_getLast? rfl hc]
  · rfl

theorem head?_trimStart (t : Text) : t.trimStart.head? = t.find? fun c => !isBlank c := by
  rw [List.find?_eq_head?_dropWhile_not]
  simp only [Bool.not_not]
  rfl

theorem head?_trim (t : Text) : t.trim.head? = t.find? fun c => !isBlank c := by
  rw [← head?_trimStart]
  unfold trim
  cases hstart : trimStart t with
  | nil => rfl
  | cons c rest =>
    have hc : isBlank c = false := by
      have := List.head?_dropWhile_not isBlank t
      unfold trimStart at hstart
      simpa [hstart] using this
    rw [trimEnd_cons_of_not_blank rest hc, List.head?_cons, List.head?_cons]

theorem head?_trim_append {s : Text} (hs : ∃ c ∈ s, isBlank c = false) (t : Text) :
    (s ++ t : Text).trim.head? = s.trim.head? := by
  obtain ⟨c, hc, hblank⟩ := hs
  have hfound : (s.find? fun c => !isBlank c).isSome = true :=
    List.find?_isSome.2 ⟨c, hc, by simp [hblank]⟩
  rw [head?_trim, head?_trim, List.find?_append, Option.or_of_isSome hfound]

theorem trim_blank_append {w t : Text} {c d : Char} (hw : ∀ c ∈ w, isBlank c)
    (hhead : t.head? = some c) (hc : isBlank c = false) (hlast : t.getLast? = some d)
    (hd : isBlank d = false) : trim (w ++ t) = t := by
  obtain ⟨rest, rfl⟩ := List.head?_eq_some_iff.1 hhead
  unfold trim trimStart
  rw [List.dropWhile_append_of_pos hw, List.dropWhile_cons_of_neg (by simp [hc])]
  exact trimEnd_of_getLast? hlast hd

/-! ## Words -/

theorem words_append_cons {c : Char} (hc : isBlank c) (s t : Text) :
    words (s ++ c :: t) = words s ++ words t := by
  unfold words
  rw [List.splitOnP_append_cons s t hc, List.filter_append]

/-! ## Lines -/

def AtLineStart (a : Text) : Prop := a = [] ∨ a.getLast? = some '\n'

theorem atLineStart_cons {c : Char} {a : Text} (h : AtLineStart (c :: a)) :
    c = '\n' ∧ a = [] ∨ a ≠ [] ∧ AtLineStart a := by
  cases a with
  | nil =>
    rcases h with h | h
    · cases h
    · exact .inl ⟨by simpa using h, rfl⟩
  | cons d a =>
    rcases h with h | h
    · cases h
    · exact .inr ⟨List.cons_ne_nil _ _, .inr (by simpa [List.getLast?_cons_cons] using h)⟩

/-- A character that does not end a line goes to the front of the first line. -/
theorem lines_cons {c : Char} {t : Text} (hc : c ≠ '\n') (hcr : c = '\r' → t.head? ≠ some '\n') :
    lines (c :: t) = (c :: (lines t).head?.getD []) :: (lines t).tail := by
  rw [lines.eq_4 c t (by simpa using hc) (by rintro rest rfl rfl; exact hcr rfl rfl)]
  cases lines t <;> rfl

theorem lines_eq_nil {t : Text} : lines t = [] ↔ t = [] := by
  constructor
  · intro h
    unfold lines at h
    split at h
    · rfl
    · cases h
    · cases h
    · split at h <;> cases h
  · rintro rfl
    rfl

theorem lines_append {a : Text} (b : Text) (h : AtLineStart a) :
    lines (a ++ b) = lines a ++ lines b := by
  fun_induction lines a with
  | case1 => rfl
  | case2 rest ih =>
    rcases atLineStart_cons h with ⟨-, rfl⟩ | ⟨-, h⟩
    · rfl
    · simp only [List.cons_append, lines, ih h]
  | case3 rest ih =>
    obtain ⟨-, h⟩ := (atLineStart_cons h).resolve_left (by simp)
    rcases atLineStart_cons h with ⟨-, rfl⟩ | ⟨-, h⟩
    · rfl
    · simp only [List.cons_append, lines, ih h]
  | case4 c rest hn hcr hnil ih =>
    obtain ⟨hne, -⟩ := (atLineStart_cons h).resolve_left (by simpa using fun h => absurd h hn)
    exact absurd (lines_eq_nil.1 hnil) hne
  | case5 c rest hn hcr line more hlines ih =>
    obtain ⟨hne, h⟩ := (atLineStart_cons h).resolve_left (by simpa using fun h => absurd h hn)
    have hhead : c = '\r' → (rest ++ b).head? ≠ some '\n' := by
      rintro rfl hhead
      obtain ⟨d, rest, rfl⟩ := List.exists_cons_of_ne_nil hne
      simp only [List.cons_append, List.head?_cons, Option.some.injEq] at hhead
      exact hcr rest rfl (by rw [hhead])
    rw [List.cons_append, lines_cons (by simpa using hn) hhead, ih h, hlines]
    rfl

theorem lines_of_no_newline {l : Text} (hl : '\n' ∉ l) (hne : l ≠ []) : lines l = [l] := by
  induction l with
  | nil => exact absurd rfl hne
  | cons c l ih =>
    have hc : c ≠ '\n' := fun h => hl (h ▸ List.mem_cons_self ..)
    have hrest : '\n' ∉ l := fun h => hl (List.mem_cons_of_mem _ h)
    have hhead : l.head? ≠ some '\n' := fun h => hrest (List.mem_of_mem_head? h)
    rw [lines_cons hc fun _ => hhead]
    cases l with
    | nil => rfl
    | cons d l =>
      rw [ih hrest (List.cons_ne_nil _ _)]
      rfl

/-- A line that a line feed ends, up to the carriage return that belongs to the line end. -/
theorem lines_append_newline {l : Text} (rest : Text) (hl : '\n' ∉ l) :
    ∃ line, lines (l ++ '\n' :: rest) = line :: lines rest ∧ (l = line ∨ l = line ++ ['\r']) := by
  induction l with
  | nil => exact ⟨[], by simp [lines], .inl rfl⟩
  | cons c l ih =>
    have hc : c ≠ '\n' := fun h => hl (h ▸ List.mem_cons_self ..)
    have hrest : '\n' ∉ l := fun h => hl (List.mem_cons_of_mem _ h)
    by_cases hcr : c = '\r' ∧ l = []
    · obtain ⟨rfl, rfl⟩ := hcr
      exact ⟨[], by simp [lines], .inr rfl⟩
    · have hhead : c = '\r' → (l ++ '\n' :: rest).head? ≠ some '\n' := by
        rintro rfl hhead
        cases l with
        | nil => exact hcr ⟨rfl, rfl⟩
        | cons d l =>
          have hd : d = '\n' := by simpa using hhead
          exact hrest (hd ▸ List.mem_cons_self ..)
      obtain ⟨line, hline, heq⟩ := ih hrest
      refine ⟨c :: line, ?_, ?_⟩
      · rw [List.cons_append, lines_cons hc hhead, hline]
        rfl
      · rcases heq with rfl | rfl
        · exact .inl rfl
        · exact .inr rfl

theorem newline_notMem_of_mem_lines {t line : Text} (h : line ∈ lines t) : '\n' ∉ line := by
  fun_induction lines t generalizing line with
  | case1 => cases h
  | case2 rest ih =>
    rcases List.mem_cons.1 h with rfl | h
    · exact List.not_mem_nil
    · exact ih h
  | case3 rest ih =>
    rcases List.mem_cons.1 h with rfl | h
    · exact List.not_mem_nil
    · exact ih h
  | case4 c rest hn hcr hnil ih =>
    rw [List.mem_singleton.1 h, List.mem_singleton]
    exact fun h => hn h.symm
  | case5 c rest hn hcr first more hlines ih =>
    rw [hlines] at ih
    rcases List.mem_cons.1 h with rfl | h
    · intro hmem
      rcases List.mem_cons.1 hmem with hc | hmem
      · exact hn hc.symm
      · exact ih (List.mem_cons_self ..) hmem
    · exact ih (List.mem_cons_of_mem _ h)

theorem mem_of_mem_lines {t line : Text} (h : line ∈ lines t) {c : Char} (hc : c ∈ line) :
    c ∈ t := by
  fun_induction lines t generalizing line with
  | case1 => cases h
  | case2 rest ih =>
    rcases List.mem_cons.1 h with rfl | h
    · cases hc
    · exact List.mem_cons_of_mem _ (ih h hc)
  | case3 rest ih =>
    rcases List.mem_cons.1 h with rfl | h
    · cases hc
    · exact List.mem_cons_of_mem _ (List.mem_cons_of_mem _ (ih h hc))
  | case4 d rest _ _ _ ih =>
    rw [List.mem_singleton.1 h, List.mem_singleton] at hc
    rw [hc]
    exact List.mem_cons_self ..
  | case5 d rest _ _ first more hlines ih =>
    rw [hlines] at ih
    rcases List.mem_cons.1 h with rfl | h
    · rcases List.mem_cons.1 hc with rfl | hc
      · exact List.mem_cons_self ..
      · exact List.mem_cons_of_mem _ (ih (List.mem_cons_self ..) hc)
    · exact List.mem_cons_of_mem _ (ih (List.mem_cons_of_mem _ h) hc)

/-- The text up to the start of its last line, and the last line. -/
theorem exists_lastLine (a : Text) : ∃ p l, a = p ++ l ∧ AtLineStart p ∧ '\n' ∉ l := by
  induction a with
  | nil => exact ⟨[], [], rfl, .inl rfl, List.not_mem_nil⟩
  | cons c a ih =>
    obtain ⟨p, l, rfl, hp, hl⟩ := ih
    rcases hp with rfl | hp
    · by_cases hc : c = '\n'
      · exact ⟨[c], l, rfl, .inr (by rw [hc]; rfl), hl⟩
      · refine ⟨[], c :: l, rfl, .inl rfl, fun h => ?_⟩
        rcases List.mem_cons.1 h with h | h
        · exact hc h.symm
        · exact hl h
    · refine ⟨c :: p, l, rfl, .inr ?_, hl⟩
      rw [List.getLast?_cons, hp]
      rfl

/-- Every line starts somewhere in the text. -/
theorem exists_eq_append_of_lt {t : Text} {k : Nat} (h : k < t.lines.length) :
    ∃ a b, t = a ++ b ∧ AtLineStart a ∧ a.lines.length = k := by
  induction k generalizing t with
  | zero => exact ⟨[], t, rfl, .inl rfl, rfl⟩
  | succ k ih =>
    have hfeed : '\n' ∈ t := by
      by_cases hmem : '\n' ∈ t
      · exact hmem
      · have hne : t ≠ [] := by
          rintro rfl
          cases h
        rw [lines_of_no_newline hmem hne, List.length_singleton] at h
        omega
    obtain ⟨l, rest, rfl, hl⟩ := List.eq_append_cons_of_mem hfeed
    obtain ⟨line, hline, -⟩ := lines_append_newline rest hl
    rw [hline, List.length_cons] at h
    obtain ⟨a, b, rfl, ha, hk⟩ := ih (Nat.lt_of_succ_lt_succ h)
    obtain ⟨line, hline, -⟩ := lines_append_newline a hl
    refine ⟨l ++ '\n' :: a, b, by simp, .inr ?_, by rw [hline, List.length_cons, hk]⟩
    rcases ha with rfl | ha
    · simp
    · rw [List.getLast?_append, List.getLast?_cons, ha]
      rfl

/-! ## Byte offsets -/

theorem byteCount_eq_utf8ByteSize (t : Text) : byteCount t = (String.ofList t).utf8ByteSize := by
  have hfold : ∀ n, t.foldl (fun count c => count + c.utf8Size) n =
      n + (String.ofList t).utf8ByteSize := by
    induction t with
    | nil => exact fun n => rfl
    | cons c t ih =>
      intro n
      rw [List.foldl_cons, ih, String.ofList_cons, String.utf8ByteSize_append,
        String.utf8ByteSize_singleton, Nat.add_assoc]
  unfold byteCount
  rw [hfold, Nat.zero_add]

/-- The byte offset lies between two characters of the text, with `front` before it and `back`
behind it. -/
def CutAt (offset : Nat) (t front back : Text) : Prop :=
  ∃ p : (String.ofList t).Pos, p.offset.byteIdx = offset ∧
    p.Splits (String.ofList front) (String.ofList back)

theorem cutAt_append (a b : Text) : CutAt (byteCount a) (a ++ b) a b := by
  have heq : String.ofList (a ++ b) = String.ofList a ++ String.ofList b := String.ofList_append
  have hvalid : (String.ofList a).rawEndPos.IsValid (String.ofList (a ++ b)) :=
    String.Pos.Raw.isValid_iff_exists_append.2 ⟨_, _, heq, rfl⟩
  exact ⟨⟨_, hvalid⟩, (byteCount_eq_utf8ByteSize a).symm, heq, rfl⟩

end Text

end LayerLint
