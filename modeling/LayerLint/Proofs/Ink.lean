import LayerLint.Proofs.ArgumentWords

/-!
# What a text has besides white space

The ink of a text is the number of its characters that are not white space. Splitting a text into
lines or words keeps its ink, continuation marks and the syntax of an array take some of it away,
and nothing adds any. So the arguments of an instruction have no more ink than the text they are
read from (`ink_argsText_le`), and less when they are the members of an array (`ink_stringList?`).
-/

namespace LayerLint

open LogicalLine (scan grow)

namespace Text

def ink (t : Text) : Nat := t.countP fun c => !isBlank c

def inkOf (ts : List Text) : Nat := ink ts.flatten

@[simp] theorem ink_nil : ink [] = 0 := rfl

@[simp] theorem ink_append (s t : Text) : ink (s ++ t) = ink s + ink t := List.countP_append

theorem ink_cons (c : Char) (t : Text) : ink (c :: t) = ink t + if isBlank c then 0 else 1 := by
  unfold ink
  rw [List.countP_cons]
  cases isBlank c <;> rfl

theorem ink_cons_of_blank {c : Char} (hc : isBlank c) (t : Text) : ink (c :: t) = ink t := by
  rw [ink_cons, if_pos hc]
  rfl

theorem ink_cons_of_not_blank {c : Char} (hc : isBlank c = false) (t : Text) :
    ink (c :: t) = ink t + 1 := by
  rw [ink_cons, if_neg (by simp [hc])]

theorem ink_of_blank {w : Text} (hw : ∀ c ∈ w, isBlank c) : ink w = 0 :=
  List.countP_eq_zero.2 fun c hc => by simp [hw c hc]

theorem IsWord.ink_eq {w : Text} (h : w.IsWord) : ink w = w.length :=
  List.countP_eq_length.2 fun c hc => by simp [h.solid c hc]

@[simp] theorem inkOf_nil : inkOf [] = 0 := rfl

@[simp] theorem inkOf_cons (t : Text) (ts : List Text) : inkOf (t :: ts) = ink t + inkOf ts := by
  unfold inkOf
  rw [List.flatten_cons, ink_append]

@[simp] theorem inkOf_append (ss ts : List Text) : inkOf (ss ++ ts) = inkOf ss + inkOf ts := by
  unfold inkOf
  rw [List.flatten_append, ink_append]

theorem ink_trimStart (t : Text) : ink t.trimStart = ink t := by
  have hw : ∀ c ∈ t.takeWhile isBlank, isBlank c := List.all_eq_true.1 List.all_takeWhile
  have h := ink_append (t.takeWhile isBlank) t.trimStart
  unfold trimStart at h ⊢
  rw [List.takeWhile_append_dropWhile, ink_of_blank hw, Nat.zero_add] at h
  exact h.symm

theorem ink_trimEnd (t : Text) : ink t.trimEnd = ink t := by
  obtain ⟨w, hw, ht⟩ := exists_eq_trimEnd_append t
  conv_rhs => rw [ht]
  rw [ink_append, ink_of_blank hw, Nat.add_zero]

theorem ink_trim (t : Text) : ink t.trim = ink t := by
  unfold trim
  rw [ink_trimEnd, ink_trimStart]

/-! ## Splitting a text -/

theorem inkOf_words (t : Text) : inkOf (words t) = ink t := by
  induction t using word_induction with
  | blank w hw => rw [words_of_blank hw, ink_of_blank hw, inkOf_nil]
  | word w v t hw hv ht ih =>
    rw [words_blank_append hw, hv.words_append ht, inkOf_cons, ih, ink_append, ink_append,
      ink_of_blank hw, Nat.zero_add]

theorem ink_join (ws : List Text) : ink (join [' '] ws) = inkOf ws := by
  cases ws with
  | nil => rfl
  | cons w ws =>
    rw [join_cons, ink_append, inkOf_cons]
    induction ws with
    | nil => rfl
    | cons v ws ih =>
      rw [List.flatMap_cons, ink_append, inkOf_cons, List.singleton_append,
        ink_cons_of_blank (by decide)]
      omega

theorem inkOf_lines (t : Text) : inkOf (lines t) = ink t := by
  fun_induction lines t with
  | case1 => rfl
  | case2 rest ih => rw [inkOf_cons, ih, ink_cons_of_blank (by decide), ink_nil, Nat.zero_add]
  | case3 rest ih =>
    rw [inkOf_cons, ih, ink_cons_of_blank (by decide), ink_cons_of_blank (by decide), ink_nil,
      Nat.zero_add]
  | case4 c rest hn hcr hnil ih =>
    rw [lines_eq_nil.1 hnil]
    rfl
  | case5 c rest hn hcr line more hlines ih =>
    rw [hlines, inkOf_cons] at ih
    rw [inkOf_cons, ink_cons, ink_cons, ← ih]
    omega

end Text

open Text (ink inkOf)

/-! ## Arrays -/

namespace Json

/-- A character in a string is written with at least its own ink. -/
theorem ink_stringChar? {t rest : Text} {c : Char} (h : stringChar? t = some (c, rest)) :
    ink [c] + ink rest ≤ ink t := by
  have hone : ink [c] ≤ 1 := List.countP_le_length
  have hmark : ∀ more, ink ('\\' :: more) = ink more + 1 :=
    Text.ink_cons_of_not_blank (by decide)
  unfold stringChar? at h
  split at h
  · cases h
  · next more =>
    obtain ⟨front, rfl, -⟩ := takesFront_unicodeEscape? _ _ _ h
    rw [hmark, Text.ink_cons 'u', Text.ink_append]
    omega
  · next e more hu =>
    obtain ⟨d, -, hd⟩ := Option.map_eq_some_iff.1 h
    cases hd
    rw [hmark, Text.ink_cons e]
    omega
  · next d more hu he =>
    split at h
    · cases h
    · cases h
      exact Nat.le_of_eq (Text.ink_append [c] rest).symm

theorem ink_stringTail? (t : Text) {s rest : Text} (h : stringTail? t = some (s, rest)) :
    ink s + ink rest ≤ ink t := by
  induction t using stringTail?.induct generalizing s with
  | case1 t hq =>
    obtain ⟨more, rfl⟩ := List.head?_eq_some_iff.1 hq
    rw [stringTail?_of_quote] at h
    cases h
    rw [Text.ink_cons, Text.ink_nil]
    omega
  | case2 t hq hc =>
    rw [stringTail?, if_neg hq] at h
    split at h
    · cases h
    · simp_all
  | case3 t hq c more hc ih =>
    rw [stringTail?_of_char hc] at h
    obtain ⟨⟨s, after⟩, hs, heq⟩ := Option.map_eq_some_iff.1 h
    cases heq
    have hchar := ink_stringChar? hc
    have htail := ih hs
    have hcons := Text.ink_append [c] s
    rw [List.singleton_append] at hcons
    omega

theorem ink_string? {t s rest : Text} (h : string? t = some (s, rest)) :
    ink s + ink rest ≤ ink t := by
  unfold string? at h
  split at h
  · have htail := ink_stringTail? _ h
    rw [Text.ink_cons]
    omega
  · cases h

theorem ink_skipGap (t : Text) : ink (skipGap t) = ink t := by
  obtain ⟨w, hw, ht⟩ := exists_eq_append_skipGap t
  conv_rhs => rw [ht]
  rw [Text.ink_append, Text.ink_of_blank fun c hc => isBlank_of_isGap (hw c hc), Nat.zero_add]

theorem ink_members? (t : Text) {ss : List Text} {rest : Text} (h : members? t = some (ss, rest)) :
    inkOf ss + ink rest ≤ ink t := by
  induction t using members?.induct generalizing ss with
  | case1 t hs =>
    rw [members?_of_none hs] at h
    cases h
  | case2 t s more hs after hafter =>
    rw [members?_of_string hs, hafter] at h
    cases h
    have hstring := ink_string? hs
    rw [← ink_skipGap more, hafter, Text.ink_cons] at hstring
    rw [Text.inkOf_cons, Text.inkOf_nil]
    omega
  | case3 t s more hs next hnext ih =>
    rw [members?_of_string hs, hnext] at h
    obtain ⟨⟨ss, after⟩, hss, heq⟩ := Option.map_eq_some_iff.1 h
    cases heq
    have hstring := ink_string? hs
    have hmembers := ih hss
    rw [← ink_skipGap more, hnext, Text.ink_cons] at hstring
    rw [ink_skipGap] at hmembers
    rw [Text.inkOf_cons]
    omega
  | case4 t s more hs hlast hnext =>
    rw [members?_of_string hs] at h
    split at h
    · next hc => exact (hlast _ hc).elim
    · next hc => exact (hnext _ hc).elim
    · cases h

/-- The brackets of an array have ink of their own. -/
theorem ink_stringList? {t : Text} {ss : List Text} (h : stringList? t = some ss) :
    inkOf ss < ink t := by
  have hbracket : ∀ more, ink ('[' :: more) = ink more + 1 :=
    Text.ink_cons_of_not_blank (by decide)
  unfold stringList? at h
  split at h
  · next inside hinside =>
    rw [← ink_skipGap t, hinside, hbracket, ← ink_skipGap inside]
    split at h
    · split at h
      · cases h
        exact Nat.succ_pos _
      · cases h
    · split at h
      · next hss =>
        split at h
        · cases h
          have hmembers := ink_members? _ hss
          omega
        · cases h
      · cases h
  · cases h

end Json

/-! ## Logical lines -/

theorem ink_body (line : Text) :
    ink (body line) + (if continues line then 1 else 0) = ink line := by
  unfold body
  split
  · next hmark =>
    obtain ⟨front, hfront⟩ := List.getLast?_eq_some_iff.1 (of_decide_eq_true hmark)
    rw [← Text.ink_trimEnd line, hfront, List.dropLast_concat, Text.ink_trim, Text.ink_append]
    rfl
  · rw [Text.ink_trim, Text.ink_trimEnd, Nat.add_zero]

namespace LogicalLine

theorem ink_grow_le (pending : Option LogicalLine) (number : Nat) (line : Text) :
    ink (grow pending number line).text ≤ inkOf (pending.toList.map (·.text)) + ink line := by
  have hbody := ink_body line
  cases pending with
  | none =>
    show ink (body line) ≤ 0 + ink line
    omega
  | some l =>
    show ink (if body line = [] then l.text else if l.text = [] then body line
      else l.text ++ ' ' :: body line) ≤ inkOf [l.text] + ink line
    rw [Text.inkOf_cons, Text.inkOf_nil]
    split
    · omega
    · split
      · omega
      · rw [Text.ink_append, Text.ink_cons_of_blank (by decide)]
        omega

theorem ink_le_of_mem_scan {pending : Option LogicalLine} {xs : List (Nat × Text)}
    {l : LogicalLine} (h : l ∈ scan pending xs) :
    ink l.text ≤ inkOf (pending.toList.map (·.text)) + inkOf (xs.map Prod.snd) := by
  induction xs generalizing pending with
  | nil =>
    rw [Option.mem_toList.1 h, Option.toList_some, List.map_singleton, Text.inkOf_cons]
    omega
  | cons x xs ih =>
    obtain ⟨n, line⟩ := x
    have hgrow := ink_grow_le pending n line
    show _ ≤ _ + inkOf (line :: xs.map Prod.snd)
    rw [Text.inkOf_cons]
    rw [scan_cons] at h
    split at h
    · have hrest := ih h
      omega
    · split at h
      · have hrest := ih h
        rw [Option.toList_some, List.map_singleton, Text.inkOf_cons, Text.inkOf_nil] at hrest
        omega
      · rcases List.mem_cons.1 h with rfl | h
        · omega
        · have hrest := ih h
          rw [Option.toList_none, List.map_nil, Text.inkOf_nil] at hrest
          omega

end LogicalLine

/-! ## Instructions -/

namespace Instruction

/-- A keyword and the arguments behind it take all the ink of a logical line. -/
theorem ink_ofLogicalLine? {l : LogicalLine} {i : Instruction} (h : ofLogicalLine? l = some i) :
    i.directive.keyword.length + ink i.argsText = ink l.text := by
  obtain ⟨d, hkeyword, rfl⟩ := Option.map_eq_some_iff.1 h
  have hlength : d.keyword.length = l.keyword.length := by
    have hfold := congrArg List.length (Directive.foldCase_keyword hkeyword)
    unfold Text.foldCase at hfold
    rwa [List.length_map, List.length_map] at hfold
  have hargs : ink l.argsText = ink l.text.afterFirstWord := by
    unfold LogicalLine.argsText
    rw [← Text.ink_trim, Text.trim_dropWhile_isSpaceOrTab, Text.ink_trim]
  have hsplit : l.keyword ++ l.text.afterFirstWord = l.text := List.takeWhile_append_dropWhile
  show d.keyword.length + ink l.argsText = ink l.text
  rw [hlength, ← (Directive.isWord_of_ofKeyword? hkeyword).ink_eq, hargs, ← Text.ink_append, hsplit]

end Instruction

namespace Dockerfile

theorem ink_argsText_le {t : Text} {i : Instruction} (hi : i ∈ (parse t).instructions) :
    i.directive.keyword.length + ink i.argsText ≤ ink t := by
  obtain ⟨l, hl, hli⟩ := List.mem_filterMap.1 (parse_instructions t ▸ hi)
  have hscan := LogicalLine.ink_le_of_mem_scan hl
  rw [Text.map_snd_numberFrom, Text.inkOf_lines, Option.toList_none, List.map_nil, Text.inkOf_nil,
    Nat.zero_add] at hscan
  rw [Instruction.ink_ofLogicalLine? hli]
  exact hscan

/-- On a text of one line only a continuation mark is lost. -/
theorem ink_argsText_of_line {line : Text} (hline : '\n' ∉ line) (hskip : isSkippable line = false)
    {i : Instruction} (hi : i ∈ (parse line).instructions) :
    i.directive.keyword.length + ink i.argsText = ink (body line) := by
  rw [parse_instructions, scan_single hline hskip] at hi
  obtain ⟨l, hl, hli⟩ := List.mem_filterMap.1 hi
  rw [Instruction.ink_ofLogicalLine? hli, List.mem_singleton.1 hl]
  rfl

end Dockerfile

end LayerLint
