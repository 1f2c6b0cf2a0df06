import LayerLint.Proofs.Layout

/-!
# Continued lines

What one line does to the scan, said of the text that stands on it. `LinePart y`: the text `y` may
stand on a line behind some indentation. With a mark at its end the line goes on
(`scan_continued_line`), and without one it ends its logical line if `y` does not end in a mark of
its own (`LineText`, `scan_line`). On the last line of a text such a mark is dropped (`unmarked`,
`scan_last_line`).
-/

namespace LayerLint

open LogicalLine (ClosedText TrimmedText)

/-! ## Texts on a line -/

/-- A text on one line that is neither blank nor a comment and has no white space around it. -/
structure LinePart (y : Text) : Prop where
  one_line : '\n' ∉ y
  start : ∃ c, y.head? = some c ∧ isBlank c = false ∧ c ≠ '#'
  stop : ∃ c, y.getLast? = some c ∧ isBlank c = false

/-- A part that goes on only where a mark is added. -/
structure LineText (y : Text) : Prop extends LinePart y where
  unmarked : y.getLast? ≠ some '\\'

theorem LinePart.of_trimmed {s c : Text} (hs : '\n' ∉ s) {x : Char} (hhead : s.head? = some x)
    (hx : isBlank x = false) (hcomment : x ≠ '#') (h : TrimmedText c) (hne : c ≠ []) :
    LinePart (s ++ c) := by
  have hlast := List.getLast?_eq_some_getLast hne
  obtain ⟨rest, rfl⟩ := List.head?_eq_some_iff.1 hhead
  exact {
    one_line := List.not_mem_append hs h.one_line
    start := ⟨x, rfl, hx, hcomment⟩
    stop := ⟨_, (List.getLast?_append_of_ne_nil _ hne).trans hlast, h.last _ hlast⟩ }

namespace LinePart

variable {w y : Text} (hw : ∀ c ∈ w, isBlank c) (h : LinePart y)
include h

theorem ne_nil : y ≠ [] := by
  rintro rfl
  obtain ⟨c, hc, -⟩ := h.start
  cases hc

theorem getLast?_append (w : Text) : (w ++ y).getLast? = y.getLast? :=
  List.getLast?_append_of_ne_nil w h.ne_nil

theorem trimEnd_append (w : Text) : Text.trimEnd (w ++ y) = w ++ y := by
  obtain ⟨c, hc, hblank⟩ := h.stop
  exact Text.trimEnd_of_getLast? ((h.getLast?_append w).trans hc) hblank

include hw

theorem trim_append : Text.trim (w ++ y) = y := by
  obtain ⟨c, hhead, hc, -⟩ := h.start
  obtain ⟨d, hlast, hd⟩ := h.stop
  exact Text.trim_blank_append hw hhead hc hlast hd

theorem isSkippable_append : isSkippable (w ++ y) = false := by
  obtain ⟨c, hhead, -, hcomment⟩ := h.start
  obtain ⟨rest, rfl⟩ := List.head?_eq_some_iff.1 hhead
  unfold isSkippable
  rw [h.trim_append hw]
  exact decide_eq_false hcomment

end LinePart

namespace LineText

variable {w y : Text} (hw : ∀ c ∈ w, isBlank c) (h : LineText y)
include h

theorem continues_append (w : Text) : continues (w ++ y) = false := by
  unfold continues
  rw [h.trimEnd_append, h.getLast?_append]
  exact decide_eq_false h.unmarked

include hw

theorem body_append : body (w ++ y) = y := by
  unfold body
  rw [h.continues_append w, h.trimEnd_append w]
  exact h.trim_append hw

end LineText

/-! ## Lines with a continuation mark -/

theorem append_space_mark (x : Text) : x ++ [' ', '\\'] = (x ++ [' ']) ++ '\\' :: [] := by
  rw [List.append_assoc]
  rfl

theorem trimEnd_append_space_mark (x : Text) :
    Text.trimEnd (x ++ [' ', '\\']) = x ++ [' ', '\\'] := by
  rw [append_space_mark]
  exact trimEnd_append_mark _ (by simp)

theorem continues_append_space_mark (x : Text) : continues (x ++ [' ', '\\']) = true := by
  rw [append_space_mark, continues_iff]
  exact ⟨_, _, rfl, by simp⟩

theorem body_append_space_mark (x : Text) : body (x ++ [' ', '\\']) = x.trim := by
  rw [append_space_mark, body_append_mark _ (by simp)]
  exact Text.trim_append_of_blank x (List.forall_mem_singleton.2 (by decide))

theorem isSkippable_append_space_mark {x : Text} (h : isSkippable x = false) :
    isSkippable (x ++ [' ', '\\']) = false := by
  rw [← Bool.not_eq_true, isSkippable_iff] at h ⊢
  intro hall
  refine h fun c hc => hall c ?_
  rw [List.find?_append, hc]
  rfl

/-! ## Lines that end in a mark of their own -/

/-- The text without a continuation mark at its end and the white space in front of the mark. -/
def unmarked (t : Text) : Text :=
  if t.getLast? = some '\\' then Text.trimEnd t.dropLast else t

theorem exists_eq_unmarked_append (t : Text) :
    ∃ T, (∀ x ∈ T, isBlank x = true ∨ x = '\\') ∧ t = unmarked t ++ T := by
  unfold unmarked
  split
  · next hmark =>
    obtain ⟨r, rfl⟩ := List.getLast?_eq_some_iff.1 hmark
    obtain ⟨w, hw, hr⟩ := Text.exists_eq_trimEnd_append r
    refine ⟨w ++ ['\\'], fun x hx => ?_, ?_⟩
    · rcases List.mem_append.1 hx with hx | hx
      · exact .inl (hw x hx)
      · exact .inr (List.mem_singleton.1 hx)
    · rw [List.dropLast_concat, ← List.append_assoc, ← hr]
  · exact ⟨[], by simp, (List.append_nil t).symm⟩

theorem unmarked_append {front : Text} (h : ClosedText front) (rest : Text) :
    unmarked (front ++ rest) = front ++ unmarked rest := by
  obtain ⟨c, hlast, hblank, hmark⟩ := h.last
  unfold unmarked
  rcases List.eq_nil_or_concat' rest with rfl | ⟨rest, d, rfl⟩
  · simp [hlast, hmark]
  · rw [← List.append_assoc, List.getLast?_concat, List.getLast?_concat, List.dropLast_concat,
      List.dropLast_concat, Text.trimEnd_append_of_getLast? hlast hblank, List.append_assoc]
    split <;> rfl

theorem LogicalLine.ClosedText.unmarked_eq {t : Text} (h : ClosedText t) : unmarked t = t := by
  obtain ⟨c, hlast, -, hmark⟩ := h.last
  refine if_neg ?_
  rw [hlast]
  exact fun heq => hmark (Option.some.inj heq)

theorem LinePart.body_append {w y : Text} (hw : ∀ c ∈ w, isBlank c) (h : LinePart y) :
    body (w ++ y) = unmarked y := by
  unfold body unmarked continues
  rw [h.trimEnd_append, h.getLast?_append, List.dropLast_append_of_ne_nil h.ne_nil]
  simp only [decide_eq_true_eq]
  split
  · obtain ⟨c, hhead, hc, -⟩ := h.start
    obtain ⟨rest, rfl⟩ := List.head?_eq_some_iff.1 hhead
    unfold Text.trim Text.trimStart
    rw [List.dropWhile_append_of_pos hw]
    cases rest with
    | nil => rfl
    | cons d rest => rw [List.dropLast_cons_cons, List.dropWhile_cons_of_neg (by simp [hc])]
  · exact h.trim_append hw

/-! ## The scan over such lines -/

namespace LogicalLine

/-- What stands in front of the next part of a logical line. -/
def lead (pending : Option LogicalLine) : Text :=
  (pending.map fun l => l.text ++ [' ']).getD []

theorem text_grow {pending : Option LogicalLine} {number : Nat} {line : Text}
    (hpending : ∀ l, pending = some l → l.text ≠ []) (hbody : body line ≠ []) :
    (grow pending number line).text = lead pending ++ body line := by
  cases pending with
  | none => rfl
  | some l =>
    simp only [grow, extend, if_neg hbody, if_neg (hpending l rfl)]
    simp [lead]

/-- The line is the one under way with the text `y` added, or starts with `y` on line `number`. -/
structure Adds (pending : Option LogicalLine) (number : Nat) (y : Text) (l : LogicalLine) :
    Prop where
  text : l.text = lead pending ++ y
  line : l.line = (pending.map (·.line)).getD number

theorem Adds.trans {pending : Option LogicalLine} {m n : Nat} {y z : Text} {l l' : LogicalLine}
    (h : Adds pending m y l) (h' : Adds (some l) n z l') : Adds pending m (y ++ ' ' :: z) l' where
  text := by
    rw [h'.text]
    simp [lead, h.text]
  line := by
    rw [h'.line]
    exact h.line

end LogicalLine

open LogicalLine (Adds)

section
variable {pending : Option LogicalLine} (hpending : ∀ l, pending = some l → l.text ≠ [])
  {w y : Text} (hw : ∀ c ∈ w, isBlank c ∧ c ≠ '\n') (k : Nat)
include hpending hw

/-- A line that ends its logical line; `b` is what stands behind it, and `after` the lines there. -/
theorem scan_line (h : LineText y) {b : Text} {after : List Text}
    (hafter : ∀ line : Text, '\n' ∉ line → line ≠ [] →
      Text.trimmedLines (line ++ b) = line.trimEnd :: after) :
    ∃ l, LogicalLine.scan pending (Text.numberFrom k (Text.trimmedLines (w ++ y ++ b))) =
        l :: LogicalLine.scan none (Text.numberFrom (k + 1) after) ∧
      Adds pending (k + 1) y l := by
  have hblank : ∀ c ∈ w, isBlank c := fun c hc => (hw c hc).1
  have hline : '\n' ∉ w ++ y := List.not_mem_append (fun hmem => (hw _ hmem).2 rfl) h.one_line
  have hne : w ++ y ≠ [] := List.append_ne_nil_of_right_ne_nil w h.ne_nil
  have hbody := h.body_append hblank
  refine ⟨LogicalLine.grow pending (k + 1) (w ++ y), ?_, ?_, LogicalLine.grow_line ..⟩
  · rw [hafter _ hline hne, h.trimEnd_append, Text.numberFrom_cons, LogicalLine.scan_cons,
      if_neg (by simp [h.isSkippable_append hblank]), if_neg (by simp [h.continues_append])]
  · rw [LogicalLine.text_grow hpending (by rw [hbody]; exact h.ne_nil), hbody]

theorem scan_continued_line (h : LinePart y) (rest : Text) :
    ∃ l, LogicalLine.scan pending
        (Text.numberFrom k (Text.trimmedLines (w ++ y ++ [' ', '\\'] ++ '\n' :: rest))) =
        LogicalLine.scan (some l) (Text.numberFrom (k + 1) (Text.trimmedLines rest)) ∧
      Adds pending (k + 1) y l := by
  have hblank : ∀ c ∈ w, isBlank c := fun c hc => (hw c hc).1
  have hline : '\n' ∉ w ++ y ++ [' ', '\\'] :=
    List.not_mem_append
      (List.not_mem_append (fun hmem => (hw _ hmem).2 rfl) h.one_line) (by decide)
  have hbody : body (w ++ y ++ [' ', '\\']) = y := by
    rw [body_append_space_mark, h.trim_append hblank]
  have hskip := isSkippable_append_space_mark (h.isSkippable_append hblank)
  refine ⟨LogicalLine.grow pending (k + 1) (w ++ y ++ [' ', '\\']), ?_, ?_,
    LogicalLine.grow_line ..⟩
  · rw [Text.trimmedLines_append_newline _ hline, trimEnd_append_space_mark, Text.numberFrom_cons,
      LogicalLine.scan_cons, if_neg (by rw [hskip]; decide), if_pos (continues_append_space_mark _)]
  · rw [LogicalLine.text_grow hpending (by rw [hbody]; exact h.ne_nil), hbody]

/-- The last line of a text, which may wait for a continuation. -/
theorem scan_last_line (h : LinePart y) (hne : unmarked y ≠ []) :
    ∃ l, LogicalLine.scan pending (Text.numberFrom k (Text.trimmedLines (w ++ y))) = [l] ∧
      l.text = LogicalLine.lead pending ++ unmarked y := by
  have hblank : ∀ c ∈ w, isBlank c := fun c hc => (hw c hc).1
  have hline : '\n' ∉ w ++ y := List.not_mem_append (fun hmem => (hw _ hmem).2 rfl) h.one_line
  have hbody := h.body_append hblank
  refine ⟨LogicalLine.grow pending (k + 1) (w ++ y), ?_, ?_⟩
  · rw [Text.trimmedLines_of_no_newline hline (List.append_ne_nil_of_right_ne_nil w h.ne_nil),
      h.trimEnd_append, Text.numberFrom_cons,
      LogicalLine.scan_cons_content _ _ _ (h.isSkippable_append hblank)]
    unfold LogicalLine.resume
    split <;> rfl
  · rw [LogicalLine.text_grow hpending (hbody ▸ hne), hbody]

end

end LayerLint
