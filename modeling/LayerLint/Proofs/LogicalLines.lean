import LayerLint.Dockerfile.LogicalLine
import LayerLint.Proofs.Text

/-!
# The scan into logical lines

`scan_cons` says what one physical line does to the scan. From it: lines that are skippable leave
no trace (`scan_skip`), only the text of a line up to the white space at its end counts
(`scan_map_trimEnd`), numbers are passed on as they stand (`scan_map_relabel`), and they stay in
order (`map_line_scan_sublist`). When the last line that is not skippable ends what it belongs to,
no logical line ends in a blank or in a continuation mark (`closedText_of_mem_scan`), and what
stands behind is read as if nothing stood in front (`scan_append`).
-/

namespace LayerLint

/-! ## One physical line -/

/-- A line is skippable when its first character that is not blank, if any, opens a comment. -/
theorem isSkippable_iff (line : Text) :
    isSkippable line = true ↔ ∀ c, line.find? (fun c => !isBlank c) = some c → c = '#' := by
  rw [← Text.head?_trim]
  unfold isSkippable
  cases line.trim with
  | nil => simp
  | cons c rest => simp

theorem isSkippable_iff_trim (line : Text) :
    isSkippable line = true ↔ line.trim = [] ∨ line.trim.head? = some '#' := by
  unfold isSkippable
  cases line.trim with
  | nil => simp
  | cons c rest => simp

theorem trimEnd_append_mark (front : Text) {gap : Text} (hgap : ∀ c ∈ gap, isBlank c = true) :
    Text.trimEnd (front ++ '\\' :: gap) = front ++ ['\\'] := by
  rw [← List.singleton_append, ← List.append_assoc, Text.trimEnd_append_of_blank _ hgap]
  exact Text.trimEnd_of_getLast? List.getLast?_concat (by decide)

/-- A line goes on in the next one when nothing but white space follows its last backslash. -/
theorem continues_iff (line : Text) :
    continues line = true ↔
      ∃ front gap, line = front ++ '\\' :: gap ∧ ∀ c ∈ gap, isBlank c = true := by
  unfold continues
  rw [decide_eq_true_iff]
  constructor
  · intro hlast
    obtain ⟨gap, hgap, hline⟩ := Text.exists_eq_trimEnd_append line
    obtain ⟨front, hfront⟩ := List.getLast?_eq_some_iff.1 hlast
    refine ⟨front, gap, ?_, hgap⟩
    rw [hfront, List.append_assoc] at hline
    exact hline
  · rintro ⟨front, gap, rfl, hgap⟩
    rw [trimEnd_append_mark front hgap, List.getLast?_concat]

/-- Only the last mark is taken away. -/
theorem body_append_mark (front : Text) {gap : Text} (hgap : ∀ c ∈ gap, isBlank c = true) :
    body (front ++ '\\' :: gap) = front.trim := by
  unfold body
  rw [if_pos ((continues_iff _).2 ⟨front, gap, rfl, hgap⟩), trimEnd_append_mark front hgap,
    List.dropLast_concat]

theorem body_of_not_continues {line : Text} (h : continues line = false) :
    body line = line.trim := by
  unfold body
  rw [h, if_neg Bool.false_ne_true, Text.trim_trimEnd]

@[simp] theorem isSkippable_trimEnd (line : Text) :
    isSkippable line.trimEnd = isSkippable line := by
  unfold isSkippable
  rw [Text.trim_trimEnd]

@[simp] theorem continues_trimEnd (line : Text) : continues line.trimEnd = continues line := by
  unfold continues
  rw [Text.trimEnd_trimEnd]

@[simp] theorem body_trimEnd (line : Text) : body line.trimEnd = body line := by
  unfold body
  rw [continues_trimEnd, Text.trimEnd_trimEnd]

theorem mem_of_mem_body {line : Text} {c : Char} (h : c ∈ body line) : c ∈ line := by
  unfold body Text.trim at h
  have h := (List.dropWhile_sublist _).subset (Text.mem_of_mem_trimEnd h)
  split at h
  · exact Text.mem_of_mem_trimEnd ((List.dropLast_sublist _).subset h)
  · exact Text.mem_of_mem_trimEnd h

namespace LogicalLine

/-- The logical line under way behind a physical line that is not skippable. -/
def grow (pending : Option LogicalLine) (number : Nat) (line : Text) : LogicalLine :=
  match pending with
  | none => ofLine number line
  | some l => l.extend line

theorem scan_cons (pending : Option LogicalLine) (number : Nat) (line : Text)
    (rest : List (Nat × Text)) :
    scan pending ((number, line) :: rest) =
      if isSkippable line then scan pending rest
      else if continues line then scan (some (grow pending number line)) rest
      else grow pending number line :: scan none rest := rfl

/-- The scan behind a line, which may wait for its continuation. -/
def resume (opened : Bool) (l : LogicalLine) (rest : List (Nat × Text)) : List LogicalLine :=
  if opened then scan (some l) rest else l :: scan none rest

theorem scan_cons_content (pending : Option LogicalLine) (number : Nat) {line : Text}
    (rest : List (Nat × Text)) (h : isSkippable line = false) :
    scan pending ((number, line) :: rest) =
      resume (continues line) (grow pending number line) rest := by
  rw [scan_cons, if_neg (by simp [h])]
  rfl

@[simp] theorem grow_trimEnd (pending : Option LogicalLine) (number : Nat) (line : Text) :
    grow pending number line.trimEnd = grow pending number line := by
  cases pending <;> simp [grow, ofLine, extend]

/-! ## What the scan passes over -/

theorem scan_skip (pending : Option LogicalLine) (xs ys : List (Nat × Text)) (number : Nat)
    {line : Text} (h : isSkippable line = true) :
    scan pending (xs ++ (number, line) :: ys) = scan pending (xs ++ ys) := by
  induction xs generalizing pending with
  | nil => rw [List.nil_append, scan_cons, if_pos h, List.nil_append]
  | cons x xs ih =>
    obtain ⟨n, l⟩ := x
    simp only [List.cons_append, scan_cons, ih]

theorem scan_map_trimEnd (pending : Option LogicalLine) (xs : List (Nat × Text)) :
    scan pending (xs.map (Prod.map id Text.trimEnd)) = scan pending xs := by
  induction xs generalizing pending with
  | nil => rfl
  | cons x xs ih =>
    obtain ⟨n, l⟩ := x
    simp only [List.map_cons, Prod.map_apply, id_eq, scan_cons, isSkippable_trimEnd,
      continues_trimEnd, grow_trimEnd, ih]

/-! ## Numbers -/

def relabel (f : Nat → Nat) (l : LogicalLine) : LogicalLine := { l with line := f l.line }

theorem grow_relabel (f : Nat → Nat) (pending : Option LogicalLine) (number : Nat) (line : Text) :
    grow (pending.map (relabel f)) (f number) line = (grow pending number line).relabel f := by
  cases pending <;> rfl

theorem scan_map_relabel (f : Nat → Nat) (pending : Option LogicalLine) (xs : List (Nat × Text)) :
    scan (pending.map (relabel f)) (xs.map (Prod.map f id)) =
      (scan pending xs).map (relabel f) := by
  induction xs generalizing pending with
  | nil => cases pending <;> rfl
  | cons x xs ih =>
    obtain ⟨n, l⟩ := x
    simp only [List.map_cons, Prod.map_apply, id_eq, scan_cons, grow_relabel]
    split
    · exact ih pending
    · split
      · exact ih (some _)
      · rw [List.map_cons, ← ih none]
        rfl

theorem grow_line (pending : Option LogicalLine) (number : Nat) (line : Text) :
    (grow pending number line).line = (pending.map (·.line)).getD number := by
  cases pending <;> rfl

/-- The numbers of the logical lines are among those of the physical lines, in the same order. -/
theorem map_line_scan_sublist (pending : Option LogicalLine) (xs : List (Nat × Text)) :
    ((scan pending xs).map (·.line)).Sublist
      ((pending.map (·.line)).toList ++ xs.map Prod.fst) := by
  induction xs generalizing pending with
  | nil => cases pending <;> simp [scan]
  | cons x xs ih =>
    obtain ⟨n, l⟩ := x
    have hstart : ((grow pending n l).line :: xs.map Prod.fst).Sublist
        ((pending.map (·.line)).toList ++ n :: xs.map Prod.fst) := by
      rw [grow_line]
      cases pending with
      | none => exact List.Sublist.refl _
      | some p => exact (List.sublist_cons_self n _).cons_cons _
    rw [List.map_cons, scan_cons]
    split
    · exact (ih pending).trans ((List.sublist_cons_self n _).append_left _)
    · split
      · exact (ih (some _)).trans hstart
      · exact ((ih none).cons_cons _).trans hstart

/-! ## The end of a logical line -/

/-- A text on one line whose last character is neither blank nor a continuation mark. -/
structure ClosedText (t : Text) : Prop where
  one_line : '\n' ∉ t
  last : ∃ c, t.getLast? = some c ∧ isBlank c = false ∧ c ≠ '\\'

theorem ClosedText.ne_nil {t : Text} (h : ClosedText t) : t ≠ [] := by
  rintro rfl
  obtain ⟨c, hc, -⟩ := h.last
  cases hc

theorem ClosedText.append {s t : Text} (hs : '\n' ∉ s) (h : ClosedText t) :
    ClosedText (s ++ t) where
  one_line := List.not_mem_append hs h.one_line
  last := by
    obtain ⟨c, hc, hblank⟩ := h.last
    exact ⟨c, by rw [List.getLast?_append, hc]; rfl, hblank⟩

/-- A text on one line without white space at its end. -/
structure TrimmedText (t : Text) : Prop where
  one_line : '\n' ∉ t
  last : ∀ c, t.getLast? = some c → isBlank c = false

theorem ClosedText.trimmedText {t : Text} (h : ClosedText t) : TrimmedText t where
  one_line := h.one_line
  last c hc := by
    obtain ⟨d, hd, hblank, -⟩ := h.last
    exact Option.some.inj (hd.symm.trans hc) ▸ hblank

theorem TrimmedText.of_suffix {s t : Text} (h : TrimmedText t) (hs : s <:+ t) : TrimmedText s where
  one_line hmem := h.one_line (hs.subset hmem)
  last c hc := by
    have hne : s ≠ [] := by
      rintro rfl
      cases hc
    exact h.last c ((Text.getLast?_of_suffix hs hne).symm.trans hc)

theorem ClosedText.append_trimmed {s t : Text} (hs : ClosedText s) (ht : TrimmedText t) :
    TrimmedText (s ++ t) where
  one_line := List.not_mem_append hs.one_line ht.one_line
  last c hc := by
    by_cases hnil : t = []
    · obtain ⟨d, hd, hblank, -⟩ := hs.last
      rw [hnil, List.append_nil, hd] at hc
      exact Option.some.inj hc ▸ hblank
    · exact ht.last c ((Text.getLast?_of_suffix (List.suffix_append s t) hnil).trans hc)

theorem trimmedText_body {line : Text} (hline : '\n' ∉ line) : TrimmedText (body line) where
  one_line hmem := hline (mem_of_mem_body hmem)
  last c hc := by
    have hne : body line ≠ [] := by
      intro hnil
      rw [hnil] at hc
      cases hc
    obtain ⟨d, hd, hblank⟩ := Text.getLast?_trimEnd hne
    rw [Option.some.inj (hc.symm.trans hd)]
    exact hblank

theorem trimmedText_grow {pending : Option LogicalLine} {number : Nat} {line : Text}
    (hpending : ∀ l, pending = some l → TrimmedText l.text) (hline : '\n' ∉ line) :
    TrimmedText (grow pending number line).text := by
  have hbody := trimmedText_body hline
  cases pending with
  | none => exact hbody
  | some l =>
    simp only [grow, extend]
    split
    · exact hpending l rfl
    · next hne =>
      split
      · exact hbody
      · have hsuffix : body line <:+ l.text ++ ' ' :: body line :=
          (List.suffix_cons ' ' _).trans (List.suffix_append _ _)
        exact ⟨by simp [(hpending l rfl).one_line, hbody.one_line],
          fun c hc => hbody.last c ((Text.getLast?_of_suffix hsuffix hne).trans hc)⟩

theorem closedText_body {line : Text} (hline : '\n' ∉ line) (hskip : isSkippable line = false)
    (hcont : continues line = false) : ClosedText (body line) where
  one_line hmem := hline (mem_of_mem_body hmem)
  last := by
    have hbody : body line = line.trim := by simp [body, hcont]
    have hne : line.trim ≠ [] := by
      intro hnil
      simp [isSkippable, hnil] at hskip
    obtain ⟨c, hc, hblank⟩ := Text.getLast?_trimEnd hne
    refine ⟨c, by rw [hbody]; exact hc, hblank, ?_⟩
    rintro rfl
    -- the line ends where its body ends, so the mark would stand at its end
    have hlast : line.trimEnd.getLast? = some '\\' :=
      (Text.getLast?_of_suffix (Text.trim_suffix_trimEnd line) hne).symm.trans hc
    simp [continues, hlast] at hcont

theorem closedText_grow {pending : Option LogicalLine} {number : Nat} {line : Text}
    (hpending : ∀ l, pending = some l → '\n' ∉ l.text) (hline : '\n' ∉ line)
    (hskip : isSkippable line = false) (hcont : continues line = false) :
    ClosedText (grow pending number line).text := by
  have hbody := closedText_body hline hskip hcont
  cases pending with
  | none => exact hbody
  | some l =>
    simp only [grow, extend, if_neg hbody.ne_nil]
    split
    · exact hbody
    · have hspace : ClosedText (' ' :: body line) :=
        ClosedText.append (s := [' ']) (by decide) hbody
      exact ClosedText.append (hpending l rfl) hspace

theorem newline_notMem_grow {pending : Option LogicalLine} {number : Nat} {line : Text}
    (hpending : ∀ l, pending = some l → '\n' ∉ l.text) (hline : '\n' ∉ line) :
    '\n' ∉ (grow pending number line).text := by
  have hbody : '\n' ∉ body line := fun h => hline (mem_of_mem_body h)
  cases pending with
  | none => exact hbody
  | some l =>
    simp only [grow, extend]
    split
    · exact hpending l rfl
    · split
      · exact hbody
      · simp [hpending l rfl, hbody]

def contentLines (lines : List Text) : List Text := lines.filter fun line => !isSkippable line

/-- The last line that is not skippable does not end in a continuation mark. -/
def EndsClosed (lines : List Text) : Prop :=
  ∀ line, (contentLines lines).getLast? = some line → continues line = false

/-- No continuation is left open behind the lines, whatever was pending in front of them. -/
structure Finishes (pending : Option LogicalLine) (lines : List Text) : Prop where
  closed : EndsClosed lines
  none_of_nil : contentLines lines = [] → pending = none

theorem EndsClosed.finishes {lines : List Text} (h : EndsClosed lines) : Finishes none lines :=
  ⟨h, fun _ => rfl⟩

section
variable {pending : Option LogicalLine} {line : Text} {lines : List Text}

theorem Finishes.skip (h : Finishes pending (line :: lines)) (hskip : isSkippable line = true) :
    Finishes pending lines := by
  have hcontent : contentLines (line :: lines) = contentLines lines := by
    simp [contentLines, hskip]
  constructor
  · intro last hlast
    exact h.closed last (by rw [hcontent, hlast])
  · intro hnil
    exact h.none_of_nil (by rw [hcontent, hnil])

theorem Finishes.content (h : Finishes pending (line :: lines)) (hskip : isSkippable line = false)
    (l : LogicalLine) : Finishes (if continues line then some l else none) lines := by
  have hcontent : contentLines (line :: lines) = line :: contentLines lines := by
    simp [contentLines, hskip]
  constructor
  · intro last hlast
    apply h.closed
    rw [hcontent, List.getLast?_cons, hlast]
    rfl
  · intro hnil
    -- a line that is continued cannot be the last one
    have hlast := h.closed line (by rw [hcontent, hnil]; rfl)
    rw [hlast]
    rfl

end

theorem closedText_of_mem_scan {pending : Option LogicalLine} {xs : List (Nat × Text)}
    (hlines : ∀ x ∈ xs, '\n' ∉ x.2) (hpending : ∀ l, pending = some l → '\n' ∉ l.text)
    (h : Finishes pending (xs.map Prod.snd)) : ∀ l ∈ scan pending xs, ClosedText l.text := by
  induction xs generalizing pending with
  | nil =>
    rw [h.none_of_nil rfl]
    exact fun l hl => nomatch hl
  | cons x xs ih =>
    obtain ⟨n, line⟩ := x
    have hline : '\n' ∉ line := hlines _ (List.mem_cons_self ..)
    have hrest : ∀ x ∈ xs, '\n' ∉ x.2 := fun x hx => hlines x (List.mem_cons_of_mem _ hx)
    cases hskip : isSkippable line with
    | true =>
      rw [scan_cons, if_pos hskip]
      exact ih hrest hpending (h.skip hskip)
    | false =>
      have hnext := h.content hskip (grow pending n line)
      rw [scan_cons_content pending n xs hskip]
      cases hcont : continues line with
      | true =>
        rw [hcont] at hnext
        refine ih hrest (fun l hl => ?_) hnext
        cases hl
        exact newline_notMem_grow hpending hline
      | false =>
        rw [hcont] at hnext
        intro l hl
        rcases List.mem_cons.1 hl with rfl | hl
        · exact closedText_grow hpending hline hskip hcont
        · exact ih hrest (by simp) hnext l hl

/-- A logical line that another one follows does not end in a continuation mark. -/
theorem pairwise_closedText_scan {pending : Option LogicalLine} {xs : List (Nat × Text)}
    (hlines : ∀ x ∈ xs, '\n' ∉ x.2) (hpending : ∀ l, pending = some l → '\n' ∉ l.text) :
    (scan pending xs).Pairwise fun l _ => ClosedText l.text := by
  induction xs generalizing pending with
  | nil => cases pending <;> simp [scan]
  | cons x xs ih =>
    obtain ⟨n, line⟩ := x
    obtain ⟨hline, hrest⟩ := List.forall_mem_cons.1 hlines
    cases hskip : isSkippable line with
    | true =>
      rw [scan_cons, if_pos hskip]
      exact ih hrest hpending
    | false =>
      rw [scan_cons_content pending n xs hskip]
      cases hcont : continues line with
      | true =>
        refine ih hrest fun l hl => ?_
        cases hl
        exact newline_notMem_grow hpending hline
      | false =>
        refine List.pairwise_cons.2 ⟨fun _ _ => ?_, ih hrest (by simp)⟩
        exact closedText_grow hpending hline hskip hcont

/-- No logical line ends in white space, also where the end of the text cuts it off. -/
theorem trimmedText_of_mem_scan {pending : Option LogicalLine} {xs : List (Nat × Text)}
    (hlines : ∀ x ∈ xs, '\n' ∉ x.2) (hpending : ∀ l, pending = some l → TrimmedText l.text) :
    ∀ l ∈ scan pending xs, TrimmedText l.text := by
  induction xs generalizing pending with
  | nil => exact fun l hl => hpending l (Option.mem_toList.1 hl)
  | cons x xs ih =>
    obtain ⟨n, line⟩ := x
    obtain ⟨hline, hrest⟩ := List.forall_mem_cons.1 hlines
    have hgrow : TrimmedText (grow pending n line).text := trimmedText_grow hpending hline
    rw [scan_cons]
    split
    · exact ih hrest hpending
    · split
      · exact ih hrest fun l hl => Option.some.inj hl ▸ hgrow
      · exact List.forall_mem_cons.2 ⟨hgrow, ih hrest (by simp)⟩

/-- Nothing that stands in front of closed lines reaches beyond them. -/
theorem scan_append {pending : Option LogicalLine} {xs : List (Nat × Text)}
    (h : Finishes pending (xs.map Prod.snd)) (ys : List (Nat × Text)) :
    scan pending (xs ++ ys) = scan pending xs ++ scan none ys := by
  induction xs generalizing pending with
  | nil =>
    rw [h.none_of_nil rfl]
    rfl
  | cons x xs ih =>
    obtain ⟨n, line⟩ := x
    rw [List.cons_append]
    cases hskip : isSkippable line with
    | true =>
      rw [scan_cons, scan_cons, if_pos hskip, if_pos hskip]
      exact ih (h.skip hskip)
    | false =>
      have hnext := h.content hskip (grow pending n line)
      rw [scan_cons_content pending n _ hskip, scan_cons_content pending n _ hskip]
      cases hcont : continues line with
      | true =>
        rw [hcont] at hnext
        exact ih hnext
      | false =>
        rw [hcont] at hnext
        exact congrArg (_ :: ·) (ih hnext)

end LogicalLine

end LayerLint
