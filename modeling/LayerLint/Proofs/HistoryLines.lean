import Mathlib.Data.List.DropRight
import LayerLint.History
import LayerLint.Proofs.SourceText

/-!
# Lines of a history

Every line of a history that is not blank is a layer or gives rise to one warning with its number
(`Accounts`), and which of them it is depends on its bars and on its size alone. A line is read
without the white space at its ends. That leaves the bars where they are (`trim_bars`), so layers
that are written one a line, with bars between their fields, are read back (`parse_lines_exact`).
-/

namespace LayerLint

/-! ## White space around bars -/

namespace Text

theorem trimStart_append_cons {c : Char} (hc : isBlank c = false) (a t : Text) :
    trimStart (a ++ c :: t) = trimStart a ++ c :: t := by
  unfold trimStart
  rw [List.dropWhile_append]
  split
  · next hnil =>
    rw [List.isEmpty_iff.1 hnil, List.dropWhile_cons_of_neg (by simp [hc]), List.nil_append]
  · rfl

theorem trimEnd_append_cons {c : Char} (hc : isBlank c = false) (a t : Text) :
    trimEnd (a ++ c :: t) = a ++ c :: trimEnd t := by
  have h := trimEnd_append_of_getLast? (t := a ++ [c]) List.getLast?_concat hc t
  rwa [List.append_assoc, List.append_assoc] at h

/-- Trimming a line with two bars trims its first and its last field. -/
theorem trim_bars (a b c : Text) :
    trim (a ++ '|' :: (b ++ '|' :: c)) = trimStart a ++ '|' :: (b ++ '|' :: trimEnd c) := by
  have hbar : isBlank '|' = false := by decide
  unfold trim
  rw [trimStart_append_cons hbar, trimEnd_append_cons hbar, trimEnd_append_cons hbar]

theorem trim_trimStart (t : Text) : trim (trimStart t) = trim t := by
  unfold trim trimStart
  rw [List.dropWhile_idempotent]

end Text

namespace History

/-! ## The fields of a line -/

theorem cutAtBar?_append {a : Text} (ha : '|' ∉ a) (b : Text) :
    cutAtBar? (a ++ '|' :: b) = some (a, b) := by
  have hkeep : ∀ c ∈ a, decide (c ≠ '|') = true := fun c hc =>
    decide_eq_true fun heq => ha (heq ▸ hc)
  unfold cutAtBar?
  rw [List.dropWhile_append_of_pos hkeep, List.takeWhile_append_of_pos hkeep]
  simp

theorem cutAtBar?_of_notMem {t : Text} (h : '|' ∉ t) : cutAtBar? t = none := by
  have hall : t.dropWhile (· ≠ '|') = [] :=
    List.dropWhile_eq_nil_iff.2 fun c hc => decide_eq_true fun heq => h (heq ▸ hc)
  unfold cutAtBar?
  rw [hall]

theorem cutAtBar?_eq_some_iff {t a b : Text} :
    cutAtBar? t = some (a, b) ↔ t = a ++ '|' :: b ∧ '|' ∉ a := by
  constructor
  · intro h
    by_cases hbar : '|' ∈ t
    · obtain ⟨a', b', rfl, ha'⟩ := List.eq_append_cons_of_mem hbar
      rw [cutAtBar?_append ha', Option.some.injEq, Prod.mk.injEq] at h
      obtain ⟨rfl, rfl⟩ := h
      exact ⟨rfl, ha'⟩
    · rw [cutAtBar?_of_notMem hbar] at h
      cases h
  · rintro ⟨rfl, ha⟩
    exact cutAtBar?_append ha b

theorem fields?_eq_some_iff {t id size createdBy : Text} :
    fields? t = some (id, size, createdBy) ↔
      t = id ++ '|' :: (size ++ '|' :: createdBy) ∧ '|' ∉ id ∧ '|' ∉ size := by
  unfold fields?
  constructor
  · intro h
    obtain ⟨⟨a, rest⟩, hcut, hrest⟩ := Option.bind_eq_some_iff.1 h
    obtain ⟨⟨b, c⟩, hcut', hfields⟩ := Option.bind_eq_some_iff.1 hrest
    cases hfields
    obtain ⟨rfl, hid⟩ := cutAtBar?_eq_some_iff.1 hcut
    obtain ⟨rfl, hsize⟩ := cutAtBar?_eq_some_iff.1 hcut'
    exact ⟨rfl, hid, hsize⟩
  · rintro ⟨rfl, hid, hsize⟩
    rw [cutAtBar?_append hid]
    show (cutAtBar? (size ++ '|' :: createdBy)).bind _ = _
    rw [cutAtBar?_append hsize]
    rfl

theorem fields?_eq_none_iff {t : Text} : fields? t = none ↔ t.count '|' < 2 := by
  by_cases hbar : '|' ∈ t
  · obtain ⟨a, b, rfl, ha⟩ := List.eq_append_cons_of_mem hbar
    have hcount : (a ++ '|' :: b).count '|' = b.count '|' + 1 := by
      rw [List.count_append, List.count_eq_zero.2 ha, List.count_cons_self, Nat.zero_add]
    rw [hcount]
    by_cases hbar' : '|' ∈ b
    · obtain ⟨c, d, rfl, hc⟩ := List.eq_append_cons_of_mem hbar'
      have hpos := List.count_pos_iff.2 hbar'
      rw [fields?_eq_some_iff.2 ⟨rfl, ha, hc⟩]
      refine iff_of_false (Option.some_ne_none _) ?_
      omega
    · have hzero := List.count_eq_zero.2 hbar'
      refine iff_of_true ?_ (by omega)
      unfold fields?
      rw [cutAtBar?_append ha]
      show (cutAtBar? b).bind _ = _
      rw [cutAtBar?_of_notMem hbar']
      rfl
  · have hzero := List.count_eq_zero.2 hbar
    refine iff_of_true ?_ (by omega)
    unfold fields?
    rw [cutAtBar?_of_notMem hbar]
    rfl

/-! ## An account of the lines -/

/-- The line has these fields: bars end the id and the size, and the command is the rest. -/
structure HasFields (line id size createdBy : Text) : Prop where
  line_eq : line.trim = id ++ '|' :: (size ++ '|' :: createdBy)
  id_plain : '|' ∉ id
  size_plain : '|' ∉ size

/-- `Accounts number lines layers warnings`: the lines, numbered from `number` on, are read as these
layers and give rise to these warnings, line by line. -/
inductive Accounts : Nat → List Text → List Layer → List Event → Prop
  | nil (number : Nat) : Accounts number [] [] []
  /-- A blank line is nothing. -/
  | blank {number : Nat} {line : Text} {lines : List Text} {layers : List Layer}
      {warnings : List Event} : line.trim = [] → Accounts (number + 1) lines layers warnings →
      Accounts number (line :: lines) layers warnings
  /-- A line with three fields and a size that can be read is a layer. -/
  | layer {number : Nat} {line id size createdBy : Text} {bytes : UInt64} {lines : List Text}
      {layers : List Layer} {warnings : List Event} : HasFields line id size createdBy →
      parseSize? size = some bytes → Accounts (number + 1) lines layers warnings →
      Accounts number (line :: lines)
        ({ id := id.trim, size := bytes, createdBy := createdBy.trim } :: layers) warnings
  /-- A line with a size that cannot be read gives a warning. -/
  | unreadable {number : Nat} {line id size createdBy : Text} {lines : List Text}
      {layers : List Layer} {warnings : List Event} : HasFields line id size createdBy →
      parseSize? size = none → Accounts (number + 1) lines layers warnings →
      Accounts number (line :: lines) layers
        (⟨.warn, Text.concat ["history line ", Text.ofNat number, ": unrecognized size ",
          size.quoted]⟩ :: warnings)
  /-- A line with fewer than two bars gives a warning. -/
  | incomplete {number : Nat} {line : Text} {lines : List Text} {layers : List Layer}
      {warnings : List Event} : line.trim ≠ [] → line.trim.count '|' < 2 →
      Accounts (number + 1) lines layers warnings →
      Accounts number (line :: lines) layers
        (⟨.warn, Text.concat ["history line ", Text.ofNat number,
          ": expected id|size|createdBy"]⟩ :: warnings)

section
variable {line id size createdBy : Text}

theorem readLine_of_blank (number : Nat) (h : line.trim = []) : readLine number line = none :=
  if_pos h

theorem HasFields.trim_ne_nil (h : HasFields line id size createdBy) : line.trim ≠ [] := by
  rw [h.line_eq]
  simp

theorem HasFields.readLine_of_some (h : HasFields line id size createdBy) {bytes : UInt64}
    (hbytes : parseSize? size = some bytes) (number : Nat) :
    readLine number line =
      some (.ok { id := id.trim, size := bytes, createdBy := createdBy.trim }) := by
  unfold readLine
  simp only [if_neg h.trim_ne_nil, fields?_eq_some_iff.2 ⟨h.line_eq, h.id_plain, h.size_plain⟩,
    hbytes]

theorem HasFields.readLine_of_none (h : HasFields line id size createdBy)
    (hbytes : parseSize? size = none) (number : Nat) :
    readLine number line = some (.error ⟨.warn, Text.concat ["history line ", Text.ofNat number,
      ": unrecognized size ", size.quoted]⟩) := by
  unfold readLine lineWarning
  simp only [if_neg h.trim_ne_nil, fields?_eq_some_iff.2 ⟨h.line_eq, h.id_plain, h.size_plain⟩,
    hbytes]
  simp [Text.concat]

theorem readLine_of_incomplete (number : Nat) (hne : line.trim ≠ [])
    (hbars : line.trim.count '|' < 2) :
    readLine number line = some (.error ⟨.warn, Text.concat ["history line ", Text.ofNat number,
      ": expected id|size|createdBy"]⟩) := by
  unfold readLine lineWarning
  simp only [if_neg hne, fields?_eq_none_iff.2 hbars]
  simp [Text.concat]

end

def readFrom (number : Nat) (lines : List Text) : List (Except Event Layer) :=
  (lines.zipIdx number).filterMap fun (line, k) => readLine k line

theorem readLines_eq (t : Text) : readLines t = readFrom 1 t.lines := by
  unfold readLines readFrom Text.numberedLines
  rw [List.filterMap_map, List.zipIdx_succ, List.filterMap_map]
  rfl

section
variable {number : Nat} {line : Text} {lines : List Text}

theorem readFrom_cons_none (h : readLine number line = none) :
    readFrom number (line :: lines) = readFrom (number + 1) lines :=
  List.filterMap_cons_none h

theorem readFrom_cons_some {r : Except Event Layer} (h : readLine number line = some r) :
    readFrom number (line :: lines) = r :: readFrom (number + 1) lines :=
  List.filterMap_cons_some h

end

theorem accounts_readFrom (number : Nat) (lines : List Text) :
    Accounts number lines (layersOf (readFrom number lines))
      (warningsOf (readFrom number lines)) := by
  induction lines generalizing number with
  | nil => exact .nil number
  | cons line lines ih =>
    by_cases hblank : line.trim = []
    · rw [readFrom_cons_none (readLine_of_blank number hblank)]
      exact .blank hblank (ih _)
    · cases hfields : fields? line.trim with
      | none =>
        have hbars := fields?_eq_none_iff.1 hfields
        rw [readFrom_cons_some (readLine_of_incomplete number hblank hbars)]
        exact .incomplete hblank hbars (ih _)
      | some fields =>
        obtain ⟨id, size, createdBy⟩ := fields
        obtain ⟨heq, hid, hsize⟩ := fields?_eq_some_iff.1 hfields
        have hline : HasFields line id size createdBy := ⟨heq, hid, hsize⟩
        cases hbytes : parseSize? size with
        | none =>
          rw [readFrom_cons_some (hline.readLine_of_none hbytes number)]
          exact .unreadable hline hbytes (ih _)
        | some bytes =>
          rw [readFrom_cons_some (hline.readLine_of_some hbytes number)]
          exact .layer hline hbytes (ih _)

/-- There is only one account of the lines. -/
theorem Accounts.eq_readFrom {number : Nat} {lines : List Text} {layers : List Layer}
    {warnings : List Event} (h : Accounts number lines layers warnings) :
    layers = layersOf (readFrom number lines) ∧ warnings = warningsOf (readFrom number lines) := by
  induction h with
  | nil number => exact ⟨rfl, rfl⟩
  | @blank number _ _ _ _ hblank _ ih =>
    rw [readFrom_cons_none (readLine_of_blank number hblank)]
    exact ih
  | @layer number _ _ _ _ _ _ _ _ hline hbytes _ ih =>
    rw [readFrom_cons_some (hline.readLine_of_some hbytes number)]
    exact ⟨congrArg _ ih.1, ih.2⟩
  | @unreadable number _ _ _ _ _ _ _ hline hbytes _ ih =>
    rw [readFrom_cons_some (hline.readLine_of_none hbytes number)]
    exact ⟨ih.1, congrArg _ ih.2⟩
  | @incomplete number _ _ _ _ hne hbars _ ih =>
    rw [readFrom_cons_some (readLine_of_incomplete number hne hbars)]
    exact ⟨ih.1, congrArg _ ih.2⟩

theorem accounts_iff {t : Text} {layers : List Layer} {events : List Event} :
    Accounts 1 t.lines layers events ↔ layers = parse t ∧ events = warnings t := by
  unfold parse warnings
  rw [readLines_eq]
  refine ⟨Accounts.eq_readFrom, ?_⟩
  rintro ⟨rfl, rfl⟩
  exact accounts_readFrom 1 t.lines

/-! ## Layers written one a line -/

/-- A layer as it is written: its fields, and the number of bytes that its size stands for. -/
structure Row where
  id : Text
  size : Text
  createdBy : Text
  bytes : UInt64

namespace Row

def line (r : Row) : Text := r.id ++ '|' :: (r.size ++ '|' :: r.createdBy)

def layer (r : Row) : Layer where
  id := r.id.trim
  size := r.bytes
  createdBy := r.createdBy.trim

/-- The fields stay on one line, and bars stand in the command at most. -/
structure WellFormed (r : Row) : Prop where
  one_line : '\n' ∉ r.line
  id_plain : '|' ∉ r.id
  size_plain : '|' ∉ r.size
  reads : parseSize? r.size = some r.bytes

instance (r : Row) : Decidable r.WellFormed :=
  decidable_of_iff ('\n' ∉ r.line ∧ '|' ∉ r.id ∧ '|' ∉ r.size ∧ parseSize? r.size = some r.bytes)
    ⟨fun ⟨h1, h2, h3, h4⟩ => ⟨h1, h2, h3, h4⟩, fun ⟨h1, h2, h3, h4⟩ => ⟨h1, h2, h3, h4⟩⟩

theorem line_ne_nil (r : Row) : r.line ≠ [] := by
  unfold line
  simp

theorem WellFormed.hasFields {r : Row} (h : r.WellFormed) {text : Text}
    (htext : text.trimEnd = r.line.trimEnd) :
    HasFields text r.id.trimStart r.size r.createdBy.trimEnd where
  line_eq := by
    rw [← Text.trim_trimEnd, htext, Text.trim_trimEnd]
    exact Text.trim_bars _ _ _
  id_plain hmem := h.id_plain ((List.dropWhile_sublist _).subset hmem)
  size_plain := h.size_plain

end Row

theorem trimmedLines_rows {rows : List Row} (h : ∀ r ∈ rows, r.WellFormed) :
    Text.trimmedLines (Text.join ['\n'] (rows.map Row.line)) =
      rows.map fun r => r.line.trimEnd := by
  induction rows with
  | nil => rfl
  | cons r rows ih =>
    obtain ⟨hr, hrows⟩ := List.forall_mem_cons.1 h
    have hopen : ¬ Text.AtLineStart r.line :=
      Text.not_atLineStart_append [] hr.one_line r.line_ne_nil
    rw [List.map_cons, Text.trimmedLines_join_cons _ hopen,
      Text.trimmedLines_of_no_newline hr.one_line r.line_ne_nil, ih hrows]
    rfl

/-- Lines that are rows up to the white space at their ends are read as the layers of the rows. -/
theorem accounts_rows {rows : List Row} (h : ∀ r ∈ rows, r.WellFormed) {lines : List Text}
    (hlines : lines.map Text.trimEnd = rows.map fun r => r.line.trimEnd) (number : Nat) :
    Accounts number lines (rows.map Row.layer) [] := by
  induction rows generalizing lines number with
  | nil =>
    obtain rfl := List.map_eq_nil_iff.1 hlines
    exact .nil number
  | cons r rows ih =>
    obtain ⟨hr, hrows⟩ := List.forall_mem_cons.1 h
    obtain ⟨line, lines, rfl, hline, hrest⟩ := List.map_eq_cons_iff.1 hlines
    have hread := Accounts.layer (hr.hasFields hline) hr.reads (ih hrows hrest (number + 1))
    rwa [Text.trim_trimStart, Text.trim_trimEnd] at hread

/-- The layers and the warnings of a text are the account of its lines, numbered from one: a line
that is not blank is one layer or one warning. Layers that are written one a line are read back
without the white space around their fields, and without a warning. -/
theorem parse_lines_exact :
    (∀ (t : Text) (layers : List Layer) (events : List Event),
      Accounts 1 t.lines layers events ↔ layers = parse t ∧ events = warnings t) ∧
    ∀ rows : List Row, (∀ r ∈ rows, r.WellFormed) →
      parse (Text.join "\n" (rows.map Row.line)) = rows.map Row.layer ∧
        warnings (Text.join "\n" (rows.map Row.line)) = [] := by
  refine ⟨fun t layers events => accounts_iff, fun rows h => ?_⟩
  obtain ⟨hlayers, hwarnings⟩ := accounts_iff.1 (accounts_rows h (trimmedLines_rows h) 1)
  exact ⟨hlayers.symm, hwarnings.symm⟩

/-- An empty id, a size with white space around it, a command with a bar, and a carriage return at
the end of a line that has nothing else behind its second bar. -/
theorem parse_lines_exact_of_carriageReturn :
    let rows : List Row :=
      [⟨" ".toList, " 12.5 kB\t".toList, "\r".toList, 12500⟩,
        ⟨" sha256:b".toList, "0B".toList, "make | tee log ".toList, 0⟩]
    (∀ r ∈ rows, r.WellFormed) ∧
      parse (Text.join "\n" (rows.map Row.line)) =
        [⟨[], 12500, []⟩, ⟨"sha256:b".toList, 0, "make | tee log".toList⟩] ∧
      warnings (Text.join "\n" (rows.map Row.line)) = [] := by
  intro rows
  have hrows : ∀ r ∈ rows, r.WellFormed := by decide +kernel
  obtain ⟨hparse, hwarnings⟩ := parse_lines_exact.2 rows hrows
  exact ⟨hrows, hparse.trans (by decide), hwarnings⟩

end History

end LayerLint
