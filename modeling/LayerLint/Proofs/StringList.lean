import LayerLint.Json.StringList
import LayerLint.Proofs.Text

/-!
# What a JSON list of strings is read from

Every reader below the list takes a front part of the text and does not look beyond it
(`TakesFront`). So a list is read from its opening to its closing bracket, and the white space
around them does not matter (`stringList?_trim`).
-/

namespace LayerLint.Json

/-- The reader takes a front part of the text, and would take it in front of any other text. -/
def TakesFront {α : Type} (read : Text → Option (α × Text)) : Prop :=
  ∀ t x rest, read t = some (x, rest) →
    ∃ front, t = front ++ rest ∧ ∀ other, read (front ++ other) = some (x, other)

/-! ## Characters -/

theorem takesFront_hexUnit? : TakesFront hexUnit? := by
  intro t n rest h
  unfold hexUnit? at h
  split at h
  · next a b c d more =>
    simp only [bind, Option.bind_eq_some_iff, Option.some.injEq, Prod.mk.injEq] at h
    obtain ⟨a', ha, b', hb, c', hc, d', hd, rfl, rfl⟩ := h
    exact ⟨[a, b, c, d], rfl, fun other => by simp [hexUnit?, ha, hb, hc, hd]⟩
  · cases h

theorem takesFront_unicodeEscape? : TakesFront unicodeEscape? := by
  intro t c rest h
  simp only [unicodeEscape?, bind, Option.bind_eq_some_iff, Prod.exists] at h
  obtain ⟨unit, more, hunit, h⟩ := h
  obtain ⟨front, rfl, hfront⟩ := takesFront_hexUnit? _ _ _ hunit
  split at h
  · next hhigh =>
    split at h
    · next more =>
      -- a high surrogate takes the escape of its partner as well
      simp only [Option.bind_eq_some_iff, Prod.exists] at h
      obtain ⟨low, last, hlow, h⟩ := h
      obtain ⟨front', rfl, hfront'⟩ := takesFront_hexUnit? _ _ _ hlow
      split at h
      · next hlow =>
        simp only [Option.some.injEq, Prod.mk.injEq] at h
        obtain ⟨rfl, rfl⟩ := h
        refine ⟨front ++ '\\' :: 'u' :: front', by simp, fun other => ?_⟩
        simp [unicodeEscape?, hfront, hfront', hhigh, hlow]
      · cases h
    · cases h
  · next hhigh =>
    split at h
    · cases h
    · next hlow =>
      simp only [Option.some.injEq, Prod.mk.injEq] at h
      obtain ⟨rfl, rfl⟩ := h
      exact ⟨front, rfl, fun other => by simp [unicodeEscape?, hfront, hhigh, hlow]⟩

theorem takesFront_stringChar? : TakesFront stringChar? := by
  intro t c rest h
  unfold stringChar? at h
  split at h
  · cases h
  · next more =>
    obtain ⟨front, rfl, hfront⟩ := takesFront_unicodeEscape? _ _ _ h
    exact ⟨'\\' :: 'u' :: front, rfl, hfront⟩
  · next e more hu =>
    simp only [Option.map_eq_some_iff, Prod.mk.injEq] at h
    obtain ⟨c, he, rfl, rfl⟩ := h
    refine ⟨['\\', e], rfl, fun other => ?_⟩
    simp [stringChar?, he]
  · next d more hu he =>
    split at h
    · cases h
    · next hplain =>
      simp only [Option.some.injEq, Prod.mk.injEq] at h
      obtain ⟨rfl, rfl⟩ := h
      refine ⟨[d], rfl, fun other => ?_⟩
      simp only [not_or] at hplain
      simp [stringChar?, hplain]

theorem head?_of_stringChar? {t rest : Text} {c : Char} (h : stringChar? t = some (c, rest)) :
    t.head? ≠ some '"' := by
  intro hhead
  obtain ⟨more, rfl⟩ := List.head?_eq_some_iff.1 hhead
  simp [stringChar?] at h

/-! ## Strings -/

theorem stringTail?_of_quote {t : Text} : stringTail? ('"' :: t) = some ([], t) := by
  rw [stringTail?]
  rfl

theorem stringTail?_of_char {t rest : Text} {c : Char} (h : stringChar? t = some (c, rest)) :
    stringTail? t = (stringTail? rest).map fun (s, after) => (c :: s, after) := by
  rw [stringTail?, if_neg (head?_of_stringChar? h)]
  split
  · simp_all
  · simp_all

theorem takesFront_stringTail? : TakesFront stringTail? := by
  intro t
  induction t using stringTail?.induct with
  | case1 t hq =>
    intro s rest h
    obtain ⟨more, rfl⟩ := List.head?_eq_some_iff.1 hq
    rw [stringTail?_of_quote] at h
    simp only [Option.some.injEq, Prod.mk.injEq] at h
    obtain ⟨rfl, rfl⟩ := h
    exact ⟨['"'], rfl, fun other => stringTail?_of_quote⟩
  | case2 t hq hc =>
    intro s rest h
    rw [stringTail?, if_neg hq] at h
    split at h
    · cases h
    · simp_all
  | case3 t hq c more hc ih =>
    intro s rest h
    rw [stringTail?_of_char hc] at h
    simp only [Option.map_eq_some_iff, Prod.mk.injEq, Prod.exists] at h
    obtain ⟨s, after, hs, rfl, rfl⟩ := h
    obtain ⟨front, rfl, hfront⟩ := takesFront_stringChar? _ _ _ hc
    obtain ⟨front', rfl, hfront'⟩ := ih _ _ hs
    refine ⟨front ++ front', (List.append_assoc ..).symm, fun other => ?_⟩
    rw [List.append_assoc, stringTail?_of_char (hfront _), hfront']
    rfl

theorem takesFront_string? : TakesFront string? := by
  intro t s rest h
  unfold string? at h
  split at h
  · obtain ⟨front, rfl, hfront⟩ := takesFront_stringTail? _ _ _ h
    exact ⟨'"' :: front, rfl, hfront⟩
  · cases h

/-! ## Lists -/

theorem skipGap_append {w : Text} (t : Text) (hw : ∀ c ∈ w, isGap c) :
    skipGap (w ++ t) = skipGap t :=
  List.dropWhile_append_of_pos hw

theorem skipGap_of_head? {t : Text} {c : Char} (h : t.head? = some c) (hc : isGap c = false) :
    skipGap t = t := by
  obtain ⟨rest, rfl⟩ := List.head?_eq_some_iff.1 h
  exact List.dropWhile_cons_of_neg (by simp [hc])

theorem exists_eq_append_skipGap (t : Text) :
    ∃ w, (∀ c ∈ w, isGap c) ∧ t = w ++ skipGap t :=
  ⟨t.takeWhile isGap, fun c hc => List.all_eq_true.1 List.all_takeWhile c hc,
    List.takeWhile_append_dropWhile.symm⟩

theorem members?_of_string {t s rest : Text} (hs : string? t = some (s, rest)) :
    members? t =
      match skipGap rest with
      | ']' :: after => some ([s], after)
      | ',' :: more => (members? (skipGap more)).map fun (ss, after) => (s :: ss, after)
      | _ => none := by
  rw [members?]
  split
  · next hnone =>
    rw [hs] at hnone
    cases hnone
  · next hsome =>
    rw [hs] at hsome
    cases hsome
    split <;> simp_all

theorem members?_of_none {t : Text} (hs : string? t = none) : members? t = none := by
  rw [members?]
  split
  · rfl
  · next hsome =>
    rw [hs] at hsome
    cases hsome

theorem head?_of_members? {t rest : Text} {ss : List Text} (h : members? t = some (ss, rest)) :
    t.head? = some '"' := by
  cases hs : string? t with
  | none =>
    rw [members?_of_none hs] at h
    cases h
  | some p =>
    unfold string? at hs
    split at hs
    · rfl
    · cases hs

theorem skipGap_of_members? {t rest : Text} {ss : List Text} (h : members? t = some (ss, rest)) :
    skipGap t = t :=
  skipGap_of_head? (head?_of_members? h) (by decide)

/-- The members are taken with the closing bracket. -/
theorem exists_front_of_members? (t : Text) {rest : Text} {ss : List Text}
    (h : members? t = some (ss, rest)) :
    ∃ front, t = front ++ ']' :: rest ∧
      ∀ other, members? (front ++ ']' :: other) = some (ss, other) := by
  induction t using members?.induct generalizing ss with
  | case1 t hs =>
    rw [members?_of_none hs] at h
    cases h
  | case2 t s more hs after hafter =>
    obtain ⟨front, rfl, hfront⟩ := takesFront_string? _ _ _ hs
    obtain ⟨w, hw, hmore⟩ := exists_eq_append_skipGap more
    rw [members?_of_string hs, hafter] at h
    cases h
    rw [hafter] at hmore
    refine ⟨front ++ w, by rw [hmore, List.append_assoc], fun other => ?_⟩
    rw [List.append_assoc, members?_of_string (hfront _), skipGap_append _ hw]
    rfl
  | case3 t s more hs next hnext ih =>
    obtain ⟨front, rfl, hfront⟩ := takesFront_string? _ _ _ hs
    obtain ⟨w, hw, hmore⟩ := exists_eq_append_skipGap more
    obtain ⟨w', hw', hgap⟩ := exists_eq_append_skipGap next
    rw [members?_of_string hs, hnext] at h
    simp only [Option.map_eq_some_iff, Prod.mk.injEq, Prod.exists] at h
    obtain ⟨ss, after, hss, rfl, rfl⟩ := h
    obtain ⟨front', heq, hfront'⟩ := ih hss
    rw [hnext, hgap, heq] at hmore
    refine ⟨front ++ (w ++ ',' :: (w' ++ front')), by rw [hmore]; simp, fun other => ?_⟩
    have hmembers : members? (skipGap (w' ++ (front' ++ ']' :: other))) = some (ss, other) := by
      rw [skipGap_append _ hw', skipGap_of_members? (hfront' other), hfront']
    rw [List.append_assoc, List.append_assoc, List.cons_append, List.append_assoc,
      members?_of_string (hfront _), skipGap_append _ hw, skipGap_of_head? rfl (by decide)]
    show (members? _).map _ = _
    rw [hmembers]
    rfl
  | case4 t s more hs hlast hnext =>
    rw [members?_of_string hs] at h
    split at h
    · next hc => exact (hlast _ hc).elim
    · next hc => exact (hnext _ hc).elim
    · cases h

theorem stringList?_of_nil {t inside after : Text} (ht : skipGap t = '[' :: inside)
    (hinside : skipGap inside = ']' :: after) :
    stringList? t = if skipGap after = [] then some [] else none := by
  simp [stringList?, ht, hinside]

theorem stringList?_of_members {t inside after : Text} {ss : List Text}
    (ht : skipGap t = '[' :: inside) (hinside : members? (skipGap inside) = some (ss, after)) :
    stringList? t = if skipGap after = [] then some ss else none := by
  have hquote := head?_of_members? hinside
  simp only [stringList?, ht]
  split
  · next hbracket => simp [hbracket] at hquote
  · rw [hinside]

/-- A list is read from its opening bracket to its closing one. -/
theorem exists_brackets_of_stringList? {t : Text} {ss : List Text} (h : stringList? t = some ss) :
    ∃ w front w', (∀ c ∈ w, isGap c) ∧ (∀ c ∈ w', isGap c) ∧
      t = w ++ ('[' :: (front ++ [']']) ++ w') ∧
      stringList? ('[' :: (front ++ [']'])) = some ss := by
  have hgap : ∀ {after : Text}, skipGap after = [] → ∀ c ∈ after, isGap c :=
    List.dropWhile_eq_nil_iff.1
  unfold stringList? at h
  split at h
  · next inside hinside =>
    obtain ⟨w, hw, ht⟩ := exists_eq_append_skipGap t
    obtain ⟨w', hw', heq⟩ := exists_eq_append_skipGap inside
    rw [hinside, heq] at ht
    split at h
    · next after hafter =>
      split at h
      · next hend =>
        cases h
        refine ⟨w, w', after, hw, hgap hend, by rw [ht, hafter]; simp, ?_⟩
        rw [stringList?_of_nil rfl (skipGap_append [']'] hw')]
        rfl
      · cases h
    · split at h
      · next ss after hss =>
        split at h
        · next hend =>
          cases h
          obtain ⟨front, hfront, hmembers⟩ := exists_front_of_members? _ hss
          refine ⟨w, w' ++ front, after, hw, hgap hend, by rw [ht, hfront]; simp, ?_⟩
          have hclosed := hmembers []
          rw [← skipGap_of_members? hclosed, ← skipGap_append _ hw', ← List.append_assoc] at hclosed
          rw [stringList?_of_members rfl hclosed]
          rfl
        · cases h
      · cases h
  · cases h

theorem isBlank_of_isGap {c : Char} (h : isGap c) : isBlank c := by
  simp only [isGap, Bool.or_eq_true, decide_eq_true_eq] at h
  rcases h with ((rfl | rfl) | rfl) | rfl <;> decide

/-- The white space around a list does not matter. Without it the list starts and ends in its
brackets. -/
theorem stringList?_trim {t : Text} {ss : List Text} (h : stringList? t = some ss) :
    t.trim.head? = some '[' ∧ t.trim.getLast? = some ']' ∧ stringList? t.trim = some ss := by
  obtain ⟨w, front, w', hw, hw', rfl, hlist⟩ := exists_brackets_of_stringList? h
  have hlast : ('[' :: (front ++ [']'])).getLast? = some ']' := by
    rw [← List.cons_append, List.getLast?_concat]
  have htrim : Text.trim (w ++ ('[' :: (front ++ [']']) ++ w')) = '[' :: (front ++ [']']) := by
    rw [← List.append_assoc, Text.trim_append_of_blank _ fun c hc => isBlank_of_isGap (hw' c hc)]
    exact Text.trim_blank_append (fun c hc => isBlank_of_isGap (hw c hc)) rfl (by decide) hlast
      (by decide)
  rw [htrim]
  exact ⟨rfl, hlast, hlist⟩

end LayerLint.Json
