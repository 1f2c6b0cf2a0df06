import Mathlib.Data.List.Basic
import LayerLint.Proofs.Text

/-!
# Words and the spaces between them

A text is its words and the white space around them (`word_induction`). Written with single spaces
between them, the words of a text are the text itself but for its white space (`join_words`): each
run of blanks is one space, and there is none at either end.
-/

namespace LayerLint.Text

/-! ## Pieces with a separator between them -/

theorem join_singleton (sep c : Text) : join sep [c] = c := List.intercalate_singleton

theorem join_cons_cons (sep c d : Text) (cs : List Text) :
    join sep (c :: d :: cs) = c ++ (sep ++ join sep (d :: cs)) := by
  unfold join
  rw [List.intercalate_cons_cons, List.append_assoc]

theorem join_cons (sep c : Text) (cs : List Text) :
    join sep (c :: cs) = c ++ cs.flatMap (sep ++ ·) := by
  induction cs generalizing c with
  | nil => rw [join_singleton, List.flatMap_nil, List.append_nil]
  | cons d cs ih => rw [join_cons_cons, ih, List.flatMap_cons, List.append_assoc]

/-! ## Words with single spaces between them -/

structure IsWord (w : Text) : Prop where
  ne_nil : w ≠ []
  solid : ∀ c ∈ w, isBlank c = false

instance (w : Text) : Decidable w.IsWord :=
  decidable_of_iff (w ≠ [] ∧ (w.all fun c => !isBlank c) = true)
    ⟨fun h => ⟨h.1, by simpa using h.2⟩, fun h => ⟨h.ne_nil, by simpa using h.solid⟩⟩

theorem IsWord.words {w : Text} (h : w.IsWord) : w.words = [w] := by
  unfold Text.words
  rw [List.splitOnP_eq_singleton h.solid]
  simp [h.ne_nil]

theorem words_join {ws : List Text} (h : ∀ w ∈ ws, w.IsWord) : words (join [' '] ws) = ws := by
  induction ws with
  | nil => rfl
  | cons w ws ih =>
    obtain ⟨hw, hws⟩ := List.forall_mem_cons.1 h
    cases ws with
    | nil => rw [join_singleton, hw.words]
    | cons w' ws =>
      rw [join_cons_cons, List.singleton_append, words_append_cons (by decide), hw.words, ih hws]
      rfl

theorem mem_join {sep : Text} {ws : List Text} {c : Char} (h : c ∈ join sep ws) :
    c ∈ sep ∨ ∃ w ∈ ws, c ∈ w := by
  cases ws with
  | nil => exact nomatch h
  | cons w ws =>
    rw [join_cons] at h
    simp only [List.mem_append, List.mem_flatMap] at h
    rcases h with h | ⟨w', hw', h | h⟩
    · exact .inr ⟨w, List.mem_cons_self .., h⟩
    · exact .inl h
    · exact .inr ⟨w', List.mem_cons_of_mem _ hw', h⟩

theorem head?_join (sep : Text) {ws : List Text} (h : ∀ w ∈ ws, w ≠ []) :
    (join sep ws).head? = ws.head?.bind List.head? := by
  cases ws with
  | nil => rfl
  | cons w ws =>
    obtain ⟨c, w, rfl⟩ := List.exists_cons_of_ne_nil (h w (List.mem_cons_self ..))
    rw [join_cons]
    rfl

theorem getLast?_join (sep : Text) {ws : List Text} (h : ∀ w ∈ ws, w ≠ []) :
    (join sep ws).getLast? = ws.getLast?.bind List.getLast? := by
  induction ws with
  | nil => rfl
  | cons w ws ih =>
    obtain ⟨-, hws⟩ := List.forall_mem_cons.1 h
    cases ws with
    | nil => rw [join_singleton]; rfl
    | cons w' ws =>
      have hne : join sep (w' :: ws) ≠ [] := by
        rw [join_cons]
        simp [(List.forall_mem_cons.1 hws).1]
      rw [join_cons_cons, ← List.append_assoc, List.getLast?_append_of_ne_nil _ hne, ih hws,
        List.getLast?_cons_cons]

theorem trim_join (sep : Text) {ws : List Text} (h : ∀ w ∈ ws, w.IsWord) :
    trim (join sep ws) = join sep ws := by
  have hne : ∀ w ∈ ws, w ≠ [] := fun w hw => (h w hw).ne_nil
  by_cases hnil : ws = []
  · rw [hnil]
    rfl
  · have hfirst := h _ (List.head_mem hnil)
    have hlast := h _ (List.getLast_mem hnil)
    have hhead : (join sep ws).head? = some ((ws.head hnil).head hfirst.ne_nil) := by
      rw [head?_join sep hne, List.head?_eq_some_head hnil]
      exact List.head?_eq_some_head hfirst.ne_nil
    have hend : (join sep ws).getLast? = some ((ws.getLast hnil).getLast hlast.ne_nil) := by
      rw [getLast?_join sep hne, List.getLast?_eq_some_getLast hnil]
      exact List.getLast?_eq_some_getLast hlast.ne_nil
    exact trim_blank_append (w := []) (fun _ hc => nomatch hc) hhead
      (hfirst.solid _ (List.head_mem _)) hend (hlast.solid _ (List.getLast_mem _))

/-! ## The words of a text -/

theorem words_cons_of_blank {c : Char} (hc : isBlank c) (t : Text) : words (c :: t) = words t :=
  words_append_cons hc [] t

theorem words_of_blank {w : Text} (hw : ∀ c ∈ w, isBlank c) : words w = [] := by
  induction w with
  | nil => rfl
  | cons c w ih =>
    obtain ⟨hc, hw⟩ := List.forall_mem_cons.1 hw
    rw [words_cons_of_blank hc, ih hw]

def StartsApart (t : Text) : Prop := ∀ c, t.head? = some c → isBlank c

theorem startsApart_cons {c : Char} (hc : isBlank c) (t : Text) : StartsApart (c :: t) :=
  fun _ hd => Option.some.inj hd ▸ hc

theorem IsWord.words_append {w t : Text} (h : w.IsWord) (ht : StartsApart t) :
    Text.words (w ++ t) = w :: Text.words t := by
  cases t with
  | nil => rw [List.append_nil, h.words]; rfl
  | cons c t =>
    have hc : isBlank c := ht c rfl
    rw [words_append_cons hc, h.words, words_cons_of_blank hc]
    rfl

/-- A text is white space, or white space, a word and a text that starts apart from it. -/
theorem word_induction {motive : Text → Prop} (blank : ∀ w, (∀ c ∈ w, isBlank c) → motive w)
    (word : ∀ w v t, (∀ c ∈ w, isBlank c) → v.IsWord → StartsApart t → motive t →
      motive (w ++ (v ++ t))) (t : Text) : motive t := by
  induction hn : t.length using Nat.strongRecOn generalizing t with
  | ind n ih =>
    subst hn
    have hw : ∀ c ∈ t.takeWhile isBlank, isBlank c := List.all_eq_true.1 List.all_takeWhile
    have hsplit := List.takeWhile_append_dropWhile (p := isBlank) (l := t)
    cases hrest : t.dropWhile isBlank with
    | nil =>
      rw [hrest, List.append_nil] at hsplit
      exact hsplit ▸ blank _ hw
    | cons c rest =>
      have hc : isBlank c = false := by
        have := List.head?_dropWhile_not isBlank t
        simpa [hrest] using this
      have hcut := List.takeWhile_append_dropWhile (p := fun c => !isBlank c) (l := c :: rest)
      have hv : IsWord ((c :: rest).takeWhile fun c => !isBlank c) :=
        ⟨by simp [hc],
          fun d hd => by simpa using List.all_eq_true.1 List.all_takeWhile d hd⟩
      have hapart : StartsApart ((c :: rest).dropWhile fun c => !isBlank c) := by
        intro d hd
        have := List.head?_dropWhile_not (fun c => !isBlank c) (c :: rest)
        simpa [hd] using this
      have hlen : ((c :: rest).dropWhile fun c => !isBlank c).length < t.length := by
        have h1 := (List.dropWhile_sublist (fun c => !isBlank c) (l := rest)).length_le
        have h2 := congrArg List.length hsplit
        rw [hrest, List.length_append, List.length_cons] at h2
        rw [List.dropWhile_cons_of_pos (by simp [hc])]
        omega
      have h := word _ _ _ hw hv hapart (ih _ hlen _ rfl)
      rwa [hcut, ← hrest, hsplit] at h

theorem words_blank_append {w : Text} (hw : ∀ c ∈ w, isBlank c) (t : Text) :
    words (w ++ t) = words t := by
  induction w with
  | nil => rfl
  | cons c w ih =>
    obtain ⟨hc, hw⟩ := List.forall_mem_cons.1 hw
    rw [List.cons_append, words_cons_of_blank hc, ih hw]

theorem isWord_of_mem_words {t v : Text} (h : v ∈ words t) : v.IsWord := by
  induction t using word_induction with
  | blank w hw => exact absurd (words_of_blank hw ▸ h) List.not_mem_nil
  | word w u t hw hu ht ih =>
    rw [words_blank_append hw, hu.words_append ht] at h
    rcases List.mem_cons.1 h with rfl | h
    · exact hu
    · exact ih h

/-! ## Squeezed texts -/

/-- The text with one space for each run of blanks, and none for a run at its end. -/
def squeeze : Text → Text
  | [] => []
  | c :: t =>
    if isBlank c then (if t.head?.any (!isBlank ·) then ' ' :: squeeze t else squeeze t)
    else c :: squeeze t

theorem squeeze_cons {c : Char} (hc : isBlank c = false) (t : Text) :
    squeeze (c :: t) = c :: squeeze t := by
  rw [squeeze, if_neg (by simp [hc])]

theorem squeeze_append {v : Text} (hv : ∀ c ∈ v, isBlank c = false) (t : Text) :
    squeeze (v ++ t) = v ++ squeeze t := by
  induction v with
  | nil => rfl
  | cons c v ih =>
    obtain ⟨hc, hv⟩ := List.forall_mem_cons.1 hv
    rw [List.cons_append, squeeze_cons hc, ih hv, List.cons_append]

/-- A run of blanks is one space, unless nothing follows. -/
theorem squeeze_cons_of_blank {c : Char} (hc : isBlank c) (t : Text) :
    squeeze (c :: t) = if t.trimStart = [] then [] else ' ' :: squeeze t.trimStart := by
  unfold trimStart
  rw [squeeze, if_pos hc]
  induction t with
  | nil => rfl
  | cons d t ih =>
    cases hd : isBlank d with
    | true =>
      rw [List.dropWhile_cons_of_pos hd, if_neg (by simp [hd]), squeeze, if_pos hd, ih]
    | false =>
      rw [List.dropWhile_cons_of_neg (by simp [hd]), if_pos (by simp [hd]),
        if_neg (List.cons_ne_nil _ _)]

theorem dropWhile_squeeze {q : Char → Bool} (hq : ∀ c, isBlank c → q c) (t : Text) :
    (squeeze t).dropWhile q = squeeze (t.dropWhile q) := by
  induction t with
  | nil => rfl
  | cons c t ih =>
    cases hc : isBlank c with
    | true =>
      rw [List.dropWhile_cons_of_pos (hq c hc), squeeze, if_pos hc]
      split
      · rw [List.dropWhile_cons_of_pos (hq ' ' (by decide)), ih]
      · exact ih
    | false =>
      rw [squeeze_cons hc, List.dropWhile_cons, List.dropWhile_cons]
      split
      · exact ih
      · rw [squeeze_cons hc]

theorem trimStart_squeeze (t : Text) : (squeeze t).trimStart = squeeze t.trimStart :=
  dropWhile_squeeze (fun _ hc => hc) t

theorem trimStart_blank_append {w : Text} (hw : ∀ c ∈ w, isBlank c) {v : Text} (hv : v.IsWord)
    (t : Text) : trimStart (w ++ (v ++ t)) = v ++ t := by
  obtain ⟨c, v, rfl⟩ := List.exists_cons_of_ne_nil hv.ne_nil
  unfold trimStart
  rw [List.dropWhile_append_of_pos hw, List.cons_append,
    List.dropWhile_cons_of_neg (by simp [hv.solid c (List.mem_cons_self ..)])]

theorem words_eq_nil_iff (t : Text) : words t = [] ↔ t.trimStart = [] := by
  induction t using word_induction with
  | blank w hw => exact iff_of_true (words_of_blank hw) (List.dropWhile_eq_nil_iff.2 hw)
  | word w v t hw hv ht _ =>
    rw [words_blank_append hw, hv.words_append ht, trimStart_blank_append hw hv]
    simp [hv.ne_nil]

/-- The words of a text with single spaces between them. -/
theorem join_words (t : Text) : join [' '] (words t) = squeeze t.trimStart := by
  induction t using word_induction with
  | blank w hw =>
    rw [words_of_blank hw, show w.trimStart = [] from List.dropWhile_eq_nil_iff.2 hw]
    rfl
  | word w v t hw hv ht ih =>
    rw [words_blank_append hw, hv.words_append ht, trimStart_blank_append hw hv,
      squeeze_append hv.solid]
    cases t with
    | nil => rw [squeeze, List.append_nil]; exact join_singleton _ v
    | cons c t =>
      have hc : isBlank c := ht c rfl
      have htrim : trimStart (c :: t) = trimStart t := List.dropWhile_cons_of_pos hc
      rw [htrim] at ih
      rw [squeeze_cons_of_blank hc]
      cases hws : words (c :: t) with
      | nil =>
        rw [if_pos (htrim ▸ (words_eq_nil_iff _).1 hws), List.append_nil, join_singleton]
      | cons u us =>
        have hne : trimStart t ≠ [] := fun hnil => by
          rw [(words_eq_nil_iff _).2 (htrim.trans hnil)] at hws
          cases hws
        rw [if_neg hne, join_cons_cons, ← ih, hws]
        rfl

theorem words_trimStart (t : Text) : words t.trimStart = words t := by
  have hw : ∀ c ∈ t.takeWhile isBlank, isBlank c := List.all_eq_true.1 List.all_takeWhile
  have h := words_blank_append hw t.trimStart
  unfold trimStart at h ⊢
  rw [← h, List.takeWhile_append_dropWhile]

theorem words_squeeze (t : Text) : words (squeeze t) = words t := by
  rw [← words_trimStart, trimStart_squeeze, ← join_words, words_join fun _ => isWord_of_mem_words]

theorem squeeze_takeWhile_squeeze {q : Char → Bool} (hq : ∀ c, isBlank c → q c) (t : Text) :
    squeeze ((squeeze t).takeWhile q) = squeeze (t.takeWhile q) := by
  induction t with
  | nil => rfl
  | cons c t ih =>
    cases hc : isBlank c with
    | true =>
      rw [squeeze, if_pos hc, List.takeWhile_cons_of_pos (hq c hc)]
      cases t with
      | nil =>
        rw [squeeze.eq_2 c, if_pos hc]
        rfl
      | cons d t =>
        cases hd : isBlank d with
        | true =>
          rw [if_neg (by simp [hd]), ih, List.takeWhile_cons_of_pos (hq d hd), squeeze.eq_2 c,
            if_pos hc, if_neg (by simp [hd])]
        | false =>
          -- the space that stands for the blanks meets the same character as they did
          have hhead : ((squeeze (d :: t)).takeWhile q).head? = ((d :: t).takeWhile q).head? := by
            rw [squeeze_cons hd, List.takeWhile_cons, List.takeWhile_cons]
            split <;> rfl
          rw [if_pos (by simp [hd]), List.takeWhile_cons_of_pos (hq ' ' (by decide)),
            squeeze.eq_2 ' ', squeeze.eq_2 c, if_pos (by decide), if_pos hc, hhead, ih]
    | false =>
      rw [squeeze_cons hc, List.takeWhile_cons, List.takeWhile_cons]
      split
      · rw [squeeze_cons hc, squeeze_cons hc, ih]
      · rfl

/-- A text has the same words up to a place, squeezed or not. -/
theorem words_takeWhile_squeeze {q : Char → Bool} (hq : ∀ c, isBlank c → q c) (t : Text) :
    words ((squeeze t).takeWhile q) = words (t.takeWhile q) := by
  rw [← words_squeeze, squeeze_takeWhile_squeeze hq, words_squeeze]

end LayerLint.Text
