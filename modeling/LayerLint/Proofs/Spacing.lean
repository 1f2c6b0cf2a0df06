import Mathlib.Data.List.DropRight
import LayerLint.Proofs.ChainReadings

/-!
# White space within commands

What is read from a command depends on its words and not on the white space around them. A reader
that ignores spacing (`IgnoresSpacing`) finds in a squeezed text the squeezed form of what it finds
in the text. Phrases, cleanup markers and `yarn` are read so, because none of their words has a
blank in it, a blank ends every word, and nothing that needs white space behind it is complete
there: the only thing that can stand at the end of a command is `yarn`, with or without white space.
-/

namespace LayerLint

open Text (squeeze squeeze_cons squeeze_cons_of_blank IsWord)

/-! ## Blanks are no word characters -/

theorem exists_range_of_inRanges {table : List (Nat × Nat)} {n : Nat}
    (h : inRanges table n = true) : ∃ r ∈ table, r.1 ≤ n ∧ n ≤ r.2 := by
  induction table with
  | nil => cases h
  | cons r table ih =>
    obtain ⟨low, high⟩ := r
    rw [inRanges] at h
    split at h
    · cases h
    · next hlow =>
      split at h
      · next hhigh => exact ⟨(low, high), List.mem_cons_self .., Nat.not_lt.1 hlow, hhigh⟩
      · obtain ⟨r, hr, hn⟩ := ih h
        exact ⟨r, List.mem_cons_of_mem _ hr, hn⟩

theorem isWordChar_of_isBlank {c : Char} (h : isBlank c = true) : isWordChar c = false := by
  have hapart : ∀ r ∈ blankRanges, ∀ k < r.2 + 1 - r.1, inRanges wordRanges (r.1 + k) = false := by
    decide +kernel
  obtain ⟨r, hr, hlow, hhigh⟩ := exists_range_of_inRanges h
  have hk := hapart r hr (c.toNat - r.1) (by omega)
  rwa [Nat.add_sub_cancel' hlow] at hk

/-! ## Readers -/

/-- The reader finds the same in a squeezed text, and nothing where a blank stands. -/
structure IgnoresSpacing (f : Text → Option Text) : Prop where
  commutes : Commutes squeeze f
  nil : f [] = none
  blank : ∀ {c : Char}, isBlank c → ∀ t, f (c :: t) = none

/-- A squeezed text starts like the text, or with a space for its white space. -/
theorem squeeze_of_blank {c : Char} (hc : isBlank c) (t : Text) :
    squeeze (c :: t) = [] ∨ ∃ u, squeeze (c :: t) = ' ' :: u := by
  rw [squeeze_cons_of_blank hc]
  split
  · exact .inl rfl
  · exact .inr ⟨_, rfl⟩

theorem startsInWord_squeeze (t : Text) : startsInWord (squeeze t) = startsInWord t := by
  cases t with
  | nil => rfl
  | cons c t =>
    cases hc : isBlank c with
    | true =>
      show _ = isWordChar c
      rw [isWordChar_of_isBlank hc]
      rcases squeeze_of_blank hc t with h | ⟨u, h⟩
      · rw [h]; rfl
      · rw [h]; exact isWordChar_of_isBlank (by decide)
    | false => rw [squeeze_cons hc]; rfl

theorem isPrefixOf?_blank {word : Text} (h : word.IsWord) {c : Char} (hc : isBlank c) (t : Text) :
    word.isPrefixOf? (c :: t) = none := by
  refine isPrefixOf?_cons_of_head? h.ne_nil (fun hhead => ?_) t
  rw [h.solid c (List.mem_of_mem_head? hhead)] at hc
  cases hc

theorem commutes_isPrefixOf? {word : Text} (hword : ∀ c ∈ word, isBlank c = false) :
    Commutes squeeze word.isPrefixOf? := by
  intro t
  induction word generalizing t with
  | nil => rfl
  | cons d word ih =>
    have hd : IsWord (d :: word) := ⟨List.cons_ne_nil _ _, hword⟩
    cases t with
    | nil => rfl
    | cons c t =>
      cases hc : isBlank c with
      | true =>
        rw [isPrefixOf?_blank hd hc]
        rcases squeeze_of_blank hc t with h | ⟨u, h⟩
        · rw [h]; rfl
        · rw [h, isPrefixOf?_blank hd (by decide)]; rfl
      | false =>
        rw [squeeze_cons hc, Phrase.isPrefixOf?_cons_cons, Phrase.isPrefixOf?_cons_cons]
        split
        · exact ih (List.forall_mem_cons.1 hword).2 t
        · rfl

theorem afterOptions?_blank {c : Char} (hc : isBlank c) (s : OptionScan) (t : Text) :
    afterOptions? s (c :: t) = match s with
      | .dash => none
      | _ => afterOptions? .between t := by
  have hdash : c ≠ '-' := by
    rintro rfl
    exact absurd hc (by decide)
  cases s <;> simp [afterOptions?, hc, hdash]

/-- White space behind which nothing follows is dropped, and nothing is read behind it either. -/
theorem commutes_afterBlanks? {f : Text → Option Text} (h : Commutes squeeze f)
    (hnil : f [] = none) : Commutes squeeze fun t => (afterBlanks? t).bind f := by
  intro t
  cases t with
  | nil => rfl
  | cons c t =>
    cases hc : isBlank c with
    | false =>
      simp only [squeeze_cons hc, afterBlanks?, hc]
      rfl
    | true =>
      have hafter : afterBlanks? (c :: t) = some (Text.trimStart t) := if_pos hc
      rw [squeeze_cons_of_blank hc]
      simp only [hafter, Option.bind_some]
      split
      · next hend =>
        rw [hend, hnil]
        rfl
      · have hspace : isBlank ' ' = true := by decide
        have hidem : (Text.trimStart t).trimStart = Text.trimStart t :=
          List.dropWhile_idempotent ..
        rw [afterBlanks?, if_pos hspace, Option.bind_some]
        show f (squeeze (Text.trimStart t)).trimStart = _
        rw [Text.trimStart_squeeze, hidem, h]

/-- An option that white space ends at the end of the text has no verb behind it. -/
theorem commutes_afterOptions? {f : Text → Option Text} (h : Commutes squeeze f)
    (hnil : f [] = none) (s : OptionScan) :
    Commutes squeeze fun t => (afterOptions? s t).bind f := by
  intro t
  show (afterOptions? s (squeeze t)).bind f = ((afterOptions? s t).bind f).map _
  induction t generalizing s with
  | nil =>
    cases s with
    | between => exact h []
    | dash => rfl
    | inside => rfl
  | cons c t ih =>
    cases hc : isBlank c with
    | false =>
      rw [squeeze_cons hc]
      cases s with
      | between =>
        simp only [afterOptions?, hc]
        split
        · exact ih .dash
        · exact squeeze_cons hc t ▸ h (c :: t)
      | dash =>
        simp only [afterOptions?, hc]
        exact ih .inside
      | inside =>
        simp only [afterOptions?, hc]
        exact ih .inside
    | true =>
      rw [afterOptions?_blank hc, squeeze, if_pos hc]
      split
      · rw [afterOptions?_blank (by decide)]
        cases s with
        | dash => rfl
        | _ => exact ih .between
      · next hsolid =>
        rw [ih s]
        cases t with
        | nil =>
          cases s with
          | inside =>
            show none = (f []).map squeeze
            rw [hnil]
            rfl
          | _ => rfl
        | cons d t =>
          have hd : isBlank d = true := by simpa using hsolid
          rw [afterOptions?_blank hd, afterOptions?_blank hd]

namespace IgnoresSpacing

variable {word : Text} {f : Text → Option Text}

/-- A word and behind it what ignores spacing. -/
theorem of_word (h : word.IsWord) {g : Text → Option Text} (hg : Commutes squeeze g) :
    IgnoresSpacing fun t => (word.isPrefixOf? t).bind g where
  commutes := (commutes_isPrefixOf? h.solid).bind hg
  nil := by
    obtain ⟨c, word, rfl⟩ := List.exists_cons_of_ne_nil h.ne_nil
    rfl
  blank hc t := by rw [isPrefixOf?_blank h hc, Option.bind_none]

/-- A word that counts only in front of certain texts. -/
theorem of_word_filter (h : word.IsWord) {q : Text → Bool} (hq : ∀ t, q (squeeze t) = q t) :
    IgnoresSpacing fun t => (word.isPrefixOf? t).filter q where
  commutes := (commutes_isPrefixOf? h.solid).filter hq
  nil := by
    obtain ⟨c, word, rfl⟩ := List.exists_cons_of_ne_nil h.ne_nil
    rfl
  blank hc t := by rw [isPrefixOf?_blank h hc, Option.filter_none]

theorem afterWholeWord? (h : word.IsWord) : IgnoresSpacing (LayerLint.afterWholeWord? word) :=
  of_word_filter h fun t => by rw [startsInWord_squeeze]

theorem findSome? {α : Type} {f : α → Text → Option Text} {l : List α}
    (h : ∀ x ∈ l, IgnoresSpacing (f x)) : IgnoresSpacing fun t => l.findSome? fun x => f x t where
  commutes := .findSome? fun x hx => (h x hx).commutes
  nil := List.findSome?_eq_none_iff.2 fun x hx => (h x hx).nil
  blank hc t := List.findSome?_eq_none_iff.2 fun x hx => (h x hx).blank hc t

theorem atWordStart?_blank (h : IgnoresSpacing f) {c : Char} (hc : isBlank c) (inWord : Bool)
    (t : Text) : atWordStart? f inWord (c :: t) = atWordStart? f false t := by
  rw [LayerLint.atWordStart?, h.blank hc, ite_self, Option.none_or, isWordChar_of_isBlank hc]

theorem atWordStart? (h : IgnoresSpacing f) (inWord : Bool) :
    Commutes squeeze (LayerLint.atWordStart? f inWord) := by
  intro t
  induction t generalizing inWord with
  | nil => rfl
  | cons c t ih =>
    cases hc : isBlank c with
    | true =>
      rw [h.atWordStart?_blank hc, squeeze, if_pos hc]
      split
      · rw [h.atWordStart?_blank (by decide), ih]
      · next hsolid =>
        rw [ih]
        cases t with
        | nil => rfl
        | cons d t =>
          have hd : isBlank d = true := by simpa using hsolid
          rw [h.atWordStart?_blank hd, h.atWordStart?_blank hd]
    | false =>
      have hhere : (if inWord then none else f (c :: squeeze t)) =
          (if inWord then none else f (c :: t)).map squeeze := by
        rw [← squeeze_cons hc, h.commutes]
        split <;> rfl
      rw [squeeze_cons hc, LayerLint.atWordStart?, LayerLint.atWordStart?, hhere, ih,
        Option.map_or]

end IgnoresSpacing

/-! ## Phrases -/

def Phrase.Solid (p : Phrase) : Prop :=
  (∀ name ∈ p.names, name.IsWord) ∧ ∀ verb ∈ p.verbs, verb.IsWord

theorem Phrase.Solid.commutes_afterVerb? {p : Phrase} (h : p.Solid) :
    Commutes squeeze p.afterVerb? ∧ p.afterVerb? [] = none := by
  have hverbs : IgnoresSpacing fun t => p.verbs.findSome? fun verb => afterWholeWord? verb t :=
    .findSome? fun verb hverb => .afterWholeWord? (h.2 verb hverb)
  unfold afterVerb? toVerb?
  cases p.options with
  | false => exact ⟨hverbs.commutes, hverbs.nil⟩
  | true => exact ⟨commutes_afterOptions? hverbs.commutes hverbs.nil .between, hverbs.nil⟩

theorem Phrase.Solid.ignoresSpacing {p : Phrase} (h : p.Solid) : IgnoresSpacing p.rest? := by
  obtain ⟨hverb, hnil⟩ := h.commutes_afterVerb?
  exact .findSome? fun name hname => .of_word (h.1 name hname) (commutes_afterBlanks? hverb hnil)

/-! ## Readings of a command -/

/-- The reading of a command depends on its words alone. -/
structure SpacingFree {α : Type} (F : Text → α) : Prop where
  squeeze : ∀ t, F (squeeze t) = F t
  blank : ∀ {c : Char}, isBlank c → ∀ t, F (c :: t) = F t

theorem SpacingFree.join_words {α : Type} {F : Text → α} (h : SpacingFree F) (t : Text) :
    F (Text.join [' '] t.words) = F t := by
  rw [Text.join_words, h.squeeze]
  unfold Text.trimStart
  induction t with
  | nil => rfl
  | cons c t ih =>
    cases hc : isBlank c with
    | true => rw [List.dropWhile_cons_of_pos hc, ih, h.blank hc]
    | false => rw [List.dropWhile_cons_of_neg (by simp [hc])]

theorem IgnoresSpacing.spacingFree_isSome {f : Text → Option Text} (h : IgnoresSpacing f) :
    SpacingFree fun t => (LayerLint.atWordStart? f false t).isSome where
  squeeze t := by rw [h.atWordStart? false, Option.isSome_map]
  blank hc t := by rw [h.atWordStart?_blank hc]

theorem Phrase.Solid.spacingFree {p : Phrase} (h : p.Solid) : SpacingFree p.occursIn :=
  h.ignoresSpacing.spacingFree_isSome

theorem PackageManager.solid_installPhrase (m : PackageManager) : m.installPhrase.Solid := by
  cases m <;> exact ⟨by decide, by decide⟩

theorem PackageManager.solid_of_updatePhrase? {m : PackageManager} {p : Phrase}
    (h : m.updatePhrase? = some p) : p.Solid := by
  cases m with
  | npm => cases h
  | pip => cases h
  | _ =>
    cases h
    exact ⟨by decide, by decide⟩

theorem spacingFree_installManagers : SpacingFree installManagers where
  squeeze t := List.filter_congr fun m _ => m.solid_installPhrase.spacingFree.squeeze t
  blank hc t := List.filter_congr fun m _ => m.solid_installPhrase.spacingFree.blank hc t

theorem PackageManager.spacingFree_updatesIn (m : PackageManager) : SpacingFree m.updatesIn := by
  unfold updatesIn
  cases h : m.updatePhrase? with
  | none => exact ⟨fun _ => rfl, fun _ _ => rfl⟩
  | some p => exact (solid_of_updatePhrase? h).spacingFree

theorem spacingFree_updateManagers : SpacingFree updateManagers where
  squeeze t := List.filter_congr fun m _ => m.spacingFree_updatesIn.squeeze t
  blank hc t := List.filter_congr fun m _ => m.spacingFree_updatesIn.blank hc t

/-! ## Cleanup -/

theorem CleanupMarker.ignoresSpacing_afterParts? {parts : List Text} (hne : parts ≠ [])
    (h : ∀ part ∈ parts, part.IsWord) : IgnoresSpacing (afterParts? parts) := by
  induction parts with
  | nil => exact absurd rfl hne
  | cons part parts ih =>
    obtain ⟨hpart, hparts⟩ := List.forall_mem_cons.1 h
    cases parts with
    | nil =>
      rw [afterParts?_singleton]
      exact .of_word hpart fun _ => rfl
    | cons next parts =>
      have hnext := ih (List.cons_ne_nil _ _) hparts
      rw [afterParts?_cons_cons]
      exact .of_word hpart (commutes_afterBlanks? hnext.commutes hnext.nil)

theorem spacingFree_anyTail {p : Text → Bool} (hsqueeze : ∀ t, p (squeeze t) = p t)
    (hblank : ∀ {c : Char}, isBlank c → ∀ t, p (c :: t) = false) :
    SpacingFree (Text.anyTail p) := by
  have hcons : ∀ {c : Char}, isBlank c → ∀ t, Text.anyTail p (c :: t) = Text.anyTail p t := by
    intro c hc t
    rw [Text.anyTail, hblank hc, Bool.false_or]
  refine ⟨fun t => ?_, hcons⟩
  induction t with
  | nil => rfl
  | cons c t ih =>
    cases hc : isBlank c with
    | true =>
      rw [hcons hc, squeeze, if_pos hc]
      split
      · rw [hcons (by decide), ih]
      · exact ih
    | false =>
      have hhere : p (c :: squeeze t) = p (c :: t) := by rw [← squeeze_cons hc, hsqueeze]
      rw [squeeze_cons hc, Text.anyTail, Text.anyTail, hhere, ih]

theorem CleanupMarker.startsText_squeeze {m : CleanupMarker}
    (h : IgnoresSpacing (afterParts? m.parts)) (t : Text) :
    m.startsText (squeeze t) = m.startsText t := by
  unfold startsText
  rw [h.commutes, Option.any_map]
  congr 1
  funext rest
  show (!(m.endsWord && startsInWord (squeeze rest))) = _
  rw [startsInWord_squeeze]

theorem spacingFree_hasCleanup : SpacingFree hasCleanup := by
  have hwords : ∀ m ∈ CleanupMarker.all, m.parts ≠ [] ∧ ∀ part ∈ m.parts, part.IsWord := by
    decide
  have hmarkers : ∀ m ∈ CleanupMarker.all, IgnoresSpacing (CleanupMarker.afterParts? m.parts) :=
    fun m hm => CleanupMarker.ignoresSpacing_afterParts? (hwords m hm).1 (hwords m hm).2
  refine spacingFree_anyTail (fun t => ?_) fun hc t => ?_
  · rw [Bool.eq_iff_iff, List.any_eq_true, List.any_eq_true]
    exact exists_congr fun m => and_congr_right fun hm => by
      rw [CleanupMarker.startsText_squeeze (hmarkers m hm)]
  · refine List.any_eq_false.2 fun m hm => ?_
    rw [CleanupMarker.startsText, (hmarkers m hm).blank hc]
    simp

/-! ## JavaScript installs -/

theorem isPrefixOf_squeeze {word : Text} (hword : word.IsWord) (t : Text) :
    word.isPrefixOf (squeeze t) = word.isPrefixOf t := by
  rw [← List.isSome_isPrefixOf?_eq_isPrefixOf, ← List.isSome_isPrefixOf?_eq_isPrefixOf,
    commutes_isPrefixOf? hword.solid, Option.isSome_map]

theorem yarnInstalls_squeeze (rest : Text) : yarnInstalls (squeeze rest) = yarnInstalls rest := by
  cases hnext : rest.trimStart with
  | nil =>
    unfold yarnInstalls
    rw [Text.trimStart_squeeze, hnext]
    rfl
  | cons c next =>
    have hc : isBlank c = false := by
      have := List.head?_dropWhile_not isBlank rest
      unfold Text.trimStart at hnext
      simpa [hnext] using this
    have hapart : startsBlank (squeeze rest) = startsBlank rest := by
      cases rest with
      | nil => rfl
      | cons d rest =>
        cases hd : isBlank d with
        | false => rw [squeeze_cons hd]; rfl
        | true =>
          have hne : Text.trimStart rest ≠ [] := by
            rw [← show Text.trimStart (d :: rest) = Text.trimStart rest from
              List.dropWhile_cons_of_pos hd, hnext]
            exact List.cons_ne_nil _ _
          rw [squeeze_cons_of_blank hd, if_neg hne]
          exact hd.symm
    have hinstall : Text.IsWord "install".toList := by decide
    have hempty : (squeeze (c :: next)).isEmpty = (c :: next).isEmpty := by
      rw [squeeze_cons hc]
      rfl
    unfold yarnInstalls
    simp only [Text.trimStart_squeeze, hnext, hapart]
    rw [isPrefixOf_squeeze (by decide), isPrefixOf_squeeze (by decide),
      isPrefixOf_squeeze (by decide), (IgnoresSpacing.afterWholeWord? hinstall).commutes,
      Option.isSome_map, hempty]

theorem spacingFree_isJsInstall : SpacingFree isJsInstall := by
  have hyarn : Text.IsWord "yarn".toList := by decide
  have hyarn := (IgnoresSpacing.of_word_filter hyarn yarnInstalls_squeeze).spacingFree_isSome
  have hnpm := PackageManager.npm.solid_installPhrase.spacingFree
  exact ⟨fun t => congrArg₂ or (hnpm.squeeze t) (hyarn.squeeze t),
    fun hc t => congrArg₂ or (hnpm.blank hc t) (hyarn.blank hc t)⟩

/-! ## Packages -/

theorem solid_anyInstall : anyInstall.Solid := ⟨by decide, by decide⟩

theorem not_isShellOperator_of_isBlank (c : Char) (h : isBlank c) :
    (!isShellOperator c) = true := by
  have hoperators : (['&', ';', '|'].all fun d => !isBlank d) = true := by decide
  have hc : c ∉ ['&', ';', '|'] := fun hmem => by
    have := List.all_eq_true.1 hoperators c hmem
    simp [h] at this
  simpa [isShellOperator, and_assoc] using hc

theorem installWords_squeeze (t : Text) : installWords (squeeze t) = installWords t := by
  induction hn : t.length using Nat.strongRecOn generalizing t with
  | ind n ih =>
    subst hn
    have hafter : anyInstall.after? (squeeze t) = (anyInstall.after? t).map squeeze :=
      solid_anyInstall.ignoresSpacing.atWordStart? false t
    cases ht : anyInstall.after? t with
    | none =>
      rw [ht, Option.map_none] at hafter
      rw [installWords_of_none hafter, installWords_of_none ht]
    | some rest =>
      have hshort : (rest.dropWhile fun c => !isShellOperator c).length < t.length :=
        Nat.lt_of_le_of_lt (List.dropWhile_sublist _).length_le (Phrase.length_of_after? ht)
      rw [ht, Option.map_some] at hafter
      rw [installWords_of_some hafter, installWords_of_some ht,
        Text.words_takeWhile_squeeze not_isShellOperator_of_isBlank,
        Text.dropWhile_squeeze not_isShellOperator_of_isBlank, ih _ hshort _ rfl]

theorem spacingFree_installArguments : SpacingFree installArguments := by
  have hwords : SpacingFree installWords :=
    ⟨installWords_squeeze, fun hc t =>
      installWords_congr (solid_anyInstall.ignoresSpacing.atWordStart?_blank hc false t)⟩
  exact ⟨fun t => congrArg (List.filter _) (hwords.squeeze t),
    fun hc t => congrArg (List.filter _) (hwords.blank hc t)⟩

theorem spacingFree_installedBuildTools : SpacingFree installedBuildTools where
  squeeze t := by rw [installedBuildTools, spacingFree_installArguments.squeeze]; rfl
  blank hc t := by rw [installedBuildTools, spacingFree_installArguments.blank hc]; rfl

/-! ## Steps -/

theorem chainedSteps_blank {c : Char} (hc : isBlank c) (t : Text) :
    chainedSteps (c :: t) = chainedSteps t := by
  refine chainedSteps_cons fun h => ?_
  rw [h] at hc
  exact absurd hc (by decide)

theorem head?_squeeze_ne {c : Char} (hc : isBlank c = false) {t : Text} (h : t.head? ≠ some c) :
    (squeeze t).head? ≠ some c := by
  cases t with
  | nil => exact h
  | cons d t =>
    cases hd : isBlank d with
    | true =>
      have hspace : ' ' ≠ c := by
        rintro rfl
        exact absurd hc (by decide)
      rcases squeeze_of_blank hd t with hnil | ⟨u, hu⟩
      · rw [hnil]; simp
      · rw [hu]; simpa using hspace
    | false => rw [squeeze_cons hd]; exact h

theorem spacingFree_chainedSteps : SpacingFree chainedSteps := by
  refine ⟨fun t => ?_, chainedSteps_blank⟩
  fun_induction chainedSteps t with
  | case1 rest ih =>
    rw [squeeze_cons (by decide), squeeze_cons (by decide), chainedSteps, ih]
  | case2 c rest hpair ih =>
    cases hc : isBlank c with
    | true =>
      rw [squeeze, if_pos hc]
      split
      · rw [chainedSteps_blank (by decide), ih]
      · exact ih
    | false =>
      -- a single `&` does not get a second one by losing the blanks behind it
      have hsingle : c = '&' → rest.head? ≠ some '&' := by
        rintro rfl hhead
        obtain ⟨more, rfl⟩ := List.head?_eq_some_iff.1 hhead
        exact hpair more rfl rfl
      rw [squeeze_cons hc, chainedSteps_cons fun h => head?_squeeze_ne (by decide) (hsingle h), ih]
  | case3 => rfl

/-! ## All readings -/

structure ReadsAlike (c d : Text) : Prop where
  installs : installManagers c = installManagers d
  updates : updateManagers c = updateManagers d
  cleanup : hasCleanup c = hasCleanup d
  js : isJsInstall c = isJsInstall d
  packages : installArguments c = installArguments d
  tools : installedBuildTools c = installedBuildTools d
  steps : chainedSteps c = chainedSteps d

/-- A command is read as its words with single spaces between them, whatever white space stands
between, in front of and behind them. -/
theorem readsAlike_join_words (command : Text) :
    ReadsAlike command (Text.join " ".toList command.words) where
  installs := (spacingFree_installManagers.join_words command).symm
  updates := (spacingFree_updateManagers.join_words command).symm
  cleanup := (spacingFree_hasCleanup.join_words command).symm
  js := (spacingFree_isJsInstall.join_words command).symm
  packages := (spacingFree_installArguments.join_words command).symm
  tools := (spacingFree_installedBuildTools.join_words command).symm
  steps := (spacingFree_chainedSteps.join_words command).symm

end LayerLint
