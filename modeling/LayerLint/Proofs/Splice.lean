import LayerLint.Proofs.PhraseGrammar
import LayerLint.Proofs.Spacing

/-!
# Phrases around a spliced flag

A flag is put into a command behind the verb of a phrase. The verb stands apart from what is in
front of it, is no option, and ends a word there. So no phrase reaches across its end: the phrases
of the command are those up to the verb and those behind it (`Token.occursIn_append`). A flag in
which no command name can start adds nothing to them (`atWordStart?_skip`), and neither does what is
left out at the end of a command when it can belong to no phrase (`isSome_append_idle`).
-/

namespace LayerLint

def Text.EndsApart (s : Text) : Prop := ∀ c, s.getLast? = some c → isBlank c

theorem Text.EndsApart.tail {c : Char} {s : Text} (h : Text.EndsApart (c :: s)) :
    Text.EndsApart s := by
  intro d hd
  refine h d ?_
  rw [List.getLast?_cons, hd]
  rfl

/-- White space stands behind anything else. -/
theorem Text.EndsApart.ne_nil {c : Char} {s : Text} (h : Text.EndsApart (c :: s))
    (hc : isBlank c = false) : s ≠ [] := by
  rintro rfl
  rw [h c rfl] at hc
  cases hc

theorem Text.EndsApart.dropWhile {s : Text} (h : s.EndsApart) (q : Char → Bool) :
    Text.EndsApart (s.dropWhile q) := by
  intro c hc
  have hne : s.dropWhile q ≠ [] := by
    intro hnil
    rw [hnil] at hc
    cases hc
  exact h c ((Text.getLast?_of_suffix (List.dropWhile_suffix q) hne).symm.trans hc)

theorem AreOptions.endsApart {options : List (Text × Text)} (h : AreOptions options) {s : Text}
    (hs : IsGap s) : Text.EndsApart (s ++ optionsText options) := by
  rcases List.eq_nil_or_concat' options with rfl | ⟨options, o, rfl⟩
  · intro c hc
    exact hs.blank c (List.mem_of_mem_getLast? (by simpa [optionsText] using hc))
  · have hgap := (h o (by simp)).2
    intro c hc
    have hsuffix : o.2 <:+ s ++ optionsText (options ++ [o]) :=
      ⟨s ++ optionsText options ++ o.1, by simp [optionsText]⟩
    rw [← Text.getLast?_of_suffix hsuffix hgap.ne_nil] at hc
    exact hgap.blank c (List.mem_of_mem_getLast? hc)

theorem Phrase.Spelling.endsApart {p : Phrase} (s : p.Spelling) :
    Text.EndsApart (s.before ++ (s.name ++ (s.gap ++ optionsText s.options))) := by
  intro c hc
  refine s.areOptions.endsApart s.isGap c ?_
  have hne : s.gap ++ optionsText s.options ≠ [] :=
    List.append_ne_nil_of_left_ne_nil s.isGap.ne_nil _
  rwa [← List.append_assoc, List.getLast?_append_of_ne_nil _ hne] at hc

/-! ## The end of a verb -/

/-- What follows does not go on with a word that ends in front of it. -/
theorem commutes_afterWholeWord? {verb X : Text} (hverb : ∀ c ∈ verb, isWordChar c = true)
    (hX : startsInWord X = false) : Commutes (· ++ X) (afterWholeWord? verb) := by
  intro t
  induction verb generalizing t with
  | nil =>
    have hstart : startsInWord (t ++ X) = startsInWord t := by
      cases t with
      | nil => exact hX
      | cons c t => rfl
    show (some (t ++ X)).filter _ = ((some t).filter _).map _
    simp only [Option.filter_some, hstart]
    split <;> rfl
  | cons c verb ih =>
    obtain ⟨hc, hverb⟩ := List.forall_mem_cons.1 hverb
    cases t with
    | nil =>
      cases X with
      | nil => rfl
      | cons d X =>
        have hne : (c :: verb).head? ≠ some d := by
          intro h
          rw [Option.some.inj h] at hc
          exact absurd hX (by simp [startsInWord, hc])
        show (List.isPrefixOf? (c :: verb) (d :: X)).filter _ = none
        rw [isPrefixOf?_cons_of_head? (List.cons_ne_nil _ _) hne, Option.filter_none]
    | cons d t =>
      unfold afterWholeWord?
      simp only [List.cons_append, Phrase.isPrefixOf?_cons_cons]
      split
      · exact ih hverb t
      · rfl

section
variable {V X : Text} {f : Text → Option Text}

theorem afterOptions?_token (hf : Commutes (· ++ X) f) {v : Char} (hhead : V.head? = some v)
    (hblank : isBlank v = false) (hdash : v ≠ '-') {s : Text} (hs : s.EndsApart)
    {scan : OptionScan} (hscan : s = [] → scan = .between) :
    (afterOptions? scan (s ++ (V ++ X))).bind f =
      ((afterOptions? scan (s ++ V)).bind f).map (· ++ X) := by
  obtain ⟨V, rfl⟩ := List.head?_eq_some_iff.1 hhead
  induction s generalizing scan with
  | nil =>
    have hstop : ∀ t, afterOptions? .between (v :: t) = some (v :: t) := fun t => by
      rw [afterOptions?, if_neg hdash, if_neg (by simp [hblank])]
    rw [hscan rfl, List.nil_append, List.nil_append, List.cons_append, hstop, hstop]
    exact hf (v :: V)
  | cons c s ih =>
    cases hc : isBlank c with
    | true =>
      simp only [List.cons_append]
      rw [afterOptions?_blank hc, afterOptions?_blank hc]
      cases scan with
      | dash => rfl
      | _ => exact ih hs.tail fun _ => rfl
    | false =>
      have hne : s ≠ [] := hs.ne_nil hc
      have hinside : ∀ scan : OptionScan, s = [] → scan = .between := fun _ hnil => absurd hnil hne
      cases scan with
      | between =>
        simp only [List.cons_append, afterOptions?, hc]
        split
        · exact ih hs.tail (hinside .dash)
        · have := hf (c :: (s ++ v :: V))
          simpa using this
      | dash =>
        simp only [List.cons_append, afterOptions?, hc]
        exact ih hs.tail (hinside .inside)
      | inside =>
        simp only [List.cons_append, afterOptions?, hc]
        exact ih hs.tail (hinside .inside)

theorem afterBlanks?_token
    (hf : ∀ s : Text, s.EndsApart → f (s ++ (V ++ X)) = (f (s ++ V)).map (· ++ X))
    {v : Char} (hhead : V.head? = some v) (hblank : isBlank v = false) {s : Text}
    (hs : s.EndsApart) :
    (afterBlanks? (s ++ (V ++ X))).bind f = ((afterBlanks? (s ++ V)).bind f).map (· ++ X) := by
  obtain ⟨V, rfl⟩ := List.head?_eq_some_iff.1 hhead
  cases s with
  | nil => simp [afterBlanks?, hblank]
  | cons c s =>
    have hdrop : ∀ t, (s ++ v :: t).dropWhile isBlank = s.dropWhile isBlank ++ v :: t := by
      intro t
      rw [List.dropWhile_append]
      split
      · next hnil =>
        rw [List.isEmpty_iff.1 hnil, List.dropWhile_cons_of_neg (by simp [hblank]), List.nil_append]
      · rfl
    simp only [List.cons_append, afterBlanks?]
    split
    · rw [hdrop, hdrop, Option.bind_some, Option.bind_some]
      exact hf _ (hs.tail.dropWhile isBlank)
    · rfl

end

namespace Phrase

variable {p : Phrase} {V X : Text}

/-- No name of the phrase can start where the text stands. -/
def StartsApart (p : Phrase) (v : Text) : Prop := ∀ name ∈ p.names, ¬ name <+: v ∧ ¬ v <+: name

instance (p : Phrase) (v : Text) : Decidable (p.StartsApart v) :=
  inferInstanceAs (Decidable (∀ name ∈ p.names, _))

theorem StartsApart.isPrefixOf?_append {v : Text} (h : p.StartsApart v) {name : Text}
    (hname : name ∈ p.names) (t : Text) : name.isPrefixOf? (v ++ t) = none := by
  refine Option.eq_none_iff_forall_ne_some.2 fun rest hrest => ?_
  have heq := List.append_eq_of_isPrefixOf?_eq_some hrest
  rcases List.prefix_or_prefix_of_prefix (List.prefix_append name rest)
    (heq ▸ List.prefix_append v t) with hprefix | hprefix
  · exact (h name hname).1 hprefix
  · exact (h name hname).2 hprefix

theorem StartsApart.rest?_append {v : Text} (h : p.StartsApart v) (t : Text) :
    p.rest? (v ++ t) = none :=
  List.findSome?_eq_none_iff.2 fun name hname => by
    rw [h.isPrefixOf?_append hname]
    rfl

/-- The word may end a phrase, and what stands around its end is part of no other. -/
structure Token (p : Phrase) (V : Text) : Prop where
  solid : p.Solid
  verbs : ∀ verb ∈ p.verbs, ∀ c ∈ verb, isWordChar c = true
  isWord : V.IsWord
  letters : ∀ c ∈ V, isWordChar c = true
  apart : p.StartsApart V

theorem Token.exists_head (h : p.Token V) :
    ∃ v, V.head? = some v ∧ isBlank v = false ∧ v ≠ '-' := by
  obtain ⟨v, V, rfl⟩ := List.exists_cons_of_ne_nil h.isWord.ne_nil
  refine ⟨v, rfl, h.isWord.solid v (List.mem_cons_self ..), ?_⟩
  rintro rfl
  exact absurd (h.letters '-' (List.mem_cons_self ..)) (by decide)

theorem Token.afterVerb?_append (h : p.Token V) (hX : startsInWord X = false) (s : Text)
    (hs : s.EndsApart) : p.afterVerb? (s ++ (V ++ X)) = (p.afterVerb? (s ++ V)).map (· ++ X) := by
  have hverbs : Commutes (· ++ X) fun t => p.verbs.findSome? fun verb => afterWholeWord? verb t :=
    .findSome? fun verb hverb => commutes_afterWholeWord? (h.verbs verb hverb) hX
  obtain ⟨v, hhead, hblank, hdash⟩ := h.exists_head
  unfold afterVerb? toVerb?
  cases p.options with
  | false =>
    have := hverbs (s ++ V)
    simpa using this
  | true => exact afterOptions?_token hverbs hhead hblank hdash hs fun _ => rfl

/-- Where a phrase starts in front of the word, it does not go beyond its end. -/
theorem Token.rest?_append (h : p.Token V) (hX : startsInWord X = false) {s : Text}
    (hs : s.EndsApart) : p.rest? (s ++ (V ++ X)) = (p.rest? (s ++ V)).map (· ++ X) := by
  obtain ⟨v, hhead, hblank, -⟩ := h.exists_head
  rw [rest?_eq]
  refine findSome?_eq_map fun name hname => ?_
  rcases List.eq_nil_or_concat' s with rfl | ⟨s, c, rfl⟩
  · have hnone := h.apart.isPrefixOf?_append hname
    rw [List.nil_append, List.nil_append, hnone X, ← List.append_nil V, hnone []]
    rfl
  · have hc : isBlank c := hs c (by simp)
    have hname : c ∉ name := fun hmem => by
      rw [(h.solid.1 name hname).solid c hmem] at hc
      cases hc
    have hsplit : ∀ t, (s ++ [c]) ++ t = s ++ c :: t := fun t => by simp
    rw [hsplit, hsplit, isPrefixOf?_append_cons hname, isPrefixOf?_append_cons hname]
    cases name.isPrefixOf? s with
    | none => rfl
    | some r =>
      have hr : Text.EndsApart (r ++ [c]) := fun d hd => by
        rw [List.getLast?_concat] at hd
        exact Option.some.inj hd ▸ hc
      have := afterBlanks?_token (h.afterVerb?_append hX) hhead hblank hr
      simpa using this

theorem atWordStart?_letters {α : Type} {f : Text → Option α} {W : Text}
    (hW : ∀ c ∈ W, isWordChar c = true) (t : Text) :
    atWordStart? f true (W ++ t) = atWordStart? f true t := by
  induction W with
  | nil => rfl
  | cons c W ih =>
    obtain ⟨hc, hW⟩ := List.forall_mem_cons.1 hW
    rw [List.cons_append, atWordStart?, hc, ih hW]
    rfl

/-- The search over a command goes on behind the word as behind any other. -/
theorem Token.atWordStart?_append (h : p.Token V) (hX : startsInWord X = false) {s : Text}
    (hs : s.EndsApart) (inWord : Bool) :
    atWordStart? p.rest? inWord (s ++ (V ++ X)) =
      ((atWordStart? p.rest? inWord (s ++ V)).map (· ++ X)).or (atWordStart? p.rest? true X) := by
  induction s generalizing inWord with
  | nil =>
    have hnone : ∀ t, atWordStart? p.rest? inWord (V ++ t) = atWordStart? p.rest? true t := by
      intro t
      have hrest := h.apart.rest?_append t
      obtain ⟨v, W, hV⟩ := List.exists_cons_of_ne_nil h.isWord.ne_nil
      obtain ⟨hv, hW⟩ := List.forall_mem_cons.1 (hV ▸ h.letters)
      rw [hV, List.cons_append] at hrest ⊢
      rw [atWordStart?, hrest, ite_self, Option.none_or, hv, atWordStart?_letters hW]
    have hend : atWordStart? p.rest? inWord V = none := by
      have := hnone []
      rwa [List.append_nil] at this
    rw [List.nil_append, List.nil_append, hnone X, hend]
    rfl
  | cons c s ih =>
    have hhere : (if inWord then none else p.rest? (c :: (s ++ (V ++ X)))) =
        (if inWord then none else p.rest? (c :: (s ++ V))).map (· ++ X) := by
      split
      · rfl
      · exact h.rest?_append hX hs
    simp only [List.cons_append, atWordStart?]
    rw [hhere, ih hs.tail, Option.map_or, Option.or_assoc]

theorem Token.occursIn_append (h : p.Token V) (hX : startsInWord X = false) {s : Text}
    (hs : s.EndsApart) : p.occursIn (s ++ (V ++ X)) =
      (p.occursIn (s ++ V) || (atWordStart? p.rest? true X).isSome) := by
  unfold occursIn after?
  rw [h.atWordStart?_append hX hs, Option.isSome_or, Option.isSome_map]

/-! ## What takes no part -/

/-- No phrase starts within a text in which no name can start. -/
theorem atWordStart?_skip {H t : Text} (hne : H ≠ [])
    (h : ∀ v, v <:+ H → v ≠ [] → p.StartsApart v) (inWord : Bool) :
    atWordStart? p.rest? inWord (H ++ t) = atWordStart? p.rest? (endsInWord H) t := by
  induction H generalizing inWord with
  | nil => exact absurd rfl hne
  | cons c H ih =>
    have hhere := (h (c :: H) List.suffix_rfl hne).rest?_append t
    rw [List.cons_append] at hhere ⊢
    rw [atWordStart?, hhere, ite_self, Option.none_or, endsInWord_cons]
    split
    · next hnil => rw [hnil, List.nil_append]
    · next hrest => exact ih hrest (fun v hv => h v (hv.trans (List.suffix_cons c H))) _

def Idle (p : Phrase) (x : Char) : Prop := isWordChar x = false ∧ ∀ verb ∈ p.verbs, x ∉ verb

theorem Idle.isSome_append (h : p.Readable) {x : Char} (hx : p.Idle x) (inWord : Bool) (t : Text) :
    (atWordStart? p.rest? inWord (t ++ [x])).isSome = (atWordStart? p.rest? inWord t).isSome := by
  rw [Bool.eq_iff_iff, isSome_atWordStart?_iff h, isSome_atWordStart?_iff h]
  constructor
  · rintro ⟨u, s, heq, hu⟩
    rcases List.eq_nil_or_concat' s.behind with hnil | ⟨b, y, hbehind⟩
    · -- the character would be the last one of the verb
      have hlast : (t ++ [x]).getLast? = s.verb.getLast? := by
        have hsuffix : s.verb <:+ u ++ s.phrase :=
          ⟨u ++ (s.name ++ (s.gap ++ optionsText s.options)), by simp [Spelling.phrase]⟩
        rw [heq, s.tail_eq, hnil, List.append_nil]
        exact (Text.getLast?_of_suffix hsuffix (h.2 s.verb s.verb_mem).1).symm
      rw [List.getLast?_concat] at hlast
      exact absurd (List.mem_of_mem_getLast? hlast.symm) (hx.2 s.verb s.verb_mem)
    · have hb : startsInWord b = false := by
        have := s.ends_word
        rw [hbehind] at this
        cases b with
        | nil => rfl
        | cons c b => exact this
      refine ⟨u, s.followedBy hb, ?_, hu⟩
      rw [s.tail_eq, hbehind, ← List.append_assoc, ← List.append_assoc] at heq
      rw [s.tail_followedBy, ← List.append_assoc]
      exact (List.append_inj' heq rfl).1
  · rintro ⟨u, s, rfl, hu⟩
    have hb : startsInWord (s.behind ++ [x]) = false := by
      have := s.ends_word
      cases hbehind : s.behind with
      | nil => exact hx.1
      | cons c b =>
        rw [hbehind] at this
        exact this
    refine ⟨u, s.followedBy hb, ?_, hu⟩
    rw [s.tail_followedBy, s.tail_eq, List.append_assoc, List.append_assoc]

theorem isSome_append_idle (h : p.Readable) {T : Text} (hT : ∀ x ∈ T, p.Idle x) (inWord : Bool)
    (t : Text) :
    (atWordStart? p.rest? inWord (t ++ T)).isSome = (atWordStart? p.rest? inWord t).isSome := by
  induction T generalizing t with
  | nil => rw [List.append_nil]
  | cons x T ih =>
    obtain ⟨hx, hT⟩ := List.forall_mem_cons.1 hT
    rw [← List.singleton_append, ← List.append_assoc, ih hT, hx.isSome_append h]

end Phrase

end LayerLint
