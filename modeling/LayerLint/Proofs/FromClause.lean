import LayerLint.Proofs.ArgumentWords

/-!
# The clause of a `FROM` by its words

The clause is read from the left: a word ends at any white space, but only spaces and tabs are
passed over behind it. So the reading follows the words of the clause up to the first gap with other
white space in it, and stops there (`PastGap`). It gives the base image and the name that the words
give if and only if the gaps are plain up to the last word that matters: the name when there is one,
else the image (`clause_eq_iff`). The stage that a `FROM` opens takes both from there
(`parse_readsByWords_iff`).
-/

namespace LayerLint

namespace Text

/-! ## First words -/

theorem StartsApart.firstWord_eq {t : Text} (h : StartsApart t) : t.firstWord = [] := by
  cases t with
  | nil => rfl
  | cons c t => exact List.takeWhile_cons_of_neg (by simp [h c rfl])

theorem StartsApart.afterFirstWord_eq {t : Text} (h : StartsApart t) : t.afterFirstWord = t := by
  cases t with
  | nil => rfl
  | cons c t => exact List.dropWhile_cons_of_neg (by simp [h c rfl])

section
variable {v t : Text} (hv : ∀ c ∈ v, isBlank c = false) (ht : StartsApart t)
include hv ht

theorem firstWord_append : firstWord (v ++ t) = v := by
  have hsolid : ∀ c ∈ v, (!isBlank c) = true := fun c hc => by rw [hv c hc]; rfl
  exact takeWhile_append_of_stop hsolid fun c hc => by simp [ht c hc]

theorem afterFirstWord_append : afterFirstWord (v ++ t) = t := by
  have hsolid : ∀ c ∈ v, (!isBlank c) = true := fun c hc => by rw [hv c hc]; rfl
  exact dropWhile_append_of_stop hsolid fun c hc => by simp [ht c hc]

end

theorem words_dropWhile_isSpaceOrTab (t : Text) : words (t.dropWhile isSpaceOrTab) = words t := by
  rw [← words_trim, trim_dropWhile_isSpaceOrTab, words_trim]

/-! ## Plain gaps -/

/-- The white space in front of each of the first `n` words is spaces and tabs. -/
def PlainGaps : Nat → Text → Prop
  | 0, _ => True
  | n + 1, t => (t.takeWhile isBlank).all isSpaceOrTab = true ∧
      PlainGaps n t.trimStart.afterFirstWord

instance decidablePlainGaps : (n : Nat) → (t : Text) → Decidable (PlainGaps n t)
  | 0, _ => isTrue trivial
  | n + 1, t =>
    have := decidablePlainGaps n t.trimStart.afterFirstWord
    inferInstanceAs (Decidable (_ ∧ _))

theorem plainGaps_succ (n : Nat) (t : Text) :
    PlainGaps (n + 1) t ↔
      (t.takeWhile isBlank).all isSpaceOrTab = true ∧ PlainGaps n t.trimStart.afterFirstWord :=
  Iff.rfl

theorem plainGaps_cons {c : Char} (hc : isSpaceOrTab c = true) (n : Nat) (t : Text) :
    PlainGaps n (c :: t) ↔ PlainGaps n t := by
  have hblank := isBlank_of_isSpaceOrTab hc
  cases n with
  | zero => exact Iff.rfl
  | succ n =>
    unfold PlainGaps trimStart
    rw [List.takeWhile_cons_of_pos hblank, List.dropWhile_cons_of_pos hblank, List.all_cons, hc,
      Bool.true_and]

theorem plainGaps_dropWhile (n : Nat) (t : Text) :
    PlainGaps n (t.dropWhile isSpaceOrTab) ↔ PlainGaps n t := by
  induction t with
  | nil => exact Iff.rfl
  | cons c t ih =>
    rw [List.dropWhile_cons]
    split
    · next hc => rw [ih, plainGaps_cons hc]
    · exact Iff.rfl

theorem not_plainGaps {c : Char} (hblank : isBlank c = true) (hplain : isSpaceOrTab c = false)
    (n : Nat) (t : Text) : ¬ PlainGaps (n + 1) (c :: t) := by
  intro h
  have hall := h.1
  rw [List.takeWhile_cons_of_pos hblank, List.all_cons, hplain] at hall
  cases hall

theorem IsWord.plainGaps_append {v t : Text} (hv : v.IsWord) (ht : StartsApart t) (n : Nat) :
    PlainGaps (n + 1) (v ++ t) ↔ PlainGaps n t := by
  have hstart : trimStart (v ++ t) = v ++ t :=
    trimStart_blank_append (w := []) (fun _ hc => nomatch hc) hv t
  have hgap : (v ++ t).takeWhile isBlank = [] := by
    obtain ⟨c, v, rfl⟩ := List.exists_cons_of_ne_nil hv.ne_nil
    exact List.takeWhile_cons_of_neg (by simp [hv.solid c (List.mem_cons_self ..)])
  rw [plainGaps_succ, hgap, hstart, afterFirstWord_append hv.solid ht]
  exact and_iff_right rfl

theorem plainGaps_of_forall {t : Text} (h : ∀ c ∈ t, isBlank c = true → isSpaceOrTab c = true)
    (n : Nat) : PlainGaps n t := by
  induction n generalizing t with
  | zero => trivial
  | succ n ih =>
    refine ⟨List.all_eq_true.2 fun c hc => ?_, ih fun c hc => h c ?_⟩
    · exact h c ((List.takeWhile_prefix _).subset hc) (List.all_eq_true.1 List.all_takeWhile c hc)
    · exact ((List.dropWhile_suffix _).trans (List.dropWhile_suffix _)).subset hc

/-- What stands behind the spaces and tabs of a gap: nothing, other white space or a word. -/
inductive PastGap : Text → Prop
  | nil : PastGap []
  | blank {c : Char} {t : Text} (hblank : isBlank c = true) (hplain : isSpaceOrTab c = false) :
    PastGap (c :: t)
  | word {v t : Text} (hv : v.IsWord) (ht : StartsApart t) : PastGap (v ++ t)

theorem pastGap_of_head? {t : Text} (h : ∀ c, t.head? = some c → isSpaceOrTab c = false) :
    PastGap t := by
  induction t using word_induction with
  | blank w hw =>
    cases w with
    | nil => exact .nil
    | cons c w => exact .blank (hw c (List.mem_cons_self ..)) (h c rfl)
  | word w v t hw hv ht _ =>
    cases w with
    | nil => exact (PastGap.word hv ht : PastGap (v ++ t))
    | cons c w => exact .blank (hw c (List.mem_cons_self ..)) (h c rfl)

theorem pastGap_dropWhile (t : Text) : PastGap (t.dropWhile isSpaceOrTab) := by
  refine pastGap_of_head? fun c hc => ?_
  have := List.head?_dropWhile_not isSpaceOrTab t
  simpa [hc] using this

end Text

open Text (PastGap PlainGaps StartsApart)

/-! ## What the words of a clause say -/

namespace Stage

/-- The name behind `AS`, whatever the case of its letters. -/
def nameOfWords : List Text → Option Text
  | as :: name :: _ => if Text.sameLetters as "AS" then some name else none
  | _ => none

/-- The base image and the name as the words say: behind the flags, the first word and what
`nameOfWords` finds after it. -/
def clauseOfWords (ws : List Text) : Text × Option Text :=
  match ws.dropWhile Instruction.isFlag with
  | [] => ([], none)
  | image :: rest => (image, nameOfWords rest)

/-- How many words there are up to the last one that matters: the name, or else the base image. -/
def usedWords (ws : List Text) : Nat :=
  match ws.dropWhile Instruction.isFlag with
  | [] => 0
  | _ :: rest =>
    (ws.takeWhile Instruction.isFlag).length + if (nameOfWords rest).isSome then 3 else 1

section
variable {w : Text} (ws : List Text)

theorem clauseOfWords_flag (hw : Instruction.isFlag w = true) :
    clauseOfWords (w :: ws) = clauseOfWords ws := by
  unfold clauseOfWords
  rw [List.dropWhile_cons_of_pos hw]

theorem usedWords_flag (hw : Instruction.isFlag w = true) :
    usedWords (w :: ws) = if usedWords ws = 0 then 0 else usedWords ws + 1 := by
  unfold usedWords
  rw [List.dropWhile_cons_of_pos hw, List.takeWhile_cons_of_pos hw]
  cases ws.dropWhile Instruction.isFlag with
  | nil => rfl
  | cons image rest =>
    simp only [List.length_cons]
    split
    · split <;> omega
    · split <;> omega

theorem clauseOfWords_image (hw : Instruction.isFlag w = false) :
    clauseOfWords (w :: ws) = (w, nameOfWords ws) := by
  unfold clauseOfWords
  rw [List.dropWhile_cons_of_neg (by simp [hw])]

theorem usedWords_image (hw : Instruction.isFlag w = false) :
    usedWords (w :: ws) = if (nameOfWords ws).isSome then 3 else 1 := by
  unfold usedWords
  rw [List.dropWhile_cons_of_neg (by simp [hw]), List.takeWhile_cons_of_neg (by simp [hw])]
  exact Nat.zero_add _

end

theorem usedWords_eq_zero_iff {ws : List Text} (hws : ∀ w ∈ ws, w.IsWord) :
    usedWords ws = 0 ↔ clauseOfWords ws = ([], none) := by
  unfold usedWords clauseOfWords
  cases hrest : ws.dropWhile Instruction.isFlag with
  | nil => exact iff_of_true rfl rfl
  | cons image rest =>
    have himage : image ∈ ws := (List.dropWhile_suffix _).subset (hrest ▸ List.mem_cons_self ..)
    refine iff_of_false ?_ fun h => (hws image himage).ne_nil (congrArg Prod.fst h)
    simp only
    split <;> omega

/-! ## What the reading gives -/

theorem sameLetters_as (u : Text) : Text.sameLetters u "AS" = Text.sameLetters u "as" := by
  have hfold : Text.foldCase "AS".toList = Text.foldCase "as".toList := by decide
  unfold Text.sameLetters
  rw [hfold]

theorem isWord_of_sameLetters {u : Text} (h : Text.sameLetters u "AS" = true) :
    u.IsWord ∧ u.length = 2 := by
  have hfold : u.foldCase = ['a', 's'] := eq_of_beq h
  have hlower : (['a', 's'] : Text).all Char.isLower = true := by decide
  refine ⟨⟨?_, fun c hc => ?_⟩, ?_⟩
  · rintro rfl
    cases hfold
  · have hmem : c.toLower ∈ u.foldCase := List.mem_map_of_mem hc
    rw [hfold] at hmem
    have hletter := letter_of_isLower_toLower (List.all_eq_true.1 hlower _ hmem)
    exact isBlank_of_ascii (by omega) (by omega)
  · have hlength := congrArg List.length hfold
    unfold Text.foldCase at hlength
    rwa [List.length_map] at hlength

/-- Behind `AS` and a space or tab, the name is the word past the gap. -/
theorem givenName?_of_gap {a s gap : Char} (has : Text.sameLetters [a, s] "as" = true)
    (hgap : isSpaceOrTab gap = true) (rest : Text) :
    givenName? (a :: s :: gap :: rest) =
      if Text.firstWord (rest.dropWhile isSpaceOrTab) = [] then none
      else some (Text.firstWord (rest.dropWhile isSpaceOrTab)) := by
  unfold givenName?
  simp only [has, hgap, Bool.and_self, if_true]
  split
  · next hnil => rw [if_pos hnil]
  · next hne => rw [if_neg hne]

theorem givenName?_as_append {u t : Text} (hu : Text.sameLetters u "AS" = true)
    (ht : StartsApart t) :
    givenName? (u ++ t) = if PlainGaps 1 t then nameOfWords (u :: t.words) else none := by
  obtain ⟨a, s, rfl⟩ := List.length_eq_two.1 (isWord_of_sameLetters hu).2
  cases t with
  | nil => rfl
  | cons gap rest =>
    have hblank : isBlank gap = true := ht gap rfl
    cases hgap : isSpaceOrTab gap with
    | false =>
      rw [if_neg (Text.not_plainGaps hblank hgap 0 rest)]
      simp [givenName?, hgap]
    | true =>
      show givenName? (a :: s :: gap :: rest) = _
      simp only [givenName?_of_gap (sameLetters_as _ ▸ hu) hgap, Text.plainGaps_cons hgap,
        ← Text.plainGaps_dropWhile 1 rest, Text.words_cons_of_blank hblank,
        ← Text.words_dropWhile_isSpaceOrTab rest]
      generalize hpast : rest.dropWhile isSpaceOrTab = past
      have hfront : PastGap past := hpast ▸ Text.pastGap_dropWhile rest
      cases hfront with
      | nil => rfl
      | @blank c t hblank hplain =>
        have hapart := Text.startsApart_cons hblank t
        rw [if_pos hapart.firstWord_eq, if_neg (Text.not_plainGaps hblank hplain 0 t)]
      | @word v t hv ht =>
        rw [Text.firstWord_append hv.solid ht, if_neg hv.ne_nil, hv.words_append ht,
          if_pos ((hv.plainGaps_append ht 0).2 trivial)]
        exact (if_pos hu).symm

/-- A text in which a name is found starts with the word `AS`. -/
theorem givenName?_eq_none {t : Text} (h : Text.sameLetters t.firstWord "AS" = false) :
    givenName? t = none := by
  unfold givenName?
  split
  · next a s gap rest =>
    split
    · next htest =>
      obtain ⟨hsame, hgap⟩ := (Bool.and_eq_true _ _).mp htest
      have hsame := (sameLetters_as [a, s]).trans hsame
      have hapart := Text.startsApart_cons (Text.isBlank_of_isSpaceOrTab hgap) rest
      have hfirst : Text.firstWord (a :: s :: gap :: rest) = [a, s] :=
        Text.firstWord_append (isWord_of_sameLetters hsame).1.solid hapart
      rw [hfirst, hsame] at h
      cases h
    · rfl
  · rfl

theorem nameOfWords_eq_none {u : Text} (h : Text.sameLetters u "AS" = false) (ws : List Text) :
    nameOfWords (u :: ws) = none := by
  cases ws with
  | nil => rfl
  | cons name rest => exact if_neg (Bool.eq_false_iff.1 h)

/-- The name is the one that the words give, if their gaps are plain. -/
theorem givenName?_eq {t : Text} (h : PastGap t) :
    givenName? t = if PlainGaps 2 t then nameOfWords t.words else none := by
  cases h with
  | nil => rfl
  | @blank c t hblank hplain =>
    have hapart := Text.startsApart_cons hblank t
    rw [if_neg (Text.not_plainGaps hblank hplain 1 t)]
    exact givenName?_eq_none (by rw [hapart.firstWord_eq]; rfl)
  | @word u t hu ht =>
    simp only [hu.plainGaps_append ht 1, hu.words_append ht]
    cases has : Text.sameLetters u "AS" with
    | true => exact givenName?_as_append has ht
    | false =>
      rw [givenName?_eq_none (by rw [Text.firstWord_append hu.solid ht, has]),
        nameOfWords_eq_none has, ite_self]

theorem afterFlags_flag {v t : Text} (hv : v.IsWord) (hflag : Instruction.isFlag v = true)
    (ht : StartsApart t) : afterFlags (v ++ t) = afterFlags (t.dropWhile isSpaceOrTab) := by
  obtain ⟨letters, rfl⟩ := List.isPrefixOf_iff_prefix.1 hflag
  have hsolid : ∀ c ∈ letters, isBlank c = false := fun c hc =>
    hv.solid c (List.mem_append_right _ hc)
  show afterFlags ('-' :: '-' :: (letters ++ t)) = _
  rw [afterFlags, Text.afterFirstWord_append hsolid ht]

theorem afterFlags_eq_self {t : Text} (h : Instruction.isFlag t = false) : afterFlags t = t := by
  unfold afterFlags
  split
  · next rest => cases h
  · rfl

theorem clause_flag {v t : Text} (hv : v.IsWord) (hflag : Instruction.isFlag v = true)
    (ht : StartsApart t) : clause (v ++ t) = clause (t.dropWhile isSpaceOrTab) := by
  unfold clause
  rw [afterFlags_flag hv hflag ht]

theorem clause_image {v t : Text} (hv : v.IsWord) (hflag : Instruction.isFlag v = false)
    (ht : StartsApart t) :
    clause (v ++ t) = (v, if PlainGaps 2 t then nameOfWords t.words else none) := by
  have hnot : Instruction.isFlag (v ++ t) = false := by
    refine Bool.eq_false_iff.2 fun h => ?_
    rw [Instruction.isFlag_of_append hv.ne_nil ht h] at hflag
    cases hflag
  unfold clause
  simp only [afterFlags_eq_self hnot, Text.firstWord_append hv.solid ht,
    Text.afterFirstWord_append hv.solid ht, givenName?_eq (Text.pastGap_dropWhile t),
    Text.plainGaps_dropWhile, Text.words_dropWhile_isSpaceOrTab]

/-- The reading does not get past white space that is neither a space nor a tab. -/
theorem clause_blank {c : Char} (hblank : isBlank c = true) (hplain : isSpaceOrTab c = false)
    (t : Text) : clause (c :: t) = ([], none) := by
  have hapart := Text.startsApart_cons hblank t
  have hnot : Instruction.isFlag (c :: t) = false := by
    refine Bool.eq_false_iff.2 fun h => ?_
    obtain ⟨rest, hrest⟩ := List.isPrefixOf_iff_prefix.1 h
    rw [← (List.cons.inj hrest).1] at hblank
    exact absurd hblank (by decide)
  unfold clause
  simp only [afterFlags_eq_self hnot, hapart.firstWord_eq, hapart.afterFirstWord_eq,
    List.dropWhile_cons_of_neg (show ¬ isSpaceOrTab c = true by simp [hplain])]
  rw [givenName?_eq_none (by rw [hapart.firstWord_eq]; rfl)]

/-- The reading follows the words if and only if the gaps are plain up to the last one that matters.
The induction goes over the flags. -/
theorem clause_eq_iff {t : Text} (h : PastGap t) :
    clause t = clauseOfWords t.words ↔ PlainGaps (usedWords t.words) t := by
  induction hn : t.length using Nat.strongRecOn generalizing t with
  | ind n ih =>
    subst hn
    cases h with
    | nil =>
      have hclause : clause [] = ([], none) := by
        unfold clause
        rw [afterFlags_eq_self rfl]
        rfl
      exact iff_of_true hclause trivial
    | @blank c t hblank hplain =>
      have hwords : ∀ w ∈ Text.words (c :: t), w.IsWord := fun w hw => Text.isWord_of_mem_words hw
      rw [clause_blank hblank hplain, eq_comm, ← usedWords_eq_zero_iff hwords]
      cases usedWords (Text.words (c :: t)) with
      | zero => exact iff_of_true rfl trivial
      | succ n => exact iff_of_false (Nat.succ_ne_zero n) (Text.not_plainGaps hblank hplain n t)
    | @word v t hv ht =>
      rw [hv.words_append ht]
      cases hflag : Instruction.isFlag v with
      | true =>
        have hshort : (t.dropWhile isSpaceOrTab).length < (v ++ t).length := by
          have h1 := (List.dropWhile_sublist isSpaceOrTab (l := t)).length_le
          have h2 := List.length_pos_of_ne_nil hv.ne_nil
          rw [List.length_append]
          omega
        have hrest := ih _ hshort (Text.pastGap_dropWhile t) rfl
        rw [Text.words_dropWhile_isSpaceOrTab, Text.plainGaps_dropWhile] at hrest
        rw [clause_flag hv hflag ht, clauseOfWords_flag _ hflag, hrest, usedWords_flag _ hflag]
        split
        · next hzero => rw [hzero]; exact Iff.rfl
        · exact (hv.plainGaps_append ht _).symm
      | false =>
        rw [clause_image hv hflag ht, clauseOfWords_image _ hflag, usedWords_image _ hflag]
        cases hname : nameOfWords t.words with
        | none =>
          rw [ite_self]
          exact iff_of_true rfl ((hv.plainGaps_append ht 0).2 trivial)
        | some name =>
          simp [hv.plainGaps_append ht 2]

/-! ## Stages -/

/-- Each `FROM` opens one stage, in order. -/
theorem Cuts.exists_ofFrom {index start : Nat} {stages : List Stage} {is : List Instruction}
    (h : Cuts index start stages is) {k : Nat} {opener : Instruction}
    (hopener : (is.filter fun i => i.directive = .from)[k]? = some opener) :
    ∃ s, stages[k]? = some s ∧ s = ofFrom s.index opener s.start s.stop := by
  induction h generalizing k with
  | nil => cases hopener
  | cons hopened _ _ ih =>
    rw [List.filter_append, hopened.filter, List.singleton_append] at hopener
    cases k with
    | zero =>
      cases hopener
      exact ⟨_, rfl, rfl⟩
    | succ k => exact ih hopener

/-- The stage has its base image and its names as the words behind its `FROM` say. -/
structure ReadsByWords (s : Stage) (opener : Instruction) : Prop where
  baseImage : s.baseImage = (clauseOfWords opener.argsText.words).1
  givenName : s.givenName = (clauseOfWords opener.argsText.words).2
  name : s.name = s.givenName.getD (defaultName s.index)

theorem readsByWords_iff {s : Stage} {opener : Instruction}
    (hs : s = ofFrom s.index opener s.start s.stop) :
    s.ReadsByWords opener ↔ clause opener.argsText = clauseOfWords opener.argsText.words := by
  have hbase : s.baseImage = (clause opener.argsText).1 := by rw [hs]; rfl
  have hgiven : s.givenName = (clause opener.argsText).2 := by rw [hs]; rfl
  have hname : s.name = s.givenName.getD (defaultName s.index) := by rw [hs]; rfl
  constructor
  · intro h
    exact Prod.ext (hbase.symm.trans h.baseImage) (hgiven.symm.trans h.givenName)
  · intro h
    exact ⟨hbase.trans (congrArg Prod.fst h), hgiven.trans (congrArg Prod.snd h), hname⟩

end Stage

/-- The stage that a `FROM` opens has its base image and its names from the words behind the `FROM`
if and only if the gaps are plain up to the last word that matters. They are when there is no white
space but spaces and tabs. -/
theorem Dockerfile.parse_readsByWords_iff {t : Text} {k : Nat} {opener : Instruction}
    (hopener : ((parse t).withDirective .from)[k]? = some opener) :
    ∃ s, (parse t).stages[k]? = some s ∧ s.index = k ∧ s.startLine = opener.line ∧
      (s.ReadsByWords opener ↔
        PlainGaps (Stage.usedWords opener.argsText.words) opener.argsText) ∧
      ((∀ c ∈ opener.argsText, isBlank c = true → isSpaceOrTab c = true) →
        s.ReadsByWords opener) := by
  have hmem : opener ∈ (parse t).withDirective .from := List.mem_of_getElem? hopener
  obtain ⟨hmem, hfrom⟩ := List.mem_filter.1 hmem
  have hcuts : Stage.Cuts 0 0 (parse t).stages (parse t).instructions :=
    Stage.ofInstructions_cuts ⟨opener, hmem, of_decide_eq_true hfrom⟩
  obtain ⟨s, hs, hopened⟩ := hcuts.exists_ofFrom hopener
  have hclause := Stage.clause_eq_iff
    (Text.pastGap_of_head? fun c hc => head?_argsText hmem hc)
  rw [← Stage.readsByWords_iff hopened] at hclause
  refine ⟨s, hs, ?_, ?_, hclause, fun hplain => hclause.2 (Text.plainGaps_of_forall hplain _)⟩
  · rw [hcuts.tiles.index_eq hs, Nat.zero_add]
  · rw [hopened]
    rfl

/-- There are flags and a tab in front of the image, and other white space only behind the name. -/
theorem Dockerfile.parse_readsByWords_of_tab :
    let t : Text := "FROM a\nFROM --platform=x  --y\tb as c\u00a0d\n".toList
    ∃ opener, ((parse t).withDirective .from)[1]? = some opener ∧
      PlainGaps (Stage.usedWords opener.argsText.words) opener.argsText ∧
      Stage.clauseOfWords opener.argsText.words = ("b".toList, some "c".toList) ∧
      ∃ s, (parse t).stages[1]? = some s ∧ s.ReadsByWords opener := by
  intro t
  have hopeners : ∀ i ∈ ((parse t).withDirective .from)[1]?,
      PlainGaps (Stage.usedWords i.argsText.words) i.argsText ∧
      Stage.clauseOfWords i.argsText.words = ("b".toList, some "c".toList) := by decide
  have hsome : (((parse t).withDirective .from)[1]?).isSome = true := by decide
  obtain ⟨opener, hopener⟩ := Option.isSome_iff_exists.1 hsome
  obtain ⟨hgaps, hwords⟩ := hopeners opener hopener
  obtain ⟨s, hs, -, -, hreads, -⟩ := parse_readsByWords_iff hopener
  exact ⟨opener, hopener, hgaps, hwords, s, hs, hreads.2 hgaps⟩

/-- Behind a no-break space neither the image nor the name is found. -/
theorem Dockerfile.not_readsByWords_of_noBreakSpace :
    let t : Text := "FROM\u00a0node:18 AS builder\n".toList
    ∃ opener s, ((parse t).withDirective .from)[0]? = some opener ∧
      (parse t).stages[0]? = some s ∧ ¬ s.ReadsByWords opener := by
  intro t
  have hopeners : ∀ i ∈ ((parse t).withDirective .from)[0]?,
      Stage.clauseOfWords i.argsText.words = ("node:18".toList, some "builder".toList) := by decide
  have hstages : ∀ s ∈ (parse t).stages[0]?, s.baseImage = [] := by decide +kernel
  have hopener : (((parse t).withDirective .from)[0]?).isSome = true := by decide
  have hstage : ((parse t).stages[0]?).isSome = true := by decide +kernel
  obtain ⟨opener, hopener⟩ := Option.isSome_iff_exists.1 hopener
  obtain ⟨s, hs⟩ := Option.isSome_iff_exists.1 hstage
  refine ⟨opener, s, hopener, hs, fun hreads => ?_⟩
  have hbase := hreads.baseImage
  rw [hstages s hs, hopeners opener hopener] at hbase
  cases hbase

end LayerLint
