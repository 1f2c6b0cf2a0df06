import LayerLint.Proofs.Chain

/-!
# The grammar of command phrases

The search for a phrase goes from character to character. What it finds can be said without the
search: the command is a text that ends in no word, a command name, white space, options with white
space behind each, a verb, and a text that starts in no word (`Phrase.Spelling`). Every result of
the search is such a spelling (`exists_spelling_of_after?`), and a command that has one is found
(`Spelling.occursIn_text`), because a verb starts neither with a blank nor with the `-` of an
option.
-/

namespace LayerLint

/-! ## Blanks and options -/

/-- White space that sets two words apart. -/
structure IsGap (t : Text) : Prop where
  ne_nil : t ≠ []
  blank : ∀ c ∈ t, isBlank c = true

inductive IsOption : Text → Prop
  | dash {letters : Text} (ne_nil : letters ≠ []) (solid : ∀ c ∈ letters, isBlank c = false) :
    IsOption ('-' :: letters)

def AreOptions (options : List (Text × Text)) : Prop := ∀ o ∈ options, IsOption o.1 ∧ IsGap o.2

def optionsText (options : List (Text × Text)) : Text := options.flatMap fun o => o.1 ++ o.2

theorem optionsText_cons (o : Text × Text) (options : List (Text × Text)) :
    optionsText (o :: options) = o.1 ++ (o.2 ++ optionsText options) := by
  unfold optionsText
  rw [List.flatMap_cons, List.append_assoc]

theorem gap_of_afterBlanks? {t rest : Text} (h : afterBlanks? t = some rest) :
    (∃ gap, IsGap gap ∧ t = gap ++ rest) ∧ rest.head?.any isBlank = false := by
  cases t with
  | nil => cases h
  | cons c t =>
    simp only [afterBlanks?] at h
    split at h
    · next hc =>
      cases h
      have hblank : ∀ d ∈ c :: t.takeWhile isBlank, isBlank d = true :=
        List.forall_mem_cons.2 ⟨hc, fun d hd => List.all_eq_true.1 List.all_takeWhile d hd⟩
      refine ⟨⟨c :: t.takeWhile isBlank, ⟨List.cons_ne_nil _ _, hblank⟩, ?_⟩, ?_⟩
      · rw [List.cons_append, List.takeWhile_append_dropWhile]
      · have hhead := List.head?_dropWhile_not isBlank t
        cases hd : (t.dropWhile isBlank).head? <;> simp_all
    · cases h

theorem IsGap.afterBlanks?_append {gap : Text} (h : IsGap gap) {c : Char} (hc : isBlank c = false)
    (t : Text) : afterBlanks? (gap ++ c :: t) = some (c :: t) := by
  obtain ⟨d, w, rfl⟩ := List.exists_cons_of_ne_nil h.ne_nil
  obtain ⟨hd, hw⟩ := List.forall_mem_cons.1 h.blank
  simp only [List.cons_append, afterBlanks?, if_pos hd]
  rw [List.dropWhile_append_of_pos hw, List.dropWhile_cons_of_neg (by simp [hc])]

/-- What a scan over options takes from the text, by where it stands. -/
def OptionScan.Takes : OptionScan → Text → Prop
  | .between, t => ∃ w options, (∀ c ∈ w, isBlank c = true) ∧ AreOptions options ∧
      t = w ++ optionsText options
  | .dash, t => ∃ letters gap options, letters ≠ [] ∧ (∀ c ∈ letters, isBlank c = false) ∧
      IsGap gap ∧ AreOptions options ∧ t = letters ++ (gap ++ optionsText options)
  | .inside, t => ∃ letters gap options, (∀ c ∈ letters, isBlank c = false) ∧
      IsGap gap ∧ AreOptions options ∧ t = letters ++ (gap ++ optionsText options)

theorem OptionScan.takes_of_afterOptions? {s : OptionScan} {t rest : Text}
    (h : afterOptions? s t = some rest) : ∃ front, s.Takes front ∧ t = front ++ rest := by
  have hstop : OptionScan.between.Takes [] := ⟨[], [], by simp, by simp [AreOptions], rfl⟩
  induction t generalizing s with
  | nil =>
    cases s with
    | between =>
      cases h
      exact ⟨[], hstop, rfl⟩
    | dash => cases h
    | inside => cases h
  | cons c t ih =>
    cases s with
    | between =>
      simp only [afterOptions?] at h
      split at h
      · next hc =>
        obtain ⟨_, ⟨letters, gap, options, hne, hsolid, hgap, hoptions, rfl⟩, rfl⟩ := ih h
        refine ⟨_, ⟨[], ('-' :: letters, gap) :: options, by simp, ?_, rfl⟩, ?_⟩
        · exact List.forall_mem_cons.2 ⟨⟨.dash hne hsolid, hgap⟩, hoptions⟩
        · rw [optionsText_cons, hc]
          rfl
      · split at h
        · next hc =>
          obtain ⟨_, ⟨w, options, hw, hoptions, rfl⟩, rfl⟩ := ih h
          exact ⟨_, ⟨c :: w, options, List.forall_mem_cons.2 ⟨hc, hw⟩, hoptions, rfl⟩, rfl⟩
        · cases h
          exact ⟨[], hstop, rfl⟩
    | dash =>
      simp only [afterOptions?] at h
      split at h
      · cases h
      · next hc =>
        obtain ⟨_, ⟨letters, gap, options, hsolid, hgap, hoptions, rfl⟩, rfl⟩ := ih h
        have hsolid : ∀ d ∈ c :: letters, isBlank d = false :=
          List.forall_mem_cons.2 ⟨Bool.eq_false_iff.2 hc, hsolid⟩
        exact ⟨_, ⟨c :: letters, gap, options, by simp, hsolid, hgap, hoptions, rfl⟩, rfl⟩
    | inside =>
      simp only [afterOptions?] at h
      split at h
      · next hc =>
        obtain ⟨_, ⟨w, options, hw, hoptions, rfl⟩, rfl⟩ := ih h
        have hgap : IsGap (c :: w) := ⟨by simp, List.forall_mem_cons.2 ⟨hc, hw⟩⟩
        exact ⟨_, ⟨[], c :: w, options, by simp, hgap, hoptions, rfl⟩, rfl⟩
      · next hc =>
        obtain ⟨_, ⟨letters, gap, options, hsolid, hgap, hoptions, rfl⟩, rfl⟩ := ih h
        have hsolid : ∀ d ∈ c :: letters, isBlank d = false :=
          List.forall_mem_cons.2 ⟨Bool.eq_false_iff.2 hc, hsolid⟩
        exact ⟨_, ⟨c :: letters, gap, options, hsolid, hgap, hoptions, rfl⟩, rfl⟩

theorem afterOptions?_blanks {w : Text} (hw : ∀ c ∈ w, isBlank c = true) (t : Text) :
    afterOptions? .between (w ++ t) = afterOptions? .between t := by
  induction w with
  | nil => rfl
  | cons c w ih =>
    obtain ⟨hc, hw⟩ := List.forall_mem_cons.1 hw
    have hdash : c ≠ '-' := by
      rintro rfl
      exact absurd hc (by decide)
    rw [List.cons_append, afterOptions?, if_neg hdash, if_pos hc, ih hw]

theorem afterOptions?_inside {letters gap : Text} (hsolid : ∀ c ∈ letters, isBlank c = false)
    (hgap : IsGap gap) (t : Text) :
    afterOptions? .inside (letters ++ (gap ++ t)) = afterOptions? .between t := by
  induction letters with
  | nil =>
    obtain ⟨c, w, rfl⟩ := List.exists_cons_of_ne_nil hgap.ne_nil
    obtain ⟨hc, hw⟩ := List.forall_mem_cons.1 hgap.blank
    rw [List.nil_append, List.cons_append, afterOptions?, if_pos hc, afterOptions?_blanks hw]
  | cons c letters ih =>
    obtain ⟨hc, hsolid⟩ := List.forall_mem_cons.1 hsolid
    rw [List.cons_append, afterOptions?, if_neg (by simp [hc]), ih hsolid]

theorem IsOption.afterOptions?_append {o gap : Text} (ho : IsOption o) (hgap : IsGap gap)
    (t : Text) : afterOptions? .between (o ++ (gap ++ t)) = afterOptions? .between t := by
  obtain ⟨hne, hsolid⟩ := ho
  next letters =>
  obtain ⟨c, letters, rfl⟩ := List.exists_cons_of_ne_nil hne
  obtain ⟨hc, hsolid⟩ := List.forall_mem_cons.1 hsolid
  rw [List.cons_append, List.cons_append, afterOptions?, if_pos rfl, afterOptions?,
    if_neg (by simp [hc]), afterOptions?_inside hsolid hgap]

/-- A scan over options stops at the first text that is neither blank nor an option. -/
theorem AreOptions.afterOptions?_append {options : List (Text × Text)} (h : AreOptions options)
    {c : Char} (hblank : isBlank c = false) (hdash : c ≠ '-') (t : Text) :
    afterOptions? .between (optionsText options ++ c :: t) = some (c :: t) := by
  induction options with
  | nil =>
    show afterOptions? .between (c :: t) = _
    rw [afterOptions?, if_neg hdash, if_neg (by simp [hblank])]
  | cons o options ih =>
    obtain ⟨⟨ho, hgap⟩, h⟩ := List.forall_mem_cons.1 h
    rw [optionsText_cons, List.append_assoc, List.append_assoc, ho.afterOptions?_append hgap, ih h]

/-- What stands between the gap behind a name and the end of a verb starts with no blank. -/
theorem AreOptions.exists_cons {options : List (Text × Text)} (h : AreOptions options) {c : Char}
    (hc : isBlank c = false) (t : Text) :
    ∃ d rest, isBlank d = false ∧ optionsText options ++ c :: t = d :: rest := by
  cases options with
  | nil => exact ⟨c, t, hc, rfl⟩
  | cons o options =>
    obtain ⟨⟨ho, -⟩, -⟩ := List.forall_mem_cons.1 h
    obtain ⟨o, gap⟩ := o
    cases ho with
    | dash => exact ⟨'-', _, by decide, rfl⟩

/-! ## Places where a word may start -/

def endsInWord (t : Text) : Bool := t.getLast?.any isWordChar

theorem endsInWord_cons (c : Char) (t : Text) :
    endsInWord (c :: t) = if t = [] then isWordChar c else endsInWord t := by
  cases t with
  | nil => rfl
  | cons d t => simp [endsInWord, List.getLast?_cons_cons]

/-- The search looks at every place behind which no word goes on. -/
theorem exists_of_atWordStart? {α : Type} {f : Text → Option α} {inWord : Bool} {t : Text} {x : α}
    (h : atWordStart? f inWord t = some x) :
    ∃ u v, t = u ++ v ∧ f v = some x ∧ (if u = [] then inWord else endsInWord u) = false := by
  induction t generalizing inWord with
  | nil => cases h
  | cons c t ih =>
    rw [atWordStart?, Option.or_eq_some_iff] at h
    rcases h with h | ⟨-, h⟩
    · split at h
      · cases h
      · next hin => exact ⟨[], c :: t, rfl, h, Bool.eq_false_iff.2 hin⟩
    · obtain ⟨u, v, rfl, hv, hu⟩ := ih h
      refine ⟨c :: u, v, rfl, hv, ?_⟩
      rw [if_neg (List.cons_ne_nil _ _), endsInWord_cons]
      exact hu

theorem isSome_atWordStart? {α : Type} {f : Text → Option α} {inWord : Bool} {u v : Text}
    (hu : (if u = [] then inWord else endsInWord u) = false) (hne : v ≠ [])
    (hv : (f v).isSome = true) : (atWordStart? f inWord (u ++ v)).isSome = true := by
  induction u generalizing inWord with
  | nil =>
    obtain ⟨c, v, rfl⟩ := List.exists_cons_of_ne_nil hne
    rw [List.nil_append, atWordStart?, Option.isSome_or, if_neg (by simpa using hu), hv]
    rfl
  | cons c u ih =>
    rw [if_neg (List.cons_ne_nil _ _), endsInWord_cons] at hu
    rw [List.cons_append, atWordStart?, Option.isSome_or, ih hu, Bool.or_true]

/-! ## Spellings -/

/-- A reading of a command around one place where the phrase stands in it. -/
structure Phrase.Spelling (p : Phrase) where
  before : Text
  name : Text
  gap : Text
  /-- The options between name and verb, each with the white space behind it. -/
  options : List (Text × Text)
  verb : Text
  behind : Text
  name_mem : name ∈ p.names
  isGap : IsGap gap
  areOptions : AreOptions options
  options_allowed : p.options = false → options = []
  verb_mem : verb ∈ p.verbs
  starts_word : endsInWord before = false
  ends_word : startsInWord behind = false

namespace Phrase

variable {p : Phrase}

def Spelling.tail (s : p.Spelling) : Text :=
  s.name ++ (s.gap ++ (optionsText s.options ++ (s.verb ++ s.behind)))

def Spelling.text (s : p.Spelling) : Text := s.before ++ s.tail

/-- What stands between the phrase's first and its last character. -/
def Spelling.phrase (s : p.Spelling) : Text :=
  s.name ++ (s.gap ++ (optionsText s.options ++ s.verb))

theorem Spelling.tail_eq (s : p.Spelling) : s.tail = s.phrase ++ s.behind := by
  simp [tail, phrase]

/-- The same phrase in front of another text. -/
def Spelling.followedBy (s : p.Spelling) {b : Text} (hb : startsInWord b = false) : p.Spelling :=
  { s with behind := b, ends_word := hb }

theorem Spelling.tail_followedBy (s : p.Spelling) {b : Text} (hb : startsInWord b = false) :
    (s.followedBy hb).tail = s.phrase ++ b := tail_eq _

theorem exists_options_of_toVerb? {t rest : Text} (h : p.toVerb? t = some rest)
    (ht : t.head?.any isBlank = false) :
    ∃ options, AreOptions options ∧ (p.options = false → options = []) ∧
      t = optionsText options ++ rest := by
  unfold toVerb? at h
  split at h
  · next hallowed =>
    obtain ⟨_, ⟨w, options, hw, hoptions, rfl⟩, rfl⟩ := OptionScan.takes_of_afterOptions? h
    -- the scan passes over blanks, but there are none in front
    cases w with
    | nil => exact ⟨options, hoptions, by simp [hallowed], rfl⟩
    | cons c w => simp [hw c (List.mem_cons_self ..)] at ht
  · cases h
    exact ⟨[], by simp [AreOptions], fun _ => rfl, rfl⟩

theorem exists_spelling_of_rest? {t rest : Text} (h : p.rest? t = some rest) :
    ∃ s : p.Spelling, s.before = [] ∧ s.tail = t ∧ s.behind = rest := by
  obtain ⟨name, hname, h⟩ := List.exists_of_findSome?_eq_some h
  obtain ⟨t₁, hprefix, h⟩ := Option.bind_eq_some_iff.1 h
  obtain ⟨t₂, hblanks, h⟩ := Option.bind_eq_some_iff.1 h
  obtain ⟨t₃, htoVerb, h⟩ := Option.bind_eq_some_iff.1 h
  obtain ⟨verb, hverb, h⟩ := List.exists_of_findSome?_eq_some h
  obtain ⟨hbehind, hend⟩ := Option.filter_eq_some_iff.1 h
  obtain ⟨⟨gap, hgap, rfl⟩, hhead⟩ := gap_of_afterBlanks? hblanks
  obtain ⟨options, hoptions, hallowed, rfl⟩ := exists_options_of_toVerb? htoVerb hhead
  obtain rfl := List.append_eq_of_isPrefixOf?_eq_some hprefix
  obtain rfl := List.append_eq_of_isPrefixOf?_eq_some hbehind
  exact ⟨{
    before := [], name, gap, options, verb, behind := rest
    name_mem := hname
    isGap := hgap
    areOptions := hoptions
    options_allowed := hallowed
    verb_mem := hverb
    starts_word := rfl
    ends_word := by simpa using hend }, rfl, rfl, rfl⟩

/-- The search gives what stands behind the phrase in some reading of the command. -/
theorem exists_spelling_of_after? {t rest : Text} (h : p.after? t = some rest) :
    ∃ s : p.Spelling, s.text = t ∧ s.behind = rest := by
  obtain ⟨u, v, rfl, hv, hu⟩ := exists_of_atWordStart? h
  obtain ⟨s, -, rfl, rfl⟩ := exists_spelling_of_rest? hv
  have hword : endsInWord u = false := by
    split at hu
    · next hnil => rw [hnil]; rfl
    · exact hu
  exact ⟨{ s with before := u, starts_word := hword }, rfl, rfl⟩

/-- No name is empty, and no verb is or starts like a gap or an option. -/
def Readable (p : Phrase) : Prop :=
  (∀ name ∈ p.names, name ≠ []) ∧
    ∀ verb ∈ p.verbs, verb ≠ [] ∧ verb.head?.any isBlank = false ∧ verb.head? ≠ some '-'

theorem Spelling.isSome_rest? (s : p.Spelling) (h : p.Readable) :
    (p.rest? s.tail).isSome = true := by
  obtain ⟨hne, hblank, hdash⟩ := h.2 s.verb s.verb_mem
  obtain ⟨c, letters, hverb⟩ := List.exists_cons_of_ne_nil hne
  have hblank : isBlank c = false := by simpa [hverb] using hblank
  have hdash : c ≠ '-' := by simpa [hverb] using hdash
  have hoptions : p.toVerb? (optionsText s.options ++ (s.verb ++ s.behind)) =
      some (s.verb ++ s.behind) := by
    unfold toVerb?
    split
    · rw [hverb]
      exact s.areOptions.afterOptions?_append hblank hdash _
    · next hnone =>
      rw [s.options_allowed (by simpa using hnone)]
      rfl
  obtain ⟨d, rest, hd, hhead⟩ := s.areOptions.exists_cons hblank (letters ++ s.behind)
  have hgap : afterBlanks? (s.gap ++ (optionsText s.options ++ (s.verb ++ s.behind))) =
      some (optionsText s.options ++ (s.verb ++ s.behind)) := by
    rw [hverb, List.cons_append, hhead]
    exact s.isGap.afterBlanks?_append hd rest
  have hbehind : (afterWholeWord? s.verb (s.verb ++ s.behind)).isSome = true := by
    unfold afterWholeWord?
    rw [List.isPrefixOf?_eq_some_iff_append_eq.2 rfl]
    simp [s.ends_word]
  refine List.findSome?_isSome_iff.2 ⟨s.name, s.name_mem, ?_⟩
  simp only [tail, List.isPrefixOf?_eq_some_iff_append_eq.2 rfl, hgap, hoptions, bind,
    Option.bind_some]
  exact List.findSome?_isSome_iff.2 ⟨s.verb, s.verb_mem, hbehind⟩

theorem isSome_atWordStart?_iff (h : p.Readable) {inWord : Bool} {t : Text} :
    (atWordStart? p.rest? inWord t).isSome = true ↔
      ∃ (u : Text) (s : p.Spelling), t = u ++ s.tail ∧
        (if u = [] then inWord else endsInWord u) = false := by
  constructor
  · intro hsome
    obtain ⟨rest, hrest⟩ := Option.isSome_iff_exists.1 hsome
    obtain ⟨u, v, rfl, hv, hu⟩ := exists_of_atWordStart? hrest
    obtain ⟨s, -, rfl, -⟩ := exists_spelling_of_rest? hv
    exact ⟨u, s, rfl, hu⟩
  · rintro ⟨u, s, rfl, hu⟩
    have hne : s.tail ≠ [] := List.append_ne_nil_of_left_ne_nil (h.1 s.name s.name_mem) _
    exact isSome_atWordStart? hu hne (s.isSome_rest? h)

theorem Spelling.occursIn_text (s : p.Spelling) (h : p.Readable) : p.occursIn s.text = true :=
  (isSome_atWordStart?_iff h).2 ⟨s.before, s, rfl, by rw [s.starts_word, ite_self]⟩

theorem occursIn_iff_spelling (h : p.Readable) (command : Text) :
    p.occursIn command = true ↔ ∃ s : p.Spelling, s.text = command := by
  constructor
  · intro hoccurs
    obtain ⟨rest, hrest⟩ := Option.isSome_iff_exists.1 hoccurs
    obtain ⟨s, hs, -⟩ := exists_spelling_of_after? hrest
    exact ⟨s, hs⟩
  · rintro ⟨s, rfl⟩
    exact s.occursIn_text h

end Phrase

/-! ## Installs and updates -/

namespace PackageManager

def names : PackageManager → List Text
  | .apt => ["apt", "apt-get"]
  | .yum => ["yum", "dnf", "microdnf"]
  | .apk => ["apk"]
  | .npm => ["npm"]
  | .pip => ["pip", "pip3"]

def takesOptions : PackageManager → Bool
  | .apt | .yum | .apk => true
  | .npm | .pip => false

def installVerbs : PackageManager → List Text
  | .apt | .yum | .pip => ["install"]
  | .apk => ["add"]
  | .npm => ["install", "ci", "i"]

def updateVerbs : PackageManager → List Text
  | .apt | .apk => ["update"]
  | .yum => ["update", "makecache"]
  | .npm | .pip => []

def grammar (m : PackageManager) (verbs : List Text) : Phrase :=
  { names := m.names, options := m.takesOptions, verbs }

theorem installPhrase_eq_grammar (m : PackageManager) :
    m.installPhrase = m.grammar m.installVerbs := by
  cases m <;> rfl

theorem updatesIn_eq_occursIn (m : PackageManager) (command : Text) :
    m.updatesIn command = (m.grammar m.updateVerbs).occursIn command := by
  have hnone : ∀ names options,
      ({ names, options, verbs := [] } : Phrase).occursIn command = false := by
    intro names options
    refine Bool.eq_false_iff.2 fun h => ?_
    obtain ⟨rest, hrest⟩ := Option.isSome_iff_exists.1 h
    obtain ⟨s, -⟩ := Phrase.exists_spelling_of_after? hrest
    exact absurd s.verb_mem List.not_mem_nil
  cases m with
  | npm => exact (hnone _ _).symm
  | pip => exact (hnone _ _).symm
  | _ => rfl

theorem readable_grammar_installVerbs (m : PackageManager) :
    (m.grammar m.installVerbs).Readable := by
  cases m <;> exact ⟨by decide, by decide⟩

theorem readable_installPhrase (m : PackageManager) : m.installPhrase.Readable :=
  m.installPhrase_eq_grammar ▸ m.readable_grammar_installVerbs

theorem readable_grammar_updateVerbs (m : PackageManager) :
    (m.grammar m.updateVerbs).Readable := by
  cases m <;> exact ⟨by decide, by decide⟩

end PackageManager

/-- A command installs or refreshes with a manager when, and only when, one of the manager's names
and one of the verbs stand in it as words, with nothing but white space and, where the manager takes
them, options in between. -/
theorem mem_managers_iff_spelling (m : PackageManager) (command : Text) :
    (m ∈ installManagers command ↔
      ∃ s : (m.grammar m.installVerbs).Spelling, s.text = command) ∧
    (m ∈ updateManagers command ↔
      ∃ s : (m.grammar m.updateVerbs).Spelling, s.text = command) := by
  constructor
  · rw [mem_installManagers, PackageManager.installsIn, m.installPhrase_eq_grammar]
    exact Phrase.occursIn_iff_spelling m.readable_grammar_installVerbs command
  · rw [mem_updateManagers, m.updatesIn_eq_occursIn]
    exact Phrase.occursIn_iff_spelling m.readable_grammar_updateVerbs command

end LayerLint
