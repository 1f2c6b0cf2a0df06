import LayerLint.Text.Blank
import LayerLint.Text.Word

/-!
# Command phrases

A phrase is a command name, blanks, perhaps options with blanks behind each, and a verb, as in
`apt-get -y install`. An option is a `-` and at least one more character up to the next blank.
The name starts a word and the verb ends one. Since an option starts with `-` and a verb does not,
there is only one way to read a phrase at a given place.
-/

namespace LayerLint

/-- What follows one or more blanks. -/
def afterBlanks? : Text → Option Text
  | [] => none
  | c :: rest => if isBlank c then some (rest.dropWhile isBlank) else none

/-- Where a scan over options stands. -/
inductive OptionScan where
  /-- Between options, where a verb may start. -/
  | between
  /-- Behind the `-` of an option. -/
  | dash
  /-- Inside an option, behind its second character. -/
  | inside

/-- What stands behind the options and the blanks after each. -/
def afterOptions? : OptionScan → Text → Option Text
  | .between, [] => some []
  | .between, c :: rest =>
    if c = '-' then afterOptions? .dash rest
    else if isBlank c then afterOptions? .between rest
    else some (c :: rest)
  | .dash, [] => none
  | .dash, c :: rest => if isBlank c then none else afterOptions? .inside rest
  | .inside, [] => none
  | .inside, c :: rest => afterOptions? (if isBlank c then .between else .inside) rest

/-- The first result of `f` at a place where a word may start; `inWord` tells whether the character
before the text is a word character. -/
def atWordStart? {α : Type} (f : Text → Option α) : (inWord : Bool) → Text → Option α
  | _, [] => none
  | inWord, c :: rest =>
    (if inWord then none else f (c :: rest)).or (atWordStart? f (isWordChar c) rest)

/-- What follows `word` when the text starts with it and it ends there as a word. -/
def afterWholeWord? (word t : Text) : Option Text :=
  (word.isPrefixOf? t).filter fun rest => !startsInWord rest

structure Phrase where
  names : List Text
  /-- Whether options may stand between name and verb. -/
  options : Bool
  verbs : List Text

namespace Phrase

/-- What stands behind the options, where the phrase allows any. -/
def toVerb? (p : Phrase) (t : Text) : Option Text :=
  if p.options then afterOptions? .between t else some t

/-- What follows the phrase when the text starts with it. -/
def rest? (p : Phrase) (t : Text) : Option Text :=
  p.names.findSome? fun name => do
    let rest ← name.isPrefixOf? t
    let rest ← afterBlanks? rest
    let rest ← p.toVerb? rest
    p.verbs.findSome? fun verb => afterWholeWord? verb rest

/-- What follows the first occurrence of the phrase in a command. -/
def after? (p : Phrase) (command : Text) : Option Text := atWordStart? p.rest? false command

/-- Whether the phrase occurs in a command. -/
def occursIn (p : Phrase) (command : Text) : Bool := (p.after? command).isSome

/-! ## What follows a phrase is shorter than the command -/

theorem isPrefixOf?_cons_cons (a b : Char) (word t : Text) :
    List.isPrefixOf? (a :: word) (b :: t) = if a == b then word.isPrefixOf? t else none := rfl

theorem length_of_isPrefixOf? {word t rest : Text} (h : word.isPrefixOf? t = some rest) :
    rest.length ≤ t.length := by
  induction word generalizing t with
  | nil => exact Nat.le_of_eq (congrArg List.length (Option.some.inj h).symm)
  | cons a word ih =>
    cases t with
    | nil => cases h
    | cons b t =>
      rw [isPrefixOf?_cons_cons] at h
      split at h
      · have := ih h
        simp only [List.length_cons]
        omega
      · cases h

theorem length_of_afterBlanks? {t rest : Text} (h : afterBlanks? t = some rest) :
    rest.length < t.length := by
  unfold afterBlanks? at h
  split at h
  · cases h
  · split at h
    · simp only [Option.some.injEq] at h
      subst h
      have := (List.dropWhile_sublist isBlank (l := ‹List Char›)).length_le
      simp only [List.length_cons]
      omega
    · cases h

theorem length_of_afterOptions? {s : OptionScan} {t rest : Text}
    (h : afterOptions? s t = some rest) : rest.length ≤ t.length := by
  induction t generalizing s with
  | nil => cases s <;> simp_all [afterOptions?]
  | cons c t ih =>
    cases s with
    | between =>
      simp only [afterOptions?] at h
      split at h
      · exact Nat.le_succ_of_le (ih h)
      · split at h
        · exact Nat.le_succ_of_le (ih h)
        · simp only [Option.some.injEq] at h
          simp [← h]
    | dash =>
      simp only [afterOptions?] at h
      split at h
      · cases h
      · exact Nat.le_succ_of_le (ih h)
    | inside => exact Nat.le_succ_of_le (ih h)

theorem length_of_rest? {p : Phrase} {t rest : Text} (h : p.rest? t = some rest) :
    rest.length < t.length := by
  simp only [rest?, List.findSome?_eq_some_iff, bind, Option.bind_eq_some_iff] at h
  obtain ⟨_, _, _, _, ⟨a, ha, b, hb, c, hc, hv⟩, _⟩ := h
  have h1 := length_of_isPrefixOf? ha
  have h2 := length_of_afterBlanks? hb
  have h3 : c.length ≤ b.length := by
    unfold toVerb? at hc
    split at hc
    · exact length_of_afterOptions? hc
    · simp_all
  obtain ⟨_, _, _, _, hw, _⟩ := hv
  simp only [afterWholeWord?, Option.filter_eq_some_iff] at hw
  have h4 := length_of_isPrefixOf? hw.1
  omega

theorem length_of_after? {p : Phrase} {command rest : Text} (h : p.after? command = some rest) :
    rest.length < command.length := by
  unfold after? at h
  generalize false = inWord at h
  induction command generalizing inWord with
  | nil => simp [atWordStart?] at h
  | cons c t ih =>
    simp only [atWordStart?, Option.or_eq_some_iff] at h
    rcases h with h | ⟨_, h⟩
    · split at h
      · cases h
      · exact length_of_rest? h
    · exact Nat.lt_succ_of_lt (ih _ h)

end Phrase

end LayerLint
