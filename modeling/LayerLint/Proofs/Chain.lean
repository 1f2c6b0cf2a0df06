import LayerLint.Command.Manager
import LayerLint.Command.Package
import LayerLint.Proofs.Words

/-!
# Chained commands

A command is chained to the next by ` && `. A reader that stops at the joint (`StopsAtJoint`) finds
in the chain what it finds in the first command alone. Phrases stop there, because no name and no
verb has a space in it and none starts with `&`, and an option ends at the space. So phrases occur
in a chain where they occur in its commands, and the packages that a chain installs are those of its
commands, in order.
-/

namespace LayerLint

/-! ## Readers and changes of the text -/

theorem findSome?_eq_map {α : Type} {f g : α → Option Text} {T : Text → Text} {l : List α}
    (h : ∀ x ∈ l, f x = (g x).map T) : l.findSome? f = (l.findSome? g).map T := by
  induction l with
  | nil => rfl
  | cons x l ih =>
    obtain ⟨hx, hl⟩ := List.forall_mem_cons.1 h
    rw [List.findSome?_cons, List.findSome?_cons, hx]
    cases g x with
    | none => exact ih hl
    | some rest => rfl

/-- The reader finds in the changed text the changed form of what it finds in the text. -/
def Commutes (T : Text → Text) (f : Text → Option Text) : Prop :=
  ∀ t, f (T t) = (f t).map T

namespace Commutes

variable {T : Text → Text}

theorem bind {f g : Text → Option Text} (hf : Commutes T f) (hg : Commutes T g) :
    Commutes T fun t => (f t).bind g := by
  intro t
  show (f (T t)).bind g = ((f t).bind g).map T
  rw [hf t, Option.bind_map, Option.map_bind]
  exact congrArg _ (funext hg)

theorem filter {f : Text → Option Text} (hf : Commutes T f) {q : Text → Bool}
    (hq : ∀ t, q (T t) = q t) : Commutes T fun t => (f t).filter q := by
  intro t
  show (f (T t)).filter q = ((f t).filter q).map T
  rw [hf t]
  cases f t with
  | none => rfl
  | some rest =>
    simp only [Option.map_some, Option.filter_some, hq]
    split <;> rfl

theorem findSome? {α : Type} {f : α → Text → Option Text} {l : List α}
    (h : ∀ x ∈ l, Commutes T (f x)) : Commutes T fun t => l.findSome? fun x => f x t :=
  fun t => findSome?_eq_map fun x hx => h x hx t

end Commutes

/-! ## Joints -/

/-- What stands between two chained commands. -/
def joint : Text := [' ', '&', '&', ' ']

/-- The reader does not look across a joint. It finds nothing at the end and nothing at an `&`. -/
structure StopsAtJoint (f : Text → Option Text) : Prop where
  joint : ∀ a b, f (a ++ (joint ++ b)) = (f a).map (· ++ (joint ++ b))
  nil : f [] = none
  operator : ∀ b, f ('&' :: b) = none

/-! ## Words -/

/-- A word that neither starts nor goes on at a joint. -/
def PlainWord (word : Text) : Prop := ' ' ∉ word ∧ word ≠ [] ∧ word.head? ≠ some '&'

instance (word : Text) : Decidable (PlainWord word) :=
  inferInstanceAs (Decidable (_ ∧ _ ∧ _))

/-- A word does not reach beyond a character that it does not have. -/
theorem isPrefixOf?_append_cons {word : Text} {x : Char} (hx : x ∉ word) (a b : Text) :
    word.isPrefixOf? (a ++ x :: b) = (word.isPrefixOf? a).map (· ++ x :: b) := by
  induction word generalizing a with
  | nil => rfl
  | cons c word ih =>
    have hc : (c == x) = false := by
      simpa using fun h : c = x => hx (h ▸ List.mem_cons_self ..)
    have hrest : x ∉ word := fun h => hx (List.mem_cons_of_mem _ h)
    cases a with
    | nil =>
      rw [List.nil_append, Phrase.isPrefixOf?_cons_cons, hc]
      rfl
    | cons d a =>
      rw [List.cons_append, Phrase.isPrefixOf?_cons_cons, Phrase.isPrefixOf?_cons_cons]
      split
      · exact ih hrest a
      · rfl

theorem isPrefixOf?_cons_of_head? {word : Text} (hne : word ≠ []) {c : Char}
    (hc : word.head? ≠ some c) (t : Text) : word.isPrefixOf? (c :: t) = none := by
  obtain ⟨d, word, rfl⟩ := List.exists_cons_of_ne_nil hne
  have hd : (d == c) = false := by simpa using hc
  rw [Phrase.isPrefixOf?_cons_cons, hd]
  rfl

theorem PlainWord.isPrefixOf?_space {word : Text} (h : PlainWord word) (t : Text) :
    word.isPrefixOf? (' ' :: t) = none :=
  isPrefixOf?_cons_of_head? h.2.1 (fun hhead => h.1 (List.mem_of_mem_head? hhead)) t

theorem PlainWord.isPrefixOf?_nil {word : Text} (h : PlainWord word) :
    word.isPrefixOf? [] = none := by
  obtain ⟨c, word, rfl⟩ := List.exists_cons_of_ne_nil h.2.1
  rfl

/-- A word and behind it what does not look across a joint. -/
theorem PlainWord.stopsAtJoint {word : Text} (h : PlainWord word) {g : Text → Option Text}
    (hg : ∀ a b, g (a ++ (joint ++ b)) = (g a).map (· ++ (joint ++ b))) :
    StopsAtJoint fun t => (word.isPrefixOf? t).bind g where
  joint a b := Commutes.bind (T := (· ++ (LayerLint.joint ++ b)))
    (fun a => isPrefixOf?_append_cons h.1 a _) (fun a => hg a b) a
  nil := by rw [h.isPrefixOf?_nil, Option.bind_none]
  operator b := by rw [isPrefixOf?_cons_of_head? h.2.1 h.2.2, Option.bind_none]

theorem startsInWord_append_joint (a b : Text) :
    startsInWord (a ++ (joint ++ b)) = startsInWord a := by
  cases a with
  | nil =>
    show isWordChar ' ' = false
    decide
  | cons c a => rfl

/-- A word that counts only in front of certain texts. -/
theorem PlainWord.stopsAtJoint_filter {word : Text} (h : PlainWord word) {q : Text → Bool}
    (hq : ∀ a b, q (a ++ (joint ++ b)) = q a) :
    StopsAtJoint fun t => (word.isPrefixOf? t).filter q where
  joint a b := Commutes.filter (T := (· ++ (LayerLint.joint ++ b)))
    (fun a => isPrefixOf?_append_cons h.1 a _) (fun a => hq a b) a
  nil := by rw [h.isPrefixOf?_nil, Option.filter_none]
  operator b := by rw [isPrefixOf?_cons_of_head? h.2.1 h.2.2, Option.filter_none]

theorem PlainWord.stopsAtJoint_afterWholeWord? {word : Text} (h : PlainWord word) :
    StopsAtJoint (afterWholeWord? word) :=
  h.stopsAtJoint_filter fun a b => by rw [startsInWord_append_joint]

theorem StopsAtJoint.findSome? {α : Type} {f : α → Text → Option Text} {l : List α}
    (h : ∀ x ∈ l, StopsAtJoint (f x)) : StopsAtJoint fun t => l.findSome? fun x => f x t where
  joint a b := Commutes.findSome? (T := (· ++ (LayerLint.joint ++ b)))
    (fun x hx a => (h x hx).joint a b) a
  nil := List.findSome?_eq_none_iff.2 fun x hx => (h x hx).nil
  operator b := List.findSome?_eq_none_iff.2 fun x hx => (h x hx).operator b

/-! ## Phrases -/

/-- An option that the first command leaves open ends at the joint, and no verb follows there. -/
theorem afterOptions?_joint {verb : Text → Option Text} (h : StopsAtJoint verb) (s : OptionScan)
    (a b : Text) :
    (afterOptions? s (a ++ (joint ++ b))).bind verb =
      ((afterOptions? s a).bind verb).map (· ++ (joint ++ b)) := by
  induction a generalizing s with
  | nil =>
    have hopen : ∀ b, (afterOptions? .between ('&' :: b)).bind verb = none := h.operator
    cases s with
    | between =>
      show (afterOptions? .between ('&' :: '&' :: ' ' :: b)).bind verb = (verb []).map _
      rw [hopen, h.nil]
      rfl
    | dash => rfl
    | inside =>
      show (afterOptions? .between ('&' :: '&' :: ' ' :: b)).bind verb = none
      exact hopen _
  | cons c a ih =>
    cases s with
    | between =>
      simp only [List.cons_append, afterOptions?]
      split
      · exact ih .dash
      · split
        · exact ih .between
        · exact h.joint (c :: a) b
    | dash =>
      simp only [List.cons_append, afterOptions?]
      split
      · rfl
      · exact ih .inside
    | inside =>
      simp only [List.cons_append, afterOptions?]
      exact ih _

theorem afterBlanks?_joint {f : Text → Option Text} (h : StopsAtJoint f) (a b : Text) :
    (afterBlanks? (a ++ (joint ++ b))).bind f =
      ((afterBlanks? a).bind f).map (· ++ (joint ++ b)) := by
  cases a with
  | nil => exact h.operator _
  | cons c a =>
    simp only [List.cons_append, afterBlanks?]
    split
    · rw [List.dropWhile_append, Option.bind_some, Option.bind_some]
      split
      · next hnil =>
        rw [List.isEmpty_iff.1 hnil, h.nil]
        exact h.operator _
      · exact h.joint _ b
    · rfl

namespace Phrase

variable {p : Phrase}

def Plain (p : Phrase) : Prop :=
  (∀ name ∈ p.names, PlainWord name) ∧ ∀ verb ∈ p.verbs, PlainWord verb

/-- What follows the verb when the text starts with it, or with options in front of it where the
phrase allows any. -/
def afterVerb? (p : Phrase) (t : Text) : Option Text :=
  (p.toVerb? t).bind fun t => p.verbs.findSome? fun verb => afterWholeWord? verb t

theorem rest?_eq (p : Phrase) : p.rest? = fun t =>
    p.names.findSome? fun name =>
      (name.isPrefixOf? t).bind fun t => (afterBlanks? t).bind p.afterVerb? :=
  rfl

theorem Plain.stopsAtJoint_verbs (h : p.Plain) :
    StopsAtJoint fun t => p.verbs.findSome? fun verb => afterWholeWord? verb t :=
  .findSome? fun verb hverb => (h.2 verb hverb).stopsAtJoint_afterWholeWord?

theorem Plain.stopsAtJoint_afterVerb? (h : p.Plain) : StopsAtJoint p.afterVerb? := by
  have hverbs := h.stopsAtJoint_verbs
  unfold afterVerb? toVerb?
  cases p.options with
  | false => exact hverbs
  | true => exact ⟨afterOptions?_joint hverbs .between, hverbs.nil, hverbs.operator⟩

theorem Plain.stopsAtJoint (h : p.Plain) : StopsAtJoint p.rest? :=
  .findSome? fun name hname =>
    (h.1 name hname).stopsAtJoint (afterBlanks?_joint h.stopsAtJoint_afterVerb?)

theorem Plain.rest?_space (h : p.Plain) (t : Text) : p.rest? (' ' :: t) = none :=
  List.findSome?_eq_none_iff.2 fun name hname => by
    rw [(h.1 name hname).isPrefixOf?_space]
    rfl

theorem atWordStart?_joint {f : Text → Option Text} (h : StopsAtJoint f)
    (hspace : ∀ t, f (' ' :: t) = none) (inWord : Bool) (a b : Text) :
    atWordStart? f inWord (a ++ (joint ++ b)) =
      ((atWordStart? f inWord a).map (· ++ (joint ++ b))).or (atWordStart? f false b) := by
  induction a generalizing inWord with
  | nil => simp [joint, atWordStart?, h.operator, hspace, show isWordChar ' ' = false by decide]
  | cons c a ih =>
    have hhere : (if inWord then none else f (c :: (a ++ (joint ++ b)))) =
        (if inWord then none else f (c :: a)).map (· ++ (joint ++ b)) := by
      split
      · rfl
      · exact h.joint (c :: a) b
    simp only [List.cons_append, atWordStart?]
    rw [hhere, ih, Option.map_or, Option.or_assoc]

/-- The first occurrence in a chain is the first in its first command, if there is one. -/
theorem Plain.after?_joint (h : p.Plain) (a b : Text) :
    p.after? (a ++ (joint ++ b)) =
      ((p.after? a).map (· ++ (joint ++ b))).or (p.after? b) :=
  atWordStart?_joint h.stopsAtJoint h.rest?_space false a b

theorem Plain.occursIn_joint (h : p.Plain) (a b : Text) :
    p.occursIn (a ++ (joint ++ b)) = (p.occursIn a || p.occursIn b) := by
  unfold occursIn
  rw [h.after?_joint, Option.isSome_or, Option.isSome_map]

theorem Plain.occursIn_join (h : p.Plain) (cs : List Text) :
    p.occursIn (Text.join joint cs) = cs.any p.occursIn := by
  induction cs with
  | nil => rfl
  | cons c cs ih =>
    cases cs with
    | nil => rw [Text.join_singleton, List.any_cons, List.any_nil, Bool.or_false]
    | cons d cs => rw [Text.join_cons_cons, h.occursIn_joint, ih, ← List.any_cons]

end Phrase

/-! ## Managers -/

namespace PackageManager

theorem plain_installPhrase (m : PackageManager) : m.installPhrase.Plain := by
  cases m <;> exact ⟨by decide, by decide⟩

theorem plain_of_updatePhrase? {m : PackageManager} {p : Phrase} (h : m.updatePhrase? = some p) :
    p.Plain := by
  cases m with
  | npm => cases h
  | pip => cases h
  | _ =>
    cases h
    exact ⟨by decide, by decide⟩

theorem installsIn_join (m : PackageManager) (cs : List Text) :
    m.installsIn (Text.join joint cs) = cs.any m.installsIn :=
  m.plain_installPhrase.occursIn_join cs

theorem updatesIn_join (m : PackageManager) (cs : List Text) :
    m.updatesIn (Text.join joint cs) = cs.any m.updatesIn := by
  unfold updatesIn
  cases h : m.updatePhrase? with
  | none => simp
  | some p => simpa using (plain_of_updatePhrase? h).occursIn_join cs

theorem mem_all (m : PackageManager) : m ∈ all := by
  cases m <;> decide

end PackageManager

theorem mem_installManagers {m : PackageManager} {c : Text} :
    m ∈ installManagers c ↔ m.installsIn c = true := by
  simp [installManagers, PackageManager.mem_all]

theorem mem_updateManagers {m : PackageManager} {c : Text} :
    m ∈ updateManagers c ↔ m.updatesIn c = true := by
  simp [updateManagers, PackageManager.mem_all]

theorem mem_installManagers_join {m : PackageManager} {cs : List Text} :
    m ∈ installManagers (Text.join joint cs) ↔ ∃ c ∈ cs, m ∈ installManagers c := by
  simp only [mem_installManagers, PackageManager.installsIn_join, List.any_eq_true]

theorem mem_updateManagers_join {m : PackageManager} {cs : List Text} :
    m ∈ updateManagers (Text.join joint cs) ↔ ∃ c ∈ cs, m ∈ updateManagers c := by
  simp only [mem_updateManagers, PackageManager.updatesIn_join, List.any_eq_true]

/-! ## Packages -/

theorem plain_anyInstall : anyInstall.Plain := ⟨by decide, by decide⟩

/-- The words of the installs of a command, options included. -/
def installWords (c : Text) : List Text := (installSegments c).flatMap Text.words

theorem installWords_of_none {c : Text} (h : anyInstall.after? c = none) : installWords c = [] := by
  unfold installWords
  rw [installSegments]
  split
  · rfl
  · next h' => rw [h] at h'; cases h'

theorem installWords_of_some {c rest : Text} (h : anyInstall.after? c = some rest) :
    installWords c = Text.words (rest.takeWhile fun c => !isShellOperator c) ++
      installWords (rest.dropWhile fun c => !isShellOperator c) := by
  unfold installWords
  rw [installSegments]
  split
  · next h' => rw [h] at h'; cases h'
  · next h' =>
    rw [h] at h'
    cases h'
    exact List.flatMap_cons ..

theorem installWords_congr {c d : Text} (h : anyInstall.after? c = anyInstall.after? d) :
    installWords c = installWords d := by
  cases hd : anyInstall.after? d with
  | none => rw [installWords_of_none (h.trans hd), installWords_of_none hd]
  | some rest => rw [installWords_of_some (h.trans hd), installWords_of_some hd]

theorem words_append_space (t : Text) : Text.words (t ++ [' ']) = t.words := by
  rw [Text.words_append_cons (by decide)]
  exact List.append_nil _

/-- Nothing is installed by the operator of a joint. -/
theorem installWords_operator (b : Text) :
    installWords ('&' :: '&' :: ' ' :: b) = installWords b := by
  apply installWords_congr
  have h := plain_anyInstall.stopsAtJoint
  unfold Phrase.after?
  simp [atWordStart?, h.operator, plain_anyInstall.rest?_space,
    show isWordChar ' ' = false by decide]

theorem installWords_joint (a b : Text) :
    installWords (a ++ (joint ++ b)) = installWords a ++ installWords b := by
  induction hn : a.length using Nat.strongRecOn generalizing a with
  | ind n ih =>
    subst hn
    have hafter := plain_anyInstall.after?_joint a b
    cases ha : anyInstall.after? a with
    | none =>
      rw [ha, Option.map_none, Option.none_or] at hafter
      rw [installWords_congr hafter, installWords_of_none ha, List.nil_append]
    | some rest =>
      rw [ha, Option.map_some, Option.some_or] at hafter
      rw [installWords_of_some hafter, installWords_of_some ha]
      have hcut := List.takeWhile_append_dropWhile (p := fun c => !isShellOperator c) (l := rest)
      cases htail : rest.dropWhile fun c => !isShellOperator c with
      | nil =>
        -- the last segment of `a` runs up to the joint and takes its space in
        rw [htail, List.append_nil] at hcut
        have hseg : ∀ c ∈ rest, (!isShellOperator c) = true := List.dropWhile_eq_nil_iff.1 htail
        rw [List.takeWhile_append_of_pos hseg, List.dropWhile_append_of_pos hseg, hcut,
          installWords_of_none (rfl : anyInstall.after? [] = none), List.append_nil]
        show Text.words (rest ++ [' ']) ++ installWords ('&' :: '&' :: ' ' :: b) = _
        rw [words_append_space, installWords_operator]
      | cons c tail =>
        have hlen : (rest.takeWhile fun c => !isShellOperator c).length ≠ rest.length := by
          have := congrArg List.length hcut
          rw [htail, List.length_append, List.length_cons] at this
          omega
        have hshort : (c :: tail).length < a.length := by
          have h1 := Phrase.length_of_after? ha
          have h2 := (List.dropWhile_sublist (fun c => !isShellOperator c) (l := rest)).length_le
          rw [htail] at h2
          omega
        rw [List.takeWhile_append, List.dropWhile_append, if_neg hlen, if_neg (by simp [htail]),
          htail, ih _ hshort (c :: tail) rfl, List.append_assoc]

theorem installArguments_join (cs : List Text) :
    installArguments (Text.join joint cs) = cs.flatMap installArguments := by
  have hjoin : installWords (Text.join joint cs) = cs.flatMap installWords := by
    induction cs with
    | nil => exact installWords_of_none rfl
    | cons c cs ih =>
      cases cs with
      | nil => rw [Text.join_singleton, List.flatMap_singleton]
      | cons d cs => rw [Text.join_cons_cons, installWords_joint, ih, ← List.flatMap_cons]
  show (installWords (Text.join joint cs)).filter _ = _
  rw [hjoin, List.filter_flatMap]
  rfl

end LayerLint
