import LayerLint.Proofs.PhraseGrammar

/-!
# Counted packages and seen installs

Packages are counted behind the phrase `anyInstall`, which has the names and the verbs of all
managers and takes options everywhere. An install is seen by the phrase of its own manager. Both
read the same grammar, so a manager is seen if and only if one of the counted phrases fits it
(`mem_installManagers_iff_fits`). A phrase that fits no manager is stray: it has a verb of another
manager, or options where its manager takes none. Behind stray phrases packages are counted although
no install is seen (`installsAgree_iff`).
-/

namespace LayerLint

/-! ## One place, several phrases -/

namespace Phrase

variable {p : Phrase}

/-- The same place read as another phrase. -/
def Spelling.readAs (s : p.Spelling) (q : Phrase) (hname : s.name ∈ q.names)
    (hoptions : q.options = false → s.options = []) (hverb : s.verb ∈ q.verbs) : q.Spelling :=
  { s with name_mem := hname, options_allowed := hoptions, verb_mem := hverb }

theorem Spelling.text_readAs (s : p.Spelling) (q : Phrase) (hname : s.name ∈ q.names)
    (hoptions : q.options = false → s.options = []) (hverb : s.verb ∈ q.verbs) :
    (s.readAs q hname hoptions hverb).text = s.text := rfl

/-- A phrase that something stands in front of is found in every longer command. -/
theorem Spelling.exists_append (s : p.Spelling) (hne : s.before ≠ []) (front : Text) :
    ∃ s' : p.Spelling, s'.text = front ++ s.text ∧ s'.behind = s.behind := by
  have hword : endsInWord (front ++ s.before) = false := by
    unfold endsInWord
    rw [List.getLast?_append_of_ne_nil front hne]
    exact s.starts_word
  exact ⟨{ s with before := front ++ s.before, starts_word := hword }, List.append_assoc .., rfl⟩

end Phrase

namespace PackageManager

/-- The phrase tells the manager to install, in the manager's own terms. -/
structure Fits (m : PackageManager) (s : anyInstall.Spelling) : Prop where
  name : s.name ∈ m.names
  options : m.takesOptions = false → s.options = []
  verb : s.verb ∈ m.installVerbs

theorem names_subset (m : PackageManager) : m.names ⊆ anyInstall.names := by
  cases m <;> decide

theorem installVerbs_subset (m : PackageManager) : m.installVerbs ⊆ anyInstall.verbs := by
  cases m <;> decide

theorem exists_of_mem_names : ∀ name ∈ anyInstall.names, ∃ m : PackageManager, name ∈ m.names := by
  have h : ∀ name ∈ anyInstall.names, ∃ m ∈ all, name ∈ m.names := by decide
  intro name hname
  obtain ⟨m, -, hm⟩ := h name hname
  exact ⟨m, hm⟩

/-- No two managers share a name. -/
theorem eq_of_mem_names {m m' : PackageManager} {name : Text} (h : name ∈ m.names)
    (h' : name ∈ m'.names) : m = m' := by
  have hapart : ∀ m ∈ all, ∀ m' ∈ all, ∀ name ∈ m.names, name ∈ m'.names → m = m' := by decide
  exact hapart m m.mem_all m' m'.mem_all name h h'

end PackageManager

/-- A manager is seen in a command if and only if a counted phrase of the command fits it. -/
theorem mem_installManagers_iff_fits {m : PackageManager} {command : Text} :
    m ∈ installManagers command ↔
      ∃ s : anyInstall.Spelling, s.text = command ∧ m.Fits s := by
  rw [mem_installManagers, PackageManager.installsIn, m.installPhrase_eq_grammar,
    Phrase.occursIn_iff_spelling m.readable_grammar_installVerbs]
  constructor
  · rintro ⟨s, rfl⟩
    refine ⟨s.readAs anyInstall (m.names_subset s.name_mem) (absurd · (by decide))
      (m.installVerbs_subset s.verb_mem), s.text_readAs .., ?_⟩
    exact ⟨s.name_mem, s.options_allowed, s.verb_mem⟩
  · rintro ⟨s, rfl, hfits⟩
    exact ⟨s.readAs _ hfits.name hfits.options hfits.verb, s.text_readAs ..⟩

/-! ## Where counted packages stand -/

/-- The packages behind the phrase, up to the next shell operator. -/
def Phrase.Spelling.packages {p : Phrase} (s : p.Spelling) : List Text :=
  (Text.words (s.behind.takeWhile fun c => !isShellOperator c)).filter fun word =>
    word.head? ≠ some '-'

/-- A text that starts with a shell operator starts with no name. -/
theorem Phrase.Spelling.before_ne_nil (s : anyInstall.Spelling) {rest : Text}
    (h : s.text = rest.dropWhile fun c => !isShellOperator c) : s.before ≠ [] := by
  have hnames : ∀ name ∈ anyInstall.names,
      name ≠ [] ∧ name.head?.any isShellOperator = false := by decide
  obtain ⟨hne, hhead⟩ := hnames s.name s.name_mem
  obtain ⟨c, letters, hname⟩ := List.exists_cons_of_ne_nil hne
  intro hnil
  have htext : s.text = c :: (letters ++ s.tail.drop s.name.length) := by
    unfold text tail
    rw [hnil, hname]
    simp
  have hstart := List.head?_dropWhile_not (fun c => !isShellOperator c) rest
  rw [← h, htext] at hstart
  have hoperator : isShellOperator c = true := by simpa using hstart
  rw [hname] at hhead
  exact Bool.eq_false_iff.1 hhead hoperator

theorem exists_spelling_of_mem_installWords {command w : Text} (h : w ∈ installWords command) :
    ∃ s : anyInstall.Spelling, s.text = command ∧
      w ∈ Text.words (s.behind.takeWhile fun c => !isShellOperator c) := by
  induction command using installSegments.induct with
  | case1 command hnone =>
    rw [installWords_of_none hnone] at h
    cases h
  | case2 command rest hsome ih =>
    obtain ⟨s, rfl, rfl⟩ := Phrase.exists_spelling_of_after? hsome
    rw [installWords_of_some hsome] at h
    rcases List.mem_append.1 h with h | h
    · exact ⟨s, rfl, h⟩
    · -- the phrase stands behind the next operator, and there in the whole command
      obtain ⟨s', hs', hw⟩ := ih h
      have hcut : s.text = s.before ++ (s.phrase ++
          s.behind.takeWhile fun c => !isShellOperator c) ++ s'.text := by
        rw [hs', Phrase.Spelling.text, s.tail_eq]
        simp only [List.append_assoc, List.takeWhile_append_dropWhile]
      obtain ⟨s'', htext, hbehind⟩ := s'.exists_append (s'.before_ne_nil hs') _
      exact ⟨s'', htext.trans hcut.symm, hbehind ▸ hw⟩

theorem exists_spelling_of_mem_installArguments {command w : Text}
    (h : w ∈ installArguments command) :
    ∃ s : anyInstall.Spelling, s.text = command ∧ w ∈ s.packages := by
  obtain ⟨hmem, hdash⟩ := List.mem_filter.1 h
  obtain ⟨s, htext, hw⟩ := exists_spelling_of_mem_installWords hmem
  exact ⟨s, htext, List.mem_filter.2 ⟨hw, hdash⟩⟩

/-! ## Stray phrases -/

/-- The phrase has a verb that is none of its manager's, or options where its manager takes none. -/
def Phrase.Spelling.Stray (s : anyInstall.Spelling) : Prop :=
  ∃ m : PackageManager, s.name ∈ m.names ∧
    (s.verb ∉ m.installVerbs ∨ m.takesOptions = false ∧ s.options ≠ [])

theorem Phrase.Spelling.stray_iff (s : anyInstall.Spelling) :
    s.Stray ↔ ∀ m : PackageManager, ¬ m.Fits s := by
  constructor
  · rintro ⟨m, hname, hunfit⟩ m' hfits
    obtain rfl := PackageManager.eq_of_mem_names hname hfits.name
    rcases hunfit with hverb | ⟨hnone, hoptions⟩
    · exact hverb hfits.verb
    · exact hoptions (hfits.options hnone)
  · intro hunfit
    obtain ⟨m, hname⟩ := PackageManager.exists_of_mem_names s.name s.name_mem
    refine ⟨m, hname, ?_⟩
    by_contra hfits
    rw [not_or, not_not, not_and, not_not] at hfits
    exact hunfit m ⟨hname, hfits.2, hfits.1⟩

/-- A command whose packages are counted is seen as an install. -/
def InstallsAgree (command : Text) : Prop :=
  installArguments command ≠ [] → installManagers command ≠ []

instance (command : Text) : Decidable (InstallsAgree command) :=
  inferInstanceAs (Decidable (_ → _))

theorem installManagers_ne_nil_iff {command : Text} :
    installManagers command ≠ [] ↔ ∃ s : anyInstall.Spelling, s.text = command ∧ ¬ s.Stray := by
  simp only [Phrase.Spelling.stray_iff, not_forall, not_not]
  constructor
  · intro hne
    obtain ⟨m, hm⟩ := List.exists_mem_of_ne_nil _ hne
    obtain ⟨s, htext, hfits⟩ := mem_installManagers_iff_fits.1 hm
    exact ⟨s, htext, m, hfits⟩
  · rintro ⟨s, htext, m, hfits⟩
    exact List.ne_nil_of_mem (mem_installManagers_iff_fits.2 ⟨s, htext, hfits⟩)

/-- Every counted package stands behind an install phrase. A command with such packages is seen as
an install if and only if not all of its install phrases are stray; so one without stray phrases
always is. -/
theorem installsAgree_iff (command : Text) :
    (∀ w ∈ installArguments command,
        ∃ s : anyInstall.Spelling, s.text = command ∧ w ∈ s.packages) ∧
      (InstallsAgree command ↔
        (installArguments command ≠ [] →
          ∃ s : anyInstall.Spelling, s.text = command ∧ ¬ s.Stray)) ∧
      ((∀ s : anyInstall.Spelling, s.text = command → ¬ s.Stray) → InstallsAgree command) := by
  refine ⟨fun w hw => exists_spelling_of_mem_installArguments hw, ?_, fun hregular hne => ?_⟩
  · unfold InstallsAgree
    rw [installManagers_ne_nil_iff]
  · obtain ⟨w, hw⟩ := List.exists_mem_of_ne_nil _ hne
    obtain ⟨s, htext, -⟩ := exists_spelling_of_mem_installArguments hw
    exact installManagers_ne_nil_iff.2 ⟨s, htext, hregular s htext⟩

/-- An option may stand in front of the verb of `apt-get`. -/
theorem installsAgree_of_aptGet :
    let command : Text := "apt-get update && apt-get -y install curl".toList
    installArguments command = ["curl".toList] ∧
      (∃ s : anyInstall.Spelling, s.text = command ∧ "curl".toList ∈ s.packages) ∧
      ∃ s : anyInstall.Spelling, s.text = command ∧ ¬ s.Stray := by
  intro command
  have harguments : installArguments command = ["curl".toList] := by decide +kernel
  obtain ⟨hcounted, hagree, -⟩ := installsAgree_iff command
  refine ⟨harguments, hcounted _ (harguments ▸ List.mem_singleton_self _), ?_⟩
  exact hagree.1 (by decide +kernel) (harguments ▸ List.cons_ne_nil _ _)

/-- An option stands in front of the verb of `pip`. -/
theorem not_installsAgree_of_option : ¬ InstallsAgree "pip3 --quiet install flask".toList := by
  decide +kernel

example : ¬ InstallsAgree "apt-get add curl".toList := by decide +kernel

end LayerLint
