import LayerLint.Proofs.CleanedRun

/-!
# The offset behind an install phrase

Where a flag goes into a command is kept as a number of bytes. The offset lies between two
characters, behind an install verb that ends a word there, and it exists for the commands that
install and for no others. It depends on nothing behind it: a command that is cut off there has its
first install phrase where the whole command has it (`Phrase.Token.after?_cut`), because no phrase
reaches across the end of a verb. For the same reason no phrase that starts later ends earlier
(`Phrase.Spelling.behind_suffix`).
-/

namespace LayerLint

theorem Text.byteCount_le_append (a b : Text) : a.byteCount ≤ (a ++ b).byteCount := by
  rw [byteCount_eq_utf8ByteSize, byteCount_eq_utf8ByteSize, String.ofList_append,
    String.utf8ByteSize_append]
  exact Nat.le_add_right _ _

namespace Phrase

variable {p : Phrase} {V X : Text}

/-- A phrase takes something of the text in which it is found. -/
theorem atWordStart?_ne_self (inWord : Bool) (t : Text) :
    atWordStart? p.rest? inWord t ≠ some t := by
  intro h
  obtain ⟨u, v, ht, hv, -⟩ := exists_of_atWordStart? h
  have hshort := length_of_rest? hv
  rw [ht, List.length_append] at hshort
  omega

/-- The first phrase of a command is the first one too when nothing stands behind it. -/
theorem Token.after?_cut (h : p.Token V) (hX : startsInWord X = false) {s : Text}
    (hs : s.EndsApart) (hafter : p.after? (s ++ (V ++ X)) = some X) :
    p.after? (s ++ V) = some [] := by
  unfold after? at hafter ⊢
  rw [h.atWordStart?_append hX hs, Option.or_eq_some_iff] at hafter
  rcases hafter with hfront | ⟨-, hbehind⟩
  · obtain ⟨rest, hrest, hX⟩ := Option.map_eq_some_iff.1 hfront
    rw [hrest, List.append_left_eq_self.1 hX]
  · exact absurd hbehind (atWordStart?_ne_self true X)

/-- No phrase of a command ends before the one that the search finds. -/
theorem Spelling.behind_suffix (s : p.Spelling) (h : p.Token s.verb) (hreadable : p.Readable)
    {rest : Text} (hafter : p.after? s.text = some rest) : s.behind <:+ rest := by
  have htext : s.text = (s.before ++ (s.name ++ (s.gap ++ optionsText s.options))) ++
      (s.verb ++ s.behind) := by simp [text, tail]
  have hcut : (s.followedBy (b := []) rfl).text =
      (s.before ++ (s.name ++ (s.gap ++ optionsText s.options))) ++ s.verb := by
    simp [text, tail, followedBy]
  obtain ⟨r, hr⟩ := Option.isSome_iff_exists.1
    (hcut ▸ (s.followedBy (b := []) rfl).occursIn_text hreadable)
  unfold after? at hafter hr
  rw [htext, h.atWordStart?_append s.ends_word s.endsApart, hr, Option.map_some,
    Option.some_or] at hafter
  exact ⟨r, Option.some.inj hafter⟩

end Phrase

theorem isSome_installEnd? (m : PackageManager) (command : Text) :
    (installEnd? m command).isSome = m.installsIn command := by
  simp only [installEnd?, splitAtInstall?, Option.isSome_map]
  rfl

theorem after?_of_splitAtInstall? {m : PackageManager} {command front back : Text}
    (h : splitAtInstall? m command = some (front, back)) :
    m.installPhrase.after? command = some back := by
  obtain ⟨rest, hafter, hcut⟩ := Option.map_eq_some_iff.1 h
  obtain rfl : rest = back := congrArg Prod.snd hcut
  exact hafter

/-- A command that is cut behind its first install phrase has the same first one. -/
theorem splitAtInstall?_front {m : PackageManager} {V command front back : Text}
    (hV : V ∈ m.installPhrase.verbs) (hsplit : splitAtInstall? m command = some (front, back))
    (h : CutBehind V command front back) : splitAtInstall? m front = some (front, []) := by
  obtain ⟨s, hs, rfl⟩ := h.verb
  have hafter := after?_of_splitAtInstall? hsplit
  rw [h.command_eq, List.append_assoc] at hafter
  unfold splitAtInstall?
  rw [(m.token_installPhrase m hV).after?_cut h.ends_word hs hafter, Option.map_some,
    List.length_nil, Nat.sub_zero, List.take_length]

/-- A command has an offset for a flag exactly when the manager installs in it. The offset is one of
the command and lies between two characters. An install verb of the manager ends in front of it and
no word goes on behind it. It is the offset also of the command that is cut off there, and no
install phrase of the command ends before it. -/
theorem installEnd?_exact (m : PackageManager) (command : Text) :
    ((∃ offset, installEnd? m command = some offset) ↔ m.installsIn command = true) ∧
    (m.installsIn command = true ↔ m ∈ installManagers command) ∧
    ∀ offset, installEnd? m command = some offset →
      offset ≤ command.byteCount ∧
      ∃ front back, splitAtInstall? m command = some (front, back) ∧
        Text.CutAt offset command front back ∧
        (∃ verb ∈ m.installPhrase.verbs, verb <:+ front) ∧
        startsInWord back = false ∧
        installEnd? m front = some offset ∧
        ∀ s : m.installPhrase.Spelling, s.text = command → s.behind <:+ back := by
  refine ⟨?_, mem_installManagers.symm, fun offset hoffset => ?_⟩
  · rw [← Option.isSome_iff_exists, isSome_installEnd?]
  · have hinstall : m.installsIn command = true := by
      rw [← isSome_installEnd?, hoffset, Option.isSome_some]
    obtain ⟨V, hV, front, back, hsplit, hcut⟩ := exists_cut hinstall
    obtain rfl : front.byteCount = offset := by
      unfold installEnd? at hoffset
      rw [hsplit] at hoffset
      exact Option.some.inj hoffset
    have hverb : V <:+ front := by
      obtain ⟨s, -, rfl⟩ := hcut.verb
      exact List.suffix_append s V
    have hagain : installEnd? m front = some front.byteCount := by
      unfold installEnd?
      rw [splitAtInstall?_front hV hsplit hcut]
      rfl
    have hfirst : ∀ s : m.installPhrase.Spelling, s.text = command → s.behind <:+ back := by
      rintro s rfl
      exact s.behind_suffix (m.token_installPhrase m s.verb_mem) m.readable_installPhrase
        (after?_of_splitAtInstall? hsplit)
    refine ⟨?_, front, back, hsplit, ?_, ⟨V, hV, hverb⟩, hcut.ends_word, hagain, hfirst⟩
    · rw [hcut.command_eq]
      exact Text.byteCount_le_append front back
    · rw [hcut.command_eq]
      exact Text.cutAt_append front back

/-- The first verb goes on as a word, with a letter of two bytes, and the blank that sets the second
one apart has three. -/
theorem installEnd?_exact_of_wide_letters :
    installEnd? .pip "pip installé; pip3\u3000install-x".toList = some 29 ∧
      29 ≤ Text.byteCount "pip installé; pip3\u3000install-x".toList ∧
      ∃ front back,
        splitAtInstall? .pip "pip installé; pip3\u3000install-x".toList = some (front, back) ∧
        Text.CutAt 29 "pip installé; pip3\u3000install-x".toList front back ∧
        (∃ verb ∈ PackageManager.pip.installPhrase.verbs, verb <:+ front) ∧
        startsInWord back = false ∧
        installEnd? .pip front = some 29 ∧
        ∀ s : PackageManager.pip.installPhrase.Spelling,
          s.text = "pip installé; pip3\u3000install-x".toList → s.behind <:+ back := by
  have hoffset : installEnd? .pip "pip installé; pip3\u3000install-x".toList = some 29 := by decide
  exact ⟨hoffset, (installEnd?_exact .pip _).2.2 29 hoffset⟩

end LayerLint
