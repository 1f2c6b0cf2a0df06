import LayerLint.History.Size
import LayerLint.Proofs.Text

/-!
# The grammar of sizes

A size is read from both ends: white space is trimmed, digits are taken as far as they go, and the
rest has to be a unit. What is read that way can be said without the reader: white space, a number,
white space, perhaps a unit letter, perhaps an `i`, a `B` and white space (`WrittenSize`). The parts
cannot be mistaken for each other (`text_injective`), and the number and the unit letter decide what
the size stands for (`parseSize?_exact`): the whole number of bytes nearest to their product, if the
product is finite and that number has 64 bits (`toBytes?_eq_some_iff`).
-/

namespace LayerLint

namespace History

open Text

/-! ## The number -/

theorem isBlank_of_isDigit {c : Char} (h : Decimal.isDigit c = true) : isBlank c = false := by
  obtain ⟨hlow, hhigh⟩ := (Bool.and_eq_true _ _).mp h
  have hlow : 48 ≤ c.toNat := of_decide_eq_true hlow
  have hhigh : c.toNat ≤ 57 := of_decide_eq_true hhigh
  exact isBlank_of_ascii (by omega) (by omega)

namespace Amount

/-- There are digits before the point, and only digits around it. -/
structure OfDigits (a : Amount) : Prop where
  whole_ne_nil : a.whole ≠ []
  whole_digits : ∀ c ∈ a.whole, Decimal.isDigit c = true
  places_digits : ∀ c ∈ a.places, Decimal.isDigit c = true

/-- The number as it is written: a point stands in it only with digits behind. -/
def text (a : Amount) : Text := if a.places = [] then a.whole else a.whole ++ '.' :: a.places

/-- No longer number can be read when this follows a number. -/
def EndsBefore (rest : Text) : Prop := ∀ c ∈ rest.head?, Decimal.isDigit c = false ∧ c ≠ '.'

theorem OfDigits.exists_head? {a : Amount} (h : a.OfDigits) :
    ∃ c, a.text.head? = some c ∧ isBlank c = false := by
  obtain ⟨c, w, hw⟩ := List.exists_cons_of_ne_nil h.whole_ne_nil
  have hc : isBlank c = false :=
    isBlank_of_isDigit (h.whole_digits c (by rw [hw]; exact List.mem_cons_self ..))
  refine ⟨c, ?_, hc⟩
  unfold text
  rw [hw]
  split <;> rfl

end Amount

theorem amount?_text_append {a : Amount} (ha : a.OfDigits) {rest : Text}
    (hrest : Amount.EndsBefore rest) : amount? (a.text ++ rest) = some (a, rest) := by
  obtain ⟨whole, places⟩ := a
  have hdigit : ∀ c ∈ rest.head?, Decimal.isDigit c = false := fun c hc => (hrest c hc).1
  by_cases hplaces : places = []
  · subst hplaces
    have htext : Amount.text ⟨whole, []⟩ = whole := if_pos rfl
    rw [htext]
    unfold amount?
    simp only [takeWhile_append_of_stop ha.whole_digits hdigit,
      dropWhile_append_of_stop ha.whole_digits hdigit, if_neg ha.whole_ne_nil]
    split
    · exact absurd rfl (hrest '.' rfl).2
    · rfl
  · have htext : Amount.text ⟨whole, places⟩ ++ rest = whole ++ '.' :: (places ++ rest) := by
      rw [Amount.text, if_neg hplaces, List.append_assoc, List.cons_append]
    have hpoint : ∀ c ∈ ('.' :: (places ++ rest)).head?, Decimal.isDigit c = false := by
      rintro c hc
      obtain rfl := Option.some.inj hc
      decide
    rw [htext]
    unfold amount?
    simp only [takeWhile_append_of_stop ha.whole_digits hpoint,
      dropWhile_append_of_stop ha.whole_digits hpoint,
      takeWhile_append_of_stop ha.places_digits hdigit,
      dropWhile_append_of_stop ha.places_digits hdigit, if_neg ha.whole_ne_nil, if_neg hplaces]

theorem eq_text_append_of_amount? {t rest : Text} {a : Amount} (h : amount? t = some (a, rest)) :
    a.OfDigits ∧ t = a.text ++ rest := by
  have hdigits : ∀ t : Text, ∀ c ∈ t.takeWhile Decimal.isDigit, Decimal.isDigit c = true :=
    fun t => List.all_eq_true.1 List.all_takeWhile
  have ht := List.takeWhile_append_dropWhile (p := Decimal.isDigit) (l := t)
  unfold amount? at h
  dsimp only at h
  split at h
  · cases h
  · next hwhole =>
    split at h
    · next fraction hpoint =>
      split at h
      · cases h
      · next hplaces =>
        cases h
        refine ⟨⟨hwhole, hdigits _, hdigits _⟩, ?_⟩
        rw [Amount.text, if_neg hplaces, List.append_assoc, List.cons_append,
          List.takeWhile_append_dropWhile, ← hpoint, ht]
    · cases h
      refine ⟨⟨hwhole, hdigits _, by simp⟩, ?_⟩
      rw [Amount.text, if_pos rfl, ht]

/-! ## The unit -/

inductive UnitLetter where
  | smallK | k | m | g | t
  deriving DecidableEq, Repr

def UnitLetter.char : UnitLetter → Char
  | .smallK => 'k'
  | .k => 'K'
  | .m => 'M'
  | .g => 'G'
  | .t => 'T'

/-- The number of bytes of a unit; without a letter it is one byte. -/
def unitBytes : Option UnitLetter → Float
  | none => 1.0
  | some .smallK | some .k => 1e3
  | some .m => 1e6
  | some .g => 1e9
  | some .t => 1e12

def unitText (letter : Option UnitLetter) (binary : Bool) : Text :=
  (letter.map UnitLetter.char).toList ++ (if binary then ['i', 'B'] else ['B'])

theorem unit?_unitText (letter : Option UnitLetter) (binary : Bool) :
    unit? (unitText letter binary) = some (unitBytes letter) := by
  rcases letter with _ | _ | _ | _ | _ | _ <;> cases binary <;> rfl

theorem exists_letter_of_multiplier? {c : Char} {x : Float} (h : multiplier? c = some x) :
    ∃ l : UnitLetter, l.char = c ∧ unitBytes (some l) = x := by
  unfold multiplier? at h
  split at h
  · exact ⟨.smallK, rfl, Option.some.inj h⟩
  · exact ⟨.k, rfl, Option.some.inj h⟩
  · exact ⟨.m, rfl, Option.some.inj h⟩
  · exact ⟨.g, rfl, Option.some.inj h⟩
  · exact ⟨.t, rfl, Option.some.inj h⟩
  · cases h

theorem exists_of_isByteMark {t : Text} (h : isByteMark t = true) :
    ∃ binary, unitText none binary = t := by
  rcases (Bool.or_eq_true _ _).mp h with h | h
  · exact ⟨false, (of_decide_eq_true h).symm⟩
  · exact ⟨true, (of_decide_eq_true h).symm⟩

theorem eq_unitText_of_unit? {t : Text} {x : Float} (h : unit? t = some x) :
    ∃ letter binary, unitText letter binary = t ∧ unitBytes letter = x := by
  unfold unit? at h
  split at h
  · next hmark =>
    obtain ⟨binary, rfl⟩ := exists_of_isByteMark hmark
    exact ⟨none, binary, rfl, Option.some.inj h⟩
  · cases t with
    | nil => cases h
    | cons c rest =>
      dsimp only at h
      split at h
      · next hmark =>
        obtain ⟨binary, rfl⟩ := exists_of_isByteMark hmark
        obtain ⟨l, rfl, hx⟩ := exists_letter_of_multiplier? h
        exact ⟨some l, binary, rfl, hx⟩
      · cases h

theorem unitText_head? (letter : Option UnitLetter) (binary : Bool) :
    ∃ c, (unitText letter binary).head? = some c ∧ isBlank c = false ∧
      Decimal.isDigit c = false ∧ c ≠ '.' := by
  rcases letter with _ | _ | _ | _ | _ | _ <;> cases binary <;> exact ⟨_, rfl, by decide⟩

theorem unitText_getLast? (letter : Option UnitLetter) (binary : Bool) :
    (unitText letter binary).getLast? = some 'B' := by
  unfold unitText
  rw [List.getLast?_append]
  cases binary <;> rfl

theorem unitText_inj {letter letter' : Option UnitLetter} {binary binary' : Bool}
    (h : unitText letter binary = unitText letter' binary') :
    letter = letter' ∧ binary = binary' := by
  rcases letter with _ | _ | _ | _ | _ | _ <;> rcases letter' with _ | _ | _ | _ | _ | _ <;>
    cases binary <;> cases binary' <;> revert h <;> decide

/-! ## Numbers of bytes -/

/-- The whole number is the nearest to the fraction, or the larger of the two nearest. -/
def RoundsTo (f : Fraction) (n : Nat) : Prop :=
  2 * n * f.den ≤ 2 * f.num + f.den ∧ 2 * f.num + f.den < 2 * (n + 1) * f.den

theorem roundHalfUp_eq_div {f : Fraction} (h : 0 < f.den) :
    f.roundHalfUp = (2 * f.num + f.den) / (2 * f.den) := by
  have hsplit : f.den * (f.num / f.den) + f.num % f.den = f.num := Nat.div_add_mod ..
  have hrest : f.num % f.den < f.den := Nat.mod_lt _ h
  have hpos : 0 < 2 * f.den := Nat.mul_pos Nat.two_pos h
  unfold Fraction.roundHalfUp
  rw [eq_comm]
  split
  · rw [Nat.div_eq_iff hpos, Nat.mul_comm, Nat.mul_assoc]
    omega
  · rw [Nat.div_eq_iff hpos, Nat.mul_comm, Nat.mul_assoc, Nat.mul_add]
    omega

theorem roundHalfUp_eq_iff {f : Fraction} (h : 0 < f.den) {n : Nat} :
    f.roundHalfUp = n ↔ RoundsTo f n := by
  have hpos : 0 < 2 * f.den := Nat.mul_pos Nat.two_pos h
  have hlow : n * (2 * f.den) = 2 * n * f.den := by rw [← Nat.mul_assoc, Nat.mul_comm n 2]
  have hhigh : 2 * (n + 1) * f.den = 2 * n * f.den + 2 * f.den := by
    rw [Nat.mul_add, Nat.add_mul]
  unfold RoundsTo
  rw [roundHalfUp_eq_div h, Nat.div_eq_iff hpos, hlow, hhigh]
  omega

/-- A number of bytes is read when it fits 64 bits. -/
theorem toBytes?_eq_some_iff {x : Float} {n : UInt64} :
    toBytes? x = some n ↔ Fraction.isFinite x = true ∧ RoundsTo (Fraction.ofFloat x) n.toNat := by
  have hden : 0 < (Fraction.ofFloat x).den := Fraction.den_scaled_pos ..
  rw [← roundHalfUp_eq_iff hden]
  unfold toBytes?
  dsimp only
  split
  · next h =>
    rw [Bool.and_eq_true, decide_eq_true_eq] at h
    rw [and_iff_right h.1, Option.some.injEq, ← UInt64.toNat_inj, UInt64.toNat_ofNat_of_lt' h.2]
  · next h =>
    rw [Bool.and_eq_true, decide_eq_true_eq] at h
    refine iff_of_false (Option.some_ne_none n).symm ?_
    rintro ⟨hfinite, hn⟩
    exact h ⟨hfinite, hn ▸ n.toNat_lt_size⟩

/-! ## Sizes -/

/-- A size by its parts: a number and perhaps a unit letter, with an `i` or without and with white
space around them. -/
@[ext]
structure WrittenSize where
  front : Text
  amount : Amount
  gap : Text
  letter : Option UnitLetter
  binary : Bool
  back : Text
  front_blank : ∀ c ∈ front, isBlank c = true
  amount_ofDigits : amount.OfDigits
  gap_blank : ∀ c ∈ gap, isBlank c = true
  back_blank : ∀ c ∈ back, isBlank c = true

namespace WrittenSize

/-- The size without the white space at its ends. -/
def core (s : WrittenSize) : Text := s.amount.text ++ (s.gap ++ unitText s.letter s.binary)

def text (s : WrittenSize) : Text := s.front ++ s.core ++ s.back

def plain (s : WrittenSize) : Text :=
  s.amount.text ++ ((s.letter.map UnitLetter.char).toList ++ ['B'])

def bare (s : WrittenSize) : WrittenSize :=
  { s with front := [], gap := [], binary := false, back := [],
           front_blank := by simp, gap_blank := by simp, back_blank := by simp }

theorem text_bare (s : WrittenSize) : s.bare.text = s.plain := List.append_nil _

/-- The number of bytes, not yet rounded. -/
def bytes (s : WrittenSize) : Float := s.amount.value * unitBytes s.letter

theorem exists_head?_core (s : WrittenSize) : ∃ c, s.core.head? = some c ∧ isBlank c = false := by
  obtain ⟨c, hhead, hc⟩ := s.amount_ofDigits.exists_head?
  refine ⟨c, ?_, hc⟩
  rw [core, List.head?_append, hhead, Option.some_or]

theorem trim_text (s : WrittenSize) : s.text.trim = s.core := by
  obtain ⟨c, hhead, hc⟩ := s.exists_head?_core
  have hlast : s.core.getLast? = some 'B' := by
    rw [core, List.getLast?_append, List.getLast?_append, unitText_getLast?]
    rfl
  rw [text, trim_append_of_blank _ s.back_blank,
    trim_blank_append s.front_blank hhead hc hlast (by decide)]

theorem takeWhile_text (s : WrittenSize) : s.text.takeWhile isBlank = s.front := by
  obtain ⟨c, hhead, hc⟩ := s.exists_head?_core
  rw [text, List.append_assoc]
  refine takeWhile_append_of_stop s.front_blank fun d hd => ?_
  rw [List.head?_append, hhead, Option.some_or] at hd
  cases hd
  exact hc

theorem endsBefore (s : WrittenSize) :
    Amount.EndsBefore (s.gap ++ unitText s.letter s.binary) := by
  intro c hc
  cases hgap : s.gap with
  | nil =>
    obtain ⟨d, hd, -, hdigit, hpoint⟩ := unitText_head? s.letter s.binary
    rw [hgap, List.nil_append, hd] at hc
    cases hc
    exact ⟨hdigit, hpoint⟩
  | cons d gap =>
    rw [hgap] at hc
    obtain rfl : d = c := Option.some.inj hc
    have hblank : isBlank d = true := s.gap_blank d (by rw [hgap]; exact List.mem_cons_self ..)
    refine ⟨Bool.eq_false_iff.2 fun hdigit => ?_, ?_⟩
    · rw [isBlank_of_isDigit hdigit] at hblank
      cases hblank
    · rintro rfl
      exact absurd hblank (by decide)

theorem trimStart_gap (s : WrittenSize) :
    trimStart (s.gap ++ unitText s.letter s.binary) = unitText s.letter s.binary := by
  obtain ⟨c, hc, hblank, -⟩ := unitText_head? s.letter s.binary
  refine dropWhile_append_of_stop s.gap_blank fun d hd => ?_
  rw [hc] at hd
  cases hd
  exact hblank

end WrittenSize

theorem parseSize?_text (s : WrittenSize) : parseSize? s.text = toBytes? s.bytes := by
  unfold parseSize?
  rw [s.trim_text, WrittenSize.core, amount?_text_append s.amount_ofDigits s.endsBefore]
  show (unit? (trimStart (s.gap ++ unitText s.letter s.binary))).bind _ = _
  rw [s.trimStart_gap, unit?_unitText]
  rfl

theorem exists_writtenSize {t : Text} {n : UInt64} (h : parseSize? t = some n) :
    ∃ s : WrittenSize, s.text = t ∧ toBytes? s.bytes = some n := by
  obtain ⟨⟨a, rest⟩, hamount, h⟩ := Option.bind_eq_some_iff.1 h
  obtain ⟨x, hunit, h⟩ := Option.bind_eq_some_iff.1 h
  obtain ⟨ha, htrim⟩ := eq_text_append_of_amount? hamount
  obtain ⟨letter, binary, hletter, rfl⟩ := eq_unitText_of_unit? hunit
  have hblank : ∀ u : Text, ∀ c ∈ u.takeWhile isBlank, isBlank c = true :=
    fun u => List.all_eq_true.1 List.all_takeWhile
  obtain ⟨back, hback, hend⟩ := exists_eq_trimEnd_append t.trimStart
  let s : WrittenSize :=
    { front := t.takeWhile isBlank, amount := a, gap := rest.takeWhile isBlank, letter, binary, back
      front_blank := hblank t, amount_ofDigits := ha, gap_blank := hblank rest
      back_blank := hback }
  have hrest : rest.takeWhile isBlank ++ unitText letter binary = rest := by
    rw [hletter]
    exact List.takeWhile_append_dropWhile
  have hcore : s.core = t.trim := by
    show a.text ++ (rest.takeWhile isBlank ++ unitText letter binary) = t.trim
    rw [hrest, htrim]
  refine ⟨s, ?_, h⟩
  show t.takeWhile isBlank ++ s.core ++ back = t
  rw [hcore, List.append_assoc]
  show t.takeWhile isBlank ++ (trimEnd t.trimStart ++ back) = t
  rw [← hend]
  exact List.takeWhile_append_dropWhile

/-- A size is written in one way only: the parts can be told from the text. -/
theorem WrittenSize.text_injective : Function.Injective WrittenSize.text := by
  intro s s' h
  have hcore : s.core = s'.core := by rw [← s.trim_text, h, s'.trim_text]
  have hamount : amount? s.core = amount? s'.core := by rw [hcore]
  simp only [core, amount?_text_append s.amount_ofDigits s.endsBefore,
    amount?_text_append s'.amount_ofDigits s'.endsBefore, Option.some.injEq,
    Prod.mk.injEq] at hamount
  obtain ⟨hamount, hrest⟩ := hamount
  have hunit : unitText s.letter s.binary = unitText s'.letter s'.binary := by
    rw [← s.trimStart_gap, hrest, s'.trimStart_gap]
  obtain ⟨hletter, hbinary⟩ := unitText_inj hunit
  have hgap : s.gap = s'.gap := List.append_cancel_right (hrest.trans (by rw [hunit]))
  have hfront : s.front = s'.front := by rw [← s.takeWhile_text, h, s'.takeWhile_text]
  have hback : s.back = s'.back := by
    unfold text at h
    rw [hfront, hcore] at h
    exact List.append_cancel_left h
  exact WrittenSize.ext hfront hamount hgap hletter hbinary hback

/-- A text is read as a size exactly when it is written as one and its bytes, to the nearest whole
number, fit 64 bits. White space and the `i` do not matter, nor does the case of a `k`, and no text
is written as a size in two ways. -/
theorem parseSize?_exact :
    (∀ (t : Text) (n : UInt64), parseSize? t = some n ↔
      ∃ s : WrittenSize, s.text = t ∧ toBytes? s.bytes = some n) ∧
    (∀ (x : Float) (n : UInt64), toBytes? x = some n ↔
      Fraction.isFinite x = true ∧ RoundsTo (Fraction.ofFloat x) n.toNat) ∧
    (∀ s : WrittenSize, parseSize? s.text = parseSize? s.plain) ∧
    (∀ s : WrittenSize, parseSize? { s with letter := some .smallK }.text =
      parseSize? { s with letter := some .k }.text) ∧
    Function.Injective WrittenSize.text := by
  refine ⟨fun t n => ⟨exists_writtenSize, ?_⟩, fun x n => toBytes?_eq_some_iff, fun s => ?_,
    fun s => ?_, WrittenSize.text_injective⟩
  · rintro ⟨s, rfl, hn⟩
    rw [parseSize?_text, hn]
  · rw [parseSize?_text, ← s.text_bare, parseSize?_text]
    rfl
  · rw [parseSize?_text, parseSize?_text]
    rfl

example : parseSize? "\u3000 12.50\tKiB\n".toList = some 12500 := by decide +kernel

end History

end LayerLint
