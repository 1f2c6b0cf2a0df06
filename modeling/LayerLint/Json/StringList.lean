import LayerLint.Text

/-!
# Lists of strings in JSON

`Json.stringList?` reads a JSON array whose members are strings, and nothing but that: no
trailing comma, no control character inside a string, no surrogate escape without its partner.
-/

namespace LayerLint.Json

/-- White space of the format. -/
def isGap (c : Char) : Bool := c = ' ' || c = '\t' || c = '\n' || c = '\r'

def skipGap (t : Text) : Text := t.dropWhile isGap

/-- The value of a hexadecimal digit. -/
def hexDigit? (c : Char) : Option Nat :=
  if '0' ≤ c ∧ c ≤ '9' then some (c.toNat - '0'.toNat)
  else if 'a' ≤ c ∧ c ≤ 'f' then some (c.toNat - 'a'.toNat + 10)
  else if 'A' ≤ c ∧ c ≤ 'F' then some (c.toNat - 'A'.toNat + 10)
  else none

/-- Four hexadecimal digits and what follows them. -/
def hexUnit? : Text → Option (Nat × Text)
  | a :: b :: c :: d :: rest => do
    let a ← hexDigit? a
    let b ← hexDigit? b
    let c ← hexDigit? c
    let d ← hexDigit? d
    some (((a * 16 + b) * 16 + c) * 16 + d, rest)
  | _ => none

/-- The character that a pair of surrogates encodes. -/
def surrogatePair (high low : Nat) : Char :=
  Char.ofNat (0x10000 + (high - 0xD800) * 0x400 + (low - 0xDC00))

/-- The character of a `\u` escape, read from behind the `u`. -/
def unicodeEscape? (t : Text) : Option (Char × Text) := do
  let (unit, rest) ← hexUnit? t
  if 0xD800 ≤ unit ∧ unit ≤ 0xDBFF then
    match rest with
    | '\\' :: 'u' :: more =>
      let (low, rest) ← hexUnit? more
      if 0xDC00 ≤ low ∧ low ≤ 0xDFFF then some (surrogatePair unit low, rest) else none
    | _ => none
  else if 0xDC00 ≤ unit ∧ unit ≤ 0xDFFF then none
  else some (Char.ofNat unit, rest)

/-- The character that a letter stands for behind a backslash. -/
def escape? : Char → Option Char
  | '"' => some '"'
  | '\\' => some '\\'
  | '/' => some '/'
  | 'b' => some '\x08'
  | 'f' => some '\x0c'
  | 'n' => some '\n'
  | 'r' => some '\r'
  | 't' => some '\t'
  | _ => none

/-- One character inside a string, plain or escaped, and what follows it. -/
def stringChar? : Text → Option (Char × Text)
  | [] => none
  | '\\' :: 'u' :: rest => unicodeEscape? rest
  | '\\' :: e :: rest => (escape? e).map (·, rest)
  | c :: rest => if c = '\\' ∨ c = '"' ∨ c.toNat < 0x20 then none else some (c, rest)

theorem length_of_hexUnit? {t rest : Text} {n : Nat} (h : hexUnit? t = some (n, rest)) :
    rest.length < t.length := by
  unfold hexUnit? at h
  split at h
  · simp only [bind, Option.bind_eq_some_iff, Option.some.injEq, Prod.mk.injEq] at h
    obtain ⟨_, _, _, _, _, _, _, _, _, rfl⟩ := h
    simp only [List.length_cons]
    omega
  · cases h

theorem length_of_unicodeEscape? {t rest : Text} {c : Char}
    (h : unicodeEscape? t = some (c, rest)) : rest.length < t.length := by
  simp only [unicodeEscape?, bind, Option.bind_eq_some_iff, Prod.exists] at h
  obtain ⟨unit, more, hunit, h⟩ := h
  have hmore := length_of_hexUnit? hunit
  split at h
  · split at h
    · simp only [Option.bind_eq_some_iff, Prod.exists] at h
      obtain ⟨low, last, hlow, h⟩ := h
      have hlast := length_of_hexUnit? hlow
      simp only [List.length_cons] at hmore
      split at h
      · simp only [Option.some.injEq, Prod.mk.injEq] at h
        obtain ⟨_, rfl⟩ := h
        omega
      · cases h
    · cases h
  · split at h
    · cases h
    · simp only [Option.some.injEq, Prod.mk.injEq] at h
      obtain ⟨_, rfl⟩ := h
      exact hmore

theorem length_of_stringChar? {t rest : Text} {c : Char} (h : stringChar? t = some (c, rest)) :
    rest.length < t.length := by
  unfold stringChar? at h
  split at h
  · cases h
  · have := length_of_unicodeEscape? h
    simp only [List.length_cons]
    omega
  · simp only [Option.map_eq_some_iff, Prod.mk.injEq] at h
    obtain ⟨_, _, _, rfl⟩ := h
    simp only [List.length_cons]
    omega
  · split at h
    · cases h
    · simp only [Option.some.injEq, Prod.mk.injEq] at h
      obtain ⟨_, rfl⟩ := h
      simp

/-- The rest of a string up to its closing quote, and what follows the quote. -/
def stringTail? (t : Text) : Option (Text × Text) :=
  if t.head? = some '"' then some ([], t.tail)
  else
    match _h : stringChar? t with
    | none => none
    | some (c, rest) => (stringTail? rest).map fun (s, after) => (c :: s, after)
termination_by t.length
decreasing_by exact length_of_stringChar? _h

/-- A string with both its quotes, and what follows it. -/
def string? : Text → Option (Text × Text)
  | '"' :: rest => stringTail? rest
  | _ => none

theorem length_of_stringTail? (t : Text) {s rest : Text} (h : stringTail? t = some (s, rest)) :
    rest.length ≤ t.length := by
  induction t using stringTail?.induct generalizing s with
  | case1 t hq =>
    rw [stringTail?, if_pos hq] at h
    simp only [Option.some.injEq, Prod.mk.injEq] at h
    obtain ⟨_, rfl⟩ := h
    simp
  | case2 t hq hc =>
    rw [stringTail?, if_neg hq] at h
    split at h
    · cases h
    · simp_all
  | case3 t hq c more hc ih =>
    rw [stringTail?, if_neg hq] at h
    split at h
    · cases h
    · rename_i c' more' hc'
      rw [hc] at hc'
      simp only [Option.some.injEq, Prod.mk.injEq] at hc'
      obtain ⟨rfl, rfl⟩ := hc'
      simp only [Option.map_eq_some_iff, Prod.mk.injEq, Prod.exists] at h
      obtain ⟨s', after, hs, _, rfl⟩ := h
      have := ih hs
      have := length_of_stringChar? hc
      omega

theorem length_of_string? {t s rest : Text} (h : string? t = some (s, rest)) :
    rest.length < t.length := by
  unfold string? at h
  split at h
  · have := length_of_stringTail? _ h
    simp only [List.length_cons]
    omega
  · cases h

/-- The members of an array from a string on, and what follows the closing bracket. -/
def members? (t : Text) : Option (List Text × Text) :=
  match _h : string? t with
  | none => none
  | some (s, rest) =>
    match _h' : skipGap rest with
    | ']' :: after => some ([s], after)
    | ',' :: more => (members? (skipGap more)).map fun (ss, after) => (s :: ss, after)
    | _ => none
termination_by t.length
decreasing_by
  have h1 := length_of_string? _h
  have h2 := (List.dropWhile_sublist isGap (l := rest)).length_le
  have h3 := (List.dropWhile_sublist isGap (l := more)).length_le
  simp only [skipGap] at _h' ⊢
  rw [_h', List.length_cons] at h2
  omega

/-- The strings of a text that is a JSON array of strings. -/
def stringList? (t : Text) : Option (List Text) :=
  match skipGap t with
  | '[' :: inside =>
    match skipGap inside with
    | ']' :: after => if skipGap after = [] then some [] else none
    | t =>
      match members? t with
      | some (ss, after) => if skipGap after = [] then some ss else none
      | none => none
  | _ => none

end LayerLint.Json
