import LayerLint.Text

/-!
# TOML values and tables

A table remembers how it came about, because that decides what may still be added to it: a header
may name a table that was only implied by a longer header, but none that has a header of its own;
dotted keys may add to tables made by dotted keys; inline tables and arrays are closed.
-/

namespace LayerLint.Toml

/-- How a table came about. -/
inductive Origin where
  /-- By a header of its own; also the document itself and the elements of arrays of tables. -/
  | header
  /-- By a header of a table inside it. -/
  | implied
  /-- By a dotted key. -/
  | dotted
  /-- In braces, closed. -/
  | inline
  deriving DecidableEq, Repr

inductive Value where
  | string (t : Text)
  | boolean (b : Bool)
  | integer (n : Int)
  /-- A floating-point number as written. -/
  | float (t : Text)
  /-- A date, a time or both, as written. -/
  | moment (t : Text)
  | array (items : List Value)
  /-- An array of tables made by headers. -/
  | tables (elements : List (List (Text × Value)))
  | table (origin : Origin) (entries : List (Text × Value))

/-- The names and values of a table, in the order in which they were given. -/
abbrev Entries := List (Text × Value)

namespace Entries

def get? (key : Text) : Entries → Option Value
  | [] => none
  | (k, v) :: rest => if k = key then some v else get? key rest

/-- The entries with the value of `key` replaced, or added behind the others. -/
def set (key : Text) (value : Value) : Entries → Entries
  | [] => [(key, value)]
  | (k, v) :: rest => if k = key then (k, value) :: rest else (k, v) :: set key value rest

/-- Changes the table that a path leads to. Tables that are missing on the way come about as
`made`; where a path passes through an array of tables, it goes on in the last one. -/
def changeAt (made : Origin) (change : Origin → Entries → Option Entries) :
    (path : List Text) → Origin → Entries → Option Entries
  | [], origin, entries => change origin entries
  | key :: path, _, entries =>
    match get? key entries with
    | none => do
      let inner ← changeAt made change path made []
      some (set key (.table made inner) entries)
    | some (.table origin inner) =>
      if origin = .inline ∨ (made = .dotted ∧ origin = .header) then none
      else do
        let inner ← changeAt made change path origin inner
        some (set key (.table origin inner) entries)
    | some (.tables elements) => do
      let last ← elements.getLast?
      let last ← changeAt made change path .header last
      some (set key (.tables (elements.dropLast ++ [last])) entries)
    | some _ => none

/-- Gives a value to a dotted key. The table that gets it is the one where the key starts, or one
made by dotted keys. -/
def insert (path : List Text) (key : Text) (value : Value) (entries : Entries) : Option Entries :=
  changeAt .dotted
    (fun origin inner =>
      if (origin = .dotted ↔ path = []) ∨ (get? key inner).isSome then none
      else some (inner ++ [(key, value)]))
    path .header entries

/-- Opens the table of a header. -/
def openTable (path : List Text) (key : Text) (entries : Entries) : Option Entries :=
  changeAt .implied
    (fun _ inner =>
      match get? key inner with
      | none => some (inner ++ [(key, .table .header [])])
      | some (.table .implied content) => some (set key (.table .header content) inner)
      | some _ => none)
    path .header entries

/-- Adds an element to the array of tables of a header. -/
def openElement (path : List Text) (key : Text) (entries : Entries) : Option Entries :=
  changeAt .implied
    (fun _ inner =>
      match get? key inner with
      | none => some (inner ++ [(key, .tables [[]])])
      | some (.tables elements) => some (set key (.tables (elements ++ [[]])) inner)
      | some _ => none)
    path .header entries

/-- Gives a value to a dotted key in the table that the last header opened. -/
def insertUnder (header : List Text) (path : List Text) (key : Text) (value : Value)
    (entries : Entries) : Option Entries :=
  changeAt .implied (fun _ inner => insert path key value inner) header .header entries

end Entries

end LayerLint.Toml
