import LayerLint.Rule

/-!
# Consecutive `COPY`s

`COPY`s that follow each other directly add a layer each. With one destination and no flags they
can be merged.
-/

namespace LayerLint.Rule

/-- The blocks of at least two `COPY`s that follow each other directly; `block` is the one under
way. -/
def copyBlocks (block : List Instruction) : List Instruction → List (List Instruction)
  | [] => if 2 ≤ block.length then [block] else []
  | i :: rest =>
    if i.directive = .copy then copyBlocks (block ++ [i]) rest
    else (if 2 ≤ block.length then [block] else []) ++ copyBlocks [] rest

/-- The block as one `COPY`, when no `COPY` has flags and all have the same destination. -/
def mergedCopy? (block : List Instruction) : Option Text := do
  let first ← block.head?
  let destination ← first.positional.getLast?
  if block.all fun i => i.flags = [] && i.positional.getLast? = some destination then
    some (Text.concat ["COPY ", Text.join " " (block.flatMap (·.copySources)), " ", destination])
  else none

def combineCopiesSuggestion (s : Stage) (block : List Instruction) : Suggestion where
  code := "DFO010"
  severity := .low
  title := Text.concat
    [Text.ofNat block.length, " consecutive COPY instructions in stage `", s.name, "`"]
  recommendation :=
    "Merge consecutive COPYs into one where they share a destination to save layers."
  lines := block.map (·.line)
  before := (mergedCopy? block).map fun _ => Text.join "\n" (block.map (·.raw))
  after := mergedCopy? block

def combineCopies : Rule where
  code := "DFO010"
  name := "Combine consecutive COPYs"
  severity := .low
  detect d := d.staged.flatMap fun (s, is) => (copyBlocks [] is).map (combineCopiesSuggestion s)

end LayerLint.Rule
