import LayerLint.Rule

/-!
# Whole build context copied

A copy of the whole context takes in whatever no `.dockerignore` keeps out. It weighs less when a
later stage can leave it behind.
-/

namespace LayerLint.Rule

def wholeContext : Rule where
  code := "DFO007"
  name := "Check .dockerignore"
  severity := .medium
  detect d :=
    let copies := d.instructions.filter (·.copiesWholeContext)
    if copies.isEmpty then []
    else
      [{ code := "DFO007"
         severity := if d.multiStage then .low else .medium
         title := "Whole build context copied into the image"
         recommendation := Text.concat
           ["Make sure a .dockerignore excludes .git, node_modules, build output, logs and ",
            "secrets so unrelated changes don't invalidate this layer."]
         lines := copies.map (·.line)
         before := none
         after := none }]

end LayerLint.Rule
