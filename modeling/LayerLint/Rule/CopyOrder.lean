import LayerLint.Rule

/-!
# Source tree before the dependency manifest

When the whole context is copied before the manifest, every change of the source invalidates the
layer that installs the dependencies.
-/

namespace LayerLint.Rule

/-- File names of dependency manifests and lock files. -/
def manifests : List Text :=
  ["package.json", "package-lock.json", "yarn.lock", "pnpm-lock.yaml", "npm-shrinkwrap.json",
   "requirements.txt", "Pipfile", "Pipfile.lock", "pyproject.toml", "poetry.lock", "go.mod",
   "go.sum", "Cargo.toml", "Cargo.lock", "Gemfile", "Gemfile.lock", "composer.json",
   "composer.lock", "pom.xml", "build.gradle", "build.gradle.kts"]

/-- Whether the last component of a path names a manifest. -/
def isManifest (source : Text) : Bool :=
  let file := source.afterLast '/'
  manifests.contains file
    || (List.isPrefixOf "requirements".toList file && List.isSuffixOf ".txt".toList file)

def copiesManifest (i : Instruction) : Bool := i.isCopyLike && i.copySources.any isManifest

def copyOrderSuggestion (s : Stage) (whole manifest : Instruction) : Suggestion where
  code := "DFO003"
  severity := .high
  title := Text.concat ["Source tree copied before dependency manifest in stage `", s.name, "`"]
  recommendation := Text.concat
    ["Copy the dependency manifest and install dependencies before copying the rest of the ",
     "source, so code changes don't invalidate the install layer."]
  lines := [whole.line, manifest.line]
  before := some (Text.concat [whole.raw, "\n...\n", manifest.raw])
  after := some (Text.concat [manifest.raw, "\n# install dependencies here\n", whole.raw])

/-- A suggestion for each copy of the whole context with a manifest copied later. -/
def copyOrders (s : Stage) : List Instruction → List Suggestion
  | [] => []
  | i :: rest =>
    (if i.copiesWholeContext then ((rest.find? copiesManifest).map (copyOrderSuggestion s i)).toList
      else []) ++ copyOrders s rest

def copyOrder : Rule where
  code := "DFO003"
  name := "Copy dependency manifests first"
  severity := .high
  detect d := d.staged.flatMap fun (s, is) => copyOrders s is

end LayerLint.Rule
