import LayerLint.Rule

/-!
# `ADD` of plain files

`ADD` is worth its name only for remote files and for archives that it unpacks.
-/

namespace LayerLint.Rule

def archiveExtensions : List Text :=
  [".tar", ".tar.gz", ".tgz", ".tar.bz2", ".tbz2", ".tar.xz", ".txz", ".zip", ".gz", ".bz2",
   ".xz", ".Z", ".lz", ".lzma"]

def remotePrefixes : List Text := ["http://", "https://", "git@"]

/-- The sources of an `ADD`; a single argument counts as one. -/
def addSources (i : Instruction) : List Text :=
  if i.copySources = [] then i.positional else i.copySources

def isRemote (source : Text) : Bool := remotePrefixes.any fun start => start.isPrefixOf source

def isArchive (source : Text) : Bool := archiveExtensions.any fun ending => ending.isSuffixOf source

def preferCopySuggestion (i : Instruction) : Suggestion where
  code := "DFO005"
  severity := .low
  title := "ADD used for plain files"
  recommendation :=
    "Use COPY for local files; keep ADD for remote URLs and archives that should be extracted."
  lines := [i.line]
  before := some i.raw
  after := some (Text.concat ["COPY ", i.argsText])

def preferCopy : Rule where
  code := "DFO005"
  name := "Prefer COPY over ADD"
  severity := .low
  detect d := ((d.withDirective .add).filter fun i =>
    !(addSources i).any isRemote && !(addSources i).any isArchive).map preferCopySuggestion

end LayerLint.Rule
