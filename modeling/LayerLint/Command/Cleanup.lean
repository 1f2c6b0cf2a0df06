import LayerLint.Command.Phrase

/-!
# Cache cleanup

A command cleans up when one of a few markers occurs anywhere in it, also inside a longer word. The
parts of a marker stand apart by blanks; of some markers the end has to be the end of a word.
-/

namespace LayerLint

structure CleanupMarker where
  parts : List Text
  /-- Whether the last part has to end a word. -/
  endsWord : Bool

namespace CleanupMarker

def all : List CleanupMarker :=
  [⟨["rm", "-rf"], true⟩, ⟨["rm", "-fr"], true⟩, ⟨["apt-get", "clean"], false⟩,
   ⟨["yum", "clean", "all"], false⟩, ⟨["dnf", "clean", "all"], false⟩, ⟨["cache", "clean"], false⟩,
   ⟨["--no-cache"], true⟩, ⟨["--mount=type=cache"], false⟩]

/-- What follows the parts when the text starts with them. -/
def afterParts? : List Text → Text → Option Text
  | [], t => some t
  | [part], t => part.isPrefixOf? t
  | part :: parts, t => do
    let rest ← part.isPrefixOf? t
    let rest ← afterBlanks? rest
    afterParts? parts rest

/-- Whether the text starts with the marker. -/
def startsText (m : CleanupMarker) (t : Text) : Bool :=
  (afterParts? m.parts t).any fun rest => !(m.endsWord && startsInWord rest)

end CleanupMarker

def hasCleanup (command : Text) : Bool :=
  Text.anyTail (fun t => CleanupMarker.all.any fun m => m.startsText t) command

end LayerLint
