import LayerLint.Text.Blank
import LayerLint.Json.StringList
import LayerLint.Dockerfile.Directive
import LayerLint.Dockerfile.LogicalLine

/-!
# Instructions

A logical line is an instruction when its first word is a directive. The arguments are the words
of the rest, unless the rest is a JSON array of strings (the exec form): then they are its members.
-/

namespace LayerLint

structure Instruction where
  directive : Directive
  /-- The physical lines. -/
  raw : Text
  /-- Number of the first physical line. -/
  line : Nat
  /-- What stands behind the keyword. -/
  argsText : Text
  arguments : List Text
  /-- Whether there is more than one physical line. -/
  continued : Bool
  deriving DecidableEq, Repr

namespace LogicalLine

def keyword (l : LogicalLine) : Text := l.text.firstWord

/-- What stands behind the keyword and the spaces and tabs after it. -/
def argsText (l : LogicalLine) : Text := l.text.afterFirstWord.dropWhile isSpaceOrTab

end LogicalLine

namespace Instruction

/-- The exec form when the text has it, and the words of the text otherwise. -/
def splitArguments (text : Text) : List Text :=
  let trimmed := text.trim
  if trimmed.head? = some '[' then (Json.stringList? trimmed).getD trimmed.words else trimmed.words

def ofLogicalLine? (l : LogicalLine) : Option Instruction :=
  (Directive.ofKeyword? l.keyword).map fun directive =>
    { directive
      raw := l.raw
      line := l.line
      argsText := l.argsText
      arguments := splitArguments l.argsText
      continued := l.continued }

def isCopyLike (i : Instruction) : Bool := i.directive = .copy || i.directive = .add

/-- The command of a shell instruction: the members of the exec form joined by spaces, or the
argument text as it stands. -/
def command (i : Instruction) : Text :=
  if i.argsText.trimStart.head? = some '[' then Text.join " " i.arguments else i.argsText

def isFlag (argument : Text) : Bool := List.isPrefixOf "--".toList argument

/-- The leading arguments that start with `--`. -/
def flags (i : Instruction) : List Text := i.arguments.takeWhile isFlag

/-- Whether a flag of that name is given, with a value or without. -/
def hasFlag (i : Instruction) (name : Text) : Bool :=
  i.flags.any fun flag => flag = name || (name ++ ['=']).isPrefixOf flag

/-- The arguments after the flags. -/
def positional (i : Instruction) : List Text := i.arguments.dropWhile isFlag

/-- The positional arguments but the last, which is the destination. -/
def copySources (i : Instruction) : List Text := i.positional.dropLast

/-- Whether the whole build context is copied, and not from another stage. -/
def copiesWholeContext (i : Instruction) : Bool :=
  i.isCopyLike && !i.hasFlag "--from" &&
    i.copySources.any fun source => source = "." || source = "./"

end Instruction

end LayerLint
