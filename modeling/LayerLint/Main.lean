import LayerLint.Run

/-!
# Command line

Looks at the files that the arguments name, runs, and writes what the run gives.
-/

namespace LayerLint

/-- An error number, which the system may give with its sign turned. -/
def errorNumber (n : UInt32) : Nat :=
  if n.toNat < UInt32.size / 2 then n.toNat else UInt32.size - n.toNat

def faultOf : IO.Error → ReadFault
  | .noFileOrDirectory _ n words
  | .inappropriateType _ n words
  | .invalidArgument _ n words
  | .permissionDenied _ n words
  | .resourceExhausted _ n words
  | .noSuchThing _ n words
  | .alreadyExists _ n words
  | .interrupted _ n words
  | .otherError n words
  | .illegalOperation n words
  | .unsatisfiedConstraints n words
  | .unsupportedOperation n words => .ofNumber words.toList (errorNumber n)
  | e => .other e.toString.toList

def readPath (path : Text) : IO (Except ReadFault Text) := do
  match ← (IO.FS.readBinFile (String.ofList path)).toBaseIO with
  | .ok bytes => return decodeUtf8 bytes
  | .error e => return .error (faultOf e)

/-- The settings file in a directory, if there is one. -/
def settingsFileAt (directory : Text) : IO (List (Text × Except ReadFault Text)) := do
  let path := Text.concat [directory, "/", Settings.fileName]
  match ← readPath path with
  | .ok t => return [(path, .ok t)]
  | .error fault => return if fault.isAtTarget then [(path, .error fault)] else []

def environment? (name : String) : IO (Option Text) := do
  return (← IO.getEnv name).map String.toList

/-- What a run that may read the given paths sees. -/
def observe (paths : List Text) : IO World := do
  let contents ← paths.mapM fun path => do return (path, ← readPath path)
  let work ← settingsFileAt ['.']
  let home ← match ← environment? "HOME" with
    | none => pure []
    | some directory => settingsFileAt directory
  let onTerminal ← (← IO.getStdout).isTty
  return {
    read := fun path => (contents.lookup path).getD (.error .notFound)
    settingsFiles := work ++ home
    allowsColours :=
      World.coloursAllowed (← environment? "CLICOLOR_FORCE") (← environment? "NO_COLOR")
      (← environment? "CLICOLOR") onTerminal }

def pathsOf (arguments : List Text) : List Text :=
  match Arguments.parse arguments with
  | .ok a => a.paths
  | .error _ => []

end LayerLint

open LayerLint in
def main (arguments : List String) : IO UInt32 := do
  let arguments := arguments.map String.toList
  let outcome := run (← observe (pathsOf arguments)) arguments
  for event in outcome.events do
    IO.eprintln (String.ofList event.line)
  if let some failure := outcome.failure then
    IO.eprintln (String.ofList failure.line)
  IO.print (String.ofList outcome.output)
  return UInt32.ofNat outcome.exitCode
