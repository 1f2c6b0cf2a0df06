import LayerLint.Command.Manager

/-!
# Other facts about shell commands

Whether a command installs JavaScript dependencies, and how many steps it chains.
-/

namespace LayerLint

def startsBlank : Text → Bool
  | [] => false
  | c :: _ => isBlank c

/-- Whether what follows `yarn` makes it an install: the verb `install`, an option, a `;`, a `&&`
or the end of the command. -/
def yarnInstalls (rest : Text) : Bool :=
  let next := rest.trimStart
  let apart := startsBlank rest
  next.isEmpty || List.isPrefixOf "&&".toList next || List.isPrefixOf ";".toList next
    || (apart && (List.isPrefixOf "--".toList next || (afterWholeWord? "install" next).isSome))

/-- Whether a command installs dependencies by npm or yarn. -/
def isJsInstall (command : Text) : Bool :=
  PackageManager.npm.installsIn command
    || (atWordStart? (fun t => (List.isPrefixOf? "yarn".toList t).filter yarnInstalls) false
      command).isSome

/-- Number of `&&`, counted from the left without overlap. -/
def chainedSteps : Text → Nat
  | '&' :: '&' :: rest => chainedSteps rest + 1
  | _ :: rest => chainedSteps rest
  | [] => 0

end LayerLint
