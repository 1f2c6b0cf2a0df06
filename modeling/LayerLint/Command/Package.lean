import LayerLint.Command.Phrase

/-!
# Installed packages

The arguments of an install run from its verb to the next `&`, `;` or `|`. Those that do not start
with `-` are packages.
-/

namespace LayerLint

/-- An install by any of the managers. -/
def anyInstall : Phrase where
  names := ["apt", "apt-get", "yum", "dnf", "microdnf", "apk", "pip", "pip3", "npm"]
  options := true
  verbs := ["install", "add", "ci", "i"]

def isShellOperator (c : Char) : Bool := c = '&' || c = ';' || c = '|'

/-- The argument texts of the installs of a command. -/
def installSegments (command : Text) : List Text :=
  match _h : anyInstall.after? command with
  | none => []
  | some rest =>
    rest.takeWhile (fun c => !isShellOperator c)
      :: installSegments (rest.dropWhile fun c => !isShellOperator c)
termination_by command.length
decreasing_by
  have := Phrase.length_of_after? _h
  have := (List.dropWhile_sublist (fun c => !isShellOperator c) (l := rest)).length_le
  omega

/-- The packages that a command installs. -/
def installArguments (command : Text) : List Text :=
  ((installSegments command).flatMap Text.words).filter fun word => word.head? ≠ some '-'

/-- Packages that matter only while an image is built. -/
def buildTools : List Text := ["build-essential", "build-base", "gcc", "g++", "make", "cmake"]

/-- The build tools that a command installs, each once, in order; a version behind `=` does not
count. -/
def installedBuildTools (command : Text) : List Text :=
  (((installArguments command).map (Text.before '=')).filter buildTools.contains).eraseDups

end LayerLint
