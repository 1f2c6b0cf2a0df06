import LayerLint.Command.Phrase

/-!
# Package managers

The managers in the order in which they are looked for, with the phrases that install packages and
those that refresh the package index.
-/

namespace LayerLint

inductive PackageManager where
  | apt | yum | apk | npm | pip
  deriving DecidableEq, Repr

namespace PackageManager

def all : List PackageManager := [.apt, .yum, .apk, .npm, .pip]

/-- The name used in messages. -/
def command : PackageManager → Text
  | .apt => "apt-get"
  | .yum => "yum"
  | .apk => "apk"
  | .npm => "npm"
  | .pip => "pip"

/-- What keeps the package cache out of the layer. -/
def cleanupHint : PackageManager → Text
  | .apt => "rm -rf /var/lib/apt/lists/*"
  | .yum => "yum clean all"
  | .apk => "--no-cache"
  | .npm => "npm cache clean --force"
  | .pip => "--no-cache-dir"

/-- Whether the hint is a flag of the install and not a step after it. -/
def hintIsFlag : PackageManager → Bool
  | .apk | .pip => true
  | .apt | .yum | .npm => false

def installPhrase : PackageManager → Phrase
  | .apt => { names := ["apt", "apt-get"], options := true, verbs := ["install"] }
  | .yum => { names := ["yum", "dnf", "microdnf"], options := true, verbs := ["install"] }
  | .apk => { names := ["apk"], options := true, verbs := ["add"] }
  | .npm => { names := ["npm"], options := false, verbs := ["install", "ci", "i"] }
  | .pip => { names := ["pip", "pip3"], options := false, verbs := ["install"] }

def updatePhrase? : PackageManager → Option Phrase
  | .apt => some { names := ["apt", "apt-get"], options := true, verbs := ["update"] }
  | .yum => some
      { names := ["yum", "dnf", "microdnf"], options := true, verbs := ["update", "makecache"] }
  | .apk => some { names := ["apk"], options := true, verbs := ["update"] }
  | .npm | .pip => none

/-- Whether a command installs packages with this manager. -/
def installsIn (m : PackageManager) (command : Text) : Bool := m.installPhrase.occursIn command

/-- Whether a command refreshes the index of this manager. -/
def updatesIn (m : PackageManager) (command : Text) : Bool :=
  m.updatePhrase?.any fun p => p.occursIn command

end PackageManager

/-- The managers with which a command installs. -/
def installManagers (command : Text) : List PackageManager :=
  PackageManager.all.filter fun m => m.installsIn command

/-- The managers whose index a command refreshes. -/
def updateManagers (command : Text) : List PackageManager :=
  PackageManager.all.filter fun m => m.updatesIn command

/-- A command cut behind its first install phrase. -/
def splitAtInstall? (m : PackageManager) (command : Text) : Option (Text × Text) :=
  (m.installPhrase.after? command).map fun rest =>
    (command.take (command.length - rest.length), rest)

/-- Where the first install phrase of a command ends, in bytes of UTF-8. -/
def installEnd? (m : PackageManager) (command : Text) : Option Nat :=
  (splitAtInstall? m command).map fun (upTo, _) => upTo.byteCount

end LayerLint
