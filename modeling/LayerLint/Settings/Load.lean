import LayerLint.FileTree
import LayerLint.Log
import LayerLint.Settings

/-!
# Loading settings

A settings file named by the user has to load. Otherwise the nearest file that can be used counts;
those that cannot are passed over with a warning, and without any the defaults hold.
-/

namespace LayerLint

/-- Why a settings file cannot be used. -/
inductive SettingsFault where
  | unreadable (path : Text) (fault : ReadFault)
  | malformed (path : Text)
  deriving DecidableEq, Repr

namespace SettingsFault

def message : SettingsFault → Text
  | .unreadable path fault => Text.concat ["Failed to read config file ", path, ": ", fault.message]
  | .malformed path => Text.concat ["Invalid config file ", path]

/-- The message followed by that of its cause. -/
def fullMessage (f : SettingsFault) : Text :=
  match f with
  | .unreadable _ fault => Text.concat [f.message, ": ", fault.message]
  | .malformed _ => f.message

end SettingsFault

namespace Settings

/-- The settings of a file with the given content. -/
def ofContent (path : Text) : Except ReadFault Text → Except SettingsFault Settings
  | .error fault => .error (.unreadable path fault)
  | .ok t =>
    match parse? t with
    | some s => .ok s
    | none => .error (.malformed path)

def ignoredEvent (f : SettingsFault) : Event := ⟨.warn, Text.concat ["ignoring ", f.message]⟩

/-- The settings of the first file that can be used, with a warning for each one before it. -/
def ofCandidates : List (Text × Except ReadFault Text) → Settings × List Event
  | [] => ({}, [])
  | (path, content) :: rest =>
    match ofContent path content with
    | .ok s => (s, [])
    | .error fault =>
      let (s, events) := ofCandidates rest
      (s, ignoredEvent fault :: events)

end Settings

end LayerLint
