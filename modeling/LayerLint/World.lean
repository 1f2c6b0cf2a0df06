import LayerLint.Settings.Load

/-!
# What a run sees of the world

The files that it may name, the settings files that exist, and whether colours may be written.
-/

namespace LayerLint

structure World where
  /-- The text of the file at a path. -/
  read : Text → Except ReadFault Text
  /-- The settings files that exist, the nearest first, with their content. -/
  settingsFiles : List (Text × Except ReadFault Text)
  /-- Whether the output may hold colours. -/
  allowsColours : Bool

namespace World

/-- A variable of the environment is on when it is set to anything but zero. -/
def isOn (value : Text) : Bool := value ≠ ['0']

/-- Whether colours may be written: `force` decides first, then `never`; otherwise they may on a
terminal, unless `wanted` is off. -/
def coloursAllowed (force never wanted : Option Text) (onTerminal : Bool) : Bool :=
  if force.any isOn then true
  else if never.isSome then false
  else wanted.all isOn && onTerminal

/-- A settings file in a directory, if it exists. -/
def settingsFileIn (directory : FileTree) : List (Text × Except ReadFault Text) :=
  if directory.holds Settings.fileName then
    [(Settings.fileName, directory.read Settings.fileName)]
  else []

/-- The world of a working directory and a home directory. -/
def ofTrees (work home : FileTree) (allowsColours : Bool) : World where
  read := work.read
  settingsFiles := settingsFileIn work ++ settingsFileIn home
  allowsColours := allowsColours

/-- The settings, from the file at `path` if one is named. -/
def settings (w : World) (path : Option Text) : Except SettingsFault (Settings × List Event) :=
  match path with
  | some path => (Settings.ofContent path (w.read path)).map (·, [])
  | none => .ok (Settings.ofCandidates w.settingsFiles)

end World

end LayerLint
