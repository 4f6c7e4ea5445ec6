import LatteHlsl.Settings.Basic

/-!
# The log file

Whether the log file that settings ask for can be made. Paths lead through a tree of files, from
its root or from the directory for logs, which is empty.

* `FileTree.create`: what making a file at a path comes to.
* `LoggingSettings.openLog`: the same for the log.
-/

namespace LatteHlsl

/-! ## Places -/

/-- A place in a tree of files: the names on the way from the root to it. -/
abbrev FileTree.Place := List String

/-- What is there before a file is made. -/
structure FileTree where
  directories : List FileTree.Place
  /-- Devices take what is written to them and are not files. -/
  devices : List FileTree.Place
deriving DecidableEq

/-- What making a file came to. -/
inductive Creation where
  | file
  /-- A device was opened instead. -/
  | device
  | refused
deriving DecidableEq

/-- The longest name in bytes. -/
def fileNameLimit : Nat := 255

/-- The longest path in bytes, counted from the root. -/
def pathLimit : Nat := 4095

namespace FileTree

/-- The path from the root to a place. -/
def Place.path (p : Place) : String := String.join (p.map ("/" ++ ·))

/-- The directory that a part of a path leads to. -/
def enter (t : FileTree) (p : Place) (part : String) : Option Place :=
  if part = "" ∨ part = "." then some p
  else if part = ".." then some p.dropLast
  else if p ++ [part] ∈ t.directories then some (p ++ [part])
  else none

/-- Make a file in the directory `p`. -/
def createIn (t : FileTree) (p : Place) (name : String) : Creation :=
  if name ∈ ["", ".", ".."] ∨ p ++ [name] ∈ t.directories then .refused
  else if p ++ [name] ∈ t.devices then .device
  else if fileNameLimit < name.utf8ByteSize then .refused
  else .file

/-- Make a file at a path that starts at the root: every part but the last leads to a directory,
and the last names the file. -/
def createAt (t : FileTree) (path : String) : Creation :=
  let parts := path.splitOn "/"
  match parts.dropLast.foldlM t.enter [], parts.getLast? with
  | some p, some name => t.createIn p name
  | _, _ => .refused

/-- Make a file at a path that starts at the root or at the directory `p`. -/
def create (t : FileTree) (p : Place) (path : String) : Creation :=
  let full := if path.startsWith "/" then path else p.path ++ "/" ++ path
  if path.contains '\x00' ∨ pathLimit < full.utf8ByteSize then .refused else t.createAt full

end FileTree

/-! ## The log -/

/-- The directory for logs. -/
def logDirectory : FileTree.Place := ["tmp", "latte-shader"]

/-- The directories and devices that every system has. -/
def systemTree : FileTree where
  directories :=
    [[], ["bin"], ["boot"], ["dev"], ["etc"], ["home"], ["lib"], ["media"], ["mnt"], ["opt"],
     ["proc"], ["root"], ["run"], ["sbin"], ["srv"], ["sys"], ["tmp"], ["usr"], ["var"],
     logDirectory]
  devices := [["dev", "full"], ["dev", "null"], ["dev", "zero"]]

/-- What opening the log came to. -/
structure LogOpening where
  fault : Option SettingsFault := none
  /-- Whether the log file exists afterwards. -/
  fileExists : Bool := false
deriving DecidableEq

/-- Open the log. A file is made only if the settings ask for one. -/
def LoggingSettings.openLog (s : LoggingSettings) : LogOpening :=
  if !s.logToFile then {}
  else
    match systemTree.create logDirectory s.logPath with
    | .file => { fileExists := true }
    | .device => {}
    | .refused => { fault := some .io }

end LatteHlsl
