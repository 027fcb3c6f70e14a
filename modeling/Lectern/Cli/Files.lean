-- The files of a system, each at its place: the names on the way from the
-- root. A path leads there from the root or from the working directory. Its
-- text is put into bytes before the system sees it, which not every text
-- can be. There are files and directories and nothing else, so that a
-- directory is left to the one that it stands in.
import Lectern.Text.Quoted
import Lectern.Text.Utf8

namespace Lectern.Cli

/-! ## Paths -/

/-- A path: how many slashes it starts with, and its parts. -/
structure Path where
  slashes : Nat
  parts : List Text
deriving DecidableEq

/-- The slash between the parts of a path. -/
def slash : CodePoint := '/'

/-- The part that stays in place. -/
def dot : Text := Text.ofString "."

/-- The part that leads out of a directory. -/
def dotDot : Text := Text.ofString ".."

namespace Path

/-- The parts of a text between slashes. -/
def split : Text → List Text
  | [] => [[]]
  | c :: rest =>
    match split rest with
    | part :: more => if c = slash then [] :: part :: more else (c :: part) :: more
    | [] => [[c]]

/-- The path that a text stands for. Two slashes at the start stay two, and
more of them count as one. -/
def ofText (t : Text) : Path where
  slashes :=
    match (t.takeWhile (· = slash)).length with
    | 0 => 0
    | 2 => 2
    | _ => 1
  parts := (split t).filter fun part => part ≠ [] ∧ part ≠ dot

/-- The text of a path. The path without parts is the directory itself. -/
def text (p : Path) : Text :=
  let start := List.replicate p.slashes slash
  if p.slashes = 0 ∧ p.parts = [] then dot
  else start ++ Text.joinWith [slash] p.parts

end Path

/-! ## Names -/

/-- A name in a directory. -/
abbrev Name := List UInt8

/-- A place among the files: the names on the way from the root. -/
abbrev Location := List Name

/-- Why a path cannot be handed to the system. -/
inductive PathFault
  /-- There are surrogates in it that stand for no bytes. -/
  | unwritable (run : Utf8.Unwritable)
  | nullByte
deriving DecidableEq

namespace Path

/-- The byte that a surrogate stands for in a name. -/
def escapedByte? (c : CodePoint) : Option UInt8 :=
  if 0xDC80 ≤ c.val ∧ c.val ≤ 0xDCFF then some (UInt8.ofNat (c.val - 0xDC00)) else none

/-- The bytes of a code point in a name. -/
def bytesOf (c : CodePoint) : List UInt8 :=
  match escapedByte? c with
  | some b => [b]
  | none => (Utf8.bytes? c).getD []

/-- The bytes of a text in a path. -/
def bytes (t : Text) : List UInt8 := t.flatMap bytesOf

/-- The code point stands for bytes in a name. -/
def isWritable (c : CodePoint) : Bool := !c.isSurrogate || (escapedByte? c).isSome

/-- Why the path cannot be handed to the system, if it cannot. Of a run of
surrogates the part that stands for bytes is not at fault. -/
def fault? (p : Path) : Option PathFault :=
  match p.text.dropWhile isWritable with
  | c :: rest =>
    let length := 1 + (rest.takeWhile (·.isSurrogate)).length
    some (.unwritable ⟨(p.text.takeWhile isWritable).length, c, length⟩)
  | [] => if 0 ∈ bytes p.text then some .nullByte else none

/-- The names on the way that the path leads. -/
def names (p : Path) : List Name := p.parts.map bytes

end Path

/-! ## Files -/

/-- The files of a system, and the directories: those listed, and those that
lead to the working directory, to a listed one or to a file. -/
structure Files where
  /-- The working directory. -/
  here : Location
  contents : List (Location × List UInt8)
  directories : List Location
  /-- Files that may not be read. -/
  unreadable : List Location
  /-- Files that may not be written, and directories in which no file may be
  made. -/
  unwritable : List Location
deriving DecidableEq

/-- Why a file cannot be opened. -/
inductive FileFault
  | missing (path : Path)
  | directory (path : Path)
  /-- A part of the path is a file. -/
  | notDirectory (path : Path)
  | denied (path : Path)
  | nameTooLong (path : Path)
deriving DecidableEq

/-- A fault in words. -/
def FileFault.message : FileFault → Text
  | .missing path => Text.ofString "[Errno 2] No such file or directory: " ++ path.text.quoted
  | .denied path => Text.ofString "[Errno 13] Permission denied: " ++ path.text.quoted
  | .notDirectory path => Text.ofString "[Errno 20] Not a directory: " ++ path.text.quoted
  | .directory path => Text.ofString "[Errno 21] Is a directory: " ++ path.text.quoted
  | .nameTooLong path => Text.ofString "[Errno 36] File name too long: " ++ path.text.quoted

/-- Why nothing is opened: the path is no path, or the system refuses. -/
inductive OpenFault
  | path (fault : PathFault)
  | file (fault : FileFault)
deriving DecidableEq

/-- What stands at a place. -/
inductive Entry
  | file (bytes : List UInt8)
  | directory
  /-- Nothing, in a directory. -/
  | free
  /-- Nothing, and there is no directory either. -/
  | missing
  /-- Nothing, for a part of the path is a file. -/
  | blocked
  /-- Nothing, for a name on the way is too long. -/
  | tooLong

/-- How many bytes a name may have. -/
def nameLimit : Nat := 255

/-- How many bytes a path may have. -/
def pathLimit : Nat := 4095

namespace Files

/-- The bytes of the file at a place. -/
def bytesAt? (files : Files) (place : Location) : Option (List UInt8) := files.contents.lookup place

/-- A directory stands at a place. -/
def isDirectory (files : Files) (place : Location) : Bool :=
  place.isPrefixOf files.here || files.directories.any (place.isPrefixOf ·)
    || files.contents.any fun f => place.isPrefixOf f.1

/-- What stands at a place. -/
def entry (files : Files) (place : Location) : Entry :=
  match files.bytesAt? place with
  | some bytes => .file bytes
  | none => if files.isDirectory place then .directory else .missing

/-- What stands at the end of a way through directories, and its place. The
root is left to itself. -/
def follow (files : Files) (place : Location) : List Name → Entry × Location
  | [] => (files.entry place, place)
  | name :: rest =>
    match files.entry place with
    | .directory =>
      if name = Path.bytes dotDot then follow files place.dropLast rest
      else if nameLimit < name.length then (.tooLong, place)
      else
        match files.entry (place ++ [name]), rest with
        | .missing, [] => (.free, place ++ [name])
        | _, _ => follow files (place ++ [name]) rest
    | .file _ => (.blocked, place)
    | _ => (.missing, place)

/-- What stands at a path, and its place. -/
def find (files : Files) (path : Path) : Entry × Location :=
  if pathLimit < (Path.bytes path.text).length then (.tooLong, [])
  else files.follow (if path.slashes = 0 then files.here else []) path.names

/-- The bytes of a file that is read. -/
def read (files : Files) (path : Path) : Except OpenFault (List UInt8) :=
  match path.fault? with
  | some fault => .error (.path fault)
  | none =>
    match files.find path with
    | (.file bytes, place) =>
      if place ∈ files.unreadable then .error (.file (.denied path)) else .ok bytes
    | (.directory, _) => .error (.file (.directory path))
    | (.free, _) | (.missing, _) => .error (.file (.missing path))
    | (.blocked, _) => .error (.file (.notDirectory path))
    | (.tooLong, _) => .error (.file (.nameTooLong path))

/-- The place at which a path can be written, whether a file is there or not. -/
def target (files : Files) (path : Path) : Except OpenFault Location :=
  match path.fault? with
  | some fault => .error (.path fault)
  | none =>
    match files.find path with
    | (.file _, place) =>
      if place ∈ files.unwritable then .error (.file (.denied path)) else .ok place
    | (.free, place) =>
      if place.dropLast ∈ files.unwritable then .error (.file (.denied path)) else .ok place
    | (.directory, _) => .error (.file (.directory path))
    | (.missing, _) => .error (.file (.missing path))
    | (.blocked, _) => .error (.file (.notDirectory path))
    | (.tooLong, _) => .error (.file (.nameTooLong path))

/-! ### Reading -/

theorem bytesAt?_of_entry {files : Files} {place : Location} {bytes : List UInt8}
    (h : files.entry place = .file bytes) : files.bytesAt? place = some bytes := by
  unfold entry at h
  split at h
  · cases h
    assumption
  · split at h <;> cases h

/-- A file at the end of a way stands at the place that the way leads to. -/
theorem bytesAt?_of_follow {files : Files} {place : Location} {names : List Name}
    {found : Location} {bytes : List UInt8}
    (h : files.follow place names = (.file bytes, found)) : files.bytesAt? found = some bytes := by
  fun_induction follow files place names with
  | case1 place =>
    obtain ⟨hentry, rfl⟩ := Prod.mk.inj h
    exact bytesAt?_of_entry hentry
  | case2 _ _ _ ih => exact ih h
  | case3 => cases h
  | case4 => cases h
  | case5 _ _ _ _ _ _ _ ih => exact ih h
  | case6 => cases h
  | case7 => cases h

theorem bytesAt?_of_find {files : Files} {path : Path} {place : Location} {bytes : List UInt8}
    (h : files.find path = (.file bytes, place)) : files.bytesAt? place = some bytes := by
  unfold find at h
  split at h
  · cases h
  · exact bytesAt?_of_follow h

/-- A file is read if it is found and may be read. -/
theorem read_eq_ok {files : Files} {path : Path} {bytes : List UInt8} :
    files.read path = .ok bytes ↔ path.fault? = none ∧
      ∃ place, files.find path = (.file bytes, place) ∧ place ∉ files.unreadable := by
  unfold read
  cases path.fault? with
  | some fault => simp
  | none =>
    cases files.find path with
    | mk entry place =>
      cases entry with
      | file content => by_cases hp : place ∈ files.unreadable <;> simp [hp, and_assoc, eq_comm]
      | directory | free | missing | blocked | tooLong => simp

/-! ### Writing -/

/-- Bytes put at a place among files. A file that is there
keeps its turn. -/
def putIn : List (Location × List UInt8) → Location → List UInt8 → List (Location × List UInt8)
  | [], place, bytes => [(place, bytes)]
  | (p, b) :: rest, place, bytes =>
    if p = place then (p, bytes) :: rest else (p, b) :: putIn rest place bytes

/-- Puts bytes at a place. -/
def put (files : Files) (place : Location) (bytes : List UInt8) : Files :=
  { files with contents := putIn files.contents place bytes }

theorem bytesAt?_put_self (files : Files) (place : Location) (bytes : List UInt8) :
    (files.put place bytes).bytesAt? place = some bytes := by
  simp only [bytesAt?, put]
  induction files.contents with
  | nil => simp [putIn]
  | cons f contents ih =>
    obtain ⟨p, b⟩ := f
    by_cases h : p = place
    · simp [putIn, h]
    · have hp : (place == p) = false := by simpa using fun e => h e.symm
      simp [putIn, h, List.lookup_cons, hp, ih]

/-- To write a file leaves the other files alone. -/
theorem bytesAt?_put_other (files : Files) {place other : Location} (bytes : List UInt8)
    (h : other ≠ place) : (files.put place bytes).bytesAt? other = files.bytesAt? other := by
  simp only [bytesAt?, put]
  induction files.contents with
  | nil =>
    have hp : (other == place) = false := by simpa using h
    simp [putIn, List.lookup_cons, hp]
  | cons f contents ih =>
    obtain ⟨p, b⟩ := f
    by_cases hp : p = place
    · subst hp
      have ho : (other == p) = false := by simpa using h
      simp [putIn, List.lookup_cons, ho]
    · simp [putIn, hp, List.lookup_cons, ih]

/-- Of two writes to one file the second stays. -/
theorem put_put (files : Files) (place : Location) (first second : List UInt8) :
    (files.put place first).put place second = files.put place second := by
  have h : putIn (putIn files.contents place first) place second =
      putIn files.contents place second := by
    induction files.contents with
    | nil => simp [putIn]
    | cons f contents ih =>
      obtain ⟨p, b⟩ := f
      by_cases h : p = place
      · simp [putIn, h]
      · simp [putIn, h, ih]
  simp only [put, h]

end Files

end Lectern.Cli
