/-!
# Directories of files

The command reads one file and may write another. A directory is a list of files, each with the
names that lead to it and its bytes; the directories on the way exist with it.

* `Directory.place` says what a path leads to;
* `Directory.read?` and `Directory.write` read and write the file that a path leads to.

Main statement: `Directory.lookup_enter`, what was entered is found.
-/

namespace ClosureML

/-! ## 1. Files -/

/-- The names that lead to a file from the working directory. -/
abbrev Route := List String

/-- The files below the working directory. -/
structure Directory where
  files : List (Route × ByteArray)

namespace Directory

/-- The contents of the file at the end of a route. -/
def lookup (d : Directory) (route : Route) : Option ByteArray := d.files.lookup route

/-- The route that begins at the root of all directories. -/
def root : Route := ["/"]

/-- The route to the directory of devices, which every system has. -/
def devices : Route := root ++ ["dev"]

/-- Does a route lead to a directory? It does when a file lies below it, or the devices. -/
def hasDirectory (d : Directory) (route : Route) : Bool :=
  route = devices || d.files.any fun (name, _) => route.isPrefixOf name && name ≠ route

/-- The directory in which the file at the end of a route has the given contents. -/
def enter (d : Directory) (route : Route) (contents : ByteArray) : Directory :=
  ⟨(route, contents) :: d.files.filter fun (name, _) => name ≠ route⟩

theorem lookup_enter (d : Directory) (route : Route) (contents : ByteArray) :
    (d.enter route contents).lookup route = some contents := by
  simp [enter, lookup]

/-! ## 2. Paths -/

/-- Why a path leads to no file that can be read or written. -/
inductive PathError where
  | isDirectory
  | notADirectory
  | noSuchDirectory
  | nameTooLong
  deriving DecidableEq, Repr

/-- The wording of an error. -/
def PathError.message : PathError → String
  | isDirectory => "Is a directory (os error 21)"
  | notADirectory => "Not a directory (os error 20)"
  | noSuchDirectory => "No such file or directory (os error 2)"
  | nameTooLong => "File name too long (os error 36)"

/-- The number of bytes that a name may have. -/
def longestName : Nat := 255

/-- The number of bytes that a path may have. -/
def longestPath : Nat := 4095

/-- What a path leads to: a file; a directory; the null device, where all that is written is gone;
    nothing yet, in a directory that exists; or nothing at all, because its last name is too long.
    Behind a name that is no directory it leads nowhere, for a reason: either only slashes stand
    there (`slashBehind`) or more names (`nowhere`). -/
inductive Place where
  | file (route : Route)
  | directory (route : Route)
  | nullDevice
  | absent (route : Route)
  | tooLong
  | slashBehind (reason : PathError)
  | nowhere (reason : PathError)
  deriving DecidableEq, Repr

/-- The route to the directory around the one at the end of a route. Around the root there is only
    the root. -/
def parent (route : Route) : Route :=
  if route = root then root
  else if route.isEmpty ∨ route.getLast? = some ".." then route ++ [".."]
  else route.dropLast

/-- What a name in a directory leads to. The names `.` and the empty one stay in the directory,
    `..` leads to the one around it. -/
def step (d : Directory) (route : Route) (name : String) : Place :=
  if name = "" ∨ name = "." then .directory route
  else if name = ".." then .directory (parent route)
  else if longestName < name.utf8ByteSize then .tooLong
  else
    let next := route ++ [name]
    if next = devices ++ ["null"] then .nullDevice
    else if (d.lookup next).isSome then .file next
    else if d.hasDirectory next then .directory next
    else .absent next

/-- Where a path leads that goes on with a name behind something that is no directory. -/
def Place.beyond (reason : PathError) (name : String) : Place :=
  if name = "" then .slashBehind reason else .nowhere reason

/-- What a name leads to from a place. -/
def follow (d : Directory) : Place → String → Place
  | .directory route, name => d.step route name
  | .file _, name | .nullDevice, name => .beyond .notADirectory name
  | .absent _, name => .beyond .noSuchDirectory name
  | .tooLong, name => .beyond .nameTooLong name
  | .slashBehind reason, name => .beyond reason name
  | .nowhere reason, _ => .nowhere reason

/-- What a path leads to from the working directory; a path that begins with a slash leads away
    from it. -/
def place (d : Directory) (path : String) : Place :=
  if longestPath < path.utf8ByteSize then .nowhere .nameTooLong
  else
    let start := if path.toList.head? = some '/' then root else []
    (path.splitOn "/").foldl d.follow (.directory start)

/-! ## 3. Reading and writing -/

/-- The contents of the file that a path leads to, if it leads to one. -/
def read? (d : Directory) (path : String) : Option ByteArray :=
  match d.place path with
  | .file route => d.lookup route
  | _ => none

/-- The directory after a file was written; an old one is replaced. -/
def write (d : Directory) (path : String) (contents : ByteArray) : Except PathError Directory :=
  match d.place path with
  | .file route | .absent route => .ok (d.enter route contents)
  | .nullDevice => .ok d
  | .directory _ | .slashBehind _ => .error .isDirectory
  | .tooLong => .error .nameTooLong
  | .nowhere reason => .error reason

/-- The directory with files of the given paths. -/
def ofFiles (files : List (String × ByteArray)) : Directory :=
  let routeOf (path : String) : Route := (path.splitOn "/").filter (· ≠ "")
  files.foldl (fun d (path, contents) => d.enter (routeOf path) contents) ⟨[]⟩

end Directory

end ClosureML
