/-!
# A directory with files

The contents of a working directory as a value: files with their texts, some of
them in subdirectories. Paths are relative and are followed name by name, so a
path through a subdirectory and back needs that subdirectory to be there.
-/

namespace UntypedLambda

/-- Files by the names on the way to them. -/
structure Directory where
  files : List (List String × String)

namespace Directory

/-- The parts of a path between its slashes. There is always at least one. -/
def parts : List Char → List (List Char)
  | [] => [[]]
  | '/' :: rest => [] :: parts rest
  | c :: rest =>
    match parts rest with
    | [] => [[c]]
    | part :: others => (c :: part) :: others

/-- The names on a path, in order. Some of them may lead nowhere. -/
def steps (path : String) : List String :=
  (parts path.toList).map String.ofList

/-- The directory that contains files at the given paths. -/
def ofList (files : List (String × String)) : Directory :=
  ⟨files.map fun (path, text) => ((steps path).filter fun name => name ≠ "" && name ≠ ".", text)⟩

/-- Whether there is a subdirectory at a place. There is one exactly if some
    file is in it. The directory itself counts. -/
def hasSubdirectory (directory : Directory) (place : List String) : Bool :=
  place = [] || directory.files.any fun (names, _) =>
    place.length < names.length && place.isPrefixOf names

/-- Follow names from a place to a file. There is no way above the directory,
    and the last name is that of the file. -/
def follow (directory : Directory) (place : List String) : List String → Option String
  | [] => none
  | [name] => directory.files.lookup (place ++ [name])
  | name :: rest =>
    let next := if name = "" ∨ name = "." then some place
      else if name = ".." then (if place = [] then none else some place.dropLast)
      else some (place ++ [name])
    next.bind fun place =>
      if directory.hasSubdirectory place then directory.follow place rest else none

/-- The text of the file at a path, if there is one. A path that begins with a
    slash leads elsewhere. -/
def read (directory : Directory) (path : String) : Option String :=
  match steps path with
  | "" :: _ => none
  | names => directory.follow [] names

end Directory

end UntypedLambda
