/-!
Paths of files as texts: names with slashes between them. `join` goes down to a name, `parent?`
goes up from the last name, `steps` are the names in the order in which they are followed, and
`flattened` are those that remain when every step up takes back the name before it.
-/
namespace PolicyProbe.Path

/-- The path of a file in a directory. -/
def join (directory name : String) : String :=
  if directory.toList.getLast?.all (· == '/') then directory ++ name else directory ++ "/" ++ name

/-- A path from its end, without the slashes and the points that stand for the directory itself
there; a slash that is all remains. -/
def trimmed : List Char → List Char
  | ['/'] => ['/']
  | '/' :: rest => trimmed rest
  | '.' :: '/' :: rest => trimmed ('/' :: rest)
  | text => text

/-- The path of the directory in which a path is; the root is in none. -/
def parent? (path : String) : Option String :=
  match trimmed path.toList.reverse with
  | [] => none
  | ['/'] => none
  | text => some (String.ofList (trimmed (text.dropWhile (· != '/'))).reverse)

/-- The texts between slashes. -/
def segments : List Char → List (List Char)
  | [] => [[]]
  | c :: rest =>
    match segments rest with
    | [] => [[c]]
    | name :: names => if c = '/' then [] :: name :: names else (c :: name) :: names

/-- The names of a path in order; an empty name stands for the directory itself, like a point. -/
def steps (path : String) : List String := (segments path.toList).map String.ofList

/-- Whether a name stands for the directory itself. -/
def stays (name : String) : Bool := name.isEmpty || name == "."

/-- Whether a name stands for the directory above. -/
def climbs (name : String) : Bool := name == ".."

/-- The names of a path without steps that stay, every step up taking back the name before it. -/
def flattened (path : String) : List String :=
  (steps path).foldl (fun place name =>
    if stays name then place else if climbs name then place.dropLast else place ++ [name]) []

end PolicyProbe.Path
