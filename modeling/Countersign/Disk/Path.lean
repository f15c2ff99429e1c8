/-! Paths as texts. Joining keeps both sides as they are written; only taking the parent drops
separators and single dots at the end. -/

namespace Countersign.Path

def isAbsolute (path : String) : Bool :=
  match path.toList with
  | '/' :: _ => true
  | _ => false

/-- `path` as seen from `base`; an absolute path stays what it is. -/
def join (base path : String) : String :=
  if isAbsolute path || base.isEmpty then path
  else
    match base.toList.getLast? with
    | some '/' => base ++ path
    | _ => base ++ "/" ++ path

/-- Drops separators and single dots from the front of a reversed path. -/
def dropEnd : List Char → List Char
  | ['/'] => ['/']
  | '/' :: rest => dropEnd rest
  | '.' :: '/' :: rest => dropEnd ('/' :: rest)
  | rest => rest

/-- The directory that a path names an entry of, unless it is empty or a root. -/
def parent? (path : String) : Option String :=
  match dropEnd path.toList.reverse with
  | [] => none
  | ['/'] => none
  | reversed => some (String.ofList (dropEnd (reversed.dropWhile (· ≠ '/'))).reverse)

/-- The parent, unless it is written as the empty path. -/
def directory? (path : String) : Option String :=
  match parent? path with
  | some "" => none
  | other => other

/-- The names between the separators. -/
def names (path : String) : List String := (splitNames path.toList).map String.ofList
where
  splitNames : List Char → List (List Char)
    | [] => [[]]
    | c :: rest =>
      if c = '/' then [] :: splitNames rest
      else
        match splitNames rest with
        | [] => [[c]]
        | name :: more => (c :: name) :: more

end Countersign.Path
