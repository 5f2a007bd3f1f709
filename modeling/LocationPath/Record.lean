import LocationPath.Path

/-! # Records

What is recorded when expressions are taken apart and paths are computed. An operation is recorded
when it has succeeded, after the operations that it is made of; a result that is a given path as it
is goes unrecorded.

Main definitions: `Record`, and for each operation the list of its records. -/

namespace LocationPath

/-- Which part of the library a record comes from. -/
inductive RecordSource where
  /-- Taking expressions apart. -/
  | decomposition
  /-- Computing with paths. -/
  | path
  deriving DecidableEq, Repr

/-- A record of an operation. -/
structure Record where
  /-- Where the record comes from. -/
  source : RecordSource
  /-- What happened. -/
  message : Text
  deriving DecidableEq

namespace Record

/-- The record of a text that has been taken apart. -/
def decomposed (text : Text) (info : PathInfo) : Record :=
  ⟨.decomposition, "Decomposed ".toList ++ text.quoted ++ " into ".toList ++ info.summary⟩

/-- The record of an operation on two texts and its result. -/
def computed (operation first second result : Text) : Record :=
  ⟨.path, operation ++ Text.between '(' ')' (first.quoted ++ [',', ' '] ++ second.quoted) ++
    [' ', '=', ' '] ++ result.quoted⟩

/-- The record of a result, if there is one. -/
def ofResult {α : Type} (record : α → Record) : Except PathError α → List Record
  | .ok result => [record result]
  | .error _ => []

/-- The records of a text that is taken apart by a given tree. -/
def ofDecomposition (tree : Node) (text : Text) : List Record :=
  ofResult (decomposed text) (PathInfo.ofNode tree text)

/-- The records of a text that is taken apart. -/
def ofParse (text : Text) : List Record := ofResult (decomposed text) (PathInfo.parse text)

/-- The records of two texts that are taken apart one after the other. -/
def ofBoth (first second : Text) : List Record :=
  match PathInfo.parse first with
  | .ok _ => ofParse first ++ ofParse second
  | .error _ => []

/-- The records of putting a path on an axis. -/
def ofAddAxis (axis path : Text) : List Record :=
  ofParse path ++ ofResult (computed "add_axis".toList axis path) (Path.addAxis axis path)

/-- The records of joining two paths. -/
def ofJoin (first second : Text) : List Record :=
  if first.isBlank || second.isBlank then []
  else ofBoth first second ++
    ofResult (computed "join".toList first second) (Path.join first second)

/-- The records of a path that is put in a context. -/
def ofContextualize (context path : Text) : List Record :=
  if context.isEmpty then []
  else ofBoth context path ++
    ofResult (computed "contextualize".toList context path) (Path.contextualize context path)

end Record

end LocationPath
