import ChipEight.Yaml.Lexer
import ChipEight.Yaml.Node

/-!
# ChipEight.Yaml.Parser — the document of a list of pieces

The reader of a node takes its pieces off the front.  The readers are bounded by a number of steps
that no list of that length can use up.

Named nodes are numbered by how many names are known when the node begins, and a number stands for
the node that got it last.  So a name given twice may share its number with the next new name.
-/

namespace ChipEight.Yaml

/-- The names of nodes. -/
structure Names where
  /-- The number that each name stands for. -/
  numbers : List (String × Nat) := []
  /-- Which named node has a number, in the order of their begins, latest first. -/
  given : List (Nat × Nat) := []
  /-- The named nodes read so far, counted by their begins. -/
  nodes : List (Nat × Node) := []

namespace Names

/-- A named node begins. -/
def begin (names : Names) (name : String) : Names :=
  let number := names.numbers.length
  { names with
    numbers :=
      if names.numbers.any fun p => p.1 == name then
        names.numbers.map fun p => if p.1 == name then (name, number) else p
      else (name, number) :: names.numbers
    given := (number, names.given.length) :: names.given }

/-- The named nodes by number. -/
def table (names : Names) : List (Nat × Node) :=
  names.given.filterMap fun p => (names.nodes.lookup p.2).map fun n => (p.1, n)

end Names

/-- What is left of a document, and what is known of it. -/
structure Progress where
  pieces : List Piece
  names : Names := {}
  /-- What each handle of a tag stands for. -/
  handles : List (String × Tag) := []

/-- A reader of pieces. -/
abbrev Reading := StateT Progress (Except Flaw)

namespace Reading

/-- The next token. -/
def peek : Reading (Option Token) := do return (← get).pieces.head?.map Piece.token

/-- The next token is taken. -/
def skip : Reading Unit := modify fun p => { p with pieces := p.pieces.tail }

/-- The next token cannot stand where it does. -/
def unexpected : Reading α := do
  match (← get).pieces with
  | [] => throw .unfinished
  | piece :: _ => throw (.unexpected piece.line)

/-- A given token is taken. -/
def expect (t : Token) : Reading Unit := do
  if (← peek) = some t then skip else unexpected

/-- What is said of a node in front of it. -/
structure Properties where
  anchor : Option String := none
  tag : Option Tag := none

/-- A tag written with a handle. -/
def resolveTag (handle : String) (suffix : Tag) : Reading Tag := do
  if handle = "" then return suffix
  match (← get).handles.lookup handle with
  | some beginning => return beginning ++ suffix
  | none => throw (.handle handle)

/-- The name and the tag in front of a node, in either order. -/
def properties : Reading Properties := do
  match ← peek with
  | some (.anchor name) =>
    skip
    match ← peek with
    | some (.tag handle suffix) =>
      skip
      return ⟨some name, some (← resolveTag handle suffix)⟩
    | _ => return ⟨some name, none⟩
  | some (.tag handle suffix) =>
    skip
    let tag ← resolveTag handle suffix
    match ← peek with
    | some (.anchor name) =>
      skip
      return ⟨some name, some tag⟩
    | _ => return ⟨none, some tag⟩
  | _ => return {}

/-- A node that may have a name is read. -/
def named (p : Properties) (read : Reading Node) : Reading Node := do
  match p.anchor with
  | none => read
  | some name =>
    let serial := (← get).names.given.length
    modify fun s => { s with names := s.names.begin name }
    let n ← read
    modify fun s => { s with names := { s.names with nodes := (serial, n) :: s.names.nodes } }
    return n

/-- The node that a name stands for. -/
def reference (name : String) : Reading Node := do
  match (← get).names.numbers.lookup name with
  | some number => return .alias number
  | none => throw (.anchor name)

/-- A node, or nothing if one of the given tokens comes next. -/
def orNothing (ends : Token → Bool) (read : Reading Node) : Reading Node := do
  match ← peek with
  | some t => if ends t then return .empty else read
  | none => read

/-- A token that ends the place of a key or a value outside of brackets. -/
def endsBlockPart (t : Token) : Bool := t = .key || t = .value || t = .blockEnd

/-- A token that ends the place of an item outside of brackets. -/
def endsItem (t : Token) : Bool := t = .item || t = .blockEnd

mutual

/-- A node.  Collections by columns are let in if `block` says so, and a sequence that is not
deeper than the mapping around it if `level` says so. -/
def node : Nat → Bool → Bool → Reading Node
  | 0, _, _ => unexpected
  | k + 1, block, level => do
    match ← peek with
    | some (.alias name) =>
      skip
      reference name
    | _ =>
      let p ← properties
      named p (content k block level p)

/-- A node from behind its properties on.  With properties it may be nothing. -/
def content : Nat → Bool → Bool → Properties → Reading Node
  | 0, _, _, _ => unexpected
  | k + 1, block, level, p => do
    let t ← peek
    match t with
    | some (.scalar style text) =>
      skip
      return .scalar style p.tag text
    | some .flowSequence =>
      skip
      return .sequence (← flowItems k true)
    | some .flowMapping =>
      skip
      return .mapping (← flowEntries k true)
    | _ =>
      if t = some .item && level then return .sequence (← levelItems k)
      else if t = some .blockSequence && block then
        skip
        return .sequence (← blockItems k)
      else if t = some .blockMapping && block then
        skip
        return .mapping (← blockEntries k)
      else if p.anchor.isSome || p.tag.isSome then return .scalar .plain p.tag ""
      else unexpected

/-- The items of a sequence by columns. -/
def blockItems : Nat → Reading (List Node)
  | 0 => unexpected
  | k + 1 => do
    match ← peek with
    | some .item =>
      skip
      let n ← orNothing endsItem (node k true false)
      return n :: (← blockItems k)
    | some .blockEnd =>
      skip
      return []
    | _ => unexpected

/-- The items of a sequence that is not deeper than the mapping around it. -/
def levelItems : Nat → Reading (List Node)
  | 0 => unexpected
  | k + 1 => do
    match ← peek with
    | some .item =>
      skip
      let n ← orNothing (fun t => t = .item || endsBlockPart t) (node k true false)
      return n :: (← levelItems k)
    | _ => return []

/-- The entries of a mapping by columns. -/
def blockEntries : Nat → Reading (List (Node × Node))
  | 0 => unexpected
  | k + 1 => do
    match ← peek with
    | some .key =>
      skip
      let key ← orNothing endsBlockPart (node k true true)
      let value ←
        if (← peek) = some .value then
          skip
          orNothing endsBlockPart (node k true true)
        else pure .empty
      return (key, value) :: (← blockEntries k)
    | some .blockEnd =>
      skip
      return []
    | _ => unexpected

/-- The items of a sequence in brackets; all but the first are behind a comma. -/
def flowItems : Nat → Bool → Reading (List Node)
  | 0, _ => unexpected
  | k + 1, first => do
    if (← peek) = some .flowSequenceEnd then
      skip
      return []
    if !first then expect .comma
    match ← peek with
    | some .flowSequenceEnd =>
      skip
      return []
    | some .key =>
      skip
      let entry ← flowPair k
      return .mapping [entry] :: (← flowItems k false)
    | _ =>
      let n ← node k false false
      return n :: (← flowItems k false)

/-- A key and its value as an item in brackets.  Where the key is left out, the token in its place
is taken along, so a colon there parts nothing. -/
def flowPair : Nat → Reading (Node × Node)
  | 0 => unexpected
  | k + 1 => do
    let ends (t : Token) : Bool := t = .comma || t = .flowSequenceEnd
    let t ← peek
    let key ←
      if t.any fun t => t = .value || ends t then
        skip
        pure .empty
      else node k false false
    let value ←
      if (← peek) = some .value then
        skip
        orNothing ends (node k false false)
      else pure .empty
    return (key, value)

/-- The entries of a mapping in brackets; all but the first are behind a comma. -/
def flowEntries : Nat → Bool → Reading (List (Node × Node))
  | 0, _ => unexpected
  | k + 1, first => do
    let ends (t : Token) : Bool := t = .comma || t = .flowMappingEnd
    if (← peek) = some .flowMappingEnd then
      skip
      return []
    if !first then expect .comma
    match ← peek with
    | some .flowMappingEnd =>
      skip
      return []
    | some .key =>
      skip
      let key ← orNothing (fun t => t = .value || ends t) (node k false false)
      let value ←
        if (← peek) = some .value then
          skip
          orNothing ends (node k false false)
        else pure .empty
      return (key, value) :: (← flowEntries k false)
    | _ =>
      let key ← node k false false
      return (key, .empty) :: (← flowEntries k false)

end

/-! ### Documents -/

/-- What the handles of tags stand for when nothing is said. -/
def standardHandles : List (String × Tag) :=
  [("!", "!".toList.map byteOf), ("!!", "tag:yaml.org,2002:".toList.map byteOf)]

/-- The directives in front of a document, each given once; `version` tells that the version was
given. -/
def directives (version : Bool) (handles : List (String × Tag)) :
    List Piece → Except Flaw (List (String × Tag) × List Piece)
  | ⟨.version major minor, line⟩ :: rest =>
    if version || major ≠ 1 || (minor ≠ 1 && minor ≠ 2) then .error (.directive line)
    else directives true handles rest
  | ⟨.handle name beginning, line⟩ :: rest =>
    if (handles.lookup name).isSome then .error (.directive line)
    else directives version ((name, beginning) :: handles) rest
  | pieces => .ok (handles ++ standardHandles, pieces)

/-- A token that can only be outside of a document. -/
def isOutside : Token → Bool
  | .version _ _ | .handle _ _ | .documentStart | .documentEnd => true
  | _ => false

/-- The outermost node.  Behind directives the document has to be started by its mark. -/
def root (steps : Nat) (marked : Bool) : Reading Node := do
  let t ← peek
  if marked || t = some .documentStart then
    expect .documentStart
    match ← peek with
    | none => return .empty
    | some t => if isOutside t then return .empty else node steps true false
  else if t.isNone then return .empty
  else node steps true false

/-- Nothing but ends of documents is left. -/
def endOnly (pieces : List Piece) : Except Flaw Unit :=
  match pieces.dropWhile fun piece => piece.token = .documentEnd with
  | [] => .ok ()
  | piece :: _ => .error (if isOutside piece.token then .documents else .unexpected piece.line)

end Reading

/-- The one document of a list of pieces. -/
def Document.ofPieces (pieces : List Piece) : Except Flaw Document := do
  let (handles, rest) ← Reading.directives false [] pieces
  let marked := rest.length < pieces.length
  let (root, p) ← (Reading.root (4 * rest.length + 4) marked).run { pieces := rest, handles }
  Reading.endOnly p.pieces
  return ⟨root, p.names.table⟩

/-- The one document of a text. -/
def parse (text : String) : Except Flaw Document := do
  match text.toList.find? fun c => !isAllowed c with
  | some c => throw (.character c.toNat)
  | none => Document.ofPieces (← Piece.ofText (unifyLines text.toList))

end ChipEight.Yaml
