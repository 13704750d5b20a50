import LangId.Yaml.Token

/-!
# YAML nodes

The tree of a document, read from its tokens. Aliases are replaced by the nodes that they name.
-/
namespace LangId.Yaml

/-- A node of a document. -/
inductive Node where
  /-- A scalar; a plain one without a tag is told by its text. -/
  | scalar (tag : Option String) (text : String) (plain : Bool)
  | sequence (tag : Option String) (items : List Node)
  | mapping (tag : Option String) (entries : List (Node × Node))
  deriving Repr

namespace Node

/-- What an empty place holds. -/
def nothing : Node := .scalar none "" true

/-- The state of reading: what is left of the tokens, and the anchors that have been set. -/
structure Source where
  tokens : List Token
  handles : List (String × String)
  anchors : List (String × Node) := []

/-- A reading of tokens. -/
abbrev Reading := StateT Source (Except Error)

/-- Refuses a document. -/
def fail {α : Type} (f : Fault) : Reading α := fun _ => .error (.malformed f)

/-- The next token. -/
def peek : Reading (Option Token) := return (← get).tokens.head?

/-- Passes over a token. -/
def advance : Reading Unit := modify fun s => { s with tokens := s.tokens.tail }

/-- Whether the next token is a given one. -/
def sees (t : Token) : Reading Bool := return (← peek) == some t

/-- Passes over a given token, if it comes next. -/
def takes (t : Token) : Reading Bool := do
  if ← sees t then
    advance
    return true
  else return false

/-- The tags that handles stand for, if a document does not say otherwise. -/
def defaultHandles : List (String × String) := [("!", "!"), ("!!", "tag:yaml.org,2002:")]

/-- The full form of a tag. -/
def fullTag (handle : Option String) (tail : String) : Reading String := do
  match handle with
  | none => return tail
  | some h =>
    match (← get).handles.lookup h with
    | some start => return start ++ tail
    | none => fail .unknownHandle

/-- What stands in front of a node. -/
structure Properties where
  anchor : Option String := none
  tag : Option String := none

/-- Reads an anchor, if one comes next. -/
def anchor? : Reading (Option String) := do
  match ← peek with
  | some (.anchor name) =>
    advance
    return some name
  | _ => return none

/-- Reads a tag, if one comes next. -/
def tag? : Reading (Option String) := do
  match ← peek with
  | some (.tag handle tail) =>
    advance
    return some (← fullTag handle tail)
  | _ => return none

/-- Reads an anchor and a tag, in either order. -/
def properties : Reading Properties := do
  match ← anchor? with
  | some name => return ⟨some name, ← tag?⟩
  | none =>
    let tag ← tag?
    if tag.isSome then return ⟨← anchor?, tag⟩ else return {}

/-- The tag of a node as it is told: a lone exclamation mark tells nothing. -/
def toldTag (tag : Option String) : Option String := if tag == some "!" then none else tag

/-- A node without its contents, told by the token that it begins with. An alias within a collection
that names the collection itself stands for this. -/
def outline (tag : Option String) : Option Token → Node
  | some .flowMappingStart | some .blockMappingStart => .mapping tag []
  | some .flowSequenceStart | some .blockSequenceStart | some .blockEntry => .sequence tag []
  | _ => .scalar tag "" true

/-- Notes that an anchor names the node that begins here. -/
def openAnchor (p : Properties) : Reading Unit := do
  match p.anchor with
  | none => pure ()
  | some name =>
    if ((← get).anchors.lookup name).isSome then fail .duplicateAnchor
    else
      let next ← peek
      modify fun s => { s with anchors := (name, outline (toldTag p.tag) next) :: s.anchors }

/-- Notes the node that an anchor names. -/
def closeAnchor (p : Properties) (n : Node) : Reading Node := do
  match p.anchor with
  | none => return n
  | some name =>
    modify fun s => { s with anchors := (name, n) :: s.anchors }
    return n

/-- The node that an alias names. -/
def named (name : String) : Reading Node := do
  match (← get).anchors.lookup name with
  | some n => return n
  | none => fail .unknownAnchor

/-- Where a node stands. -/
inductive Place where
  | block
  /-- In a block mapping, where a sequence need not be indented. -/
  | blockValue
  | flow
  deriving Repr, DecidableEq

/-- Reads an empty node, which has to have an anchor or a tag. -/
def empty (p : Properties) : Reading Node :=
  if p.anchor.isSome || p.tag.isSome then
    closeAnchor p (.scalar (toldTag p.tag) "" (p.tag.isNone || p.tag == some "!"))
  else fail .missingNode

/-- Reads a node, but nothing before some tokens. -/
def unlessAt (ends : List Token) (read : Reading Node) : Reading Node := do
  match ← peek with
  | none => read
  | some t => if ends.contains t then return nothing else read

mutual

/-- Reads a node. The bound is on the steps. -/
def read : Nat → Place → Reading Node
  | 0, _ => fail .tooDeep
  | bound + 1, place => do
    match ← peek with
    | some (.alias name) =>
      advance
      named name
    | _ => do
      let p ← properties
      openAnchor p
      let told := toldTag p.tag
      match ← peek with
      | some (.scalar text plain) =>
        advance
        closeAnchor p (.scalar told text ((plain && p.tag.isNone) || p.tag == some "!"))
      | some .flowSequenceStart =>
        advance
        closeAnchor p (.sequence told (← flowItems bound true []))
      | some .flowMappingStart =>
        advance
        closeAnchor p (.mapping told (← flowEntries bound true []))
      | some .blockEntry =>
        if place == .blockValue then
          closeAnchor p (.sequence told (← looseItems bound []))
        else empty p
      | some .blockSequenceStart =>
        if place == .flow then empty p
        else
          advance
          closeAnchor p (.sequence told (← blockItems bound []))
      | some .blockMappingStart =>
        if place == .flow then empty p
        else
          advance
          closeAnchor p (.mapping told (← blockEntries bound []))
      | _ => empty p

/-- Reads the items of a block sequence behind those already found, the latest first. -/
def blockItems : Nat → List Node → Reading (List Node)
  | 0, _ => fail .tooDeep
  | bound + 1, found => do
    if ← takes .blockEntry then
      let n ← unlessAt [.blockEntry, .blockEnd] (read bound .block)
      blockItems bound (n :: found)
    else if ← takes .blockEnd then return found.reverse
    else fail .openCollection

/-- Reads the items of a sequence that is not indented. -/
def looseItems : Nat → List Node → Reading (List Node)
  | 0, _ => fail .tooDeep
  | bound + 1, found => do
    if ← takes .blockEntry then
      let n ← unlessAt [.blockEntry, .key, .value, .blockEnd] (read bound .block)
      looseItems bound (n :: found)
    else return found.reverse

/-- Reads the entries of a block mapping. -/
def blockEntries : Nat → List (Node × Node) → Reading (List (Node × Node))
  | 0, _ => fail .tooDeep
  | bound + 1, found => do
    let ends := [Token.key, .value, .blockEnd]
    if ← takes .key then
      let k ← unlessAt ends (read bound .blockValue)
      let v ← if ← takes .value then unlessAt ends (read bound .blockValue) else pure nothing
      blockEntries bound ((k, v) :: found)
    else if ← takes .blockEnd then return found.reverse
    else fail .openCollection

/-- Reads the items of a flow sequence; `first` says that no comma is due. A key within it begins a
mapping of one entry. -/
def flowItems : Nat → Bool → List Node → Reading (List Node)
  | 0, _, _ => fail .tooDeep
  | bound + 1, first, found => do
    if ← takes .flowSequenceEnd then return found.reverse
    let parted ← if first then pure true else takes .flowEntry
    if !parted then fail .missingComma
    else if ← takes .key then
      let k ← unlessAt [.value, .flowEntry, .flowSequenceEnd] (read bound .flow)
      let v ← if ← takes .value then unlessAt [.flowEntry, .flowSequenceEnd] (read bound .flow)
        else pure nothing
      flowItems bound false (.mapping none [(k, v)] :: found)
    else if ← takes .flowSequenceEnd then return found.reverse
    else
      let n ← read bound .flow
      flowItems bound false (n :: found)

/-- Reads the entries of a flow mapping; `first` says that no comma is due. -/
def flowEntries : Nat → Bool → List (Node × Node) → Reading (List (Node × Node))
  | 0, _, _ => fail .tooDeep
  | bound + 1, first, found => do
    if ← takes .flowMappingEnd then return found.reverse
    let parted ← if first then pure true else takes .flowEntry
    if !parted then fail .missingComma
    else if ← takes .key then
      let k ← unlessAt [.value, .flowEntry, .flowMappingEnd] (read bound .flow)
      let v ← if ← takes .value then unlessAt [.flowEntry, .flowMappingEnd] (read bound .flow)
        else pure nothing
      flowEntries bound false ((k, v) :: found)
    else if ← takes .flowMappingEnd then return found.reverse
    else
      let k ← read bound .flow
      flowEntries bound false ((k, nothing) :: found)

end

/-! ## Documents -/

/-- The version of YAML that can be read. -/
def majorVersion : Nat := 1

/-- Reads the directives of a document: whether it tells its version, and its handles. -/
def directives (versioned : Bool) (handles : List (String × String)) :
    List Token → Except Error (List (String × String) × List Token)
  | .directive (.version major) :: rest =>
    if versioned then refuse .duplicateDirective
    else if major != majorVersion then refuse .badVersion
    else directives true handles rest
  | .directive (.handle name tag) :: rest =>
    if (handles.lookup name).isSome then refuse .duplicateDirective
    else directives versioned ((name, tag) :: handles) rest
  | .directive .other :: rest => directives versioned handles rest
  | rest => .ok (handles ++ defaultHandles, rest)

/-- Reads a node and ends there: nothing but the ends of documents may follow. -/
def whole (tokens : List Token) (handles : List (String × String)) : Except Error Node := do
  let (n, s) ← (read (2 * tokens.length + 2) .block).run { tokens, handles }
  if s.tokens.all (· == .documentEnd) then return n else refuse .severalDocuments

/-- Whether a document is empty: it ends at once. -/
def endsDocument : List Token → Bool
  | [] => true
  | .directive _ :: _ => true
  | .documentStart :: _ => true
  | .documentEnd :: _ => true
  | _ => false

/-- Reads the only document of a text, if there is one. -/
def ofTokens (tokens : List Token) : Except Error (Option Node) :=
  match tokens with
  | [] => .ok none
  | .directive _ :: _ | .documentStart :: _ => do
    let (handles, rest) ← directives false [] tokens
    match rest with
    | .documentStart :: rest =>
      if endsDocument rest then
        if rest.all (· == .documentEnd) then return some nothing else refuse .severalDocuments
      else return some (← whole rest handles)
    | _ => refuse .missingDocumentStart
  | _ => do return some (← whole tokens defaultHandles)

end Node

end LangId.Yaml
