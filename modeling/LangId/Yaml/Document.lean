import LangId.Text.Base64
import LangId.Text.Lines
import LangId.Text.Utf8
import LangId.Tree
import LangId.Yaml.Layout
import LangId.Yaml.Node
import LangId.Yaml.Plain

/-!
# YAML documents

The value of a document. Tags and, for plain scalars, texts tell the kinds of its nodes; the entries
of a merged mapping go before those of the mapping that it is merged into.
-/
namespace LangId.Yaml

open Data Text

namespace Node

/-- The kind of a node. -/
def kind : Node → Kind
  | .scalar (some tag) _ _ => Kind.ofTag tag
  | .scalar none text plain => if plain then Plain.kindOf text.toList else .text
  | .sequence (some tag) _ => Kind.ofTag tag
  | .sequence none _ => .list
  | .mapping (some tag) _ => Kind.ofTag tag
  | .mapping none _ => .map

/-- The value of a scalar of a kind. -/
def scalarValue (text : String) : Kind → Except Error Value
  | .null => .ok .null
  | .truth =>
    match Plain.truth? text.toList with
    | some b => .ok (.truth b)
    | none => .error (.oversight .word)
  | .integer => (Plain.integer text.toList).map .integer
  | .real => (Plain.real text.toList).map .real
  | .text => .ok (.text text)
  | .octets =>
    match Base64.decode? text.toList with
    | some bytes =>
      if text.toList.all (·.toNat < 128) then .ok (.octets bytes) else refuse .badBase64
    | none => refuse .badBase64
  | .stamp => Plain.stamp text.toList
  | .list | .pairs | .set | .map => refuse .wrongKind
  | .merge | .equals | .unknown => refuse .unknownTag

/-- The value of a key: texts, numbers and the like, but no collections. -/
def keyValue (k : Kind) (v : Except Error Value) : Except Error Value :=
  if k == .equals then .ok (.text "=")
  else
    match v with
    | .ok v => if v.isKey then .ok v else refuse .badKey
    | .error e => .error e

/-- The entries of a map that have been read: those merged into it, and its own. -/
structure Entries where
  merged : List (Value × Value) := []
  own : List (Value × Value) := []

/-- All entries in order. -/
def Entries.all (e : Entries) : List (Value × Value) := Value.ofEntries (e.merged ++ e.own)

mutual

/-- The value of a node. -/
def value (n : Node) : Except Error Value :=
  match n with
  | .scalar _ text _ => scalarValue text n.kind
  | .sequence _ items =>
    match n.kind with
    | .list => (values items).map .list
    | .pairs => (pairs items).map .list
    | .unknown | .merge | .equals => refuse .unknownTag
    | _ => refuse .wrongKind
  | .mapping _ es =>
    match n.kind with
    | .map => (entries es).map fun e => .map e.all
    | .set => (entries es).map fun e => .set (e.all.map (·.1))
    | .list | .pairs => refuse .wrongKind
    | .unknown | .merge | .equals => refuse .unknownTag
    | k =>
      match defaultText es with
      | some text => if k == .stamp then .error (.oversight .stampMap) else scalarValue text k
      | none => refuse .wrongKind

/-- The values of some nodes. -/
def values : List Node → Except Error (List Value)
  | [] => .ok []
  | n :: rest => do return (← value n) :: (← values rest)

/-- The values of mappings with one entry each. -/
def pairs : List Node → Except Error (List Value)
  | [] => .ok []
  | .mapping _ [(k, v)] :: rest => do
    return .list [← value k, ← value v] :: (← pairs rest)
  | _ :: _ => refuse .badPair

/-- The entries of a mapping. -/
def entries : List (Node × Node) → Except Error Entries
  | [] => .ok {}
  | (k, v) :: rest => do
    if k.kind == .merge then
      let below ← merged v
      let e ← entries rest
      return { e with merged := below ++ e.merged }
    else
      let key ← keyValue k.kind (value k)
      let here ← value v
      let e ← entries rest
      return { e with own := (key, here) :: e.own }

/-- The entries of a mapping that is merged, or of a list of them, of which the first goes before
the others. -/
def merged : Node → Except Error (List (Value × Value))
  | .mapping _ es => (entries es).map (·.all)
  | .sequence _ items => mergedAll items
  | .scalar _ _ _ => refuse .badMerge

/-- The entries of a list of mappings that are merged, the last one first. -/
def mergedAll : List Node → Except Error (List (Value × Value))
  | [] => .ok []
  | .mapping _ es :: rest => do
    let e ← entries es
    return (← mergedAll rest) ++ e.all
  | _ :: _ => refuse .badMerge

/-- The text that a mapping has under the key `=`. -/
def defaultText : List (Node × Node) → Option String
  | [] => none
  | (k, v) :: rest =>
    if k.kind == .equals then
      match v with
      | .scalar _ text _ => some text
      | .mapping _ es => defaultText es
      | _ => none
    else defaultText rest

end

end Node

/-- The value of the only document of a text; null if there is none. -/
def read (text : List Char) : Except Error Value := do
  match ← Node.ofTokens (← Token.ofText text) with
  | none => return .null
  | some n => n.value

/-- Why a file cannot be read: it is no text, or no document. -/
inductive FileError where
  | undecodable
  | yaml (e : Error)
  deriving Repr, DecidableEq

/-- Why a file cannot be read as any document. -/
inductive ReadFault where
  | tree (f : Tree.Fault)
  /-- What the document says fails without a check. -/
  | oversight (o : Oversight)
  deriving Repr, DecidableEq

/-- The value of the document in a file. -/
def readFile (bytes : List UInt8) : Except FileError Value :=
  match Utf8.decode? bytes with
  | none => .error .undecodable
  | some text => (read (unifyEnds text)).mapError .yaml

end LangId.Yaml
