import LangId.Number.Decimal
import LangId.Text.Quoted

/-!
# Values

Data without a fixed shape, as documents spell it. Maps keep their entries in order; a key that
comes up again keeps its first place and takes the later value.
-/
namespace LangId.Data

/-- A piece of data. -/
inductive Value where
  | null
  | truth (b : Bool)
  | integer (n : Int)
  | real (x : Float)
  | text (s : String)
  | octets (bytes : List UInt8)
  /-- A day, counted from the first day of the year one. -/
  | day (n : Int)
  /-- A moment, in millionths of a second from the beginning of the year one, and whether it is told
  in universal time. -/
  | moment (n : Int) (universal : Bool)
  | list (items : List Value)
  | set (items : List Value)
  | map (entries : List (Value × Value))
  deriving Repr

namespace Value

/-- The number that a value stands for as a key: truth values count as zero and one. -/
def number? : Value → Option Number.Reading
  | truth b => some (.finite ⟨false, if b then 1 else 0, 0⟩)
  | integer n => some (.finite ⟨n < 0, n.natAbs, 0⟩)
  | real x => some (Number.Reading.ofFloat x)
  | _ => none

/-- Whether two readings are the same number. -/
def sameNumber : Number.Reading → Number.Reading → Bool
  | .finite a, .finite b =>
    let (m, d) := a.ratio
    let (n, e) := b.ratio
    m * e == n * d && (a.negative == b.negative || m == 0)
  | .infinite a, .infinite b => a == b
  | .notNumber, .notNumber => true
  | _, _ => false

/-- Whether two values are the same key. Numbers are compared across their kinds. -/
def sameKey (a b : Value) : Bool :=
  match a.number?, b.number? with
  | some x, some y => sameNumber x y
  | none, none =>
    match a, b with
    | null, null => true
    | text s, text t => s == t
    | octets s, octets t => s == t
    | day m, day n => m == n
    | moment m u, moment n v => m == n && u == v
    | _, _ => false
  | _, _ => false

/-- Whether a value can be a key. -/
def isKey : Value → Bool
  | list _ | set _ | map _ => false
  | _ => true

/-- Adds an entry to a map. A key that is there already keeps its place and takes the value. -/
def insertEntry (key value : Value) : List (Value × Value) → List (Value × Value)
  | [] => [(key, value)]
  | (k, v) :: rest =>
    if k.sameKey key then (k, value) :: rest else (k, v) :: insertEntry key value rest

/-- The map of some entries. -/
def ofEntries (entries : List (Value × Value)) : List (Value × Value) :=
  entries.foldl (fun found (k, v) => insertEntry k v found) []

/-- The value of a field. -/
def field? (name : String) (entries : List (Value × Value)) : Option Value :=
  (entries.find? fun e => e.1.sameKey (text name)).map (·.2)

/-- The word for the kind of a value. -/
def kindName : Value → String
  | null => "NoneType"
  | truth _ => "bool"
  | integer _ => "int"
  | real _ => "float"
  | text _ => "str"
  | octets _ => "bytes"
  | day _ => "date"
  | moment _ _ => "datetime"
  | list _ => "list"
  | set _ => "set"
  | map _ => "dict"

end Value

end LangId.Data
