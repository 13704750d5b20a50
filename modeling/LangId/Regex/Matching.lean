import LangId.Regex.Node

/-!
# Matching a pattern

A backtracking matcher. Each pattern is a function of a place in the text and of what to do
behind it: it tries its ways to match in order of preference and returns the first one behind
which the rest succeeds. Repetitions are bounded by the length of the text, since past the least
count an iteration that consumed nothing ends the repetition.
-/
namespace LangId.Regex

open LangId.Text

/-- A place in a text: what stands before it, nearest character first, what stands behind it, and
how many characters precede it. -/
structure Cursor where
  before : List Char
  after : List Char
  position : Nat
  deriving Repr, DecidableEq

/-- The place behind the next character. -/
def Cursor.next? (c : Cursor) : Option (Char × Cursor) :=
  match c.after with
  | [] => none
  | x :: rest => some (x, ⟨x :: c.before, rest, c.position + 1⟩)

/-- The place `n` characters back. -/
def Cursor.back? (c : Cursor) : Nat → Option Cursor
  | 0 => some c
  | n + 1 =>
    match c.before with
    | [] => none
    | x :: rest => Cursor.back? ⟨rest, x :: c.after, c.position - 1⟩ n

/-- Whether an anchor holds at a place. -/
def Anchor.holds (c : Cursor) : Anchor → Bool
  | .textStart => c.before.isEmpty
  | .textEnd => c.after.isEmpty
  | .finalLineEnd => c.after.isEmpty || c.after == ['\n']
  | .lineStart => c.before.isEmpty || c.before.head? == some '\n'
  | .lineEnd => c.after.isEmpty || c.after.head? == some '\n'
  | .wordEdge ascii negated =>
    let isWordAt (x : Option Char) := x.any (Category.word.holds ascii ·)
    !(c.before.isEmpty && c.after.isEmpty) &&
      (isWordAt c.before.head? != isWordAt c.after.head?) != negated

/-- The text of a group: where it begins, where it ends, and the text from its beginning on. -/
structure Capture where
  start : Nat
  stop : Nat
  source : List Char
  deriving Repr, DecidableEq

/-- The characters of a group. -/
def Capture.text (c : Capture) : List Char := c.source.take (c.stop - c.start)

/-- A partial match: the place reached and the groups kept, the latest first. -/
structure Thread where
  cursor : Cursor
  captures : List (Nat × Capture) := []
  deriving Repr, DecidableEq

/-- The text kept under a number. -/
def Thread.captured? (t : Thread) (index : Nat) : Option Capture := t.captures.lookup index

/-- Keeps the text between two places under a number. -/
def Thread.capture (t : Thread) (index : Nat) (start : Cursor) : Thread :=
  { t with captures := (index, ⟨start.position, t.cursor.position, start.after⟩) :: t.captures }

/-- What follows a partial match. -/
abbrev Continuation := Thread → Option Thread

/-- A way to go on from a partial match. -/
abbrev Step := Thread → Continuation → Option Thread

/-- Passes over a given text. -/
def Cursor.skip? (f : Folding) (c : Cursor) : List Char → Option Cursor
  | [] => some c
  | x :: rest =>
    match c.next? with
    | none => none
    | some (y, d) => if f.lower y.toNat == f.lower x.toNat then d.skip? f rest else none

/-- The places reached by passing over characters of a class, the farthest first, but no more
than `limit` characters, if there is a limit. -/
def Cursor.spread (s : CharClass) (limit : Option Nat) (found : List Cursor)
    (before : List Char) (position : Nat) : List Char → List Cursor
  | [] => ⟨before, [], position⟩ :: found
  | x :: rest =>
    let here : Cursor := ⟨before, x :: rest, position⟩
    if limit != some 0 && s.contains x then
      spread s (limit.map (· - 1)) (here :: found) (x :: before) (position + 1) rest
    else here :: found

/-- The places reached by at least `min` and at most `max` characters of a class, the farthest
first. -/
def Cursor.run (s : CharClass) (min : Nat) (max : Option Nat) (c : Cursor) : List Cursor :=
  let places := spread s max [] c.before c.position c.after
  places.take (places.length - min)

/-- Whether a count is below a limit. -/
def below (count : Nat) : Option Nat → Bool
  | none => true
  | some max => count < max

/-- Tries the largest count first. Up to `min` the body has to match; beyond, an iteration is
begun only at a place other than that where the one before it began. -/
def greedyLoop (body : Step) (min : Nat) (max : Option Nat) (k : Continuation) :
    Nat → Nat → Option Nat → Continuation
  | 0, _, _, _ => none
  | bound + 1, count, last, t =>
    if count < min then
      body t fun u => greedyLoop body min max k bound (count + 1) last u
    else if below count max && last != some t.cursor.position then
      match body t fun u =>
        greedyLoop body min max k bound (count + 1) (some t.cursor.position) u with
      | some r => some r
      | none => k t
    else k t

/-- Tries the smallest count first. -/
def lazyLoop (body : Step) (min : Nat) (max : Option Nat) (k : Continuation) :
    Nat → Nat → Option Nat → Continuation
  | 0, _, _, _ => none
  | bound + 1, count, last, t =>
    if count < min then
      body t fun u => lazyLoop body min max k bound (count + 1) last u
    else
      match k t with
      | some r => some r
      | none =>
        if below count max && last != some t.cursor.position then
          body t fun u => lazyLoop body min max k bound (count + 1) (some t.cursor.position) u
        else none

/-- Iterates as long as the body matches, each time in its preferred way. -/
def possessiveLoop (body : Step) (min : Nat) (max : Option Nat) : Nat → Nat → Continuation
  | 0, _, _ => none
  | bound + 1, count, t =>
    if count < min then
      match body t some with
      | some u => possessiveLoop body min max bound (count + 1) u
      | none => none
    else if below count max then
      match body t some with
      | some u =>
        if u.cursor.position == t.cursor.position then some u
        else possessiveLoop body min max bound (count + 1) u
      | none => some t
    else some t

/-- How many iterations a repetition can have from a place on. -/
def loopBound (min : Nat) (t : Thread) : Nat := min + t.cursor.after.length + 2

/-- A repetition of a body. -/
def loopStep (body : Step) (min : Nat) (max : Option Nat) : Appetite → Step
  | .greedy, t, k => greedyLoop body min max k (loopBound min t) 0 none t
  | .lazy, t, k => lazyLoop body min max k (loopBound min t) 0 none t
  | .possessive, t, k =>
    match possessiveLoop body min max (loopBound min t) 0 t with
    | some u => k u
    | none => none

/-- A repetition of one character of a class, which needs no loop through the continuation. -/
def runStep (s : CharClass) (min : Nat) (max : Option Nat) (single : Step) : Appetite → Step
  | .greedy, t, k => (t.cursor.run s min max).findSome? fun c => k { t with cursor := c }
  | .lazy, t, k => lazyLoop single min max k (loopBound min t) 0 none t
  | .possessive, t, k =>
    match t.cursor.run s min max with
    | [] => none
    | c :: _ => k { t with cursor := c }

/-- The next character, if it is of a class. -/
def oneStep (s : CharClass) : Step := fun t k =>
  match t.cursor.next? with
  | none => none
  | some (x, c) => if s.contains x then k { t with cursor := c } else none

/-- The step that a pattern takes. -/
def Node.step : Node → Step
  | .empty, t, k => k t
  | .one s, t, k => oneStep s t k
  | .seq a b, t, k => a.step t fun u => b.step u k
  | .alt a b, t, k =>
    match a.step t k with
    | some r => some r
    | none => b.step t k
  | .group index body, t, k => body.step t fun u => k (u.capture index t.cursor)
  | .back index f, t, k =>
    match t.captured? index with
    | none => none
    | some capture =>
      match t.cursor.skip? f capture.text with
      | none => none
      | some c => k { t with cursor := c }
  | .loop (.one s) min max appetite, t, k => runStep s min max (oneStep s) appetite t k
  | .loop body min max appetite, t, k => loopStep body.step min max appetite t k
  | .ahead false body, t, k =>
    match body.step t some with
    | some u => k { t with captures := u.captures }
    | none => none
  | .ahead true body, t, k =>
    match body.step t some with
    | some _ => none
    | none => k t
  | .behind false width body, t, k =>
    match t.cursor.back? width with
    | none => none
    | some c =>
      match body.step { t with cursor := c } some with
      | some u => k { t with captures := u.captures }
      | none => none
  | .behind true width body, t, k =>
    match t.cursor.back? width with
    | none => k t
    | some c =>
      match body.step { t with cursor := c } some with
      | some _ => none
      | none => k t
  | .atomic body, t, k =>
    match body.step t some with
    | some u => k u
    | none => none
  | .cond index a b, t, k =>
    match t.captured? index with
    | some _ => a.step t k
    | none => b.step t k
  | .anchor a, t, k => if a.holds t.cursor then k t else none

/-- A match: where it begins, where it ends, and its groups. -/
structure Match where
  start : Nat
  stop : Nat
  captures : List (Nat × Capture)
  deriving Repr, DecidableEq

/-- The text of a group of a match. -/
def Match.group? (m : Match) (index : Nat) : Option (List Char) :=
  (m.captures.lookup index).map Capture.text

/-- The preferred match that begins at a place. -/
def Node.matchAt (n : Node) (c : Cursor) : Option Match :=
  (n.step { cursor := c } some).map fun t => ⟨c.position, t.cursor.position, t.captures⟩

/-- The first match that begins at a place or behind it. -/
def Node.searchFrom (n : Node) (before : List Char) (position : Nat) : List Char → Option Match
  | [] => n.matchAt ⟨before, [], position⟩
  | x :: rest =>
    match n.matchAt ⟨before, x :: rest, position⟩ with
    | some m => some m
    | none => n.searchFrom (x :: before) (position + 1) rest

/-- The first match in a text. -/
def Node.search (n : Node) (text : List Char) : Option Match := n.searchFrom [] 0 text

end LangId.Regex
