import ClassOutline.Text.Bytes

/-!
# Regular expressions

Regular expressions over code points, and the question whether one occurs in a text.

A text of `n` characters has `n + 1` places. A set of places is a list of `n + 1` marks, and an
expression takes the set of places where it may begin to the set of places where it may end
(`Regex.run`). The recursion is on the expression, and a repetition without bound adds places until
none is new, which happens after `n + 1` rounds at the latest.
-/

namespace ClassOutline

/-- A member of a bracketed class: a range of code points, or all that lie outside some ranges. -/
inductive ClassItem where
  | range (low high : Nat)
  | outside (ranges : List (Nat × Nat))
deriving DecidableEq, Repr

/-- Whether a code point lies in one of some ranges. -/
def inRanges (ranges : List (Nat × Nat)) (c : Nat) : Bool := ranges.any fun r => r.1 ≤ c && c ≤ r.2

/-- Whether a code point belongs to a member of a class. -/
def ClassItem.contains (c : Nat) : ClassItem → Bool
  | .range low high => low ≤ c && c ≤ high
  | .outside ranges => !inRanges ranges c

/-- A regular expression. -/
inductive Regex where
  /-- The empty text. -/
  | empty
  /-- One character of a class, or one that is not in it. -/
  | chars (negated : Bool) (items : List ClassItem)
  /-- One expression, then another. -/
  | cat (a b : Regex)
  /-- Either of two expressions. -/
  | alt (a b : Regex)
  /-- An expression at least `min` times, and at most `max` times if there is such a bound. -/
  | rep (r : Regex) (min : Nat) (max : Option Nat)
  /-- The start of the text. -/
  | start
  /-- The end of the text. -/
  | finish
  /-- The edge of a word, or a place that is none. -/
  | edge (negated : Bool)
deriving DecidableEq, Repr

namespace Regex

/-- One character. -/
def char (c : Nat) : Regex := .chars false [.range c c]

/-- Any character but a newline. -/
def dot : Regex := .chars true [.range 10 10]

/-- The expressions of a list one after another. -/
def catAll : List Regex → Regex
  | [] => .empty
  | [r] => r
  | r :: rs => .cat r (catAll rs)

/-! ## Sets of places -/

/-- The places of two sets together. -/
def union (a b : List Bool) : List Bool := List.zipWith (· || ·) a b

/-- The places of one set that are in another. -/
def inter (a b : List Bool) : List Bool := List.zipWith (· && ·) a b

/-- Only the first place. -/
def onlyFirst : List Bool → List Bool
  | [] => []
  | m :: rest => m :: rest.map fun _ => false

/-- Only the last place. -/
def onlyLast (marks : List Bool) : List Bool := (onlyFirst marks.reverse).reverse

/-- A code point of a word. -/
def isWordCode (c : Nat) : Bool := c < 128 && Bytes.isWord c.toUInt8

/-- The places at an edge of a word. -/
def edges (text : List Nat) : List Bool :=
  let words := text.map isWordCode
  List.zipWith (· != ·) (false :: words) (words ++ [false])

/-- The places after a character of a class, from the places before it. -/
def step (accepts : Nat → Bool) (text : List Nat) (marks : List Bool) : List Bool :=
  false :: List.zipWith (fun m c => m && accepts c) marks text

/-- A function applied a number of times. -/
def times (f : List Bool → List Bool) : Nat → List Bool → List Bool
  | 0, marks => marks
  | n + 1, marks => times f n (f marks)

/-- The places after at most a number of rounds. -/
def upTo (f : List Bool → List Bool) : Nat → List Bool → List Bool
  | 0, marks => marks
  | n + 1, marks => union marks (upTo f n (f marks))

/-- The places after any number of rounds; `n` bounds the rounds that bring new places. -/
def closure (f : List Bool → List Bool) : (n : Nat) → List Bool → List Bool
  | 0, marks => marks
  | n + 1, marks =>
    let more := union marks (f marks)
    if more == marks then marks else closure f n more

/-- The places where an expression may end, if it begins at one of the given places. -/
def run (text : List Nat) : Regex → List Bool → List Bool
  | .empty, marks => marks
  | .chars negated items, marks =>
    step (fun c => items.any (ClassItem.contains c) != negated) text marks
  | .cat a b, marks => run text b (run text a marks)
  | .alt a b, marks => union (run text a marks) (run text b marks)
  | .rep r min max, marks =>
    let begun := times (run text r) min marks
    match max with
    | some n => upTo (run text r) (n - min) begun
    | none => closure (run text r) (text.length + 1) begun
  | .start, marks => onlyFirst marks
  | .finish, marks => onlyLast marks
  | .edge negated, marks => inter marks ((edges text).map (· != negated))

/-- Whether an expression occurs somewhere in a text. -/
def occursIn (r : Regex) (text : List Nat) : Bool :=
  (r.run text (List.replicate (text.length + 1) true)).any id

/-- Whether repetitions inside one another stay below a number of copies. -/
def copiesWithin (n : Nat) : Regex → Bool
  | .cat a b | .alt a b => a.copiesWithin n && b.copiesWithin n
  | .rep r min max =>
    let copies := max.getD min
    if max == some 0 then true
    else if n < copies then false
    else r.copiesWithin (if copies == 0 then n else n / copies)
  | _ => true

end Regex

end ClassOutline
