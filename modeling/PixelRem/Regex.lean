/-!
# Regular expressions

Expressions over characters with the anchors of a whole text, and the question
whether one matches somewhere in a text.

An expression takes a spot of the text to the spots where a match from there can
end.  A repetition goes on only from spots that are further on, so it stops at
the end of the text at the latest.
-/

namespace PixelRem

/-- A regular expression. -/
inductive Regex where
  /-- Nothing at all. -/
  | empty
  /-- A character in one of some ranges, or outside all of them. -/
  | one (negated : Bool) (ranges : List (Char × Char))
  /-- The start of the text. -/
  | atStart
  /-- The end of the text. -/
  | atEnd
  /-- A spot between a word character and another, or any other spot. -/
  | atWord (negated : Bool)
  | seq (first second : Regex)
  | either (first second : Regex)
  /-- At least `least` times, and at most `most` times if that is given. -/
  | times (least : Nat) (most : Option Nat) (body : Regex)
  deriving DecidableEq, Repr

namespace Regex

/-- A single character. -/
def char (c : Char) : Regex :=
  .one false [(c, c)]

/-- Any character of a line. -/
def anyInLine : Regex :=
  .one true [('\n', '\n')]

/-! ## Spots -/

/-- A spot in a text: the character before it and the text behind it. -/
structure Spot where
  before : Option Char
  rest : List Char
  deriving DecidableEq, Repr

/-- Keeps one of the spots with the same text behind them. -/
def distinct : List Spot → List Spot
  | [] => []
  | p :: ps => p :: (distinct ps).filter fun q => q.rest.length != p.rest.length

/-- Whether a character can be part of a word. -/
def isWordChar (c : Char) : Bool :=
  c.isAlphanum || c == '_'

/-- Whether a word starts or ends at a spot. -/
def Spot.isWordEdge (p : Spot) : Bool :=
  p.before.any isWordChar != p.rest.head?.any isWordChar

/-! ## Matching -/

/-- The spots that steps reach from some spots, these included.  The fuel bounds the
number of steps. -/
def reach (step : Spot → List Spot) : (fuel : Nat) → List Spot → List Spot
  | 0, ps => ps
  | fuel + 1, ps =>
    if ps.isEmpty then []
    else
      let further (p : Spot) := (step p).filter fun q => q.rest.length < p.rest.length
      ps ++ reach step fuel (distinct (ps.flatMap further))

/-- The spots after a number of steps. -/
def repeatStep (step : Spot → List Spot) : Nat → List Spot → List Spot
  | 0, ps => ps
  | n + 1, ps => repeatStep step n (distinct (ps.flatMap step))

/-- The spots after at most a number of steps. -/
def upToStep (step : Spot → List Spot) : Nat → List Spot → List Spot
  | 0, ps => ps
  | n + 1, ps => distinct (ps ++ upToStep step n (distinct (ps.flatMap step)))

/-- The spots where a match that starts at a spot can end. -/
def ends : Regex → Spot → List Spot
  | .empty, p => [p]
  | .one negated ranges, p =>
    match p.rest with
    | [] => []
    | c :: rest =>
      if (ranges.any fun (low, high) => low ≤ c && c ≤ high) != negated then [⟨some c, rest⟩]
      else []
  | .atStart, p => if p.before.isNone then [p] else []
  | .atEnd, p => if p.rest.isEmpty then [p] else []
  | .atWord negated, p => if p.isWordEdge != negated then [p] else []
  | .seq a b, p => distinct ((ends a p).flatMap (ends b))
  | .either a b, p => distinct (ends a p ++ ends b p)
  | .times least most a, p =>
    let ps := repeatStep (ends a) least [p]
    match most with
    | some most => upToStep (ends a) (most - least) ps
    | none => distinct (reach (ends a) (p.rest.length + 1) ps)

/-- All spots of a text from one on. -/
def spotsFrom : (before : Option Char) → List Char → List Spot
  | before, [] => [⟨before, []⟩]
  | before, c :: s => ⟨before, c :: s⟩ :: spotsFrom (some c) s

/-- Whether an expression matches somewhere in a text. -/
def isIn (r : Regex) (text : List Char) : Bool :=
  (spotsFrom none text).any fun p => !(r.ends p).isEmpty

end Regex

end PixelRem
