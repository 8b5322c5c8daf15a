import WebIdl.Text.Blank

/-!
# Positions in a text

Offsets count UTF-8 bytes. A position is a line and a column, both from 0, where the column is the
distance in bytes from the start of the line; people are shown both from 1. The starts of all lines
are recorded once, and every offset is then placed by them.
-/

namespace WebIdl.Text

structure Position where
  line : Nat
  column : Nat
deriving DecidableEq

namespace Position

def display (p : Position) : String :=
  toString (p.line + 1) ++ ":" ++ toString (p.column + 1)

end Position

/-- A stretch of bytes, from `start` up to but not including `stop`. -/
structure Span where
  start : Nat
  stop : Nat
deriving DecidableEq

/-- A stretch of a text with the positions of its ends. -/
structure Range where
  span : Span
  start : Position
  stop : Position
deriving DecidableEq

namespace Range

/-- The start of the text. -/
def origin : Range := ⟨⟨0, 0⟩, ⟨0, 0⟩, ⟨0, 0⟩⟩

/-- The line of the end is left out when it is the line of the start. -/
def display (r : Range) : String :=
  if r.start.line = r.stop.line then r.start.display ++ "-" ++ toString (r.stop.column + 1)
  else r.start.display ++ "-" ++ r.stop.display

end Range

/-! ### Line starts -/

/-- The offsets just after each line feed of a text that stands at some offset. -/
def startsAfter : Nat → List Char → List Nat
  | _, [] => []
  | offset, c :: cs =>
    let next := offset + c.utf8Size
    if c = '\n' then next :: startsAfter next cs else startsAfter next cs

/-- Where every line of a text starts. -/
structure LineIndex where
  starts : List Nat

namespace LineIndex

def ofText (s : String) : LineIndex := ⟨0 :: startsAfter 0 s.toList⟩

/-- The line of an offset is the last one that starts at or before it. Offsets past the end
belong to the last line. -/
def position (index : LineIndex) (offset : Nat) : Position :=
  let reached := index.starts.filter (· ≤ offset)
  ⟨reached.length - 1, offset - reached.getLast?.getD 0⟩

def range (index : LineIndex) (span : Span) : Range :=
  ⟨span, index.position span.start, index.position span.stop⟩

end LineIndex

/-! ### Excerpts -/

/-- The line of a position with up to two lines before it, and a caret under the column. A line
that the text does not have is left out. -/
def excerpt (source : String) (p : Position) : String :=
  let shown := ((lines source.toList).take (p.line + 1)).drop (p.line - 2)
  String.join (shown.map fun line => String.ofList line ++ "\n")
    ++ "".pushn ' ' p.column ++ "^ "

end WebIdl.Text
