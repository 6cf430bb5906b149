import DecimalLift.Word

/-!
# Places in a source file

In parentheses, here and in the other modules, stand the names that the program itself uses.

* `Location` (`SourceLocation`) — a file with a line and a column, both counted from one. They are
  words of 32 bits: the numbers begin again at zero behind the last of them.
* `Location.advance` (`SourceTracker.advance`) — how one character moves a location: a line feed
  starts a new line, every other character, whatever its width, moves one column on.
* `Span` (`SourceSpan`) — a start and a stop location, with its short written form.
-/

set_option autoImplicit false

namespace DecimalLift

/-- A place in a file. Line zero marks a place that no file contains. -/
structure Location where
  file : String
  line : UInt32
  column : UInt32
  deriving DecidableEq, Repr, Inhabited

namespace Location

/-- The first character of a file. -/
def start (file : String) : Location := ⟨file, 1, 1⟩

/-- The place of a node that was built and not read. -/
def synthesized : Location := ⟨"<synthesized>", 0, 0⟩

def isSynthesized (l : Location) : Bool := l.line == 0

/-- `file:line:column`. -/
def text (l : Location) : String :=
  l.file ++ ":" ++ toString l.line ++ ":" ++ toString l.column

/-- The place behind the character `c` that stands at `l`. -/
def advance (l : Location) (c : Char) : Location :=
  if c = '\n' then { l with line := l.line + 1, column := 1 }
  else { l with column := l.column + 1 }

/-- The place behind the text `cs` that starts at `l`. -/
def advanceOver (l : Location) (cs : List Char) : Location := cs.foldl advance l

theorem advanceOver_append (l : Location) (xs ys : List Char) :
    l.advanceOver (xs ++ ys) = (l.advanceOver xs).advanceOver ys :=
  List.foldl_append

end Location

/-- A stretch of a source file, from `start` up to `stop`. -/
structure Span where
  start : Location
  stop : Location
  deriving DecidableEq, Repr, Inhabited

namespace Span

/-- The empty span at a location. -/
def point (l : Location) : Span := ⟨l, l⟩

def synthesized : Span := point .synthesized

/-- From the start of the first span to the stop of the second. -/
def join (a b : Span) : Span := ⟨a.start, b.stop⟩

/-- `file:L:C` for an empty span, `file:L:C-C` within a line, else `file:L:C-L:C`. -/
def text (s : Span) : String :=
  if s.start.line = s.stop.line then
    if s.start.column = s.stop.column then s.start.text
    else s.start.text ++ "-" ++ toString s.stop.column
  else s.start.text ++ "-" ++ toString s.stop.line ++ ":" ++ toString s.stop.column

end Span

end DecimalLift
