/-! # Places in a source text

A position is a byte offset into the UTF-8 form of a named text, and a span is the stretch from one
position to another. An offset is a 32-bit word, so offsets of texts from 4 GiB on wrap around. -/

namespace BraceScript

/-- A byte offset in the text called `file`. -/
structure Position where
  offset : UInt32
  file : String
deriving DecidableEq

namespace Position

/-- The position that stands for no place in any text. -/
def null : Position := ⟨0, "<null>"⟩

/-- The position `bytes` bytes into the text called `file`. -/
def ofBytes (file : String) (bytes : Nat) : Position := ⟨bytes.toUInt32, file⟩

end Position

/-- The stretch of text from `start` up to and without `stop`. -/
structure Span where
  start : Position
  stop : Position
deriving DecidableEq

/-- The span that stands for no stretch of any text. -/
def Span.null : Span := ⟨.null, .null⟩

end BraceScript
