import BraceScript.Text.Bytes

/-! # Lines of a source text

A text is cut into lines after each newline, so that each line but perhaps the last ends with one.
`lineAt` finds the line that a byte offset falls into. -/

namespace BraceScript

/-- Cuts a list after each element at which a piece ends. -/
def splitAfter {α : Type} (ends : α → Bool) : List α → List (List α)
  | [] => []
  | x :: xs =>
    if ends x then [x] :: splitAfter ends xs
    else match splitAfter ends xs with
      | [] => [[x]]
      | piece :: pieces => (x :: piece) :: pieces

@[simp] theorem flatten_splitAfter {α : Type} (ends : α → Bool) (xs : List α) :
    (splitAfter ends xs).flatten = xs := by
  induction xs with
  | nil => rfl
  | cons x xs ih =>
    unfold splitAfter
    split
    · simp [ih]
    · split <;> rename_i h <;> rw [h] at ih <;> simp [← ih]

/-- The lines of a text, each with its newline. -/
def splitLines (cs : List Char) : List (List Char) := splitAfter (· = '\n') cs

/-- A place within a text by its line: the number of the line, counted from 1, its characters with its
newline, and the offset from its start in bytes. -/
structure LinePlace where
  number : Nat
  line : List Char
  offset : Nat

/-- The place `offset` bytes after the start of the lines, of which the first is line `number`. An offset
at or past the end of the last line is a place in that line. -/
def placeInLines (number : Nat) : List (List Char) → (offset : Nat) → LinePlace
  | [], offset => ⟨number, [], offset⟩
  | [line], offset => ⟨number, line, offset⟩
  | line :: next :: lines, offset =>
    if offset < byteLength line then ⟨number, line, offset⟩
    else placeInLines (number + 1) (next :: lines) (offset - byteLength line)

/-- The place of a byte offset in a text, if the text is that long. -/
def lineAt (content : String) (offset : Nat) : Option LinePlace :=
  let cs := content.toList
  if byteLength cs < offset then none else some (placeInLines 1 (splitLines cs) offset)

/-- How many characters the first `bytes` bytes of a line are, unless they end within a character. -/
def charCount? : List Char → (bytes : Nat) → Option Nat
  | _, 0 => some 0
  | [], _ + 1 => none
  | c :: cs, bytes + 1 =>
    if c.utf8Size ≤ bytes + 1 then (charCount? cs (bytes + 1 - c.utf8Size)).map (· + 1) else none

end BraceScript
