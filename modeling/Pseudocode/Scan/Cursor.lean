import Pseudocode.Scan.Flags

/-!
# Cursors

A cursor walks over a text symbol by symbol and knows at each place whether it stands in a literal.
It may be moved past the end, where it sees no symbol and keeps counting.
-/

namespace Pseudocode

namespace Scan

variable {α : Type} [Symbol α]

/-- A place in a walk over a text. -/
structure Cursor (α : Type) where
  /-- The number of moves made so far. -/
  moves : Nat
  /-- The symbol at the place, absent before the first move and past the end. -/
  current : Option α
  /-- The symbols that come after the place. -/
  ahead : List α
  /-- What is known about literals at the place. -/
  flags : Flags

namespace Cursor

/-- A cursor before the first symbol of a text. -/
def start (s : List α) : Cursor α := ⟨0, none, s, .start⟩

/-- Moves on by one symbol. -/
def next (c : Cursor α) : Cursor α :=
  match c.ahead with
  | [] => ⟨c.moves + 1, none, [], c.flags.atEnd⟩
  | x :: rest => ⟨c.moves + 1, some x, rest, c.flags.next (role x)⟩

/-- The offset of the place, `-1` before the first move. -/
def pos (c : Cursor α) : Int := c.moves - 1

/-- The place lies in a literal, quotes included. -/
def inLiteral (c : Cursor α) : Bool := c.flags.inLiteral

/-- The place lies outside all literals. -/
def inCode (c : Cursor α) : Bool := !c.inLiteral

/-- A literal is open after the current symbol. -/
def unterminated (c : Cursor α) : Bool := c.flags.unterminated

/-- The text from the place on starts with the given symbols; false where no symbol stands. -/
def lookingAt [BEq α] (c : Cursor α) (front : List α) : Bool :=
  match c.current with
  | none => false
  | some x => front.isPrefixOf (x :: c.ahead)

end Cursor

end Scan

end Pseudocode
