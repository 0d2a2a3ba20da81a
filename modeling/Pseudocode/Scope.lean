import Pseudocode.Names

/-!
# Scopes

The state that the body of one routine builds up: its declared names and the blocks that are open
in it.  Blocks are kept as a stack, innermost first.
-/

namespace Pseudocode

/-- The constructs that open a block. -/
inductive BlockKind
  /-- `Si`, closed by `FinSi`. -/
  | branch
  /-- `Mientras`, closed by `FinMientras`. -/
  | whileLoop
  /-- `Para`, closed by `FinPara`. -/
  | countedLoop
  /-- `Repetir`, closed by `Hasta Que`. -/
  | repeatLoop
  /-- A block that no terminator closes. -/
  | other
  deriving DecidableEq, Repr

namespace BlockKind

/-- The keyword that opens blocks of the kind. -/
def keyword : BlockKind → String
  | branch => "Si"
  | whileLoop => "Mientras"
  | countedLoop => "Para"
  | repeatLoop => "Repetir"
  | other => "?"

/-- The kinds in order, from 0 on; every other number is a kind of no terminator. -/
def ofNumber : Int → BlockKind
  | 0 => branch
  | 1 => whileLoop
  | 2 => countedLoop
  | 3 => repeatLoop
  | _ => other

end BlockKind

/-- A block that has been opened and not closed. -/
structure OpenBlock where
  /-- The construct that opened it. -/
  kind : BlockKind
  /-- The number of the line that opened it. -/
  line : Int
  deriving DecidableEq, Repr

/-- The declared names and the open blocks of a routine. -/
structure Scope where
  /-- The names declared so far. -/
  names : Names
  /-- The open blocks, innermost first. -/
  blocks : List OpenBlock
  deriving DecidableEq, Repr

namespace Scope

/-- Nothing is declared and nothing is open. -/
def empty : Scope := ⟨.empty, []⟩

/-- Declares a name, and tells whether it was new. -/
def declare (s : Scope) (name : List Char) : Bool × Scope :=
  let (isNew, names) := s.names.declare name
  (isNew, { s with names })

/-- Opens a block inside the others. -/
def push (s : Scope) (kind : BlockKind) (line : Int) : Scope :=
  { s with blocks := ⟨kind, line⟩ :: s.blocks }

/-- The innermost open block. -/
def top? (s : Scope) : Option OpenBlock := s.blocks.head?

/-- Closes the innermost block, if one is open. -/
def pop (s : Scope) : Option OpenBlock × Scope := (s.top?, { s with blocks := s.blocks.tail })

/-- Closes all blocks; gives those that were open, innermost first. -/
def drain (s : Scope) : List OpenBlock × Scope := (s.blocks, { s with blocks := [] })

end Scope

end Pseudocode
