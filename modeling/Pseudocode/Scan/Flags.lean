import Pseudocode.Scan.Symbol

/-!
# Literals

A text of pseudocode consists of code and of string literals.  A literal runs from a quote to the
next quote of the same kind; there are no escapes, and the other quote means nothing inside it.  A
scan keeps three flags: whether it stands in a literal of either kind, and which kind it has just
closed.

* `Flags.next` : the flags after a symbol.
* `Flags.inLiteral` : whether the last symbol belongs to a literal.
* `unclosed` : a text ends inside a literal.
-/

namespace Pseudocode

namespace Scan

variable {α : Type} [Symbol α]

/-- What a scan knows about literals. -/
structure Flags where
  /-- A literal between double quotes is open. -/
  inDouble : Bool
  /-- A literal between single quotes is open. -/
  inSingle : Bool
  /-- The kind of the literal that the last symbol has closed. -/
  closing : Option Quote
  deriving DecidableEq, Repr

namespace Flags

/-- The flags at the start of a text. -/
def start : Flags := ⟨false, false, none⟩

/-- The flags where no symbol is left. -/
def atEnd (f : Flags) : Flags := { f with closing := none }

/-- The flags after a symbol of the given role. -/
def next (f : Flags) : Role → Flags
  | .quote .double =>
    if f.inSingle then { f with closing := none }
    else ⟨!f.inDouble, f.inSingle, if f.inDouble then some .double else none⟩
  | .quote .single =>
    if f.inDouble then { f with closing := none }
    else ⟨f.inDouble, !f.inSingle, if f.inSingle then some .single else none⟩
  | _ => { f with closing := none }

/-- The last symbol belongs to a literal; both of its quotes do. -/
def inLiteral (f : Flags) : Bool := f.inDouble || f.inSingle || f.closing.isSome

/-- A literal is open. -/
def unterminated (f : Flags) : Bool := f.inDouble || f.inSingle

/-- The flags after a text. -/
def afterAll (f : Flags) (s : List α) : Flags := s.foldl (fun f c => f.next (role c)) f

end Flags

/-- The text ends inside a literal. -/
def unclosed (s : List α) : Bool := (Flags.start.afterAll s).atEnd.unterminated

end Scan

end Pseudocode
