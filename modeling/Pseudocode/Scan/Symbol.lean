/-!
# Symbols

What a scan of pseudocode needs to know about a symbol is its role: a quote, a bracket, or neither.
Roles are given for characters and for bytes alike, so that every notion of a scan is defined once
and serves both: over characters it cuts text, over bytes it counts offsets.
-/

namespace Pseudocode

namespace Scan

/-- The two delimiters of string literals. -/
inductive Quote
  | double
  | single
  deriving DecidableEq, Repr

/-- The three shapes of brackets. -/
inductive Bracket
  | round
  | square
  | curly
  deriving DecidableEq, Repr

/-- The part a symbol plays in a scan. -/
inductive Role
  | plain
  | quote (q : Quote)
  | opening (b : Bracket)
  | closing (b : Bracket)
  deriving DecidableEq, Repr

/-- The role of a code point. -/
def Role.ofCode : Nat → Role
  | 0x22 => .quote .double
  | 0x27 => .quote .single
  | 0x28 => .opening .round
  | 0x29 => .closing .round
  | 0x5B => .opening .square
  | 0x5D => .closing .square
  | 0x7B => .opening .curly
  | 0x7D => .closing .curly
  | _ => .plain

/-- The symbol opens a bracket of some shape. -/
def Role.isOpening : Role → Bool
  | .opening _ => true
  | _ => false

/-- The symbol closes a bracket of some shape. -/
def Role.isClosing : Role → Bool
  | .closing _ => true
  | _ => false

/-- The symbol is a quote. -/
def Role.isQuote : Role → Bool
  | .quote _ => true
  | _ => false

/-- The change of bracket depth that the symbol makes. -/
def Role.depthChange : Role → Int
  | .opening _ => 1
  | .closing _ => -1
  | _ => 0

/-- An alphabet whose symbols have roles. -/
class Symbol (α : Type) where
  /-- The part a symbol plays in a scan. -/
  role : α → Role

export Symbol (role)

instance : Symbol Char := ⟨fun c => .ofCode c.toNat⟩

instance : Symbol UInt8 := ⟨fun b => .ofCode b.toNat⟩

end Scan

end Pseudocode
