import Pseudocode.Scan.Code
import Pseudocode.Expr.Operator
import Pseudocode.Expr.Intrinsic
import Pseudocode.Expr.Random

/-!
# Expressions and conditions

An expression is converted by applying rules one after the other to its text.  Most rules change
code only; the boolean constants and `azar` are replaced in literals too.

* `Rule.apply` : what a rule does to a text.
* `expression`, `condition` : the two conversions, each a list of rules in order.
-/

namespace Pseudocode

namespace Expr

/-- The rules of the conversion. -/
inductive Rule
  | booleans
  | conjunction
  | disjunction
  | negation
  | inequality
  | equality
  | remainder
  | random
  | power
  | intrinsics
  deriving DecidableEq, Repr

namespace Rule

/-- The short name of a rule. -/
def name : Rule → String
  | booleans => "booleans"
  | conjunction => "and"
  | disjunction => "or"
  | negation => "not"
  | inequality => "neq"
  | equality => "eq"
  | remainder => "mod"
  | random => "azar"
  | power => "pow"
  | intrinsics => "math"

/-- All rules. -/
def all : List Rule :=
  [booleans, conjunction, disjunction, negation, inequality, equality, remainder, random, power,
   intrinsics]

/-- The rule of the given short name. -/
def ofName? (n : String) : Option Rule := all.find? (·.name == n)

/-- Applies a rule to a text. -/
def apply : Rule → List Char → List Char
  | booleans => Expr.booleans
  | conjunction => Scan.mapCode (replaceAll Expr.conjunction)
  | disjunction => Scan.mapCode (replaceAll Expr.disjunction)
  | negation => Scan.mapCode (replaceAll Expr.negation)
  | inequality => Scan.mapCode (replaceAll Expr.inequality)
  | equality => Scan.mapCode (replaceAll Expr.equality)
  | remainder => Scan.mapCode (replaceAll Expr.remainder)
  | random => Expr.random
  | power => Scan.mapCode (replaceAll Expr.power)
  | intrinsics => Scan.mapCode (replaceAll Expr.intrinsicCall)

end Rule

/-- Applies rules one after the other. -/
def applyRules (rules : List Rule) (s : List Char) : List Char :=
  rules.foldl (fun s r => r.apply s) s

/-- The rules for an arithmetic or logical expression, in order. -/
def expressionRules : List Rule :=
  [.remainder, .conjunction, .disjunction, .negation, .booleans, .random, .power, .intrinsics]

/-- The rules for a condition, in order. -/
def conditionRules : List Rule :=
  [.booleans, .conjunction, .disjunction, .negation, .inequality, .equality, .remainder, .random,
   .power, .intrinsics]

/-- Converts an arithmetic or logical expression. -/
def expression (s : List Char) : List Char := applyRules expressionRules s

/-- Converts a condition. -/
def condition (s : List Char) : List Char := applyRules conditionRules s

end Expr

end Pseudocode
