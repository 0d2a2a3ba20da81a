import Pseudocode.Scope

/-!
# Well-nested words

What a line does to the blocks of a routine is an event, and the lines of a routine form a word of
events.  `WellNested` is the grammar of the words in which every block is closed by its own
terminator and every other branch belongs to a conditional.

The grammar says nothing about how a word is read.  `Accepts` reads it from the left with a stack
of the open blocks, as a conversion does, and the two agree:

* `accepts_iff_completes` : a stack accepts the words that complete its blocks one by one.
* `accepts_nil_iff` : **the empty stack accepts exactly the words of the grammar.**
-/

namespace Pseudocode

/-- What a line does to the blocks of a routine. -/
inductive BlockEvent
  /-- It leaves them as they are. -/
  | other
  /-- It starts the other branch of a conditional. -/
  | otherwise
  /-- It opens a block. -/
  | opens (kind : BlockKind)
  /-- It is the terminator of a block. -/
  | closes (kind : BlockKind)
  deriving DecidableEq, Repr

/-- The well-nested words inside a block of the given kind, or outside all blocks. -/
inductive WellNested : (inside : Option BlockKind) → List BlockEvent → Prop
  | nil {inside : Option BlockKind} : WellNested inside []
  | other {inside : Option BlockKind} {w : List BlockEvent} :
    WellNested inside w → WellNested inside (.other :: w)
  | otherwise {w : List BlockEvent} :
    WellNested (some .branch) w → WellNested (some .branch) (.otherwise :: w)
  | block {inside : Option BlockKind} {kind : BlockKind} {v w : List BlockEvent} :
    WellNested (some kind) v → WellNested inside w →
      WellNested inside (.opens kind :: (v ++ .closes kind :: w))

namespace BlockEvent

/-- The event may happen while the given blocks are open, innermost first. -/
def Fits : BlockEvent → List BlockKind → Prop
  | otherwise, stack => stack.head? = some .branch
  | closes kind, stack => stack.head? = some kind
  | _, _ => True

instance : (e : BlockEvent) → (stack : List BlockKind) → Decidable (e.Fits stack)
  | otherwise, stack => inferInstanceAs (Decidable (stack.head? = some .branch))
  | closes kind, stack => inferInstanceAs (Decidable (stack.head? = some kind))
  | other, _ => isTrue trivial
  | opens _, _ => isTrue trivial

/-- The blocks that are open after the event. -/
def after : BlockEvent → List BlockKind → List BlockKind
  | opens kind, stack => kind :: stack
  | closes _, stack => stack.tail
  | _, stack => stack

end BlockEvent

/-- Every event of the word fits the blocks that are open before it, and all blocks are closed in
the end. -/
def Accepts : List BlockKind → List BlockEvent → Prop
  | stack, [] => stack = []
  | stack, e :: w => e.Fits stack ∧ Accepts (e.after stack) w

instance decidableAccepts :
    (stack : List BlockKind) → (w : List BlockEvent) → Decidable (Accepts stack w)
  | stack, [] => inferInstanceAs (Decidable (stack = []))
  | stack, e :: w =>
    have := decidableAccepts (e.after stack) w
    inferInstanceAs (Decidable (e.Fits stack ∧ Accepts (e.after stack) w))

/-- The word closes the open blocks one by one, innermost first, and is well nested inside each of
them and after the last one. -/
def Completes : List BlockKind → List BlockEvent → Prop
  | [], w => WellNested none w
  | kind :: stack, w =>
    ∃ v u, WellNested (some kind) v ∧ Completes stack u ∧ w = v ++ .closes kind :: u

/-- What can be put in front of a well-nested word can be put in front of a word that completes
the open blocks. -/
theorem Completes.prepend {stack : List BlockKind} {w : List BlockEvent} (h : Completes stack w)
    (front : List BlockEvent)
    (hfront : ∀ u, WellNested stack.head? u → WellNested stack.head? (front ++ u)) :
    Completes stack (front ++ w) := by
  cases stack with
  | nil => exact hfront w h
  | cons kind stack =>
    obtain ⟨v, u, hv, hu, rfl⟩ := h
    exact ⟨front ++ v, u, hfront v hv, hu, by rw [List.append_assoc]⟩

theorem completes_of_accepts {stack : List BlockKind} {w : List BlockEvent}
    (h : Accepts stack w) : Completes stack w := by
  induction w generalizing stack with
  | nil =>
    obtain rfl : stack = [] := h
    exact WellNested.nil
  | cons e w ih =>
    obtain ⟨hfits, hrest⟩ := h
    have hw := ih hrest
    cases e with
    | other => exact Completes.prepend hw [.other] fun u hu => hu.other
    | otherwise =>
      change stack.head? = some .branch at hfits
      refine Completes.prepend hw [.otherwise] fun u hu => ?_
      change WellNested stack.head? u at hu
      change WellNested stack.head? (.otherwise :: u)
      rw [hfits] at hu ⊢
      exact hu.otherwise
    | opens kind =>
      -- the word completes the new block first; what follows is the word after the block
      obtain ⟨v, u, hv, hu, rfl⟩ := hw
      have hblock : Completes stack ((.opens kind :: (v ++ [.closes kind])) ++ u) :=
        hu.prepend _ fun u' hu' => by simpa using hv.block hu'
      simpa using hblock
    | closes kind =>
      obtain ⟨stack, rfl⟩ : ∃ outer, stack = kind :: outer := by
        cases stack with
        | nil => cases hfits
        | cons top outer => exact ⟨outer, by rw [Option.some.inj hfits]⟩
      exact ⟨[], w, WellNested.nil, hw, rfl⟩

theorem WellNested.accepts_append {inside : Option BlockKind} {v : List BlockEvent}
    (hv : WellNested inside v) : ∀ {stack : List BlockKind} {w : List BlockEvent},
      stack.head? = inside → Accepts stack w → Accepts stack (v ++ w) := by
  induction hv with
  | nil => exact fun _ hw => hw
  | other _ ih => exact fun hs hw => ⟨trivial, ih hs hw⟩
  | otherwise _ ih => exact fun hs hw => ⟨hs, ih hs hw⟩
  | @block inside kind v u _ _ ihv ihu =>
    intro stack w hs hw
    have hclose : Accepts (kind :: stack) (.closes kind :: (u ++ w)) := ⟨rfl, ihu hs hw⟩
    rw [List.cons_append, List.append_assoc]
    exact ⟨trivial, ihv rfl hclose⟩

theorem accepts_of_completes {stack : List BlockKind} {w : List BlockEvent}
    (h : Completes stack w) : Accepts stack w := by
  induction stack generalizing w with
  | nil =>
    have hw : Accepts [] (w ++ []) := WellNested.accepts_append h rfl rfl
    rwa [List.append_nil] at hw
  | cons kind stack ih =>
    obtain ⟨v, u, hv, hu, rfl⟩ := h
    exact hv.accepts_append rfl ⟨rfl, ih hu⟩

theorem accepts_iff_completes {stack : List BlockKind} {w : List BlockEvent} :
    Accepts stack w ↔ Completes stack w :=
  ⟨completes_of_accepts, accepts_of_completes⟩

/-- **The empty stack accepts exactly the words of the grammar.** -/
theorem accepts_nil_iff {w : List BlockEvent} : Accepts [] w ↔ WellNested none w :=
  accepts_iff_completes

instance (w : List BlockEvent) : Decidable (WellNested none w) :=
  decidable_of_iff (Accepts [] w) accepts_nil_iff

example : WellNested none [.opens .repeatLoop, .opens .branch, .otherwise, .other,
    .closes .branch, .closes .repeatLoop] := by decide

/-- The other branch belongs to the innermost block or to none. -/
example : ¬ WellNested none [.opens .branch, .opens .whileLoop, .otherwise,
    .closes .whileLoop, .closes .branch] := by decide

end Pseudocode
