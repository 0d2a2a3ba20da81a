import Pseudocode.Text.CaseFold
import Pseudocode.Text.Quoted
import Pseudocode.Text.Space

/-!
# Catalogs of exercises

A catalog is a list of exercises with distinct ids, and an index that says where the exercise of an
id stands.  The index is built while the list grows.

* `Catalog.add` : adds an exercise to the list and to the index.
* `Catalog.ofExercises` : builds a catalog, or names the first exercise that is in the way.
* `Catalog.get`, `Catalog.byCategory`, `Catalog.categories` : look exercises up.
-/

namespace Pseudocode

/-- A practice exercise and its solution. -/
structure Exercise where
  /-- The name by which it is looked up. -/
  id : String
  /-- Its title. -/
  title : String
  /-- How hard it is. -/
  difficulty : String
  /-- The category it belongs to. -/
  category : String
  /-- What is to be done. -/
  description : String
  /-- The steps, in order. -/
  instructions : List String
  /-- Hints, in order. -/
  hints : List String
  /-- What the program should print. -/
  expectedOutput : String
  /-- A solution in pseudocode. -/
  solution : String
  deriving DecidableEq, Repr

/-- Why a list of exercises is no catalog, or a catalog has no answer. -/
inductive CatalogError
  /-- The exercise at the place, counted from 1, has no id. -/
  | missingId (place : Nat)
  /-- An exercise before has the same id. -/
  | duplicateId (id : String)
  /-- No exercise has the id, which may hold bytes that are no characters. -/
  | unknown (id : List Text.Glyph)
  deriving DecidableEq, Repr

/-- The wording of the reason. -/
def CatalogError.message : CatalogError → List Text.Glyph
  | missingId place => Text.glyphs ("exercise " ++ toString place ++ ": missing id").toList
  | duplicateId id =>
    Text.glyphs ("exercise ".toList ++ Text.quote id.toList ++ ": duplicate id".toList)
  | unknown id => Text.glyphs "unknown exercise: ".toList ++ id

/-- Exercises with an index of their ids. -/
structure Catalog where
  /-- The exercises, in order. -/
  exercises : List Exercise
  /-- The places of exercises by their ids, the last one first. -/
  byId : List (List Text.Glyph × Nat)
  /-- An exercise stands at each place of the index. -/
  placed : ∀ entry ∈ byId, entry.2 < exercises.length
  deriving DecidableEq, Repr

namespace Catalog

/-- A catalog without exercises. -/
def empty : Catalog := ⟨[], [], nofun⟩

/-- The id by which an exercise is looked up. -/
def key (e : Exercise) : List Text.Glyph := Text.glyphs e.id.toList

/-- The catalog with one more exercise at its end. -/
def add (c : Catalog) (e : Exercise) : Catalog where
  exercises := c.exercises ++ [e]
  byId := (key e, c.exercises.length) :: c.byId
  placed := by
    intro entry hentry
    rw [List.length_append, List.length_singleton]
    obtain rfl | hentry := List.mem_cons.1 hentry
    · exact Nat.lt_succ_self _
    · exact Nat.lt_succ_of_lt (c.placed entry hentry)

/-- The exercise with its id trimmed. -/
def trimId (e : Exercise) : Exercise := { e with id := String.ofList (Text.trim e.id.toList) }

/-- Adds exercises to a catalog; the first of them is at the place after `place`. -/
def addAll (c : Catalog) (place : Nat) : List Exercise → Except CatalogError Catalog
  | [] => .ok c
  | e :: rest =>
    let e := trimId e
    if e.id.isEmpty then .error (.missingId (place + 1))
    else if c.byId.any (·.1 == key e) then .error (.duplicateId e.id)
    else (c.add e).addAll (place + 1) rest

/-- The catalog of exercises whose trimmed ids are distinct and not empty. -/
def ofExercises (exercises : List Exercise) : Except CatalogError Catalog :=
  empty.addAll 0 exercises

/-- The exercise with the given id, which the index finds. -/
def get (c : Catalog) (id : List Text.Glyph) : Except CatalogError Exercise :=
  match h : c.byId.find? (·.1 == id) with
  | some entry => .ok (c.exercises.get ⟨entry.2, c.placed entry (List.mem_of_find?_eq_some h)⟩)
  | none => .error (.unknown id)

/-- The exercises of a category, letter case aside; all of them if the category is empty. -/
def byCategory (c : Catalog) (category : List Char) : List Exercise :=
  if category.isEmpty then c.exercises
  else c.exercises.filter fun e => Text.equalFold e.category.toList category

/-- The categories, each of them once, in the order in which they first occur. -/
def categories (c : Catalog) : List String :=
  c.exercises.foldl (fun seen e => if e.category ∈ seen then seen else seen ++ [e.category]) []

end Catalog

end Pseudocode
