import Mathlib.Data.List.Induction
import Mathlib.Data.List.Nodup
import Pseudocode.Catalog.Builtin
import Pseudocode.Proofs.LetterCase

/-!
# Building catalogs and looking exercises up

A catalog is built from left to right, and an exercise is checked only against those before it.  So
a list of exercises is turned down for the first one that has no id or an id that was there before,
whatever follows it.

* `Catalog.Admissible`, `Catalog.FirstOffence` : the lists that make up a catalog, and what is in
  the way of the others.
* `Catalog.Indexed` : the index holds the ids of the exercises and their places, and nothing else.
* `Catalog.addAll_of_admissible`, `Catalog.addAll_of_offends` : what adding exercises one after the
  other leads to.
* `Catalog.ofExercises_builtin` : the built-in exercises are a catalog.
* `Catalog.get_eq_ok_iff`, `Catalog.mem_byCategory_iff` : what is found in a catalog.
* `Catalog.ofExercises_spec` : **which lists make up a catalog, and what it answers.**
-/

namespace Pseudocode

namespace Text

theorem glyphs_injective : Function.Injective glyphs :=
  List.map_injective_iff.2 fun _ _ => Glyph.char.inj

end Text

namespace Catalog

/-! ### Admissible exercises -/

/-- The id of an exercise without the spaces around it. -/
def trimmedId (e : Exercise) : List Char := Text.trim e.id.toList

/-- The exercises make up a catalog: each of them has an id, and no two have the same. -/
structure Admissible (exercises : List Exercise) : Prop where
  id_ne_nil : ∀ e ∈ exercises, trimmedId e ≠ []
  nodup : (exercises.map trimmedId).Nodup

/-- The exercise cannot follow those before it, for the given reason. -/
def Offends (before : List Exercise) (e : Exercise) (reason : CatalogError) : Prop :=
  (trimmedId e = [] ∧ reason = .missingId (before.length + 1)) ∨
    (trimmedId e ≠ [] ∧ trimmedId e ∈ before.map trimmedId ∧
      reason = .duplicateId (String.ofList (trimmedId e)))

/-- The reason names the first exercise that cannot follow those before it. -/
def FirstOffence (exercises : List Exercise) (reason : CatalogError) : Prop :=
  ∃ (before : List Exercise) (e : Exercise) (after : List Exercise),
    exercises = before ++ e :: after ∧ Admissible before ∧ Offends before e reason

variable {before rest exercises : List Exercise} {e : Exercise}

theorem admissible_nil : Admissible [] := ⟨List.forall_mem_nil _, List.nodup_nil⟩

theorem Admissible.of_append (h : Admissible (before ++ rest)) : Admissible before where
  id_ne_nil e he := h.id_ne_nil e (List.mem_append_left rest he)
  nodup := by
    have hids := h.nodup
    rw [List.map_append] at hids
    exact hids.of_append_left

/-- An exercise can follow others exactly if it does not offend. -/
theorem admissible_concat_iff :
    Admissible (before ++ [e]) ↔
      Admissible before ∧ trimmedId e ≠ [] ∧ trimmedId e ∉ before.map trimmedId := by
  have hids : ((before ++ [e]).map trimmedId).Nodup ↔
      (before.map trimmedId).Nodup ∧ trimmedId e ∉ before.map trimmedId := by
    rw [List.map_append, List.map_singleton, ← List.concat_eq_append, List.nodup_concat, and_comm]
  constructor
  · intro h
    exact ⟨h.of_append, h.id_ne_nil e (by simp), (hids.1 h.nodup).2⟩
  · rintro ⟨⟨hne, hnodup⟩, he, hnew⟩
    refine ⟨List.forall_mem_append.2 ⟨hne, List.forall_mem_singleton.2 he⟩, ?_⟩
    exact hids.2 ⟨hnodup, hnew⟩

theorem Offends.not_admissible {reason : CatalogError} (h : Offends before e reason)
    (after : List Exercise) : ¬ Admissible (before ++ e :: after) := by
  intro hall
  rw [List.append_cons] at hall
  obtain ⟨-, hne, hnew⟩ := admissible_concat_iff.1 hall.of_append
  obtain ⟨hnil, -⟩ | ⟨-, hmem, -⟩ := h
  · exact hne hnil
  · exact hnew hmem

/-- Exercises that make up no catalog have a first one that is in the way. -/
theorem admissible_or_firstOffence (before rest : List Exercise) (h : Admissible before) :
    Admissible (before ++ rest) ∨ ∃ reason, FirstOffence (before ++ rest) reason := by
  induction rest generalizing before with
  | nil => exact .inl (by rwa [List.append_nil])
  | cons e rest ih =>
    by_cases hnil : trimmedId e = []
    · exact .inr ⟨_, before, e, rest, rfl, h, .inl ⟨hnil, rfl⟩⟩
    · by_cases hmem : trimmedId e ∈ before.map trimmedId
      · exact .inr ⟨_, before, e, rest, rfl, h, .inr ⟨hnil, hmem, rfl⟩⟩
      · have hnext := ih (before ++ [e]) (admissible_concat_iff.2 ⟨h, hnil, hmem⟩)
        rwa [← List.append_cons] at hnext

/-! ### The index -/

/-- The index holds the ids of the exercises and their places, the last one first. -/
def Indexed (c : Catalog) : Prop :=
  c.byId = (c.exercises.mapIdx fun place e => (key e, place)).reverse

variable {c : Catalog}

theorem indexed_empty : empty.Indexed := rfl

theorem Indexed.add (h : c.Indexed) (e : Exercise) : (c.add e).Indexed := by
  rw [Indexed, Catalog.add, List.mapIdx_concat, List.reverse_concat, ← h]

theorem Indexed.mem_iff (h : c.Indexed) {id : List Text.Glyph} {place : Nat} :
    (id, place) ∈ c.byId ↔ ∃ e, c.exercises[place]? = some e ∧ key e = id := by
  rw [h, List.mem_reverse, List.mem_mapIdx]
  constructor
  · rintro ⟨place, hlt, heq⟩
    obtain ⟨rfl, rfl⟩ := Prod.mk.inj heq
    exact ⟨_, List.getElem?_eq_getElem hlt, rfl⟩
  · rintro ⟨e, he, rfl⟩
    obtain ⟨hlt, rfl⟩ := List.getElem?_eq_some_iff.1 he
    exact ⟨place, hlt, rfl⟩

/-- An id is in the index if an exercise has it. -/
theorem Indexed.any_eq_iff (h : c.Indexed) {id : List Text.Glyph} :
    c.byId.any (·.1 == id) = true ↔ ∃ e ∈ c.exercises, key e = id := by
  rw [List.any_eq_true]
  constructor
  · rintro ⟨⟨id', place⟩, hmem, hid⟩
    obtain rfl : id' = id := beq_iff_eq.1 hid
    obtain ⟨e, he, hkey⟩ := h.mem_iff.1 hmem
    exact ⟨e, List.mem_of_getElem? he, hkey⟩
  · rintro ⟨e, he, rfl⟩
    obtain ⟨place, hplace⟩ := List.mem_iff_getElem?.1 he
    exact ⟨(key e, place), h.mem_iff.2 ⟨e, hplace, rfl⟩, beq_self_eq_true _⟩

/-! ### Adding exercises -/

/-- The catalog to which the exercises have been added, with their ids trimmed. -/
def holding (exercises : List Exercise) : Catalog :=
  exercises.foldl (fun c e => c.add (trimId e)) empty

theorem holding_concat (before : List Exercise) (e : Exercise) :
    holding (before ++ [e]) = (holding before).add (trimId e) := List.foldl_concat ..

theorem exercises_holding (exercises : List Exercise) :
    (holding exercises).exercises = exercises.map trimId := by
  induction exercises using List.reverseRecOn with
  | nil => rfl
  | append_singleton before e ih => rw [holding_concat, List.map_append, ← ih]; rfl

theorem indexed_holding (exercises : List Exercise) : (holding exercises).Indexed := by
  induction exercises using List.reverseRecOn with
  | nil => exact indexed_empty
  | append_singleton before e ih =>
    rw [holding_concat]
    exact ih.add (trimId e)

theorem trimId_id (e : Exercise) : (trimId e).id = String.ofList (trimmedId e) := rfl

theorem key_trimId (e : Exercise) : key (trimId e) = Text.glyphs (trimmedId e) := by
  rw [key, trimId_id, String.toList_ofList]

theorem isEmpty_trimId : (trimId e).id.isEmpty = true ↔ trimmedId e = [] := by
  rw [trimId_id, String.isEmpty_iff, String.ofList_eq_empty_iff]

theorem any_key_eq_iff :
    (holding before).byId.any (·.1 == key (trimId e)) = true ↔
      trimmedId e ∈ before.map trimmedId := by
  rw [(indexed_holding before).any_eq_iff, exercises_holding]
  simp only [List.mem_map, exists_exists_and_eq_and, key_trimId, Text.glyphs_injective.eq_iff]

/-- One exercise is added behind those that are there. -/
theorem addAll_cons (hne : trimmedId e ≠ []) (hnew : trimmedId e ∉ before.map trimmedId)
    (rest : List Exercise) :
    (holding before).addAll before.length (e :: rest) =
      (holding (before ++ [e])).addAll (before ++ [e]).length rest := by
  rw [addAll]
  simp only [if_neg (mt isEmpty_trimId.1 hne), if_neg (mt any_key_eq_iff.1 hnew), holding_concat,
    List.length_append, List.length_singleton]

/-- **Exercises that make up a catalog are all added,** in order. -/
theorem addAll_of_admissible (h : Admissible (before ++ rest)) :
    (holding before).addAll before.length rest = .ok (holding (before ++ rest)) := by
  induction rest generalizing before with
  | nil => rw [addAll, List.append_nil]
  | cons e rest ih =>
    rw [List.append_cons] at h ⊢
    obtain ⟨-, hne, hnew⟩ := admissible_concat_iff.1 h.of_append
    rw [addAll_cons hne hnew, ih h]

theorem ofExercises_of_admissible (h : Admissible exercises) :
    ofExercises exercises = .ok (holding exercises) := by
  rw [← List.nil_append exercises] at h
  exact addAll_of_admissible h

/-- **The built-in exercises make up a catalog,** and no spaces stand around their ids. -/
theorem ofExercises_builtin : ofExercises builtinExercises = .ok builtin := by
  have hids : ∀ e ∈ builtinExercises, trimmedId e = e.id.toList := by decide
  have hadmissible : Admissible builtinExercises := ⟨by decide, by decide⟩
  have hholding : holding builtinExercises = builtin := by
    refine List.foldl_ext _ _ _ fun c e he => congrArg c.add ?_
    rw [trimId, ← trimmedId, hids e he, String.ofList_toList]
  rw [ofExercises_of_admissible hadmissible, hholding]

/-- **The first exercise that is in the way is reported,** whatever follows it. -/
theorem addAll_of_offends (before : List Exercise) {fine : List Exercise} {reason : CatalogError}
    (h : Admissible (before ++ fine)) (hoffends : Offends (before ++ fine) e reason)
    (after : List Exercise) :
    (holding before).addAll before.length (fine ++ e :: after) = .error reason := by
  induction fine generalizing before with
  | nil =>
    rw [List.append_nil] at hoffends
    rw [List.nil_append, addAll]
    obtain ⟨hnil, rfl⟩ | ⟨hne, hmem, rfl⟩ := hoffends
    · exact if_pos (isEmpty_trimId.2 hnil)
    · simp only [if_neg (mt isEmpty_trimId.1 hne), if_pos (any_key_eq_iff.2 hmem)]
      rfl
  | cons a fine ih =>
    rw [List.append_cons] at h hoffends
    obtain ⟨-, hne, hnew⟩ := admissible_concat_iff.1 h.of_append
    rw [List.cons_append, addAll_cons hne hnew, ih _ h hoffends]

/-! ### Looking exercises up -/

theorem get_eq_unknown_iff (hindex : c.Indexed) {id : List Text.Glyph} :
    c.get id = .error (.unknown id) ↔ ∀ e ∈ c.exercises, id ≠ key e := by
  have hfind : c.byId.find? (·.1 == id) = none ↔ ∀ e ∈ c.exercises, id ≠ key e := by
    rw [← Option.not_isSome_iff_eq_none, List.find?_isSome, ← List.any_eq_true,
      hindex.any_eq_iff]
    simp only [not_exists, not_and, ne_eq, eq_comm (a := id)]
  rw [← hfind]
  unfold get
  split
  · rename_i entry hentry
    simp [hentry]
  · rename_i hnone
    simp [hnone]

theorem get_eq_ok {id : List Text.Glyph} (hindex : c.Indexed) (h : c.get id = .ok e) :
    e ∈ c.exercises ∧ id = key e := by
  unfold get at h
  split at h
  · rename_i entry hfind
    cases h
    have hfound := List.find?_some hfind
    have hid : entry.1 = id := beq_iff_eq.1 hfound
    obtain ⟨e, he, hkey⟩ := hindex.mem_iff.1 (List.mem_of_find?_eq_some hfind)
    have hget : c.exercises.get ⟨entry.2, c.placed entry (List.mem_of_find?_eq_some hfind)⟩ = e :=
      (List.getElem?_eq_some_iff.1 he).2
    exact ⟨List.get_mem .., by rw [hget, hkey, hid]⟩
  · cases h

/-- **The index agrees with the list:** in a catalog without two equal ids, an exercise is found
under its own id and no other. -/
theorem get_eq_ok_iff (hindex : c.Indexed) (hids : (c.exercises.map (·.id)).Nodup)
    (he : e ∈ c.exercises) {id : List Text.Glyph} : c.get id = .ok e ↔ id = key e := by
  refine ⟨fun h => (get_eq_ok hindex h).2, ?_⟩
  rintro rfl
  cases hget : c.get (key e) with
  | ok found =>
    -- the exercise that is found has the same id, so it is the same one
    obtain ⟨hfound, hkey⟩ := get_eq_ok hindex hget
    have hid : found.id = e.id := String.toList_inj.1 (Text.glyphs_injective hkey.symm)
    rw [List.inj_on_of_nodup_map hids hfound he hid]
  | error reason =>
    unfold get at hget
    split at hget
    · cases hget
    · rename_i hnone
      have hany := hindex.any_eq_iff.2 ⟨e, he, rfl⟩
      rw [List.any_eq_true] at hany
      obtain ⟨entry, hentry, hkey⟩ := hany
      exact absurd hkey (List.find?_eq_none.1 hnone entry hentry)

theorem byCategory_sublist (c : Catalog) {category : List Char} (h : category ≠ []) :
    (c.byCategory category).Sublist c.exercises := by
  rw [byCategory, if_neg (by simpa using h)]
  exact List.filter_sublist

theorem mem_byCategory_iff {category : List Char} (h : category ≠ []) :
    e ∈ c.byCategory category ↔
      e ∈ c.exercises ∧ Text.SameFold e.category.toList category := by
  rw [byCategory, if_neg (by simpa using h), List.mem_filter, Text.equalFold_iff]

/-- What a catalog of the given exercises answers. -/
structure Answers (c : Catalog) (exercises : List Exercise) : Prop where
  /-- The exercises stand in order, each with its id trimmed and unchanged otherwise. -/
  all : c.exercises = exercises.map fun e => { e with id := String.ofList (Text.trim e.id.toList) }
  /-- The exercise at a place is found under its trimmed id and no other. -/
  get_eq_ok : ∀ (i : Fin exercises.length) (id : List Text.Glyph),
    (∃ e, c.get id = .ok e ∧ c.exercises[i.val]? = some e) ↔
      id = Text.glyphs (trimmedId (exercises.get i))
  /-- Under every other id nothing is found. -/
  get_eq_unknown : ∀ id : List Text.Glyph, c.get id = .error (.unknown id) ↔
    ∀ e ∈ exercises, id ≠ Text.glyphs (trimmedId e)
  /-- The exercises of a category keep their order, -/
  byCategory_sublist : ∀ category, category ≠ [] → (c.byCategory category).Sublist c.exercises
  /-- and they are those whose category is the same up to case. -/
  mem_byCategory : ∀ (category : List Char) (e : Exercise), category ≠ [] →
    (e ∈ c.byCategory category ↔ e ∈ c.exercises ∧ Text.SameFold e.category.toList category)

theorem nodup_trimId_id (h : Admissible exercises) :
    ((exercises.map trimId).map (·.id)).Nodup := by
  have hids : (exercises.map trimId).map (·.id) = (exercises.map trimmedId).map String.ofList := by
    simp only [List.map_map]
    rfl
  rw [hids]
  exact h.nodup.map fun _ _ => String.ofList_inj.1

theorem answers_of_admissible (h : Admissible exercises) :
    Answers (holding exercises) exercises where
  all := exercises_holding exercises
  get_eq_ok i id := by
    have hplace : (holding exercises).exercises[i.val]? = some (trimId (exercises.get i)) := by
      rw [exercises_holding]
      simp
    have hids : ((holding exercises).exercises.map (·.id)).Nodup := by
      rw [exercises_holding]
      exact nodup_trimId_id h
    simp only [hplace, Option.some.injEq, exists_eq_right', ← key_trimId]
    exact get_eq_ok_iff (indexed_holding exercises) hids (List.mem_of_getElem? hplace)
  get_eq_unknown id := by
    rw [get_eq_unknown_iff (indexed_holding exercises), exercises_holding, List.forall_mem_map]
    simp only [key_trimId]
  byCategory_sublist category := byCategory_sublist _
  mem_byCategory category e := mem_byCategory_iff

/-- **Which lists make up a catalog, and what it answers.**  A catalog is built from exercises
exactly if their trimmed ids are distinct and not empty, and then it answers for each of them by its
place; otherwise the first exercise that is in the way is named. -/
theorem ofExercises_spec (exercises : List Exercise) :
    (Admissible exercises ∧ ∃ c, ofExercises exercises = .ok c ∧ Answers c exercises) ∨
      (¬ Admissible exercises ∧
        ∃ reason, ofExercises exercises = .error reason ∧ FirstOffence exercises reason) := by
  obtain h | ⟨reason, before, e, after, rfl, hbefore, hoffends⟩ :=
    admissible_or_firstOffence [] exercises admissible_nil
  · exact .inl ⟨h, holding exercises, ofExercises_of_admissible h, answers_of_admissible h⟩
  · have herror := addAll_of_offends [] hbefore hoffends after
    exact .inr ⟨hoffends.not_admissible after, reason, herror, before, e, after, rfl, hbefore,
      hoffends⟩

end Catalog

end Pseudocode
