import Pseudocode.Proofs.FinalCall
import Pseudocode.Proofs.Program.Runs
import Pseudocode.Proofs.Routine.Lines

/-!
# Lines that are kept as comments

A line that cannot be converted is kept as a comment, and comments of the source are kept as they
are.  Each of them stands on a line of its own, and a line feed never stands in it.  But a comment
of the generated language ends at other characters too, and these are copied if they stand inside
the line.

* `keptLines` : the lines of a source that are kept as comments.
* `Written.Keeps` : what is written has a line for each of these comments, in their order.
* `Program.convert_keeps` : **a program keeps them.**
* `kept_comment_extent` : **how far such a comment reaches,** and when it is the whole line.
-/

namespace Pseudocode

open Statement Header

/-! ### Comments -/

/-- The characters that end a line of generated code. -/
def lineTerminators : List Char := ['\n', '\r', '\u2028', '\u2029']

/-- The comment at the front of a text, which ends before the first line terminator. -/
def commentAt (s : List Char) : List Char := s.takeWhile (!lineTerminators.contains ·)

theorem commentAt_eq_iff {comment rest : List Char} :
    commentAt (comment ++ '\n' :: rest) = comment ↔ ∀ c ∈ comment, c ∉ lineTerminators := by
  constructor
  · intro h c hc
    rw [← h] at hc
    simpa using List.all_eq_true.1 List.all_takeWhile c hc
  · intro h
    have hall : ∀ c ∈ comment, (!lineTerminators.contains c) = true := fun c hc => by
      simpa using h c hc
    have hend : ('\n' :: rest).takeWhile (!lineTerminators.contains ·) = [] := rfl
    rw [commentAt, List.takeWhile_append_of_pos hall, hend, List.append_nil]

/-- The ways in which a line is kept. -/
inductive KeptForm
  /-- A comment of the source. -/
  | comment
  /-- A line of no known form. -/
  | unknown
  /-- A dimension with an item that is no array. -/
  | dimension
  /-- The header of a counted loop that cannot be read. -/
  | countedLoop
  /-- The header of a function that cannot be read. -/
  | functionHeader
  deriving DecidableEq, Repr

/-- What is written in front of a line that is kept. -/
def KeptForm.mark : KeptForm → List Char
  | comment => []
  | unknown | dimension => "// ".toList
  | countedLoop => "// Para no convertido: ".toList
  | functionHeader => "// Función no convertida: ".toList

theorem KeptForm.notMem_lineTerminators (form : KeptForm) :
    ∀ c ∈ form.mark, c ∉ lineTerminators := by
  have hall : form.mark.all (fun c => !lineTerminators.contains c) = true := by
    cases form <;> decide
  intro c hc
  simpa using List.all_eq_true.1 hall c hc

/-- A line that is kept. -/
structure KeptLine where
  /-- The line. -/
  line : SourceLine
  /-- The way in which it is kept. -/
  form : KeptForm
  deriving DecidableEq, Repr

namespace KeptLine

/-- What is kept of the line. -/
def text (k : KeptLine) : List Char :=
  match k.form with
  | .comment | .unknown => k.line.text
  | .dimension | .countedLoop | .functionHeader => k.line.code

/-- The comment that keeps the line. -/
def comment (k : KeptLine) : List Char := k.form.mark ++ k.text

end KeptLine

/-! ### Which lines are kept -/

/-- The way in which a line of a routine is kept, none if it is converted. -/
def SourceLine.keptForm? (l : SourceLine) : Option KeptForm :=
  if l.isComment then some .comment
  else
    match l.kind? with
    | none => some .unknown
    | some .dimension => if allArrays (dimensionItems l.code) then none else some .dimension
    | some .countedLoop => if (CountedLoop.ofText? l.code).isSome then none else some .countedLoop
    | some _ => none

/-- The line of a routine if it is kept. -/
def SourceLine.kept (l : SourceLine) : List KeptLine := l.keptForm?.toList.map (⟨l, ·⟩)

/-- The header of a function if it is kept. -/
def SourceLine.keptHeader (l : SourceLine) : List KeptLine :=
  if (Function.ofText? l.code).isSome then [] else [⟨l, .functionHeader⟩]

/-- The lines of functions that are kept. -/
def keptInFunctions : List SourceLine → List KeptLine
  | [] => []
  | l :: ls =>
    if l.isFunctionStart then
      l.keptHeader ++ (ls.takeWhile (·.isInner)).flatMap (·.kept) ++ keptInFunctions ls
    else keptInFunctions ls

/-- The lines of a program that are kept. -/
def Program.keptLines (p : Program) : List KeptLine :=
  keptInFunctions p.outside ++ p.routines.flatMap fun s => s.body.flatMap (·.kept)

/-- The lines of a source that are kept. -/
def keptLines (src : String) : List KeptLine :=
  (Program.ofLines? (sourceLines 1 src.toList)).toList.flatMap (·.keptLines)

section Membership

variable {k : KeptLine} {l : SourceLine}

/-- It is the given line that is kept, and what keeps it starts as comments do. -/
def KeptLine.ComesFrom (k : KeptLine) (l : SourceLine) : Prop :=
  k.line = l ∧ commentMark <+: k.comment

theorem SourceLine.isComment_of_keptForm? (h : l.keptForm? = some .comment) :
    l.isComment = true := by
  by_contra hcomment
  rw [keptForm?, if_neg hcomment] at h
  split at h
  · cases h
  · split at h <;> cases h
  · split at h <;> cases h
  · cases h

theorem comesFrom_of_mem_kept (h : k ∈ l.kept) : k.ComesFrom l := by
  obtain ⟨form, hform, rfl⟩ := List.mem_map.1 h
  refine ⟨rfl, ?_⟩
  cases form with
  | comment =>
    have hcomment := SourceLine.isComment_of_keptForm? (Option.mem_toList.1 hform)
    exact List.isPrefixOf_iff_prefix.1 hcomment
  | _ => exact ⟨_, rfl⟩

theorem comesFrom_of_mem_keptHeader (h : k ∈ l.keptHeader) : k.ComesFrom l := by
  unfold SourceLine.keptHeader at h
  split at h
  · cases h
  · obtain rfl := List.mem_singleton.1 h
    exact ⟨rfl, _, rfl⟩

theorem exists_comesFrom_of_mem_keptInFunctions {ls : List SourceLine}
    (h : k ∈ keptInFunctions ls) : ∃ l ∈ ls, k.ComesFrom l := by
  induction ls with
  | nil => cases h
  | cons l ls ih =>
    have hrest : k ∈ keptInFunctions ls → ∃ l' ∈ l :: ls, k.ComesFrom l' := fun h => by
      obtain ⟨l', hl', hk⟩ := ih h
      exact ⟨l', List.mem_cons_of_mem l hl', hk⟩
    rw [keptInFunctions] at h
    split at h
    · rw [List.mem_append, List.mem_append, List.mem_flatMap] at h
      obtain (h | ⟨l', hl', h⟩) | h := h
      · exact ⟨l, List.mem_cons_self, comesFrom_of_mem_keptHeader h⟩
      · have hmem : l' ∈ ls := (List.takeWhile_prefix _).subset hl'
        exact ⟨l', List.mem_cons_of_mem l hmem, comesFrom_of_mem_kept h⟩
      · exact hrest h
    · exact hrest h

theorem exists_comesFrom_of_mem_keptLines {lines : List SourceLine} {p : Program}
    (hp : Program.ofLines? lines = some p) (h : k ∈ p.keptLines) : ∃ l ∈ lines, k.ComesFrom l := by
  obtain ⟨houtside, hroutines⟩ := Program.subset_of_ofLines? hp
  obtain h | h := List.mem_append.1 h
  · obtain ⟨l, hl, hk⟩ := exists_comesFrom_of_mem_keptInFunctions h
    exact ⟨l, houtside hl, hk⟩
  · obtain ⟨s, hs, h⟩ := List.mem_flatMap.1 h
    obtain ⟨l, hl, h⟩ := List.mem_flatMap.1 h
    exact ⟨l, (hroutines s hs).body_subset hl, comesFrom_of_mem_kept h⟩

theorem KeptLine.lineFeed_notMem {src : List Char} (h : k.line ∈ sourceLines 1 src) :
    '\n' ∉ k.text := by
  obtain ⟨raw, hraw, htext, hcode⟩ := SourceLine.exists_raw_of_mem_ofRaws h
  have hfeed : '\n' ∉ raw := Text.notMem_of_mem_splitOn hraw
  have hsubset : k.text ⊆ raw := by
    unfold text
    split <;> assumption
  exact fun hmem => hfeed (hsubset hmem)

end Membership

/-! ### What is written keeps them -/

/-- The comments of the given lines are among the lines that are written, in order. -/
def Written.Keeps (w : Written) (ks : List KeptLine) : Prop :=
  (ks.map (·.comment)).Sublist (w.pieces.map (·.code))

namespace Written

variable {a b : Written} {ks ks' : List KeptLine}

theorem Keeps.append (ha : a.Keeps ks) (hb : b.Keeps ks') : (a ++ b).Keeps (ks ++ ks') := by
  rw [Keeps, pieces_append, List.map_append, List.map_append]
  exact List.Sublist.append ha hb

theorem keeps_nil (w : Written) : w.Keeps [] := List.nil_sublist _

theorem keeps_foldr_append {f : MainRoutine → Written} {g : MainRoutine → List KeptLine}
    (h : ∀ s, (f s).Keeps (g s)) (routines : List MainRoutine) :
    ((routines.map f).foldr (· ++ ·) Written.empty).Keeps (routines.flatMap g) := by
  induction routines with
  | nil => exact keeps_nil _
  | cons s routines ih => exact (h s).append ih

end Written

open Written

namespace Routine

variable (r : Routine) (l : SourceLine)

theorem comment_mem_feedBody {k : KeptLine} (h : k ∈ l.kept) :
    k.comment ∈ (r.feedBody l).1.pieces.map (·.code) := by
  have hplain : ∀ text, "// ".toList ++ text ∈
      ((start r.depth).statement ("// ".toList ++ text)).map (·.code) := fun text => by
    rw [statement_of_ne_nil _ (List.append_ne_nil_of_left_ne_nil (by decide) _)]
    exact List.mem_singleton_self _
  obtain ⟨form, hform, rfl⟩ := List.mem_map.1 h
  rw [Option.mem_toList] at hform
  rw [pieces_feedBody]
  unfold SourceLine.keptForm? at hform
  unfold SourceLine.forms
  split at hform
  · rename_i hcomment
    cases hform
    rw [if_pos hcomment]
    exact List.mem_singleton_self _
  · rename_i hcomment
    rw [if_neg hcomment]
    split at hform
    · rename_i hkind
      cases hform
      rw [hkind, List.map_singleton, List.flatMap_singleton]
      exact hplain l.text
    · rename_i hkind
      split at hform
      · cases hform
      · rename_i harrays
        cases hform
        simp only [hkind, LineKind.forms, if_neg harrays]
        rw [List.map_singleton, List.flatMap_singleton]
        exact hplain l.code
    · rename_i hkind
      split at hform
      · cases hform
      · rename_i hloop
        cases hform
        rw [Option.not_isSome_iff_eq_none] at hloop
        simp only [hkind, LineKind.forms, hloop]
        exact List.mem_cons_self
    · cases hform

theorem feedBody_keeps : (r.feedBody l).1.Keeps l.kept := by
  have hmem := fun k (hk : k ∈ l.kept) => r.comment_mem_feedBody l hk
  unfold SourceLine.kept at hmem ⊢
  cases hform : l.keptForm? with
  | none => exact List.nil_sublist _
  | some form => exact List.singleton_sublist.2 (hmem ⟨l, form⟩ (by simp [hform]))

theorem feedBodies_keeps (ls : List SourceLine) :
    (r.feedBodies ls).1.Keeps (ls.flatMap (·.kept)) := by
  induction ls generalizing r with
  | nil => exact keeps_nil _
  | cons l ls ih => exact (r.feedBody_keeps l).append (ih _)

end Routine

theorem MainRoutine.convert_keeps (s : MainRoutine) :
    s.convert.Keeps (s.body.flatMap (·.kept)) := by
  have hbody := (Routine.start 1).feedBodies_keeps s.body
  have hkeeps : s.convert.Keeps ([] ++ s.body.flatMap (·.kept) ++ []) := by
    unfold convert
    exact ((keeps_nil _).append hbody).append (keeps_nil _)
  rwa [List.nil_append, List.append_nil] at hkeeps

namespace OpenFunction

theorem start_keeps (l : SourceLine) : (start l).1.Keeps l.keptHeader := by
  unfold start SourceLine.keptHeader
  cases Function.ofText? l.code with
  | none => exact List.Sublist.refl _
  | some f => exact keeps_nil _

end OpenFunction

/-- The lines that are kept of the function that is open before the given lines. -/
def keptInOpen (f : Option OpenFunction) (ls : List SourceLine) : List KeptLine :=
  if f.isSome then (ls.takeWhile (·.isInner)).flatMap (·.kept) else []

/-- A line outside the main routine keeps itself if it has to, and leaves the lines that follow to
the function that is open after it. -/
theorem functionStep_keeps (f : Option OpenFunction) (l : SourceLine) (ls : List SourceLine) :
    ∃ ks, (functionStep f l).1.Keeps ks ∧
      keptInOpen f (l :: ls) ++ keptInFunctions (l :: ls) =
        ks ++ (keptInOpen (functionStep f l).2 ls ++ keptInFunctions ls) := by
  obtain hstart | ⟨hstart, hend⟩ | ⟨hstart, hend⟩ := l.function_cases
  · rw [functionStep_start f hstart]
    refine ⟨[] ++ l.keptHeader, (keeps_nil _).append (OpenFunction.start_keeps l), ?_⟩
    simp [keptInOpen, keptInFunctions, hstart, SourceLine.isInner]
  · cases f with
    | none =>
      rw [functionStep_strayEnd hstart hend]
      exact ⟨[], keeps_nil _, by simp [keptInOpen, keptInFunctions, hstart]⟩
    | some f =>
      rw [functionStep_end hstart hend]
      exact ⟨[], keeps_nil _,
        by simp [keptInOpen, keptInFunctions, hstart, hend, SourceLine.isInner]⟩
  · cases f with
    | none =>
      rw [functionStep_outside hstart hend]
      exact ⟨[], keeps_nil _, by simp [keptInOpen, keptInFunctions, hstart]⟩
    | some f =>
      rw [functionStep_body hstart hend]
      exact ⟨l.kept, f.routine.feedBody_keeps l,
        by simp [keptInOpen, keptInFunctions, hstart, hend, SourceLine.isInner]⟩

theorem functionSteps_keeps (f : Option OpenFunction) (ls : List SourceLine) :
    (functionSteps f ls).1.Keeps (keptInOpen f ls ++ keptInFunctions ls) := by
  induction ls generalizing f with
  | nil =>
    have hnil : keptInOpen f [] = [] := by simp [keptInOpen]
    rw [hnil]
    exact keeps_nil _
  | cons l ls ih =>
    obtain ⟨ks, hstep, hsplit⟩ := functionStep_keeps f l ls
    rw [hsplit]
    exact hstep.append (ih _)

theorem convertFunctions_keeps (ls : List SourceLine) :
    (convertFunctions ls).Keeps (keptInFunctions ls) := by
  have hkeeps := (functionSteps_keeps none ls).append
    (keeps_nil ((functionSteps none ls).2.map OpenFunction.closeUnended |>.getD .empty))
  rwa [List.append_nil] at hkeeps

/-- **A program keeps the lines that it cannot convert,** each on a line of its own and in the order
in which they are written. -/
theorem Program.convert_keeps (p : Program) : p.convert.Keeps p.keptLines := by
  have hfunctions := convertFunctions_keeps p.outside
  have hmain := keeps_foldr_append MainRoutine.convert_keeps p.routines
  have hkeeps : p.convert.Keeps ([] ++ [] ++ keptInFunctions p.outside ++ [] ++
      p.routines.flatMap (fun s => s.body.flatMap (·.kept)) ++ []) := by
    unfold convert
    refine .append (.append (.append (.append (.append ?_ ?_) hfunctions) ?_) hmain) ?_ <;>
      exact keeps_nil _
  simpa [keptLines] using hkeeps

/-! ### Where the comments end -/

theorem Written.Keeps.exists_render_eq {w : Written} {ks : List KeptLine} {k : KeptLine}
    (h : w.Keeps ks) (hk : k ∈ ks) :
    ∃ before depth after, (before = [] ∨ IsLines before) ∧
      render w.pieces = before ++ (indent depth ++ (k.comment ++ '\n' :: after)) := by
  obtain ⟨⟨depth, code⟩, hp, hcode⟩ :=
    List.mem_map.1 (List.Sublist.subset h (List.mem_map_of_mem hk))
  obtain ⟨front, back, hpieces⟩ := List.append_of_mem hp
  refine ⟨render front, depth, render back, ?_, ?_⟩
  · by_cases hnil : front = []
    · exact .inl (by rw [hnil, render_nil])
    · exact .inr (isLines_render hnil)
  · rw [hpieces, render_append, render_cons, ← hcode]
    simp [Piece.text]

theorem KeptLine.commentAt_comment_iff {k : KeptLine} (hfeed : '\n' ∉ k.text) (after : List Char) :
    commentAt (k.comment ++ '\n' :: after) = k.comment ↔
      '\r' ∉ k.text ∧ '\u2028' ∉ k.text ∧ '\u2029' ∉ k.text := by
  have hmark := k.form.notMem_lineTerminators
  rw [commentAt_eq_iff, comment, List.forall_mem_append, and_iff_right hmark]
  constructor
  · intro h
    exact ⟨fun hc => h _ hc (by decide), fun hc => h _ hc (by decide), fun hc => h _ hc (by decide)⟩
  · rintro ⟨hreturn, hline, hparagraph⟩ c hc hmem
    obtain rfl | rfl | rfl | rfl : c = '\n' ∨ c = '\r' ∨ c = '\u2028' ∨ c = '\u2029' := by
      simpa [lineTerminators] using hmem
    · exact hfeed hc
    · exact hreturn hc
    · exact hline hc
    · exact hparagraph hc

/-- **How far a comment that keeps a line reaches.**  It stands on a line of its own and starts as
comments do.  It is the whole line exactly if none of the other three line terminators stands inside
what is kept; a line feed never does. -/
theorem kept_comment_extent (strict : Bool) (src : String) (k : KeptLine) (hk : k ∈ keptLines src) :
    k.line ∈ sourceLines 1 src.toList ∧ commentMark <+: k.comment ∧ '\n' ∉ k.comment ∧
      ∃ before depth after, (before = [] ∨ IsLines before) ∧
        (convert strict src).text.toList =
          before ++ (indent depth ++ (k.comment ++ '\n' :: after)) ∧
        (commentAt (k.comment ++ '\n' :: after) = k.comment ↔
          '\r' ∉ k.text ∧ '\u2028' ∉ k.text ∧ '\u2029' ∉ k.text) := by
  obtain ⟨p, hp, hk⟩ := List.mem_flatMap.1 hk
  rw [Option.mem_toList] at hp
  obtain ⟨l, hl, rfl, hcomment⟩ := exists_comesFrom_of_mem_keptLines hp hk
  have hfeed := KeptLine.lineFeed_notMem hl
  have hmark : '\n' ∉ k.form.mark := fun hmem =>
    k.form.notMem_lineTerminators _ hmem (by decide)
  refine ⟨hl, hcomment, fun hmem => (List.mem_append.1 hmem).elim hmark hfeed, ?_⟩
  obtain ⟨before, depth, after, hbefore, htext⟩ := p.convert_keeps.exists_render_eq hk
  refine ⟨before, depth, after, hbefore, ?_, k.commentAt_comment_iff hfeed after⟩
  have hconvert : (convert strict src).text = String.ofList (render p.convert.pieces) := by
    rw [convert_eq, hp]
    rfl
  rw [hconvert, String.toList_ofList, htext]

/-- A header that cannot be read for want of a name; the carriage return at the end of its line is
not kept. -/
theorem kept_comment_extent_header :
    let src := "Funcion (x)\r\nFinFuncion\r\nAlgoritmo A\r\nFinAlgoritmo"
    let k : KeptLine :=
      ⟨⟨1, "Funcion (x)".toList, "Funcion (x)".toList, "funcion (x)".toList⟩, .functionHeader⟩
    k ∈ keptLines src ∧ ('\r' ∉ k.text ∧ '\u2028' ∉ k.text ∧ '\u2029' ∉ k.text) ∧
      k.line ∈ sourceLines 1 src.toList ∧ commentMark <+: k.comment ∧ '\n' ∉ k.comment ∧
      ∃ before depth after, (before = [] ∨ IsLines before) ∧
        (convert true src).text.toList =
          before ++ (indent depth ++ (k.comment ++ '\n' :: after)) ∧
        (commentAt (k.comment ++ '\n' :: after) = k.comment ↔
          '\r' ∉ k.text ∧ '\u2028' ∉ k.text ∧ '\u2029' ∉ k.text) := by
  intro src k
  have hk : k ∈ keptLines src := by decide +revert +kernel
  exact ⟨hk, by decide +revert +kernel, kept_comment_extent true src k hk⟩

/-- A carriage return inside a line of no known form ends its comment, and what follows is code. -/
theorem kept_comment_ends_early :
    let src := "Algoritmo A\nhola mundo\ralert(1)\nFinAlgoritmo"
    (keptLines src).map (·.comment) = ["// hola mundo\ralert(1)".toList] ∧
      (convert false src).text = headerText ++
        "// Algoritmo: A\nfunction A() \x7b\n  // hola mundo\ralert(1)\n\x7d\n\n\n" ++
        "// Ejecutar el algoritmo\nA();\n" ∧
      commentAt "// hola mundo\ralert(1)\n".toList = "// hola mundo".toList := by
  decide +kernel

end Pseudocode
