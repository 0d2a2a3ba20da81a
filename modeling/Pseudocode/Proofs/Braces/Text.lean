import Pseudocode.Proofs.Header
import Pseudocode.Proofs.Statement

/-!
# Braces in lines of code

A text is read with some number of braces open and leaves some number open.  Statements leave as
many as they find, headers open one more, and terminators close one.  This holds of lines without
braces of their own, since a conversion copies what it finds in a line.

* `openBraces` : the number of open braces after a text.
* `Leads.count_le_of_isPrefix`, `Leads.count_add` : what this number says about the braces in it.
* `Statement.leads_dimension` and the like : the braces of statements.
* `Header.leads_branch` and the like : the braces of headers and terminators.
-/

namespace Pseudocode

namespace Braces

/-- The number of open braces after a character, none if it closes a brace that is not open. -/
def after (n : Nat) (c : Char) : Option Nat :=
  if c = '\x7b' then some (n + 1)
  else if c = '\x7d' then
    match n with
    | 0 => none
    | n + 1 => some n
  else some n

/-- The number of open braces after a text, none if it closes a brace that is not open. -/
def openBraces : Nat → List Char → Option Nat
  | n, [] => some n
  | n, c :: cs => (after n c).bind (openBraces · cs)

/-- Reading the text with `m` braces open leaves `n` open. -/
def Leads (m : Nat) (s : List Char) (n : Nat) : Prop := openBraces m s = some n

instance (m : Nat) (s : List Char) (n : Nat) : Decidable (Leads m s n) :=
  inferInstanceAs (Decidable (openBraces m s = some n))

/-- No brace stands in the text. -/
def BraceFree (s : List Char) : Prop := ∀ c ∈ s, c ≠ '\x7b' ∧ c ≠ '\x7d'

instance (s : List Char) : Decidable (BraceFree s) :=
  List.decidableBAll (fun c => c ≠ '\x7b' ∧ c ≠ '\x7d') s

variable {m n k : Nat} {s t : List Char}

theorem BraceFree.mono (ht : BraceFree t) (h : s ⊆ t) : BraceFree s := fun c hc => ht c (h hc)

@[simp] theorem braceFree_append_iff : BraceFree (s ++ t) ↔ BraceFree s ∧ BraceFree t :=
  List.forall_mem_append

theorem leads_nil (m : Nat) : Leads m [] m := rfl

theorem openBraces_append (m : Nat) (s t : List Char) :
    openBraces m (s ++ t) = (openBraces m s).bind (openBraces · t) := by
  induction s generalizing m with
  | nil => rfl
  | cons c cs ih => simp only [List.cons_append, openBraces, ih, Option.bind_assoc]

theorem Leads.append (hs : Leads m s k) (ht : Leads k t n) : Leads m (s ++ t) n := by
  rw [Leads, openBraces_append, hs, Option.bind_some, ht]

/-- A text without braces leaves as many open as it finds. -/
theorem BraceFree.leads (h : BraceFree s) (m : Nat) : Leads m s m := by
  induction s with
  | nil => rfl
  | cons c cs ih =>
    obtain ⟨⟨hopen, hclose⟩, hcs⟩ := List.forall_mem_cons.1 h
    have hc : after m c = some m := by simp [after, hopen, hclose]
    rw [Leads, openBraces, hc]
    exact ih hcs

/-- The braces of a text make up the difference between those open before and after it. -/
theorem Leads.count_add (h : Leads m s n) : s.count '\x7b' + m = s.count '\x7d' + n := by
  induction s generalizing m with
  | nil =>
    cases h
    rfl
  | cons c cs ih =>
    obtain ⟨k, hc, hcs⟩ := Option.bind_eq_some_iff.1 h
    have hrest := ih hcs
    unfold after at hc
    split at hc
    · rename_i hopen
      cases hc
      subst hopen
      simp only [List.count_cons_self, List.count_cons_of_ne (by decide : '\x7b' ≠ '\x7d')]
      omega
    · rename_i hopen
      split at hc
      · rename_i hclose
        subst hclose
        simp only [List.count_cons_self, List.count_cons_of_ne hopen]
        cases m with
        | zero => cases hc
        | succ m =>
          cases hc
          omega
      · rename_i hclose
        cases hc
        rwa [List.count_cons_of_ne hopen, List.count_cons_of_ne hclose]

/-- No front of a text closes more braces than are open before it and opened in it. -/
theorem Leads.count_le_of_isPrefix (h : Leads m s n) (ht : t <+: s) :
    t.count '\x7d' ≤ t.count '\x7b' + m := by
  obtain ⟨rest, rfl⟩ := ht
  rw [Leads, openBraces_append] at h
  obtain ⟨k, hk, -⟩ := Option.bind_eq_some_iff.1 h
  have hcount := Leads.count_add hk
  omega

end Braces

open Braces

/-! ### Expressions -/

namespace Expr

theorem alphabet_braceFree : BraceFree alphabet := by decide +kernel

theorem braceFree_expression {s : List Char} (h : BraceFree s) : BraceFree (expression s) :=
  (braceFree_append_iff.2 ⟨h, alphabet_braceFree⟩).mono (expression_subset s)

theorem braceFree_condition {s : List Char} (h : BraceFree s) : BraceFree (condition s) :=
  (braceFree_append_iff.2 ⟨h, alphabet_braceFree⟩).mono (condition_subset s)

theorem braceFree_booleans {s : List Char} (h : BraceFree s) : BraceFree (booleans s) :=
  (braceFree_append_iff.2 ⟨h, alphabet_braceFree⟩).mono (booleans_subset s)

end Expr

theorem Text.braceFree_join {sep : List Char} {ss : List (List Char)} (hsep : BraceFree sep)
    (hss : ∀ s ∈ ss, BraceFree s) : BraceFree (Text.join sep ss) := by
  intro c hc
  obtain hc | ⟨s, hs, hc⟩ := Text.mem_join hc
  · exact hsep c hc
  · exact hss s hs c hc

theorem Names.braceFree_introduce (names : Names) (name : List Char) :
    BraceFree (names.introduce name).1 := by
  simp only [Names.introduce]
  split
  · decide
  · decide

/-! ### Statements -/

namespace Statement

variable {line : List Char}

theorem braceFree_declaration (h : BraceFree line) (names : Names) :
    BraceFree (declaration line names).1 := by
  have hfresh : ∀ name ∈ (names.declareAll (declaredNames line)).1, BraceFree name :=
    fun name hname => h.mono (subset_of_mem_declaredNames (names.subset_of_declareAll _ hname))
  simp only [declaration]
  split
  · decide
  · simp only [braceFree_append_iff]
    exact ⟨⟨by decide, Text.braceFree_join (by decide) hfresh⟩, by decide⟩

/-- An allocation opens and closes a brace for each dimension but the last. -/
theorem leads_allocation {sizes : List (List Char)} (hsizes : ∀ size ∈ sizes, BraceFree size)
    (m : Nat) : Leads m (allocation sizes) m := by
  fun_induction allocation sizes with
  | case1 => rfl
  | case2 size =>
    have hhead : Leads m "new Array(".toList m := rfl
    have hend : Leads m ")".toList m := rfl
    exact (hhead.append ((hsizes size (by simp)).leads m)).append hend
  | case3 size sizes _ ih =>
    have hopen : Leads m "Array.from(\x7b length: ".toList (m + 1) := rfl
    have hclose : Leads (m + 1) " \x7d, () => ".toList m := rfl
    have hend : Leads m ")".toList m := rfl
    have hsize := (hsizes size (by simp)).leads (m + 1)
    have hrest := ih fun s hs => hsizes s (by simp [hs])
    exact (((hopen.append hsize).append hclose).append hrest).append hend

theorem leads_allocate {a : ArrayShape} (hname : BraceFree a.name)
    (hsizes : ∀ size ∈ a.sizes, BraceFree size) (names : Names) (m : Nat) :
    Leads m (a.allocate names).1 m := by
  have hlet := (names.braceFree_introduce a.name).leads m
  have heq : Leads m " = ".toList m := rfl
  have hend : Leads m ";".toList m := rfl
  exact (((hlet.append (hname.leads m)).append heq).append (leads_allocation hsizes m)).append hend

theorem leads_allocateAll {items : List (List Char)} (hitems : ∀ item ∈ items, BraceFree item)
    (names : Names) {statements : List (List Char)}
    (hs : (allocateAll items names).1 = some statements) (m : Nat) :
    ∀ statement ∈ statements, Leads m statement m := by
  induction items generalizing names statements with
  | nil =>
    cases hs
    simp
  | cons item items ih =>
    obtain ⟨hitem, hitems⟩ := List.forall_mem_cons.1 hitems
    simp only [allocateAll] at hs
    split at hs
    · cases hs
    · rename_i a ha
      obtain ⟨rest, hrest, rfl⟩ := Option.map_eq_some_iff.1 hs
      obtain ⟨hname, hsizes⟩ := ArrayShape.subset_of_ofText? ha
      have hexpr : BraceFree (item ++ Expr.alphabet) :=
        braceFree_append_iff.2 ⟨hitem, Expr.alphabet_braceFree⟩
      refine List.forall_mem_cons.2 ⟨?_, ih hitems _ hrest⟩
      exact leads_allocate (hitem.mono hname) (fun size hsize => hexpr.mono (hsizes size hsize)) _ m

theorem leads_join {sep : List Char} {ss : List (List Char)} {m : Nat} (hsep : BraceFree sep)
    (hss : ∀ s ∈ ss, Leads m s m) : Leads m (Text.join sep ss) m := by
  fun_induction Text.join sep ss with
  | case1 => rfl
  | case2 s => exact hss s (by simp)
  | case3 s rest _ ih =>
    refine ((hss s (by simp)).append (hsep.leads m)).append (ih fun t ht => hss t ?_)
    simp [ht]

theorem leads_dimension (h : BraceFree line) (names : Names) (m : Nat) :
    Leads m (dimension line names).1 m := by
  have hitems : ∀ item ∈ dimensionItems line, BraceFree item := fun item hitem =>
    h.mono (subset_of_mem_dimensionItems hitem)
  unfold dimension
  split
  · rename_i statements names' hs
    exact leads_join (by decide) (leads_allocateAll hitems names (by rw [hs]) m)
  · have hmark : Leads m "// ".toList m := rfl
    exact hmark.append (h.leads m)

theorem braceFree_readTarget {target : List Char} (ht : BraceFree target) (names : Names) :
    BraceFree (readTarget target names).1 := by
  unfold readTarget
  split
  · rename_i element helement
    obtain ⟨harray, hindex⟩ := Element.subset_of_ofText? helement
    simp only [braceFree_append_iff]
    exact ⟨⟨⟨ht.mono harray, by decide⟩, ht.mono hindex⟩, by decide +kernel⟩
  · simp only [braceFree_append_iff]
    exact ⟨⟨⟨⟨names.braceFree_introduce target, ht⟩, by decide +kernel⟩, ht⟩, by decide +kernel⟩

theorem braceFree_readTargets {targets : List (List Char)}
    (ht : ∀ target ∈ targets, BraceFree target) (names : Names) :
    ∀ statement ∈ (readTargets targets names).1, BraceFree statement := by
  induction targets generalizing names with
  | nil => simp [readTargets]
  | cons target targets ih =>
    obtain ⟨htarget, htargets⟩ := List.forall_mem_cons.1 ht
    exact List.forall_mem_cons.2 ⟨braceFree_readTarget htarget names, ih htargets _⟩

theorem braceFree_output (h : BraceFree line) : BraceFree (output line) := by
  unfold output
  rw [braceFree_append_iff, braceFree_append_iff]
  exact ⟨⟨by decide, h.mono (outputArguments_subset line)⟩, by decide⟩

theorem braceFree_assignment (h : BraceFree line) (names : Names) :
    BraceFree (assignment line names).1 := by
  unfold assignment
  split
  · exact braceFree_append_iff.2 ⟨by decide, h⟩
  · rename_i left right hsides
    obtain ⟨hleft, hright⟩ := subset_of_assignmentSides? hsides
    have hlet : BraceFree (if '[' ∈ left then ([], names) else names.introduce left).1 := by
      split
      · exact List.forall_mem_nil _
      · exact names.braceFree_introduce left
    simp only [braceFree_append_iff]
    exact ⟨⟨⟨⟨hlet, h.mono hleft⟩, by decide⟩,
      Expr.braceFree_booleans (Expr.braceFree_expression (h.mono hright))⟩, by decide⟩

theorem braceFree_call (h : BraceFree line) : BraceFree (call line) :=
  braceFree_append_iff.2 ⟨Expr.braceFree_expression h, by decide⟩

end Statement

/-! ### Headers and terminators -/

namespace Header

variable {line : List Char}

/-- A header of a block: a text, a part of the line and a brace. -/
theorem leads_guarded {head guard : List Char} (hhead : BraceFree head) (hguard : BraceFree guard)
    (m : Nat) : Leads m (head ++ guard ++ ") \x7b".toList) (m + 1) := by
  have hbrace : Leads m ") \x7b".toList (m + 1) := rfl
  exact ((hhead.leads m).append (hguard.leads m)).append hbrace

theorem leads_branch (h : BraceFree line) (m : Nat) : Leads m (branch line) (m + 1) :=
  leads_guarded (by decide) (Expr.braceFree_condition (h.mono
    (List.Subset.trans (Text.stripLastKey_subset _ _) (Text.stripWholeKey_subset _ line)))) m

theorem leads_whileLoop (h : BraceFree line) (m : Nat) : Leads m (whileLoop line) (m + 1) :=
  leads_guarded (by decide) (Expr.braceFree_condition (h.mono
    (List.Subset.trans (Text.stripLastKey_subset _ _) (Text.stripWholeKey_subset _ line)))) m

theorem leads_untilLoop (h : BraceFree line) (m : Nat) : Leads (m + 1) (untilLoop line) m := by
  have hbrace : Leads (m + 1) "\x7d while (!(".toList m := rfl
  have hend : Leads m "));".toList m := rfl
  have hguard : BraceFree (Text.trim ((afterUntil? line).getD line)) :=
    h.mono (List.Subset.trans (Text.trim_subset _) (afterUntil?_getD_subset line))
  exact (hbrace.append ((Expr.braceFree_condition hguard).leads m)).append hend

theorem CountedLoop.braceFree_stepCode {loop : CountedLoop}
    (hstep : ∀ step ∈ loop.step, BraceFree step) : BraceFree loop.stepCode := by
  have hgiven : BraceFree (loop.step.getD []) := by
    cases hs : loop.step with
    | none => exact List.forall_mem_nil _
    | some step => exact hstep step hs
  simp only [CountedLoop.stepCode]
  split
  · decide
  · exact Expr.braceFree_expression (hgiven.mono (Text.trim_subset _))

theorem leads_countedLoop (h : BraceFree line) {names : Names} {code : List Char}
    (hcode : countedLoop? line names = some code) (m : Nat) : Leads m code (m + 1) := by
  obtain ⟨loop, hloop, rfl⟩ := Option.map_eq_some_iff.1 hcode
  obtain ⟨hcounter, hfirst, hlast, hstep⟩ := CountedLoop.subset_of_ofText? hloop
  have hbound : ∀ {part : List Char}, part ⊆ line →
      BraceFree (Expr.expression (Text.trim part)) := fun hpart =>
    Expr.braceFree_expression (h.mono (List.Subset.trans (Text.trim_subset _) hpart))
  have hlet : BraceFree (if names.contains loop.counter then [] else "let ".toList) := by
    split <;> decide
  have hrelation : BraceFree
      (if loop.stepCode.head? = some '-' then " >= ".toList else " <= ".toList) := by
    split <;> decide
  have hstepCode := CountedLoop.braceFree_stepCode fun step hs => h.mono (hstep step hs)
  have hcounter := h.mono hcounter
  unfold CountedLoop.code
  refine leads_guarded ?_ hstepCode m
  simp only [braceFree_append_iff]
  exact ⟨⟨⟨⟨⟨⟨⟨⟨⟨⟨⟨by decide, hlet⟩, hcounter⟩, by decide⟩, hbound hfirst⟩, by decide⟩, hcounter⟩,
    hrelation⟩, hbound hlast⟩, by decide⟩, hcounter⟩, by decide⟩

/-- A function whose parts stand in a line without braces opens one brace. -/
theorem Function.leads_opening {f : Function} (h : BraceFree line) (hf : f.WrittenIn line)
    (m : Nat) : Leads m f.opening (m + 1) := by
  have hparams : BraceFree (Text.join ", ".toList f.params) :=
    Text.braceFree_join (by decide) fun p hp => h.mono (hf.params_subset p hp)
  refine leads_guarded ?_ hparams m
  simp only [braceFree_append_iff]
  exact ⟨⟨by decide, h.mono hf.name_subset⟩, by decide⟩

end Header

end Pseudocode
