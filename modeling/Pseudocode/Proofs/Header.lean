import Mathlib.Data.Option.Basic
import Pseudocode.Header.Counted
import Pseudocode.Header.Function
import Pseudocode.Header.Guard
import Pseudocode.Proofs.Scan.Parts

/-!
# The parts of headers

What is read off the header of a block or of a function stands in its line.  The readers of counted
loops try several ways to go on; whichever succeeds, it goes on with a rest of the text.

* `exists_append_of_overBlanks` and the like : what a reader that succeeds has passed over.
* `CountedLoop.subset_of_ofText?` : the parts of a counted loop.
* `Function.readFrom_of_ofText?` : the name, the parameters and the result of a function.
-/

namespace Pseudocode

namespace Header

/-! ### Guards -/

theorem suffix_of_afterUntil? {s rest : List Char} (h : afterUntil? s = some rest) :
    rest <:+ s := by
  simp only [afterUntil?, Option.bind_eq_bind, Option.bind_eq_some_iff, Prod.exists] at h
  obtain ⟨_, s₁, h₁, s₂, h₂, _, s₃, h₃, h⟩ := h
  cases h
  exact (Text.suffix_of_splitWholeKey? h₃).trans
    ((Text.suffix_of_skipSomeBlanks? h₂).trans (Text.suffix_of_splitKey? h₁))

theorem afterUntil?_getD_subset (line : List Char) : (afterUntil? line).getD line ⊆ line :=
  Text.getD_subset fun _ h => (suffix_of_afterUntil? h).subset

/-! ### Choices -/

section Choice

variable {β : Type} {result : β}

theorem exists_append_of_overBlanks {next : List Char → Option β} {s : List Char}
    (h : overBlanks next s = some result) :
    ∃ gap t, s = gap ++ t ∧ (∀ c ∈ gap, Text.isBlank c = true) ∧ next t = some result := by
  induction s with
  | nil => exact ⟨[], [], rfl, by simp, h⟩
  | cons c cs ih =>
    rw [overBlanks] at h
    split at h
    · rename_i hc
      obtain hcs | ⟨-, hnext⟩ := (Option.orElse_eq_some _ _ _).1 h
      · obtain ⟨gap, t, rfl, hgap, hnext⟩ := ih hcs
        exact ⟨c :: gap, t, rfl, List.forall_mem_cons.2 ⟨hc, hgap⟩, hnext⟩
      · exact ⟨[], c :: cs, rfl, by simp, hnext⟩
    · exact ⟨[], c :: cs, rfl, by simp, h⟩

theorem exists_append_of_overSomeBlanks {next : List Char → Option β} {s : List Char}
    (h : overSomeBlanks next s = some result) :
    ∃ c gap t, s = c :: (gap ++ t) ∧ Text.isBlank c = true ∧ (∀ c ∈ gap, Text.isBlank c = true) ∧
      next t = some result := by
  cases s with
  | nil => cases h
  | cons c cs =>
    rw [overSomeBlanks] at h
    split at h
    · rename_i hc
      obtain ⟨gap, t, rfl, hgap, hnext⟩ := exists_append_of_overBlanks h
      exact ⟨c, gap, t, rfl, hc, hgap, hnext⟩
    · cases h

theorem exists_append_of_overKey {key : List Char} {next : List Char → Option β} {s : List Char}
    (h : overKey key next s = some result) :
    ∃ word t, s = word ++ t ∧ word.map Text.keyChar = key ∧ next t = some result := by
  simp only [overKey, Option.bind_eq_some_iff, Prod.exists] at h
  obtain ⟨word, rest, hs, hnext⟩ := h
  obtain ⟨hword, rfl⟩ := Text.splitKey?_eq_some_iff.1 hs
  exact ⟨word, rest, rfl, hword, hnext⟩

theorem exists_suffix_of_overBlanks {next : List Char → Option β} {s : List Char}
    (h : overBlanks next s = some result) : ∃ t, t <:+ s ∧ next t = some result := by
  obtain ⟨gap, t, rfl, -, hnext⟩ := exists_append_of_overBlanks h
  exact ⟨t, List.suffix_append gap t, hnext⟩

theorem exists_suffix_of_overSomeBlanks {next : List Char → Option β} {s : List Char}
    (h : overSomeBlanks next s = some result) : ∃ t, t <:+ s ∧ next t = some result := by
  obtain ⟨c, gap, t, rfl, -, -, hnext⟩ := exists_append_of_overSomeBlanks h
  exact ⟨t, List.suffix_append (c :: gap) t, hnext⟩

theorem exists_suffix_of_overKey {key : List Char} {next : List Char → Option β} {s : List Char}
    (h : overKey key next s = some result) : ∃ t, t <:+ s ∧ next t = some result := by
  obtain ⟨word, t, rfl, -, hnext⟩ := exists_append_of_overKey h
  exact ⟨t, List.suffix_append word t, hnext⟩

theorem exists_append_of_shortestFrom {next : List Char → List Char → Option β}
    {held s : List Char} (h : shortestFrom next held s = some result) :
    ∃ part rest, held.reverse ++ s = part ++ rest ∧ next part rest = some result := by
  induction s generalizing held with
  | nil => cases h
  | cons c cs ih =>
    rw [shortestFrom] at h
    split at h
    · cases h
    · obtain hnext | ⟨-, hcs⟩ := (Option.orElse_eq_some _ _ _).1 h
      · exact ⟨_, _, by simp, hnext⟩
      · obtain ⟨part, rest, heq, hpart⟩ := ih hcs
        exact ⟨part, rest, by simpa using heq, hpart⟩

theorem exists_append_of_shortest {next : List Char → List Char → Option β} {s : List Char}
    (h : shortest next s = some result) :
    ∃ part rest, s = part ++ rest ∧ next part rest = some result :=
  exists_append_of_shortestFrom h

end Choice

/-! ### Counted loops -/

namespace CountedLoop

theorem eq_of_overEnd {β : Type} {result result' : β} {s : List Char}
    (h : overEnd result s = some result') : result' = result := by
  obtain ⟨t, -, h⟩ := exists_suffix_of_overSomeBlanks h
  obtain ⟨u, -, h⟩ := exists_suffix_of_overKey h
  split at h
  · cases h
    rfl
  · cases h

theorem subset_of_stepAndEnd {s : List Char} {step : Option (List Char)}
    (h : stepAndEnd s = some step) : ∀ text ∈ step, text ⊆ s := by
  rintro text rfl
  obtain h | ⟨-, h⟩ := (Option.orElse_eq_some _ _ _).1 h
  · obtain ⟨s₁, h₁, h⟩ := exists_suffix_of_overSomeBlanks h
    obtain ⟨s₂, h₂, h⟩ := exists_suffix_of_overKey h
    obtain ⟨s₃, h₃, h⟩ := exists_suffix_of_overSomeBlanks h
    obtain ⟨s₄, h₄, h⟩ := exists_suffix_of_overKey h
    obtain ⟨s₅, h₅, h⟩ := exists_suffix_of_overSomeBlanks h
    obtain ⟨part, rest, rfl, hend⟩ := exists_append_of_shortest h
    cases eq_of_overEnd hend
    exact List.Subset.trans (List.subset_append_left _ _)
      (h₅.trans (h₄.trans (h₃.trans (h₂.trans h₁)))).subset
  · cases eq_of_overEnd h

theorem subset_of_boundsAndStep {counter s : List Char} {loop : CountedLoop}
    (h : boundsAndStep counter s = some loop) :
    loop.counter = counter ∧ loop.first ⊆ s ∧ loop.last ⊆ s ∧ ∀ step ∈ loop.step, step ⊆ s := by
  obtain ⟨s₁, h₁, h⟩ := exists_suffix_of_overBlanks h
  obtain ⟨first, s₂, rfl, hlast⟩ := exists_append_of_shortest h
  obtain ⟨s₃, h₃, h⟩ := exists_suffix_of_overSomeBlanks hlast
  obtain ⟨s₄, h₄, h⟩ := exists_suffix_of_overKey h
  obtain ⟨s₅, h₅, h⟩ := exists_suffix_of_overSomeBlanks h
  obtain ⟨last, s₆, rfl, hloop⟩ := exists_append_of_shortest h
  obtain ⟨step, hstep, rfl⟩ := Option.map_eq_some_iff.1 hloop
  have hs : first ++ s₂ ⊆ s := h₁.subset
  have hrest : last ++ s₆ ⊆ s :=
    List.Subset.trans (h₅.trans (h₄.trans (h₃.trans (List.suffix_append first s₂)))).subset hs
  refine ⟨rfl, (List.append_subset.1 hs).1, (List.append_subset.1 hrest).1, fun text htext => ?_⟩
  exact List.Subset.trans (subset_of_stepAndEnd hstep text htext) (List.append_subset.1 hrest).2

theorem subset_of_ofText? {line : List Char} {loop : CountedLoop} (h : ofText? line = some loop) :
    loop.counter ⊆ line ∧ loop.first ⊆ line ∧ loop.last ⊆ line ∧
      ∀ step ∈ loop.step, step ⊆ line := by
  simp only [ofText?, Option.bind_eq_bind, Option.bind_eq_some_iff, Prod.exists] at h
  obtain ⟨_, s₁, h₁, s₂, h₂, counter, s₃, h₃, h⟩ := h
  have hs₂ : s₂ ⊆ line :=
    ((Text.suffix_of_skipSomeBlanks? h₂).trans (Text.suffix_of_splitKey? h₁)).subset
  obtain rfl := Text.eq_append_of_splitWord? h₃
  obtain ⟨hcounter, hs₃⟩ := List.append_subset.1 hs₂
  have hbounds : ∀ s, s ⊆ Text.skipBlanks s₃ → boundsAndStep counter s = some loop →
      loop.counter ⊆ line ∧ loop.first ⊆ line ∧ loop.last ⊆ line ∧
        ∀ step ∈ loop.step, step ⊆ line := by
    intro s hs hloop
    obtain ⟨rfl, hfirst, hlast, hstep⟩ := subset_of_boundsAndStep hloop
    have hblanks := (Text.skipBlanks_suffix s₃).subset
    have hline : s ⊆ line := List.Subset.trans hs (List.Subset.trans hblanks hs₃)
    exact ⟨hcounter, List.Subset.trans hfirst hline, List.Subset.trans hlast hline,
      fun step h => List.Subset.trans (hstep step h) hline⟩
  split at h
  · rename_i s hs
    exact hbounds s (by simp [hs]) h
  · rename_i s hs
    exact hbounds s (by simp [hs]) h
  · cases h

end CountedLoop

/-! ### Functions -/

namespace Function

theorem subset_of_withoutMode? {mode param t : List Char} (h : withoutMode? mode param = some t) :
    t ⊆ param := by
  simp only [withoutMode?, Option.bind_eq_some_iff] at h
  obtain ⟨s₁, h₁, s₂, h₂, s₃, h₃, h₄⟩ := h
  have hblanks :=
    List.Subset.trans (Text.subset_of_dropLastBlanks? h₂) (Text.subset_of_dropLastKey? h₁)
  exact List.Subset.trans (Text.subset_of_dropLastBlanks? h₄)
    (List.Subset.trans (Text.subset_of_dropLastKey? h₃) hblanks)

theorem paramName_subset (param : List Char) : paramName param ⊆ param := by
  refine List.Subset.trans (Text.trim_subset _) (Text.getD_subset fun t ht => ?_)
  obtain h | ⟨-, h⟩ := (Option.orElse_eq_some _ _ _).1 ht
  · exact subset_of_withoutMode? h
  · exact subset_of_withoutMode? h

theorem subset_of_mem_paramNames {s name : List Char} (h : name ∈ paramNames s) : name ⊆ s := by
  obtain ⟨piece, hpiece, rfl⟩ := List.mem_map.1 (List.mem_filter.1 h).1
  exact List.Subset.trans (paramName_subset piece) (Scan.subset_of_mem_splitTopLevel hpiece)

/-- The parts of a function stand in the given text. -/
structure WrittenIn (f : Function) (s : List Char) : Prop where
  name_subset : f.name ⊆ s
  params_subset : ∀ param ∈ f.params, param ⊆ s
  result_subset : ∀ result ∈ f.result, result ⊆ s

/-- The name and the result of the function are words, and each parameter stands on one line. -/
structure Shaped (f : Function) : Prop where
  name_word : ∀ c ∈ f.name, Text.isLooseWordChar c = true
  params_oneLine : ∀ param ∈ f.params, '\n' ∉ param
  result_word : ∀ result ∈ f.result, ∀ c ∈ result, Text.isLooseWordChar c = true

/-- The parts of a function are read from the given text. -/
structure ReadFrom (f : Function) (s : List Char) : Prop extends f.WrittenIn s, f.Shaped

namespace ReadFrom

variable {f : Function} {s t params : List Char}

theorem mono (h : f.ReadFrom s) (hst : s ⊆ t) : f.ReadFrom t where
  name_subset := List.Subset.trans h.name_subset hst
  params_subset param hparam := List.Subset.trans (h.params_subset param hparam) hst
  result_subset result hresult := List.Subset.trans (h.result_subset result hresult) hst
  toShaped := h.toShaped

/-- What the names of parameters are is settled by the text between the parentheses. -/
theorem ofParts (hname : f.name ⊆ s ∧ ∀ c ∈ f.name, Text.isLooseWordChar c = true)
    (hparams : params ⊆ s ∧ '\n' ∉ params) (hf : f.params = paramNames params)
    (hresult : ∀ result ∈ f.result, result ⊆ s ∧ ∀ c ∈ result, Text.isLooseWordChar c = true) :
    f.ReadFrom s where
  name_subset := hname.1
  name_word := hname.2
  params_subset _ hparam :=
    List.Subset.trans (subset_of_mem_paramNames (hf ▸ hparam)) hparams.1
  params_oneLine _ hparam hmem := hparams.2 (subset_of_mem_paramNames (hf ▸ hparam) hmem)
  result_subset result h := (hresult result h).1
  result_word result h := (hresult result h).2

end ReadFrom

theorem word_of_splitNameAndParen? {s name rest : List Char}
    (h : splitNameAndParen? s = some (name, rest)) :
    (name ⊆ s ∧ ∀ c ∈ name, Text.isLooseWordChar c = true) ∧ rest ⊆ s := by
  simp only [splitNameAndParen?, Option.bind_eq_bind, Option.bind_eq_some_iff, Prod.exists] at h
  obtain ⟨word, s₁, h₁, h⟩ := h
  have hword := Text.isLooseWordChar_of_splitWord? h₁
  obtain rfl := Text.eq_append_of_splitWord? h₁
  have hs₁ := (Text.skipBlanks_suffix s₁).subset
  split at h
  · rename_i s₂ hs₂
    cases h
    rw [hs₂] at hs₁
    exact ⟨⟨List.subset_append_left _ _, hword⟩, by grind⟩
  · cases h

theorem oneLine_of_upToParen? {s params : List Char} (h : upToParen? s = some params) :
    params ⊆ s ∧ '\n' ∉ params := by
  induction s generalizing params with
  | nil => cases h
  | cons c cs ih =>
    rw [upToParen?] at h
    split at h
    · cases h
      exact ⟨List.nil_subset _, List.not_mem_nil⟩
    · split at h
      · cases h
      · rename_i hc
        obtain ⟨params, hcs, rfl⟩ := Option.map_eq_some_iff.1 h
        obtain ⟨hsubset, hline⟩ := ih hcs
        exact ⟨List.cons_subset_cons c hsubset,
          List.not_mem_cons_of_ne_of_not_mem (Ne.symm hc) hline⟩

theorem word_of_resultAfterColon? {s result : List Char}
    (h : resultAfterColon? s = some result) :
    result ⊆ s ∧ ∀ c ∈ result, Text.isLooseWordChar c = true := by
  unfold resultAfterColon? at h
  split at h
  · rename_i s₁ hs₁
    obtain ⟨⟨word, rest⟩, hword, rfl⟩ := Option.map_eq_some_iff.1 h
    have hs := (Text.skipBlanks_suffix s).subset
    have hrest := (Text.skipBlanks_suffix s₁).subset
    rw [hs₁] at hs
    rw [Text.eq_append_of_splitWord? hword] at hrest
    exact ⟨by grind, Text.isLooseWordChar_of_splitWord? hword⟩
  · cases h

theorem parts_of_paramsAndResult? {s params result : List Char}
    (h : paramsAndResult? s = some (params, result)) :
    (params ⊆ s ∧ '\n' ∉ params) ∧
      result ⊆ s ∧ ∀ c ∈ result, Text.isLooseWordChar c = true := by
  induction s generalizing params with
  | nil => cases h
  | cons c cs ih =>
    -- the parameters go on behind this character, unless it closes them
    have honward : (if c = '\n' then none
        else (paramsAndResult? cs).map fun p => (c :: p.1, p.2)) = some (params, result) →
        (params ⊆ c :: cs ∧ '\n' ∉ params) ∧
          result ⊆ c :: cs ∧ ∀ c ∈ result, Text.isLooseWordChar c = true := by
      intro h
      split at h
      · cases h
      · rename_i hc
        obtain ⟨⟨params, result⟩, hcs, heq⟩ := Option.map_eq_some_iff.1 h
        cases heq
        obtain ⟨⟨hparams, hline⟩, hresult, hword⟩ := ih hcs
        exact ⟨⟨List.cons_subset_cons c hparams,
          List.not_mem_cons_of_ne_of_not_mem (Ne.symm hc) hline⟩,
          List.subset_cons_of_subset c hresult, hword⟩
    simp only [paramsAndResult?] at h
    split at h
    · split at h
      · rename_i hcolon
        cases h
        obtain ⟨hresult, hword⟩ := word_of_resultAfterColon? hcolon
        exact ⟨⟨List.nil_subset _, List.not_mem_nil⟩, List.subset_cons_of_subset c hresult, hword⟩
      · exact honward h
    · exact honward h

theorem oneLine_of_paramsToEnd? {s params : List Char} (h : paramsToEnd? s = some params) :
    params ⊆ s ∧ '\n' ∉ params := by
  unfold paramsToEnd? at h
  split at h
  · rename_i hs
    cases h
    exact ⟨List.dropLast_subset s, of_decide_eq_true (Bool.and_eq_true_iff.1 hs).2⟩
  · cases h

theorem readFrom_of_afterArrow? {result s : List Char} {f : Function}
    (hresult : ∀ c ∈ result, Text.isLooseWordChar c = true) (h : afterArrow? result s = some f) :
    f.ReadFrom (result ++ s) := by
  simp only [afterArrow?, Option.bind_eq_bind, Option.bind_eq_some_iff, Prod.exists] at h
  obtain ⟨name, rest, hname, params, hparams, h⟩ := h
  cases h
  obtain ⟨⟨hname, hword⟩, hrest⟩ := word_of_splitNameAndParen? hname
  obtain ⟨hparams, hline⟩ := oneLine_of_upToParen? hparams
  have hs : Text.skipBlanks s ⊆ result ++ s :=
    List.subset_append_of_subset_right _ (Text.skipBlanks_suffix s).subset
  refine .ofParts ⟨List.Subset.trans hname hs, hword⟩
    ⟨List.Subset.trans hparams (List.Subset.trans hrest hs), hline⟩ rfl ?_
  rintro _ ⟨⟩
  exact ⟨List.subset_append_left _ _, hresult⟩

theorem readFrom_of_spacedArrow? {s : List Char} {f : Function} (h : spacedArrow? s = some f) :
    f.ReadFrom s := by
  simp only [spacedArrow?, Option.bind_eq_bind, Option.bind_eq_some_iff, Prod.exists] at h
  obtain ⟨result, s₁, h₁, s₂, h₂, h⟩ := h
  have hresult := Text.isLooseWordChar_of_splitWord? h₁
  obtain rfl := Text.eq_append_of_splitWord? h₁
  have hs₁ := (Text.suffix_of_skipSomeBlanks? h₂).subset
  split at h
  · exact (readFrom_of_afterArrow? hresult h).mono (by grind)
  · cases h

theorem readFrom_of_tightArrow? {s : List Char} {f : Function} (h : tightArrow? s = some f) :
    f.ReadFrom s := by
  simp only [tightArrow?, Option.bind_eq_bind, Option.bind_eq_some_iff, Prod.exists] at h
  obtain ⟨result, s₁, h₁, h⟩ := h
  have hresult := Text.isLooseWordChar_of_splitWord? h₁
  obtain rfl := Text.eq_append_of_splitWord? h₁
  split at h
  · exact (readFrom_of_afterArrow? hresult h).mono (by grind)
  · cases h

theorem readFrom_of_colon? {s : List Char} {f : Function} (h : colon? s = some f) :
    f.ReadFrom s := by
  simp only [colon?, Option.bind_eq_bind, Option.bind_eq_some_iff, Prod.exists] at h
  obtain ⟨name, rest, hname, params, result, hparams, h⟩ := h
  cases h
  obtain ⟨hname, hrest⟩ := word_of_splitNameAndParen? hname
  obtain ⟨⟨hparams, hline⟩, hresult, hword⟩ := parts_of_paramsAndResult? hparams
  refine .ofParts hname ⟨List.Subset.trans hparams hrest, hline⟩ rfl ?_
  rintro _ ⟨⟩
  exact ⟨List.Subset.trans hresult hrest, hword⟩

theorem readFrom_of_plain? {s : List Char} {f : Function} (h : plain? s = some f) :
    f.ReadFrom s := by
  simp only [plain?, Option.bind_eq_bind, Option.bind_eq_some_iff, Prod.exists] at h
  obtain ⟨name, s₁, h₁, h⟩ := h
  have hword := Text.isLooseWordChar_of_splitWord? h₁
  obtain rfl := Text.eq_append_of_splitWord? h₁
  have hname : name ⊆ name ++ s₁ := List.subset_append_left _ _
  have hs₁ := (Text.skipBlanks_suffix s₁).subset
  split at h
  · cases h
    exact .ofParts ⟨hname, hword⟩ ⟨List.nil_subset _, List.not_mem_nil⟩ rfl (by simp)
  · rename_i s₂ hs₂
    obtain ⟨params, hparams, rfl⟩ := Option.map_eq_some_iff.1 h
    obtain ⟨hparams, hline⟩ := oneLine_of_paramsToEnd? hparams
    rw [hs₂] at hs₁
    exact .ofParts ⟨hname, hword⟩ ⟨by grind, hline⟩ rfl (by simp)
  · cases h

/-- **The parts of a function are read from its header,** whichever form it has. -/
theorem readFrom_of_ofText? {line : List Char} {f : Function} (h : ofText? line = some f) :
    f.ReadFrom line := by
  simp only [ofText?, Option.bind_eq_bind, Option.bind_eq_some_iff, Prod.exists] at h
  obtain ⟨_, s₁, h₁, s, h₂, h⟩ := h
  have hs : s ⊆ line :=
    ((Text.suffix_of_skipSomeBlanks? h₂).trans (Text.suffix_of_splitAnyKey? h₁)).subset
  simp only [Option.orElse_eq_some] at h
  obtain h | ⟨-, h | ⟨-, h | ⟨-, h⟩⟩⟩ := h
  · exact (readFrom_of_spacedArrow? h).mono hs
  · exact (readFrom_of_colon? h).mono hs
  · exact (readFrom_of_tightArrow? h).mono hs
  · exact (readFrom_of_plain? h).mono hs

end Function

end Header

end Pseudocode
