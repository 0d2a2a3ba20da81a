import Pseudocode.Proofs.Scan.Parts
import Pseudocode.SourceLine

/-!
# Forms of lines

The text and the code of a line stand in the source.  A line that starts with a keyword, or that is
a terminator, starts with certain letters, which tells many forms of lines apart.

* `subset_of_mem_sourceLines` : what the lines of a source consist of.
* `mem_sourceLines_iff`, `sourceLines_ascending` : which lines they are, and how they are numbered.
* `isPrefix_of_hasKeyword`, `fin_isPrefix_of_isCloser` : how such lines start.
* `isFunctionStart_eq_false_of_isFunctionEnd` : no line both starts and ends a function.
* `isComment_eq_false_of_isProgramEnd` : no comment ends a program.
-/

namespace Pseudocode

namespace SourceLine

/-! ### What lines consist of -/

theorem withoutComment_subset (text : List Char) : withoutComment text ⊆ text := by
  unfold withoutComment
  split
  · rename_i c front rest hbreak
    have htext := Scan.eq_append_of_breakCode? hbreak
    refine List.Subset.trans (Text.trim_subset _) ?_
    rw [htext]
    exact List.subset_append_left _ _
  · exact List.Subset.refl text

theorem withoutSemicolon_subset (text : List Char) : withoutSemicolon text ⊆ text := by
  refine List.Subset.trans (Text.trim_subset _) ?_
  split
  · exact List.dropLast_subset text
  · exact List.Subset.refl text

theorem codeOf_subset (text : List Char) : codeOf text ⊆ text :=
  List.Subset.trans (withoutSemicolon_subset _) (withoutComment_subset text)

theorem subset_of_ofText? {num : Int} {raw : List Char} {l : SourceLine}
    (h : ofText? num raw = some l) : l.text ⊆ raw ∧ l.code ⊆ raw := by
  simp only [ofText?] at h
  split at h
  · cases h
  · cases h
    exact ⟨Text.trim_subset raw, List.Subset.trans (codeOf_subset _) (Text.trim_subset raw)⟩

theorem exists_raw_of_mem_ofRaws {num : Int} {raws : List (List Char)} {l : SourceLine}
    (h : l ∈ ofRaws num raws) : ∃ raw ∈ raws, l.text ⊆ raw ∧ l.code ⊆ raw := by
  induction raws generalizing num with
  | nil => cases h
  | cons raw raws ih =>
    have hrest : l ∈ ofRaws (num + 1) raws →
        ∃ raw' ∈ raw :: raws, l.text ⊆ raw' ∧ l.code ⊆ raw' := by
      intro h
      obtain ⟨raw', hmem, hsubset⟩ := ih h
      exact ⟨raw', List.mem_cons_of_mem raw hmem, hsubset⟩
    rw [ofRaws] at h
    split at h
    · rename_i hl
      obtain rfl | h := List.mem_cons.1 h
      · exact ⟨raw, List.mem_cons_self, subset_of_ofText? hl⟩
      · exact hrest h
    · exact hrest h

/-- The text and the code of a line stand in the source. -/
theorem subset_of_mem_sourceLines {num : Int} {src : List Char} {l : SourceLine}
    (h : l ∈ sourceLines num src) : l.text ⊆ src ∧ l.code ⊆ src := by
  obtain ⟨raw, hraw, htext, hcode⟩ := exists_raw_of_mem_ofRaws h
  have hsrc := Text.subset_of_mem_splitOn hraw
  exact ⟨List.Subset.trans htext hsrc, List.Subset.trans hcode hsrc⟩

theorem programName_subset (l : SourceLine) : l.programName ⊆ l.code ++ defaultProgramName := by
  unfold programName
  split
  · rename_i field fields hfields
    split
    · exact List.subset_append_right _ _
    · have hfield : field ⊆ l.code := Text.subset_of_mem_fields (by simp [hfields])
      exact List.subset_append_of_subset_left _
        (List.Subset.trans (Text.identifier_subset field) hfield)
  · exact List.subset_append_right _ _

/-! ### Numbers of lines -/

theorem ofText?_eq_some_iff {num : Int} {raw : List Char} {l : SourceLine} :
    ofText? num raw = some l ↔ Text.trim raw ≠ [] ∧
      l = ⟨num, Text.trim raw, codeOf (Text.trim raw), Text.lower (codeOf (Text.trim raw))⟩ := by
  simp only [ofText?]
  split
  · rename_i h
    simp [List.isEmpty_iff.1 h]
  · rename_i h
    rw [List.isEmpty_iff] at h
    simp [h, eq_comm]

theorem ofRaws_append (num : Int) (as bs : List (List Char)) :
    ofRaws num (as ++ bs) = ofRaws num as ++ ofRaws (num + as.length) bs := by
  induction as generalizing num with
  | nil => simp [ofRaws]
  | cons raw raws ih =>
    have hnum : num + 1 + (raws.length : Int) = num + ((raw :: raws).length : Int) := by
      simp only [List.length_cons, Int.natCast_add, Int.natCast_one]
      omega
    simp only [List.cons_append, ofRaws, ih, hnum]
    split <;> rfl

theorem mem_ofRaws_iff {num : Int} {raws : List (List Char)} {l : SourceLine} :
    l ∈ ofRaws num raws ↔
      ∃ i raw, raws[i]? = some raw ∧ ofText? (num + (i : Nat)) raw = some l := by
  induction raws generalizing num with
  | nil => simp [ofRaws]
  | cons raw raws ih =>
    have hrest : l ∈ ofRaws (num + 1) raws ↔
        ∃ i raw', (raw :: raws)[i + 1]? = some raw' ∧
          ofText? (num + ((i + 1 : Nat) : Int)) raw' = some l := by
      rw [ih]
      simp [Int.add_assoc, Int.add_comm 1]
    have hsplit : (∃ i raw', (raw :: raws)[i]? = some raw' ∧
        ofText? (num + (i : Nat)) raw' = some l) ↔
          ofText? num raw = some l ∨ l ∈ ofRaws (num + 1) raws := by
      rw [hrest]
      constructor
      · rintro ⟨i, raw', hi, hl⟩
        cases i with
        | zero =>
          obtain rfl : raw = raw' := by simpa using hi
          exact .inl (by simpa using hl)
        | succ i => exact .inr ⟨i, raw', hi, hl⟩
      · rintro (hl | ⟨i, raw', hi, hl⟩)
        · exact ⟨0, raw, rfl, by simpa using hl⟩
        · exact ⟨i + 1, raw', hi, hl⟩
    rw [hsplit, ofRaws]
    cases ofText? num raw with
    | none => simp
    | some first => simp [eq_comm]

/-- **The lines of a source** are its texts between line feeds that are not blank, each with its
number. -/
theorem mem_sourceLines_iff {src : List Char} {l : SourceLine} :
    l ∈ sourceLines 1 src ↔ ∃ i raw, (Text.splitLines src)[i]? = some raw ∧
      ofText? (1 + (i : Nat)) raw = some l :=
  mem_ofRaws_iff

theorem num_of_mem_ofRaws {num : Int} {raws : List (List Char)} {l : SourceLine}
    (h : l ∈ ofRaws num raws) : num ≤ l.num := by
  obtain ⟨i, raw, -, hl⟩ := mem_ofRaws_iff.1 h
  obtain ⟨-, rfl⟩ := ofText?_eq_some_iff.1 hl
  change num ≤ num + (i : Int)
  omega

/-- The numbers of the lines increase. -/
def Ascending (ls : List SourceLine) : Prop := ls.Pairwise fun l l' => l.num < l'.num

theorem ofRaws_ascending (num : Int) (raws : List (List Char)) : Ascending (ofRaws num raws) := by
  induction raws generalizing num with
  | nil => exact List.Pairwise.nil
  | cons raw raws ih =>
    rw [ofRaws]
    split
    · rename_i l hl
      obtain ⟨-, rfl⟩ := ofText?_eq_some_iff.1 hl
      refine List.Pairwise.cons (fun l' hl' => ?_) (ih (num + 1))
      have := num_of_mem_ofRaws hl'
      change num < l'.num
      omega
    · exact ih (num + 1)

theorem sourceLines_ascending (src : List Char) : Ascending (sourceLines 1 src) :=
  ofRaws_ascending 1 _

theorem Ascending.nodup_num {ls : List SourceLine} (h : Ascending ls) : (ls.map (·.num)).Nodup := by
  refine List.pairwise_map.2 (h.imp fun hlt => ?_)
  exact Int.ne_of_lt hlt

/-! ### How lines start -/

variable {l : SourceLine}

theorem isPrefix_of_hasKeyword {word : String} (h : l.hasKeyword word = true) :
    word.toList <+: l.lower := by
  simp only [hasKeyword, Text.hasKeyword, Bool.and_eq_true, List.isPrefixOf_iff_prefix] at h
  exact h.1

theorem fin_isPrefix_of_isCloser {name : String} (hname : "fin".toList <+: name.toList)
    (h : l.isCloser name = true) : "fin".toList <+: l.lower := by
  simp only [isCloser, closerName, beq_iff_eq] at h
  split at h
  · rename_i hfin
    exact List.isPrefixOf_iff_prefix.1 hfin
  · rw [h]
    exact hname

theorem fin_isPrefix_of_isFunctionEnd (h : l.isFunctionEnd = true) :
    "fin".toList <+: l.lower := by
  simp only [isFunctionEnd, Bool.or_eq_true] at h
  obtain (h | h) | h := h <;> exact fin_isPrefix_of_isCloser (by decide) h

/-- A line that starts with some text starts with no keyword that disagrees with it. -/
theorem hasKeyword_eq_false {front : List Char} {word : String} (hfront : front <+: l.lower)
    (h : ¬ (front <+: word.toList ∨ word.toList <+: front)) : l.hasKeyword word = false := by
  cases hw : l.hasKeyword word with
  | false => rfl
  | true => exact absurd (List.prefix_or_prefix_of_prefix hfront (isPrefix_of_hasKeyword hw)) h

theorem isFunctionStart_eq_false_of_isFunctionEnd (h : l.isFunctionEnd = true) :
    l.isFunctionStart = false := by
  have hfin := fin_isPrefix_of_isFunctionEnd h
  simp only [isFunctionStart, Bool.or_eq_false_iff]
  exact ⟨⟨hasKeyword_eq_false hfin (by decide), hasKeyword_eq_false hfin (by decide)⟩,
    hasKeyword_eq_false hfin (by decide)⟩

theorem fin_isPrefix_of_isProgramEnd (h : l.isProgramEnd = true) : "fin".toList <+: l.lower := by
  simp only [isProgramEnd, Bool.or_eq_true] at h
  obtain h | h := h <;> exact fin_isPrefix_of_isCloser (by decide) h

theorem isProgramStart_eq_false_of_isProgramEnd (h : l.isProgramEnd = true) :
    l.isProgramStart = false := by
  have hfin := fin_isPrefix_of_isProgramEnd h
  rw [isProgramStart, Bool.and_eq_false_iff, Bool.or_eq_false_iff]
  exact .inr ⟨hasKeyword_eq_false hfin (by decide), hasKeyword_eq_false hfin (by decide)⟩

/-- The code of a comment is the comment, whatever marks stand behind the first one. -/
theorem withoutComment_of_isPrefix {text : List Char} (h : commentMark <+: text) :
    withoutComment text = text := by
  obtain ⟨rest, rfl⟩ := h
  have hbreak : Scan.breakCode? commentMark (commentMark ++ rest) =
      some ([], commentMark ++ rest) :=
    rfl
  rw [withoutComment, hbreak]

/-- A comment starts with a stroke, also without its semicolon and in lower case. -/
theorem head?_lower_of_isComment {num : Int} {raw : List Char} (hl : ofText? num raw = some l)
    (h : l.isComment = true) : l.lower.head? = some '/' := by
  obtain ⟨-, rfl⟩ := ofText?_eq_some_iff.1 hl
  have hmark := List.isPrefixOf_iff_prefix.1 h
  change (Text.lower (codeOf (Text.trim raw))).head? = _
  rw [codeOf, withoutComment_of_isPrefix hmark, withoutSemicolon]
  obtain ⟨rest, hrest⟩ := hmark
  rw [← hrest]
  have hfront : ∀ s, (Text.lower (Text.trim ('/' :: s))).head? = some '/' := fun s => by
    rw [Text.lower, List.head?_map, Text.head?_trim_cons (by decide)]
    rfl
  split
  · exact hfront _
  · exact hfront _

theorem isComment_eq_false_of_isProgramEnd {first : Int} {src : List Char}
    (hl : l ∈ sourceLines first src) (h : l.isProgramEnd = true) : l.isComment = false := by
  obtain ⟨i, raw, -, hraw⟩ := mem_ofRaws_iff.1 hl
  obtain ⟨rest, hrest⟩ := fin_isPrefix_of_isProgramEnd h
  cases hcomment : l.isComment with
  | false => rfl
  | true =>
    have hhead := head?_lower_of_isComment hraw hcomment
    rw [← hrest] at hhead
    cases hhead

end SourceLine

end Pseudocode
