import Mathlib.Data.List.DropRight
import Pseudocode.Proofs.Pass.Convert
import Pseudocode.Proofs.Correspondence.Result
import Pseudocode.Proofs.Pattern
import Pseudocode.Proofs.Scan.Places
import Pseudocode.Proofs.SourceLine

/-!
# Comments at the end of a line

A comment may be put at the end of a line of code, whatever it says.  The line keeps its code, and
its text matters only where it is quoted: in notices, and in the comment that a line of no known
form becomes.

* `SourceLine.ofText?_append_trailing` : a line with a comment is converted like the line without.
* `Correspondence.replacing` : sources that differ in one line.
* `convert_ignores_trailing_comment` : **comments at the end of a line are inert.**
-/

namespace Pseudocode

open Scan

/-! ### The code of a line with a comment -/

namespace SourceLine

theorem commentMark_quoteFree : QuoteFree commentMark := by decide

/-- The space and the comment that are put behind a line. -/
def trailing (comment : List Char) : List Char := ' ' :: (commentMark ++ comment)

/-- The line ends in code and holds the mark of a comment in literals only; so it is no comment
itself. -/
structure TakesComment (raw : List Char) : Prop where
  closed : unclosed raw = false
  noMark : OnlyInLiterals commentMark raw

variable {raw : List Char}

theorem TakesComment.trimStart (h : TakesComment raw) : TakesComment (Text.trimStart raw) := by
  have hspaces : QuoteFree (raw.takeWhile Text.isSpace) :=
    quoteFree_of_forall rfl rfl (List.all_eq_true.1 List.all_takeWhile)
  have hraw : raw.takeWhile Text.isSpace ++ Text.trimStart raw = raw :=
    List.takeWhile_append_dropWhile
  constructor
  · rw [← unclosed_append_of_quoteFree hspaces, hraw]
    exact h.closed
  · exact OnlyInLiterals.right hspaces (by rw [hraw]; exact h.noMark)

theorem trim_append_trailing (h : Text.trimStart raw ≠ []) (comment : List Char) :
    Text.trim (raw ++ trailing comment) =
      Text.trimStart raw ++ trailing (Text.trimEnd comment) := by
  have hmark : Text.trimStart raw ++ trailing comment =
      (Text.trimStart raw ++ [' ', '/']) ++ '/' :: comment := by
    simp [trailing, commentMark]
  rw [Text.trim, Text.trimStart_append h, hmark, Text.trimEnd_append_cons (by decide)]
  simp [trailing, commentMark]

/-- The mark of a comment that is put behind a line is the first one that stands in code. -/
theorem breakCode?_append_trailing (h : TakesComment raw) (comment : List Char) :
    breakCode? commentMark (raw ++ trailing comment) =
      some (raw ++ [' '], commentMark ++ comment) :=
  breakCode?_append_cons (by decide) commentMark_quoteFree (by decide) (by decide) h.noMark
    h.closed comment

theorem withoutComment_append_trailing (h : TakesComment raw) (hraw : raw ≠ [])
    (comment : List Char) :
    withoutComment (raw ++ trailing comment) = Text.trim (raw ++ [' ']) := by
  rw [withoutComment, breakCode?_append_trailing h]
  cases raw with
  | nil => exact absurd rfl hraw
  | cons c cs => rfl

theorem withoutComment_eq_self (h : OnlyInLiterals commentMark raw) : withoutComment raw = raw := by
  rw [withoutComment, breakCode?_eq_none h]

theorem not_commentMark_isPrefix (h : OnlyInLiterals commentMark raw) : ¬ commentMark <+: raw := by
  rintro ⟨rest, hrest⟩
  cases h [] rest hrest.symm

theorem onlyInLiterals_trim (h : OnlyInLiterals commentMark raw) :
    OnlyInLiterals commentMark (Text.trim raw) := by
  obtain ⟨front, back, hfront, -, hraw⟩ := Text.exists_trim_eq raw
  rw [hraw] at h
  exact (h.right (quoteFree_of_forall rfl rfl hfront)).left

/-- **A line with a comment is converted like the line without it.** -/
theorem ofText?_append_trailing {num : Int} {l : SourceLine} (hl : ofText? num raw = some l)
    (h : TakesComment raw) (comment : List Char) :
    ∃ l', ofText? num (raw ++ trailing comment) = some l' ∧ l'.num = l.num ∧ l.Alike l' := by
  obtain ⟨hne, rfl⟩ := ofText?_eq_some_iff.1 hl
  have hstart : Text.trimStart raw ≠ [] := fun hnil => hne (by rw [Text.trim, hnil]; rfl)
  have hagain : Text.trimStart (Text.trimStart raw) = Text.trimStart raw :=
    List.dropWhile_idempotent Text.isSpace raw
  have htext := trim_append_trailing hstart comment
  have hcode : codeOf (Text.trim (raw ++ trailing comment)) = codeOf (Text.trim raw) := by
    have hfront : Text.trim (Text.trimStart raw ++ [' ']) = Text.trim raw := by
      rw [Text.trim, Text.trimStart_append (by rwa [hagain]), hagain,
        Text.trimEnd_concat (by decide), Text.trim]
    rw [codeOf, codeOf, htext, withoutComment_append_trailing h.trimStart hstart, hfront,
      withoutComment_eq_self (onlyInLiterals_trim h.noMark)]
  have hcomment : commentMark.isPrefixOf (Text.trim raw) = false :=
    Bool.eq_false_iff.2 fun hstarts =>
      not_commentMark_isPrefix (onlyInLiterals_trim h.noMark)
        (List.isPrefixOf_iff_prefix.1 hstarts)
  have hcomment' : commentMark.isPrefixOf (Text.trim (raw ++ trailing comment)) = false := by
    refine Bool.eq_false_iff.2 fun hstarts => ?_
    rw [htext, List.isPrefixOf_iff_prefix] at hstarts
    -- the space behind the line keeps its last character apart from the mark
    exact not_commentMark_isPrefix h.trimStart.noMark (isPrefix_of_notMem (by decide) hstarts)
  refine ⟨_, ofText?_eq_some_iff.2 ⟨?_, rfl⟩, rfl, hcode, congrArg Text.lower hcode, ?_, ?_⟩
  · rw [htext]
    exact List.append_ne_nil_of_left_ne_nil hstart _
  · exact hcomment'.trans hcomment.symm
  · exact fun hc => absurd (hcomment.symm.trans hc) Bool.false_ne_true

end SourceLine

/-! ### Sources that differ in one line -/

/-- Every line corresponds to itself, and one line to another one that is converted alike. -/
def Correspondence.replacing {l₀ l₁ : SourceLine} (h : l₀.Alike l₁) : Correspondence where
  Line l l' := l' = l ∨ l = l₀ ∧ l' = l₁
  alike := by
    rintro l l' (rfl | ⟨rfl, rfl⟩)
    · exact ⟨rfl, rfl, rfl, fun _ => rfl⟩
    · exact h

theorem Correspondence.number_replacing {l₀ l₁ : SourceLine} {h : l₀.Alike l₁}
    (hnum : l₁.num = l₀.num) {n n' : Int} (hn : (replacing h).Number n n') : n' = n := by
  obtain ⟨l, l', rfl | ⟨rfl, rfl⟩, rfl, rfl⟩ := hn
  · rfl
  · exact hnum

/-- The two diagnostics are about the same line, of the same class, and give the same advice. -/
structure Diagnostic.Agrees (d d' : Diagnostic) : Prop where
  line_eq : d'.line = d.line
  category_eq : d'.category = d.category
  suggestion_eq : d'.suggestion = d.suggestion

theorem Notice.Matches.agrees {S : Correspondence} (hS : ∀ {n n'}, S.Number n n' → n' = n)
    {n n' : Notice} (h : n.Matches S n') (strict : Bool) :
    (n.report strict).Agrees (n'.report strict) := by
  cases h with
  | quote hl hcause =>
    have hline := hS (Correspondence.number_of_line hl)
    cases hcause with
    | same _ => exact ⟨hline, rfl, rfl⟩
    | wrongCloser _ => exact ⟨hline, rfl, rfl⟩
  | unclosed hb => exact ⟨hS hb.line, rfl, rfl⟩
  | missingEnd hn => exact ⟨hS hn, rfl, rfl⟩

/-- **Sources that differ in one line.**  Where the two lines are converted alike and have the same
number, and the first one is not reported to be of no known form, the results agree. -/
theorem convert_replacing {src src' : String} {l₀ l₁ : SourceLine} (h : l₀.Alike l₁)
    (hnum : l₁.num = l₀.num)
    (hlines : List.Forall₂ (Correspondence.replacing h).Line (sourceLines 1 src.toList)
      (sourceLines 1 src'.toList))
    (strict : Bool)
    (hleft : (l₀.notice .unrecognised).report strict ∉ (convert strict src).details) :
    (convert strict src').text = (convert strict src).text ∧
      (convert strict src').mainName = (convert strict src).mainName ∧
      List.Forall₂ Diagnostic.Agrees (convert strict src).details
        (convert strict src').details := by
  have hprograms := Program.ofLines?_matches hlines
  rw [convert_eq] at hleft
  rw [convert_eq, convert_eq]
  generalize Program.ofLines? (sourceLines 1 src.toList) = p at hprograms hleft ⊢
  generalize Program.ofLines? (sourceLines 1 src'.toList) = p' at hprograms ⊢
  cases hprograms with
  | none => exact ⟨rfl, rfl, .cons ⟨rfl, rfl, rfl⟩ .nil⟩
  | @some p p' hp =>
    have hkeeps : p.convert.KeepsTexts (.replacing h) := by
      rintro l l' (rfl | ⟨rfl, rfl⟩) hnotice
      · rfl
      · exact absurd (List.mem_map_of_mem hnotice) hleft
    refine ⟨?_, ?_, ?_⟩
    · simp only [Conversion.ofWritten_text, hp.convert.pieces_eq hkeeps]
    · simp only [Conversion.ofWritten_mainName, hp.name_eq]
    · exact List.rel_map
        (fun _ _ hn => hn.agrees (Correspondence.number_replacing hnum) strict) hp.convert.notices

namespace SourceLine

theorem ofRaws_modify {num : Int} {raws : List (List Char)} {i : Nat} {raw : List Char}
    {l l' : SourceLine} {f : List Char → List Char} (hraw : raws[i]? = some raw)
    (hl : ofText? (num + i) raw = some l) (hl' : ofText? (num + i) (f raw) = some l') :
    List.Forall₂ (fun a b => b = a ∨ a = l ∧ b = l') (ofRaws num raws)
      (ofRaws num (raws.modify i f)) := by
  induction raws generalizing num i with
  | nil => cases hraw
  | cons first rest ih =>
    cases i with
    | zero =>
      obtain rfl : first = raw := by simpa using hraw
      rw [Int.natCast_zero, Int.add_zero] at hl hl'
      simp only [List.modify_zero_cons, ofRaws, hl, hl']
      exact .cons (.inr ⟨rfl, rfl⟩) (List.forall₂_same.2 fun _ _ => .inl rfl)
    | succ i =>
      have hnum : num + ((i + 1 : Nat) : Int) = num + 1 + i := by omega
      rw [hnum] at hl hl'
      have hrest := ih (by simpa using hraw) hl hl'
      simp only [List.modify_succ_cons, ofRaws]
      cases ofText? num first with
      | none => exact hrest
      | some _ => exact .cons (.inl rfl) hrest

end SourceLine

/-- The source with a text put behind the line at the given place, counted from 0. -/
def appendToLine (src : String) (place : Nat) (tail : List Char) : String :=
  String.ofList (Text.join ['\n'] ((Text.splitLines src.toList).modify place (· ++ tail)))

theorem splitLines_appendToLine {src : String} {place : Nat} {tail : List Char}
    (hplace : place < (Text.splitLines src.toList).length) (htail : '\n' ∉ tail) :
    Text.splitLines (appendToLine src place tail).toList =
      (Text.splitLines src.toList).modify place (· ++ tail) := by
  obtain ⟨before, raw, behind, hlines, -, hmodify⟩ :=
    List.exists_of_modify (· ++ tail) hplace
  have hfeed : ∀ line ∈ before ++ raw :: behind, '\n' ∉ line := fun line hline =>
    Text.notMem_of_mem_splitOn (hlines ▸ hline)
  rw [appendToLine, String.toList_ofList, hmodify]
  refine Text.splitOn_join (by simp) fun line hline => ?_
  obtain hline | rfl | hline := List.mem_append.1 hline |>.imp_right List.mem_cons.1
  · exact hfeed line (List.mem_append_left _ hline)
  · have hraw := hfeed raw (by simp)
    simp [hraw, htail]
  · exact hfeed line (by simp [hline])

/-- **Comments at the end of a line are inert.**  Take a line that is not blank, ends in code, holds
the mark of a comment in literals only, and is not reported to have been left as a comment.  With
any comment put behind it the source has the same result, but for the text of the line where a
diagnostic quotes it. -/
theorem convert_ignores_trailing_comment (strict : Bool) (src : String) (place : Nat)
    (raw comment : List Char) (hline : (Text.splitLines src.toList)[place]? = some raw)
    (hblank : Text.trim raw ≠ []) (hclosed : unclosed raw = false)
    (hmark : OnlyInLiterals commentMark raw) (hfeed : '\n' ∉ comment)
    (hleft : Notice.report strict ⟨1 + place, String.ofList (Text.trim raw), .unrecognised⟩ ∉
      (convert strict src).details) :
    let before := convert strict src
    let behind := convert strict (appendToLine src place (" //".toList ++ comment))
    (behind.text = before.text ∧ behind.mainName = before.mainName ∧
      behind.success = before.success) ∧
    List.Forall₂ Diagnostic.Agrees before.details behind.details := by
  intro before behind
  obtain ⟨l, hl⟩ : ∃ l, SourceLine.ofText? (1 + place) raw = some l :=
    ⟨_, SourceLine.ofText?_eq_some_iff.2 ⟨hblank, rfl⟩⟩
  obtain ⟨l', hl', hnum, halike⟩ :=
    SourceLine.ofText?_append_trailing hl ⟨hclosed, hmark⟩ comment
  have hlines : List.Forall₂ (Correspondence.replacing halike).Line (sourceLines 1 src.toList)
      (sourceLines 1 (appendToLine src place (" //".toList ++ comment)).toList) := by
    obtain ⟨hplace, -⟩ := List.getElem?_eq_some_iff.1 hline
    rw [sourceLines, sourceLines, splitLines_appendToLine hplace (by simpa using hfeed)]
    exact SourceLine.ofRaws_modify hline hl hl'
  obtain ⟨-, rfl⟩ := SourceLine.ofText?_eq_some_iff.1 hl
  obtain ⟨htext, hname, hdetails⟩ := convert_replacing halike hnum hlines strict hleft
  refine ⟨⟨htext, hname, ?_⟩, hdetails⟩
  exact Conversion.success_eq_of_categories (convert_agrees strict src) (convert_agrees strict _)
    (hdetails.imp fun _ _ hd => hd.category_eq)

/-- The line holds the mark in a literal and ends with a semicolon; the comment has quotes, a
keyword and another mark. -/
theorem convert_ignores_quoted_comment :
    let src := "Algoritmo p\n Si x = \"//\" Entonces ;\nFinPara\nFinAlgoritmo"
    let raw := " Si x = \"//\" Entonces ;".toList
    let comment := " '; FinSi // \" ".toList
    let before := convert true src
    let behind := convert true (appendToLine src 1 (" //".toList ++ comment))
    ((Text.splitLines src.toList)[1]? = some raw ∧ unclosed raw = false ∧
      OnlyInLiterals commentMark raw ∧ before.details.map (·.line) = [3]) ∧
    (behind.text = before.text ∧ behind.mainName = before.mainName ∧
      behind.success = before.success) ∧
    List.Forall₂ Diagnostic.Agrees before.details behind.details := by
  intro src raw comment before behind
  have hline : (Text.splitLines src.toList)[1]? = some raw := by decide +kernel
  have hclosed : unclosed raw = false := by decide +kernel
  have hmark : OnlyInLiterals commentMark raw :=
    (breakCode?_eq_none_iff (by decide) SourceLine.commentMark_quoteFree).1 (by decide +kernel)
  exact ⟨⟨hline, hclosed, hmark, by decide +kernel⟩,
    convert_ignores_trailing_comment true src 1 raw comment hline (by decide +kernel) hclosed hmark
      (by decide +kernel) (by decide +kernel)⟩

end Pseudocode
