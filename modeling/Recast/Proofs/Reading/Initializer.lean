import Mathlib
import Recast.Proofs.Comment.Printed
import Recast.Proofs.Grammar.Token
import Recast.Proofs.ParseTree
import Recast.Proofs.Position
import Recast.Proofs.Specifier
import Recast.Reading

/-!
Initializers and what stands before their brace.

An initializer arrives without its `static`, so the source is asked: from the first statement back to
the nearest brace, and what precedes it. In pieces of Java text (`Lexeme`), the brace and all before
it are code, comments and literals, and the gap between the brace and the statement is blanks and
comments (`Opening`). The look back knows no pieces. `Lexeme.MarksStatic` says what it comes to: the
last word before the brace decides as long as no comment stands there (`lastWord`), but a comment
right before the brace, and one in the gap that holds a brace of its own, is read as if it were code
(`member_sequence`).
-/

namespace Recast

/-! ### Ends of texts -/

section Suffix

variable {a r w : List Char} {x : Char}

/-- A text without a character ends a longer one only behind it. -/
theorem isSuffix_append_cons (h : x ∉ w) : w <:+ a ++ x :: r ↔ w <:+ r := by
  constructor
  · rintro ⟨t, ht⟩
    rcases List.append_eq_append_iff.1 ht with ⟨c, -, hc⟩ | ⟨c, -, hc⟩
    · exact absurd (hc ▸ List.mem_append_right c (List.mem_cons_self ..)) h
    · rcases List.append_eq_cons_iff.1 hc.symm with ⟨rfl, hw⟩ | ⟨d, rfl, hr⟩
      · exact absurd (hw ▸ List.mem_cons_self ..) h
      · exact ⟨d, hr.symm⟩
  · exact fun hw => hw.trans ((List.suffix_cons x r).trans (List.suffix_append ..))

theorem rdropWhile_append_of_forall {α : Type} {p : α → Bool} {a r : List α} (h : ∀ x ∈ r, p x) :
    (a ++ r).rdropWhile p = a.rdropWhile p := by
  induction r using List.reverseRecOn with
  | nil => rw [List.append_nil]
  | append_singleton r x ih =>
    rw [← List.append_assoc, List.rdropWhile_concat_pos _ _ x (h x (by simp))]
    exact ih fun y hy => h y (List.mem_append_left _ hy)

namespace Text

theorem trimEnd_append_blanks (h : ∀ c ∈ r, isBlank c) : trimEnd (a ++ r) = trimEnd a :=
  rdropWhile_append_of_forall h

theorem trimEnd_concat (hx : isBlank x = false) : trimEnd (a ++ [x]) = a ++ [x] := by
  rw [trimEnd, dropEnd_eq_rdropWhile, List.rdropWhile_concat_neg _ _ x (by simp [hx])]

theorem trimEnd_append_cons (hx : isBlank x = false) :
    trimEnd (a ++ x :: r) = a ++ x :: trimEnd r := by
  induction r using List.reverseRecOn with
  | nil => exact trimEnd_concat hx
  | append_singleton r c ih =>
    by_cases hc : isBlank c
    · have hblank : ∀ d ∈ [c], isBlank d := by simpa using hc
      rw [← List.cons_append, ← List.append_assoc, trimEnd_append_blanks hblank, ih,
        trimEnd_append_blanks hblank]
    · have hc : isBlank c = false := by simpa using hc
      rw [trimEnd_concat hc, ← List.cons_append, ← List.append_assoc, trimEnd_concat hc]

/-- Whether a text, trimmed, ends in a word is settled behind any character that is neither blank nor
of the word. -/
theorem isSuffix_trimEnd_append (hx : isBlank x = false) (hw : x ∉ w) :
    w <:+ trimEnd (a ++ x :: r) ↔ w <:+ trimEnd (x :: r) := by
  rw [trimEnd_append_cons hx, ← List.nil_append (x :: r), trimEnd_append_cons hx,
    isSuffix_append_cons hw, isSuffix_append_cons hw]

end Text

end Suffix

/-! ### Looking back -/

namespace Reading

/-- A line break starts one more line. -/
theorem lineStarts_concat (text : List Char) (c : Char) :
    lineStarts (text ++ [c]) =
      lineStarts text ++ if c = '\n' then [(text.length : Int) + 1] else [] := by
  by_cases hc : c = '\n' <;> simp [lineStarts, List.zipIdx_append, hc]

theorem lineStarts_isPrefix (before rest : List Char) :
    lineStarts before <+: lineStarts (before ++ rest) := by
  induction rest using List.reverseRecOn with
  | nil => rw [List.append_nil]
  | append_singleton rest c ih =>
    rw [← List.append_assoc, lineStarts_concat]
    exact ih.trans (List.prefix_append ..)

theorem length_lineStarts (text : List Char) : (lineStarts text).length = text.count '\n' + 1 := by
  induction text using List.reverseRecOn with
  | nil => rfl
  | append_singleton text c ih =>
    rw [lineStarts_concat, List.length_append, ih, List.count_append]
    by_cases hc : c = '\n' <;> simp [hc]

/-- The last line of a text starts behind its last line break. -/
theorem getElem?_lineStarts (text : List Char) :
    (lineStarts text)[text.count '\n']? =
      some ((text.length : Int) - (text.reverse.takeWhile (· ≠ '\n')).length) := by
  induction text using List.reverseRecOn with
  | nil => rfl
  | append_singleton text c ih =>
    rw [lineStarts_concat, List.count_append]
    by_cases hc : c = '\n'
    · rw [List.getElem?_append_right] <;> simp [length_lineStarts, hc]
    · rw [List.getElem?_append_left (by simp [length_lineStarts, hc]),
        List.count_singleton, if_neg (by simpa using hc), Nat.add_zero, ih]
      simp [hc]

/-- The text before the character at an offset is found from its position. -/
theorem textBefore?_inText (before rest : List Char) :
    textBefore? (before ++ rest) (.inText (before ++ rest) before.length) = some before := by
  obtain ⟨later, hlater⟩ := lineStarts_isPrefix before rest
  have hlength := length_lineStarts before
  have hstart : (lineStarts (before ++ rest))[before.count '\n']? =
      some ((before.length : Int) - (before.reverse.takeWhile (· ≠ '\n')).length) := by
    rw [← hlater, List.getElem?_append_left (by omega), getElem?_lineStarts]
  have hlines : before.count '\n' < (lineStarts (before ++ rest)).length := by
    rw [← hlater, List.length_append]
    omega
  have hfirst : ¬ 1 + (before.count '\n' : Int) < 1 := by omega
  have hindex : (1 + (before.count '\n' : Int) - 1).toNat = before.count '\n' := by omega
  simp only [textBefore?, Position.inText, List.take_left, if_neg hfirst, hindex, hstart,
    Option.getD_some]
  rw [if_neg (by omega)]
  have hoffset : (before.length : Int) - (before.reverse.takeWhile (· ≠ '\n')).length +
      (1 + (before.reverse.takeWhile (· ≠ '\n')).length) - 1 = before.length := by omega
  rw [hoffset, if_neg (by omega), Int.toNat_natCast, List.take_left]

/-- The text before its last opening brace. -/
def upToBrace (text : List Char) : List Char := (Text.beforeLast '{' (String.ofList text)).toList

theorem upToBrace_append {after : List Char} (before : List Char) (h : '{' ∉ after) :
    upToBrace (before ++ '{' :: after) = before := by
  have hcut : Text.beforeLast '{'
      (String.ofList before ++ String.singleton '{' ++ String.ofList after) = String.ofList before :=
    Text.beforeLast_append _ (by rwa [String.toList_ofList])
  have hparts : String.ofList (before ++ '{' :: after) =
      String.ofList before ++ String.singleton '{' ++ String.ofList after := by
    apply String.toList_inj.1
    simp
  rw [upToBrace, hparts, hcut, String.toList_ofList]

theorem staticBeforeBrace_iff (text : List Char) :
    staticBeforeBrace text ↔ "static".toList <:+ Text.trimEnd (upToBrace text) := by
  simp only [staticBeforeBrace, upToBrace, Text.beforeLast, Text.trimEnd, Text.dropEnd,
    String.toList_ofList, List.reverse_reverse, List.isPrefixOf_iff_prefix]
  rw [← List.reverse_prefix, List.reverse_reverse]

end Reading

/-! ### Pieces around a brace -/

namespace Lexeme

open Recast.Reading

/-- Whether a piece is a blank. -/
def isBlank : Lexeme → Bool
  | .plain c => Text.isBlank c
  | _ => false

/-- Whether a piece stands between tokens. -/
def isSpace (piece : Lexeme) : Bool := piece.isBlank || piece.isComment

/-- Whether a piece is a character of a word. -/
def isWordPart : Lexeme → Bool
  | .plain c => Grammar.isWordPart c
  | _ => false

/-- The word that some pieces end in, blanks and comments aside; nothing if they end in another
token. -/
def lastWord (pieces : List Lexeme) : List Char :=
  ((pieces.rdropWhile isSpace).rtakeWhile isWordPart).flatMap chars

/-- The last piece that is no blank. -/
def lastPiece? (pieces : List Lexeme) : Option Lexeme := pieces.reverse.find? (!·.isBlank)

/-- The last piece that holds an opening brace. -/
def lastBraced? (pieces : List Lexeme) : Option Lexeme :=
  pieces.reverse.find? fun piece => '{' ∈ piece.chars

/-- Whether the code before a brace and the gap behind it make an initializer static: the comment of
the gap that holds a brace decides before the code does, and a comment right before the brace is
taken for the code. -/
def MarksStatic (before gap : List Lexeme) : Prop :=
  match lastBraced? gap, lastPiece? before with
  | some comment, _ => "static".toList <:+ Text.trimEnd (upToBrace comment.chars)
  | none, some (.plain _) => lastWord before = "static".toList
  | none, some piece => "static".toList <:+ Text.trimEnd piece.chars
  | none, none => False

/-- Whether a text has the brace of an initializer between some pieces and a gap of blanks and
comments, up to a position. The code before the brace ends in the keyword or in no word. -/
structure Opening (source : String) (p : Position) (before gap : List Lexeme) : Prop where
  pieces : ∃ rest, lexemes source.toList = before ++ .plain '{' :: (gap ++ rest)
  space : ∀ piece ∈ gap, piece.isSpace
  position : p = (⟨1, 1⟩ : Position).after ((before ++ .plain '{' :: gap).flatMap chars)
  word : lastWord before = [] ∨ lastWord before = "static".toList

/-! ### The pieces of a text -/

section Fits

variable {before gap rest : List Lexeme} {piece : Lexeme}

theorem fits_of_append (h : AllFit (before ++ piece :: rest)) :
    piece.Fits (rest.flatMap chars) := by
  induction before with
  | nil => exact h.1
  | cons first before ih => exact ih h.2

/-- A literal that does not reach the end of its text ends in its quote or a line break. -/
theorem getLast?_literal {quote : Char} {text : List Char}
    (h : literalLength quote text < text.length) :
    ∃ c, (text.take (literalLength quote text)).getLast? = some c ∧ (c = quote ∨ c = '\n') := by
  fun_induction literalLength quote text with
  | case1 c rest ih =>
    obtain ⟨last, hlast, hend⟩ := ih (by simpa using h)
    exact ⟨last, by simp [List.getLast?_cons, hlast], hend⟩
  | case2 c rest _ hend => exact ⟨c, by simp, hend⟩
  | case3 c rest _ _ ih =>
    obtain ⟨last, hlast, hend⟩ := ih (by simpa using h)
    exact ⟨last, by simp [List.getLast?_cons, hlast], hend⟩
  | case4 => simp at h

/-- A comment or literal starts with a character that is neither blank nor of the keyword. -/
theorem exists_chars_eq_cons {text : List Char} (hfits : piece.Fits text)
    (hpiece : ∀ c, piece ≠ .plain c) :
    ∃ x more, piece.chars = x :: more ∧ Text.isBlank x = false ∧ x ∉ "static".toList ∧ x ≠ '{' := by
  have hslash : Text.isBlank '/' = false ∧ '/' ∉ "static".toList ∧ '/' ≠ '{' := by decide
  cases piece with
  | plain c => exact absurd rfl (hpiece c)
  | lineComment body => exact ⟨'/', _, rfl, hslash⟩
  | blockComment body closed => exact ⟨'/', _, rfl, hslash⟩
  | literal text =>
    obtain ⟨quote, body, hquote, rfl, -⟩ := hfits
    refine ⟨quote, body, rfl, ?_⟩
    rcases hquote with rfl | rfl <;> decide

/-- What precedes a word ends in a character of no word. -/
theorem exists_chars_eq_concat {c : Char} {text : List Char} (hfits : piece.Fits (c :: text))
    (hc : Grammar.isWordPart c) (hpiece : piece.isWordPart = false) :
    ∃ more x, piece.chars = more ++ [x] ∧ Grammar.isWordPart x = false := by
  cases piece with
  | plain x => exact ⟨[], x, rfl, hpiece⟩
  | lineComment body =>
    rcases hfits with hend | hbreak
    · cases hend
    · cases hbreak
      exact absurd hc (by decide)
  | blockComment body closed =>
    cases closed with
    | false => cases hfits rfl
    | true => exact ⟨'/' :: '*' :: body ++ ['*'], '/', by simp [chars], by decide⟩
  | literal quoted =>
    obtain ⟨quote, body, hquote, rfl, hlength⟩ := hfits
    have hlong : literalLength quote (body ++ c :: text) < (body ++ c :: text).length := by
      rw [hlength]
      simp
    obtain ⟨x, hlast, hx⟩ := getLast?_literal hlong
    rw [hlength, List.take_left, List.getLast?_eq_some_iff] at hlast
    obtain ⟨more, rfl⟩ := hlast
    refine ⟨quote :: more, x, rfl, ?_⟩
    rcases hx with rfl | rfl
    · rcases hquote with rfl | rfl <;> decide
    · decide

end Fits

/-! ### What the look back finds -/

section Look

variable {before gap rest : List Lexeme} {piece : Lexeme}

/-- A comment with a brace hides all that precedes it. -/
theorem isSuffix_upToBrace_comment {a after text : List Char} (hfits : piece.Fits text)
    (hcomment : piece.isComment) (hbrace : '{' ∈ piece.chars) (hafter : '{' ∉ after) :
    "static".toList <:+ Text.trimEnd (upToBrace (a ++ (piece.chars ++ after))) ↔
      "static".toList <:+ Text.trimEnd (upToBrace piece.chars) := by
  obtain ⟨x, more, hchars, hblank, hword, hx⟩ :=
    exists_chars_eq_cons hfits (by rintro c rfl; cases hcomment)
  rw [hchars, List.mem_cons, or_iff_right hx.symm] at hbrace
  obtain ⟨back, start, hback, hnone⟩ := List.eq_append_cons_of_mem (List.mem_reverse.2 hbrace)
  have hmore : more = start.reverse ++ '{' :: back.reverse := by
    rw [← List.reverse_reverse more, hback]
    simp
  have hpiece : piece.chars = (x :: start.reverse) ++ '{' :: back.reverse := by
    rw [hchars, hmore, List.cons_append]
  have hall : a ++ (piece.chars ++ after) =
      (a ++ x :: start.reverse) ++ '{' :: (back.reverse ++ after) := by simp [hpiece]
  rw [hall, upToBrace_append _ (by simp [hnone, hafter]), hpiece,
    upToBrace_append _ (by rwa [List.mem_reverse])]
  exact Text.isSuffix_trimEnd_append hblank hword

theorem not_mem_static {x : Char} (hx : Grammar.isWordPart x = false) : x ∉ "static".toList := by
  have hall : "static".toList.all Grammar.isWordPart := by decide
  intro hmem
  rw [List.all_eq_true.1 hall x hmem] at hx
  cases hx

/-- Some code ends in the keyword as the word at its end does. -/
theorem isSuffix_iff_rtakeWhile {c : Char} (hfit : AllFit (before ++ rest))
    (hlast : before.getLast? = some (.plain c)) :
    "static".toList <:+ before.flatMap chars ↔
      "static".toList <:+ (before.rtakeWhile isWordPart).flatMap chars := by
  have hsplit : before.rdropWhile isWordPart ++ before.rtakeWhile isWordPart = before :=
    List.rdropWhile_append_rtakeWhile
  cases hearlier : before.rdropWhile isWordPart using List.reverseRecOn with
  | nil =>
    rw [hearlier, List.nil_append] at hsplit
    rw [hsplit]
  | append_singleton earlier piece =>
    have hpiece : piece.isWordPart = false := by
      have hnot := List.rdropWhile_last_not isWordPart before (by simp [hearlier])
      simpa [hearlier] using hnot
    rw [hearlier] at hsplit
    obtain ⟨more, x, hchars, hx⟩ : ∃ more x, piece.chars = more ++ [x] ∧
        Grammar.isWordPart x = false := by
      cases hrun : before.rtakeWhile isWordPart with
      | nil =>
        rw [← hsplit, hrun, List.append_nil, List.getLast?_concat, Option.some.injEq] at hlast
        subst hlast
        exact ⟨[], c, rfl, hpiece⟩
      | cons first run =>
        have hfirst : first.isWordPart :=
          List.mem_rtakeWhile_imp (hrun ▸ List.mem_cons_self ..)
        cases first with
        | plain d =>
          rw [← hsplit, hrun, List.append_assoc, List.append_assoc] at hfit
          exact exists_chars_eq_concat (fits_of_append hfit) hfirst hpiece
        | _ => cases hfirst
    have hcode : before.flatMap chars =
        (earlier.flatMap chars ++ more) ++ x :: (before.rtakeWhile isWordPart).flatMap chars := by
      conv_lhs => rw [← hsplit]
      simp [hchars]
    rw [hcode, isSuffix_append_cons (not_mem_static hx)]

theorem flatMap_chars_blanks {blanks : List Lexeme} (h : ∀ piece ∈ blanks, piece.isBlank) :
    ∀ c ∈ blanks.flatMap chars, Text.isBlank c := by
  intro c hc
  obtain ⟨piece, hpiece, hmem⟩ := List.mem_flatMap.1 hc
  have hblank := h piece hpiece
  cases piece with
  | plain d =>
    rw [List.mem_singleton.1 hmem]
    exact hblank
  | _ => cases hblank

/-- The word at the end of some code is that before the blanks. -/
theorem lastWord_append_blanks {blanks : List Lexeme} {c : Char}
    (hblanks : ∀ piece ∈ blanks, piece.isBlank) (hc : Text.isBlank c = false) :
    lastWord (before ++ .plain c :: blanks) =
      ((before ++ [plain c]).rtakeWhile isWordPart).flatMap chars := by
  have hspace : ∀ piece ∈ blanks, piece.isSpace := by
    intro piece hpiece
    rw [isSpace, hblanks piece hpiece, Bool.true_or]
  have hlast : ¬ isSpace (.plain c) := by simp [isSpace, isBlank, isComment, hc]
  rw [lastWord, List.append_cons, rdropWhile_append_of_forall hspace,
    List.rdropWhile_concat_neg _ _ _ hlast]

/-- Code that ends in no comment ends in the keyword exactly if that is its last word. -/
theorem isSuffix_iff_lastWord {blanks : List Lexeme} {c : Char}
    (hfit : AllFit (before ++ .plain c :: (blanks ++ rest)))
    (hblanks : ∀ piece ∈ blanks, piece.isBlank) (hc : Text.isBlank c = false)
    (hword : lastWord (before ++ .plain c :: blanks) = [] ∨
      lastWord (before ++ .plain c :: blanks) = "static".toList) :
    "static".toList <:+ Text.trimEnd ((before ++ [plain c]).flatMap chars) ↔
      lastWord (before ++ .plain c :: blanks) = "static".toList := by
  have hcode : Text.trimEnd ((before ++ [plain c]).flatMap chars) =
      (before ++ [plain c]).flatMap chars := by
    rw [List.flatMap_append, List.flatMap_singleton, chars, Text.trimEnd_concat hc]
  rw [List.append_cons] at hfit
  rw [hcode, isSuffix_iff_rtakeWhile hfit List.getLast?_concat, ← lastWord_append_blanks hblanks hc]
  rcases hword with hnone | hstatic
  · rw [hnone]
    decide
  · rw [hstatic]
    exact iff_of_true (List.suffix_refl _) rfl

/-- The last of some pieces with a property, and what stands around it. -/
theorem exists_of_find?_reverse {p : Lexeme → Bool} (h : before.reverse.find? p = some piece) :
    p piece ∧ ∃ earlier later, before = earlier ++ piece :: later ∧
      ∀ other ∈ later, p other = false := by
  obtain ⟨hpiece, later, earlier, hsplit, hlater⟩ := List.find?_eq_some_iff_append.1 h
  refine ⟨hpiece, earlier.reverse, later.reverse, ?_, fun other hother => ?_⟩
  · rw [← List.reverse_reverse before, hsplit]
    simp
  · simpa using hlater other (List.mem_reverse.1 hother)

/-- What the code before a brace ends in, comments taken for code. -/
theorem isSuffix_iff_marksStatic (hfit : AllFit (before ++ rest)) (hgap : lastBraced? gap = none)
    (hword : lastWord before = [] ∨ lastWord before = "static".toList) :
    "static".toList <:+ Text.trimEnd (before.flatMap chars) ↔ MarksStatic before gap := by
  unfold MarksStatic
  rw [hgap]
  cases hlast : lastPiece? before with
  | none =>
    have hblanks : ∀ piece ∈ before, piece.isBlank := by
      simpa [lastPiece?] using hlast
    rw [← List.nil_append (before.flatMap chars),
      Text.trimEnd_append_blanks (flatMap_chars_blanks hblanks)]
    simp [Text.trimEnd, Text.dropEnd]
  | some piece =>
    obtain ⟨hpiece, earlier, blanks, rfl, hlater⟩ := exists_of_find?_reverse hlast
    have hblanks : ∀ piece ∈ blanks, piece.isBlank := by
      simpa using hlater
    have htrim : Text.trimEnd ((earlier ++ piece :: blanks).flatMap chars) =
        Text.trimEnd ((earlier ++ [piece]).flatMap chars) := by
      rw [List.append_cons, List.flatMap_append,
        Text.trimEnd_append_blanks (flatMap_chars_blanks hblanks)]
    rw [List.append_assoc] at hfit
    rw [htrim]
    by_cases hplain : ∃ c, piece = .plain c
    · obtain ⟨c, rfl⟩ := hplain
      exact isSuffix_iff_lastWord hfit hblanks (by simpa [isBlank] using hpiece) hword
    · have hnone : ∀ c, piece ≠ .plain c := fun c hc => hplain ⟨c, hc⟩
      obtain ⟨x, more, hchars, hblank, hstatic, -⟩ :=
        exists_chars_eq_cons (fits_of_append hfit) hnone
      rw [List.flatMap_append, List.flatMap_singleton, hchars,
        Text.isSuffix_trimEnd_append hblank hstatic, ← hchars]
      cases piece with
      | plain c => exact absurd rfl (hnone c)
      | _ => rfl

/-- A piece of a gap that holds a brace is a comment. -/
theorem isComment_of_isSpace (hspace : piece.isSpace) (hbrace : '{' ∈ piece.chars) :
    piece.isComment := by
  cases piece with
  | plain c =>
    obtain rfl : '{' = c := by simpa [chars] using hbrace
    exact absurd hspace (by decide)
  | literal text => cases hspace
  | _ => rfl

/-- What the look back finds from the end of a gap. -/
theorem staticBeforeBrace_iff_marksStatic (hfit : AllFit (before ++ .plain '{' :: (gap ++ rest)))
    (hgap : ∀ piece ∈ gap, piece.isSpace)
    (hword : lastWord before = [] ∨ lastWord before = "static".toList) :
    staticBeforeBrace ((before ++ .plain '{' :: gap).flatMap chars) ↔ MarksStatic before gap := by
  rw [staticBeforeBrace_iff]
  cases hbraced : lastBraced? gap with
  | some comment =>
    obtain ⟨hbrace, earlier, later, rfl, hlater⟩ := exists_of_find?_reverse hbraced
    have hbrace : '{' ∈ comment.chars := by simpa using hbrace
    have hcomment := isComment_of_isSpace (hgap comment (by simp)) hbrace
    have hnone : '{' ∉ later.flatMap chars := by simpa using hlater
    have hpieces : before ++ plain '{' :: (earlier ++ comment :: later ++ rest) =
        (before ++ plain '{' :: earlier) ++ comment :: (later ++ rest) := by simp
    have htext : (before ++ plain '{' :: (earlier ++ comment :: later)).flatMap chars =
        (before ++ plain '{' :: earlier).flatMap chars ++
          (comment.chars ++ later.flatMap chars) := by simp
    rw [hpieces] at hfit
    rw [htext, isSuffix_upToBrace_comment (fits_of_append hfit) hcomment hbrace hnone, MarksStatic,
      hbraced]
  | none =>
    have hnone : '{' ∉ gap.flatMap chars := by
      simpa [lastBraced?] using hbraced
    rw [List.flatMap_append, List.flatMap_cons, chars, List.singleton_append,
      upToBrace_append _ hnone]
    exact isSuffix_iff_marksStatic hfit hbraced hword

/-- Without comments around the brace that look like code, the last word decides. -/
theorem marksStatic_iff_lastWord {c : Char} (hgap : lastBraced? gap = none)
    (hlast : lastPiece? before = some (.plain c)) :
    MarksStatic before gap ↔ lastWord before = "static".toList := by
  rw [MarksStatic, hgap, hlast]

end Look

end Lexeme

namespace Reading

open Lexeme

theorem isStaticInitializer_iff {text : String} {statements : List Tree} {p : Position}
    {before gap : List Lexeme} (hfirst : statements.findSome? Tree.position = some p)
    (hopen : Opening text p before gap) :
    isStaticInitializer text statements ↔ MarksStatic before gap := by
  obtain ⟨⟨rest, hpieces⟩, hspace, rfl, hword⟩ := hopen
  have hfit := Scan.allFit_lexemes text
  have htext : text.toList = (before ++ .plain '{' :: gap).flatMap chars ++ rest.flatMap chars := by
    rw [← Scan.chars_lexemes, hpieces, ← List.flatMap_append, List.append_assoc, List.cons_append]
  rw [hpieces] at hfit
  rw [isStaticInitializer, hfirst, htext, ← Position.inText_append _ (rest.flatMap chars)]
  simp only [textBefore?_inText]
  exact staticBeforeBrace_iff_marksStatic hfit hspace hword

theorem member_reading_sequence (parts : List ParseTree) :
    (ParseTree.mk (.sequence parts)).reading.member = do
      let statements ← (parts.map ParseTree.reading).mapM (·.stmt)
      let source ← read
      return bare (.member (.initializer (some (bare (.stmt (.block statements))))
        (isStaticInitializer source.text statements))) := by
  rw [ParseTree.reading, ParseTree.fold_mk]
  rfl

/-- **What makes an initializer static.** Wherever its first statement stands behind the brace, blanks
and comments between them, an initializer is read with its statements, and it is static as
`MarksStatic` says: exactly if the word before the brace is the keyword, as long as no comment stands
right before the brace and none with a brace in it behind. -/
theorem member_sequence {parts : List ParseTree} {source : Source}
    {found found' : List Diagnostic} {statements : List Tree} {p : Position}
    {before gap : List Lexeme}
    (hread : parts.mapM (·.reading.stmt) source found = .ok (statements, found'))
    (hfirst : statements.findSome? Tree.position = some p)
    (hopen : Opening source.text p before gap) :
    ∃ isStatic : Bool,
      (ParseTree.mk (.sequence parts)).reading.member source found =
        .ok (bare (.member (.initializer (some (bare (.stmt (.block statements)))) isStatic)),
          found') ∧
      (isStatic ↔ MarksStatic before gap) ∧
      (lastBraced? gap = none → (∃ c, lastPiece? before = some (.plain c)) →
        (isStatic ↔ lastWord before = "static".toList)) := by
  have hmark := isStaticInitializer_iff hfirst hopen
  refine ⟨isStaticInitializer source.text statements, ?_, hmark, ?_⟩
  · have hparts : (parts.map ParseTree.reading).mapM (·.stmt) = parts.mapM (·.reading.stmt) :=
      List.mapM_map
    rw [member_reading_sequence, hparts]
    change Except.bind (parts.mapM (·.reading.stmt) source found) _ = _
    rw [hread]
    rfl
  · rintro hgap ⟨c, hlast⟩
    rw [hmark, marksStatic_iff_lastWord hgap hlast]

/-- `i++;` at a position, as a parser hands it over. -/
def stepAt (p : Position) : ParseTree :=
  .mk (.node { position := some p } [] (.stmt (.evaluate
    (.mk (.node { after := [.text "++"] } [] (.expr (.memberReference "" (.text "i"))))))))

/-- An initializer with `i++;` at a position, as it is read. -/
def stepInitializer (p : Position) (isStatic : Bool) : Tree :=
  let step := bare (.expr (.unary (.text "++") (some (bare (.expr (.ident (.text "i"))))) false))
  let body := bare (.stmt (.block [at? (some p) (.stmt (.evaluate (some step)))]))
  bare (.member (.initializer (some body) isStatic))

theorem member_sequence_commented :
    ∃ isStatic : Bool,
      (ParseTree.mk (.sequence [stepAt ⟨1, 29⟩])).reading.member
          ⟨"C.java", "class C \x7b static \x7b /* up */ i++; \x7d \x7d"⟩ [] =
        .ok (stepInitializer ⟨1, 29⟩ isStatic, []) ∧
      isStatic := by
  have hopen : Opening "class C \x7b static \x7b /* up */ i++; \x7d \x7d" ⟨1, 29⟩
      (lexemes "class C \x7b static ".toList) (lexemes " /* up */ ".toList) :=
    ⟨⟨lexemes "i++; \x7d \x7d".toList, by decide⟩, by decide, by decide, by decide⟩
  obtain ⟨isStatic, hread, -, hstatic⟩ :=
    @member_sequence [stepAt ⟨1, 29⟩] ⟨"C.java", _⟩ [] _ _ _ _ _ rfl rfl hopen
  exact ⟨isStatic, hread, (hstatic (by decide) ⟨'c', by decide⟩).2 (by decide)⟩

/-- A comment before the brace is taken for code: the block is none of the class. -/
theorem member_sequence_misread :
    Opening "class C \x7b int i; // not static\n\x7b i++; \x7d \x7d" ⟨2, 3⟩
        (lexemes "class C \x7b int i; // not static\n".toList) (lexemes " ".toList) ∧
      lastWord (lexemes "class C \x7b int i; // not static\n".toList) ≠ "static".toList ∧
      (ParseTree.mk (.sequence [stepAt ⟨2, 3⟩])).reading.member
          ⟨"C.java", "class C \x7b int i; // not static\n\x7b i++; \x7d \x7d"⟩ [] =
        .ok (stepInitializer ⟨2, 3⟩ true, []) := by
  refine ⟨⟨⟨lexemes "i++; \x7d \x7d".toList, by decide⟩, by decide, by decide, by decide⟩,
    by decide, rfl⟩

end Reading

end Recast
