import Mathlib
import Recast.Proofs.Comment.Stretch

/-!
Printed comments, scanned again.

What is printed for a comment is one piece of text behind the indentation (`renderChars_eq_piece`):
the delimiters of its kind, and between them its content with the later lines indented anew
(`printed`). Where the content of a comment is exact, scanning that piece gives the comment back
(`scan_piece`), and what is printed of an exact content is exact (`Exact.printed`). Indenting a line
depends only on what is left of the line without the blanks at its ends, and leaves just this as it
is (`trim_innerLine`), so printing what has been printed changes nothing (`printed_printed`).
-/

namespace Recast

/-! ### Text without blanks at its ends -/

namespace Text

variable {before text : List Char}

theorem dropEnd_eq_rdropWhile (p : Char → Bool) (text : List Char) :
    dropEnd p text = text.rdropWhile p := rfl

theorem trimEnd_trimEnd (text : List Char) : trimEnd (trimEnd text) = trimEnd text := by
  simp only [trimEnd, dropEnd_eq_rdropWhile, List.rdropWhile_idempotent]

theorem trimStart_trim (text : List Char) : trimStart (trim text) = trim text := by
  cases htrim : trim text with
  | nil => rfl
  | cons c rest =>
    have hprefix : c :: rest <+: trimStart text := htrim ▸ Comment.trimEnd_isPrefix _
    have hhead := List.head?_dropWhile_not isBlank text
    obtain ⟨more, hmore⟩ := hprefix
    rw [← trimStart, ← hmore] at hhead
    have hc : isBlank c = false := hhead
    rw [trimStart, List.dropWhile_cons_of_neg (by simp [hc])]

theorem trim_trim (text : List Char) : trim (trim text) = trim text := by
  rw [trim, trimStart_trim, trim, trimEnd_trimEnd]

theorem trim_append (hbefore : ∀ c ∈ before, isBlank c) (text : List Char) :
    trim (before ++ text) = trim text := by
  rw [trim, trimStart, List.dropWhile_append_of_pos hbefore]
  rfl

theorem trim_of_blank (h : ∀ c ∈ text, isBlank c) : trim text = [] := by
  rw [trim, trimStart, List.dropWhile_eq_nil_iff.2 h]
  rfl

/-- Nothing is cut off the end of a text that ends like a trimmed one. -/
theorem trimEnd_append (hne : text ≠ []) (htext : trimEnd text = text) (before : List Char) :
    trimEnd (before ++ text) = before ++ text := by
  rw [trimEnd, dropEnd_eq_rdropWhile, List.rdropWhile_eq_self_iff] at htext ⊢
  intro hnonempty
  rw [List.getLast_append_of_ne_nil hnonempty hne]
  exact htext hne

end Text

/-- Whether characters are an indentation: blanks that break no line. -/
structure IsIndentation (indent : List Char) : Prop where
  blank : ∀ c ∈ indent, Text.isBlank c
  line : '\n' ∉ indent

theorem IsIndentation.of_spaces {indent : List Char} (h : ∀ c ∈ indent, c = ' ') :
    IsIndentation indent := by
  constructor
  · rintro c hc
    rw [h c hc]
    rfl
  · intro hbreak
    exact absurd (h _ hbreak) (by decide)

/-! ### What is printed -/

namespace Comment

open Text (trim trimEnd trim_trim trim_append trimEnd_trimEnd isBlank)

/-- The last line of a block comment as it is printed, up to the closing delimiter. -/
def lastLine (indent line : List Char) : List Char :=
  if trim line = [] ∨ trim line = ['*'] then indent ++ [' '] else innerLine indent line

/-- The later lines of a block comment as they are printed. -/
def laterLines (indent : List Char) : List (List Char) → List (List Char)
  | [] => []
  | [line] => [lastLine indent line]
  | line :: rest => innerLine indent line :: laterLines indent rest

/-- What is printed between the delimiters of a comment. -/
def written (indent : List Char) (kind : CommentKind) (content : List Char) : List Char :=
  match kind with
  | .line => content
  | _ =>
    match Text.splitChars '\n' content with
    | first :: second :: rest =>
      ['\n'].intercalate (trimEnd first :: laterLines indent (second :: rest))
    | _ => content

/-- A comment with the content that is printed for it. -/
def printed (indent : List Char) (c : Comment) : Comment :=
  { c with content := String.ofList (written indent c.kind c.content.toList) }

/-- A comment as a piece of text. -/
def piece (c : Comment) : Lexeme :=
  match c.kind with
  | .line => .lineComment c.content.toList
  | .block => .blockComment c.content.toList true
  | .javadoc => .blockComment ('*' :: c.content.toList) true

section Lines

variable {indent line : List Char}

/-- A later line is printed as some blanks and what is left of it without the blanks at its ends. -/
theorem exists_innerLine (hindent : IsIndentation indent) (line : List Char) :
    ∃ margin, (∀ c ∈ margin, isBlank c) ∧ '\n' ∉ margin ∧
      innerLine indent line = margin ++ trim line := by
  unfold innerLine
  split
  · next hnil => exact ⟨[], List.forall_mem_nil _, List.not_mem_nil, by rw [hnil]; rfl⟩
  · next rest hstar =>
    have htrimmed : trimEnd ('*' :: rest) = '*' :: rest := by
      rw [← hstar]
      exact trimEnd_trimEnd _
    have hkept := Text.trimEnd_append (List.cons_ne_nil _ _) htrimmed (indent ++ [' '])
    rw [List.append_assoc, List.singleton_append] at hkept
    refine ⟨indent ++ [' '], ?_, by simpa using hindent.line, by simp [hkept, hstar]⟩
    exact List.forall_mem_append.2 ⟨hindent.blank, List.forall_mem_singleton.2 rfl⟩
  · exact ⟨indent, hindent.blank, hindent.line, rfl⟩

theorem innerLine_congr {a b : List Char} (h : trim a = trim b) :
    innerLine indent a = innerLine indent b := by
  simp only [innerLine, h]

theorem trim_innerLine (hindent : IsIndentation indent) (line : List Char) :
    trim (innerLine indent line) = trim line := by
  obtain ⟨margin, hmargin, -, heq⟩ := exists_innerLine hindent line
  rw [heq, trim_append hmargin, trim_trim]

theorem innerLine_innerLine (hindent : IsIndentation indent) (line : List Char) :
    innerLine indent (innerLine indent line) = innerLine indent line :=
  innerLine_congr (trim_innerLine hindent line)

theorem closeLine_innerLine (hindent : IsIndentation indent) (line : List Char) :
    closeLine indent (innerLine indent line) = lastLine indent line ++ ['*', '/'] := by
  rw [closeLine, lastLine, trim_innerLine hindent]
  split <;> simp

theorem lastLine_lastLine (hindent : IsIndentation indent) (line : List Char) :
    lastLine indent (lastLine indent line) = lastLine indent line := by
  have hblank : ∀ c ∈ indent ++ [' '], isBlank c :=
    List.forall_mem_append.2 ⟨hindent.blank, List.forall_mem_singleton.2 rfl⟩
  by_cases hend : trim line = [] ∨ trim line = ['*']
  · rw [lastLine, lastLine, if_pos hend, if_pos (.inl (Text.trim_of_blank hblank))]
  · rw [lastLine, lastLine, if_neg hend, trim_innerLine hindent, if_neg hend,
      innerLine_innerLine hindent]

theorem laterLines_cons {rest : List (List Char)} (hrest : rest ≠ []) :
    laterLines indent (line :: rest) = innerLine indent line :: laterLines indent rest := by
  rw [laterLines]
  exact fun hnil => hrest hnil

theorem laterLines_ne_nil (line : List Char) (rest : List (List Char)) :
    laterLines indent (line :: rest) ≠ [] := by
  cases rest <;> simp [laterLines]

/-- The later lines are closed behind the last of them. -/
theorem intercalate_innerLines (hindent : IsIndentation indent) (line : List Char)
    (rest : List (List Char)) :
    ['\n'].intercalate (innerLines indent (line :: rest)) =
      ['\n'].intercalate (laterLines indent (line :: rest)) ++ ['*', '/'] := by
  induction rest generalizing line with
  | nil => simp [innerLines, laterLines, closeLine_innerLine hindent]
  | cons second rest ih =>
    have hinner : innerLines indent (second :: rest) ≠ [] := by cases rest <;> simp [innerLines]
    rw [innerLines, laterLines_cons (List.cons_ne_nil _ _),
      List.intercalate_cons_of_ne_nil hinner,
      List.intercalate_cons_of_ne_nil (laterLines_ne_nil second rest), ih]
    · simp
    · exact List.cons_ne_nil _ _

theorem laterLines_laterLines (hindent : IsIndentation indent) (lines : List (List Char)) :
    laterLines indent (laterLines indent lines) = laterLines indent lines := by
  induction lines with
  | nil => rfl
  | cons line rest ih =>
    cases rest with
    | nil => simp only [laterLines, lastLine_lastLine hindent]
    | cons second rest =>
      rw [laterLines_cons (List.cons_ne_nil _ _), laterLines_cons (laterLines_ne_nil second rest),
        innerLine_innerLine hindent, ih]

theorem not_mem_innerLine (hindent : IsIndentation indent) (hline : '\n' ∉ line) :
    '\n' ∉ innerLine indent line := by
  obtain ⟨margin, -, hmargin, heq⟩ := exists_innerLine hindent line
  rw [heq, List.mem_append]
  exact not_or_intro hmargin fun hmem => hline ((trim_isInfix line).subset hmem)

/-- Printed lines are lines. -/
theorem not_mem_laterLines (hindent : IsIndentation indent) {lines : List (List Char)}
    (hlines : ∀ line ∈ lines, '\n' ∉ line) :
    ∀ line ∈ laterLines indent lines, '\n' ∉ line := by
  induction lines with
  | nil => exact List.forall_mem_nil _
  | cons line rest ih =>
    obtain ⟨hline, hrest⟩ := List.forall_mem_cons.1 hlines
    have hinner := not_mem_innerLine hindent hline
    cases rest with
    | nil =>
      refine List.forall_mem_singleton.2 ?_
      rw [lastLine]
      split
      · simpa using hindent.line
      · exact hinner
    | cons second rest =>
      rw [laterLines_cons (List.cons_ne_nil _ _)]
      exact List.forall_mem_cons.2 ⟨hinner, ih hrest⟩

end Lines

/-! ### Printing again -/

section Printed

variable {indent : List Char} {c : Comment}

theorem written_of_cons_cons {kind : CommentKind} {content first second : List Char}
    {rest : List (List Char)} (hkind : kind ≠ .line)
    (hlines : Text.splitChars '\n' content = first :: second :: rest) :
    written indent kind content =
      ['\n'].intercalate (trimEnd first :: laterLines indent (second :: rest)) := by
  cases kind with
  | line => exact absurd rfl hkind
  | block | javadoc => simp only [written, hlines]

/-- A line comment and a content of one line are printed as they are, other contents line by line.
-/
theorem written_cases (indent : List Char) (kind : CommentKind) (content : List Char) :
    (kind = .line ∨ (Text.splitChars '\n' content).length ≤ 1) ∧
        written indent kind content = content ∨
      ∃ first second rest, kind ≠ .line ∧
        Text.splitChars '\n' content = first :: second :: rest ∧
        written indent kind content =
          ['\n'].intercalate (trimEnd first :: laterLines indent (second :: rest)) := by
  unfold written
  split
  · exact .inl ⟨.inl rfl, rfl⟩
  · next hkind =>
    split
    · next first second rest hlines => exact .inr ⟨first, second, rest, hkind, hlines, rfl⟩
    · next hshort =>
      refine .inl ⟨.inr ?_, rfl⟩
      rcases hlines : Text.splitChars '\n' content with _ | ⟨first, _ | ⟨second, rest⟩⟩
      · exact Nat.zero_le 1
      · exact le_refl 1
      · exact absurd hlines (hshort first second rest)

theorem written_written (hindent : IsIndentation indent) (kind : CommentKind)
    (content : List Char) :
    written indent kind (written indent kind content) = written indent kind content := by
  obtain ⟨-, hsame⟩ | ⟨first, second, rest, hkind, hlines, hwritten⟩ :=
    written_cases indent kind content
  · rw [hsame, hsame]
  · have hone : ∀ line ∈ first :: second :: rest, '\n' ∉ line := by
      intro line hline hmem
      rw [← hlines, Text.splitChars_eq] at hline
      exact (Text.char_of_mem_splitOn hline hmem).2 rfl
    obtain ⟨hfirst, hrest⟩ := List.forall_mem_cons.1 hone
    have hprinted : ∀ line ∈ trimEnd first :: laterLines indent (second :: rest), '\n' ∉ line :=
      List.forall_mem_cons.2 ⟨fun hmem => hfirst ((trimEnd_isPrefix first).subset hmem),
        not_mem_laterLines hindent hrest⟩
    have hsplit : Text.splitChars '\n' (written indent kind content) =
        trimEnd first :: laterLines indent (second :: rest) := by
      rw [hwritten, Text.splitChars_eq, List.splitOn_intercalate _ hprinted (List.cons_ne_nil _ _)]
    obtain ⟨next, more, hnext⟩ := List.exists_cons_of_ne_nil (laterLines_ne_nil second rest)
    rw [hnext] at hsplit
    rw [written_of_cons_cons hkind hsplit, ← hnext, laterLines_laterLines hindent,
      trimEnd_trimEnd, hwritten]

/-- Printing what has been printed changes nothing. -/
theorem printed_printed (hindent : IsIndentation indent) (c : Comment) :
    printed indent (printed indent c) = printed indent c := by
  simp only [printed, String.toList_ofList, written_written hindent]

/-- What is printed for a comment is one piece of text behind the indentation. -/
theorem renderChars_eq_piece (hindent : IsIndentation indent) (c : Comment) :
    renderChars indent c = indent ++ (printed indent c).piece.chars := by
  by_cases hkind : c.kind = .line
  · simp [renderChars, printed, piece, written, Lexeme.chars, opener, hkind]
  · have hpiece : (printed indent c).piece.chars =
        opener c.kind ++ written indent c.kind c.content.toList ++ ['*', '/'] := by
      cases hk : c.kind with
      | line => exact absurd hk hkind
      | block | javadoc => simp [printed, piece, Lexeme.chars, opener, hk]
    rw [hpiece]
    obtain ⟨hshort, hsame⟩ | ⟨first, second, rest, -, hlines, hwritten⟩ :=
      written_cases indent c.kind c.content.toList
    · rw [renderChars_of_length_le_one hkind (hshort.resolve_left hkind), hsame]
      simp
    · have hinner : innerLines indent (second :: rest) ≠ [] := by cases rest <;> simp [innerLines]
      rw [renderChars_of_cons_cons hkind hlines, hwritten, List.intercalate_cons_of_ne_nil hinner,
        List.intercalate_cons_of_ne_nil (laterLines_ne_nil second rest),
        intercalate_innerLines hindent]
      simp

/-- Printing puts no star at the start of a content. -/
theorem head?_written {kind : CommentKind} {content : List Char}
    (h : (written indent kind content).head? = some '*') : content.head? = some '*' := by
  obtain ⟨-, hsame⟩ | ⟨first, second, rest, -, hlines, hwritten⟩ :=
    written_cases indent kind content
  · rwa [hsame] at h
  · have hcontent : ['\n'].intercalate (first :: second :: rest) = content := by
      rw [← hlines, Text.splitChars_eq, List.intercalate_splitOn]
    rw [hwritten, List.intercalate_cons_of_ne_nil (laterLines_ne_nil second rest)] at h
    obtain ⟨cut, hcut⟩ := trimEnd_isPrefix first
    rw [← hcontent, List.intercalate_cons_cons, ← hcut]
    cases hfirst : trimEnd first with
    | nil => simp [hfirst] at h
    | cons d more => simpa [hfirst] using h

/-- What is printed of an exact content is exact. -/
theorem Exact.printed (h : c.Exact) (hindent : IsIndentation indent) :
    (c.printed indent).Exact := by
  by_cases hkind : c.kind = .line
  · obtain ⟨content, kind, position⟩ := c
    obtain rfl : kind = .line := hkind
    simpa [Comment.printed, written] using h
  · obtain ⟨inner, hinner, hchars⟩ := exists_renderChars h.closed hkind hindent.blank
    rw [renderChars_eq_piece hindent, List.append_assoc, List.append_cancel_left_eq] at hchars
    refine ⟨?_, fun hblock hstar => ?_, fun hline => absurd hline hkind⟩
    · cases hk : c.kind with
      | line => exact absurd hk hkind
      | block =>
        obtain rfl : written indent .block c.content.toList = inner := by
          simpa [piece, Comment.printed, hk, Lexeme.chars] using hchars
        simpa [Closed, Comment.printed, hk] using hinner
      | javadoc =>
        have hinside : ('*' :: written indent .javadoc c.content.toList) ++ ['*', '/'] =
            inner ++ ['*', '/'] := by
          simpa [piece, Comment.printed, hk, Lexeme.chars] using hchars
        obtain rfl := List.append_cancel_right hinside
        simpa [Closed, Comment.printed, hk] using hinner
    · have hhead : (written indent c.kind c.content.toList).head? = some '*' := by
        rwa [Comment.printed, String.toList_ofList] at hstar
      exact h.block hblock (head?_written hhead)

end Printed

end Comment

/-! ### Scanning again -/

namespace Lexeme

/-- A line comment goes on to the end of a text that is one line. -/
theorem lexemesFrom_line {text : List Char} (h : '\n' ∉ text) (read : List Char) :
    lexemesFrom (.line read) text = [.lineComment (read.reverse ++ text)] := by
  induction text generalizing read with
  | nil => simp [lexemesFrom]
  | cons c rest ih =>
    obtain ⟨hc, hrest⟩ := not_or.1 (mt List.mem_cons.2 h)
    rw [lexemesFrom, if_neg (Ne.symm hc), ih hrest]
    simp

/-- A block comment goes on to the first place where it can end. -/
theorem lexemesFrom_block {inner : List Char} (h : Unended inner) (read : List Char) :
    lexemesFrom (.block read) (inner ++ ['*', '/']) =
      [.blockComment (read.reverse ++ inner) true] := by
  induction inner generalizing read with
  | nil => simp [lexemesFrom]
  | cons c rest ih =>
    rw [List.cons_append, lexemesFrom, ih (h.part (List.infix_cons List.infix_rfl))]
    · simp
    · rintro more rfl hslash
      cases rest with
      | nil => simp at hslash
      | cons d rest =>
        obtain rfl : d = '/' := (List.cons.inj hslash).1
        exact h ⟨[], rest, rfl⟩

/-- Blanks are pieces of their own. -/
theorem lexemesFrom_blanks {blanks : List Char} (h : ∀ c ∈ blanks, Text.isBlank c)
    (text : List Char) :
    lexemesFrom .code (blanks ++ text) = blanks.map .plain ++ lexemesFrom .code text := by
  induction blanks with
  | nil => rfl
  | cons c rest ih =>
    obtain ⟨hc, hrest⟩ := List.forall_mem_cons.1 h
    obtain ⟨hslash, hdouble, hsingle, -⟩ := ne_of_isBlank hc
    rw [List.cons_append, lexemesFrom, if_neg (not_or_intro hdouble hsingle), ih hrest]
    · rfl
    · exact fun _ hc _ => hslash hc
    · exact fun _ hc _ => hslash hc

/-- A comment whose content is exact is one piece of its text. -/
theorem lexemesFrom_piece {c : Comment} (h : c.Exact) :
    lexemesFrom .code c.piece.chars = [c.piece] := by
  have hclosed := h.closed
  unfold Comment.Closed at hclosed
  unfold Comment.piece
  cases hk : c.kind with
  | line =>
    rw [hk] at hclosed
    exact lexemesFrom_line hclosed []
  | block | javadoc =>
    rw [hk] at hclosed
    exact lexemesFrom_block hclosed []

theorem fits_piece (c : Comment) : c.piece.Fits [] := by
  unfold Comment.piece
  cases c.kind with
  | line => exact .inl rfl
  | block | javadoc => exact fun _ => rfl

/-- A piece made of a comment whose content is exact is that comment. -/
theorem comment?_piece {c : Comment} (h : c.Exact) (p : Position) :
    c.piece.comment? p = some { c with position := some p } := by
  unfold Comment.piece
  cases hk : c.kind with
  | line =>
    have hkept : Text.dropEnd (· = '\r') c.content.toList = c.content.toList := by
      rw [Text.dropEnd_eq_rdropWhile, List.rdropWhile_eq_self_iff]
      intro hne hlast
      refine h.line hk ?_
      rw [List.getLast?_eq_some_getLast hne]
      exact congrArg some (of_decide_eq_true hlast)
    simp [comment?, hkept]
  | block =>
    unfold comment?
    split
    · next heq => cases heq
    · next body closed heq =>
      obtain ⟨hbody, -⟩ := Lexeme.blockComment.inj heq
      exact absurd (by rw [hbody]; rfl) (h.block hk)
    · next body closed _ heq =>
      obtain ⟨hbody, -⟩ := Lexeme.blockComment.inj heq
      simp [← hbody]
    · next hother => exact absurd rfl (hother _ _)
  | javadoc => simp [comment?]

end Lexeme

namespace Scan

theorem commentsFrom_plain (p : Position) (text : List Char) (pieces : List Lexeme) :
    commentsFrom p (text.map .plain ++ pieces) = commentsFrom (p.after text) pieces := by
  induction text generalizing p with
  | nil => rfl
  | cons c rest ih => exact ih (p.next c)

theorem bracesFrom_blanks {blanks : List Char} (h : ∀ c ∈ blanks, Text.isBlank c) (p : Position)
    (opened : List Position) (pieces : List Lexeme) :
    bracesFrom p opened (blanks.map .plain ++ pieces) =
      bracesFrom (p.after blanks) opened pieces := by
  induction blanks generalizing p with
  | nil => rfl
  | cons c rest ih =>
    obtain ⟨hc, hrest⟩ := List.forall_mem_cons.1 h
    have hopen : c ≠ '\x7b' := by
      rintro rfl
      cases hc
    have hclose : c ≠ '\x7d' := by
      rintro rfl
      cases hc
    rw [List.map_cons, List.cons_append, bracesFrom]
    · exact ih hrest (p.next c)
    · exact fun heq => hopen (Lexeme.plain.inj heq)
    · exact fun heq => hclose (Lexeme.plain.inj heq)

theorem bracesFrom_piece (p : Position) (c : Comment) : bracesFrom p [] [c.piece] = [] := by
  unfold Comment.piece
  split <;> rfl

/-- A comment whose content is exact is all that is found behind an indentation. -/
theorem scan_piece {c : Comment} (h : c.Exact) {indent : List Char}
    (hindent : IsIndentation indent) :
    scan (String.ofList (indent ++ c.piece.chars)) =
      ⟨[{ c with position := some ⟨1, indent.length + 1⟩ }], []⟩ := by
  have hpieces : Lexeme.lexemes (indent ++ c.piece.chars) = indent.map .plain ++ [c.piece] := by
    rw [Lexeme.lexemes, Lexeme.lexemesFrom_blanks hindent.blank, Lexeme.lexemesFrom_piece h]
  simp only [scan, String.toList_ofList, hpieces, commentsFrom_plain, commentsFrom,
    bracesFrom_blanks hindent.blank, bracesFrom_piece, Position.after_start_of_line hindent.line,
    Lexeme.comment?_piece h]
  rfl

end Scan

open Comment in
/-- **A printed comment is scanned as the comment it was, and printed again the same.** What is
printed for a comment of a scan at an indentation is that indentation and one comment of the same
kind that goes on to the end, without any brace; and printing this comment prints the same text. -/
theorem scan_render {source indent : String} {c : Comment} (hc : c ∈ (scan source).comments)
    (hindent : IsIndentation indent.toList) :
    ∃ again, scan (c.render indent) = ⟨[again], []⟩ ∧ again.kind = c.kind ∧
      again.position = some ⟨1, indent.length + 1⟩ ∧
      again.StandsIn (c.render indent).toList ⟨indent.length, (c.render indent).length⟩ ∧
      again.render indent = c.render indent := by
  have hexact := (Scan.exact_of_scan hc).printed hindent
  have hchars := renderChars_eq_piece hindent c
  have hscan := Scan.scan_piece hexact hindent
  rw [← hchars] at hscan
  refine ⟨_, hscan, rfl, rfl, ?_, ?_⟩
  · have hpiece := Lexeme.comment?_piece hexact ⟨1, indent.toList.length + 1⟩
    rw [← Position.after_start_of_line hindent.line] at hpiece
    have hstands := Lexeme.standsIn_of_comment? (Lexeme.fits_piece _) hpiece
    rw [List.append_nil, ← List.length_append, ← hchars,
      Position.after_start_of_line hindent.line] at hstands
    rwa [render, String.toList_ofList, String.length_ofList, ← String.length_toList]
  · change String.ofList (renderChars indent.toList (c.printed indent.toList)) = _
    rw [renderChars_eq_piece hindent, printed_printed hindent, ← hchars]
    rfl

/-- A block comment that nothing ends, with a star alone on its last line. -/
def unendedBlock : Comment := ⟨" a\n     * b\n *", .block, some ⟨1, 8⟩⟩

theorem scan_render_unendedBlock : ∃ again,
    scan (unendedBlock.render "  ") = ⟨[again], []⟩ ∧ again.kind = .block ∧
      again.render "  " = unendedBlock.render "  " ∧
      unendedBlock.render "  " = "  /* a\n   * b\n   */" := by
  have hscanned : unendedBlock ∈ (scan "int x; /* a\n     * b\n *").comments := by decide +kernel
  obtain ⟨again, hscan, hkind, -, -, hsame⟩ :=
    @scan_render _ "  " _ hscanned (.of_spaces (by simp))
  exact ⟨again, hscan, hkind, hsame, by decide +kernel⟩

end Recast
