import Mathlib
import Recast.Proofs.Comment.Code
import Recast.Proofs.SlashPath

/-!
Comments end where they are written to end.

A scanned line comment has no line break in it, and a scanned block comment no `*/` (`Closed`). What
is written for a comment keeps this: lines are stripped and indented anew, but nothing is written that
could end the comment before its own end. So a reader who starts in code is back in code after the
line break behind the comment, and has kept nothing (`Closed.fills_render`).
-/

namespace Recast

/-- Whether no block comment ends inside some characters. -/
def Unended (text : List Char) : Prop := ¬ ['*', '/'] <:+: text

/-- Whether the text of a comment does not end it. -/
def Comment.Closed (c : Comment) : Prop :=
  match c.kind with
  | .line => '\n' ∉ c.content.toList
  | .block => Unended c.content.toList
  | .javadoc => Unended ('*' :: c.content.toList)

namespace Unended

variable {a b : List Char} {c : Char}

theorem nil : Unended [] := by
  intro h
  simpa using h.length_le

theorem part (h : Unended b) (hab : a <:+: b) : Unended a := fun hend => h (hend.trans hab)

theorem cons (h : Unended a) (hc : c ≠ '*') : Unended (c :: a) := by
  intro hend
  rcases List.infix_cons_iff.1 hend with hstart | hlater
  · exact hc (List.cons_prefix_cons.1 hstart).1.symm
  · exact h hlater

/-- Characters other than stars in front of a text do not end it. -/
theorem append_left (h : Unended b) (ha : ∀ c ∈ a, c ≠ '*') : Unended (a ++ b) := by
  induction a with
  | nil => exact h
  | cons c a ih =>
    exact (ih fun c hc => ha c (List.mem_cons_of_mem _ hc)).cons (ha c List.mem_cons_self)

/-- A line break between two texts keeps a star of the one from a slash of the other. -/
theorem append_line (ha : Unended a) (hb : Unended b) : Unended (a ++ '\n' :: b) := by
  induction a with
  | nil => exact hb.cons (by decide)
  | cons c a ih =>
    have htail : Unended (a ++ '\n' :: b) := ih (ha.part (List.infix_cons List.infix_rfl))
    intro hend
    rcases List.infix_cons_iff.1 hend with hstart | hlater
    · obtain ⟨rfl, hslash⟩ := List.cons_prefix_cons.1 hstart
      cases a with
      | nil =>
        obtain ⟨hbreak, -⟩ := List.cons_prefix_cons.1 hslash
        exact absurd hbreak (by decide)
      | cons d a =>
        obtain ⟨rfl, -⟩ := List.cons_prefix_cons.1 hslash
        exact ha ⟨[], a, rfl⟩
    · exact htail hlater

/-- One more character. -/
theorem concat (ha : Unended a) (hc : c = '/' → a.getLast? ≠ some '*') : Unended (a ++ [c]) := by
  intro hend
  rcases List.infix_concat_iff.1 hend with hlast | hbefore
  · obtain ⟨first, hfirst⟩ := hlast
    have hsplit : (first ++ ['*']) ++ ['/'] = a ++ [c] := by simpa using hfirst
    obtain ⟨rfl, hslash⟩ := List.append_inj' hsplit rfl
    exact hc (List.singleton_inj.1 hslash).symm (by simp)
  · exact ha hbefore

end Unended

namespace Spot

/-- Inside a comment. -/
def InComment (p : Spot) : Prop := p = block ∨ p = star

/-- Text that does not end a comment is read inside it, and nothing of it is kept. -/
theorem run_unended {text : List Char} (h : Unended text) :
    InComment (block.run text).1 ∧ (block.run text).2 = [] ∧
      (text.head? ≠ some '/' → InComment (star.run text).1 ∧ (star.run text).2 = []) := by
  induction text with
  | nil => exact ⟨.inl rfl, rfl, fun _ => ⟨.inr rfl, rfl⟩⟩
  | cons c rest ih =>
    obtain ⟨hblock, hkept, hstar⟩ := ih (h.part (List.infix_cons List.infix_rfl))
    by_cases hc : c = '*'
    · subst hc
      have hslash : rest.head? ≠ some '/' := by
        intro hslash
        obtain ⟨rest, rfl⟩ := List.head?_eq_some_iff.1 hslash
        exact h ⟨[], rest, rfl⟩
      exact ⟨(hstar hslash).1, (hstar hslash).2, fun _ => ⟨(hstar hslash).1, (hstar hslash).2⟩⟩
    · have hstep : block.step c = (block, []) := by simp [step, hc]
      refine ⟨by rw [run, hstep]; exact hblock, by rw [run, hstep]; exact hkept, ?_⟩
      intro hslash
      have hne : c ≠ '/' := fun h => hslash (by rw [h]; rfl)
      have hstep' : star.step c = (block, []) := by simp [step, hc, hne]
      rw [run, hstep']
      exact ⟨hblock, hkept⟩

theorem run_line {text : List Char} (h : '\n' ∉ text) : line.run text = (line, []) := by
  induction text with
  | nil => rfl
  | cons c rest ih =>
    have hc : c ≠ '\n' := fun hc => h (by simp [hc])
    rw [run, step, if_neg hc, ih fun hrest => h (List.mem_cons_of_mem _ hrest)]
    rfl

end Spot

/-! ### Scanned comments -/

namespace Lexeme

/-- What a mode has read of a comment does not end it, and neither does the text that follows. -/
def Mode.Open (text : List Char) : Mode → Prop
  | .line read => '\n' ∉ read
  | .block read => Unended read.reverse ∧ (read.head? = some '*' → text.head? ≠ some '/')
  | _ => True

/-- Whether a piece is none that ends before its own end. -/
def Whole : Lexeme → Prop
  | .lineComment body => '\n' ∉ body
  | .blockComment body _ => Unended body
  | _ => True

theorem whole_of_mem {mode : Mode} {text : List Char} (h : mode.Open text) :
    ∀ lexeme ∈ lexemesFrom mode text, lexeme.Whole := by
  fun_induction lexemesFrom mode text with
  | case1 => exact List.forall_mem_nil _
  | case2 read => simpa [Whole, Mode.Open] using h
  | case3 read => simpa [Whole, Mode.Open] using h.1
  | case4 => simp [Whole]
  | case5 rest ih => exact ih (by simp [Mode.Open])
  | case6 rest ih => exact ih ⟨Unended.nil, by simp⟩
  | case7 c rest _ _ _ ih => exact ih True.intro
  | case8 c rest _ _ _ ih => exact List.forall_mem_cons.2 ⟨True.intro, ih True.intro⟩
  | case9 read rest ih =>
    refine List.forall_mem_cons.2 ⟨?_, List.forall_mem_cons.2 ⟨True.intro, ih True.intro⟩⟩
    simpa [Whole, Mode.Open] using h
  | case10 read c rest hbreak ih =>
    apply ih
    have hread : '\n' ∉ read := h
    simpa [Mode.Open, hread] using Ne.symm hbreak
  | case11 read rest ih => exact List.forall_mem_cons.2 ⟨h.1, ih True.intro⟩
  | case12 read c rest hend ih =>
    apply ih
    constructor
    · rw [List.reverse_cons]
      refine h.1.concat fun hslash hstar => ?_
      rw [List.getLast?_reverse] at hstar
      exact h.2 hstar (by rw [hslash]; rfl)
    · intro hstar hslash
      obtain ⟨rest', rfl⟩ := List.head?_eq_some_iff.1 hslash
      exact hend rest' (by simpa using hstar) rfl
  | case13 quote read c rest ih => exact ih True.intro
  | case14 quote read c rest _ _ ih => exact List.forall_mem_cons.2 ⟨True.intro, ih True.intro⟩
  | case15 quote read c rest _ _ ih => exact ih True.intro

/-- The comment that a piece is does not end before its own end. -/
theorem closed_of_comment? {piece : Lexeme} {p : Position} {c : Comment} (hwhole : piece.Whole)
    (hcomment : piece.comment? p = some c) : c.Closed := by
  unfold comment? at hcomment
  split at hcomment
  · next body =>
    obtain rfl := Option.some.inj hcomment
    intro hbreak
    rw [String.toList_ofList, Text.dropEnd, List.mem_reverse] at hbreak
    exact hwhole (List.mem_reverse.1 ((List.dropWhile_sublist _).subset hbreak))
  · obtain rfl := Option.some.inj hcomment
    simpa [Comment.Closed, Whole] using hwhole
  · obtain rfl := Option.some.inj hcomment
    simpa [Comment.Closed, Whole] using hwhole
  · cases hcomment

end Lexeme

theorem Scan.exists_lexeme {p : Position} {pieces : List Lexeme} {c : Comment}
    (h : c ∈ commentsFrom p pieces) : ∃ lexeme ∈ pieces, ∃ q, lexeme.comment? q = some c := by
  induction pieces generalizing p with
  | nil => cases h
  | cons lexeme rest ih =>
    rcases List.mem_append.1 h with hfirst | hrest
    · exact ⟨lexeme, List.mem_cons_self, p, Option.mem_toList.1 hfirst⟩
    · obtain ⟨other, hother, hcomment⟩ := ih hrest
      exact ⟨other, List.mem_cons_of_mem _ hother, hcomment⟩

/-- Scanned comments are closed. -/
theorem closed_of_scan {source : String} {c : Comment} (h : c ∈ (scan source).comments) :
    c.Closed := by
  obtain ⟨lexeme, hlexeme, q, hcomment⟩ := Scan.exists_lexeme h
  have hopen : Lexeme.Mode.code.Open source.toList := True.intro
  exact Lexeme.closed_of_comment? (Lexeme.whole_of_mem hopen lexeme hlexeme) hcomment

/-! ### Written comments -/

namespace Comment

variable {indent line : List Char}

theorem trimEnd_isPrefix (text : List Char) : Text.trimEnd text <+: text := by
  rw [Text.trimEnd, Text.dropEnd, ← List.reverse_suffix, List.reverse_reverse]
  exact List.dropWhile_suffix _

theorem trim_isInfix (text : List Char) : Text.trim text <:+: text :=
  (trimEnd_isPrefix _).isInfix.trans (List.dropWhile_suffix _).isInfix

theorem unended_innerLine (hindent : ∀ c ∈ indent, Text.isBlank c) (h : Unended line) :
    Unended (innerLine indent line) := by
  have hstars : ∀ c ∈ indent, c ≠ '*' := fun c hc => (ne_of_isBlank (hindent c hc)).2.2.2
  have htrim : Unended (Text.trim line) := h.part (trim_isInfix line)
  unfold innerLine
  split
  · exact Unended.nil
  · next rest heq =>
    rw [heq] at htrim
    refine Unended.part ?_ (trimEnd_isPrefix _).isInfix
    exact (htrim.cons (by decide)).append_left hstars
  · exact htrim.append_left hstars

theorem exists_closeLine (hindent : ∀ c ∈ indent, Text.isBlank c) (h : Unended line) :
    ∃ inner, Unended inner ∧ closeLine indent line = inner ++ ['*', '/'] := by
  have hstars : ∀ c ∈ indent, c ≠ '*' := fun c hc => (ne_of_isBlank (hindent c hc)).2.2.2
  unfold closeLine
  split
  · exact ⟨indent ++ [' '], (Unended.nil.cons (by decide)).append_left hstars, by simp⟩
  · exact ⟨line, h, rfl⟩

/-- The later lines of a block comment end it at their end. -/
theorem exists_innerLines (hindent : ∀ c ∈ indent, Text.isBlank c) {first : List Char}
    {rest : List (List Char)} (h : ∀ line ∈ first :: rest, Unended line) :
    ∃ inner, Unended inner ∧
      ['\n'].intercalate (innerLines indent (first :: rest)) = inner ++ ['*', '/'] := by
  induction rest generalizing first with
  | nil =>
    obtain ⟨inner, hinner, heq⟩ := exists_closeLine hindent
      (unended_innerLine hindent (h first List.mem_cons_self))
    exact ⟨inner, hinner, by simp [innerLines, heq]⟩
  | cons second rest ih =>
    obtain ⟨inner, hinner, heq⟩ := ih fun line hline => h line (List.mem_cons_of_mem _ hline)
    have hfirst := unended_innerLine hindent (h first List.mem_cons_self)
    refine ⟨innerLine indent first ++ '\n' :: inner, hfirst.append_line hinner, ?_⟩
    rw [innerLines, List.intercalate_cons_of_ne_nil (by cases rest <;> simp [innerLines]), heq]
    · simp
    · simp

/-- A piece of a text put together is part of it. -/
theorem isInfix_intercalate {separator piece : List Char} {pieces : List (List Char)}
    (h : piece ∈ pieces) : piece <:+: separator.intercalate pieces := by
  induction pieces with
  | nil => cases h
  | cons first rest ih =>
    cases rest with
    | nil =>
      obtain rfl := List.mem_singleton.1 h
      simp
    | cons second rest =>
      rw [List.intercalate_cons_cons]
      rcases List.mem_cons.1 h with rfl | hrest
      · exact ((List.prefix_append _ _).trans (List.prefix_append _ _)).isInfix
      · exact (ih hrest).trans (List.suffix_append _ _).isInfix

theorem renderChars_of_length_le_one {c : Comment} (hkind : c.kind ≠ .line)
    (hlines : (Text.splitChars '\n' c.content.toList).length ≤ 1) :
    renderChars indent c = indent ++ opener c.kind ++ c.content.toList ++ ['*', '/'] := by
  unfold renderChars
  cases hk : c.kind with
  | line => exact absurd hk hkind
  | block | javadoc =>
    dsimp only
    split
    · next hcons => simp [hcons] at hlines
    · rfl

theorem renderChars_of_cons_cons {c : Comment} {first second : List Char} {rest : List (List Char)}
    (hkind : c.kind ≠ .line)
    (hlines : Text.splitChars '\n' c.content.toList = first :: second :: rest) :
    renderChars indent c = ['\n'].intercalate
      ((indent ++ opener c.kind ++ Text.trimEnd first) :: innerLines indent (second :: rest)) := by
  unfold renderChars
  cases hk : c.kind with
  | line => exact absurd hk hkind
  | block | javadoc => simp only [hlines]

/-- A block comment opens with `/*` and ends at its end only. -/
theorem exists_renderChars {c : Comment} (h : c.Closed) (hkind : c.kind ≠ .line)
    (hindent : ∀ c ∈ indent, Text.isBlank c) :
    ∃ inner, Unended inner ∧
      renderChars indent c = indent ++ '/' :: '*' :: inner ++ ['*', '/'] := by
  obtain ⟨star, hopener, hstar⟩ : ∃ star, opener c.kind = '/' :: '*' :: star ∧
      Unended (star ++ c.content.toList) := by
    unfold Closed at h
    cases hk : c.kind with
    | line => exact absurd hk hkind
    | block => exact ⟨[], rfl, by simpa [hk] using h⟩
    | javadoc => exact ⟨['*'], rfl, by simpa [hk] using h⟩
  have hjoin : ['\n'].intercalate (Text.splitChars '\n' c.content.toList) = c.content.toList := by
    rw [Text.splitChars_eq, List.intercalate_splitOn]
  have hone : ∀ line ∈ Text.splitChars '\n' c.content.toList, Unended line := by
    intro line hline
    have hpart : line <:+: c.content.toList := hjoin ▸ isInfix_intercalate hline
    exact hstar.part (hpart.trans (List.suffix_append _ _).isInfix)
  rcases hlines : Text.splitChars '\n' c.content.toList with _ | ⟨first, _ | ⟨second, rest⟩⟩
  · exact ⟨_, hstar, by simp [renderChars_of_length_le_one hkind, hlines, hopener]⟩
  · exact ⟨_, hstar, by simp [renderChars_of_length_le_one hkind, hlines, hopener]⟩
  · rw [renderChars_of_cons_cons hkind hlines, hopener]
    rw [hlines] at hone hjoin
    obtain ⟨later, hlater, heq⟩ := exists_innerLines hindent
      fun line hline => hone line (List.mem_cons_of_mem _ hline)
    have hfirst : first <+: c.content.toList := by
      rw [← hjoin, List.intercalate_cons_cons]
      exact (List.prefix_append _ _).trans (List.prefix_append _ _)
    have hopened : Unended (star ++ Text.trimEnd first) := by
      apply hstar.part
      exact ((List.prefix_append_right_inj _).2 ((trimEnd_isPrefix first).trans hfirst)).isInfix
    refine ⟨_, hopened.append_line hlater, ?_⟩
    rw [List.intercalate_cons_of_ne_nil (by cases rest <;> simp [innerLines]), heq]
    simp

/-- A reader is back in code after a closed comment and the line break behind it, and has kept
nothing. -/
theorem Closed.fills_render {c : Comment} {indent : String} (h : c.Closed)
    (hindent : ∀ c ∈ indent.toList, Text.isBlank c) : Fills (c.render indent) [] := by
  have hblank : Spot.code.run indent.toList = (.code, []) := Reads.blank hindent
  unfold Fills Reads
  rw [String.toList_append, render, String.toList_ofList]
  by_cases hkind : c.kind = .line
  · have hcontent : '\n' ∉ c.content.toList := by simpa [Closed, hkind] using h
    have hchars : renderChars indent.toList c =
        indent.toList ++ '/' :: '/' :: c.content.toList := by
      simp [renderChars, hkind, opener]
    rw [hchars, List.append_assoc, Spot.run_append, hblank, List.cons_append, List.cons_append]
    simp [Spot.run, Spot.step, Spot.inCode, Spot.run_append, Spot.run_line hcontent]
  · obtain ⟨inner, hinner, hchars⟩ := exists_renderChars h hkind hindent
    obtain ⟨hplace, hkept, -⟩ := Spot.run_unended hinner
    have hend : ((Spot.block.run inner).1.run ['*', '/', '\n']) = (.code, []) := by
      rcases hplace with hblock | hstar
      · rw [hblock]
        rfl
      · rw [hstar]
        rfl
    have hsplit : renderChars indent.toList c ++ "\n".toList =
        indent.toList ++ ('/' :: '*' :: (inner ++ ['*', '/', '\n'])) := by
      rw [hchars]
      simp
    have hopen : Spot.code.run ('/' :: '*' :: (inner ++ ['*', '/', '\n'])) =
        Spot.block.run (inner ++ ['*', '/', '\n']) := rfl
    rw [hsplit, Spot.run_append, hblank, hopen, Spot.run_append, hend, hkept]
    rfl

end Comment

end Recast
