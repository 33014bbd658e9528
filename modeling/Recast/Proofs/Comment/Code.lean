import Mathlib
import Recast.Comment.Scan
import Recast.Comment.Render

/-!
The code of a text: what is left without comments and blanks.

`Text.code` takes a text apart into its pieces and drops the comments and the blanks outside literals.
Pieces are not cut where two texts are joined, so proofs read a text character by character instead:
`Spot` is where a reader stands, and `run` what is kept on the way and where it ends. `Reads` says of
a text that it starts and ends in code; such texts can be put together (`Reads.append`). `Fills` says
this of a text with the line break after it, which is all that holds of a line with a comment.
-/

namespace Recast

/-- What is left of a piece of text without comments and blanks. -/
def Lexeme.kept : Lexeme → List Char
  | .literal text => text
  | .plain c => if Text.isBlank c then [] else [c]
  | .lineComment _ => []
  | .blockComment .. => []

/-- A text without its comments and without the blanks outside its literals. -/
def Text.code (text : String) : String :=
  String.ofList ((Lexeme.lexemes text.toList).flatMap Lexeme.kept)

/-! ### Reading character by character -/

/-- Where a reader stands. -/
inductive Spot where
  | code
  /-- In code, after a slash that may start a comment. -/
  | slash
  | line
  | block
  /-- In a block comment, after a star that may end it. -/
  | star
  | quoted (quote : Char)
  /-- In a literal, after a backslash. -/
  | escaped (quote : Char)
deriving DecidableEq, Repr

namespace Spot

/-- One character in code. -/
def inCode (c : Char) : Spot × List Char :=
  if c = '/' then (slash, [])
  else if c = '"' ∨ c = '\'' then (quoted c, [c])
  else (code, if Text.isBlank c then [] else [c])

/-- One character: where it leads, and what is kept of it and of a slash before it. -/
def step : Spot → Char → Spot × List Char
  | code, c => inCode c
  | slash, c =>
    if c = '/' then (line, [])
    else if c = '*' then (block, [])
    else ((inCode c).1, '/' :: (inCode c).2)
  | line, c => if c = '\n' then (code, []) else (line, [])
  | block, c => if c = '*' then (star, []) else (block, [])
  | star, c => if c = '/' then (code, []) else if c = '*' then (star, []) else (block, [])
  | quoted quote, c =>
    if c = '\\' then (escaped quote, [c])
    else if c = quote ∨ c = '\n' then (code, [c])
    else (quoted quote, [c])
  | escaped quote, c => (quoted quote, [c])

/-- Some text: where it leads, and what is kept of it. -/
def run : Spot → List Char → Spot × List Char
  | p, [] => (p, [])
  | p, c :: rest => ((run (p.step c).1 rest).1, (p.step c).2 ++ (run (p.step c).1 rest).2)

/-- What is kept of what was read before, once the text is at its end. -/
def pending : Spot → List Char
  | slash => ['/']
  | _ => []

theorem run_append (p : Spot) (a b : List Char) :
    p.run (a ++ b) = (((p.run a).1.run b).1, (p.run a).2 ++ ((p.run a).1.run b).2) := by
  induction a generalizing p with
  | nil => rfl
  | cons c a ih => simp [run, ih]

/-- The place that a mode of reading pieces is. -/
def ofMode : Lexeme.Mode → Spot
  | .code => code
  | .line _ => line
  | .block _ => block
  | .quoted quote _ => quoted quote

/-- What has been read of a literal. -/
def held : Lexeme.Mode → List Char
  | .quoted _ read => read.reverse
  | _ => []

/-- A slash before anything but a second slash or a star is code. -/
theorem run_slash {text : List Char} (hline : ∀ rest, text ≠ '/' :: rest)
    (hblock : ∀ rest, text ≠ '*' :: rest) :
    (slash.run text).2 ++ (slash.run text).1.pending =
      '/' :: ((code.run text).2 ++ (code.run text).1.pending) := by
  cases text with
  | nil => rfl
  | cons c rest =>
    have hslash : c ≠ '/' := fun hc => hline rest (by rw [hc])
    have hstar : c ≠ '*' := fun hc => hblock rest (by rw [hc])
    simp [run, step, hslash, hstar]

/-- A star before anything but a slash is part of the comment. -/
theorem run_star {text : List Char} (h : ∀ rest, text ≠ '/' :: rest) :
    (star.run text).2 ++ (star.run text).1.pending =
      (block.run text).2 ++ (block.run text).1.pending := by
  cases text with
  | nil => rfl
  | cons c rest =>
    have hslash : c ≠ '/' := fun hc => h rest (by rw [hc])
    simp [run, step, hslash]

/-- Reading by pieces and by characters keeps the same. -/
theorem flatMap_kept (mode : Lexeme.Mode) (text : List Char) :
    (Lexeme.lexemesFrom mode text).flatMap Lexeme.kept =
      held mode ++ (((ofMode mode).run text).2 ++ ((ofMode mode).run text).1.pending) := by
  fun_induction Lexeme.lexemesFrom mode text with
  | case1 | case2 | case3 | case4 => simp [held, ofMode, run, pending, Lexeme.kept]
  | case5 rest ih => exact ih
  | case6 rest ih => exact ih
  | case7 c rest _ _ hquote ih =>
    have hslash : c ≠ '/' := by rcases hquote with rfl | rfl <;> decide
    simp [ih, held, ofMode, run, step, inCode, hslash, hquote]
  | case8 c rest hline hblock hquote ih =>
    rw [List.flatMap_cons, ih]
    by_cases hslash : c = '/'
    · subst hslash
      have hrest := run_slash (fun rest h => hline rest rfl h) (fun rest h => hblock rest rfl h)
      exact hrest.symm
    · simp [held, ofMode, run, step, inCode, hslash, hquote, Lexeme.kept]
  | case9 read rest ih => exact ih
  | case10 read c rest hbreak ih => simpa [held, ofMode, run, step, hbreak] using ih
  | case11 read rest ih => exact ih
  | case12 read c rest hend ih =>
    rw [ih]
    by_cases hstar : c = '*'
    · subst hstar
      exact (run_star fun rest h => hend rest rfl h).symm
    · simp [held, ofMode, run, step, hstar]
  | case13 quote read c rest ih => simpa [held, ofMode, run, step] using ih
  | case14 quote read c rest hescape hend ih =>
    rw [List.flatMap_cons, ih]
    by_cases hslash : c = '\\'
    · subst hslash
      cases rest with
      | nil => simp [held, ofMode, run, step, pending, Lexeme.kept]
      | cons c rest => exact absurd rfl (hescape c rest rfl)
    · simp [held, ofMode, run, step, hslash, hend, Lexeme.kept]
  | case15 quote read c rest hescape hend ih =>
    rw [ih]
    by_cases hslash : c = '\\'
    · subst hslash
      cases rest with
      | nil => simp [held, ofMode, run, step, pending]
      | cons c rest => exact absurd rfl (hescape c rest rfl)
    · simp [held, ofMode, run, step, hslash, hend]

end Spot

/-! ### Texts that start and end in code -/

/-- Whether a text starts and ends in code, and what is kept of it. -/
def Reads (text : String) (kept : List Char) : Prop :=
  Spot.code.run text.toList = (.code, kept)

/-- Whether a text and the line break after it start and end in code, and what is kept of them. -/
def Fills (text : String) (kept : List Char) : Prop := Reads (text ++ "\n") kept

/-- Whether a text has no quotes and no slashes. -/
def Text.isPlain (text : String) : Bool :=
  text.toList.all fun c => c ≠ '/' && c ≠ '"' && c ≠ '\''

variable {a b : String} {k l : List Char}

theorem Reads.code (h : Reads a k) : Text.code a = String.ofList k := by
  have hkept := Spot.flatMap_kept .code a.toList
  rw [Spot.ofMode, h] at hkept
  rw [Text.code, Lexeme.lexemes, hkept]
  simp [Spot.held, Spot.pending]

theorem Reads.empty : Reads "" [] := rfl

theorem Reads.append (ha : Reads a k) (hb : Reads b l) : Reads (a ++ b) (k ++ l) := by
  unfold Reads at ha hb ⊢
  rw [String.toList_append, Spot.run_append, ha, hb]

theorem Spot.run_plain {text : List Char} (h : ∀ c ∈ text, c ≠ '/' ∧ c ≠ '"' ∧ c ≠ '\'') :
    code.run text = (code, text.filter (!Text.isBlank ·)) := by
  induction text with
  | nil => rfl
  | cons c rest ih =>
    obtain ⟨hslash, hdouble, hsingle⟩ := h c List.mem_cons_self
    have hrest := ih fun c hc => h c (List.mem_cons_of_mem _ hc)
    have hstep : code.step c = (code, if Text.isBlank c then [] else [c]) := by
      simp [step, inCode, hslash, hdouble, hsingle]
    rw [run, hstep, hrest]
    by_cases hblank : Text.isBlank c = true <;> simp [hblank]

/-- A text without quotes and slashes is code. -/
theorem Reads.plain (h : Text.isPlain a) : Reads a (a.toList.filter (!Text.isBlank ·)) := by
  apply Spot.run_plain
  simpa [Text.isPlain, and_assoc] using h

/-- The characters that open or close something are no blanks. -/
theorem ne_of_isBlank {c : Char} (h : Text.isBlank c) :
    c ≠ '/' ∧ c ≠ '"' ∧ c ≠ '\'' ∧ c ≠ '*' := by
  refine ⟨?_, ?_, ?_, ?_⟩ <;>
    · rintro rfl
      cases h

theorem Text.isPlain_of_isBlank (h : ∀ c ∈ a.toList, Text.isBlank c) : Text.isPlain a := by
  simp only [Text.isPlain, List.all_eq_true, Bool.and_eq_true, decide_eq_true_eq]
  intro c hc
  obtain ⟨hslash, hdouble, hsingle, -⟩ := ne_of_isBlank (h c hc)
  exact ⟨⟨hslash, hdouble⟩, hsingle⟩

/-- Nothing is kept of blanks. -/
theorem Reads.blank (h : ∀ c ∈ a.toList, Text.isBlank c) : Reads a [] := by
  have hread := Reads.plain (Text.isPlain_of_isBlank h)
  rwa [List.filter_eq_nil_iff.2 (by simpa using h)] at hread

theorem Reads.line : Reads "\n" [] := rfl

theorem Fills.of_reads (h : Reads a k) : Fills a k := by
  have hline := h.append Reads.line
  rwa [List.append_nil] at hline

/-- Blanks at the start of a text do not count. -/
theorem Reads.dropBlanks (h : Reads a k) : Reads (Text.dropBlanks a) k := by
  have hsplit : a = String.ofList (a.toList.takeWhile Text.isBlank) ++ Text.dropBlanks a := by
    rw [Text.dropBlanks, Text.trimStart, ← String.ofList_append, List.takeWhile_append_dropWhile,
      String.ofList_toList]
  have hblank : Reads (String.ofList (a.toList.takeWhile Text.isBlank)) [] := by
    apply Reads.blank
    intro c hc
    rw [String.toList_ofList] at hc
    exact List.mem_takeWhile_imp hc
  unfold Reads at h hblank ⊢
  rw [hsplit, String.toList_append, Spot.run_append, hblank] at h
  simpa using h

end Recast
