import Mathlib
import Recast.Proofs.Comment.Closed
import Recast.Proofs.Position

/-!
Where the comments of a text stand.

The pieces that a text is cut into are the text again (`chars_lexemesFrom`), and each piece fits
what follows it (`Fits`): a line comment goes up to the line break, a block comment is open only at
the end of the text, a literal is as long as its quotes and backslashes make it (`literalLength`),
and at a single character neither a comment nor a literal starts. So the offsets of the pieces tell
all about the comments of a scan. Each stands where its position says, with its delimiters around
its content (`Comment.StandsIn`); the comments and the literals lie apart; and whatever looks like
the start of a comment or of a literal lies inside one of them (`scan_layout`).
-/

namespace Recast

/-- A stretch of a text, from the offset of its first character to the offset behind its last. -/
structure Stretch where
  start : Nat
  stop : Nat
deriving DecidableEq, Repr

namespace Stretch

/-- Whether an offset lies in a stretch. -/
def Holds (s : Stretch) (offset : Nat) : Prop := s.start ≤ offset ∧ offset < s.stop

/-- Whether a stretch ends before another starts. -/
def Before (a b : Stretch) : Prop := a.stop ≤ b.start

/-- Whether two stretches have no character in common. -/
def Apart (a b : Stretch) : Prop := a.Before b ∨ b.Before a

end Stretch

namespace Comment

/-- What stands between the content of a comment and the text that follows it: carriage returns
before a line break or the end of the text, or the delimiter, which only the end of the text can
take the place of. -/
def EndsWith (c : Comment) (ending rest : List Char) : Prop :=
  match c.kind with
  | .line => (∀ char ∈ ending, char = '\r') ∧ (rest = [] ∨ rest.head? = some '\n')
  | _ => ending = ['*', '/'] ∨ ending = [] ∧ rest = []

/-- Whether a comment is written in a stretch of a text, which starts where the comment says. -/
def StandsIn (text : List Char) (c : Comment) (s : Stretch) : Prop :=
  ∃ before ending rest,
    text = before ++ (opener c.kind ++ c.content.toList ++ ending) ++ rest ∧
    s = ⟨before.length, before.length + (opener c.kind ++ c.content.toList ++ ending).length⟩ ∧
    c.position = some (.inText text before.length) ∧ c.EndsWith ending rest

/-- Whether the content of a comment is all between its delimiters and nothing of them: it does not
end the comment, a block comment is no doc comment, and a line's carriage returns are left out. -/
structure Exact (c : Comment) : Prop where
  closed : c.Closed
  block : c.kind = .block → c.content.toList.head? ≠ some '*'
  line : c.kind = .line → c.content.toList.getLast? ≠ some '\r'

end Comment

namespace Lexeme

/-! ### Literals -/

/-- The number of characters of a literal behind its opening quote: up to the same quote or a line
break, whichever comes first, but for a character behind a backslash. -/
def literalLength (quote : Char) : List Char → Nat
  | '\\' :: _ :: rest => literalLength quote rest + 2
  | c :: rest => if c = quote ∨ c = '\n' then 1 else literalLength quote rest + 1
  | [] => 0

/-- Whether a stretch of a text is a string or character literal. -/
def LiteralIn (text : List Char) (s : Stretch) : Prop :=
  ∃ before quote rest, (quote = '"' ∨ quote = '\'') ∧ text = before ++ quote :: rest ∧
    s = ⟨before.length, before.length + (1 + literalLength quote rest)⟩

theorem literalLength_last {quote c : Char} (hquote : quote = '"' ∨ quote = '\'')
    (h : c = quote ∨ c = '\n') (rest : List Char) : literalLength quote (c :: rest) = 1 := by
  have hslash : c ≠ '\\' := by
    rintro rfl
    rcases h with rfl | h
    · simp at hquote
    · simp at h
  rw [literalLength, if_pos h]
  rintro _ _ rfl
  exact absurd rfl hslash

theorem literalLength_cons {quote c : Char} {rest : List Char}
    (hescape : ∀ d more, c = '\\' → rest = d :: more → False) (h : ¬ (c = quote ∨ c = '\n')) :
    literalLength quote (c :: rest) = literalLength quote rest + 1 := by
  rw [literalLength, if_neg h]
  exact fun d more hslash hrest => hescape d more hslash hrest

/-! ### Pieces and what follows them -/

/-- Whether a comment or a literal starts where a text does. -/
def Opens (text : List Char) : Prop :=
  ['/', '/'] <+: text ∨ ['/', '*'] <+: text ∨ text.head? = some '"' ∨ text.head? = some '\''

/-- Whether a piece ends where it should, given the text that follows it. -/
def Fits (rest : List Char) : Lexeme → Prop
  | .lineComment _ => rest = [] ∨ rest.head? = some '\n'
  | .blockComment _ closed => closed = false → rest = []
  | .literal text => ∃ quote body, (quote = '"' ∨ quote = '\'') ∧ text = quote :: body ∧
      literalLength quote (body ++ rest) = body.length
  | .plain c => ¬ Opens (c :: rest)

/-- Whether every piece of a text ends where it should. -/
def AllFit : List Lexeme → Prop
  | [] => True
  | piece :: rest => piece.Fits (rest.flatMap chars) ∧ AllFit rest

/-- What has been read of the piece at work. -/
def Mode.chars : Mode → List Char
  | .code => []
  | .line read => '/' :: '/' :: read.reverse
  | .block read => '/' :: '*' :: read.reverse
  | .quoted _ read => read.reverse

/-- Whether what has been read of a literal belongs to it, given the text that follows. -/
def Mode.Goes (rest : List Char) : Mode → Prop
  | .quoted quote read => (quote = '"' ∨ quote = '\'') ∧ ∃ body, read.reverse = quote :: body ∧
      literalLength quote (body ++ rest) = body.length + literalLength quote rest
  | _ => True

/-- The pieces of a text are the text. -/
theorem chars_lexemesFrom (mode : Mode) (text : List Char) :
    (lexemesFrom mode text).flatMap chars = mode.chars ++ text := by
  fun_induction lexemesFrom mode text <;> simp_all [chars, Mode.chars]

/-- One more character, or two, of a literal. -/
theorem Mode.Goes.read {quote : Char} {read rest : List Char} (more : List Char)
    (h : Mode.Goes (more ++ rest) (.quoted quote read))
    (hmore : literalLength quote (more ++ rest) = more.length + literalLength quote rest) :
    Mode.Goes rest (.quoted quote (more.reverse ++ read)) := by
  obtain ⟨hquote, body, hread, hbody⟩ := h
  refine ⟨hquote, body ++ more, by simp [hread], ?_⟩
  rw [List.append_assoc, hbody, hmore, List.length_append, Nat.add_assoc]

theorem allFit_lexemesFrom {mode : Mode} {text : List Char} (h : mode.Goes text) :
    AllFit (lexemesFrom mode text) := by
  fun_induction lexemesFrom mode text with
  | case1 => exact True.intro
  | case2 read => exact ⟨.inl rfl, True.intro⟩
  | case3 read => exact ⟨fun _ => rfl, True.intro⟩
  | case4 quote read =>
    obtain ⟨hquote, body, hread, hbody⟩ := h
    exact ⟨⟨quote, body, hquote, hread, by simpa [literalLength] using hbody⟩, True.intro⟩
  | case5 rest ih => exact ih True.intro
  | case6 rest ih => exact ih True.intro
  | case7 c rest _ _ hquote ih => exact ih ⟨hquote, [], rfl, by simp⟩
  | case8 c rest hline hblock hquote ih =>
    refine ⟨?_, ih True.intro⟩
    rw [chars_lexemesFrom]
    rintro (⟨more, hmore⟩ | ⟨more, hmore⟩ | hdouble | hsingle)
    · simp only [Mode.chars, List.nil_append, List.cons_append, List.cons.injEq] at hmore
      exact hline more hmore.1.symm hmore.2.symm
    · simp only [Mode.chars, List.nil_append, List.cons_append, List.cons.injEq] at hmore
      exact hblock more hmore.1.symm hmore.2.symm
    · exact hquote (.inl (Option.some.inj hdouble))
    · exact hquote (.inr (Option.some.inj hsingle))
  | case9 read rest ih =>
    refine ⟨.inr rfl, ?_, ih True.intro⟩
    simp [Fits, Opens]
  | case10 read c rest hbreak ih => exact ih True.intro
  | case11 read rest ih => exact ⟨fun h => absurd h (by decide), ih True.intro⟩
  | case12 read c rest hend ih => exact ih True.intro
  | case13 quote read c rest ih =>
    exact ih (h.read ['\\', c] (by simp [literalLength, Nat.add_comm]))
  | case14 quote read c rest hescape hend ih =>
    obtain ⟨hquote, body, hread, hbody⟩ := h
    refine ⟨⟨quote, body ++ [c], hquote, by simp [hread], ?_⟩, ih True.intro⟩
    rw [chars_lexemesFrom, Mode.chars, List.nil_append, List.append_assoc, List.singleton_append,
      hbody, literalLength_last hquote hend, List.length_append, List.length_singleton]
  | case15 quote read c rest hescape hend ih =>
    refine ih (h.read [c] ?_)
    rw [List.singleton_append, literalLength_cons hescape hend, List.length_singleton, Nat.add_comm]

/-! ### The stretches of the pieces -/

/-- Whether a piece is a comment. -/
def isComment : Lexeme → Bool
  | .lineComment _ | .blockComment .. => true
  | _ => false

/-- Whether a piece is a literal. -/
def isLiteral : Lexeme → Bool
  | .literal _ => true
  | _ => false

/-- The stretches of the pieces that are wanted, where the first piece starts at an offset. -/
def stretches (wanted : Lexeme → Bool) (start : Nat) : List Lexeme → List Stretch
  | [] => []
  | piece :: rest =>
    let stop := start + piece.chars.length
    (if wanted piece then [⟨start, stop⟩] else []) ++ stretches wanted stop rest

section Stretches

variable {wanted other : Lexeme → Bool} {start : Nat} {pieces : List Lexeme} {s : Stretch}

theorem le_start_of_mem (h : s ∈ stretches wanted start pieces) : start ≤ s.start := by
  induction pieces generalizing start with
  | nil => cases h
  | cons piece rest ih =>
    rcases List.mem_append.1 h with hfirst | hrest
    · split at hfirst
      · rw [List.mem_singleton.1 hfirst]
      · cases hfirst
    · exact (Nat.le_add_right ..).trans (ih hrest)

/-- The stretches of the pieces follow each other. -/
theorem pairwise_stretches (wanted : Lexeme → Bool) (start : Nat) (pieces : List Lexeme) :
    (stretches wanted start pieces).Pairwise Stretch.Before := by
  induction pieces generalizing start with
  | nil => exact List.Pairwise.nil
  | cons piece rest ih =>
    refine List.pairwise_append.2 ⟨by split <;> simp, ih _, fun a ha b hb => ?_⟩
    split at ha
    · rw [List.mem_singleton.1 ha]
      exact le_start_of_mem hb
    · cases ha

/-- Stretches of pieces of two sorts lie apart. -/
theorem apart_stretches (hsorts : ∀ piece, wanted piece → other piece = false) {a b : Stretch}
    (ha : a ∈ stretches wanted start pieces) (hb : b ∈ stretches other start pieces) :
    a.Apart b := by
  induction pieces generalizing start with
  | nil => cases ha
  | cons piece rest ih =>
    rcases List.mem_append.1 ha with hafirst | harest
    · split at hafirst
      · next hwanted =>
        rw [List.mem_singleton.1 hafirst]
        rcases List.mem_append.1 hb with hbfirst | hbrest
        · rw [hsorts piece hwanted] at hbfirst
          cases hbfirst
        · exact .inl (le_start_of_mem hbrest)
      · cases hafirst
    · rcases List.mem_append.1 hb with hbfirst | hbrest
      · split at hbfirst
        · rw [List.mem_singleton.1 hbfirst]
          exact .inr (le_start_of_mem harest)
        · cases hbfirst
      · exact ih harest hbrest

/-- What looks like the start of a comment or a literal lies in the stretch of one. -/
theorem holds_of_opens (hfit : AllFit pieces) (start : Nat) {offset : Nat}
    (h : Opens ((pieces.flatMap chars).drop offset)) :
    ∃ s ∈ stretches isComment start pieces ++ stretches isLiteral start pieces,
      s.Holds (start + offset) := by
  induction pieces generalizing start offset with
  | nil => simp [Opens] at h
  | cons piece rest ih =>
    obtain ⟨hpiece, hrest⟩ := hfit
    rw [List.flatMap_cons] at h
    by_cases hinside : offset < piece.chars.length
    · have hholds : Stretch.Holds ⟨start, start + piece.chars.length⟩ (start + offset) :=
        ⟨Nat.le_add_right .., Nat.add_lt_add_left hinside start⟩
      cases piece with
      | plain c =>
        obtain rfl : offset = 0 := Nat.lt_one_iff.1 hinside
        exact absurd h hpiece
      | lineComment body => exact ⟨_, by simp [stretches, isComment], hholds⟩
      | blockComment body closed => exact ⟨_, by simp [stretches, isComment], hholds⟩
      | literal text => exact ⟨_, by simp [stretches, isLiteral], hholds⟩
    · obtain ⟨k, rfl⟩ := Nat.exists_eq_add_of_le (not_lt.1 hinside)
      rw [List.drop_length_add_append] at h
      obtain ⟨s, hs, hholds⟩ := ih hrest (start + piece.chars.length) h
      rw [Nat.add_assoc] at hholds
      refine ⟨s, ?_, hholds⟩
      rcases List.mem_append.1 hs with hcomment | hliteral
      · exact List.mem_append_left _ (List.mem_append_right _ hcomment)
      · exact List.mem_append_right _ (List.mem_append_right _ hliteral)

end Stretches

/-! ### The comments and literals of a text -/

theorem isSome_comment? (piece : Lexeme) (p : Position) :
    (piece.comment? p).isSome = piece.isComment := by
  unfold comment?
  split
  · rfl
  · rfl
  · rfl
  · cases piece <;> simp_all [isComment]

/-- The comment that a piece is stands where the piece does. -/
theorem standsIn_of_comment? {piece : Lexeme} {before rest : List Char} {c : Comment}
    (hfit : piece.Fits rest)
    (hcomment : piece.comment? ((⟨1, 1⟩ : Position).after before) = some c) :
    c.StandsIn (before ++ piece.chars ++ rest)
      ⟨before.length, before.length + piece.chars.length⟩ := by
  rw [← Position.inText_append before (piece.chars ++ rest), ← List.append_assoc] at hcomment
  unfold comment? at hcomment
  split at hcomment
  · next body =>
    obtain rfl := Option.some.inj hcomment
    have hbody : body =
        Text.dropEnd (· = '\r') body ++ (body.reverse.takeWhile (· = '\r')).reverse := by
      rw [Text.dropEnd, ← List.reverse_append, List.takeWhile_append_dropWhile,
        List.reverse_reverse]
    have hchars : chars (.lineComment body) = Comment.opener .line ++
        (String.ofList (Text.dropEnd (· = '\r') body)).toList ++
        (body.reverse.takeWhile (· = '\r')).reverse := by
      conv_lhs => rw [chars, hbody]
      simp [Comment.opener]
    refine ⟨before, _, rest, by rw [hchars], by rw [hchars], rfl, fun char hchar => ?_, hfit⟩
    simpa using List.mem_takeWhile_imp (List.mem_reverse.1 hchar)
  · next body closed =>
    obtain rfl := Option.some.inj hcomment
    have hchars : chars (.blockComment ('*' :: body) closed) = Comment.opener .javadoc ++
        (String.ofList body).toList ++ (if closed then ['*', '/'] else []) := by
      simp [chars, Comment.opener]
    refine ⟨before, _, rest, by rw [hchars], by rw [hchars], rfl, ?_⟩
    cases closed with
    | true => exact .inl rfl
    | false => exact .inr ⟨rfl, hfit rfl⟩
  · next body closed _ =>
    obtain rfl := Option.some.inj hcomment
    have hchars : chars (.blockComment body closed) = Comment.opener .block ++
        (String.ofList body).toList ++ (if closed then ['*', '/'] else []) := by
      simp [chars, Comment.opener]
    refine ⟨before, _, rest, by rw [hchars], by rw [hchars], rfl, ?_⟩
    cases closed with
    | true => exact .inl rfl
    | false => exact .inr ⟨rfl, hfit rfl⟩
  · cases hcomment

/-- The comment that a piece is has in its content what stands between its delimiters. -/
theorem exact_of_comment? {piece : Lexeme} {p : Position} {c : Comment} (hwhole : piece.Whole)
    (hcomment : piece.comment? p = some c) : c.Exact := by
  refine ⟨closed_of_comment? hwhole hcomment, ?_, ?_⟩ <;> unfold comment? at hcomment
  · intro hkind hhead
    split at hcomment <;> cases hcomment
    · cases hkind
    · cases hkind
    · next body closed hstar =>
      rw [String.toList_ofList] at hhead
      obtain ⟨rest, rfl⟩ := List.head?_eq_some_iff.1 hhead
      exact hstar rest rfl
  · intro hkind hlast
    split at hcomment <;> cases hcomment
    · next body =>
      rw [String.toList_ofList, Text.dropEnd, List.getLast?_reverse] at hlast
      have hnot := List.head?_dropWhile_not (fun c => decide (c = '\r')) body.reverse
      rw [hlast] at hnot
      simp at hnot
    · cases hkind
    · cases hkind

/-- The comments of a list of pieces stand in the stretches of those that are comments. -/
theorem standsIn_stretches {pieces : List Lexeme} (hfit : AllFit pieces) (before : List Char) :
    List.Forall₂ (Comment.StandsIn (before ++ pieces.flatMap chars))
      (Scan.commentsFrom ((⟨1, 1⟩ : Position).after before) pieces)
      (stretches isComment before.length pieces) := by
  induction pieces generalizing before with
  | nil => exact .nil
  | cons piece rest ih =>
    have hrest := ih hfit.2 (before ++ piece.chars)
    rw [Position.after_append, List.length_append, List.append_assoc] at hrest
    have hsome := piece.isSome_comment? ((⟨1, 1⟩ : Position).after before)
    rw [Scan.commentsFrom, stretches]
    cases hcomment : piece.comment? ((⟨1, 1⟩ : Position).after before) with
    | none =>
      rw [hcomment, Option.isSome_none] at hsome
      rw [← hsome]
      exact hrest
    | some c =>
      rw [hcomment, Option.isSome_some] at hsome
      rw [← hsome]
      have hfirst := standsIn_of_comment? hfit.1 hcomment
      rw [List.append_assoc] at hfirst
      exact .cons hfirst hrest

/-- The stretches of the pieces that are literals are literals of the text. -/
theorem literalIn_stretches {pieces : List Lexeme} (hfit : AllFit pieces) (before : List Char) :
    ∀ s ∈ stretches isLiteral before.length pieces,
      LiteralIn (before ++ pieces.flatMap chars) s := by
  induction pieces generalizing before with
  | nil => exact List.forall_mem_nil _
  | cons piece rest ih =>
    have hrest := ih hfit.2 (before ++ piece.chars)
    rw [List.length_append, List.append_assoc] at hrest
    intro s hs
    rcases List.mem_append.1 hs with hfirst | hlater
    · cases piece with
      | literal text =>
        obtain ⟨quote, body, hquote, rfl, hlength⟩ := hfit.1
        obtain rfl := List.mem_singleton.1 hfirst
        refine ⟨before, quote, body ++ rest.flatMap chars, hquote, by simp [chars], ?_⟩
        rw [hlength]
        simp [chars, Nat.add_comm]
      | _ => cases hfirst
    · exact hrest s hlater

end Lexeme

/-! ### The comments of a scan -/

namespace Comment

/-- Whether a comment starts before another. -/
def Precedes (a b : Comment) : Prop :=
  ∃ p q, a.position = some p ∧ b.position = some q ∧ p < q

theorem StandsIn.bounds {text : List Char} {c : Comment} {s : Stretch} (h : c.StandsIn text s) :
    c.position = some (.inText text s.start) ∧ s.start < s.stop ∧ s.stop ≤ text.length := by
  obtain ⟨before, ending, rest, rfl, rfl, hposition, -⟩ := h
  refine ⟨hposition, ?_, ?_⟩
  · cases c.kind <;> simp [opener]
  · simp only [List.length_append]
    omega

theorem precedes_of_standsIn {text : List Char} {comments : List Comment}
    {places : List Stretch} (hstands : List.Forall₂ (StandsIn text) comments places)
    (hapart : places.Pairwise Stretch.Before) : comments.Pairwise Precedes := by
  obtain ⟨hlength, hget⟩ := List.forall₂_iff_get.1 hstands
  rw [List.pairwise_iff_get] at hapart ⊢
  intro i j hij
  obtain ⟨hi, hlt, -⟩ := (hget i i.2 (hlength ▸ i.2)).bounds
  obtain ⟨hj, hinside, hle⟩ := (hget j j.2 (hlength ▸ j.2)).bounds
  have hbefore := hapart ⟨i, hlength ▸ i.2⟩ ⟨j, hlength ▸ j.2⟩ hij
  exact ⟨_, _, hi, hj, Position.inText_lt_inText (hlt.trans_le hbefore) (hinside.le.trans hle)⟩

end Comment

namespace Scan

theorem allFit_lexemes (source : String) : Lexeme.AllFit (Lexeme.lexemes source.toList) :=
  Lexeme.allFit_lexemesFrom True.intro

theorem chars_lexemes (source : String) :
    (Lexeme.lexemes source.toList).flatMap Lexeme.chars = source.toList :=
  Lexeme.chars_lexemesFrom .code source.toList

/-- The comments of a scan stand in the stretches of the pieces that are comments. -/
theorem standsIn_scan (source : String) :
    List.Forall₂ (Comment.StandsIn source.toList) (scan source).comments
      (Lexeme.stretches Lexeme.isComment 0 (Lexeme.lexemes source.toList)) := by
  have hstands := Lexeme.standsIn_stretches (allFit_lexemes source) []
  rwa [List.nil_append, chars_lexemes] at hstands

/-- The comments of a scan come in the order in which they start. -/
theorem precedes_scan (source : String) :
    (scan source).comments.Pairwise Comment.Precedes :=
  Comment.precedes_of_standsIn (standsIn_scan source) (Lexeme.pairwise_stretches ..)

theorem exact_of_scan {source : String} {c : Comment} (h : c ∈ (scan source).comments) :
    c.Exact := by
  obtain ⟨piece, hpiece, p, hcomment⟩ := exists_lexeme h
  have hopen : Lexeme.Mode.code.Open source.toList := True.intro
  exact Lexeme.exact_of_comment? (Lexeme.whole_of_mem hopen piece hpiece) hcomment

/-- Whether the comments of a text are written in the given places and its literals stand in others,
so that neither a comment nor a literal starts outside of them. -/
structure Layout (text : List Char) (comments : List Comment)
    (places literals : List Stretch) : Prop where
  stands : List.Forall₂ (Comment.StandsIn text) comments places
  exact : ∀ c ∈ comments, c.Exact
  ordered : comments.Pairwise Comment.Precedes
  apart : places.Pairwise Stretch.Before
  literal : ∀ s ∈ literals, Lexeme.LiteralIn text s
  literals_apart : literals.Pairwise Stretch.Before
  outside : ∀ a ∈ places, ∀ b ∈ literals, a.Apart b
  complete : ∀ offset, Lexeme.Opens (text.drop offset) → ∃ s ∈ places ++ literals, s.Holds offset

end Scan

/-- **The comments of a scan are exactly those of the text.** Each stands where its position says,
between its delimiters; they come in order and do not overlap; and wherever two slashes or a slash
and a star stand in the text, they start inside one of them or inside a literal that lies outside of
all of them. -/
theorem scan_layout (source : String) :
    ∃ places literals, Scan.Layout source.toList (scan source).comments places literals := by
  have hfit := Scan.allFit_lexemes source
  have hliteral := Lexeme.literalIn_stretches hfit []
  rw [List.nil_append, Scan.chars_lexemes] at hliteral
  refine ⟨Lexeme.stretches Lexeme.isComment 0 _, Lexeme.stretches Lexeme.isLiteral 0 _,
    Scan.standsIn_scan source, fun _ => Scan.exact_of_scan, Scan.precedes_scan source,
    Lexeme.pairwise_stretches .., hliteral, Lexeme.pairwise_stretches .., ?_, ?_⟩
  · intro a ha b hb
    refine Lexeme.apart_stretches (fun piece => ?_) ha hb
    cases piece <;> simp [Lexeme.isComment, Lexeme.isLiteral]
  · intro offset hopens
    rw [← Scan.chars_lexemes source] at hopens
    simpa only [Nat.zero_add] using Lexeme.holds_of_opens hfit 0 hopens

end Recast
