import Mathlib.Algebra.Group.Even
import Mathlib.Algebra.Group.Nat.Even
import Mathlib.Data.List.Basic
import Recast.Specifier

/-!
Reading a dotted name back.

A dotted name is read in two sweeps: the marks of double dots are replaced first, then the marks of
single dots. The marks share their percent signs, so the text of a specifier can complete one: in
`.DOT_DOT.` the sign that closes the mark of the first dot, the text `DOT_DOT` and the sign that
opens the mark of the second dot read as the mark of a double dot. `Misread` says where this
happens, and `decode_encode_iff` that it is the only way in which a specifier is not read back.
-/

namespace Recast

namespace Text

variable {separator : Char} {after : String}

theorem afterLast_append (before : String) (h : separator ∉ after.toList) :
    afterLast separator (before ++ String.singleton separator ++ after) = after := by
  have htake : ∀ c ∈ after.toList.reverse, decide (c ≠ separator) = true := fun c hc =>
    decide_eq_true (ne_of_mem_of_not_mem (List.mem_reverse.1 hc) h)
  rw [afterLast, String.toList_append, List.reverse_append, List.takeWhile_append_of_pos htake]
  simp

theorem beforeLast_append (before : String) (h : separator ∉ after.toList) :
    beforeLast separator (before ++ String.singleton separator ++ after) = before := by
  have hdrop : ∀ c ∈ after.toList.reverse, decide (c ≠ separator) = true := fun c hc =>
    decide_eq_true (ne_of_mem_of_not_mem (List.mem_reverse.1 hc) h)
  rw [beforeLast, String.toList_append, List.reverse_append, List.dropWhile_append_of_pos hdrop]
  simp

end Text

namespace Specifier

variable {path rest : List Char} {c : Char}

/-! ### Where a mark is misread -/

/-- The part of a specifier that is escaped character by character. -/
def escapedPart : List Char → List Char
  | '.' :: '/' :: rest => rest
  | '@' :: rest => rest
  | specifier => specifier

/-- How many dots a text ends with. -/
def dotsBefore (text : List Char) : Nat := (text.reverse.takeWhile (· = '.')).length

/-- A path in which a dot that is no half of a double dot stands before the text `DOT_DOT` and
another dot. Dots in a row are paired from the left, so it is the last of an odd number of them. -/
def Misread (path : List Char) : Prop :=
  ∃ before after, path = before ++ '.' :: "DOT_DOT.".toList ++ after ∧ Even (dotsBefore before)

/-- The text that makes a mark of a double dot out of the mark of the dot before it. -/
def completesMark (rest : List Char) : Bool := "DOT_DOT.".toList.isPrefixOf rest

/-- `Misread`, decided along the path. -/
def misreads : List Char → Bool
  | '.' :: '.' :: rest => misreads rest
  | '.' :: rest => completesMark rest || misreads rest
  | _ :: rest => misreads rest
  | [] => false

theorem dotsBefore_append_cons (hc : c ≠ '.') (front text : List Char) :
    dotsBefore (front ++ c :: text) = dotsBefore text := by
  have hstop : (text.reverse ++ [c]).takeWhile (· = '.') = text.reverse.takeWhile (· = '.') := by
    rw [List.takeWhile_append]
    split
    · next hall =>
      rw [List.takeWhile_cons_of_neg (by simpa using hc), List.append_nil]
      exact ((List.takeWhile_prefix _).eq_of_length hall).symm
    · rfl
  have hne : ¬ (text.reverse.takeWhile (· = '.')).length = (text.reverse ++ [c]).length := by
    have hle := (List.takeWhile_prefix (· = '.') (l := text.reverse)).length_le
    rw [List.length_append]
    simp only [List.length_singleton]
    omega
  unfold dotsBefore
  rw [List.reverse_append, List.reverse_cons, List.takeWhile_append, hstop, if_neg hne]

theorem dotsBefore_cons (hc : c ≠ '.') (text : List Char) :
    dotsBefore (c :: text) = dotsBefore text :=
  dotsBefore_append_cons hc [] text

theorem even_dotsBefore_pair (text : List Char) :
    Even (dotsBefore ('.' :: '.' :: text)) ↔ Even (dotsBefore text) := by
  have hpair : dotsBefore ('.' :: '.' :: text) = dotsBefore text ∨
      dotsBefore ('.' :: '.' :: text) = dotsBefore text + 2 := by
    unfold dotsBefore
    rw [List.reverse_cons, List.reverse_cons, List.append_assoc, List.takeWhile_append]
    split
    · next hall => exact .inr (by simpa using hall.symm)
    · exact .inl rfl
  rcases hpair with h | h
  · rw [h]
  · rw [h, Nat.even_add]
    exact iff_true_right (by decide)

theorem misread_nil : ¬ Misread [] := by
  rintro ⟨before, after, hpath, -⟩
  simp at hpath

theorem misread_pair : Misread ('.' :: '.' :: rest) ↔ Misread rest := by
  constructor
  · rintro ⟨before, after, hpath, heven⟩
    rcases before with _ | ⟨a, _ | ⟨b, before⟩⟩
    · cases hpath
    · cases hpath
      exact absurd heven (by decide)
    · cases hpath
      exact ⟨before, after, rfl, (even_dotsBefore_pair before).1 heven⟩
  · rintro ⟨before, after, rfl, heven⟩
    exact ⟨'.' :: '.' :: before, after, rfl, (even_dotsBefore_pair before).2 heven⟩

theorem misread_cons (hc : c ≠ '.') : Misread (c :: rest) ↔ Misread rest := by
  constructor
  · rintro ⟨before, after, hpath, heven⟩
    rcases before with _ | ⟨b, before⟩
    · cases hpath
      exact absurd rfl hc
    · cases hpath
      exact ⟨before, after, rfl, dotsBefore_cons hc before ▸ heven⟩
  · rintro ⟨before, after, rfl, heven⟩
    exact ⟨c :: before, after, rfl, (dotsBefore_cons hc before).symm ▸ heven⟩

theorem misread_dot (hrest : ∀ after, rest ≠ '.' :: after) :
    Misread ('.' :: rest) ↔ completesMark rest = true ∨ Misread rest := by
  constructor
  · rintro ⟨before, after, hpath, heven⟩
    rcases before with _ | ⟨a, _ | ⟨b, before⟩⟩
    · cases hpath
      exact .inl rfl
    · cases hpath
      exact absurd rfl (hrest _)
    · cases hpath
      have hb : b ≠ '.' := fun h => hrest _ (by rw [h]; rfl)
      refine .inr ⟨b :: before, after, rfl, ?_⟩
      rw [dotsBefore_cons hb]
      exact dotsBefore_append_cons hb ['.'] before ▸ heven
  · rintro (hmark | ⟨before, after, rfl, heven⟩)
    · obtain ⟨after, rfl⟩ := List.isPrefixOf_iff_prefix.1 hmark
      exact ⟨[], after, rfl, by decide⟩
    · rcases before with _ | ⟨b, before⟩
      · exact absurd rfl (hrest _)
      · have hb : b ≠ '.' := fun h => hrest _ (by rw [h]; rfl)
        refine ⟨'.' :: b :: before, after, rfl, ?_⟩
        rw [dotsBefore_cons hb] at heven
        exact (dotsBefore_append_cons hb ['.'] before).symm ▸ heven

theorem misreads_iff (path : List Char) : misreads path = true ↔ Misread path := by
  fun_induction misreads path with
  | case1 rest ih => rw [misread_pair, ih]
  | case2 rest hrest ih => rw [misread_dot hrest, Bool.or_eq_true, ih]
  | case3 c rest hpair hc ih => rw [misread_cons hc, ih]
  | case4 => exact iff_of_false Bool.false_ne_true misread_nil

instance : DecidablePred Misread := fun path => decidable_of_iff _ (misreads_iff path)

/-! ### Reading a path -/

/-- A path with its dots written as marks and its slashes kept. -/
def marked : List Char → List Char
  | '.' :: '.' :: rest => dotDotMark ++ marked rest
  | '.' :: rest => dotMark ++ marked rest
  | c :: rest => c :: marked rest
  | [] => []

theorem marked_dot (hrest : ∀ after, rest ≠ '.' :: after) :
    marked ('.' :: rest) = dotMark ++ marked rest := by
  rw [marked]
  exact hrest

theorem marked_cons (hc : c ≠ '.') : marked (c :: rest) = c :: marked rest := by
  rw [marked]
  · intro after h
    exact absurd h hc
  · exact hc

theorem map_escapePath (path : List Char) :
    ((escapePath path).map fun c => if c = '.' then '/' else c) = marked path := by
  fun_induction escapePath path with
  | case1 rest ih =>
    rw [List.map_append, ih]
    rfl
  | case2 rest hrest ih =>
    rw [List.map_append, ih, marked_dot hrest]
    rfl
  | case3 rest ih =>
    rw [List.map_cons, ih]
    rfl
  | case4 c rest hpair hc hslash ih =>
    rw [List.map_cons, ih, if_neg hc, marked_cons hc]
  | case5 => rfl

/-- The characters of a word stand in a marked path where they stand in the path, and the sign that
opens a mark where the path has a dot. -/
theorem isPrefixOf_marked (word : List Char) (hdot : '.' ∉ word) (hsign : '%' ∉ word)
    (hpath : '%' ∉ path) :
    (word ++ ['%']).isPrefixOf (marked path) = (word ++ ['.']).isPrefixOf path := by
  induction word generalizing path with
  | nil =>
    fun_cases marked path with
    | case1 rest => rfl
    | case2 rest => rfl
    | case3 c rest hpair hc =>
      have hne : '%' ≠ c := fun h => hpath (h ▸ List.mem_cons_self)
      simp [List.isPrefixOf, hne, Ne.symm hc]
    | case4 => rfl
  | cons a word ih =>
    rw [List.mem_cons, not_or] at hdot hsign
    have hd : (a == '.') = false := beq_false_of_ne (Ne.symm hdot.1)
    have hs : (a == '%') = false := beq_false_of_ne (Ne.symm hsign.1)
    fun_cases marked path with
    | case1 rest =>
      have hhead : ∃ tail, dotDotMark ++ marked rest = '%' :: tail := ⟨_, rfl⟩
      obtain ⟨tail, htail⟩ := hhead
      simp [htail, List.isPrefixOf, hs, hd]
    | case2 rest hrest =>
      have hhead : ∃ tail, dotMark ++ marked rest = '%' :: tail := ⟨_, rfl⟩
      obtain ⟨tail, htail⟩ := hhead
      simp [htail, List.isPrefixOf, hs, hd]
    | case3 c rest hpair hc =>
      have hrest : '%' ∉ rest := fun h => hpath (List.mem_cons_of_mem c h)
      exact congrArg ((a == c) && ·) (ih hdot.2 hsign.2 hrest)
    | case4 => rfl

/-- The first sweep, which reads double dots. -/
def readPairs (path : List Char) : List Char := replaceMark dotDotMark ['.', '.'] 0 path

theorem replaceMark_cons {mark : List Char} (new : List Char) (hmark : mark.head? = some '%')
    (hc : c ≠ '%') : replaceMark mark new 0 (c :: rest) = c :: replaceMark mark new 0 rest := by
  obtain ⟨tail, rfl⟩ : ∃ tail, mark = '%' :: tail := by
    rcases mark with _ | ⟨a, tail⟩
    · cases hmark
    · exact ⟨tail, by rw [Option.some.inj hmark]⟩
  have hnone : ('%' :: tail).isPrefixOf (c :: rest) = false := by
    simp [List.isPrefixOf, Ne.symm hc]
  rw [replaceMark, hnone]
  rfl

theorem readPairs_cons (hc : c ≠ '%') : readPairs (c :: rest) = c :: readPairs rest :=
  replaceMark_cons _ rfl hc

/-- The sign that closes the mark of a single dot is looked at once more. -/
theorem readPairs_dotMark (path : List Char) :
    readPairs (dotMark ++ path) = "%DOT".toList ++ readPairs ('%' :: path) := rfl

theorem readPairs_sign (h : "DOT_DOT%".toList.isPrefixOf path = false) :
    readPairs ('%' :: path) = '%' :: readPairs path := by
  have hnone : dotDotMark.isPrefixOf ('%' :: path) = false := h
  rw [readPairs, replaceMark, hnone]
  rfl

theorem readPairs_sign_of_isPrefixOf (h : "DOT_DOT%".toList.isPrefixOf path = true) :
    ∃ rest, readPairs ('%' :: path) = '.' :: '.' :: rest := by
  have hmark : dotDotMark.isPrefixOf ('%' :: path) = true := h
  rw [readPairs, replaceMark, hmark]
  exact ⟨_, rfl⟩

theorem isPrefixOf_marked_pair (h : '%' ∉ path) :
    "DOT_DOT%".toList.isPrefixOf (marked path) = completesMark path :=
  isPrefixOf_marked "DOT_DOT".toList (by decide) (by decide) h

theorem unescapePath_pair (rest : List Char) :
    unescapePath (marked ('.' :: '.' :: rest)) = '.' :: '.' :: unescapePath (marked rest) := rfl

theorem unescapePath_cons (hc : c ≠ '.') (hsign : c ≠ '%') :
    unescapePath (marked (c :: rest)) = c :: unescapePath (marked rest) := by
  rw [marked_cons hc]
  exact (congrArg _ (readPairs_cons hsign)).trans (replaceMark_cons _ rfl hsign)

theorem unescapePath_dot (hrest : ∀ after, rest ≠ '.' :: after) (hsign : '%' ∉ rest)
    (h : completesMark rest = false) :
    unescapePath (marked ('.' :: rest)) = '.' :: unescapePath (marked rest) := by
  rw [← isPrefixOf_marked_pair hsign] at h
  have hpairs : readPairs (dotMark ++ marked rest) = dotMark ++ readPairs (marked rest) := by
    rw [readPairs_dotMark, readPairs_sign h]
    rfl
  rw [marked_dot hrest]
  exact congrArg _ hpairs

theorem unescapePath_dot_of_completesMark (hrest : ∀ after, rest ≠ '.' :: after)
    (hsign : '%' ∉ rest) (h : completesMark rest = true) :
    ∃ after, unescapePath (marked ('.' :: rest)) = '%' :: after := by
  rw [← isPrefixOf_marked_pair hsign] at h
  obtain ⟨after, hafter⟩ := readPairs_sign_of_isPrefixOf h
  have hpairs : readPairs (dotMark ++ marked rest) = "%DOT..".toList ++ after := by
    rw [readPairs_dotMark, hafter]
    rfl
  rw [marked_dot hrest]
  exact ⟨_, congrArg _ hpairs⟩

/-- A path is read back unless one of its dots is misread. -/
theorem unescapePath_marked_iff (path : List Char) (h : '%' ∉ path) :
    unescapePath (marked path) = path ↔ ¬ Misread path := by
  fun_induction misreads path with
  | case1 rest ih =>
    have hrest : '%' ∉ rest := fun hmem => h (by simp [hmem])
    rw [unescapePath_pair, misread_pair, ← ih hrest]
    simp
  | case2 rest hdot ih =>
    have hrest : '%' ∉ rest := fun hmem => h (List.mem_cons_of_mem _ hmem)
    rw [misread_dot hdot]
    cases hmark : completesMark rest with
    | false =>
      rw [unescapePath_dot hdot hrest hmark, List.cons_inj_right, ih hrest]
      simp
    | true =>
      obtain ⟨after, hafter⟩ := unescapePath_dot_of_completesMark hdot hrest hmark
      rw [hafter]
      simp
  | case3 c rest hpair hc ih =>
    have hrest : '%' ∉ rest := fun hmem => h (List.mem_cons_of_mem _ hmem)
    have hsign : c ≠ '%' := fun hsign => h (hsign ▸ List.mem_cons_self)
    rw [unescapePath_cons hc hsign, List.cons_inj_right, misread_cons hc, ih hrest]
  | case4 => exact iff_of_true rfl misread_nil

/-! ### Reading a specifier -/

/-- A marked path opens neither with the mark of a leading `@` nor with that of a leading `./`. -/
theorem isPrefixOf_marked_lead (h : '%' ∉ path) :
    (atMark ++ ['/']).isPrefixOf (marked path) = false ∧
      (dotSlashMark ++ ['/']).isPrefixOf (marked path) = false := by
  fun_cases marked path with
  | case1 rest => exact ⟨rfl, rfl⟩
  | case2 rest => exact ⟨rfl, rfl⟩
  | case3 c rest hpair hc =>
    have hsign : ('%' == c) = false := beq_false_of_ne fun hsign => h (hsign ▸ List.mem_cons_self)
    have hlead : ∀ mark : List Char, ('%' :: mark).isPrefixOf (c :: marked rest) = false := by
      intro mark
      rw [List.isPrefixOf_cons_cons, hsign, Bool.false_and]
    exact ⟨hlead _, hlead _⟩
  | case4 => exact ⟨rfl, rfl⟩

theorem decodeChars_encodeChars_iff (specifier : List Char) (h : '%' ∉ specifier) :
    decodeChars (encodeChars specifier) = specifier ↔ ¬ Misread (escapedPart specifier) := by
  fun_cases encodeChars specifier with
  | case1 rest =>
    have hread : decodeChars (dotSlashMark ++ '.' :: escapePath rest) =
        '.' :: '/' :: unescapePath (marked rest) := by
      rw [← map_escapePath]
      rfl
    have hrest : '%' ∉ rest := fun hmem => h (by simp [hmem])
    rw [hread, List.cons_inj_right, List.cons_inj_right, unescapePath_marked_iff rest hrest]
    rfl
  | case2 rest =>
    have hread : decodeChars (atMark ++ '.' :: escapePath rest) =
        '@' :: unescapePath (marked rest) := by
      rw [← map_escapePath]
      rfl
    have hrest : '%' ∉ rest := fun hmem => h (List.mem_cons_of_mem _ hmem)
    rw [hread, List.cons_inj_right, unescapePath_marked_iff rest hrest]
    rfl
  | case3 specifier hslash hat =>
    have hpart : escapedPart specifier = specifier := by
      rw [escapedPart]
      · exact hslash
      · exact hat
    obtain ⟨hnoAt, hnoSlash⟩ := isPrefixOf_marked_lead h
    rw [decodeChars, map_escapePath, hnoAt, hnoSlash, hpart]
    exact unescapePath_marked_iff specifier h

theorem encode_eq (specifier : String) (h : '%' ∉ specifier.toList) :
    encode specifier = .ok (String.ofList (encodeChars specifier.toList)) := by
  rw [encode, if_neg (by simpa using h)]

/-- Every specifier without a percent sign has a dotted form, and it is read back, alone or as the
qualifier of an import name, unless one of its dots is misread. -/
theorem decode_encode_iff (specifier : String) (h : '%' ∉ specifier.toList) :
    ∃ dotted, encode specifier = .ok dotted ∧
      (decode dotted = specifier ↔ ¬ Misread (escapedPart specifier.toList)) ∧
      ∀ symbol : String, '.' ∉ symbol.toList → ∃ name, importName specifier symbol = .ok name ∧
        (splitImportName name = (specifier, symbol) ↔
          ¬ Misread (escapedPart specifier.toList)) := by
  have hdecode : decode (String.ofList (encodeChars specifier.toList)) = specifier ↔
      ¬ Misread (escapedPart specifier.toList) := by
    rw [decode, String.toList_ofList, ← decodeChars_encodeChars_iff specifier.toList h,
      ← String.toList_inj, String.toList_ofList]
  refine ⟨_, encode_eq specifier h, hdecode, ?_⟩
  intro symbol hsymbol
  refine ⟨String.ofList (encodeChars specifier.toList) ++ String.singleton '.' ++ symbol, ?_, ?_⟩
  · rw [importName, encode_eq specifier h]
    rfl
  · rw [splitImportName, Text.beforeLast_append _ hsymbol, Text.afterLast_append _ hsymbol,
      Prod.mk.injEq, and_iff_left rfl]
    exact hdecode

/-- A relative specifier with dots of its own is read back. -/
theorem decode_encode_relative :
    ∃ dotted, encode "../util/lodash.merge" = .ok dotted ∧
      decode dotted = "../util/lodash.merge" ∧
      ∃ name, importName "../util/lodash.merge" "merge" = .ok name ∧
        splitImportName name = ("../util/lodash.merge", "merge") := by
  obtain ⟨dotted, hdotted, hdecode, hname⟩ :=
    decode_encode_iff "../util/lodash.merge" (by decide)
  obtain ⟨name, hok, hsplit⟩ := hname "merge" (by decide)
  exact ⟨dotted, hdotted, hdecode.2 (by decide), name, hok, hsplit.2 (by decide)⟩

/-- Two dots around the text of a mark are not read back. -/
theorem decode_encode_misread :
    '%' ∉ ".DOT_DOT.".toList ∧ encode ".DOT_DOT." = .ok "%DOT%DOT_DOT%DOT%" ∧
      decode "%DOT%DOT_DOT%DOT%" = "%DOT..DOT%" ∧
      importName ".DOT_DOT." "y" = .ok "%DOT%DOT_DOT%DOT%.y" ∧
      splitImportName "%DOT%DOT_DOT%DOT%.y" = ("%DOT..DOT%", "y") := by
  decide

end Specifier

end Recast
