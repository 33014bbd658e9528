import Mathlib
import Recast.SlashPath

/-!
Paths by their segments.

Everything about segments follows from one equation: the segments of two paths with a slash between
them are those of the first and then those of the second (`segments_append_slash`). A folder is a
path that a name may follow directly, empty or with a slash at its end.

`normalize` gives one text to all paths that lead to one place. A path that goes only forward is at
the place that its names say (`Forward.resolve`), the relative path between two such places leads
from the one to the other (`follow_relativeTo`), and what stands beside a file is found in the
file's directory (`normalize_join_directory`).
-/

namespace Recast

theorem Text.splitChars_eq (separator : Char) (text : List Char) :
    splitChars separator text = text.splitOn separator := by
  induction text with
  | nil => simp [splitChars]
  | cons c rest ih =>
    rw [splitChars, List.splitOn_cons_eq_if_modifyHead, ih]
    simp only [beq_iff_eq]
    split
    · rfl
    · cases hpieces : rest.splitOn separator with
      | nil => exact absurd hpieces (List.splitOn_ne_nil _ _)
      | cons piece pieces => rfl

theorem Text.char_of_mem_splitOn {separator c : Char} {text piece : List Char}
    (h : piece ∈ text.splitOn separator) (hc : c ∈ piece) : c ∈ text ∧ c ≠ separator := by
  induction text generalizing piece with
  | nil =>
    obtain rfl : piece = [] := by simpa using h
    cases hc
  | cons first rest ih =>
    rw [List.splitOn_cons_eq_if_modifyHead] at h
    simp only [beq_iff_eq] at h
    split at h
    · rcases List.mem_cons.1 h with rfl | h
      · cases hc
      · exact (ih h hc).imp_left (List.mem_cons_of_mem _)
    · rename_i hfirst
      cases hpieces : rest.splitOn separator with
      | nil => exact absurd hpieces (List.splitOn_ne_nil _ _)
      | cons head pieces =>
        rw [hpieces] at h ih
        rcases List.mem_cons.1 h with rfl | h
        · rcases List.mem_cons.1 hc with rfl | hc
          · exact ⟨List.mem_cons_self, hfirst⟩
          · exact (ih List.mem_cons_self hc).imp_left (List.mem_cons_of_mem _)
        · exact (ih (List.mem_cons_of_mem _ h) hc).imp_left (List.mem_cons_of_mem _)

namespace SlashPath

variable {path a b name : String}

/-! ### Segments -/

theorem segments_eq (path : String) :
    segments path = (path.toList.splitOn '/').map String.ofList := by
  rw [segments, Text.split, Text.splitChars_eq]

theorem segments_append_slash (a b : String) :
    segments (a ++ "/" ++ b) = segments a ++ segments b := by
  have hchars : (a ++ "/" ++ b).toList = a.toList ++ '/' :: b.toList := by simp
  rw [segments_eq, hchars, List.splitOn_append_cons_self, List.map_append, ← segments_eq,
    ← segments_eq]

theorem segments_of_slashless (h : '/' ∉ path.toList) : segments path = [path] := by
  rw [segments_eq, List.splitOn_eq_singleton h]
  simp

theorem intercalate_segments (path : String) : "/".intercalate (segments path) = path := by
  rw [← String.toList_inj, String.toList_intercalate, segments_eq]
  simp [Function.comp_def, List.intercalate_splitOn]

theorem segments_intercalate {steps : List String} (hsteps : steps ≠ [])
    (h : ∀ step ∈ steps, '/' ∉ step.toList) : segments ("/".intercalate steps) = steps := by
  have hsplit : (['/'].intercalate (steps.map String.toList)).splitOn '/' =
      steps.map String.toList :=
    List.splitOn_intercalate '/' (by simpa using h) (by simpa using hsteps)
  rw [segments_eq, String.toList_intercalate]
  simpa [Function.comp_def] using congrArg (List.map String.ofList) hsplit

/-- The characters of a segment are characters of the path, and no slashes. -/
theorem char_of_mem_segments {segment : String} {c : Char} (h : segment ∈ segments path)
    (hc : c ∈ segment.toList) : c ∈ path.toList ∧ c ≠ '/' := by
  rw [segments_eq] at h
  obtain ⟨piece, hpiece, rfl⟩ := List.mem_map.1 h
  rw [String.toList_ofList] at hc
  exact Text.char_of_mem_splitOn hpiece hc

/-! ### Names -/

theorem names_append_slash (a b : String) : names (a ++ "/" ++ b) = names a ++ names b := by
  rw [names, segments_append_slash, List.filter_append, names, names]

@[simp]
theorem names_empty : names "" = [] := by decide

theorem names_dropWhile (chars : List Char) :
    names (String.ofList (chars.dropWhile (· = '/'))) = names (String.ofList chars) := by
  induction chars with
  | nil => rfl
  | cons c rest ih =>
    by_cases hc : c = '/'
    · subst hc
      have hcons : String.ofList ('/' :: rest) = "" ++ "/" ++ String.ofList rest := by
        simp
      rw [List.dropWhile_cons_of_pos (by simp), ih, hcons, names_append_slash, names_empty,
        List.nil_append]
    · rw [List.dropWhile_cons_of_neg (by simpa using hc)]

theorem names_dropEnd (chars : List Char) :
    names (String.ofList (Text.dropEnd (· = '/') chars)) = names (String.ofList chars) := by
  induction chars using List.reverseRecOn with
  | nil => rfl
  | append_singleton init c ih =>
    by_cases hc : c = '/'
    · subst hc
      have hsnoc : String.ofList (init ++ ['/']) = String.ofList init ++ "/" ++ "" := by
        simp
      have hdrop : Text.dropEnd (· = '/') (init ++ ['/']) = Text.dropEnd (· = '/') init := by
        simp [Text.dropEnd]
      rw [hdrop, ih, hsnoc, names_append_slash, names_empty, List.append_nil]
    · have hkeep : Text.dropEnd (· = '/') (init ++ [c]) = init ++ [c] := by
        simp [Text.dropEnd, hc]
      rw [hkeep]

/-! ### Folders -/

/-- Whether a name may follow a path directly. -/
def IsFolder (path : String) : Prop := path = "" ∨ path.toList.getLast? = some '/'

instance (path : String) : Decidable (IsFolder path) :=
  inferInstanceAs (Decidable (_ ∨ _))

/-- A path that a name may follow. -/
def folder (path : String) : String := if IsFolder path then path else path ++ "/"

theorem IsFolder.cases (h : IsFolder path) : path = "" ∨ ∃ before, path = before ++ "/" := by
  refine h.imp_right fun hlast => ?_
  obtain ⟨before, hbefore⟩ := List.getLast?_eq_some_iff.1 hlast
  exact ⟨String.ofList before, by simp [← String.toList_inj, hbefore]⟩

theorem isFolder_slash (before : String) : IsFolder (before ++ "/") := by
  right
  simp

theorem isFolder_folder (path : String) : IsFolder (folder path) := by
  unfold folder
  split
  · assumption
  · exact isFolder_slash path

theorem IsFolder.append (ha : IsFolder a) (hb : IsFolder b) : IsFolder (a ++ b) := by
  rcases hb.cases with rfl | ⟨before, rfl⟩
  · simpa using ha
  · rw [← String.append_assoc]
    exact isFolder_slash _

theorem join_eq (h : isRooted b = false) : join a b = folder a ++ b := by
  rw [join, h, folder, if_neg Bool.false_ne_true]
  by_cases ha : IsFolder a
  · rw [if_pos ha]
    exact if_pos ha
  · rw [if_neg ha]
    exact if_neg ha

theorem names_append (h : IsFolder a) (b : String) : names (a ++ b) = names a ++ names b := by
  rcases h.cases with rfl | ⟨before, rfl⟩
  · simp
  · have hbefore := names_append_slash before ""
    rw [String.append_empty, names_empty, List.append_nil] at hbefore
    rw [names_append_slash, hbefore]

theorem segments_append (h : IsFolder a) (b : String) :
    segments (a ++ b) = (segments a).dropLast ++ segments b := by
  have hempty : segments "" = [""] := by decide
  rcases h.cases with rfl | ⟨before, rfl⟩
  · simp [hempty]
  · have hbefore := segments_append_slash before ""
    rw [String.append_empty, hempty] at hbefore
    rw [segments_append_slash, hbefore, List.dropLast_concat]

theorem names_folder (path : String) : names (folder path) = names path := by
  unfold folder
  split
  · rfl
  · simpa using names_append_slash path ""

/-! ### Places -/

/-- A path that goes only forward, from where it starts. -/
structure Forward (path : String) : Prop where
  unrooted : isRooted path = false
  noParent : ".." ∉ names path

theorem foldl_step {segments : List String} (h : ".." ∉ segments) (place : Resolved) :
    segments.foldl Resolved.step place =
      { place with names := place.names ++ segments.filter fun s => s ≠ "" ∧ s ≠ "." } := by
  induction segments generalizing place with
  | nil => simp
  | cons segment rest ih =>
    rw [List.mem_cons, not_or] at h
    rw [List.foldl_cons, ih h.2, Resolved.step]
    by_cases hsegment : segment = "" ∨ segment = "."
    · rw [if_pos hsegment, List.filter_cons_of_neg (by simpa [← or_iff_not_imp_left] using hsegment)]
    · rw [if_neg hsegment, if_neg (Ne.symm h.1),
        List.filter_cons_of_pos (by simpa [not_or] using hsegment)]
      simp

/-- The names of a path that goes forward say where it leads. -/
theorem Forward.resolve (h : Forward path) : resolve path = ⟨false, 0, names path⟩ := by
  have hsegments : ".." ∉ segments path := fun hmem =>
    h.noParent (List.mem_filter.2 ⟨hmem, by decide⟩)
  rw [SlashPath.resolve, foldl_step hsegments, h.unrooted]
  rfl

theorem isRooted_append (ha : a ≠ "") (b : String) : isRooted (a ++ b) = isRooted a := by
  obtain ⟨c, rest, hchars⟩ := List.exists_cons_of_ne_nil (mt String.toList_eq_nil_iff.1 ha)
  simp [isRooted, hchars]

/-- What follows a folder is found from the place of the folder. -/
theorem resolve_append (ha : IsFolder a) (hb : isRooted b = false) :
    resolve (a ++ b) = (segments b).foldl Resolved.step (resolve a) := by
  rcases ha.cases with rfl | ⟨before, rfl⟩
  · rw [String.empty_append, resolve, hb]
    rfl
  · have hstep (place : Resolved) : place.step "" = place := if_pos (Or.inl rfl)
    have hsegments := segments_append_slash before ""
    rw [String.append_empty] at hsegments
    have hempty : segments "" = [""] := by decide
    rw [resolve, resolve, segments_append_slash, hsegments, hempty, List.foldl_append,
      List.foldl_append, isRooted_append (by simp)]
    simp [hstep]

/-! ### From one place to another -/

theorem dropCommon_spec (as bs : List String) : ∃ common,
    as = common ++ (dropCommon as bs).1 ∧ bs = common ++ (dropCommon as bs).2 := by
  fun_induction dropCommon as bs with
  | case1 as first bs ih =>
    obtain ⟨common, has, hbs⟩ := ih
    exact ⟨first :: common, by rw [List.cons_append, ← has], by rw [List.cons_append, ← hbs]⟩
  | case2 => exact ⟨[], rfl, rfl⟩
  | case3 => exact ⟨[], rfl, rfl⟩

/-- Going up once for each of the last names. -/
theorem foldl_parents (rooted : Bool) (climbs : Nat) (kept back : List String) :
    (back.map fun _ => "..").foldl Resolved.step ⟨rooted, climbs, kept ++ back⟩ =
      ⟨rooted, climbs, kept⟩ := by
  induction back using List.reverseRecOn with
  | nil => simp
  | append_singleton init last ih =>
    have hstep : Resolved.step ⟨rooted, climbs, kept ++ (init ++ [last])⟩ ".." =
        ⟨rooted, climbs, kept ++ init⟩ := by
      simp [Resolved.step]
    have hparents : (init ++ [last]).map (fun _ => "..") = ".." :: init.map fun _ => ".." := by
      simp [← List.replicate_succ', List.replicate_succ]
    rw [hparents, List.foldl_cons, hstep, ih]

theorem slashless_of_mem_names {segment : String} (h : segment ∈ names path) :
    '/' ∉ segment.toList :=
  fun hslash => (char_of_mem_segments (List.mem_of_mem_filter h) hslash).2 rfl

/-- The relative path leads from the start to the target. -/
theorem follow_relativeTo {target start : String} (htarget : Forward target)
    (hstart : Forward start) :
    (segments (relativeTo target start)).foldl Resolved.step (resolve start) = resolve target := by
  obtain ⟨common, hahead, hback⟩ := dropCommon_spec (names target) (names start)
  generalize hsplit : dropCommon (names target) (names start) = split at hahead hback
  obtain ⟨ahead, back⟩ := split
  have hsteps : (resolve target).stepsFrom (resolve start) = back.map (fun _ => "..") ++ ahead := by
    simp [Resolved.stepsFrom, htarget.resolve, hstart.resolve, hsplit]
  have hmem {segment : String} (hsegment : segment ∈ ahead) : segment ∈ names target := by
    rw [hahead]
    exact List.mem_append_right _ hsegment
  have hkept : ahead.filter (fun s => s ≠ "" ∧ s ≠ ".") = ahead :=
    List.filter_eq_self.2 fun segment hsegment => (List.mem_filter.1 (hmem hsegment)).2
  have hfollow : (back.map (fun _ => "..") ++ ahead).foldl Resolved.step (resolve start) =
      resolve target := by
    rw [List.foldl_append, hstart.resolve, hback, foldl_parents,
      foldl_step fun hparent => htarget.noParent (hmem hparent), hkept, htarget.resolve, hahead]
  rw [relativeTo, hsteps]
  cases hlist : back.map (fun _ => "..") ++ ahead with
  | nil =>
    rw [hlist] at hfollow
    exact hfollow
  | cons first rest =>
    rw [hlist] at hfollow
    refine Eq.trans ?_ hfollow
    simp only
    rw [segments_intercalate (by simp)]
    intro step hstep
    rw [← hlist] at hstep
    rcases List.mem_append.1 hstep with hparent | hstep
    · obtain ⟨-, -, rfl⟩ := List.mem_map.1 hparent
      decide
    · exact slashless_of_mem_names (hmem hstep)

/-! ### Normal paths -/

/-- The shortest path to where a path leads, without empty and `.` segments and with `..` only at its
start; the path that stays where it starts is `.`. -/
def normalize (path : String) : String :=
  let place := resolve path
  let text := root path ++ "/".intercalate (List.replicate place.climbs ".." ++ place.names)
  if text = "" then "." else text

theorem normalize_congr (hroot : root a = root b) (hplace : resolve a = resolve b) :
    normalize a = normalize b := by
  rw [normalize, normalize, hroot, hplace]

/-- The slashes that a path starts with. -/
def leading (path : String) : List Char := path.toList.takeWhile (· = '/')

theorem takeWhile_slash {chars : List Char} (h : ∀ rest, chars = '/' :: rest → False) :
    chars.takeWhile (· = '/') = [] := by
  cases chars with
  | nil => rfl
  | cons c rest => simpa using fun hc : c = '/' => h rest (by rw [hc])

theorem root_eq (path : String) :
    root path = match (leading path).length with
      | 0 => ""
      | 2 => "//"
      | _ => "/" := by
  unfold root leading
  split
  · rename_i hchars
    simp [hchars]
  · rename_i hthird hchars
    simp [hchars, takeWhile_slash hthird]
  · rename_i hsecond hchars
    simp [hchars, takeWhile_slash hsecond]
  · rename_i hfirst
    simp [takeWhile_slash hfirst]

/-- What does not start with a slash changes no root. -/
theorem root_append (h : isRooted b = false) (a : String) : root (a ++ b) = root a := by
  have hb : b.toList.takeWhile (· = '/') = [] := takeWhile_slash fun rest hchars => by
    simp [isRooted, hchars] at h
  have hleading : leading (a ++ b) = leading a := by
    rw [leading, String.toList_append, List.takeWhile_append, hb, List.append_nil]
    split
    · rename_i hlength
      exact ((List.takeWhile_prefix _).eq_of_length hlength).symm
    · rfl
  rw [root_eq, root_eq, hleading]

/-- What follows something other than slashes changes no root. -/
theorem root_append_of_name (h : ∃ c ∈ a.toList, c ≠ '/') (b : String) : root (a ++ b) = root a := by
  have hleading : leading (a ++ b) = leading a := by
    rw [leading, String.toList_append, List.takeWhile_append, if_neg]
    · rfl
    · intro hlength
      obtain ⟨c, hc, hne⟩ := h
      rw [← (List.takeWhile_prefix _).eq_of_length hlength] at hc
      exact hne (by simpa using List.mem_takeWhile_imp hc)
  rw [root_eq, root_eq, hleading]

theorem root_of_unrooted (h : isRooted path = false) : root path = "" := by
  have hroot := root_append h ""
  rwa [String.empty_append] at hroot

/-- A path that goes forward is normal if none of its segments is empty or `.`. -/
theorem normalize_eq_self_iff (h : Forward path) (hnames : names path ≠ []) :
    normalize path = path ↔ ∀ segment ∈ segments path, segment ≠ "" ∧ segment ≠ "." := by
  have hsegments : segments ("/".intercalate (names path)) = names path :=
    segments_intercalate hnames fun _ => slashless_of_mem_names
  have hname {segment : String} (hsegment : segment ∈ names path) :
      segment ≠ "" ∧ segment ≠ "." := by
    simpa using (List.mem_filter.1 hsegment).2
  have htext : "/".intercalate (names path) ≠ "" := by
    intro hempty
    have hmem : "" ∈ names path := by
      rw [← hsegments, hempty]
      decide
    exact (hname hmem).1 rfl
  have hnormal : normalize path = "/".intercalate (names path) := by
    simp [normalize, h.resolve, root_of_unrooted h.unrooted, htext]
  rw [hnormal]
  constructor
  · intro heq segment hsegment
    rw [← heq, hsegments] at hsegment
    exact hname hsegment
  · intro hall
    have hself : names path = segments path :=
      List.filter_eq_self.2 fun segment hsegment => by simpa using hall segment hsegment
    rw [hself, intercalate_segments]

/-! ### Files in directories -/

theorem exists_slashes (chars : List Char) :
    ∃ n, chars = Text.dropEnd (· = '/') chars ++ List.replicate n '/' := by
  have hslashes : chars.reverse.takeWhile (· = '/') =
      List.replicate (chars.reverse.takeWhile (· = '/')).length '/' :=
    List.eq_replicate_of_mem fun c hc => by simpa using List.mem_takeWhile_imp hc
  refine ⟨(chars.reverse.takeWhile (· = '/')).length, ?_⟩
  rw [← List.reverse_inj, Text.dropEnd, List.reverse_append, List.reverse_reverse,
    List.reverse_replicate, ← hslashes, List.takeWhile_append_dropWhile]

theorem resolve_append_slashes (ha : a ≠ "") (n : Nat) :
    resolve (a ++ String.ofList (List.replicate n '/')) = resolve a := by
  induction n with
  | zero => simp
  | succ n ih =>
    have hslash : a ++ String.ofList (List.replicate (n + 1) '/') =
        a ++ String.ofList (List.replicate n '/') ++ "/" ++ "" := by
      simp [← String.toList_inj, List.replicate_succ']
    have hstep (place : Resolved) : place.step "" = place := if_pos (Or.inl rfl)
    have hempty : segments "" = [""] := by decide
    rw [← ih, hslash, resolve, resolve, segments_append_slash, List.foldl_append, hempty,
      String.append_assoc, String.append_assoc, isRooted_append ha, isRooted_append ha]
    simp [hstep]

theorem directory_append (ha : IsFolder a) (hname : '/' ∉ name.toList) :
    directory (a ++ name) = String.ofList (if (Text.dropEnd (· = '/') a.toList).isEmpty
      then a.toList else Text.dropEnd (· = '/') a.toList) := by
  have hhead : ((a ++ name).toList.reverse.dropWhile (· ≠ '/')).reverse = a.toList := by
    have hdrop : ∀ c ∈ name.toList.reverse, decide (c ≠ '/') = true := fun c hc =>
      decide_eq_true (ne_of_mem_of_not_mem (List.mem_reverse.1 hc) hname)
    rw [String.toList_append, List.reverse_append, List.dropWhile_append_of_pos hdrop]
    rcases ha.cases with rfl | ⟨before, rfl⟩ <;> simp
  rw [directory, hhead]

/-- What is joined to the directory of a file is found where it follows the file's folder. -/
theorem normalize_join_directory (ha : IsFolder a) (hname : '/' ∉ name.toList)
    (hb : isRooted b = false) :
    normalize (join (directory (a ++ name)) b) = normalize (a ++ b) := by
  rw [directory_append ha hname, join_eq hb]
  split
  · rw [String.ofList_toList, folder, if_pos ha]
  · rename_i hkept
    obtain ⟨n, hsplit⟩ := exists_slashes a.toList
    generalize hd : String.ofList (Text.dropEnd (· = '/') a.toList) = d
    have hchars : d.toList = Text.dropEnd (· = '/') a.toList := by rw [← hd, String.toList_ofList]
    have ha' : a = d ++ String.ofList (List.replicate n '/') := by
      rw [← String.toList_inj, hsplit]
      simp [hchars]
    have hd' : ∃ c ∈ d.toList, c ≠ '/' := by
      by_contra hall
      push Not at hall
      refine hkept (List.isEmpty_iff.2 ?_)
      rw [Text.dropEnd, List.reverse_eq_nil_iff, List.dropWhile_eq_nil_iff, ha']
      simpa [or_imp, forall_and] using hall
    have hne : d ≠ "" := by
      rintro rfl
      simp at hd'
    have hfolder : ∃ k, folder d = d ++ String.ofList (List.replicate k '/') := by
      unfold folder
      split
      · exact ⟨0, by simp⟩
      · exact ⟨1, rfl⟩
    obtain ⟨k, hk⟩ := hfolder
    refine normalize_congr ?_ ?_
    · rw [root_append hb, root_append hb, ha', hk, root_append_of_name hd', root_append_of_name hd']
    · rw [resolve_append (isFolder_folder d) hb, resolve_append ha hb, ha', hk,
        resolve_append_slashes hne, resolve_append_slashes hne]

theorem fileName_append (ha : IsFolder a) (hname : '/' ∉ name.toList) :
    fileName (a ++ name) = name := by
  have htake : ∀ c ∈ name.toList.reverse, decide (c ≠ '/') = true := fun c hc =>
    decide_eq_true (ne_of_mem_of_not_mem (List.mem_reverse.1 hc) hname)
  have hnone : a.toList.reverse.takeWhile (· ≠ '/') = [] := by
    rcases ha.cases with rfl | ⟨before, rfl⟩ <;> simp
  rw [fileName, Text.afterLast, String.toList_append, List.reverse_append,
    List.takeWhile_append_of_pos htake, hnone]
  simp

theorem stem_java (hname : name ≠ "") (hdot : '.' ∉ name.toList) :
    stem (name ++ ".java") = name := by
  have hbefore : ((name ++ ".java").toList.reverse.dropWhile (· ≠ '.')).drop 1 =
      name.toList.reverse := by
    simp
  have hany : name.toList.reverse.any (· ≠ '.') := by
    obtain ⟨c, rest, hchars⟩ := List.exists_cons_of_ne_nil (mt String.toList_eq_nil_iff.1 hname)
    have hc : c ≠ '.' := ne_of_mem_of_not_mem (by rw [hchars]; exact List.mem_cons_self) hdot
    exact List.any_eq_true.2 ⟨c, by simp [hchars], decide_eq_true hc⟩
  rw [stem, hbefore, if_pos hany]
  simp

/-- A file in a folder keeps its stem with another extension. -/
theorem withExtension_append (ha : IsFolder a) (hslash : '/' ∉ name.toList) (extension : String) :
    withExtension (a ++ name) extension = a ++ (stem name ++ "." ++ extension) := by
  have hfolder : (a ++ name).toList.take ((a ++ name).length - name.length) = a.toList := by
    rw [String.length_append, Nat.add_sub_cancel, String.toList_append]
    exact List.take_left' String.length_toList
  rw [withExtension, withoutExtension, fileName_append ha hslash, hfolder, String.ofList_toList,
    String.append_assoc, String.append_assoc, String.append_assoc]

end SlashPath

end Recast
