import Mathlib
import Recast.Config.Resolve
import Recast.Pass.Select
import Recast.Proofs.SlashPath

/-!
Specifiers and the files they lead to.

A package map puts what follows a folder into another folder, without looking at it
(`PackageMap.place_append`). So every directory of Java files has one folder of output files
(`ModuleMap.tsFileName_join`), and a specifier has to lead from the one folder to the other. The
resolver's does (`normalize_specifier`), and so does that of a class in the same directory
(`normalize_sibling`).

Both are normal paths. An output file is named by a normal path too unless the directory of its
package map has two slashes in a row (`normalize_output`), which stay in the file's name.
-/

namespace Recast

open SlashPath

/-! ### Characters replaced -/

theorem Text.replaceChar_append (old new : Char) (a b : String) :
    replaceChar old new (a ++ b) = replaceChar old new a ++ replaceChar old new b := by
  simp [replaceChar]

theorem Text.replaceChar_of_not_mem {old new : Char} {text : String} (h : old ∉ text.toList) :
    replaceChar old new text = text := by
  have hmap : text.toList.map (fun c => if c = old then new else c) = text.toList.map id :=
    List.map_congr_left fun c hc => if_neg (ne_of_mem_of_not_mem hc h)
  rw [replaceChar, hmap, List.map_id, String.ofList_toList]

/-! ### Names of files and packages -/

/-- The path whose segments are the given names. -/
def slashed (parts : List String) : String := "/".intercalate parts

/-- The dotted name with the given parts. -/
def dotted (parts : List String) : String := ".".intercalate parts

/-- Whether a text can name a directory. -/
structure IsName (name : String) : Prop where
  ne_empty : name ≠ ""
  ne_self : name ≠ "."
  ne_parent : name ≠ ".."
  noSlash : '/' ∉ name.toList
  noBackslash : '\\' ∉ name.toList

/-- Whether a text can stand between the slashes of a path. -/
structure IsSegment (name : String) : Prop where
  ne_empty : name ≠ ""
  noSlash : '/' ∉ name.toList
  noBackslash : '\\' ∉ name.toList

instance (name : String) : Decidable (IsSegment name) :=
  decidable_of_iff (name ≠ "" ∧ '/' ∉ name.toList ∧ '\\' ∉ name.toList)
    ⟨fun h => ⟨h.1, h.2.1, h.2.2⟩, fun h => ⟨h.1, h.2, h.3⟩⟩

theorem IsName.isSegment {name : String} (h : IsName name) : IsSegment name :=
  ⟨h.ne_empty, h.noSlash, h.noBackslash⟩

/-- Whether a text can be a part of a dotted name. -/
structure IsPart (name : String) : Prop where
  ne_empty : name ≠ ""
  noDot : '.' ∉ name.toList
  noSlash : '/' ∉ name.toList
  noBackslash : '\\' ∉ name.toList

instance (name : String) : Decidable (IsPart name) :=
  decidable_of_iff (name ≠ "" ∧ '.' ∉ name.toList ∧ '/' ∉ name.toList ∧ '\\' ∉ name.toList)
    ⟨fun h => ⟨h.1, h.2.1, h.2.2.1, h.2.2.2⟩, fun h => ⟨h.1, h.2, h.3, h.4⟩⟩

theorem IsPart.isName {name : String} (h : IsPart name) : IsName name where
  ne_empty := h.ne_empty
  ne_self := by
    rintro rfl
    exact h.noDot (by decide)
  ne_parent := by
    rintro rfl
    exact h.noDot (by decide)
  noSlash := h.noSlash
  noBackslash := h.noBackslash

/-- A path that starts with a name and has no `.` and no `..` segments. -/
structure Downward (path : String) : Prop where
  unrooted : isRooted path = false
  noSelf : "." ∉ segments path
  noParent : ".." ∉ segments path

instance (path : String) : Decidable (Downward path) :=
  decidable_of_iff (isRooted path = false ∧ "." ∉ segments path ∧ ".." ∉ segments path)
    ⟨fun h => ⟨h.1, h.2.1, h.2.2⟩, fun h => ⟨h.1, h.2, h.3⟩⟩

theorem Downward.forward {path : String} (h : Downward path) : Forward path :=
  ⟨h.unrooted, fun hmem => h.noParent (List.mem_of_mem_filter hmem)⟩

/-- Whether all segments of a path but the last are names. -/
def Neat (path : String) : Prop :=
  ∀ segment ∈ (segments path).dropLast, segment ≠ "" ∧ segment ≠ "." ∧ segment ≠ ".."

section Slashed

variable {parts : List String} {name : String}

theorem segments_slashed (hparts : parts ≠ []) (h : ∀ part ∈ parts, IsSegment part) :
    segments (slashed parts) = parts :=
  segments_intercalate hparts fun part hpart => (h part hpart).noSlash

theorem slashed_ne_empty (hparts : parts ≠ []) (h : ∀ part ∈ parts, IsSegment part) :
    slashed parts ≠ "" := by
  intro hempty
  have hsegments := segments_slashed hparts h
  rw [hempty] at hsegments
  have hmem : "" ∈ parts := by
    rw [← hsegments]
    decide
  exact (h "" hmem).ne_empty rfl

/-- The characters of a path are its slashes and those of its names. -/
theorem char_of_mem_slashed {c : Char} (hc : c ∈ (slashed parts).toList) :
    c = '/' ∨ ∃ part ∈ parts, c ∈ part.toList := by
  induction parts with
  | nil => simp [slashed] at hc
  | cons first rest ih =>
    cases rest with
    | nil => exact Or.inr ⟨first, by simp, by simpa [slashed] using hc⟩
    | cons second rest =>
      rw [slashed, String.intercalate_cons_cons] at hc
      simp only [String.toList_append, List.mem_append] at hc
      rcases hc with (hc | hc) | hc
      · exact Or.inr ⟨first, by simp, hc⟩
      · exact Or.inl (by simpa using hc)
      · rcases ih hc with rfl | ⟨part, hpart, hc⟩
        · exact Or.inl rfl
        · exact Or.inr ⟨part, List.mem_cons_of_mem _ hpart, hc⟩

theorem getLast?_slashed (h : ∀ part ∈ parts, IsSegment part) :
    (slashed parts).toList.getLast? ≠ some '/' := by
  intro hlast
  have hfolder : IsFolder (slashed parts) := Or.inr hlast
  rcases hfolder.cases with hempty | ⟨before, hbefore⟩
  · rw [hempty] at hlast
    cases hlast
  · by_cases hparts : parts = []
    · subst hparts
      cases hlast
    · have hsegments := segments_append_slash before ""
      rw [String.append_empty, ← hbefore, segments_slashed hparts h] at hsegments
      have hmem : "" ∈ parts := by
        rw [hsegments]
        simp [show segments "" = [""] by decide]
      exact (h "" hmem).ne_empty rfl

theorem folder_slashed (hparts : parts ≠ []) (h : ∀ part ∈ parts, IsSegment part) :
    folder (slashed parts) = slashed parts ++ "/" := by
  rw [folder, if_neg]
  rintro (hempty | hlast)
  · exact slashed_ne_empty hparts h hempty
  · exact getLast?_slashed h hlast

theorem slashed_concat (h : ∀ part ∈ parts, IsSegment part) (name : String) :
    slashed (parts ++ [name]) = folder (slashed parts) ++ name := by
  by_cases hparts : parts = []
  · subst hparts
    simp [slashed, folder, IsFolder]
  · rw [folder_slashed hparts h, slashed, String.intercalate_append_of_ne_nil hparts (by simp)]
    simp [slashed]

theorem segments_folder_slashed (h : ∀ part ∈ parts, IsSegment part) :
    segments (folder (slashed parts)) = parts ++ [""] := by
  have hempty : segments "" = [""] := by decide
  by_cases hparts : parts = []
  · subst hparts
    simpa [slashed, folder, IsFolder] using hempty
  · have hsegments := segments_append_slash (slashed parts) ""
    rw [String.append_empty, ← folder_slashed hparts h, segments_slashed hparts h,
      hempty] at hsegments
    exact hsegments

theorem neat_folder_slashed (h : ∀ part ∈ parts, IsName part) : Neat (folder (slashed parts)) := by
  intro segment hsegment
  rw [segments_folder_slashed fun part hpart => (h part hpart).isSegment,
    List.dropLast_concat] at hsegment
  exact ⟨(h segment hsegment).ne_empty, (h segment hsegment).ne_self,
    (h segment hsegment).ne_parent⟩

theorem directory_of_isFolder {source : String} (h : IsFolder source) :
    directory source = String.ofList (if (Text.dropEnd (· = '/') source.toList).isEmpty
      then source.toList else Text.dropEnd (· = '/') source.toList) := by
  have hempty : directory (source ++ "") = _ := directory_append h (by simp)
  rwa [String.append_empty] at hempty

theorem directory_folder_slashed (h : ∀ part ∈ parts, IsSegment part) :
    directory (folder (slashed parts)) = slashed parts := by
  by_cases hparts : parts = []
  · subst hparts
    decide
  · have hdirectory := directory_of_isFolder (isFolder_folder (slashed parts))
    have htrim : Text.dropEnd (· = '/') (folder (slashed parts)).toList = (slashed parts).toList := by
      obtain ⟨init, last, hchars⟩ := List.eq_nil_or_concat (slashed parts).toList |>.resolve_left
        (mt String.toList_eq_nil_iff.1 (slashed_ne_empty hparts h))
      have hlast : last ≠ '/' := by
        rintro rfl
        exact getLast?_slashed h (by simp [hchars])
      simp [folder_slashed hparts h, hchars, Text.dropEnd, hlast]
    have hne : (slashed parts).toList.isEmpty = false := by
      simpa [List.isEmpty_iff] using mt String.toList_eq_nil_iff.1 (slashed_ne_empty hparts h)
    rw [hdirectory, htrim, hne]
    simp

end Slashed

/-! ### Package maps -/

namespace PackageMap

variable {e : PackageMap} {source name javaPath : String}

/-- What is left of a path below the package. -/
def remainder (e : PackageMap) (javaPath : String) : String :=
  String.ofList ((javaPath.toList.drop e.path.length).dropWhile (· = '/'))

/-- The segments of the package's path. -/
def parts (e : PackageMap) : List String := if e.path = "" then [] else segments e.path

/-- Where a folder goes. -/
def destFolder (e : PackageMap) (source : String) : String :=
  folder e.destPath ++ e.remainder source

theorem unrooted_dropWhile (chars : List Char) :
    isRooted (String.ofList (chars.dropWhile (· = '/'))) = false := by
  rw [isRooted, String.toList_ofList, decide_eq_false_iff_not]
  intro hhead
  have hslash := List.head?_dropWhile_not (· = '/') chars
  rw [hhead] at hslash
  simp at hslash

theorem unrooted_remainder (e : PackageMap) (javaPath : String) :
    isRooted (e.remainder javaPath) = false :=
  unrooted_dropWhile _

theorem char_of_mem_remainder {c : Char} (hc : c ∈ (e.remainder javaPath).toList) :
    c ∈ javaPath.toList := by
  rw [remainder, String.toList_ofList] at hc
  exact List.mem_of_mem_drop ((List.dropWhile_suffix _).subset hc)

theorem place_eq (e : PackageMap) (javaPath : String) :
    e.place javaPath = if e.destPath = "" then e.remainder javaPath
      else if e.remainder javaPath = "" then String.ofList (Text.dropEnd (· = '/') e.destPath.toList)
      else join e.destPath (e.remainder javaPath) := rfl

theorem place_of_remainder (h : e.remainder javaPath ≠ "") :
    e.place javaPath = folder e.destPath ++ e.remainder javaPath := by
  rw [place_eq, if_neg h, join_eq (unrooted_remainder e javaPath)]
  split
  · rename_i hempty
    simp [hempty, folder, IsFolder]
  · rfl

/-- The names of a place are those of the package's directory and those below the package. -/
theorem names_place (e : PackageMap) (javaPath : String) :
    names (e.place javaPath) = names e.destPath ++ names (e.remainder javaPath) := by
  by_cases h : e.remainder javaPath = ""
  · rw [place_eq, if_pos h, h, names_empty, List.append_nil]
    split
    · rename_i hempty
      rw [hempty]
    · rw [names_dropEnd, String.ofList_toList]
  · rw [place_of_remainder h, names_append (isFolder_folder _), names_folder]

theorem unrooted_place (h : isRooted e.destPath = false) (javaPath : String) :
    isRooted (e.place javaPath) = false := by
  have hremainder := unrooted_remainder e javaPath
  by_cases hempty : e.remainder javaPath = ""
  · rw [place_eq, if_pos hempty]
    split
    · exact hremainder
    · obtain ⟨n, hsplit⟩ := exists_slashes e.destPath.toList
      rw [isRooted, decide_eq_false_iff_not] at h ⊢
      rw [hsplit] at h
      rw [String.toList_ofList]
      intro hhead
      exact h (by rw [List.head?_append, hhead]; rfl)
  · rw [place_of_remainder hempty]
    by_cases hdest : folder e.destPath = ""
    · rw [hdest, String.empty_append]
      exact hremainder
    · rw [isRooted_append hdest]
      unfold folder
      split
      · exact h
      · rename_i hnot
        rw [isRooted_append fun hempty => hnot (Or.inl hempty)]
        exact h

/-- An enclosed path starts with the package. -/
theorem isPrefix_of_encloses (h : e.encloses javaPath) : e.path.toList <+: javaPath.toList := by
  simp only [encloses, Bool.or_eq_true, decide_eq_true_eq] at h
  rcases h with (hempty | heq) | hbelow
  · rw [hempty]
    exact List.nil_prefix
  · rw [heq]
  · refine List.IsPrefix.trans ?_ (List.isPrefixOf_iff_prefix.1 hbelow)
    rw [String.toList_append]
    exact List.prefix_append _ _

theorem isPrefix_directory (h : IsFolder source) :
    (directory source).toList <+: source.toList := by
  rw [directory_of_isFolder h, String.toList_ofList]
  split
  · exact List.prefix_rfl
  · obtain ⟨n, hsplit⟩ := exists_slashes source.toList
    exact ⟨_, hsplit.symm⟩

theorem isFolder_remainder (h : IsFolder source) : IsFolder (e.remainder source) := by
  have hsuffix : (e.remainder source).toList <:+ source.toList := by
    rw [remainder, String.toList_ofList]
    exact (List.dropWhile_suffix _).trans (List.drop_suffix _ _)
  by_cases hempty : e.remainder source = ""
  · exact Or.inl hempty
  · obtain ⟨before, hbefore⟩ := hsuffix
    have hne : (e.remainder source).toList ≠ [] := mt String.toList_eq_nil_iff.1 hempty
    rcases h with rfl | hlast
    · exact absurd (List.append_eq_nil_iff.1 hbefore).2 hne
    · right
      rwa [← hbefore, List.getLast?_append_of_ne_nil _ hne] at hlast

theorem isFolder_destFolder (h : IsFolder source) : IsFolder (e.destFolder source) :=
  (isFolder_folder _).append (isFolder_remainder h)

/-- What follows an enclosed folder follows the folder's place. -/
theorem place_append (hsource : IsFolder source) (h : e.encloses (directory source))
    (hname : name ≠ "") (hslash : '/' ∉ name.toList) :
    e.place (source ++ name) = e.destFolder source ++ name := by
  obtain ⟨rest, hrest⟩ := (isPrefix_of_encloses h).trans (isPrefix_directory hsource)
  obtain ⟨c, chars, hchars⟩ := List.exists_cons_of_ne_nil (mt String.toList_eq_nil_iff.1 hname)
  have hc : c ≠ '/' := ne_of_mem_of_not_mem (by rw [hchars]; exact List.mem_cons_self) hslash
  have hdrop : (source ++ name).toList.drop e.path.length = rest ++ name.toList := by
    rw [String.toList_append, ← hrest, List.append_assoc]
    exact List.drop_left' String.length_toList
  have hdrop' : source.toList.drop e.path.length = rest := by
    rw [← hrest]
    exact List.drop_left' String.length_toList
  have hremainder : e.remainder (source ++ name) = e.remainder source ++ name := by
    rw [← String.toList_inj, String.toList_append, remainder, remainder, String.toList_ofList,
      String.toList_ofList, hdrop, hdrop', List.dropWhile_append]
    split
    · rename_i hempty
      rw [List.isEmpty_iff.1 hempty, List.nil_append, hchars, List.dropWhile_cons_of_neg (by simpa)]
    · rfl
  rw [place_of_remainder, hremainder, destFolder, String.append_assoc]
  rw [hremainder]
  intro hempty
  exact hname (by simpa using (String.append_eq_empty_iff.1 hempty).2)

end PackageMap

/-! ### Output files -/

namespace ModuleMap

variable {m : ModuleMap} {d name : String}

/-- A directory of Java files as a folder. -/
def sourceFolder (d : String) : String := Text.replaceChar '\\' '/' (folder d)

/-- The folder of the output files of a directory of Java files. -/
def outputFolder (m : ModuleMap) (d : String) : String :=
  match m.findPackageMap (directory (sourceFolder d)) with
  | none => sourceFolder d
  | some e => e.destFolder (sourceFolder d)

theorem isFolder_sourceFolder (d : String) : IsFolder (sourceFolder d) := by
  rcases (isFolder_folder d).cases with hempty | ⟨before, hbefore⟩
  · exact Or.inl (by simp [sourceFolder, hempty, Text.replaceChar])
  · exact Or.inr (by simp [sourceFolder, hbefore, Text.replaceChar])

theorem isFolder_outputFolder (m : ModuleMap) (d : String) : IsFolder (m.outputFolder d) := by
  unfold outputFolder
  split
  · exact isFolder_sourceFolder d
  · exact PackageMap.isFolder_destFolder (isFolder_sourceFolder d)

/-- Files of one directory go to one folder and keep their stems. -/
theorem tsFileName_file (h : IsSegment name) :
    (m.tsFileName (join d name)).1 = m.outputFolder d ++ (stem name ++ ".ts") := by
  have hunrooted : isRooted name = false := by
    rw [isRooted, decide_eq_false_iff_not]
    exact fun hhead => h.noSlash (List.mem_of_head? hhead)
  have hfile : Text.replaceChar '\\' '/' (join d name) = sourceFolder d ++ name := by
    rw [join_eq hunrooted, Text.replaceChar_append, Text.replaceChar_of_not_mem h.noBackslash]
    rfl
  have hdirectory : directory (sourceFolder d ++ name) = directory (sourceFolder d) := by
    rw [directory_append (isFolder_sourceFolder d) h.noSlash,
      directory_of_isFolder (isFolder_sourceFolder d)]
  simp only [tsFileName, outputFolder, hfile, hdirectory]
  cases hfind : m.findPackageMap (directory (sourceFolder d)) with
  | none =>
    dsimp only
    rw [withExtension_append (isFolder_sourceFolder d) h.noSlash, @String.append_assoc (stem name) "." "ts"]
    rfl
  | some e =>
    have hencloses : e.encloses (directory (sourceFolder d)) := by
      simpa using List.find?_some hfind
    dsimp only
    rw [PackageMap.place_append (isFolder_sourceFolder d) hencloses h.ne_empty h.noSlash,
      withExtension_append (PackageMap.isFolder_destFolder (isFolder_sourceFolder d)) h.noSlash,
      @String.append_assoc (stem name) "." "ts"]
    rfl

theorem isSegment_java (hslash : '/' ∉ name.toList) (hbackslash : '\\' ∉ name.toList) :
    IsSegment (name ++ ".java") :=
  ⟨by simp, by simpa using hslash, by simpa using hbackslash⟩

theorem tsFileName_join (h : IsPart name) :
    (m.tsFileName (join d (name ++ ".java"))).1 = m.outputFolder d ++ (name ++ ".ts") := by
  rw [tsFileName_file (isSegment_java h.noSlash h.noBackslash), stem_java h.ne_empty h.noDot]

end ModuleMap

/-! ### Folders that only go down -/

section Downward

variable {path a b : String} {parts : List String}

theorem unrooted_of_not_mem (h : "" ∉ (segments path).dropLast) : isRooted path = false := by
  rw [isRooted, decide_eq_false_iff_not]
  intro hhead
  obtain ⟨rest, hrest⟩ := List.head?_eq_some_iff.1 hhead
  have hpath : path = "" ++ "/" ++ String.ofList rest := by
    simp [← String.toList_inj, hrest]
  refine h ?_
  rw [hpath, segments_append_slash, List.dropLast_append_of_ne_nil (by simp [segments_eq])]
  exact List.mem_append_left _ (by decide)

theorem unrooted_of_neat (h : Neat path) : isRooted path = false :=
  unrooted_of_not_mem fun hmem => (h "" hmem).1 rfl

theorem dropWhile_of_unrooted (h : isRooted path = false) :
    path.toList.dropWhile (· = '/') = path.toList := by
  rcases hchars : path.toList with _ | ⟨c, chars⟩
  · rfl
  · have hc : c ≠ '/' := by
      rintro rfl
      simp [isRooted, hchars] at h
    exact List.dropWhile_cons_of_neg (by simpa using hc)

theorem neat_append (hfolder : IsFolder a) : Neat (a ++ b) ↔ Neat a ∧ Neat b := by
  have hdrop : (segments (a ++ b)).dropLast = (segments a).dropLast ++ (segments b).dropLast := by
    rw [segments_append hfolder, List.dropLast_append_of_ne_nil (by simp [segments_eq])]
  rw [Neat, hdrop, List.forall_mem_append]
  rfl

theorem Downward.append (hfolder : IsFolder a) (ha : Downward a) (hb : Downward b) :
    Downward (a ++ b) := by
  have hsegments {segment : String} (h : segment ∈ segments (a ++ b)) :
      segment ∈ segments a ∨ segment ∈ segments b := by
    rw [segments_append hfolder] at h
    exact (List.mem_append.1 h).imp_left List.mem_of_mem_dropLast
  refine ⟨?_, fun h => (hsegments h).elim ha.noSelf hb.noSelf,
    fun h => (hsegments h).elim ha.noParent hb.noParent⟩
  by_cases hempty : a = ""
  · rw [hempty, String.empty_append]
    exact hb.unrooted
  · rw [isRooted_append hempty]
    exact ha.unrooted

theorem Downward.folder (h : Downward path) : Downward (folder path) := by
  unfold SlashPath.folder
  split
  · exact h
  · rename_i hnot
    have hne : path ≠ "" := fun hempty => hnot (Or.inl hempty)
    have hsegments : segments (path ++ "/") = segments path ++ [""] := by
      have hslash := segments_append_slash path ""
      rwa [String.append_empty, show segments "" = [""] by decide] at hslash
    refine ⟨by rw [isRooted_append hne]; exact h.unrooted, ?_, ?_⟩
    · rw [hsegments]
      simpa using h.noSelf
    · rw [hsegments]
      simpa using h.noParent

theorem IsName.downward {name : String} (h : IsName name) : Downward name := by
  refine ⟨?_, ?_, ?_⟩
  · rw [isRooted, decide_eq_false_iff_not]
    exact fun hhead => h.noSlash (List.mem_of_head? hhead)
  · rw [segments_of_slashless h.noSlash, List.mem_singleton]
    exact h.ne_self.symm
  · rw [segments_of_slashless h.noSlash, List.mem_singleton]
    exact h.ne_parent.symm

/-- A neat folder only goes down. -/
theorem Neat.downward (hfolder : IsFolder path) (h : Neat path) : Downward path := by
  have hsegments {segment : String} (hsegment : segment ∈ segments path) :
      segment ∈ (segments path).dropLast ∨ segment = "" := by
    have hempty := segments_append hfolder ""
    rw [String.append_empty, show segments "" = [""] by decide] at hempty
    rw [hempty] at hsegment
    exact (List.mem_append.1 hsegment).imp_right List.mem_singleton.1
  refine ⟨unrooted_of_neat h, ?_, ?_⟩
  · intro hmem
    rcases hsegments hmem with hinit | hlast
    · exact (h "." hinit).2.1 rfl
    · exact absurd hlast (by decide)
  · intro hmem
    rcases hsegments hmem with hinit | hlast
    · exact (h ".." hinit).2.2 rfl
    · exact absurd hlast (by decide)

/-- An empty segment before the last comes from a slash at the start or from two in a row. -/
theorem double_slash_of_empty (h : "" ∈ (segments path).dropLast) :
    isRooted path = true ∨ ['/', '/'] <:+: path.toList := by
  have hne : segments path ≠ [] := by simp [segments_eq]
  obtain ⟨before, after, hsplit⟩ := List.append_of_mem h
  have hsegments : segments path = before ++ ([""] ++ (after ++ [(segments path).getLast hne])) := by
    conv_lhs => rw [← List.dropLast_append_getLast hne, hsplit]
    simp
  have htail := String.intercalate_append_of_ne_nil (l := [""])
    (m := after ++ [(segments path).getLast hne]) (s := "/") (by simp) (by simp)
  have hpath := intercalate_segments path
  rw [hsegments] at hpath
  by_cases hbefore : before = []
  · left
    rw [hbefore, List.nil_append, htail] at hpath
    rw [← hpath]
    simp [isRooted]
  · right
    rw [String.intercalate_append_of_ne_nil hbefore (by simp), htail] at hpath
    rw [← hpath]
    exact ⟨("/".intercalate before).toList,
      ("/".intercalate (after ++ [(segments path).getLast hne])).toList, by simp⟩

/-- Two slashes in a row have an empty segment between them. -/
theorem empty_of_double_slash (h : ['/', '/'] <:+: path.toList) :
    "" ∈ (segments path).dropLast := by
  obtain ⟨before, after, hsplit⟩ := h
  have hpath : path = String.ofList before ++ "/" ++ ("" ++ "/" ++ String.ofList after) := by
    simp [← String.toList_inj, ← hsplit]
  rw [hpath, segments_append_slash, segments_append_slash,
    List.dropLast_append_of_ne_nil (by simp [segments_eq]),
    List.dropLast_append_of_ne_nil (by simp [segments_eq])]
  exact List.mem_append_right _ (List.mem_append_left _ (by decide))

/-- A path that only goes down is neat as a folder if no two slashes follow each other. -/
theorem Downward.neat_folder_iff (h : Downward path) :
    Neat (SlashPath.folder path) ↔ ¬ ['/', '/'] <:+: path.toList := by
  constructor
  · intro hneat hdouble
    refine (hneat "" (empty_of_double_slash (hdouble.trans ?_))).1 rfl
    unfold SlashPath.folder
    split
    · exact List.infix_rfl
    · rw [String.toList_append]
      exact (List.prefix_append _ _).isInfix
  · intro hdouble segment hsegment
    have hdown := h.folder
    have hmem := List.mem_of_mem_dropLast hsegment
    refine ⟨?_, fun heq => hdown.noSelf (heq ▸ hmem), fun heq => hdown.noParent (heq ▸ hmem)⟩
    rintro rfl
    rcases double_slash_of_empty hsegment with hrooted | hinfix
    · rw [hdown.unrooted] at hrooted
      cases hrooted
    · unfold SlashPath.folder at hinfix
      split at hinfix
      · exact hdouble hinfix
      · rename_i hnot
        -- The slash that makes the path a folder follows a name.
        obtain ⟨before, after, heq⟩ := hinfix
        rw [String.toList_append] at heq
        rcases List.eq_nil_or_concat after with rfl | ⟨init, last, rfl⟩
        · refine hnot (Or.inr ?_)
          have hends : before ++ ['/'] ++ ['/'] = path.toList ++ ['/'] := by simpa using heq
          simp [← List.append_inj_left' hends rfl]
        · have hends : before ++ ['/', '/'] ++ init ++ [last] = path.toList ++ ['/'] := by
            simpa using heq
          exact hdouble ⟨before, init, List.append_inj_left' hends rfl⟩

/-- A file in a folder that only goes down has a normal path if the folder is neat. -/
theorem Downward.normalize_iff {name : String} (hfolder : IsFolder a) (hdown : Downward a)
    (hname : IsName name) : normalize (a ++ name) = a ++ name ↔ Neat a := by
  have hsegments : segments (a ++ name) = (segments a).dropLast ++ [name] := by
    rw [segments_append hfolder, segments_of_slashless hname.noSlash]
  have hnames : names (a ++ name) ≠ [] := by
    have hmem : name ∈ names (a ++ name) := by
      rw [names, List.mem_filter, hsegments]
      exact ⟨by simp, by simp [hname.ne_empty, hname.ne_self]⟩
    exact List.ne_nil_of_mem hmem
  rw [normalize_eq_self_iff (hdown.append hfolder hname.downward).forward hnames, hsegments,
    List.forall_mem_append, List.forall_mem_singleton]
  constructor
  · intro h segment hsegment
    have hmem := List.mem_of_mem_dropLast hsegment
    exact ⟨(h.1 segment hsegment).1, (h.1 segment hsegment).2,
      fun heq => hdown.noParent (heq ▸ hmem)⟩
  · intro h
    exact ⟨fun segment hsegment => ⟨(h segment hsegment).1, (h segment hsegment).2.1⟩,
      hname.ne_empty, hname.ne_self⟩

end Downward

/-! ### Output folders of directories -/

section Output

variable {m : ModuleMap} {e : PackageMap} {parts : List String}

/-- A package that encloses a directory has its first segments; the others are left. -/
theorem PackageMap.exists_below (hparts : ∀ part ∈ parts, IsSegment part)
    (h : e.encloses (slashed parts)) : ∃ below, parts = e.parts ++ below ∧
      e.remainder (folder (slashed parts)) = folder (slashed below) := by
  have hunrooted {below : List String} (hbelow : ∀ part ∈ below, IsSegment part) :
      isRooted (folder (slashed below)) = false := by
    refine unrooted_of_not_mem fun hmem => ?_
    rw [segments_folder_slashed hbelow, List.dropLast_concat] at hmem
    exact (hbelow "" hmem).ne_empty rfl
  by_cases hempty : e.path = ""
  · refine ⟨parts, by simp [PackageMap.parts, hempty], ?_⟩
    rw [remainder, hempty, String.length_empty, List.drop_zero,
      dropWhile_of_unrooted (hunrooted hparts), String.ofList_toList]
  · have hne : parts ≠ [] := by
      rintro rfl
      simp [encloses, hempty, slashed, Ne.symm hempty] at h
    have hsplit {below : List String} (hbelow : ∀ part ∈ below, IsSegment part)
        (hfolder : folder (slashed parts) = e.path ++ "/" ++ folder (slashed below)) :
        e.remainder (folder (slashed parts)) = folder (slashed below) := by
      have hdrop : (folder (slashed parts)).toList.drop e.path.length =
          '/' :: (folder (slashed below)).toList := by
        rw [hfolder, String.append_assoc, String.toList_append,
          List.drop_left' String.length_toList]
        simp
      rw [remainder, hdrop, List.dropWhile_cons_of_pos (by simp),
        dropWhile_of_unrooted (hunrooted hbelow), String.ofList_toList]
    simp only [encloses, Bool.or_eq_true, decide_eq_true_eq] at h
    rw [PackageMap.parts, if_neg hempty]
    rcases h with (hempty' | heq) | hprefix
    · exact absurd hempty' hempty
    · refine ⟨[], by rw [← heq, segments_slashed hne hparts, List.append_nil], hsplit (by simp) ?_⟩
      rw [folder_slashed hne hparts, heq]
      simp [slashed, folder, IsFolder]
    · obtain ⟨rest, hrest⟩ := List.isPrefixOf_iff_prefix.1 hprefix
      have hpath : slashed parts = e.path ++ "/" ++ String.ofList rest := by
        rw [← String.toList_inj, ← hrest]
        simp
      have hsegments : parts = segments e.path ++ segments (String.ofList rest) := by
        rw [← segments_append_slash, ← hpath, segments_slashed hne hparts]
      have hbelow : ∀ part ∈ segments (String.ofList rest), IsSegment part := by
        intro part hpart
        refine hparts part ?_
        rw [hsegments]
        exact List.mem_append_right _ hpart
      refine ⟨segments (String.ofList rest), hsegments, hsplit hbelow ?_⟩
      have hjoin : slashed (segments (String.ofList rest)) = String.ofList rest :=
        intercalate_segments _
      rw [folder_slashed hne hparts, folder_slashed (by simp [segments_eq]) hbelow, hjoin, hpath]
      simp [String.append_assoc]

theorem PackageMap.neat_remainder (hparts : ∀ part ∈ parts, IsName part)
    (h : e.encloses (slashed parts)) : Neat (e.remainder (folder (slashed parts))) := by
  obtain ⟨below, hsplit, hremainder⟩ :=
    exists_below (fun part hpart => (hparts part hpart).isSegment) h
  rw [hremainder]
  refine neat_folder_slashed fun part hpart => hparts part ?_
  rw [hsplit]
  exact List.mem_append_right _ hpart

theorem ModuleMap.sourceFolder_slashed (hparts : ∀ part ∈ parts, IsSegment part) :
    sourceFolder (slashed parts) = folder (slashed parts) := by
  refine Text.replaceChar_of_not_mem fun hmem => ?_
  have hchar : '\\' ∈ (slashed parts).toList := by
    unfold folder at hmem
    split at hmem
    · exact hmem
    · simpa using hmem
  rcases char_of_mem_slashed hchar with hslash | ⟨part, hpart, hin⟩
  · exact absurd hslash (by decide)
  · exact (hparts part hpart).noBackslash hin

theorem ModuleMap.outputFolder_slashed (hparts : ∀ part ∈ parts, IsSegment part) :
    m.outputFolder (slashed parts) = match m.findPackageMap (slashed parts) with
      | none => folder (slashed parts)
      | some e => e.destFolder (folder (slashed parts)) := by
  rw [outputFolder, sourceFolder_slashed hparts, directory_folder_slashed hparts]

theorem ModuleMap.encloses_of_find {path : String} (h : m.findPackageMap path = some e) :
    e.encloses path := by
  simpa using List.find?_some h

theorem ModuleMap.mem_of_find {path : String} (h : m.findPackageMap path = some e) :
    e ∈ m.packageMaps :=
  List.mem_of_find?_eq_some h

/-- The output folder of a directory only goes down if the package maps do. -/
theorem ModuleMap.downward_outputFolder (hdest : ∀ e ∈ m.packageMaps, Downward e.destPath)
    (hparts : ∀ part ∈ parts, IsName part) : Downward (m.outputFolder (slashed parts)) := by
  rw [outputFolder_slashed fun part hpart => (hparts part hpart).isSegment]
  cases hfind : m.findPackageMap (slashed parts) with
  | none => exact (neat_folder_slashed hparts).downward (isFolder_folder _)
  | some e =>
    have hremainder := PackageMap.neat_remainder hparts (encloses_of_find hfind)
    exact (hdest e (mem_of_find hfind)).folder.append (isFolder_folder _)
      (hremainder.downward (PackageMap.isFolder_remainder (isFolder_folder _)))

/-- An output file has a normal path unless its package map names two slashes in a row. -/
theorem ModuleMap.normalize_output_iff (hdest : ∀ e ∈ m.packageMaps, Downward e.destPath)
    (hparts : ∀ part ∈ parts, IsName part) {name : String} (hname : IsName name) :
    normalize (m.outputFolder (slashed parts) ++ name) = m.outputFolder (slashed parts) ++ name ↔
      ∀ e, m.findPackageMap (slashed parts) = some e → ¬ ['/', '/'] <:+: e.destPath.toList := by
  rw [(downward_outputFolder hdest hparts).normalize_iff (m.isFolder_outputFolder _) hname,
    outputFolder_slashed fun part hpart => (hparts part hpart).isSegment]
  cases hfind : m.findPackageMap (slashed parts) with
  | none => simpa using neat_folder_slashed hparts
  | some e =>
    dsimp only
    rw [PackageMap.destFolder, neat_append (isFolder_folder _),
      (hdest e (mem_of_find hfind)).neat_folder_iff]
    simp [PackageMap.neat_remainder hparts (encloses_of_find hfind)]

/-- The specifier of a class of the same directory leads to its file. -/
theorem ModuleMap.normalize_sibling (m : ModuleMap) (d : String) {user sibling : String}
    (huser : IsPart user) (hsibling : IsPart sibling) :
    normalize (join (directory (m.tsFileName (join d (user ++ ".java"))).1)
      (Pass.siblingSpecifier sibling)) = normalize (m.outputFolder d ++ sibling) := by
  have hfolder := m.isFolder_outputFolder d
  have hslash : '/' ∉ (user ++ ".ts").toList := by simpa using huser.noSlash
  have hspecifier : isRooted (Pass.siblingSpecifier sibling) = false := by
    simp [Pass.siblingSpecifier, isRooted]
  have hname := hsibling.isName.downward.unrooted
  have hsegments : segments (Pass.siblingSpecifier sibling) = "." :: segments sibling := by
    have hslash := segments_append_slash "." sibling
    rwa [show segments "." = ["."] by decide] at hslash
  have hstep (place : Resolved) : place.step "." = place := if_pos (Or.inr rfl)
  rw [tsFileName_join huser, normalize_join_directory hfolder hslash hspecifier]
  refine normalize_congr ?_ ?_
  · rw [root_append hspecifier, root_append hname]
  · rw [resolve_append hfolder hspecifier, resolve_append hfolder hname, hsegments,
      List.foldl_cons, hstep]

end Output

/-! ### Resolved specifiers -/

section Specifier

variable {m : ModuleMap} {e : PackageMap} {parts : List String} {target : String}

theorem replaceChar_dotted (h : ∀ part ∈ parts, IsPart part) :
    Text.replaceChar '.' '/' (dotted parts) = slashed parts := by
  induction parts with
  | nil => rfl
  | cons first rest ih =>
    have hfirst : Text.replaceChar '.' '/' first = first :=
      Text.replaceChar_of_not_mem (h first List.mem_cons_self).noDot
    cases rest with
    | nil => simpa [dotted, slashed] using hfirst
    | cons second rest =>
      have hrest := ih fun part hpart => h part (List.mem_cons_of_mem _ hpart)
      rw [dotted, slashed, String.intercalate_cons_cons, String.intercalate_cons_cons,
        Text.replaceChar_append, Text.replaceChar_append, hfirst]
      exact congrArg (first ++ "/" ++ ·) hrest

/-- The place of a directory and its output folder have the same names. -/
theorem PackageMap.names_destFolder (hparts : ∀ part ∈ parts, IsSegment part)
    (h : e.encloses (slashed parts)) :
    names (e.destFolder (folder (slashed parts))) = names (e.place (slashed parts)) := by
  rw [destFolder, names_append (isFolder_folder _), names_folder, names_place]
  refine congrArg (names e.destPath ++ ·) ?_
  rw [remainder, remainder, names_dropWhile, names_dropWhile]
  by_cases hempty : parts = []
  · subst hempty
    rfl
  · have hlength : e.path.length ≤ (slashed parts).toList.length := by
      rw [← String.length_toList]
      exact (isPrefix_of_encloses h).length_le
    have hdrop : String.ofList ((folder (slashed parts)).toList.drop e.path.length)
        = String.ofList ((slashed parts).toList.drop e.path.length) ++ "/" ++ "" := by
      rw [folder_slashed hempty hparts, String.toList_append, List.drop_append_of_le_length hlength]
      simp
    rw [hdrop, names_append_slash, names_empty, List.append_nil]

/-- The specifier of a place leads there from the output files of a package. -/
theorem ModuleMap.normalize_specifier (hdest : ∀ e ∈ m.packageMaps, Downward e.destPath)
    (hparts : ∀ part ∈ parts, IsPart part) (hmapped : (m.findPackageMap (slashed parts)).isSome)
    (htarget : Downward target) (hne : target ≠ "") : ∃ specifier,
      Config.relativeSpecifier m (dotted parts) target = .ok specifier ∧
        isRooted specifier = false ∧
        normalize (m.outputFolder (slashed parts) ++ specifier) = normalize target := by
  have hnames : ∀ part ∈ parts, IsName part := fun part hpart => (hparts part hpart).isName
  have hsegment : ∀ part ∈ parts, IsSegment part := fun part hpart => (hnames part hpart).isSegment
  have hfolder := m.isFolder_outputFolder (slashed parts)
  have hdown := downward_outputFolder hdest hnames
  obtain ⟨e, hfind⟩ := Option.isSome_iff_exists.1 hmapped
  generalize hstart : (if e.place (slashed parts) = "" then "." else e.place (slashed parts)) = start
  -- The relative path is taken from a path that leads to the output folder.
  have hstartNames : names start = names (m.outputFolder (slashed parts)) := by
    rw [outputFolder_slashed hsegment, hfind]
    dsimp only
    rw [PackageMap.names_destFolder hsegment (encloses_of_find hfind), ← hstart]
    split
    · rename_i hempty
      rw [hempty]
      decide
    · rfl
  have hforward : Forward start := by
    refine ⟨?_, hstartNames ▸ hdown.forward.noParent⟩
    rw [← hstart]
    split
    · decide
    · exact PackageMap.unrooted_place (hdest e (mem_of_find hfind)).unrooted _
  have hplace : resolve (m.outputFolder (slashed parts)) = resolve start := by
    rw [hdown.forward.resolve, hforward.resolve, hstartNames]
  have hfollow := follow_relativeTo htarget.forward hforward
  generalize hrelative : relativeTo target start = relative at hfollow
  have hunrooted : isRooted (if relative.toList.head? = some '.' then relative
      else "./" ++ relative) = false := by
    split
    · rename_i hhead
      simp [isRooted, hhead]
    · simp [isRooted]
  refine ⟨if relative.toList.head? = some '.' then relative else "./" ++ relative, ?_, hunrooted, ?_⟩
  · rw [Config.relativeSpecifier, replaceChar_dotted hparts, hfind]
    simp only [hstart, if_neg hne, hrelative]
  · refine normalize_congr ?_ ?_
    · rw [root_append hunrooted, root_of_unrooted hdown.unrooted, root_of_unrooted htarget.unrooted]
    · rw [resolve_append hfolder hunrooted, hplace, ← hfollow]
      split
      · rfl
      · have hsegments := segments_append_slash "." relative
        rw [show segments "." = ["."] by decide] at hsegments
        have hstep (place : Resolved) : place.step "." = place := if_pos (Or.inr rfl)
        rw [show "./" ++ relative = "." ++ "/" ++ relative from rfl, hsegments, List.singleton_append,
          List.foldl_cons, hstep]

/-- The module of a name is the first that has a package map for it; a module's own names are
resolved relative to the importing package. -/
theorem Config.resolveName_own {modules : List ModuleMap} {name fromPackage : String}
    (hfirst : modules.find? (fun m =>
      (m.findPackageMap (Text.replaceChar '.' '/' name)).isSome) = some m)
    (hfind : m.findPackageMap (Text.replaceChar '.' '/' name) = some e) (isPackage : Bool) :
    resolveName modules name m.name fromPackage isPackage =
      some <$> Value.text <$> relativeSpecifier m fromPackage
        (placeOf e (Text.replaceChar '.' '/' name) isPackage) := by
  have howner : modules.findSome? (fun m =>
      (m.findPackageMap (Text.replaceChar '.' '/' name)).map (m, ·)) = some (m, e) := by
    obtain ⟨-, before, after, rfl, hbefore⟩ := List.find?_eq_some_iff_append.1 hfirst
    refine List.findSome?_eq_some_iff.2 ⟨before, m, after, rfl, by rw [hfind]; rfl, ?_⟩
    intro other hother
    have hnone := hbefore other hother
    simpa using hnone
  simp only [resolveName, howner, if_pos]

theorem Config.resolveName_of_first {modules : List ModuleMap} {fromPackage : String}
    (hparts : ∀ part ∈ parts, IsPart part)
    (hfirst : modules.find? (fun m => (m.findPackageMap (slashed parts)).isSome) = some m)
    (hfind : m.findPackageMap (slashed parts) = some e) :
    resolveName modules (dotted parts) m.name fromPackage false =
      some <$> Value.text <$> relativeSpecifier m fromPackage (e.place (slashed parts)) := by
  have hpath := replaceChar_dotted hparts
  rw [resolveName_own (by rw [hpath]; exact hfirst) (by rw [hpath]; exact hfind), hpath]
  rfl

/-- A class is placed in the output folder of its package, if the package map of its path is that of
its package. -/
theorem PackageMap.place_class {name : String} (hparts : ∀ part ∈ parts, IsPart part)
    (hname : IsPart name) (hfind : m.findPackageMap (slashed parts) = some e) :
    e.place (slashed (parts ++ [name])) = m.outputFolder (slashed parts) ++ name := by
  have hsegments : ∀ part ∈ parts, IsSegment part := fun part hpart =>
    (hparts part hpart).isName.isSegment
  have hencloses := ModuleMap.encloses_of_find hfind
  rw [← directory_folder_slashed hsegments] at hencloses
  rw [slashed_concat hsegments, place_append (isFolder_folder _) hencloses hname.ne_empty hname.noSlash,
    ModuleMap.outputFolder_slashed hsegments, hfind]

end Specifier

/-! ### Specifiers and output files -/

/-- Where a specifier leads from a file. -/
def destination (source specifier : String) : String :=
  normalize (join (directory source) specifier)

/-- Specifiers and output files agree. The specifier of a class leads from any file of a mapped
package to the class's output file, written without its ending, and so does the specifier of a class
of the same directory. It gives the very path of the file unless that has two slashes in a row,
from the directory of a package map. -/
theorem specifiers_lead_to_files {modules : List ModuleMap}
    (hdest : ∀ m ∈ modules, ∀ e ∈ m.packageMaps, Downward e.destPath) :
    ∀ m ∈ modules,
      (∀ p q user name, (∀ part ∈ p, IsPart part) → (∀ part ∈ q, IsPart part) → IsPart user →
        IsPart name → (m.findPackageMap (slashed p)).isSome →
        modules.find? (fun m => (m.findPackageMap (slashed (q ++ [name]))).isSome) = some m →
        m.findPackageMap (slashed (q ++ [name])) = m.findPackageMap (slashed q) →
        ∃ specifier file,
          Config.resolveName modules (dotted (q ++ [name])) m.name (dotted p) false
            = .ok (some (.text specifier)) ∧
          (m.tsFileName (join (slashed q) (name ++ ".java"))).1 = file ++ ".ts" ∧
          destination (m.tsFileName (join (slashed p) (user ++ ".java"))).1 specifier
            = normalize file ∧
          (normalize file = file ↔ ∀ e, m.findPackageMap (slashed q) = some e →
            ¬ ['/', '/'] <:+: e.destPath.toList)) ∧
      (∀ d user sibling, IsPart user → IsPart sibling →
        ∃ file, (m.tsFileName (join d (sibling ++ ".java"))).1 = file ++ ".ts" ∧
          destination (m.tsFileName (join d (user ++ ".java"))).1 (Pass.siblingSpecifier sibling)
            = normalize file ∧
          ∀ parts, (∀ part ∈ parts, IsName part) → d = slashed parts →
            (normalize file = file ↔ ∀ e, m.findPackageMap d = some e →
              ¬ ['/', '/'] <:+: e.destPath.toList)) := by
  intro m hm
  have hdest := hdest m hm
  constructor
  · intro p q user name hp hq huser hname hmapped hfirst hsame
    have hnames : ∀ part ∈ q, IsName part := fun part hpart => (hq part hpart).isName
    obtain ⟨e, hfind⟩ := Option.isSome_iff_exists.1 (by
      simpa using (List.find?_eq_some_iff_append.1 hfirst).1)
    have hplace := PackageMap.place_class hq hname (hsame ▸ hfind)
    have hdown : Downward (m.outputFolder (slashed q) ++ name) :=
      (ModuleMap.downward_outputFolder hdest hnames).append (m.isFolder_outputFolder _)
        hname.isName.downward
    have hne : m.outputFolder (slashed q) ++ name ≠ "" := fun hempty =>
      hname.ne_empty (String.append_eq_empty_iff.1 hempty).2
    obtain ⟨specifier, hspecifier, hunrooted, hnormal⟩ :=
      ModuleMap.normalize_specifier hdest hp hmapped hdown hne
    refine ⟨specifier, m.outputFolder (slashed q) ++ name, ?_, ?_, ?_,
      ModuleMap.normalize_output_iff hdest hnames hname.isName⟩
    · have hall : ∀ part ∈ q ++ [name], IsPart part := by
        simpa [or_imp, forall_and] using ⟨hq, hname⟩
      rw [Config.resolveName_of_first hall hfirst hfind, hplace, hspecifier]
      rfl
    · rw [ModuleMap.tsFileName_join hname, String.append_assoc]
    · have hslash : '/' ∉ (user ++ ".ts").toList := by simpa using huser.noSlash
      rw [destination, ModuleMap.tsFileName_join huser,
        normalize_join_directory (m.isFolder_outputFolder _) hslash hunrooted, hnormal]
  · intro d user sibling huser hsibling
    refine ⟨m.outputFolder d ++ sibling, ?_, m.normalize_sibling d huser hsibling, ?_⟩
    · rw [ModuleMap.tsFileName_join hsibling, String.append_assoc]
    · rintro parts hparts rfl
      exact ModuleMap.normalize_output_iff hdest hparts hsibling.isName

/-- A module with a package that has a directory of its own. -/
def layeredModule (destPath : String) : ModuleMap :=
  { name := "core", packageMaps := [⟨"com.acme.util", destPath⟩, ⟨"com.acme", ""⟩] }

theorem layeredModule_specifier : ∃ specifier file,
    Config.resolveName [layeredModule "lib/util/"] "com.acme.util.text.Words" "core" "com.acme.app"
      false = .ok (some (.text specifier)) ∧
    ((layeredModule "lib/util/").tsFileName "com/acme/util/text/Words.java").1 = file ++ ".ts" ∧
    destination ((layeredModule "lib/util/").tsFileName "com/acme/app/Main.java").1 specifier
      = file := by
  have hlead := @specifiers_lead_to_files [layeredModule "lib/util/"] (by decide +kernel) _
    (List.mem_singleton_self _)
  obtain ⟨specifier, file, hspecifier, hfile, hdestination, hnormal⟩ :=
    hlead.1 ["com", "acme", "app"] ["com", "acme", "util", "text"] "Main" "Words"
      (by decide +kernel) (by decide +kernel) (by decide +kernel) (by decide +kernel)
      (by decide +kernel) rfl rfl
  have hplain : normalize file = file := hnormal.2 fun e he => by
    obtain rfl : (⟨"com.acme.util", "lib/util/"⟩ : PackageMap) = e := Option.some.inj he
    decide
  exact ⟨specifier, file, hspecifier, hfile, hdestination.trans hplain⟩

/-- Two slashes in a row stay in the name of an output file. Its specifier leads to the file but
does not give its path. -/
theorem layeredModule_double_slash :
    (∀ e ∈ (layeredModule "lib//util").packageMaps, Downward e.destPath) ∧
    (layeredModule "lib//util").findPackageMap "com/acme/util/Words"
      = (layeredModule "lib//util").findPackageMap "com/acme/util" ∧
    Config.resolveName [layeredModule "lib//util"] "com.acme.util.Words" "core" "com.acme.util" false
      = .ok (some (.text "./Words")) ∧
    ((layeredModule "lib//util").tsFileName "com/acme/util/Words.java").1 = "lib//util/Words.ts" ∧
    destination ((layeredModule "lib//util").tsFileName "com/acme/util/Main.java").1 "./Words"
      = "lib/util/Words" := by
  exact ⟨by decide +kernel, by decide +kernel, by rfl, by decide +kernel, by decide +kernel⟩

end Recast
