import Mathlib
import Recast.Proofs.Config.Placement

/-!
Output files kept apart.

Files of one run must not be written over each other. A file goes to the output folder of its
directory and keeps its stem (`SourceFile.tsFileName_path`), so what matters is that two directories
do not share a folder. What a package map leaves of a directory are the segments behind its own
(`PackageMap.exists_below`), and it puts these behind the same text each time. Hence it never sends
two directories to one folder (`ModuleMap.outputFolder_injective`); only two package maps can, with
destinations that overlap.
-/

namespace Recast

open SlashPath

/-- A Java file below the source root. -/
structure SourceFile where
  /-- The segments of the directory. -/
  parts : List String
  /-- The name without `.java`. -/
  name : String
  parts_isSegment : ∀ part ∈ parts, IsSegment part
  noDot : '.' ∉ name.toList
  noSlash : '/' ∉ name.toList
  noBackslash : '\\' ∉ name.toList

namespace SourceFile

/-- The path of the file from the source root. -/
def path (f : SourceFile) : String := slashed (f.parts ++ [f.name ++ ".java"])

theorem path_eq (f : SourceFile) : f.path = join (slashed f.parts) (f.name ++ ".java") := by
  have hunrooted : isRooted (f.name ++ ".java") = false := by
    rw [isRooted, decide_eq_false_iff_not]
    intro hhead
    have hslash : '/' ∈ (f.name ++ ".java").toList := List.mem_of_head? hhead
    exact f.noSlash (by simpa using hslash)
  rw [path, slashed_concat f.parts_isSegment, join_eq hunrooted]

end SourceFile

/-! ### Stems -/

namespace SlashPath

/-- A name without dots is its own stem; a file name that starts with its only dot has no
extension. -/
theorem stem_java_eq {name : String} (hdot : '.' ∉ name.toList) :
    stem (name ++ ".java") = if name = "" then ".java" else name := by
  split
  · next hempty =>
    rw [hempty]
    decide
  · next hne => exact stem_java hne hdot

theorem stem_java_injective {a b : String} (ha : '.' ∉ a.toList) (hb : '.' ∉ b.toList)
    (h : stem (a ++ ".java") = stem (b ++ ".java")) : a = b := by
  have hdot : '.' ∈ ".java".toList := by decide
  rw [stem_java_eq ha, stem_java_eq hb] at h
  split at h
  · next hempty =>
    split at h
    · next hempty' => rw [hempty, hempty']
    · exact absurd (h ▸ hdot) hb
  · split at h
    · exact absurd (h ▸ hdot) ha
    · exact h

theorem slash_not_mem_stem {name : String} (hdot : '.' ∉ name.toList) (hslash : '/' ∉ name.toList) :
    '/' ∉ (stem (name ++ ".java")).toList := by
  rw [stem_java_eq hdot]
  split
  · decide
  · exact hslash

end SlashPath

/-! ### Folders -/

section Folders

variable {m : ModuleMap} {parts parts' : List String}

theorem folder_slashed_injective (hparts : ∀ part ∈ parts, IsSegment part)
    (hparts' : ∀ part ∈ parts', IsSegment part)
    (h : folder (slashed parts) = folder (slashed parts')) : parts = parts' := by
  have hsegments := congrArg segments h
  rw [segments_folder_slashed hparts, segments_folder_slashed hparts'] at hsegments
  exact List.append_cancel_right hsegments

/-- A package map puts two directories in two folders. -/
theorem PackageMap.destFolder_injective {e : PackageMap} (hparts : ∀ part ∈ parts, IsSegment part)
    (hparts' : ∀ part ∈ parts', IsSegment part) (hencloses : e.encloses (slashed parts))
    (hencloses' : e.encloses (slashed parts'))
    (h : e.destFolder (folder (slashed parts)) = e.destFolder (folder (slashed parts'))) :
    parts = parts' := by
  obtain ⟨below, rfl, hremainder⟩ := exists_below hparts hencloses
  obtain ⟨below', rfl, hremainder'⟩ := exists_below hparts' hencloses'
  rw [destFolder, destFolder, hremainder, hremainder', String.append_right_inj] at h
  have hbelow := folder_slashed_injective
    (fun part hpart => hparts part (List.mem_append_right _ hpart))
    (fun part hpart => hparts' part (List.mem_append_right _ hpart)) h
  rw [hbelow]

theorem ModuleMap.outputFolder_injective (hparts : ∀ part ∈ parts, IsSegment part)
    (hparts' : ∀ part ∈ parts', IsSegment part)
    (hentry : m.findPackageMap (slashed parts) = m.findPackageMap (slashed parts'))
    (h : m.outputFolder (slashed parts) = m.outputFolder (slashed parts')) : parts = parts' := by
  rw [outputFolder_slashed hparts, outputFolder_slashed hparts', ← hentry] at h
  cases hfind : m.findPackageMap (slashed parts) with
  | none =>
    rw [hfind] at h
    exact folder_slashed_injective hparts hparts' h
  | some e =>
    rw [hfind] at h hentry
    exact PackageMap.destFolder_injective hparts hparts' (encloses_of_find hfind)
      (encloses_of_find hentry.symm) h

end Folders

/-! ### Output files -/

namespace ModuleMap

/-- The package map that places a Java file. -/
def entryFor (m : ModuleMap) (javaFile : String) : Option PackageMap :=
  m.findPackageMap (directory (Text.replaceChar '\\' '/' javaFile))

theorem tsFileName_eq (m : ModuleMap) (javaFile : String) :
    m.tsFileName javaFile = match m.entryFor javaFile with
      | none => (withExtension (Text.replaceChar '\\' '/' javaFile) "ts", false)
      | some e => (withExtension (e.place (Text.replaceChar '\\' '/' javaFile)) "ts", true) := rfl

variable {m : ModuleMap} {f g : SourceFile}

theorem tsFileName_path (m : ModuleMap) (f : SourceFile) :
    (m.tsFileName f.path).1 =
      m.outputFolder (slashed f.parts) ++ (stem (f.name ++ ".java") ++ ".ts") := by
  rw [f.path_eq, tsFileName_file (isSegment_java f.noSlash f.noBackslash)]

theorem entryFor_path (m : ModuleMap) (f : SourceFile) :
    m.entryFor f.path = m.findPackageMap (slashed f.parts) := by
  have hname := isSegment_java f.noSlash f.noBackslash
  have hkeep : Text.replaceChar '\\' '/' f.path = f.path := by
    refine Text.replaceChar_of_not_mem fun hmem => ?_
    rcases char_of_mem_slashed hmem with hslash | ⟨part, hpart, hin⟩
    · exact absurd hslash (by decide)
    · rcases List.mem_append.1 hpart with hpart | hpart
      · exact (f.parts_isSegment part hpart).noBackslash hin
      · rw [List.mem_singleton.1 hpart] at hin
        exact hname.noBackslash hin
  have hdirectory : directory f.path = slashed f.parts := by
    rw [SourceFile.path, slashed_concat f.parts_isSegment,
      directory_append (isFolder_folder _) hname.noSlash,
      ← directory_of_isFolder (isFolder_folder _), directory_folder_slashed f.parts_isSegment]
  rw [entryFor, hkeep, hdirectory]

/-- Two files that one package map places, or that none does, have two output files. -/
theorem tsFileName_ne (hne : f.path ≠ g.path) (hentry : m.entryFor f.path = m.entryFor g.path) :
    (m.tsFileName f.path).1 ≠ (m.tsFileName g.path).1 := by
  intro hout
  have hslash (f : SourceFile) : '/' ∉ (stem (f.name ++ ".java") ++ ".ts").toList := by
    simpa using slash_not_mem_stem f.noDot f.noSlash
  rw [tsFileName_path, tsFileName_path] at hout
  have hfile := congrArg fileName hout
  rw [fileName_append (m.isFolder_outputFolder _) (hslash f),
    fileName_append (m.isFolder_outputFolder _) (hslash g)] at hfile
  have hname := stem_java_injective f.noDot g.noDot (String.append_left_inj _ |>.1 hfile)
  rw [hfile, String.append_left_inj] at hout
  rw [entryFor_path, entryFor_path] at hentry
  have hparts := outputFolder_injective f.parts_isSegment g.parts_isSegment hentry hout
  exact hne (by rw [SourceFile.path, SourceFile.path, hparts, hname])

/-- Files of one name in a package and in a package below it. -/
theorem tsFileName_wordsFiles :
    ((layeredModule "lib/util/").tsFileName "com/acme/util/Words.java").1 ≠
      ((layeredModule "lib/util/").tsFileName "com/acme/util/text/Words.java").1 := by
  let words (parts : List String) (hparts : ∀ part ∈ parts, IsSegment part) : SourceFile :=
    ⟨parts, "Words", hparts, by decide, by decide, by decide⟩
  exact @tsFileName_ne (layeredModule "lib/util/") (words ["com", "acme", "util"] (by decide))
    (words ["com", "acme", "util", "text"] (by decide)) (by decide +kernel) (by decide +kernel)

/-- Two package maps may share a folder. -/
example : (layeredModule "text").tsFileName "com/acme/util/Words.java" =
    (layeredModule "text").tsFileName "com/acme/text/Words.java" := by decide +kernel

end ModuleMap

end Recast
