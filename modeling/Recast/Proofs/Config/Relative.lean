import Mathlib
import Recast.Proofs.Config.Placement

/-!
Relative specifiers.

A specifier is relative if its first segment is `.` or `..`. The resolver looks for a relative path
and puts `./` before it unless it starts with a dot already, and so do the names of hidden
directories. The path to a place is `.`, or goes up, or goes down by a first name
(`stepsFrom_forward`); hence a specifier of the importing module is relative unless the place lies
below that of the importing package by way of a hidden name (`isRelative_withDot_iff`). Java names
have no dots, so the name is one of the destination directory of a package map.
-/

namespace Recast

namespace SlashPath

variable {target start path : String}

/-! ### From one forward place to another -/

theorem dropCommon_append (common ahead : List String) :
    dropCommon (common ++ ahead) common = (ahead, []) := by
  induction common with
  | nil => cases ahead <;> rfl
  | cons first rest ih => simp [dropCommon, ih]

/-- Between forward places, one goes up from the names of the start that the target does not have,
and then down by the names of the target. -/
theorem stepsFrom_forward (htarget : Forward target) (hstart : Forward start) :
    (resolve target).stepsFrom (resolve start) =
      ((dropCommon (names target) (names start)).2.map fun _ => "..") ++
        (dropCommon (names target) (names start)).1 := by
  simp [Resolved.stepsFrom, htarget.resolve, hstart.resolve]

/-- The empty path and `.` have the same names. -/
theorem names_orSelf (path : String) : names (if path = "" then "." else path) = names path := by
  split
  · next hempty =>
    rw [hempty]
    decide
  · rfl

theorem Forward.orSelf (h : Forward path) : Forward (if path = "" then "." else path) := by
  refine ⟨?_, by rw [names_orSelf]; exact h.noParent⟩
  split
  · decide
  · exact h.unrooted

/-! ### Relative specifiers -/

/-- Whether a specifier leads from the directory of the file in which it stands. -/
def IsRelative (specifier : String) : Prop :=
  specifier = "." ∨ specifier = ".." ∨ "./".toList <+: specifier.toList ∨
    "../".toList <+: specifier.toList

instance (specifier : String) : Decidable (IsRelative specifier) :=
  inferInstanceAs (Decidable (_ ∨ _ ∨ _ ∨ _))

theorem segments_of_isPrefix {first specifier : String} (hfirst : '/' ∉ first.toList)
    (h : (first ++ "/").toList <+: specifier.toList) :
    (segments specifier).head? = some first := by
  obtain ⟨rest, hrest⟩ := h
  have hsplit : specifier = first ++ "/" ++ String.ofList rest := by
    rw [← String.toList_inj, ← hrest]
    simp
  rw [hsplit, segments_append_slash, segments_of_slashless hfirst]
  rfl

theorem eq_or_isPrefix_of_head? {first specifier : String}
    (h : (segments specifier).head? = some first) :
    specifier = first ∨ (first ++ "/").toList <+: specifier.toList := by
  obtain ⟨rest, hrest⟩ := List.head?_eq_some_iff.1 h
  have hjoin := intercalate_segments specifier
  rw [hrest] at hjoin
  cases rest with
  | nil => exact .inl (by simpa using hjoin.symm)
  | cons second rest =>
    right
    rw [String.intercalate_cons_cons] at hjoin
    rw [← hjoin]
    exact ⟨("/".intercalate (second :: rest)).toList, by simp⟩

/-- A specifier is relative if its first segment is `.` or `..`. -/
theorem isRelative_iff (specifier : String) :
    IsRelative specifier ↔
      (segments specifier).head? = some "." ∨ (segments specifier).head? = some ".." := by
  constructor
  · rintro (rfl | rfl | hself | hparent)
    · exact .inl (by decide)
    · exact .inr (by decide)
    · exact .inl (segments_of_isPrefix (by decide) hself)
    · exact .inr (segments_of_isPrefix (by decide) hparent)
  · rintro (hself | hparent)
    · rcases eq_or_isPrefix_of_head? hself with heq | hprefix
      · exact .inl heq
      · exact .inr (.inr (.inl hprefix))
    · rcases eq_or_isPrefix_of_head? hparent with heq | hprefix
      · exact .inr (.inl heq)
      · exact .inr (.inr (.inr hprefix))

/-! ### Hidden directories -/

/-- Whether a name begins with a dot. -/
def IsHidden (name : String) : Prop := name.toList.head? = some '.'

instance (name : String) : Decidable (IsHidden name) :=
  inferInstanceAs (Decidable (_ = _))

/-- Whether a place lies below another, and the first name on the way down is hidden. -/
def EntersHidden (start target : String) : Prop :=
  ∃ name rest, names target = names start ++ name :: rest ∧ IsHidden name

/-- A relative path with `./` before it, unless it starts with a dot already. -/
def withDot (relative : String) : String :=
  if relative.toList.head? = some '.' then relative else "./" ++ relative

theorem isRelative_slash (relative : String) : IsRelative ("./" ++ relative) :=
  .inr (.inr (.inl ⟨relative.toList, by simp⟩))

theorem head?_intercalate {name : String} (hname : name ≠ "") (rest : List String) :
    ("/".intercalate (name :: rest)).toList.head? = name.toList.head? := by
  obtain ⟨c, chars, hchars⟩ := List.exists_cons_of_ne_nil (mt String.toList_eq_nil_iff.1 hname)
  cases rest with
  | nil => simp
  | cons second rest =>
    rw [String.intercalate_cons_cons]
    simp [hchars]

/-- The path from one forward place to another, with its dot, is relative unless it enters a hidden
directory at once. -/
theorem isRelative_withDot_iff (htarget : Forward target) (hstart : Forward start) :
    IsRelative (withDot (relativeTo target start)) ↔ ¬ EntersHidden start target := by
  have hsteps := stepsFrom_forward htarget hstart
  obtain ⟨common, hahead, hback⟩ := dropCommon_spec (names target) (names start)
  generalize hsplit : dropCommon (names target) (names start) = split at hsteps hahead hback
  obtain ⟨ahead, back⟩ := split
  have henters : EntersHidden start target ↔
      ∃ name rest, ahead = name :: rest ∧ back = [] ∧ IsHidden name := by
    constructor
    · rintro ⟨name, rest, hnames, hhidden⟩
      rw [hnames, dropCommon_append] at hsplit
      obtain ⟨rfl, rfl⟩ := Prod.mk.inj hsplit
      exact ⟨name, rest, rfl, rfl, hhidden⟩
    · rintro ⟨name, rest, rfl, rfl, hhidden⟩
      rw [List.append_nil] at hback
      exact ⟨name, rest, by rw [hahead, hback], hhidden⟩
  rw [relativeTo, hsteps]
  cases back with
  | cons last back =>
    -- The path goes up first.
    have hslashless : ∀ step ∈ ".." :: (back.map (fun _ => "..") ++ ahead), '/' ∉ step.toList := by
      intro step hstep
      rcases List.mem_cons.1 hstep with rfl | hstep
      · decide
      · rcases List.mem_append.1 hstep with hparent | hname
        · obtain ⟨-, -, rfl⟩ := List.mem_map.1 hparent
          decide
        · refine @slashless_of_mem_names target _ ?_
          rw [hahead]
          exact List.mem_append_right _ hname
    have hhead := head?_intercalate (show ".." ≠ "" by decide) (back.map (fun _ => "..") ++ ahead)
    constructor
    · intro _ hhidden
      obtain ⟨-, -, -, hnil, -⟩ := henters.1 hhidden
      cases hnil
    · intro _
      simp only [List.map_cons, List.cons_append, withDot]
      rw [if_pos (by rw [hhead]; rfl), isRelative_iff,
        segments_intercalate (List.cons_ne_nil _ _) hslashless]
      exact .inr rfl
  | nil =>
    cases ahead with
    | nil =>
      constructor
      · intro _ hhidden
        obtain ⟨_, _, hnil, -⟩ := henters.1 hhidden
        cases hnil
      · intro _
        decide
    | cons name rest =>
      have hmem : ∀ step ∈ name :: rest, step ∈ names target := by
        intro step hstep
        rw [hahead]
        exact List.mem_append_right _ hstep
      have hname : name ≠ "" ∧ name ≠ "." := by
        simpa using (List.mem_filter.1 (hmem name List.mem_cons_self)).2
      have hparent : name ≠ ".." := fun heq =>
        htarget.noParent (heq ▸ hmem name List.mem_cons_self)
      have hhead := head?_intercalate hname.1 rest
      simp only [List.map_nil, List.nil_append, withDot, hhead]
      by_cases hhidden : name.toList.head? = some '.'
      · rw [if_pos hhidden, isRelative_iff, segments_intercalate (List.cons_ne_nil _ _)
          fun step hstep => slashless_of_mem_names (hmem step hstep)]
        refine iff_of_false ?_ (not_not_intro (henters.2 ⟨name, rest, rfl, rfl, hhidden⟩))
        simp [hname.2, hparent]
      · rw [if_neg hhidden]
        refine iff_of_true (isRelative_slash _) fun henter => ?_
        obtain ⟨other, after, heq, -, hother⟩ := henters.1 henter
        obtain ⟨rfl, -⟩ := List.cons.inj heq
        exact hhidden hother

end SlashPath

open SlashPath

/-! ### Places of Java names -/

section Places

variable {e : PackageMap} {javaPath : String}

theorem Text.not_mem_replaceChar (text : String) : '.' ∉ (replaceChar '.' '/' text).toList := by
  intro hmem
  rw [replaceChar, String.toList_ofList] at hmem
  obtain ⟨c, -, hc⟩ := List.mem_map.1 hmem
  split at hc
  · cases hc
  · next hne => exact hne hc

/-- The names of a place that are hidden are those of the package's directory. -/
theorem PackageMap.mem_destPath_of_isHidden (hpath : '.' ∉ javaPath.toList) {name : String}
    (hname : name ∈ names (e.place javaPath)) (hdot : '.' ∈ name.toList) :
    name ∈ names e.destPath := by
  rw [names_place, List.mem_append] at hname
  refine hname.resolve_right fun hremainder => ?_
  have hchar := (char_of_mem_segments (List.mem_of_mem_filter hremainder) hdot).1
  exact hpath (char_of_mem_remainder hchar)

theorem PackageMap.forward_place (hdest : Downward e.destPath) (hpath : '.' ∉ javaPath.toList) :
    Forward (e.place javaPath) where
  unrooted := unrooted_place hdest.unrooted javaPath
  noParent := fun hmem => hdest.forward.noParent
    (mem_destPath_of_isHidden hpath hmem (by decide))

theorem Config.names_placeOf (e : PackageMap) (javaPath : String) (isPackage : Bool) :
    names (placeOf e javaPath isPackage) =
      names (e.place javaPath) ++ if isPackage then ["index"] else [] := by
  have hindex : isRooted "index" = false := by decide
  unfold placeOf
  cases isPackage with
  | false => simp
  | true =>
    simp only [if_true]
    split
    · next hempty =>
      rw [hempty]
      decide
    · rw [join_eq hindex, names_append (isFolder_folder _), names_folder]
      rfl

theorem Config.forward_placeOf (hdest : Downward e.destPath) (hpath : '.' ∉ javaPath.toList)
    (isPackage : Bool) : Forward (placeOf e javaPath isPackage) := by
  have hplace := PackageMap.forward_place hdest hpath
  refine ⟨?_, ?_⟩
  · unfold placeOf
    cases isPackage with
    | false => simpa using hplace.unrooted
    | true =>
      simp only [if_true]
      split
      · decide
      · next hne =>
        rw [join, if_neg (by decide)]
        split
        · rw [isRooted_append hne]
          exact hplace.unrooted
        · rw [String.append_assoc, isRooted_append hne]
          exact hplace.unrooted
  · rw [names_placeOf, List.mem_append, not_or]
    refine ⟨hplace.noParent, ?_⟩
    cases isPackage <;> decide

end Places

/-! ### Resolved names -/

theorem Config.relativeSpecifier_eq {m : ModuleMap} {e : PackageMap} {fromPackage : String}
    (hfind : m.findPackageMap (Text.replaceChar '.' '/' fromPackage) = some e) (target : String) :
    relativeSpecifier m fromPackage target = .ok (withDot (relativeTo
      (if target = "" then "." else target)
      (if e.place (Text.replaceChar '.' '/' fromPackage) = "" then "."
        else e.place (Text.replaceChar '.' '/' fromPackage)))) := by
  rw [relativeSpecifier, hfind]
  rfl

/-- A name of the importing module is imported by a relative specifier, unless its place lies below
that of the importing package and the first directory on the way down is hidden. Then the specifier
starts with that directory, as the name of another module would. The hidden directory is one that
the configuration names for the package of the import. -/
theorem isRelative_resolveName_iff {modules : List ModuleMap} {m : ModuleMap}
    {name fromModule fromPackage : String} {isPackage : Bool} {specifier : Option Word}
    (hdest : ∀ m ∈ modules, ∀ e ∈ m.packageMaps, Downward e.destPath)
    (hfirst : modules.find? (fun m =>
      (m.findPackageMap (Text.replaceChar '.' '/' name)).isSome) = some m)
    (hown : m.name = fromModule)
    (hok : Config.resolveName modules name fromModule fromPackage isPackage = .ok specifier) :
    ∃ e start text, m.findPackageMap (Text.replaceChar '.' '/' name) = some e ∧
      m.findPackageMap (Text.replaceChar '.' '/' fromPackage) = some start ∧
      specifier = some (.text text) ∧
      (IsRelative text ↔ ¬ EntersHidden (start.place (Text.replaceChar '.' '/' fromPackage))
        (Config.placeOf e (Text.replaceChar '.' '/' name) isPackage)) ∧
      ((∀ directory ∈ names e.destPath, ¬ IsHidden directory) → IsRelative text) := by
  obtain ⟨hsome, before, after, hmodules, -⟩ := List.find?_eq_some_iff_append.1 hfirst
  have hm : m ∈ modules := by
    rw [hmodules]
    exact List.mem_append_right _ List.mem_cons_self
  obtain ⟨e, hfind⟩ := Option.isSome_iff_exists.1 hsome
  subst hown
  rw [Config.resolveName_own hfirst hfind] at hok
  cases hstart : m.findPackageMap (Text.replaceChar '.' '/' fromPackage) with
  | none =>
    rw [Config.relativeSpecifier, hstart] at hok
    cases hok
  | some start =>
    rw [Config.relativeSpecifier_eq hstart] at hok
    have hdestOf {other : PackageMap} {path : String} (h : m.findPackageMap path = some other) :
        Downward other.destPath := hdest m hm other (ModuleMap.mem_of_find h)
    have htarget := Config.forward_placeOf (hdestOf hfind) (Text.not_mem_replaceChar name) isPackage
    have hplace := PackageMap.forward_place (hdestOf hstart) (Text.not_mem_replaceChar fromPackage)
    have hiff := isRelative_withDot_iff htarget.orSelf hplace.orSelf
    rw [EntersHidden, names_orSelf, names_orSelf, ← EntersHidden] at hiff
    refine ⟨e, start, _, hfind, rfl, (Except.ok.inj hok).symm, hiff, fun hvisible => hiff.2 ?_⟩
    rintro ⟨directory, rest, hnames, hhidden⟩
    have hdot : '.' ∈ directory.toList := List.mem_of_head? hhidden
    have hmem : directory ∈ names (Config.placeOf e (Text.replaceChar '.' '/' name) isPackage) := by
      rw [hnames]
      simp
    rw [Config.names_placeOf, List.mem_append] at hmem
    rcases hmem with hmem | hindex
    · exact hvisible directory (PackageMap.mem_destPath_of_isHidden
        (Text.not_mem_replaceChar name) hmem hdot) hhidden
    · cases isPackage with
      | false => simp at hindex
      | true =>
        obtain rfl : directory = "index" := by simpa using hindex
        exact absurd hhidden (by decide)

/-- A module with a package that goes to a hidden directory. -/
def hiddenModule : ModuleMap :=
  { name := "core", packageMaps := [⟨"com.acme.gen", ".gen"⟩, ⟨"com.acme", ""⟩] }

/-- The first entry of `hiddenModule` leads to the hidden directory. -/
theorem resolveName_hiddenModule {fromPackage relative : String} {start : PackageMap}
    (hstart : hiddenModule.findPackageMap (Text.replaceChar '.' '/' fromPackage) = some start)
    (hrelative : withDot (relativeTo ".gen/Words"
      (if start.place (Text.replaceChar '.' '/' fromPackage) = "" then "."
        else start.place (Text.replaceChar '.' '/' fromPackage))) = relative) :
    Config.resolveName [hiddenModule] "com.acme.gen.Words" "core" fromPackage false =
      .ok (some (.text relative)) := by
  have hfind : hiddenModule.findPackageMap (Text.replaceChar '.' '/' "com.acme.gen.Words") =
      some ⟨"com.acme.gen", ".gen"⟩ := by decide +kernel
  have hfirst : [hiddenModule].find? (fun m => (m.findPackageMap
      (Text.replaceChar '.' '/' "com.acme.gen.Words")).isSome) = some hiddenModule :=
    List.find?_cons_of_pos (by rw [hfind]; rfl)
  have hplace : Config.placeOf ⟨"com.acme.gen", ".gen"⟩
      (Text.replaceChar '.' '/' "com.acme.gen.Words") false = ".gen/Words" := by decide +kernel
  rw [show "core" = hiddenModule.name from rfl, Config.resolveName_own hfirst hfind,
    Config.relativeSpecifier_eq hstart, hplace, if_neg (by decide), hrelative]
  rfl

/-- Inside the hidden directory, specifiers are relative. -/
theorem isRelative_hiddenModule :
    Config.resolveName [hiddenModule] "com.acme.gen.Words" "core" "com.acme.gen.text" false =
      .ok (some (.text "../Words")) ∧ IsRelative "../Words" := by
  have hentry : ∀ name ∈ ["com.acme.gen.Words", "com.acme.gen.text"],
      hiddenModule.findPackageMap (Text.replaceChar '.' '/' name) = some ⟨"com.acme.gen", ".gen"⟩ := by
    decide +kernel
  have hok : Config.resolveName [hiddenModule] "com.acme.gen.Words" "core" "com.acme.gen.text"
      false = .ok (some (.text "../Words")) :=
    resolveName_hiddenModule (hentry _ (by simp)) (by decide +kernel)
  have hfirst : [hiddenModule].find? (fun m => (m.findPackageMap
      (Text.replaceChar '.' '/' "com.acme.gen.Words")).isSome) = some hiddenModule :=
    List.find?_cons_of_pos (by rw [hentry _ (by simp)]; rfl)
  refine ⟨hok, ?_⟩
  obtain ⟨e, start, text, hfind, hstart, hspecifier, hrelative, -⟩ :=
    isRelative_resolveName_iff (by decide +kernel) hfirst rfl hok
  obtain rfl : "../Words" = text := by simpa using hspecifier
  rw [hentry _ (by simp)] at hfind hstart
  cases hfind
  cases hstart
  rw [hrelative]
  rintro ⟨directory, rest, hnames, -⟩
  have hstartNames : names (PackageMap.place ⟨"com.acme.gen", ".gen"⟩
      (Text.replaceChar '.' '/' "com.acme.gen.text")) = [".gen", "text"] := by decide +kernel
  have htargetNames : names (Config.placeOf ⟨"com.acme.gen", ".gen"⟩
      (Text.replaceChar '.' '/' "com.acme.gen.Words") false) = [".gen", "Words"] := by
    decide +kernel
  rw [hstartNames, htargetNames] at hnames
  simp at hnames

/-- From outside, the specifier of a class in the hidden directory names the directory. -/
theorem hiddenModule_not_isRelative :
    (∀ e ∈ hiddenModule.packageMaps, Downward e.destPath) ∧
    [hiddenModule].find? (fun m => (m.findPackageMap
      (Text.replaceChar '.' '/' "com.acme.gen.Words")).isSome) = some hiddenModule ∧
    Config.resolveName [hiddenModule] "com.acme.gen.Words" "core" "com.acme" false =
      .ok (some (.text ".gen/Words")) ∧
    ¬ IsRelative ".gen/Words" := by
  have hfind : hiddenModule.findPackageMap (Text.replaceChar '.' '/' "com.acme") =
      some ⟨"com.acme", ""⟩ := by decide +kernel
  have hrelative := @resolveName_hiddenModule "com.acme" ".gen/Words" _ hfind (by decide +kernel)
  exact ⟨by decide +kernel, List.find?_cons_of_pos (by decide +kernel), hrelative, by decide⟩

end Recast
