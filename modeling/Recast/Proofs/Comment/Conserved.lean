import Mathlib
import Recast.Proofs.Pass.Select
import Recast.Proofs.Reading
import Recast.Transpile

/-!
No comment is lost on the way from the source to the renderer.

A unit is read without comments; those of the text are attached; imports are selected; passes run.
The first two steps leave each comment in a place that the others spare, as long as no annotation
holds a block or a body in which comments could stand (`hushed_of_placed`). So the lowered unit holds
the comments that scanning the text finds, each as often as it occurs there.
-/

namespace Recast

namespace Tree

theorem isQuiet_node {trivia : Trivia} {form : Form Tree} :
    (node trivia form).isQuiet = true ↔
      form.isContainer = false ∧ ∀ child ∈ form.children, child.isQuiet = true := by
  simp only [isQuiet, walk_node, List.all_cons, List.all_flatMap, form_node, Bool.and_eq_true,
    Bool.not_eq_true', List.all_eq_true]

/-- A tree without containers, whose root has no leading comment, has no comments at all. -/
theorem bag_of_isQuiet {t : Tree} (hquiet : t.isQuiet) (hplaced : t.Everywhere Placed)
    (hlead : t.comment = none) : t.bag = 0 := by
  induction t using induct with
  | step trivia form ih =>
    obtain ⟨hform, hchildren⟩ := isQuiet_node.1 hquiet
    obtain ⟨hself, hbelow⟩ := everywhere_node.1 hplaced
    have horphans : trivia.orphans = [] := by
      by_contra hne
      have hcontainer : form.isContainer = true := hself.orphans hne
      rw [hform] at hcontainer
      cases hcontainer
    have hcomment : trivia.comment = none := hlead
    refine bag_eq_zero_iff.2 ⟨by simp [Trivia.comments, hcomment, horphans], ?_⟩
    intro child hchild
    have hside : child ∈ form.sideChildren := by rwa [Form.sideChildren_eq_children hform]
    exact ih child hchild (hchildren child hchild) (hbelow child hchild) (hself.leads child hside)

/-- Types hold types only, and so no containers. -/
theorem isQuiet_of_isType {t : Tree} (horderly : t.Everywhere fun node => node.form.Orderly)
    (htype : t.form.isType) : t.isQuiet := by
  induction t using induct with
  | step trivia form ih =>
    cases form with
    | type form =>
      obtain ⟨hself, hbelow⟩ := everywhere_node.1 horderly
      refine isQuiet_node.2 ⟨rfl, fun child hchild => ?_⟩
      exact ih child hchild (hbelow child hchild) (hself.types child hchild)
    | _ => cases htype

theorem isQuiet_of_isSilent {t : Tree} (horderly : t.Everywhere fun node => node.form.Orderly)
    (hplain : t.Everywhere fun node => node.form.annotationArguments.all isQuiet)
    (hsilent : t.form.isSilent) : t.isQuiet := by
  obtain ⟨trivia, form⟩ := t
  cases form with
  | type form => exact isQuiet_of_isType horderly rfl
  | part form =>
    cases form with
    | annotationUse name arguments =>
      refine isQuiet_node.2 ⟨rfl, ?_⟩
      simpa [Form.annotationArguments, Form.children, PartForm.children] using hplain.self
    | _ => cases hsilent
  | _ => cases hsilent

/-- A node that does not stand on lines of its own is no container. -/
theorem isContainer_of_isValue {form : Form Tree} (h : form.isValue) : form.isContainer = false := by
  cases form with
  | expr form => rfl
  | foreign kind => rfl
  | _ => cases h

/-- Comments that were attached to a unit stand where passes do not touch them. -/
theorem hushed_of_placed {t : Tree} (hplaced : t.Everywhere Placed)
    (horderly : t.Everywhere fun node => node.form.Orderly)
    (hplain : t.Everywhere fun node => node.form.annotationArguments.all isQuiet)
    (hlead : t.form.isLine = false → t.comment = none) : t.Everywhere Hushed := by
  induction t using induct with
  | step trivia form ih =>
    obtain ⟨hself, hbelow⟩ := everywhere_node.1 hplaced
    obtain ⟨hslots, hbelowOrderly⟩ := everywhere_node.1 horderly
    obtain ⟨-, hbelowPlain⟩ := everywhere_node.1 hplain
    have hleads : ∀ child ∈ form.children, child.form.isLine = false → child.comment = none := by
      intro child hchild hnot
      rw [form.children_eq_side_append_line, List.mem_append] at hchild
      rcases hchild with hside | hline
      · exact hself.leads child hside
      · have hisLine := hslots.lines child hline
        simp [hnot] at hisLine
    refine everywhere_node.2 ⟨⟨?_, ?_, ?_⟩, ?_⟩
    · intro hsilent
      refine bag_of_isQuiet (isQuiet_of_isSilent horderly hplain hsilent) hplaced (hlead ?_)
      cases form with
      | type form => rfl
      | part form => cases form <;> first | rfl | cases hsilent
      | _ => cases hsilent
    · intro hvalue
      have horphans : trivia.orphans = [] := by
        by_contra hne
        have hcontainer := hself.orphans hne
        rw [isContainer_of_isValue hvalue] at hcontainer
        cases hcontainer
      have hcomment : trivia.comment = none := by
        refine hlead ?_
        cases form with
        | expr form => rfl
        | foreign kind => rfl
        | _ => cases hvalue
      simp [Trivia.comments, hcomment, horphans]
    · intro child hchild
      have hmem := Form.mem_children_of_mem_typeSlots hchild
      have htype := hslots.types child hchild
      refine bag_of_isQuiet (isQuiet_of_isType (hbelowOrderly child hmem) htype) (hbelow child hmem)
        (hleads child hmem ?_)
      cases hform : child.form with
      | type form => rfl
      | _ => rw [hform] at htype; cases htype
    · intro child hchild
      exact ih child hchild (hbelow child hchild) (hbelowOrderly child hchild)
        (hbelowPlain child hchild) (hleads child hchild)

theorem placed_of_fresh {t : Tree} (h : t.Fresh) : t.Everywhere Placed := by
  induction t using induct with
  | step trivia form ih =>
    obtain ⟨⟨hown, -⟩, hbelow⟩ := fresh_node.1 h
    have horphans : trivia.orphans = [] := (List.append_eq_nil_iff.1 hown).2
    refine everywhere_node.2 ⟨⟨fun hne => absurd horphans hne, ?_⟩, fun child hchild =>
      ih child hchild (hbelow child hchild)⟩
    intro child hchild
    have hchild_own := (hbelow child (List.mem_of_mem_take hchild)).self.1
    exact Option.toList_eq_nil_iff.1 (List.append_eq_nil_iff.1 hchild_own).1

theorem bag_of_fresh {t : Tree} (h : t.Fresh) : t.bag = 0 := by
  induction t using induct with
  | step trivia form ih =>
    obtain ⟨⟨hown, -⟩, hbelow⟩ := fresh_node.1 h
    exact bag_eq_zero_iff.2 ⟨hown, fun child hchild => ih child hchild (hbelow child hchild)⟩

end Tree

open Recast.Tree

/-- An import is no container, so it holds no orphans. -/
theorem plainImport_of_placed {t : Tree} (hplaced : t.Placed) (himport : t.form.isImport) :
    Pass.PlainImport t := by
  refine ⟨himport, ?_⟩
  by_contra hne
  have hcontainer := hplaced.orphans hne
  obtain ⟨trivia, form⟩ := t
  cases form with
  | part form =>
    cases form with
    | importing decl => cases hcontainer
    | _ => cases himport
  | _ => cases himport

/-- A unit that was read holds the comments of its text, where passes do not touch them. -/
theorem readUnit_comments {source : Source} {answer : ParserAnswer} {unit : Tree}
    {found : List Diagnostic} (hread : readUnit source answer = .ok (unit, found))
    (hplain : unit.plainAnnotations) :
    unit.bag = (scan source.text).comments ∧ unit.Everywhere Hushed ∧
      ∀ t ∈ unit.form.importSlots, Pass.PlainImport t := by
  unfold readUnit at hread
  split at hread
  · rename_i root
    split at hread
    · rename_i bare diagnostics hrun
      obtain ⟨rfl, -⟩ := Prod.mk.inj (Except.ok.inj hread)
      obtain ⟨hfresh, hcontainer⟩ := root.sound_reading.unit source [] _ hrun
      have hattached :=
        attached_attachComments source.text hcontainer (placed_of_fresh hfresh)
      have horderly : (attachComments bare source.text).Everywhere fun node =>
          node.form.Orderly := by
        rw [← everywhere_uncommented orderly_uncommented, hattached.same,
          everywhere_uncommented orderly_uncommented]
        exact hfresh.mono fun _ h => h.2
      have hlead : (attachComments bare source.text).comment = none := by
        rw [hattached.lead]
        exact Option.toList_eq_nil_iff.1 (List.append_eq_nil_iff.1 hfresh.self.1).1
      refine ⟨?_, ?_, ?_⟩
      · rw [hattached.held, bag_of_fresh hfresh, zero_add]
      · exact hushed_of_placed hattached.placed horderly (List.all_eq_true.1 hplain) fun _ => hlead
      · intro t ht
        have hchild := Form.mem_children_of_mem_importSlots ht
        exact plainImport_of_placed (hattached.placed.child hchild).self
          (horderly.self.imports t ht)
    · cases hread
  · cases hread
  · cases hread

/-- **No comment is lost or doubled.** The lowered unit holds the comments of the source text, each
as often as the text has it, provided that no argument of an annotation holds a block or a body. -/
theorem lower_comments {c : Config} {job : Job} {unit lowered : Tree}
    {found reported : List Diagnostic}
    (hread : readUnit job.source job.answer = .ok (unit, found)) (hplain : unit.plainAnnotations)
    (hlower : c.lower job = .ok (lowered, reported)) :
    (lowered.comments : Multiset Comment) = (scan job.source.text).comments := by
  obtain ⟨hbag, hhushed, himports⟩ := readUnit_comments hread hplain
  unfold Config.lower at hlower
  rw [hread] at hlower
  simp only [bind, Except.bind] at hlower
  split at hlower
  · rename_i passes selected unresolved hselect
    obtain ⟨rfl, -⟩ := Prod.mk.inj (Except.ok.inj hlower)
    obtain ⟨hsame, hready⟩ := Pass.select_keeps _ hhushed himports _ hselect
    calc _ = selected.bag := Pass.runAll_keeps _ passes hready
      _ = unit.bag := hsame
      _ = _ := hbag
  · cases hlower

/-- A part of a parser's tree at a line and a column. -/
def partAt (line column : Int) (form : ParseForm ParseTree) : ParseTree :=
  .mk (.node { position := some ⟨line, column⟩ } [] form)

/-- A unit with comments on an import that selection drops, before a class that gets an accessor,
and around its field. -/
def accessorJob : Job where
  source :=
    { file := "A.java"
      text := String.intercalate "\n" ["// i", "import lombok.Getter;", "/* a */", "// b",
        "@Getter(L.N)", "class A \x7b", "  /** f */ int f; // g", "\x7d"] }
  answer := .tree (.mk (.node {} [] (.decl (.unit (.mk .absent)
    [partAt 2 1 (.decl (.importing "lombok.Getter" false false))]
    [partAt 5 1 (.decl (.classType "A" []
      [partAt 5 1 (.decl (.annotationUse "Getter" (partAt 5 9 (.expr (.memberReference "L" "N")))))]
      [] (.mk .absent) []
      [partAt 7 12 (.decl (.field false (partAt 7 12 (.type (.basic "int" 0)))
        [partAt 7 16 (.decl (.declarator "f" 0 (.mk .absent)))] [] []))]))]))))
  moduleName := "m"

theorem lower_comments_accessorJob :
    ∃ unit lowered found reported,
      readUnit accessorJob.source accessorJob.answer = .ok (unit, found) ∧
      unit.plainAnnotations ∧ Config.lower {} accessorJob = .ok (lowered, reported) ∧
      (scan accessorJob.source.text).comments.length = 5 ∧
      (lowered.comments : Multiset Comment) = (scan accessorJob.source.text).comments := by
  have hplain : (readUnit accessorJob.source accessorJob.answer).toOption.any
      (·.1.plainAnnotations) := by decide +kernel
  have hlowered : (Config.lower {} accessorJob).toOption.isSome := by decide +kernel
  cases hread : readUnit accessorJob.source accessorJob.answer with
  | error failure => simp [hread, Except.toOption] at hplain
  | ok result =>
    cases hlower : Config.lower {} accessorJob with
    | error failure => simp [hlower, Except.toOption] at hlowered
    | ok output =>
      have hannotations : result.1.plainAnnotations := by
        simpa [hread, Except.toOption] using hplain
      exact ⟨result.1, output.1, result.2, output.2, rfl, hannotations, rfl, by decide +kernel,
        lower_comments hread hannotations hlower⟩

end Recast
