/-
  Class paths as one text.

  Paths are joined with a colon between them, and tools take the text apart at every colon.  A colon
  within a path makes one piece more, and no path at all makes one empty piece, so the number of
  pieces alone tells whether the list comes back (`splitList_joinList_iff`).

  The Java compiler gets its class path at the end of the shared arguments, behind those of the
  user, and a tool that goes by the first class path it finds reads that one unless the user gave
  another (`flagValue?_append`).

    * `classpath_readBack`   which lists of paths come back from their text, and that the class path
                             of a compile call does
-/
import KotlinHarness.JavaCompiler.Arguments
import KotlinHarness.Proofs.Segments
import KotlinHarness.Rehearsal.JavaService
import Mathlib.Data.List.Forall2

namespace KotlinHarness

namespace Path

variable {paths : List Path}

/-- A path without colon can stand in a list of paths that is one text. -/
def IsListable (p : Path) : Prop := ':' ∉ p.text.toList

theorem toList_joinList (paths : List Path) :
    (joinList paths).toList = Text.joinWith [':'] (paths.map (·.text.toList)) := by
  rw [joinList, Text.toList_intercalate, List.map_map]
  rfl

/-- As many pieces as paths come back only when there are paths and no colons in them. -/
theorem listable_of_length (h : (splitList (joinList paths)).length = paths.length) :
    paths ≠ [] ∧ ∀ p ∈ paths, p.IsListable := by
  rw [splitList, List.length_map, toList_joinList] at h
  have hne : paths ≠ [] := by
    rintro rfl
    cases h
  refine ⟨hne, fun p hm hcolon => ?_⟩
  have hpieces : paths.map (·.text.toList) ≠ [] := fun hnil => hne (List.map_eq_nil_iff.1 hnil)
  rw [Text.length_splitOn_joinWith hpieces, List.length_map] at h
  have hnone : (paths.map (·.text.toList)).flatten.count ':' = 0 := by omega
  exact List.count_eq_zero.1 hnone
    (List.mem_flatten.2 ⟨p.text.toList, List.mem_map_of_mem hm, hcolon⟩)

theorem splitList_joinList (hne : paths ≠ []) (h : ∀ p ∈ paths, p.IsListable) :
    splitList (joinList paths) = paths := by
  have hpieces : paths.map (·.text.toList) ≠ [] := fun hnil => hne (List.map_eq_nil_iff.1 hnil)
  have hcolon : ∀ piece ∈ paths.map (·.text.toList), ':' ∉ piece := by
    intro piece hm
    obtain ⟨p, hp, rfl⟩ := List.mem_map.1 hm
    exact h p hp
  rw [splitList, toList_joinList, Text.splitOn_joinWith hpieces hcolon, List.map_map]
  simp [Function.comp_def]

theorem splitList_joinList_iff :
    splitList (joinList paths) = paths ↔ paths ≠ [] ∧ ∀ p ∈ paths, p.IsListable :=
  ⟨fun h => listable_of_length (congrArg List.length h),
    fun h => splitList_joinList h.1 h.2⟩

/-- Nor do the same paths come back in other spellings. -/
theorem forall₂_splitList_joinList_iff :
    List.Forall₂ (fun p q => p.sameAs q = true) (splitList (joinList paths)) paths ↔
      paths ≠ [] ∧ ∀ p ∈ paths, p.IsListable := by
  refine ⟨fun h => listable_of_length h.length_eq, fun h => ?_⟩
  rw [splitList_joinList h.1 h.2]
  exact List.forall₂_same.2 fun p _ => beq_self_eq_true p.components

/-- A name below a path adds no colon of its own. -/
theorem isListable_div {p : Path} {name : String} (hname : IsSegment name) (h : ':' ∉ name.toList) :
    (p / name).IsListable ↔ p.IsListable := by
  rw [IsListable, IsListable, text_div hname]
  split <;> simp [String.toList_append, h]

end Path

namespace Rehearsal

/-- The value of a flag that comes up for the first time. -/
theorem flagValue?_append {flag value : String} {front : List String} (h : flag ∉ front)
    (more : List String) : flagValue? flag (front ++ [flag, value] ++ more) = some value := by
  induction front with
  | nil => simp [flagValue?]
  | cons arg rest ih =>
    have harg : arg ≠ flag := fun heq => h (heq ▸ List.mem_cons_self)
    rw [List.cons_append, List.cons_append, flagValue?, if_neg harg]
    exact ih fun hm => h (List.mem_cons_of_mem _ hm)

end Rehearsal

namespace JavaCompiler

/-- The shared arguments in front of the class path. -/
def argumentsInFront (resolution : Resolution) (isModular : Bool) : List String :=
  (if resolution.config.verbose then verbosity isModular else [])
    ++ ["-d", resolution.classesDir.text, "-proc:none"]
    ++ (if resolution.config.allWarningsAsErrors then ["-Werror"] else [])
    ++ resolution.config.javacArguments

theorem baseArguments_eq (resolution : Resolution) (isModular : Bool) :
    baseArguments resolution isModular = argumentsInFront resolution isModular ++
      ["-cp", Path.joinList resolution.classpathWithOutput] := rfl

theorem isSegment_classes : Path.IsSegment "classes" := by
  unfold Path.IsSegment
  decide

/-- The directory of compiled classes is not taken for the flag. -/
theorem classesDir_ne_flag (resolution : Resolution) : resolution.classesDir.text ≠ "-cp" := by
  intro h
  obtain ⟨before, hsegments, -⟩ := @Path.segments_div resolution.workspace.root _ isSegment_classes
  have hend : "classes".toList <:+ resolution.classesDir.text.toList :=
    Path.text_of_segments hsegments
  rw [h] at hend
  exact absurd hend.length_le (by decide)

/-- Only the user can give another class path. -/
theorem flag_not_mem_inFront {resolution : Resolution} {isModular : Bool}
    (h : "-cp" ∉ resolution.config.javacArguments) :
    "-cp" ∉ argumentsInFront resolution isModular := by
  have hdir : "-cp" ≠ resolution.classesDir.text := (classesDir_ne_flag resolution).symm
  have hverbose : "-cp" ∉ verbosity isModular := by
    cases isModular <;> decide
  simp only [argumentsInFront, List.mem_append, List.mem_cons, List.not_mem_nil, or_false, not_or]
  refine ⟨⟨⟨?_, by decide, hdir, by decide⟩, ?_⟩, h⟩
  · split
    · exact hverbose
    · exact List.not_mem_nil
  · split
    · decide
    · exact List.not_mem_nil

theorem listable_classpathWithOutput_iff (resolution : Resolution) :
    (∀ p ∈ resolution.classpathWithOutput, p.IsListable) ↔
      (∀ p ∈ resolution.classpath, p.IsListable) ∧ resolution.workspace.root.IsListable := by
  have hdir : resolution.classesDir.IsListable ↔ resolution.workspace.root.IsListable :=
    Path.isListable_div isSegment_classes (by decide)
  rw [Resolution.classpathWithOutput, List.forall_mem_append, List.forall_mem_singleton, hdir]

/-- **A list of paths comes back from its text exactly when it is not empty and no path has a
    colon.**  So what the Java compiler gets as its class path is read as the shared class path
    followed by the compiled classes exactly when neither that class path nor the root of the
    workspace has a colon; it stands at the end of the shared arguments, and is the first class path
    among all arguments when the user gives none. -/
theorem classpath_readBack (paths : List Path) (resolution : Resolution) (isModular : Bool) :
    (Path.splitList (Path.joinList paths) = paths ↔
        paths ≠ [] ∧ ∀ p ∈ paths, ':' ∉ p.text.toList) ∧
      (List.Forall₂ (fun p q => p.sameAs q = true) (Path.splitList (Path.joinList paths)) paths ↔
        paths ≠ [] ∧ ∀ p ∈ paths, ':' ∉ p.text.toList) ∧
      ∃ front value, baseArguments resolution isModular = front ++ ["-cp", value] ∧
        (Path.splitList value = resolution.classpath ++ [resolution.classesDir] ↔
          (∀ p ∈ resolution.classpath, ':' ∉ p.text.toList) ∧
            ':' ∉ resolution.workspace.root.text.toList) ∧
        ("-cp" ∉ resolution.config.javacArguments → ∀ more,
          Rehearsal.flagValue? "-cp" (baseArguments resolution isModular ++ more) = some value) := by
  refine ⟨Path.splitList_joinList_iff, Path.forall₂_splitList_joinList_iff,
    argumentsInFront resolution isModular, Path.joinList resolution.classpathWithOutput,
    baseArguments_eq resolution isModular, ?_, fun huser more => ?_⟩
  · have hne : resolution.classpathWithOutput ≠ [] :=
      List.append_ne_nil_of_right_ne_nil _ (by simp)
    exact (Path.splitList_joinList_iff.trans (and_iff_right hne)).trans
      (listable_classpathWithOutput_iff resolution)
  · rw [baseArguments_eq]
    exact Rehearsal.flagValue?_append (flag_not_mem_inFront huser) more

/-- A call with two libraries in `/w`. -/
def twoJars : Resolution :=
  { (default : Resolution) with
    classpath := [⟨"/k/a.jar"⟩, ⟨"b c.jar"⟩]
    workspace := ⟨⟨"/w"⟩⟩ }

theorem twoJars_readBack :
    "-cp" ∉ twoJars.config.javacArguments ∧
      ∃ value, Rehearsal.flagValue? "-cp" (baseArguments twoJars true ++ ["A.java"]) = some value ∧
        Path.splitList value = [⟨"/k/a.jar"⟩, ⟨"b c.jar"⟩, ⟨"/w/classes"⟩] := by
  obtain ⟨-, -, front, value, -, hread, hfound⟩ := classpath_readBack [] twoJars true
  have huser : "-cp" ∉ twoJars.config.javacArguments := by decide
  have hback := hread.2 (by decide +kernel)
  have hdir : twoJars.classesDir = ⟨"/w/classes"⟩ := by decide +kernel
  rw [hdir] at hback
  exact ⟨huser, value, hfound huser ["A.java"], hback⟩

end JavaCompiler

end KotlinHarness
