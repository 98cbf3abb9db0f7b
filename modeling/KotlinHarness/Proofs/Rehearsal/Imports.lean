/-
  What the rehearsed Java compiler says about imports.

  It checks its sources in turn, up to the first that cannot be read, and of each complains about the
  braces and then about the imports (`check_eq`).  A complaint about an import is at the line on which
  the match starts.  That is the line of the keyword unless there are blank lines above it: then it is
  the first of these (`importErrors_eq`).
-/
import KotlinHarness.Proofs.Source.Imports
import KotlinHarness.Rehearsal.JavaService

namespace KotlinHarness

/-! ## Lines -/

namespace Text

theorem length_linesOfPieces_concat (pieces : List (List Char)) :
    (linesOfPieces (pieces ++ [[]])).length = pieces.length := by
  induction pieces with
  | nil => rfl
  | cons piece rest ih =>
    obtain ⟨next, more, hmore⟩ := List.exists_cons_of_ne_nil (show rest ++ [[]] ≠ [] by simp)
    rw [List.cons_append, List.length_cons, ← ih, hmore]
    rfl

/-- Whole lines are as many as their line feeds. -/
theorem length_lines_concat (line : List Char) : (lines (line ++ ['\n'])).length = line.count '\n' + 1 := by
  rw [lines, splitOn_append_cons, show splitOn '\n' [] = [[]] from rfl, length_linesOfPieces_concat,
    length_splitOn]

end Text

namespace Rehearsal

open Source

variable {σ : Type} {env : Environment} {classpath sources : List Path} {source : Path}
  {content : String} {args : List String} {machine : Machine σ}

theorem lineAt_start {code : List Char} (statement : ImportStatement code) :
    lineAt code statement.start = statement.firstLine := by
  have hfront : code.take statement.start = statement.front :=
    (congrArg (List.take statement.start) statement.spelled).trans List.take_left
  rw [lineAt, hfront, ImportStatement.firstLine]
  rcases statement.isFront with hnil | ⟨line, hline, -⟩
  · rw [hnil]
    rfl
  · rw [hline, Text.length_lines_concat, List.count_append, List.count_singleton_self]

/-! ## Complaints -/

/-- The complaint about an import that cannot be satisfied. -/
def cannotFind (source : Path) (line : Nat) (name : String) : Diagnostic :=
  (Diagnostic.plain .error ("cannot find symbol " ++ name)).placedAt source line

/-- The statements of which a call complains. -/
def unsatisfied (env : Environment) (classpath : List Path) {code : List Char}
    (statements : List (ImportStatement code)) : List (ImportStatement code) :=
  statements.filter fun statement => !resolves env classpath statement.importedName

/-- There is one complaint for each import statement that cannot be satisfied. -/
theorem importErrors_eq (env : Environment) (classpath : List Path) (source : Path) (content : String) :
    ∃ statements : List (ImportStatement content.toList),
      (∀ statement, statement ∈ statements) ∧
      (statements.Pairwise fun first second => first.stop ≤ second.start) ∧
      importErrors env classpath source content = (unsatisfied env classpath statements).map
        fun statement => cannotFind source statement.firstLine statement.importedName := by
  obtain ⟨statements, himports, hall, hapart⟩ := exists_importStatements content.toList
  refine ⟨statements, hall, hapart, ?_⟩
  rw [importErrors, himports, List.filter_map, List.map_map]
  refine List.map_congr_left fun statement _ => ?_
  show cannotFind source (lineAt content.toList statement.start) statement.importedName = _
  rw [lineAt_start]

/-- The sources that are checked, with what is in them: those up to the first that cannot be read. -/
def checked (env : Environment) : List Path → List (Path × String)
  | [] => []
  | source :: rest =>
    match env.readText source with
    | .error _ => []
    | .ok content => (source, content) :: checked env rest

theorem check_eq (env : Environment) (classpath sources : List Path) :
    (check env classpath sources).2 = (checked env sources).flatMap fun (source, content) =>
      braceErrors source content ++ importErrors env classpath source content := by
  induction sources with
  | nil => rfl
  | cons source rest ih =>
    rw [check, checked]
    rcases env.readText source with cause | content
    · rfl
    · simp only [List.flatMap_cons, ← ih]

theorem diagnostics_writeAnswer (destination : Path) (sources : List Path) (diagnostics : Collector)
    (machine : Machine σ) :
    (writeAnswer destination sources diagnostics machine).1.diagnostics = diagnostics := by
  rw [writeAnswer]
  cases writeClasses destination sources machine.environment <;> rfl

/-- A call reports what checking found, whether it writes class files or not. -/
theorem diagnostics_compileJava {destination : String} (h : flagValue? "-d" args = some destination)
    (machine : Machine σ) :
    (compileJava args machine).1.diagnostics.all =
      (check machine.environment (classpathAmong args) (sourcesAmong args)).2 := by
  rw [compileJava, h]
  simp only
  rcases check machine.environment (classpathAmong args) (sourcesAmong args) with ⟨- | cause, found⟩
  · simp only
    split
    · rfl
    · rw [diagnostics_writeAnswer]
  · rfl

/-- **What is reported about imports**, by every call that is told where to write and not made to fail.
    The sources that are checked are reported in turn, each with the complaint about its braces and then
    one complaint for each import statement that cannot be satisfied, in order.

    It is at the line on which the blank lines above the statement start.  The keyword stands further
    down by the line feeds in front of it, blank lines and line feeds within the indentation alike. -/
theorem javaService_reports (failure : Option ServiceError) {args : List String} {destination : String}
    {machine : Machine σ} (unscripted : failure = none ∨ wasCalled machine = true)
    (told : flagValue? "-d" args = some destination) :
    ((javaService failure).compile args machine).1.diagnostics.all =
        (checked machine.environment (sourcesAmong args)).flatMap (fun (source, content) =>
          braceErrors source content ++
            importErrors machine.environment (classpathAmong args) source content) ∧
      ∀ (source : Path) (content : String), ∃ statements : List (ImportStatement content.toList),
        (∀ statement, statement ∈ statements) ∧
        (statements.Pairwise fun first second => first.stop ≤ second.start) ∧
        importErrors machine.environment (classpathAmong args) source content =
          (unsatisfied machine.environment (classpathAmong args) statements).map
            (fun statement => cannotFind source statement.firstLine statement.importedName) ∧
        ∀ statement ∈ statements,
          statement.keywordLine = statement.firstLine + statement.blank.count '\n' := by
  refine ⟨?_, fun source content => ?_⟩
  · have hcall : ((javaService failure).compile args machine).1 =
        (compileJava args { machine with calls := machine.calls ++ [.service args] }).1 := by
      rcases unscripted with rfl | called
      · rfl
      · cases failure <;> simp only [javaService, called]
    rw [hcall, diagnostics_compileJava told, check_eq]
  · obtain ⟨statements, hall, hapart, herrors⟩ :=
      importErrors_eq machine.environment (classpathAmong args) source content
    exact ⟨statements, hall, hapart, herrors, fun statement _ => statement.keywordLine_eq⟩

/-- An import with a blank line above it, on a machine where no class file is. -/
def blankLineAbove : Machine Unit :=
  .start { (default : Environment) with
    files := FileTree.empty.insert ["B.java"] (.file ⟨Text.encode "\nimport p.A;\n", .plain⟩) } 5 ()

theorem blankLineAbove_reported :
    ((javaService none).compile ["-d", "classes", "/B.java"] blankLineAbove).1.diagnostics.all =
        [cannotFind ⟨"/B.java"⟩ 1 "p.A"] ∧
      ∃ statements : List (ImportStatement "\nimport p.A;\n".toList),
        (∀ statement, statement ∈ statements) ∧
        [cannotFind ⟨"/B.java"⟩ 1 "p.A"] =
          (unsatisfied blankLineAbove.environment [] statements).map fun statement =>
            cannotFind ⟨"/B.java"⟩ statement.firstLine statement.importedName := by
  have hreported : importErrors blankLineAbove.environment [] ⟨"/B.java"⟩ "\nimport p.A;\n" =
      [cannotFind ⟨"/B.java"⟩ 1 "p.A"] := by decide +kernel
  have hchecked : (checked blankLineAbove.environment [⟨"/B.java"⟩]).flatMap (fun (source, content) =>
      braceErrors source content ++ importErrors blankLineAbove.environment [] source content) =
        [cannotFind ⟨"/B.java"⟩ 1 "p.A"] := by decide +kernel
  have told : flagValue? "-d" ["-d", "classes", "/B.java"] = some "classes" := by decide
  have unscripted : (none : Option ServiceError) = none ∨ wasCalled blankLineAbove = true := .inl rfl
  obtain ⟨hall, himports⟩ := javaService_reports none unscripted told
  obtain ⟨statements, hstatements, -, herrors, -⟩ := himports ⟨"/B.java"⟩ "\nimport p.A;\n"
  exact ⟨hall.trans hchecked, statements, hstatements, hreported.symm.trans herrors⟩

/-- The complaint is not always at the line of the keyword. -/
theorem blankLine_misplaced : ¬ ∀ (env : Environment) (classpath : List Path) (source : Path)
    (content : String) (statements : List (ImportStatement content.toList)),
    (∀ statement, statement ∈ statements) →
    (statements.Pairwise fun first second => first.stop ≤ second.start) →
    importErrors env classpath source content = (unsatisfied env classpath statements).map
      fun statement => cannotFind source statement.keywordLine statement.importedName := by
  intro hclaim
  obtain ⟨statements, hall, hapart, -⟩ :=
    importErrors_eq default [] ⟨"/B.java"⟩ "\nimport p.A;\n"
  have hkeyword := hclaim default [] ⟨"/B.java"⟩ "\nimport p.A;\n" statements hall hapart
  have hreported : importErrors default [] ⟨"/B.java"⟩ "\nimport p.A;\n" =
      [cannotFind ⟨"/B.java"⟩ 1 "p.A"] := by decide +kernel
  rw [hreported] at hkeyword
  obtain ⟨statement, -, hsame⟩ := List.mem_map.1 (hkeyword ▸ List.mem_singleton_self _)
  have hline : statement.keywordLine = 1 := Option.some.inj (congrArg Diagnostic.line hsame)
  -- The line feed at the start is in front of the keyword.
  have hspelled := statement.spelled
  rw [← List.append_assoc] at hspelled
  rw [ImportStatement.keywordLine] at hline
  rcases hahead : statement.front ++ statement.blank with - | ⟨c, more⟩
  · rw [hahead] at hspelled
    exact absurd (List.cons.inj hspelled).1 (by decide)
  · rw [hahead] at hspelled hline
    have hfeed : '\n' = c := (List.cons.inj hspelled).1
    rw [← hfeed, List.count_cons_self] at hline
    omega

end Rehearsal

end KotlinHarness
