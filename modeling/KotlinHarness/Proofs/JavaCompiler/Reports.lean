/-
  The output of the compiler, report by report.

  A line starts a report when it tells a place in a source (`Placement`) or begins with one of three
  heads; `Starts` says so without looking at how lines are read.  A line may be split as a placement in
  several ways, and is read as the one with the shortest path.  Every other line continues a report,
  unless it is blank or a count of errors or warnings (`IsIdle`).

    * `placed?_eq_some_iff`, `startOf?_eq_some_iff`, `isIdle_iff`   the questions asked of a line
    * `Collects.readLine`    what one more line does to the reports so far
    * `readOutput_reports`   what is collected from a whole output
-/
import KotlinHarness.Proofs.JavaCompiler.Told
import KotlinHarness.Proofs.Source.Scanned

namespace KotlinHarness

namespace Text

theorem isSpace_of_isDecimal {c : Char} (h : isDecimal c = true) : isSpace c = false := by
  refine isSpace_of_isWord ?_
  rw [isDecimal] at h
  split at h
  · next hascii => simp [isWord, hascii, Char.isAlphanum, h]
  · next hascii => simp [isWord, hascii, h]

end Text

namespace JavaCompiler

variable {line text : List Char}

/-! ## Places in sources -/

/-- What stands behind the path of a source: `:<number>: <severity>: <message>`. -/
structure Remark where
  digits : List Char
  severity : Severity
  message : List Char
  isNumber : digits ≠ [] ∧ ∀ c ∈ digits, Text.isDecimal c = true
  isJudged : severity ≠ .note

namespace Remark

def spelled (remark : Remark) : List Char :=
  ':' :: (remark.digits ++ ':' :: ' ' :: (remark.severity.text.toList ++ ':' :: ' ' :: remark.message))

/-- The number of the line, or 0 when it is not written in ASCII or takes more than 32 bits. -/
def number (remark : Remark) : Nat :=
  if remark.digits.all Char.isDigit = true ∧ Text.digitsValue remark.digits < 2 ^ 32 then
    Text.digitsValue remark.digits
  else 0

theorem lineNumber_digits (remark : Remark) : lineNumber remark.digits = remark.number := by
  have hne : remark.digits.isEmpty = false := List.isEmpty_eq_false_iff.2 remark.isNumber.1
  have hfits : (remark.digits.all Char.isDigit && Text.digitsValue remark.digits < Text.numberBound) =
      true ↔ remark.digits.all Char.isDigit = true ∧ Text.digitsValue remark.digits < 2 ^ 32 := by
    rw [Bool.and_eq_true, decide_eq_true_eq]
    rfl
  simp only [lineNumber, Text.number?, number, hne, Bool.not_false, Bool.true_and, hfits]
  split <;> rfl

end Remark

/-- A remark about a source whose path ends in `.java`. -/
structure Placement where
  /-- The path without its extension. -/
  stem : List Char
  remark : Remark

namespace Placement

def path (placement : Placement) : List Char := placement.stem ++ ".java".toList

def spelled (placement : Placement) : List Char := placement.path ++ placement.remark.spelled

def diagnostic (placement : Placement) : Diagnostic where
  severity := placement.remark.severity
  source := some ⟨String.ofList placement.path⟩
  line := some placement.remark.number
  message := String.ofList placement.remark.message

/-- Of all placements that a line can be split as, this has the shortest path. -/
structure ReadFrom (placement : Placement) (line : List Char) : Prop where
  spelled : line = placement.spelled
  shortest : ∀ other : Placement, line = other.spelled → placement.stem.length ≤ other.stem.length

/-- The placement with a character in front of its path. -/
def cons (c : Char) (placement : Placement) : Placement := ⟨c :: placement.stem, placement.remark⟩

end Placement

theorem afterSource?_spelled (remark : Remark) :
    afterSource? remark.spelled = some (remark.digits, remark.severity, remark.message) := by
  obtain ⟨digits, severity, message, ⟨hne, hdigits⟩, isJudged⟩ := remark
  have hempty : digits.isEmpty = false := List.isEmpty_eq_false_iff.2 hne
  have htake : ∀ rest : List Char, (digits ++ ':' :: rest).takeWhile Text.isDecimal = digits := by
    intro rest
    rw [List.takeWhile_append_of_pos hdigits, List.takeWhile_cons_of_neg (by decide), List.append_nil]
  simp only [Remark.spelled, afterSource?, htake, hempty, Bool.false_eq_true, if_false, List.drop_left]
  cases severity with
  | error => rfl
  | warning => rfl
  | note => exact absurd rfl isJudged

theorem exists_remark {found : List Char × Severity × List Char} (h : afterSource? text = some found) :
    ∃ remark : Remark, text = remark.spelled ∧
      found = (remark.digits, remark.severity, remark.message) := by
  obtain ⟨digits, severity, message⟩ := found
  obtain ⟨head, hm, hne, hdigits, htext⟩ := afterSource?_parts h
  obtain ⟨hhead, isJudged⟩ : head.toList ++ message =
      ':' :: ' ' :: (severity.text.toList ++ ':' :: ' ' :: message) ∧ severity ≠ .note := by
    simp only [List.mem_cons, List.not_mem_nil, or_false, Prod.mk.injEq] at hm
    rcases hm with ⟨rfl, rfl⟩ | ⟨rfl, rfl⟩ <;> exact ⟨rfl, by decide⟩
  refine ⟨⟨digits, severity, message, ⟨hne, hdigits⟩, isJudged⟩, ?_, rfl⟩
  rw [htext, Remark.spelled, ← hhead]

/-- Whether a remark follows where the extension stands at the start of a line. -/
theorem remarkAt_eq_some_iff {found : List Char × Severity × List Char} :
    (sourceExtension.isPrefixOf? line).bind afterSource? = some found ↔
      ∃ remark : Remark, line = (Placement.mk [] remark).spelled ∧
        found = (remark.digits, remark.severity, remark.message) := by
  constructor
  · intro h
    obtain ⟨behind, hbehind, hfound⟩ := Option.bind_eq_some_iff.1 h
    obtain ⟨remark, rfl, rfl⟩ := exists_remark hfound
    exact ⟨remark, (List.isPrefixOf?_eq_some_iff_append_eq.1 hbehind).symm, rfl⟩
  · rintro ⟨remark, rfl, rfl⟩
    exact afterSource?_spelled remark

/-- A line is read as a placement exactly when that is the one with the shortest path. -/
theorem placed?_eq_some_iff {found : List Char × List Char × Severity × List Char} :
    placed? line = some found ↔ ∃ placement : Placement, placement.ReadFrom line ∧
      found = (placement.path, placement.remark.digits, placement.remark.severity,
        placement.remark.message) := by
  induction line generalizing found with
  | nil =>
    constructor
    · intro h
      cases h
    · rintro ⟨placement, read, -⟩
      have hlength := congrArg List.length read.spelled
      simp [Placement.spelled, Placement.path] at hlength
  | cons c rest ih =>
    rw [placed?]
    rcases hhere : (sourceExtension.isPrefixOf? (c :: rest)).bind afterSource? with - | here
    · -- The extension does not stand here: every placement has a character in front of it.
      have hinside : ∀ placement : Placement, c :: rest = placement.spelled →
          ∃ other : Placement, placement = other.cons c ∧ rest = other.spelled := by
        rintro ⟨stem, remark⟩ hspelled
        rcases stem with - | ⟨d, stem⟩
        · rw [remarkAt_eq_some_iff.2 ⟨remark, hspelled, rfl⟩] at hhere
          cases hhere
        · obtain ⟨rfl, hrest⟩ := List.cons.inj hspelled
          exact ⟨⟨stem, remark⟩, rfl, hrest⟩
      simp only [Option.map_eq_some_iff]
      constructor
      · rintro ⟨⟨path, inner⟩, hinner, rfl⟩
        obtain ⟨placement, ⟨rfl, shortest⟩, hsame⟩ := ih.1 hinner
        cases hsame
        refine ⟨placement.cons c, ⟨rfl, fun other hother => ?_⟩, rfl⟩
        obtain ⟨other, rfl, hrest⟩ := hinside other hother
        exact Nat.succ_le_succ (shortest other hrest)
      · rintro ⟨placement, ⟨hspelled, shortest⟩, rfl⟩
        obtain ⟨placement, rfl, rfl⟩ := hinside placement hspelled
        refine ⟨_, ih.2 ⟨placement, ⟨rfl, fun other hother => ?_⟩, rfl⟩, rfl⟩
        have hle := shortest (other.cons c) (congrArg (c :: ·) hother)
        exact Nat.le_of_succ_le_succ hle
    · obtain ⟨remark, hspelled, rfl⟩ := remarkAt_eq_some_iff.1 hhere
      simp only [Option.some.injEq]
      constructor
      · rintro rfl
        exact ⟨⟨[], remark⟩, ⟨hspelled, fun _ _ => Nat.zero_le _⟩, rfl⟩
      · rintro ⟨⟨stem, other⟩, ⟨hother, shortest⟩, rfl⟩
        obtain rfl : stem = [] := List.length_eq_zero_iff.1 (Nat.le_zero.1 (shortest ⟨[], remark⟩ hspelled))
        have hsame := remarkAt_eq_some_iff.2 ⟨other, hother, rfl⟩
        rw [hhere] at hsame
        rw [Option.some.inj hsame]
        rfl

theorem isSome_placed? (stem : List Char) (remark : Remark) :
    (placed? (Placement.mk stem remark).spelled).isSome = true := by
  induction stem with
  | nil =>
    have hhere := remarkAt_eq_some_iff.2 ⟨remark, rfl, rfl⟩
    obtain ⟨c, rest, hline⟩ : ∃ c rest, (Placement.mk [] remark).spelled = c :: rest := ⟨_, _, rfl⟩
    rw [hline] at hhere ⊢
    rw [placed?, hhere]
    rfl
  | cons c stem ih =>
    show (placed? (c :: (Placement.mk stem remark).spelled)).isSome = true
    rw [placed?]
    split
    · rfl
    · rwa [Option.isSome_map]

theorem placed?_eq_none_iff : placed? line = none ↔ ∀ placement : Placement, line ≠ placement.spelled := by
  constructor
  · rintro h placement rfl
    have hsome := isSome_placed? placement.stem placement.remark
    rw [h] at hsome
    cases hsome
  · intro h
    rcases hfound : placed? line with - | found
    · rfl
    · obtain ⟨placement, hread, -⟩ := placed?_eq_some_iff.1 hfound
      exact absurd hread.spelled (h placement)

/-! ## Starts of reports -/

/-- The head of a line about no source. -/
def headOf : Severity → String
  | .error => "error: "
  | .warning => "warning: "
  | .note => "Note: "

/-- The report that a line starts, before other lines continue it. -/
inductive Starts (line : List Char) : Diagnostic → Prop
  | placed (placement : Placement) (read : placement.ReadFrom line) : Starts line placement.diagnostic
  | headed (severity : Severity) (message : List Char)
      (unplaced : ∀ placement : Placement, line ≠ placement.spelled)
      (spelled : line = (headOf severity).toList ++ message) :
      Starts line (.plain severity (String.ofList message))

theorem startOf?_eq_some_iff {diagnostic : Diagnostic} :
    startOf? line = some diagnostic ↔ Starts line diagnostic := by
  rw [startOf?]
  constructor
  · intro h
    split at h
    · next hplaced =>
      obtain ⟨placement, read, hsame⟩ := placed?_eq_some_iff.1 hplaced
      cases hsame
      cases h
      rw [placement.remark.lineNumber_digits]
      exact .placed placement read
    · next hplaced =>
      obtain ⟨⟨severity, message⟩, hhead, rfl⟩ := Option.map_eq_some_iff.1 h
      obtain ⟨head, hm, rfl⟩ := afterHead?_eq hhead
      refine .headed severity message (placed?_eq_none_iff.1 hplaced) ?_
      simp only [List.mem_cons, List.not_mem_nil, or_false, Prod.mk.injEq] at hm
      rcases hm with ⟨rfl, rfl⟩ | ⟨rfl, rfl⟩ | ⟨rfl, rfl⟩ <;> rfl
  · rintro (⟨placement, read⟩ | ⟨severity, message, unplaced, rfl⟩)
    · rw [placed?_eq_some_iff.2 ⟨placement, read, rfl⟩]
      simp only [placement.remark.lineNumber_digits]
      rfl
    · rw [placed?_eq_none_iff.2 unplaced]
      cases severity <;> rfl

/-! ## Lines that belong to nothing -/

/-- What a count ends with. -/
def countWords : List String := [" error", " errors", " warning", " warnings"]

/-- A line that is blank or counts errors or warnings, with any white space around the count. -/
inductive IsIdle (line : List Char) : Prop
  | blank (blank : ∀ c ∈ line, Text.isSpace c = true)
  | count (front digits back : List Char) (word : String)
      (frontBlank : ∀ c ∈ front, Text.isSpace c = true) (backBlank : ∀ c ∈ back, Text.isSpace c = true)
      (isNumber : digits ≠ [] ∧ ∀ c ∈ digits, Text.isDecimal c = true) (isCount : word ∈ countWords)
      (spelled : line = front ++ ((digits ++ word.toList) ++ back))

theorem exists_countWord {word : String} (h : word ∈ countWords) :
    ∃ more last, word.toList = ' ' :: (more ++ [last]) ∧ Text.isSpace last = false := by
  simp only [countWords, List.mem_cons, List.not_mem_nil, or_false] at h
  rcases h with rfl | rfl | rfl | rfl
  · exact ⟨"erro".toList, 'r', rfl, by decide⟩
  · exact ⟨"error".toList, 's', rfl, by decide⟩
  · exact ⟨"warnin".toList, 'g', rfl, by decide⟩
  · exact ⟨"warning".toList, 's', rfl, by decide⟩

theorem isSummary_iff : isSummary line = true ↔ ∃ digits word,
    (digits ≠ [] ∧ ∀ c ∈ digits, Text.isDecimal c = true) ∧ word ∈ countWords ∧
      line = digits ++ word.toList := by
  simp only [isSummary, Bool.and_eq_true, Bool.not_eq_true', List.isEmpty_eq_false_iff,
    List.contains_iff_mem]
  constructor
  · rintro ⟨hne, hword⟩
    refine ⟨_, _, ⟨hne, List.all_eq_true.1 List.all_takeWhile⟩, hword, ?_⟩
    rw [String.toList_ofList, List.prefix_iff_eq_append.1 (List.takeWhile_prefix Text.isDecimal)]
  · rintro ⟨digits, word, ⟨hne, hdigits⟩, hword, rfl⟩
    obtain ⟨more, last, hmore, -⟩ := exists_countWord hword
    have htake : (digits ++ word.toList).takeWhile Text.isDecimal = digits := by
      rw [hmore, List.takeWhile_append_of_pos hdigits, List.takeWhile_cons_of_neg (by decide),
        List.append_nil]
    rw [htake, List.drop_left, String.ofList_toList]
    exact ⟨hne, hword⟩

/-- Which lines are passed over. -/
theorem isIdle_iff : isIdle line = true ↔ IsIdle line := by
  rw [isIdle, Bool.or_eq_true, List.isEmpty_iff]
  constructor
  · obtain ⟨front, back, hline, hfront, hback⟩ := Text.exists_trim line
    rintro (hempty | hsummary)
    · rw [hempty, List.nil_append] at hline
      rw [hline]
      exact .blank (List.forall_mem_append.2 ⟨hfront, hback⟩)
    · obtain ⟨digits, word, isNumber, isCount, htrim⟩ := isSummary_iff.1 hsummary
      rw [htrim] at hline
      exact .count front digits back word hfront hback isNumber isCount hline
  · rintro (blank | ⟨front, digits, back, word, hfront, hback, isNumber, isCount, rfl⟩)
    · refine .inl ?_
      have htrim : Text.trim (line ++ ([] ++ [])) = [] :=
        Text.trim_append blank (by simp) (by simp) (by simp)
      rwa [List.append_nil, List.append_nil] at htrim
    · obtain ⟨more, last, hmore, hlast⟩ := exists_countWord isCount
      obtain ⟨first, digits', rfl⟩ := List.exists_cons_of_ne_nil isNumber.1
      have hfirst := Text.isSpace_of_isDecimal (isNumber.2 first List.mem_cons_self)
      have hend : (first :: digits' ++ word.toList).getLast? = some last := by
        rw [hmore, ← List.cons_append, ← List.append_assoc, List.getLast?_concat]
      rw [Text.trim_append hfront hback (by simpa using hfirst) (by simpa only [hend,
        Option.mem_some_iff, forall_eq'] using hlast)]
      exact .inr (isSummary_iff.2 ⟨_, word, isNumber, isCount, rfl⟩)

instance : DecidablePred IsIdle := fun _ => decidable_of_iff _ isIdle_iff

/-- A line that starts a report belongs to it. -/
theorem isIdle_of_starts {diagnostic : Diagnostic} (h : Starts line diagnostic) :
    isIdle line = false := by
  rcases h with ⟨placement, read⟩ | ⟨severity, message, -, rfl⟩
  · refine isIdle_dot ?_
    rw [read.spelled]
    simp [Placement.spelled, Placement.path]
  · obtain ⟨c, more, hhead, hspace, hdecimal⟩ : ∃ c more, (headOf severity).toList = c :: more ∧
        Text.isSpace c = false ∧ Text.isDecimal c = false := by
      cases severity <;> exact ⟨_, _, rfl, by decide, by decide⟩
    rw [hhead, List.cons_append, ← Bool.not_eq_true, isIdle_iff]
    rintro (blank | ⟨front, digits, back, word, hfront, -, ⟨hne, hdigits⟩, -, hline⟩)
    · have hc := blank c List.mem_cons_self
      rw [hspace] at hc
      cases hc
    · rcases front with - | ⟨d, front⟩
      · obtain ⟨first, digits, rfl⟩ := List.exists_cons_of_ne_nil hne
        obtain ⟨rfl, -⟩ := List.cons.inj hline
        have hc := hdigits c List.mem_cons_self
        rw [hdecimal] at hc
        cases hc
      · obtain ⟨rfl, -⟩ := List.cons.inj hline
        have hc := hfront c List.mem_cons_self
        rw [hspace] at hc
        cases hc

/-! ## Reports -/

/-- A report in an output: the line that starts it, and the lines behind it up to the next start. -/
structure Report where
  first : List Char
  later : List (List Char)
  /-- What the first line starts. -/
  start : Diagnostic
  starts : Starts first start
  goesOn : ∀ line ∈ later, ∀ diagnostic, ¬ Starts line diagnostic

namespace Report

def lines (report : Report) : List (List Char) := report.first :: report.later

/-- Later lines go on with the message, each after a line break, unless they are idle. -/
def diagnostic (report : Report) : Diagnostic :=
  { report.start with
    message := report.start.message ++
      String.join ((report.later.filter (¬ IsIdle ·)).map fun line => "\n" ++ String.ofList line) }

/-- The report with one more line. -/
def extend (report : Report) (line : List Char) (h : ∀ diagnostic, ¬ Starts line diagnostic) :
    Report :=
  { report with
    later := report.later ++ [line]
    goesOn := by simpa [or_imp, forall_and] using ⟨report.goesOn, h⟩ }

variable {report : Report} {h : ∀ diagnostic, ¬ Starts line diagnostic}

theorem diagnostic_extend_of_idle (idle : IsIdle line) :
    (report.extend line h).diagnostic = report.diagnostic := by
  simp [diagnostic, extend, idle]

theorem diagnostic_extend (belongs : ¬ IsIdle line) :
    (report.extend line h).diagnostic =
      { report.diagnostic with
        message := report.diagnostic.message ++ "\n" ++ String.ofList line } := by
  simp [diagnostic, extend, belongs, String.join_append, String.append_assoc]

end Report

/-- `collector` holds the reports that `lines` are cut into, in order; the lines in front of the first
    of them are in no report. -/
def Collects (lines : List (List Char)) (collector : Collector) : Prop :=
  ∃ (leading : List (List Char)) (reports : List Report),
    (∀ line ∈ leading, ∀ diagnostic, ¬ Starts line diagnostic) ∧
      lines = leading ++ reports.flatMap Report.lines ∧
      collector.all = reports.map Report.diagnostic

theorem startOf?_eq_none_iff : startOf? line = none ↔ ∀ diagnostic, ¬ Starts line diagnostic := by
  simp only [Option.eq_none_iff_forall_ne_some, ne_eq, startOf?_eq_some_iff]

/-- One more line starts a report or goes on with the last one. -/
theorem Collects.readLine {lines : List (List Char)} {collector : Collector}
    (collects : Collects lines collector) (line : List Char) :
    Collects (lines ++ [line]) (readLine collector line) := by
  obtain ⟨leading, reports, hleading, rfl, hall⟩ := collects
  rcases hstart : startOf? line with - | diagnostic
  · have h := startOf?_eq_none_iff.1 hstart
    rcases List.eq_nil_or_concat reports with rfl | ⟨earlier, last, rfl⟩
    · -- There is no report yet that the line could go on with.
      have hread : (JavaCompiler.readLine collector line).all = [] := by
        simp only [List.map_nil] at hall
        simp only [JavaCompiler.readLine, hstart, Collector.continueLast, hall]
        split <;> simpa using hall
      refine ⟨leading ++ [line], [], ?_, ?_, hread⟩
      · simpa [or_imp, forall_and] using ⟨hleading, h⟩
      · simp
    · refine ⟨leading, earlier ++ [last.extend line h], hleading, ?_, ?_⟩
      · simp [Report.lines, Report.extend]
      · by_cases idle : IsIdle line
        · simp only [JavaCompiler.readLine, isIdle_iff.2 idle, if_true, hall]
          simp [Report.diagnostic_extend_of_idle idle]
        · have hidle : isIdle line = false := by rwa [← Bool.not_eq_true, isIdle_iff]
          simp only [JavaCompiler.readLine, hidle, hstart, Collector.continueLast, hall]
          simp [Report.diagnostic_extend idle]
  · have starts := startOf?_eq_some_iff.1 hstart
    refine ⟨leading, reports ++ [⟨line, [], diagnostic, starts, by simp⟩], hleading, ?_, ?_⟩
    · simp [Report.lines]
    · simp only [JavaCompiler.readLine, isIdle_of_starts starts, hstart, Collector.report, hall]
      simp [Report.diagnostic]

theorem collects_lines (lines : List (List Char)) :
    Collects lines (lines.foldl readLine .empty) := by
  induction lines using List.reverseRecOn with
  | nil => exact ⟨[], [], by simp, rfl, rfl⟩
  | append_singleton lines line ih =>
    rw [List.foldl_append]
    exact ih.readLine line

/-- **What is collected from an output**: its lines are cut where reports start, and there is one
    diagnostic for each report, in order, with the severity, place and text of the line that starts it,
    and with the later lines of the report behind that text, except for blank lines and counts. -/
theorem readOutput_reports (output : String) :
    ∃ (leading : List (List Char)) (reports : List Report),
      (∀ line ∈ leading, ∀ diagnostic, ¬ Starts line diagnostic) ∧
        Text.lines output.toList = leading ++ reports.flatMap Report.lines ∧
        (readOutput output).all = reports.map Report.diagnostic :=
  collects_lines (Text.lines output.toList)

/-- A line in front of the first report, two places in one line, and a count at the end. -/
example : (readOutput "Picked up\nA.java:3: error: B.java:4: error: c\n  d\n \n1 error\n").all =
    [⟨.error, some ⟨"A.java"⟩, some 3, "B.java:4: error: c\n  d"⟩] := by
  decide +kernel

end JavaCompiler

end KotlinHarness
