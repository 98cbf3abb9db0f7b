/-
  How much of the compiler's output is told.

  The strategy that calls the compiler of the host reads what it printed line by line and tells the
  diagnostics found: a line that starts one as that diagnostic, any other line as it is, behind the
  diagnostic that it continues.  A line in front of the first diagnostic continues none, and is lost;
  the strategy that runs the compiler of a JDK forwards everything.

    * `text_readOutput`   which lines are told, in order
    * `mem_inText_told`   a known problem that a line gives away is given away by what is told of it
    * `embedded_tells`    what a call of the compiler leaves on the message stream
    * `crash_untold`      a crash of which nothing is told
-/
import KotlinHarness.JavaCompiler.Strategy
import KotlinHarness.Proofs.Action
import KotlinHarness.Proofs.Messages.Captured
import KotlinHarness.Proofs.Text.Utf8

namespace KotlinHarness

/-! ## Collected diagnostics as text -/

namespace Collector

variable {collector : Collector}

theorem text_report (diagnostic : Diagnostic) :
    (collector.report diagnostic).text = collector.text ++ (diagnostic.text ++ "\n") := by
  simp [report, text, String.join_append, String.join_cons]

/-- A line that continues a diagnostic stands behind it. -/
theorem text_continueLast (h : collector.all ≠ []) (line : String) :
    (collector.continueLast line).1.text = collector.text ++ (line ++ "\n") ∧
      (collector.continueLast line).1.all ≠ [] := by
  obtain ⟨earlier, last, hall⟩ := (List.eq_nil_or_concat collector.all).resolve_left h
  rw [List.concat_eq_append] at hall
  simp [continueLast, text, hall, Diagnostic.text, String.join_append, String.join_cons,
    String.append_assoc]

end Collector

namespace Diagnostic

theorem message_suffix (diagnostic : Diagnostic) :
    diagnostic.message.toList <:+ diagnostic.text.toList := by
  rw [text, String.toList_append]
  exact List.suffix_append _ _

theorem source_prefix (diagnostic : Diagnostic) (source : Path) (line : Nat) :
    source.text.toList <+: (diagnostic.placedAt source line).text.toList := by
  simp only [text, placedAt, String.toList_append, List.append_assoc]
  exact List.prefix_append _ _

end Diagnostic

namespace JavaCompiler

/-! ## Lines of an output -/

/-- The lines that belong to something. -/
def telling (output : String) : List (List Char) :=
  (Text.lines output.toList).filter (!isIdle ·)

/-- Whether a line starts no diagnostic. -/
def startsNone (line : List Char) : Bool := (startOf? line).isNone

/-- The lines in front of the first diagnostic. -/
def untold (output : String) : List (List Char) := (telling output).takeWhile startsNone

/-- The lines from the first diagnostic on. -/
def told (output : String) : List (List Char) := (telling output).dropWhile startsNone

/-- A line as it is told: as the diagnostic that it starts, or as it is. -/
def printed (line : List Char) : String :=
  match startOf? line with
  | some diagnostic => diagnostic.text
  | none => String.ofList line

/-- Lines of text, each ended. -/
def inLines (lines : List String) : String := String.join (lines.map (· ++ "\n"))

theorem untold_append_told (output : String) : untold output ++ told output = telling output :=
  List.takeWhile_append_dropWhile

/-- Everything is told of an output that begins with a diagnostic. -/
theorem told_eq_telling_iff (output : String) :
    told output = telling output ↔ ∀ line ∈ (telling output).head?, startsNone line = false := by
  rw [told]
  cases telling output with
  | nil => simp
  | cons first rest =>
    rw [List.dropWhile_cons]
    split
    · next h =>
      have shorter : (rest.dropWhile startsNone).length < (first :: rest).length :=
        Nat.lt_succ_of_le (List.dropWhile_sublist startsNone).length_le
      simp only [List.head?_cons, Option.mem_some_iff, forall_eq', h, Bool.true_eq_false, iff_false]
      exact fun heq => Nat.lt_irrefl _ (heq ▸ shorter)
    · next h => simpa using h

theorem inLines_cons (line : String) (rest : List String) :
    inLines (line :: rest) = line ++ "\n" ++ inLines rest := by
  rw [inLines, List.map_cons, String.join_cons, inLines]

/-- A line that belongs to something is told when there is a diagnostic for it. -/
theorem text_readLine {collector : Collector} {line : List Char} (tells : isIdle line = false)
    (h : collector.all ≠ [] ∨ startsNone line = false) :
    (readLine collector line).text = collector.text ++ (printed line ++ "\n") ∧
      (readLine collector line).all ≠ [] := by
  rw [startsNone] at h
  rw [readLine, tells, printed]
  rcases hstart : startOf? line with _ | diagnostic
  · have hall : collector.all ≠ [] := h.resolve_right (by simp [hstart])
    exact Collector.text_continueLast hall (String.ofList line)
  · exact ⟨Collector.text_report diagnostic, by simp [Collector.report]⟩

/-- Behind a diagnostic every line is told. -/
theorem text_readLines {collector : Collector} (h : collector.all ≠ []) (lines : List (List Char)) :
    (lines.foldl readLine collector).text =
      collector.text ++ inLines ((lines.filter (!isIdle ·)).map printed) := by
  induction lines generalizing collector with
  | nil => simp [inLines]
  | cons line rest ih =>
    rw [List.foldl_cons]
    cases tells : isIdle line with
    | true =>
      rw [show readLine collector line = collector by rw [readLine, tells]; rfl, ih h]
      simp [tells]
    | false =>
      obtain ⟨htext, hall⟩ := text_readLine tells (.inl h)
      rw [ih hall, htext, List.filter_cons_of_pos (by simp [tells]), List.map_cons, inLines_cons,
        String.append_assoc]

/-- **What is told of an output**: its lines from the first diagnostic on, in their order. -/
theorem text_readOutput (output : String) :
    (readOutput output).text = inLines ((told output).map printed) := by
  rw [readOutput, told, telling]
  induction Text.lines output.toList with
  | nil => rfl
  | cons line rest ih =>
    rw [List.foldl_cons]
    cases tells : isIdle line with
    | true =>
      rw [show readLine .empty line = .empty by rw [readLine, tells]; rfl, ih,
        List.filter_cons_of_neg (by simp [tells])]
    | false =>
      rw [List.filter_cons_of_pos (by simp [tells]), List.dropWhile_cons]
      cases hstart : startsNone line with
      | true =>
        -- There is no diagnostic yet that the line could continue.
        have hnone : startOf? line = none := Option.isNone_iff_eq_none.1 hstart
        rw [show readLine .empty line = .empty by rw [readLine, tells, hnone]; rfl, ih]
        rfl
      | false =>
        obtain ⟨htext, hall⟩ : (readLine .empty line).text =
            Collector.empty.text ++ (printed line ++ "\n") ∧ (readLine .empty line).all ≠ [] :=
          text_readLine tells (.inr hstart)
        rw [text_readLines hall, htext, if_neg Bool.false_ne_true, List.map_cons, inLines_cons]
        simp [Collector.text, Collector.empty]

/-! ## Markers of known problems -/

/-- A part of a line that stays whole when the line is read as a diagnostic. -/
structure Whole (part : List Char) : Prop where
  /-- It is no number, no word, and no blank line. -/
  dot : '.' ∈ part
  colon : ':' ∉ part
  feed : '\n' ∉ part
  carriage : '\r' ∉ part
  blank : part.head? ≠ some ' '

theorem marker_whole (problem : KnownProblem) : Whole problem.marker.toList := by
  cases problem <;> constructor <;> decide +kernel

theorem mem_inText_iff (problem : KnownProblem) (text : String) :
    problem ∈ KnownProblem.inText text ↔ problem.marker.toList <:+: text.toList := by
  have hall : problem ∈ KnownProblem.all := by cases problem <;> decide
  rw [KnownProblem.inText, List.mem_filter, Text.occursIn_iff, and_iff_right hall]

variable {part line : List Char}

theorem drop_takeWhile (p : Char → Bool) (text : List Char) :
    text.drop (text.takeWhile p).length = text.dropWhile p := by
  have h : (text.takeWhile p ++ text.dropWhile p).drop (text.takeWhile p).length =
      text.dropWhile p := List.drop_left
  rwa [List.takeWhile_append_dropWhile] at h

theorem mem_dropWhile {p : Char → Bool} {c : Char} {text : List Char} (hc : p c = false)
    (hm : c ∈ text) : c ∈ text.dropWhile p := by
  rw [← List.takeWhile_append_dropWhile (p := p) (l := text)] at hm
  refine (List.mem_append.1 hm).resolve_left fun htake => ?_
  rw [List.all_eq_true.1 List.all_takeWhile c htake] at hc
  cases hc

theorem mem_trim {c : Char} (hc : Text.isSpace c = false) (hm : c ∈ line) : c ∈ Text.trim line := by
  rw [Text.trim, Text.dropEndWhile, List.mem_reverse]
  exact mem_dropWhile hc (List.mem_reverse.2 (mem_dropWhile hc hm))

/-- A count of errors or warnings has no dot. -/
theorem isSummary_dot (h : '.' ∈ line) : isSummary line = false := by
  have hdot : '.' ∈ (String.ofList (line.dropWhile Text.isDecimal)).toList := by
    rw [String.toList_ofList]
    exact mem_dropWhile (by decide) h
  have hrest : [" error", " errors", " warning", " warnings"].contains
      (String.ofList (line.dropWhile Text.isDecimal)) = false := by
    rw [Bool.eq_false_iff, ne_eq, List.contains_iff_mem]
    generalize String.ofList (line.dropWhile Text.isDecimal) = rest at hdot
    revert hdot
    simp only [List.mem_cons, List.not_mem_nil, or_false]
    rintro hdot (rfl | rfl | rfl | rfl) <;> revert hdot <;> decide
  rw [isSummary, drop_takeWhile]
  exact Bool.and_eq_false_iff.2 (.inr hrest)

/-- A line with a dot belongs to something. -/
theorem isIdle_dot (h : '.' ∈ line) : isIdle line = false := by
  have htrim : '.' ∈ Text.trim line := mem_trim (by decide) h
  rw [isIdle, isSummary_dot htrim, Bool.or_false]
  exact List.isEmpty_eq_false_iff.2 (List.ne_nil_of_mem htrim)

/-- What of a line stands behind a word and a colon is a message. -/
theorem infix_message (word : List Char) {message : List Char} (h : Whole part) (hword : '.' ∉ word)
    (occurs : part <:+: word ++ ':' :: ' ' :: message) : part <:+: message := by
  rcases (Text.infix_append_cons h.colon).1 occurs with occurs | occurs
  · exact absurd (occurs.subset h.dot) hword
  · rcases List.infix_cons_iff.1 occurs with ⟨back, heq⟩ | occurs
    · cases part with
      | nil => exact List.nil_infix
      | cons c part => exact absurd (congrArg some (List.cons.inj heq).1) h.blank
    · exact occurs

theorem afterHead?_eq {α : Type} {heads : List (String × α)} {text rest : List Char} {value : α}
    (h : afterHead? heads text = some (value, rest)) :
    ∃ head, (head, value) ∈ heads ∧ text = head.toList ++ rest := by
  rw [afterHead?] at h
  obtain ⟨⟨head, other⟩, hm, h⟩ := List.exists_of_findSome?_eq_some h
  obtain ⟨found, hfound, hvalue⟩ := Option.map_eq_some_iff.1 h
  cases hvalue
  exact ⟨head, hm, (List.append_eq_of_isPrefixOf?_eq_some hfound).symm⟩

/-- After a colon stand the digits of a place, and the head that tells the severity. -/
theorem afterSource?_parts {text digits message : List Char} {severity : Severity}
    (h : afterSource? text = some (digits, severity, message)) :
    ∃ head, (head, severity) ∈ [(": error: ", Severity.error), (": warning: ", .warning)] ∧
      digits ≠ [] ∧ (∀ c ∈ digits, Text.isDecimal c = true) ∧
      text = ':' :: (digits ++ (head.toList ++ message)) := by
  unfold afterSource? at h
  split at h
  · next rest =>
    simp only at h
    split at h
    · cases h
    · next hempty =>
      obtain ⟨⟨found, behind⟩, hfound, hvalue⟩ := Option.map_eq_some_iff.1 h
      cases hvalue
      obtain ⟨head, hm, hrest⟩ := afterHead?_eq hfound
      refine ⟨head, hm, fun hnil => hempty (List.isEmpty_iff.2 hnil),
        List.all_eq_true.1 List.all_takeWhile, ?_⟩
      rw [← hrest, List.prefix_iff_eq_append.1 (List.takeWhile_prefix Text.isDecimal)]
  · cases h

/-- What stands between the digits of a place and the message has no dot. -/
theorem afterSource?_eq {text digits message : List Char} {severity : Severity}
    (h : afterSource? text = some (digits, severity, message)) :
    ∃ word, '.' ∉ word ∧ '.' ∉ digits ∧
      text = ':' :: (digits ++ ':' :: (word ++ ':' :: ' ' :: message)) := by
  obtain ⟨head, hm, -, hdecimal, htext⟩ := afterSource?_parts h
  have hdigits : '.' ∉ digits := fun hdot => absurd (hdecimal '.' hdot) (by decide)
  simp only [List.mem_cons, List.not_mem_nil, or_false, Prod.mk.injEq] at hm
  rcases hm with ⟨rfl, rfl⟩ | ⟨rfl, rfl⟩
  · exact ⟨" error".toList, by decide, hdigits, htext⟩
  · exact ⟨" warning".toList, by decide, hdigits, htext⟩

/-- A line about a place in a source. -/
theorem placed?_eq {path digits message : List Char} {severity : Severity}
    (h : placed? line = some (path, digits, severity, message)) :
    ∃ word, '.' ∉ word ∧ '.' ∉ digits ∧
      line = path ++ ':' :: (digits ++ ':' :: (word ++ ':' :: ' ' :: message)) := by
  induction line generalizing path with
  | nil => cases h
  | cons c rest ih =>
    rw [placed?] at h
    split at h
    · next found hfound =>
      cases h
      obtain ⟨after, hafter, hfound⟩ := Option.bind_eq_some_iff.1 hfound
      obtain ⟨word, hword, hdigits, rfl⟩ := afterSource?_eq hfound
      exact ⟨word, hword, hdigits, (List.append_eq_of_isPrefixOf?_eq_some hafter).symm⟩
    · obtain ⟨⟨path', found⟩, hfound, hvalue⟩ := Option.map_eq_some_iff.1 h
      cases hvalue
      obtain ⟨word, hword, hdigits, hrest⟩ := ih hfound
      exact ⟨word, hword, hdigits, congrArg (c :: ·) hrest⟩

/-- A line keeps its whole parts when it is told as a diagnostic. -/
theorem infix_printed (h : Whole part) (occurs : part <:+: line) :
    part <:+: (printed line).toList := by
  have told : ∀ {diagnostic : Diagnostic}, part <:+: diagnostic.message.toList →
      part <:+: diagnostic.text.toList := fun {diagnostic} hmessage =>
    hmessage.trans diagnostic.message_suffix.isInfix
  rw [printed, startOf?]
  rcases hplaced : placed? line with _ | ⟨path, digits, severity, message⟩
  · rcases hhead : afterHead? [("error: ", Severity.error), ("warning: ", .warning),
      ("Note: ", .note)] line with _ | ⟨severity, message⟩
    · simpa [String.toList_ofList] using occurs
    · refine told ?_
      show part <:+: (String.ofList message).toList
      rw [String.toList_ofList]
      obtain ⟨head, hm, rfl⟩ := afterHead?_eq hhead
      simp only [List.mem_cons, List.not_mem_nil, or_false, Prod.mk.injEq] at hm
      rcases hm with ⟨rfl, rfl⟩ | ⟨rfl, rfl⟩ | ⟨rfl, rfl⟩
      · exact infix_message "error".toList h (by decide) occurs
      · exact infix_message "warning".toList h (by decide) occurs
      · exact infix_message "Note".toList h (by decide) occurs
  · obtain ⟨word, hword, hdigits, rfl⟩ := placed?_eq hplaced
    rcases (Text.infix_append_cons h.colon).1 occurs with hpath | occurs
    · refine List.IsInfix.trans ?_ (Diagnostic.source_prefix _ _ _).isInfix
      rwa [String.toList_ofList]
    · refine told ?_
      show part <:+: (String.ofList message).toList
      rw [String.toList_ofList]
      rcases (Text.infix_append_cons h.colon).1 occurs with occurs | occurs
      · exact absurd (occurs.subset h.dot) hdigits
      · exact infix_message word h hword occurs

theorem infix_inLines {lines : List String} {line : String} (hm : line ∈ lines) :
    line.toList <:+: (inLines lines).toList := by
  obtain ⟨before, after, rfl⟩ := List.append_of_mem hm
  rw [inLines, List.map_append, List.map_cons, String.join_append, String.join_cons,
    String.toList_append, String.toList_append, String.toList_append]
  rw [← List.append_assoc, ← List.append_assoc, List.append_assoc _ "\n".toList]
  exact List.infix_append _ _ _

/-- A known problem that the output gives away is given away by what is told, unless the marker
    stands in front of the first diagnostic. -/
theorem mem_inText_told {problem : KnownProblem} {output : String}
    (h : problem ∈ KnownProblem.inText output) :
    problem ∈ KnownProblem.inText (inLines ((told output).map printed)) ∨
      ∃ line ∈ untold output, problem.marker.toList <:+: line := by
  have whole := marker_whole problem
  obtain ⟨line, hline, occurs⟩ := Text.exists_line (List.ne_nil_of_mem whole.dot) whole.feed
    whole.carriage ((mem_inText_iff problem output).1 h)
  have tells : line ∈ telling output := List.mem_filter.2
    ⟨hline, by rw [isIdle_dot (occurs.subset whole.dot)]; rfl⟩
  rw [← untold_append_told] at tells
  rcases List.mem_append.1 tells with lost | kept
  · exact .inr ⟨line, lost, occurs⟩
  · exact .inl ((mem_inText_iff problem _).2
      ((infix_printed whole occurs).trans (infix_inLines (List.mem_map_of_mem kept))))

end JavaCompiler

/-! ## What is written -/

namespace Machine

variable {σ : Type} {machine after : Machine σ}

theorem captured_printBytes {bytes : Bytes} (h : printBytes bytes machine = .ok () after) :
    after.messages.captured = machine.messages.captured ++ bytes := by
  rw [printBytes] at h
  split at h
  · next hwrite =>
    cases h
    exact MessageStream.captured_writeAll hwrite
  · cases h

/-- Diagnostics are printed as they stand in a collector. -/
theorem captured_printDiagnostics {diagnostics : List Diagnostic}
    (h : printDiagnostics diagnostics machine = .ok () after) :
    after.messages.captured =
      machine.messages.captured ++ Text.encode (Collector.text ⟨diagnostics⟩) := by
  induction diagnostics generalizing machine with
  | nil =>
    cases h
    exact (List.append_nil _).symm
  | cons diagnostic rest ih =>
    obtain ⟨_, middle, hline, hrest⟩ := of_bind_ok h
    rw [ih hrest, captured_printBytes hline, List.append_assoc, ← Text.encode_append,
      Collector.text, Collector.text, List.map_cons, String.join_cons]

end Machine

namespace JavaStrategy

open JavaCompiler

variable {σ : Type} {machine after : Machine σ} {code : ExitCode}

/-- The line about a compiler that broke down. -/
def closing : Except ServiceError Bool → String
  | .ok _ => ""
  | .error error => "error: " ++ error.message ++ "
"

theorem captured_exitCodeOf {outcome : Except ServiceError Bool}
    (h : exitCodeOf outcome machine = .ok code after) :
    after.messages.captured = machine.messages.captured ++ Text.encode (closing outcome) := by
  unfold exitCodeOf at h
  split at h
  · cases h
    exact (List.append_nil _).symm
  · cases h
    exact (List.append_nil _).symm
  · split at h
    · obtain ⟨_, middle, hline, hlast⟩ := of_bind_ok h
      cases hlast
      exact Machine.captured_printBytes hline
    · cases h

/-- **What is told of a call of the host's compiler**: the lines from the first diagnostic on, in
    their order, and how the compiler broke down if it did.  That is all of them only if the output
    begins with a diagnostic.  A known problem that the output gives away is given away by the
    captured messages, unless its marker stands in front of the first diagnostic. -/
theorem embedded_tells {compiler : HostJavac} {javac : Path} {isModular : Bool}
    {resolution : Resolution} {sources : List Path} {result : Outcome}
    (found : compiler.javac = some javac)
    (ran : machine.environment.spawn
      { program := javac, arguments := embeddedArguments isModular resolution sources } = .ok result)
    (answered : (embedded compiler.service isModular).compile resolution sources machine =
      .ok code after) :
    after.messages.captured = machine.messages.captured ++
        Text.encode (inLines ((told result.text).map printed) ++
          closing (HostJavac.outcome result.text (readOutput result.text) result.ending)) ∧
      (told result.text = telling result.text ↔
        ∀ line ∈ (telling result.text).head?, startsNone line = false) ∧
      (∀ problem ∈ KnownProblem.inText result.text,
        problem ∈ KnownProblem.inText after.messages.text ∨
          ∃ line ∈ untold result.text, problem.marker.toList <:+: line) := by
  have hcaptured : after.messages.captured = machine.messages.captured ++
      Text.encode (inLines ((told result.text).map printed) ++
        closing (HostJavac.outcome result.text (readOutput result.text) result.ending)) := by
    obtain ⟨answer, called, hcall, answered⟩ := of_bind_ok answered
    obtain ⟨_, middle, hprint, hend⟩ := of_bind_ok answered
    have hanswer : answer = ⟨HostJavac.outcome result.text (readOutput result.text) result.ending,
        readOutput result.text⟩ ∧ called = machine := by
      rw [callService, HostJavac.service] at hcall
      simp only [HostJavac.compile, found, ran] at hcall
      cases hcall
      exact ⟨rfl, rfl⟩
    obtain ⟨rfl, rfl⟩ := hanswer
    rw [captured_exitCodeOf hend, Machine.captured_printDiagnostics hprint, List.append_assoc,
      ← Text.encode_append, ← text_readOutput]
  refine ⟨hcaptured, told_eq_telling_iff result.text, fun problem hproblem => ?_⟩
  refine (mem_inText_told hproblem).imp_left fun htold => ?_
  rw [mem_inText_iff] at htold ⊢
  rw [MessageStream.text, hcaptured, Text.decodeLossy_append_encode, String.toList_append,
    String.toList_append]
  exact htold.trans (List.infix_append' _ _ _)

/-! ## A listing and a crash -/

/-- A host whose compiler prints a text and ends with a status, whatever it is called with. -/
def javacPrinting (text : String) (status : Nat) : Environment where
  files := FileTree.empty.insert ["javac"]
    (.file ⟨[], .executable (some ⟨fun _ => ⟨Text.encode text, [], .exited status⟩⟩)⟩)
  workingDirectory := []
  vars := []
  temporaries := 0

/-- The compiler of that host. -/
def installedJavac : HostJavac := ⟨some ⟨"/javac"⟩⟩

/-- The machine on that host. -/
def machineOn (text : String) (status : Nat) : Machine Unit :=
  Machine.start (javacPrinting text status) 5 ()

/-- A call with one source. -/
def oneCommand : Command :=
  { program := ⟨"/javac"⟩, arguments := embeddedArguments true default [⟨"A.java"⟩] }

/-- What the compiler prints, how the call ends, and what is captured then. -/
def answerOn (text : String) (status : Nat) : Option (String × ExitCode × String) :=
  match (machineOn text status).environment.spawn oneCommand,
      (embedded installedJavac.service true).compile default [⟨"A.java"⟩] (machineOn text status) with
  | .ok result, .ok code after => some (result.text, code, after.messages.text)
  | _, _ => none

theorem of_answerOn {text printed told : String} {status : Nat} {code : ExitCode}
    (h : answerOn text status = some (printed, code, told)) :
    ∃ result after, (machineOn text status).environment.spawn oneCommand = .ok result ∧
      (embedded installedJavac.service true).compile default [⟨"A.java"⟩] (machineOn text status) =
        .ok code after ∧ result.text = printed ∧ after.messages.text = told := by
  rw [answerOn] at h
  split at h
  · next result code' after hspawn hcompile =>
    cases h
    exact ⟨result, after, hspawn, hcompile, rfl, rfl⟩
  · cases h

/-- A listing with a note before its error. -/
def listing : String := "Note: old\n  more\nA.java:7: error: no\n  class B\n\n1 error\n"

theorem listing_answer : answerOn listing 1 = some (listing, .compilationError,
    "note: old\n  more\nA.java:7: error: no\n  class B\n") := by decide +kernel

theorem listing_told :
    ∃ result after, installedJavac.javac = some ⟨"/javac"⟩ ∧
      (machineOn listing 1).environment.spawn oneCommand = .ok result ∧
      (embedded installedJavac.service true).compile default [⟨"A.java"⟩] (machineOn listing 1) =
        .ok .compilationError after ∧
      after.messages.captured = (machineOn listing 1).messages.captured ++
        Text.encode (inLines ((told result.text).map printed) ++
          closing (HostJavac.outcome result.text (readOutput result.text) result.ending)) ∧
      (told result.text = telling result.text ↔
        ∀ line ∈ (telling result.text).head?, startsNone line = false) ∧
      (∀ problem ∈ KnownProblem.inText result.text,
        problem ∈ KnownProblem.inText after.messages.text ∨
          ∃ line ∈ untold result.text, problem.marker.toList <:+: line) := by
  obtain ⟨result, after, ran, answered, -, -⟩ := of_answerOn listing_answer
  have found : installedJavac.javac = some ⟨"/javac"⟩ := rfl
  exact ⟨result, after, found, ran, answered, embedded_tells found ran answered⟩

/-- A compiler without its platform classes, which says so without a diagnostic. -/
def crash : String :=
  "An exception has occurred in the compiler\n" ++ KnownProblem.missingPlatformClasses.marker ++ "\n"

/-- Two lines are printed, one of them the marker of a known problem, and nothing is captured. -/
theorem crash_untold :
    ∃ result after, (machineOn crash 1).environment.spawn oneCommand = .ok result ∧
      (embedded installedJavac.service true).compile default [⟨"A.java"⟩] (machineOn crash 1) =
        .ok .compilationError after ∧
      (telling result.text).map String.ofList = ["An exception has occurred in the compiler",
        KnownProblem.missingPlatformClasses.marker] ∧
      .missingPlatformClasses ∈ KnownProblem.inText result.text ∧
      after.messages.text = "" ∧ KnownProblem.inText after.messages.text = [] := by
  have answer : answerOn crash 1 = some (crash, .compilationError, "") := by decide +kernel
  obtain ⟨result, after, ran, answered, hprinted, hcaptured⟩ := of_answerOn answer
  refine ⟨result, after, ran, answered, ?_, ?_, hcaptured, ?_⟩
  · rw [hprinted]
    decide +kernel
  · rw [hprinted]
    decide +kernel
  · rw [hcaptured]
    decide +kernel

end JavaStrategy

end KotlinHarness
