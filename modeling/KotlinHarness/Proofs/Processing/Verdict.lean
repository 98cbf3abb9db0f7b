/-
  How annotation processing ends, and what it prints.

  A processor reports diagnostics at any time; they are collected and printed when everything is
  over, also when that is because a processor failed.  `Works` follows one call of a processor and
  lists what it reports, `reportedIn` reads the same list off the collector, and over an account of
  the rounds (`Rounds`) the lists make up all that was collected (`Rounds.reported`).

  What is left to do is then a row of lines: the diagnostics, and one more line if a processor
  failed.  So the only thing that can still go wrong is writing them (`printLines_eq`).  The files
  of a round can always be read, since they were created as texts and nobody takes them away
  (`Rounds.ne_unreadable`).

  `process_verdict` puts this together.  Rounds go on as long as files are created; an account that
  is cut off at the limit of rounds says nothing of how the processing would have ended.
-/
import KotlinHarness.Proofs.Messages.Captured
import KotlinHarness.Proofs.Processing.Protocol

namespace KotlinHarness

/-! ## Printing lines -/

namespace MessageStream

variable {σ : Type}

theorem captured_writeEach {stream after : MessageStream σ} {pieces : List Bytes} {state last : σ}
    (h : stream.writeEach pieces state = (.ok (), after, last)) :
    after.captured = stream.captured ++ pieces.flatten := by
  induction pieces generalizing stream state with
  | nil =>
    cases h
    exact (List.append_nil _).symm
  | cons piece rest ih =>
    rw [writeEach] at h
    split at h
    · cases h
    · next hwrite =>
      rw [ih h, captured_writeAll hwrite, List.append_assoc, List.flatten_cons]

end MessageStream

namespace Machine

variable {σ : Type}

/-- The octets of lines, each with its end. -/
def octets (lines : List String) : List Bytes := lines.map fun line => Text.encode (line ++ "\n")

/-- Prints lines, up to the first that cannot be written. -/
def printLines : List String → MachineAction σ Unit
  | [] => pure ()
  | line :: rest => do
    printLine line
    printLines rest

theorem printLines_append (first second : List String) (machine : Machine σ) :
    printLines (first ++ second) machine =
      (printLines first >>= fun _ => printLines second) machine := by
  induction first generalizing machine with
  | nil => rfl
  | cons line rest ih =>
    rw [List.cons_append, printLines, printLines, bind_eq, bind_eq, bind_eq]
    rcases printLine line machine with ⟨⟨⟩, middle⟩ | ⟨cause, middle⟩
    · simp only
      rw [ih middle, bind_eq]
    · rfl

theorem printDiagnostics_eq (diagnostics : List Diagnostic) :
    (printDiagnostics diagnostics : MachineAction σ Unit) =
      printLines (diagnostics.map Diagnostic.text) := by
  induction diagnostics with
  | nil => rfl
  | cons diagnostic rest ih => rw [List.map_cons, printDiagnostics, printLines, ih]

/-- Printing lines is writing them, and fails with what the stream refuses. -/
theorem printLines_eq (lines : List String) (machine : Machine σ) :
    printLines lines machine =
      match machine.messages.writeEach (octets lines) machine.client with
      | (.ok (), messages, client) => .ok () { machine with messages, client }
      | (.error fault, messages, client) =>
        .error (.io fault) { machine with messages, client } := by
  induction lines generalizing machine with
  | nil => rfl
  | cons line rest ih =>
    rw [printLines, bind_eq, printLine, printBytes, octets, List.map_cons, MessageStream.writeEach]
    rcases machine.messages.writeAll (Text.encode (line ++ "\n")) machine.client with
      ⟨fault | ⟨⟩, messages, client⟩
    · rfl
    · simp only
      rw [ih]
      rfl

end Machine

/-! ## What processors report -/

namespace Processing

variable {σ : Type}

/-- What a processor may do besides: nothing to the filer, to what was reported, or to the files
    that were created. -/
structure Aside (before after : Processing σ) : Prop where
  created : LeavesCreated before after
  diagnostics : after.diagnostics = before.diagnostics

/-- What a processor does in one call, and the diagnostics it reports meanwhile. -/
inductive Works : Processing σ → List Diagnostic → Processing σ → Prop
  | nothing (run : Processing σ) : Works run [] run
  | create {first middle : Processing σ} {reports : List Diagnostic}
      (earlier : Works first reports middle) (language : Language) (name content : String) :
      Works first reports (finalState (createSource language name content middle))
  | report {first middle : Processing σ} {reports : List Diagnostic}
      (earlier : Works first reports middle) (diagnostic : Diagnostic) :
      Works first (reports ++ [diagnostic]) (finalState (report diagnostic middle))
  | aside {first middle last : Processing σ} {reports : List Diagnostic}
      (earlier : Works first reports middle) (other : Aside middle last) : Works first reports last

/-- In every call the processor creates files, reports diagnostics, and leaves both alone
    otherwise. -/
def WorksAndReports (processor : Processor σ) : Prop :=
  ∀ round run, ∃ reports, Works run reports (finalState (processor.process round run))

theorem diagnostics_createSource (language : Language) (name content : String)
    (run : Processing σ) :
    (finalState (createSource language name content run)).diagnostics = run.diagnostics := by
  rw [createSource]
  split <;> rfl

/-- What is reported is collected. -/
theorem Works.collected {first last : Processing σ} {reports : List Diagnostic}
    (h : Works first reports last) :
    last.diagnostics.all = first.diagnostics.all ++ reports := by
  induction h with
  | nothing => exact (List.append_nil _).symm
  | create _ language name content ih => rw [diagnostics_createSource, ih]
  | @report middle reports _ diagnostic ih =>
    show middle.diagnostics.all ++ [diagnostic] = _
    rw [ih, List.append_assoc]
  | aside _ other ih => rw [other.diagnostics, ih]

theorem leavesCreated_report (diagnostic : Diagnostic) (run : Processing σ) :
    LeavesCreated run (finalState (report diagnostic run)) := ⟨rfl, fun _ _ readable => readable⟩

/-- For the filer, reporting is one thing among others. -/
theorem Works.steps {first last : Processing σ} {reports : List Diagnostic}
    (h : Works first reports last) : Steps LeavesCreated first last := by
  induction h with
  | nothing => exact .refl _
  | create _ language name content ih => exact .tail ih (.create language name content)
  | report _ diagnostic ih => exact .tail ih (.aside (leavesCreated_report diagnostic _))
  | aside _ other ih => exact .tail ih (.aside other.created)

theorem Steps.mono {other more : Processing σ → Processing σ → Prop}
    (le : ∀ before after, other before after → more before after) {first last : Processing σ}
    (h : Steps other first last) : Steps more first last := by
  refine h.lift (steps_composes more) ?_
  intro before after step
  cases step with
  | create language name content => exact .tail (.refl _) (.create language name content)
  | aside h => exact .tail (.refl _) (.aside (le _ _ h))

theorem WorksAndReports.steps {processor : Processor σ} (h : WorksAndReports processor) :
    WorksInSteps LeavesCreated processor := by
  intro round run
  obtain ⟨reports, hworks⟩ := h round run
  exact hworks.steps

/-- The diagnostics that were reported in a call of a processor. -/
def reportedIn (round : Round) (call : Processor σ × Processing σ) : List Diagnostic :=
  (finalState (call.1.process round call.2)).diagnostics.all.drop call.2.diagnostics.all.length

theorem WorksAndReports.reported {processor : Processor σ} (h : WorksAndReports processor)
    (round : Round) (run : Processing σ) :
    Works run (reportedIn round (processor, run)) (finalState (processor.process round run)) := by
  obtain ⟨reports, hworks⟩ := h round run
  have hreports : reportedIn round (processor, run) = reports := by
    rw [reportedIn, hworks.collected, List.drop_left]
  rw [hreports]
  exact hworks

end Processing

namespace RoundRun

variable {σ : Type}

/-- The diagnostics that were reported in a round, processor by processor. -/
def reported (one : RoundRun σ) : List Diagnostic :=
  one.called.flatMap (Processing.reportedIn one.round)

/-- No processor fails in a round in which all are called. -/
theorem Complete.succeeds {processors : List (Processor σ)} {one : RoundRun σ}
    (h : one.Complete processors) :
    ¬ ∃ call ∈ one.called, ∃ cause stop, call.1.process one.round call.2 = .error cause stop := by
  rintro ⟨call, hm, cause, stop, hfails⟩
  obtain ⟨next, hnext⟩ := h.turns.of_ok.2 call hm
  rw [show call.1.process one.round call.2 = _ from hnext] at hfails
  cases hfails

end RoundRun

namespace Processing

variable {σ : Type} {processors : List (Processor σ)} {limit : Nat} {files : List Path}
  {round : Round} {run last : Processing σ} {rounds : List (RoundRun σ)} {ending : RoundsEnding}

/-- A round collects what its processors report, one after the other. -/
theorem collected_of_turns {called : List (Processor σ × Processing σ)}
    {result : EStateM.Result Failure (Processing σ) Unit}
    (works : ∀ processor ∈ processors, WorksAndReports processor)
    (h : InTurn (turn round) processors run called result) :
    (finalState result).diagnostics.all =
      run.diagnostics.all ++ called.flatMap (reportedIn round) := by
  induction h with
  | done _ => exact (List.append_nil _).symm
  | @failed processor rest run after cause answer =>
    have hcollected := ((works processor List.mem_cons_self).reported round run).collected
    rw [show processor.process round run = _ from answer] at hcollected
    rw [List.flatMap_singleton]
    exact hcollected
  | @next processor rest run middle called result answer others ih =>
    have hcollected := ((works processor List.mem_cons_self).reported round run).collected
    rw [show processor.process round run = _ from answer] at hcollected
    rw [ih fun other hm => works other (List.mem_cons_of_mem _ hm), List.flatMap_cons,
      ← List.append_assoc]
    exact congrArg (· ++ _) hcollected

/-- All rounds together collect what was reported in each. -/
theorem Rounds.reported (works : ∀ processor ∈ processors, WorksAndReports processor)
    (h : Rounds processors limit files round run rounds ending last) :
    last.diagnostics.all = run.diagnostics.all ++ rounds.flatMap RoundRun.reported := by
  induction h with
  | exhausted _ _ _ => exact (List.append_nil _).symm
  | failed turns _ | finished turns _ | unreadable turns _ _ =>
    rw [List.flatMap_singleton]
    exact collected_of_turns works turns
  | @next limit files round round' run stop last called rounds ending turns _ _ _ ih =>
    have hround : stop.diagnostics.all = _ := collected_of_turns works turns
    rw [ih, List.flatMap_cons, ← List.append_assoc]
    exact congrArg (· ++ _) hround

/-! ## The verdict -/

/-- Some processor failed, or some diagnostic was an error, in any round. -/
def AnyFailure (rounds : List (RoundRun σ)) : Prop :=
  ∃ one ∈ rounds,
    (∃ call ∈ one.called, ∃ cause stop, call.1.process one.round call.2 = .error cause stop) ∨
      ∃ diagnostic ∈ one.reported, diagnostic.severity = .error

/-- The line about the processor that failed, if one did. -/
def closingLines : RoundsEnding → List String
  | .failed processor cause => [failureLine processor cause]
  | _ => []

/-- What is printed at the end. -/
def printedLines (rounds : List (RoundRun σ)) (ending : RoundsEnding) : List String :=
  (rounds.flatMap RoundRun.reported).map Diagnostic.text ++ closingLines ending

/-- Lines are printed and a code is given, or a line cannot be written and that is the failure. -/
structure Concludes (machine : Machine σ) (last : Processing σ) (lines : List String)
    (code : ExitCode) (result : EStateM.Result Failure (Machine σ) ExitCode) : Prop where
  printed : ∀ messages client,
    machine.messages.writeEach (Machine.octets lines) last.client = (.ok (), messages, client) →
      result = .ok code { machine with environment := last.environment, messages, client } ∧
        messages.captured = machine.messages.captured ++ (Machine.octets lines).flatten
  refused : ∀ fault messages client,
    machine.messages.writeEach (Machine.octets lines) last.client =
        (.error fault, messages, client) →
      result = .error (.io fault) { machine with environment := last.environment, messages, client }

theorem concludes_of_printLines {machine : Machine σ} {lines : List String} {code : ExitCode}
    {result : EStateM.Result Failure (Machine σ) ExitCode}
    (h : result = (Machine.printLines lines >>= fun _ => pure code)
      { machine with environment := last.environment, client := last.client }) :
    Concludes machine last lines code result := by
  rw [bind_eq, Machine.printLines_eq] at h
  constructor
  · intro messages client hwritten
    rw [h, hwritten]
    exact ⟨rfl, MessageStream.captured_writeEach hwritten⟩
  · intro fault messages client hrefused
    rw [h, hrefused]

theorem conclude_over (diagnostics : Collector) (machine : Machine σ) :
    conclude .over diagnostics machine =
      (Machine.printLines (diagnostics.all.map Diagnostic.text ++ closingLines .over) >>= fun _ =>
        pure (if diagnostics.hasErrors then .compilationError else .ok)) machine := by
  rw [conclude, Machine.printDiagnostics_eq, show closingLines .over = [] from rfl, List.append_nil]

theorem conclude_failed (name : String) (cause : Failure) (diagnostics : Collector)
    (machine : Machine σ) :
    conclude (.failed name cause) diagnostics machine =
      (Machine.printLines
          (diagnostics.all.map Diagnostic.text ++ closingLines (.failed name cause)) >>=
        fun _ => pure .compilationError) machine := by
  rw [conclude, Machine.printDiagnostics_eq, closingLines, bind_eq, bind_eq,
    Machine.printLines_append, bind_eq]
  rcases Machine.printLines (diagnostics.all.map Diagnostic.text) machine with
    ⟨⟨⟩, middle⟩ | ⟨fault, middle⟩
  · simp only
    rw [bind_eq, Machine.printLines, bind_eq]
    cases Machine.printLine (failureLine name cause) middle <;> rfl
  · rfl

/-- Only processors of the registration are called in a round. -/
theorem mem_processors_of_turns {called : List (Processor σ × Processing σ)}
    {result : EStateM.Result Failure (Processing σ) Unit}
    (turns : InTurn (turn round) processors run called result) :
    ∀ call ∈ called, call.1 ∈ processors := by
  intro call hm
  refine List.Sublist.subset ?_ (List.mem_map_of_mem hm)
  rcases result with ⟨⟨⟩, stop⟩ | ⟨cause, stop⟩
  · rw [turns.of_ok.1]
  · obtain ⟨-, -, -, hprefix, -⟩ := turns.of_error
    exact hprefix.sublist

theorem Rounds.mem_processors (h : Rounds processors limit files round run rounds ending last) :
    ∀ one ∈ rounds, ∀ call ∈ one.called, call.1 ∈ processors := by
  induction h with
  | exhausted _ _ _ => exact fun _ hm => absurd hm List.not_mem_nil
  | failed turns _ | finished turns _ | unreadable turns _ _ =>
    intro one hm
    rw [List.mem_singleton.1 hm]
    exact mem_processors_of_turns turns
  | next turns _ _ _ ih => exact List.forall_mem_cons.2 ⟨mem_processors_of_turns turns, ih⟩

theorem hasErrors_iff (diagnostics : Collector) :
    diagnostics.hasErrors = true ↔
      ∃ diagnostic ∈ diagnostics.all, diagnostic.severity = .error := by
  simp [Collector.hasErrors, Severity.isError]

/-- A processor that ended the processing has failed in some round. -/
theorem anyFailure_of_failed {name : String} {cause : Failure} {env : Environment}
    (h : FollowsProtocol processors files env limit rounds (.failed name cause)) :
    AnyFailure rounds := by
  obtain ⟨earlier, breaking, hrounds, -, hbreaks⟩ := h.ending
  obtain ⟨before, processor, state, hcalled, -, hfails⟩ := hbreaks.failed
  refine ⟨breaking, by rw [hrounds]; simp, .inl ⟨(processor, state), ?_, cause, _, hfails⟩⟩
  rw [hcalled]
  simp

/-- Where all rounds were complete, no processor failed, and only what was reported counts. -/
theorem anyFailure_iff_of_complete (complete : ∀ one ∈ rounds, one.Complete processors) :
    AnyFailure rounds ↔
      ∃ diagnostic ∈ rounds.flatMap RoundRun.reported, diagnostic.severity = .error := by
  constructor
  · rintro ⟨one, hone, hfails | ⟨diagnostic, hm, herror⟩⟩
    · exact absurd hfails (complete one hone).succeeds
    · exact ⟨diagnostic, List.mem_flatMap.2 ⟨one, hone, hm⟩, herror⟩
  · rintro ⟨diagnostic, hm, herror⟩
    obtain ⟨one, hone, hm⟩ := List.mem_flatMap.1 hm
    exact ⟨one, hone, .inr ⟨diagnostic, hm, herror⟩⟩

/-- What comes of annotation processing, told by the account of its rounds. -/
structure Judged (registration : Registration σ) (inputs : List Path) (machine : Machine σ)
    (rounds : List (RoundRun σ)) (ending : RoundsEnding) (last : Processing σ) : Prop where
  protocol : FollowsProtocol registration.processors inputs machine.environment machine.roundLimit
    rounds ending
  /-- What is told of as reported are the diagnostics that processors reported. -/
  reports : ∀ one ∈ rounds, ∀ call ∈ one.called,
    Works call.2 (reportedIn one.round call) (finalState (call.1.process one.round call.2))
  /-- All of them are printed, the compilation has failed if there was any failure, and nothing else
      can go wrong but printing. -/
  verdict : ending ≠ .exhausted → ∃ code,
    Concludes machine last (printedLines rounds ending) code (process registration inputs machine) ∧
      (AnyFailure rounds → code = .compilationError) ∧ (¬ AnyFailure rounds → code = .ok)

/-- **The verdict of annotation processing**, for processors that touch files only by creating
    them. -/
theorem process_verdict (registration : Registration σ) (inputs : List Path) (machine : Machine σ)
    (readable : ∀ path ∈ inputs, machine.environment.Readable path)
    (works : ∀ processor ∈ registration.processors, WorksAndReports processor) :
    ∃ first rounds ending last,
      Rounds registration.processors machine.roundLimit inputs first
        (start registration machine.environment machine.client) rounds ending last ∧
      Judged registration inputs machine rounds ending last := by
  have steps : ∀ processor ∈ registration.processors, WorksInSteps LeavesCreated processor :=
    fun processor hm => (works processor hm).steps
  have leaves : ∀ processor ∈ registration.processors, WorksInSteps LeavesFiler processor :=
    fun processor hm round run => (steps processor hm round run).mono fun _ _ h => h.filer
  obtain ⟨first, rounds, ending, last, h, hprocess, hprotocol, -⟩ :=
    process_protocol registration inputs machine readable leaves
  refine ⟨first, rounds, ending, last, h, hprotocol, ?_, ?_⟩
  · intro one hone call hcall
    exact (works call.1 (h.mem_processors one hone call hcall)).reported one.round call.2
  · -- When the first round starts, nothing was created or reported.
    have distinct : (start registration machine.environment machine.client).Distinct :=
      List.Pairwise.nil
    have hreadable := h.ne_unreadable leaves steps distinct rfl
      fun _ hm => absurd hm List.not_mem_nil
    have hreported : last.diagnostics.all = rounds.flatMap RoundRun.reported := h.reported works
    intro goesOn
    rw [printedLines, ← hreported, hprocess]
    match ending, hprotocol, hreadable, goesOn with
    | .exhausted, _, _, goesOn => exact absurd rfl goesOn
    | .unreadable cause, _, hreadable, _ => exact absurd rfl (hreadable cause)
    | .failed name cause, hprotocol, _, _ =>
      refine ⟨_, concludes_of_printLines (conclude_failed name cause _ _), fun _ => rfl, ?_⟩
      exact fun hnone => absurd (anyFailure_of_failed hprotocol) hnone
    | .over, hprotocol, _, _ =>
      obtain ⟨earlier, quiet, final, -, hcomplete, -⟩ := hprotocol.ending
      have hany : AnyFailure rounds ↔ last.diagnostics.hasErrors = true := by
        rw [hasErrors_iff, hreported, anyFailure_iff_of_complete hcomplete]
      refine ⟨_, concludes_of_printLines (conclude_over _ _), ?_, ?_⟩
      · intro hfailure
        rw [if_pos (hany.1 hfailure)]
      · intro hnone
        rw [if_neg (mt hany.2 hnone)]

/-- Complains when there is nothing left to do. -/
def complainer : Processor Unit where
  name := "complainer"
  process round := do
    if round.isOver then
      report (.plain .error "too late")

theorem builder_worksAndReports : WorksAndReports builder := by
  have ignoring : ∀ {α : Type} (action : ProcessingAction Unit α) (run : Processing Unit),
      finalState ((action >>= fun _ => pure ()) run) = finalState (action run) := by
    intro α action run
    rw [bind_eq]
    cases action run <;> rfl
  intro round run
  refine ⟨[], ?_⟩
  unfold builder
  simp only
  split
  · rw [ignoring]
    exact .create (.nothing run) .java "gen.ABuilder" _
  · exact .nothing run

theorem counter_worksAndReports : WorksAndReports counter := fun round run =>
  ⟨_, .report (.nothing run) (.plain .note (toString round.elements.length))⟩

theorem complainer_worksAndReports : WorksAndReports complainer := by
  intro round run
  unfold complainer
  simp only
  split
  · exact ⟨_, .report (.nothing run) (.plain .error "too late")⟩
  · exact ⟨[], .nothing run⟩

/-- Files are created in the first round, and an error is reported in the final one. -/
def complaining : Registration Unit :=
  { buildersRegistration with processors := [builder, counter, complainer] }

theorem complaining_judged :
    (∀ path ∈ [(⟨"/A.kt"⟩ : Path)], (Machine.start oneFile 5 ()).environment.Readable path) ∧
      (∀ processor ∈ complaining.processors, WorksAndReports processor) ∧
      (∃ first rounds ending last,
        Rounds complaining.processors 5 [⟨"/A.kt"⟩] first (start complaining oneFile ()) rounds
          ending last ∧
        Judged complaining [⟨"/A.kt"⟩] (Machine.start oneFile 5 ()) rounds ending last) ∧
      succeedsWith (fun code after => code == .compilationError &&
          after.messages.captured == Text.encode "note: 1\nnote: 1\nnote: 0\nerror: too late\n")
        (process complaining [⟨"/A.kt"⟩] (Machine.start oneFile 5 ())) = true := by
  have readable : ∀ path ∈ [(⟨"/A.kt"⟩ : Path)],
      (Machine.start oneFile 5 ()).environment.Readable path := by
    intro path hm
    rw [List.mem_singleton.1 hm]
    exact ⟨"class A", rfl⟩
  have works : ∀ processor ∈ complaining.processors, WorksAndReports processor := by
    intro processor hm
    simp only [complaining, List.mem_cons, List.not_mem_nil, or_false] at hm
    rcases hm with rfl | rfl | rfl
    · exact builder_worksAndReports
    · exact counter_worksAndReports
    · exact complainer_worksAndReports
  exact ⟨readable, works, process_verdict complaining [⟨"/A.kt"⟩] (Machine.start oneFile 5 ())
    readable works, by decide +kernel⟩

end Processing

end KotlinHarness
