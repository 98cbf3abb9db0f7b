/-
  The rehearsed front end, called again.

  It reads the sources it is given, and complains or writes files; for stubs it calls the plugins in
  the end.  Called a second time, over what the first call left, it ends with the same exit code and
  prints the same, provided that the sources hold the same: `recurs_compile`, `recurs_stubs`.  System
  properties among its arguments make no difference (`carryOut_eq`).
-/
import KotlinHarness.Proofs.Processing.Replayed
import KotlinHarness.Proofs.Rehearsal.Output

namespace KotlinHarness

namespace Plugin

variable {σ : Type}

theorem runInTurn_eq (args : FrontendArguments) (properties : List (String × String))
    (plugins : List Plugin) :
    (runInTurn { args with systemProperties := properties } plugins : MachineAction σ ExitCode) =
      runInTurn args plugins := by
  induction plugins with
  | nil => rfl
  | cons plugin rest ih =>
    rw [runInTurn, runInTurn, ih]
    cases plugin
    rfl

theorem runAll_eq (args : FrontendArguments) (properties : List (String × String)) :
    (runAll { args with systemProperties := properties } : MachineAction σ ExitCode) =
      runAll args := by
  rw [runAll, runAll]
  simp only [runInTurn_eq]

end Plugin

namespace Rehearsal

open Environment Machine

variable {σ : Type} {final : Environment} {javaDir stubsDir : Location}
  {installed : Option (Registration σ)} {registration : Registration σ}
  {may : Location → FileData → Prop} {first second : Machine σ} {args : FrontendArguments}
  {sources : List Path}

/-! ## Reading sources -/

theorem keeps_checkBraces (sources : List Path) : Keeps (@OnlyPrints σ) (checkBraces sources) := by
  induction sources with
  | nil => exact onlyPrints_composes.keeps_pure _
  | cons source rest ih =>
    refine onlyPrints_composes.keeps_bind (fun machine => ?_) fun content => ?_
    · have hstate := readSource_state source machine.environment
      rw [onEnvironment]
      rcases hread : readSource source machine.environment with ⟨content, after⟩ | ⟨cause, after⟩
      · rw [hread] at hstate
        exact ⟨hstate, rfl, rfl⟩
      · rw [hread] at hstate
        exact ⟨hstate, rfl, rfl⟩
    · split
      · exact ih
      · exact onlyPrints_composes.keeps_bind (keeps_printLine _) fun _ =>
          onlyPrints_composes.keeps_bind ih fun _ => onlyPrints_composes.keeps_pure _

/-- Sources that were checked can be read. -/
theorem readable_of_checkBraces {machine after : Machine σ} {balanced : Bool}
    (h : checkBraces sources machine = .ok balanced after) :
    ∀ source ∈ sources, machine.environment.Readable source := by
  induction sources generalizing machine after balanced with
  | nil => exact fun _ hm => absurd hm List.not_mem_nil
  | cons source rest ih =>
    rw [checkBraces] at h
    obtain ⟨content, middle, hread, h⟩ := of_bind_ok h
    rw [onEnvironment, readSource] at hread
    rcases hcontent : machine.environment.readText source with cause | text
    · simp only [hcontent] at hread
      cases hread
    · simp only [hcontent] at hread
      cases hread
      refine List.forall_mem_cons.2 ⟨⟨_, hcontent⟩, ?_⟩
      split at h
      · exact ih h
      · obtain ⟨_, printed, hprint, h⟩ := of_bind_ok h
        obtain ⟨_, last, hrest, -⟩ := of_bind_ok h
        have hsame := ((keeps_printLine _).of_ok hprint).environment
        intro other hm
        have hreadable := ih hrest other hm
        rwa [hsame] at hreadable

theorem recurs_checkBraces (h : Abreast final installed first second)
    (settled : ∀ source ∈ sources, Settled first.environment second.environment source) :
    Recurs final installed may (checkBraces sources) first second := by
  induction sources generalizing first second with
  | nil => exact .pure h true
  | cons source rest ih =>
    have hrest : ∀ {first' second' : Machine σ}, Proceeds final installed first second first' second' →
        Recurs final installed may (checkBraces rest) first' second' := fun proceeds =>
      ih proceeds.abreast fun other hm =>
        proceeds.moves.settled other (settled other (List.mem_cons_of_mem _ hm))
    have keeps : Keeps (@OnlyPrints σ) (checkBraces rest) := keeps_checkBraces rest
    rw [checkBraces]
    refine (h.recurs_onEnvironment
      (repeats_readSource h.retraces (settled source List.mem_cons_self))).bind
      (fun {content middle} _ => ?_) (fun {content middle middle'} _ proceeds => ?_)
    · split
      · exact growsBy_of_onlyPrints keeps middle
      · exact growsBy_of_onlyPrints (onlyPrints_composes.keeps_bind (keeps_printLine _) fun _ =>
          onlyPrints_composes.keeps_bind keeps fun _ => onlyPrints_composes.keeps_pure _) middle
    · split
      · exact hrest proceeds
      · refine (proceeds.abreast.recurs_printLine _).bind (fun _ => ?_) fun _ proceeds' => ?_
        · exact growsBy_of_onlyPrints (onlyPrints_composes.keeps_bind keeps fun _ =>
            onlyPrints_composes.keeps_pure _) _
        · exact (hrest (proceeds.trans proceeds')).bind (fun _ => (growsBy_composes may).refl _)
            fun _ proceeds'' => .pure proceeds''.abreast false

/-! ## Calls -/

/-- The part of a call that depends on the sources. -/
def answer (args : FrontendArguments) : MachineAction σ ExitCode := do
  if ← checkBraces args.sources then carryOut args else pure .compilationError

theorem exec_eq (args : FrontendArguments) (machine : Machine σ) :
    frontend.exec args machine =
      answer args { machine with calls := machine.calls ++ [.frontend args] } := rfl

/-- System properties do not matter. -/
theorem answer_eq (args : FrontendArguments) (properties : List (String × String)) :
    (answer { args with systemProperties := properties } : MachineAction σ ExitCode) =
      answer args := by
  have hstubs : writeStubs { args with systemProperties := properties } = writeStubs args := rfl
  rw [answer, answer, carryOut, carryOut, hstubs, Plugin.runAll_eq]

/-- A call that compiles writes class files alone. -/
theorem keeps_answer (hmode : args.mode = .compile) :
    Keeps (@GrowsBy σ fun location _ => IsClassFile location) (answer args) := by
  refine (growsBy_composes _).keeps_bind (growsBy_of_onlyPrints (keeps_checkBraces _)) fun balanced => ?_
  split
  · rw [carryOut, hmode]
    exact (growsBy_composes _).keeps_bind (keeps_onEnvironment (keeps_writeClasses _ _))
      fun _ => (growsBy_composes _).keeps_pure _
  · exact (growsBy_composes _).keeps_pure _

theorem keeps_exec (hmode : args.mode = .compile) :
    Keeps (@GrowsBy σ fun location _ => IsClassFile location) (frontend.exec args) := by
  intro machine
  have grows := keeps_answer hmode { machine with calls := machine.calls ++ [.frontend args] }
  exact ⟨grows.grows, grows.roundLimit⟩

/-- What is done for stubs. -/
theorem carryOut_stubs (hmode : args.mode = .stubs) :
    (carryOut args : MachineAction σ ExitCode) =
      (do onEnvironment (writeStubs args); Plugin.runAll args) := by
  rw [carryOut, hmode]

/-- Stubs are written where their paths lead, and the registration stays installed. -/
theorem writeStubs_ok {machine after : Machine σ}
    (h : onEnvironment (writeStubs args) machine = .ok () after) :
    Reaches machine.environment after.environment ∧
      after.registration? = machine.registration? := by
  obtain ⟨env, hstubs, rfl⟩ := onEnvironment_eq_ok.1 h
  exact ⟨(keeps_writeStubs args).of_ok hstubs, rfl⟩

/-- With scripted processors installed, writing and processing stubs leaves files in place. -/
theorem carryOut_grows (hmode : args.mode = .stubs)
    (scripted : ∀ processor ∈ registration.processors, processor.IsScripted) {machine : Machine σ}
    (installed : machine.registration? = some registration) :
    GrowsBy (fun _ _ => True) machine (finalState (carryOut args machine)) := by
  have written : GrowsBy (fun _ _ => True) machine (finalState (onEnvironment (writeStubs args)
      machine)) := keeps_onEnvironment (fun env => (keeps_writeStubs args env).grows) machine
  rw [carryOut_stubs hmode, bind_eq]
  rcases hwritten : onEnvironment (writeStubs args) machine with ⟨_, last⟩ | ⟨cause, last⟩
  · rw [hwritten] at written
    have processes : Processing.Processes registration [] last _ :=
      Plugin.runAll_processes args scripted ((writeStubs_ok hwritten).2.trans installed)
    exact (growsBy_composes _).trans written processes.grows
  · rw [hwritten] at written
    exact written

/-- So does a whole call for stubs. -/
theorem answer_grows (hmode : args.mode = .stubs)
    (scripted : ∀ processor ∈ registration.processors, processor.IsScripted) {machine : Machine σ}
    (installed : machine.registration? = some registration) :
    GrowsBy (fun _ _ => True) machine (finalState (answer args machine)) := by
  have printed : OnlyPrints machine _ := keeps_checkBraces args.sources machine
  have grows : GrowsBy (fun _ _ => True) machine (finalState (checkBraces args.sources machine)) :=
    growsBy_of_onlyPrints (keeps_checkBraces args.sources) machine
  rw [answer, bind_eq]
  rcases hbraces : checkBraces args.sources machine with ⟨balanced, middle⟩ | ⟨cause, middle⟩
  · rw [hbraces] at printed grows
    refine (growsBy_composes _).trans grows ?_
    simp only
    split
    · exact carryOut_grows hmode scripted (printed.registration.trans installed)
    · exact (growsBy_composes _).refl middle
  · rw [hbraces] at grows
    exact grows

theorem exec_grows (hmode : args.mode = .stubs)
    (scripted : ∀ processor ∈ registration.processors, processor.IsScripted) {machine : Machine σ}
    (installed : machine.registration? = some registration) :
    GrowsBy (fun _ _ => True) machine (finalState (frontend.exec args machine)) := by
  let noted : Machine σ := { machine with calls := machine.calls ++ [.frontend args] }
  have held : noted.registration? = some registration := installed
  have grows := answer_grows hmode scripted held
  exact ⟨grows.grows, grows.roundLimit⟩

/-- Sources that were compiled are compiled again. -/
theorem recurs_compile (h : Abreast final installed first second) (hmode : args.mode = .compile)
    (settled : ∀ source ∈ args.sources, first.environment.Readable source →
      Settled first.environment second.environment source)
    (hdir : first.environment.isDirectory args.destination = true) :
    Recurs final installed (fun location _ => IsClassFile location) (answer args) first second := by
  intro value last hlast below
  rw [answer] at hlast
  obtain ⟨balanced, middle, hbraces, hcarry⟩ := of_bind_ok hlast
  have readable := readable_of_checkBraces hbraces
  have settled' : ∀ source ∈ args.sources, Settled first.environment second.environment source :=
    fun source hm => settled source hm (readable source hm)
  refine ((recurs_checkBraces h settled').bind (fun {balanced middle} _ => ?_)
    (fun {balanced middle middle'} _ proceeds => ?_) :
    Recurs final installed (fun location _ => IsClassFile location) (answer args) first second)
    value last hlast below
  · split
    · rw [carryOut, hmode]
      exact (growsBy_composes _).keeps_bind (keeps_onEnvironment (keeps_writeClasses _ _))
        (fun _ => (growsBy_composes _).keeps_pure _) middle
    · exact (growsBy_composes _).refl middle
  · split
    · rw [carryOut, hmode]
      exact (proceeds.abreast.recurs_onEnvironment (repeats_writeClasses proceeds.moves.retraces
        (fun source hm => proceeds.moves.settled source (settled' source hm))
        (proceeds.moves.grows.isDirectory hdir))).bind
        (fun _ => (growsBy_composes _).refl _) fun _ proceeds' => .pure proceeds'.abreast _
    · exact .pure proceeds.abreast _

/-- Stubs that were written and processed are written and processed again. -/
theorem recurs_carryOut (scripted : ∀ processor ∈ registration.processors, processor.IsScripted)
    (h : Abreast final (some registration) first second) (hmode : args.mode = .stubs)
    (hoption : args.pluginOption kaptPluginId "stubs" = [registration.directories.stubs.text])
    (site : Processing.Site registration javaDir stubsDir first.environment)
    (named : first.environment.WellNamed)
    (settled : ∀ source ∈ args.javaSources ++ args.sources,
      Settled first.environment second.environment source)
    (listed : ∀ {old' new' : Environment},
      Moves final first.environment second.environment old' new' →
      Grows (fun location _ => IsProduct javaDir location) old' final →
      ∀ entry ∈ args.pluginClasspaths, Plugin.ListedAlike old' new' entry) :
    Recurs final (some registration) (fun location _ => IsProduct javaDir location) (carryOut args)
      first second := by
  have repeats : Repeats final (writeStubs args) first.environment second.environment :=
    repeats_writeStubs h.retraces (fun source hm => settled source (List.mem_append_right _ hm))
      hoption (site.directories registration.directories.stubs (by simp))
  rw [carryOut_stubs hmode]
  refine (h.recurs_onEnvironment repeats).bind (fun {_ middle} hwritten => ?_)
    fun {_ middle middle'} hwritten proceeds => ?_
  · obtain ⟨reaches, hkept⟩ := writeStubs_ok hwritten
    have processes : Processing.Processes registration javaDir middle _ :=
      Plugin.runAll_processes args scripted (hkept.trans (h.registration registration rfl).1)
    exact processes.growsBy (site.reaches named reaches).java
  · exact Plugin.recurs_runAll scripted proceeds.abreast
      (site.reaches named (writeStubs_ok hwritten).1)
      (fun source hm => proceeds.moves.settled source (settled source hm)) (listed proceeds.moves)

/-- A call for stubs is answered again. -/
theorem recurs_stubs (scripted : ∀ processor ∈ registration.processors, processor.IsScripted)
    (h : Abreast final (some registration) first second) (hmode : args.mode = .stubs)
    (hoption : args.pluginOption kaptPluginId "stubs" = [registration.directories.stubs.text])
    (site : Processing.Site registration javaDir stubsDir first.environment)
    (named : first.environment.WellNamed)
    (settled : ∀ source ∈ args.javaSources ++ args.sources,
      Settled first.environment second.environment source)
    (listed : ∀ {old' new' : Environment},
      Moves final first.environment second.environment old' new' →
      Grows (fun location _ => IsProduct javaDir location) old' final →
      ∀ entry ∈ args.pluginClasspaths, Plugin.ListedAlike old' new' entry) :
    Recurs final (some registration) (fun location _ => IsProduct javaDir location) (answer args)
      first second := by
  have checked : Recurs final (some registration) (fun _ _ => True) (checkBraces args.sources) first
      second := recurs_checkBraces h fun source hm => settled source (List.mem_append_right _ hm)
  -- Stubs are no products, so the sources are checked over all changes.
  refine checked.bindWider (fun _ _ _ => trivial) (fun {balanced middle} hbraces => ?_)
    fun {balanced middle middle'} hbraces proceeds => ?_
  · have printed := (keeps_checkBraces args.sources).of_ok hbraces
    split
    · exact carryOut_grows hmode scripted
        (printed.registration.trans (h.registration registration rfl).1)
    · exact (growsBy_composes _).refl middle
  · have printed := (keeps_checkBraces args.sources).of_ok hbraces
    split
    · exact recurs_carryOut scripted proceeds.abreast hmode hoption (printed.environment ▸ site)
        (printed.environment ▸ named)
        (fun source hm => proceeds.moves.settled source (settled source hm))
        fun moves => listed (proceeds.moves.trans moves)
    · exact .pure proceeds.abreast _

end Rehearsal

end KotlinHarness
