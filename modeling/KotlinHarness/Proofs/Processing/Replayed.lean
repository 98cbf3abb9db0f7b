/-
  Annotation processing that is done again.

  A second call of the compiler plugins, over the files that a first one and whatever came after it
  left, lists the same plugins and offers the same declarations, so scripted processors do the same
  again (`recurs_runAll`).  What decides it is what may come to be after the plugins are called: class
  files, Kotlin files, and Java files below the directory for them (`IsProduct`).

    * `Site`           where annotation processing reads and writes: no such file is a stub
    * `ListedAlike`    no such file is a listing of plugins either.  A listing found beside an archive
                       on the class path is the same later, unless the way to it goes up: directories
                       that were created in the meantime can open such a way
                       (`listedAlike_of_straight`)
-/
import KotlinHarness.Proofs.Machine
import KotlinHarness.Proofs.Processing.Script

namespace KotlinHarness

open Environment

variable {σ : Type} {final old new : Environment} {javaDir stubsDir : Location}
  {registration : Registration σ}

/-! ## Listings of plugins -/

namespace Environment

variable {may : Location → FileData → Prop} {p : Path}

theorem isFile_iff {env : Environment} :
    env.isFile p = true ↔ ∃ location data, env.locate p = .ok (location, .file data) := by
  rw [isFile]
  rcases env.locate p with cause | ⟨location, data | children⟩ <;> simp

theorem Grows.isFile (grows : Grows may old new) (h : old.isFile p = true) :
    new.isFile p = true := by
  obtain ⟨location, data, hlocate⟩ := isFile_iff.1 h
  obtain ⟨data', hnew, -⟩ := grows.locate_file hlocate
  exact isFile_iff.2 ⟨location, data', hnew⟩

theorem isDirectory_of_isFile {env : Environment} (h : env.isFile p = true) :
    env.isDirectory p = false := by
  obtain ⟨location, data, hlocate⟩ := isFile_iff.1 h
  rw [isDirectory, hlocate]

end Environment

namespace Plugin

variable {directory : Path}

/-- Both calls list the same plugins in a directory. -/
structure ListedAlike (old new : Environment) (directory : Path) : Prop where
  isListed : (new.isDirectory directory && new.isFile (listing directory)) =
    (old.isDirectory directory && old.isFile (listing directory))
  settled : old.isDirectory directory = true → old.isFile (listing directory) = true →
    Settled old new (listing directory)

theorem ListedAlike.listedIn_eq (listed : ListedAlike old new directory)
    (h : Retraces final old new) : listedIn new directory = listedIn old directory := by
  rw [listedIn, listedIn, listed.isListed]
  split
  · next hlisted =>
    obtain ⟨hdirectory, hfile⟩ := Bool.and_eq_true_iff.1 hlisted
    rw [h.readText_eq (listed.settled hdirectory hfile)]
  · rfl

theorem discover_again (h : Retraces final old new) {entries : List Path}
    (listed : ∀ entry ∈ entries, ListedAlike old new entry) :
    discover new entries = discover old entries := by
  induction entries with
  | nil => rfl
  | cons entry rest ih =>
    rw [discover, discover, (listed entry List.mem_cons_self).listedIn_eq h,
      ih fun other hm => listed other (List.mem_cons_of_mem _ hm)]

/-- Where there is no directory in the end, nothing is ever listed. -/
theorem listedAlike_of_not_isDirectory (h : Retraces final old new)
    (absent : final.isDirectory directory = false) : ListedAlike old new directory := by
  have never : ∀ {env : Environment}, Grows (fun _ _ => True) env final →
      env.isDirectory directory = false := by
    intro env grows
    rw [← Bool.not_eq_true]
    intro hdirectory
    rw [grows.isDirectory hdirectory] at absent
    cases absent
  have hold := never h.below
  refine ⟨by rw [hold, never h.into, Bool.false_and, Bool.false_and], fun hdirectory => ?_⟩
  rw [hold] at hdirectory
  cases hdirectory

/-- An archive lists nothing. -/
theorem listedAlike_of_isFile (h : Retraces final old new) (hfile : old.isFile directory = true) :
    ListedAlike old new directory :=
  listedAlike_of_not_isDirectory h (isDirectory_of_isFile (h.below.isFile hfile))

theorem listedAlike_of_settled (h : Retraces final old new)
    (hdirectory : old.isDirectory directory = true)
    (hfile : old.isFile (listing directory) = true) (settled : Settled old new (listing directory)) :
    ListedAlike old new directory := by
  refine ⟨?_, fun _ _ => settled⟩
  rw [hdirectory, hfile, h.grows.isDirectory hdirectory, h.grows.isFile hfile]

/-- The names on the way from a directory to its listing. -/
theorem isFileName_of_mem_listing : ∀ name ∈ ["META-INF", "services", interface], IsFileName name := by
  decide +kernel

theorem leadsTo_listing {env : Environment} {location : Location}
    (nonempty : directory.isEmpty = false) (hleads : env.LeadsTo (listing directory) location) :
    ∃ here, env.LeadsTo directory here ∧ location = here ++ ["META-INF", "services", interface] :=
  leadsTo_extend nonempty isFileName_of_mem_listing hleads

/-- A listing is in a directory. -/
theorem isDirectory_of_listing {env : Environment} (nonempty : directory.isEmpty = false)
    (hfile : env.isFile (listing directory) = true) : env.isDirectory directory = true := by
  obtain ⟨location, data, hlocate⟩ := isFile_iff.1 hfile
  obtain ⟨hleads, hlook⟩ := locate_file_iff.1 hlocate
  obtain ⟨here, ⟨node, hhere⟩, rfl⟩ := leadsTo_listing nonempty hleads
  have hdirectory : env.look here = some .directory :=
    FileTree.look_of_look_append (List.cons_ne_nil _ _) (by
      rw [show env.files.look _ = _ from hlook]
      simp)
  obtain ⟨children, hchildren⟩ := FileTree.look_directory_iff.1 hdirectory
  rw [get?_of_locate hhere] at hchildren
  cases hchildren
  exact isDirectory_iff.2 ⟨here, children, hhere⟩

/-- A listing is no product of annotation processing. -/
theorem not_isProduct_listing (here : Location) :
    ¬ IsProduct javaDir (here ++ ["META-INF", "services", interface]) := by
  have hname : (Path.splitName interface).2 = some "ComponentRegistrar" := by decide +kernel
  rw [show here ++ ["META-INF", "services", interface] =
    here ++ ["META-INF", "services"] ++ [interface] by simp]
  rintro (h | h | ⟨h, -⟩) <;> rw [h.splitName (by decide)] at hname <;> exact absurd hname (by decide)

/-- A listing that is there later was there before, where the way to it does not go up. -/
theorem isFile_listing_back (h : Retraces final old new)
    (rest : Grows (fun location _ => IsProduct javaDir location) old final)
    (straight : ".." ∉ directory.segments) (hdirectory : new.isDirectory directory = true)
    (hfile : new.isFile (listing directory) = true) : old.isFile (listing directory) = true := by
  obtain ⟨location, data, hlocate⟩ := isFile_iff.1 hfile
  obtain ⟨hleads, hlook⟩ := locate_file_iff.1 hlocate
  obtain ⟨here, -, rfl⟩ := leadsTo_listing (nonempty_of_isDirectory hdirectory) hleads
  obtain ⟨data', hfinal⟩ := h.into.files hlook
  have hold : old.look (here ++ ["META-INF", "services", interface]) = some (.file data') :=
    (rest.changed hfinal).resolve_right (not_isProduct_listing here)
  have up : ".." ∉ (directory.extend ["META-INF", "services", interface]).segments :=
    up_not_mem_extend isFileName_of_mem_listing straight
  exact isFile_iff.2 ⟨_, data', h.grows.locate_back up hlocate hold⟩

/-- A listing that was there before holds the same later. -/
theorem settled_listing (h : Retraces final old new)
    (rest : Grows (fun location _ => IsProduct javaDir location) old final)
    (hdirectory : old.isDirectory directory = true) (hfile : old.isFile (listing directory) = true) :
    Settled old new (listing directory) := by
  obtain ⟨location, data, hlocate⟩ := isFile_iff.1 hfile
  have hleads := (locate_file_iff.1 hlocate).1
  obtain ⟨here, -, rfl⟩ := leadsTo_listing (nonempty_of_isDirectory hdirectory) hleads
  exact ⟨_, hleads, h.agreed rest fun _ => not_isProduct_listing here⟩

/-- Where the way to a listing does not go up, the listing was there before if it is there later. -/
theorem listedAlike_of_straight (h : Retraces final old new)
    (rest : Grows (fun location _ => IsProduct javaDir location) old final)
    (straight : ".." ∉ directory.segments) : ListedAlike old new directory := by
  refine ⟨?_, settled_listing h rest⟩
  rw [Bool.eq_iff_iff, Bool.and_eq_true_iff, Bool.and_eq_true_iff]
  constructor
  · rintro ⟨hdirectory, hfile⟩
    have hlisted := isFile_listing_back h rest straight hdirectory hfile
    exact ⟨isDirectory_of_listing (nonempty_of_isDirectory hdirectory) hlisted, hlisted⟩
  · rintro ⟨hdirectory, hfile⟩
    exact ⟨h.grows.isDirectory hdirectory, h.grows.isFile hfile⟩

end Plugin

/-! ## What is offered to processors -/

namespace Processing

/-- Where annotation processing reads and writes. -/
structure Site (registration : Registration σ) (javaDir stubsDir : Location) (env : Environment) :
    Prop where
  java : env.LeadsTo registration.directories.generatedJava javaDir
  stubs : env.LeadsTo registration.directories.stubs stubsDir
  directories : ∀ directory ∈ [registration.directories.generatedJava,
    registration.directories.generatedKotlin, registration.directories.stubs],
    env.isDirectory directory = true
  /-- Generated Java files are not below the directory of stubs. -/
  apart : ∀ below, ¬ javaDir <+: stubsDir ++ below
  /-- Stubs have names of files. -/
  named : ∀ below data, env.look (stubsDir ++ below) = some (.file data) →
    Language.ofPath? (registration.directories.stubs.extend below) = some .java →
    ∀ name ∈ below, IsFileName name

/-- The directory of stubs has something below it, and is no file. -/
theorem Site.locate_stubs {env : Environment} (site : Site registration javaDir stubsDir env) :
    ∃ children, env.locate registration.directories.stubs = .ok (stubsDir, .directory children) := by
  obtain ⟨here, children, hlocate⟩ := isDirectory_iff.1
    (site.directories registration.directories.stubs (by simp))
  obtain rfl := site.stubs.unique ⟨_, hlocate⟩
  exact ⟨children, hlocate⟩

theorem Site.reaches {env after : Environment} (site : Site registration javaDir stubsDir env)
    (named : env.WellNamed) (h : Reaches env after) : Site registration javaDir stubsDir after := by
  refine ⟨h.grows.leadsTo site.java, h.grows.leadsTo site.stubs,
    fun directory hm => h.grows.isDirectory (site.directories directory hm), site.apart, ?_⟩
  intro below data hlook _ name hm
  exact (h.wellNamed named).files _ data hlook name (List.mem_append_right _ hm)

theorem Site.grows {env after : Environment} (site : Site registration javaDir stubsDir env)
    (h : Grows (fun location _ => IsProduct javaDir location) env after) :
    Site registration javaDir stubsDir after := by
  refine ⟨h.leadsTo site.java, h.leadsTo site.stubs,
    fun directory hm => h.isDirectory (site.directories directory hm), site.apart, ?_⟩
  intro below data hlook hlanguage
  rcases h.changed hlook with hold | hproduct
  · exact site.named below data hold hlanguage
  · -- No stub is new.
    have further : below ≠ [] := by
      rintro rfl
      obtain ⟨children, hlocate⟩ := site.locate_stubs
      have hdirectory := h.directories (FileTree.look_directory_iff.2 ⟨_, get?_of_locate hlocate⟩)
      rw [List.append_nil, hdirectory] at hlook
      cases hlook
    exact absurd hproduct (isProduct_not_listed (site.apart below) further hlanguage)

/-- The same files are offered to processors first. -/
theorem inputs_again (site : Site registration javaDir stubsDir old) (h : Retraces final old new)
    (rest : Grows (fun location _ => IsProduct javaDir location) old final)
    (args : FrontendArguments) : inputs new args registration = inputs old args registration := by
  obtain ⟨children, hlocate⟩ := site.locate_stubs
  rw [inputs, inputs, findSources_retraced h rest hlocate fun below further =>
    isProduct_not_listed (site.apart below) further]

/-- What can be read of them holds the same. -/
theorem settled_of_mem_inputs (site : Site registration javaDir stubsDir old)
    (h : Retraces final old new)
    (rest : Grows (fun location _ => IsProduct javaDir location) old final) {args : FrontendArguments}
    (settled : ∀ source ∈ args.javaSources ++ args.sources, Settled old new source) {path : Path}
    (hm : path ∈ inputs old args registration) (readable : old.Readable path) :
    Settled old new path := by
  rcases List.mem_append.1 hm with hm | hm
  · rcases List.mem_append.1 hm with hm | hm
    · exact settled path (List.mem_append_left _ hm)
    · obtain ⟨hlanguage, here, below, data, hhere, hlook, rfl, -⟩ := mem_findSources_iff.1 hm
      obtain rfl := hhere.unique site.stubs
      obtain ⟨location, found, text, hlocate, -⟩ := readable_iff.1 readable
      have hleads := (locate_file_iff.1 hlocate).1
      refine ⟨location, hleads, h.agreed rest fun _ => ?_⟩
      obtain ⟨children, hstubs⟩ := site.locate_stubs
      obtain ⟨there, hthere, rfl⟩ := leadsTo_extend
        (LeadsTo.nonempty ⟨_, hstubs⟩) (site.named below data hlook hlanguage) hleads
      obtain rfl := hthere.unique hhere
      have further : below ≠ [] := by
        rintro rfl
        have hdirectory : old.look there = some .directory :=
          FileTree.look_directory_iff.2 ⟨children, get?_of_locate hstubs⟩
        rw [List.append_nil, hdirectory] at hlook
        cases hlook
      exact isProduct_not_listed (site.apart below) further hlanguage
  · exact settled path (List.mem_append_right _ hm)

/-! ## Processing again -/

variable {installed : Option (Registration σ)} {may : Location → FileData → Prop}
  {first second : Machine σ}

theorem recurs_conclude (h : Machine.Abreast final installed first second) (ending : RoundsEnding)
    (diagnostics : Collector) :
    Machine.Recurs final installed may (conclude ending diagnostics) first second := by
  have printed : Machine.Recurs final installed may (Machine.printDiagnostics diagnostics.all)
      first second := h.recurs_printDiagnostics diagnostics.all
  match ending with
  | .over =>
    exact printed.bind (fun _ => (Machine.growsBy_composes may).refl _)
      fun _ proceeds => .pure proceeds.abreast _
  | .failed processor cause =>
    refine printed.bind (fun _ => ?_) fun _ proceeds => ?_
    · exact Machine.growsBy_of_onlyPrints (Machine.onlyPrints_composes.keeps_bind
        (Machine.keeps_printLine _) fun _ => Machine.onlyPrints_composes.keeps_pure _) _
    · exact (proceeds.abreast.recurs_printLine _).bind
        (fun _ => (Machine.growsBy_composes may).refl _)
        fun _ proceeds' => .pure proceeds'.abreast _
  | .unreadable cause => exact fun _ _ hfirst => by cases hfirst
  | .exhausted => exact fun _ _ hfirst => by cases hfirst

/-- Between two states of the machine nothing was written but products. -/
structure Processes (registration : Registration σ) (javaDir : Location)
    (before after : Machine σ) : Prop where
  grows : Machine.GrowsBy (fun _ _ => True) before after
  installed : after.registration? = before.registration?
  products : before.environment.LeadsTo registration.directories.generatedJava javaDir →
    Grows (fun location _ => IsProduct javaDir location) before.environment after.environment

theorem Processes.growsBy {before after : Machine σ}
    (processes : Processes registration javaDir before after)
    (leads : before.environment.LeadsTo registration.directories.generatedJava javaDir) :
    Machine.GrowsBy (fun location _ => IsProduct javaDir location) before after :=
  ⟨processes.products leads, processes.grows.roundLimit⟩

theorem processes_composes (registration : Registration σ) (javaDir : Location) :
    Composes (Processes registration javaDir) := by
  constructor
  · exact fun machine => ⟨(Machine.growsBy_composes _).refl machine, rfl, fun _ => .refl _⟩
  · intro first second third h h'
    refine ⟨(Machine.growsBy_composes _).trans h.grows h'.grows,
      h'.installed.trans h.installed, fun leads => ?_⟩
    exact (h.products leads).trans (h'.products (h.grows.grows.leadsTo leads))

theorem keeps_processing (scripted : ∀ processor ∈ registration.processors, processor.IsScripted)
    (inputs : List Path) : Keeps (Processes registration javaDir) (process registration inputs) := by
  intro machine
  rw [process]
  rcases Round.ofFiles machine.environment inputs with cause | round
  · exact (processes_composes registration javaDir).refl machine
  · simp only
    have produces : Produces javaDir (start registration machine.environment machine.client) _ :=
      keeps_runRounds scripted machine.roundLimit round
        (start registration machine.environment machine.client)
    rcases hrun : runRounds registration.processors machine.roundLimit round
      (start registration machine.environment machine.client) with ⟨ending, last⟩
    rw [hrun] at produces
    have hprints := keeps_conclude ending last.diagnostics
      { machine with environment := last.environment, client := last.client }
    refine ⟨⟨?_, hprints.roundLimit⟩, hprints.registration, fun leads => ?_⟩
    · rw [hprints.environment]
      exact produces.grows
    · rw [hprints.environment]
      exact produces.products leads

/-- A round that was built is built of files that can be read. -/
theorem readable_of_ofFiles {env : Environment} {paths : List Path} {round : Round}
    (h : Round.ofFiles env paths = .ok round) : ∀ path ∈ paths, env.Readable path := by
  rw [Round.ofFiles] at h
  rcases helements : Round.elementsOfAll env paths with cause | elements
  · rw [helements] at h
    cases h
  · exact Round.readable_of_elementsOfAll helements

/-- The runs of both calls start together. -/
theorem together_start (h : Retraces final first.environment second.environment)
    (directories : ∀ directory ∈ [registration.directories.generatedJava,
      registration.directories.generatedKotlin], first.environment.isDirectory directory = true) :
    Together final (start registration first.environment first.client)
      (start registration second.environment second.client) := by
  refine ⟨h, rfl, rfl, rfl, fun language => ?_, fun _ hm => absurd hm List.not_mem_nil⟩
  cases language with
  | java => exact directories _ List.mem_cons_self
  | kotlin => exact directories _ (List.mem_cons_of_mem _ List.mem_cons_self)

/-- The rounds end, and what was reported is told. -/
theorem process_of_ofFiles {machine : Machine σ} {inputs : List Path} {round : Round}
    (h : Round.ofFiles machine.environment inputs = .ok round) {ending : RoundsEnding}
    {run : Processing σ}
    (hrun : runRounds registration.processors machine.roundLimit round
      (start registration machine.environment machine.client) = (ending, run)) :
    process registration inputs machine = conclude ending run.diagnostics
      { machine with environment := run.environment, client := run.client } := by
  rw [process, h]
  simp only
  rw [hrun]

/-- Scripted processors do again what they did. -/
theorem recurs_process (scripted : ∀ processor ∈ registration.processors, processor.IsScripted)
    {inputs : List Path} (h : Machine.Abreast final installed first second)
    (directories : ∀ directory ∈ [registration.directories.generatedJava,
      registration.directories.generatedKotlin], first.environment.isDirectory directory = true)
    (settled : ∀ path ∈ inputs, first.environment.Readable path →
      Settled first.environment second.environment path) :
    Machine.Recurs final installed may (process registration inputs) first second := by
  intro value last hlast below
  rcases hround : Round.ofFiles first.environment inputs with cause | round
  · rw [process, hround] at hlast
    cases hlast
  have readable := readable_of_ofFiles hround
  have hround' : Round.ofFiles second.environment inputs = .ok round := by
    rw [ofFiles_again h.retraces fun path hm => settled path hm (readable path hm), hround]
  have again := runRounds_again scripted first.roundLimit round
    (together_start h.retraces directories)
  rcases hrun : runRounds registration.processors first.roundLimit round
    (start registration first.environment first.client) with ⟨ending, run⟩
  rcases hrun' : runRounds registration.processors first.roundLimit round
    (start registration second.environment second.client) with ⟨ending', run'⟩
  rw [hrun, hrun'] at again
  rw [← h.roundLimit] at hrun'
  rw [process_of_ofFiles hround hrun] at hlast
  have told : Keeps (@Machine.GrowsBy σ may) (conclude ending run.diagnostics) :=
    Machine.growsBy_of_onlyPrints (keeps_conclude ending run.diagnostics)
  obtain ⟨rfl, onward⟩ :=
    again (((told.of_ok hlast).grows.trans below).mono fun _ _ _ => trivial)
  rw [process_of_ofFiles hround' hrun', onward.together.diagnostics]
  have abreast : Machine.Abreast final installed
      { first with environment := run.environment, client := run.client }
      { second with environment := run'.environment, client := run'.client } :=
    ⟨onward.together.retraces, h.messages, h.steady, h.roundLimit, h.registration⟩
  obtain ⟨last', hlast', proceeds⟩ :=
    recurs_conclude abreast ending' run.diagnostics value last hlast below
  exact ⟨last', hlast', proceeds.abreast, onward.moves.trans proceeds.moves⟩

end Processing

/-! ## Plugins again -/

namespace Plugin

variable {first second : Machine σ} {args : FrontendArguments}

open Processing (Processes processes_composes)

/-- A plugin writes nothing but products of the registration that is installed. -/
theorem run_processes (args : FrontendArguments)
    (scripted : ∀ processor ∈ registration.processors, processor.IsScripted) (plugin : Plugin)
    {machine : Machine σ} (installed : machine.registration? = some registration) :
    Processes registration javaDir machine (finalState (plugin.run args machine)) := by
  rw [run_eq args plugin installed]
  exact Processing.keeps_processing scripted _ machine

theorem runInTurn_processes (args : FrontendArguments)
    (scripted : ∀ processor ∈ registration.processors, processor.IsScripted)
    (plugins : List Plugin) {machine : Machine σ}
    (installed : machine.registration? = some registration) :
    Processes registration javaDir machine (finalState (runInTurn args plugins machine)) := by
  have composes := processes_composes registration javaDir
  induction plugins generalizing machine with
  | nil => exact composes.refl machine
  | cons plugin rest ih =>
    have processes : Processes registration javaDir machine _ :=
      run_processes args scripted plugin installed
    rw [runInTurn, bind_eq]
    rcases hrun : plugin.run args machine with ⟨code, after⟩ | ⟨cause, after⟩
    · rw [hrun] at processes
      simp only
      split
      · exact composes.trans processes (ih (processes.installed.trans installed))
      · exact processes
    · rw [hrun] at processes
      exact processes

theorem runAll_processes (args : FrontendArguments)
    (scripted : ∀ processor ∈ registration.processors, processor.IsScripted) {machine : Machine σ}
    (installed : machine.registration? = some registration) :
    Processes registration javaDir machine (finalState (runAll args machine)) := by
  rw [runAll, get_bind]
  rcases discover machine.environment args.pluginClasspaths with cause | plugins
  · exact (processes_composes registration javaDir).refl machine
  · exact runInTurn_processes args scripted plugins installed

/-- A plugin that was run is run again, if nothing but products came of the first call since. -/
theorem recurs_run (scripted : ∀ processor ∈ registration.processors, processor.IsScripted)
    (plugin : Plugin) (h : Machine.Abreast final (some registration) first second)
    (site : Processing.Site registration javaDir stubsDir first.environment)
    (settled : ∀ source ∈ args.javaSources ++ args.sources,
      Settled first.environment second.environment source)
    (rest : Grows (fun location _ => IsProduct javaDir location) first.environment final) :
    Machine.Recurs final (some registration) (fun location _ => IsProduct javaDir location)
      (plugin.run args) first second := by
  obtain ⟨installed, installed'⟩ := h.registration registration rfl
  intro value last hlast below
  rw [run_eq args plugin installed] at hlast
  rw [run_eq args plugin installed', Processing.inputs_again site h.retraces rest]
  exact Processing.recurs_process scripted h
    (fun directory hm => site.directories directory (List.mem_append_left [_] hm))
    (fun path hm => Processing.settled_of_mem_inputs site h.retraces rest settled hm)
    value last hlast below

/-- Plugins that were run in turn are run again. -/
theorem recurs_runInTurn (scripted : ∀ processor ∈ registration.processors, processor.IsScripted)
    (plugins : List Plugin) (h : Machine.Abreast final (some registration) first second)
    (site : Processing.Site registration javaDir stubsDir first.environment)
    (settled : ∀ source ∈ args.javaSources ++ args.sources,
      Settled first.environment second.environment source) :
    Machine.Recurs final (some registration) (fun location _ => IsProduct javaDir location)
      (runInTurn args plugins) first second := by
  induction plugins generalizing first second with
  | nil => exact .pure h ExitCode.ok
  | cons plugin rest ih =>
    have installed := (h.registration registration rfl).1
    have whole : Processes registration javaDir first _ :=
      runInTurn_processes args scripted (plugin :: rest) installed
    have processes : ∀ {code middle}, plugin.run args first = .ok code middle →
        Processes registration javaDir first middle := by
      intro code middle hrun
      have hstate : Processes registration javaDir first _ :=
        run_processes args scripted plugin installed
      rwa [hrun] at hstate
    refine .assuming (whole.products site.java) fun later => ?_
    rw [runInTurn]
    refine (recurs_run scripted plugin h site settled later).bind (fun {code middle} hrun => ?_)
      fun {code middle middle'} hrun proceeds => ?_
    · split
      · have others : Processes registration javaDir middle _ :=
          runInTurn_processes args scripted rest ((processes hrun).installed.trans installed)
        exact others.growsBy ((processes hrun).grows.grows.leadsTo site.java)
      · exact (Machine.growsBy_composes _).refl middle
    · split
      · exact ih proceeds.abreast (site.grows ((processes hrun).products site.java))
          fun source hm => proceeds.moves.settled source (settled source hm)
      · exact .pure proceeds.abreast code

/-- The plugins that were found are found and run again. -/
theorem recurs_runAll (scripted : ∀ processor ∈ registration.processors, processor.IsScripted)
    (h : Machine.Abreast final (some registration) first second)
    (site : Processing.Site registration javaDir stubsDir first.environment)
    (settled : ∀ source ∈ args.javaSources ++ args.sources,
      Settled first.environment second.environment source)
    (listed : Grows (fun location _ => IsProduct javaDir location) first.environment final →
      ∀ entry ∈ args.pluginClasspaths, ListedAlike first.environment second.environment entry) :
    Machine.Recurs final (some registration) (fun location _ => IsProduct javaDir location)
      (runAll args) first second := by
  have whole : Processes registration javaDir first _ :=
    runAll_processes args scripted (h.registration registration rfl).1
  refine .assuming (whole.products site.java) fun later => ?_
  intro value last hlast below
  rw [runAll, get_bind] at hlast
  rcases hplugins : discover first.environment args.pluginClasspaths with cause | plugins
  · rw [hplugins] at hlast
    cases hlast
  · rw [hplugins] at hlast
    rw [runAll, get_bind, discover_again h.retraces (listed later), hplugins]
    exact recurs_runInTurn scripted plugins h site settled value last hlast below

end Plugin

end KotlinHarness
