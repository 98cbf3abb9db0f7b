/-
  Annotation processing, run a second time.

  Before the front end is called, an empty Kotlin source may be written, and the listing through which
  the plugin is found.  The second call writes the same, so the front end is called with the same
  arguments but for system properties, finds the same plugins, and does the same (`kapt_again`).

  Where processing reads and writes is told from the resolution (`site_of_prepared`): the directories
  of generated Java files and of stubs are beside each other.  One entry of the plugin class path is
  the host's own, and has to be `Lasting`.

    * `stages_again`   all three stages
-/
import KotlinHarness.Proofs.Frontend.Arguments
import KotlinHarness.Proofs.Pipeline.Alongside

namespace KotlinHarness

open Environment

variable {σ : Type} {final old new old' : Environment} {workspace : Workspace}
  {resolution : Resolution} {staged sources : List Path} {processors : List (Processor σ)}

/-! ## Before the front end is called -/

namespace Stage

theorem keeps_kaptSources (workspace : Workspace) (staged : List Path) :
    Keeps Reaches (kaptSources workspace staged) := by
  rw [kaptSources]
  split
  · exact reaches_composes.keeps_bind
      (reaches_composes.keeps_bind (keeps_deposit _ _ _) fun _ => reaches_composes.keeps_pure _)
      fun _ => reaches_composes.keeps_pure _
  · exact reaches_composes.keeps_pure _

/-- The sources for the front end are there again. -/
theorem kaptSources_again (h : Retraces final old new)
    (settled : ∀ source ∈ staged, Settled old new source)
    (hrun : kaptSources workspace staged old = .ok sources old')
    (below : Grows (fun _ _ => True) old' final) :
    ∃ new', kaptSources workspace staged new = .ok sources new' ∧ Moves final old new old' new' ∧
      ∀ source ∈ sources, Settled old' new' source := by
  rw [kaptSources] at hrun ⊢
  split at hrun
  · next hnone =>
    rw [if_pos hnone]
    obtain ⟨path, middle, hwritten, hlast⟩ := of_bind_ok hrun
    cases hlast
    rw [writePlaceholder] at hwritten
    obtain ⟨done, last, hdeposit, hpath⟩ := of_bind_ok hwritten
    cases hpath
    obtain ⟨done', new', hagain, moves, hsettled⟩ := h.deposit hdeposit below
    refine ⟨new', ?_, moves, fun source hm => ?_⟩
    · rw [bind_eq, writePlaceholder, bind_eq, hagain]
      rfl
    · rw [List.mem_singleton.1 hm]
      exact hsettled
  · next hsome =>
    rw [if_neg hsome]
    cases hrun
    exact ⟨new, rfl, .refl h, settled⟩

end Stage

namespace Plugin

theorem keeps_register (directory : Path) : Keeps Reaches (Plugin.register directory) := by
  refine reaches_composes.keeps_bind (fun env => ?_) fun _ => reaches_composes.keeps_pure _
  have hreaches := keeps_deposit .ifChanged (listing directory)
    (annotationProcessing.listedName ++ "\n") env
  rw [EnvironmentAction.during]
  rcases hdeposit : deposit .ifChanged (listing directory)
    (annotationProcessing.listedName ++ "\n") env with
    ⟨done, after⟩ | ⟨cause, after⟩ <;> rwa [hdeposit] at hreaches

/-- A listing that was written is written again, and lists the same in both calls. -/
theorem register_again {directory : Path} (h : Retraces final old new) (hrun : register directory old = .ok () old')
    (below : Grows (fun _ _ => True) old' final) :
    ∃ new', register directory new = .ok () new' ∧ Moves final old new old' new' ∧
      old'.isFile (listing directory) = true ∧ Settled old' new' (listing directory) := by
  rw [register] at hrun
  obtain ⟨done, middle, hdeposit, hlast⟩ := of_bind_ok hrun
  cases hlast
  have hdeposit := environmentDuring_ok hdeposit
  obtain ⟨done', new', hagain, moves, settled⟩ := h.deposit hdeposit below
  obtain ⟨location, data, hlocate, -, -, -⟩ := deposit_file hdeposit
  refine ⟨new', ?_, moves, isFile_iff.2 ⟨location, data, hlocate⟩, settled⟩
  rw [register, bind_eq, SourceUnit.during_ok_of hagain]
  rfl

end Plugin

/-- What is done before the front end is called is done again. -/
theorem Stage.prelude_again {listed : Environment} (h : Retraces final old new)
    (settled : ∀ source ∈ staged, Settled old new source)
    (hread : kaptSources workspace staged old = .ok sources old')
    (hlisted : Plugin.register workspace.registrar old' = .ok () listed)
    (below : Grows (fun _ _ => True) listed final) :
    ∃ new' listed', kaptSources workspace staged new = .ok sources new' ∧
      Plugin.register workspace.registrar new' = .ok () listed' ∧ Moves final old new listed listed' ∧
      (∀ source ∈ sources, Settled listed listed' source) ∧
      listed.isFile (Plugin.listing workspace.registrar) = true ∧
      Settled listed listed' (Plugin.listing workspace.registrar) := by
  have reached : Reaches old' listed := (Plugin.keeps_register _).of_ok hlisted
  obtain ⟨new', hread', moves, settledSources⟩ :=
    kaptSources_again h settled hread (reached.grows.trans below)
  obtain ⟨listed', hlisted', moves', registered, settledListing⟩ :=
    Plugin.register_again moves.retraces hlisted below
  exact ⟨new', listed', hread', hlisted', moves.trans moves',
    fun source hm => moves'.settled source (settledSources source hm), registered, settledListing⟩

/-! ## Where processing works -/

/-- No call makes a listing of plugins come to be at a path: the way there does not go up, or there is
    no directory in the end. -/
def Lasting (final : Environment) (entry : Path) : Prop :=
  ".." ∉ entry.segments ∨ final.isDirectory entry = false

theorem Plugin.listedAlike_of_lasting {entry : Path} {javaDir : Location}
    (lasting : Lasting final entry) (h : Retraces final old new)
    (rest : Grows (fun location _ => IsProduct javaDir location) old final) :
    ListedAlike old new entry := by
  rcases lasting with straight | absent
  · exact listedAlike_of_straight h rest straight
  · exact listedAlike_of_not_isDirectory h absent

/-- Processing works in the directories of a prepared call. -/
theorem site_of_prepared {env : Environment} (prepared : Prepared resolution env)
    (processors : List (Processor σ)) :
    ∃ javaDir stubsDir, Processing.Site (Registration.ofResolution processors resolution) javaDir
      stubsDir env := by
  have hthere := prepared.directories
  simp only [Workspace.directories, List.forall_mem_cons] at hthere
  obtain ⟨-, -, hjava, hstubs, -⟩ := hthere
  have nonempty : resolution.workspace.kapt.isEmpty = false :=
    Path.isEmpty_div (Path.isEntry_of_plain (by decide))
  have below : ∀ {name : String} {location : Location}, IsFileName name →
      env.LeadsTo (resolution.workspace.kapt / name) location →
      ∃ here, env.LeadsTo resolution.workspace.kapt here ∧ location = here ++ [name] :=
    fun hname hleads => leadsTo_div nonempty hname.entry.segment hname.isName hleads
  obtain ⟨javaDir, _, hlocate⟩ := isDirectory_iff.1 hjava
  obtain ⟨stubsDir, _, hlocate'⟩ := isDirectory_iff.1 hstubs
  have hleads : env.LeadsTo resolution.workspace.generatedJava javaDir := ⟨_, hlocate⟩
  have hleads' : env.LeadsTo resolution.workspace.stubs stubsDir := ⟨_, hlocate'⟩
  refine ⟨javaDir, stubsDir, hleads, hleads', ?_, fun further hprefix => ?_, ?_⟩
  · intro directory hm
    simp only [List.mem_cons, List.not_mem_nil, or_false] at hm
    rcases hm with rfl | rfl | rfl
    · exact hjava
    · exact prepared.generatedKotlin
    · exact hstubs
  · obtain ⟨here, hhere, rfl⟩ := below (by decide +kernel) hleads
    obtain ⟨here', hhere', rfl⟩ := below (by decide +kernel) hleads'
    obtain rfl := hhere.unique hhere'
    rw [List.append_assoc, List.prefix_append_right_inj] at hprefix
    exact absurd (List.cons_prefix_cons.1 hprefix).1 (by decide)
  · exact fun further data hlook _ name hm =>
      prepared.named.files _ data hlook name (List.mem_append_right _ hm)

/-! ## Annotation processing -/

namespace Pipeline

open Context Machine PluginHost Rehearsal

variable {first second last : Context σ} {scope scope' : Option ScopeId} {code : ExitCode}
  {isModular : Bool} {registration : Registration σ}

/-- Files stay files in annotation processing. -/
theorem keeps_runKapt (scripted : ∀ processor ∈ registration.processors, processor.IsScripted) :
    Keeps (OnMachine (GrowsBy fun _ _ => True))
      (Stage.runKapt Rehearsal.frontend registration) := by
  have composes := (unscoped_growsBy (σ := σ) fun _ _ => True).onMachine
  have reaching : ∀ {α : Type} {action : EnvironmentAction α}, Keeps Reaches action →
      Keeps (OnMachine (GrowsBy fun _ _ => True)) (onMachine (onEnvironment (σ := σ) action)) :=
    fun h => keeps_onMachine (keeps_onEnvironment fun env => (h env).grows)
  refine composes.keeps_bind composes.refl fun context => ?_
  refine composes.keeps_bind (reaching (Stage.keeps_kaptSources _ _)) fun sources => ?_
  refine composes.keeps_bind (reaching (Plugin.keeps_register _)) fun _ => ?_
  refine keeps_onMachine fun machine => ?_
  have hmode : (Stage.kaptArguments registration context sources).mode = .stubs := rfl
  have grows := exec_grows hmode scripted (registration?_holding registration machine)
  rw [holding] at grows
  rw [withRegistration]
  split
  all_goals
    next hexec =>
      rw [hexec] at grows
      exact ⟨grows.grows, grows.roundLimit⟩

/-- The entries of the plugin class path list the same plugins in both calls. -/
theorem listedAlike_of_prepared {env env' : Environment} (prepared : Prepared resolution old)
    (lasting : ∀ archive, resolution.runtime.kaptPlugin = some archive → Lasting final archive)
    (h : Moves final old new env env') {javaDir : Location}
    (rest : Grows (fun location _ => IsProduct javaDir location) env final)
    (registered : env.isFile (Plugin.listing resolution.workspace.registrar) = true)
    (settled : Settled env env' (Plugin.listing resolution.workspace.registrar)) :
    ∀ entry ∈ Stage.pluginClasspaths resolution, Plugin.ListedAlike env env' entry := by
  intro entry hm
  rw [Stage.pluginClasspaths, List.mem_append, List.mem_append, Option.mem_toList,
    Option.mem_toList, List.mem_singleton] at hm
  rcases hm with (hjar | rfl) | harchive
  · exact Plugin.listedAlike_of_isFile h.retraces (h.grows.isFile (prepared.toolsJar entry hjar))
  · have nonempty : resolution.workspace.registrar.isEmpty = false :=
      Path.isEmpty_div (Path.isEntry_of_plain (by decide))
    exact Plugin.listedAlike_of_settled h.retraces
      (Plugin.isDirectory_of_listing nonempty registered) registered settled
  · exact Plugin.listedAlike_of_lasting (lasting entry harchive) h.retraces rest

/-- System properties apart, the front end is called with the same arguments. -/
theorem answer_kaptArguments (h : Alongside final first second) (sources : List Path) :
    (answer (Stage.kaptArguments registration second sources) : MachineAction σ ExitCode) =
      answer (Stage.kaptArguments registration first sources) := by
  have hargs : Stage.kaptArguments registration second sources =
      { Stage.kaptArguments registration first sources with
        systemProperties := second.machine.properties.snapshot } := by
    rw [Stage.kaptArguments, h.resolution, h.staged]
    rfl
  rw [hargs, answer_eq]

/-- The machine on which the front end answers in annotation processing. -/
def answering (registration : Registration σ) (args : FrontendArguments) (machine : Machine σ)
    (env : Environment) : Machine σ :=
  { holding registration { machine with environment := env } with
    calls := machine.calls ++ [.frontend args] }

theorem exec_holding (registration : Registration σ) (args : FrontendArguments)
    (machine : Machine σ) (env : Environment) :
    frontend.exec args (holding registration { machine with environment := env }) =
      answer args (answering registration args machine env) :=
  exec_eq args _

theorem runKapt_eq_ok : Stage.runKapt Rehearsal.frontend registration first = .ok code last ↔
    ∃ sources read listed ended,
      Stage.kaptSources first.resolution.workspace
        (StagedSource.ofLanguage .kotlin first.staged) first.machine.environment =
          .ok sources read ∧
      Plugin.register first.resolution.workspace.registrar read = .ok () listed ∧
      answer (Stage.kaptArguments registration first sources) (answering registration
        (Stage.kaptArguments registration first sources) first.machine listed) = .ok code ended ∧
      last = { first with machine := ended.clearRegistration } := by
  constructor
  · intro h
    rw [Stage.runKapt, get_bind] at h
    obtain ⟨sources, _, hsources, h⟩ := of_bind_ok h
    obtain ⟨_, _, hregister, hexec⟩ := of_bind_ok h
    obtain ⟨read, hread, rfl⟩ := onMachine_onEnvironment_eq_ok.1 hsources
    obtain ⟨listed, hlisted, rfl⟩ := onMachine_onEnvironment_eq_ok.1 hregister
    obtain ⟨_, hwith, rfl⟩ := onMachine_eq_ok.1 hexec
    obtain ⟨ended, hended, rfl⟩ := withRegistration_ok hwith
    rw [exec_holding registration _ first.machine listed] at hended
    exact ⟨sources, read, listed, ended, hread, hlisted, hended, rfl⟩
  · rintro ⟨sources, read, listed, ended, hread, hlisted, hended, rfl⟩
    let after (env : Environment) : Context σ :=
      { first with machine := { first.machine with environment := env } }
    have hsources : onMachine (onEnvironment (Stage.kaptSources first.resolution.workspace
        (StagedSource.ofLanguage .kotlin first.staged))) first = .ok sources (after read) :=
      onMachine_onEnvironment_eq_ok.2 ⟨read, hread, rfl⟩
    have hregister : onMachine (onEnvironment (Plugin.register
        first.resolution.workspace.registrar)) (after read) = .ok () (after listed) :=
      onMachine_onEnvironment_eq_ok.2 ⟨listed, hlisted, rfl⟩
    rw [Stage.runKapt, get_bind, bind_eq, hsources]
    simp only
    rw [bind_eq, hregister]
    refine onMachine_eq_ok.2 ⟨ended.clearRegistration, ?_, rfl⟩
    rw [← exec_holding, holding] at hended
    rw [withRegistration, hended]

/-- The front end answers abreast once both calls have come to it. -/
theorem abreast_answering (h : Alongside final first second) {listed listed' : Environment}
    (moves : Moves final first.machine.environment second.machine.environment listed listed')
    (args args' : FrontendArguments) :
    Abreast final (some registration) (answering registration args first.machine listed)
      (answering registration args' second.machine listed') := by
  refine ⟨moves.retraces, h.abreast.messages, h.abreast.steady, h.abreast.roundLimit, ?_⟩
  rintro _ ⟨⟩
  exact ⟨registration?_holding registration _, registration?_holding registration _⟩

/-- The front end is told where stubs go. -/
theorem pluginOption_stubs (context : Context σ) (sources : List Path) :
    (Stage.kaptArguments registration context sources).pluginOption kaptPluginId "stubs" =
      [registration.directories.stubs.text] := by
  rw [registration.pluginOption_eq _ _ rfl (by unfold IsOptionKey; decide) (by decide)]
  simp

/-- Annotation processing that was done is done again. -/
theorem kapt_again (scripted : ∀ processor ∈ processors, processor.IsScripted)
    (h : Alongside final first second)
    (prepared : Prepared first.resolution first.machine.environment)
    (lasting : ∀ archive, first.resolution.runtime.kaptPlugin = some archive → Lasting final archive)
    (hregistration : registration = Registration.ofResolution processors first.resolution)
    (hrun : Stage.runKapt Rehearsal.frontend registration first = .ok code last)
    (below : Grows (fun location _ => IsClassFile location) last.machine.environment final) :
    ∃ last', Stage.runKapt Rehearsal.frontend registration second = .ok code last' ∧
      Alongside final last last' := by
  have scripted' : ∀ processor ∈ registration.processors, processor.IsScripted := by
    rw [hregistration]
    exact scripted
  obtain ⟨sources, read, listed, ended, hread, hlisted, hended, rfl⟩ := runKapt_eq_ok.1 hrun
  have below : Grows (fun location _ => IsClassFile location) ended.environment final := below
  have hmode : (Stage.kaptArguments registration first sources).mode = .stubs := rfl
  -- What the first call did to the files once the plugin was listed.
  have fromListed : Grows (fun _ _ => True) listed final := by
    have held : (answering registration (Stage.kaptArguments registration first sources)
        first.machine listed).registration? = some registration := registration?_holding registration _
    have grows := answer_grows hmode scripted' held
    rw [hended] at grows
    exact grows.grows.trans (below.mono fun _ _ _ => trivial)
  obtain ⟨read', listed', hread', hlisted', moves, settled, registered, settledListing⟩ :=
    Stage.prelude_again h.abreast.retraces (h.settled .kotlin) hread hlisted fromListed
  have reaches : Reaches first.machine.environment listed :=
    reaches_composes.trans ((Stage.keeps_kaptSources _ _).of_ok hread)
      ((Plugin.keeps_register _).of_ok hlisted)
  obtain ⟨javaDir, stubsDir, site⟩ := site_of_prepared prepared processors
  rw [← hregistration] at site
  obtain ⟨ended', hended', proceeds⟩ := recurs_stubs scripted'
    (abreast_answering h moves _ (Stage.kaptArguments registration second sources)) hmode
    (pluginOption_stubs first sources) (site.reaches prepared.named reaches)
    (reaches.wellNamed prepared.named)
    (fun source hm => by
      rcases List.mem_append.1 hm with hm | hm
      · exact moves.settled source (h.settled .java source hm)
      · exact settled source hm)
    (fun further rest => listedAlike_of_prepared prepared lasting (moves.trans further) rest
      (further.grows.isFile registered) (further.settled _ settledListing))
    code ended hended (below.mono fun _ _ hclass => .inl hclass)
  refine ⟨{ second with machine := ended'.clearRegistration }, runKapt_eq_ok.2
    ⟨sources, read', listed', ended', ?_, ?_, ?_, rfl⟩, ?_⟩
  · rw [h.resolution, h.staged]
    exact hread'
  · rw [h.resolution]
    exact hlisted'
  · rw [answer_kaptArguments h]
    exact hended'
  · exact h.advance ⟨proceeds.abreast.cleared, moves.trans proceeds.moves⟩

/-! ## The three stages -/

/-- The stage that runs processors with the rehearsed front end. -/
abbrev rehearsedKapt (registration : Option (Registration σ)) : Stage σ :=
  .kapt Rehearsal.frontend registration

/-- The stages of a rehearsed call. -/
abbrev rehearsedStages (registration : Option (Registration σ)) (isModular : Bool) :
    List (Stage σ) :=
  [rehearsedKapt registration, rehearsedKotlin, rehearsedJava isModular]

/-- Files stay files in all stages. -/
theorem keeps_rehearsedStages {registration? : Option (Registration σ)}
    (scripted : ∀ registration, registration? = some registration →
      ∀ processor ∈ registration.processors, processor.IsScripted) (scope : Option ScopeId) :
    Keeps (OnMachine (GrowsBy fun _ _ => True))
      (runFrom [] scope (rehearsedStages registration? isModular)) := by
  have compiles : ∀ {before after : Context σ}, OnMachine Compiles before after →
      OnMachine (GrowsBy fun _ _ => True) before after :=
    fun h => ⟨h.grows.mono fun _ _ _ => trivial, h.roundLimit⟩
  refine keeps_runFrom (unscoped_growsBy _) (fun stage hm => ?_) scope
  simp only [List.mem_cons, List.not_mem_nil, or_false] at hm
  rcases hm with rfl | rfl | rfl
  · cases registration? with
    | none => exact (unscoped_growsBy (σ := σ) fun _ _ => True).onMachine.keeps_pure _
    | some registration => exact keeps_runKapt (scripted registration rfl)
  · exact fun context => compiles (keeps_kotlin context)
  · exact fun context => compiles (keeps_java context)

/-- Stages that were run are run again. -/
theorem stages_again (scripted : ∀ processor ∈ processors, processor.IsScripted)
    (h : Alongside final first second)
    (prepared : Prepared first.resolution first.machine.environment)
    (lasting : ∀ archive, first.resolution.runtime.kaptPlugin = some archive → Lasting final archive)
    {registration? : Option (Registration σ)}
    (hregistration : ∀ registration, registration? = some registration →
      registration = Registration.ofResolution processors first.resolution)
    (hrun : runFrom [] scope (rehearsedStages registration? isModular) first = .ok code last)
    (hend : last.machine.environment = final) :
    ∃ last', runFrom [] scope' (rehearsedStages registration? isModular) second = .ok code last' ∧
      Alongside final last last' := by
  refine runFrom_again (unscoped_growsBy fun location _ => IsClassFile location)
    keeps_compilers h rfl ?_ (fun halong hrest => kotlin_again halong hrest hend) hrun
  intro first' second' middle found halong hresolution hsame hbody compiles
  cases registration? with
  | none =>
    cases hbody
    exact ⟨second', rfl, halong⟩
  | some registration =>
    have prepared' : Prepared first'.resolution first'.machine.environment := by
      rw [hresolution, hsame]
      exact prepared
    refine kapt_again scripted halong prepared' (fun archive harchive => ?_) ?_ hbody
      (hend ▸ compiles.grows)
    · rw [hresolution] at harchive
      exact lasting archive harchive
    · rw [hresolution]
      exact hregistration registration rfl

end Pipeline

end KotlinHarness
