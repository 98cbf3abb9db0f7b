/-
  Stages that are run a second time.

  The context of a second call goes along with that of the first one (`Alongside`): the machines are
  abreast, the same stages are on record, and what was staged holds the same.  A stage then is needed
  again if it was needed, and gives the exit code that it gave.

  What a stage reads must not be what comes to be after it.  So the stages are taken from the last
  one to the first, and each with what its successors may write:

    * `java_again`     nothing comes after it
    * `kotlin_again`   class files, which are no sources
    * `stages_again`   annotation processing comes first: class files, and its own products
-/
import KotlinHarness.Proofs.Pipeline.Generation
import KotlinHarness.Proofs.Pipeline.Visits
import KotlinHarness.Proofs.Rehearsal.Frontend
import KotlinHarness.Proofs.Rehearsal.JavaService
import KotlinHarness.Proofs.Workspace.Recreated

namespace KotlinHarness

open Environment

variable {σ : Type} {final old new old' : Environment}

/-! ## Contexts -/

namespace Context

variable {first second : Context σ} {language : Language}

/-- The context of the second call beside that of the first. -/
structure Alongside (final : Environment) (first second : Context σ) : Prop where
  abreast : Machine.Abreast final none first.machine second.machine
  resolution : second.resolution = first.resolution
  records : second.records = first.records
  staged : ∀ language, StagedSource.ofLanguage language second.staged =
    StagedSource.ofLanguage language first.staged
  settled : ∀ language, ∀ source ∈ StagedSource.ofLanguage language first.staged,
    Settled first.machine.environment second.machine.environment source
  /-- The directories that the compilers read and write. -/
  directories : ∀ directory ∈ [first.resolution.classesDir, first.generatedDir .java,
    first.generatedDir .kotlin], first.machine.environment.isDirectory directory = true

theorem Alongside.advance (h : Alongside final first second) {last last' : Machine σ}
    (proceeds : Machine.Proceeds final none first.machine second.machine last last') :
    Alongside final { first with machine := last } { second with machine := last' } :=
  ⟨proceeds.abreast, h.resolution, h.records, h.staged,
    fun language source hm => proceeds.moves.settled source (h.settled language source hm),
    fun directory hm => proceeds.moves.grows.isDirectory (h.directories directory hm)⟩

theorem Alongside.noted (h : Alongside final first second) (stage : String)
    (outcome : StageOutcome) :
    Alongside final (first.noted stage outcome) (second.noted stage outcome) :=
  ⟨h.abreast, h.resolution, by rw [Context.noted, Context.noted, h.records], h.staged, h.settled,
    h.directories⟩

/-- System properties and scopes make no difference. -/
theorem Alongside.withScopes (h : Alongside final first second) (properties properties' : Properties)
    (nextScope nextScope' : ScopeId) :
    Alongside final { first with machine := { first.machine with properties, nextScope } }
      { second with machine := { second.machine with
        properties := properties', nextScope := nextScope' } } :=
  ⟨⟨h.abreast.retraces, h.abreast.messages, h.abreast.steady, h.abreast.roundLimit,
    h.abreast.registration⟩, h.resolution, h.records, h.staged, h.settled, h.directories⟩

theorem Alongside.generatedDir_eq (h : Alongside final first second) (language : Language) :
    second.generatedDir language = first.generatedDir language := by
  cases language <;> rw [generatedDir, generatedDir, h.resolution]

/-- As long as nothing but class files is to come, the same sources are there. -/
theorem Alongside.sourcesOf_eq (h : Alongside final first second)
    (rest : Grows (fun location _ => IsClassFile location) first.machine.environment final)
    (language : Language) : second.sourcesOf language = first.sourcesOf language := by
  have hthere : first.machine.environment.isDirectory (first.generatedDir language) = true :=
    h.directories _ (by cases language <;> simp)
  obtain ⟨here, children, hdir⟩ := isDirectory_iff.1 hthere
  rw [sourcesOf, sourcesOf, h.staged, h.generatedDir_eq,
    findSources_retraced h.abreast.retraces rest hdir
      fun below further listed hclass => isClassFile_not_listed hclass further listed]

/-- And those that can be read hold the same. -/
theorem Alongside.settled_of_mem_sourcesOf (h : Alongside final first second)
    (rest : Grows (fun location _ => IsClassFile location) first.machine.environment final)
    {source : Path} (hm : source ∈ first.sourcesOf language)
    (readable : first.machine.environment.Readable source) :
    Settled first.machine.environment second.machine.environment source := by
  rcases List.mem_append.1 hm with hm | hm
  · exact h.settled language source hm
  · exact settled_of_source h.abreast.retraces rest readable (mem_findSources_iff.1 hm).1

theorem onMachine_eq_ok {α : Type} {action : MachineAction σ α} {value : α}
    {context after : Context σ} :
    onMachine action context = .ok value after ↔
      ∃ last, action context.machine = .ok value last ∧ after = { context with machine := last } := by
  rw [onMachine]
  rcases action context.machine with ⟨value', last⟩ | ⟨cause, last⟩
  · constructor
    · intro h
      cases h
      exact ⟨last, rfl, rfl⟩
    · rintro ⟨_, h, rfl⟩
      cases h
      rfl
  · constructor
    · intro h
      cases h
    · rintro ⟨_, h, -⟩
      cases h

theorem onMachine_onEnvironment_eq_ok {α : Type} {action : EnvironmentAction α} {value : α}
    {context after : Context σ} :
    onMachine (Machine.onEnvironment action) context = .ok value after ↔
      ∃ env, action context.machine.environment = .ok value env ∧
        after = { context with machine := { context.machine with environment := env } } := by
  rw [onMachine_eq_ok]
  constructor
  · rintro ⟨_, h, rfl⟩
    obtain ⟨env, henv, rfl⟩ := Machine.onEnvironment_eq_ok.1 h
    exact ⟨env, henv, rfl⟩
  · rintro ⟨env, h, rfl⟩
    exact ⟨_, Machine.onEnvironment_eq_ok.2 ⟨env, h, rfl⟩, rfl⟩

/-- What is done to both machines is done to both contexts. -/
theorem Alongside.onMachine_again {α : Type} {action action' : MachineAction σ α} {value : α}
    {after : Context σ} (h : Alongside final first second)
    (hrun : onMachine action first = .ok value after)
    (again : ∀ last, action first.machine = .ok value last → after.machine = last →
      ∃ last', action' second.machine = .ok value last' ∧
        Machine.Proceeds final none first.machine second.machine last last') :
    ∃ after', onMachine action' second = .ok value after' ∧ Alongside final after after' := by
  obtain ⟨last, hlast, rfl⟩ := onMachine_eq_ok.1 hrun
  obtain ⟨last', hlast', proceeds⟩ := again last hlast rfl
  exact ⟨_, onMachine_eq_ok.2 ⟨last', hlast', rfl⟩, h.advance proceeds⟩

end Context

/-! ## Runs without hooks -/

namespace Pipeline

open Context

variable {first second last : Context σ} {stage : Stage σ} {rest stages : List (Stage σ)}
  {scope scope' : Option ScopeId} {code : ExitCode} {R : Machine σ → Machine σ → Prop}

/-- The machines of two contexts are related. -/
def OnMachine (R : Machine σ → Machine σ → Prop) (before after : Context σ) : Prop :=
  R before.machine after.machine

/-- A relation that composes, and that does not look at system properties and scopes. -/
structure Unscoped (R : Machine σ → Machine σ → Prop) : Prop extends Composes R where
  scopes : ∀ machine properties nextScope, R machine { machine with properties, nextScope }

theorem Unscoped.onMachine (unscoped : Unscoped R) : Composes (OnMachine R) :=
  ⟨fun context => unscoped.refl context.machine, fun h h' => unscoped.trans h h'⟩

theorem unscoped_growsBy (may : Location → FileData → Prop) :
    Unscoped (@Machine.GrowsBy σ may) where
  toComposes := Machine.growsBy_composes may
  scopes machine _ _ := ⟨.refl machine.environment, rfl⟩

/-- The same files. -/
def SameFiles (before after : Machine σ) : Prop := after.environment = before.environment

theorem unscoped_sameFiles : Unscoped (@SameFiles σ) where
  refl _ := rfl
  trans h h' := h'.trans h
  scopes _ _ _ := rfl

theorem keeps_onMachine {α : Type} {action : MachineAction σ α} (h : Keeps R action) :
    Keeps (OnMachine R) (onMachine action) := by
  intro context
  have hmachine := h context.machine
  rw [onMachine]
  rcases haction : action context.machine with ⟨value, after⟩ | ⟨cause, after⟩ <;>
    rwa [haction] at hmachine

theorem runStage_alone (stage : Stage σ) (context : Context σ) :
    runStage [] stage context =
      match stage.run context with
      | .ok code after => .ok code (after.noted stage.name (.ran code))
      | .error cause after => .error (.during (.runningStage stage.name) cause) after := by
  have hnone : callBefore stage.name [] context = .ok () context := rfl
  rw [runStage, bind_eq, hnone]
  simp only
  rw [bind_eq, during]
  rcases stage.run context with ⟨code, after⟩ | ⟨cause, after⟩ <;> rfl

/-- Which properties are set in a scope is all that is different in it. -/
theorem scopeFor_eq (stage : Stage σ) (scope : Option ScopeId) (context : Context σ) :
    ∃ properties nextScope, (scopeFor stage scope context).2 =
      { context with machine := { context.machine with properties, nextScope } } := by
  rw [scopeFor]
  split <;> cases scope <;> exact ⟨_, _, rfl⟩

theorem closeScope_eq (scope : Option ScopeId) (context : Context σ) :
    ∃ properties nextScope, closeScope scope context =
      { context with machine := { context.machine with properties, nextScope } } := by
  cases scope <;> exact ⟨_, _, rfl⟩

theorem Unscoped.inScope (unscoped : Unscoped R) (stage : Stage σ) (scope : Option ScopeId)
    (context : Context σ) : OnMachine R context (scopeFor stage scope context).2 := by
  obtain ⟨properties, nextScope, heq⟩ := scopeFor_eq stage scope context
  rw [heq]
  exact unscoped.scopes context.machine properties nextScope

theorem Unscoped.closes (unscoped : Unscoped R) (scope : Option ScopeId)
    (context : Context σ) : OnMachine R context (closeScope scope context) := by
  obtain ⟨properties, nextScope, heq⟩ := closeScope_eq scope context
  rw [heq]
  exact unscoped.scopes context.machine properties nextScope

/-- What every stage makes of the machine, a run does. -/
theorem keeps_runFrom (unscoped : Unscoped R)
    (each : ∀ stage ∈ stages, Keeps (OnMachine R) stage.run) (scope : Option ScopeId) :
    Keeps (OnMachine R) (runFrom [] scope stages) := by
  intro context
  obtain ⟨visits, hruns⟩ := runFrom_runs [] scope stages context
  refine hruns.keeps unscoped.onMachine (fun context _ _ => unscoped.refl context.machine)
    unscoped.inScope unscoped.closes ⟨?_, each, ?_⟩
  · exact fun _ hm => absurd hm List.not_mem_nil
  · exact fun _ hm => absurd hm List.not_mem_nil

/-- Opening and closing scopes makes no difference either. -/
theorem alongside_opened (h : Alongside final first second) (stage : Stage σ)
    (scope scope' : Option ScopeId) :
    Alongside final (scopeFor stage scope first).2 (scopeFor stage scope' second).2 := by
  obtain ⟨_, _, heq⟩ := scopeFor_eq stage scope first
  obtain ⟨_, _, heq'⟩ := scopeFor_eq stage scope' second
  rw [heq, heq']
  exact h.withScopes _ _ _ _

theorem alongside_closed (h : Alongside final first second) (scope scope' : Option ScopeId) :
    Alongside final (closeScope scope first) (closeScope scope' second) := by
  obtain ⟨_, _, heq⟩ := closeScope_eq scope first
  obtain ⟨_, _, heq'⟩ := closeScope_eq scope' second
  rw [heq, heq']
  exact h.withScopes _ _ _ _

/-- A stage is visited again: if it was needed it is, it ends as it did, and so does the rest of the
    run, of which `R` tells what it makes of the machine. -/
theorem runFrom_again (unscoped : Unscoped R)
    (later : ∀ scope, Keeps (OnMachine R) (runFrom [] scope rest))
    (h : Alongside final first second)
    (needed : stage.isNeeded second = stage.isNeeded first)
    (body : ∀ {first' second' middle : Context σ} {code : ExitCode},
      Alongside final first' second' → first'.resolution = first.resolution →
      first'.machine.environment = first.machine.environment → stage.run first' = .ok code middle →
      R middle.machine last.machine →
      ∃ middle', stage.run second' = .ok code middle' ∧ Alongside final middle middle')
    (others : ∀ {middle middle' : Context σ} {scope scope' : Option ScopeId} {code : ExitCode},
      Alongside final middle middle' → runFrom [] scope rest middle = .ok code last →
      ∃ last', runFrom [] scope' rest middle' = .ok code last' ∧ Alongside final last last')
    (hrun : runFrom [] scope (stage :: rest) first = .ok code last) :
    ∃ last', runFrom [] scope' (stage :: rest) second = .ok code last' ∧
      Alongside final last last' := by
  rw [runFrom] at hrun ⊢
  rw [needed]
  by_cases hneeded : stage.isNeeded first = true
  · rw [if_pos hneeded] at hrun ⊢
    obtain ⟨_, _, hscope⟩ := scopeFor_eq stage scope first
    have halong := alongside_opened h stage scope scope'
    rcases hopen : scopeFor stage scope first with ⟨opened, started⟩
    rcases hopen' : scopeFor stage scope' second with ⟨opened', started'⟩
    rw [hopen] at hrun hscope halong
    rw [hopen'] at halong
    simp only [runStage_alone] at hrun hscope halong ⊢
    rcases hstage : stage.run started with ⟨found, middle⟩ | ⟨cause, middle⟩
    · simp only [hstage] at hrun
      have hmachine : R middle.machine last.machine := by
        split at hrun
        · have hrest : OnMachine R (middle.noted stage.name (.ran found)) last :=
            (later opened).of_ok hrun
          exact hrest
        · cases hrun
          exact unscoped.closes opened (middle.noted stage.name (.ran code))
      obtain ⟨middle', hstage', halong'⟩ :=
        body halong (by rw [hscope]) (by rw [hscope]) hstage hmachine
      rw [hstage']
      simp only
      split at hrun
      · next hok =>
        rw [if_pos hok]
        exact others (halong'.noted _ _) hrun
      · next hfailed =>
        cases hrun
        rw [if_neg hfailed]
        exact ⟨_, rfl, alongside_closed (halong'.noted _ _) opened opened'⟩
    · rw [hstage] at hrun
      cases hrun
  · rw [if_neg hneeded] at hrun ⊢
    exact others (h.noted _ _) hrun

theorem runFrom_nil_again (h : Alongside final first second)
    (hrun : runFrom [] scope [] first = .ok code last) :
    ∃ last', runFrom [] scope' [] second = .ok code last' ∧ Alongside final last last' := by
  cases hrun
  exact ⟨closeScope scope' second, rfl, alongside_closed h scope scope'⟩

end Pipeline

/-! ## Java -/

namespace Pipeline

open Context Rehearsal

variable {first second last : Context σ} {scope scope' : Option ScopeId} {code : ExitCode}
  {isModular : Bool}

/-- The stage that compiles Java with the rehearsed service. -/
abbrev rehearsedJava (isModular : Bool) : Stage σ :=
  .java (JavaStrategy.embedded (javaService none) isModular)

/-- What a compiler makes of the machine. -/
abbrev Compiles : Machine σ → Machine σ → Prop :=
  Machine.GrowsBy fun location _ => IsClassFile location

theorem keeps_java : Keeps (OnMachine Compiles) (rehearsedJava isModular : Stage σ).run := by
  have composes := (unscoped_growsBy (σ := σ) fun location _ => IsClassFile location).onMachine
  refine composes.keeps_bind composes.refl fun context => keeps_onMachine ?_
  exact keeps_embedded isModular context.resolution (context.sourcesOf .java)

theorem java_again (h : Alongside final first second)
    (hrun : runFrom [] scope [rehearsedJava isModular] first = .ok code last)
    (hend : last.machine.environment = final) :
    ∃ last', runFrom [] scope' [rehearsedJava isModular] second = .ok code last' ∧
      Alongside final last last' := by
  have grows : Grows (fun location _ => IsClassFile location) first.machine.environment final := by
    have compiles : OnMachine Compiles first last := (keeps_runFrom (unscoped_growsBy _)
      (fun stage hm => by
        rw [List.mem_singleton.1 hm]
        exact keeps_java) scope).of_ok hrun
    exact hend ▸ compiles.grows
  refine runFrom_again unscoped_sameFiles (fun scope => ?_) h ?_ ?_
    (fun halong hrest => runFrom_nil_again halong hrest) hrun
  · exact keeps_runFrom unscoped_sameFiles (fun _ hm => absurd hm List.not_mem_nil) scope
  · show (!(second.sourcesOf .java).isEmpty) = !(first.sourcesOf .java).isEmpty
    rw [h.sourcesOf_eq grows]
  · intro first' second' middle found halong _ hsame hbody (hfiles : _ = _)
    rw [← hsame] at grows
    have hbody' : onMachine ((JavaStrategy.embedded (javaService none) isModular).compile
        first'.resolution (first'.sourcesOf .java)) first' = .ok found middle := hbody
    show ∃ middle', onMachine ((JavaStrategy.embedded (javaService none) isModular).compile
        second'.resolution (second'.sourcesOf .java)) second' = .ok found middle' ∧ _
    rw [halong.sourcesOf_eq grows, halong.resolution]
    refine halong.onMachine_again hbody' fun last hlast heq => ?_
    exact embedded_again halong.abreast (halong.directories _ List.mem_cons_self) hlast
      (by rw [← heq, ← hfiles, hend])

/-! ## Kotlin -/

/-- The stage that compiles Kotlin with the rehearsed front end. -/
abbrev rehearsedKotlin : Stage σ := .kotlin Rehearsal.frontend

theorem keeps_kotlin : Keeps (OnMachine Compiles) (rehearsedKotlin : Stage σ).run := by
  have composes := (unscoped_growsBy (σ := σ) fun location _ => IsClassFile location).onMachine
  exact composes.keeps_bind composes.refl fun context => keeps_onMachine (keeps_exec rfl)

/-- What compilers write is class files. -/
theorem keeps_compilers (scope : Option ScopeId) : Keeps (OnMachine Compiles)
    (runFrom [] scope [(rehearsedKotlin : Stage σ), rehearsedJava isModular]) := by
  refine keeps_runFrom (unscoped_growsBy _) (fun stage hm => ?_) scope
  rcases List.mem_cons.1 hm with rfl | hm
  · exact keeps_kotlin
  · rw [List.mem_singleton.1 hm]
    exact keeps_java

theorem kotlin_again (h : Alongside final first second)
    (hrun : runFrom [] scope [rehearsedKotlin, rehearsedJava isModular] first = .ok code last)
    (hend : last.machine.environment = final) :
    ∃ last', runFrom [] scope' [rehearsedKotlin, rehearsedJava isModular] second = .ok code last' ∧
      Alongside final last last' := by
  have grows : Grows (fun location _ => IsClassFile location) first.machine.environment final := by
    have compiles : OnMachine Compiles first last := (keeps_compilers scope).of_ok hrun
    exact hend ▸ compiles.grows
  refine runFrom_again (unscoped_growsBy fun location _ => IsClassFile location)
    (fun scope => ?_) h ?_ ?_ (fun halong hrest => java_again halong hrest hend) hrun
  · exact keeps_runFrom (unscoped_growsBy _) (fun stage hm => by
      rw [List.mem_singleton.1 hm]
      exact keeps_java) scope
  · show (!(second.sourcesOf .kotlin).isEmpty) = !(first.sourcesOf .kotlin).isEmpty
    rw [h.sourcesOf_eq grows]
  · intro first' second' middle found halong _ hsame hbody compiles
    rw [← hsame] at grows
    have hbody' : onMachine (Rehearsal.frontend.exec (Stage.kotlinArguments first')) first' =
        .ok found middle := hbody
    show ∃ middle', onMachine (Rehearsal.frontend.exec (Stage.kotlinArguments second')) second' =
        .ok found middle' ∧ _
    -- The two calls differ in system properties at most.
    have hanswer : (answer (Stage.kotlinArguments second') : MachineAction σ ExitCode) =
        answer (Stage.kotlinArguments first') := by
      have hargs : Stage.kotlinArguments second' = { Stage.kotlinArguments first' with
          systemProperties := second'.machine.properties.snapshot } := by
        rw [Stage.kotlinArguments, halong.sourcesOf_eq grows, halong.sourcesOf_eq grows,
          halong.resolution]
        rfl
      rw [hargs, answer_eq]
    refine halong.onMachine_again hbody' fun last hlast heq => ?_
    have noted := halong.abreast.withCalls
      (first'.machine.calls ++ [.frontend (Stage.kotlinArguments first')])
      (second'.machine.calls ++ [.frontend (Stage.kotlinArguments second')])
    rw [exec_eq] at hlast ⊢
    obtain ⟨last', hlast', proceeds⟩ := recurs_compile noted rfl
      (fun source hm readable => halong.settled_of_mem_sourcesOf grows hm readable)
      (halong.directories _ List.mem_cons_self) found last hlast (by rw [← heq, ← hend]; exact compiles.grows)
    refine ⟨last', ?_, proceeds.abreast, proceeds.moves⟩
    rw [hanswer]
    exact hlast'

end Pipeline

end KotlinHarness
