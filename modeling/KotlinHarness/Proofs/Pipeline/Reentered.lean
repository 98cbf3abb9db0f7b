/-
  Installations within installations.

  A thread may install a value while it holds the guard of another one: a processor that compiles
  something of its own does so, within the annotation processing stage that runs it.  A slot is no
  stack, though.  The second value takes the place of the first, and the drop of any guard leaves the
  thread with nothing, so the outer value is lost although its guard is live.

  What compile calls make of the registrations is `Reenters`, to any depth: a call keeps it if all
  that is called within keeps it.

    * `get?_of_nested`            a thread finds the value of its innermost guard, until it drops one
    * `keeps_compile`             what a call keeps, if all that it calls does
    * `ofConfig_callsKeep`        the tools of the host are such, whatever they print and write
    * `registration?_of_compile`  a call with processors and a result leaves no registration behind
-/
import KotlinHarness.Proofs.Pipeline.Alongside
import KotlinHarness.Proofs.Pipeline.HandedSources
import KotlinHarness.Proofs.Pipeline.Reported
import KotlinHarness.Proofs.Pipeline.SideBySide

namespace KotlinHarness

/-! ## Guards within guards -/

namespace HandoffSlot

variable {α : Type} {thread : ThreadId} {steps : List (Step α)} {live : List α}

/-- The values of the guards that are live after a step, innermost first; nothing if there is no guard
    to drop. -/
def Step.guards? : Step α → List α → Option (List α)
  | install _ value, live => some (value :: live)
  | get _, live => some live
  | drop _, live => live.tail?

/-- The values of the guards that are live after well-nested steps of a thread, innermost first. -/
def liveGuards? (steps : List (Step α)) : Option (List α) :=
  steps.foldlM (fun live step => step.guards? live) []

/-- A guard was dropped and nothing was installed since. -/
def Cleared (thread : ThreadId) (steps : List (Step α)) : Prop :=
  ∃ before since, steps = before ++ .drop thread :: since ∧
    ∀ value, Step.install thread value ∉ since

/-- One more step clears the entry by being a drop, or leaves it cleared by being no installation. -/
theorem cleared_concat (last : Step α) :
    Cleared thread (steps ++ [last]) ↔
      last = .drop thread ∨ (Cleared thread steps ∧ ∀ value, last ≠ .install thread value) := by
  constructor
  · rintro ⟨before, since, heq, hsince⟩
    rcases List.eq_nil_or_concat since with rfl | ⟨between, other, rfl⟩
    · obtain ⟨-, hlast⟩ := List.append_inj' heq rfl
      exact .inl (List.singleton_inj.1 hlast)
    · simp only [List.concat_eq_append] at heq hsince
      rw [← List.cons_append, ← List.append_assoc] at heq
      obtain ⟨hsteps, hlast⟩ := List.append_inj' heq rfl
      obtain rfl := List.singleton_inj.1 hlast
      refine .inr ⟨⟨before, between, hsteps, fun value hm => hsince value ?_⟩, fun value h => ?_⟩
      · exact List.mem_append_left _ hm
      · exact hsince value (by simp [h])
  · rintro (rfl | ⟨⟨before, since, rfl, hsince⟩, hlast⟩)
    · exact ⟨steps, [], rfl, fun _ hm => absurd hm List.not_mem_nil⟩
    · refine ⟨before, since ++ [last], by simp, fun value hm => ?_⟩
      rcases List.mem_append.1 hm with hm | hm
      · exact hsince value hm
      · exact hlast value (List.mem_singleton.1 hm).symm

/-- What well-nested steps make of a thread's entry. -/
theorem foldl_hold_of_nested (ownSteps : ∀ step ∈ steps, step.thread = thread)
    (nested : liveGuards? steps = some live) :
    (Cleared thread steps → steps.foldl (fun held step => step.hold held) none = none) ∧
      (¬ Cleared thread steps →
        steps.foldl (fun held step => step.hold held) none = live.head?) := by
  induction steps using List.reverseRecOn generalizing live with
  | nil =>
    cases nested
    exact ⟨fun _ => rfl, fun _ => rfl⟩
  | append_singleton steps last ih =>
    rw [liveGuards?, List.foldlM_append] at nested
    obtain ⟨outer, houter, hlast⟩ := Option.bind_eq_some_iff.1 nested
    have hlast : last.guards? outer = some live := by simpa using hlast
    have hown : last.thread = thread := ownSteps last (by simp)
    obtain ⟨hcleared, hkept⟩ := ih (fun step hm => ownSteps step (List.mem_append_left _ hm)) houter
    rw [cleared_concat, List.foldl_concat]
    cases last with
    | install other value =>
      obtain rfl : other = thread := hown
      cases hlast
      exact ⟨by simp, fun _ => rfl⟩
    | get other =>
      cases hlast
      simpa [Step.hold] using And.intro hcleared hkept
    | drop other =>
      obtain rfl : other = thread := hown
      exact ⟨fun _ => rfl, fun h => absurd (.inl rfl) h⟩

/-- A thread finds the value of its innermost guard, as long as it has dropped none since it installed
    something; after a drop it finds nothing. -/
theorem get?_of_nested {steps : List (Step α)} (nested : liveGuards? (own thread steps) = some live) :
    (Cleared thread (own thread steps) → (after steps).get? thread = none) ∧
      (¬ Cleared thread (own thread steps) → (after steps).get? thread = live.head?) := by
  rw [get?_after]
  exact foldl_hold_of_nested (fun step hm => beq_iff_eq.1 (List.mem_filter.1 hm).2) nested

end HandoffSlot

/-! ## Calls -/

variable {σ : Type}

open HandoffSlot Machine Pipeline

section Calls

variable {R : Machine σ → Machine σ → Prop} {harness : Harness σ}

namespace Harness

/-- All that a harness calls keeps a relation. -/
structure CallsKeep (R : Machine σ → Machine σ → Prop) (harness : Harness σ) : Prop where
  frontend : ∀ args, Keeps R (harness.frontend.exec args)
  service : ∀ service, harness.javaService = some service → ∀ args machine,
    R machine (service.compile args machine).2
  hooks : EveryCall (OnMachine R) harness.hooks []

theorem keeps_exitCodeOf (indifferent : Indifferent R) (outcome : Except ServiceError Bool) :
    Keeps R (JavaStrategy.exitCodeOf outcome) := by
  match outcome with
  | .ok true => exact indifferent.keeps_pure _
  | .ok false => exact indifferent.keeps_pure _
  | .error error =>
    rw [JavaStrategy.exitCodeOf]
    split
    · exact indifferent.keeps_bind (indifferent.keeps_printLine _) fun _ => indifferent.keeps_pure _
    · exact indifferent.refl

/-- The ways of compiling Java run a tool or call a service. -/
theorem CallsKeep.strategy (parts : harness.CallsKeep R) (indifferent : Indifferent R)
    (env : Environment) (resolution : Resolution) (other : Resolution) (sources : List Path) :
    Keeps R ((JavaStrategy.select env resolution harness.javaService).compile other sources) := by
  rw [JavaStrategy.select]
  split
  · exact indifferent.keeps_bind indifferent.refl fun _ => indifferent.keeps_runTool _ _
  · next hjdk =>
    refine indifferent.keeps_bind (fun machine => ?_) fun answer =>
      indifferent.keeps_bind (indifferent.keeps_printDiagnostics _) fun _ =>
        keeps_exitCodeOf indifferent _
    rcases hservice : harness.javaService with - | service
    · exact indifferent.refl machine
    · exact parts.service service hservice _ machine

/-- The stages of a call keep what its parts keep, if a registration may be installed around them. -/
theorem CallsKeep.everyCall (parts : harness.CallsKeep R) (indifferent : Indifferent R)
    (installs : harness.processors ≠ [] → ∀ registration args,
      Keeps R (withRegistration registration (harness.frontend.exec args)))
    (env : Environment) (resolution : Resolution) :
    EveryCall (OnMachine R) harness.hooks (harness.pipeline env resolution).stages := by
  have composes : Composes (OnMachine R) :=
    ⟨fun context => indifferent.refl context.machine, fun h h' => indifferent.trans h h'⟩
  refine ⟨parts.hooks.before, fun stage hm => ?_, parts.hooks.after⟩
  simp only [pipeline, Pipeline.standard, List.mem_cons, List.not_mem_nil, or_false] at hm
  rcases hm with rfl | rfl | rfl
  · by_cases hneeded : harness.needsKapt = true
    · rw [if_pos hneeded]
      have hsome : harness.processors ≠ [] := by
        rintro hnone
        rw [needsKapt, hnone] at hneeded
        cases hneeded
      refine composes.keeps_bind composes.refl fun context => ?_
      refine composes.keeps_bind (keeps_onMachine (indifferent.keeps_onEnvironment _)) fun _ => ?_
      refine composes.keeps_bind (keeps_onMachine (indifferent.keeps_onEnvironment _)) fun _ => ?_
      exact keeps_onMachine (installs hsome _ _)
    · rw [if_neg hneeded]
      exact composes.keeps_pure _
  · exact composes.keeps_bind composes.refl fun _ => keeps_onMachine (parts.frontend _)
  · exact composes.keeps_bind composes.refl fun _ =>
      keeps_onMachine (parts.strategy indifferent _ _ _ _)

theorem CallsKeep.runs (parts : harness.CallsKeep R) (indifferent : Indifferent R)
    (unscoped : Unscoped R)
    (installs : harness.processors ≠ [] → ∀ registration args,
      Keeps R (withRegistration registration (harness.frontend.exec args)))
    (env : Environment) (resolution : Resolution) :
    Keeps (OnMachine R) (harness.pipeline env resolution).run := by
  intro context
  obtain ⟨visits, hruns⟩ := run_runs (harness.pipeline env resolution) context
  exact hruns.keeps unscoped.onMachine (fun context _ _ => indifferent.refl context.machine)
    unscoped.inScope unscoped.closes (parts.everyCall indifferent installs env resolution)

/-- A call keeps what its parts keep, however it ends. -/
theorem keeps_compile (parts : harness.CallsKeep R) (indifferent : Indifferent R)
    (unscoped : Unscoped R)
    (installs : harness.processors ≠ [] → ∀ registration args,
      Keeps R (withRegistration registration (harness.frontend.exec args)))
    (machine : Machine σ) : R machine (harness.compile machine).2.2 := by
  have hstages : ∀ resolution staged, Keeps R (harness.runStages resolution staged) := by
    intro resolution staged machine
    have hrun := parts.runs indifferent unscoped installs machine.environment resolution
      ⟨machine, resolution, staged, []⟩
    rw [runStages]
    rcases hresult : (harness.pipeline machine.environment resolution).run
      ⟨machine, resolution, staged, []⟩ with ⟨code, last⟩ | ⟨cause, last⟩ <;> rw [hresult] at hrun <;>
      exact hrun
  have hend : Keeps R (endMessages : MachineAction σ String) := by
    intro machine
    rw [endMessages]
    rcases machine.messages.finish machine.client with ⟨cause | text, client⟩ <;>
      exact indifferent.changes machine _ _ _
  have hcallOn : Keeps R harness.callOn :=
    indifferent.keeps_bind (indifferent.keeps_onEnvironment _) fun _ =>
      indifferent.keeps_bind (hstages _ _) fun _ =>
        indifferent.keeps_bind hend fun _ =>
          indifferent.keeps_bind indifferent.refl fun _ => indifferent.keeps_pure _
  -- The stream of the call is there in between.
  have hbefore := indifferent.changes machine machine.environment (.ofSink harness.sink)
    machine.client
  have hthrough := indifferent.trans hbefore (hcallOn _)
  rw [compile, call]
  rcases hcall : harness.callOn { machine with messages := .ofSink harness.sink } with
    ⟨⟨result, records⟩, last⟩ | ⟨cause, last⟩ <;> rw [hcall] at hthrough <;>
    exact indifferent.trans hthrough (indifferent.changes last last.environment _ last.client)

end Harness

end Calls

/-! ## Registrations -/

namespace Machine

/-- The registrations of other threads stay, and that of the thread stays or is gone. -/
structure Reenters (before after : Machine σ) : Prop where
  thread : after.thread = before.thread
  others : ∀ other, other ≠ before.thread →
    after.registrations.get? other = before.registrations.get? other
  own : after.registration? = before.registration? ∨ after.registration? = none

theorem LeavesRegistrations.registration? {before after : Machine σ}
    (h : LeavesRegistrations before after) : after.registration? = before.registration? := by
  rw [Machine.registration?, Machine.registration?, h.registrations, h.thread]

theorem LeavesRegistrations.reenters {before after : Machine σ}
    (h : LeavesRegistrations before after) : Reenters before after :=
  ⟨h.thread, fun _ _ => by rw [h.registrations], .inl h.registration?⟩

theorem indifferent_reenters : Indifferent (@Reenters σ) where
  refl machine := (indifferent_leavesRegistrations.refl machine).reenters
  trans h h' := by
    refine ⟨h'.thread.trans h.thread, fun other hne => ?_, ?_⟩
    · exact (h'.others other (h.thread ▸ hne)).trans (h.others other hne)
    · rcases h'.own with heq | hnone
      · rw [heq]
        exact h.own
      · exact .inr hnone
  changes machine _ _ _ := (indifferent_leavesRegistrations.changes machine _ _ _).reenters

theorem unscoped_leavesRegistrations : Unscoped (@LeavesRegistrations σ) where
  toComposes := indifferent_leavesRegistrations.toComposes
  scopes _ _ _ := ⟨rfl, rfl⟩

theorem unscoped_reenters : Unscoped (@Reenters σ) where
  toComposes := indifferent_reenters.toComposes
  scopes machine _ _ := (unscoped_leavesRegistrations.scopes machine _ _).reenters

/-- A thread that has no registration gets none. -/
theorem Reenters.stays_none {before after : Machine σ} (h : Reenters before after)
    (none : before.registration? = none) : after.registration? = .none :=
  h.own.elim (·.trans none) id

theorem registration?_clearRegistration (machine : Machine σ) :
    machine.clearRegistration.registration? = none :=
  (get?_clear machine.registrations machine.thread machine.thread).trans (if_pos rfl)

/-- Whatever is done while a registration is installed, the thread has none afterwards. -/
theorem reenters_withRegistration {α : Type} {action : MachineAction σ α} (h : Keeps Reenters action)
    (registration : Registration σ) : Keeps Reenters (withRegistration registration action) := by
  intro machine
  have hheld := h (PluginHost.holding registration machine)
  rw [PluginHost.finalState_withRegistration]
  refine ⟨hheld.thread, fun other hne => ?_, .inr (registration?_clearRegistration _)⟩
  have hthread : (finalState (action (PluginHost.holding registration machine))).thread =
      machine.thread := hheld.thread
  refine (get?_clear _ _ other).trans ?_
  rw [hthread, if_neg hne, hheld.others other hne]
  exact (get?_install machine.registrations machine.thread other registration).trans (if_neg hne)

end Machine

/-- A stage with an exit code has installed its registration and taken it back. -/
theorem Stage.registration?_of_runKapt {frontend : Frontend σ} {registration : Registration σ}
    {context ended : Context σ} {code : ExitCode}
    (h : runKapt frontend registration context = .ok code ended) :
    ended.machine.registration? = none := by
  rw [runKapt, get_bind] at h
  obtain ⟨_, _, -, h⟩ := of_bind_ok h
  obtain ⟨_, _, -, h⟩ := of_bind_ok h
  obtain ⟨last, -, hended⟩ := PluginHost.withRegistration_ok (PluginHost.onMachine_ok h).1
  rw [hended]
  exact registration?_clearRegistration last

/-- A launcher prints, runs a tool and plugins, and nothing else. -/
theorem Launcher.keeps_exec {R : Machine σ → Machine σ → Prop} (indifferent : Indifferent R)
    (launcher : Launcher) (args : FrontendArguments) : Keeps R (launcher.exec args) := by
  have hrun : ∀ path, Keeps R (run path args) := fun path =>
    indifferent.keeps_bind indifferent.refl fun _ => indifferent.keeps_runTool _ _
  have hstubs : ∀ path, Keeps R (runForStubs path args) := by
    intro path
    rw [runForStubs]
    split
    · exact hrun path
    · exact indifferent.keeps_bind (indifferent.keeps_printLine _) fun _ => indifferent.keeps_pure _
  refine indifferent.keeps_bind indifferent.refl fun machine => ?_
  split
  · exact indifferent.keeps_bind (indifferent.keeps_printLine _) fun _ => indifferent.keeps_pure _
  · split
    · exact hrun _
    · refine indifferent.keeps_bind (hstubs _) fun code => ?_
      split
      · exact indifferent.keeps_runAll args
      · exact indifferent.keeps_pure _

namespace Harness

variable {harness again : Harness σ} {machine after : Machine σ} {result : CompilationResult}

/-- A call with processors that gives a result leaves its thread without registration. -/
theorem registration?_of_compile (parts : harness.CallsKeep Reenters)
    (processors : harness.processors ≠ [])
    (h : harness.compile machine = (.ok result, again, after)) : after.registration? = none := by
  obtain ⟨resolution, staged, env, code, last, text, client, hprepare, hrun, -, -, -, rfl⟩ :=
    compile_eq_ok.1 h
  have composes := (@unscoped_reenters σ).onMachine
  have keeps := parts.everyCall indifferent_reenters
    (fun _ registration args => reenters_withRegistration (parts.frontend args) registration) env
    resolution
  have needed : harness.needsKapt = true := by
    rw [needsKapt, Bool.not_eq_true', List.isEmpty_eq_false_iff]
    exact processors
  have hstages : (harness.pipeline env resolution).stages =
      [.kapt harness.frontend (some (.ofResolution harness.processors resolution)),
        .kotlin harness.frontend, .java (.select env resolution harness.javaService)] := by
    rw [pipeline, if_pos needed]
    rfl
  obtain ⟨visits, hruns⟩ := run_runs (harness.pipeline env resolution)
    (harness.beginning machine env resolution staged)
  rw [hrun] at hruns
  rw [hstages] at hruns keeps
  have noted : ∀ (context : Context σ) stage outcome,
      OnMachine Reenters context (context.noted stage outcome) :=
    fun context _ _ => indifferent_reenters.refl context.machine
  -- The first stage ran, and nothing that follows installs a registration for good.
  have ended : ∀ {scope : Context σ} {made : List (Made σ)} {code : ExitCode} {after : Context σ},
      Attends harness.hooks
        (.kapt harness.frontend (some (.ofResolution harness.processors resolution))) scope made
        (.ran code) after → after.machine.registration? = none := by
    intro scope made code after attended
    obtain ⟨start, stop, -, -, hbody, hafter⟩ := attended.around composes noted keeps
    have hstop : stop.machine.registration? = none :=
      Stage.registration?_of_runKapt (during_eq_ok hbody)
    exact Reenters.stays_none hafter hstop
  suffices hlast : last.machine.registration? = none from hlast
  generalize hresult : EStateM.Result.ok code last = outcome at hruns
  cases hruns with
  | skip idle others =>
    have hneeded : (!harness.processors.isEmpty) = false := idle
    rw [← needsKapt, needed] at hneeded
    cases hneeded
  | goOn hneeded attended others =>
    have hlast := others.keeps composes noted unscoped_reenters.inScope unscoped_reenters.closes
      keeps.tail
    rw [← hresult] at hlast
    exact Reenters.stays_none hlast (ended attended)
  | @stop _ _ _ _ last' made fate hneeded attended stopped =>
    cases fate with
    | ran code =>
      cases hresult
      exact Reenters.stays_none (unscoped_reenters.closes _ last') (ended attended)
    | skipped => exact absurd rfl attended.ne_skipped
    | stoppedBefore cause => cases hresult
    | failed cause => cases hresult
    | stoppedAfter code cause => cases hresult

/-! ## Calls within calls -/

/-- **Installations within installations**: a thread that installs and drops in nested order finds the
    value of its innermost guard, but only until it drops a guard; then it finds nothing, whichever
    guards are live, until it installs something again.

    So a call on a thread that has a registration, as a processor may make one, leaves it there if it
    has no processors of its own; with processors and a result it leaves the thread with none, and
    however it ends the thread has its registration or none.  What is called within the call may make
    calls of that kind again, on the same thread. -/
theorem reentered {α : Type} {thread : ThreadId} {steps : List (Step α)} {live : List α}
    (nested : liveGuards? (own thread steps) = some live) (parts : harness.CallsKeep Reenters)
    (machine : Machine σ) :
    (¬ Cleared thread (own thread steps) →
      (HandoffSlot.after steps).get? thread = live.head?) ∧
    (Cleared thread (own thread steps) → (HandoffSlot.after steps).get? thread = none) ∧
    Reenters machine (harness.compile machine).2.2 ∧
    (harness.processors = [] → harness.CallsKeep LeavesRegistrations →
      LeavesRegistrations machine (harness.compile machine).2.2) ∧
    (harness.processors ≠ [] → (harness.compile machine).1.isOk = true →
      (harness.compile machine).2.2.registration? = none) := by
  obtain ⟨hcleared, hfound⟩ := get?_of_nested nested
  refine ⟨hfound, hcleared, ?_, fun none leaves => ?_, fun processors ended => ?_⟩
  · exact keeps_compile parts indifferent_reenters unscoped_reenters
      (fun _ registration args => reenters_withRegistration (parts.frontend args) registration) machine
  · exact keeps_compile leaves indifferent_leavesRegistrations unscoped_leavesRegistrations
      (fun some => absurd none some) machine
  · rcases h : harness.compile machine with ⟨cause | result, again, after⟩
    · rw [h] at ended
      cases ended
    · exact registration?_of_compile parts processors h

/-- The tools of the host keep what does not look at files, messages and the client's state, such as
    `Reenters`: calls that use them may be made within each other. -/
theorem ofConfig_callsKeep {R : Machine σ → Machine σ → Prop} (indifferent : Indifferent R)
    (config : Compilation) (sink : Sink σ) (processors : List (Processor σ)) :
    { ofConfig config sink with processors }.CallsKeep R where
  frontend args := Launcher.keeps_exec indifferent ⟨config.kotlinc⟩ args
  service := by
    rintro service ⟨⟩
  hooks := .of_stages (List.forall_mem_nil _)

/-- Two installations, one within the other, of which the inner one has ended. -/
def innerEnded : List (Step String) :=
  [.install 0 "outer", .install 0 "inner", .get 0, .drop 0, .get 0]

/-- A harness with a processor, and with a front end that does nothing. -/
def resting : Harness Unit :=
  { launching [classUnit] [Processing.builder] with
    frontend := ⟨"resting", fun _ => pure .ok⟩
    host := .fixed [] none [] }

/-- It calls what the tools of the host do, apart from the front end. -/
theorem resting_callsKeep : resting.CallsKeep Reenters := by
  have tools : ({ ofConfig resting.config resting.sink with processors := resting.processors } :
      Harness Unit).CallsKeep Reenters :=
    ofConfig_callsKeep indifferent_reenters resting.config resting.sink resting.processors
  exact ⟨fun _ => indifferent_reenters.keeps_pure ExitCode.ok, tools.service, tools.hooks⟩

/-- The machine that a processor of another call works on. -/
def heldMachine : Machine Unit :=
  PluginHost.holding (registrationOfCall "outer") (.start default 5 ())

theorem resting_ended : (resting.compile heldMachine).1.isOk = true := by decide +kernel

/-- The outer value is not found while its guard is live, nor is the outer registration after a call
    of the processor. -/
theorem resting_reentered :
    liveGuards? (own 0 innerEnded) = some ["outer"] ∧ resting.CallsKeep Reenters ∧
      (HandoffSlot.after innerEnded).get? 0 = none ∧
      heldMachine.registration? = some (registrationOfCall "outer") ∧
      Reenters heldMachine (resting.compile heldMachine).2.2 ∧
      (resting.compile heldMachine).2.2.registration? = none := by
  have nested : liveGuards? (own 0 innerEnded) = some ["outer"] := rfl
  obtain ⟨-, hcleared, hreenters, -, hgone⟩ := reentered nested resting_callsKeep heldMachine
  have cleared : Cleared 0 (own 0 innerEnded) :=
    ⟨[.install 0 "outer", .install 0 "inner", .get 0], [.get 0], rfl, fun value hm => by
      cases List.mem_singleton.1 hm⟩
  exact ⟨nested, resting_callsKeep, hcleared cleared, rfl, hreenters,
    hgone (List.cons_ne_nil _ _) resting_ended⟩

/-- A slot is no stack, so calls within calls do not leave registrations installed. -/
theorem outer_value_lost :
    ¬ (∀ (steps : List (Step String)) (thread : ThreadId) (innermost : String) (outer : List String),
        liveGuards? (own thread steps) = some (innermost :: outer) →
        (HandoffSlot.after steps).get? thread = some innermost) ∧
      ¬ (∀ (harness : Harness Unit) (machine : Machine Unit),
        (harness.compile machine).1.isOk = true →
        (harness.compile machine).2.2.registration? = machine.registration?) := by
  refine ⟨fun claim => ?_, fun claim => ?_⟩
  · have hfound := claim innerEnded 0 "outer" [] rfl
    exact absurd hfound (by decide)
  · have hkept := claim resting heldMachine resting_ended
    rcases h : resting.compile heldMachine with ⟨cause | result, again, after⟩
    · have ended := resting_ended
      rw [h] at ended
      cases ended
    · rw [h, registration?_of_compile resting_callsKeep (List.cons_ne_nil _ _) h] at hkept
      cases hkept

end Harness

end KotlinHarness
