/-
  The front end's property during a run.

  A run may have a scope open.  When it has, the store is the one the run started with and that
  scope's override on top of it; when it has none, the store is the one the run started with
  (`Holds`).  Opening and closing the scope lead from one case to the other, stages and hooks keep
  either case as long as they take back what they set, and skipped stages do nothing to the store.

  The invariant goes over the account of the run.  Which case holds while a stage runs is known from
  the stage, since `scopeFor` opens the scope for it or closes it; and every way out of a run closes
  the scope.
-/
import KotlinHarness.Proofs.Pipeline.Visits
import KotlinHarness.Proofs.Scope.Overrides

namespace KotlinHarness.Pipeline

open Properties

variable {σ : Type}

/-! ## What stages and hooks may do -/

/-- The overrides are the same as before.  Scopes may have been opened and ended in between: no
    number of one is given out again. -/
def TakesBack (before after : Context σ) : Prop :=
  Reached before.machine.nextScope before.machine.properties →
    after.machine.properties = before.machine.properties ∧
      before.machine.nextScope ≤ after.machine.nextScope

theorem TakesBack.reached {before after : Context σ} (h : TakesBack before after)
    (reached : Reached before.machine.nextScope before.machine.properties) :
    Reached after.machine.nextScope after.machine.properties := by
  obtain ⟨same, le⟩ := h reached
  rw [same]
  exact reached.mono le

theorem takesBack_composes : Composes (@TakesBack σ) := by
  refine ⟨fun context _ => ⟨rfl, Nat.le_refl _⟩, ?_⟩
  intro first second third h h' reached
  obtain ⟨same, le⟩ := h reached
  obtain ⟨same', le'⟩ := h' (h.reached reached)
  exact ⟨same'.trans same, Nat.le_trans le le'⟩

theorem takesBack_noted (context : Context σ) (stage : String) (outcome : StageOutcome) :
    TakesBack context (context.noted stage outcome) :=
  fun _ => ⟨rfl, Nat.le_refl _⟩

/-! ## The invariant -/

/-- What the store of a run is while a scope is open, and while none is; `base` is what it was when
    the run started. -/
inductive Holds (base : Properties) (context : Context σ) : Option ScopeId → Prop
  | closed (same : context.machine.properties = base)
      (reached : Reached context.machine.nextScope context.machine.properties) :
      Holds base context none
  | opened {scope : ScopeId} (before : Reached scope base)
      (top : context.machine.properties = base.set scope nativeFileSystem frontendPropertyValue)
      (reached : Reached context.machine.nextScope context.machine.properties) :
      Holds base context (some scope)

namespace Holds

variable {base : Properties} {context after : Context σ} {scope : Option ScopeId}

theorem reached (h : Holds base context scope) :
    Reached context.machine.nextScope context.machine.properties := by
  cases h with
  | closed _ reached => exact reached
  | opened _ _ reached => exact reached

/-- What takes back its overrides leaves the invariant. -/
theorem keep (h : Holds base context scope) (back : TakesBack context after) :
    Holds base after scope := by
  have same := (back h.reached).1
  have reached := back.reached h.reached
  cases h with
  | closed store _ => exact .closed (same.trans store) reached
  | opened before top _ => exact .opened before (same.trans top) reached

/-- With the scope closed the invariant holds of none. -/
theorem close (h : Holds base context scope) : Holds base (closeScope scope context) none := by
  cases h with
  | closed store reached => exact .closed store reached
  | @opened id before top reached =>
    refine .closed ?_ (reached.ended id nativeFileSystem)
    show context.machine.properties.release id nativeFileSystem = base
    rw [top, release_set before.sound]

/-- Closing the scope gives back the store the run started with. -/
theorem store_close (h : Holds base context scope) :
    (closeScope scope context).machine.properties = base := by
  cases h.close with
  | closed store _ => exact store

/-- A scope is open for a stage of the front end, and only for such a stage. -/
theorem forStage (h : Holds base context scope) (stage : Stage σ) :
    Holds base (scopeFor stage scope context).2 (scopeFor stage scope context).1 ∧
      (scopeFor stage scope context).1.isSome = stage.usesFrontend := by
  rw [scopeFor]
  split
  · next uses =>
    cases h with
    | closed store reached =>
      -- The store there is, and not `base`, is the one that the new scope is fresh for.
      have before : Reached context.machine.nextScope base := store ▸ reached
      have top : (context.machine.properties.set context.machine.nextScope nativeFileSystem
          frontendPropertyValue) = base.set context.machine.nextScope nativeFileSystem
            frontendPropertyValue := by
        rw [store]
      exact ⟨.opened before top (reached.opened nativeFileSystem frontendPropertyValue), uses.symm⟩
    | opened before top reached => exact ⟨.opened before top reached, uses.symm⟩
  · next uses => exact ⟨h.close, by simpa using uses⟩

end Holds

/-! ## Every stage of a run -/

/-- What the property has to be while a stage runs. -/
def InEffect (base : Properties) (stage : Stage σ) (context : Context σ) : Prop :=
  if stage.usesFrontend then context.machine.properties.get? nativeFileSystem = some "false"
  else context.machine.properties = base

theorem Holds.inEffect {base : Properties} {context : Context σ} {scope : Option ScopeId}
    {stage : Stage σ} (h : Holds base context scope) (fits : scope.isSome = stage.usesFrontend) :
    InEffect base stage context := by
  rw [InEffect, ← fits]
  cases h with
  | closed store _ => exact store
  | @opened id _ top _ =>
    show context.machine.properties.get? nativeFileSystem = some "false"
    rw [top]
    exact get?_set base id nativeFileSystem frontendPropertyValue

/-- Seen from any stage on: every call is made with the property as it has to be, and the run ends
    with the store it started with. -/
theorem Runs.scoped {base : Properties} {hooks : List (Hook σ)} {scope : Option ScopeId}
    {stages : List (Stage σ)} {context : Context σ} {visits : List (Visit σ)}
    {result : EStateM.Result Failure (Context σ) ExitCode}
    (keeps : EveryCall TakesBack hooks stages) (holds : Holds base context scope)
    (h : Runs hooks scope stages context visits result) :
    (∀ visit ∈ visits, ∀ one ∈ visit.made,
        InEffect base visit.stage one.start ∧ InEffect base visit.stage one.stop) ∧
      (finalState result).machine.properties = base := by
  -- What a visit of the first stage keeps, whether or not the run goes on after it.
  have visited : ∀ {scope : Option ScopeId} {stage : Stage σ} {rest : List (Stage σ)}
      {context after : Context σ} {made : List (Made σ)} {fate : Fate},
      EveryCall TakesBack hooks (stage :: rest) → Holds base context scope →
      Attends hooks stage (scopeFor stage scope context).2 made fate after →
      Holds base after (scopeFor stage scope context).1 ∧
        ∀ one ∈ made, InEffect base stage one.start ∧ InEffect base stage one.stop := by
    intro scope stage rest context after made fate keeps holds attended
    obtain ⟨hscope, fits⟩ := holds.forStage stage
    obtain ⟨hafter, hmade⟩ := attended.keeps takesBack_composes takesBack_noted keeps
      List.mem_cons_self
    refine ⟨hscope.keep hafter, fun one hm => ?_⟩
    obtain ⟨hstart, hstop⟩ := hmade one hm
    exact ⟨(hscope.keep hstart).inEffect fits, (hscope.keep hstop).inEffect fits⟩
  induction h with
  | done scope context => exact ⟨fun _ hm => absurd hm List.not_mem_nil, holds.store_close⟩
  | @skip scope stage rest context visits result idle others ih =>
    -- A skipped stage leaves the scope as it is, open or not.
    obtain ⟨hvisits, hlast⟩ := ih keeps.tail (holds.keep (takesBack_noted context _ _))
    refine ⟨List.forall_mem_cons.2 ⟨fun _ hm => absurd hm List.not_mem_nil, hvisits⟩, hlast⟩
  | @goOn scope stage rest context after made visits result needed attended others ih =>
    obtain ⟨hafter, hmade⟩ := visited keeps holds attended
    obtain ⟨hvisits, hlast⟩ := ih keeps.tail hafter
    exact ⟨List.forall_mem_cons.2 ⟨hmade, hvisits⟩, hlast⟩
  | @stop scope stage rest context after made fate needed attended last =>
    obtain ⟨hafter, hmade⟩ := visited keeps holds attended
    constructor
    · intro visit hm
      rw [List.mem_singleton.1 hm]
      exact hmade
    · -- However the visit ended, the scope is closed on the way out.
      cases fate <;> exact hafter.store_close

/-- **The property holds for the front end and for nothing else**: whatever overrides there were, it
    is set while a stage that uses the front end runs, hooks included; while any other stage runs,
    and after the run, the store is the one before the run. -/
theorem run_scoped (pipeline : Pipeline σ) (context : Context σ)
    (reached : Reached context.machine.nextScope context.machine.properties)
    (keeps : EveryCall TakesBack pipeline.hooks pipeline.stages) :
    ∃ visits, Runs pipeline.hooks none pipeline.stages context visits (pipeline.run context) ∧
      (∀ visit ∈ visits, ∀ one ∈ visit.made,
        InEffect context.machine.properties visit.stage one.start ∧
          InEffect context.machine.properties visit.stage one.stop) ∧
      (finalState (pipeline.run context)).machine.properties = context.machine.properties := by
  obtain ⟨visits, h⟩ := run_runs pipeline context
  exact ⟨visits, h, h.scoped keeps (.closed rfl reached)⟩

/-- A stage that sets a property of its own while it runs. -/
def borrowing (name : String) (needed usesFrontend : Bool) (code : ExitCode) : Stage Unit where
  name := name
  isNeeded _ := needed
  usesFrontend := usesFrontend
  run context :=
    let (scope, machine) := context.machine.openScope "user.language" "en"
    .ok code { context with machine := machine.closeScope scope "user.language" }

theorem borrowing_takesBack (name : String) (needed usesFrontend : Bool) (code : ExitCode) :
    Keeps TakesBack (borrowing name needed usesFrontend code).run :=
  fun _ reached => ⟨release_set reached.sound "user.language" "en", Nat.le_succ _⟩

/-- Stages of both kinds, with one in between that is not needed. -/
def alternating : Pipeline Unit where
  stages := [borrowing "stubs" true true .ok, borrowing "resources" false false .ok,
    borrowing "kotlin" true true .ok, borrowing "java" true false .compilationError]
  hooks := [⟨"timing", fun _ => pure (), fun _ _ => pure ()⟩]

/-- A context in whose store two overrides are live, one of them of the front end's property. -/
def overridden : Context Unit where
  machine := { Machine.start default 0 () with
    properties := (Properties.empty.set 0 "user.language" "de").set 1 nativeFileSystem "true"
    nextScope := 2 }
  resolution := default
  staged := []
  records := []

theorem alternating_scoped :
    Reached overridden.machine.nextScope overridden.machine.properties ∧
      EveryCall TakesBack alternating.hooks alternating.stages ∧
      ∃ visits, Runs alternating.hooks none alternating.stages overridden visits
          (alternating.run overridden) ∧
        (∀ visit ∈ visits, ∀ one ∈ visit.made,
          InEffect overridden.machine.properties visit.stage one.start ∧
            InEffect overridden.machine.properties visit.stage one.stop) ∧
        (finalState (alternating.run overridden)).machine.properties =
          overridden.machine.properties := by
  have reached : Reached overridden.machine.nextScope overridden.machine.properties :=
    (Reached.start.opened "user.language" "de").opened nativeFileSystem "true"
  have keeps : EveryCall TakesBack alternating.hooks alternating.stages := by
    constructor
    · intro hook hm stage
      rw [List.mem_singleton.1 hm]
      exact takesBack_composes.refl
    · intro stage hm
      simp only [alternating, List.mem_cons, List.not_mem_nil, or_false] at hm
      rcases hm with rfl | rfl | rfl | rfl <;> exact borrowing_takesBack _ _ _ _
    · intro hook hm stage code
      rw [List.mem_singleton.1 hm]
      exact takesBack_composes.refl
  exact ⟨reached, keeps, run_scoped alternating overridden reached keeps⟩

end KotlinHarness.Pipeline
