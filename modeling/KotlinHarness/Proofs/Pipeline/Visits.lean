/-
  Accounts of a pipeline run.

  `Pipeline.run` gives back an exit code and a context; which hooks and stages were called, and in
  which contexts, can only be read off its recursion.  An account makes this explicit: it lists
  the stages a run came to (`Visit`), each with the calls made for it in order (`Made`: what was
  called, and in which context) and with how the visit ended (`Fate`).

  `Runs` says which accounts belong to a run.  It has one rule for each thing that can happen at a
  stage: it is skipped, it goes well, or it ends the run.  What goes on within a stage is said by
  `Attends`, one rule for each place where a hook or the stage can stop it.

    * `runFrom_runs`        every run has an account
    * `EveryCall`           a relation that every stage and hook keeps between the contexts before
                            and after it; properties of runs are proved from such relations
    * `Runs.start`          so is the context in which a stage starts related to that of the run
    * `Runs.keeps`          and so is the one in which the run ends
-/
import KotlinHarness.Pipeline.Run
import KotlinHarness.Proofs.Action

namespace KotlinHarness.Pipeline

variable {σ : Type}

/-! ## Calls -/

/-- A call that a pipeline makes. -/
inductive Call (σ : Type) where
  | before (hook : Hook σ) (stage : Stage σ)
  /-- The stage's own action. -/
  | body (stage : Stage σ)
  | after (hook : Hook σ) (stage : Stage σ) (code : ExitCode)

/-- A call that was made, with the context it was made in. -/
structure Made (σ : Type) where
  call : Call σ
  start : Context σ

/-- The failure that an action ended in. -/
def failureOf {α : Type} : EStateM.Result Failure (Context σ) α → Option Failure
  | .ok _ _ => none
  | .error cause _ => some cause

/-- What a hook does before a stage, its failure told as one of the hook. -/
def beforeAction (stage : Stage σ) (hook : Hook σ) : ContextAction σ Unit :=
  Context.during (.hookBefore hook.name stage.name) (hook.before stage.name)

/-- What a hook does after a stage. -/
def afterAction (stage : Stage σ) (code : ExitCode) (hook : Hook σ) : ContextAction σ Unit :=
  Context.during (.hookAfter hook.name stage.name) (hook.after stage.name code)

/-- What a stage does, its failure told as one of the stage. -/
def bodyAction (stage : Stage σ) : ContextAction σ ExitCode :=
  Context.during (.runningStage stage.name) stage.run

/-- The failure that a call ended in. -/
def Made.failure? (made : Made σ) : Option Failure :=
  match made.call with
  | .before hook stage => failureOf (beforeAction stage hook made.start)
  | .body stage => failureOf (bodyAction stage made.start)
  | .after hook stage code => failureOf (afterAction stage code hook made.start)

/-- The context that a call ended in. -/
def Made.stop (made : Made σ) : Context σ :=
  match made.call with
  | .before hook stage => finalState (beforeAction stage hook made.start)
  | .body stage => finalState (bodyAction stage made.start)
  | .after hook stage code => finalState (afterAction stage code hook made.start)

/-- The call of a hook before a stage. -/
def Made.before (stage : Stage σ) (reached : Hook σ × Context σ) : Made σ :=
  ⟨.before reached.1 stage, reached.2⟩

/-- The call of a hook after a stage. -/
def Made.after (stage : Stage σ) (code : ExitCode) (reached : Hook σ × Context σ) : Made σ :=
  ⟨.after reached.1 stage code, reached.2⟩

/-! ## Visits -/

/-- How the visit of a stage ended. -/
inductive Fate where
  /-- The stage was not needed. -/
  | skipped
  /-- A hook failed before the stage. -/
  | stoppedBefore (cause : Failure)
  /-- The stage itself failed. -/
  | failed (cause : Failure)
  /-- The stage ran and a hook failed after it. -/
  | stoppedAfter (code : ExitCode) (cause : Failure)
  /-- The stage and all its hooks ran. -/
  | ran (code : ExitCode)

namespace Fate

/-- Whether the run goes on to the next stage. -/
def goesOn : Fate → Bool
  | skipped => true
  | ran code => code.isOk
  | _ => false

/-- The failure that ends the run. -/
def cause? : Fate → Option Failure
  | stoppedBefore cause | failed cause | stoppedAfter _ cause => some cause
  | _ => none

/-- What a visit leaves in the records. -/
def outcome? : Fate → Option StageOutcome
  | skipped => some .skipped
  | ran code | stoppedAfter code _ => some (.ran code)
  | stoppedBefore _ | failed _ => none

/-- What the run of a stage gives back. -/
def result (context : Context σ) : Fate → EStateM.Result Failure (Context σ) ExitCode
  | skipped => .ok .ok context
  | ran code => .ok code context
  | stoppedBefore cause | failed cause | stoppedAfter _ cause => .error cause context

end Fate

/-- A stage that a run came to. -/
structure Visit (σ : Type) where
  stage : Stage σ
  /-- The context in which the run came to it. -/
  arrival : Context σ
  made : List (Made σ)
  fate : Fate

namespace Visit

/-- The calls of a visit, in order. -/
def calls (visit : Visit σ) : List (Call σ) := visit.made.map Made.call

/-- The record of a visit. -/
def record? (visit : Visit σ) : Option StageRecord :=
  visit.fate.outcome?.map fun outcome => ⟨visit.stage.name, outcome⟩

end Visit

/-- `Attends hooks stage context made fate after`: a stage that is needed is run between its hooks,
    from `context` to `after`. -/
inductive Attends (hooks : List (Hook σ)) (stage : Stage σ) (context : Context σ) :
    List (Made σ) → Fate → Context σ → Prop
  | stoppedBefore {reached : List (Hook σ × Context σ)} {cause : Failure} {after : Context σ}
      (before : InTurn (beforeAction stage) hooks context reached (.error cause after)) :
      Attends hooks stage context (reached.map (Made.before stage)) (.stoppedBefore cause) after
  | failed {reached : List (Hook σ × Context σ)} {cause : Failure} {middle after : Context σ}
      (before : InTurn (beforeAction stage) hooks context reached (.ok () middle))
      (body : bodyAction stage middle = .error cause after) :
      Attends hooks stage context (reached.map (Made.before stage) ++ [⟨.body stage, middle⟩])
        (.failed cause) after
  | stoppedAfter {reached reached' : List (Hook σ × Context σ)} {code : ExitCode} {cause : Failure}
      {middle ended after : Context σ}
      (before : InTurn (beforeAction stage) hooks context reached (.ok () middle))
      (body : bodyAction stage middle = .ok code ended)
      (afterwards : InTurn (afterAction stage code) hooks (ended.noted stage.name (.ran code))
        reached' (.error cause after)) :
      Attends hooks stage context
        (reached.map (Made.before stage) ++ ⟨.body stage, middle⟩ ::
          reached'.map (Made.after stage code))
        (.stoppedAfter code cause) after
  | ran {reached reached' : List (Hook σ × Context σ)} {code : ExitCode}
      {middle ended after : Context σ}
      (before : InTurn (beforeAction stage) hooks context reached (.ok () middle))
      (body : bodyAction stage middle = .ok code ended)
      (afterwards : InTurn (afterAction stage code) hooks (ended.noted stage.name (.ran code))
        reached' (.ok () after)) :
      Attends hooks stage context
        (reached.map (Made.before stage) ++ ⟨.body stage, middle⟩ ::
          reached'.map (Made.after stage code))
        (.ran code) after

/-- `Runs hooks scope stages context visits result`: the account of a run of stages that starts with
    a scope open. -/
inductive Runs (hooks : List (Hook σ)) :
    Option ScopeId → List (Stage σ) → Context σ → List (Visit σ) →
      EStateM.Result Failure (Context σ) ExitCode → Prop
  | done (scope : Option ScopeId) (context : Context σ) :
      Runs hooks scope [] context [] (.ok .ok (closeScope scope context))
  | skip {scope : Option ScopeId} {stage : Stage σ} {rest : List (Stage σ)} {context : Context σ}
      {visits : List (Visit σ)} {result : EStateM.Result Failure (Context σ) ExitCode}
      (idle : stage.isNeeded context = false)
      (others : Runs hooks scope rest (context.noted stage.name .skipped) visits result) :
      Runs hooks scope (stage :: rest) context (⟨stage, context, [], .skipped⟩ :: visits) result
  | goOn {scope : Option ScopeId} {stage : Stage σ} {rest : List (Stage σ)}
      {context after : Context σ} {made : List (Made σ)} {visits : List (Visit σ)}
      {result : EStateM.Result Failure (Context σ) ExitCode}
      (needed : stage.isNeeded context = true)
      (attended : Attends hooks stage (scopeFor stage scope context).2 made (.ran .ok) after)
      (others : Runs hooks (scopeFor stage scope context).1 rest after visits result) :
      Runs hooks scope (stage :: rest) context (⟨stage, context, made, .ran .ok⟩ :: visits) result
  | stop {scope : Option ScopeId} {stage : Stage σ} {rest : List (Stage σ)}
      {context after : Context σ} {made : List (Made σ)} {fate : Fate}
      (needed : stage.isNeeded context = true)
      (attended : Attends hooks stage (scopeFor stage scope context).2 made fate after)
      (last : fate.goesOn = false) :
      Runs hooks scope (stage :: rest) context [⟨stage, context, made, fate⟩]
        (fate.result (closeScope (scopeFor stage scope context).1 after))

/-! ## Every run has an account -/

theorem callBefore_eq (stage : Stage σ) (hooks : List (Hook σ)) :
    callBefore stage.name hooks = inTurn (beforeAction stage) hooks := by
  induction hooks with
  | nil => rfl
  | cons hook rest ih =>
    rw [callBefore, inTurn, ih]
    rfl

theorem callAfter_eq (stage : Stage σ) (code : ExitCode) (hooks : List (Hook σ)) :
    callAfter stage.name code hooks = inTurn (afterAction stage code) hooks := by
  induction hooks with
  | nil => rfl
  | cons hook rest ih =>
    rw [callAfter, inTurn, ih]
    rfl

theorem Attends.ne_skipped {hooks : List (Hook σ)} {stage : Stage σ} {context after : Context σ}
    {made : List (Made σ)} {fate : Fate} (h : Attends hooks stage context made fate after) :
    fate ≠ .skipped := by
  intro heq
  subst heq
  cases h

/-- Running a needed stage is one of the four ways to attend it. -/
theorem runStage_attends (hooks : List (Hook σ)) (stage : Stage σ) (context : Context σ) :
    ∃ made fate after, Attends hooks stage context made fate after ∧
      runStage hooks stage context = fate.result after := by
  obtain ⟨reached, before⟩ := inTurn_account (beforeAction stage) hooks context
  rw [runStage, callBefore_eq, bind_eq]
  rcases hb : inTurn (beforeAction stage) hooks context with ⟨⟨⟩, middle⟩ | ⟨cause, after⟩
  · rw [hb] at before
    rcases hrun : bodyAction stage middle with ⟨code, ended⟩ | ⟨cause, after⟩
    · obtain ⟨reached', afterwards⟩ :=
        inTurn_account (afterAction stage code) hooks (ended.noted stage.name (.ran code))
      have hbody : Context.during (.runningStage stage.name) stage.run middle = .ok code ended :=
        hrun
      have hnote : (modify (·.noted stage.name (.ran code)) : ContextAction σ Unit) ended
          = .ok () (ended.noted stage.name (.ran code)) := rfl
      simp only [bind_eq, hbody, hnote, callAfter_eq]
      rcases ha : inTurn (afterAction stage code) hooks (ended.noted stage.name (.ran code)) with
        ⟨⟨⟩, after⟩ | ⟨cause, after⟩
      · rw [ha] at afterwards
        exact ⟨_, .ran code, after, .ran before hrun afterwards, rfl⟩
      · rw [ha] at afterwards
        exact ⟨_, .stoppedAfter code cause, after, .stoppedAfter before hrun afterwards, rfl⟩
    · have hbody : Context.during (.runningStage stage.name) stage.run middle
          = .error cause after := hrun
      simp only [bind_eq, hbody]
      exact ⟨_, .failed cause, after, .failed before hrun, rfl⟩
  · rw [hb] at before
    exact ⟨_, .stoppedBefore cause, after, .stoppedBefore before, rfl⟩

/-- Every run has an account, whatever its stages and hooks do. -/
theorem runFrom_runs (hooks : List (Hook σ)) (scope : Option ScopeId) (stages : List (Stage σ))
    (context : Context σ) :
    ∃ visits, Runs hooks scope stages context visits (runFrom hooks scope stages context) := by
  induction stages generalizing scope context with
  | nil => exact ⟨[], .done scope context⟩
  | cons stage rest ih =>
    rw [runFrom]
    rcases needed : stage.isNeeded context with - | -
    · obtain ⟨visits, others⟩ := ih scope (context.noted stage.name .skipped)
      exact ⟨_, .skip needed others⟩
    · obtain ⟨made, fate, after, attended, hrun⟩ :=
        runStage_attends hooks stage (scopeFor stage scope context).2
      simp only [if_true, hrun]
      cases fate with
      | skipped => exact absurd rfl attended.ne_skipped
      | stoppedBefore cause => exact ⟨_, .stop needed attended rfl⟩
      | failed cause => exact ⟨_, .stop needed attended rfl⟩
      | stoppedAfter code cause => exact ⟨_, .stop needed attended rfl⟩
      | ran code =>
        cases code with
        | ok =>
          obtain ⟨visits, others⟩ := ih (scopeFor stage scope context).1 after
          exact ⟨_, .goOn needed attended others⟩
        | internalError => exact ⟨_, .stop needed attended rfl⟩
        | compilationError => exact ⟨_, .stop needed attended rfl⟩
        | scriptExecutionError => exact ⟨_, .stop needed attended rfl⟩

theorem run_runs (pipeline : Pipeline σ) (context : Context σ) :
    ∃ visits, Runs pipeline.hooks none pipeline.stages context visits (pipeline.run context) :=
  runFrom_runs pipeline.hooks none pipeline.stages context

/-! ## Relations that every call keeps -/

/-- Every hook and stage keeps a relation. -/
structure EveryCall (R : Context σ → Context σ → Prop) (hooks : List (Hook σ))
    (stages : List (Stage σ)) : Prop where
  before : ∀ hook ∈ hooks, ∀ stage, Keeps R (hook.before stage)
  body : ∀ stage ∈ stages, Keeps R stage.run
  after : ∀ hook ∈ hooks, ∀ stage code, Keeps R (hook.after stage code)

variable {R : Context σ → Context σ → Prop}

/-- Telling what was being done changes the failure alone. -/
theorem finalState_during {α : Type} (undertaking : Undertaking) (action : ContextAction σ α)
    (context : Context σ) :
    finalState (Context.during undertaking action context) = finalState (action context) := by
  unfold Context.during
  cases action context <;> rfl

theorem during_eq_ok {α : Type} {undertaking : Undertaking} {action : ContextAction σ α}
    {context after : Context σ} {value : α}
    (h : Context.during undertaking action context = .ok value after) :
    action context = .ok value after := by
  unfold Context.during at h
  split at h
  · next heq => exact heq.trans h
  · cases h

theorem keeps_during {α : Type} {action : ContextAction σ α} (h : Keeps R action)
    (undertaking : Undertaking) : Keeps R (Context.during undertaking action) := by
  intro context
  rw [finalState_during]
  exact h context

theorem EveryCall.tail {hooks : List (Hook σ)} {stage : Stage σ} {rest : List (Stage σ)}
    (h : EveryCall R hooks (stage :: rest)) : EveryCall R hooks rest :=
  ⟨h.before, fun other hm => h.body other (List.mem_cons_of_mem _ hm), h.after⟩

/-- Without hooks only the stages have to keep it. -/
theorem EveryCall.of_stages {stages : List (Stage σ)} (h : ∀ stage ∈ stages, Keeps R stage.run) :
    EveryCall R [] stages :=
  ⟨fun _ hm => absurd hm List.not_mem_nil, h, fun _ hm => absurd hm List.not_mem_nil⟩

/-- The relation holds between a context and those that calls start and stop in. -/
def AtCalls (R : Context σ → Context σ → Prop) (context : Context σ) (made : List (Made σ)) : Prop :=
  ∀ one ∈ made, R context one.start ∧ R context one.stop

theorem AtCalls.of_later {context middle : Context σ} {made : List (Made σ)} (composes : Composes R)
    (step : R context middle) (h : AtCalls R middle made) : AtCalls R context made :=
  fun one hm => ⟨composes.trans step (h one hm).1, composes.trans step (h one hm).2⟩

theorem AtCalls.append {context : Context σ} {made others : List (Made σ)}
    (h : AtCalls R context made) (h' : AtCalls R context others) :
    AtCalls R context (made ++ others) :=
  fun one hm => (List.mem_append.1 hm).elim (h one) (h' one)

theorem AtCalls.cons {one : Made σ} {others : List (Made σ)} (composes : Composes R)
    (stop : R one.start one.stop) (h : AtCalls R one.start others) :
    AtCalls R one.start (one :: others) :=
  List.forall_mem_cons.2 ⟨⟨composes.refl one.start, stop⟩, h⟩

theorem AtCalls.nil (context : Context σ) : AtCalls R context [] :=
  fun _ hm => absurd hm List.not_mem_nil

namespace EveryCall

variable {hooks : List (Hook σ)} {stages : List (Stage σ)} {stage : Stage σ}
  {context after : Context σ} {made : List (Made σ)} {reached : List (Hook σ × Context σ)}

theorem inTurnBefore {result : EStateM.Result Failure (Context σ) Unit}
    (keeps : EveryCall R hooks stages) (composes : Composes R)
    (h : InTurn (beforeAction stage) hooks context reached result) :
    R context (finalState result) ∧ AtCalls R context (reached.map (Made.before stage)) := by
  obtain ⟨hlast, hreached⟩ := h.keeps composes fun hook hm =>
    keeps_during (keeps.before hook hm stage.name) _
  refine ⟨hlast, fun one hm => ?_⟩
  obtain ⟨turn, hturn, rfl⟩ := List.mem_map.1 hm
  exact hreached turn hturn

theorem inTurnAfter {code : ExitCode} {result : EStateM.Result Failure (Context σ) Unit}
    (keeps : EveryCall R hooks stages) (composes : Composes R)
    (h : InTurn (afterAction stage code) hooks context reached result) :
    R context (finalState result) ∧ AtCalls R context (reached.map (Made.after stage code)) := by
  obtain ⟨hlast, hreached⟩ := h.keeps composes fun hook hm =>
    keeps_during (keeps.after hook hm stage.name code) _
  refine ⟨hlast, fun one hm => ?_⟩
  obtain ⟨turn, hturn, rfl⟩ := List.mem_map.1 hm
  exact hreached turn hturn

theorem runsBody {result : EStateM.Result Failure (Context σ) ExitCode}
    (keeps : EveryCall R hooks stages) (hm : stage ∈ stages)
    (h : bodyAction stage context = result) : R context (finalState result) :=
  h ▸ keeps_during (keeps.body stage hm) _ context

theorem atBody (keeps : EveryCall R hooks stages) (composes : Composes R) (hm : stage ∈ stages)
    (h : AtCalls R context made) : AtCalls R context (⟨.body stage, context⟩ :: made) :=
  have stop : R context (Made.mk (.body stage) context).stop := keeps.runsBody hm rfl
  AtCalls.cons composes stop h

end EveryCall

/-- A visit of a stage keeps a relation that does not look at the records. -/
theorem Attends.keeps (composes : Composes R)
    (noted : ∀ context stage outcome, R context (context.noted stage outcome))
    {hooks : List (Hook σ)} {stages : List (Stage σ)} {stage : Stage σ} {context after : Context σ}
    {made : List (Made σ)} {fate : Fate} (keeps : EveryCall R hooks stages) (hm : stage ∈ stages)
    (h : Attends hooks stage context made fate after) :
    R context after ∧ AtCalls R context made := by
  -- The stage and the hooks after it, from the context that the hooks before it left.
  have rest : ∀ {middle ended : Context σ} {code : ExitCode} {reached : List (Hook σ × Context σ)}
      {result : EStateM.Result Failure (Context σ) Unit},
      bodyAction stage middle = .ok code ended →
      InTurn (afterAction stage code) hooks (ended.noted stage.name (.ran code)) reached result →
      R middle (finalState result) ∧
        AtCalls R middle (⟨.body stage, middle⟩ :: reached.map (Made.after stage code)) := by
    intro middle ended code reached result body afterwards
    have hended := composes.trans (keeps.runsBody hm body) (noted ended stage.name (.ran code))
    obtain ⟨hlast, hmade⟩ := keeps.inTurnAfter composes afterwards
    exact ⟨composes.trans hended hlast,
      keeps.atBody composes hm (hmade.of_later composes hended)⟩
  cases h with
  | stoppedBefore before => exact keeps.inTurnBefore composes before
  | @failed _ cause middle after before body =>
    obtain ⟨hmiddle, hmade⟩ := keeps.inTurnBefore composes before
    have hbody := keeps.atBody composes hm (.nil middle)
    exact ⟨composes.trans hmiddle (keeps.runsBody hm body),
      hmade.append (hbody.of_later composes hmiddle)⟩
  | stoppedAfter before body afterwards =>
    obtain ⟨hmiddle, hmade⟩ := keeps.inTurnBefore composes before
    obtain ⟨hlast, hmade'⟩ := rest body afterwards
    exact ⟨composes.trans hmiddle hlast, hmade.append (hmade'.of_later composes hmiddle)⟩
  | ran before body afterwards =>
    obtain ⟨hmiddle, hmade⟩ := keeps.inTurnBefore composes before
    obtain ⟨hlast, hmade'⟩ := rest body afterwards
    exact ⟨composes.trans hmiddle hlast, hmade.append (hmade'.of_later composes hmiddle)⟩

/-! ## The context of a stage -/

section Bodies

variable {R : Context σ → Context σ → Prop} {hooks : List (Hook σ)} {stages : List (Stage σ)}
  {stage : Stage σ} {context after : Context σ} {made : List (Made σ)} {fate : Fate}

theorem EveryCall.restrict {others : List (Stage σ)} (h : EveryCall R hooks stages)
    (sub : ∀ stage ∈ others, stage ∈ stages) : EveryCall R hooks others :=
  ⟨h.before, fun stage hm => h.body stage (sub stage hm), h.after⟩

/-- The only call of a visit that is the stage's own is the one between the hooks. -/
theorem body_not_mem_before (reached : List (Hook σ × Context σ)) (start : Context σ) :
    Made.mk (.body stage) start ∉ reached.map (Made.before stage) := by
  intro hm
  obtain ⟨turn, -, heq⟩ := List.mem_map.1 hm
  cases heq

theorem body_not_mem_after (code : ExitCode) (reached : List (Hook σ × Context σ))
    (start : Context σ) : Made.mk (.body stage) start ∉ reached.map (Made.after stage code) := by
  intro hm
  obtain ⟨turn, -, heq⟩ := List.mem_map.1 hm
  cases heq

/-- Only hooks come between the start of a visit and the stage. -/
theorem Attends.start (composes : Composes R) (keeps : EveryCall R hooks stages)
    (h : Attends hooks stage context made fate after) {start : Context σ}
    (hm : Made.mk (.body stage) start ∈ made) : R context start := by
  have between : ∀ {middle : Context σ} {reached : List (Hook σ × Context σ)}
      {others : List (Made σ)},
      InTurn (beforeAction stage) hooks context reached (.ok () middle) →
      Made.mk (.body stage) start ∉ others →
      Made.mk (.body stage) start ∈
        reached.map (Made.before stage) ++ ⟨.body stage, middle⟩ :: others →
      R context start := by
    intro middle reached others before hothers hm
    rcases List.mem_append.1 hm with hm | hm
    · exact absurd hm (body_not_mem_before reached start)
    · rcases List.mem_cons.1 hm with heq | hm
      · cases heq
        exact (keeps.inTurnBefore composes before).1
      · exact absurd hm hothers
  cases h with
  | stoppedBefore before => exact absurd hm (body_not_mem_before _ start)
  | failed before body => exact between before List.not_mem_nil hm
  | stoppedAfter before body afterwards => exact between before (body_not_mem_after _ _ start) hm
  | ran before body afterwards => exact between before (body_not_mem_after _ _ start) hm

/-- A stage that ran, with nothing but hooks before and after it. -/
theorem Attends.around (composes : Composes R)
    (noted : ∀ context stage outcome, R context (context.noted stage outcome))
    (keeps : EveryCall R hooks stages) {code : ExitCode}
    (h : Attends hooks stage context made (.ran code) after) :
    ∃ start ended, Made.mk (.body stage) start ∈ made ∧ R context start ∧
      bodyAction stage start = .ok code ended ∧ R ended after := by
  cases h with
  | @ran reached reached' _ middle ended _ before body afterwards =>
    refine ⟨middle, ended, by simp, (keeps.inTurnBefore composes before).1, body, ?_⟩
    exact composes.trans (noted ended _ _) (keeps.inTurnAfter composes afterwards).1

/-- Where everything keeps a relation that is called before the last stage, every stage starts in a
    context so related to the first one. -/
theorem Runs.start (composes : Composes R)
    (noted : ∀ context stage outcome, R context (context.noted stage outcome))
    (inScope : ∀ stage scope context, R context (scopeFor stage scope context).2)
    {scope : Option ScopeId} {visits : List (Visit σ)}
    {result : EStateM.Result Failure (Context σ) ExitCode}
    (keeps : EveryCall R hooks stages.dropLast)
    (h : Runs hooks scope stages context visits result) :
    ∀ visit ∈ visits, ∀ start, Made.mk (.body visit.stage) start ∈ visit.made →
      R context start := by
  -- All stages but the last of the rest are among all but the last of the whole.
  have later : ∀ {stage : Stage σ} {rest : List (Stage σ)},
      EveryCall R hooks (stage :: rest).dropLast → EveryCall R hooks rest.dropLast := by
    intro stage rest keeps
    refine keeps.restrict fun other hm => ?_
    cases rest with
    | nil => exact absurd hm List.not_mem_nil
    | cons following others => exact List.mem_cons_of_mem stage hm
  induction h with
  | done scope context => exact fun _ hm => absurd hm List.not_mem_nil
  | @skip scope stage rest context visits result idle others ih =>
    refine List.forall_mem_cons.2 ⟨fun _ hm => absurd hm List.not_mem_nil, ?_⟩
    exact fun visit hvisit start hm =>
      composes.trans (noted context _ _) (ih (later keeps) visit hvisit start hm)
  | @goOn scope stage rest context after made visits result needed attended others ih =>
    have hscope := inScope stage scope context
    refine List.forall_mem_cons.2 ⟨?_, ?_⟩
    · intro start hm
      exact composes.trans hscope (attended.start composes keeps hm)
    · intro visit hvisit start hm
      cases rest with
      | nil =>
        cases others
        exact absurd hvisit List.not_mem_nil
      | cons following others =>
        -- The stage is not the last one, so it keeps the relation, too.
        obtain ⟨middle, ended, -, hmiddle, hbody, hended⟩ := attended.around composes noted keeps
        have hkept : R middle ended := keeps.runsBody (List.mem_cons_self) hbody
        have hafter := composes.trans (composes.trans (composes.trans hscope hmiddle) hkept) hended
        exact composes.trans hafter (ih (later keeps) visit hvisit start hm)
  | @stop scope stage rest context after made fate needed attended last =>
    intro visit hvisit start hm
    cases List.mem_singleton.1 hvisit
    exact composes.trans (inScope stage scope context) (attended.start composes keeps hm)

@[simp] theorem finalState_result (context : Context σ) (fate : Fate) :
    finalState (fate.result context) = context := by
  cases fate <;> rfl

/-- What all stages and hooks keep a run keeps. -/
theorem Runs.keeps (composes : Composes R)
    (noted : ∀ context stage outcome, R context (context.noted stage outcome))
    (inScope : ∀ stage scope context, R context (scopeFor stage scope context).2)
    (closes : ∀ scope context, R context (closeScope scope context))
    {scope : Option ScopeId} {visits : List (Visit σ)}
    {result : EStateM.Result Failure (Context σ) ExitCode} (keeps : EveryCall R hooks stages)
    (h : Runs hooks scope stages context visits result) : R context (finalState result) := by
  induction h with
  | done scope context => exact closes scope context
  | @skip scope stage rest context visits result idle others ih =>
    exact composes.trans (noted context stage.name .skipped) (ih keeps.tail)
  | @goOn scope stage rest context after made visits result needed attended others ih =>
    have hafter := (attended.keeps composes noted keeps List.mem_cons_self).1
    exact composes.trans (inScope stage scope context) (composes.trans hafter (ih keeps.tail))
  | @stop scope stage rest context after made fate needed attended last =>
    have hafter := (attended.keeps composes noted keeps List.mem_cons_self).1
    rw [finalState_result]
    exact composes.trans (inScope stage scope context) (composes.trans hafter (closes _ after))

end Bodies

end KotlinHarness.Pipeline
