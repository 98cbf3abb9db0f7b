/-
  What a run leaves in the records, and which calls it makes.

  A run comes to the stages in order from the first.  Each visit leaves at most one record: that
  the stage was skipped, or the code it ended with.  There is none for a stage that failed, or that
  a hook kept from running; a hook that fails after a stage comes too late to prevent it.  All
  visits but the last leave the run going on, so every record but the last is a good one.

  `Orderly` says all this of an account, and `run_orderly` says that every run has an account of
  which it holds, provided stages and hooks leave the records alone.  The proof goes over the
  account (`Runs`); what happens within one visit is settled before, by cases on `Attends`.
-/
import KotlinHarness.Proofs.Pipeline.Visits

namespace KotlinHarness.Pipeline

variable {σ : Type}

/-! ## The calls of a visit -/

/-- The calls that a visit makes, by how it ends: all hooks before, the stage, all hooks after, cut
    short behind the call that failed. -/
def CallsInOrder (hooks : List (Hook σ)) (stage : Stage σ) (calls : List (Call σ)) : Fate → Prop
  | .skipped => calls = []
  | .stoppedBefore _ =>
    ∃ called, called <+: hooks ∧ called ≠ [] ∧ calls = called.map (.before · stage)
  | .failed _ => calls = hooks.map (.before · stage) ++ [.body stage]
  | .stoppedAfter code _ =>
    ∃ called, called <+: hooks ∧ called ≠ [] ∧
      calls = hooks.map (.before · stage) ++ .body stage :: called.map (.after · stage code)
  | .ran code =>
    calls = hooks.map (.before · stage) ++ .body stage :: hooks.map (.after · stage code)

theorem map_call_before (stage : Stage σ) (reached : List (Hook σ × Context σ)) :
    (reached.map (Made.before stage)).map Made.call = (reached.map (·.1)).map (.before · stage) := by
  rw [List.map_map, List.map_map]
  rfl

theorem map_call_after (stage : Stage σ) (code : ExitCode) (reached : List (Hook σ × Context σ)) :
    (reached.map (Made.after stage code)).map Made.call =
      (reached.map (·.1)).map (.after · stage code) := by
  rw [List.map_map, List.map_map]
  rfl

theorem Attends.called {hooks : List (Hook σ)} {stage : Stage σ} {context after : Context σ}
    {made : List (Made σ)} {fate : Fate} (h : Attends hooks stage context made fate after) :
    CallsInOrder hooks stage (made.map Made.call) fate := by
  -- A failure leaves at least the call that failed.
  have cut : ∀ {perform : Hook σ → ContextAction σ Unit} {start : Context σ}
      {reached : List (Hook σ × Context σ)} {cause : Failure} {after : Context σ},
      InTurn perform hooks start reached (.error cause after) →
      reached.map (·.1) <+: hooks ∧ reached.map (·.1) ≠ [] := by
    intro perform start reached cause after h
    obtain ⟨earlier, last, heq, hpre, _, _⟩ := h.of_error
    exact ⟨hpre, by simp [heq]⟩
  cases h with
  | stoppedBefore before =>
    obtain ⟨hpre, hne⟩ := cut before
    exact ⟨_, hpre, hne, map_call_before stage _⟩
  | failed before body =>
    show List.map Made.call (_ ++ [_]) = _
    rw [List.map_append, map_call_before, before.of_ok.1]
    rfl
  | stoppedAfter before body afterwards =>
    obtain ⟨hpre, hne⟩ := cut afterwards
    refine ⟨_, hpre, hne, ?_⟩
    rw [List.map_append, List.map_cons, map_call_before, map_call_after, before.of_ok.1]
  | ran before body afterwards =>
    show List.map Made.call (_ ++ _ :: _) = _
    rw [List.map_append, List.map_cons, map_call_before, map_call_after, before.of_ok.1,
      afterwards.of_ok.1]

/-! ## Which call fails -/

/-- Of the calls made all but the last succeed, and the last one ends as `cause` says. -/
def FailsLast (made : List (Made σ)) (cause : Option Failure) : Prop :=
  (∀ one ∈ made.dropLast, one.failure? = none) ∧ made.getLast?.bind Made.failure? = cause

/-- Calls that all succeed, in front of others, change nothing about the last one. -/
theorem FailsLast.append {made others : List (Made σ)} {cause : Option Failure}
    (hmade : ∀ one ∈ made, one.failure? = none) (hne : others ≠ []) (h : FailsLast others cause) :
    FailsLast (made ++ others) cause := by
  constructor
  · intro one hm
    rw [List.dropLast_append_of_ne_nil hne] at hm
    rcases List.mem_append.1 hm with hm | hm
    · exact hmade one hm
    · exact h.1 one hm
  · have hlast : (made ++ others).getLast? = others.getLast? := by
      rw [List.getLast?_append, List.getLast?_eq_some_getLast hne, Option.some_or]
    rw [hlast]
    exact h.2

theorem failsLast_of_all {made : List (Made σ)} (h : ∀ one ∈ made, one.failure? = none) :
    FailsLast made none := by
  constructor
  · intro one hm
    exact h one (List.dropLast_subset made hm)
  · rcases hlast : made.getLast? with - | one
    · rfl
    · exact h one (List.mem_of_getLast? hlast)

/-- Turns that all succeeded are calls without a failure. -/
theorem failure_of_all {perform : Hook σ → ContextAction σ Unit}
    {call : Hook σ × Context σ → Made σ}
    (hcall : ∀ turn, (call turn).failure? = failureOf (perform turn.1 turn.2))
    {reached : List (Hook σ × Context σ)}
    (h : ∀ turn ∈ reached, ∃ next, perform turn.1 turn.2 = .ok () next) :
    ∀ one ∈ reached.map call, one.failure? = none := by
  intro one hm
  obtain ⟨turn, hturn, rfl⟩ := List.mem_map.1 hm
  obtain ⟨next, hnext⟩ := h turn hturn
  rw [hcall, hnext]
  rfl

theorem failsLast_of_error {perform : Hook σ → ContextAction σ Unit}
    (call : Hook σ × Context σ → Made σ)
    (hcall : ∀ turn, (call turn).failure? = failureOf (perform turn.1 turn.2))
    {hooks : List (Hook σ)} {context after : Context σ} {reached : List (Hook σ × Context σ)}
    {cause : Failure} (h : InTurn perform hooks context reached (.error cause after)) :
    reached.map call ≠ [] ∧ FailsLast (reached.map call) (some cause) := by
  obtain ⟨earlier, last, heq, _, hall, hlast⟩ := h.of_error
  have hcause : FailsLast [call last] (some cause) := by
    refine ⟨fun _ hm => absurd hm List.not_mem_nil, ?_⟩
    show (call last).failure? = _
    rw [hcall, hlast]
    rfl
  subst heq
  rw [List.map_append]
  exact ⟨by simp, hcause.append (failure_of_all hcall hall) (by simp)⟩

/-- Of the calls of a visit only the last can fail, and it fails with what ends the run. -/
theorem Attends.failsLast {hooks : List (Hook σ)} {stage : Stage σ} {context after : Context σ}
    {made : List (Made σ)} {fate : Fate} (h : Attends hooks stage context made fate after) :
    FailsLast made fate.cause? := by
  have hbody : ∀ {middle ended : Context σ} {code : ExitCode},
      bodyAction stage middle = .ok code ended →
      (Made.mk (.body stage) middle).failure? = none := by
    intro middle ended code body
    show failureOf (bodyAction stage middle) = none
    rw [body]
    rfl
  have hbefore : ∀ {start middle : Context σ} {reached : List (Hook σ × Context σ)},
      InTurn (beforeAction stage) hooks start reached (.ok () middle) →
      ∀ one ∈ reached.map (Made.before stage), one.failure? = none :=
    fun before => failure_of_all (fun _ => rfl) before.of_ok.2
  cases h with
  | stoppedBefore before => exact (failsLast_of_error (Made.before stage) (fun _ => rfl) before).2
  | @failed _ cause middle after before body =>
    have hlast : FailsLast [Made.mk (.body stage) middle] (some cause) := by
      refine ⟨fun _ hm => absurd hm List.not_mem_nil, ?_⟩
      show failureOf (bodyAction stage middle) = some cause
      rw [body]
      rfl
    exact hlast.append (hbefore before) (by simp)
  | @stoppedAfter _ _ code _ _ _ _ before body afterwards =>
    -- The stage itself went well, and so did the hooks before it.
    obtain ⟨hne, hlast⟩ := failsLast_of_error (Made.after stage code) (fun _ => rfl) afterwards
    rw [List.append_cons]
    refine hlast.append (fun one hm => ?_) hne
    rcases List.mem_append.1 hm with hm | hm
    · exact hbefore before one hm
    · rw [List.mem_singleton.1 hm]
      exact hbody body
  | ran before body afterwards =>
    refine failsLast_of_all fun one hm => ?_
    rcases List.mem_append.1 hm with hm | hm
    · exact hbefore before one hm
    · rcases List.mem_cons.1 hm with rfl | hm
      · exact hbody body
      · exact failure_of_all (fun _ => rfl) afterwards.of_ok.2 one hm

/-! ## Records -/

/-- The records of two contexts are the same. -/
def SameRecords (before after : Context σ) : Prop := after.records = before.records

theorem sameRecords_composes : Composes (@SameRecords σ) :=
  ⟨fun _ => rfl, fun h h' => Eq.trans h' h⟩

@[simp] theorem records_noted (context : Context σ) (stage : String) (outcome : StageOutcome) :
    (context.noted stage outcome).records = context.records ++ [⟨stage, outcome⟩] := rfl

@[simp] theorem records_closeScope (scope : Option ScopeId) (context : Context σ) :
    (closeScope scope context).records = context.records := by
  cases scope <;> rfl

@[simp] theorem records_scopeFor (stage : Stage σ) (scope : Option ScopeId)
    (context : Context σ) : (scopeFor stage scope context).2.records = context.records := by
  unfold scopeFor
  split
  · cases scope <;> rfl
  · exact records_closeScope scope context

/-- A visit adds its own record and nothing else. -/
theorem Attends.records {hooks : List (Hook σ)} {stages : List (Stage σ)} {stage : Stage σ}
    {context after : Context σ} {made : List (Made σ)} {fate : Fate}
    (keeps : EveryCall SameRecords hooks stages) (hm : stage ∈ stages)
    (h : Attends hooks stage context made fate after) :
    after.records = context.records ++ (fate.outcome?.map (StageRecord.mk stage.name)).toList := by
  cases h with
  | stoppedBefore before =>
    have h₁ : after.records = context.records := (keeps.inTurnBefore sameRecords_composes before).1
    simp [Fate.outcome?, h₁]
  | @failed _ cause middle after before body =>
    have h₁ : middle.records = context.records := (keeps.inTurnBefore sameRecords_composes before).1
    have h₂ : after.records = middle.records := keeps.runsBody hm body
    simp [Fate.outcome?, h₁, h₂]
  | @stoppedAfter _ _ code cause middle ended after before body afterwards =>
    have h₁ : middle.records = context.records := (keeps.inTurnBefore sameRecords_composes before).1
    have h₂ : ended.records = middle.records := keeps.runsBody hm body
    have h₃ : after.records = ended.records ++ [⟨stage.name, .ran code⟩] :=
      (keeps.inTurnAfter sameRecords_composes afterwards).1
    simp [Fate.outcome?, h₁, h₂, h₃]
  | @ran _ _ code middle ended after before body afterwards =>
    have h₁ : middle.records = context.records := (keeps.inTurnBefore sameRecords_composes before).1
    have h₂ : ended.records = middle.records := keeps.runsBody hm body
    have h₃ : after.records = ended.records ++ [⟨stage.name, .ran code⟩] :=
      (keeps.inTurnAfter sameRecords_composes afterwards).1
    simp [Fate.outcome?, h₁, h₂, h₃]

/-- Seen from any stage on, the run adds the records of its visits. -/
theorem Runs.records {hooks : List (Hook σ)} {scope : Option ScopeId} {stages : List (Stage σ)}
    {context : Context σ} {visits : List (Visit σ)}
    {result : EStateM.Result Failure (Context σ) ExitCode}
    (keeps : EveryCall SameRecords hooks stages)
    (h : Runs hooks scope stages context visits result) :
    (finalState result).records = context.records ++ visits.filterMap Visit.record? := by
  induction h with
  | done scope context => simp [finalState]
  | @skip scope stage rest context visits result idle others ih =>
    rw [ih keeps.tail, records_noted, List.append_assoc]
    rfl
  | @goOn scope stage rest context after made visits result needed attended others ih =>
    have hstage := attended.records keeps List.mem_cons_self
    rw [ih keeps.tail, hstage, records_scopeFor, List.append_assoc]
    rfl
  | @stop scope stage rest context after made fate needed attended last =>
    have hstage := attended.records keeps List.mem_cons_self
    rw [finalState_result, records_closeScope, hstage, records_scopeFor]
    simp only [List.filterMap_cons, List.filterMap_nil, Visit.record?]
    cases fate.outcome? <;> rfl

/-! ## The order of visits -/

/-- The stages come to are the first ones. -/
theorem Runs.stages_prefix {hooks : List (Hook σ)} {scope : Option ScopeId}
    {stages : List (Stage σ)} {context : Context σ} {visits : List (Visit σ)}
    {result : EStateM.Result Failure (Context σ) ExitCode}
    (h : Runs hooks scope stages context visits result) : visits.map Visit.stage <+: stages := by
  induction h with
  | done _ _ => exact List.nil_prefix
  | skip _ _ ih => exact (List.prefix_cons_inj _).2 ih
  | goOn _ _ _ ih => exact (List.prefix_cons_inj _).2 ih
  | stop _ _ _ => exact (List.prefix_cons_inj _).2 List.nil_prefix

/-- All visits but the last leave the run going on. -/
theorem Runs.goesOn {hooks : List (Hook σ)} {scope : Option ScopeId}
    {stages : List (Stage σ)} {context : Context σ} {visits : List (Visit σ)}
    {result : EStateM.Result Failure (Context σ) ExitCode}
    (h : Runs hooks scope stages context visits result) :
    ∀ visit ∈ visits.dropLast, visit.fate.goesOn = true := by
  have cons : ∀ {first : Visit σ} {others : List (Visit σ)}, first.fate.goesOn = true →
      (∀ visit ∈ others.dropLast, visit.fate.goesOn = true) →
      ∀ visit ∈ (first :: others).dropLast, visit.fate.goesOn = true := by
    intro first others hfirst hothers visit hm
    cases others with
    | nil => exact absurd hm List.not_mem_nil
    | cons next others =>
      rw [List.dropLast_cons_cons] at hm
      rcases List.mem_cons.1 hm with rfl | hm
      · exact hfirst
      · exact hothers visit hm
  induction h with
  | done _ _ => exact fun _ hm => absurd hm List.not_mem_nil
  | skip _ _ ih => exact cons rfl ih
  | goOn _ _ _ ih => exact cons rfl ih
  | stop _ _ _ => exact fun _ hm => absurd hm List.not_mem_nil

/-- A visit leaves the run going on exactly when its stage was skipped or ended well. -/
theorem Fate.goesOn_iff (fate : Fate) :
    fate.goesOn = true ↔ fate = .skipped ∨ fate = .ran .ok := by
  cases fate with
  | ran code => cases code <;> simp [goesOn, ExitCode.isOk]
  | _ => simp [goesOn]

/-- Dropping the last visit drops at most the last record. -/
theorem mem_dropLast_records {visits : List (Visit σ)} {record : StageRecord}
    (h : record ∈ (visits.filterMap Visit.record?).dropLast) :
    ∃ visit ∈ visits.dropLast, visit.record? = some record := by
  rcases List.eq_nil_or_concat visits with rfl | ⟨earlier, last, rfl⟩
  · exact absurd h List.not_mem_nil
  · have hearlier : record ∈ earlier.filterMap Visit.record? := by
      rw [List.concat_eq_append, List.filterMap_append] at h
      rcases hlast : last.record? with - | other
      · simp only [List.filterMap_cons, hlast, List.filterMap_nil, List.append_nil] at h
        exact List.dropLast_subset _ h
      · simpa only [List.filterMap_cons, hlast, List.filterMap_nil, List.dropLast_concat] using h
    obtain ⟨visit, hm, hrecord⟩ := List.mem_filterMap.1 hearlier
    refine ⟨visit, ?_, hrecord⟩
    rwa [List.concat_eq_append, List.dropLast_concat]

theorem Visit.outcome_of_record {visit : Visit σ} {record : StageRecord}
    (h : visit.record? = some record) : visit.fate.outcome? = some record.outcome := by
  obtain ⟨outcome, houtcome, rfl⟩ := Option.map_eq_some_iff.1 h
  exact houtcome

/-! ## Each visit of a run -/

/-- What holds of every visit: it is skipped exactly when the stage is not needed where the run
    comes to it, a code is that of the stage, calls are in order, and only the last can fail. -/
structure Visit.Faithful (hooks : List (Hook σ)) (visit : Visit σ) : Prop where
  skipped : visit.fate = .skipped ↔ visit.stage.isNeeded visit.arrival = false
  ran : ∀ code, visit.fate.outcome? = some (.ran code) →
    ∃ start ended, ⟨.body visit.stage, start⟩ ∈ visit.made ∧
      visit.stage.run start = .ok code ended
  calls : CallsInOrder hooks visit.stage visit.calls visit.fate
  failsLast : FailsLast visit.made visit.fate.cause?

theorem Attends.faithful {hooks : List (Hook σ)} {stage : Stage σ} {arrival context after : Context σ}
    {made : List (Made σ)} {fate : Fate} (needed : stage.isNeeded arrival = true)
    (h : Attends hooks stage context made fate after) :
    Visit.Faithful hooks ⟨stage, arrival, made, fate⟩ := by
  refine ⟨?_, fun code hcode => ?_, h.called, h.failsLast⟩
  · simp [needed, h.ne_skipped]
  · cases h with
    | stoppedBefore _ => cases hcode
    | failed _ _ => cases hcode
    | stoppedAfter before body afterwards =>
      cases hcode
      exact ⟨_, _, List.mem_append_right _ List.mem_cons_self, during_eq_ok body⟩
    | ran before body afterwards =>
      cases hcode
      exact ⟨_, _, List.mem_append_right _ List.mem_cons_self, during_eq_ok body⟩

theorem Runs.faithful {hooks : List (Hook σ)} {scope : Option ScopeId}
    {stages : List (Stage σ)} {context : Context σ} {visits : List (Visit σ)}
    {result : EStateM.Result Failure (Context σ) ExitCode}
    (h : Runs hooks scope stages context visits result) :
    ∀ visit ∈ visits, visit.Faithful hooks := by
  induction h with
  | done _ _ => exact fun _ hm => absurd hm List.not_mem_nil
  | @skip scope stage rest context visits result idle others ih =>
    refine List.forall_mem_cons.2 ⟨⟨?_, ?_, rfl, ?_⟩, ih⟩
    · simp [idle]
    · intro code hcode
      cases hcode
    · exact failsLast_of_all fun _ hm => absurd hm List.not_mem_nil
  | goOn needed attended _ ih => exact List.forall_mem_cons.2 ⟨attended.faithful needed, ih⟩
  | stop needed attended _ =>
    intro visit hm
    rw [List.mem_singleton.1 hm]
    exact attended.faithful needed

/-! ## How a run ends -/

/-- The end of a run, read off its account: every stage went well; or the last stage come to ended
    with the code that the run gives back; or it, or a hook of it, failed with what the run fails
    with. -/
def EndsWith (stages : List (Stage σ)) (visits : List (Visit σ)) :
    EStateM.Result Failure (Context σ) ExitCode → Prop
  | .ok code _ =>
    if code = .ok then
      visits.map Visit.stage = stages ∧
        (∀ visit ∈ visits, visit.fate = .skipped ∨ visit.fate = .ran .ok) ∧
        (visits.filterMap Visit.record?).map StageRecord.stage = stages.map Stage.name
    else
      ∃ visit, visits.getLast? = some visit ∧ visit.fate = .ran code ∧
        (visits.filterMap Visit.record?).getLast? = some ⟨visit.stage.name, .ran code⟩
  | .error cause _ =>
    ∃ visit, visits.getLast? = some visit ∧
      ((visit.fate = .stoppedBefore cause ∧ visit.record? = none) ∨
        (visit.fate = .failed cause ∧ visit.record? = none) ∨
        ∃ code, visit.fate = .stoppedAfter code cause ∧
          (visits.filterMap Visit.record?).getLast? = some ⟨visit.stage.name, .ran code⟩)

/-- A visit that leaves the run going on, in front of others, does not change how it ends. -/
theorem EndsWith.cons {stages : List (Stage σ)} {visits : List (Visit σ)} {first : Visit σ}
    {result : EStateM.Result Failure (Context σ) ExitCode} {outcome : StageOutcome}
    (hfirst : first.fate = .skipped ∨ first.fate = .ran .ok)
    (hrecord : first.record? = some ⟨first.stage.name, outcome⟩)
    (h : EndsWith stages visits result) :
    EndsWith (first.stage :: stages) (first :: visits) result := by
  have hlast : ∀ {visit}, visits.getLast? = some visit →
      (first :: visits).getLast? = some visit := by
    intro visit h
    rw [List.getLast?_cons, h]
    rfl
  have hrecords : (first :: visits).filterMap Visit.record?
      = ⟨first.stage.name, outcome⟩ :: visits.filterMap Visit.record? := by
    rw [List.filterMap_cons, hrecord]
  have hlastRecord : ∀ {record}, (visits.filterMap Visit.record?).getLast? = some record →
      ((first :: visits).filterMap Visit.record?).getLast? = some record := by
    intro record h
    rw [hrecords, List.getLast?_cons, h]
    rfl
  cases result with
  | ok code after =>
    simp only [EndsWith] at h ⊢
    split
    · next hok =>
      rw [if_pos hok] at h
      obtain ⟨hstages, hfates, hnames⟩ := h
      refine ⟨by rw [List.map_cons, hstages], List.forall_mem_cons.2 ⟨hfirst, hfates⟩, ?_⟩
      rw [hrecords, List.map_cons, List.map_cons, hnames]
    · next hok =>
      rw [if_neg hok] at h
      obtain ⟨visit, hvisit, hfate, hr⟩ := h
      exact ⟨visit, hlast hvisit, hfate, hlastRecord hr⟩
  | error cause after =>
    obtain ⟨visit, hvisit, hcase⟩ := h
    refine ⟨visit, hlast hvisit, ?_⟩
    rcases hcase with hcase | hcase | ⟨code, hfate, hr⟩
    · exact .inl hcase
    · exact .inr (.inl hcase)
    · exact .inr (.inr ⟨code, hfate, hlastRecord hr⟩)

theorem Runs.endsWith {hooks : List (Hook σ)} {scope : Option ScopeId}
    {stages : List (Stage σ)} {context : Context σ} {visits : List (Visit σ)}
    {result : EStateM.Result Failure (Context σ) ExitCode}
    (h : Runs hooks scope stages context visits result) : EndsWith stages visits result := by
  induction h with
  | done scope context =>
    exact ⟨rfl, fun _ hm => absurd hm List.not_mem_nil, rfl⟩
  | @skip scope stage rest context visits result idle others ih =>
    have hrecord : (Visit.mk stage context [] .skipped).record? = some ⟨stage.name, .skipped⟩ := rfl
    exact ih.cons (.inl rfl) hrecord
  | @goOn scope stage rest context after made visits result needed attended others ih =>
    have hrecord : (Visit.mk stage context made (.ran .ok)).record? =
      some ⟨stage.name, .ran .ok⟩ := rfl
    exact ih.cons (.inr rfl) hrecord
  | @stop scope stage rest context after made fate needed attended last =>
    cases attended with
    | stoppedBefore _ => exact ⟨_, rfl, .inl ⟨rfl, rfl⟩⟩
    | failed _ _ => exact ⟨_, rfl, .inr (.inl ⟨rfl, rfl⟩)⟩
    | stoppedAfter _ _ _ => exact ⟨_, rfl, .inr (.inr ⟨_, rfl, rfl⟩)⟩
    | @ran _ _ code middle ended after before body afterwards =>
      have hne : code ≠ .ok := fun hok => by
        rw [hok] at last
        cases last
      simp only [EndsWith, Fate.result, if_neg hne]
      exact ⟨_, rfl, rfl, rfl⟩

/-! ## Every run is orderly -/

/-- The account of a run, its records and its result belong together. -/
structure Orderly (pipeline : Pipeline σ) (context : Context σ) (visits : List (Visit σ))
    (result : EStateM.Result Failure (Context σ) ExitCode) : Prop where
  /-- The run comes to the stages in order, from the first one on. -/
  stages : visits.map Visit.stage <+: pipeline.stages
  /-- It appends the records of its visits, at most one for each. -/
  records : (finalState result).records = context.records ++ visits.filterMap Visit.record?
  /-- Every record but the last is of a stage skipped or ended well. -/
  earlier : ∀ record ∈ (visits.filterMap Visit.record?).dropLast,
    record.outcome = .skipped ∨ record.outcome = .ran .ok
  faithful : ∀ visit ∈ visits, visit.Faithful pipeline.hooks
  ending : EndsWith pipeline.stages visits result

/-- An account is orderly as long as no stage or hook edits the records itself. -/
theorem Runs.orderly {pipeline : Pipeline σ} {context : Context σ} {visits : List (Visit σ)}
    {result : EStateM.Result Failure (Context σ) ExitCode}
    (keeps : EveryCall SameRecords pipeline.hooks pipeline.stages)
    (h : Runs pipeline.hooks none pipeline.stages context visits result) :
    Orderly pipeline context visits result := by
  have earlier : ∀ record ∈ (visits.filterMap Visit.record?).dropLast,
      record.outcome = .skipped ∨ record.outcome = .ran .ok := by
    intro record hm
    obtain ⟨visit, hvisit, hrecord⟩ := mem_dropLast_records hm
    have houtcome := Visit.outcome_of_record hrecord
    rcases (Fate.goesOn_iff _).1 (h.goesOn visit hvisit) with hfate | hfate
    · rw [hfate] at houtcome
      exact .inl (Option.some.inj houtcome).symm
    · rw [hfate] at houtcome
      exact .inr (Option.some.inj houtcome).symm
  exact ⟨h.stages_prefix, h.records keeps, earlier, h.faithful, h.endsWith⟩

/-- **Every run is orderly**, whatever its stages and hooks do, as long as none of them edits the
    records itself. -/
theorem run_orderly (pipeline : Pipeline σ) (context : Context σ)
    (keeps : EveryCall SameRecords pipeline.hooks pipeline.stages) :
    ∃ visits, Runs pipeline.hooks none pipeline.stages context visits (pipeline.run context) ∧
      Orderly pipeline context visits (pipeline.run context) := by
  obtain ⟨visits, h⟩ := run_runs pipeline context
  exact ⟨visits, h, h.orderly keeps⟩

/-- A stage that leaves everything alone. -/
def idleStage (name : String) (needed : Bool) (code : ExitCode) : Stage Unit where
  name := name
  isNeeded _ := needed
  usesFrontend := true
  run := pure code

/-- Two hooks, and four stages: one not needed, one that goes well, one that does not, and one that
    the run does not come to. -/
def halting : Pipeline Unit where
  stages := [idleStage "stubs" false .ok, idleStage "kotlin" true .ok,
    idleStage "java" true .compilationError, idleStage "archive" true .ok]
  hooks := [⟨"timing", fun _ => pure (), fun _ _ => pure ()⟩,
    ⟨"trace", fun _ => pure (), fun _ _ => pure ()⟩]

/-- A context in which a run left a record before. -/
def usedContext : Context Unit where
  machine := .start default 0 ()
  resolution := default
  staged := []
  records := [⟨"archive", .skipped⟩]

theorem halting_orderly :
    EveryCall SameRecords halting.hooks halting.stages ∧
      ∃ visits, Runs halting.hooks none halting.stages usedContext visits
          (halting.run usedContext) ∧
        Orderly halting usedContext visits (halting.run usedContext) := by
  have keeps : EveryCall SameRecords halting.hooks halting.stages := by
    constructor
    · intro hook hm stage context
      rcases List.mem_cons.1 hm with rfl | hm
      · rfl
      · rw [List.mem_singleton.1 hm]
        rfl
    · intro stage hm context
      obtain ⟨name, needed, code, rfl⟩ : ∃ name needed code, stage = idleStage name needed code := by
        simp only [halting, List.mem_cons, List.not_mem_nil, or_false] at hm
        rcases hm with rfl | rfl | rfl | rfl <;> exact ⟨_, _, _, rfl⟩
      rfl
    · intro hook hm stage code context
      rcases List.mem_cons.1 hm with rfl | hm
      · rfl
      · rw [List.mem_singleton.1 hm]
        rfl
  exact ⟨keeps, run_orderly halting usedContext keeps⟩

end KotlinHarness.Pipeline
