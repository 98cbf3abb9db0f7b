/-
  Processors that follow a script, and what they do when they are called again.

  A `Script` is what a processor may do that knows of nothing but its round and the options: report,
  create sources under names without a slash, learn whether that went well, and fail.  A processor is
  scripted when it follows, in each round, the script for that round and the options.

  What such processors write are products of annotation processing (`keeps_runRounds`).  Called
  again over what they left (`Together`), they do the same in every round: `runRounds_again`.
-/
import KotlinHarness.Proofs.Files.Footprint
import KotlinHarness.Proofs.Processing.Creation
import KotlinHarness.Proofs.Processing.Offered

namespace KotlinHarness

/-! ## Scripts -/

/-- What a processor does in a call; what comes after creating a source depends on the answer. -/
inductive Script where
  | done
  | fail (cause : Failure)
  | report (diagnostic : Diagnostic) (rest : Script)
  | create (language : Language) (name content : String) (rest : Except Failure Path → Script)

namespace Script

variable {σ : Type}

/-- No name in the script has a slash in it. -/
def IsPlain : Script → Prop
  | done | fail _ => True
  | report _ rest => rest.IsPlain
  | create _ name _ rest => Path.IsSegment name ∧ ∀ answer, (rest answer).IsPlain

/-- Does what the script says. -/
def perform : Script → ProcessingAction σ Unit
  | done => pure ()
  | fail cause => throw cause
  | report diagnostic rest => fun run =>
    rest.perform { run with diagnostics := run.diagnostics.report diagnostic }
  | create language name content rest => fun run =>
    match Processing.createSource language name content run with
    | .ok path run => (rest (.ok path)).perform run
    | .error cause run => (rest (.error cause)).perform run

theorem perform_create (language : Language) (name content : String)
    (rest : Except Failure Path → Script) (run : Processing σ) :
    (create language name content rest).perform run =
      match Processing.createSource language name content run with
      | .ok path run => (rest (.ok path)).perform run
      | .error cause run => (rest (.error cause)).perform run := by
  rw [perform]

end Script

/-- The processor does what a script for the round and the options says. -/
def Processor.IsScripted {σ : Type} (processor : Processor σ) : Prop :=
  ∃ script : Round → Options → Script, (∀ round options, (script round options).IsPlain) ∧
    ∀ round run, processor.process round run = (script round run.options).perform run

/-! ## What scripts write -/

/-- A file that the filer places is a product of annotation processing. -/
theorem Filer.Places.isProduct {filer : Filer} {language : Language} {path : Path}
    {env : Environment} {javaDir location : Location} (h : filer.Places language path)
    (hjava : env.LeadsTo filer.javaDir javaDir) (hleads : env.LeadsTo path location) :
    Environment.IsProduct javaDir location := by
  obtain ⟨before, stem, rfl, hnames, hstem⟩ := h.below
  have hname := hnames _ (List.mem_append_right _ List.mem_cons_self)
  have hentry : Path.IsEntry stem := by
    refine ⟨fun hm => hname.entry.segment ?_, hstem⟩
    rw [String.toList_append, String.toList_append]
    exact List.mem_append_left _ (List.mem_append_left _ hm)
  cases language with
  | kotlin =>
    rw [Path.extend_concat] at hleads
    obtain ⟨middle, rfl⟩ := Environment.last_of_leadsTo_div hname hleads
    exact .inr (.inl ⟨middle, stem, hentry, rfl⟩)
  | java =>
    have nonempty : filer.javaDir.isEmpty = false := by
      obtain ⟨node, hlocate⟩ := hjava
      exact Environment.LeadsTo.nonempty ⟨_, hlocate⟩
    obtain ⟨here, hhere, rfl⟩ := Environment.leadsTo_extend nonempty hnames hleads
    obtain rfl := hhere.unique hjava
    refine .inr (.inr ⟨⟨here ++ before, stem, hentry, ?_⟩, List.prefix_append _ _⟩)
    rw [List.append_assoc]
    rfl

theorem Filer.places_of_newPlace {filer : Filer} {language : Language} {name : String} {path : Path}
    (hname : Path.IsSegment name) (h : filer.newPlace language name = .ok path) :
    filer.Places language path :=
  ⟨name, hname, (newPlace_eq_ok_iff.1 h).1⟩

namespace Processing

open Environment

variable {σ : Type} {final : Environment} {javaDir : Location} {first second : Processing σ}
  {processors : List (Processor σ)}

/-- Creating a source, read off its place. -/
theorem createSource_eq (language : Language) (name content : String) (run : Processing σ) :
    createSource language name content run =
      match run.filer.newPlace language name with
      | .error cause => .error cause run
      | .ok path =>
        match Environment.deposit .always path content run.environment with
        | .ok _ environment =>
          .ok path { run with filer := run.filer.noted path, environment := environment }
        | .error cause environment => .error cause { run with environment := environment } := by
  rw [createSource, Filer.create_eq]
  rcases run.filer.newPlace language name with cause | path
  · rfl
  · simp only
    rcases Environment.deposit .always path content run.environment with
      ⟨_, environment⟩ | ⟨cause, environment⟩ <;> rfl

/-- Between two states of a run nothing was written but products. -/
structure Produces (javaDir : Location) (before after : Processing σ) : Prop where
  options : after.options = before.options
  directory : after.filer.directory = before.filer.directory
  grows : Grows (fun _ _ => True) before.environment after.environment
  products : before.environment.LeadsTo before.filer.javaDir javaDir →
    Grows (fun location _ => IsProduct javaDir location) before.environment after.environment

theorem produces_composes (javaDir : Location) : Composes (@Produces σ javaDir) := by
  constructor
  · intro run
    exact ⟨rfl, rfl, .refl _, fun _ => .refl _⟩
  · intro first second third h h'
    refine ⟨h'.options.trans h.options, h'.directory.trans h.directory, h.grows.trans h'.grows, ?_⟩
    intro hleads
    refine (h.products hleads).trans (h'.products ?_)
    rw [show second.filer.javaDir = first.filer.javaDir from congrFun h.directory .java]
    exact h.grows.leadsTo hleads

theorem keeps_createSource {language : Language} {name : String} (hname : Path.IsSegment name)
    (content : String) : Keeps (@Produces σ javaDir) (createSource language name content) := by
  intro run
  rw [createSource_eq]
  rcases hplace : run.filer.newPlace language name with cause | path
  · exact (produces_composes javaDir).refl run
  · simp only
    rcases hdeposit : Environment.deposit .always path content run.environment with
      ⟨done, environment⟩ | ⟨cause, environment⟩
    · have hgrows := (Environment.deposit_ok hdeposit).grows
      refine ⟨rfl, ?_, hgrows.mono fun _ _ _ => trivial, fun hjava => hgrows.mono ?_⟩
      · funext other
        cases other <;> rfl
      · rintro location data ⟨hleads, -⟩
        exact (Filer.places_of_newPlace hname hplace).isProduct (hgrows.leadsTo hjava) hleads
    · have hgrows := Environment.deposit_error hdeposit
      exact ⟨rfl, rfl, hgrows.mono fun _ _ hmay => hmay.elim,
        fun _ => hgrows.mono fun _ _ hmay => hmay.elim⟩

theorem keeps_perform {script : Script} (plain : script.IsPlain) :
    Keeps (@Produces σ javaDir) script.perform := by
  induction script with
  | done => exact (produces_composes javaDir).refl
  | fail cause => exact (produces_composes javaDir).refl
  | report diagnostic rest ih =>
    intro run
    have h := ih plain { run with diagnostics := run.diagnostics.report diagnostic }
    exact ⟨h.options, h.directory, h.grows, h.products⟩
  | create language name content rest ih =>
    intro run
    have hcreate : Produces javaDir run (finalState (createSource language name content run)) :=
      keeps_createSource plain.1 content run
    rw [Script.perform_create]
    rcases hanswer : createSource language name content run with ⟨path, after⟩ | ⟨cause, after⟩ <;>
      rw [hanswer] at hcreate
    · exact (produces_composes javaDir).trans hcreate (ih _ (plain.2 _) after)
    · exact (produces_composes javaDir).trans hcreate (ih _ (plain.2 _) after)

theorem keeps_process {processor : Processor σ} (scripted : processor.IsScripted) (round : Round) :
    Keeps (Produces javaDir) (processor.process round) := by
  obtain ⟨script, plain, hprocess⟩ := scripted
  intro run
  rw [hprocess]
  exact keeps_perform (plain round run.options) run

theorem keeps_callAll (scripted : ∀ processor ∈ processors, processor.IsScripted) (round : Round)
    (run : Processing σ) : Produces javaDir run (callAll round processors run).2 := by
  induction processors generalizing run with
  | nil => exact (produces_composes javaDir).refl run
  | cons processor rest ih =>
    have hone : Produces javaDir run (finalState (processor.process round run)) :=
      keeps_process (scripted processor List.mem_cons_self) round run
    rw [callAll]
    rcases hanswer : processor.process round run with ⟨_, after⟩ | ⟨cause, after⟩ <;>
      rw [hanswer] at hone
    · exact (produces_composes javaDir).trans hone
        (ih (fun other hm => scripted other (List.mem_cons_of_mem _ hm)) after)
    · exact hone

/-- Rounds write nothing but products. -/
theorem keeps_runRounds (scripted : ∀ processor ∈ processors, processor.IsScripted) (limit : Nat)
    (round : Round) (run : Processing σ) :
    Produces javaDir run (runRounds processors limit round run).2 := by
  have hsettled : ∀ run : Processing σ, Produces javaDir run run.settled :=
    fun run => ⟨rfl, by funext language; cases language <;> rfl, .refl _, fun _ => .refl _⟩
  obtain ⟨rounds, account⟩ := runRounds_account processors limit [] round run
  exact account.keeps (produces_composes javaDir) hsettled
    fun processor hm => keeps_process (scripted processor hm)

/-! ## Called again -/

/-- Two runs of annotation processing, the second over what the first one left in the end. -/
structure Together (final : Environment) (first second : Processing σ) : Prop where
  retraces : Retraces final first.environment second.environment
  options : second.options = first.options
  filer : second.filer = first.filer
  diagnostics : second.diagnostics = first.diagnostics
  directories : ∀ language, first.environment.isDirectory (first.filer.directory language) = true
  pending : ∀ path ∈ first.filer.pending, Settled first.environment second.environment path

/-- The two runs went on, and did the same. -/
structure Onward (final : Environment) (first second last last' : Processing σ) : Prop where
  together : Together final last last'
  moves : Moves final first.environment second.environment last.environment last'.environment

theorem Together.onward (h : Together final first second) : Onward final first second first second :=
  ⟨h, .refl h.retraces⟩

theorem Onward.trans {middle middle' last last' : Processing σ}
    (h : Onward final first second middle middle') (h' : Onward final middle middle' last last') :
    Onward final first second last last' :=
  ⟨h'.together, h.moves.trans h'.moves⟩

/-- Both runs end an action alike. -/
inductive EndsTogether {α : Type} (final : Environment) (first second : Processing σ) :
    EStateM.Result Failure (Processing σ) α → EStateM.Result Failure (Processing σ) α → Prop
  | ok {value : α} {last last' : Processing σ} (onward : Onward final first second last last') :
      EndsTogether final first second (.ok value last) (.ok value last')
  | error {cause : Failure} {last last' : Processing σ}
      (onward : Onward final first second last last') :
      EndsTogether final first second (.error cause last) (.error cause last')

theorem EndsTogether.after {α : Type} {middle middle' : Processing σ}
    {result result' : EStateM.Result Failure (Processing σ) α}
    (onward : Onward final first second middle middle')
    (h : EndsTogether final middle middle' result result') :
    EndsTogether final first second result result' := by
  cases h with
  | ok onward' => exact .ok (onward.trans onward')
  | error onward' => exact .error (onward.trans onward')

/-- A source is created again, or fails to be created again. -/
theorem createSource_again {language : Language} {name : String} (hname : Path.IsSegment name)
    (content : String) (h : Together final first second)
    (below : Grows (fun _ _ => True)
      (finalState (createSource language name content first)).environment final) :
    EndsTogether final first second (createSource language name content first)
      (createSource language name content second) := by
  rw [createSource_eq] at below
  rw [createSource_eq, createSource_eq, h.filer]
  rcases hplace : first.filer.newPlace language name with cause | path
  · exact .error h.onward
  · rw [hplace] at below
    simp only at below ⊢
    obtain ⟨before, stem, hpath, hnames, -⟩ := (Filer.places_of_newPlace hname hplace).below
    have repeats := h.retraces.repeats_deposit (h.directories language) hnames content
    rw [← hpath] at repeats
    rcases hfirst : Environment.deposit .always path content first.environment with
      ⟨done, after⟩ | ⟨cause, after⟩
    · rw [hfirst] at below
      obtain ⟨done', after', hsecond, moves, settled⟩ := h.retraces.deposit hfirst below
      rw [hsecond]
      refine .ok ⟨⟨moves.retraces, h.options, rfl, h.diagnostics, fun language => ?_, ?_⟩, moves⟩
      · have hthere := moves.grows.isDirectory (h.directories language)
        cases language <;> exact hthere
      · intro other hm
        rcases List.mem_append.1 hm with hm | hm
        · exact moves.settled other (h.pending other hm)
        · rw [List.mem_singleton.1 hm]
          exact settled
    · rw [hfirst] at below
      have alike := repeats (by rw [hfirst]; exact below)
      rw [hfirst] at alike
      generalize Environment.deposit .always path content second.environment = result at alike
      cases alike with
      | error moves =>
        exact .error ⟨⟨moves.retraces, h.options, rfl, h.diagnostics,
          fun language => moves.grows.isDirectory (h.directories language),
          fun other hm => moves.settled other (h.pending other hm)⟩, moves⟩

/-- A script is performed again as it was. -/
theorem perform_again {script : Script} (plain : script.IsPlain) (h : Together final first second)
    (below : Grows (fun _ _ => True) (finalState (script.perform first)).environment final) :
    EndsTogether final first second (script.perform first) (script.perform second) := by
  induction script generalizing first second with
  | done => exact .ok h.onward
  | fail cause => exact .error h.onward
  | report diagnostic rest ih =>
    have reported : Onward final first second
        { first with diagnostics := first.diagnostics.report diagnostic }
        { second with diagnostics := second.diagnostics.report diagnostic } :=
      ⟨⟨h.retraces, h.options, h.filer, by rw [h.diagnostics], h.directories, h.pending⟩,
        .refl h.retraces⟩
    exact (ih plain reported.together below).after reported
  | create language name content rest ih =>
    have later : ∀ answer (run : Processing σ), Grows (fun _ _ => True) run.environment
        (finalState ((rest answer).perform run)).environment :=
      fun answer run => (keeps_perform (plain.2 answer) run : Produces [] run _).grows
    have again : Grows (fun _ _ => True)
        (finalState (createSource language name content first)).environment final →
        EndsTogether final first second (createSource language name content first)
          (createSource language name content second) :=
      createSource_again plain.1 content h
    rw [Script.perform_create] at below
    rw [Script.perform_create, Script.perform_create]
    rcases hfirst : createSource language name content first with ⟨path, middle⟩ | ⟨cause, middle⟩
    · rw [hfirst] at below again
      generalize createSource language name content second = result at again
      cases again ((later (.ok path) middle).trans below) with
      | ok onward => exact (ih _ (plain.2 _) onward.together below).after onward
    · rw [hfirst] at below again
      generalize createSource language name content second = result at again
      cases again ((later (.error cause) middle).trans below) with
      | error onward => exact (ih _ (plain.2 _) onward.together below).after onward

/-- All processors are called again, up to the one that failed. -/
theorem callAll_again (scripted : ∀ processor ∈ processors, processor.IsScripted) (round : Round)
    (h : Together final first second)
    (below : Grows (fun _ _ => True) (callAll round processors first).2.environment final) :
    (callAll round processors second).1 = (callAll round processors first).1 ∧
      Onward final first second (callAll round processors first).2
        (callAll round processors second).2 := by
  induction processors generalizing first second with
  | nil => exact ⟨rfl, h.onward⟩
  | cons processor rest ih =>
    have hrest : ∀ other ∈ rest, other.IsScripted :=
      fun other hm => scripted other (List.mem_cons_of_mem _ hm)
    obtain ⟨script, plain, hprocess⟩ := scripted processor List.mem_cons_self
    have again := perform_again (plain round first.options) h
    rw [callAll, hprocess] at below
    rw [callAll, callAll, hprocess, hprocess, h.options]
    rcases hfirst : (script round first.options).perform first with ⟨_, middle⟩ | ⟨cause, middle⟩
    · rw [hfirst] at below again
      have hlater := (keeps_callAll hrest round middle : Produces [] middle _).grows
      generalize (script round first.options).perform second = result at again
      cases again (hlater.trans below) with
      | ok onward =>
        obtain ⟨hsame, onward'⟩ := ih hrest onward.together below
        exact ⟨hsame, onward.trans onward'⟩
    · rw [hfirst] at below again
      generalize (script round first.options).perform second = result at again
      cases again below with
      | error onward => exact ⟨rfl, onward⟩

/-! ## Rounds again -/

theorem ofFiles_again {old new : Environment} (h : Retraces final old new) {paths : List Path}
    (settled : ∀ path ∈ paths, Settled old new path) :
    Round.ofFiles new paths = Round.ofFiles old paths := by
  rw [Round.ofFiles, Round.ofFiles,
    Round.elementsOfAll_congr fun path hm => h.readText_eq (settled path hm)]

theorem Together.nextRound_eq (h : Together final first second) :
    nextRound second.environment second.filer.pending =
      nextRound first.environment first.filer.pending := by
  rw [nextRound, nextRound, h.filer, ofFiles_again h.retraces h.pending]

/-- What was pending is no more, in both runs. -/
theorem Together.settled (h : Together final first second) :
    Together final first.settled second.settled := by
  obtain ⟨retraces, options, filer, diagnostics, directories, -⟩ := h
  refine ⟨retraces, options, ?_, diagnostics, fun language => ?_, fun _ hm => ?_⟩
  · rw [Processing.settled, Processing.settled, filer]
  · have hthere := directories language
    cases language <;> exact hthere
  · exact absurd hm List.not_mem_nil

/-- The rounds are run again, each over the same declarations. -/
theorem runRounds_again (scripted : ∀ processor ∈ processors, processor.IsScripted) (limit : Nat)
    (round : Round) (h : Together final first second)
    (below : Grows (fun _ _ => True) (runRounds processors limit round first).2.environment final) :
    (runRounds processors limit round second).1 = (runRounds processors limit round first).1 ∧
      Onward final first second (runRounds processors limit round first).2
        (runRounds processors limit round second).2 := by
  induction limit generalizing round first second with
  | zero => exact ⟨rfl, h.onward⟩
  | succ limit ih =>
    have again := callAll_again scripted round h
    rw [runRounds] at below
    rw [runRounds, runRounds]
    rcases hfirst : callAll round processors first with ⟨failed, middle⟩
    rcases hsecond : callAll round processors second with ⟨failed', middle'⟩
    rw [hfirst] at below again
    rw [hsecond] at again
    cases failed with
    | some found =>
      obtain ⟨rfl, onward⟩ := again below
      exact ⟨rfl, onward⟩
    | none =>
      simp only at below again
      by_cases hover : round.isOver = true
      · rw [if_pos hover] at below
        obtain ⟨rfl, onward⟩ := again below
        simp only [if_pos hover]
        exact ⟨trivial, onward⟩
      · rw [if_neg hover] at below
        -- What was created is read after the round, and then nothing is pending any more.
        have hmiddle : Grows (fun _ _ => True) middle.environment final := by
          rcases hnext : nextRound middle.environment middle.filer.pending with cause | next
          · rw [hnext] at below
            exact below
          · rw [hnext] at below
            have hlater : Produces [] middle.settled _ :=
              keeps_runRounds scripted limit next middle.settled
            exact hlater.grows.trans below
        obtain ⟨rfl, onward⟩ := again hmiddle
        have settled : Onward final first second middle.settled middle'.settled :=
          ⟨onward.together.settled, onward.moves⟩
        simp only [if_neg hover, onward.together.nextRound_eq]
        rcases hround : nextRound middle.environment middle.filer.pending with cause | next
        · exact ⟨rfl, settled⟩
        · rw [hround] at below
          obtain ⟨hsame, onward'⟩ := ih next settled.together below
          exact ⟨hsame, settled.trans onward'⟩

end Processing

end KotlinHarness
