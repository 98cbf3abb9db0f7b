/-
  Rounds come to an end.

  Nothing in the loop counts rounds.  It ends because a file is created once: what is asked for a
  second time is refused, whatever the processor makes of that, and does not become pending.  So a
  round that goes on to another one of its kind has used up one of the names that the filer is asked
  for, and when there is none left the round to come is the final one.

  `AsksFor names` is what a processor may do that asks for files of these names only.  The files
  created are then places of such names (`Granted`), no two of them the same, so there are at most as
  many as names.  `roundsLeft` is what goes down from round to round (`Rounds.ends`).

  An account that ended by itself is the same under every limit that leaves room for its rounds
  (`Rounds.extend`), which is how the main statement says that there is an end: `process_ends`.
-/
import Mathlib.Data.Finset.Card
import Mathlib.Logic.Relation
import KotlinHarness.Proofs.Processing.Verdict

namespace KotlinHarness

namespace Processing

variable {σ : Type} {names : Finset (Language × String)}

/-! ## Asking for files -/

/-- One step of a processor that asks the filer for files of some names only. -/
inductive Request (names : Finset (Language × String)) (before : Processing σ) :
    Processing σ → Prop
  | create {language : Language} {name : String} (asked : (language, name) ∈ names)
      (content : String) :
      Request names before (finalState (createSource language name content before))
  | aside {after : Processing σ} (h : LeavesFiler before after) : Request names before after

/-- What a processor does that asks the filer for files of some names only. -/
def AsksFor (names : Finset (Language × String)) : Processing σ → Processing σ → Prop :=
  Relation.ReflTransGen (Request names)

theorem asksFor_composes : Composes (@AsksFor σ names) :=
  ⟨fun _ => .refl, fun h h' => h.trans h'⟩

theorem Request.step {before after : Processing σ} (h : Request names before after) :
    Step LeavesFiler before after := by
  cases h with
  | create _ content => exact .create _ _ content
  | aside h => exact .aside h

theorem AsksFor.advances {before after : Processing σ} (h : AsksFor names before after) :
    Advances before after := by
  induction h with
  | refl => exact advances_composes.refl before
  | tail _ step ih => exact advances_composes.trans ih step.step.advances

/-! ## Files that were granted -/

/-- The files created are different ones, each of them the place of one of the names. -/
structure Granted (names : Finset (Language × String)) (run : Processing σ) : Prop where
  distinct : run.Distinct
  places : ∀ path ∈ run.filer.created,
    ∃ asked ∈ names, run.filer.place? asked.1 asked.2 = some path

theorem Granted.settled {run : Processing σ} (h : run.Granted names) : run.settled.Granted names :=
  ⟨h.distinct, h.places⟩

/-- Two names that are granted have different places, so there are no more files than names. -/
theorem Granted.length_le {run : Processing σ} (h : run.Granted names) :
    run.filer.created.length ≤ names.card := by
  have hnodup : (run.filer.created.map some).Nodup := by
    refine List.Nodup.map (Option.some_injective _) (h.distinct.imp ?_)
    rintro first second hdifferent rfl
    rw [Path.sameAs, beq_self_eq_true] at hdifferent
    cases hdifferent
  have hplaces : (run.filer.created.map some).toFinset ⊆
      names.image fun asked => run.filer.place? asked.1 asked.2 := by
    intro place hm
    obtain ⟨path, hpath, rfl⟩ := List.mem_map.1 (List.mem_toFinset.1 hm)
    obtain ⟨asked, hasked, hplace⟩ := h.places path hpath
    exact Finset.mem_image.2 ⟨asked, hasked, hplace⟩
  calc run.filer.created.length
      = (run.filer.created.map some).toFinset.card := by
        rw [List.toFinset_card_of_nodup hnodup, List.length_map]
    _ ≤ (names.image fun asked => run.filer.place? asked.1 asked.2).card :=
        Finset.card_le_card hplaces
    _ ≤ names.card := Finset.card_image_le

/-- A name that is asked for is granted or refused. -/
theorem Granted.request {before after : Processing σ} (granted : before.Granted names)
    (h : Request names before after) : after.Granted names := by
  refine ⟨(h.step.advances granted.distinct).1, ?_⟩
  cases h with
  | @create language name asked content =>
    rcases hcreate : createSource language name content before with ⟨path, after⟩ | ⟨cause, after⟩
    · obtain ⟨hplace, hcreated⟩ := createSource_ok hcreate
      intro other hm
      have hm : other ∈ after.filer.created := hm
      show ∃ asked ∈ names, after.filer.place? asked.1 asked.2 = some other
      rw [hcreated.filer] at hm ⊢
      rcases List.mem_append.1 hm with hm | hm
      · exact granted.places other hm
      · obtain rfl := List.mem_singleton.1 hm
        exact ⟨_, asked, (Filer.newPlace_eq_ok_iff.1 hplace).1⟩
    · have hfiler : after.filer = before.filer := (createSource_error hcreate).1
      show ∀ other ∈ after.filer.created, ∃ asked ∈ names,
        after.filer.place? asked.1 asked.2 = some other
      rw [hfiler]
      exact granted.places
  | aside hleaves =>
    have hfiler : after.filer = before.filer := hleaves
    rw [hfiler]
    exact granted.places

theorem Granted.asksFor {before after : Processing σ} (granted : before.Granted names)
    (h : AsksFor names before after) : after.Granted names := by
  induction h with
  | refl => exact granted
  | tail _ step ih => exact ih.request step

end Processing

/-- In the round the filer was asked for files of these names only. -/
def RoundRun.AsksFor {σ : Type} (names : Finset (Language × String)) (one : RoundRun σ) : Prop :=
  ∀ call ∈ one.called,
    Processing.AsksFor names call.2 (finalState (Processing.turn one.round call.1 call.2))

namespace Processing

variable {σ : Type} {names : Finset (Language × String)} {processors : List (Processor σ)}
  {limit : Nat} {files : List Path} {round : Round} {run stop last : Processing σ}
  {rounds : List (RoundRun σ)} {ending : RoundsEnding}

/-! ## From round to round -/

/-- The most rounds that can be run from a round on: the final one ends it, any other uses up a name
    unless it is the last before the final one. -/
def roundsLeft (names : Finset (Language × String)) (round : Round) (run : Processing σ) : Nat :=
  if round.isOver then 1 else names.card - run.filer.created.length + 2

theorem roundsLeft_pos (names : Finset (Language × String)) (round : Round) (run : Processing σ) :
    0 < roundsLeft names round run := by
  rw [roundsLeft]
  split <;> omega

/-- A round that is not the final one leaves fewer rounds than there were. -/
theorem roundsLeft_lt {round' : Round} {called : List (Processor σ × Processing σ)}
    (granted : run.Granted names) (settled : run.filer.pending = [])
    (turns : InTurn (turn round) processors run called (.ok () stop))
    (asks : RoundRun.AsksFor names ⟨files, round, run, called, stop⟩)
    (goesOn : round.isOver = false)
    (answer : nextRound stop.environment stop.filer.pending = .ok round') :
    stop.Granted names ∧ roundsLeft names round' stop.settled < roundsLeft names round run := by
  have hturns : AsksFor names run stop := turns.relates asksFor_composes asks
  have hstop : stop.Granted names := granted.asksFor hturns
  obtain ⟨-, hfiles⟩ := hturns.advances granted.distinct
  have hround : roundsLeft names round run = names.card - run.filer.created.length + 2 := by
    rw [roundsLeft, goesOn]
    rfl
  refine ⟨hstop, ?_⟩
  rw [hround]
  by_cases hnone : stop.filer.pending = []
  · -- Nothing was created, so the final round comes next.
    rw [(nextRound_eq_ok answer).2 hnone]
    show 1 < _
    omega
  · -- Something was created, and there was a name left for it.
    have hcreated := congrArg List.length hfiles.created
    have hpending := hfiles.pending
    rw [settled, List.nil_append] at hpending
    rw [← hpending, List.length_append] at hcreated
    have hsome := List.length_pos_iff.2 hnone
    have hnames := hstop.length_le
    rw [roundsLeft, isOver_of_ofFiles ((nextRound_eq_ok answer).1 hnone)]
    show names.card - stop.filer.created.length + 2 < _
    omega

/-- There are no more rounds than that, and a limit that is reached was too low. -/
theorem Rounds.ends (h : Rounds processors limit files round run rounds ending last)
    (asks : ∀ one ∈ rounds, one.AsksFor names) (granted : run.Granted names)
    (settled : run.filer.pending = []) :
    rounds.length ≤ roundsLeft names round run ∧
      (ending = .exhausted → limit < roundsLeft names round run) := by
  induction h with
  | exhausted files round run => exact ⟨Nat.zero_le _, fun _ => roundsLeft_pos names round run⟩
  | failed _ _ | finished _ _ | unreadable _ _ _ =>
    exact ⟨roundsLeft_pos _ _ _, fun heq => by cases heq⟩
  | next turns goesOn answer others ih =>
    obtain ⟨hfirst, hothers⟩ := List.forall_mem_cons.1 asks
    obtain ⟨hstop, hless⟩ := roundsLeft_lt granted settled turns hfirst goesOn answer
    obtain ⟨hlength, hlimit⟩ := ih hothers hstop.settled rfl
    rw [List.length_cons]
    exact ⟨by omega, fun heq => by have := hlimit heq; omega⟩

/-! ## The limit -/

/-- Rounds that ended by themselves are the same under any limit that leaves room for them. -/
theorem Rounds.extend (h : Rounds processors limit files round run rounds ending last)
    (goesOn : ending ≠ .exhausted) {more : Nat} (room : rounds.length ≤ more) :
    Rounds processors more files round run rounds ending last := by
  induction h generalizing more with
  | exhausted _ _ _ => exact absurd rfl goesOn
  | failed turns culprit =>
    obtain ⟨more, rfl⟩ := Nat.exists_eq_succ_of_ne_zero (Nat.ne_of_gt room)
    exact .failed turns culprit
  | finished turns isOver =>
    obtain ⟨more, rfl⟩ := Nat.exists_eq_succ_of_ne_zero (Nat.ne_of_gt room)
    exact .finished turns isOver
  | unreadable turns notOver answer =>
    obtain ⟨more, rfl⟩ := Nat.exists_eq_succ_of_ne_zero (Nat.ne_of_gt room)
    exact .unreadable turns notOver answer
  | next turns notOver answer others ih =>
    rw [List.length_cons] at room
    obtain ⟨more, rfl⟩ := Nat.exists_eq_succ_of_ne_zero (Nat.ne_of_gt (Nat.zero_lt_of_lt room))
    exact .next turns notOver answer (ih goesOn (Nat.le_of_succ_le_succ room))

/-- Calling processors in turn, read off an account of the turns. -/
theorem callAll_eq_ok {called : List (Processor σ × Processing σ)}
    (turns : InTurn (turn round) processors run called (.ok () stop)) :
    callAll round processors run = (none, stop) := by
  generalize hresult : EStateM.Result.ok () stop = result at turns
  induction turns with
  | done _ =>
    cases hresult
    rfl
  | failed _ => cases hresult
  | next answer _ ih =>
    rw [turn] at answer
    rw [callAll, answer]
    exact ih hresult

theorem callAll_eq_error {called : List (Processor σ × Processing σ)} {processor : Processor σ}
    {cause : Failure} (turns : InTurn (turn round) processors run called (.error cause stop))
    (culprit : called.getLast?.map (·.1) = some processor) :
    callAll round processors run = (some (processor.name, cause), stop) := by
  generalize hresult : EStateM.Result.error cause stop = result at turns
  induction turns with
  | done _ => cases hresult
  | failed answer =>
    cases hresult
    cases culprit
    rw [turn] at answer
    rw [callAll, answer]
    rfl
  | @next item rest state middle reached result answer others ih =>
    rw [turn] at answer
    rw [callAll, answer]
    refine ih ?_ hresult
    -- One failed later, so the last that was called is not this one.
    subst hresult
    obtain ⟨earlier, final, rfl, -⟩ := others.of_error
    rw [← List.cons_append, List.getLast?_concat] at culprit
    rwa [List.getLast?_concat]

/-- An account tells what running the rounds gives. -/
theorem Rounds.runRounds_eq (h : Rounds processors limit files round run rounds ending last) :
    runRounds processors limit round run = (ending, last) := by
  induction h with
  | exhausted _ _ _ => rfl
  | failed turns culprit => rw [runRounds, callAll_eq_error turns culprit]
  | finished turns isOver =>
    rw [runRounds, callAll_eq_ok turns]
    simp only [isOver, if_true]
  | unreadable turns goesOn answer =>
    rw [runRounds, callAll_eq_ok turns]
    simp only [goesOn, Bool.false_eq_true, if_false, answer]
  | next turns goesOn answer _ ih =>
    rw [runRounds, callAll_eq_ok turns]
    simp only [goesOn, Bool.false_eq_true, if_false, answer, ih]

/-! ## The end -/

/-- Over all rounds, however many there may be, the filer is asked for files of these names only. -/
def AlwaysAsksFor (names : Finset (Language × String)) (registration : Registration σ)
    (inputs : List Path) (machine : Machine σ) : Prop :=
  ∀ first limit rounds ending last, Round.ofFiles machine.environment inputs = .ok first →
    Rounds registration.processors limit inputs first
      (start registration machine.environment machine.client) rounds ending last →
    ∀ one ∈ rounds, one.AsksFor names

theorem alwaysAsksFor_of_keeps {registration : Registration σ} {inputs : List Path}
    {machine : Machine σ} (keeps : ∀ processor ∈ registration.processors, ∀ round,
      Keeps (AsksFor names) (processor.process round)) :
    AlwaysAsksFor names registration inputs machine := by
  intro first limit rounds ending last _ account one hone call hcall
  exact keeps call.1 (account.mem_processors one hone call hcall) one.round call.2

/-- Annotation processing comes to its end by itself in `rounds`: whatever the limit is, as long as
    it leaves room for them, these are the rounds, and the result is what follows from them. -/
structure EndsAfter (registration : Registration σ) (inputs : List Path) (machine : Machine σ)
    (rounds : List (RoundRun σ)) (ending : RoundsEnding) (last : Processing σ) : Prop where
  goesOn : ending ≠ .exhausted
  account : ∃ first, Round.ofFiles machine.environment inputs = .ok first ∧
    ∀ limit, rounds.length ≤ limit → Rounds registration.processors limit inputs first
      (start registration machine.environment machine.client) rounds ending last
  result : ∀ limit, rounds.length ≤ limit →
    process registration inputs { machine with roundLimit := limit } =
      conclude ending last.diagnostics
        { machine with
          roundLimit := limit, environment := last.environment, client := last.client }

/-- **Annotation processing ends**, for processors that ask the filer for files of `n` names only:
    there are at most `n + 2` rounds.  Where the inputs cannot be read, there is none. -/
theorem process_ends {registration : Registration σ} {inputs : List Path} {machine : Machine σ}
    (asks : AlwaysAsksFor names registration inputs machine) :
    (∃ cause, ∀ limit, process registration inputs { machine with roundLimit := limit } =
        .error cause { machine with roundLimit := limit }) ∨
      ∃ rounds ending last, rounds.length ≤ names.card + 2 ∧
        EndsAfter registration inputs machine rounds ending last := by
  rcases hfirst : Round.ofFiles machine.environment inputs with cause | first
  · refine .inl ⟨cause, fun limit => ?_⟩
    rw [process]
    simp only [hfirst]
  · right
    obtain ⟨rounds, account⟩ := runRounds_account registration.processors (names.card + 2) inputs
      first (start registration machine.environment machine.client)
    obtain ⟨ending, last, hrun⟩ : ∃ ending last, runRounds registration.processors (names.card + 2)
        first (start registration machine.environment machine.client) = (ending, last) := ⟨_, _, rfl⟩
    rw [hrun] at account
    -- Nothing was created when the first round starts.
    have granted : (start registration machine.environment machine.client).Granted names :=
      ⟨List.Pairwise.nil, fun _ hm => absurd hm List.not_mem_nil⟩
    have hasks := asks first _ rounds ending last hfirst account
    obtain ⟨hlength, hlimit⟩ := account.ends hasks granted rfl
    have hleft : roundsLeft names first
        (start registration machine.environment machine.client) = names.card + 2 := by
      rw [roundsLeft, if_neg (by simp [isOver_of_ofFiles hfirst])]
      rfl
    rw [hleft] at hlength hlimit
    have goesOn : ending ≠ .exhausted := fun heq => absurd (hlimit heq) (Nat.lt_irrefl _)
    have hextend : ∀ limit, rounds.length ≤ limit → Rounds registration.processors limit inputs
        first (start registration machine.environment machine.client) rounds ending last :=
      fun limit room => account.extend goesOn room
    refine ⟨rounds, ending, last, hlength, goesOn, ⟨first, hfirst, hextend⟩, fun limit room => ?_⟩
    rw [process]
    simp only [hfirst, (hextend limit room).runRounds_eq]

/-- Asks for the same file in every round, and goes on when it is refused. -/
def insistent : Processor Unit where
  name := "insistent"
  process _ run := .ok () (finalState (createSource .kotlin "gen.One" "package gen" run))

/-- Both processors create a file in the first round, and one of them asks for it again. -/
def insisting : Registration Unit :=
  { buildersRegistration with processors := [builder, insistent] }

theorem insisting_ends :
    AlwaysAsksFor {(.java, "gen.ABuilder"), (.kotlin, "gen.One")} insisting [⟨"/A.kt"⟩]
        (Machine.start oneFile 4 ()) ∧
      ((∃ cause, ∀ limit, process insisting [⟨"/A.kt"⟩] (Machine.start oneFile limit ()) =
          .error cause (Machine.start oneFile limit ())) ∨
        ∃ rounds ending last, rounds.length ≤ 4 ∧
          EndsAfter insisting [⟨"/A.kt"⟩] (Machine.start oneFile 4 ()) rounds ending last) ∧
      succeedsWith (fun code _ => code == .ok)
        (process insisting [⟨"/A.kt"⟩] (Machine.start oneFile 4 ())) = true := by
  have asks : AlwaysAsksFor {(.java, "gen.ABuilder"), (.kotlin, "gen.One")} insisting [⟨"/A.kt"⟩]
      (Machine.start oneFile 4 ()) := by
    refine alwaysAsksFor_of_keeps fun processor hm round => ?_
    simp only [insisting, List.mem_cons, List.not_mem_nil, or_false] at hm
    rcases hm with rfl | rfl
    · unfold builder
      simp only
      split
      · refine asksFor_composes.keeps_bind (fun run => ?_) fun _ => asksFor_composes.keeps_pure ()
        exact .single (.create (by decide) _)
      · exact asksFor_composes.keeps_pure ()
    · exact fun run => .single (.create (by decide) _)
  exact ⟨asks, process_ends asks, by decide +kernel⟩

end Processing

end KotlinHarness
