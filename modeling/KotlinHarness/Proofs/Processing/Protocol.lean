/-
  The protocol of annotation processing.

  The loop over rounds keeps the files that were created and not yet offered; a processor sees one
  round after the other.  An account of a run lists its rounds (`RoundRun`): what each was built
  from, which processors were called in it, and the states it started and stopped in.  `Rounds` says
  which accounts belong to a run, one rule for each way in which a round can go on.

  What the loop promises to processors is read off an account (`FollowsProtocol`):

    * the first round is built from the inputs, each later one from exactly the files created in the
      round before, in the order of their creation;
    * so the rounds after the first offer, in this order, every file created so far, each once; the
      first round is left out of this, since a processor may create an input, which is then offered
      again;
    * the final round offers nothing, follows the first round in which nothing was created, and is
      the last;
    * all processors are called in every round, in order, unless one fails: then it is the last that
      is called in the last round.

  The induction is over the account.  It carries that the files created are different ones and that
  nothing is pending when a round starts, so that what is pending when it stops is what was created
  in it.
-/
import KotlinHarness.Processing.Plugins
import KotlinHarness.Proofs.Processing.Filing

namespace KotlinHarness

/-- A round that was run. -/
structure RoundRun (σ : Type) where
  /-- The files it was built from. -/
  files : List Path
  round : Round
  start : Processing σ
  /-- The processors that were called, each with the state in which its turn came. -/
  called : List (Processor σ × Processing σ)
  stop : Processing σ

namespace Processing

variable {σ : Type}

/-! ## Accounts -/

/-- What a processor does in a round. -/
def turn (round : Round) (processor : Processor σ) : ProcessingAction σ Unit :=
  processor.process round

/-- `Rounds processors limit files round run rounds ending last`: the account of the rounds from
    `round` on, which is built from `files`. -/
inductive Rounds (processors : List (Processor σ)) :
    Nat → List Path → Round → Processing σ → List (RoundRun σ) → RoundsEnding → Processing σ → Prop
  | exhausted (files : List Path) (round : Round) (run : Processing σ) :
      Rounds processors 0 files round run [] .exhausted run
  | failed {limit : Nat} {files : List Path} {round : Round} {run stop : Processing σ}
      {called : List (Processor σ × Processing σ)} {processor : Processor σ} {cause : Failure}
      (turns : InTurn (turn round) processors run called (.error cause stop))
      (culprit : called.getLast?.map (·.1) = some processor) :
      Rounds processors (limit + 1) files round run [⟨files, round, run, called, stop⟩]
        (.failed processor.name cause) stop
  | finished {limit : Nat} {files : List Path} {round : Round} {run stop : Processing σ}
      {called : List (Processor σ × Processing σ)}
      (turns : InTurn (turn round) processors run called (.ok () stop))
      (isOver : round.isOver = true) :
      Rounds processors (limit + 1) files round run [⟨files, round, run, called, stop⟩] .over stop
  | unreadable {limit : Nat} {files : List Path} {round : Round} {run stop : Processing σ}
      {called : List (Processor σ × Processing σ)} {cause : Failure}
      (turns : InTurn (turn round) processors run called (.ok () stop))
      (goesOn : round.isOver = false)
      (answer : nextRound stop.environment stop.filer.pending = .error cause) :
      Rounds processors (limit + 1) files round run [⟨files, round, run, called, stop⟩]
        (.unreadable cause) stop.settled
  | next {limit : Nat} {files : List Path} {round round' : Round} {run stop last : Processing σ}
      {called : List (Processor σ × Processing σ)} {rounds : List (RoundRun σ)}
      {ending : RoundsEnding}
      (turns : InTurn (turn round) processors run called (.ok () stop))
      (goesOn : round.isOver = false)
      (answer : nextRound stop.environment stop.filer.pending = .ok round')
      (others : Rounds processors limit stop.filer.pending round' stop.settled rounds ending last) :
      Rounds processors (limit + 1) files round run
        (⟨files, round, run, called, stop⟩ :: rounds) ending last

theorem callAll_account (round : Round) (processors : List (Processor σ)) (run : Processing σ) :
    ∃ called,
      match callAll round processors run with
      | (none, stop) => InTurn (turn round) processors run called (.ok () stop)
      | (some (name, cause), stop) =>
        InTurn (turn round) processors run called (.error cause stop) ∧
          ∃ processor, called.getLast?.map (·.1) = some processor ∧ processor.name = name := by
  induction processors generalizing run with
  | nil => exact ⟨[], .done run⟩
  | cons processor rest ih =>
    rw [callAll]
    rcases h : processor.process round run with ⟨⟨⟩, middle⟩ | ⟨cause, after⟩
    · obtain ⟨called, hcalled⟩ := ih middle
      refine ⟨(processor, run) :: called, ?_⟩
      simp only
      split at hcalled
      · exact .next h hcalled
      · obtain ⟨hturns, culprit, hlast, hname⟩ := hcalled
        refine ⟨.next h hturns, culprit, ?_, hname⟩
        rw [List.getLast?_cons]
        rcases hl : called.getLast? with - | found
        · rw [hl] at hlast
          cases hlast
        · rwa [hl] at hlast
    · exact ⟨_, .failed h, processor, rfl, rfl⟩

/-- Every run of rounds has an account, whatever the processors do. -/
theorem runRounds_account (processors : List (Processor σ)) (limit : Nat) (files : List Path)
    (round : Round) (run : Processing σ) :
    ∃ rounds, Rounds processors limit files round run rounds
      (runRounds processors limit round run).1 (runRounds processors limit round run).2 := by
  induction limit generalizing files round run with
  | zero => exact ⟨[], .exhausted files round run⟩
  | succ limit ih =>
    obtain ⟨called, hcalled⟩ := callAll_account round processors run
    rw [runRounds]
    rcases hcall : callAll round processors run with ⟨- | ⟨name, cause⟩, stop⟩
    · rw [hcall] at hcalled
      simp only at hcalled ⊢
      rcases hover : round.isOver with - | -
      · rw [if_neg (by simp)]
        rcases hnext : nextRound stop.environment stop.filer.pending with cause | round'
        · exact ⟨_, .unreadable hcalled hover hnext⟩
        · obtain ⟨rounds, hrounds⟩ := ih stop.filer.pending round' stop.settled
          exact ⟨_, .next hcalled hover hnext hrounds⟩
      · rw [if_pos rfl]
        exact ⟨_, .finished hcalled hover⟩
    · rw [hcall] at hcalled
      obtain ⟨hturns, processor, hlast, rfl⟩ := hcalled
      exact ⟨_, .failed hturns hlast⟩

end Processing

/-! ## One round -/

namespace RoundRun

variable {σ : Type}

/-- The files that were created in the round, in order. -/
def created (one : RoundRun σ) : List Path := Processing.createdSince one.start one.stop

/-- All processors were called in the round, in order, and none failed. -/
structure Complete (processors : List (Processor σ)) (one : RoundRun σ) : Prop where
  turns : InTurn (Processing.turn one.round) processors one.start one.called (.ok () one.stop)
  called : one.called.map (·.1) = processors

/-- Processors were called in order up to one that failed, and none after it. -/
structure BreaksOff (processors : List (Processor σ)) (name : String) (cause : Failure)
    (one : RoundRun σ) : Prop where
  turns : InTurn (Processing.turn one.round) processors one.start one.called (.error cause one.stop)
  called : one.called.map (·.1) <+: processors
  failed : ∃ earlier processor start, one.called = earlier ++ [(processor, start)] ∧
    processor.name = name ∧ processor.process one.round start = .error cause one.stop

/-- The round comes right after another: it is built from the files created there, and it is the
    final one when there are none. -/
structure Follows (one other : RoundRun σ) : Prop where
  files : other.files = one.created
  built : one.created ≠ [] → Round.ofFiles one.stop.environment one.created = .ok other.round
  final : one.created = [] → other.round = .final

end RoundRun

namespace Processing

variable {σ : Type}

/-- A round that starts with nothing pending: what is pending when it stops was created in it. -/
theorem files_of_turns {processors : List (Processor σ)} {round : Round} {run stop : Processing σ}
    {called : List (Processor σ × Processing σ)}
    (works : ∀ processor ∈ processors, WorksInSteps LeavesFiler processor) (distinct : run.Distinct)
    (settled : run.filer.pending = [])
    (turns : InTurn (turn round) processors run called (.ok () stop)) :
    stop.Distinct ∧ stop.filer.created = run.filer.created ++ createdSince run stop ∧
      stop.filer.pending = createdSince run stop := by
  have each : ∀ processor ∈ processors, Keeps Advances (turn round processor) :=
    fun processor hm state => (works processor hm round state).advances
  have hadvances : Advances run stop := (turns.keeps advances_composes each).1
  obtain ⟨hdistinct, hfiles⟩ := hadvances distinct
  refine ⟨hdistinct, hfiles.created, ?_⟩
  rw [hfiles.pending, settled, List.nil_append]

/-- The next round, by whether something was created. -/
theorem nextRound_eq_ok {env : Environment} {created : List Path} {next : Round}
    (h : nextRound env created = .ok next) :
    (created ≠ [] → Round.ofFiles env created = .ok next) ∧ (created = [] → next = .final) := by
  rw [nextRound] at h
  split at h
  · next hempty =>
    have hnil : created = [] := List.isEmpty_iff.1 hempty
    cases h
    exact ⟨fun hne => absurd hnil hne, fun _ => rfl⟩
  · next hne =>
    exact ⟨fun _ => h, fun hnil => absurd (List.isEmpty_iff.2 hnil) hne⟩

theorem nextRound_eq_error {env : Environment} {created : List Path} {cause : Failure}
    (h : nextRound env created = .error cause) :
    created ≠ [] ∧ Round.ofFiles env created = .error cause := by
  rw [nextRound] at h
  split at h
  · cases h
  · next hne => exact ⟨fun hnil => hne (List.isEmpty_iff.2 hnil), h⟩

theorem isOver_of_ofFiles {env : Environment} {paths : List Path} {round : Round}
    (h : Round.ofFiles env paths = .ok round) : round.isOver = false := by
  rw [Round.ofFiles] at h
  rcases hall : Round.elementsOfAll env paths with cause | elements
  · rw [hall] at h
    cases h
  · rw [hall] at h
    cases h
    rfl

/-- Files that can be read make a round. -/
theorem ofFiles_of_readable {env : Environment} {paths : List Path}
    (h : ∀ path ∈ paths, env.Readable path) : ∃ round, Round.ofFiles env paths = .ok round := by
  have hall : ∃ elements, Round.elementsOfAll env paths = .ok elements := by
    induction paths with
    | nil => exact ⟨[], rfl⟩
    | cons path rest ih =>
      obtain ⟨text, htext⟩ := h path List.mem_cons_self
      obtain ⟨others, hothers⟩ := ih fun other hm => h other (List.mem_cons_of_mem _ hm)
      refine ⟨Element.parse path text ++ others, ?_⟩
      rw [Round.elementsOfAll, Round.elementsOf, htext, hothers]
  obtain ⟨elements, helements⟩ := hall
  exact ⟨.ofElements elements, by rw [Round.ofFiles, helements]; rfl⟩

/-! ## From round to round -/

variable {processors : List (Processor σ)} {limit : Nat} {files : List Path} {round : Round}
  {run last : Processing σ} {rounds : List (RoundRun σ)} {ending : RoundsEnding}

theorem Rounds.head (h : Rounds processors limit files round run rounds ending last) :
    ∀ one, rounds[0]? = some one → one.files = files ∧ one.round = round ∧ one.start = run := by
  intro one hone
  cases h with
  | exhausted _ _ _ => cases hone
  | failed _ _ | finished _ _ | unreadable _ _ _ | next _ _ _ _ =>
    cases hone
    exact ⟨rfl, rfl, rfl⟩

/-- Each round but the first follows the one before it. -/
theorem Rounds.follows (works : ∀ processor ∈ processors, WorksInSteps LeavesFiler processor)
    (distinct : run.Distinct) (settled : run.filer.pending = [])
    (h : Rounds processors limit files round run rounds ending last) :
    ∀ n one other, rounds[n]? = some one → rounds[n + 1]? = some other → one.Follows other := by
  induction h with
  | exhausted _ _ _ =>
    intro n one other hone
    cases hone
  | failed _ _ | finished _ _ | unreadable _ _ _ =>
    intro n one other _ hother
    cases hother
  | @next limit files round round' run stop last called rounds ending turns goesOn answer others ih =>
    obtain ⟨hdistinct, hcreated, hpending⟩ := files_of_turns works distinct settled turns
    intro n one other hone hother
    cases n with
    | zero =>
      -- Nothing was pending when the round started, so what is pending now was created in it.
      cases hone
      obtain ⟨hfiles, hround, -⟩ := others.head other hother
      have hpending : stop.filer.pending =
          (RoundRun.mk files round run called stop).created := hpending
      rw [hpending] at hfiles answer
      obtain ⟨hbuilt, hfinal⟩ := nextRound_eq_ok answer
      exact ⟨hfiles, fun hne => hround ▸ hbuilt hne, fun hnil => hround ▸ hfinal hnil⟩
    | succ n => exact ih hdistinct rfl n one other hone hother

/-- When any round starts, the rounds up to it but the first were built from all files created so
    far, and no two of these are the same.  What the first round was built from may be among them. -/
theorem Rounds.offered (works : ∀ processor ∈ processors, WorksInSteps LeavesFiler processor)
    (distinct : run.Distinct) (settled : run.filer.pending = [])
    (h : Rounds processors limit files round run rounds ending last) :
    ∀ n one, rounds[n]? = some one → one.start.Distinct ∧
      one.start.filer.created =
        run.filer.created ++ ((rounds.take (n + 1)).drop 1).flatMap RoundRun.files := by
  induction h with
  | exhausted _ _ _ =>
    intro n one hone
    cases hone
  | failed _ _ | finished _ _ | unreadable _ _ _ =>
    intro n one hone
    cases n with
    | zero =>
      cases hone
      exact ⟨distinct, by simp⟩
    | succ n => cases hone
  | @next limit files round round' run stop last called rounds ending turns goesOn answer others ih =>
    obtain ⟨hdistinct, hcreated, hpending⟩ := files_of_turns works distinct settled turns
    intro n one hone
    cases n with
    | zero =>
      cases hone
      exact ⟨distinct, by simp⟩
    | succ n =>
      have hone : rounds[n]? = some one := hone
      rcases rounds with - | ⟨first, later⟩
      · cases hone
      · obtain ⟨hfiles, -, -⟩ := others.head first rfl
        have hnew : createdSince run stop = first.files := hpending.symm.trans hfiles.symm
        obtain ⟨hstart, hoffered⟩ := ih hdistinct rfl n one hone
        refine ⟨hstart, hoffered.trans ?_⟩
        show stop.filer.created ++ _ = _
        rw [hcreated, hnew]
        simp

/-! ## How it ends -/

/-- The ways in which rounds end: with the final round, which is the only one of its kind, or with a
    processor that fails, or with the limit, or with a file that was created and cannot be read.  In
    all rounds before the last every processor was called. -/
def EndsAs (processors : List (Processor σ)) (limit : Nat) (rounds : List (RoundRun σ)) :
    RoundsEnding → Prop
  | .over =>
    ∃ earlier quiet final, rounds = earlier ++ [quiet, final] ∧
      (∀ one ∈ rounds, one.Complete processors) ∧
      (∀ one ∈ earlier ++ [quiet], one.round.isOver = false) ∧
      (∀ one ∈ earlier, one.created ≠ []) ∧ quiet.created = [] ∧ final.round = .final
  | .failed name cause =>
    ∃ earlier last, rounds = earlier ++ [last] ∧
      (∀ one ∈ earlier, one.Complete processors ∧ one.round.isOver = false) ∧
      last.BreaksOff processors name cause
  | .exhausted =>
    rounds.length = limit ∧ ∀ one ∈ rounds, one.Complete processors ∧ one.round.isOver = false
  | .unreadable cause =>
    ∃ earlier last, rounds = earlier ++ [last] ∧
      (∀ one ∈ earlier, one.Complete processors ∧ one.round.isOver = false) ∧
      (last.Complete processors ∧ last.round.isOver = false) ∧ last.created ≠ [] ∧
      Round.ofFiles last.stop.environment last.created = .error cause

/-- How rounds end, as far as it shows in the account alone: nothing is said of the rounds before the
    final one but that they are not final. -/
def StopsAs (processors : List (Processor σ)) (limit : Nat) (rounds : List (RoundRun σ)) :
    RoundsEnding → Prop
  | .over =>
    ∃ earlier final, rounds = earlier ++ [final] ∧
      (∀ one ∈ earlier, one.Complete processors ∧ one.round.isOver = false) ∧
      final.Complete processors ∧ final.round.isOver = true
  | ending => EndsAs processors limit rounds ending

/-- Only the last round can be the final one, and only in it can a processor fail. -/
theorem Rounds.lastRound (works : ∀ processor ∈ processors, WorksInSteps LeavesFiler processor)
    (distinct : run.Distinct) (settled : run.filer.pending = [])
    (h : Rounds processors limit files round run rounds ending last) :
    StopsAs processors limit rounds ending := by
  induction h with
  | exhausted _ _ _ => exact ⟨rfl, fun _ hm => absurd hm List.not_mem_nil⟩
  | @failed limit files round run stop called processor cause turns culprit =>
    -- The processor named is the one whose turn was the last.
    obtain ⟨earlier, ⟨failing, start⟩, heq, hpre, _, hfails⟩ := turns.of_error
    rw [heq, List.getLast?_concat] at culprit
    cases culprit
    exact ⟨[], _, rfl, fun _ hm => absurd hm List.not_mem_nil, turns, hpre,
      earlier, failing, start, heq, rfl, hfails⟩
  | finished turns isOver =>
    exact ⟨[], _, rfl, fun _ hm => absurd hm List.not_mem_nil, ⟨turns, turns.of_ok.1⟩, isOver⟩
  | @unreadable limit files round run stop called cause turns goesOn answer =>
    obtain ⟨-, -, hpending⟩ := files_of_turns works distinct settled turns
    have hpending : stop.filer.pending = (RoundRun.mk files round run called stop).created :=
      hpending
    rw [hpending] at answer
    obtain ⟨hne, hunreadable⟩ := nextRound_eq_error answer
    exact ⟨[], _, rfl, fun _ hm => absurd hm List.not_mem_nil, ⟨⟨turns, turns.of_ok.1⟩, goesOn⟩, hne,
      hunreadable⟩
  | @next limit files round round' run stop last called rounds ending turns goesOn answer others ih =>
    obtain ⟨hdistinct, -, -⟩ := files_of_turns works distinct settled turns
    have ih := ih hdistinct rfl
    have hone : (RoundRun.mk files round run called stop).Complete processors ∧
        round.isOver = false := ⟨⟨turns, turns.of_ok.1⟩, goesOn⟩
    match ending, ih with
    | .over, ⟨earlier, final, heq, hearlier, hfinal⟩ =>
      exact ⟨_ :: earlier, final, by rw [heq, List.cons_append],
        List.forall_mem_cons.2 ⟨hone, hearlier⟩, hfinal⟩
    | .failed name cause, ⟨earlier, last, heq, hearlier, hlast⟩ =>
      exact ⟨_ :: earlier, last, by rw [heq, List.cons_append],
        List.forall_mem_cons.2 ⟨hone, hearlier⟩, hlast⟩
    | .exhausted, ⟨hlength, hall⟩ =>
      exact ⟨congrArg (· + 1) hlength, List.forall_mem_cons.2 ⟨hone, hall⟩⟩
    | .unreadable cause, ⟨earlier, last, heq, hearlier, hlast⟩ =>
      exact ⟨_ :: earlier, last, by rw [heq, List.cons_append],
        List.forall_mem_cons.2 ⟨hone, hearlier⟩, hlast⟩

/-- As long as files that were created can be read, the next round can be built. -/
theorem Rounds.ne_unreadable (works : ∀ processor ∈ processors, WorksInSteps LeavesFiler processor)
    (stay : ∀ processor ∈ processors, WorksInSteps LeavesCreated processor)
    (distinct : run.Distinct) (settled : run.filer.pending = []) (readable : run.AllReadable)
    (h : Rounds processors limit files round run rounds ending last) :
    ∀ cause, ending ≠ .unreadable cause := by
  have after : ∀ {round : Round} {run stop : Processing σ}
      {called : List (Processor σ × Processing σ)}, run.AllReadable →
      InTurn (turn round) processors run called (.ok () stop) → stop.AllReadable := by
    intro round run stop called readable turns
    have each : ∀ processor ∈ processors, Keeps KeepsReadable (turn round processor) :=
      fun processor hm state => (stay processor hm round state).keepsReadable
    exact (turns.keeps keepsReadable_composes each).1 readable
  induction h with
  | exhausted _ _ _ | failed _ _ | finished _ _ =>
    intro cause heq
    cases heq
  | @unreadable limit files round run stop called cause turns goesOn answer =>
    -- What is pending was created, and what was created can be read.
    obtain ⟨-, hcreated, hpending⟩ := files_of_turns works distinct settled turns
    obtain ⟨round', hround⟩ : ∃ round', Round.ofFiles stop.environment stop.filer.pending =
        .ok round' := by
      refine ofFiles_of_readable ?_
      intro path hm
      refine after readable turns path ?_
      rw [hcreated, ← hpending]
      exact List.mem_append_right _ hm
    rw [(nextRound_eq_error answer).2] at hround
    cases hround
  | @next limit files round round' run stop last called rounds ending turns goesOn answer others ih =>
    obtain ⟨hdistinct, -, -⟩ := files_of_turns works distinct settled turns
    have hreadable : stop.AllReadable := after readable turns
    exact ih hdistinct rfl hreadable

/-- Rounds that follow each other, the first of them not the final one: the final round comes after
    the first in which nothing was created. -/
theorem endsAs_over {earlier : List (RoundRun σ)} {final : RoundRun σ}
    (follows : ∀ n one other, (earlier ++ [final])[n]? = some one →
      (earlier ++ [final])[n + 1]? = some other → one.Follows other)
    (first : ∀ one, (earlier ++ [final])[0]? = some one → one.round.isOver = false)
    (goesOn : ∀ one ∈ earlier, one.round.isOver = false) (isOver : final.round.isOver = true) :
    ∃ before quiet, earlier = before ++ [quiet] ∧ (∀ one ∈ before, one.created ≠ []) ∧
      quiet.created = [] ∧ final.round = .final := by
  rcases List.eq_nil_or_concat earlier with rfl | ⟨before, quiet, rfl⟩
  · -- The final round is not the first.
    rw [first final rfl] at isOver
    cases isOver
  · rw [List.concat_eq_append] at follows goesOn ⊢
    have hquiet : quiet.Follows final := by
      refine follows before.length quiet final ?_ ?_ <;> simp
    have hnone : quiet.created = [] := by
      rcases hcreated : quiet.created with - | ⟨path, paths⟩
      · rfl
      · have hbuilt := isOver_of_ofFiles (hquiet.built (by simp [hcreated]))
        rw [hbuilt] at isOver
        cases isOver
    refine ⟨before, quiet, rfl, fun one hm hnil => ?_, hnone, hquiet.final hnone⟩
    obtain ⟨n, hn, rfl⟩ := List.mem_iff_getElem.1 hm
    -- The round after one of the earlier ones is itself no final round.
    obtain ⟨other, hother, hmem⟩ : ∃ other, (before ++ [quiet])[n + 1]? = some other ∧
        other ∈ before ++ [quiet] := by
      have hlt : n + 1 < (before ++ [quiet]).length := by simp; omega
      exact ⟨_, List.getElem?_eq_getElem hlt, List.getElem_mem hlt⟩
    have hfollows : before[n].Follows other := by
      refine follows n before[n] other ?_ ?_
      · rw [List.append_assoc, List.getElem?_append_left hn, List.getElem?_eq_getElem hn]
      · rw [List.getElem?_append_left (by simp; omega)]
        exact hother
    have hover := goesOn other hmem
    rw [hfollows.final hnil] at hover
    cases hover

/-! ## The protocol -/

/-- What processors can rely on, for rounds that start with `inputs` in `env`. -/
structure FollowsProtocol (processors : List (Processor σ)) (inputs : List Path) (env : Environment)
    (limit : Nat) (rounds : List (RoundRun σ)) (ending : RoundsEnding) : Prop where
  /-- The first round is built from the inputs. -/
  first : ∀ one, rounds[0]? = some one →
    one.files = inputs ∧ Round.ofFiles env inputs = .ok one.round
  /-- Each later round is built from exactly the files created in the round before. -/
  next : ∀ n one other, rounds[n]? = some one → rounds[n + 1]? = some other → one.Follows other
  /-- When a round starts, the files created so far are those that were offered in the rounds after
      the first, in the same order, and no two of them are the same.  Nothing is said of the inputs:
      one that is created in some round is offered in the first round and again after that one. -/
  offered : ∀ n one, rounds[n]? = some one →
    ((rounds.take (n + 1)).drop 1).flatMap RoundRun.files = one.start.filer.created ∧
      one.start.filer.created.Pairwise fun file other => file.sameAs other = false
  ending : EndsAs processors limit rounds ending

theorem Rounds.protocol {inputs : List Path} {env : Environment}
    (works : ∀ processor ∈ processors, WorksInSteps LeavesFiler processor)
    (distinct : run.Distinct) (settled : run.filer.pending = []) (nothing : run.filer.created = [])
    (built : Round.ofFiles env inputs = .ok round)
    (h : Rounds processors limit inputs round run rounds ending last) :
    FollowsProtocol processors inputs env limit rounds ending := by
  have first : ∀ one, rounds[0]? = some one →
      one.files = inputs ∧ Round.ofFiles env inputs = .ok one.round := by
    intro one hone
    obtain ⟨hfiles, hround, -⟩ := h.head one hone
    exact ⟨hfiles, hround ▸ built⟩
  have follows := h.follows works distinct settled
  refine ⟨first, follows, fun n one hone => ?_, ?_⟩
  · obtain ⟨hdistinct, hoffered⟩ := h.offered works distinct settled n one hone
    rw [nothing, List.nil_append] at hoffered
    exact ⟨hoffered.symm, hdistinct⟩
  · have hlast := h.lastRound works distinct settled
    match ending, hlast with
    | .over, ⟨earlier, final, hrounds, hearlier, hfinal, hover⟩ =>
      subst hrounds
      obtain ⟨before, quiet, rfl, hbefore, hquiet, hround⟩ := endsAs_over follows
        (fun one hone => isOver_of_ofFiles (first one hone).2) (fun one hm => (hearlier one hm).2)
        hover
      refine ⟨before, quiet, final, by simp, fun one hm => ?_, fun one hm => (hearlier one hm).2,
        hbefore, hquiet, hround⟩
      rcases List.mem_append.1 hm with hm | hm
      · exact (hearlier one hm).1
      · rw [List.mem_singleton.1 hm]
        exact hfinal
    | .failed _ _, hbreaks => exact hbreaks
    | .exhausted, hall => exact hall
    | .unreadable _, hunreadable => exact hunreadable

/-- **Annotation processing follows the protocol**, whatever the processors do with the filer and
    besides, and whatever the inputs are, as long as they can be read; and unless a processor fails,
    or does something on the side to files that were created, it ends with the final round or runs
    as many rounds as it may. -/
theorem process_protocol (registration : Registration σ) (inputs : List Path) (machine : Machine σ)
    (readable : ∀ path ∈ inputs, machine.environment.Readable path)
    (works : ∀ processor ∈ registration.processors, WorksInSteps LeavesFiler processor) :
    ∃ first rounds ending last,
      Rounds registration.processors machine.roundLimit inputs first
        (start registration machine.environment machine.client) rounds ending last ∧
      process registration inputs machine = conclude ending last.diagnostics
        { machine with environment := last.environment, client := last.client } ∧
      FollowsProtocol registration.processors inputs machine.environment machine.roundLimit rounds
        ending ∧
      ((∀ processor ∈ registration.processors, ∀ round run,
          ∃ after, processor.process round run = .ok () after) →
        (∀ processor ∈ registration.processors, WorksInSteps LeavesCreated processor) →
        ending = .over ∨ ending = .exhausted) := by
  obtain ⟨first, hfirst⟩ := ofFiles_of_readable readable
  obtain ⟨rounds, h⟩ := runRounds_account registration.processors machine.roundLimit inputs first
    (start registration machine.environment machine.client)
  rcases hrun : runRounds registration.processors machine.roundLimit first
    (start registration machine.environment machine.client) with ⟨ending, last⟩
  rw [hrun] at h
  -- When the first round starts, nothing was created.
  have distinct : (start registration machine.environment machine.client).Distinct :=
    List.Pairwise.nil
  have nothing : (start registration machine.environment machine.client).AllReadable :=
    fun _ hm => absurd hm List.not_mem_nil
  have hprotocol := h.protocol works distinct rfl rfl hfirst
  refine ⟨first, rounds, ending, last, h, ?_, hprotocol, ?_⟩
  · rw [process, hfirst]
    simp only [hrun]
  · intro succeeds stay
    have hreadable := h.ne_unreadable works stay distinct rfl nothing
    match ending, hprotocol.ending, hreadable with
    | .over, _, _ => exact .inl rfl
    | .exhausted, _, _ => exact .inr rfl
    | .unreadable cause, _, hreadable => exact absurd rfl (hreadable cause)
    | .failed name cause, ⟨_, last, _, _, hlast⟩, _ =>
      obtain ⟨earlier, processor, state, hcalled, _, hfails⟩ := hlast.failed
      have hm : processor ∈ registration.processors := by
        refine hlast.called.subset ?_
        rw [hcalled]
        simp
      obtain ⟨after, hafter⟩ := succeeds processor hm last.round state
      rw [hafter] at hfails
      cases hfails

/-- Creates a source for the class `A`. -/
def builder : Processor Unit where
  name := "builder"
  process round := do
    if round.elements.any (·.name == "A") then
      let _ ← createSource .java "gen.ABuilder" "package gen; class ABuilder {}"

/-- Reports how many declarations there are. -/
def counter : Processor Unit where
  name := "counter"
  process round := report (.plain .note (toString round.elements.length))

/-- An environment with the one file `/A.kt`. -/
def oneFile : Environment :=
  { (default : Environment) with
    files := FileTree.empty.insert ["A.kt"] (.file ⟨Text.encode "class A", .plain⟩) }

def buildersRegistration : Registration Unit where
  processors := [builder, counter]
  options := []
  directories := ⟨⟨"/java"⟩, ⟨"/kotlin"⟩, ⟨"/stubs"⟩, ⟨"/data"⟩, ⟨"/classes"⟩⟩
  correctErrorTypes := false

theorem builders_protocol :
    (∀ path ∈ [(⟨"/A.kt"⟩ : Path)], (Machine.start oneFile 5 ()).environment.Readable path) ∧
      (∀ processor ∈ buildersRegistration.processors, WorksInSteps LeavesFiler processor) ∧
      ∃ first rounds ending last,
        Rounds buildersRegistration.processors 5 [⟨"/A.kt"⟩] first
          (start buildersRegistration oneFile ()) rounds ending last ∧
        process buildersRegistration [⟨"/A.kt"⟩] (Machine.start oneFile 5 ()) =
          conclude ending last.diagnostics
            { Machine.start oneFile 5 () with
              environment := last.environment, client := last.client } ∧
        FollowsProtocol buildersRegistration.processors [⟨"/A.kt"⟩] oneFile 5 rounds ending ∧
        ((∀ processor ∈ buildersRegistration.processors, ∀ round run,
            ∃ after, processor.process round run = .ok () after) →
          (∀ processor ∈ buildersRegistration.processors, WorksInSteps LeavesCreated processor) →
          ending = .over ∨ ending = .exhausted) := by
  have readable : ∀ path ∈ [(⟨"/A.kt"⟩ : Path)],
      (Machine.start oneFile 5 ()).environment.Readable path := by
    intro path hm
    rw [List.mem_singleton.1 hm]
    exact ⟨"class A", rfl⟩
  have works : ∀ processor ∈ buildersRegistration.processors,
      WorksInSteps LeavesFiler processor := by
    have hbuilder : WorksInSteps LeavesFiler builder := by
      intro round
      unfold builder
      simp only
      split
      · refine (steps_composes LeavesFiler).keeps_bind (fun state => ?_) fun _ => .refl
        exact .tail (.refl state) (.create .java "gen.ABuilder" _)
      · exact .refl
    have hcounter : WorksInSteps LeavesFiler counter := fun round state =>
      .tail (.refl state) (.aside rfl)
    intro processor hm
    rcases List.mem_cons.1 hm with rfl | hm
    · exact hbuilder
    · rw [List.mem_singleton.1 hm]
      exact hcounter
  exact ⟨readable, works, process_protocol buildersRegistration [⟨"/A.kt"⟩]
    (Machine.start oneFile 5 ()) readable works⟩

end Processing

end KotlinHarness
