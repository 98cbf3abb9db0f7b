/-
  Two machines abreast.

  A second call on a machine, over the files that the first one left, goes on beside the first one:
  the same was printed by then, the same registration is installed, and the files retrace those of
  the first call (`Abreast`).  An action `Recurs` when the second call ends it with the value that the
  first one ended it with.

  What is printed again is the same as long as the sink takes or refuses the same (`Steady`); a sink
  may keep whatever state it likes besides.
-/
import KotlinHarness.Proofs.Files.Retracing
import KotlinHarness.Proofs.Processing.Creation

namespace KotlinHarness

/-! ## Sinks -/

/-- What the sink takes or refuses does not depend on its state. -/
structure Sink.Steady {σ : Type} (sink : Sink σ) : Prop where
  write : ∀ bytes state state', (sink.write bytes state').1 = (sink.write bytes state).1
  flush : ∀ state state', (sink.flush state').1 = (sink.flush state).1

namespace MessageStream

variable {σ : Type} {stream : MessageStream σ}

/-- A stream offers to the same sink again, whatever the state. -/
theorem write_steady (steady : stream.sink.Steady) (bytes : Bytes) (state state' : σ) :
    (stream.write bytes state').1 = (stream.write bytes state).1 ∧
      (stream.write bytes state').2.1 = (stream.write bytes state).2.1 ∧
      (stream.write bytes state).2.1.sink = stream.sink := by
  have same := steady.write bytes state state'
  rw [write, write]
  rcases hfirst : stream.sink.write bytes state with ⟨cause | taken, after⟩ <;>
    rcases hsecond : stream.sink.write bytes state' with ⟨cause' | taken', after'⟩ <;>
    rw [hfirst, hsecond] at same <;> cases same <;> exact ⟨rfl, rfl, rfl⟩

theorem writeAllUpTo_steady (limit : Nat) (steady : stream.sink.Steady) (bytes : Bytes)
    (state state' : σ) :
    (stream.writeAllUpTo limit bytes state').1 = (stream.writeAllUpTo limit bytes state).1 ∧
      (stream.writeAllUpTo limit bytes state').2.1 = (stream.writeAllUpTo limit bytes state).2.1 ∧
      (stream.writeAllUpTo limit bytes state).2.1.sink = stream.sink := by
  induction limit generalizing stream bytes state state' with
  | zero => exact ⟨rfl, rfl, rfl⟩
  | succ limit ih =>
    rw [writeAllUpTo, writeAllUpTo]
    split
    · exact ⟨rfl, rfl, rfl⟩
    · obtain ⟨hanswer, hstream, hsink⟩ := write_steady steady bytes state state'
      rcases hfirst : stream.write bytes state with ⟨answer, middle, after⟩
      rcases hsecond : stream.write bytes state' with ⟨answer', middle', after'⟩
      rw [hfirst, hsecond] at hanswer hstream
      rw [hfirst] at hsink
      cases hanswer
      cases hstream
      cases answer with
      | error cause => exact ⟨rfl, rfl, hsink⟩
      | ok taken =>
        cases taken with
        | zero => exact ⟨rfl, rfl, hsink⟩
        | succ taken =>
          have hmiddle : middle.sink = stream.sink := hsink
          obtain ⟨hanswer, hstream, hsink⟩ :=
            ih (hmiddle ▸ steady) (bytes.drop (taken + 1)) after after'
          exact ⟨hanswer, hstream, hsink.trans hmiddle⟩

theorem adviseOn_steady (steady : stream.sink.Steady) (problems : List KnownProblem)
    (state state' : σ) : (stream.adviseOn problems state').1 = (stream.adviseOn problems state).1 := by
  induction problems generalizing state state' with
  | nil => exact steady.flush state state'
  | cons problem rest ih =>
    obtain ⟨hanswer, -, -⟩ :=
      writeAllUpTo_steady (Text.encode problem.warning).length steady (Text.encode problem.warning)
        state state'
    rw [adviseOn, adviseOn, writeAll, writeAll]
    rcases hfirst : stream.writeAllUpTo _ (Text.encode problem.warning) state with
      ⟨answer, middle, after⟩
    rcases hsecond : stream.writeAllUpTo _ (Text.encode problem.warning) state' with
      ⟨answer', middle', after'⟩
    rw [hfirst, hsecond] at hanswer
    cases hanswer
    cases answer with
    | error cause => rfl
    | ok _ => exact ih after after'

/-- A stream ends with the same text again. -/
theorem finish_steady (steady : stream.sink.Steady) (state state' : σ) :
    (stream.finish state').1 = (stream.finish state).1 := by
  have same := adviseOn_steady steady (KnownProblem.inText stream.text) state state'
  rw [finish, finish]
  rcases hfirst : stream.adviseOn (KnownProblem.inText stream.text) state with ⟨cause | _, after⟩ <;>
    rcases hsecond : stream.adviseOn (KnownProblem.inText stream.text) state' with
      ⟨cause' | _, after'⟩ <;>
    rw [hfirst, hsecond] at same <;> cases same
  all_goals rfl

end MessageStream

namespace Machine

open Environment

variable {σ α β : Type} {final : Environment} {installed : Option (Registration σ)}
  {may : Location → FileData → Prop} {first second : Machine σ}

/-- The second machine beside the first, over what the first call left in `final`. -/
structure Abreast (final : Environment) (installed : Option (Registration σ))
    (first second : Machine σ) : Prop where
  retraces : Retraces final first.environment second.environment
  messages : second.messages = first.messages
  steady : first.messages.sink.Steady
  roundLimit : second.roundLimit = first.roundLimit
  /-- Both have the registration on their thread, if there is to be one. -/
  registration : ∀ registration, installed = some registration →
    first.registration? = some registration ∧ second.registration? = some registration

/-- What was called before makes no difference. -/
theorem Abreast.withCalls (h : Abreast final installed first second) (calls calls' : List ToolCall) :
    Abreast final installed { first with calls } { second with calls := calls' } :=
  ⟨h.retraces, h.messages, h.steady, h.roundLimit, h.registration⟩

/-- Without the registration of the thread. -/
theorem Abreast.cleared (h : Abreast final installed first second) :
    Abreast final none first.clearRegistration second.clearRegistration :=
  ⟨h.retraces, h.messages, h.steady, h.roundLimit, fun _ hnone => by cases hnone⟩

/-- Both machines went on, and are abreast. -/
structure Proceeds (final : Environment) (installed : Option (Registration σ))
    (first second last last' : Machine σ) : Prop where
  abreast : Abreast final installed last last'
  moves : Moves final first.environment second.environment last.environment last'.environment

theorem Abreast.proceeds (h : Abreast final installed first second) :
    Proceeds final installed first second first second :=
  ⟨h, .refl h.retraces⟩

theorem Proceeds.trans {middle middle' last last' : Machine σ}
    (h : Proceeds final installed first second middle middle')
    (h' : Proceeds final installed middle middle' last last') :
    Proceeds final installed first second last last' :=
  ⟨h'.abreast, h.moves.trans h'.moves⟩

/-- Files changed as they may, and as many rounds may be run as before. -/
structure GrowsBy (may : Location → FileData → Prop) (before after : Machine σ) : Prop where
  grows : Grows may before.environment after.environment
  roundLimit : after.roundLimit = before.roundLimit

theorem growsBy_composes (may : Location → FileData → Prop) : Composes (@GrowsBy σ may) :=
  ⟨fun machine => ⟨.refl machine.environment, rfl⟩,
    fun h h' => ⟨h.grows.trans h'.grows, h'.roundLimit.trans h.roundLimit⟩⟩

/-- Printing changes no file. -/
theorem growsBy_of_onlyPrints {action : MachineAction σ α} (h : Keeps OnlyPrints action) :
    Keeps (GrowsBy may) action := by
  intro machine
  refine ⟨?_, (h machine).roundLimit⟩
  rw [(h machine).environment]
  exact .refl machine.environment

/-- When the first call ends an action with a value, so does the second, if what the first one left
    in the end came of what it left then by changes that may be. -/
def Recurs (final : Environment) (installed : Option (Registration σ))
    (may : Location → FileData → Prop) (action : MachineAction σ α) (first second : Machine σ) :
    Prop :=
  ∀ value last, action first = .ok value last → Grows may last.environment final →
    ∃ last', action second = .ok value last' ∧ Proceeds final installed first second last last'

theorem Recurs.pure (h : Abreast final installed first second) (value : α) :
    Recurs final installed may (pure value) first second := by
  intro _ _ hfirst _
  cases hfirst
  exact ⟨second, rfl, h.proceeds⟩

/-- What the first call does in an action, and then in the end, came of changes that may be. -/
theorem Recurs.assuming {action : MachineAction σ α}
    (keeps : Grows may first.environment (finalState (action first)).environment)
    (h : Grows may first.environment final → Recurs final installed may action first second) :
    Recurs final installed may action first second := by
  intro value last hlast below
  rw [hlast] at keeps
  exact h (keeps.trans below) value last hlast below

/-- Two actions in turn recur.  The first may be one that recurs over more changes than the second
    does. -/
theorem Recurs.bindWider {wide : Location → FileData → Prop} {action : MachineAction σ α}
    {next : α → MachineAction σ β} (wider : ∀ location data, may location data → wide location data)
    (h : Recurs final installed wide action first second)
    (keeps : ∀ {value middle}, action first = .ok value middle →
      GrowsBy wide middle (finalState (next value middle)))
    (hnext : ∀ {value middle middle'}, action first = .ok value middle →
      Proceeds final installed first second middle middle' →
      Recurs final installed may (next value) middle middle') :
    Recurs final installed may (action >>= next) first second := by
  intro value last hlast below
  obtain ⟨found, middle, hfirst, hsecond⟩ := of_bind_ok hlast
  have later := keeps hfirst
  rw [hsecond] at later
  obtain ⟨middle', hagain, proceeds⟩ :=
    h found middle hfirst (later.grows.trans (below.mono wider))
  obtain ⟨last', hlast', proceeds'⟩ := hnext hfirst proceeds value last hsecond below
  refine ⟨last', ?_, proceeds.trans proceeds'⟩
  rw [bind_eq, hagain]
  exact hlast'

theorem Recurs.bind {action : MachineAction σ α} {next : α → MachineAction σ β}
    (h : Recurs final installed may action first second)
    (keeps : ∀ {value middle}, action first = .ok value middle →
      GrowsBy may middle (finalState (next value middle)))
    (hnext : ∀ {value middle middle'}, action first = .ok value middle →
      Proceeds final installed first second middle middle' →
      Recurs final installed may (next value) middle middle') :
    Recurs final installed may (action >>= next) first second :=
  h.bindWider (fun _ _ => id) keeps hnext

theorem onEnvironment_eq_ok {action : EnvironmentAction α} {machine after : Machine σ} {value : α} :
    onEnvironment action machine = .ok value after ↔
      ∃ env, action machine.environment = .ok value env ∧
        after = { machine with environment := env } := by
  rw [onEnvironment]
  rcases action machine.environment with ⟨found, env⟩ | ⟨cause, env⟩
  · constructor
    · intro h
      cases h
      exact ⟨env, rfl, rfl⟩
    · rintro ⟨_, h, rfl⟩
      cases h
      rfl
  · constructor
    · intro h
      cases h
    · rintro ⟨_, h, -⟩
      cases h

/-- What is done again to the environment recurs. -/
theorem Abreast.recurs_onEnvironment {action : EnvironmentAction α}
    (h : Abreast final installed first second)
    (repeats : Repeats final action first.environment second.environment) :
    Recurs final installed may (onEnvironment action) first second := by
  intro value last hlast below
  obtain ⟨env, hfirst, rfl⟩ := onEnvironment_eq_ok.1 hlast
  obtain ⟨new', hsecond, moves⟩ := repeats.of_ok hfirst (below.mono fun _ _ _ => trivial)
  refine ⟨{ second with environment := new' }, onEnvironment_eq_ok.2 ⟨new', hsecond, rfl⟩, ?_, moves⟩
  exact ⟨moves.retraces, h.messages, h.steady, h.roundLimit, h.registration⟩

theorem keeps_onEnvironment {action : EnvironmentAction α} (h : Keeps (Grows may) action) :
    Keeps (@GrowsBy σ may) (onEnvironment action) := by
  intro machine
  have hstate := h machine.environment
  rw [onEnvironment]
  rcases hresult : action machine.environment with ⟨value, after⟩ | ⟨cause, after⟩ <;>
    rw [hresult] at hstate <;> exact ⟨hstate, rfl⟩

/-! ## Printing -/

/-- What is printed is printed again. -/
theorem Abreast.recurs_printLine (h : Abreast final installed first second) (line : String) :
    Recurs final installed may (printLine line) first second := by
  intro _ last hlast _
  rw [printLine, printBytes] at hlast
  rw [printLine, printBytes, h.messages]
  obtain ⟨hanswer, hstream, hsink⟩ := MessageStream.writeAllUpTo_steady
    (Text.encode (line ++ "\n")).length h.steady (Text.encode (line ++ "\n")) first.client
    second.client
  rw [MessageStream.writeAll] at hlast ⊢
  rcases hfirst : first.messages.writeAllUpTo _ (Text.encode (line ++ "\n")) first.client with
    ⟨answer, stream, client⟩
  rcases hsecond : first.messages.writeAllUpTo _ (Text.encode (line ++ "\n")) second.client with
    ⟨answer', stream', client'⟩
  rw [hfirst, hsecond] at hanswer hstream
  rw [hfirst] at hlast hsink
  cases hanswer
  cases hstream
  cases answer with
  | error cause => cases hlast
  | ok _ =>
    cases hlast
    have steady : stream.sink.Steady := by
      rw [show stream.sink = first.messages.sink from hsink]
      exact h.steady
    exact ⟨_, rfl, ⟨h.retraces, rfl, steady, h.roundLimit, h.registration⟩, .refl h.retraces⟩

theorem Abreast.recurs_printDiagnostics (h : Abreast final installed first second)
    (diagnostics : List Diagnostic) :
    Recurs final installed may (printDiagnostics diagnostics) first second := by
  induction diagnostics generalizing first second with
  | nil => exact .pure h ()
  | cons diagnostic rest ih =>
    exact (h.recurs_printLine _).bind
      (fun _ => growsBy_of_onlyPrints (keeps_printDiagnostics rest) _)
      fun _ proceeds => ih proceeds.abreast

end Machine

end KotlinHarness
