/-
  The class files that rehearsed compilers leave behind.

  A call that ends well has written a class file for every type in every source that it compiled
  (`Compiled`).  What comes later may write class files of the same version, also to the same places, and
  it may create files; as long as no other file is changed (`Spares`), the sources hold what they held
  and the class files are there.

    * `Compiled.later`          this stays so
    * `compiled_of_writeClasses`, `compiled_of_exec`, `compiled_of_service`
                                it is so once a compiler ended well
-/
import KotlinHarness.Proofs.Processing.Indifferent
import KotlinHarness.Proofs.Rehearsal.Frontend
import KotlinHarness.Proofs.Rehearsal.JavaService

namespace KotlinHarness

/-! ## Files that are spared -/

namespace Environment

variable {may : Location → FileData → Prop} {old middle new : Environment} {p : Path}
  {location : Location} {data : FileData}

/-- Files of a kind may be written and any may be created, but no other file that was there is
    changed. -/
def Spares (may : Location → FileData → Prop) (old new : Environment) : Prop :=
  Grows (fun location data => may location data ∨ old.look location = none) old new

theorem Grows.spares (h : Grows may old new) : Spares may old new :=
  h.mono fun _ _ => .inl

theorem spares_composes : Composes (Spares may) := by
  constructor
  · intro env
    exact Grows.refl env
  · intro old middle new h h'
    refine ⟨h'.workingDirectory.trans h.workingDirectory, ?_, ?_, ?_⟩
    · intro location hold
      exact h'.directories (h.directories hold)
    · intro location data hold
      obtain ⟨_, hmiddle⟩ := h.files hold
      exact h'.files hmiddle
    · intro location data hnew
      rcases h'.changed hnew with hmiddle | hmay | hfree
      · exact h.changed hmiddle
      · exact .inr (.inl hmay)
      · -- What was not there in between was not there before.
        exact .inr (.inr (not_imp_not.1 h.present hfree))

/-- A file is still found by its path, be it written anew. -/
theorem Spares.locate (h : Spares may old new) (hold : old.locate p = .ok (location, .file data)) :
    ∃ data', new.locate p = .ok (location, .file data') ∧ (data' = data ∨ may location data') := by
  obtain ⟨hleads, hlook⟩ := locate_file_iff.1 hold
  obtain ⟨data', hnew⟩ := h.files hlook
  refine ⟨data', locate_file_iff.2 ⟨h.leadsTo hleads, hnew⟩, ?_⟩
  rcases h.changed hnew with hsame | hmay | hfree
  · rw [hlook] at hsame
    cases hsame
    exact .inl rfl
  · exact .inr hmay
  · rw [hlook] at hfree
    cases hfree

end Environment

namespace Rehearsal

open Environment Machine

variable {σ : Type} {env old new after : Environment} {destination source : Path} {element : Element}
  {sources : List Path} {args : FrontendArguments}

/-! ## Sources with class files -/

/-- A file that is no class file. -/
def IsPlain (env : Environment) (source : Path) : Prop :=
  ∃ location data, env.locate source = .ok (location, .file data) ∧ ¬ IsClassFile location

/-- A source can be read, and there is a class file for every type in it. -/
structure Compiled (env : Environment) (destination source : Path) : Prop where
  plain : IsPlain env source
  classes : ∃ content, env.readText source = .ok content ∧
    ∀ element ∈ typesOf source content,
      env.read (elementPath destination element "class") = .ok (ClassFile.header writtenMajor)

theorem IsPlain.later (h : IsPlain old source) (spares : Spares IsWritten old new) :
    IsPlain new source ∧ new.readText source = old.readText source := by
  obtain ⟨location, data, hold, hplain⟩ := h
  obtain ⟨data', hnew, rfl | hwritten⟩ := spares.locate hold
  · exact ⟨⟨location, data', hnew, hplain⟩, by simp only [readText, Environment.read, hold, hnew]⟩
  · exact absurd hwritten.1 hplain

/-- A class file that was written may be written over, but with the same octets. -/
theorem read_later {p : Path} (h : old.read p = .ok (ClassFile.header writtenMajor))
    (spares : Spares IsWritten old new) : new.read p = .ok (ClassFile.header writtenMajor) := by
  rw [Environment.read] at h
  split at h
  · next location data hold =>
    obtain ⟨data', hnew, rfl | hwritten⟩ := spares.locate hold
    · rw [Environment.read, hnew]
      exact h
    · rw [Environment.read, hnew]
      exact congrArg Except.ok hwritten.2
  · cases h
  · cases h

theorem Compiled.later (h : Compiled old destination source) (spares : Spares IsWritten old new) :
    Compiled new destination source := by
  obtain ⟨hplain, content, hread, hclasses⟩ := h
  obtain ⟨hplain', hsame⟩ := hplain.later spares
  exact ⟨hplain', content, hsame.trans hread, fun element hm => read_later (hclasses element hm) spares⟩

/-! ## Writing -/

/-- Where each item is done with once it had its turn, and stays so, all are in the end. -/
theorem forEach_ok {α : Type} {R : Environment → Environment → Prop} {P : α → Environment → Prop}
    {action : α → EnvironmentAction Unit} {items : List α} (composes : Composes R)
    (keeps : ∀ item ∈ items, Keeps R (action item))
    (stable : ∀ item {old new}, R old new → P item old → P item new)
    (each : ∀ item ∈ items, ∀ {middle next}, R env middle → action item middle = .ok () next →
      P item next)
    (h : forEach action items env = .ok () after) : ∀ item ∈ items, P item after := by
  induction items generalizing env with
  | nil => exact fun _ hm => absurd hm List.not_mem_nil
  | cons item rest ih =>
    obtain ⟨_, middle, hfirst, hrest⟩ := of_bind_ok h
    have hmiddle : R env middle := (keeps item List.mem_cons_self).of_ok hfirst
    have keeps' : ∀ other ∈ rest, Keeps R (action other) :=
      fun other hm => keeps other (List.mem_cons_of_mem _ hm)
    refine List.forall_mem_cons.2 ⟨?_, ?_⟩
    · exact stable item ((keeps_forEach composes keeps').of_ok hrest)
        (each item List.mem_cons_self (composes.refl env) hfirst)
    · exact ih keeps' (fun other hm _ _ hnext =>
        each other (List.mem_cons_of_mem _ hm) (composes.trans hmiddle hnext)) hrest

theorem read_of_writeClass (h : writeClass destination element env = .ok () after) :
    after.read (elementPath destination element "class") = .ok (ClassFile.header writtenMajor) := by
  rw [writeClass_eq] at h
  obtain ⟨_, middle, -, h⟩ := of_bind_ok h
  rw [plainly_eq] at h
  split at h
  · next hwritten =>
    cases h
    exact (write_ok hwritten).read
  · cases h

theorem spares_writeClass (named : element.IsNamed) :
    Keeps (Spares IsWritten) (writeClass destination element) :=
  fun env => (writes_writeClass named env).spares

/-- Writing the class files of sources leaves them there. -/
theorem compiled_of_writeClasses (plain : ∀ source ∈ sources, IsPlain env source)
    (h : writeClasses destination sources env = .ok () after) :
    ∀ source ∈ sources, Compiled after destination source := by
  rw [writeClasses_eq] at h
  have types : ∀ (source : Path) (content : String), ∀ element ∈ typesOf source content,
      Keeps (Spares IsWritten) (writeClass destination element) :=
    fun source content element hm => spares_writeClass (isNamed_of_mem_typesOf hm)
  refine forEach_ok (P := fun source env => Compiled env destination source) spares_composes
    (fun source _ => ?_) (fun source _ _ spares compiled => compiled.later spares)
    (fun source hm middle next hmiddle hone => ?_) h
  · refine spares_composes.keeps_bind (fun env => ?_) fun content =>
      keeps_forEach spares_composes (types source content)
    rw [readSource_state]
    exact spares_composes.refl env
  · obtain ⟨content, read, hread, hwrite⟩ := of_bind_ok hone
    have hplain := ((plain source hm).later hmiddle).1
    rw [readSource] at hread
    split at hread
    · next hcontent =>
      cases hread
      obtain ⟨hplain', hsame⟩ :=
        hplain.later ((keeps_forEach spares_composes (types source content)).of_ok hwrite)
      refine ⟨hplain', content, hsame.trans hcontent, ?_⟩
      exact forEach_ok (P := fun element env => env.read (elementPath destination element "class") =
          .ok (ClassFile.header writtenMajor)) spares_composes (types source content)
        (fun element _ _ spares hread => read_later hread spares)
        (fun element _ _ _ _ hone => read_of_writeClass hone) hwrite
    · cases hread

/-! ## Calls -/

/-- The same calls of tools are on record. -/
def SameCalls (before after : Machine σ) : Prop := after.calls = before.calls

theorem indifferent_sameCalls : Indifferent (@SameCalls σ) where
  refl _ := rfl
  trans h h' := h'.trans h
  changes _ _ _ _ := rfl

/-- Nothing that a call of the front end does is a call of a tool itself. -/
theorem sameCalls_answer (args : FrontendArguments) : Keeps (@SameCalls σ) (answer args) := by
  have hbraces : ∀ sources, Keeps (@SameCalls σ) (checkBraces sources) := by
    intro sources
    induction sources with
    | nil => exact indifferent_sameCalls.keeps_pure _
    | cons source rest ih =>
      refine indifferent_sameCalls.keeps_bind (indifferent_sameCalls.keeps_onEnvironment _) fun content => ?_
      split
      · exact ih
      · exact indifferent_sameCalls.keeps_bind (indifferent_sameCalls.keeps_printLine _) fun _ =>
          indifferent_sameCalls.keeps_bind ih fun _ => indifferent_sameCalls.keeps_pure _
  refine indifferent_sameCalls.keeps_bind (hbraces args.sources) fun balanced => ?_
  split
  · rw [carryOut]
    cases args.mode with
    | compile =>
      exact indifferent_sameCalls.keeps_bind (indifferent_sameCalls.keeps_onEnvironment _) fun _ =>
        indifferent_sameCalls.keeps_pure _
    | stubs =>
      exact indifferent_sameCalls.keeps_bind (indifferent_sameCalls.keeps_onEnvironment _) fun _ =>
        indifferent_sameCalls.keeps_runAll args
  · exact indifferent_sameCalls.keeps_pure _

/-- A call of the front end is noted, and that is all. -/
theorem calls_of_exec (args : FrontendArguments) (machine : Machine σ) :
    (finalState (frontend.exec args machine)).calls = machine.calls ++ [.frontend args] := by
  rw [exec_eq]
  exact sameCalls_answer args _

/-- Compiling Kotlin leaves a class file for every type, and writes nothing else. -/
theorem compiled_of_exec {machine last : Machine σ} (hmode : args.mode = .compile)
    (plain : ∀ source ∈ args.sources, machine.environment.Readable source →
      IsPlain machine.environment source)
    (h : frontend.exec args machine = .ok .ok last) :
    Grows IsWritten machine.environment last.environment ∧
      ∀ source ∈ args.sources, Compiled last.environment args.destination source := by
  rw [exec_eq, answer] at h
  obtain ⟨balanced, middle, hbraces, h⟩ := of_bind_ok h
  have readable := readable_of_checkBraces hbraces
  have hsame := ((keeps_checkBraces args.sources).of_ok hbraces).environment
  split at h
  · rw [carryOut, hmode] at h
    obtain ⟨_, written, hwritten, hdone⟩ := of_bind_ok h
    cases hdone
    obtain ⟨env, henv, rfl⟩ := onEnvironment_eq_ok.1 hwritten
    rw [hsame] at henv
    exact ⟨(writes_writeClasses args.destination args.sources).of_ok henv,
      compiled_of_writeClasses (fun source hm => plain source hm (readable source hm)) henv⟩
  · cases h

theorem calls_of_compileJava (args : List String) (machine : Machine σ) :
    (compileJava args machine).2.calls = machine.calls := by
  rw [compileJava]
  split
  · rfl
  · simp only
    split
    · rfl
    · split
      · rfl
      · rw [writeAnswer]
        split <;> rfl

/-- The service, when it tells that all went well, has left a class file for every type. -/
theorem compiled_of_compileJava {args : List String} {machine last : Machine σ} {answer : ServiceAnswer}
    {destination : Path} (hdestination : flagValue? "-d" args = some destination.text)
    (h : compileJava args machine = (answer, last)) (fine : answer.outcome = .ok true) :
    Grows IsWritten machine.environment last.environment ∧
      ∀ source ∈ sourcesAmong args, Compiled last.environment destination source := by
  rw [compileJava, hdestination] at h
  simp only at h
  rcases hcheck : check machine.environment (classpathAmong args) (sourcesAmong args) with
    ⟨- | cause, found⟩
  · simp only [hcheck] at h
    split at h
    · cases h
      cases fine
    · rw [writeAnswer] at h
      split at h
      · next hwritten =>
        cases h
        refine ⟨(writes_writeClasses _ _).of_ok hwritten, compiled_of_writeClasses (fun source hm => ?_) hwritten⟩
        obtain ⟨location, data, _, hlocate, -⟩ := readable_iff.1 (readable_of_check hcheck source hm)
        exact ⟨location, data, hlocate, not_isClassFile_of_mem_sourcesAmong hm hlocate⟩
      · cases h
        cases fine
  · simp only [hcheck] at h
    cases h
    cases fine

/-- An exit code is only as good as the outcome. -/
theorem exitCodeOf_ok {outcome : Except ServiceError Bool} {machine last : Machine σ}
    (h : JavaStrategy.exitCodeOf outcome machine = .ok .ok last) :
    outcome = .ok true ∧ last = machine := by
  match outcome with
  | .ok true =>
    cases h
    exact ⟨rfl, rfl⟩
  | .ok false => cases h
  | .error error =>
    rw [JavaStrategy.exitCodeOf] at h
    split at h
    · obtain ⟨_, printed, -, hcode⟩ := of_bind_ok h
      cases hcode
    · cases h

/-- Compiling Java leaves a class file for every type, whatever the first call of the service is made to
    fail with. -/
theorem compiled_of_embedded {failure : Option ServiceError} {isModular : Bool} {resolution : Resolution}
    {machine last : Machine σ}
    (h : (JavaStrategy.embedded (javaService failure) isModular).compile resolution sources machine =
      .ok .ok last) :
    last.calls = machine.calls ++
        [.service (JavaStrategy.embeddedArguments isModular resolution sources)] ∧
      Grows IsWritten machine.environment last.environment ∧
      ∀ source ∈ sourcesAmong (JavaStrategy.embeddedArguments isModular resolution sources),
        Compiled last.environment resolution.classesDir source := by
  have hdestination := destination_of_embeddedArguments isModular resolution sources
  simp only [JavaStrategy.embedded] at h
  generalize JavaStrategy.embeddedArguments isModular resolution sources = args at h hdestination ⊢
  obtain ⟨answer, middle, hanswer, h⟩ := of_bind_ok h
  obtain ⟨_, printed, hprint, hcode⟩ := of_bind_ok h
  obtain ⟨fine, rfl⟩ := exitCodeOf_ok hcode
  have hkept := (keeps_printDiagnostics answer.diagnostics.all).of_ok hprint
  have hcalls : last.calls = middle.calls :=
    (indifferent_sameCalls.keeps_printDiagnostics answer.diagnostics.all).of_ok hprint
  -- A call that was made to fail does not end well.
  have hcall : compileJava args { machine with calls := machine.calls ++ [.service args] } =
      (answer, middle) := by
    rw [callService_eq, javaService] at hanswer
    rcases failure with - | error
    · cases hanswer
      rfl
    · rcases hfirst : wasCalled machine with - | -
      · simp only [hfirst] at hanswer
        cases hanswer
        cases fine
      · simp only [hfirst] at hanswer
        cases hanswer
        rfl
  obtain ⟨grows, compiled⟩ := compiled_of_compileJava hdestination hcall fine
  have hnoted := calls_of_compileJava args { machine with calls := machine.calls ++ [.service args] }
  rw [hcall] at hnoted
  rw [hkept.environment]
  exact ⟨hcalls.trans hnoted, grows, compiled⟩

end Rehearsal

end KotlinHarness
