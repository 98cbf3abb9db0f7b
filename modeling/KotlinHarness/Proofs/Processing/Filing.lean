/-
  What processors do to a run of annotation processing.

  A processor is any function of the round and the run, but it has one way to the filer: creating a
  source, as often as it likes, and whether or not that succeeds.  Everything else it does is a step
  on the side that leaves the filer alone.  `Steps other` are sequences of such steps, where `other`
  says what may be done on the side.

  Whatever processors do, the files created stand in the order of their creation, no two of them
  are the same, and what is pending is what was created since the last round (`Advances`).  They can
  all be read unless something is done to them on the side (`KeepsReadable`).
-/
import KotlinHarness.Processing.Rounds
import KotlinHarness.Proofs.Files.Growth

namespace KotlinHarness

/-! ## Creating a file -/

namespace Filer

variable {filer last : Filer} {language : Language} {name content : String} {path : Path}
  {cause : Failure} {env after : Environment}

/-- A place is given out when the name has one and none of the files created is there. -/
theorem newPlace_eq_ok_iff :
    filer.newPlace language name = .ok path ↔
      filer.place? language name = some path ∧ path.isAmong filer.created = false := by
  rw [newPlace]
  rcases filer.place? language name with - | place
  · simp
  · by_cases hamong : place.isAmong filer.created = true
    · simp only [if_pos hamong]
      constructor
      · intro h
        cases h
      · rintro ⟨h, hnew⟩
        cases h
        rw [hamong] at hnew
        cases hnew
    · simp only [if_neg hamong, Except.ok.injEq, Option.some.injEq]
      constructor
      · rintro rfl
        exact ⟨rfl, by simpa using hamong⟩
      · exact And.left

/-- Creating a file, read off its place. -/
theorem create_eq (filer : Filer) (language : Language) (name content : String)
    (env : Environment) :
    filer.create language name content env =
      match filer.newPlace language name with
      | .error cause => .error cause env
      | .ok path =>
        match Environment.deposit .always path content env with
        | .ok _ after => .ok (path, filer.noted path) after
        | .error cause after => .error cause after := by
  rw [create]
  rcases filer.newPlace language name with cause | path
  · rfl
  · simp only
    rw [bind_eq]
    rcases Environment.deposit .always path content env with ⟨_, after⟩ | ⟨cause, after⟩ <;> rfl

theorem create_ok (h : filer.create language name content env = .ok (path, last) after) :
    filer.newPlace language name = .ok path ∧ last = filer.noted path ∧
      Environment.Deposited path content env after := by
  rw [create_eq] at h
  rcases hplace : filer.newPlace language name with cause | place
  · rw [hplace] at h
    cases h
  · rw [hplace] at h
    simp only at h
    split at h
    · next hdeposit =>
      cases h
      exact ⟨rfl, rfl, Environment.deposit_ok hdeposit⟩
    · cases h

/-- A file that could not be created leaves directories at most. -/
theorem create_error (h : filer.create language name content env = .error cause after) :
    Environment.Grows (fun _ _ => False) env after := by
  rw [create_eq] at h
  split at h
  · cases h
    exact .refl env
  · split at h
    · cases h
    · next hdeposit =>
      cases h
      exact Environment.deposit_error hdeposit

end Filer

namespace Processing

variable {σ : Type}

/-! ## Steps of a processor -/

/-- One step of a processor. -/
inductive Step (other : Processing σ → Processing σ → Prop) (before : Processing σ) :
    Processing σ → Prop
  | create (language : Language) (name content : String) :
      Step other before (finalState (createSource language name content before))
  | aside {after : Processing σ} (h : other before after) : Step other before after

/-- What a processor does in one call. -/
inductive Steps (other : Processing σ → Processing σ → Prop) :
    Processing σ → Processing σ → Prop
  | refl (run : Processing σ) : Steps other run run
  | tail {first middle last : Processing σ} (earlier : Steps other first middle)
      (step : Step other middle last) : Steps other first last

theorem steps_composes (other : Processing σ → Processing σ → Prop) : Composes (Steps other) := by
  refine ⟨.refl, ?_⟩
  intro first second third h h'
  induction h' with
  | refl => exact h
  | tail _ step ih => exact .tail ih step

/-- A relation that every step keeps is kept by all steps together. -/
theorem Steps.lift {other R : Processing σ → Processing σ → Prop} (composes : Composes R)
    (step : ∀ {before after}, Step other before after → R before after)
    {first last : Processing σ} (h : Steps other first last) : R first last := by
  induction h with
  | refl => exact composes.refl first
  | tail _ last ih => exact composes.trans ih (step last)

/-- The processor works on the run in steps. -/
def WorksInSteps (other : Processing σ → Processing σ → Prop) (processor : Processor σ) : Prop :=
  ∀ round, Keeps (Steps other) (processor.process round)

/-! ## Creating a source -/

/-- What creating a source does to a run when it succeeds. -/
structure Created (path : Path) (content : String) (before after : Processing σ) : Prop where
  filer : after.filer = before.filer.noted path
  isNew : path.isAmong before.filer.created = false
  deposited : Environment.Deposited path content before.environment after.environment

theorem createSource_ok {language : Language} {name content : String} {path : Path}
    {before after : Processing σ} (h : createSource language name content before = .ok path after) :
    before.filer.newPlace language name = .ok path ∧ Created path content before after := by
  rw [createSource] at h
  split at h
  · next hcreate =>
    obtain ⟨hplace, hfiler, hdeposited⟩ := Filer.create_ok hcreate
    cases h
    exact ⟨hplace, hfiler, (Filer.newPlace_eq_ok_iff.1 hplace).2, hdeposited⟩
  · cases h

/-- A source that could not be created leaves directories at most. -/
theorem createSource_error {language : Language} {name content : String} {cause : Failure}
    {before after : Processing σ}
    (h : createSource language name content before = .error cause after) :
    after.filer = before.filer ∧
      Environment.Grows (fun _ _ => False) before.environment after.environment := by
  rw [createSource] at h
  split at h
  · cases h
  · next hcreate =>
    cases h
    exact ⟨rfl, Filer.create_error hcreate⟩

/-! ## The files created -/

/-- No two of the files created are the same. -/
def Distinct (run : Processing σ) : Prop :=
  run.filer.created.Pairwise fun first second => first.sameAs second = false

/-- What was created between two states of a run. -/
def createdSince (before after : Processing σ) : List Path :=
  after.filer.created.drop before.filer.created.length

/-- Files were created, and they are pending. -/
structure Files (new : List Path) (before after : Processing σ) : Prop where
  created : after.filer.created = before.filer.created ++ new
  pending : after.filer.pending = before.filer.pending ++ new

theorem Files.createdSince_eq {new : List Path} {before after : Processing σ}
    (h : Files new before after) : createdSince before after = new := by
  rw [createdSince, h.created, List.drop_left]

/-- Files were created that are different from each other and from those before. -/
def Advances (before after : Processing σ) : Prop :=
  before.Distinct → after.Distinct ∧ Files (createdSince before after) before after

theorem advances_of_files (new : List Path) {before after : Processing σ}
    (h : before.Distinct → after.Distinct ∧ Files new before after) : Advances before after := by
  intro distinct
  obtain ⟨hdistinct, hfiles⟩ := h distinct
  refine ⟨hdistinct, ?_⟩
  rw [hfiles.createdSince_eq]
  exact hfiles

theorem advances_composes : Composes (@Advances σ) := by
  constructor
  · intro run
    refine advances_of_files [] ?_
    intro distinct
    exact ⟨distinct, (List.append_nil _).symm, (List.append_nil _).symm⟩
  · intro first second third h h'
    refine advances_of_files (createdSince first second ++ createdSince second third) ?_
    intro distinct
    obtain ⟨hdistinct, hfiles⟩ := h distinct
    obtain ⟨hdistinct', hfiles'⟩ := h' hdistinct
    refine ⟨hdistinct', ?_, ?_⟩
    · rw [hfiles'.created, hfiles.created, List.append_assoc]
    · rw [hfiles'.pending, hfiles.pending, List.append_assoc]

/-- What a processor does on the side leaves the filer alone. -/
def LeavesFiler (before after : Processing σ) : Prop := after.filer = before.filer

theorem Created.advances {path : Path} {content : String} {before after : Processing σ}
    (h : Created path content before after) : Advances before after := by
  have hcreated : after.filer.created = before.filer.created ++ [path] := by
    rw [h.filer]
    rfl
  refine advances_of_files [path] ?_
  intro distinct
  refine ⟨?_, hcreated, ?_⟩
  · rw [Distinct, hcreated]
    refine List.pairwise_append.2 ⟨distinct, List.pairwise_singleton _ _, ?_⟩
    intro earlier hearlier new hnew
    rw [List.mem_singleton.1 hnew]
    have hisNew := h.isNew
    simp only [Path.isAmong, List.any_eq_false, Bool.not_eq_true] at hisNew
    exact hisNew earlier hearlier
  · rw [h.filer]
    rfl

theorem LeavesFiler.advances {before after : Processing σ} (h : LeavesFiler before after) :
    Advances before after := by
  refine advances_of_files [] ?_
  intro distinct
  have hfiler : after.filer = before.filer := h
  refine ⟨?_, ?_, ?_⟩
  · rw [Distinct, hfiler]
    exact distinct
  · rw [hfiler, List.append_nil]
  · rw [hfiler, List.append_nil]

/-- Every step of a processor advances the run. -/
theorem Step.advances {before after : Processing σ} (h : Step LeavesFiler before after) :
    Advances before after := by
  cases h with
  | create language name content =>
    rcases h : createSource language name content before with ⟨path, after⟩ | ⟨cause, after⟩
    · exact (createSource_ok h).2.advances
    · have hfiler : LeavesFiler before after := (createSource_error h).1
      exact hfiler.advances
  | aside h => exact h.advances

theorem Steps.advances {before after : Processing σ} (h : Steps LeavesFiler before after) :
    Advances before after :=
  h.lift advances_composes Step.advances

/-! ## Reading the files created -/

/-- All files created can be read. -/
def AllReadable (run : Processing σ) : Prop :=
  ∀ path ∈ run.filer.created, run.environment.Readable path

/-- Where all files created could be read, they can be read afterwards. -/
def KeepsReadable (before after : Processing σ) : Prop := before.AllReadable → after.AllReadable

theorem keepsReadable_composes : Composes (@KeepsReadable σ) := by
  constructor
  · intro run readable
    exact readable
  · intro first second third h h' readable
    exact h' (h readable)

/-- What a processor does on the side leaves the filer alone and what was created readable. -/
structure LeavesCreated (before after : Processing σ) : Prop where
  filer : LeavesFiler before after
  readable : ∀ path ∈ before.filer.created, before.environment.Readable path →
    after.environment.Readable path

theorem Created.keepsReadable {path : Path} {content : String} {before after : Processing σ}
    (h : Created path content before after) : KeepsReadable before after := by
  intro readable other hm
  have hcreated : after.filer.created = before.filer.created ++ [path] := by
    rw [h.filer]
    rfl
  rw [hcreated] at hm
  -- Writing one file leaves the others readable, whatever file it is.
  rcases List.mem_append.1 hm with hm | hm
  · exact h.deposited.readable (readable other hm)
  · rw [List.mem_singleton.1 hm]
    exact ⟨content, h.deposited.readText⟩

theorem LeavesCreated.keepsReadable {before after : Processing σ} (h : LeavesCreated before after) :
    KeepsReadable before after := by
  intro readable path hm
  have hfiler : after.filer = before.filer := h.filer
  rw [hfiler] at hm
  exact h.readable path hm (readable path hm)

theorem Step.keepsReadable {before after : Processing σ} (h : Step LeavesCreated before after) :
    KeepsReadable before after := by
  cases h with
  | create language name content =>
    rcases h : createSource language name content before with ⟨path, after⟩ | ⟨cause, after⟩
    · exact (createSource_ok h).2.keepsReadable
    · obtain ⟨hfiler, hgrows⟩ := createSource_error h
      have aside : LeavesCreated before after :=
        ⟨hfiler, fun _ _ hreadable => hgrows.readable (fun _ _ h => h.elim) hreadable⟩
      exact aside.keepsReadable
  | aside h => exact h.keepsReadable

theorem Steps.keepsReadable {before after : Processing σ} (h : Steps LeavesCreated before after) :
    KeepsReadable before after :=
  h.lift keepsReadable_composes Step.keepsReadable

end Processing

end KotlinHarness
