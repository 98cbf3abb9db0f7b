/-
  What the filer keeps of the calls that are made to it.

  A run is seen as a sequence of calls that ask for files (`Calls`), with names that have no slash
  in them; whatever else happens in between is no matter, as long as it keeps its hands off the
  files created.  Each call is logged with the run it was made in, so that its answer can be looked
  up.

  The list of files created is then the list of the calls that succeeded, a call is a recreation
  when one before it succeeded for the same type, calls that fail change nothing but directories,
  and the files hold what they were created with (`Logged`).  One call adds to a log of this kind
  (`Logged.call`), so every sequence of calls has one (`calls_logged`), also when the calls are made
  by processors round after round (`rounds_logged`).

  Behind this is that types of different names or languages never share a file: neither a path
  (`type_of_sameAs`) nor the place that a path leads to (`type_of_leadsTo`).
-/
import KotlinHarness.Proofs.Processing.Confined
import KotlinHarness.Proofs.Processing.Creation

namespace KotlinHarness

/-! ## One file for each type -/

namespace Filer

/-- Only the directories tell where files go. -/
theorem place?_congr {filer filer' : Filer} (h : filer'.directory = filer.directory) :
    filer'.place? = filer.place? := by
  funext language name
  rw [place?, place?, h]

variable {filer : Filer} {language other : Language} {name name' stem stem' : String}
  {before before' parts : List String} {path path' : Path}

theorem name_of_parts (h : nameParts? name = some parts) :
    name.toList = Text.joinWith ['.'] (parts.map String.toList) := by
  simp only [nameParts?] at h
  split at h
  · cases h
  · cases h
    simp [List.map_map, Function.comp_def, Text.joinWith_splitOn]

/-- The name of a file tells the language, and the last part of the type's name. -/
theorem eq_of_file (nonempty : stem ≠ "") (nonempty' : stem' ≠ "")
    (h : stem ++ "." ++ language.extension = stem' ++ "." ++ other.extension) :
    language = other ∧ stem = stem' := by
  have hcut := Path.splitName_append nonempty language.dot_not_mem_extension
  rw [h, Path.splitName_append nonempty' other.dot_not_mem_extension, Prod.mk.injEq,
    Option.some.injEq] at hcut
  have hlanguage := Language.ofExtension?_extension language
  rw [← hcut.2, Language.ofExtension?_extension, Option.some.injEq] at hlanguage
  exact ⟨hlanguage.symm, hcut.1.symm⟩

/-- What ends in the names of two files, and starts alike for one language, is of one type. -/
theorem Below.eq_of_ends {α : Type} {f : String → α} (injective : Function.Injective f)
    {front front' : List α} (hfile : filer.Below language path before stem)
    (hfile' : filer.Below other path' before' stem') (hfront : language = other → front = front')
    (h : front ++ (before ++ [stem ++ "." ++ language.extension]).map f =
      front' ++ (before' ++ [stem' ++ "." ++ other.extension]).map f) :
    language = other ∧ before ++ [stem] = before' ++ [stem'] := by
  rw [List.map_append, List.map_append, ← List.append_assoc, ← List.append_assoc] at h
  obtain ⟨hbefore, hlast⟩ := List.append_inj' h rfl
  simp only [List.map_cons, List.map_nil, List.cons.injEq, and_true] at hlast
  obtain ⟨rfl, rfl⟩ := eq_of_file hfile.nonempty hfile'.nonempty (injective hlast)
  obtain rfl := hfront rfl
  have hbefore := List.map_injective_iff.2 injective (List.append_cancel_left hbefore)
  exact ⟨rfl, by rw [hbefore]⟩

/-- Two types with the same path are one. -/
theorem type_of_sameAs (hname : Path.IsSegment name) (hname' : Path.IsSegment name')
    (h : filer.place? language name = some path) (h' : filer.place? other name' = some path')
    (same : path.sameAs path' = true) : language = other ∧ name = name' := by
  obtain ⟨before, stem, hparts, hfile⟩ := below_of_place hname h
  obtain ⟨before', stem', hparts', hfile'⟩ := below_of_place hname' h'
  rw [Path.sameAs, beq_iff_eq, hfile.path_eq, hfile'.path_eq, Path.components_extend hfile.names,
    Path.components_extend hfile'.names] at same
  have injective : Function.Injective Component.normal := fun _ _ heq => Component.normal.inj heq
  obtain ⟨rfl, hsame⟩ := hfile.eq_of_ends injective hfile' (fun heq => by rw [heq]) same
  rw [← hsame] at hparts'
  exact ⟨rfl, String.toList_inj.1 ((name_of_parts hparts).trans (name_of_parts hparts').symm)⟩

/-- Two types whose paths lead to one place are one. -/
theorem type_of_leadsTo {env : Environment} {location : Location} (hname : Path.IsSegment name)
    (hname' : Path.IsSegment name') (h : filer.place? language name = some path)
    (h' : filer.place? other name' = some path') (leads : env.LeadsTo path location)
    (leads' : env.LeadsTo path' location) : language = other ∧ name = name' := by
  obtain ⟨before, stem, hparts, hfile⟩ := below_of_place hname h
  obtain ⟨before', stem', hparts', hfile'⟩ := below_of_place hname' h'
  rw [hfile.path_eq] at leads
  rw [hfile'.path_eq] at leads'
  obtain ⟨here, hhere, rfl⟩ := Environment.location_of_extend (by simp) hfile.names leads
  obtain ⟨there, hthere, hlocation⟩ := Environment.location_of_extend (by simp) hfile'.names leads'
  -- The directory of a language leads to one place only.
  have hfront : language = other → here = there := by
    rintro rfl
    exact hhere.unique hthere
  have hends := hfile.eq_of_ends (f := id) Function.injective_id hfile' hfront
    (by rw [List.map_id, List.map_id]; exact hlocation)
  obtain ⟨rfl, hsame⟩ := hends
  rw [← hsame] at hparts'
  exact ⟨rfl, String.toList_inj.1 ((name_of_parts hparts).trans (name_of_parts hparts').symm)⟩

end Filer

/-! ## What a file holds -/

namespace Environment

variable {env old new : Environment} {p path : Path} {bytes : Bytes}

theorem read_iff : env.read p = .ok bytes ↔
    ∃ location data, env.LeadsTo p location ∧ env.look location = some (.file data) ∧
      data.bytes = bytes := by
  constructor
  · intro h
    rw [read] at h
    split at h
    · next location data hlocate =>
      cases h
      obtain ⟨hleads, hlook⟩ := locate_file_iff.1 hlocate
      exact ⟨location, data, hleads, hlook, rfl⟩
    · cases h
    · cases h
  · rintro ⟨location, data, hleads, hlook, rfl⟩
    rw [read, locate_file_iff.2 ⟨hleads, hlook⟩]

/-- A file that is none of those written holds what it held. -/
theorem Grows.read {may : Location → FileData → Prop} (h : Grows may old new)
    (hread : old.read p = .ok bytes)
    (apart : ∀ location data, may location data → ¬ new.LeadsTo p location) :
    new.read p = .ok bytes := by
  obtain ⟨location, data, hleads, hlook, rfl⟩ := read_iff.1 hread
  have hnew := h.leadsTo hleads
  exact read_iff.2
    ⟨location, data, hnew, h.kept (fun data' hmay => apart location data' hmay hnew) hlook, rfl⟩

/-- A text that could not be written was refused by the file system. -/
theorem deposit_error_during {overwrite : Overwrite} {content : String} {cause : Failure}
    (h : deposit overwrite path content old = .error cause new) :
    ∃ undertaking fault, cause = .during undertaking (.io fault) := by
  have hduring : ∀ {α : Type} {undertaking : Undertaking} {action : FileAction α}
      {env after : Environment}, action.during undertaking env = .error cause after →
      ∃ undertaking fault, cause = .during undertaking (.io fault) := by
    intro α undertaking action env after h
    rw [FileAction.during] at h
    split at h
    · cases h
    · cases h
      exact ⟨_, _, rfl⟩
  rw [deposit] at h
  split at h
  · cases h
  · rcases of_bind_error h with hwrite | ⟨_, _, -, hdone⟩
    · rw [writeText] at hwrite
      rcases hparent : path.parent? with - | parent <;> rw [hparent] at hwrite
      · exact hduring hwrite
      · rcases of_bind_error hwrite with habove | ⟨_, _, -, hlast⟩
        · exact hduring habove
        · exact hduring hlast
    · cases hdone

end Environment

namespace Processing

open Environment

variable {σ : Type}

/-! ## Calls and their answers -/

/-- A call that asks for a file, and the run it is made in. -/
structure Call (σ : Type) where
  language : Language
  name : String
  content : String
  before : Processing σ

namespace Call

variable {call : Call σ} {path : Path}

/-- What comes of the call. -/
def result (call : Call σ) : EStateM.Result Failure (Processing σ) Path :=
  createSource call.language call.name call.content call.before

/-- The run after the call. -/
def after (call : Call σ) : Processing σ := finalState call.result

/-- The file that was created, if the call succeeded. -/
def path? (call : Call σ) : Option Path :=
  match call.result with
  | .ok path _ => some path
  | .error _ _ => none

/-- The call fails because there is such a file already. -/
def IsRecreation (call : Call σ) : Prop :=
  ∃ path after, call.result = .error (.recreation path) after

/-- The place the call asks for. -/
def place? (call : Call σ) : Option Path := call.before.filer.place? call.language call.name

theorem of_path? (h : call.path? = some path) :
    call.place? = some path ∧ Created path call.content call.before call.after := by
  rw [path?, result] at h
  split at h
  · next hcreate =>
    cases h
    obtain ⟨hplace, hcreated⟩ := createSource_ok hcreate
    refine ⟨(Filer.newPlace_eq_ok_iff.1 hplace).1, ?_⟩
    rw [after, result, hcreate]
    exact hcreated
  · cases h

theorem of_path?_none (h : call.path? = none) :
    call.after.filer = call.before.filer ∧
      Grows (fun _ _ => False) call.before.environment call.after.environment := by
  rw [path?, result] at h
  split at h
  · cases h
  · next hcreate =>
    rw [after, result, hcreate]
    exact createSource_error hcreate

/-- No call changes where files go. -/
theorem directory_after (call : Call σ) :
    call.after.filer.directory = call.before.filer.directory := by
  rcases hpath : call.path? with - | path
  · rw [(of_path?_none hpath).1]
  · rw [(of_path? hpath).2.filer]
    funext language
    cases language <;> rfl

theorem created_after (call : Call σ) :
    call.after.filer.created = call.before.filer.created ++ call.path?.toList := by
  rcases hpath : call.path? with - | path
  · rw [(of_path?_none hpath).1, Option.toList_none, List.append_nil]
  · rw [(of_path? hpath).2.filer]
    rfl

theorem isRecreation_iff :
    call.IsRecreation ↔
      ∃ path, call.place? = some path ∧ path.isAmong call.before.filer.created = true := by
  rw [IsRecreation, result, createSource, Filer.create_eq, Filer.newPlace, place?]
  rcases call.before.filer.place? call.language call.name with - | path
  · simp
  · by_cases hamong : path.isAmong call.before.filer.created = true
    · simp [hamong]
    · have hnew : path.isAmong call.before.filer.created = false := by simpa using hamong
      simp only [hnew, Bool.false_eq_true, if_false]
      constructor
      · -- A file that is not there yet can only be refused by the file system.
        rintro ⟨other, stop, h⟩
        rcases hdeposit : deposit .always path call.content call.before.environment with
          ⟨done, after⟩ | ⟨cause, after⟩ <;> rw [hdeposit] at h
        · cases h
        · cases h
          obtain ⟨undertaking, fault, hcause⟩ := deposit_error_during hdeposit
          cases hcause
      · rintro ⟨other, hother, hold⟩
        cases hother
        rw [hnew] at hold
        cases hold

end Call

/-- Whatever happens besides calls: the files created are left alone. -/
structure LeavesFiles (before after : Processing σ) : Prop where
  directory : after.filer.directory = before.filer.directory
  created : after.filer.created = before.filer.created
  grows : Grows (fun location _ => ∀ path ∈ before.filer.created,
    ¬ after.environment.LeadsTo path location) before.environment after.environment

/-- A run in which calls are made, for types whose names have no slash. -/
inductive Calls : Processing σ → List (Call σ) → Processing σ → Prop
  | none (run : Processing σ) : Calls run [] run
  | call {first : Processing σ} {calls : List (Call σ)} {next : Call σ}
      (plain : Path.IsSegment next.name) (earlier : Calls first calls next.before) :
      Calls first (calls ++ [next]) next.after
  | aside {first middle last : Processing σ} {calls : List (Call σ)}
      (earlier : Calls first calls middle) (others : LeavesFiles middle last) :
      Calls first calls last

/-! ## The log -/

/-- What is known of a run by the calls that were made in it. -/
structure Logged (calls : List (Call σ)) (run : Processing σ) : Prop where
  /-- The files created are those of the calls that succeeded, in their order. -/
  created : run.filer.created = calls.filterMap Call.path?
  distinct : run.Distinct
  /-- Each stands at the place of its type. -/
  placed : ∀ call ∈ calls, Path.IsSegment call.name ∧
    ∀ path, call.path? = some path → run.filer.place? call.language call.name = some path
  /-- A call is a recreation when one before it has created the file of the same type. -/
  recreation : ∀ before call after, calls = before ++ call :: after →
    (call.IsRecreation ↔ ∃ earlier ∈ before,
      earlier.language = call.language ∧ earlier.name = call.name ∧ earlier.path?.isSome)
  /-- A call that fails, for whatever reason, leaves the filer as it was. -/
  unchanged : ∀ call ∈ calls, call.path? = none → call.after.filer = call.before.filer
  /-- The files hold what they were created with. -/
  kept : ∀ call ∈ calls, ∀ path, call.path? = some path →
    run.environment.read path = .ok (Text.encode call.content)

namespace Logged

variable {calls : List (Call σ)} {call : Call σ} {before after : Processing σ} {path : Path}

theorem of_start (registration : Registration σ) (env : Environment) (client : σ) :
    Logged [] (start registration env client) where
  created := rfl
  distinct := List.Pairwise.nil
  placed := fun _ hm => absurd hm List.not_mem_nil
  recreation := by
    intro before call after h
    cases before <;> cases h
  unchanged := fun _ hm => absurd hm List.not_mem_nil
  kept := fun _ hm => absurd hm List.not_mem_nil

theorem mem_created (h : Logged calls before) (hm : call ∈ calls) (hpath : call.path? = some path) :
    path ∈ before.filer.created := by
  rw [h.created]
  exact List.mem_filterMap.2 ⟨call, hm, hpath⟩

/-- What else happens in a run adds nothing to the log. -/
theorem aside (h : Logged calls before) (others : LeavesFiles before after) :
    Logged calls after where
  created := others.created.trans h.created
  distinct := by
    rw [Distinct, others.created]
    exact h.distinct
  placed := by
    intro call hm
    rw [Filer.place?_congr others.directory]
    exact h.placed call hm
  recreation := h.recreation
  unchanged := h.unchanged
  kept := by
    intro call hm path hpath
    refine others.grows.read (h.kept call hm path hpath) ?_
    intro location _ hmay
    exact hmay path (h.mem_created hm hpath)

/-- Whether the next call is a recreation can be told from the log. -/
theorem isRecreation_next (h : Logged calls call.before) (plain : Path.IsSegment call.name) :
    call.IsRecreation ↔ ∃ earlier ∈ calls,
      earlier.language = call.language ∧ earlier.name = call.name ∧ earlier.path?.isSome := by
  rw [Call.isRecreation_iff]
  constructor
  · rintro ⟨path, hplace, hamong⟩
    obtain ⟨other, hother, same⟩ := List.any_eq_true.1 hamong
    rw [h.created] at hother
    obtain ⟨earlier, hm, hpath⟩ := List.mem_filterMap.1 hother
    obtain ⟨hname, hplaced⟩ := h.placed earlier hm
    obtain ⟨hlanguage, hname⟩ :=
      Filer.type_of_sameAs hname plain (hplaced other hpath) hplace same
    exact ⟨earlier, hm, hlanguage, hname, by rw [hpath]; rfl⟩
  · rintro ⟨earlier, hm, hlanguage, hname, hsome⟩
    obtain ⟨path, hpath⟩ := Option.isSome_iff_exists.1 hsome
    have hplaced := (h.placed earlier hm).2 path hpath
    rw [hlanguage, hname] at hplaced
    exact ⟨path, hplaced, Path.isAmong_of_mem (h.mem_created hm hpath)⟩

/-- A file that is created is none of those before, and does not lie where one of them lies. -/
theorem apart (h : Logged calls call.before) (plain : Path.IsSegment call.name)
    (hpath : call.path? = some path) {earlier : Call σ} (hm : earlier ∈ calls) {other : Path}
    (hother : earlier.path? = some other) {env : Environment} {location : Location}
    (leads : env.LeadsTo path location) : ¬ env.LeadsTo other location := by
  intro leads'
  obtain ⟨hplace, hcreated⟩ := Call.of_path? hpath
  obtain ⟨hname, hplaced⟩ := h.placed earlier hm
  have hplaced := hplaced other hother
  obtain ⟨hlanguage, hsame⟩ := Filer.type_of_leadsTo plain hname hplace hplaced leads leads'
  rw [← hlanguage, ← hsame, show call.before.filer.place? call.language call.name = _ from hplace,
    Option.some.injEq] at hplaced
  have hold := Path.isAmong_of_mem (h.mem_created hm hother)
  rw [← hplaced, hcreated.isNew] at hold
  cases hold

/-- Which calls are recreations can be told from the log that has the next call in it. -/
theorem recreation_made (h : Logged calls call.before) (plain : Path.IsSegment call.name)
    {before after : List (Call σ)} {other : Call σ}
    (hsplit : calls ++ [call] = before ++ other :: after) :
    other.IsRecreation ↔ ∃ earlier ∈ before,
      earlier.language = other.language ∧ earlier.name = other.name ∧ earlier.path?.isSome := by
  rcases List.eq_nil_or_concat after with rfl | ⟨front, last, rfl⟩
  · obtain ⟨rfl, hlast⟩ := List.append_inj' hsplit rfl
    cases hlast
    exact h.isRecreation_next plain
  · rw [List.concat_eq_append, ← List.cons_append, ← List.append_assoc] at hsplit
    obtain ⟨hcalls, -⟩ := List.append_inj' hsplit rfl
    exact h.recreation before other front hcalls

/-- The next call, whatever comes of it, leaves the files alone that were created before it. -/
theorem kept_made (h : Logged calls call.before) (plain : Path.IsSegment call.name)
    {earlier : Call σ} (hm : earlier ∈ calls) (hpath : earlier.path? = some path) :
    call.after.environment.read path = .ok (Text.encode earlier.content) := by
  have hheld := h.kept earlier hm path hpath
  rcases hnext : call.path? with - | next
  · exact (Call.of_path?_none hnext).2.read hheld fun _ _ hmay => hmay.elim
  · exact (Call.of_path? hnext).2.deposited.grows.read hheld
      fun location _ hmay => h.apart plain hnext hm hpath hmay.1

/-- A call that is made adds itself to the log. -/
theorem call_made (h : Logged calls call.before) (plain : Path.IsSegment call.name) :
    Logged (calls ++ [call]) call.after where
  created := by
    rw [call.created_after, h.created, List.filterMap_append]
    rcases hpath : call.path? with - | path <;> simp [hpath]
  distinct := by
    rcases hpath : call.path? with - | path
    · rw [Distinct, (Call.of_path?_none hpath).1]
      exact h.distinct
    · exact ((Call.of_path? hpath).2.advances h.distinct).1
  placed := by
    intro other hm
    rw [Filer.place?_congr call.directory_after]
    rcases List.mem_append.1 hm with hm | hm
    · exact h.placed other hm
    · rw [List.mem_singleton.1 hm]
      exact ⟨plain, fun path hpath => (Call.of_path? hpath).1⟩
  recreation := fun _ _ _ hsplit => h.recreation_made plain hsplit
  unchanged := by
    intro other hm hnone
    rcases List.mem_append.1 hm with hm | hm
    · exact h.unchanged other hm hnone
    · rw [List.mem_singleton.1 hm] at hnone ⊢
      exact (Call.of_path?_none hnone).1
  kept := by
    intro earlier hm path hpath
    rcases List.mem_append.1 hm with hm | hm
    · exact h.kept_made plain hm hpath
    · rw [List.mem_singleton.1 hm] at hpath ⊢
      exact Filer.read_of_readText (Call.of_path? hpath).2.deposited.readText

end Logged

/-- Whatever calls are made in a run, the filer keeps their log. -/
theorem calls_logged {registration : Registration σ} {env : Environment} {client : σ}
    {calls : List (Call σ)} {run : Processing σ}
    (h : Calls (start registration env client) calls run) : Logged calls run := by
  induction h with
  | none => exact .of_start registration env client
  | call plain _ ih => exact ih.call_made plain
  | aside _ others ih => exact ih.aside others

/-- A call for a type, and another one for the same type. -/
def sameTypeTwice : Call Unit × Call Unit :=
  let first : Call Unit := ⟨.java, "p.A", "class A", start buildersRegistration default ()⟩
  (first, ⟨.java, "p.A", "interface A", first.after⟩)

theorem sameTypeTwice_logged :
    Calls sameTypeTwice.1.before [sameTypeTwice.1, sameTypeTwice.2] sameTypeTwice.2.after ∧
      Logged [sameTypeTwice.1, sameTypeTwice.2] sameTypeTwice.2.after ∧
      sameTypeTwice.1.path? = some ⟨"/java/p/A.java"⟩ ∧ sameTypeTwice.2.path? = none := by
  have plain : ∀ call ∈ [sameTypeTwice.1, sameTypeTwice.2], Path.IsSegment call.name := by
    unfold Path.IsSegment
    decide
  have first : Calls sameTypeTwice.1.before ([] ++ [sameTypeTwice.1]) sameTypeTwice.1.after :=
    .call (plain _ (by simp)) (.none _)
  have next : sameTypeTwice.1.after = sameTypeTwice.2.before := by rw [sameTypeTwice]
  rw [next] at first
  have calls : Calls sameTypeTwice.1.before ([sameTypeTwice.1] ++ [sameTypeTwice.2])
      sameTypeTwice.2.after := .call (plain _ (by simp)) first
  exact ⟨calls, calls_logged calls, by decide +kernel, by decide +kernel⟩

/-! ## Calls made by processors -/

/-- Between two states of a run calls were made. -/
def MakesCalls (before after : Processing σ) : Prop := ∃ calls, Calls before calls after

theorem Calls.append {first middle last : Processing σ} {calls more : List (Call σ)}
    (h : Calls first calls middle) (h' : Calls middle more last) :
    Calls first (calls ++ more) last := by
  induction h' with
  | none =>
    rw [List.append_nil]
    exact h
  | call plain _ ih =>
    rw [← List.append_assoc]
    exact ih.call plain
  | aside _ others ih => exact ih.aside others

theorem makesCalls_composes : Composes (@MakesCalls σ) := by
  constructor
  · intro run
    exact ⟨[], .none run⟩
  · rintro first second third ⟨calls, h⟩ ⟨more, h'⟩
    exact ⟨calls ++ more, h.append h'⟩

theorem leavesFiles_settled (run : Processing σ) : LeavesFiles run run.settled := by
  refine ⟨funext fun language => ?_, rfl, .refl _⟩
  cases language <;> rfl

/-- Processors that only make calls, round after round, make one sequence of calls. -/
theorem rounds_logged {registration : Registration σ}
    (works : ∀ processor ∈ registration.processors, ∀ round,
      Keeps MakesCalls (processor.process round))
    (limit : Nat) (round : Round) (env : Environment) (client : σ) :
    ∃ calls, Calls (start registration env client) calls
        (runRounds registration.processors limit round (start registration env client)).2 ∧
      Logged calls
        (runRounds registration.processors limit round (start registration env client)).2 := by
  obtain ⟨rounds, h⟩ := runRounds_account registration.processors limit [] round
    (start registration env client)
  have settled : ∀ run : Processing σ, MakesCalls run run.settled :=
    fun run => ⟨[], .aside (.none run) (leavesFiles_settled run)⟩
  obtain ⟨calls, hcalls⟩ := h.keeps makesCalls_composes settled works
  exact ⟨calls, hcalls, calls_logged hcalls⟩

end Processing

end KotlinHarness
