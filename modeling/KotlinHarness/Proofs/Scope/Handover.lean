/-
  Values handed over on many threads at once.

  Any number of threads work on one slot.  A thread that installs a value gets a guard, and the drop of
  the guard clears the entry of the thread it is dropped on.  A guard knows nothing of the value it was
  made for, so it is left to the threads to drop one before they install the next.

  `Step` is one such step, and an interleaving is a list of steps of different threads.  What a thread
  should find is said by its own steps alone: `Live` is the value whose guard it still holds.

    * `Alternates`      how a single thread uses its guards
    * `get?_after`      after any steps the entry of a thread is made of its own steps
    * `found_iff_live`  and it is the value whose guard the thread holds
-/
import KotlinHarness.Scope.Handoff

namespace KotlinHarness.HandoffSlot

variable {α : Type}

/-! ## One slot -/

theorem get?_cons (first : ThreadId × α) (rest : List (ThreadId × α)) (thread : ThreadId) :
    (HandoffSlot.mk (first :: rest)).get? thread =
      if first.1 = thread then some first.2 else (HandoffSlot.mk rest).get? thread := by
  by_cases h : first.1 = thread <;> simp [get?, h]

/-- The end of an installation takes the value of its thread away and of no other. -/
theorem get?_clear (slot : HandoffSlot α) (thread other : ThreadId) :
    (slot.clear thread).get? other = if other = thread then none else slot.get? other := by
  obtain ⟨entries⟩ := slot
  induction entries with
  | nil => exact (ite_self _).symm
  | cons first rest ih =>
    by_cases hfirst : first.1 = thread
    · rw [clear, List.filter_cons_of_neg (by simpa using hfirst), ← clear, ih, get?_cons, hfirst]
      split
      · rfl
      · next hne => rw [if_neg (Ne.symm hne)]
    · rw [clear, List.filter_cons_of_pos (by simpa using hfirst), get?_cons, ← clear, ih, get?_cons]
      by_cases hother : first.1 = other
      · rw [if_pos hother, if_pos hother, if_neg (fun heq => hfirst (hother.trans heq))]
      · rw [if_neg hother, if_neg hother]

/-- An installation is found on its thread and changes nothing on the others. -/
theorem get?_install (slot : HandoffSlot α) (thread other : ThreadId) (value : α) :
    (slot.install thread value).get? other =
      if other = thread then some value else slot.get? other := by
  rw [install, get?_cons]
  by_cases heq : other = thread
  · rw [if_pos heq.symm, if_pos heq]
  · rw [if_neg (Ne.symm heq), if_neg heq]
    exact (get?_clear slot thread other).trans (if_neg heq)

/-- A slot in which no thread finds anything has no entries. -/
theorem eq_empty {slot : HandoffSlot α} (h : ∀ thread, slot.get? thread = none) : slot = empty := by
  obtain ⟨entries⟩ := slot
  cases entries with
  | nil => rfl
  | cons first rest =>
    have hfirst := h first.1
    simp [get?] at hfirst

/-! ## Steps -/

/-- A step of a thread on the slot. -/
inductive Step (α : Type) where
  /-- The thread installs a value and has a guard from now on. -/
  | install (thread : ThreadId) (value : α)
  /-- The thread asks for its value. -/
  | get (thread : ThreadId)
  /-- The thread drops its guard. -/
  | drop (thread : ThreadId)
  deriving DecidableEq

namespace Step

def thread : Step α → ThreadId
  | install thread _ | get thread | drop thread => thread

/-- What a step makes of the slot. -/
def act : Step α → HandoffSlot α → HandoffSlot α
  | install thread value, slot => slot.install thread value
  | get _, slot => slot
  | drop thread, slot => slot.clear thread

/-- What a step makes of the value on its own thread. -/
def hold : Step α → Option α → Option α
  | install _ value, _ => some value
  | get _, held => held
  | drop _, _ => none

/-- A step has its effect on its own thread and no other. -/
theorem get?_act (step : Step α) (slot : HandoffSlot α) (other : ThreadId) :
    (step.act slot).get? other =
      if other = step.thread then step.hold (slot.get? other) else slot.get? other := by
  cases step with
  | install thread value => exact get?_install slot thread other value
  | get thread => exact (ite_self _).symm
  | drop thread => exact get?_clear slot thread other

end Step

/-- The slot after steps that began with nothing installed. -/
def after (steps : List (Step α)) : HandoffSlot α := steps.foldl (fun slot step => step.act slot) empty

/-- The steps of one thread among those of all. -/
def own (thread : ThreadId) (steps : List (Step α)) : List (Step α) :=
  steps.filter (·.thread == thread)

/-- After any steps a thread finds what its own steps make of what it found before. -/
theorem get?_foldl (steps : List (Step α)) (slot : HandoffSlot α) (thread : ThreadId) :
    (steps.foldl (fun slot step => step.act slot) slot).get? thread =
      (own thread steps).foldl (fun held step => step.hold held) (slot.get? thread) := by
  induction steps generalizing slot with
  | nil => rfl
  | cons step rest ih =>
    rw [List.foldl_cons, ih, Step.get?_act, own, own]
    by_cases hown : step.thread = thread
    · rw [if_pos hown.symm, List.filter_cons_of_pos (by simpa using hown), List.foldl_cons]
    · rw [if_neg (Ne.symm hown), List.filter_cons_of_neg (by simpa using hown)]

theorem get?_after (steps : List (Step α)) (thread : ThreadId) :
    (after steps).get? thread =
      (own thread steps).foldl (fun held step => step.hold held) none :=
  get?_foldl steps empty thread

/-! ## Guards -/

/-- The steps of one thread, which holds a guard at first or not: it installs a value when it holds
    none, and drops a guard when it holds one. -/
def Alternates : Bool → List (Step α) → Bool
  | _, [] => true
  | guarded, .get _ :: rest => Alternates guarded rest
  | guarded, .install _ _ :: rest => !guarded && Alternates true rest
  | guarded, .drop _ :: rest => guarded && Alternates false rest

/-- Every thread drops a guard before it installs the next. -/
def Orderly (steps : List (Step α)) : Prop := ∀ thread, Alternates false (own thread steps) = true

/-- The thread has installed the value and not dropped the guard since. -/
def Live (thread : ThreadId) (value : α) (steps : List (Step α)) : Prop :=
  ∃ before since, own thread steps = before ++ .install thread value :: since ∧
    Step.drop thread ∉ since

theorem alternates_of_append {guarded : Bool} {steps later : List (Step α)}
    (h : Alternates guarded (steps ++ later) = true) : Alternates guarded steps = true := by
  induction steps generalizing guarded with
  | nil => rfl
  | cons step rest ih =>
    cases step with
    | get _ => exact ih h
    | install _ _ =>
      obtain ⟨hguarded, hrest⟩ := Bool.and_eq_true_iff.1 h
      exact Bool.and_eq_true_iff.2 ⟨hguarded, ih hrest⟩
    | drop _ =>
      obtain ⟨hguarded, hrest⟩ := Bool.and_eq_true_iff.1 h
      exact Bool.and_eq_true_iff.2 ⟨hguarded, ih hrest⟩

theorem Orderly.before {earlier steps : List (Step α)} (h : Orderly steps)
    (hpre : earlier <+: steps) : Orderly earlier := by
  obtain ⟨later, rfl⟩ := hpre
  intro thread
  have hthread := h thread
  rw [own, List.filter_append] at hthread
  exact alternates_of_append hthread

/-- Where an item stands in a list with something true of what follows it: at the front or later. -/
theorem exists_split_cons {β : Type} {first item : β} {rest : List β} {P : List β → Prop} :
    (∃ before since, first :: rest = before ++ item :: since ∧ P since) ↔
      (first = item ∧ P rest) ∨ ∃ before since, rest = before ++ item :: since ∧ P since := by
  constructor
  · rintro ⟨_ | ⟨head, before⟩, since, heq, hsince⟩
    · obtain ⟨rfl, rfl⟩ := List.cons.inj heq
      exact .inl ⟨rfl, hsince⟩
    · obtain ⟨rfl, rfl⟩ := List.cons.inj heq
      exact .inr ⟨before, since, rfl, hsince⟩
  · rintro (⟨rfl, hrest⟩ | ⟨before, since, rfl, hsince⟩)
    · exact ⟨[], rest, rfl, hrest⟩
    · exact ⟨first :: before, since, rfl, hsince⟩

/-- What is left of a thread's value after its steps: the one it had, when it did not drop the guard,
    or the one it installed and still has the guard of. -/
theorem foldl_hold_iff {thread : ThreadId} {steps : List (Step α)} {value : α} (held : Option α)
    (ownSteps : ∀ step ∈ steps, step.thread = thread)
    (alternates : Alternates held.isSome steps = true) :
    steps.foldl (fun held step => step.hold held) held = some value ↔
      (held = some value ∧ Step.drop thread ∉ steps) ∨
        ∃ before since, steps = before ++ .install thread value :: since ∧
          Step.drop thread ∉ since := by
  induction steps generalizing held with
  | nil => simp
  | cons step rest ih =>
    obtain ⟨hstep, hrest⟩ := List.forall_mem_cons.1 ownSteps
    rw [List.foldl_cons, exists_split_cons, List.mem_cons, not_or]
    cases step with
    | get other =>
      rw [Step.hold, ih held hrest alternates]
      simp
    | install other installed =>
      obtain ⟨hguarded, halternates⟩ := Bool.and_eq_true_iff.1 alternates
      obtain rfl : other = thread := hstep
      obtain rfl : held = none := by simpa using hguarded
      rw [Step.hold, ih (some installed) hrest halternates]
      simp
    | drop other =>
      obtain ⟨-, halternates⟩ := Bool.and_eq_true_iff.1 alternates
      obtain rfl : other = thread := hstep
      rw [Step.hold, ih none hrest halternates]
      simp

/-- A thread finds the value whose guard it holds, and nothing without one. -/
theorem found_iff_live {steps : List (Step α)} (orderly : Orderly steps) (thread : ThreadId)
    (value : α) : (after steps).get? thread = some value ↔ Live thread value steps := by
  have hown : ∀ step ∈ own thread steps, step.thread = thread := fun step hm =>
    beq_iff_eq.1 (List.mem_filter.1 hm).2
  rw [get?_after, foldl_hold_iff none hown (orderly thread)]
  simp [Live]

/-- What threads find in a slot after these steps. -/
structure Tells (steps : List (Step α)) (slot : HandoffSlot α) : Prop where
  /-- A thread finds the value that it installed while its guard is live. -/
  found : ∀ {thread value}, Live thread value steps → slot.get? thread = some value
  /-- It finds nothing otherwise. -/
  nothing : ∀ {thread}, (∀ value, ¬ Live thread value steps) → slot.get? thread = none
  /-- The next step of a thread changes nothing for the others. -/
  apart : ∀ (next : Step α) {other}, other ≠ next.thread →
    (next.act slot).get? other = slot.get? other
  /-- The slot is empty when no guard is live. -/
  forgotten : (∀ thread value, ¬ Live thread value steps) → slot = empty

theorem tells_after {steps : List (Step α)} (orderly : Orderly steps) : Tells steps (after steps) := by
  have nothing : ∀ {thread}, (∀ value, ¬ Live thread value steps) →
      (after steps).get? thread = none := by
    intro thread hnone
    refine Option.eq_none_iff_forall_ne_some.2 fun value hfound => ?_
    exact hnone value ((found_iff_live orderly thread value).1 hfound)
  refine ⟨fun {thread value} => (found_iff_live orderly thread value).2, nothing,
    fun next other hne => ?_, fun hnone => eq_empty fun thread => nothing (hnone thread)⟩
  rw [Step.get?_act, if_neg hne]

end KotlinHarness.HandoffSlot
