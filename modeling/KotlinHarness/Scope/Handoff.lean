/-
  Handing a value to code that is not called with it.

  A slot holds at most one value for each thread.  Installing replaces the thread's value; the end
  of an installation clears the thread's entry, whatever stands there by then.
-/

namespace KotlinHarness

/-- The identity of a thread. -/
abbrev ThreadId := Nat

/-- One value per thread. -/
structure HandoffSlot (α : Type) where
  entries : List (ThreadId × α)
  deriving Inhabited

namespace HandoffSlot

variable {α : Type}

/-- A slot without values. -/
def empty : HandoffSlot α := ⟨[]⟩

/-- The value installed for a thread. -/
def get? (slot : HandoffSlot α) (thread : ThreadId) : Option α :=
  (slot.entries.find? (·.1 == thread)).map (·.2)

/-- The slot without the entry of a thread: an installation on it has ended. -/
def clear (slot : HandoffSlot α) (thread : ThreadId) : HandoffSlot α :=
  ⟨slot.entries.filter (·.1 != thread)⟩

/-- The slot with the value of a thread replaced. -/
def install (slot : HandoffSlot α) (thread : ThreadId) (value : α) : HandoffSlot α :=
  ⟨(thread, value) :: (slot.clear thread).entries⟩

end HandoffSlot

end KotlinHarness
