/-
  Which property stores there are, and what a scope does to one.

  A store comes about by scopes that open, each with a number of its own, and that end, in any
  order (`Reached`).  In every such store no key has an empty stack, and no override has the number
  of a scope that is yet to open (`Sound`).  This is what makes the two laws of a scope hold:

    * `get?_set`       while the scope is the last one to set its key, its value is in effect
    * `release_set`    opening a scope and ending it gives back the store there was
-/
import KotlinHarness.Scope.Properties

namespace KotlinHarness.Properties

/-- The stores that there can be when the scopes numbered below `next` were opened. -/
inductive Reached : ScopeId → Properties → Prop
  | start : Reached 0 empty
  | opened {next : ScopeId} {properties : Properties} (key value : String)
      (earlier : Reached next properties) : Reached (next + 1) (properties.set next key value)
  | ended {next : ScopeId} {properties : Properties} (scope : ScopeId) (key : String)
      (earlier : Reached next properties) : Reached next (properties.release scope key)

/-- Every key has an override, and every override has the number of a scope opened before. -/
structure Sound (next : ScopeId) (properties : Properties) : Prop where
  inUse : ∀ entry ∈ properties.overrides, entry.2 ≠ []
  issued : ∀ entry ∈ properties.overrides, ∀ top ∈ entry.2, top.scope < next

/-! ## Setting a key -/

/-- An entry after a key was set: an earlier one, or the key's own with the override on top. -/
theorem mem_pushOn {key : String} {top : Override} {overrides : List (String × List Override)}
    {entry : String × List Override} (h : entry ∈ pushOn key top overrides) :
    entry ∈ overrides ∨
      ∃ stack, entry = (key, stack ++ [top]) ∧ (stack = [] ∨ (key, stack) ∈ overrides) := by
  induction overrides with
  | nil =>
    refine .inr ⟨[], ?_, .inl rfl⟩
    exact List.mem_singleton.1 h
  | cons first rest ih =>
    obtain ⟨other, stack⟩ := first
    rw [pushOn] at h
    split at h
    · -- The key is a new one, in front of all others.
      rcases List.mem_cons.1 h with rfl | h
      · exact .inr ⟨[], rfl, .inl rfl⟩
      · exact .inl h
    · split at h
      · -- The key has a stack already.
        next heq =>
        rcases List.mem_cons.1 h with rfl | h
        · exact .inr ⟨stack, rfl, .inr (heq ▸ List.mem_cons_self)⟩
        · exact .inl (List.mem_cons_of_mem _ h)
      · rcases List.mem_cons.1 h with rfl | h
        · exact .inl List.mem_cons_self
        · rcases ih h with h | ⟨stack', rfl, h | h⟩
          · exact .inl (List.mem_cons_of_mem _ h)
          · exact .inr ⟨stack', rfl, .inl h⟩
          · exact .inr ⟨stack', rfl, .inr (List.mem_cons_of_mem _ h)⟩

/-- The stack found for a key that was just set ends with the override. -/
theorem find?_pushOn (key : String) (top : Override) (overrides : List (String × List Override)) :
    ∃ stack, (pushOn key top overrides).find? (·.1 == key) = some (key, stack ++ [top]) := by
  induction overrides with
  | nil => exact ⟨[], by simp [pushOn]⟩
  | cons first rest ih =>
    obtain ⟨other, stack⟩ := first
    rw [pushOn]
    split
    · exact ⟨[], by simp⟩
    · split
      · exact ⟨stack, by simp⟩
      · next hne =>
        obtain ⟨stack', h⟩ := ih
        refine ⟨stack', ?_⟩
        rw [List.find?_cons_of_neg (by simpa using Ne.symm hne)]
        exact h

/-- The value set last is in effect. -/
theorem get?_set (properties : Properties) (scope : ScopeId) (key value : String) :
    (properties.set scope key value).get? key = some value := by
  obtain ⟨stack, h⟩ := find?_pushOn key ⟨scope, value⟩ properties.overrides
  simp [get?, Properties.stack, set, h]

theorem Sound.set {next : ScopeId} {properties : Properties} (h : Sound next properties)
    (key value : String) : Sound (next + 1) (properties.set next key value) := by
  constructor
  · intro entry hm
    rcases mem_pushOn hm with hm | ⟨stack, rfl, -⟩
    · exact h.inUse entry hm
    · simp
  · intro entry hm top htop
    rcases mem_pushOn hm with hm | ⟨stack, rfl, hstack⟩
    · exact Nat.lt_succ_of_lt (h.issued entry hm top htop)
    · rcases List.mem_append.1 htop with htop | htop
      · rcases hstack with rfl | hstack
        · exact absurd htop List.not_mem_nil
        · exact Nat.lt_succ_of_lt (h.issued _ hstack top htop)
      · rw [List.mem_singleton.1 htop]
        exact Nat.lt_succ_self next

/-! ## Ending a scope -/

/-- What the end of a scope leaves of an entry. -/
def left (scope : ScopeId) (key : String) (entry : String × List Override) :
    Option (String × List Override) :=
  if entry.1 = key then
    let kept := entry.2.filter (·.scope != scope)
    if kept.isEmpty then none else some (entry.1, kept)
  else some entry

/-- What is left of an entry is a part of it, and is not empty. -/
theorem left_part {scope : ScopeId} {key : String} {entry kept : String × List Override}
    (inUse : entry.2 ≠ []) (h : left scope key entry = some kept) :
    kept.2 ⊆ entry.2 ∧ kept.2 ≠ [] := by
  simp only [left] at h
  split at h
  · split at h
    · cases h
    · next hne =>
      cases h
      exact ⟨fun _ htop => (List.mem_filter.1 htop).1, by simpa using hne⟩
  · cases h
    exact ⟨List.Subset.refl entry.2, inUse⟩

theorem Sound.release {next : ScopeId} {properties : Properties} (h : Sound next properties)
    (scope : ScopeId) (key : String) : Sound next (properties.release scope key) := by
  constructor
  · intro kept hm
    obtain ⟨entry, hentry, hkept⟩ := List.mem_filterMap.1 hm
    exact (left_part (h.inUse entry hentry) hkept).2
  · intro kept hm top htop
    obtain ⟨entry, hentry, hkept⟩ := List.mem_filterMap.1 hm
    have hpart : kept.2 ⊆ entry.2 := (left_part (h.inUse entry hentry) hkept).1
    exact h.issued entry hentry top (hpart htop)

/-- Every store that there can be is sound. -/
theorem Reached.sound {next : ScopeId} {properties : Properties} (h : Reached next properties) :
    Sound next properties := by
  induction h with
  | start =>
    exact ⟨fun _ hm => absurd hm List.not_mem_nil, fun _ hm => absurd hm List.not_mem_nil⟩
  | opened key value _ ih => exact ih.set key value
  | ended scope key _ ih => exact ih.release scope key

/-! ## A scope that opens and ends -/

theorem filter_issued {scope : ScopeId} {stack : List Override}
    (issued : ∀ top ∈ stack, top.scope < scope) : stack.filter (·.scope != scope) = stack :=
  List.filter_eq_self.2 fun top hm => bne_iff_ne.2 (Nat.ne_of_lt (issued top hm))

/-- An entry without an override of the scope stays. -/
theorem left_issued {scope : ScopeId} {key : String} {entry : String × List Override}
    (inUse : entry.2 ≠ []) (issued : ∀ top ∈ entry.2, top.scope < scope) :
    left scope key entry = some entry := by
  simp [left, filter_issued issued, inUse]

/-- Of the entry in which the scope set its key, what was there before stays. -/
theorem left_pushed {scope : ScopeId} {key value : String} {stack : List Override}
    (issued : ∀ top ∈ stack, top.scope < scope) :
    left scope key (key, stack ++ [⟨scope, value⟩]) =
      if stack.isEmpty then none else some (key, stack) := by
  simp [left, filter_issued issued]

theorem filterMap_left_issued {scope : ScopeId} {key : String}
    {overrides : List (String × List Override)} (h : Sound scope ⟨overrides⟩) :
    overrides.filterMap (left scope key) = overrides := by
  induction overrides with
  | nil => rfl
  | cons first rest ih =>
    rw [List.filterMap_cons_some (left_issued (h.inUse first List.mem_cons_self)
      (h.issued first List.mem_cons_self))]
    rw [ih ⟨fun entry hm => h.inUse entry (List.mem_cons_of_mem _ hm),
      fun entry hm => h.issued entry (List.mem_cons_of_mem _ hm)⟩]

theorem filterMap_left_pushOn {scope : ScopeId} {key value : String}
    {overrides : List (String × List Override)} (h : Sound scope ⟨overrides⟩) :
    (pushOn key ⟨scope, value⟩ overrides).filterMap (left scope key) = overrides := by
  have hnew : left scope key (key, [⟨scope, value⟩]) = none := left_pushed fun _ hm =>
    absurd hm List.not_mem_nil
  induction overrides with
  | nil => rw [pushOn, List.filterMap_cons_none hnew, List.filterMap_nil]
  | cons first rest ih =>
    obtain ⟨other, stack⟩ := first
    have hrest : Sound scope ⟨rest⟩ := ⟨fun entry hm => h.inUse entry (List.mem_cons_of_mem _ hm),
      fun entry hm => h.issued entry (List.mem_cons_of_mem _ hm)⟩
    have inUse : stack ≠ [] := h.inUse _ List.mem_cons_self
    have issued : ∀ top ∈ stack, top.scope < scope := h.issued _ List.mem_cons_self
    rw [pushOn]
    split
    · -- The scope's own entry goes, and the others were never touched.
      rw [List.filterMap_cons_none hnew, filterMap_left_issued h]
    · split
      · -- The scope's override goes from the stack of the key.
        next heq =>
        have hkept : left scope key (key, stack ++ [⟨scope, value⟩]) = some (key, stack) := by
          rw [left_pushed issued, if_neg (by simpa using inUse)]
        rw [List.filterMap_cons_some hkept, filterMap_left_issued hrest, heq]
      · have hkept : left scope key (other, stack) = some (other, stack) := left_issued inUse issued
        rw [List.filterMap_cons_some hkept, ih hrest]

/-- A scope that opens and ends gives back the store there was. -/
theorem release_set {scope : ScopeId} {properties : Properties} (h : Sound scope properties)
    (key value : String) : (properties.set scope key value).release scope key = properties :=
  congrArg Properties.mk (filterMap_left_pushOn h)

/-- More scopes may have been opened. -/
theorem Reached.mono {next later : ScopeId} {properties : Properties} (h : Reached next properties)
    (le : next ≤ later) : Reached later properties := by
  induction le with
  | refl => exact h
  | @step middle _ ih =>
    -- A scope that opens and ends takes a number and leaves the store alone.
    have hagain := (ih.opened nativeFileSystem "").ended middle nativeFileSystem
    rwa [release_set ih.sound] at hagain

end KotlinHarness.Properties
