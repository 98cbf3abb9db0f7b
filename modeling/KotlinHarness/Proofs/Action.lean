/-
  What actions do to the state they work on.

  An action either gives a value or fails, and in both cases leaves a state behind, `finalState`.  A
  relation is kept by an action when it holds between the states before and after it, however it
  ends; relations that compose are kept by a sequence of actions when every part keeps them.

  Hooks and processors are called in turn, up to the first that fails.  `InTurn` is the account of
  that: which were called, and in which state each.
-/

namespace KotlinHarness

variable {ε σ α β ι : Type} {R : σ → σ → Prop}

/-- The state that an action ended in. -/
def finalState : EStateM.Result ε σ α → σ
  | .ok _ state => state
  | .error _ state => state

/-- A bind goes on after a success and stops at a failure. -/
theorem bind_eq (action : EStateM ε σ α) (next : α → EStateM ε σ β) (state : σ) :
    (action >>= next) state =
      match action state with
      | .ok value middle => next value middle
      | .error cause middle => .error cause middle := by
  show EStateM.bind action next state = _
  unfold EStateM.bind
  cases action state <;> rfl

theorem get_bind (next : σ → EStateM ε σ α) (state : σ) :
    ((get : EStateM ε σ σ) >>= next) state = next state state :=
  rfl

/-- When a bind succeeds, both of its parts do. -/
theorem of_bind_ok {action : EStateM ε σ α} {next : α → EStateM ε σ β} {state after : σ} {value : β}
    (h : (action >>= next) state = .ok value after) :
    ∃ first middle, action state = .ok first middle ∧ next first middle = .ok value after := by
  rw [bind_eq] at h
  rcases haction : action state with ⟨first, middle⟩ | ⟨cause, middle⟩
  · rw [haction] at h
    exact ⟨first, middle, rfl, h⟩
  · rw [haction] at h
    cases h

/-- When a bind fails, one of its parts does. -/
theorem of_bind_error {action : EStateM ε σ α} {next : α → EStateM ε σ β} {state after : σ}
    {cause : ε} (h : (action >>= next) state = .error cause after) :
    action state = .error cause after ∨
      ∃ first middle, action state = .ok first middle ∧ next first middle = .error cause after := by
  rw [bind_eq] at h
  rcases haction : action state with ⟨first, middle⟩ | ⟨cause, middle⟩
  · rw [haction] at h
    exact .inr ⟨first, middle, rfl, h⟩
  · rw [haction] at h
    cases h
    exact .inl rfl

/-- The action keeps a relation between the states before and after it. -/
def Keeps (R : σ → σ → Prop) (action : EStateM ε σ α) : Prop :=
  ∀ state, R state (finalState (action state))

/-- What actions keep one after the other they keep together. -/
structure Composes (R : σ → σ → Prop) : Prop where
  refl : ∀ state, R state state
  trans : ∀ {first second third : σ}, R first second → R second third → R first third

theorem Keeps.of_ok {action : EStateM ε σ α} {state after : σ} {value : α} (h : Keeps R action)
    (answer : action state = .ok value after) : R state after := by
  have h := h state
  rwa [answer] at h

theorem Keeps.of_error {action : EStateM ε σ α} {state after : σ} {cause : ε} (h : Keeps R action)
    (answer : action state = .error cause after) : R state after := by
  have h := h state
  rwa [answer] at h

theorem Composes.keeps_pure (composes : Composes R) (value : α) :
    Keeps R (pure value : EStateM ε σ α) :=
  composes.refl

theorem Composes.keeps_bind (composes : Composes R) {action : EStateM ε σ α}
    {next : α → EStateM ε σ β} (h : Keeps R action) (hnext : ∀ value, Keeps R (next value)) :
    Keeps R (action >>= next) := by
  intro state
  rw [bind_eq]
  rcases answer : action state with ⟨value, middle⟩ | ⟨cause, middle⟩
  · exact composes.trans (h.of_ok answer) (hnext value middle)
  · exact h.of_error answer

/-! ## Checked answers -/

/-- Whether an action succeeded, with a value and in a state that pass a check. -/
def succeedsWith (check : α → σ → Bool) : EStateM.Result ε σ α → Bool
  | .ok value state => check value state
  | .error _ _ => false

theorem of_succeedsWith {check : α → σ → Bool} {result : EStateM.Result ε σ α}
    (h : succeedsWith check result = true) :
    ∃ value state, result = .ok value state ∧ check value state = true := by
  cases result with
  | ok value state => exact ⟨value, state, rfl, h⟩
  | error _ _ => cases h

/-- Whether an answer is a value that passes a check. -/
def yieldsWith (check : α → Bool) : Except ε α → Bool
  | .ok value => check value
  | .error _ => false

theorem of_yieldsWith {check : α → Bool} {answer : Except ε α} (h : yieldsWith check answer = true) :
    ∃ value, answer = .ok value ∧ check value = true := by
  cases answer with
  | ok value => exact ⟨value, rfl, h⟩
  | error _ => cases h

/-- Whether an answer is a failure with a cause that passes a check. -/
def failsWith (check : ε → Bool) : Except ε α → Bool
  | .ok _ => false
  | .error cause => check cause

theorem of_failsWith {check : ε → Bool} {answer : Except ε α} (h : failsWith check answer = true) :
    ∃ cause, answer = .error cause ∧ check cause = true := by
  cases answer with
  | ok _ => cases h
  | error cause => exact ⟨cause, rfl, h⟩

/-! ## In turn -/

/-- Does something for each item, up to the first for which it fails. -/
def inTurn (perform : ι → EStateM ε σ Unit) : List ι → EStateM ε σ Unit
  | [] => pure ()
  | item :: rest => do
    perform item
    inTurn perform rest

/-- `InTurn perform items state reached result`: the items that were reached, each with the state in
    which its turn came. -/
inductive InTurn (perform : ι → EStateM ε σ Unit) :
    List ι → σ → List (ι × σ) → EStateM.Result ε σ Unit → Prop
  | done (state : σ) : InTurn perform [] state [] (.ok () state)
  | failed {item : ι} {rest : List ι} {state after : σ} {cause : ε}
      (answer : perform item state = .error cause after) :
      InTurn perform (item :: rest) state [(item, state)] (.error cause after)
  | next {item : ι} {rest : List ι} {state middle : σ} {reached : List (ι × σ)}
      {result : EStateM.Result ε σ Unit} (answer : perform item state = .ok () middle)
      (others : InTurn perform rest middle reached result) :
      InTurn perform (item :: rest) state ((item, state) :: reached) result

variable {perform : ι → EStateM ε σ Unit} {items : List ι} {state after : σ} {cause : ε}
  {reached : List (ι × σ)} {result : EStateM.Result ε σ Unit}

theorem inTurn_account (perform : ι → EStateM ε σ Unit) (items : List ι) (state : σ) :
    ∃ reached, InTurn perform items state reached (inTurn perform items state) := by
  induction items generalizing state with
  | nil => exact ⟨[], .done state⟩
  | cons item rest ih =>
    rw [inTurn, bind_eq]
    rcases h : perform item state with ⟨⟨⟩, middle⟩ | ⟨cause, after⟩
    · obtain ⟨reached, hreached⟩ := ih middle
      exact ⟨_, .next h hreached⟩
    · exact ⟨_, .failed h⟩

namespace InTurn

/-- When none fails, all are reached. -/
theorem of_ok (h : InTurn perform items state reached (.ok () after)) :
    reached.map (·.1) = items ∧ ∀ one ∈ reached, ∃ next, perform one.1 one.2 = .ok () next := by
  generalize hr : EStateM.Result.ok () after = result at h
  induction h with
  | done _ => exact ⟨rfl, fun _ hm => absurd hm List.not_mem_nil⟩
  | failed _ => cases hr
  | next answer _ ih =>
    obtain ⟨hitems, hall⟩ := ih hr
    exact ⟨by rw [List.map_cons, hitems], List.forall_mem_cons.2 ⟨⟨_, answer⟩, hall⟩⟩

/-- When one fails, it is the last that is reached. -/
theorem of_error (h : InTurn perform items state reached (.error cause after)) :
    ∃ earlier last, reached = earlier ++ [last] ∧ reached.map (·.1) <+: items ∧
      (∀ one ∈ earlier, ∃ next, perform one.1 one.2 = .ok () next) ∧
      perform last.1 last.2 = .error cause after := by
  generalize hr : EStateM.Result.error cause after = result at h
  induction h with
  | done _ => cases hr
  | @failed item rest state _ _ answer =>
    cases hr
    exact ⟨[], (item, state), rfl, (List.prefix_cons_inj item).2 List.nil_prefix,
      fun _ hm => absurd hm List.not_mem_nil, answer⟩
  | @next item rest state _ reached _ answer _ ih =>
    obtain ⟨earlier, last, heq, hpre, hall, hlast⟩ := ih hr
    refine ⟨(item, state) :: earlier, last, by rw [heq, List.cons_append], ?_,
      List.forall_mem_cons.2 ⟨⟨_, answer⟩, hall⟩, hlast⟩
    exact (List.prefix_cons_inj item).2 hpre

/-- What each keeps relates the first state to that of every turn, and to the last one. -/
theorem keeps (composes : Composes R) (each : ∀ item ∈ items, Keeps R (perform item))
    (h : InTurn perform items state reached result) :
    R state (finalState result) ∧
      ∀ one ∈ reached, R state one.2 ∧ R state (finalState (perform one.1 one.2)) := by
  induction h with
  | done state => exact ⟨composes.refl state, fun _ hm => absurd hm List.not_mem_nil⟩
  | @failed item rest state after cause answer =>
    have hitem := each item List.mem_cons_self
    refine ⟨hitem.of_error answer, fun one hm => ?_⟩
    rw [List.mem_singleton.1 hm]
    exact ⟨composes.refl state, hitem state⟩
  | @next item rest state middle reached result answer others ih =>
    have hitem := each item List.mem_cons_self
    have hmiddle : R state middle := hitem.of_ok answer
    obtain ⟨hlast, hreached⟩ := ih fun other hm => each other (List.mem_cons_of_mem _ hm)
    refine ⟨composes.trans hmiddle hlast,
      List.forall_mem_cons.2 ⟨⟨composes.refl state, hitem state⟩, fun one hm => ?_⟩⟩
    exact ⟨composes.trans hmiddle (hreached one hm).1, composes.trans hmiddle (hreached one hm).2⟩

/-- What is kept by the turns that were reached relates the first state to the last one. -/
theorem relates (composes : Composes R) (h : InTurn perform items state reached result)
    (each : ∀ one ∈ reached, R one.2 (finalState (perform one.1 one.2))) :
    R state (finalState result) := by
  induction h with
  | done state => exact composes.refl state
  | failed answer =>
    have hlast := each _ List.mem_cons_self
    rwa [answer] at hlast
  | next answer _ ih =>
    have hfirst := each _ List.mem_cons_self
    rw [answer] at hfirst
    exact composes.trans hfirst (ih fun one hm => each one (List.mem_cons_of_mem _ hm))

end InTurn

end KotlinHarness
