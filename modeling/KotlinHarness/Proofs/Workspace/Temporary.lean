/-
  Temporary roots.

  A call without a working directory makes a root for itself, under a name that chance gives.  A name
  that is taken is given up for the next one, so the root is new whatever is there already
  (`MadeTemporary`).  Where none can be made, names were drawn and nothing else was done.
-/
import KotlinHarness.Proofs.Files.Listing
import KotlinHarness.Resolution

namespace KotlinHarness.Environment

variable {old new env after : Environment} {p : Path} {location : Location}

/-! ## One directory -/

/-- What creating a directory does that succeeds. -/
structure Created (p : Path) (old new : Environment) (location : Location) : Prop where
  leads : new.LeadsTo p location
  free : old.look location = none
  made : new.look location = some .directory
  others : ∀ other, other ≠ location → new.look other = old.look other
  /-- Nothing but files is different. -/
  rest : new = { old with files := new.files }

theorem makeDirectory_ok (hslash : p.endsWithSlash = false)
    (h : makeDirectory p old = .ok () new) : ∃ location, Created p old new location := by
  obtain ⟨here, name, slash, hparent, hshort, missing, rfl⟩ := of_makeDirectory_ok h
  obtain rfl : slash = false := (lastName_of_locateParent hparent).slash_eq.trans hslash
  have hhere := look_of_locateParent hparent
  have free : old.look (here ++ [name]) ≠ some .directory := by simp [missing]
  have grows : Grows (fun _ _ => True) old (old.put (here ++ [name]) .directory) :=
    grows_putDirectory hhere missing
  have hlook := look_put .directory hhere free
  refine ⟨here ++ [name], leadsTo_put hparent hshort free grows, missing, ?_, ?_, rfl⟩
  · rw [hlook, if_pos rfl]
  · intro other hne
    rw [hlook, if_neg hne]

/-! ## Names -/

theorem isEntry_temporary (name : RandomName) : Path.IsEntry (temporaryMark ++ name.text) := by
  refine ⟨?_, ?_⟩
  · intro hm
    rw [String.toList_append, RandomName.text, String.toList_ofList] at hm
    rcases List.mem_append.1 hm with hmark | hchance
    · revert hmark
      decide
    · exact absurd (name.isAlphanum _ hchance) (by decide)
  · intro heq
    have hlist := congrArg String.toList heq
    rw [String.toList_append] at hlist
    exact absurd (List.append_eq_nil_iff.1 hlist).1 (by decide)

theorem endsWithSlash_nextTemporary (env : Environment) :
    env.nextTemporary.endsWithSlash = false :=
  Path.endsWithSlash_div (isEntry_temporary (env.randomName env.temporaries))

theorem drawn_drawn (env : Environment) (first second : Nat) :
    (env.drawn first).drawn second = env.drawn (first + second) := by
  simp only [drawn, Nat.add_assoc]

variable {next : Environment → Path} {attempts passed : Nat}

/-- Under the name that comes after `passed` others there is something already. -/
def IsTaken (next : Environment → Path) (env : Environment) (passed : Nat) : Prop :=
  makeDirectory (next (env.drawn passed)) (env.drawn (passed + 1)) =
    .error .alreadyExists (env.drawn (passed + 1))

/-! ## The first name that is free -/

/-- What comes of at most `attempts` names: a directory under the first that is free, or a failure
    after which names were drawn and nothing else is different. -/
inductive Attempted (next : Environment → Path) (attempts : Nat) (env : Environment) :
    EStateM.Result (IoError × Path) Environment Path → Prop
  | made {passed : Nat} {after : Environment} (limit : passed < attempts)
      (taken : ∀ earlier < passed, env.IsTaken next earlier)
      (made : makeDirectory (next (env.drawn passed)) (env.drawn (passed + 1)) = .ok () after) :
      Attempted next attempts env (.ok (next (env.drawn passed)) after)
  | failed {count : Nat} (cause : IoError × Path) (limit : count ≤ attempts) :
      Attempted next attempts env (.error cause (env.drawn count))

/-- One more name was taken before. -/
theorem Attempted.passOver {result : EStateM.Result (IoError × Path) Environment Path}
    (taken : env.IsTaken next 0) (h : Attempted next attempts (env.drawn 1) result) :
    Attempted next (attempts + 1) env result := by
  have hnext : ∀ count, (env.drawn 1).drawn count = env.drawn (count + 1) := by
    intro count
    rw [drawn_drawn, Nat.add_comm]
  cases h with
  | @made passed after limit others made =>
    rw [hnext, hnext] at made
    rw [hnext]
    refine .made (Nat.succ_lt_succ limit) ?_ made
    intro earlier hearlier
    cases earlier with
    | zero => exact taken
    | succ earlier =>
      have hother := others earlier (Nat.lt_of_succ_lt_succ hearlier)
      rw [IsTaken, hnext, hnext] at hother
      exact hother
  | @failed count cause limit =>
    rw [hnext]
    exact .failed cause (Nat.succ_le_succ limit)

theorem makeFree_attempted (next : Environment → Path) (attempts : Nat) (env : Environment) :
    Attempted next attempts env (makeFree next attempts env) := by
  induction attempts generalizing env with
  | zero => exact @Attempted.failed next 0 env 0 _ (Nat.le_refl 0)
  | succ attempts ih =>
    rw [makeFree]
    rcases hmade : makeDirectory (next env) (env.drawn 1) with ⟨_, after⟩ | ⟨cause, after⟩
    · simp only [hmade]
      exact @Attempted.made next _ env 0 after (Nat.succ_pos _)
        (fun _ hlt => absurd hlt (Nat.not_lt_zero _)) hmade
    · obtain rfl := makeDirectory_error hmade
      simp only [hmade]
      split
      · next hcause =>
        subst hcause
        exact (ih (env.drawn 1)).passOver hmade
      · exact @Attempted.failed next _ env 1 _ (Nat.le_add_left 1 attempts)

/-! ## The root -/

/-- A temporary root is made under the first name that is free, as a new directory with nothing in
    it. -/
def MadeTemporary (old new : Environment) : Prop :=
  ∃ passed, (∀ earlier < passed, old.IsTaken nextTemporary earlier) ∧
    ∃ location, Created (old.drawn passed).nextTemporary (old.drawn (passed + 1)) new location

theorem of_makeTemporary_ok (h : makeTemporary old = .ok p new) :
    ∃ passed, p = (old.drawn passed).nextTemporary ∧
      (∀ earlier < passed, old.IsTaken nextTemporary earlier) ∧
      makeDirectory p (old.drawn (passed + 1)) = .ok () new := by
  have attempted := makeFree_attempted nextTemporary temporaryAttempts old
  unfold makeTemporary at h
  generalize hresult : makeFree nextTemporary temporaryAttempts old = result at attempted
  simp only [hresult] at h
  cases attempted with
  | @made passed after _ taken made =>
    cases h
    exact ⟨passed, rfl, taken, made⟩
  | failed cause _ => cases h

theorem makeTemporary_ok (h : makeTemporary old = .ok p new) : MadeTemporary old new := by
  obtain ⟨passed, rfl, taken, made⟩ := of_makeTemporary_ok h
  exact ⟨passed, taken, makeDirectory_ok (endsWithSlash_nextTemporary _) made⟩

theorem makeTemporary_grows (may : Location → FileData → Prop) (h : makeTemporary old = .ok p new) :
    Grows may old new := by
  obtain ⟨passed, -, -, made⟩ := of_makeTemporary_ok h
  have hdrawn : Grows may old (old.drawn (passed + 1)) :=
    ⟨rfl, fun h => h, fun h => ⟨_, h⟩, fun h => .inl h⟩
  exact hdrawn.trans ((keeps_makeDirectory may p).of_ok made)

theorem makeTemporary_error {error : ConfigError} (h : makeTemporary old = .error error new) :
    ∃ cause count, error = .unreadable old.temporaryDir (.io cause) ∧ new = old.drawn count := by
  have attempted := makeFree_attempted nextTemporary temporaryAttempts old
  unfold makeTemporary at h
  generalize hresult : makeFree nextTemporary temporaryAttempts old = result at attempted
  simp only [hresult] at h
  cases attempted with
  | made limit taken made => cases h
  | @failed count cause _ =>
    cases h
    exact ⟨_, count, rfl, rfl⟩

end KotlinHarness.Environment
