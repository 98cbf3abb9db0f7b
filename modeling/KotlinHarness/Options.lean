/-
  Options: text values under text keys, in ascending order of the keys.

  `put` keeps the order and changes one key: asking for that key afterwards gives the value put
  (`get?_put_self`), asking for any other key gives what it gave before (`get?_put_of_ne`).
-/
import KotlinHarness.Text.Order

namespace KotlinHarness

/-- Keys with their values, keys ascending strictly. -/
abbrev Options := List (String × String)

namespace Options

def get? (options : Options) (key : String) : Option String :=
  (options.find? (·.1 == key)).map (·.2)

/-- `options` with `key` set to `value`. -/
def put (options : Options) (key value : String) : Options :=
  match options with
  | [] => [(key, value)]
  | (other, old) :: rest =>
    if key < other then (key, value) :: (other, old) :: rest
    else if key = other then (key, value) :: rest
    else (other, old) :: put rest key value

/-- The options of a list of pairs; a later pair wins over an earlier one of its key. -/
def ofList (pairs : List (String × String)) : Options :=
  pairs.foldl (fun options pair => options.put pair.1 pair.2) []

/-- Keys ascend strictly. -/
def Ascending (options : Options) : Prop := (options.map (·.1)).Pairwise (· < ·)

/-! ## What a change leaves as it was -/

theorem get?_put_self (options : Options) (key value : String) :
    (options.put key value).get? key = some value := by
  induction options with
  | nil => simp [put, get?]
  | cons entry rest ih =>
    simp only [put]
    split
    · simp [get?]
    · split
      · simp [get?]
      · next hne =>
        have hother : entry.1 ≠ key := fun h => hne h.symm
        simpa [get?, List.find?_cons, hother] using ih

theorem get?_put_of_ne {key wanted : String} (h : wanted ≠ key) (options : Options)
    (value : String) :
    (options.put key value).get? wanted = options.get? wanted := by
  have hkey : key ≠ wanted := fun e => h e.symm
  induction options with
  | nil => simp [put, get?, hkey]
  | cons entry rest ih =>
    simp only [put]
    split
    · simp [get?, List.find?_cons, hkey]
    · split
      · next he => simp [get?, hkey, ← he]
      · by_cases he : entry.1 = wanted
        · simp [get?, he]
        · simpa [get?, List.find?_cons, he] using ih

/-! ## The order of keys -/

/-- Putting adds one key and loses none. -/
theorem mem_keys_put {options : Options} {key value other : String}
    (h : other ∈ (options.put key value).map (·.1)) : other = key ∨ other ∈ options.map (·.1) := by
  induction options with
  | nil => simpa [put] using h
  | cons entry rest ih =>
    simp only [put] at h
    split at h
    · simpa using h
    · split at h
      · rcases List.mem_cons.1 h with h | h
        · exact .inl h
        · exact .inr (List.mem_cons_of_mem _ h)
      · rcases List.mem_cons.1 h with h | h
        · exact .inr (h ▸ List.mem_cons_self)
        · exact (ih h).imp id (List.mem_cons_of_mem _)

theorem ascending_put {options : Options} (key value : String) (h : options.Ascending) :
    (options.put key value).Ascending := by
  induction options with
  | nil => simp [put, Ascending]
  | cons entry rest ih =>
    obtain ⟨above, hrest⟩ := List.pairwise_cons.1 h
    simp only [put]
    split
    · next hlt =>
      refine List.pairwise_cons.2 ⟨fun other hm => ?_, h⟩
      rcases List.mem_cons.1 hm with rfl | hm
      · exact hlt
      · exact String.lt_trans hlt (above other hm)
    · next hlt =>
      split
      · next he => exact List.pairwise_cons.2 ⟨fun other hm => he ▸ above other hm, hrest⟩
      · next hne =>
        refine List.pairwise_cons.2 ⟨fun other hm => ?_, ih hrest⟩
        rcases mem_keys_put hm with rfl | hm
        · exact Text.lt_of_not_lt_of_ne hlt hne
        · exact above other hm

theorem ascending_ofList (pairs : List (String × String)) : (ofList pairs).Ascending := by
  suffices h : ∀ (rest : List (String × String)) (options : Options), options.Ascending →
      (rest.foldl (fun options pair => options.put pair.1 pair.2) options).Ascending from
    h pairs [] List.Pairwise.nil
  intro rest
  induction rest with
  | nil => exact fun _ h => h
  | cons pair rest ih => exact fun options h => ih _ (ascending_put pair.1 pair.2 h)

end Options

end KotlinHarness
