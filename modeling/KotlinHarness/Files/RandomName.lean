/-
  Random names.

  Six letters or digits that chance gives, to tell apart what is made again and again under one
  mark.
-/

namespace KotlinHarness

/-- A name that chance gives. -/
structure RandomName where
  chars : List Char
  length_eq : chars.length = 6
  isAlphanum : ∀ c ∈ chars, c.isAlphanum = true

namespace RandomName

/-- The letter or digit of a number below 62. -/
def symbol (n : Nat) : Char :=
  if n < 10 then Char.ofNat (n + 48) else if n < 36 then Char.ofNat (n + 55) else Char.ofNat (n + 61)

theorem isAlphanum_symbol : ∀ n < 62, (symbol n).isAlphanum = true := by decide

/-- The name that the lowest places of a number give. -/
def ofNat (n : Nat) : RandomName where
  chars := [5, 4, 3, 2, 1, 0].map fun place => symbol (n / Nat.pow 62 place % 62)
  length_eq := rfl
  isAlphanum := by
    intro c hm
    obtain ⟨place, -, rfl⟩ := List.mem_map.1 hm
    exact isAlphanum_symbol _ (Nat.mod_lt _ (by decide))

instance : Inhabited RandomName := ⟨ofNat 0⟩

def text (name : RandomName) : String := String.ofList name.chars

end RandomName

end KotlinHarness
