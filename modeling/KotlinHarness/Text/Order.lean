/-
  The order of texts: by code point, which is the order of their UTF-8 octets.
-/

namespace KotlinHarness.Text

/-- Of two different texts one is smaller. -/
theorem lt_of_not_lt_of_ne {a b : String} (hlt : ¬ a < b) (hne : a ≠ b) : b < a := by
  apply Classical.byContradiction
  intro h
  exact hne (String.le_antisymm h hlt)

end KotlinHarness.Text
