/-
  System properties that exist while someone overrides them.

  Each key has a stack of live overrides, oldest first; the value of the key is the one set last
  among them.  Overrides carry the number of the scope that set them and may be released in any
  order: releasing one takes it out of the middle of the stack, and a key without overrides is
  forgotten.
-/
import KotlinHarness.Options

namespace KotlinHarness

/-- The number of a scope; no two scopes share one. -/
abbrev ScopeId := Nat

/-- A value that a scope gives to a key. -/
structure Override where
  scope : ScopeId
  value : String
  deriving DecidableEq, Inhabited

/-- The live overrides of every key that has some, keys ascending. -/
structure Properties where
  overrides : List (String × List Override)
  deriving DecidableEq, Inhabited

namespace Properties

/-- Nothing is overridden. -/
def empty : Properties := ⟨[]⟩

/-- The overrides of a key, oldest first. -/
def stack (properties : Properties) (key : String) : List Override :=
  ((properties.overrides.find? (·.1 == key)).map (·.2)).getD []

/-- The value set last among the live overrides of a key. -/
def get? (properties : Properties) (key : String) : Option String :=
  (properties.stack key).getLast?.map (·.value)

/-- Every key in effect with its value, keys ascending. -/
def snapshot (properties : Properties) : Options :=
  properties.overrides.filterMap fun (key, stack) => stack.getLast?.map fun top => (key, top.value)

/-- `overrides` with an override put on top of the stack of `key`. -/
def pushOn (key : String) (top : Override) : List (String × List Override) →
    List (String × List Override)
  | [] => [(key, [top])]
  | (other, stack) :: rest =>
    if key < other then (key, [top]) :: (other, stack) :: rest
    else if key = other then (key, stack ++ [top]) :: rest
    else (other, stack) :: pushOn key top rest

/-- A scope sets a key. -/
def set (properties : Properties) (scope : ScopeId) (key value : String) : Properties :=
  ⟨pushOn key ⟨scope, value⟩ properties.overrides⟩

/-- A scope takes its override of a key back. -/
def release (properties : Properties) (scope : ScopeId) (key : String) : Properties :=
  ⟨properties.overrides.filterMap fun (other, stack) =>
    if other = key then
      let kept := stack.filter (·.scope != scope)
      if kept.isEmpty then none else some (other, kept)
    else some (other, stack)⟩

/-- Properties as options of a Java machine, parted by blanks. -/
def javaOptions (pairs : Options) : String :=
  String.intercalate " " (pairs.map fun (key, value) => "-D" ++ key ++ "=" ++ value)

/-- The property that turns off the native file system helper of the compiler on Windows. -/
def nativeFileSystem : String := "idea.use.native.fs.for.win"

end Properties

end KotlinHarness
