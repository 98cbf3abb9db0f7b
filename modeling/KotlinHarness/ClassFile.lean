/-
  The first octets of a class file: a mark, the minor version and the major version.
-/
import KotlinHarness.Text.Utf8

namespace KotlinHarness.ClassFile

/-- The octets that every class file starts with. -/
def magic : Bytes := [0xCA, 0xFE, 0xBA, 0xBE]

/-- The start of a class file of a major version. -/
def header (major : Nat) : Bytes :=
  magic ++ [0, 0, UInt8.ofNat (major / 256), UInt8.ofNat (major % 256)]

/-- The major version of a class file; none when the octets are too few or not marked. -/
def major? (bytes : Bytes) : Option Nat :=
  match bytes with
  | a :: b :: c :: d :: _ :: _ :: high :: low :: _ =>
    if [a, b, c, d] = magic then some (high.toNat * 256 + low.toNat) else none
  | _ => none

end KotlinHarness.ClassFile
