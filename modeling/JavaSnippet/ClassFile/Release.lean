import JavaSnippet.Bytes
import JavaSnippet.Name
import JavaSnippet.Text.CharClass
/-!
Class file versions and the Java releases that introduced them. Since release 1.1, major version
45, every feature release has raised the major version by one.
-/
namespace JavaSnippet.ClassFile

structure Version where
  major : UInt16
  minor : UInt16
  deriving DecidableEq, Hashable, Repr, Inhabited

namespace Version

/-- The version of a feature release. -/
def ofRelease (feature : Nat) : Version :=
  ⟨(44 + feature).toUInt16, 0⟩

def java8 : Version := ofRelease 8

/-- The feature release of a version, zero for versions below the first. -/
def release (v : Version) : Nat :=
  v.major.toNat - 44

/-- A decimal number of sixteen bits. -/
def component? (digits : List Char) : Option Nat :=
  if digits.isEmpty then none
  else
    let value := digits.foldl (fun n c => n * 10 + (c.toNat - '0'.toNat)) 0
    if value < 65536 then some value else none

/-- Reads the version text of a platform, `1.8.0_292` or `17.0.2`. The release is the first number,
or the second after a leading `1`. Releases past the forty-fifth are unknown. -/
def ofPlatform? (text : String) : Option Version := do
  let components := (Text.trim text.toList).splitOnP (!Text.isDigit ·)
  let first ← components.head?
  let number ← component? first
  let feature ← if number = 1 then components[1]?.bind component? else some number
  if 1 ≤ feature ∧ feature ≤ 45 then some (ofRelease (max feature 2)) else none

/-- The minor version comes first. -/
def encode (v : Version) : List UInt8 :=
  Bytes.ofUInt16 v.minor ++ Bytes.ofUInt16 v.major

end Version

end JavaSnippet.ClassFile
