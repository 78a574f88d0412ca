import JavaSnippet.ClassFile.Release
import JavaSnippet.Name
/-!
Names and versions that an evaluation depends on.
-/
namespace JavaSnippet.Evaluation

structure Settings where
  /-- What the names of generated classes contain. Only such classes are defined in the target. -/
  marker : SimpleName := ⟨"GeneratedEvaluationClass"⟩
  /-- The class file version for a target of unknown version. -/
  defaultVersion : ClassFile.Version := .java8
  /-- The super class that generated classes are compiled with. -/
  baseSuperclass : ClassName := .object
  /-- The super class they have in the target. -/
  privilegedSuperclass : ClassName := .magicAccessor
  /-- The class of the loader that defines them. Its constructor takes an array of addresses and a
  parent. -/
  loaderClass : ClassName := .urlClassLoader
  /-- The class of the addresses. -/
  urlClass : ClassName := .url
  deriving DecidableEq, Repr, Inhabited

/-- The usual settings with another marker. -/
def Settings.withMarker (text : String) : Except NameFault Settings :=
  (SimpleName.ofString text).map fun marker => { marker }

end JavaSnippet.Evaluation
