import JavaSnippet.ClassFile.Superclass
import JavaSnippet.Descriptor.Source
import JavaSnippet.Evaluation.Progress
import JavaSnippet.Evaluation.Settings
/-!
Classes defined in the target through a loader of their own. The loader is a child of the one that
loaded the code the thread is in, so the classes see what that code sees.
-/
namespace JavaSnippet.Evaluation

open Target Compile

variable {σ : Type} (target : Target σ)

/-- Arrays of addresses. -/
def Settings.urls (settings : Settings) : FieldType :=
  (FieldType.object settings.urlClass).array

/-- Makes a loader with an empty search path. -/
def makeLoader (settings : Settings) : Suspension.Act σ ObjectRef := do
  let parent ← Suspension.send target .contextLoader
  let loaderClass ← Suspension.resolveClass target settings.loaderClass.dotted parent
  let urlsClass ← Suspension.resolveClass target settings.urls.source parent
  let urls ← Suspension.newArray target urlsClass 0
  Suspension.newInstance target loaderClass ⟨[settings.urls, .object .classLoader], none⟩
    [.object urls, .ofRef? parent]

/-- The generated units, with the privileged super class instead of the one they were compiled
with. -/
def generatedUnits (settings : Settings) (units : List CompiledUnit) :
    Except Fault (List CompiledUnit) :=
  (units.filter (·.isGenerated settings.marker.text)).mapM fun unit =>
    match ClassFile.replaceSuper unit.bytes settings.baseSuperclass
        settings.privilegedSuperclass with
    | .ok patch => .ok { unit with bytes := patch.bytes unit.bytes }
    | .error fault => .error (.codeGeneration (.superclass unit.qualifiedName fault))

/-- The type of the loader's method that defines a class: name, bytes, first byte and length. -/
def defineType : MethodType :=
  ⟨[.string, FieldType.byte.array, .int, .int], some (.object .classObject)⟩

def byteValue (b : UInt8) : Value := .primitive (.byte b.toInt8)

def intValue (n : Nat) : Value := .primitive (.int (Int32.ofNat n))

/-- Defines one class. -/
def defineUnit (bytesClass : ClassRef) (loader : ObjectRef) (unit : CompiledUnit) :
    Suspension.Act σ Unit := do
  let name ← Suspension.newString target unit.qualifiedName
  let bytes ← Suspension.newArray target bytesClass unit.bytes.length
  Suspension.setElements target bytes 0 (unit.bytes.map byteValue)
  let _ ← Suspension.invokeMethod target (.instance loader) "defineClass" defineType
    [.object name, .object bytes, intValue 0, intValue unit.bytes.length]

/-- Defines classes in order. The length of each has to fit in an `int`. -/
def defineUnits (bytesClass : ClassRef) (loader : ObjectRef) : List CompiledUnit → Work σ Unit
  | [] => pure ()
  | unit :: units => do
    if intLimit ≤ unit.bytes.length then
      throw (.tooling s!"class {unit.qualifiedName} is too large")
    .onTarget .ofEnvironment (defineUnit target bytesClass loader unit)
    defineUnits bytesClass loader units

/-- The fault for a generated class that the loader does not find. -/
def notVisible (name : String) : Target.Fault → Fault
  | .cancelled => .cancelled
  | _ => .classResolution name

/-- Defines classes, then looks up the one the call is for. -/
def defineClasses (loader : ObjectRef) (units : List CompiledUnit) (name : String) :
    Work σ ClassRef := do
  let bytesClass ← .onTarget .ofEnvironment
    (Suspension.resolveClass target FieldType.byte.array.source none)
  defineUnits target bytesClass loader units
  .onTarget (notVisible name) (Suspension.resolveClass target name (some loader))

end JavaSnippet.Evaluation
