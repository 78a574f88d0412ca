import JavaSnippet.ClassFile.Decode
import JavaSnippet.Evaluation.Definition
import JavaSnippet.Evaluation.StaticCall
/-!
Evaluation of source in a suspended target. The source is compiled for the version of the target,
the generated classes are defined there, and the call is made on one of them.
-/
namespace JavaSnippet.Evaluation

open Target Compile

structure Request where
  units : List SourceUnit
  /-- The dotted name of the generated class that the call is for. -/
  generated : String
  callText : String
  deriving DecidableEq, Repr, Inhabited

/-- Anything that compiles units for a class file version. -/
abbrev Compiler := List SourceUnit → ClassFile.Version → Except Failure (List CompiledUnit)

/-- Anything that makes calls of texts. -/
structure CallFactory where
  Call : Type
  /-- Builds the call of a text on the generated class, or says what is wrong with the text. -/
  build : String → ClassRef → ClassFile → Except String Call
  run : {σ : Type} → Target σ → Call → Suspension.Act σ Value

def staticCalls : CallFactory where
  Call := StaticCall
  build text generated file := (StaticCall.build text generated file).mapError CallFault.message
  run := StaticCall.run

variable {σ : Type}

/-- The version to compile for. A target that does not tell gets the default. -/
def targetVersion (target : Target σ) (settings : Settings) : Work σ ClassFile.Version :=
  fun p =>
    let (told, suspension) := Suspension.send target .platformVersion p.suspension
    let version := (told.toOption.bind ClassFile.Version.ofPlatform?).getD settings.defaultVersion
    (.ok version, { p with suspension })

/-- The class file of the generated class. -/
def generatedFile (units : List CompiledUnit) (name : String) :
    Except Fault ClassFile :=
  match units.find? (·.qualifiedName == name) with
  | none => .error (.classResolution name)
  | some unit =>
    (ClassFile.decode unit.bytes).mapError fun fault => .codeGeneration (.unreadable fault)

/-- The steps of an evaluation. -/
def steps (compiler : Compiler) (factory : CallFactory) (settings : Settings) (target : Target σ)
    (request : Request) : Work σ Value := do
  .checkActive
  let loader ← .onTarget .ofEnvironment (makeLoader target settings)
  .enter .classLoaderReady
  let version ← targetVersion target settings
  let units ← .ofExcept ((compiler request.units version).mapError .ofCompile)
  let generated ← .ofExcept (generatedUnits settings units)
  .checkActive
  let owner ← defineClasses target loader generated request.generated
  .enter .classesDefined
  let file ← .ofExcept (generatedFile generated request.generated)
  let call ← .ofExcept ((factory.build request.callText owner file).mapError fun reason =>
    .codeGeneration (.call reason))
  .enter .callResolved
  let value ← .onTarget .ofCall (factory.run target call)
  .enter .completed
  return value

/-- Evaluates a request on a suspended target. -/
def evaluate (compiler : Compiler) (factory : CallFactory) (settings : Settings)
    (target : Target σ) (request : Request) (suspension : Suspension σ) :
    Outcome × Suspension σ :=
  (steps compiler factory settings target request).run suspension

end JavaSnippet.Evaluation
