import JavaSnippet.ClassFile.Release
/-!
What is asked for on the command line: to compile sources into class files, or to replace the super
class of class files in place.
-/
namespace JavaSnippet

inductive Job where
  /-- Compiles sources against the platform and some class files, into a directory. -/
  | compile (version : ClassFile.Version) (out : String) (classes sources : List String)
  | patch (source replacement : ClassName) (files : List String)
  deriving DecidableEq, Repr

inductive Misuse where
  | noJob
  | unknownJob (word : String)
  | unknownOption (word : String)
  | missingValue (word : String)
  | noFiles
  | unknownRelease (text : String)
  | badName (fault : NameFault)
  deriving DecidableEq, Repr

def Misuse.message : Misuse → String
  | noJob => "compile or patch expected"
  | unknownJob word => s!"unknown job {word}: compile or patch expected"
  | unknownOption word => s!"unknown option {word}"
  | missingValue word => s!"value expected after {word}"
  | noFiles => "files expected"
  | unknownRelease text => s!"unknown release {text}"
  | badName fault => fault.message

/-- The arguments of a job: options with their values, and files. -/
structure Arguments where
  options : List (String × String)
  files : List String
  deriving DecidableEq, Repr

namespace Arguments

def isOption (word : String) : Bool := ['-', '-'].isPrefixOf word.toList

/-- Tells options from files. -/
def ofWords (known : List String) : List String → Except Misuse Arguments
  | [] => .ok ⟨[], []⟩
  | [word] =>
    if isOption word then .error (.missingValue word) else .ok ⟨[], [word]⟩
  | word :: value :: rest => do
    if !isOption word then
      let others ← ofWords known (value :: rest)
      return { others with files := word :: others.files }
    else if word ∈ known then
      let others ← ofWords known rest
      return { others with options := (word, value) :: others.options }
    else throw (.unknownOption word)

/-- The first value of an option, or else the usual one. -/
def value (a : Arguments) (name usual : String) : String :=
  (a.options.lookup name).getD usual

/-- All values of an option, in order. -/
def values (a : Arguments) (name : String) : List String :=
  (a.options.filter (·.1 == name)).map (·.2)

def someFiles (a : Arguments) : Except Misuse (List String) :=
  if a.files.isEmpty then .error .noFiles else .ok a.files

end Arguments

namespace Job

def compileOfWords (words : List String) : Except Misuse Job := do
  let a ← Arguments.ofWords ["--release", "--out", "--class"] words
  let release := a.value "--release" "8"
  match ClassFile.Version.ofPlatform? release with
  | none => throw (.unknownRelease release)
  | some version =>
    return .compile version (a.value "--out" ".") (a.values "--class") (← a.someFiles)

def patchOfWords (words : List String) : Except Misuse Job := do
  let a ← Arguments.ofWords ["--from", "--to"] words
  let source ← (ClassName.ofString (a.value "--from" ClassName.object.text)).mapError .badName
  let replacement ←
      (ClassName.ofString (a.value "--to" ClassName.magicAccessor.text)).mapError .badName
  return .patch source replacement (← a.someFiles)

/-- The job that the words of a command line ask for. -/
def ofWords : List String → Except Misuse Job
  | [] => .error .noJob
  | "compile" :: words => compileOfWords words
  | "patch" :: words => patchOfWords words
  | word :: _ => .error (.unknownJob word)

end Job

end JavaSnippet
