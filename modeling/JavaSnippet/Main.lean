import JavaSnippet.ClassFile.Superclass
import JavaSnippet.ClassPath.Compiled
import JavaSnippet.ClassPath.Platform
import JavaSnippet.CommandLine
import JavaSnippet.Compile.Compilation
/-!
The program. Files are read and written here, and everything else is done by the library.
-/
namespace JavaSnippet

/-- The result, or the end of the program with a message. -/
def orFail {ε α : Type} (message : ε → String) : Except ε α → IO α
  | .ok a => pure a
  | .error e => throw (IO.userError (message e))

def readBytes (file : String) : IO (List UInt8) := do
  return (← IO.FS.readBinFile file).toList

def writeBytes (file : String) (bytes : List UInt8) : IO Unit :=
  IO.FS.writeBinFile file ⟨bytes.toArray⟩

/-- The name of a file without its directory and its last extension. -/
def fileStem (file : String) : String :=
  let name := (splitAtEach '/' file).getLastD ""
  match splitAtEach '.' name with
  | [] | [_] => name
  | parts => String.intercalate "." parts.dropLast

/-- A source unit, named after its file. -/
def readUnit (file : String) : IO Compile.SourceUnit := do
  return ⟨fileStem file, ← IO.FS.readFile file⟩

/-- Writes a class where its package has it. -/
def writeUnit (out : String) (unit : Compile.CompiledUnit) : IO Unit := do
  let segments := splitAtEach '.' unit.qualifiedName
  let directory := String.intercalate "/" (out :: segments.dropLast)
  let name := segments.getLastD ""
  IO.FS.createDirAll directory
  writeBytes s!"{directory}/{name}.class" unit.bytes

def runJob : Job → IO Unit
  | .compile version out classes sources => do
    let units ← sources.mapM readUnit
    let application ← orFail ClassFile.Fault.message (ClassPath.ofFiles (← classes.mapM readBytes))
    let path := ClassPath.platform.chain application
    let compiled ← orFail Compile.Failure.message (Compile.compile path units version)
    compiled.forM (writeUnit out)
  | .patch source replacement files =>
    files.forM fun file => do
      let bytes ← readBytes file
      match ← orFail ClassFile.Fault.message (ClassFile.replaceSuper bytes source replacement) with
      | .unchanged => pure ()
      | .changed patched => writeBytes file patched

end JavaSnippet

open JavaSnippet in
def main (words : List String) : IO UInt32 := do
  try
    runJob (← orFail Misuse.message (Job.ofWords words))
    return 0
  catch failure =>
    IO.eprintln s!"error: {failure}"
    return 1
