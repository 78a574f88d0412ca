import JavaSnippet.ClassFile.Decode
/-!
A new super class for a finished class file. The bytes are kept but for the slot count, the index
of the super class, and the constants appended for its name, so every slot stays where it was.
-/
namespace JavaSnippet.ClassFile

/-- The result of a change that may not apply. -/
inductive Patch where
  | unchanged
  | changed (bytes : List UInt8)
  deriving DecidableEq, Repr

/-- The bytes after a change of the input. -/
def Patch.bytes (p : Patch) (input : List UInt8) : List UInt8 :=
  match p with
  | .unchanged => input
  | .changed bytes => bytes

/-- The bytes from one offset up to another. -/
def slice (bytes : List UInt8) (start stop : Nat) : List UInt8 :=
  (bytes.drop start).take (stop - start)

/-- Makes `replacement` the super class of a class whose super class is `source`. Other classes and
interfaces stay as they are. -/
def replaceSuper (bytes : List UInt8) (source replacement : ClassName) : Except Fault Patch := do
  let (c, layout) ← decodeWithLayout bytes
  if c.isInterface || c.superName? != some source then return .unchanged
  let before := Pool.ofTable c.constants
  match Pool.classRef replacement.text before with
  | (.error overflow, _) => throw (.poolOverflow overflow)
  | (.ok index, after) =>
    return .changed <|
      bytes.take layout.poolStart ++ (Bytes.ofUInt16 after.slotCount ++
        (slice bytes (layout.poolStart + 2) layout.poolEnd ++
          ((after.constantsFrom before.slotCount).flatMap Constant.encode ++
            (slice bytes layout.poolEnd layout.superClass ++ (Bytes.ofUInt16 index ++
              bytes.drop (layout.superClass + 2))))))

end JavaSnippet.ClassFile
