import JavaSnippet.Arithmetic
import JavaSnippet.ClassFile.Flags
import JavaSnippet.Descriptor.Source
/-!
Typed method bodies. Every name is resolved, every overload is chosen and every conversion is
written out, so the type of a term can be read off it.
-/
namespace JavaSnippet.Typing

/-- What evaluating an expression yields. -/
inductive ExprType where
  | void
  | null
  | value (type : FieldType)
  deriving DecidableEq, Repr, Inhabited

namespace ExprType

def base? : ExprType → Option BaseType
  | value t => t.base?
  | _ => none

def isString (t : ExprType) : Bool := t == value .string

/-- Whether arithmetic is defined on values of the type. -/
def isIntegral (t : ExprType) : Bool :=
  match t.base? with
  | some b => b.isIntegral
  | none => false

def isLong (t : ExprType) : Bool := t.base? == some .long

/-- The type as messages about source show it. -/
def shortForm : ExprType → String
  | void => "void"
  | null => "<null>"
  | value t => t.shortForm

end ExprType

inductive Term where
  | int (value : Int32)
  | long (value : Int64)
  | string (text : String)
  | bool (value : Bool)
  | null
  | localVar (id : Nat) (type : FieldType)
  | neg (width : IntWidth) (operand : Term)
  /-- Both operands have the width of the result. -/
  | arith (op : ArithOp) (width : IntWidth) (left right : Term)
  /-- An integer made a `long`. -/
  | widen (operand : Term)
  | concat (parts : List Term)
  | callStatic (owner : ClassName) (method : String) (type : MethodType) (args : List Term)
  /-- A static call through a receiver, which is evaluated first and dropped. -/
  | callStaticOn (receiver : Term) (owner : ClassName) (method : String) (type : MethodType)
    (args : List Term)
  | callInstance (receiver : Term) (ofInterface : Bool) (owner : ClassName) (method : String)
    (type : MethodType) (args : List Term)
  | create (owner : ClassName) (type : MethodType) (args : List Term)
  deriving Repr, Inhabited

def resultType (m : MethodType) : ExprType :=
  match m.result with
  | none => .void
  | some t => .value t

def widthType : IntWidth → ExprType
  | .int => .value .int
  | .long => .value .long

def Term.type : Term → ExprType
  | int _ => .value .int
  | long _ => .value .long
  | string _ => .value .string
  | bool _ => .value .boolean
  | null => .null
  | localVar _ type => .value type
  | neg width _ => widthType width
  | arith _ width _ _ => widthType width
  | widen _ => .value .long
  | concat _ => .value .string
  | callStatic _ _ type _ => resultType type
  | callStaticOn _ _ _ type _ => resultType type
  | callInstance _ _ _ _ type _ => resultType type
  | create owner _ _ => .value (.object owner)

inductive TypedStmt where
  | declare (id : Nat) (value : Option Term)
  | store (id : Nat) (value : Term)
  | returns (value : Option Term)
  | throws (value : Term)
  | expr (value : Term)
  deriving Repr, Inhabited

/-- What is known of a declared method before its body is looked at. -/
structure Signature where
  name : String
  flags : ClassFile.Flags .method
  parameterNames : List String
  type : MethodType
  line : Nat
  deriving Repr, Inhabited

/-- A method name with parameter types, as messages show it. -/
def callForm (name : String) (types : List String) : String :=
  name ++ "(" ++ String.intercalate "," types ++ ")"

def Signature.shortForm (s : Signature) : String :=
  callForm s.name (s.type.parameters.map FieldType.shortForm)

structure TypedMethod where
  signature : Signature
  /-- The types of the local variables by number, parameters first. -/
  locals : List FieldType
  body : List TypedStmt
  /-- Whether control reaches the end of the body. -/
  fallsThrough : Bool
  deriving Repr, Inhabited

end JavaSnippet.Typing
