import JavaSnippet.Typing.Overload
import JavaSnippet.Typing.TypeScope
import Std.Data.HashMap
/-!
Typing of method bodies. A body is gone through once; after a problem in a statement the next one
is looked at, so that several problems can be reported together.
-/
namespace JavaSnippet.Typing

open Source

structure LocalVar where
  type : FieldType
  /-- Whether the variable holds a value at this point. -/
  assigned : Bool
  isFinal : Bool
  deriving Repr, Inhabited

/-- The variables declared so far. -/
structure Variables where
  locals : Array LocalVar
  numbers : Std.HashMap String Nat

namespace Variables

def empty : Variables := ⟨#[], ∅⟩

def declares (v : Variables) (name : String) : Bool := v.numbers.contains name

/-- The number of a variable and what is known of it. -/
def find? (v : Variables) (name : String) : Option (Nat × LocalVar) :=
  match v.numbers[name]? with
  | some id => v.locals[id]?.map fun state => (id, state)
  | none => none

/-- Adds a variable, whose number is `v.locals.size`. -/
def declare (v : Variables) (name : String) (state : LocalVar) : Variables :=
  ⟨v.locals.push state, v.numbers.insert name v.locals.size⟩

def update (v : Variables) (id : Nat) (f : LocalVar → LocalVar) : Variables :=
  { v with locals := v.locals.modify id f }

/-- The parameters of a method, which hold values from the start. -/
def ofSignature (s : Signature) : Variables :=
  (s.parameterNames.zip s.type.parameters).foldl
    (fun v p => v.declare p.1 ⟨p.2, true, false⟩) empty

end Variables

/-- Where an expression stands. -/
structure Place where
  scope : TypeScope
  /-- The enclosing classes, outermost first. -/
  enclosing : List ClassName
  vars : Variables

namespace Place

variable (place : Place)

def path : ClassPath := place.scope.classPath

/-- The dotted name of an expression, unless it starts with a variable. -/
def typePath? (e : Expr) : Option Path :=
  match e.path? with
  | some p => if place.vars.declares p.head then none else some p
  | none => none

/-- The class that the receiver of a call names, if it names one. -/
def classReceiver (e : Expr) : Except Problem (Option ClassName) :=
  match place.typePath? e with
  | none => .ok none
  | some p =>
    match place.scope.resolve p place.enclosing with
    | .ok name => .ok (some name)
    | .error cause =>
      if p.tail.isEmpty then reportAt e.line (.unknownVariable p.head) else reportAt e.line cause

/-- The part of a dotted name that is not found: its member if the rest names a class, else its
head. -/
def missingPart (p : Path) (member : String) : String :=
  match place.scope.resolve ⟨p.head, p.tail.dropLast⟩ place.enclosing with
  | .ok _ => member
  | .error _ => p.head

/-- Chooses a method of a class. -/
def choose (owner : ClassName) (name : String) (args : List Term) : Except Cause MethodData :=
  select place.path (place.path.visibleMethods owner name) owner name (args.map Term.type)

/-- A call of a static method of a class. -/
def staticCall (owner : ClassName) (name : String) (args : List Term) : Except Cause Term := do
  let m ← place.choose owner name args
  if m.isStatic then return .callStatic owner m.name m.type (passAll place.path args m.type)
  else throw (.nonStatic name m.type.parameters)

/-- A call without receiver goes to the innermost enclosing class with a method of the name. -/
def plainCall (name : String) (args : List Term) : Except Cause Term :=
  match place.enclosing.reverse.find? fun c => !(place.path.visibleMethods c name).isEmpty with
  | some owner => place.staticCall owner name args
  | none => .error (.unknownMethod .method name (args.map Term.type))

/-- The class whose methods a receiver has. -/
def receiverClass (t : ExprType) : Except Cause ClassName :=
  match t with
  | .value type =>
    match type.class? with
    | some name => .ok name
    | none => if type.isReference then .ok .object else .error (.notDereferenced t)
  | _ => .error (.notDereferenced t)

/-- A call on a value. A static method drops it. -/
def memberCall (receiver : Term) (name : String) (args : List Term) : Except Cause Term := do
  let owner ← receiverClass receiver.type
  let m ← place.choose owner name args
  let passed := passAll place.path args m.type
  if m.isStatic then return .callStaticOn receiver owner m.name m.type passed
  else return .callInstance receiver (place.path.isInterface owner) owner m.name m.type passed

def creation (owner : ClassName) (args : List Term) : Except Cause Term := do
  if place.path.isInterface owner then throw (.abstractClass owner)
  let m ← place.choose owner "<init>" args
  return .create owner m.type (passAll place.path args m.type)

/-- Adds a part to a concatenation, or starts one. -/
def concatenate : Term → Term → Term
  | .concat parts, right => .concat (parts ++ [right])
  | left, right => .concat [left, right]

/-- Brings an integer to the width of an operation. -/
def promote : IntWidth → Term → Term
  | .long, t => if t.type.isLong then t else .widen t
  | .int, t => t

def binary (op : ArithOp) (left right : Term) : Except Cause Term :=
  if op = .add ∧ (left.type.isString || right.type.isString) then .ok (concatenate left right)
  else if !left.type.isIntegral || !right.type.isIntegral then
    .error (.badOperands op left.type right.type)
  else
    let width := if left.type.isLong || right.type.isLong then IntWidth.long else .int
    .ok (.arith op width (promote width left) (promote width right))

def negation (operand : Term) : Except Cause Term :=
  if !operand.type.isIntegral then .error (.badOperand operand.type)
  else .ok (.neg (if operand.type.isLong then .long else .int) operand)

/-- The term as a value that is used. -/
def used (line : Nat) (t : Term) : Except Problem Term :=
  if t.type = .void then reportAt line .voidValue else .ok t

def intLiteral (value : Int) : Except Cause Term :=
  match int32? value with
  | some n => .ok (.int n)
  | none => .error (.numberTooLarge value.natAbs)

def longLiteral (value : Int) : Except Cause Term :=
  match int64? value with
  | some n => .ok (.long n)
  | none => .error (.numberTooLarge value.natAbs)

def variableTerm (name : String) : Except Cause Term :=
  match place.vars.find? name with
  | none => .error (.unknownVariable name)
  | some (id, state) =>
    if state.assigned then .ok (.localVar id state.type) else .error (.uninitialized name)

mutual

def expression : Expr → Except Problem Term
  | .int value line => onLine line (intLiteral value)
  | .long value line => onLine line (longLiteral value)
  | .string text _ => .ok (.string text)
  | .bool value _ => .ok (.bool value)
  | .null _ => .ok .null
  | .name text line => onLine line (place.variableTerm text)
  | .select qualifier member line =>
    match place.typePath? (.select qualifier member line) with
    | some p => reportAt line (.unknownVariable (place.missingPart p member))
    | none => do
      let _ ← used qualifier.line (← expression qualifier)
      reportAt line (.unknownVariable member)
  | .neg operand line => do
    onLine line (negation (← used operand.line (← expression operand)))
  | .binary op left right line => do
    let l ← used left.line (← expression left)
    let r ← used right.line (← expression right)
    onLine line (binary op l r)
  | .call method args line => do
    onLine line (place.plainCall method (← expressions args))
  | .callOn receiver method args line => do
    let owner ← place.classReceiver receiver
    let passed ← expressions args
    match owner with
    | some owner => onLine line (place.staticCall owner method passed)
    | none =>
      let target ← used receiver.line (← expression receiver)
      onLine line (place.memberCall target method passed)
  | .create type args line => do
    let owner ← onLine line (place.scope.resolve type.path place.enclosing)
    onLine line (place.creation owner (← expressions args))

/-- Expressions whose values are used, in order. -/
def expressions : List Expr → Except Problem (List Term)
  | [] => .ok []
  | e :: rest => do
    let t ← used e.line (← expression e)
    return t :: (← expressions rest)

end

/-- An expression whose value is used. -/
def value (e : Expr) : Except Problem Term := do
  used e.line (← place.expression e)

/-- An expression converted to the type of what it is assigned to. -/
def assigned (e : Expr) (wanted : FieldType) : Except Problem Term := do
  onLine e.line (convert place.path (← place.value e) wanted)

end Place

/-- The method whose body is being typed. -/
structure MethodContext where
  scope : TypeScope
  enclosing : List ClassName
  signature : Signature

namespace MethodContext

variable (c : MethodContext)

def place (v : Variables) : Place := ⟨c.scope, c.enclosing, v⟩

/-- A declaration. The variable is known afterwards even if its value is wrong. -/
def declaration (v : Variables) (type : TypeName) (name : String) (isFinal : Bool)
    (value : Option Expr) (line : Nat) : Except Problem TypedStmt × Variables :=
  if v.declares name then (reportAt line (.redefined name c.signature), v)
  else
    match onLine type.line (c.scope.resolveType type c.enclosing) with
    | .error problem => (.error problem, v)
    | .ok fieldType =>
      let id := v.locals.size
      let declared := v.declare name ⟨fieldType, false, false⟩
      match value with
      | none =>
        (.ok (.declare id none), declared.update id fun s => { s with isFinal })
      | some e =>
        let filled := declared.update id fun s => { s with assigned := true }
        match (c.place declared).assigned e fieldType with
        | .error problem => (.error problem, filled)
        | .ok t => (.ok (.declare id (some t)), filled.update id fun s => { s with isFinal })

def assignment (v : Variables) (name : String) (value : Expr) (line : Nat) :
    Except Problem TypedStmt × Variables :=
  match v.find? name with
  | none => (reportAt line (.unknownVariable name), v)
  | some (id, state) =>
    if state.isFinal && state.assigned then (reportAt line (.finalAssigned name), v)
    else
      match (c.place v).assigned value state.type with
      | .error problem => (.error problem, v)
      | .ok t => (.ok (.store id t), v.update id fun s => { s with assigned := true })

def returning (v : Variables) (value : Option Expr) (line : Nat) : Except Problem TypedStmt :=
  match value, c.signature.type.result with
  | none, none => .ok (.returns none)
  | some _, none => reportAt line .unexpectedReturnValue
  | none, some _ => reportAt line .missingReturnValue
  | some e, some type => do return .returns (some (← (c.place v).assigned e type))

def throwing (v : Variables) (value : Expr) : Except Problem TypedStmt := do
  let t ← (c.place v).value value
  if isAssignable c.scope.classPath t.type (.object .throwable) then return .throws t
  else reportAt value.line (.notThrowable t.type)

/-- Types a statement, and tells which variables there are after it. -/
def statement (v : Variables) : Stmt → Except Problem TypedStmt × Variables
  | .declare type name isFinal value line => c.declaration v type name isFinal value line
  | .assign name value line => c.assignment v name value line
  | .returns value line => (c.returning v value line, v)
  | .throws value _ => (c.throwing v value, v)
  | .expr value => (((c.place v).expression value).map .expr, v)

/-- Whether the statement after this one is never reached. -/
def leaves : Stmt → Bool
  | .returns _ _ | .throws _ _ => true
  | _ => false

/-- A body being typed. What was found comes last first. -/
structure Progress where
  vars : Variables
  body : List TypedStmt
  problems : List Problem

/-- Types statements until one is unreachable, and tells whether the end is reached. -/
def statements (p : Progress) : List Stmt → Progress × Bool
  | [] => (p, true)
  | s :: rest =>
    let (result, vars) := c.statement p.vars s
    let next : Progress :=
      match result with
      | .ok t => ⟨vars, t :: p.body, p.problems⟩
      | .error problem => ⟨vars, p.body, problem :: p.problems⟩
    if leaves s then
      match rest with
      | [] => (next, false)
      | after :: _ =>
        ({ next with problems := ⟨after.line, .unreachable⟩ :: next.problems }, false)
    else statements next rest

/-- Types a method body, and lists the problems in it. -/
def body (stmts : List Stmt) : TypedMethod × List Problem :=
  let (p, reachesEnd) := c.statements ⟨.ofSignature c.signature, [], []⟩ stmts
  let missing : List Problem :=
    if reachesEnd && c.signature.type.result.isSome then [⟨c.signature.line, .missingReturn⟩]
    else []
  (⟨c.signature, (p.vars.locals.map (·.type)).toList, p.body.reverse, reachesEnd⟩,
    p.problems.reverse ++ missing)

end MethodContext

end JavaSnippet.Typing
