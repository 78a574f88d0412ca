import JavaSnippet.Target.Fault
/-!
Operations on a suspended target. A target answers each operation in turn. It never repeats one,
and the handles it answers are not protected from its garbage collector.
-/
namespace JavaSnippet.Target

/-- What a method is called on. -/
inductive Receiver where
  | static (owner : ClassRef)
  | instance (ref : ObjectRef)
  deriving DecidableEq, Repr, Inhabited

/-- An operation, indexed by what it answers when it succeeds. -/
inductive Operation : Type → Type where
  /-- Finds a class by name, as a loader sees it. The loader of the platform has no handle. -/
  | resolveClass (name : String) (loader : Option ObjectRef) : Operation ClassRef
  | newInstance (owner : ClassRef) (type : MethodType) (arguments : List Value) :
      Operation ObjectRef
  | invokeMethod (receiver : Receiver) (name : String) (type : MethodType)
      (arguments : List Value) : Operation Value
  /-- Makes a string in the target. -/
  | newString (text : String) : Operation ObjectRef
  | newArray (arrayType : ClassRef) (length : Nat) : Operation ObjectRef
  | setElement (array : ObjectRef) (index : Nat) (value : Value) : Operation Unit
  /-- Sets consecutive elements. -/
  | setElements (array : ObjectRef) (first : Nat) (values : List Value) : Operation Unit
  /-- Keeps the object from being collected. -/
  | pin (ref : ObjectRef) : Operation Unit
  /-- Lets the object be collected again. -/
  | unpin (ref : ObjectRef) : Operation Unit
  /-- The version text of the platform. -/
  | platformVersion : Operation String
  /-- The loader of the class whose code the thread is in. -/
  | contextLoader : Operation (Option ObjectRef)
  /-- Lets the thread go on. -/
  | resume : Operation Unit

/-- What comes of an operation. -/
structure Reply (σ α : Type) where
  result : Except Fault α
  /-- The state of the target afterwards. -/
  state : σ
  /-- Whether the work was cancelled while the operation ran. -/
  cancels : Bool

/-- A target with states of a type. -/
structure Target (σ : Type) where
  perform : {α : Type} → Operation α → σ → Reply σ α

/-- Sets consecutive elements one by one, up to the first that fails. -/
def setEach {σ : Type} (set : Nat → Value → σ → Reply σ Unit) (index : Nat) :
    List Value → σ → Reply σ Unit
  | [], state => ⟨.ok (), state, false⟩
  | value :: values, state =>
    let reply := set index value state
    match reply.result with
    | .error fault => ⟨.error fault, reply.state, reply.cancels⟩
    | .ok () =>
      let others := setEach set (index + 1) values reply.state
      { others with cancels := reply.cancels || others.cancels }

end JavaSnippet.Target
