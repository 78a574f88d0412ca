import JavaSnippet.Proofs.Wire.Remembering
import Mathlib.Data.List.Nodup
/-!
Searches for methods in the operations of a session. All that an operation does is to ask requests
that have nothing to do with methods and to search for methods, so whatever a session is used for,
its searches come out as without anything remembered.
-/
namespace JavaSnippet.Wire

open Target

namespace Session

variable {α : Type}

theorem searches_className (type : UInt64) : Searches (className type) := by
  refine (searches_ask (.signature type) rfl).bind fun signature => ?_
  cases FieldType.parse signature with
  | ok t => exact searches_pure _
  | error _ => exact searches_raise _

theorem searches_invokeOn (object type method : UInt64) (arguments : List Value) :
    Searches (invokeOn object type method arguments) :=
  searches_get fun s =>
    searches_ask (.invokeInstance object type ⟨s.thread, method, arguments, singleThreaded⟩) rfl

theorem searches_exceptionMessage (exception : ObjectRef) :
    Searches (exceptionMessage exception) := by
  refine (searches_ask (.referenceType exception.id) rfl).bind fun type => ?_
  refine (searches_findMethod _ _ _ _).bind fun method => ?_
  refine (searches_invokeOn _ _ _ _).bind fun outcome => ?_
  cases outcome with
  | mk value thrown =>
    cases thrown with
    | some _ => exact searches_pure none
    | none =>
      cases value with
      | object message =>
        exact (searches_ask (.stringValue message.id) rfl).bind fun _ => searches_pure _
      | void | null | primitive _ => exact searches_pure none

theorem searches_exceptionClass (exception : ObjectRef) : Searches (exceptionClass exception) :=
  (searches_ask (.referenceType exception.id) rfl).bind fun _ => searches_className _

theorem searches_describe (exception : ObjectRef) : Searches (describe exception) :=
  (searches_ask (.disableCollection exception.id) rfl).attempt.bind fun _ =>
    (searches_exceptionClass exception).attempt.bind fun _ =>
      (searches_exceptionMessage exception).attempt.bind fun _ =>
        (searches_ask (.enableCollection exception.id) rfl).attempt.bind fun _ => searches_pure _

theorem searches_returned (outcome : CallOutcome α) : Searches (returned outcome) := by
  cases outcome with
  | mk value thrown =>
    cases thrown with
    | none => exact searches_pure value
    | some exception => exact (searches_describe exception).bind fun _ => searches_raise _

theorem searches_firstVisible (types : List UInt64) (loader : Option ObjectRef) :
    Searches (firstVisible types loader) := by
  cases loader with
  | some loader =>
    exact (searches_ask (.visibleClasses loader.id) rfl).bind fun _ => searches_pure _
  | none =>
    show Searches (firstOfPlatform types)
    induction types with
    | nil => exact searches_pure none
    | cons type types ih =>
      refine (searches_ask (.classLoader type) rfl).bind fun loader => ?_
      split
      · exact searches_pure _
      · exact ih

theorem searches_callLoader (loader : ObjectRef) (type method : UInt64) (text : String) :
    Searches (callLoader loader type method text) := by
  refine (searches_ask (.createString text) rfl).bind fun name => ?_
  refine (searches_ask (.disableCollection name) rfl).bind fun _ => ?_
  refine (searches_invokeOn loader.id type method _).attempt.bind fun outcome => ?_
  refine (searches_ask (.enableCollection name) rfl).bind fun _ => ?_
  cases outcome with
  | ok outcome => exact searches_pure outcome
  | error fault => exact searches_raise fault

theorem searches_loadClass (name : String) (loader : ObjectRef) :
    Searches (loadClass name loader) := by
  delta loadClass
  split
  · exact searches_raise _
  · refine (searches_ask (.referenceType loader.id) rfl).bind fun type => ?_
    refine (searches_findMethod _ _ _ _).bind fun method => ?_
    refine (searches_callLoader loader _ _ name).bind fun outcome => ?_
    cases outcome with
    | mk value thrown =>
      cases thrown with
      | some exception => exact (searches_describe exception).bind fun _ => searches_raise _
      | none =>
        cases value with
        | object found =>
          exact (searches_ask (.reflectedType found.id) rfl).bind fun _ => searches_pure _
        | void | null | primitive _ => exact searches_raise _

theorem searches_resolveClass (name : String) (loader : Option ObjectRef) :
    Searches (resolveClass name loader) := by
  delta resolveClass
  cases FieldType.ofSource name with
  | error _ => exact searches_raise _
  | ok t =>
    refine (searches_ask (.classesBySignature t.render) rfl).bind fun loaded => ?_
    refine (searches_firstVisible _ loader).bind fun found => ?_
    cases found with
    | some type => exact searches_pure _
    | none =>
      cases loader with
      | some loader => exact searches_loadClass name loader
      | none => exact searches_raise _

theorem searches_check (type : MethodType) (arguments : List Value) :
    Searches (check type arguments) := by
  delta check
  cases checkArguments type arguments with
  | ok _ => exact searches_pure _
  | error fault => exact searches_raise fault

theorem searches_newInstance (owner : ClassRef) (type : MethodType) (arguments : List Value) :
    Searches (newInstance owner type arguments) := by
  refine (searches_check type arguments).bind fun _ => ?_
  refine (searches_findMethod _ _ _ _).bind fun method => searches_get fun s => ?_
  refine (searches_ask (.newInstance owner.id _) rfl).bind fun outcome => ?_
  refine (searches_returned outcome).bind fun ref => ?_
  cases ref with
  | some ref => exact searches_pure ref
  | none => exact searches_raise _

theorem searches_invokeMethod (receiver : Receiver) (name : String) (type : MethodType)
    (arguments : List Value) : Searches (invokeMethod receiver name type arguments) := by
  refine (searches_check type arguments).bind fun _ => ?_
  cases receiver with
  | static owner =>
    refine (searches_findMethod _ _ _ _).bind fun method => searches_get fun s => ?_
    exact (searches_ask (.invokeStatic owner.id _) rfl).bind searches_returned
  | «instance» ref =>
    refine (searches_ask (.referenceType ref.id) rfl).bind fun owner => ?_
    refine (searches_findMethod _ _ _ _).bind fun method => ?_
    exact (searches_invokeOn _ _ _ _).bind searches_returned

theorem searches_contextLoader : Searches contextLoader := by
  refine searches_get fun s => ?_
  cases s.location with
  | none => exact searches_pure none
  | some location =>
    exact (searches_ask (.classLoader location.owner) rfl).bind fun _ => searches_pure _

theorem searches_resume : Searches resume := by
  refine searches_get fun s => ?_
  split
  · exact searches_pure ()
  · split
    · exact searches_ask .resumeAll rfl
    · exact searches_ask (.resumeThread s.thread) rfl

theorem searches_perform (operation : Operation α) : Searches (perform operation) := by
  cases operation with
  | resolveClass name loader => exact searches_resolveClass name loader
  | newInstance owner type arguments => exact searches_newInstance owner type arguments
  | invokeMethod receiver name type arguments =>
    exact searches_invokeMethod receiver name type arguments
  | newString text => exact (searches_ask (.createString text) rfl).bind fun _ => searches_pure _
  | newArray arrayType length => exact searches_ask (.newArray arrayType.id length) rfl
  | setElement array index value => exact searches_ask (.setElements array.id index [value]) rfl
  | setElements array first values => exact searches_ask (.setElements array.id first values) rfl
  | pin ref => exact searches_ask (.disableCollection ref.id) rfl
  | unpin ref => exact searches_ask (.enableCollection ref.id) rfl
  | platformVersion => exact (searches_ask .version rfl).bind fun _ => searches_pure _
  | contextLoader => exact searches_contextLoader
  | resume => exact searches_resume

theorem searches_render (value : Value) : Searches (render value) := by
  cases value with
  | void | null | primitive _ => exact searches_pure _
  | object ref =>
    obtain ⟨id, kind⟩ := ref
    cases kind with
    | string => exact (searches_ask (.stringValue id) rfl).bind fun _ => searches_pure _
    | object | thread | threadGroup | classLoader | classObject | array =>
      refine (searches_ask (.referenceType id) rfl).bind fun type => ?_
      refine (searches_className _).bind fun owner => ?_
      refine (searches_findMethod _ _ _ _).bind fun method => ?_
      refine (searches_invokeOn _ _ _ _).bind fun outcome => ?_
      refine (searches_returned outcome).bind fun text => ?_
      cases text with
      | object text =>
        exact (searches_ask (.stringValue text.id) rfl).bind fun _ => searches_pure _
      | void | null | primitive _ => exact searches_pure _

end Session

/-- What one task does. -/
theorem Task.leads (task : Task) (s : Session) : ∃ moves, Session.Leads s moves (task.run s) := by
  cases task with
  | perform operation => exact Session.searches_perform operation s
  | render value => exact Session.searches_render value s

end JavaSnippet.Wire
