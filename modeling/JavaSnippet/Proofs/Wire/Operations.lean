import JavaSnippet.Proofs.Wire.Borrowing
/-!
What the operations of a session ask. Most requests have nothing to do with garbage collection. The
exception of a call and the name given to a loader are kept while they are in use.
-/
namespace JavaSnippet

/-- Whether the operation pins an object or unpins one. -/
def Target.Operation.isOfPins {α : Type} : Target.Operation α → Bool
  | .pin _ | .unpin _ => true
  | _ => false

namespace Wire

open Target

namespace Session

variable {α β : Type}

/-- The work asks nothing about garbage collection. -/
abbrev Neutrally (x : Act α) : Prop := Asks x (fun _ => Neutral) fun _ => Neutral

theorem Neutrally.bind {x : Act α} {f : α → Act β} (first : Neutrally x)
    (next : ∀ a, Neutrally (f a)) : Neutrally (x >>= f) :=
  Adds.bind first next (fun _ _ _ _ front back => neutral_append.mpr ⟨front, back⟩)
    (fun _ _ h => h) fun _ _ _ _ front back => neutral_append.mpr ⟨front, back⟩

theorem neutrally_pure (a : α) : Neutrally (pure a) := Adds.pure neutral_nil

theorem neutrally_raise (fault : Target.Fault) : Neutrally (throw fault : Act α) :=
  Adds.raise neutral_nil

theorem neutrally_ask (request : Request α) (other : request.isOfCollection = false) :
    Neutrally (ask request) := by
  refine Adds.mono (asks_ask request) ?_ ?_
  · rintro a _ rfl
    exact neutral_singleton.mpr (Asked.isNeutral other _)
  · rintro _ _ ⟨fault, rfl⟩
    exact neutral_singleton.mpr (Asked.isNeutral other _)

/-- An attempt never fails. -/
theorem Neutrally.attempt {x : Act α} (h : Neutrally x) :
    Asks (Session.attempt x) (fun _ => Neutral) fun _ _ => False := by
  refine Adds.mono (asks_attempt h) ?_ fun _ _ never => never
  rintro (fault | a) log neutral <;> exact neutral

theorem attempts_ask (request : Request α) :
    Asks (attempt (ask request)) (fun _ log => ∃ result, log = [⟨request, result⟩])
      fun _ _ => False := by
  refine Adds.mono (asks_attempt (asks_ask request)) ?_ fun _ _ never => never
  rintro (fault | a) log made
  · obtain ⟨fault, rfl⟩ := made
    exact ⟨_, rfl⟩
  · exact ⟨_, made⟩

theorem neutrally_declaredMethods (type : UInt64) : Neutrally (declaredMethods type) := by
  refine asks_get fun s => ?_
  cases s.methods.lookup type with
  | some methods => exact neutrally_pure methods
  | none =>
    refine (neutrally_ask (.methods type) rfl).bind fun methods =>
      Neutrally.bind (Adds.mono (asks_remember type methods) ?_ fun _ _ h => h) fun _ =>
        neutrally_pure methods
    rintro _ _ rfl
    exact neutral_nil

theorem neutrally_searchUp (name signature : String) (inherited : Bool) (rounds : Nat)
    (type : UInt64) : Neutrally (searchUp name signature inherited rounds type) := by
  induction rounds generalizing type with
  | zero => exact neutrally_pure none
  | succ rounds ih =>
    refine (neutrally_declaredMethods type).bind fun methods => ?_
    cases methods.find? (isNamed name signature) with
    | some m => exact neutrally_pure _
    | none =>
      cases inherited with
      | false => exact neutrally_pure none
      | true =>
        refine (neutrally_ask (.superclass type) rfl).bind fun above => ?_
        cases above with
        | none => exact neutrally_pure none
        | some above => exact ih above

theorem neutrally_findMethod (type : UInt64) (name signature : String) (inherited : Bool) :
    Neutrally (findMethod type name signature inherited) := by
  refine asks_get fun s => ?_
  refine (neutrally_searchUp name signature inherited _ type).bind fun found => ?_
  cases found with
  | some m => exact neutrally_pure m
  | none => exact neutrally_raise _

theorem neutrally_className (type : UInt64) : Neutrally (className type) := by
  refine (neutrally_ask (.signature type) rfl).bind fun signature => ?_
  cases FieldType.parse signature with
  | ok t => exact neutrally_pure _
  | error _ => exact neutrally_raise _

theorem neutrally_invokeOn (object type method : UInt64) (arguments : List Value) :
    Neutrally (invokeOn object type method arguments) :=
  asks_get fun s =>
    neutrally_ask (.invokeInstance object type ⟨s.thread, method, arguments, singleThreaded⟩) rfl

theorem neutrally_exceptionMessage (exception : ObjectRef) :
    Neutrally (exceptionMessage exception) := by
  refine (neutrally_ask (.referenceType exception.id) rfl).bind fun type => ?_
  refine (neutrally_findMethod _ _ _ _).bind fun method => ?_
  refine (neutrally_invokeOn _ _ _ _).bind fun outcome => ?_
  cases outcome with
  | mk value thrown =>
    cases thrown with
    | some _ => exact neutrally_pure none
    | none =>
      cases value with
      | object message =>
        exact (neutrally_ask (.stringValue message.id) rfl).bind fun text => neutrally_pure _
      | void | null | primitive _ => exact neutrally_pure none

theorem neutrally_exceptionClass (exception : ObjectRef) :
    Neutrally (exceptionClass exception) :=
  (neutrally_ask (.referenceType exception.id) rfl).bind fun _ => neutrally_className _

theorem neutrally_firstOfPlatform (types : List UInt64) :
    Neutrally (firstOfPlatform types) := by
  induction types with
  | nil => exact neutrally_pure none
  | cons type types ih =>
    refine (neutrally_ask (.classLoader type) rfl).bind fun loader => ?_
    split
    · exact neutrally_pure _
    · exact ih

theorem neutrally_firstVisible (types : List UInt64) (loader : Option ObjectRef) :
    Neutrally (firstVisible types loader) := by
  cases loader with
  | none => exact neutrally_firstOfPlatform types
  | some loader =>
    exact (neutrally_ask (.visibleClasses loader.id) rfl).bind fun _ => neutrally_pure _

/-- The work borrows objects that were lent before, and its result tells of objects lent in it. -/
abbrev Lends (lent : List UInt64) (x : Act α) (lends : α → List UInt64) : Prop :=
  Asks x (fun a log => Borrows lent log ∧ ∀ id ∈ lends a, id ∈ lents log) fun _ => Borrows lent

/-- The work borrows objects that were lent before. -/
abbrev Borrowing (lent : List UInt64) (x : Act α) : Prop := Lends lent x fun _ => []

section Rules

variable {lent : List UInt64}

theorem Neutrally.borrowing {x : Act α} (h : Neutrally x) : Borrowing lent x :=
  Adds.mono h (fun _ _ neutral => ⟨.of_neutral neutral, fun _ member => nomatch member⟩)
    fun _ _ neutral => .of_neutral neutral

theorem Lends.bind {x : Act α} {f : α → Act β} {first : α → List UInt64}
    {last : β → List UInt64} (h : Lends lent x first)
    (next : ∀ a, Lends (first a ++ lent) (f a) last) : Lends lent (x >>= f) last := by
  have further : ∀ {a front back}, Borrows lent front → (∀ id ∈ first a, id ∈ lents front) →
      Borrows (first a ++ lent) back → Borrows lent (front ++ back) := fun before told rest =>
    before.append (rest.weaken fun id member => List.mem_append.mpr
      ((List.mem_append.mp member).imp_left (told id)))
  refine Adds.bind h next ?_ (fun _ _ stopped => stopped) ?_
  · rintro a b front back ⟨before, told⟩ ⟨rest, lastTold⟩
    refine ⟨further before told rest, fun id member => ?_⟩
    rw [lents_append]
    exact List.mem_append_right _ (lastTold id member)
  · rintro a fault front back ⟨before, told⟩ rest
    exact further before told rest

/-- Work that lends nothing leaves what was lent before. -/
theorem Neutrally.then {x : Act α} {f : α → Act β} {last : β → List UInt64} (h : Neutrally x)
    (next : ∀ a, Lends lent (f a) last) : Lends lent (x >>= f) last :=
  Lends.bind h.borrowing next

end Rules

/-- The exception of an outcome, which is lent with it. -/
def lentWith (outcome : CallOutcome α) : List UInt64 :=
  (outcome.exception.map (·.id)).toList

/-- A call in the target. It lends the exception that it ends in. -/
abbrev IsCall (x : Act (CallOutcome α)) : Prop :=
  Asks x (fun outcome log => Neutral log ∧ ∀ id ∈ lentWith outcome, id ∈ lents log)
    fun _ => Neutral

theorem isCall_ask {request : Request (CallOutcome α)}
    (neutral : ∀ result, Asked.IsNeutral ⟨request, result⟩)
    (told : ∀ outcome, Asked.lent? ⟨request, .ok outcome⟩ = outcome.exception.map (·.id)) :
    IsCall (ask request) := by
  refine Adds.mono (asks_ask request) ?_ ?_
  · rintro outcome _ rfl
    refine ⟨neutral_singleton.mpr (neutral _), fun id member => ?_⟩
    rw [lents_cons, told]
    exact List.mem_append_left _ member
  · rintro _ _ ⟨fault, rfl⟩
    exact neutral_singleton.mpr (neutral _)

theorem isCall_invokeOn (object type method : UInt64) (arguments : List Value) :
    IsCall (invokeOn object type method arguments) :=
  asks_get fun _ => isCall_ask (fun _ => ⟨rfl, rfl⟩) fun _ => rfl

theorem IsCall.lends {lent : List UInt64} {x : Act (CallOutcome α)} (h : IsCall x) :
    Lends lent x lentWith :=
  Adds.mono h (fun _ _ h => ⟨.of_neutral h.1, h.2⟩) fun _ _ h => .of_neutral h

/-- Neutral requests, and then the object is let go. -/
def Closes (id : UInt64) (log : List Asked) : Prop :=
  ∃ inner freed, Neutral inner ∧ log = inner ++ [⟨.enableCollection id, freed⟩]

theorem Closes.held {lent : List UInt64} {id : UInt64} {log : List Asked} (h : Closes id log)
    (borrowed : id ∈ lent) (kept : Except Fault Unit) :
    Borrows lent (⟨.disableCollection id, kept⟩ :: log) := by
  obtain ⟨inner, freed, neutral, rfl⟩ := h
  exact .held borrowed neutral .done

theorem Closes.after_neutral {id : UInt64} {front back : List Asked} (neutral : Neutral front)
    (h : Closes id back) : Closes id (front ++ back) := by
  obtain ⟨inner, freed, others, rfl⟩ := h
  exact ⟨front ++ inner, freed, neutral_append.mpr ⟨neutral, others⟩,
    (List.append_assoc ..).symm⟩

/-- The end of what is done with an object that is kept meanwhile. -/
theorem closes_enable {f : Except Target.Fault Unit → Act β} (id : UInt64)
    (rest : ∀ result, Asks (f result) (fun _ log => log = []) fun _ _ => False) :
    Asks (attempt (ask (.enableCollection id)) >>= f) (fun _ => Closes id) fun _ _ => False := by
  refine Adds.bind (attempts_ask _) rest ?_ (fun _ _ never => never) fun _ _ _ _ _ never => never
  rintro _ b _ _ ⟨freed, rfl⟩ rfl
  exact ⟨[], freed, neutral_nil, rfl⟩

theorem closes_after {x : Act α} {f : α → Act β} {id : UInt64}
    (first : Asks x (fun _ => Neutral) fun _ _ => False)
    (next : ∀ a, Asks (f a) (fun _ => Closes id) fun _ _ => False) :
    Asks (x >>= f) (fun _ => Closes id) fun _ _ => False :=
  Adds.bind first next (fun _ _ _ _ neutral closed => closed.after_neutral neutral)
    (fun _ _ never => never) fun _ _ _ _ _ never => never

/-- An exception that was lent is described while it is kept. -/
theorem borrowing_describe {lent : List UInt64} {exception : ObjectRef}
    (borrowed : exception.id ∈ lent) : Borrowing lent (describe exception) := by
  have closes : ∀ give : Except Target.Fault String → Except Target.Fault (Option String) → Thrown,
      Asks
        (do let name ← attempt (exceptionClass exception)
            let message ← attempt (exceptionMessage exception)
            let _ ← attempt (ask (.enableCollection exception.id))
            return give name message)
        (fun _ => Closes exception.id) fun _ _ => False := by
    intro give
    refine closes_after (neutrally_exceptionClass exception).attempt fun name => ?_
    refine closes_after (neutrally_exceptionMessage exception).attempt fun message => ?_
    refine closes_enable exception.id fun _ => ?_
    exact Adds.pure rfl
  refine Adds.bind (attempts_ask _) (fun _ => closes _) ?_ (fun _ _ never => never.elim)
    fun _ _ _ _ _ never => never.elim
  rintro _ thrown _ back ⟨kept, rfl⟩ closed
  exact ⟨closed.held borrowed kept, fun _ member => nomatch member⟩

theorem borrowing_returned {lent : List UInt64} {outcome : CallOutcome α}
    (borrowed : ∀ id ∈ lentWith outcome, id ∈ lent) : Borrowing lent (returned outcome) := by
  cases outcome with
  | mk value thrown =>
    cases thrown with
    | none => exact (neutrally_pure value).borrowing
    | some exception =>
      have own : exception.id ∈ lent := borrowed _ (List.mem_singleton_self _)
      exact Lends.bind (borrowing_describe own) fun _ => (neutrally_raise _).borrowing

/-- The argument of a call is let go after the call, whatever came of it. -/
theorem closes_call {object type method : UInt64} {arguments : List Value} (id : UInt64)
    {give : Except Target.Fault (CallOutcome Value) → Act (CallOutcome Value)}
    (given : ∀ result, Asks (give result) (fun outcome log => result = .ok outcome ∧ log = [])
      fun _ log => log = []) :
    Asks (do
        let result ← attempt (invokeOn object type method arguments)
        ask (.enableCollection id)
        give result)
      (fun outcome log => Closes id log ∧ ∀ lent ∈ lentWith outcome, lent ∈ lents log)
      fun _ => Closes id := by
  have freed : ∀ result, Asks (do ask (.enableCollection id); give result)
      (fun outcome log => result = .ok outcome ∧ ∃ freed, log = [⟨.enableCollection id, freed⟩])
      fun _ log => ∃ freed, log = [⟨.enableCollection id, freed⟩] := by
    intro result
    refine Adds.bind (asks_ask _) (fun _ => given result) ?_ ?_ ?_
    · rintro _ outcome _ _ rfl ⟨same, rfl⟩
      exact ⟨same, _, rfl⟩
    · rintro _ _ ⟨fault, rfl⟩
      exact ⟨_, rfl⟩
    · rintro _ _ _ _ rfl rfl
      exact ⟨_, rfl⟩
  refine Adds.bind (asks_attempt (isCall_invokeOn object type method arguments)) freed ?_
    (fun _ _ never => False.elim never) ?_
  · rintro _ outcome front _ called ⟨rfl, freed, rfl⟩
    refine ⟨⟨front, freed, called.1, rfl⟩, fun lent member => ?_⟩
    rw [lents_append]
    exact List.mem_append_left _ (called.2 lent member)
  · rintro (fault | outcome) _ front _ called ⟨freed, rfl⟩
    · exact ⟨front, freed, called, rfl⟩
    · exact ⟨front, freed, called.1, rfl⟩

/-- The text given to a loader is lent by the target that made it, and kept during the call. -/
theorem lends_callLoader {lent : List UInt64} (loader : ObjectRef) (type method : UInt64)
    (text : String) : Lends lent (callLoader loader type method text) lentWith := by
  have made : Lends lent (ask (.createString text)) fun name => [name] := by
    refine Adds.mono (asks_ask _) ?_ ?_
    · rintro name _ rfl
      exact ⟨.of_neutral (neutral_singleton.mpr ⟨rfl, rfl⟩), fun id member => member⟩
    · rintro _ _ ⟨fault, rfl⟩
      exact .of_neutral (neutral_singleton.mpr ⟨rfl, rfl⟩)
  refine made.bind fun name => ?_
  have borrowed : name ∈ [name] ++ lent := List.mem_append_left _ (List.mem_singleton_self name)
  refine Adds.bind (asks_ask _) (fun _ => closes_call name ?_) ?_ ?_ ?_
  · rintro (fault | outcome)
    · exact Adds.raise rfl
    · exact Adds.pure ⟨rfl, rfl⟩
  · rintro _ outcome _ back rfl ⟨closes, told⟩
    refine ⟨closes.held borrowed _, fun id member => ?_⟩
    rw [lents_append]
    exact List.mem_append_right _ (told id member)
  · rintro _ _ ⟨fault, rfl⟩
    exact .refused borrowed .done
  · rintro _ _ _ back rfl closes
    exact closes.held borrowed _

theorem borrowing_loadClass (name : String) (loader : ObjectRef) :
    Borrowing [] (loadClass name loader) := by
  delta loadClass
  split
  · exact (neutrally_raise _).borrowing
  · refine (neutrally_ask (.referenceType loader.id) rfl).then fun type => ?_
    refine (neutrally_findMethod _ _ _ _).then fun method => ?_
    refine Lends.bind (lends_callLoader loader _ _ name) fun outcome => ?_
    cases outcome with
    | mk value thrown =>
      cases thrown with
      | some exception =>
        have own : exception.id ∈ lentWith (CallOutcome.mk value (some exception)) ++ [] :=
          List.mem_singleton_self _
        exact Lends.bind (borrowing_describe own) fun _ => (neutrally_raise _).borrowing
      | none =>
        cases value with
        | object found =>
          exact ((neutrally_ask (.reflectedType found.id) rfl).bind fun _ =>
            neutrally_pure _).borrowing
        | void | null | primitive _ => exact (neutrally_raise _).borrowing

theorem borrowing_resolveClass (name : String) (loader : Option ObjectRef) :
    Borrowing [] (resolveClass name loader) := by
  delta resolveClass
  cases FieldType.ofSource name with
  | error _ => exact (neutrally_raise _).borrowing
  | ok t =>
    refine (neutrally_ask (.classesBySignature t.render) rfl).then fun loaded => ?_
    refine (neutrally_firstVisible _ loader).then fun found => ?_
    cases found with
    | some type => exact (neutrally_pure _).borrowing
    | none =>
      cases loader with
      | some loader => exact borrowing_loadClass name loader
      | none => exact (neutrally_raise _).borrowing

theorem neutrally_check (type : MethodType) (arguments : List Value) :
    Neutrally (check type arguments) := by
  delta check
  cases checkArguments type arguments with
  | ok _ => exact neutrally_pure _
  | error fault => exact neutrally_raise fault

/-- The result of a call, where the exception that is lent with it is described. -/
theorem IsCall.returned {x : Act (CallOutcome α)} (h : IsCall x) :
    Borrowing [] (x >>= Session.returned) :=
  h.lends.bind fun _ => borrowing_returned fun _ member => List.mem_append_left _ member

theorem borrowing_newInstance (owner : ClassRef) (type : MethodType) (arguments : List Value) :
    Borrowing [] (newInstance owner type arguments) := by
  refine (neutrally_check type arguments).then fun _ => ?_
  refine (neutrally_findMethod _ _ _ _).then fun method => asks_get fun s => ?_
  have made : IsCall (ask (.newInstance owner.id ⟨s.thread, method.id, arguments,
      singleThreaded⟩)) := isCall_ask (fun _ => ⟨rfl, rfl⟩) fun _ => rfl
  refine made.lends.bind fun outcome => ?_
  refine Lends.bind (borrowing_returned fun id member => List.mem_append_left _ member)
    fun ref => ?_
  cases ref with
  | some ref => exact (neutrally_pure ref).borrowing
  | none => exact (neutrally_raise _).borrowing

theorem borrowing_invokeMethod (receiver : Receiver) (name : String) (type : MethodType)
    (arguments : List Value) : Borrowing [] (invokeMethod receiver name type arguments) := by
  refine (neutrally_check type arguments).then fun _ => ?_
  cases receiver with
  | static owner =>
    refine (neutrally_findMethod _ _ _ _).then fun method => asks_get fun s => ?_
    exact IsCall.returned (isCall_ask (fun _ => ⟨rfl, rfl⟩) fun _ => rfl)
  | «instance» ref =>
    refine (neutrally_ask (.referenceType ref.id) rfl).then fun owner => ?_
    refine (neutrally_findMethod _ _ _ _).then fun method => ?_
    exact (isCall_invokeOn _ _ _ _).returned

theorem neutrally_contextLoader : Neutrally contextLoader := by
  refine asks_get fun s => ?_
  cases s.location with
  | none => exact neutrally_pure none
  | some location =>
    exact (neutrally_ask (.classLoader location.owner) rfl).bind fun loader => neutrally_pure _

theorem neutrally_resume : Neutrally resume := by
  refine asks_get fun s => ?_
  split
  · exact neutrally_pure ()
  · split
    · exact neutrally_ask .resumeAll rfl
    · exact neutrally_ask (.resumeThread s.thread) rfl

/-- Every operation but to pin an object and to unpin one lets go what it borrows. -/
theorem borrowing_perform (operation : Operation α) (other : operation.isOfPins = false) :
    Borrowing [] (perform operation) := by
  cases operation with
  | resolveClass name loader => exact borrowing_resolveClass name loader
  | newInstance owner type arguments => exact borrowing_newInstance owner type arguments
  | invokeMethod receiver name type arguments =>
    exact borrowing_invokeMethod receiver name type arguments
  | newString text =>
    exact ((neutrally_ask (.createString text) rfl).bind fun _ => neutrally_pure _).borrowing
  | newArray arrayType length =>
    exact (neutrally_ask (.newArray arrayType.id length) rfl).borrowing
  | setElement array index value =>
    exact (neutrally_ask (.setElements array.id index [value]) rfl).borrowing
  | setElements array first values =>
    exact (neutrally_ask (.setElements array.id first values) rfl).borrowing
  | pin _ | unpin _ => cases other
  | platformVersion =>
    exact ((neutrally_ask .version rfl).bind fun _ => neutrally_pure _).borrowing
  | contextLoader => exact neutrally_contextLoader.borrowing
  | resume => exact neutrally_resume.borrowing

theorem borrowing_render (value : Value) : Borrowing [] (render value) := by
  cases value with
  | void | null | primitive _ => exact (neutrally_pure _).borrowing
  | object ref =>
    obtain ⟨id, kind⟩ := ref
    cases kind with
    | string =>
      exact ((neutrally_ask (.stringValue id) rfl).bind fun _ => neutrally_pure _).borrowing
    | object | thread | threadGroup | classLoader | classObject | array =>
      refine (neutrally_ask (.referenceType id) rfl).then fun type => ?_
      refine (neutrally_className _).then fun owner => ?_
      refine (neutrally_findMethod _ _ _ _).then fun method => ?_
      refine (isCall_invokeOn _ _ _ _).lends.bind fun outcome => ?_
      refine Lends.bind (borrowing_returned fun _ member => List.mem_append_left _ member)
        fun text => ?_
      cases text with
      | object text =>
        exact ((neutrally_ask (.stringValue text.id) rfl).bind fun _ => neutrally_pure _).borrowing
      | void | null | primitive _ => exact (neutrally_pure _).borrowing

end Session

/-- What a session is used for. -/
inductive Task where
  | perform {α : Type} (operation : Operation α)
  /-- Shows a value as text. -/
  | render (value : Value)

namespace Task

/-- The session after a task, whatever its result. -/
def run : Task → Session → Session
  | perform operation, s => (Session.perform operation s).2
  | render value, s => (Session.render value s).2

/-- Whether the task is to pin an object or to unpin one. -/
def isOfPins : Task → Bool
  | perform operation => operation.isOfPins
  | render _ => false

end Task

end Wire

end JavaSnippet
