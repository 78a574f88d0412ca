import JavaSnippet.Proofs.Wire.Operations
/-!
Methods that a session remembers. What a class declares is asked for at most once with success, and
as long as the target does not change its mind, a search that uses what is remembered finds what a
search that asks for everything would find.
-/
namespace JavaSnippet.Wire

open Target

/-- The methods that each class declares, and its super class. -/
structure Classes where
  declared : UInt64 → List MethodInfo
  above : UInt64 → Option UInt64

/-- A search for a method, with nothing remembered: the first method of the first class that
declares one, from a class upwards. One that is not for inherited methods is confined to its class.
-/
inductive Classes.Search (classes : Classes) (wanted : MethodInfo → Bool) (inherited : Bool) :
    UInt64 → Option MethodInfo → Prop where
  | found {type : UInt64} {m : MethodInfo} (first : (classes.declared type).find? wanted = some m) :
      Search classes wanted inherited type (some m)
  | confined {type : UInt64} (missing : (classes.declared type).find? wanted = none)
      (own : inherited = false) : Search classes wanted inherited type none
  | ended {type : UInt64} (missing : (classes.declared type).find? wanted = none)
      (climbs : inherited = true) (top : classes.above type = none) :
      Search classes wanted inherited type none
  | higher {type next : UInt64} {result : Option MethodInfo}
      (missing : (classes.declared type).find? wanted = none) (climbs : inherited = true)
      (step : classes.above type = some next)
      (rest : Search classes wanted inherited next result) :
      Search classes wanted inherited type result

/-- Such a search has one result at most. -/
theorem Classes.Search.unique {classes : Classes} {wanted : MethodInfo → Bool} {inherited : Bool}
    {type : UInt64} {first second : Option MethodInfo}
    (one : classes.Search wanted inherited type first)
    (other : classes.Search wanted inherited type second) : first = second := by
  induction one with
  | found first => cases other <;> simp_all
  | confined missing own => cases other <;> simp_all
  | ended missing climbs top => cases other <;> simp_all
  | higher missing climbs step rest ih =>
    cases other with
    | found | confined | ended => simp_all
    | higher _ _ again later =>
      cases step.symm.trans again
      exact ih later

namespace Asked

/-- What the target says of methods and of super classes is so. -/
def Reports (classes : Classes) : Asked → Prop
  | ⟨.methods type, .ok methods⟩ => methods = classes.declared type
  | ⟨.superclass type, .ok above⟩ => above = classes.above type
  | _ => True

/-- The methods of a class that were asked for with success. -/
def told? : Asked → Option (UInt64 × List MethodInfo)
  | ⟨.methods type, .ok methods⟩ => some (type, methods)
  | _ => none

/-- The request failed, and the fault is what becomes of that. -/
def Fails (fault : Target.Fault) (a : Asked) : Prop :=
  ∃ cause, a.result = .error cause ∧ fault = cause.toTarget

end Asked

/-- What was told of methods, in order. -/
def told (log : List Asked) : List (UInt64 × List MethodInfo) := log.filterMap Asked.told?

theorem told_append (front back : List Asked) : told (front ++ back) = told front ++ told back :=
  List.filterMap_append

/-- A search, what came of it, and what was asked for it. -/
structure Lookup where
  type : UInt64
  name : String
  signature : String
  inherited : Bool
  result : Except Target.Fault MethodInfo
  log : List Asked

/-- The search for the method with nothing remembered. -/
def Lookup.Finds (l : Lookup) (classes : Classes) : Option MethodInfo → Prop :=
  classes.Search (Session.isNamed l.name l.signature) l.inherited l.type

/-- The result is what a search with nothing remembered finds, or a request failed. -/
def Lookup.Settles (l : Lookup) (classes : Classes) : Prop :=
  match l.result with
  | .ok m => l.Finds classes (some m)
  | .error fault =>
    (fault = .mismatch (.noMethod l.name l.signature l.type) ∧ l.Finds classes none) ∨
      ∃ a ∈ l.log, a.Fails fault

/-- Whether the request is for what searches need to know. -/
def Request.isOfMethods {α : Type} : Request α → Bool
  | .methods _ | .superclass _ => true
  | _ => false

/-- What a session does: it asks a request that has nothing to do with methods, or it searches for
a method. -/
inductive Move where
  | request (a : Asked)
  | search (l : Lookup)

/-- The requests of what was done. -/
def Move.asked : Move → List Asked
  | request a => [a]
  | search l => l.log

def askedIn (moves : List Move) : List Asked := moves.flatMap Move.asked

namespace Connection

/-- A reply takes something from the input. -/
theorem incoming_of_awaitReply {command : Command} {id : UInt32} {c d : Connection}
    {data : List UInt8} (h : awaitReply command id c = (.ok data, d)) :
    d.incoming.length < c.incoming.length := by
  fun_induction awaitReply command id c with
  | case1 | case4 => cases (Prod.mk.inj h).1
  | case2 c code data rest read =>
    obtain ⟨-, rfl⟩ := Prod.mk.inj h
    have shorter := Packet.length_of_read read
    simp only [headerLength] at shorter
    show rest.length < _
    omega
  | case3 c replyId code data rest read differ ih =>
    have shorter := Packet.length_of_read read
    have further := ih h
    simp only at further
    omega
  | case5 c number received data rest read sets decoded ih =>
    have shorter := Packet.length_of_read read
    have further := ih h
    simp only at further
    omega

theorem incoming_of_perform {α : Type} {request : Request α} {c d : Connection} {a : α}
    (h : perform request c = (.ok a, d)) : d.incoming.length < c.incoming.length := by
  unfold perform at h
  split at h
  · cases (Prod.mk.inj h).1
  · rename_i data left done
    obtain ⟨-, rfl⟩ := Prod.mk.inj h
    unfold exchange at done
    split at done
    · cases (Prod.mk.inj done).1
    · simp only at done
      split at done
      · cases (Prod.mk.inj done).1
      · have shorter := incoming_of_awaitReply done
        exact shorter

end Connection

namespace Session

/-- One session becomes the other by what is done, each thing after those before it. -/
def Follows : Session → List Move → Session → Prop
  | s, [], t => t = s
  | s, .request a :: moves, t => a.request.isOfMethods = false ∧
      ∃ mid, Connection.perform a.request s.connection = (a.result, mid) ∧
        Follows { s with connection := mid } moves t
  | s, .search l :: moves, t =>
      ∃ mid, findMethod l.type l.name l.signature l.inherited s = (l.result, mid) ∧
        s.connection.Exchanges l.log mid.connection ∧ Follows mid moves t

theorem Follows.append {s t u : Session} {front back : List Move} (first : Follows s front t)
    (next : Follows t back u) : Follows s (front ++ back) u := by
  induction front generalizing s with
  | nil =>
    obtain rfl : t = s := first
    exact next
  | cons move front ih =>
    cases move with
    | request a =>
      obtain ⟨other, mid, performed, rest⟩ := first
      exact ⟨other, mid, performed, ih rest⟩
    | search l =>
      obtain ⟨mid, found, exchanged, rest⟩ := first
      exact ⟨mid, found, exchanged, ih rest⟩

/-- All that is remembered of methods is so. -/
def Knows (classes : Classes) (s : Session) : Prop :=
  ∀ entry ∈ s.methods, entry.2 = classes.declared entry.1

/-- No class is remembered twice. -/
def KnowsOnce (s : Session) : Prop := (s.methods.map Prod.fst).Nodup

/-- The requests lead from one session to the other, which remembers what was told of methods, still
with no class twice. -/
structure Remembers (s : Session) (log : List Asked) (t : Session) : Prop where
  exchanges : s.connection.Exchanges log t.connection
  methods : t.methods = (told log).reverse ++ s.methods
  once : s.KnowsOnce → t.KnowsOnce

namespace Remembers

variable {s t u : Session} {log front back : List Asked} {classes : Classes}

theorem refl (s : Session) : Remembers s [] s := ⟨rfl, rfl, id⟩

theorem trans (first : Remembers s front t) (next : Remembers t back u) :
    Remembers s (front ++ back) u where
  exchanges := first.exchanges.append next.exchanges
  methods := by rw [next.methods, first.methods, told_append, List.reverse_append,
    List.append_assoc]
  once h := next.once (first.once h)

/-- What is told of methods by a target that reports them is so. -/
theorem knows (h : Remembers s log t) (known : s.Knows classes)
    (reports : ∀ a ∈ log, a.Reports classes) : t.Knows classes := by
  intro entry member
  rw [h.methods] at member
  rcases List.mem_append.mp member with new | old
  · obtain ⟨a, asked, said⟩ := List.mem_filterMap.mp (List.mem_reverse.mp new)
    have reported := reports a asked
    unfold Asked.told? at said
    split at said
    · obtain rfl := Option.some.inj said
      exact reported
    · cases said
  · exact known entry old

end Remembers

theorem ask_apply {α : Type} (request : Request α) (s : Session) :
    ask request s =
      ((Connection.perform request s.connection).1.mapError Fault.toTarget,
        { s with connection := (Connection.perform request s.connection).2 }) :=
  rfl

/-- A request other than for methods leaves alone what is remembered. -/
theorem remembers_ask {α : Type} {request : Request α} {s : Session} {result : Except Fault α}
    {c : Connection} (performed : Connection.perform request s.connection = (result, c))
    (nothing : Asked.told? ⟨request, result⟩ = none) :
    Remembers s [⟨request, result⟩] { s with connection := c } where
  exchanges := ⟨c, performed, rfl⟩
  methods := by
    unfold told
    rw [List.filterMap_cons_none nothing]
    rfl
  once h := h

theorem remembers_methods {type : UInt64} {methods : List MethodInfo} {s : Session}
    {c : Connection}
    (performed : Connection.perform (.methods type) s.connection = (.ok methods, c))
    (new : s.methods.lookup type = none) :
    Remembers s [⟨.methods type, .ok methods⟩]
      { s with connection := c, methods := (type, methods) :: s.methods } where
  exchanges := ⟨c, performed, rfl⟩
  methods := rfl
  once h := by
    refine List.nodup_cons.mpr ⟨fun known => ?_, h⟩
    obtain ⟨entry, member, same⟩ := List.mem_map.mp known
    have differs := List.lookup_eq_none_iff.mp new entry member
    exact bne_iff_ne.mp differs same.symm

theorem declaredMethods_apply (type : UInt64) (s : Session) :
    declaredMethods type s =
      match s.methods.lookup type with
      | some methods => (.ok methods, s)
      | none =>
        match Connection.perform (.methods type) s.connection with
        | (.ok methods, c) =>
          (.ok methods, { s with connection := c, methods := (type, methods) :: s.methods })
        | (.error fault, c) => (.error fault.toTarget, { s with connection := c }) := by
  show (match s.methods.lookup type with
    | some methods => pure methods
    | none => ask (.methods type) >>= fun methods => remember type methods >>= fun _ =>
        pure methods : Act (List MethodInfo)) s = _
  cases s.methods.lookup type with
  | some methods => rfl
  | none =>
    simp only
    rw [ExceptState.bind_apply, ask_apply]
    rcases Connection.perform (.methods type) s.connection with ⟨_ | _, c⟩ <;> rfl

/-- What a class declares is found in what is remembered or asked for, and is the same. -/
theorem declaredMethods_remembers (type : UInt64) (s : Session) :
    ∃ log, Remembers s log (declaredMethods type s).2 ∧
      match declaredMethods type s with
      | (.ok methods, t) => t.connection.incoming.length ≤ s.connection.incoming.length ∧
          ∀ classes, s.Knows classes → (∀ a ∈ log, a.Reports classes) →
            methods = classes.declared type
      | (.error fault, _) => ∃ a ∈ log, a.Fails fault := by
  rw [declaredMethods_apply]
  cases known : s.methods.lookup type with
  | some methods =>
    refine ⟨[], .refl s, Nat.le_refl _, fun classes knows _ => ?_⟩
    obtain ⟨before, after, split, -⟩ := List.lookup_eq_some_iff.mp known
    exact knows (type, methods) (by simp [split])
  | none =>
    rcases performed : Connection.perform (.methods type) s.connection with ⟨fault | methods, c⟩
    · exact ⟨_, remembers_ask performed rfl, _, List.mem_singleton_self _, fault, rfl, rfl⟩
    · refine ⟨_, remembers_methods performed known,
        Nat.le_of_lt (Connection.incoming_of_perform performed), fun classes _ reports => ?_⟩
      exact reports _ (List.mem_singleton_self _)

theorem searchUp_succ (name signature : String) (inherited : Bool) (rounds : Nat) (type : UInt64) :
    searchUp name signature inherited (rounds + 1) type =
      declaredMethods type >>= fun methods =>
        match methods.find? (isNamed name signature), inherited with
        | some m, _ => pure (some m)
        | none, false => pure none
        | none, true => ask (.superclass type) >>= fun above =>
            match above with
            | none => pure none
            | some next => searchUp name signature inherited rounds next := by
  rw [searchUp]
  congr
  funext methods
  cases methods.find? (isNamed name signature) with
  | some m => rfl
  | none => cases inherited <;> rfl

/-- As long as there are rounds enough for the input, a search ends because of what it finds or
because a request failed. -/
theorem searchUp_remembers (name signature : String) (inherited : Bool) {rounds : Nat}
    (type : UInt64) {s : Session} (enough : s.connection.incoming.length < rounds) :
    ∃ log, Remembers s log (searchUp name signature inherited rounds type s).2 ∧
      match (searchUp name signature inherited rounds type s).1 with
      | .ok found => ∀ classes, s.Knows classes → (∀ a ∈ log, a.Reports classes) →
          classes.Search (isNamed name signature) inherited type found
      | .error fault => ∃ a ∈ log, a.Fails fault := by
  induction rounds generalizing type s with
  | zero => omega
  | succ rounds ih =>
    obtain ⟨log, remembers, declared⟩ := declaredMethods_remembers type s
    rw [searchUp_succ, ExceptState.bind_apply]
    rcases made : declaredMethods type s with ⟨fault | methods, t⟩
    · rw [made] at remembers declared
      exact ⟨log, remembers, declared⟩
    rw [made] at remembers declared
    obtain ⟨left, declared⟩ := declared
    simp only
    cases found : methods.find? (isNamed name signature) with
    | some m =>
      refine ⟨log, remembers, fun classes knows reports => .found ?_⟩
      rw [← declared classes knows reports]
      exact found
    | none =>
      have missing : ∀ classes, s.Knows classes → (∀ a ∈ log, a.Reports classes) →
          (classes.declared type).find? (isNamed name signature) = none :=
        fun classes knows reports => declared classes knows reports ▸ found
      cases inherited with
      | false =>
        exact ⟨log, remembers, fun classes knows reports =>
          .confined (missing classes knows reports) rfl⟩
      | true =>
        simp only
        rw [ExceptState.bind_apply, ask_apply]
        rcases performed : Connection.perform (.superclass type) t.connection with
          ⟨cause | above, c⟩
        · refine ⟨_, remembers.trans (remembers_ask performed rfl), _,
            List.mem_append_right _ (List.mem_singleton_self _), cause, rfl, rfl⟩
        have asked := remembers.trans (remembers_ask performed rfl)
        cases above with
        | none =>
          refine ⟨_, asked, fun classes knows reports => ?_⟩
          obtain ⟨before, last⟩ := List.forall_mem_append.mp reports
          exact .ended (missing classes knows before) rfl
            (List.forall_mem_singleton.mp last).symm
        | some next =>
          have shorter := Connection.incoming_of_perform performed
          have room :
              ({ t with connection := c } : Session).connection.incoming.length < rounds := by
            show c.incoming.length < rounds
            omega
          obtain ⟨later, rest, ends⟩ := ih next room
          refine ⟨_, asked.trans rest, ?_⟩
          show match (searchUp name signature true rounds next { t with connection := c }).1 with
            | .ok found => _
            | .error fault => _
          cases result :
              (searchUp name signature true rounds next { t with connection := c }).1 with
          | error fault =>
            rw [result] at ends
            obtain ⟨a, member, fails⟩ := ends
            exact ⟨a, List.mem_append_right _ member, fails⟩
          | ok found =>
            rw [result] at ends
            intro classes knows reports
            obtain ⟨sofar, after⟩ := List.forall_mem_append.mp reports
            obtain ⟨before, last⟩ := List.forall_mem_append.mp sofar
            refine .higher (missing classes knows before) rfl
              (List.forall_mem_singleton.mp last).symm ?_
            exact ends classes (asked.knows knows sofar) after

theorem findMethod_remembers (type : UInt64) (name signature : String) (inherited : Bool)
    (s : Session) :
    ∃ log, Remembers s log (findMethod type name signature inherited s).2 ∧
      ∀ classes, s.Knows classes → (∀ a ∈ log, a.Reports classes) →
        Lookup.Settles ⟨type, name, signature, inherited,
          (findMethod type name signature inherited s).1, log⟩ classes := by
  obtain ⟨log, remembers, ends⟩ :=
    searchUp_remembers name signature inherited type (Nat.lt_succ_self s.connection.incoming.length)
  have searched : findMethod type name signature inherited s =
      (searchUp name signature inherited (s.connection.incoming.length + 1) type >>= _) s := rfl
  rw [searched, ExceptState.bind_apply]
  rcases result : searchUp name signature inherited (s.connection.incoming.length + 1) type s
    with ⟨fault | found, t⟩
  · rw [result] at remembers ends
    exact ⟨log, remembers, fun classes _ _ => .inr ends⟩
  · rw [result] at remembers ends
    cases found with
    | some m => exact ⟨log, remembers, ends⟩
    | none => exact ⟨log, remembers, fun classes knows reports =>
        .inl ⟨rfl, ends classes knows reports⟩⟩

/-- The moves lead from one session to the other, and the searches among them come out as without
anything remembered, if what is remembered at first and what the target says are so. -/
structure Leads (s : Session) (moves : List Move) (t : Session) : Prop where
  follows : s.Follows moves t
  remembers : s.Remembers (askedIn moves) t
  settles : ∀ classes, s.Knows classes → (∀ a ∈ askedIn moves, a.Reports classes) →
    ∀ l, .search l ∈ moves → l.Settles classes

theorem Leads.refl (s : Session) : Leads s [] s := ⟨rfl, .refl s, fun _ _ _ _ none => nomatch none⟩

theorem Leads.trans {s t u : Session} {front back : List Move} (first : Leads s front t)
    (next : Leads t back u) : Leads s (front ++ back) u := by
  have asked : askedIn (front ++ back) = askedIn front ++ askedIn back := List.flatMap_append
  refine ⟨first.follows.append next.follows, ?_, fun classes knows reports l member => ?_⟩
  · rw [asked]
    exact first.remembers.trans next.remembers
  · rw [asked] at reports
    obtain ⟨before, after⟩ := List.forall_mem_append.mp reports
    rcases List.mem_append.mp member with early | late
    · exact first.settles classes knows before l early
    · exact next.settles classes (first.remembers.knows knows before) after l late

/-- The work consists of such moves. -/
abbrev Searches {α : Type} (x : Act α) : Prop :=
  ExceptState.Moves (fun s t => ∃ moves, Leads s moves t) x

section Rules

variable {α β : Type}

theorem Searches.bind {x : Act α} {f : α → Act β} (first : Searches x)
    (next : ∀ a, Searches (f a)) : Searches (x >>= f) :=
  ExceptState.Moves.bind first
    (fun ⟨front, before⟩ ⟨back, after⟩ => ⟨front ++ back, before.trans after⟩) next

theorem searches_pure (a : α) : Searches (pure a) := fun s => ⟨[], .refl s⟩

theorem searches_raise (fault : Target.Fault) : Searches (throw fault : Act α) :=
  fun s => ⟨[], .refl s⟩

theorem searches_get {f : Session → Act β} (h : ∀ s, Searches (f s)) : Searches (get >>= f) :=
  fun s => h s s

theorem Searches.attempt {x : Act α} (h : Searches x) : Searches (Session.attempt x) := h

theorem Asked.told?_of_other {request : Request α} (other : request.isOfMethods = false)
    (result : Except Fault α) : Asked.told? ⟨request, result⟩ = none := by
  cases request with
  | methods _ => cases other
  | _ => rfl

theorem searches_ask (request : Request α) (other : request.isOfMethods = false) :
    Searches (ask request) := by
  intro s
  rcases performed : Connection.perform request s.connection with ⟨result, c⟩
  have asks : (ask request s).2 = { s with connection := c } := by rw [ask_apply, performed]
  rw [asks]
  exact ⟨[.request ⟨request, result⟩], ⟨other, c, performed, rfl⟩,
    remembers_ask performed (Asked.told?_of_other other result),
    fun _ _ _ _ member => nomatch member⟩

theorem searches_findMethod (type : UInt64) (name signature : String) (inherited : Bool) :
    Searches (findMethod type name signature inherited) := by
  intro s
  obtain ⟨log, remembers, settles⟩ := findMethod_remembers type name signature inherited s
  rcases found : findMethod type name signature inherited s with ⟨result, t⟩
  rw [found] at remembers settles
  have asked : ∀ l : Lookup, askedIn [.search l] = l.log := fun l => List.append_nil l.log
  refine ⟨[.search ⟨type, name, signature, inherited, result, log⟩],
    ⟨t, found, remembers.exchanges, rfl⟩, ?_, fun classes knows reports l member => ?_⟩
  · rw [asked]
    exact remembers
  · rw [asked] at reports
    cases List.mem_singleton.mp member
    exact settles classes knows reports

end Rules

end Session

end JavaSnippet.Wire
