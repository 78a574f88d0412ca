import JavaSnippet.Proofs.Compile.Emission
/-!
When emission succeeds. A class whose methods can be written is written as long as its table of
constants has room for them.
-/
namespace JavaSnippet.Compile

open ClassFile Typing MethodBody

/-- The change succeeds as long as the table has room for so many slots more. -/
def Takes {α : Type} (x : Write α) (slots : Nat) : Prop :=
  ∀ p : Pool, p.Valid → p.table.next + slots < 65536 →
    ∃ a q, x p = .ok (a, q) ∧ q.Valid ∧ q.table.next ≤ p.table.next + slots

theorem takes_pure {α : Type} (a : α) : Takes (pure a) 0 :=
  fun p valid _ => ⟨a, p, rfl, valid, Nat.le_refl _⟩

theorem Takes.bind {α β : Type} {x : Write α} {f : α → Write β} {m n : Nat} (first : Takes x m)
    (next : ∀ a, Takes (f a) n) : Takes (x >>= f) (m + n) := by
  intro p valid room
  obtain ⟨a, q, made, validNext, grown⟩ := first p valid (by omega)
  obtain ⟨b, r, last, validLast, further⟩ := next a q validNext (by omega)
  exact ⟨b, r, StateExcept.bind_eq_ok.mpr ⟨a, q, made, last⟩, validLast, by omega⟩

theorem takes_inPool {α : Type} {change : Pool.Change α} {slots : Nat}
    (h : Pool.Takes change slots) : Takes (Compile.inPool change) slots := by
  intro p valid room
  obtain ⟨a, q, made, validNext, grown⟩ := h p valid room
  refine ⟨a, q, ?_, validNext, grown⟩
  unfold Compile.inPool
  rw [made]

theorem takes_inBody {α : Type} {n slots : Nat} {build : Build α}
    (h : ∀ p : Pool, p.Valid → p.table.next + slots < 65536 →
      ∃ a d, build (start p n) = (.ok a, d) ∧ d.pool.Valid ∧
        d.pool.table.next ≤ p.table.next + slots) : Takes (inBody n build) slots := by
  intro p valid room
  obtain ⟨a, d, built, validNext, grown⟩ := h p valid room
  refine ⟨a, d.pool, ?_, validNext, grown⟩
  unfold inBody
  rw [built]

theorem takes_constructor : Takes writeConstructor 9 := by
  have body : Takes (inBody 1 Emit.constructor) 7 := by
    refine takes_inBody fun p valid room => ?_
    obtain ⟨method, q, made, validMethod, grown⟩ :=
      Pool.takes_methodRef .object "<init>" noArguments false p valid (by omega)
    let loaded := (start p 1).extend (.load .reference 0)
    let called := { loaded with pool := q }.extend (.invoke .special method noArguments)
    let returned : MethodBody := { called.extend .returnVoid with reachable := false, depth := 0 }
    obtain ⟨a, d, finished, validLast, further⟩ :=
      finish_total (b := returned) validMethod
        (show q.table.next + 1 < 65536 by omega) (show 1 < 65536 by decide)
        (show 1 < 65536 by decide)
    have fromMethod : d.pool.table.next ≤ q.table.next + 1 := further
    have found : MethodBody.inPool (Pool.methodRef .object "<init>" noArguments false) loaded =
        (.ok method, { loaded with pool := q }) := inPool_of_ok made
    refine ⟨a, d, ?_, validLast, by omega⟩
    refine ExceptState.bind_eq_ok.mpr ⟨(), loaded, rfl, ?_⟩
    refine ExceptState.bind_eq_ok.mpr ⟨(), called, ?_, ?_⟩
    · exact ExceptState.bind_eq_ok.mpr ⟨method, _, found, rfl⟩
    · exact ExceptState.bind_eq_ok.mpr ⟨(), returned, rfl, finished⟩
  exact (takes_inPool (Pool.takes_utf8 "<init>")).bind fun name =>
    (takes_inPool (Pool.takes_utf8 noArguments.render)).bind fun descriptor =>
      body.bind fun code => takes_pure _

/-- A method is written if its body can be. -/
theorem takes_writeMethod {m : TypedMethod} {parameters : List (Option UInt16)} {slots : Nat}
    (placed : Emit.parameterSlots 0 m.signature.type.parameters = some parameters)
    (body : Takes (inBody (m.signature.type.parameterSlots false)
      (Emit.method m (startSlots m parameters))) slots) : Takes (writeMethod m) (slots + 2) := by
  have whole : Takes (writeMethod m) (1 + (1 + (slots + 0))) := by
    apply (takes_inPool (Pool.takes_utf8 m.signature.name)).bind
    intro name
    apply (takes_inPool (Pool.takes_utf8 m.signature.type.render)).bind
    intro descriptor
    rw [placed]
    exact body.bind fun code => takes_pure _
  have same : 1 + (1 + (slots + 0)) = slots + 2 := by omega
  rwa [same] at whole

/-- A method whose statements need no constants only takes its name, its type and the name of its
code. -/
theorem takes_plainMethod {m : TypedMethod} {parameters : List (Option UInt16)}
    (body : Pool → MethodBody)
    (placed : Emit.parameterSlots 0 m.signature.type.parameters = some parameters)
    (leaves : m.fallsThrough = false)
    (built : ∀ p, Emit.statements m (startSlots m parameters) m.body
      (start p (m.signature.type.parameterSlots false)) = (.ok (), body p))
    (pool : ∀ p, (body p).pool = p) (stack : ∀ p, (body p).maxDepth < 65536)
    (locals : ∀ p, (body p).maxLocals < 65536) : Takes (writeMethod m) 3 := by
  refine takes_writeMethod placed (takes_inBody fun p valid room => ?_)
  have kept := pool p
  obtain ⟨a, d, finished, validLast, grown⟩ :=
    finish_total (by rw [kept]; exact valid) (by rw [kept]; exact room) (stack p) (locals p)
  rw [kept] at grown
  refine ⟨a, d, ExceptState.bind_eq_ok.mpr ⟨(), body p, built p, ?_⟩, validLast, grown⟩
  rw [leaves]
  exact finished

theorem takes_writeMethods {ms : List TypedMethod} {slots : Nat}
    (h : ∀ m ∈ ms, Takes (writeMethod m) slots) (written : List (Member .method)) :
    Takes (writeMethods written ms) (ms.length * slots) := by
  induction ms generalizing written with
  | nil =>
    rw [List.length_nil, Nat.zero_mul]
    exact takes_pure _
  | cons m ms ih =>
    have rest := fun member => ih (fun n mem => h n (List.mem_cons_of_mem m mem))
      (member :: written)
    have whole := (h m List.mem_cons_self).bind rest
    rwa [List.length_cons, Nat.succ_mul, Nat.add_comm]

theorem takes_writeInner (inner outer : ClassName) (m : Source.Modifiers) :
    Takes (writeInner inner outer m) 5 := by
  change Takes _ (2 + (2 + (1 + 0)))
  exact (takes_inPool (Pool.takes_classRef inner.text)).bind fun innerIndex =>
    (takes_inPool (Pool.takes_classRef outer.text)).bind fun outerIndex =>
      (takes_inPool (Pool.takes_utf8 inner.simpleName)).bind fun name => takes_pure _

theorem takes_writeInners (nesting : List (ClassName × ClassName × Source.Modifiers)) :
    Takes (nesting.mapM fun entry => writeInner entry.1 entry.2.1 entry.2.2)
      (nesting.length * 5) := by
  induction nesting with
  | nil =>
    rw [List.mapM_nil, List.length_nil, Nat.zero_mul]
    exact takes_pure _
  | cons entry nesting ih =>
    have whole := (takes_writeInner entry.1 entry.2.1 entry.2.2).bind fun first =>
      ih.bind fun others => takes_pure (first :: others)
    rw [List.mapM_cons, List.length_cons, Nat.succ_mul, Nat.add_comm]
    exact whole

theorem takes_writeAttributes (c : TypedClass) :
    Takes (writeAttributes c) (c.nesting.length * 5 + 3) := by
  have whole : Takes (writeAttributes c) (1 + (1 + (c.nesting.length * 5 + 1))) := by
    apply (takes_inPool (Pool.takes_utf8 c.sourceFile)).bind
    intro file
    apply (takes_inPool (Pool.takes_utf8 "SourceFile")).bind
    intro source
    apply (takes_writeInners c.nesting).bind
    intro entries
    split
    · intro p valid room
      exact ⟨_, p, rfl, valid, Nat.le_add_right _ _⟩
    · exact (takes_inPool (Pool.takes_utf8 "InnerClasses")).bind fun name => takes_pure _
  have same : 1 + (1 + (c.nesting.length * 5 + 1)) = c.nesting.length * 5 + 3 := by omega
  rwa [same] at whole

/-- A class is written if all of its methods can be and there is room for everything else. -/
theorem emit_of_room {c : TypedClass} {slots : Nat}
    (methods : ∀ m ∈ c.methods, Takes (writeMethod m) slots)
    (room : c.methods.length * slots + c.nesting.length * 5 + 17 < 65536) (version : Version) :
    ∃ f, emit c version = .ok f := by
  have whole : Takes (writeClass c version)
      (2 + (2 + (9 + (c.methods.length * slots + (c.nesting.length * 5 + 3 + 0))))) := by
    apply (takes_inPool (Pool.takes_classRef c.name.text)).bind
    intro thisClass
    apply (takes_inPool (Pool.takes_classRef ClassName.object.text)).bind
    intro superClass
    apply takes_constructor.bind
    intro constructor
    apply (takes_writeMethods methods []).bind
    intro written
    apply (takes_writeAttributes c).bind
    intro attributes p valid room
    exact ⟨_, p, rfl, valid, Nat.le_add_right _ _⟩
  have start : Pool.empty.table.next = 1 := rfl
  obtain ⟨f, q, written, -⟩ := whole .empty Pool.valid_empty (by omega)
  refine ⟨f, ?_⟩
  unfold emit StateT.run
  rw [written]
  rfl

theorem emit_of_method {c : TypedClass} {m : TypedMethod} {slots : Nat} (only : c.methods = [m])
    (method : Takes (writeMethod m) slots) (room : slots + c.nesting.length * 5 + 17 < 65536)
    (version : Version) : ∃ f, emit c version = .ok f := by
  have methods : ∀ n ∈ c.methods, Takes (writeMethod n) slots := by
    rw [only]
    exact List.forall_mem_singleton.mpr method
  refine emit_of_room methods ?_ version
  rwa [only, List.length_singleton, Nat.one_mul]

end JavaSnippet.Compile
