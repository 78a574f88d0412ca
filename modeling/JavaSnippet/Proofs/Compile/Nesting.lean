import JavaSnippet.Proofs.Compile.Variables
import Mathlib.Data.List.DropRight
/-!
The entries of `InnerClasses` attributes. A class has one for itself if it is nested, and one for
each class declared directly in it. An entry tells the names of both classes, but its simple name is
cut from the name of the nested one, so a dollar sign in what was declared shortens it.
-/
namespace JavaSnippet

section Names

/-- What stands after the last dollar sign of a text. -/
def afterDollar (text : String) : String := String.ofList (text.toList.rtakeWhile (· != '$'))

theorem afterDollar_eq_self_iff {text : String} : afterDollar text = text ↔ '$' ∉ text.toList := by
  rw [afterDollar, ← String.toList_inj, String.toList_ofList, List.rtakeWhile_eq_self_iff]
  constructor
  · intro all here
    exact absurd (all '$' here) (by decide)
  · intro absent c here
    exact bne_iff_ne.mpr fun same => absent (same ▸ here)

theorem takeWhile_append_cons {α : Type} {p : α → Bool} {a : α} (stops : p a = false)
    (xs ys : List α) : (xs ++ a :: ys).takeWhile p = xs.takeWhile p := by
  induction xs with
  | nil => rw [List.nil_append, List.takeWhile_cons_of_neg (by simp [stops]), List.takeWhile_nil]
  | cons x xs ih => rw [List.cons_append, List.takeWhile_cons, List.takeWhile_cons, ih]

/-- What was joined is cut at the last dollar sign, which may be one of the nested name. -/
theorem ClassName.simpleName_nested (outer : ClassName) {simple : String}
    (plain : '/' ∉ simple.toList) : (outer.nested ⟨simple⟩).simpleName = afterDollar simple := by
  have text : (outer.nested ⟨simple⟩).text.toList.reverse =
      simple.toList.reverse ++ '$' :: outer.text.toList.reverse := by
    simp [ClassName.nested]
  have whole : ∀ c ∈ simple.toList.reverse, (c != '/') = true := fun c here =>
    bne_iff_ne.mpr fun same => plain (same ▸ List.mem_reverse.mp here)
  have segment : (outer.nested ⟨simple⟩).lastSegment.toList.reverse =
      simple.toList.reverse ++ '$' :: outer.text.toList.reverse.takeWhile (· != '/') := by
    rw [ClassName.lastSegment, String.toList_ofList, List.reverse_reverse, text,
      List.takeWhile_append_of_pos whole, List.takeWhile_cons_of_pos (by decide)]
  rw [ClassName.simpleName, segment, takeWhile_append_cons (by decide)]
  rfl

end Names

namespace Compile

open Typing Source ClassFile

section Listing

/-- The classes directly in the class of a name, each with its own name. -/
def directlyIn (n : ClassName) (ds : List Declared) : List (ClassName × ClassDecl) :=
  (ds.filter fun d => d.outer == some n).map fun d => (d.name, d.decl)

theorem directlyIn_append (n : ClassName) (ds es : List Declared) :
    directlyIn n (ds ++ es) = directlyIn n ds ++ directlyIn n es := by
  rw [directlyIn, List.filter_append, List.map_append, ← directlyIn, ← directlyIn]

theorem directlyIn_cons (n : ClassName) (unit : Nat) (decl : ClassDecl) (around : List ClassName)
    (name : ClassName) (ds : List Declared) :
    directlyIn n (⟨unit, decl, around, name⟩ :: ds) =
      if around.getLast? = some n then (name, decl) :: directlyIn n ds else directlyIn n ds := by
  simp only [directlyIn, List.filter_cons, Declared.outer, beq_iff_eq]
  split <;> rfl

mutual

/-- A class that is not listed has none of the listed classes in it, unless it is given around
them. -/
theorem directlyIn_listed_eq_nil : ∀ (decl : ClassDecl) {around : List ClassName}
    {name n : ClassName}, n ∉ (listed around name decl).map (·.name) →
      around.getLast? ≠ some n → directlyIn n (listed around name decl) = []
  | .mk simple modifiers methods classes line, around, name, n, absent, other => by
    rw [listed, List.map_cons, List.mem_cons, not_or] at absent
    rw [listed, directlyIn_cons, if_neg other]
    exact directlyIn_listedInside_eq_nil classes absent.2 (by simpa using Ne.symm absent.1)

theorem directlyIn_listedInside_eq_nil : ∀ (decls : List ClassDecl) {around : List ClassName}
    {outer n : ClassName}, n ∉ (listedInside around outer decls).map (·.name) →
      around.getLast? ≠ some n → directlyIn n (listedInside around outer decls) = []
  | [], around, outer, n, absent, other => by
    rw [listedInside]
    rfl
  | .mk simple modifiers methods classes line :: rest, around, outer, n, absent, other => by
    rw [listedInside, List.map_append, List.mem_append, not_or] at absent
    rw [listedInside, directlyIn_append, directlyIn_listed_eq_nil _ absent.1 other,
      directlyIn_listedInside_eq_nil rest absent.2 other]
    rfl

end

/-- The nested classes of a declaration, named after the class they are in. -/
def nestedIn (outer : ClassName) (decls : List ClassDecl) : List (ClassName × ClassDecl) :=
  decls.map fun decl => (outer.nested ⟨decl.name⟩, decl)

theorem directlyIn_listedInside_own {around : List ClassName} {outer : ClassName}
    (last : around.getLast? = some outer) (decls : List ClassDecl)
    (absent : outer ∉ (listedInside around outer decls).map (·.name)) :
    directlyIn outer (listedInside around outer decls) = nestedIn outer decls := by
  induction decls with
  | nil =>
    rw [listedInside]
    rfl
  | cons decl rest ih =>
    obtain ⟨simple, modifiers, methods, classes, line⟩ := decl
    rw [listedInside, List.map_append, List.mem_append, not_or] at absent
    obtain ⟨first, others⟩ := absent
    rw [listed, List.map_cons, List.mem_cons, not_or] at first
    have deeper := directlyIn_listedInside_eq_nil classes first.2 (by simpa using Ne.symm first.1)
    rw [listedInside, listed, directlyIn_append, directlyIn_cons, if_pos last, deeper, ih others]
    rfl

/-- The part that a class is in has all classes directly in it. -/
theorem directlyIn_append_of_mem {ds es : List Declared} {d : Declared}
    {classes : List (ClassName × ClassDecl)} (unique : ((ds ++ es).map (·.name)).Nodup)
    (first : (ds.map (·.name)).Nodup → d ∈ ds → directlyIn d.name ds = classes)
    (second : (es.map (·.name)).Nodup → d ∈ es → directlyIn d.name es = classes)
    (notFirst : d.name ∉ ds.map (·.name) → directlyIn d.name ds = [])
    (notSecond : d.name ∉ es.map (·.name) → directlyIn d.name es = [])
    (here : d ∈ ds ++ es) : directlyIn d.name (ds ++ es) = classes := by
  rw [List.map_append] at unique
  obtain ⟨inDs, inEs, apart⟩ := List.nodup_append.mp unique
  rw [directlyIn_append]
  rcases List.mem_append.mp here with inFirst | inSecond
  · have absent : d.name ∉ es.map (·.name) := fun again =>
      apart _ (List.mem_map_of_mem inFirst) _ again rfl
    rw [first inDs inFirst, notSecond absent, List.append_nil]
  · have absent : d.name ∉ ds.map (·.name) := fun again =>
      apart _ again _ (List.mem_map_of_mem inSecond) rfl
    rw [second inEs inSecond, notFirst absent, List.nil_append]

mutual

/-- Where all classes have names of their own, those directly in one are the ones declared so. -/
theorem directlyIn_listed : ∀ (decl : ClassDecl) {around : List ClassName} {name : ClassName},
    ((listed around name decl).map (·.name)).Nodup →
      (∀ outer, around.getLast? = some outer →
        outer ∉ (listed around name decl).map (·.name)) →
      ∀ d ∈ listed around name decl,
        directlyIn d.name (listed around name decl) = nestedIn d.name d.decl.classes
  | .mk simple modifiers methods classes line, around, name, unique, outside, d, here => by
    -- The class around the declaration is not listed, so it is not this one.
    have other : around.getLast? ≠ some d.name := fun last =>
      outside d.name last (List.mem_map_of_mem here)
    rw [listed, List.map_cons, List.nodup_cons] at unique
    rw [listed] at here ⊢
    rw [directlyIn_cons, if_neg other]
    rcases List.mem_cons.mp here with rfl | inside
    · exact directlyIn_listedInside_own (by simp) classes unique.1
    · refine directlyIn_listedInside classes unique.2 ?_ d inside
      intro outer last
      obtain rfl : name = outer := by simpa using last
      exact unique.1

theorem directlyIn_listedInside : ∀ (decls : List ClassDecl) {around : List ClassName}
    {outer : ClassName}, ((listedInside around outer decls).map (·.name)).Nodup →
      (∀ last, around.getLast? = some last →
        last ∉ (listedInside around outer decls).map (·.name)) →
      ∀ d ∈ listedInside around outer decls,
        directlyIn d.name (listedInside around outer decls) = nestedIn d.name d.decl.classes
  | [], around, outer, unique, outside, d, here => by
    rw [listedInside] at here
    cases here
  | .mk simple modifiers methods classes line :: rest, around, outer, unique, outside, d, here => by
    have other : around.getLast? ≠ some d.name := fun last =>
      outside d.name last (List.mem_map_of_mem here)
    rw [listedInside] at unique here outside ⊢
    simp only [List.map_append, List.mem_append, not_or] at outside
    exact directlyIn_append_of_mem unique
      (fun first => directlyIn_listed _ first (fun last isLast => (outside last isLast).1) d)
      (fun others =>
        directlyIn_listedInside rest others (fun last isLast => (outside last isLast).2) d)
      (fun absent => directlyIn_listed_eq_nil _ absent other)
      (fun absent => directlyIn_listedInside_eq_nil rest absent other) here

end

theorem directlyIn_flatMap_eq_nil (name : ClassDecl → ClassName) {n : ClassName}
    {decls : List ClassDecl}
    (absent : n ∉ (decls.flatMap fun decl => listed [] (name decl) decl).map (·.name)) :
    directlyIn n (decls.flatMap fun decl => listed [] (name decl) decl) = [] := by
  induction decls with
  | nil => rfl
  | cons decl decls ih =>
    rw [List.flatMap_cons, List.map_append, List.mem_append, not_or] at absent
    rw [List.flatMap_cons, directlyIn_append, directlyIn_listed_eq_nil decl absent.1 (by simp),
      ih absent.2]
    rfl

theorem directlyIn_flatMap (name : ClassDecl → ClassName) {decls : List ClassDecl}
    (unique : ((decls.flatMap fun decl => listed [] (name decl) decl).map (·.name)).Nodup)
    {d : Declared} (here : d ∈ decls.flatMap fun decl => listed [] (name decl) decl) :
    directlyIn d.name (decls.flatMap fun decl => listed [] (name decl) decl) =
      nestedIn d.name d.decl.classes := by
  induction decls with
  | nil => cases here
  | cons decl decls ih =>
    rw [List.flatMap_cons] at unique here ⊢
    exact directlyIn_append_of_mem unique
      (fun first => directlyIn_listed decl first (by simp) d) ih
      (fun absent => directlyIn_listed_eq_nil decl absent (by simp))
      (directlyIn_flatMap_eq_nil name) here

theorem directlyIn_listing {content : CompilationUnit}
    (unique : ((listing content).map (·.name)).Nodup) {d : Declared} (here : d ∈ listing content) :
    directlyIn d.name (listing content) = nestedIn d.name d.decl.classes :=
  directlyIn_flatMap (fun decl => ⟨qualify (packageOf content) decl.name⟩) unique here

end Listing

section Entries

theorem className?_zero {t : ConstantTable} (built : ∃ cs, t = ConstantTable.empty.append cs) :
    t.className? 0 = none := by
  obtain ⟨cs, rfl⟩ := built
  refine Option.eq_none_iff_forall_ne_some.mpr fun name found => ?_
  obtain ⟨text, isClass, -⟩ := ConstantTable.className?_eq_some.mp found
  have here := SlotTable.mem_of_get? isClass
  have := SlotTable.le_of_mem_append (n := 1) (t := ConstantTable.empty)
    (by simp [ConstantTable.empty, SlotTable.startingAt, SlotTable.toList]) (Nat.le_refl 1) cs _
    here
  simp at this

/-- The slots of the entries are different and none is the first. -/
theorem length_entries {external : ClassPath} {units : List SourceUnit} {c : TypedClass}
    (here : c ∈ (typeUnits external units).1) {t : ConstantTable} {entries : List InnerClass}
    (built : ∃ cs, t = ConstantTable.empty.append cs)
    (named : List.Forall₂ (NamesInner t) c.nesting entries) : entries.length < 65536 := by
  have absent : (0 : PoolIndex) ∉ entries.map (·.inner) := by
    intro isZero
    obtain ⟨entry, isEntry, zero⟩ := List.mem_map.mp isZero
    obtain ⟨nested, -, isNamed⟩ := exists_of_forall₂ named isEntry
    have found := isNamed.inner
    rw [zero, className?_zero built] at found
    cases found
  have bounded := length_le_of_nodup (List.nodup_cons.mpr ⟨absent, nodup_inner here named⟩)
  rwa [List.length_cons, List.length_map] at bounded

theorem known_innerFlags (m : Modifiers) : (innerFlags m).Known := by
  unfold innerFlags
  refine Flags.Known.withBit (Flags.Known.withBit (Flags.Known.withBit (Flags.Known.withBit
    (Flags.Known.withBit (Flags.Known.withBit known_none ?_ _) ?_ _) ?_ _) ?_ _) ?_ _) ?_ _
  all_goals decide

theorem reads_innerClass {entry : InnerClass} (known : entry.flags.Known) :
    Reads Read.innerClass entry.encode entry := by
  unfold InnerClass.encode
  rw [List.append_assoc, List.append_assoc]
  exact (reads_u16 entry.inner).bind <| (reads_u16 entry.outer).bind <|
    (reads_u16 entry.name).bind <|
      (reads_known known).map (InnerClass.mk entry.inner entry.outer entry.name) rfl

theorem decodeInnerClasses_encode {entries : List InnerClass}
    (known : ∀ entry ∈ entries, entry.flags.Known) (few : entries.length < 65536) :
    decodeInnerClasses (encodeInnerClasses entries) = .ok entries := by
  have whole := Reads.list (fun entry here => reads_innerClass (known entry here)) few [] 0
  rw [List.append_nil] at whole
  exact Read.run_eq_ok.mpr ⟨_, whole⟩

/-- The entries of all `InnerClasses` attributes of a class file. -/
def innerClasses (f : ClassFile) : Except Fault (List InnerClass) := do
  let tables ← (f.attributes.filter fun a => f.constants.utf8? a.name == some "InnerClasses").mapM
    fun a => decodeInnerClasses a.info
  return tables.flatten

theorem innerClasses_of_emit {external : ClassPath} {units : List SourceUnit} {c : TypedClass}
    (here : c ∈ (typeUnits external units).1) {version : Version} {f : ClassFile}
    (h : emit c version = .ok f) :
    ∃ entries, innerClasses f = .ok entries ∧
      List.Forall₂ (NamesInner f.constants) c.nesting entries := by
  have emitted := emit_ok h
  obtain ⟨source, file, entries, rest, all, isSource, -, named, rows⟩ := emitted.attributes.written
  refine ⟨entries, ?_, named⟩
  have known : ∀ entry ∈ entries, entry.flags.Known := by
    intro entry isEntry
    obtain ⟨nested, -, isNamed⟩ := exists_of_forall₂ named isEntry
    rw [isNamed.flags]
    exact known_innerFlags nested.2.2
  have read := decodeInnerClasses_encode known (length_entries here emitted.built named)
  unfold innerClasses
  rw [all, List.filter_cons_of_neg (by simp [isSource])]
  rcases rows with ⟨rfl, rfl⟩ | ⟨name, isName, rfl⟩
  · rfl
  · rw [List.filter_cons_of_pos (by simp [isName]), List.filter_nil, List.mapM_cons, List.mapM_nil,
      read]
    exact congrArg Except.ok (List.append_nil entries)

end Entries

section Output

variable {external : ClassPath} {units : List SourceUnit} {version : Version}

/-- The classes that a class file has entries for, each with the class around it: the class itself
if it is nested, and those declared directly in it. -/
def Declared.entries (d : Declared) : List (ClassName × ClassDecl) :=
  (d.outer.map fun outer => (outer, d.decl)).toList ++ d.decl.classes.map fun decl => (d.name, decl)

theorem classes_nodup (accepts : Accepts external units) {unit : SourceUnit}
    (here : unit ∈ units) : (unit.classes.map (·.name)).Nodup := by
  have unique := accepts.unique
  rw [List.map_flatMap] at unique
  exact (List.nodup_flatMap.mp unique).1 unit here

/-- The nested classes of a declared class are the classes of its unit that are in it. -/
theorem directlyIn_classes (accepts : Accepts external units) {x : SourceUnit × Declared}
    (here : x ∈ declarations units) :
    directlyIn x.2.name x.1.classes = nestedIn x.2.name x.2.decl.classes := by
  obtain ⟨isUnit, isClass⟩ := mem_classes_of_declarations accepts here
  have unique := classes_nodup accepts isUnit
  have listed : x.1.classes = listing x.1.content :=
    listing_of_declareUnit (accepts.clean x.1 isUnit).placed
  rw [listed] at unique isClass ⊢
  exact directlyIn_listing unique isClass

theorem nested_of_entries (accepts : Accepts external units) {x : SourceUnit × Declared}
    (here : x ∈ declarations units) {e : ClassName × ClassDecl} (entry : e ∈ x.2.entries) :
    (⟨e.2.name⟩ : SimpleName).IsValid := by
  obtain ⟨-, isClass⟩ := mem_classes_of_declarations accepts here
  rcases List.mem_append.mp entry with own | inner
  · obtain ⟨outer, isOuter, rfl⟩ := Option.map_eq_some_iff.mp (Option.mem_toList.mp own)
    exact (nested_of_declareUnit isClass outer isOuter).2
  · obtain ⟨decl, isInner, rfl⟩ := List.mem_map.mp inner
    -- What is declared inside is a class of the unit, whose name was checked with it.
    have found : (x.2.name.nested ⟨decl.name⟩, decl) ∈ directlyIn x.2.name x.1.classes := by
      rw [directlyIn_classes accepts here]
      exact List.mem_map_of_mem isInner
    obtain ⟨d, inside, same⟩ := List.mem_map.mp found
    obtain ⟨isDeclared, isOuter⟩ := List.mem_filter.mp inside
    obtain ⟨-, rfl⟩ := Prod.mk.inj same
    exact (nested_of_declareUnit isDeclared x.2.name (eq_of_beq isOuter)).2

theorem nesting_of_declarations (accepts : Accepts external units) {x : SourceUnit × Declared}
    (here : x ∈ declarations units) :
    (typedFor external units x).nesting =
      x.2.entries.map fun e => (e.1.nested ⟨e.2.name⟩, e.1, e.2.modifiers) := by
  obtain ⟨-, isClass⟩ := mem_classes_of_declarations accepts here
  have members : (typedFor external units x).members =
      (directlyIn x.2.name x.1.classes).map fun p => (p.1, p.2.modifiers) := by
    rw [directlyIn, List.map_map]
    rfl
  rw [directlyIn_classes accepts here, nestedIn, List.map_map] at members
  unfold TypedClass.nesting Declared.entries
  rw [members, List.map_append, List.map_map, List.map_map]
  congr 1
  cases isOuter : x.2.outer with
  | none => simp [typedFor, typeClass, isOuter]
  | some outer =>
    have named := (nested_of_declareUnit isClass outer isOuter).1
    simp [typedFor, typeClass, isOuter, ← named]

/-- The entry is of the class in the class around it. As its simple name it has what stands after
the last dollar sign of the declared one. -/
structure EntryOf (t : ConstantTable) (outer : ClassName) (decl : ClassDecl)
    (entry : InnerClass) : Prop where
  inner : t.className? entry.inner = some (outer.text ++ "$" ++ decl.name)
  outer : t.className? entry.outer = some outer.text
  simple : t.utf8? entry.name = some (afterDollar decl.name)
  flags : entry.flags = innerFlags decl.modifiers

/-- The simple name is the declared one, and the name of the inner class is made of it and that of
the outer class. -/
structure Faithful (t : ConstantTable) (decl : ClassDecl) (entry : InnerClass) : Prop where
  declared : t.utf8? entry.name = some decl.name
  joined : ∃ inner outer simple, t.className? entry.inner = some inner ∧
    t.className? entry.outer = some outer ∧ t.utf8? entry.name = some simple ∧
      inner = outer ++ "$" ++ simple

theorem EntryOf.faithful_iff {t : ConstantTable} {outer : ClassName} {decl : ClassDecl}
    {entry : InnerClass} (h : EntryOf t outer decl entry) :
    Faithful t decl entry ↔ '$' ∉ decl.name.toList := by
  rw [← afterDollar_eq_self_iff]
  constructor
  · intro faithful
    exact Option.some.inj (h.simple.symm.trans faithful.declared)
  · intro whole
    have simple := h.simple
    rw [whole] at simple
    exact ⟨simple, _, _, _, h.inner, h.outer, simple, rfl⟩

theorem entryOf_of_namesInner {t : ConstantTable} {outer : ClassName} {decl : ClassDecl}
    {entry : InnerClass} (valid : (⟨decl.name⟩ : SimpleName).IsValid)
    (named : NamesInner t (outer.nested ⟨decl.name⟩, outer, decl.modifiers) entry) :
    EntryOf t outer decl entry := by
  obtain ⟨legal, -⟩ := SimpleName.check_eq_ok.mp valid
  have plain : '/' ∉ decl.name.toList := fun here => absurd (legal '/' here) (by decide)
  refine ⟨named.inner, named.outer, ?_, named.flags⟩
  rw [named.name, ClassName.simpleName_nested outer plain]

/-- Each class of an accepted program has an entry for itself if it is nested and one for each class
declared directly in it, in order, and no others. They are faithful but for the classes that were
declared with a dollar sign in their names, whose simple names are cut short. -/
theorem compile_entries {compiled : List CompiledUnit}
    (h : compile external units version = .ok compiled) :
    List.Forall₂ (fun x (u : CompiledUnit) => ∃ f entries,
        emit (typedFor external units x) version = .ok f ∧
          u = ⟨x.2.name.dotted, f.encode⟩ ∧ innerClasses f = .ok entries ∧
          List.Forall₂ (fun e entry => EntryOf f.constants e.1 e.2 entry ∧
              (Faithful f.constants e.2 entry ↔ '$' ∉ e.2.name.toList))
            x.2.entries entries)
      (declarations units) compiled := by
  obtain ⟨accepts, emits⟩ := compile_iff_emits.mp h
  have typed := accepts.typeUnits_eq
  rw [typedOf_eq_map accepts] at emits typed
  refine ((List.forall₂_and_left _ _).mpr ⟨fun _ here => here,
    List.forall₂_map_left_iff.mp emits⟩).imp ?_
  rintro x u ⟨here, f, emitted, rfl⟩
  have isTyped : typedFor external units x ∈ (typeUnits external units).1 :=
    typed ▸ List.mem_map_of_mem here
  obtain ⟨entries, read, named⟩ := innerClasses_of_emit isTyped emitted
  rw [nesting_of_declarations accepts here, List.forall₂_map_left_iff] at named
  refine ⟨f, entries, emitted, rfl, read, ((List.forall₂_and_left _ _).mpr
    ⟨fun _ isEntry => nested_of_entries accepts here isEntry, named⟩).imp ?_⟩
  rintro e entry ⟨valid, isNamed⟩
  have isEntry := entryOf_of_namesInner valid isNamed
  exact ⟨isEntry, isEntry.faithful_iff⟩

end Output

section Dollar

def dollarUnit : SourceUnit := ⟨"A", "class A \x7b static class B$C \x7b \x7d \x7d"⟩

def dollarDecl : ClassDecl := .mk "B$C" { Modifiers.none with isStatic := true } [] [] 1

def dollarContent : CompilationUnit := ⟨none, [], [.mk "A" .none [] [dollarDecl] 1]⟩

def dollarTokens : Lexemes :=
  ⟨[⟨.word "class", 1⟩, ⟨.word "A", 1⟩, ⟨.punct '\x7b', 1⟩, ⟨.word "static", 1⟩,
    ⟨.word "class", 1⟩, ⟨.word "B$C", 1⟩, ⟨.punct '\x7b', 1⟩, ⟨.punct '\x7d', 1⟩,
    ⟨.punct '\x7d', 1⟩], 1⟩

theorem scan_dollar : scan dollarUnit.text = .ok dollarTokens :=
  except_eq_ok_of_toOption (by decide +kernel)

theorem parse_dollar : parse dollarUnit.text = .ok dollarContent := by
  rw [parse, scan_dollar]
  rfl

def dollarClasses : List TypedClass :=
  [⟨⟨"A"⟩, .none, none, [(⟨"A$B$C"⟩, dollarDecl.modifiers)], [], "A.java"⟩,
    ⟨⟨"A$B$C"⟩, dollarDecl.modifiers, some ⟨"A"⟩, [], [], "A.java"⟩]

theorem typeUnits_dollar : typeUnits .empty [dollarUnit] = (dollarClasses, []) := by
  rw [typeUnits, parseUnits_singleton parse_dollar]
  rfl

theorem declarations_dollar : declarations [dollarUnit] =
    [(dollarUnit, ⟨0, .mk "A" .none [] [dollarDecl] 1, [], ⟨"A"⟩⟩),
      (dollarUnit, ⟨0, dollarDecl, [⟨"A"⟩], ⟨"A$B$C"⟩⟩)] := by
  rw [declarations, List.flatMap_singleton, SourceUnit.content, parse_dollar]
  rfl

theorem compile_dollar : ∃ compiled, compile .empty [dollarUnit] ⟨0, 52⟩ = .ok compiled := by
  have none : ∀ m ∈ ([] : List TypedMethod), Takes (writeMethod m) 0 := fun _ here => by cases here
  obtain ⟨f, first⟩ : ∃ f, emit dollarClasses[0] ⟨0, 52⟩ = .ok f :=
    emit_of_room none (by decide) _
  obtain ⟨g, second⟩ : ∃ g, emit dollarClasses[1] ⟨0, 52⟩ = .ok g :=
    emit_of_room none (by decide) _
  rw [compile_of_typeUnits typeUnits_dollar]
  exact ⟨_, emitAll_eq_ok.mpr ⟨_, rfl, .cons ⟨f, first, rfl⟩ (.cons ⟨g, second, rfl⟩ .nil)⟩⟩

/-- The nested class has a dollar sign in its name, and both entries for it lose what stands in
front. -/
theorem compile_entries_dollar :
    ∃ f g, compile .empty [dollarUnit] ⟨0, 52⟩ =
        .ok [⟨"A", ClassFile.encode f⟩, ⟨"A$B$C", ClassFile.encode g⟩] ∧
      ∀ file ∈ [f, g], ∃ entry, innerClasses file = .ok [entry] ∧
        file.constants.className? entry.inner = some "A$B$C" ∧
        file.constants.className? entry.outer = some "A" ∧
        file.constants.utf8? entry.name = some "C" ∧ ¬Faithful file.constants dollarDecl entry := by
  obtain ⟨compiled, h⟩ := compile_dollar
  have entries := compile_entries h
  rw [declarations_dollar] at entries
  obtain ⟨u, rest, ⟨f, inA, -, rfl, readA, entriesA⟩, later, rfl⟩ :=
    List.forall₂_cons_left_iff.mp entries
  obtain ⟨v, last, ⟨g, inB, -, rfl, readB, entriesB⟩, done, rfl⟩ :=
    List.forall₂_cons_left_iff.mp later
  obtain rfl := List.forall₂_nil_left_iff.mp done
  obtain ⟨nested, none, ⟨isNested, faithful⟩, doneA, rfl⟩ := List.forall₂_cons_left_iff.mp entriesA
  obtain ⟨own, noOther, ⟨isOwn, faithfulOwn⟩, doneB, rfl⟩ := List.forall₂_cons_left_iff.mp entriesB
  obtain rfl := List.forall₂_nil_left_iff.mp doneA
  obtain rfl := List.forall₂_nil_left_iff.mp doneB
  have name : (⟨"A"⟩ : ClassName).dotted = "A" := by decide
  have nestedName : (⟨"A$B$C"⟩ : ClassName).dotted = "A$B$C" := by decide
  have dollar : '$' ∈ "B$C".toList := by decide
  refine ⟨f, g, by rw [h, name, nestedName], fun file here => ?_⟩
  rcases List.mem_pair.mp here with rfl | rfl
  · exact ⟨nested, readA, isNested.inner, isNested.outer, isNested.simple,
      fun isFaithful => faithful.mp isFaithful dollar⟩
  · exact ⟨own, readB, isOwn.inner, isOwn.outer, isOwn.simple,
      fun isFaithful => faithfulOwn.mp isFaithful dollar⟩

end Dollar

end Compile

end JavaSnippet
