import JavaSnippet.Proofs.Source.Units
/-!
Parsing undoes printing. The tokens of a unit that can be written down have spellings, so its text
is scanned as these tokens, which are parsed as the unit.
-/
namespace JavaSnippet.Source

section Spellings

variable {style : Style}

/-- All tokens have a spelling. -/
def Spelled (tokens : List Token) : Prop := ∀ t ∈ tokens, t.IsSpelled

theorem spelled_nil : Spelled [] := by simp [Spelled]

theorem Spelled.cons {t : Token} {tokens : List Token} (first : t.IsSpelled)
    (others : Spelled tokens) : Spelled (t :: tokens) := List.forall_mem_cons.mpr ⟨first, others⟩

theorem Spelled.append {front back : List Token} (h : Spelled front) (g : Spelled back) :
    Spelled (front ++ back) := List.forall_mem_append.mpr ⟨h, g⟩

theorem Spelled.single {t : Token} (h : t.IsSpelled) : Spelled [t] := spelled_nil.cons h

theorem spelled_flatMap {α : Type} {f : α → List Token} {as : List α}
    (h : ∀ a ∈ as, Spelled (f a)) : Spelled (as.flatMap f) := by
  intro t here
  obtain ⟨a, inside, within⟩ := List.mem_flatMap.mp here
  exact h a inside t within

theorem spelled_punct {c : Char} (h : c ∈ Scan.punctuation) : (Token.punct c).IsSpelled := h

theorem spelled_identifier {text : String} (h : isIdentifier text = true) :
    (Token.word text).IsSpelled := (Bool.and_eq_true_iff.mp h).1

theorem spelled_keyword {text : String} (h : text ∈ Parser.keywords) :
    (Token.word text).IsSpelled := by
  have all : ∀ word ∈ Parser.keywords, isSpelledWord word = true := by decide
  exact all text h

theorem spelled_dotted {words : List String} (h : ∀ word ∈ words, isIdentifier word = true) :
    Spelled (dotted words) :=
  spelled_flatMap fun word here =>
    .cons (spelled_punct (by decide)) (.single (spelled_identifier (h word here)))

theorem spelled_path {p : Path} (h : p.isName = true) : Spelled p.tokens := by
  obtain ⟨first, others⟩ := List.forall_mem_cons.mp (List.all_eq_true.mp h)
  exact .cons (spelled_identifier first) (spelled_dotted others)

theorem spelled_typeName {type : TypeName} (h : type.isName = true) : Spelled type.tokens := by
  have brackets :
      Spelled (List.replicate type.dimensions [Token.punct '[', .punct ']']).flatten := by
    intro t here
    obtain ⟨pair, isPair, inside⟩ := List.mem_flatten.mp here
    obtain rfl := List.eq_of_mem_replicate isPair
    exact (Spelled.single (spelled_punct (by decide))).cons (spelled_punct (by decide)) t inside
  refine Spelled.append ?_ brackets
  obtain classNamed | primitive := Bool.or_eq_true_iff.mp h
  · exact spelled_path classNamed
  · obtain ⟨single, here⟩ := Bool.and_eq_true_iff.mp primitive
    obtain ⟨⟨head, tail⟩, dimensions, line⟩ := type
    obtain rfl : tail = [] := List.isEmpty_iff.mp single
    exact .single (spelled_keyword
      (Parser.primitives_subset_keywords _ (of_decide_eq_true here)))

theorem spelled_parenthesized {tokens : List Token} (h : Spelled tokens) (inside : Bool) :
    Spelled (parenthesized inside tokens) := by
  cases inside with
  | true =>
    exact .cons (spelled_punct (by decide)) (h.append (.single (spelled_punct (by decide))))
  | false => exact h

theorem spelled_listed {items : List (List Token)} (h : ∀ item ∈ items, Spelled item) :
    Spelled (listed items) := by
  refine .cons (spelled_punct (by decide)) (Spelled.append ?_ (.single (spelled_punct (by decide))))
  induction items with
  | nil => exact spelled_nil
  | cons item items ih =>
    obtain ⟨first, others⟩ := List.forall_mem_cons.mp h
    cases items with
    | nil => rwa [List.intercalate_singleton]
    | cons second items =>
      rw [List.intercalate_cons_cons]
      exact (first.append (.single (spelled_punct (by decide)))).append (ih others)

theorem spelled_numeral (token : UInt64 → Token) (h : ∀ value, (token value).IsSpelled)
    (value : Int) : Spelled (numeral token value) := by
  unfold numeral
  split
  · exact .cons (spelled_punct (by decide)) (.single (h _))
  · exact .single (h _)

theorem spelled_symbol (op : ArithOp) : (Token.punct op.symbol).IsSpelled := by
  cases op <;> exact spelled_punct (by decide)

mutual

theorem spelled_expr (e : Expr) (writable : e.isWritable = true) : Spelled (e.tokens style) := by
  match e with
  | .int value _ => exact spelled_numeral .int (fun _ => trivial) value
  | .long value _ => exact spelled_numeral .long (fun _ => trivial) value
  | .string _ _ => exact .single trivial
  | .bool true _ => exact .single (spelled_keyword (by decide))
  | .bool false _ => exact .single (spelled_keyword (by decide))
  | .null _ => exact .single (spelled_keyword (by decide))
  | .name text _ => exact .single (spelled_identifier writable)
  | .select qualifier member _ =>
    obtain ⟨isQualifier, isMember⟩ := Bool.and_eq_true_iff.mp writable
    exact (spelled_parenthesized (spelled_expr qualifier isQualifier) _).append
      (.cons (spelled_punct (by decide)) (.single (spelled_identifier isMember)))
  | .neg operand _ =>
    have inside := spelled_expr operand writable
    exact .cons (spelled_punct (by decide)) (spelled_parenthesized inside _)
  | .binary op left right _ =>
    obtain ⟨isLeft, isRight⟩ := Bool.and_eq_true_iff.mp writable
    exact (spelled_parenthesized (spelled_expr left isLeft) _).append
      (.cons (spelled_symbol op) (spelled_parenthesized (spelled_expr right isRight) _))
  | .call method args _ =>
    obtain ⟨isMethod, areArgs⟩ := Bool.and_eq_true_iff.mp writable
    exact .cons (spelled_identifier isMethod) (spelled_listed (spelled_arguments args areArgs))
  | .callOn receiver method args _ =>
    obtain ⟨before, areArgs⟩ := Bool.and_eq_true_iff.mp writable
    obtain ⟨isReceiver, isMethod⟩ := Bool.and_eq_true_iff.mp before
    exact (spelled_parenthesized (spelled_expr receiver isReceiver) _).append
      (.cons (spelled_punct (by decide)) (.cons (spelled_identifier isMethod)
        (spelled_listed (spelled_arguments args areArgs))))
  | .create type args _ =>
    obtain ⟨before, areArgs⟩ := Bool.and_eq_true_iff.mp writable
    have isName := (Bool.and_eq_true_iff.mp before).1
    exact .cons (spelled_keyword (by decide))
      ((spelled_typeName isName).append (spelled_listed (spelled_arguments args areArgs)))

theorem spelled_arguments (args : List Expr) (writable : Expr.areWritable args = true) :
    ∀ item ∈ Expr.argumentTokens style args, Spelled item := by
  match args with
  | [] => simp [Expr.argumentTokens]
  | e :: rest =>
    obtain ⟨isFirst, areOthers⟩ := Bool.and_eq_true_iff.mp writable
    exact List.forall_mem_cons.mpr
      ⟨spelled_parenthesized (spelled_expr e isFirst) _, spelled_arguments rest areOthers⟩

end

theorem spelled_value {e : Expr} (writable : e.isWritable = true) :
    Spelled (e.tokensAt style .whole ++ [.punct ';']) :=
  (spelled_parenthesized (spelled_expr e writable) _).append (.single (spelled_punct (by decide)))

theorem spelled_statement {st : Stmt} (writable : st.isWritable = true) :
    Spelled (st.tokens style) := by
  cases st with
  | declare type name isFinal value line =>
    obtain ⟨named, isValue⟩ := Bool.and_eq_true_iff.mp writable
    obtain ⟨isType, isName⟩ := Bool.and_eq_true_iff.mp named
    have initial : Spelled (initialTokens style value ++ [.punct ';']) := by
      cases value with
      | none => exact .single (spelled_punct (by decide))
      | some e => exact .cons (spelled_punct (by decide)) (spelled_value isValue)
    have behind : Spelled (type.tokens ++ .word name :: (initialTokens style value ++
        [.punct ';'])) :=
      (spelled_typeName isType).append (initial.cons (spelled_identifier isName))
    cases isFinal with
    | true => exact behind.cons (spelled_keyword (by decide))
    | false => exact behind
  | assign name value line =>
    obtain ⟨isName, isValue⟩ := Bool.and_eq_true_iff.mp writable
    exact .cons (spelled_identifier isName)
      (.cons (spelled_punct (by decide)) (spelled_value isValue))
  | returns value line =>
    cases value with
    | none => exact .cons (spelled_keyword (by decide)) (.single (spelled_punct (by decide)))
    | some e => exact .cons (spelled_keyword (by decide)) (spelled_value writable)
  | throws value line => exact .cons (spelled_keyword (by decide)) (spelled_value writable)
  | expr value => exact spelled_value (Bool.and_eq_true_iff.mp writable).2

theorem spelled_modifiers (m : Modifiers) : Spelled m.tokens := by
  have keyword : ∀ word ∈ Parser.modifierWords, word ∈ Parser.keywords := by decide
  refine List.forall_mem_map.mpr fun word here => spelled_keyword (keyword word ?_)
  obtain ⟨entry, within, rfl⟩ := List.mem_map.mp here
  exact List.mem_map_of_mem (List.mem_of_mem_filter within)

theorem spelled_method {m : MethodDecl} (writable : m.isWritable = true) :
    Spelled (m.tokens style) := by
  obtain ⟨head, areStatements⟩ := Bool.and_eq_true_iff.mp writable
  obtain ⟨front, areParameters⟩ := Bool.and_eq_true_iff.mp head
  obtain ⟨isName, isResult⟩ := Bool.and_eq_true_iff.mp front
  have result : Spelled (resultTokens m.result) := by
    cases found : m.result with
    | none => exact .single (spelled_keyword (by decide))
    | some type =>
      rw [found] at isResult
      exact spelled_typeName isResult
  have parameters : Spelled (listed (m.parameters.map Parameter.tokens)) := by
    refine spelled_listed (List.forall_mem_map.mpr fun p here => ?_)
    obtain ⟨isType, named⟩ := Bool.and_eq_true_iff.mp (List.all_eq_true.mp areParameters p here)
    exact (spelled_typeName isType).append (.single (spelled_identifier named))
  have body : Spelled (m.body.flatMap (Stmt.tokens style) ++ [.punct '\x7d']) :=
    Spelled.append (spelled_flatMap fun st here =>
      spelled_statement (List.all_eq_true.mp areStatements st here))
      (.single (spelled_punct (by decide)))
  exact (spelled_modifiers m.modifiers).append (result.append
    ((parameters.append (body.cons (spelled_punct (by decide)))).cons (spelled_identifier isName)))

theorem spelled_classes (cs : List ClassDecl) (writable : ClassDecl.areWritable cs = true) :
    Spelled (ClassDecl.allTokens style cs) := by
  match cs with
  | [] => exact spelled_nil
  | .mk name modifiers ms nested line :: rest =>
    obtain ⟨first, others⟩ := Bool.and_eq_true_iff.mp writable
    obtain ⟨named, isNested⟩ := Bool.and_eq_true_iff.mp first
    obtain ⟨isName, areMethods⟩ := Bool.and_eq_true_iff.mp named
    have methods : Spelled (ms.flatMap (MethodDecl.tokens style)) :=
      spelled_flatMap fun m here => spelled_method (List.all_eq_true.mp areMethods m here)
    have inside := methods.append ((spelled_classes nested isNested).append
      (.single (spelled_punct (c := '\x7d') (by decide))))
    rw [ClassDecl.allTokens, ClassDecl.tokens]
    exact ((spelled_modifiers modifiers).append (((inside.cons (spelled_punct (by decide))).cons
      (spelled_identifier isName)).cons (spelled_keyword (by decide)))).append
        (spelled_classes rest others)

theorem spelled_unit {unit : CompilationUnit} (writable : unit.isWritable = true) :
    Spelled (unit.tokens style) := by
  obtain ⟨front, areClasses⟩ := Bool.and_eq_true_iff.mp writable
  obtain ⟨isPackage, areImports⟩ := Bool.and_eq_true_iff.mp front
  have package : Spelled (packageTokens unit.package) := by
    cases found : unit.package with
    | none => exact spelled_nil
    | some p =>
      rw [found] at isPackage
      exact .cons (spelled_keyword (by decide))
        ((spelled_path isPackage).append (.single (spelled_punct (by decide))))
  have imports : Spelled (unit.imports.flatMap Import.tokens) := by
    refine spelled_flatMap fun i here => .cons (spelled_keyword (by decide)) ?_
    refine (spelled_path (List.all_eq_true.mp areImports i here)).append ?_
    split
    · exact .cons (spelled_punct (by decide)) (.cons (spelled_punct (by decide))
        (.single (spelled_punct (by decide))))
    · exact .single (spelled_punct (by decide))
  exact package.append (imports.append (spelled_classes unit.classes areClasses))

end Spellings

/-- A unit that can be written down and does not nest too deeply is read back from its text, but for
the lines: in every style that has the parentheses that are needed, and with any gaps. -/
theorem parse_printed {style : Style} (safe : style.IsSafe) (gaps : Nat → Gap)
    {unit : CompilationUnit} (writable : unit.isWritable = true)
    (shallow : unit.isShallow style = true) :
    (parse (unit.printed style gaps)).map CompilationUnit.withoutLines = .ok unit.withoutLines := by
  obtain ⟨lexemes, scanned, tokens⟩ := scan_laidOut (spelled_unit writable) gaps
  obtain ⟨found, left, made, -, same⟩ :=
    Parser.takes_compilationUnit safe writable shallow lexemes tokens
  have run : StateT.run Parser.compilationUnit lexemes = .ok (found, left) := made
  rw [parse, CompilationUnit.printed, scanned]
  simp only [run, Except.map, same]

/-- A unit with every kind of statement and expression. -/
def sampleUnit : CompilationUnit where
  package := some ⟨"a", ["b"]⟩
  imports := [⟨⟨"java", ["util", "List"]⟩, false, 2⟩, ⟨⟨"java", ["io"]⟩, true, 3⟩]
  classes := [.mk "C" ⟨true, false, false, false, true, false⟩
    [⟨"f", ⟨false, false, true, true, false, false⟩, some ⟨⟨"long", []⟩, 1, 4⟩,
      [⟨⟨⟨"a", ["D"]⟩, 0, 4⟩, "x", 4⟩, ⟨⟨⟨"int", []⟩, 2, 4⟩, "y", 4⟩],
      [.declare ⟨⟨"int", []⟩, 0, 5⟩ "z" true (some (.binary .sub
          (.binary .mul (.neg (.int 5 5) 5) (.binary .add (.name "x" 5) (.long (-7) 5) 5) 5)
          (.binary .sub (.neg (.select (.int 5 5) "n" 5) 5) (.neg (.int (-5) 5) 5) 5) 5)) 5,
        .declare ⟨⟨"a", ["D"]⟩, 0, 6⟩ "w" false none 6,
        .assign "w"
          (.create ⟨⟨"a", ["D"]⟩, 0, 7⟩ [.string "\"\n\\" 7, .bool true 7, .null 7] 7) 7,
        .expr (.callOn (.select (.select (.name "x" 8) "y" 8) "z" 8) "g"
          [.callOn (.binary .div (.name "x" 8) (.name "y" 8) 8) "h" [] 8, .bool false 8] 8),
        .expr (.call "k" [.call "k" [] 9] 9),
        .returns (some (.binary .rem (.neg (.neg (.name "z" 9) 9) 9)
          (.int 18446744073709551615 9) 9)) 9,
        .throws (.name "w" 10) 10], 4⟩]
    [.mk "E" .none [⟨"g", .none, none, [], [.returns none 12], 12⟩] [] 12] 1]

theorem parse_printed_sampleUnit :
    (parse (sampleUnit.printed Position.needsParentheses fun _ => [])).map
      CompilationUnit.withoutLines = .ok sampleUnit.withoutLines :=
  parse_printed (fun _ _ needed => needed) _ (by decide) (by decide)

end JavaSnippet.Source
