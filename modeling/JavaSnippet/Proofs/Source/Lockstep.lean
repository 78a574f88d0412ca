import JavaSnippet.Proofs.Source.Descent
/-!
Each activation goes in step with the parser of its rule. Where the parser takes tokens apart to see
what comes, it is first brought into the form of the activation, which only looks ahead.
-/
namespace JavaSnippet.Source.Parser

open Code

section Looking

variable {α β : Type}

theorem known_bind {x : Parse α} {g : α → Parse β} {a : α} {s : Lexemes}
    (made : x s = .ok (a, s)) : (x >>= g) s = g a s := by
  rw [StateExcept.bind_apply, made]

theorem peek_nil {s : Lexemes} (none : s.rest = []) : peek s = .ok (.none, s) := by
  rw [peek, none]
  rfl

theorem pathFrom_cons (x : Lexeme) (more : List Lexeme) (found : Path) :
    pathFrom (x :: more) found = (do
      if ← atSegment then
        skip
        let segment ← identifier
        pathFrom more (found.snoc segment)
      else return found) := by
  funext s
  rw [pathFrom, known_bind (a := s) rfl]
  generalize ahead : s.rest = tokens
  split
  · rw [known_bind (a := true) (by rw [atSegment, ahead]; rfl)]
    rfl
  · rename_i other
    rw [known_bind (a := false)]
    · rfl
    · unfold atSegment
      split
      · rename_i found
        exact (other _ _ _ _ (ahead.symm.trans found)).elim
      · rfl

theorem dimensionsFrom_cons (x : Lexeme) (more : List Lexeme) (found : Nat) :
    dimensionsFrom (x :: more) found = (do
      if ← atBrackets then
        skip
        skip
        dimensionsFrom more (found + 1)
      else return found) := by
  funext s
  rw [dimensionsFrom, known_bind (a := s) rfl]
  generalize ahead : s.rest = tokens
  split
  · rw [known_bind (a := true) (by rw [atBrackets, ahead]; rfl)]
    rfl
  · rename_i other
    rw [known_bind (a := false)]
    · rfl
    · unfold atBrackets
      split
      · rename_i found
        exact (other _ _ _ (ahead.symm.trans found)).elim
      · rfl

theorem look_segment (s : Lexemes) :
    atSegment s = .ok (true, s) ∧ 0 < s.rest.length ∨ atSegment s = .ok (false, s) := by
  unfold atSegment
  split
  · rename_i ahead
    exact .inl ⟨rfl, by simp [ahead]⟩
  · exact .inr rfl

theorem look_brackets (s : Lexemes) :
    atBrackets s = .ok (true, s) ∧ 0 < s.rest.length ∨ atBrackets s = .ok (false, s) := by
  unfold atBrackets
  split
  · rename_i ahead
    exact .inl ⟨rfl, by simp [ahead]⟩
  · exact .inr rfl

end Looking

section Names

variable {budget : Option (List Lexeme)} {s : Lexemes} {depth : Nat}

theorem runs_segments (found : Path) (fits : depth ≤ maxNesting) (covers : Covers budget s) :
    Runs (.segments found) ⟨s, depth⟩ (s.rest.length + 1) (within budget (pathFrom · found) s)
      (segmentsCode found ⟨s, depth⟩) := by
  refine Runs.loop covers (fun none => ?_) fun x more covered => ?_
  · exact runs_stop none fun _ => rfl
  · rw [pathFrom_cons]
    obtain ⟨look, some⟩ | look := look_segment s
    · refine Runs.known look (.skip fun t short => .identifier fun segment u fewer => ?_)
      exact runs_call (.segments _) (covered.fewer (by omega)) rfl
        (.fewer fits rfl (by omega)) (by omega)
    · exact Runs.known look (runs_pure (Nat.lt_succ_self _))

theorem runs_path (fits : depth ≤ maxNesting) :
    Runs .path ⟨s, depth⟩ s.rest.length (path s) (pathCode ⟨s, depth⟩) := by
  refine .identifier fun segment u fewer => ?_
  exact runs_call (.segments _) (covers_none u) rfl (.fewer fits rfl fewer) (by omega)

theorem runs_dimensions (found : Nat) (fits : depth ≤ maxNesting) (covers : Covers budget s) :
    Runs (.dimensions found) ⟨s, depth⟩ (s.rest.length + 1)
      (within budget (dimensionsFrom · found) s) (dimensionsCode found ⟨s, depth⟩) := by
  refine Runs.loop covers (fun none => ?_) fun x more covered => ?_
  · exact runs_stop none fun _ => rfl
  · rw [dimensionsFrom_cons]
    obtain ⟨look, some⟩ | look := look_brackets s
    · refine Runs.known look (.skip fun t short => .skip fun u shorter => ?_)
      exact runs_call (.dimensions _) (covered.fewer (by omega)) rfl
        (.fewer fits rfl (by omega)) (by omega)
    · exact Runs.known look (runs_pure (Nat.lt_succ_self _))

theorem look_primitive (s : Lexemes) :
    (∃ text, primitive? s = .ok (some text, s) ∧ 0 < s.rest.length) ∨
      primitive? s = .ok (none, s) := by
  unfold primitive?
  split
  · rename_i text ahead
    by_cases found : text ∈ primitives
    · exact .inl ⟨text, by rw [if_pos found], pos_of_head ahead⟩
    · exact .inr (by rw [if_neg found])
  · exact .inr rfl

theorem typeName_primitive {text : String} (look : primitive? s = .ok (some text, s)) :
    typeName s = (do
      let start ← line
      skip
      return ⟨⟨text, []⟩, ← dimensionsFrom (← get).rest 0, start⟩ : Parse TypeName) s := by
  unfold primitive? at look
  rw [typeName, known_bind (x := line) rfl, known_bind (x := peek) rfl, known_bind (x := line) rfl]
  generalize s.rest.head?.map (·.token) = next at look ⊢
  split at look
  · split at look
    · rename_i found
      obtain rfl := Option.some.inj (Prod.mk.inj (Except.ok.inj look)).1
      simp only [if_pos found, pure_bind]
    · cases look
  · cases look

theorem typeName_path (look : primitive? s = .ok (none, s)) :
    typeName s = (do
      let start ← line
      let name ← path
      return ⟨name, ← dimensionsFrom (← get).rest 0, start⟩ : Parse TypeName) s := by
  unfold primitive? at look
  rw [typeName, known_bind (x := line) rfl, known_bind (x := peek) rfl, known_bind (x := line) rfl]
  generalize s.rest.head?.map (·.token) = next at look ⊢
  split
  · rename_i text
    have none : (if text ∈ primitives then some text else .none) = .none :=
      (Prod.mk.inj (Except.ok.inj look)).1
    have other : text ∉ primitives := fun member => by simp [member] at none
    rw [if_neg other]
  · rfl

theorem runs_typeName (fits : depth ≤ maxNesting) :
    Runs .typeName ⟨s, depth⟩ s.rest.length (typeName s) (typeNameCode ⟨s, depth⟩) := by
  unfold typeNameCode
  obtain ⟨text, look, some⟩ | look := look_primitive s
  · rw [typeName_primitive look]
    refine .line fun start => .looked look (.skip fun t short => .get ?_)
    have fewer : t.rest.length < s.rest.length := by omega
    exact .call (.dimensions 0) (covers_none t) rfl (.fewer fits rfl fewer) fun count u kept =>
      runs_pure (Nat.lt_of_le_of_lt kept fewer)
  · rw [typeName_path look]
    refine .line fun start => .looked look ?_
    refine .take .path (covers_none s) rfl rfl (.lower fits rfl (Nat.le_refl _) Nat.one_pos) ?_
    exact fun name t fewer => .get <| .call (.dimensions 0) (covers_none t) rfl
      (.fewer fits rfl fewer) fun count u kept => runs_pure (Nat.lt_of_le_of_lt kept fewer)

theorem atDeclaration_unmoved (s : Lexemes) : ∃ found, atDeclaration s = .ok (found, s) := by
  unfold atDeclaration
  split <;> exact ⟨_, rfl⟩

theorem runs_atDeclaration : Runs .atDeclaration ⟨s, 0⟩ (s.rest.length + 1) (atDeclaration s)
    (atDeclarationCode ⟨s, 0⟩) := by
  refine ⟨.lower (Nat.zero_le _) rfl (Nat.le_refl _) (Nat.lt_succ_self _), ?_⟩
  intro result t returns
  have agrees := returns.agrees none (covers_none s)
  unfold atDeclaration
  rw [StateExcept.bind_apply]
  cases result with
  | error fault =>
    rw [show typeName s = .error fault from agrees.error]
    exact ⟨returns.depth, ⟨rfl, rfl⟩, fun _ _ => Nat.lt_succ_self _⟩
  | ok type =>
    rw [show typeName s = .ok (type, t.lexemes) from agrees.ok]
    refine ⟨returns.depth, ?_, fun _ _ => Nat.lt_succ_self _⟩
    simp only
    cases identifier t.lexemes with
    | ok name => exact ⟨rfl, rfl⟩
    | error fault => exact ⟨rfl, rfl⟩

end Names

section Expressions

variable {γ : Type} {caller : Rule γ} {budget : Option (List Lexeme)} {s : Lexemes} {depth : Nat}

theorem parser_operand (level : Level) :
    level.operand.parser budget depth = level.parser (unaryAt depth) := by
  cases level <;> rfl

theorem operand_takes (level : Level) : level.operand.takes = 1 := by
  cases level <;> rfl

theorem operand_nests (level : Level) : level.operand.nests = 0 := by
  cases level <;> rfl

theorem operand_fits (level : Level) (fits : depth ≤ maxNesting) : level.operand.Fits depth := by
  cases level <;> exact fits

theorem operand_rank (level : Level) : level.operand.rank < (Rule.operations level).rank := by
  cases level <;> decide

theorem runs_operations (level : Level) (fits : depth ≤ maxNesting) :
    Runs (.operations level) ⟨s, depth⟩ s.rest.length
      (operations level.operator (level.parser (unaryAt depth)) s)
      (operationsCode level ⟨s, depth⟩) := by
  refine .take level.operand (covers_none s) (congrFun (parser_operand level).symm s)
    (operand_takes level)
    (.lower (operand_fits level fits) (operand_nests level) (Nat.le_refl _) (operand_rank level))
    fun first t fewer => .get ?_
  exact runs_call (.operators level first) (covers_none t) rfl (.fewer fits rfl fewer) (by omega)

theorem runs_operators (level : Level) (found : Expr) (fits : depth ≤ maxNesting)
    (covers : Covers budget s) :
    Runs (.operators level found) ⟨s, depth⟩ (s.rest.length + 1)
      (within budget (operationsFrom level.operator (level.parser (unaryAt depth)) · found) s)
      (operatorsCode level found ⟨s, depth⟩) := by
  refine Runs.loop covers (fun none => ?_) fun x more covered => ?_
  · exact runs_stop none fun _ => rfl
  · rw [operationsFrom]
    refine .peek fun next some => ?_
    cases joins : next.bind level.operator with
    | none => exact runs_pure (Nat.lt_succ_self _)
    | some op =>
      obtain ⟨token, isNext, -⟩ := Option.bind_eq_some_iff.mp joins
      have pos := some token isNext
      refine .line fun start => .skip fun t short => ?_
      refine .take level.operand (covers_none t) (congrFun (parser_operand level).symm t)
        (operand_takes level) (.fewer (operand_fits level fits) (operand_nests level)
          (by omega)) fun right u fewer => ?_
      exact runs_call (.operators level _) (covered.fewer (by omega)) rfl
        (.fewer fits rfl (by omega)) (by omega)

theorem unaryAt_maxNesting : unaryAt maxNesting = fail .nestedTooDeeply := by
  rw [unaryAt, Nat.sub_self]
  rfl

theorem unaryAt_of_lt (shallow : depth < maxNesting) :
    unaryAt depth = signed (unaryAt (depth + 1)) := by
  unfold unaryAt
  rw [show maxNesting - depth = maxNesting - (depth + 1) + 1 by omega]
  rfl

theorem runs_unary (fits : depth ≤ maxNesting) :
    Runs .unary ⟨s, depth⟩ s.rest.length (unaryAt depth s) (unaryCode ⟨s, depth⟩) := by
  unfold unaryCode
  by_cases deep : maxNesting ≤ depth
  · rw [if_pos deep]
    obtain rfl := Nat.le_antisymm fits deep
    rw [unaryAt_maxNesting]
    exact runs_fail
  · rw [if_neg deep, unaryAt_of_lt (Nat.lt_of_not_le deep)]
    refine ⟨⟨Nat.lt_of_not_le deep, rfl, .inr ⟨rfl, Nat.lt_succ_self _⟩⟩, ?_⟩
    intro result t returns
    refine ⟨?_, returns.agrees none (covers_none s), returns.taken⟩
    change t.depth - 1 = depth
    rw [returns.depth]
    rfl

theorem runs_postfixes (found : Expr) (fits : depth ≤ maxNesting) (covers : Covers budget s) :
    Runs (.postfixes found) ⟨s, depth⟩ (s.rest.length + 1)
      (within budget (postfixFrom (expressionOf (unaryAt depth)) · found) s)
      (postfixesCode found ⟨s, depth⟩) := by
  refine Runs.loop covers (fun none => ?_) fun x more covered => ?_
  · exact runs_stop none fun _ => rfl
  · rw [postfixFrom]
    refine .next (fun some => ?_) (runs_pure (Nat.lt_succ_self _))
    refine .skip fun t short => .line fun start => .identifier fun member u fewer => ?_
    refine .next (fun _ => ?_) ?_
    · refine .take .arguments (covers_none u) rfl rfl (.fewer fits rfl (by omega))
        fun args v taken => ?_
      exact runs_call (.postfixes _) (covered.fewer (by omega)) rfl (.fewer fits rfl (by omega))
        (by omega)
    · exact runs_call (.postfixes _) (covered.fewer (by omega)) rfl (.fewer fits rfl (by omega))
        (by omega)

theorem runs_arguments (fits : depth ≤ maxNesting) :
    Runs .arguments ⟨s, depth⟩ s.rest.length (arguments (expressionOf (unaryAt depth)) s)
      (argumentsCode ⟨s, depth⟩) := by
  refine .expect fun t fewer => .eat (fun u shorter => runs_pure (by omega)) ?_
  exact .get (runs_call (.argumentList []) (covers_none t) rfl (.fewer fits rfl fewer) (by omega))

theorem runs_argumentList (found : List Expr) (fits : depth ≤ maxNesting)
    (covers : Covers budget s) :
    Runs (.argumentList found) ⟨s, depth⟩ s.rest.length
      (within budget (argumentsFrom (expressionOf (unaryAt depth)) · found) s)
      (argumentListCode found ⟨s, depth⟩) := by
  refine Runs.loop covers (fun none => ?_) fun x more covered => ?_
  · rw [argumentsFrom]
    refine .take (.operations .sums) (covers_none s) rfl rfl
      (.lower fits rfl (Nat.le_refl _) (Nat.lt_succ_self _)) fun arg t fewer => ?_
    rw [none] at fewer
    cases fewer
  · rw [argumentsFrom]
    refine .take (.operations .sums) (covers_none s) rfl rfl
      (.lower fits rfl (Nat.le_refl _) (Nat.lt_succ_self _)) fun arg t fewer => ?_
    refine .eat (fun u short => runs_pure (by omega)) (.next (fun some => ?_) runs_fail)
    refine .skip fun u short => ?_
    exact runs_call (.argumentList _) (covered.fewer (by omega)) rfl (.fewer fits rfl (by omega))
      (by omega)

theorem runs_nestedUnary (fits : depth ≤ maxNesting) :
    Runs .nestedUnary ⟨s, depth⟩ s.rest.length (signed (unaryAt depth) s)
      (nestedUnaryCode ⟨s, depth⟩) := by
  refine .line fun start => .eat (fun t fewer => ?_) (.eat (fun t fewer => ?_) ?_)
  · exact runs_call .unary (covers_none t) rfl (.fewer fits rfl fewer) (by omega)
  · refine .peek fun next some => ?_
    have negated : Runs .nestedUnary ⟨s, depth⟩ s.rest.length
        ((unaryAt depth >>= fun operand => pure (.neg operand start) : Parse Expr) t)
        ((call .unary >>= fun operand => pure (.neg operand start) : Code Expr) ⟨t, depth⟩) :=
      .take .unary (covers_none t) rfl rfl (.fewer fits rfl fewer) fun operand u taken =>
        runs_pure (by omega)
    have folded (literal : Expr) : Runs .nestedUnary ⟨s, depth⟩ s.rest.length
        ((skip >>= fun _ => get >>= fun left =>
          postfixFrom (expressionOf (unaryAt depth)) left.rest literal : Parse Expr) t)
        ((of skip >>= fun _ => call (.postfixes literal) : Code Expr) ⟨t, depth⟩) :=
      .skip fun u short => .get <| runs_call (.postfixes literal) (covers_none u) rfl
        (.fewer fits rfl (by omega)) (by omega)
    cases next with
    | none => exact negated
    | some token =>
      cases token with
      | int value => exact folded _
      | long value => exact folded _
      | string text => exact negated
      | word text => exact negated
      | punct c => exact negated
  · refine .take .primary (covers_none s) rfl rfl
      (.lower fits rfl (Nat.le_refl _) Nat.one_pos) fun subject t fewer => .get ?_
    exact runs_call (.postfixes subject) (covers_none t) rfl (.fewer fits rfl fewer) (by omega)

theorem worded_literal {x : Parse Expr} {start : Nat} {text : String} {literal : Expr}
    (is : literal? start text = some literal) :
    worded x start text = (do
      skip
      return literal) := by
  unfold literal? at is
  split at is
  · rename_i same
    rw [← Option.some.inj is, same]
    rfl
  · split at is
    · rename_i same
      rw [← Option.some.inj is, same]
      rfl
    · split at is
      · rename_i same
        rw [← Option.some.inj is, same]
        rfl
      · cases is

theorem worded_other {x : Parse Expr} {start : Nat} {text : String}
    (none : literal? start text = none) :
    worded x start text = (
      if text = "new" then do
        skip
        let type ← typeName
        if type.dimensions ≠ 0 then fail (.expected "'('")
        return .create type (← arguments x) start
      else if text ∈ keywords then fail .illegalStart
      else do
        skip
        if ← isNext (.punct '(') then return .call text (← arguments x) start
        else return .name text start) := by
  unfold worded
  split
  · cases none
  · cases none
  · cases none
  · rfl
  · rename_i other
    rw [if_neg other]

theorem runs_worded {start : Nat} {text : String} (fits : depth ≤ maxNesting)
    (some : 0 < s.rest.length) :
    Runs .primary ⟨s, depth⟩ s.rest.length (worded (expressionOf (unaryAt depth)) start text s)
      (wordedCode start text ⟨s, depth⟩) := by
  unfold wordedCode
  cases is : literal? start text with
  | some literal =>
    rw [worded_literal is]
    exact .skip fun t short => runs_pure (by omega)
  | none =>
    rw [worded_other is]
    simp only
    split
    · refine .skip fun t short => ?_
      refine .take .typeName (covers_none t) rfl rfl (.fewer fits rfl (by omega))
        fun type u taken => ?_
      split
      · exact .fail
      · exact .take .arguments (covers_none u) rfl rfl (.fewer fits rfl (by omega))
          fun args v taken => runs_pure (by omega)
    · split
      · exact runs_fail
      · refine .skip fun t short => .next (fun some => ?_) (runs_pure (by omega))
        exact .take .arguments (covers_none t) rfl rfl (.fewer fits rfl (by omega))
          fun args u taken => runs_pure (by omega)

theorem runs_primary (fits : depth ≤ maxNesting) :
    Runs .primary ⟨s, depth⟩ s.rest.length (primary (expressionOf (unaryAt depth)) s)
      (primaryCode ⟨s, depth⟩) := by
  refine .line fun start => .peek fun next some => ?_
  cases next with
  | none => exact runs_fail
  | some token =>
    have pos := some token rfl
    cases token with
    | int value => exact .skip fun t short => runs_pure (by omega)
    | long value => exact .skip fun t short => runs_pure (by omega)
    | string text => exact .skip fun t short => runs_pure (by omega)
    | word text => exact runs_worded fits pos
    | punct c =>
      by_cases opens : c = '('
      · simp only [if_pos opens]
        refine .skip fun t short => ?_
        refine .take (.operations .sums) (covers_none t) rfl rfl (.fewer fits rfl (by omega)) ?_
        exact fun inner u taken => .expect fun v fewer => runs_pure (by omega)
      · simp only [if_neg opens]
        exact runs_fail

end Expressions

section Statements

variable {caller : Rule Stmt} {budget : Option (List Lexeme)} {origin s : Lexemes} {start : Nat}

theorem runs_declaration {isFinal : Bool} {limit : Nat} (kept : s.rest.length ≤ origin.rest.length)
    (short : s.rest.length ≤ limit) (below : 1 < caller.rank) :
    Runs caller ⟨origin, 0⟩ limit (declaration isFinal start s)
      (declarationCode isFinal start ⟨s, 0⟩) := by
  refine .take .typeName (covers_none s) rfl rfl (.lower (Nat.zero_le _) rfl kept below)
    fun type t taken => ?_
  refine .identifier fun name u fewer => ?_
  refine .eat (fun v shorter => ?_) ?_
  · rw [bind_map_left]
    exact .take (.operations .sums) (covers_none v) rfl rfl (.fewer (Nat.zero_le _) rfl (by omega))
      fun value w taken => .expect fun last fewest => runs_pure (by omega)
  · rw [pure_bind]
    exact .expect fun last fewest => runs_pure (by omega)

theorem assignmentOrCall_some {name : String} (look : assigned? s = .ok (some name, s)) :
    assignmentOrCall start s = (do
      skip
      skip
      let value ← expression
      expect ';'
      return .assign name value start : Parse Stmt) s := by
  unfold assigned? at look
  rw [assignmentOrCall, known_bind (x := get) rfl]
  generalize s.rest = tokens at look ⊢
  split at look
  · obtain rfl := Option.some.inj (Prod.mk.inj (Except.ok.inj look)).1
    rfl
  · cases look

theorem assignmentOrCall_none (look : assigned? s = .ok (none, s)) :
    assignmentOrCall start s = (do
      let value ← expression
      if !isCall value then failAt value.line .notStatement
      expect ';'
      return .expr value : Parse Stmt) s := by
  unfold assigned? at look
  rw [assignmentOrCall, known_bind (x := get) rfl]
  generalize s.rest = tokens at look ⊢
  split
  · cases look
  · rfl

theorem look_assigned (s : Lexemes) :
    (∃ name, assigned? s = .ok (some name, s) ∧ 0 < s.rest.length) ∨
      assigned? s = .ok (none, s) := by
  unfold assigned?
  split
  · rename_i ahead
    exact .inl ⟨_, rfl, by simp [ahead]⟩
  · exact .inr rfl

theorem runs_assignmentOrCall (kept : s.rest.length ≤ origin.rest.length) :
    Runs .statement ⟨origin, 0⟩ origin.rest.length (assignmentOrCall start s)
      (assignmentOrCallCode start ⟨s, 0⟩) := by
  obtain ⟨name, look, some⟩ | look := look_assigned s
  · rw [assignmentOrCall_some look]
    refine .looked look (.skip fun t short => .skip fun u shorter => ?_)
    exact .take (.operations .sums) (covers_none u) rfl rfl (.fewer (Nat.zero_le _) rfl (by omega))
      fun value v taken => .expect fun w fewer => runs_pure (by omega)
  · rw [assignmentOrCall_none look]
    refine .looked look ?_
    refine .take (.operations .sums) (covers_none s) rfl rfl
      (.lower (Nat.zero_le _) rfl kept (Nat.lt_succ_self _)) fun value t taken => ?_
    simp only
    split
    · exact .failAt
    · exact .expect fun u fewer => runs_pure (by omega)

theorem runs_statement :
    Runs .statement ⟨s, 0⟩ s.rest.length (statement s) (statementCode ⟨s, 0⟩) := by
  refine .line fun start => .eat (fun t fewer => ?_) (.eat (fun t fewer => ?_)
    (.eat (fun t fewer => ?_) ?_))
  · refine .next (fun some => ?_) ?_
    · rw [pure_bind]
      exact .expect fun u shorter => runs_pure (by omega)
    · rw [bind_map_left]
      exact .take (.operations .sums) (covers_none t) rfl rfl (.fewer (Nat.zero_le _) rfl fewer)
        fun value v taken => .expect fun w fewest => runs_pure (by omega)
  · exact .take (.operations .sums) (covers_none t) rfl rfl (.fewer (Nat.zero_le _) rfl fewer)
      fun value v taken => .expect fun w fewest => runs_pure (by omega)
  · exact runs_declaration (Nat.le_of_lt fewer) (Nat.le_of_lt fewer) (by decide)
  · refine .call .atDeclaration (covers_none s) rfl
      (.lower rfl rfl (Nat.le_refl _) (by decide)) fun found t kept => ?_
    cases found with
    | true => exact runs_declaration kept kept (by decide)
    | false => exact runs_assignmentOrCall kept

theorem runs_statements (found : List Stmt) (covers : Covers budget s) :
    Runs (.statements found) ⟨s, 0⟩ s.rest.length (within budget (statementsFrom · found) s)
      (statementsCode found ⟨s, 0⟩) := by
  refine Runs.loop covers (fun none => ?_) fun x more covered => ?_
  · rw [statementsFrom]
    refine .eat (fun t fewer => runs_pure fewer) ?_
    exact .looked (peek_nil none) .failed
  · rw [statementsFrom]
    refine .eat (fun t fewer => runs_pure fewer) (.peek fun next some => ?_)
    split
    · exact .fail
    · exact .take .statement (covers_none s) rfl rfl
        (.lower rfl rfl (Nat.le_refl _) (Nat.lt_succ_self _)) fun first t taken =>
          runs_call (.statements _) (covered.fewer taken) rfl (.fewer rfl rfl taken) (by omega)

end Statements

section Declarations

variable {budget : Option (List Lexeme)} {s : Lexemes}

theorem modifiersFrom_more {m more : Modifiers} {x : Lexeme} {rest : List Lexeme}
    (look : modified? m s = .ok (some more, s)) :
    modifiersFrom (x :: rest) m s = (do
      skip
      modifiersFrom rest more : Parse Modifiers) s := by
  unfold modified? at look
  rw [modifiersFrom, known_bind (x := peek) rfl]
  generalize s.rest.head?.map (·.token) = next at look ⊢
  split at look
  · have is := (Prod.mk.inj (Except.ok.inj look)).1
    simp only [is]
  · cases look

theorem modifiersFrom_none {m : Modifiers} {tokens : List Lexeme}
    (look : modified? m s = .ok (none, s)) :
    modifiersFrom tokens m s = (pure m : Parse Modifiers) s := by
  unfold modified? at look
  cases tokens with
  | nil => rfl
  | cons x rest =>
    rw [modifiersFrom, known_bind (x := peek) rfl]
    generalize s.rest.head?.map (·.token) = next at look ⊢
    split
    · have is := (Prod.mk.inj (Except.ok.inj look)).1
      simp only [is]
    · rfl

theorem look_modified (m : Modifiers) (s : Lexemes) :
    (∃ more, modified? m s = .ok (some more, s) ∧ 0 < s.rest.length) ∨
      modified? m s = .ok (none, s) := by
  unfold modified?
  split
  · rename_i text ahead
    cases is : m.with? text with
    | some more => exact .inl ⟨more, rfl, pos_of_head ahead⟩
    | none => exact .inr rfl
  · exact .inr rfl

theorem runs_modifiers (found : Modifiers) (covers : Covers budget s) :
    Runs (.modifiers found) ⟨s, 0⟩ (s.rest.length + 1) (within budget (modifiersFrom · found) s)
      (modifiersCode found ⟨s, 0⟩) := by
  obtain ⟨more, look, some⟩ | look := look_modified found s
  · refine Runs.loop covers (fun none => ?_) fun x rest covered => ?_
    · simp [none] at some
    · rw [modifiersFrom_more look]
      refine .looked look (.skip fun t short => ?_)
      exact runs_call (.modifiers more) (covered.fewer (by omega)) rfl (.fewer rfl rfl (by omega))
        (by omega)
  · rw [within, modifiersFrom_none look]
    exact .looked look (runs_pure (Nat.lt_succ_self _))

theorem runs_parameter {found : List Parameter} :
    Runs (.parameters found) ⟨s, 0⟩ s.rest.length (parameter s) (parameterCode ⟨s, 0⟩) := by
  refine .of fun isFinal t eaten => .line fun start => ?_
  refine .take .typeName (covers_none t) rfl rfl
    (.lower (Nat.zero_le _) rfl (eat_kept eaten) (Nat.lt_succ_self _)) fun type u fewer => ?_
  have kept := eat_kept eaten
  exact .identifier fun name v shorter => runs_pure (by omega)

theorem runs_parameters (found : List Parameter) (covers : Covers budget s) :
    Runs (.parameters found) ⟨s, 0⟩ s.rest.length (within budget (parametersFrom · found) s)
      (parametersCode found ⟨s, 0⟩) := by
  refine Runs.loop covers (fun none => ?_) fun x more covered => ?_
  · rw [parametersFrom]
    refine runs_parameter.bind fun p t fewer _ => ?_
    rw [none] at fewer
    cases fewer
  · rw [parametersFrom]
    refine runs_parameter.bind fun p t fewer _ => ?_
    refine .eat (fun u shorter => runs_pure (by omega)) (.expect fun u shorter => ?_)
    exact runs_call (.parameters _) (covered.fewer (by omega)) rfl (.fewer rfl rfl (by omega))
      (by omega)

section Methods

variable {m : Modifiers} {origin : Lexemes}

theorem runs_result :
    Runs (.methodDecl m) ⟨s, 0⟩ (s.rest.length + 1) (result s) (resultCode ⟨s, 0⟩) :=
  .eat (fun t fewer => runs_pure (by omega)) <|
    .take .typeName (covers_none s) rfl rfl
      (.lower (Nat.zero_le _) rfl (Nat.le_refl _) (by simp [Rule.rank])) fun type t fewer =>
        runs_pure (by omega)

theorem runs_parameterList (kept : s.rest.length ≤ origin.rest.length) :
    Runs (.methodDecl m) ⟨origin, 0⟩ s.rest.length (parameters s) (parameterListCode ⟨s, 0⟩) := by
  refine .expect fun t fewer => .eat (fun u shorter => runs_pure (by omega)) (.get ?_)
  exact runs_call (.parameters []) (covers_none t) rfl (.fewer rfl rfl (by omega)) (by omega)

theorem runs_block (kept : s.rest.length ≤ origin.rest.length) :
    Runs (.methodDecl m) ⟨origin, 0⟩ s.rest.length (block s) (blockCode ⟨s, 0⟩) := by
  refine .expect fun t fewer => .get ?_
  exact runs_call (.statements []) (covers_none t) rfl (.fewer rfl rfl (by omega)) (by omega)

theorem runs_methodDecl (m : Modifiers) :
    Runs (.methodDecl m) ⟨s, 0⟩ s.rest.length (methodDecl m s) (methodDeclCode m ⟨s, 0⟩) := by
  refine .line fun start => runs_result.bind fun type t kept _ => ?_
  refine .identifier fun name u fewer => ?_
  refine (runs_parameterList (by omega)).bind fun ps v shorter _ => ?_
  exact (runs_block (by omega)).bind fun body w fewest _ => runs_pure (by omega)

end Methods

theorem fewer_classHead {name : String} {t : Lexemes} (made : classHead s = .ok (name, t)) :
    t.rest.length < s.rest.length := by
  obtain ⟨found, u, eaten, made⟩ := StateExcept.bind_eq_ok.mp made
  obtain ⟨rfl, fewer⟩ | ⟨rfl, -⟩ := eat_cases eaten
  · obtain ⟨name, v, named, made⟩ := StateExcept.bind_eq_ok.mp made
    have shorter := fewer_identifier named
    obtain ⟨sub, w, looked, made⟩ := StateExcept.bind_eq_ok.mp made
    obtain ⟨-, rfl⟩ := Prod.mk.inj (Except.ok.inj looked)
    obtain ⟨super, w, looked, made⟩ := StateExcept.bind_eq_ok.mp made
    obtain ⟨-, rfl⟩ := Prod.mk.inj (Except.ok.inj looked)
    simp only at made
    split at made
    · obtain ⟨_, w, failed, -⟩ := StateExcept.bind_eq_ok.mp made
      exact (fail_ne_ok failed).elim
    · obtain ⟨_, w, opened, made⟩ := StateExcept.bind_eq_ok.mp made
      obtain ⟨-, rfl⟩ := Prod.mk.inj (Except.ok.inj made)
      have last := fewer_expect opened
      omega
  · obtain ⟨_, v, failed, -⟩ := StateExcept.bind_eq_ok.mp made
    exact (fail_ne_ok failed).elim

theorem runs_classDecl (m : Modifiers) (covers : Covers budget s) :
    Runs (.classDecl m) ⟨s, 0⟩ s.rest.length (classDeclWithin budget m s)
      (classDeclCode m ⟨s, 0⟩) := by
  refine .line fun start => .of fun name t made => ?_
  have fewer := fewer_classHead made
  have enough : Covers (budget.map List.tail) t := by
    cases budget with
    | none => exact Nat.le_refl _
    | some tokens =>
      change t.rest.length ≤ tokens.tail.length
      have covers : s.rest.length ≤ tokens.length := covers
      rw [List.length_tail]
      omega
  exact .take (.members [] []) enough rfl rfl (.fewer rfl rfl fewer) fun found u shorter =>
    runs_pure (by omega)

/-- A class as it stands in the loop over the members of another. -/
theorem classDeclWithin_then {α : Type} (x : Lexeme) (more : List Lexeme) (m : Modifiers)
    (g : ClassDecl → Parse α) :
    (classDeclWithin (some (x :: more)) m >>= g) = (do
      let start ← line
      let name ← classHead
      let found ← membersFrom more [] []
      g (.mk name m found.1 found.2 start)) := by
  simp only [classDeclWithin, bind_assoc, pure_bind]
  rfl

theorem runs_members (ms : List MethodDecl) (cs : List ClassDecl) (covers : Covers budget s) :
    Runs (.members ms cs) ⟨s, 0⟩ s.rest.length (within budget (membersFrom · ms cs) s)
      (membersCode ms cs ⟨s, 0⟩) := by
  refine Runs.loop covers (fun none => ?_) fun x more covered => ?_
  · rw [membersFrom]
    refine .eat (fun t fewer => runs_pure fewer) ?_
    exact .looked (peek_nil none) .failed
  · rw [membersFrom]
    refine .eat (fun t fewer => runs_pure fewer) (.peek fun next some => ?_)
    split
    · exact .fail
    · refine .eat (fun t fewer => ?_) ?_
      · exact runs_call (.members ms cs) (covered.fewer fewer) rfl (.fewer rfl rfl fewer) (by omega)
      · refine .call (.modifiers .none) (covers_none s) rfl
          (.lower rfl rfl (Nat.le_refl _) (by simp [Rule.rank])) fun m t kept => ?_
        have kept : t.rest.length ≤ s.rest.length := kept
        refine .next (fun some => ?_) ?_
        · -- The parser has a class inside another inline, in the same loop.
          change Runs _ _ _ ((do
            let start ← line
            let name ← classHead
            let found ← membersFrom more [] []
            membersFrom more ms (.mk name m found.1 found.2 start :: cs) : Parse _) t) _
          rw [← classDeclWithin_then x more m fun c => membersFrom more ms (c :: cs)]
          refine .take (.classDecl m) (covered.mono kept) rfl rfl
            (.lower rfl rfl kept (by simp [Rule.rank])) fun c u fewer => ?_
          have fewer := Nat.lt_of_lt_of_le fewer kept
          exact runs_call (.members _ _) (covered.fewer fewer) rfl (.fewer rfl rfl fewer) (by omega)
        · refine .take (.methodDecl m) (covers_none t) rfl rfl
            (.lower rfl rfl kept (by simp [Rule.rank])) fun method u fewer => ?_
          have fewer := Nat.lt_of_lt_of_le fewer kept
          exact runs_call (.members _ _) (covered.fewer fewer) rfl (.fewer rfl rfl fewer) (by omega)

theorem runs_imports (found : List Import) (covers : Covers budget s) :
    Runs (.imports found) ⟨s, 0⟩ (s.rest.length + 1) (within budget (importsFrom · found) s)
      (importsCode found ⟨s, 0⟩) := by
  refine Runs.loop covers (fun none => ?_) fun x more covered => ?_
  · exact runs_stop none fun _ => rfl
  · rw [importsFrom]
    refine .next (fun some => ?_) (runs_pure (Nat.lt_succ_self _))
    refine .line fun start => .skip fun t short => ?_
    refine .take .path (covers_none t) rfl rfl (.fewer (Nat.zero_le _) rfl (by omega))
      fun name u fewer => ?_
    refine .of fun onDemand v eaten => ?_
    have kept := eat_kept eaten
    have last (w : Lexemes) (shorter : w.rest.length ≤ v.rest.length) :
        Runs (.imports found) ⟨s, 0⟩ (s.rest.length + 1)
          ((expect ';' >>= fun _ => importsFrom more (⟨name, onDemand, start⟩ :: found)) w)
          ((of (expect ';') >>= fun _ =>
            call (.imports (⟨name, onDemand, start⟩ :: found)) : Code _) ⟨w, 0⟩) :=
      .expect fun y fewest => runs_call (.imports _) (covered.fewer (by omega)) rfl
        (.fewer rfl rfl (by omega)) (by omega)
    simp only
    split
    · exact .expect fun w shorter => last w (Nat.le_of_lt shorter)
    · exact last v (Nat.le_refl _)

theorem runs_classes (found : List ClassDecl) (covers : Covers budget s) :
    Runs (.classes found) ⟨s, 0⟩ (s.rest.length + 1) (within budget (classesFrom · found) s)
      (classesCode found ⟨s, 0⟩) := by
  refine Runs.loop covers (fun none => ?_) fun x more covered => ?_
  · exact runs_stop none fun _ => rfl
  · rw [classesFrom]
    refine .peek fun next some => ?_
    split
    · exact runs_pure (Nat.lt_succ_self _)
    · refine .eat (fun t fewer => ?_) ?_
      · exact runs_call (.classes found) (covered.fewer fewer) rfl (.fewer rfl rfl fewer) (by omega)
      · refine .call (.modifiers .none) (covers_none s) rfl
          (.lower rfl rfl (Nat.le_refl _) (by simp [Rule.rank])) fun m t kept => ?_
        have kept : t.rest.length ≤ s.rest.length := kept
        refine .of fun isClass u looked => ?_
        obtain ⟨-, rfl⟩ := Prod.mk.inj (Except.ok.inj looked)
        cases isClass with
        | false => exact .line fun n => .failAt
        | true =>
          refine .take (.classDecl m) (covers_none t) rfl rfl
            (.lower rfl rfl kept (by simp [Rule.rank])) fun c u fewer => ?_
          have fewer := Nat.lt_of_lt_of_le fewer kept
          exact runs_call (.classes _) (covered.fewer fewer) rfl (.fewer rfl rfl fewer) (by omega)

theorem runs_package :
    Runs .unit ⟨s, 0⟩ (s.rest.length + 1) (packageDecl s) (packageCode ⟨s, 0⟩) := by
  refine .eat (fun t fewer => ?_) (runs_pure (Nat.lt_succ_self _))
  exact .take .path (covers_none t) rfl rfl (.fewer (Nat.zero_le _) rfl fewer)
    fun name u shorter => .expect fun v fewest => runs_pure (by omega)

theorem runs_unit :
    Runs .unit ⟨s, 0⟩ (s.rest.length + 1) (compilationUnit s) (unitCode ⟨s, 0⟩) := by
  refine runs_package.bind fun package t kept _ => .get ?_
  have kept : t.rest.length ≤ s.rest.length := Nat.le_of_lt_succ kept
  refine .call (.imports []) (covers_none t) rfl
    (.lower rfl rfl kept (by simp [Rule.rank])) fun imports u fewer => .get ?_
  have fewer : u.rest.length ≤ t.rest.length := fewer
  exact .call (.classes []) (covers_none u) rfl
    (.lower rfl rfl (Nat.le_trans fewer kept) (by simp [Rule.rank])) fun classes v shorter =>
      runs_pure (by omega)

end Declarations

section Contract

variable {α γ : Type}

theorem Rule.runs_code (rule : Rule α) {entered : State} {budget : Option (List Lexeme)}
    (fits : rule.Fits entered.depth) (covers : Covers budget entered.lexemes) :
    Runs rule entered (entered.left + 1 - rule.takes)
      (rule.parser budget entered.depth entered.lexemes) (rule.code entered) := by
  obtain ⟨s, depth⟩ := entered
  cases rule with
  | unit => obtain rfl : depth = 0 := fits; exact runs_unit
  | imports found => obtain rfl : depth = 0 := fits; exact runs_imports found covers
  | classes found => obtain rfl : depth = 0 := fits; exact runs_classes found covers
  | modifiers found => obtain rfl : depth = 0 := fits; exact runs_modifiers found covers
  | classDecl m => obtain rfl : depth = 0 := fits; exact runs_classDecl m covers
  | members ms cs => obtain rfl : depth = 0 := fits; exact runs_members ms cs covers
  | methodDecl m => obtain rfl : depth = 0 := fits; exact runs_methodDecl m
  | parameters found => obtain rfl : depth = 0 := fits; exact runs_parameters found covers
  | statements found => obtain rfl : depth = 0 := fits; exact runs_statements found covers
  | atDeclaration => obtain rfl : depth = 0 := fits; exact runs_atDeclaration
  | statement => obtain rfl : depth = 0 := fits; exact runs_statement
  | typeName => exact runs_typeName fits
  | dimensions found => exact runs_dimensions found fits covers
  | path => exact runs_path fits
  | segments found => exact runs_segments found fits covers
  | operations level => exact runs_operations level fits
  | operators level found => exact runs_operators level found fits covers
  | unary => exact runs_unary fits
  | nestedUnary => exact runs_nestedUnary fits
  | postfixes found => exact runs_postfixes found fits covers
  | arguments => exact runs_arguments fits
  | argumentList found => exact runs_argumentList found fits covers
  | primary => exact runs_primary fits

theorem Outcome.Meets.mono {caller : Rule γ} {entered : State}
    {post last : Except SyntaxFault α → State → Prop} {o : Outcome α}
    (h : o.Meets caller entered post) (weaken : ∀ result s, post result s → last result s) :
    o.Meets caller entered last := by
  induction o with
  | done result s => exact weaken result s h
  | call rule s resume ih =>
    exact ⟨h.1, fun result t returns => ih result t (h.2 result t returns)⟩

/-- What is met for each of some things is met for all at once. -/
theorem Outcome.Meets.all {ι : Type} {caller : Rule γ} {entered : State}
    {post : ι → Except SyntaxFault α → State → Prop} {o : Outcome α} (i : ι)
    (each : ∀ i, o.Meets caller entered (post i)) :
    o.Meets caller entered fun result s => ∀ i, post i result s := by
  induction o with
  | done result s => exact each
  | call rule s resume ih =>
    exact ⟨(each i).1, fun result t returns => ih result t fun i => (each i).2 result t returns⟩

theorem Rule.back_of_agrees {rule : Rule α} {entered t : State} {result : Except SyntaxFault α}
    (looks : rule.looksAhead = true)
    (agrees : Agrees (rule.parser none entered.depth entered.lexemes) result t.lexemes) :
    t.lexemes = entered.lexemes := by
  cases rule with
  | atDeclaration =>
    obtain ⟨found, made⟩ := atDeclaration_unmoved entered.lexemes
    rw [Rule.parser, made] at agrees
    exact agrees.2
  | _ => cases looks

/-- An activation keeps its contract as long as those that it calls keep theirs. -/
theorem Rule.meets_code (rule : Rule α) {entered : State} (fits : rule.Fits entered.depth) :
    (rule.code entered).Meets rule entered (Returns rule entered) := by
  have all := Outcome.Meets.all
    (⟨none, covers_none _⟩ : { budget // Covers budget entered.lexemes })
    fun budget => rule.runs_code fits budget.2
  refine all.mono fun result t kept => ?_
  obtain ⟨depth, agrees, short⟩ := kept ⟨none, covers_none _⟩
  refine ⟨depth, fun budget covers => (kept ⟨budget, covers⟩).2.1, fun a isOk => ?_,
    fun looks => ?_⟩
  · have fewer := short a isOk
    omega
  · obtain ⟨u, d⟩ := t
    obtain rfl : d = entered.depth := depth
    obtain rfl : u = entered.lexemes := rule.back_of_agrees looks agrees
    rfl

end Contract

end JavaSnippet.Source.Parser
