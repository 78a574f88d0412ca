import JavaSnippet.Proofs.Source.Statements
/-!
Printed units are parsed: a unit that is printed and parsed is the same but for its lines. The loops
over members and over classes go on behind each of them with what comes next, and the induction over
nested classes is on the classes.
-/
namespace JavaSnippet.Source

namespace Parser

variable {tokens left : List Token} {style : Style}

section Methods

theorem tokens_statement (style : Style) (st : Stmt) :
    ∃ t rest, st.tokens style = t :: rest ∧ t ≠ .punct '\x7d' := by
  cases st with
  | declare type name isFinal initial line => cases isFinal <;> exact ⟨_, _, rfl, by simp⟩
  | assign name value line => exact ⟨_, _, rfl, by simp⟩
  | returns value line => cases value <;> exact ⟨_, _, rfl, by simp⟩
  | throws value line => exact ⟨_, _, rfl, by simp⟩
  | expr e =>
    obtain ⟨t, rest, same, opens⟩ := (opens_tokens style e).parenthesized (style .whole e)
    refine ⟨t, rest ++ [.punct ';'], by rw [Stmt.tokens, Expr.tokensAt, same]; rfl, ?_⟩
    rintro rfl
    exact absurd (opens _ rfl) (by decide)

theorem takes_statementsFrom (safe : style.IsSafe) {body : List Stmt}
    (writable : ∀ st ∈ body, st.isWritable = true)
    (shallow : ∀ st ∈ body, st.isShallow style = true) (left : List Token) {budget : List Lexeme}
    (room : (body.flatMap (Stmt.tokens style)).length ≤ budget.length) (found : List Stmt) :
    Takes (statementsFrom budget found) (body.flatMap (Stmt.tokens style) ++ .punct '\x7d' :: left)
      left fun all =>
        all.map Stmt.withoutLines = (found.reverse ++ body).map Stmt.withoutLines := by
  induction body generalizing budget found with
  | nil =>
    unfold statementsFrom
    refine takes_eat_hit.known ?_
    exact takes_pure (by rw [List.append_nil])
  | cons st body ih =>
    obtain ⟨isWritable, others⟩ := List.forall_mem_cons.mp writable
    obtain ⟨isShallow, shallowOthers⟩ := List.forall_mem_cons.mp shallow
    obtain ⟨t, rest, same, noBrace⟩ := tokens_statement style st
    have size : (st.tokens style).length = rest.length + 1 := by rw [same, List.length_cons]
    have isHead : ∀ more, (st.tokens style ++ more).head? = some t := fun more => by
      rw [same]
      rfl
    rw [List.flatMap_cons, List.length_append] at room
    rw [List.flatMap_cons, List.append_assoc]
    unfold statementsFrom
    refine (takes_eat_miss (by rw [isHead]; simpa using noBrace)).known ?_
    cases budget with
    | nil => simp [size] at room
    | cons y budget =>
      rw [List.length_cons] at room
      refine takes_peek.known ?_
      rw [isHead]
      refine (takes_statement safe isWritable isShallow _).bind fun st' like => ?_
      refine (ih others shallowOthers (by omega) (st' :: found)).mono fun all whole => ?_
      rw [whole]
      simp only [List.reverse_cons, List.append_assoc, List.map_append, List.map_cons, like,
        List.singleton_append]

theorem takes_block (safe : style.IsSafe) {body : List Stmt}
    (writable : ∀ st ∈ body, st.isWritable = true)
    (shallow : ∀ st ∈ body, st.isShallow style = true) (left : List Token) :
    Takes block
      (.punct '\x7b' :: (body.flatMap (Stmt.tokens style) ++ .punct '\x7d' :: left)) left
      fun all => all.map Stmt.withoutLines = body.map Stmt.withoutLines := by
  refine takes_expect.bind fun _ _ => takes_get.bind fun s here => ?_
  have room := room_of_rest here
  rw [List.length_append] at room
  exact takes_statementsFrom safe writable shallow left (by omega) []

/-- The words that modify a method or a class. -/
def modifierWords : List String :=
  ["public", "protected", "private", "static", "final", "abstract"]

theorem takes_modifiersFrom {words : List String} {m whole : Modifiers}
    (modify : words.foldlM Modifiers.with? m = some whole)
    (ends : ∀ text, left.head? = some (.word text) → text ∉ modifierWords) {budget : List Lexeme}
    (room : words.length ≤ budget.length) :
    Takes (modifiersFrom budget m) (words.map .word ++ left) left (· = whole) := by
  induction words generalizing m budget with
  | nil =>
    obtain rfl : m = whole := Option.some.inj modify
    unfold modifiersFrom
    cases budget with
    | nil => exact takes_pure rfl
    | cons y budget =>
      refine takes_peek.known ?_
      split
      · rename_i text isHead
        have noModifier : m.with? text = none := by
          have other := ends text isHead
          simp only [modifierWords, List.mem_cons, List.not_mem_nil, or_false, not_or] at other
          unfold Modifiers.with?
          split <;> simp_all
        rw [noModifier]
        exact takes_pure rfl
      · exact takes_pure rfl
  | cons word words ih =>
    obtain ⟨more, first, others⟩ := Option.bind_eq_some_iff.mp modify
    unfold modifiersFrom
    cases budget with
    | nil => cases room
    | cons y budget =>
      refine takes_peek.known ?_
      simp only [List.map_cons, List.cons_append, List.head?_cons, first]
      refine takes_skip.bind fun _ _ => ?_
      exact ih others (Nat.le_of_succ_le_succ room)

theorem foldlM_words (m : Modifiers) : m.words.foldlM Modifiers.with? .none = some m := by
  obtain ⟨a, b, c, d, e, f⟩ := m
  cases a <;> cases b <;> cases c <;> cases d <;> cases e <;> cases f <;> rfl

theorem takes_modifiers (m : Modifiers)
    (ends : ∀ text, left.head? = some (.word text) → text ∉ modifierWords) :
    Takes modifiers (m.tokens ++ left) left (· = m) := by
  refine takes_get.bind fun s here => ?_
  have room := room_of_rest here
  rw [List.length_append, Modifiers.tokens, List.length_map] at room
  exact takes_modifiersFrom (foldlM_words m) ends (by omega)

theorem takes_parameter {p : Parameter} (writable : p.isWritable = true) (left : List Token) :
    Takes parameter (p.tokens ++ left) left (·.withoutLine = p.withoutLine) := by
  obtain ⟨isType, isName⟩ := Bool.and_eq_true_iff.mp writable
  rw [Parameter.tokens, List.append_assoc]
  refine (takes_eat_miss (head_typeName isType _ (by decide))).bind fun _ _ => ?_
  refine takes_line.bind fun start _ => ?_
  refine (takes_typeName isType ⟨by simp, by simp⟩).bind fun type like => ?_
  refine (takes_identifier (free_of_isIdentifier isName)).bind fun name same => ?_
  exact takes_pure (by rw [Parameter.withoutLine, Parameter.withoutLine, like, same])

theorem takes_parametersFrom {p : Parameter} {ps : List Parameter}
    (first : p.isWritable = true) (others : ∀ q ∈ ps, q.isWritable = true) (left : List Token)
    {budget : List Lexeme} (room : ps.length ≤ budget.length) (found : List Parameter) :
    Takes (parametersFrom budget found)
      (List.intercalate [.punct ','] ((p :: ps).map Parameter.tokens) ++ .punct ')' :: left) left
      fun all => all.map Parameter.withoutLine =
        (found.reverse ++ p :: ps).map Parameter.withoutLine := by
  induction ps generalizing p budget found with
  | nil =>
    unfold parametersFrom
    rw [List.map_singleton, List.intercalate_singleton]
    refine (takes_parameter first _).bind fun q like => ?_
    refine takes_eat_hit.known ?_
    refine takes_pure ?_
    simp only [List.reverse_cons, List.map_append, List.map_cons, like, List.map_nil]
  | cons second ps ih =>
    obtain ⟨isSecond, areOthers⟩ := List.forall_mem_cons.mp others
    unfold parametersFrom
    rw [List.map_cons, List.map_cons, List.intercalate_cons_cons, List.append_assoc,
      List.append_assoc]
    refine (takes_parameter first _).bind fun q like => ?_
    refine (takes_eat_miss (by simp)).known ?_
    refine takes_expect.bind fun _ _ => ?_
    cases budget with
    | nil => cases room
    | cons y budget =>
      refine (ih isSecond areOthers (Nat.le_of_succ_le_succ room) (q :: found)).mono
        fun all whole => ?_
      rw [whole]
      simp only [List.reverse_cons, List.map_append, List.map_cons, like, List.append_assoc,
        List.singleton_append]

theorem opens_parameter (p : Parameter) : Opens p.tokens :=
  opens_word _ _

theorem takes_parameters {ps : List Parameter} (writable : ∀ p ∈ ps, p.isWritable = true)
    (left : List Token) :
    Takes parameters (listed (ps.map Parameter.tokens) ++ left) left
      fun all => all.map Parameter.withoutLine = ps.map Parameter.withoutLine := by
  rw [listed, List.cons_append, List.append_assoc]
  refine takes_expect.bind fun _ _ => ?_
  cases ps with
  | nil =>
    refine takes_eat_hit.known ?_
    exact takes_pure rfl
  | cons p ps =>
    obtain ⟨first, others⟩ := List.forall_mem_cons.mp writable
    have areOpen : ∀ tokens ∈ (p :: ps).map Parameter.tokens, Opens tokens :=
      List.forall_mem_map.mpr fun q _ => opens_parameter q
    have counted := length_le_intercalate areOpen
    have start := opens_intercalate areOpen
    refine (takes_eat_miss (start.head_ne (by decide) (by decide) _)).known ?_
    refine takes_get.bind fun s here => ?_
    refine takes_parametersFrom first others left ?_ []
    have := room_of_rest here
    simp only [List.map_cons, List.length_append, List.length_map, List.length_cons] at this counted
    omega

theorem takes_result {result : Option TypeName} (writable : result.all TypeName.isName = true)
    (ends : EndsType left) :
    Takes Parser.result (resultTokens result ++ left) left
      fun found => found.map TypeName.withoutLine = result.map TypeName.withoutLine := by
  cases result with
  | none =>
    refine takes_eat_hit.known ?_
    exact takes_pure rfl
  | some type =>
    refine (takes_eat_miss (head_typeName writable _ (by decide))).known ?_
    refine (takes_typeName writable ends).bind fun found like => ?_
    exact takes_pure (congrArg some like)

/-- A method behind its modifiers. -/
def headTokens (style : Style) (m : MethodDecl) : List Token :=
  resultTokens m.result ++ .word m.name :: (listed (m.parameters.map Parameter.tokens) ++
    .punct '\x7b' :: (m.body.flatMap (Stmt.tokens style) ++ [.punct '\x7d']))

theorem takes_methodDecl (safe : style.IsSafe) {m : MethodDecl} (writable : m.isWritable = true)
    (shallow : m.isShallow style = true) (left : List Token) :
    Takes (methodDecl m.modifiers) (headTokens style m ++ left) left
      (·.withoutLines = m.withoutLines) := by
  obtain ⟨head, areStatements⟩ := Bool.and_eq_true_iff.mp writable
  obtain ⟨front, areParameters⟩ := Bool.and_eq_true_iff.mp head
  obtain ⟨isName, isResult⟩ := Bool.and_eq_true_iff.mp front
  have tokens : headTokens style m ++ left = resultTokens m.result ++ .word m.name ::
      (listed (m.parameters.map Parameter.tokens) ++ .punct '\x7b' ::
        (m.body.flatMap (Stmt.tokens style) ++ .punct '\x7d' :: left)) := by
    simp [headTokens]
  rw [tokens]
  refine takes_line.bind fun start _ => ?_
  refine (takes_result isResult ⟨by simp, by simp⟩).bind fun result sameResult => ?_
  refine (takes_identifier (free_of_isIdentifier isName)).bind fun name sameName => ?_
  refine (takes_parameters (List.all_eq_true.mp areParameters) _).bind fun ps sameParameters => ?_
  refine (takes_block safe (List.all_eq_true.mp areStatements) (List.all_eq_true.mp shallow)
    left).bind fun body sameBody => ?_
  exact takes_pure (by
    rw [MethodDecl.withoutLines, MethodDecl.withoutLines, sameResult, sameParameters, sameBody,
      sameName])

end Methods

section Classes

variable {budget : List Lexeme} {methods : List MethodDecl} {classes : List ClassDecl}
  {final : List Token} {P : List MethodDecl × List ClassDecl → Prop}

theorem tokens_modifiers (m : Modifiers) (text : String) (rest : List Token) :
    ∃ word others, m.tokens ++ .word text :: rest = .word word :: others ∧
      (word ∈ modifierWords ∨ word = text) := by
  have listed : ∀ word ∈ m.words, word ∈ modifierWords := by
    intro word here
    obtain ⟨entry, within, rfl⟩ := List.mem_map.mp here
    exact List.mem_map_of_mem (List.mem_of_mem_filter within)
  unfold Modifiers.tokens
  cases words : m.words with
  | nil => exact ⟨text, rest, rfl, .inr rfl⟩
  | cons word others =>
    rw [words] at listed
    exact ⟨word, _, rfl, .inl (listed word List.mem_cons_self)⟩

theorem headTokens_word (style : Style) {m : MethodDecl} (writable : m.isWritable = true) :
    ∃ text rest, headTokens style m = .word text :: rest ∧
      text ∉ modifierWords ∧ text ≠ "class" := by
  obtain ⟨head, -⟩ := Bool.and_eq_true_iff.mp writable
  obtain ⟨front, -⟩ := Bool.and_eq_true_iff.mp head
  have isResult := (Bool.and_eq_true_iff.mp front).2
  unfold headTokens
  cases result : m.result with
  | none => exact ⟨"void", _, rfl, by decide, by decide⟩
  | some type =>
    rw [result] at isResult
    have reserved : ∀ word ∈ "class" :: modifierWords, word ∈ keywords ∧ word ∉ primitives := by
      decide
    refine ⟨type.path.head, _, rfl, fun here => ?_, ?_⟩
    · exact head_ne_of_isName isResult (reserved _ (List.mem_cons_of_mem _ here)) rfl
    · exact head_ne_of_isName isResult (reserved _ List.mem_cons_self)

theorem tokens_method (style : Style) {m : MethodDecl} (writable : m.isWritable = true) :
    ∃ text rest, m.tokens style = .word text :: rest := by
  obtain ⟨text, rest, same, -⟩ := headTokens_word style writable
  obtain ⟨word, others, whole, -⟩ := tokens_modifiers m.modifiers text rest
  exact ⟨word, others, by rw [← whole, ← same]; rfl⟩

/-- The loop over members goes on behind a method. -/
theorem takes_membersFrom_method (safe : style.IsSafe) {m : MethodDecl}
    (writable : m.isWritable = true) (shallow : m.isShallow style = true)
    (room : (m.tokens style ++ left).length ≤ budget.length)
    (loop : ∀ budget m', left.length ≤ budget.length → m'.withoutLines = m.withoutLines →
      Takes (membersFrom budget (m' :: methods) classes) left final P) :
    Takes (membersFrom budget methods classes) (m.tokens style ++ left) final P := by
  obtain ⟨word, others, same⟩ := tokens_method style writable
  obtain ⟨text, rest, isHead, noModifier, noClass⟩ := headTokens_word style writable
  have first : (m.tokens style ++ left).head? = some (.word word) := by
    rw [same]
    rfl
  rw [List.length_append, same, List.length_cons] at room
  unfold membersFrom
  refine (takes_eat_miss (by simp [first])).known ?_
  cases budget with
  | nil => simp at room
  | cons y budget =>
    rw [List.length_cons] at room
    refine takes_peek.known ?_
    rw [first]
    refine (takes_eat_miss (by simp [first])).known ?_
    have front : m.tokens style ++ left = m.modifiers.tokens ++ (headTokens style m ++ left) :=
      List.append_assoc _ _ _
    rw [front]
    have ends : ∀ text, (headTokens style m ++ left).head? = some (.word text) →
        text ∉ modifierWords := by
      intro text found
      rw [isHead] at found
      rwa [← Token.word.inj (Option.some.inj found)]
    refine (takes_modifiers m.modifiers ends).known ?_
    refine (takes_isNext_miss (by rw [isHead]; simpa using noClass)).known ?_
    refine (takes_methodDecl safe writable shallow left).bind fun m' like => ?_
    exact loop budget m' (by omega) like

theorem takes_membersFrom_methods (safe : style.IsSafe) {ms : List MethodDecl}
    (writable : ∀ m ∈ ms, m.isWritable = true) (shallow : ∀ m ∈ ms, m.isShallow style = true)
    (room : (ms.flatMap (MethodDecl.tokens style) ++ left).length ≤ budget.length)
    (loop : ∀ budget (ms' : List MethodDecl), left.length ≤ budget.length →
      ms'.map MethodDecl.withoutLines = ms.map MethodDecl.withoutLines →
      Takes (membersFrom budget (ms'.reverse ++ methods) classes) left final P) :
    Takes (membersFrom budget methods classes) (ms.flatMap (MethodDecl.tokens style) ++ left)
      final P := by
  induction ms generalizing methods budget with
  | nil => exact loop budget [] room rfl
  | cons m ms ih =>
    obtain ⟨isWritable, others⟩ := List.forall_mem_cons.mp writable
    obtain ⟨isShallow, shallowOthers⟩ := List.forall_mem_cons.mp shallow
    rw [List.flatMap_cons, List.append_assoc] at room ⊢
    refine takes_membersFrom_method safe isWritable isShallow room fun budget m' room like => ?_
    refine ih others shallowOthers room fun budget ms' room same => ?_
    have whole := loop budget (m' :: ms') room (by rw [List.map_cons, List.map_cons, like, same])
    rwa [List.reverse_cons, List.append_assoc] at whole

theorem takes_classHead {name : String} (isName : isIdentifier name = true) (left : List Token) :
    Takes classHead (.word "class" :: .word name :: .punct '\x7b' :: left) left (· = name) := by
  refine takes_eat_hit.known ?_
  refine (takes_identifier (free_of_isIdentifier isName)).known ?_
  refine (takes_isNext_miss (by simp)).known ?_
  refine (takes_isNext_miss (by simp)).known ?_
  exact takes_expect.bind fun _ _ => takes_pure rfl

/-- The loop over members goes on behind the classes. -/
def PassesClasses (style : Style) (cs : List ClassDecl) : Prop :=
  ∀ {left final : List Token} {P : List MethodDecl × List ClassDecl → Prop} {budget : List Lexeme}
    {methods : List MethodDecl} {found : List ClassDecl},
    (ClassDecl.allTokens style cs ++ left).length ≤ budget.length →
    (∀ budget cs', left.length ≤ budget.length →
      ClassDecl.allWithoutLines cs' = ClassDecl.allWithoutLines cs →
      Takes (membersFrom budget methods (cs'.reverse ++ found)) left final P) →
    Takes (membersFrom budget methods found) (ClassDecl.allTokens style cs ++ left) final P

/-- The members of a class are taken up to its closing brace. -/
theorem takes_members (safe : style.IsSafe) {ms : List MethodDecl} {cs : List ClassDecl}
    (writable : ∀ m ∈ ms, m.isWritable = true) (shallow : ∀ m ∈ ms, m.isShallow style = true)
    (pass : PassesClasses style cs) (left : List Token) (budget : List Lexeme)
    (room : (ms.flatMap (MethodDecl.tokens style) ++
      (ClassDecl.allTokens style cs ++ .punct '\x7d' :: left)).length ≤ budget.length) :
    Takes (membersFrom budget [] [])
      (ms.flatMap (MethodDecl.tokens style) ++
        (ClassDecl.allTokens style cs ++ .punct '\x7d' :: left)) left
      fun found => found.1.map MethodDecl.withoutLines = ms.map MethodDecl.withoutLines ∧
        ClassDecl.allWithoutLines found.2 = ClassDecl.allWithoutLines cs := by
  refine takes_membersFrom_methods safe writable shallow room fun budget ms' room sameMethods => ?_
  refine pass room fun budget cs' room sameClasses => ?_
  unfold membersFrom
  refine takes_eat_hit.known ?_
  refine takes_pure ?_
  rw [List.append_nil, List.append_nil, List.reverse_reverse, List.reverse_reverse]
  exact ⟨sameMethods, sameClasses⟩

/-- A class behind its modifiers. -/
def classTokens (style : Style) (name : String) (ms : List MethodDecl) (cs : List ClassDecl) :
    List Token :=
  .word "class" :: .word name :: .punct '\x7b' ::
    (ms.flatMap (MethodDecl.tokens style) ++ (ClassDecl.allTokens style cs ++ [.punct '\x7d']))

theorem classTokens_append (name : String) (ms : List MethodDecl) (cs : List ClassDecl)
    (left : List Token) :
    classTokens style name ms cs ++ left = .word "class" :: .word name :: .punct '\x7b' ::
      (ms.flatMap (MethodDecl.tokens style) ++
        (ClassDecl.allTokens style cs ++ .punct '\x7d' :: left)) := by
  simp [classTokens]

theorem ends_classTokens (name : String) (ms : List MethodDecl) (cs : List ClassDecl)
    (left : List Token) (text : String)
    (isHead : (classTokens style name ms cs ++ left).head? = some (.word text)) :
    text ∉ modifierWords := by
  obtain rfl : "class" = text := Token.word.inj (Option.some.inj isHead)
  decide

/-- A class starts with a word of its own or of its modifiers. -/
theorem tokens_class (style : Style) (c : ClassDecl) :
    ∃ word others, c.tokens style = .word word :: others ∧ word ∈ "class" :: modifierWords := by
  obtain ⟨name, modifiers, ms, cs, line⟩ := c
  obtain ⟨word, others, same, listed⟩ := tokens_modifiers modifiers "class"
    (.word name :: .punct '\x7b' :: (ms.flatMap (MethodDecl.tokens style) ++
      (ClassDecl.allTokens style cs ++ [.punct '\x7d'])))
  refine ⟨word, others, by rw [← same, ClassDecl.tokens], ?_⟩
  rcases listed with modifies | rfl
  · exact List.mem_cons_of_mem _ modifies
  · exact List.mem_cons_self

/-- The loop over members goes on behind a class. -/
theorem takes_membersFrom_class (safe : style.IsSafe) {name : String} {modifiers : Modifiers}
    {ms : List MethodDecl} {cs : List ClassDecl} {line : Nat} (isName : isIdentifier name = true)
    (writable : ∀ m ∈ ms, m.isWritable = true) (shallow : ∀ m ∈ ms, m.isShallow style = true)
    (pass : PassesClasses style cs)
    (room : ((ClassDecl.mk name modifiers ms cs line).tokens style ++ left).length ≤ budget.length)
    (loop : ∀ budget c', left.length ≤ budget.length →
      c'.withoutLines = (ClassDecl.mk name modifiers ms cs line).withoutLines →
      Takes (membersFrom budget methods (c' :: classes)) left final P) :
    Takes (membersFrom budget methods classes)
      ((ClassDecl.mk name modifiers ms cs line).tokens style ++ left) final P := by
  obtain ⟨word, others, same, -⟩ := tokens_class style (.mk name modifiers ms cs line)
  have first : ((ClassDecl.mk name modifiers ms cs line).tokens style ++ left).head? =
      some (.word word) := by
    rw [same]
    rfl
  have front : (ClassDecl.mk name modifiers ms cs line).tokens style ++ left =
      modifiers.tokens ++ (classTokens style name ms cs ++ left) := by
    rw [ClassDecl.tokens, List.append_assoc]
    rfl
  unfold membersFrom
  refine (takes_eat_miss (by simp [first])).known ?_
  cases budget with
  | nil => simp [same] at room
  | cons y budget =>
    refine takes_peek.known ?_
    rw [first]
    refine (takes_eat_miss (by simp [first])).known ?_
    rw [front] at room ⊢
    refine (takes_modifiers modifiers (ends_classTokens name ms cs left)).known ?_
    rw [classTokens_append] at room ⊢
    refine takes_isNext_hit.known ?_
    refine takes_line.bind fun start _ => ?_
    refine (takes_classHead isName _).known ?_
    simp only [List.length_append, List.length_cons] at room
    have inside := takes_members safe writable shallow pass left budget (by
      simp only [List.length_append, List.length_cons]
      omega)
    refine inside.bind fun found same => ?_
    refine loop budget _ (by omega) ?_
    rw [ClassDecl.withoutLines, ClassDecl.withoutLines, same.1, same.2]

/-- What has to hold of a class. -/
structure Printable (style : Style) (name : String) (ms : List MethodDecl)
    (nested : List ClassDecl) : Prop where
  isName : isIdentifier name = true
  methods : ∀ m ∈ ms, m.isWritable = true
  shallow : ∀ m ∈ ms, m.isShallow style = true
  classes : ClassDecl.areWritable nested = true
  shallowClasses : ClassDecl.areShallow style nested = true

theorem printable_of_areWritable {name : String} {modifiers : Modifiers} {ms : List MethodDecl}
    {nested rest : List ClassDecl} {line : Nat}
    (writable : ClassDecl.areWritable (.mk name modifiers ms nested line :: rest) = true)
    (shallow : ClassDecl.areShallow style (.mk name modifiers ms nested line :: rest) = true) :
    Printable style name ms nested ∧ ClassDecl.areWritable rest = true ∧
      ClassDecl.areShallow style rest = true := by
  obtain ⟨first, others⟩ := Bool.and_eq_true_iff.mp writable
  obtain ⟨named, isNested⟩ := Bool.and_eq_true_iff.mp first
  obtain ⟨isName, areMethods⟩ := Bool.and_eq_true_iff.mp named
  obtain ⟨shallowFirst, shallowOthers⟩ := Bool.and_eq_true_iff.mp shallow
  obtain ⟨shallowMethods, shallowNested⟩ := Bool.and_eq_true_iff.mp shallowFirst
  exact ⟨⟨isName, List.all_eq_true.mp areMethods, List.all_eq_true.mp shallowMethods, isNested,
    shallowNested⟩, others, shallowOthers⟩

theorem passes_classes (safe : style.IsSafe) (cs : List ClassDecl)
    (writable : ClassDecl.areWritable cs = true)
    (shallow : ClassDecl.areShallow style cs = true) : PassesClasses style cs := by
  intro left final P budget methods found room loop
  match cs with
  | [] => exact loop budget [] room rfl
  | .mk name modifiers ms nested line :: rest =>
    obtain ⟨fits, others, shallowOthers⟩ := printable_of_areWritable writable shallow
    have inside : PassesClasses style nested :=
      passes_classes safe nested fits.classes fits.shallowClasses
    rw [ClassDecl.allTokens, List.append_assoc] at room ⊢
    refine takes_membersFrom_class safe fits.isName fits.methods fits.shallow inside room
      fun budget c' room like => ?_
    refine passes_classes safe rest others shallowOthers room fun budget cs' room same => ?_
    have whole := loop budget (c' :: cs') room (by
      rw [ClassDecl.allWithoutLines, ClassDecl.allWithoutLines, like, same])
    rwa [List.reverse_cons, List.append_assoc] at whole

theorem takes_classDecl (safe : style.IsSafe) {name : String} {ms : List MethodDecl}
    {cs : List ClassDecl} (isName : isIdentifier name = true)
    (writable : ∀ m ∈ ms, m.isWritable = true) (shallow : ∀ m ∈ ms, m.isShallow style = true)
    (pass : PassesClasses style cs) (modifiers : Modifiers) (line : Nat) (left : List Token) :
    Takes (classDecl modifiers) (classTokens style name ms cs ++ left) left
      (·.withoutLines = (ClassDecl.mk name modifiers ms cs line).withoutLines) := by
  rw [classTokens_append]
  refine takes_line.bind fun start _ => ?_
  refine (takes_classHead isName _).known ?_
  refine takes_get.bind fun s here => ?_
  refine (takes_members safe writable shallow pass left _ (room_of_rest here)).bind
    fun found same => ?_
  exact takes_pure (by rw [ClassDecl.withoutLines, ClassDecl.withoutLines, same.1, same.2])

theorem takes_classesFrom (safe : style.IsSafe) {cs : List ClassDecl}
    (writable : ClassDecl.areWritable cs = true)
    (shallow : ClassDecl.areShallow style cs = true)
    (room : (ClassDecl.allTokens style cs).length ≤ budget.length) (found : List ClassDecl) :
    Takes (classesFrom budget found) (ClassDecl.allTokens style cs) []
      fun all => all.map ClassDecl.withoutLines =
        (found.reverse ++ cs).map ClassDecl.withoutLines := by
  induction cs generalizing budget found with
  | nil =>
    have done : Takes (pure found.reverse : Parse (List ClassDecl)) [] []
        fun all => all.map ClassDecl.withoutLines =
          (found.reverse ++ []).map ClassDecl.withoutLines :=
      takes_pure (by rw [List.append_nil])
    unfold classesFrom
    cases budget with
    | nil => exact done
    | cons y budget => exact takes_peek.known done
  | cons c cs ih =>
    obtain ⟨word, others, same, -⟩ := tokens_class style c
    obtain ⟨name, modifiers, ms, nested, line⟩ := c
    obtain ⟨fits, areOthers, shallowOthers⟩ := printable_of_areWritable writable shallow
    have inside : PassesClasses style nested :=
      passes_classes safe nested fits.classes fits.shallowClasses
    have isHead : (ClassDecl.allTokens style (.mk name modifiers ms nested line :: cs)).head? =
        some (.word word) := by
      rw [ClassDecl.allTokens, same]
      rfl
    have front : ClassDecl.allTokens style (.mk name modifiers ms nested line :: cs) =
        modifiers.tokens ++ (classTokens style name ms nested ++ ClassDecl.allTokens style cs) := by
      rw [ClassDecl.allTokens, ClassDecl.tokens, List.append_assoc]
      rfl
    unfold classesFrom
    cases budget with
    | nil => simp [ClassDecl.allTokens, same] at room
    | cons y budget =>
      refine takes_peek.known ?_
      rw [isHead]
      refine (takes_eat_miss (by simp [isHead])).known ?_
      rw [front] at room ⊢
      refine (takes_modifiers modifiers (ends_classTokens name ms nested _)).known ?_
      refine (takes_isNext_hit (t := .word "class")).known ?_
      refine (takes_classDecl safe fits.isName fits.methods fits.shallow inside modifiers line
        _).bind fun c' like => ?_
      rw [classTokens_append] at room
      simp only [List.length_append, List.length_cons] at room
      refine (ih areOthers shallowOthers (by omega) (c' :: found)).mono fun all whole => ?_
      rw [whole]
      simp only [List.reverse_cons, List.append_assoc, List.map_append, List.map_cons, like,
        List.singleton_append]

end Classes

section Units

theorem takes_packageDecl {name : Option Path} (isName : name.all Path.isName = true)
    (ends : left.head? ≠ some (.word "package")) :
    Takes packageDecl (packageTokens name ++ left) left (· = name) := by
  cases name with
  | none =>
    refine (takes_eat_miss ends).known ?_
    exact takes_pure rfl
  | some p =>
    have tokens : packageTokens (some p) ++ left =
        .word "package" :: (p.tokens ++ .punct ';' :: left) := by
      simp [packageTokens]
    rw [tokens]
    refine takes_eat_hit.known ?_
    refine (takes_path (free_of_isName isName) (endsName_of_head (by simp))).known ?_
    refine takes_expect.bind fun _ _ => ?_
    exact takes_pure rfl

theorem takes_importsFrom {is : List Import} (areNames : ∀ i ∈ is, i.path.isName = true)
    (ends : left.head? ≠ some (.word "import")) {budget : List Lexeme}
    (room : is.length ≤ budget.length) (found : List Import) :
    Takes (importsFrom budget found) (is.flatMap Import.tokens ++ left) left
      fun all => all.map Import.withoutLine = (found.reverse ++ is).map Import.withoutLine := by
  induction is generalizing budget found with
  | nil =>
    have done : Takes (pure found.reverse : Parse (List Import)) left left
        fun all => all.map Import.withoutLine = (found.reverse ++ []).map Import.withoutLine :=
      takes_pure (by rw [List.append_nil])
    unfold importsFrom
    cases budget with
    | nil => exact done
    | cons y budget => exact (takes_isNext_miss ends).known done
  | cons i is ih =>
    obtain ⟨isName, others⟩ := List.forall_mem_cons.mp areNames
    have free := free_of_isName isName
    obtain ⟨path, onDemand, line⟩ := i
    unfold importsFrom
    cases budget with
    | nil => cases room
    | cons y budget =>
      have rest : ∀ start, Takes (importsFrom budget (⟨path, onDemand, start⟩ :: found))
          (is.flatMap Import.tokens ++ left) left
          fun all => all.map Import.withoutLine =
            (found.reverse ++ ⟨path, onDemand, line⟩ :: is).map Import.withoutLine := by
        intro start
        refine (ih others (Nat.le_of_succ_le_succ room) _).mono fun all whole => ?_
        rw [whole]
        simp [Import.withoutLine]
      cases onDemand with
      | true =>
        have tokens : (⟨path, true, line⟩ :: is : List Import).flatMap Import.tokens ++ left =
            .word "import" :: (path.tokens ++ .punct '.' :: .punct '*' :: .punct ';' ::
              (is.flatMap Import.tokens ++ left)) := by
          simp [Import.tokens]
        rw [tokens]
        refine takes_isNext_hit.known ?_
        refine takes_line.bind fun start _ => takes_skip.bind fun _ _ => ?_
        refine (takes_path free (by simp [EndsName])).known ?_
        refine takes_eat_hit.known ?_
        refine takes_expect.bind fun _ _ => takes_expect.bind fun _ _ => ?_
        exact rest start
      | false =>
        have tokens : (⟨path, false, line⟩ :: is : List Import).flatMap Import.tokens ++ left =
            .word "import" :: (path.tokens ++ .punct ';' ::
              (is.flatMap Import.tokens ++ left)) := by
          simp [Import.tokens]
        rw [tokens]
        refine takes_isNext_hit.known ?_
        refine takes_line.bind fun start _ => takes_skip.bind fun _ _ => ?_
        refine (takes_path free (endsName_of_head (by simp))).known ?_
        refine (takes_eat_miss (by simp)).known ?_
        refine takes_expect.bind fun _ _ => ?_
        exact rest start

theorem head_allTokens (cs : List ClassDecl) {word : String}
    (other : word ∉ "class" :: modifierWords) :
    (ClassDecl.allTokens style cs).head? ≠ some (.word word) := by
  cases cs with
  | nil => simp [ClassDecl.allTokens]
  | cons c cs =>
    obtain ⟨text, others, same, listed⟩ := tokens_class style c
    rw [ClassDecl.allTokens, same]
    intro isHead
    obtain rfl : text = word := Token.word.inj (Option.some.inj isHead)
    exact other listed

theorem length_le_flatMap_tokens (is : List Import) :
    is.length ≤ (is.flatMap Import.tokens).length := by
  induction is with
  | nil => exact Nat.zero_le _
  | cons i is ih =>
    rw [List.flatMap_cons, List.length_append, List.length_cons, Import.tokens, List.length_cons]
    omega

theorem allWithoutLines_classes (cs : List ClassDecl) :
    ClassDecl.allWithoutLines cs = cs.map ClassDecl.withoutLines := by
  induction cs with
  | nil => rfl
  | cons c cs ih => rw [ClassDecl.allWithoutLines, ih, List.map_cons]

theorem takes_compilationUnit (safe : style.IsSafe) {unit : CompilationUnit}
    (writable : unit.isWritable = true) (shallow : unit.isShallow style = true) :
    Takes compilationUnit (unit.tokens style) [] (·.withoutLines = unit.withoutLines) := by
  obtain ⟨front, areClasses⟩ := Bool.and_eq_true_iff.mp writable
  obtain ⟨isPackage, areImports⟩ := Bool.and_eq_true_iff.mp front
  have imports : ∀ word, word ≠ "import" → word ∉ "class" :: modifierWords →
      (unit.imports.flatMap Import.tokens ++ ClassDecl.allTokens style unit.classes).head? ≠
        some (.word word) := by
    intro word noImport noClass
    cases unit.imports with
    | nil => exact head_allTokens unit.classes noClass
    | cons i is =>
      intro isHead
      exact noImport (Token.word.inj (Option.some.inj isHead)).symm
  refine (takes_packageDecl isPackage (imports "package" (by decide) (by decide))).known ?_
  refine takes_get.bind fun s here => ?_
  have room := room_of_rest here
  rw [List.length_append] at room
  have few := length_le_flatMap_tokens unit.imports
  refine (takes_importsFrom (fun i here => List.all_eq_true.mp areImports i here)
    (head_allTokens unit.classes (by decide)) (by omega) []).bind fun found sameImports => ?_
  refine takes_get.bind fun s' here' => ?_
  refine (takes_classesFrom safe areClasses shallow (room_of_rest here') []).bind
    fun classes sameClasses => ?_
  refine takes_pure ?_
  rw [CompilationUnit.withoutLines, CompilationUnit.withoutLines, sameImports,
    allWithoutLines_classes, allWithoutLines_classes, sameClasses]
  rfl

end Units

end Parser

end JavaSnippet.Source
