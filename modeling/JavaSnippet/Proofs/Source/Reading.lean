import JavaSnippet.Proofs.Source.Printing
/-!
What parsers do with tokens they know. A parser takes certain tokens and leaves the others, whatever
lines they are on; names, types and lists are taken to where they end.
-/
namespace JavaSnippet.Source

namespace Parser

variable {α β : Type} {P : α → Prop} {Q : β → Prop} {tokens middle left : List Token}

/-- A parser that finds some tokens leaves others of them, and its result has a property. -/
def Takes (x : Parse α) (tokens left : List Token) (P : α → Prop) : Prop :=
  ∀ s : Lexemes, s.tokens = tokens → ∃ a t, x s = .ok (a, t) ∧ t.tokens = left ∧ P a

theorem takes_pure {a : α} (h : P a) : Takes (pure a) tokens tokens P :=
  fun s found => ⟨a, s, rfl, found, h⟩

theorem Takes.bind {x : Parse α} {f : α → Parse β} (first : Takes x tokens middle P)
    (next : ∀ a, P a → Takes (f a) middle left Q) : Takes (x >>= f) tokens left Q := by
  intro s found
  obtain ⟨a, t, one, between, right⟩ := first s found
  obtain ⟨b, u, two, rest, done⟩ := next a right t between
  exact ⟨b, u, StateExcept.bind_eq_ok.mpr ⟨a, t, one, two⟩, rest, done⟩

theorem Takes.mono {Q : α → Prop} {x : Parse α} (h : Takes x tokens left P)
    (weaker : ∀ a, P a → Q a) : Takes x tokens left Q := by
  intro s found
  obtain ⟨a, t, made, rest, right⟩ := h s found
  exact ⟨a, t, made, rest, weaker a right⟩

/-- The result is known. -/
theorem Takes.known {x : Parse α} {a : α} {f : α → Parse β} (first : Takes x tokens middle (· = a))
    (next : Takes (f a) middle left Q) : Takes (x >>= f) tokens left Q :=
  first.bind fun _ same => same ▸ next

theorem takes_map {f : α → β} {x : Parse α} (h : Takes x tokens left fun a => Q (f a)) :
    Takes (f <$> x) tokens left Q := by
  rw [map_eq_pure_bind]
  exact h.bind fun _ right => takes_pure right

theorem takes_get : Takes (get : Parse Lexemes) tokens tokens fun s => s.tokens = tokens :=
  fun s found => ⟨s, s, rfl, found, found⟩

theorem takes_line : Takes line tokens tokens fun _ => True :=
  fun s found => ⟨_, s, rfl, found, trivial⟩

theorem takes_peek : Takes peek tokens tokens (· = tokens.head?) := by
  intro s found
  refine ⟨_, s, rfl, found, ?_⟩
  rw [← found, Lexemes.tokens, List.head?_map]

theorem takes_skip {t : Token} : Takes skip (t :: tokens) tokens fun _ => True := by
  intro s found
  refine ⟨(), _, rfl, ?_, trivial⟩
  rw [Lexemes.tokens, List.map_drop]
  exact congrArg (List.drop 1) found

theorem takes_isNext (t : Token) :
    Takes (isNext t) tokens tokens (· = (tokens.head? == some t)) :=
  takes_peek.known (takes_pure rfl)

theorem takes_isNext_hit {t : Token} :
    Takes (isNext t) (t :: tokens) (t :: tokens) (· = true) :=
  (takes_isNext t).mono fun _ same => same.trans (beq_self_eq_true _)

theorem takes_isNext_miss {t : Token} (other : tokens.head? ≠ some t) :
    Takes (isNext t) tokens tokens (· = false) :=
  (takes_isNext t).mono fun _ same => same.trans (beq_eq_false_iff_ne.mpr other)

theorem takes_eat_hit {t : Token} : Takes (eat t) (t :: tokens) tokens (· = true) :=
  takes_isNext_hit.known <| takes_skip.bind fun _ _ => takes_pure rfl

theorem takes_eat_miss {t : Token} (other : tokens.head? ≠ some t) :
    Takes (eat t) tokens tokens (· = false) :=
  (takes_isNext_miss other).known (takes_pure rfl)

theorem takes_expect {c : Char} : Takes (expect c) (.punct c :: tokens) tokens fun _ => True :=
  takes_eat_hit.known (takes_pure trivial)

theorem takes_identifier {text : String} (free : text ∉ keywords) :
    Takes identifier (.word text :: tokens) tokens (· = text) := by
  refine takes_peek.known ?_
  simp only [List.head?_cons, if_neg free]
  exact takes_skip.bind fun _ _ => takes_pure rfl

theorem free_of_isIdentifier {text : String} (h : isIdentifier text = true) : text ∉ keywords :=
  of_decide_eq_true (Bool.and_eq_true_iff.mp h).2

theorem tokens_eq_cons {s : Lexemes} {t : Token} (h : s.tokens = t :: tokens) :
    ∃ line rest, s.rest = ⟨t, line⟩ :: rest ∧ rest.map (·.token) = tokens := by
  obtain ⟨⟨t, line⟩, rest, isRest, rfl, others⟩ := List.map_eq_cons_iff.mp h
  exact ⟨line, rest, isRest, others⟩

/-- The tokens left bound a loop over them. -/
theorem room_of_rest {s : Lexemes} (h : s.tokens = tokens) : tokens.length ≤ s.rest.length := by
  have same : tokens.length = s.rest.length := by rw [← h, Lexemes.tokens, List.length_map]
  exact Nat.le_of_eq same

/-- Tokens that do not go on a dotted name. -/
def EndsName (tokens : List Token) : Prop :=
  ∀ word rest, tokens ≠ .punct '.' :: .word word :: rest

theorem endsName_of_head {tokens : List Token} (h : tokens.head? ≠ some (.punct '.')) :
    EndsName tokens := by
  rintro word rest rfl
  exact h rfl

theorem takes_pathFrom {words : List String} (free : ∀ word ∈ words, word ∉ keywords)
    (ends : EndsName left) {budget : List Lexeme}
    (room : (dotted words ++ left).length ≤ budget.length) (path : Path) :
    Takes (pathFrom budget path) (dotted words ++ left) left
      (· = ⟨path.head, path.tail ++ words⟩) := by
  induction words generalizing path budget with
  | nil =>
    have done : Takes (pure path : Parse Path) left left (· = ⟨path.head, path.tail ++ []⟩) :=
      takes_pure (by rw [List.append_nil])
    unfold pathFrom
    cases budget with
    | nil => exact done
    | cons x budget =>
      refine takes_get.bind fun s found => ?_
      split
      · rename_i isRest
        exact absurd (found.symm.trans (congrArg (List.map Lexeme.token) isRest)) (ends _ _)
      · exact done
  | cons word words ih =>
    have dot : dotted (word :: words) ++ left =
        .punct '.' :: .word word :: (dotted words ++ left) := rfl
    rw [dot] at room ⊢
    unfold pathFrom
    cases budget with
    | nil => simp at room
    | cons x budget =>
      simp only [List.length_cons, Nat.add_le_add_iff_right] at room
      refine takes_get.bind fun s found => ?_
      obtain ⟨line, others, isRest, more⟩ := tokens_eq_cons found
      obtain ⟨line', others', rfl, -⟩ := tokens_eq_cons (s := ⟨others, s.endLine⟩) more
      simp only [isRest]
      refine takes_skip.bind fun _ _ => ?_
      refine (takes_identifier (free word List.mem_cons_self)).known ?_
      refine (ih (fun w here => free w (List.mem_cons_of_mem word here)) (by omega) _).mono ?_
      rintro found rfl
      simp [Path.snoc]

theorem takes_path {p : Path} (free : ∀ word ∈ p.segments, word ∉ keywords)
    (ends : EndsName left) : Takes path (p.tokens ++ left) left (· = p) := by
  obtain ⟨first, others⟩ := List.forall_mem_cons.mp free
  refine (takes_identifier first).known ?_
  refine takes_get.bind fun s found => ?_
  exact takes_pathFrom others ends (room_of_rest found) ⟨p.head, []⟩

theorem free_of_isName {p : Path} (h : p.isName = true) : ∀ word ∈ p.segments, word ∉ keywords :=
  fun word here => free_of_isIdentifier (List.all_eq_true.mp h word here)

/-- Tokens that do not go on with brackets. -/
def EndsType (tokens : List Token) : Prop :=
  tokens.head? ≠ some (.punct '.') ∧ tokens.head? ≠ some (.punct '[')

theorem takes_dimensionsFrom {n : Nat} (ends : left.head? ≠ some (.punct '['))
    {budget : List Lexeme}
    (room : ((List.replicate n [Token.punct '[', .punct ']']).flatten ++ left).length ≤
      budget.length) (count : Nat) :
    Takes (dimensionsFrom budget count)
      ((List.replicate n [Token.punct '[', .punct ']']).flatten ++ left) left
      (· = count + n) := by
  induction n generalizing count budget with
  | zero =>
    have done : Takes (pure count : Parse Nat) left left (· = count + 0) := takes_pure rfl
    unfold dimensionsFrom
    cases budget with
    | nil => exact done
    | cons x budget =>
      refine takes_get.bind fun s found => ?_
      split
      · rename_i isRest
        have opens := congrArg (fun rest => (rest.map (·.token)).head?) isRest
        exact absurd ((congrArg List.head? found).symm.trans opens) ends
      · exact done
  | succ n ih =>
    have brackets : (List.replicate (n + 1) [Token.punct '[', .punct ']']).flatten ++ left =
        .punct '[' :: .punct ']' ::
          ((List.replicate n [Token.punct '[', .punct ']']).flatten ++ left) := rfl
    rw [brackets] at room ⊢
    unfold dimensionsFrom
    cases budget with
    | nil => simp at room
    | cons x budget =>
      simp only [List.length_cons, Nat.add_le_add_iff_right] at room
      refine takes_get.bind fun s found => ?_
      obtain ⟨line, others, isRest, more⟩ := tokens_eq_cons found
      obtain ⟨line', others', rfl, -⟩ := tokens_eq_cons (s := ⟨others, s.endLine⟩) more
      simp only [isRest]
      refine takes_skip.bind fun _ _ => takes_skip.bind fun _ _ => ?_
      refine (ih (by omega) (count + 1)).mono fun _ same => ?_
      omega

theorem primitives_subset_keywords : ∀ word ∈ primitives, word ∈ keywords := by decide

theorem takes_typeName {type : TypeName} (isName : type.isName = true) (ends : EndsType left) :
    Takes typeName (type.tokens ++ left) left fun t => t.withoutLine = type.withoutLine := by
  have whole : ∀ start, Takes (do
        return (⟨type.path, ← dimensionsFrom (← get).rest 0, start⟩ : TypeName))
      ((List.replicate type.dimensions [Token.punct '[', .punct ']']).flatten ++ left) left
      fun t => t.withoutLine = type.withoutLine := fun start =>
    takes_get.bind fun s found =>
      (takes_dimensionsFrom ends.2 (room_of_rest found) 0).known <| takes_pure (by
        rw [Nat.zero_add]
        rfl)
  rw [TypeName.tokens, List.append_assoc]
  refine takes_line.bind fun start _ => takes_peek.known ?_
  simp only [Path.tokens, List.cons_append, List.head?_cons]
  obtain classNamed | primitive := Bool.or_eq_true_iff.mp isName
  · have free := free_of_isName classNamed
    have noPrimitive : type.path.head ∉ primitives := fun here =>
      free _ List.mem_cons_self (primitives_subset_keywords _ here)
    rw [if_neg noPrimitive]
    refine (takes_path free ?_).known (whole start)
    cases dimensions : type.dimensions with
    | zero => exact endsName_of_head ends.1
    | succ n =>
      rintro word rest same
      simp [List.replicate_succ] at same
  · obtain ⟨single, here⟩ := Bool.and_eq_true_iff.mp primitive
    obtain ⟨⟨head, tail⟩, dimensions, line⟩ := type
    obtain rfl : tail = [] := List.isEmpty_iff.mp single
    rw [if_pos (of_decide_eq_true here)]
    exact takes_skip.bind fun _ _ => whole start

end Parser

end JavaSnippet.Source
