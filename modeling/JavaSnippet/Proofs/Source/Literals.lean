import JavaSnippet.Proofs.Source.Layout
import JavaSnippet.Typing.Body
import Mathlib.Data.List.TakeWhile
import Mathlib.Data.Nat.Digits.Defs
/-!
Integer literals. Java writes them in four radices, with underscores between digits, and a zero in
front makes a numeral octal. The scan reads every run of digits and underscores in base ten, which
agrees with Java unless the run ends in an underscore, or starts with a zero and has more digits.
-/
namespace JavaSnippet.Source

open Scan Typing

/-- The value of a digit in the radices up to sixteen. -/
def digitValue? (c : Char) : Option Nat :=
  if Text.isDigit c then some (c.toNat - '0'.toNat)
  else if 'a' ≤ c && c ≤ 'f' then some (c.toNat - 'a'.toNat + 10)
  else if 'A' ≤ c && c ≤ 'F' then some (c.toNat - 'A'.toNat + 10)
  else none

def isDigitIn (radix : Nat) (c : Char) : Bool := (digitValue? c).any (· < radix)

/-- The values of the digits among the characters. -/
def digitValues (chars : List Char) : List Nat := chars.filterMap digitValue?

/-- The number that the digits among the characters spell in a radix. -/
def valueIn (radix : Nat) (chars : List Char) : Nat :=
  Nat.ofDigits radix (digitValues chars).reverse

/-- One digit, or two with digits and underscores between them. -/
structure IsDigits (radix : Nat) (chars : List Char) : Prop where
  first : ∃ c ∈ chars.head?, isDigitIn radix c = true
  last : ∃ c ∈ chars.getLast?, isDigitIn radix c = true
  between : ∀ c ∈ chars, isDigitIn radix c = true ∨ c = '_'

/-- The characters are a numeral of Java that has the value. -/
inductive Numeral : List Char → Nat → Prop where
  | zero : Numeral ['0'] 0
  | decimal {chars : List Char} (noZero : chars.head? ≠ some '0') (digits : IsDigits 10 chars) :
      Numeral chars (valueIn 10 chars)
  | hexadecimal {x : Char} {chars : List Char} (mark : x = 'x' ∨ x = 'X')
      (digits : IsDigits 16 chars) : Numeral ('0' :: x :: chars) (valueIn 16 chars)
  | octal {underscores chars : List Char} (apart : ∀ c ∈ underscores, c = '_')
      (digits : IsDigits 8 chars) : Numeral ('0' :: (underscores ++ chars)) (valueIn 8 chars)
  | binary {b : Char} {chars : List Char} (mark : b = 'b' ∨ b = 'B')
      (digits : IsDigits 2 chars) : Numeral ('0' :: b :: chars) (valueIn 2 chars)

/-- The characters are a literal of Java that has the type and the value of the token. -/
inductive Token.IsLiteral : Token → List Char → Prop where
  | int {run : List Char} {value : UInt64} (means : Numeral run value.toNat) :
      IsLiteral (.int value) run
  | long {run : List Char} {value : UInt64} {suffix : Char} (means : Numeral run value.toNat)
      (isSuffix : suffix = 'l' ∨ suffix = 'L') : IsLiteral (.long value) (run ++ [suffix])

def Token.IsInteger : Token → Prop
  | .int _ | .long _ => True
  | _ => False

/-- Whether digits and underscores are a numeral of Java with the value that they have in base ten.
A numeral that starts with a zero is octal, so it has this value only if it has one digit and zeros
in front. -/
def isFaithful (run : List Char) : Bool :=
  run.getLast? != some '_' && (run.head? != some '0' ||
    ((digitValues run).all (· < 8) && (digitValues run).dropLast.all (· == 0)))

section Digits

theorem digitValue?_of_isDigit {c : Char} (h : Text.isDigit c = true) :
    digitValue? c = some (c.toNat - '0'.toNat) := if_pos h

theorem isDigitIn_iff {radix : Nat} {c : Char} :
    isDigitIn radix c = true ↔ ∃ d, digitValue? c = some d ∧ d < radix := by
  rw [isDigitIn]
  cases digitValue? c <;> simp

theorem digitValues_of_continuesNumber {run : List Char}
    (h : ∀ c ∈ run, continuesNumber c = true) :
    digitValues run = (run.filter Text.isDigit).map fun c => c.toNat - '0'.toNat := by
  induction run with
  | nil => rfl
  | cons c run ih =>
    obtain ⟨first, others⟩ := List.forall_mem_cons.mp h
    rw [digitValues] at ih ⊢
    by_cases digit : Text.isDigit c = true
    · rw [List.filterMap_cons_some (digitValue?_of_isDigit digit), List.filter_cons_of_pos digit,
        List.map_cons, ih others]
    · obtain rfl : c = '_' := by simpa [continuesNumber, digit] using first
      rw [List.filterMap_cons_none rfl, List.filter_cons_of_neg digit, ih others]

/-- The scan reads a run of digits in base ten. -/
theorem decimalValue_eq {run : List Char} (h : ∀ c ∈ run, continuesNumber c = true) :
    decimalValue run = valueIn 10 run := by
  rw [valueIn, digitValues_of_continuesNumber h, Nat.ofDigits_eq_foldr, List.foldr_reverse,
    List.foldl_map, decimalValue]
  congr 1
  funext n c
  rw [Nat.add_comm, Nat.mul_comm]
  rfl

/-- Only the last digit counts the same in base eight and in base ten. -/
theorem ofDigits_eight_eq_ten {digits : List Nat} :
    Nat.ofDigits 8 digits.reverse = Nat.ofDigits 10 digits.reverse ↔
      ∀ d ∈ digits.dropLast, d = 0 := by
  have higher : ∀ d, d ∈ digits.dropLast ↔ d ∈ digits.reverse.tail := by
    intro d
    rw [List.tail_reverse, List.mem_reverse]
  simp only [higher]
  cases digits.reverse with
  | nil => simp
  | cons last digits =>
    have less := Nat.ofDigits_monotone digits (show 8 ≤ 10 by decide)
    rw [Nat.ofDigits_cons, Nat.ofDigits_cons, List.tail_cons]
    constructor
    · intro same
      have zero : Nat.ofDigits 10 digits = 0 := by omega
      exact Nat.digits_zero_of_eq_zero (by decide) zero
    · intro zeros
      rw [List.eq_replicate_iff.mpr ⟨rfl, zeros⟩, Nat.ofDigits_replicate_zero,
        Nat.ofDigits_replicate_zero]

theorem digitValues_octal {underscores chars : List Char} (apart : ∀ c ∈ underscores, c = '_') :
    digitValues ('0' :: (underscores ++ chars)) = 0 :: digitValues chars := by
  have none : underscores.filterMap digitValue? = [] := by
    rw [List.filterMap_eq_nil_iff]
    intro c here
    rw [apart c here]
    rfl
  have zero : digitValue? '0' = some 0 := rfl
  rw [digitValues, List.filterMap_cons_some zero, List.filterMap_append, none, List.nil_append]
  rfl

end Digits

section Numerals

variable {radix : Nat} {run chars : List Char}

theorem IsDigits.ends (h : IsDigits radix chars) : chars.getLast? ≠ some '_' := by
  obtain ⟨c, last, isDigit⟩ := h.last
  obtain ⟨d, value, -⟩ := isDigitIn_iff.mp isDigit
  rw [Option.mem_def.mp last]
  rintro ⟨rfl⟩
  cases value

theorem IsDigits.ne_nil (h : IsDigits radix chars) : chars ≠ [] := by
  obtain ⟨c, first, -⟩ := h.first
  rintro rfl
  cases first

theorem IsDigits.lt (h : IsDigits radix chars) : ∀ d ∈ digitValues chars, d < radix := by
  intro d here
  obtain ⟨c, inside, value⟩ := List.mem_filterMap.mp here
  rcases h.between c inside with isDigit | rfl
  · obtain ⟨e, same, small⟩ := isDigitIn_iff.mp isDigit
    rwa [Option.some.inj (value.symm.trans same)]
  · cases value

theorem IsDigits.digitValues_ne_nil (h : IsDigits radix chars) : digitValues chars ≠ [] := by
  obtain ⟨c, first, isDigit⟩ := h.first
  obtain ⟨d, value, -⟩ := isDigitIn_iff.mp isDigit
  exact List.ne_nil_of_mem (List.mem_filterMap.mpr ⟨c, List.mem_of_mem_head? first, value⟩)

theorem isDigits_of_isDigitRun (isRun : isDigitRun run = true)
    (small : ∀ d ∈ digitValues run, d < radix) (ends : run.getLast? ≠ some '_') :
    IsDigits radix run := by
  have digitIn : ∀ c ∈ run, Text.isDigit c = true → isDigitIn radix c = true := by
    intro c here digit
    have value := digitValue?_of_isDigit digit
    exact isDigitIn_iff.mpr ⟨_, value, small _ (List.mem_filterMap.mpr ⟨c, here, value⟩)⟩
  have between : ∀ c ∈ run, isDigitIn radix c = true ∨ c = '_' := by
    intro c here
    rcases Bool.or_eq_true_iff.mp (continuesNumber_of_isDigitRun isRun c here) with digit | gap
    · exact .inl (digitIn c here digit)
    · exact .inr (beq_iff_eq.mp gap)
  cases run with
  | nil => cases isRun
  | cons c rest =>
    refine ⟨⟨c, rfl, digitIn c List.mem_cons_self (Bool.and_eq_true_iff.mp isRun).1⟩, ?_, between⟩
    have last := List.getLast?_eq_some_getLast (List.cons_ne_nil c rest)
    refine ⟨_, last, (between _ (List.getLast_mem _)).resolve_right fun gap => ends ?_⟩
    rw [last, gap]

theorem lt_ten_of_isDigitRun (isRun : isDigitRun run = true) : ∀ d ∈ digitValues run, d < 10 := by
  rw [digitValues_of_continuesNumber (continuesNumber_of_isDigitRun isRun), List.forall_mem_map]
  intro c here
  have bounds : 48 ≤ c.toNat ∧ c.toNat ≤ 57 := by
    simpa [Text.isDigit, Char.le_def, UInt32.le_iff_toNat_le] using List.of_mem_filter here
  have zero : '0'.toNat = 48 := rfl
  omega

theorem isFaithful_of_numeral (isRun : isDigitRun run = true)
    (h : Numeral run (decimalValue run)) : isFaithful run = true := by
  have continues := continuesNumber_of_isDigitRun isRun
  rw [decimalValue_eq continues] at h
  generalize same : valueIn 10 run = value at h
  cases h with
  | zero => rfl
  | decimal noZero digits => simp [isFaithful, digits.ends, noZero]
  | hexadecimal mark digits =>
    have letter := continues _ (List.mem_cons_of_mem _ List.mem_cons_self)
    rcases mark with rfl | rfl <;> cases letter
  | binary mark digits =>
    have letter := continues _ (List.mem_cons_of_mem _ List.mem_cons_self)
    rcases mark with rfl | rfl <;> cases letter
  | @octal underscores chars apart digits =>
    have ends : ('0' :: (underscores ++ chars)).getLast? ≠ some '_' := by
      rw [← List.cons_append, List.getLast?_append_of_ne_nil _ digits.ne_nil]
      exact digits.ends
    rw [valueIn, digitValues_octal apart, Nat.ofDigits_reverse_zero_cons] at same
    have zeros := ofDigits_eight_eq_ten.mp same.symm
    rw [isFaithful, digitValues_octal apart, List.dropLast_cons_of_ne_nil digits.digitValues_ne_nil]
    simpa [ends] using ⟨digits.lt, zeros⟩

/-- After a zero come underscores, and then another run of digits. -/
theorem exists_octal {rest : List Char} (continues : ∀ c ∈ rest, continuesNumber c = true)
    (more : rest ≠ []) (ends : rest.getLast? ≠ some '_') :
    ∃ underscores chars, rest = underscores ++ chars ∧ (∀ c ∈ underscores, c = '_') ∧
      isDigitRun chars = true := by
  obtain ⟨underscores, chars, rfl, apart, begins⟩ := exists_cut (· == '_') rest
  have apart : ∀ c ∈ underscores, c = '_' := fun c here => beq_iff_eq.mp (apart c here)
  refine ⟨underscores, chars, rfl, apart, ?_⟩
  cases chars with
  | nil =>
    rw [List.append_nil] at more ends
    have last := List.getLast?_eq_some_getLast more
    rw [apart _ (List.getLast_mem more)] at last
    exact absurd last ends
  | cons c chars =>
    obtain ⟨first, others⟩ := List.forall_mem_cons.mp (List.forall_mem_append.mp continues).2
    rw [continuesNumber, begins c rfl, Bool.or_false] at first
    exact Bool.and_eq_true_iff.mpr ⟨first, List.all_eq_true.mpr others⟩

theorem numeral_of_isFaithful (isRun : isDigitRun run = true) (h : isFaithful run = true) :
    Numeral run (decimalValue run) := by
  have continues := continuesNumber_of_isDigitRun isRun
  rw [decimalValue_eq continues]
  obtain ⟨ends, form⟩ := Bool.and_eq_true_iff.mp h
  rw [bne_iff_ne] at ends
  by_cases zero : run.head? = some '0'
  swap
  · exact .decimal zero (isDigits_of_isDigitRun isRun (lt_ten_of_isDigitRun isRun) ends)
  obtain ⟨rest, rfl⟩ := List.head?_eq_some_iff.mp zero
  by_cases more : rest = []
  · rw [more]
    exact .zero
  rw [List.getLast?_cons_of_ne_nil more] at ends
  obtain ⟨underscores, chars, rfl, apart, isOctal⟩ :=
    exists_octal (List.forall_mem_cons.mp continues).2 more ends
  have some : chars ≠ [] := by
    rintro rfl
    cases isOctal
  rw [List.getLast?_append_of_ne_nil _ some] at ends
  rw [digitValues_octal apart, List.head?_cons, bne_self_eq_false, Bool.false_or, Bool.and_eq_true,
    List.all_cons, Bool.and_eq_true, List.all_eq_true, List.all_eq_true] at form
  obtain ⟨⟨-, small⟩, zeros⟩ := form
  have digits : IsDigits 8 chars :=
    isDigits_of_isDigitRun isOctal (fun d here => of_decide_eq_true (small d here)) ends
  have zeros : ∀ d ∈ (digitValues chars).dropLast, d = 0 := by
    rw [List.dropLast_cons_of_ne_nil digits.digitValues_ne_nil] at zeros
    exact fun d here => beq_iff_eq.mp (zeros d (List.mem_cons_of_mem 0 here))
  rw [valueIn, digitValues_octal apart, Nat.ofDigits_reverse_zero_cons,
    ← ofDigits_eight_eq_ten.mpr zeros]
  exact .octal apart digits

/-- A run of digits and underscores, read in base ten, is what Java reads it as just where it ends
with a digit and a zero in front makes no difference. -/
theorem numeral_iff (isRun : isDigitRun run = true) :
    Numeral run (decimalValue run) ↔ isFaithful run = true :=
  ⟨isFaithful_of_numeral isRun, numeral_of_isFaithful isRun⟩

end Numerals

/-- The token of a run of digits is the literal that Java reads there just where the run is read
the same in base ten. -/
theorem isLiteral_iff {t : Token} {chars : List Char} (spelled : t.SpelledAs chars)
    (isInteger : t.IsInteger) :
    t.IsLiteral chars ↔ isFaithful (chars.takeWhile continuesNumber) = true := by
  cases spelled with
  | word | string | punct => cases isInteger
  | int isRun spells =>
    rw [List.takeWhile_eq_self_iff.mpr (continuesNumber_of_isDigitRun isRun), ← numeral_iff isRun,
      spells]
    constructor
    · rintro ⟨means⟩
      exact means
    · exact .int
  | @long run value suffix isRun spells isSuffix =>
    have ends : continuesNumber suffix = false := by rcases isSuffix with rfl | rfl <;> rfl
    rw [List.takeWhile_append_of_pos (continuesNumber_of_isDigitRun isRun),
      List.takeWhile_cons_of_neg (by simp [ends]), List.append_nil, ← numeral_iff isRun, spells]
    constructor
    · intro h
      generalize whole : run ++ [suffix] = chars at h
      cases h with
      | long means isSuffix =>
        rwa [(List.append_inj' whole rfl).1]
    · exact fun means => .long means isSuffix

/-- The token of each occurrence is spelled there. -/
theorem spelledAs_of_lexes {line last : Nat} {text : List Char} {items : List Occurrence}
    (h : Lexes line text items last) : ∀ item ∈ items, item.token.SpelledAs item.chars := by
  induction h with
  | done | comment => simp
  | filler f rest ih => exact ih
  | token spelled apart rest ih => exact List.forall_mem_cons.mpr ⟨spelled, ih⟩


/-- A number is typed just where it is in the range of its type. -/
theorem expression_int (place : Place) {value : Int} {line : Nat} {term : Term} :
    place.expression (.int value line) = .ok term ↔
      ∃ n : Int32, n.toInt = value ∧ term = .int n := by
  rw [Place.expression, Place.intLiteral]
  simp only [← int32?_eq_some]
  cases int32? value with
  | none => simp [onLine]
  | some n => simp [onLine, eq_comm]

theorem expression_long (place : Place) {value : Int} {line : Nat} {term : Term} :
    place.expression (.long value line) = .ok term ↔
      ∃ n : Int64, n.toInt = value ∧ term = .long n := by
  rw [Place.expression, Place.longLiteral]
  simp only [← int64?_eq_some]
  cases int64? value with
  | none => simp [onLine]
  | some n => simp [onLine, eq_comm]

/-- Each number of a scanned text is spelled in base ten, and is the literal that Java reads there
just where the run of digits is read the same in base ten. As an expression it keeps its value, if
its type has it. -/
theorem literals_of_scan {text : String} {lexemes : Lexemes} (h : scan text = .ok lexemes) :
    (∃ items, Lexes 1 text.toList items lexemes.endLine ∧
      items.map (·.toLexeme) = lexemes.rest) ∧
    (∀ items last, Lexes 1 text.toList items last →
      items.map (·.toLexeme) = lexemes.rest ∧
      ∀ item ∈ items, item.token.SpelledAs item.chars ∧ (item.token.IsInteger →
        (item.token.IsLiteral item.chars ↔
          isFaithful (item.chars.takeWhile continuesNumber) = true))) ∧
    ∀ (place : Place) (value : Int) (line : Nat) (term : Term),
      (place.expression (.int value line) = .ok term ↔
        ∃ n : Int32, n.toInt = value ∧ term = .int n) ∧
      (place.expression (.long value line) = .ok term ↔
        ∃ n : Int64, n.toInt = value ∧ term = .long n) := by
  refine ⟨scan_eq_ok_iff.mp h, ?_, fun place value line term =>
    ⟨expression_int place, expression_long place⟩⟩
  intro items last read
  have scanned : scan text = .ok ⟨items.map (·.toLexeme), last⟩ :=
    scan_eq_ok_iff.mpr ⟨items, read, rfl⟩
  have same := Except.ok.inj (scanned.symm.trans h)
  refine ⟨congrArg Lexemes.rest same, fun item here => ?_⟩
  have spelled := spelledAs_of_lexes read item here
  exact ⟨spelled, isLiteral_iff spelled⟩

theorem literals_of_scan_octal :
    scan "017 1_000" = .ok ⟨[⟨.int 17, 1⟩, ⟨.int 1000, 1⟩], 1⟩ ∧
      ¬ (Token.int 17).IsLiteral "017".toList ∧ (Token.int 1000).IsLiteral "1_000".toList := by
  have seventeen : (Token.int 17).SpelledAs "017".toList := .int rfl rfl
  have thousand : (Token.int 1000).SpelledAs "1_000".toList := .int rfl rfl
  have apart : ∀ c ∈ [' '].head?, (Token.int 17).runsInto c = false := by
    intro c next
    obtain rfl := Option.some.inj next
    decide
  have second := Lexes.token thousand (by simp) (.done 1)
  have read : Lexes 1 "017 1_000".toList
      [⟨⟨.int 17, 1⟩, "017".toList⟩, ⟨⟨.int 1000, 1⟩, "1_000".toList⟩] 1 :=
    .token seventeen apart (.filler (.blank ' ' isBlank_space) second)
  have scanned : scan "017 1_000" = .ok ⟨[⟨.int 17, 1⟩, ⟨.int 1000, 1⟩], 1⟩ :=
    scan_eq_ok_iff.mpr ⟨_, read, rfl⟩
  obtain ⟨-, literals⟩ := (literals_of_scan scanned).2.1 _ _ read
  have octal := (literals _ List.mem_cons_self).2 trivial
  have decimal := (literals _ (List.mem_cons_of_mem _ List.mem_cons_self)).2 trivial
  exact ⟨scanned, fun isLiteral => absurd (octal.mp isLiteral) (by decide),
    decimal.mpr (by decide)⟩

end JavaSnippet.Source
