import JavaSnippet.Proofs.Fallible
import JavaSnippet.Source.Token
/-!
The lines of tokens. A scan counts the line ends it has passed, so the lines it writes down, that of
a fault included, are lines of the text.
-/
namespace JavaSnippet.Source

/-- Lines count from 1. -/
def IsLine (last line : Nat) : Prop := 1 ≤ line ∧ line ≤ last

theorem IsLine.mono {last more line : Nat} (h : IsLine last line) (grows : last ≤ more) :
    IsLine more line :=
  ⟨h.1, Nat.le_trans h.2 grows⟩

namespace Scan

/-- The line that a comment was opened on. -/
def Mode.openLine? : Mode → Option Nat
  | .blockComment _ openLine => some openLine
  | _ => none

/-- All lines that a scan holds are lines of what was read. -/
structure State.Within (last : Nat) (s : State) : Prop where
  line : IsLine last s.line
  found : ∀ x ∈ s.found, IsLine last x.line
  opened : ∀ openLine, s.mode.openLine? = some openLine → IsLine last openLine

/-- A scan that goes on within the lines, or stops on one of them. -/
def Lands (last : Nat) : Except LexFault State → Prop
  | .ok s => s.Within last
  | .error fault => IsLine last fault.line

variable {last more : Nat} {s : State}

theorem State.Within.mono (h : s.Within last) (grows : last ≤ more) : s.Within more :=
  ⟨h.line.mono grows, fun x here => (h.found x here).mono grows,
    fun openLine same => (h.opened openLine same).mono grows⟩

theorem Lands.mono {x : Except LexFault State} (h : Lands last x) (grows : last ≤ more) :
    Lands more x := by
  cases x with
  | ok s => exact State.Within.mono h grows
  | error fault => exact IsLine.mono h grows

theorem Lands.bind {x : Except LexFault State} {f : State → Except LexFault State}
    (first : Lands last x) (next : ∀ s, s.Within last → Lands more (f s)) (grows : last ≤ more) :
    Lands more (x >>= f) := by
  cases x with
  | ok s => exact next s first
  | error fault => exact IsLine.mono first grows

namespace State.Within

theorem fail (h : s.Within last) (cause : LexCause) (grows : last ≤ more) :
    Lands more (s.fail cause) :=
  h.line.mono grows

theorem emit (h : s.Within last) (token : Token) : (s.emit token).Within last :=
  ⟨h.line, List.forall_mem_cons.mpr ⟨h.line, h.found⟩, fun _ same => nomatch same⟩

theorem enter (h : s.Within last) {mode : Mode} (free : mode.openLine? = none) :
    { s with mode }.Within last :=
  ⟨h.line, h.found, fun _ same => nomatch free.symm.trans same⟩

theorem nextLine (h : s.Within last) : { s with line := s.line + 1 }.Within (last + 1) :=
  ⟨⟨Nat.le_add_left 1 s.line, Nat.succ_le_succ h.line.2⟩,
    fun x here => (h.found x here).mono (Nat.le_succ last),
    fun openLine same => (h.opened openLine same).mono (Nat.le_succ last)⟩

theorem emitNumber (h : s.Within last) (digits : List Char) (token : UInt64 → Token) :
    Lands last (emitNumber s digits token) := by
  unfold Scan.emitNumber
  simp only
  split
  · exact h.emit _
  · exact h.fail _ (Nat.le_refl last)

theorem begin (h : s.Within last) (c : Char) : Lands (last + [c].count '\n') (begin s c) := by
  have grows : last ≤ last + [c].count '\n' := Nat.le_add_right _ _
  unfold Scan.begin
  split
  · rename_i newline
    rw [newline]
    exact (h.enter rfl).nextLine
  iterate 5
    split
    · exact (h.enter rfl).mono grows
  split
  · exact (h.emit _).mono grows
  · exact h.fail _ grows

theorem step (h : s.Within last) (c : Char) : Lands (last + [c].count '\n') (step s c) := by
  have grows : last ≤ last + [c].count '\n' := Nat.le_add_right _ _
  have enters : ∀ {mode : Mode}, mode.openLine? = none →
      { s with mode }.Within (last + [c].count '\n') := fun free => (h.enter free).mono grows
  have number : ∀ digits token, Lands (last + [c].count '\n') (do
      Scan.begin (← Scan.emitNumber s digits token) c) := fun digits token =>
    (h.emitNumber digits token).bind (fun _ within => within.begin c) grows
  unfold Scan.step
  split
  case h_1 => exact h.begin c
  case h_2 =>
    split
    · exact enters rfl
    split
    · exact ⟨h.line.mono grows, fun x here => (h.found x here).mono grows,
        fun _ same => Option.some.inj same ▸ h.line.mono grows⟩
    · exact (h.emit _).begin c
  case h_3 =>
    split
    · rename_i newline
      rw [newline]
      exact (h.enter rfl).nextLine
    · exact h.mono grows
  case h_4 afterStar openLine inComment =>
    have opened : IsLine last openLine := h.opened openLine (by rw [inComment]; rfl)
    have stays : State.Within last ⟨.blockComment (c == '*') openLine, s.line, s.found⟩ :=
      ⟨h.line, h.found, fun _ same => Option.some.inj same ▸ opened⟩
    split
    · exact enters rfl
    split
    · rename_i newline
      rw [newline] at stays ⊢
      exact stays.nextLine
    · exact stays.mono grows
  case h_5 =>
    split
    · exact enters rfl
    split
    · exact h.mono grows
    split
    · exact enters rfl
    split
    · exact h.fail _ grows
    · exact number _ _
  case h_6 =>
    split
    · exact h.fail _ grows
    · exact number _ _
  case h_7 =>
    split
    · exact enters rfl
    · exact (h.emit _).begin c
  case h_8 =>
    split
    · exact (h.emit _).mono grows
    split
    · exact enters rfl
    split
    · exact h.fail _ grows
    · exact enters rfl
  case h_9 =>
    split
    · exact enters rfl
    · exact h.fail _ grows

theorem finish (h : s.Within last) : Lands last (finish s) := by
  unfold Scan.finish
  split
  case h_1 => exact h
  case h_2 => exact h
  case h_3 => exact h.emit _
  case h_4 _ openLine inComment => exact h.opened openLine (by rw [inComment]; rfl)
  case h_5 => exact h.emitNumber _ _
  case h_6 => exact h.emitNumber _ _
  case h_7 => exact h.emit _
  case h_8 => exact h.fail _ (Nat.le_refl last)
  case h_9 => exact h.fail _ (Nat.le_refl last)

theorem foldlM (h : s.Within last) (text : List Char) :
    Lands (last + text.count '\n') (text.foldlM Scan.step s) := by
  induction text generalizing s last with
  | nil => exact h
  | cons c text ih =>
    have lines : last + (c :: text).count '\n' = last + [c].count '\n' + text.count '\n' := by
      rw [Nat.add_assoc, ← List.count_append]
      rfl
    rw [List.foldlM_cons, lines]
    exact (h.step c).bind (fun _ within => ih within) (Nat.le_add_right _ _)

end State.Within

theorem within_initial : State.initial.Within 1 :=
  ⟨⟨Nat.le_refl 1, Nat.le_refl 1⟩, nofun, nofun⟩

end Scan

/-- The number of the last line of a text. -/
def lastLine (text : String) : Nat := 1 + text.toList.count '\n'

/-- A scan of a text holds lines of the text, also if it stops in it. -/
theorem lands_scan (text : String) :
    Scan.Lands (lastLine text)
      (text.toList.foldlM Scan.step .initial >>= fun s => Scan.finish s) :=
  (Scan.within_initial.foldlM text.toList).bind (fun _ within => within.finish) (Nat.le_refl _)

/-- What a scan says of a text is on its lines. -/
theorem isLine_of_scan (text : String) :
    match scan text with
    | .ok lexemes => (∀ x ∈ lexemes.rest, IsLine (lastLine text) x.line) ∧
        IsLine (lastLine text) lexemes.endLine
    | .error fault => IsLine (lastLine text) fault.line := by
  have lands := lands_scan text
  have scanned : scan text =
      (text.toList.foldlM Scan.step .initial >>= fun s => Scan.finish s) >>= fun s =>
        pure ⟨s.found.reverse, s.line⟩ := (bind_assoc _ _ _).symm
  rw [scanned]
  cases made : text.toList.foldlM Scan.step .initial >>= fun s => Scan.finish s with
  | ok s =>
    rw [made] at lands
    exact ⟨fun x here => lands.found x (List.mem_reverse.mp here), lands.line⟩
  | error fault =>
    rw [made] at lands
    exact lands

end JavaSnippet.Source
