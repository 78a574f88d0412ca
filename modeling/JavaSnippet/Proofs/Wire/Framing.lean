import JavaSnippet.Proofs.Wire.Delivery
/-!
Packets one after another. Each packet starts with its length, so what is read of a stream ends
where the next packet starts, and packets that were written in a row are read back one by one.
-/
namespace JavaSnippet.Wire.Packet

section Reading

variable {input rest : List UInt8} {p : Packet} {n : Nat}

theorem data_ofParts (id : UInt32) (flags x y : UInt8) (data : List UInt8) :
    (ofParts id flags x y data).data = data := by
  unfold ofParts
  split <;> rfl

/-- What follows the length are seven bytes and the data. -/
theorem readBody_ok (h : readBody n input = (.ok p, rest)) :
    ∃ header, header.length = 7 ∧ input = header ++ (p.data ++ rest) ∧ p.data.length = n := by
  unfold readBody at h
  split at h
  · rename_i a b c d flags x y behind
    split at h
    · rename_i data after found
      obtain ⟨rfl, length⟩ := Bytes.eq_append_of_split? found
      obtain ⟨same, rfl⟩ := Prod.mk.inj h
      obtain rfl := Except.ok.inj same
      rw [data_ofParts]
      exact ⟨[a, b, c, d, flags, x, y], rfl, rfl, length⟩
    · cases h
  · cases h

/-- A packet that is read has the length that stands in front of it. -/
theorem read_ok (h : read input = (.ok p, rest)) :
    ∃ front header, front.length = 4 ∧ header.length = 7 ∧
      input = front ++ (header ++ (p.data ++ rest)) ∧
      Bytes.toNat front = headerLength + p.data.length := by
  unfold read at h
  split at h
  · cases h
  · rename_i front after found
    obtain ⟨rfl, length⟩ := Bytes.eq_append_of_split? found
    simp only at h
    split at h
    · cases h
    split at h
    · cases h
    · obtain ⟨header, seven, rfl, data⟩ := readBody_ok h
      exact ⟨front, header, length, seven, rfl, by omega⟩

/-- Of a packet whose length is out of range only the length is read. -/
theorem read_out_of_range {front : List UInt8} (four : front.length = 4) (after : List UInt8)
    (bad : Bytes.toNat front < headerLength ∨ maxLength < Bytes.toNat front) :
    ∃ cause, read (front ++ after) = (.error (.malformed cause), after) := by
  unfold read
  rw [Bytes.split?_eq_some four]
  simp only
  by_cases least : Bytes.toNat front < headerLength
  · rw [if_pos least]
    exact ⟨_, rfl⟩
  · rw [if_neg least, if_pos (bad.resolve_left least)]
    exact ⟨_, rfl⟩

end Reading

/-- The end of a stream is found as often as it is looked for. -/
theorem reads_end (n : Nat) : Reads [] (List.replicate n (.error (.io .endOfInput))) [] := by
  induction n with
  | zero => rfl
  | succ n ih => exact ⟨[], rfl, ih⟩

/-- Packets that were written one after another are read in their order, and then whatever stands
behind them. -/
theorem reads_written {packets : List Packet}
    (short : ∀ p ∈ packets, p.data.length ≤ maxLength - headerLength) :
    ∃ parts, packets.mapM encode = .ok parts ∧ ∀ rest log left, Reads rest log left →
      Reads (parts.flatten ++ rest) (packets.map .ok ++ log) left := by
  induction packets with
  | nil => exact ⟨[], rfl, fun _ _ _ reads => reads⟩
  | cons p packets ih =>
    obtain ⟨first, others⟩ := List.forall_mem_cons.mp short
    have fits : headerLength + p.data.length ≤ maxLength := by
      have least : headerLength ≤ maxLength := by decide
      omega
    obtain ⟨bytes, encoded⟩ := encode_of_short fits
    obtain ⟨parts, written, reads⟩ := ih others
    refine ⟨bytes :: parts, ?_, fun rest log left last => ?_⟩
    · rw [List.mapM_cons, encoded, written]
      rfl
    · rw [List.flatten_cons, List.append_assoc]
      exact ⟨_, read_encode encoded fits _, reads rest log left last⟩

/-- Packets that are not too long are read back from a stream, and behind them its end. A packet
that is read has taken as many bytes as the length in front of it says, and its data are all of them
but the header. Where the length is out of range nothing behind it is taken. -/
theorem framing (packets : List Packet)
    (short : ∀ p ∈ packets, p.data.length ≤ maxLength - headerLength) :
    (∃ parts, packets.mapM encode = .ok parts ∧ ∀ n, Reads parts.flatten
        (packets.map .ok ++ List.replicate (n + 1) (.error (.io .endOfInput))) []) ∧
      (∀ input p rest, read input = (.ok p, rest) → ∃ taken, input = taken ++ rest ∧
        taken.length = Bytes.toNat (input.take 4) ∧ p.data = taken.drop headerLength ∧
        p.data.length = Bytes.toNat (input.take 4) - headerLength) ∧
      ∀ front after, front.length = 4 →
        Bytes.toNat front < headerLength ∨ maxLength < Bytes.toNat front →
        ∃ cause, read (front ++ after) = (.error (.malformed cause), after) := by
  refine ⟨?_, ?_, fun front after four => read_out_of_range four after⟩
  · obtain ⟨parts, written, reads⟩ := reads_written short
    refine ⟨parts, written, fun n => ?_⟩
    have all := reads [] _ _ (reads_end (n + 1))
    rwa [List.append_nil] at all
  · intro input p rest h
    obtain ⟨front, header, four, seven, rfl, length⟩ := read_ok h
    have eleven : (front ++ header).length = headerLength := by
      rw [List.length_append, four, seven]
      rfl
    have told : (front ++ (header ++ (p.data ++ rest))).take 4 = front := List.take_left' four
    refine ⟨front ++ header ++ p.data, by simp, ?_, ?_, ?_⟩
    · rw [told, length, List.length_append, eleven]
    · exact (List.drop_left' eleven).symm
    · rw [told, length, Nat.add_sub_cancel_left]

/-- A request, a reply, and a length that no packet has. -/
theorem framing_sample :
    (∃ parts, [Packet.command 3 ⟨1, 11⟩ [0xaa, 0xbb], .reply 3 13 []].mapM encode = .ok parts ∧
      Reads parts.flatten [.ok (.command 3 ⟨1, 11⟩ [0xaa, 0xbb]), .ok (.reply 3 13 []),
        .error (.io .endOfInput)] []) ∧
      (∃ taken : List UInt8, [0, 0, 0, 12, 0, 0, 0, 7, 0x80, 0, 0, 5, 9] = taken ++ [9] ∧
        taken.length = 12) ∧
      ∃ cause, read [0, 0, 0, 5, 1, 2] = (.error (.malformed cause), [1, 2]) := by
  obtain ⟨⟨parts, written, reads⟩, taken, bad⟩ :=
    framing [.command 3 ⟨1, 11⟩ [0xaa, 0xbb], .reply 3 13 []] (by decide)
  obtain ⟨bytes, split, length, -⟩ :=
    taken [0, 0, 0, 12, 0, 0, 0, 7, 0x80, 0, 0, 5, 9] (.reply 7 0 [5]) [9] (by decide)
  exact ⟨⟨parts, written, reads 0⟩, ⟨bytes, split, length⟩,
    bad [0, 0, 0, 5] [1, 2] rfl (by decide)⟩

end JavaSnippet.Wire.Packet
