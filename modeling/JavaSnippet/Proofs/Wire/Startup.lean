import JavaSnippet.Proofs.Wire.Delivery
import JavaSnippet.Proofs.Wire.Reports
/-!
Events around the opening of a connection. The target tells the sizes of its identifiers in a reply.
All events behind it are read with these sizes, whatever is asked meanwhile. Events before it are
read with the sizes that are assumed until then.
-/
namespace JavaSnippet.Wire

/-- What a target sends, and the event sets in it. Identifiers in events have the given sizes, and
no packet is too long to be read. -/
inductive Tells (sizes : IdSizes) : List Packet → List EventSet → Prop where
  | nil : Tells sizes [] []
  | events {number : UInt32} {data : List UInt8} {set : EventSet} {packets : List Packet}
      {sets : List EventSet} :
      Field.AllStart sizes set.fields data [] → headerLength + data.length ≤ maxLength →
      Tells sizes packets sets →
      Tells sizes (.command number .composite data :: packets) (set :: sets)
  | other {packet : Packet} {packets : List Packet} {sets : List EventSet} :
      (∀ number data, packet ≠ .command number .composite data) →
      headerLength + packet.data.length ≤ maxLength → Tells sizes packets sets →
      Tells sizes (packet :: packets) sets

theorem Tells.short {sizes : IdSizes} {packet : Packet} {packets : List Packet}
    {sets : List EventSet} (told : Tells sizes (packet :: packets) sets) :
    headerLength + packet.data.length ≤ maxLength := by
  cases told with
  | events _ short _ => exact short
  | other _ short _ => exact short

theorem Tells.read {sizes : IdSizes} {packet : Packet} {packets : List Packet}
    {sets : List EventSet} (told : Tells sizes (packet :: packets) sets) :
    Packet.read (Connection.bytesOf (packet :: packets)) =
      (.ok packet, Connection.bytesOf packets) :=
  Connection.read_bytesOf told.short packets

namespace Connection

/-- The event sets are those that are kept and those that the target still has to tell. -/
structure Pending (sizes : IdSizes) (c : Connection) (sets : List EventSet) : Prop where
  known : c.sizes = sizes
  told : ∃ packets later, c.incoming = bytesOf packets ∧ Tells sizes packets later ∧
    sets = c.events ++ later

theorem read_bytesOf_nil : Packet.read (bytesOf []) = (.error (.io .endOfInput), []) := rfl

namespace Pending

variable {sizes : IdSizes} {c : Connection} {sets : List EventSet} {rest : List UInt8}

/-- Nothing can be read only if nothing is to come. -/
theorem read_error {fault : Fault} (pending : Pending sizes c sets)
    (read : Packet.read c.incoming = (.error fault, rest)) :
    sets = c.events ∧ Pending sizes { c with incoming := rest } sets := by
  obtain ⟨same, packets, later, input, told, rfl⟩ := pending
  rw [input] at read
  cases told with
  | nil =>
    obtain ⟨-, rfl⟩ := Prod.mk.inj (read_bytesOf_nil.symm.trans read)
    exact ⟨List.append_nil _, same, [], [], rfl, .nil, rfl⟩
  | events starts short told => cases (Tells.events starts short told).read.symm.trans read
  | other differs short told => cases (Tells.other differs short told).read.symm.trans read

theorem read_reply {id : UInt32} {code : UInt16} {data : List UInt8}
    (pending : Pending sizes c sets)
    (read : Packet.read c.incoming = (.ok (.reply id code data), rest)) :
    Pending sizes { c with incoming := rest } sets := by
  obtain ⟨same, packets, later, input, told, rfl⟩ := pending
  rw [input] at read
  cases told with
  | nil => cases read_bytesOf_nil.symm.trans read
  | events starts short told => cases (Tells.events starts short told).read.symm.trans read
  | other differs short told =>
    obtain ⟨-, rfl⟩ := Prod.mk.inj ((Tells.other differs short told).read.symm.trans read)
    exact ⟨same, _, later, rfl, told, rfl⟩

/-- The events of a command are read in the sizes in which they were written. -/
theorem read_command (valid : sizes.Valid) {number : UInt32} {received : Command}
    {data : List UInt8} (pending : Pending sizes c sets)
    (read : Packet.read c.incoming = (.ok (.command number received data), rest)) :
    ∃ found, eventsOf c.sizes received data = .ok found ∧
      Pending sizes { c with incoming := rest, events := c.events ++ found } sets := by
  obtain ⟨rfl, packets, later, input, told, rfl⟩ := pending
  rw [input] at read
  cases told with
  | nil => cases read_bytesOf_nil.symm.trans read
  | @events _ _ set _ sets starts short told =>
    obtain ⟨same, rfl⟩ := Prod.mk.inj ((Tells.events starts short told).read.symm.trans read)
    obtain ⟨rfl, rfl, rfl⟩ := Packet.command.inj (Except.ok.inj same)
    have decoded : Read.eventSet.run c.sizes _ = .ok set :=
      congrArg Prod.fst ((Read.eventSet_ok valid).mpr starts)
    refine ⟨[set], ?_, rfl, _, sets, rfl, told, by simp⟩
    rw [eventsOf, if_pos rfl, decoded]
  | other differs short told =>
    obtain ⟨same, rfl⟩ := Prod.mk.inj ((Tells.other differs short told).read.symm.trans read)
    obtain rfl := Except.ok.inj same
    have ignored : received ≠ .composite := by
      rintro rfl
      exact differs number data rfl
    exact ⟨[], if_neg ignored, rfl, _, later, rfl, told, by simp⟩

theorem awaitReply (valid : sizes.Valid) (command : Command) (id : UInt32)
    (pending : Pending sizes c sets) : Pending sizes (awaitReply command id c).2 sets := by
  fun_induction Connection.awaitReply command id c with
  | case1 c fault rest read => exact (pending.read_error read).2
  | case2 c code data rest read => exact pending.read_reply read
  | case3 c replyId code data rest read differ ih => exact ih (pending.read_reply read)
  | case4 c number received data rest read fault undecodable =>
    obtain ⟨found, decoded, -⟩ := pending.read_command valid read
    cases decoded.symm.trans undecodable
  | case5 c number received data rest read found decoded ih =>
    obtain ⟨others, same, next⟩ := pending.read_command valid read
    obtain rfl := Except.ok.inj (decoded.symm.trans same)
    exact ih next

/-- The next event set is the first one. -/
theorem awaitEvent (valid : sizes.Valid) (pending : Pending sizes c sets) :
    (awaitEvent c).1.toOption = sets.head? ∧ Pending sizes (awaitEvent c).2 sets.tail := by
  fun_induction Connection.awaitEvent c with
  | case1 c set kept isKept =>
    obtain ⟨same, packets, later, input, told, rfl⟩ := pending
    rw [isKept]
    exact ⟨rfl, same, packets, later, input, told, rfl⟩
  | case2 c none fault rest read =>
    obtain ⟨rfl, next⟩ := pending.read_error read
    rw [none] at next ⊢
    exact ⟨rfl, next⟩
  | case3 c none id code data rest read ih => exact ih (pending.read_reply read)
  | case4 c none number received data rest read fault undecodable =>
    obtain ⟨found, decoded, -⟩ := pending.read_command valid read
    cases decoded.symm.trans undecodable
  | case5 c none number received data rest read found decoded ih =>
    obtain ⟨others, same, next⟩ := pending.read_command valid read
    obtain rfl := Except.ok.inj (decoded.symm.trans same)
    rw [none] at next
    exact ih next

theorem exchange (valid : sizes.Valid) (command : Command) (data : Encoded)
    (pending : Pending sizes c sets) : Pending sizes (exchange command data c).2 sets := by
  obtain ⟨same, packets, later, input, told, rfl⟩ := pending
  unfold Connection.exchange
  split
  · exact ⟨same, packets, later, input, told, rfl⟩
  · simp only
    split
    · exact ⟨same, packets, later, input, told, rfl⟩
    · exact awaitReply valid _ _ ⟨same, packets, later, input, told, rfl⟩

theorem make (valid : sizes.Valid) (call : Call) (pending : Pending sizes c sets) :
    ∃ left, sets = (call.make c).1 ++ left ∧ Pending sizes (call.make c).2 left := by
  cases call with
  | request command data => exact ⟨sets, rfl, pending.exchange valid command data⟩
  | nextEvent =>
    obtain ⟨first, next⟩ := pending.awaitEvent valid
    refine ⟨sets.tail, ?_, next⟩
    show sets = (Connection.awaitEvent c).1.toOption.toList ++ sets.tail
    rw [first]
    cases sets <;> rfl

theorem makeAll (valid : sizes.Valid) (calls : List Call) (pending : Pending sizes c sets) :
    ∃ left, sets = (Call.makeAll calls c).1 ++ left ∧
      Pending sizes (Call.makeAll calls c).2 left := by
  induction calls generalizing c sets with
  | nil => exact ⟨sets, rfl, pending⟩
  | cons call calls ih =>
    obtain ⟨later, rfl, next⟩ := pending.make valid call
    obtain ⟨left, rfl, last⟩ := ih next
    exact ⟨left, (List.append_assoc ..).symm, last⟩

/-- Asked often enough, the connection returns all of them. -/
theorem drain (valid : sizes.Valid) (pending : Pending sizes c sets) :
    (Call.makeAll (.replicate sets.length .nextEvent) c).1 = sets := by
  induction sets generalizing c with
  | nil => rfl
  | cons set sets ih =>
    obtain ⟨first, next⟩ := pending.awaitEvent valid
    have rest := ih next
    show (Connection.awaitEvent c).1.toOption.toList ++ _ = _
    rw [first]
    exact congrArg (set :: ·) rest

end Pending

/-- However the connection is used, it returns these event sets in this order, and those that are
left then are returned if it is asked for them. -/
def Delivers (c : Connection) (sets : List EventSet) : Prop :=
  ∀ calls, ∃ left, sets = (Call.makeAll calls c).1 ++ left ∧
    (Call.makeAll (.replicate left.length .nextEvent) (Call.makeAll calls c).2).1 = left

/-- What is returned first are the event sets that are kept. -/
theorem Delivers.kept {c : Connection} {first later : List EventSet}
    (delivers : Delivers c (first ++ later)) (length : c.events.length = first.length) :
    c.events = first := by
  obtain ⟨left, whole, drained⟩ := delivers []
  obtain rfl : first ++ later = left := whole
  have all : (Call.makeAll (.replicate (first ++ later).length .nextEvent) c).1 = first ++ later :=
    drained
  obtain ⟨log, received⟩ := Call.makeAll_receives (.replicate (first ++ later).length .nextEvent) c
  have events := received.events
  rw [all, List.append_assoc] at events
  exact (List.append_inj_left events length.symm).symm

theorem Pending.delivers {sizes : IdSizes} {c : Connection} {sets : List EventSet}
    (valid : sizes.Valid) (pending : Pending sizes c sets) : Delivers c sets := by
  intro calls
  obtain ⟨left, whole, next⟩ := pending.makeAll valid calls
  exact ⟨left, whole, next.drain valid⟩

section Opening

variable {sizes : IdSizes} {c : Connection} {rest : List UInt8} {id : UInt32}

theorem awaitReply_of_events (command : Command) {number : UInt32} {data : List UInt8}
    (read : Packet.read c.incoming = (.ok (.command number .composite data), rest)) :
    awaitReply command id c =
      match Read.eventSet.run c.sizes data with
      | .ok set => awaitReply command id { c with incoming := rest, events := c.events ++ [set] }
      | .error cause => (.error (.malformed cause), { c with incoming := rest }) := by
  rw [awaitReply_of_read command id read]
  simp only [eventsOf, if_pos]
  cases Read.eventSet.run c.sizes data with
  | ok set => rfl
  | error cause => rfl

theorem awaitReply_of_other (command : Command) {packet : Packet}
    (read : Packet.read c.incoming = (.ok packet, rest))
    (noEvents : ∀ number data, packet ≠ .command number .composite data)
    (noReply : ∀ code data, packet ≠ .reply id code data) :
    awaitReply command id c = awaitReply command id { c with incoming := rest } := by
  cases packet with
  | command number received data =>
    have ignored : received ≠ .composite := fun same => noEvents number data (same ▸ rfl)
    have found : eventsOf c.sizes received data = .ok [] := if_neg ignored
    rw [awaitReply_of_command read found, List.append_nil]
  | reply other code data =>
    have stale : other ≠ id := fun same => noReply code data (same ▸ rfl)
    exact awaitReply_of_stale read stale

/-- No field of the event sets is longer in the wider sizes. -/
def Alike (sizes wide : IdSizes) (sets : List EventSet) : Prop :=
  ∀ set ∈ sets, ∀ field ∈ set.fields, field.excess sizes wide = 0

/-- While a reply is awaited, each event set that comes before it is read in the sizes known then.
One that cannot be read ends the waiting. All are read as they were written exactly if no field of
theirs is longer in the known sizes. -/
theorem awaitReply_told (valid : c.sizes.Valid)
    (wider : ∀ width : Width, width.bytes sizes ≤ width.bytes c.sizes)
    (command : Command) {data : List UInt8} {front back : List Packet} {early : List EventSet}
    (told : Tells sizes front early) (unanswered : ∀ code data, .reply id code data ∉ front)
    (short : headerLength + data.length ≤ maxLength)
    (input : c.incoming = bytesOf (front ++ .reply id 0 data :: back)) :
    (∃ fault d, awaitReply command id c = (.error fault, d) ∧ ¬ Alike sizes c.sizes early) ∨
      ∃ found, awaitReply command id c =
          (.ok data, { c with incoming := bytesOf back, events := c.events ++ found }) ∧
        found.length = early.length ∧ (found = early ↔ Alike sizes c.sizes early) := by
  induction told generalizing c with
  | nil =>
    have read := read_bytesOf (p := .reply id 0 data) short back
    rw [List.nil_append] at input
    refine .inr ⟨[], ?_, rfl, by simp [Alike]⟩
    rw [awaitReply_of_reply (input ▸ read), if_pos rfl, List.append_nil]
  | @events number bytes set packets sets starts bytesShort told ih =>
    have read := input ▸ read_bytesOf (p := .command number .composite bytes) bytesShort
      (packets ++ Packet.reply id 0 data :: back)
    have asWritten := EventSet.run_eq_ok_iff valid wider starts
    rw [awaitReply_of_events command read]
    cases decoded : Read.eventSet.run c.sizes bytes with
    | error cause =>
      refine .inl ⟨_, _, rfl, fun alike => ?_⟩
      cases (asWritten.mpr (alike set List.mem_cons_self)).symm.trans decoded
    | ok other =>
      have later := ih (c := { c with
          incoming := bytesOf (packets ++ Packet.reply id 0 data :: back),
          events := c.events ++ [other] }) valid wider
        (fun code data member => unanswered code data (List.mem_cons_of_mem _ member)) rfl
      rcases later with ⟨fault, d, failed, unlike⟩ | ⟨found, answered, length, same⟩
      · exact .inl ⟨fault, d, failed, fun alike => unlike (List.forall_mem_cons.mp alike).2⟩
      · refine .inr ⟨other :: found, answered.trans ?_, congrArg Nat.succ length, ?_⟩
        · rw [List.append_assoc, List.singleton_append]
        · rw [Alike, List.forall_mem_cons, ← asWritten, decoded, Except.ok.injEq, ← Alike, ← same,
            List.cons.injEq]
  | @other packet packets sets differs packetShort told ih =>
    have read := input ▸ read_bytesOf packetShort (packets ++ Packet.reply id 0 data :: back)
    have noReply (code : UInt16) (data : List UInt8) : packet ≠ .reply id code data := by
      rintro rfl
      exact unanswered code data List.mem_cons_self
    rw [awaitReply_of_other command read differs noReply]
    exact ih (c := { c with incoming := _ }) valid wider
      (fun code data member => unanswered code data (List.mem_cons_of_mem _ member)) rfl

variable {front back : List Packet} {early late : List EventSet}

/-- Opening a connection either fails over an event set that is not as long in the default sizes, or
keeps one event set for each that came before the sizes. -/
theorem opened_told (back : List Packet) (valid : sizes.Valid) (before : Tells sizes front early)
    (unanswered : ∀ code data, .reply 1 code data ∉ front) :
    (∃ fault, opened (greeting ++ bytesOf (front ++ .reply 1 0 sizes.encode :: back)) =
        .error fault ∧ ¬ Alike sizes {} early) ∨
      ∃ c, opened (greeting ++ bytesOf (front ++ .reply 1 0 sizes.encode :: back)) = .ok c ∧
        c.sizes = sizes ∧ c.incoming = bytesOf back ∧ c.events.length = early.length ∧
        (c.events = early ↔ Alike sizes {} early) := by
  generalize input : bytesOf (front ++ .reply 1 0 sizes.encode :: back) = packets
  have short : headerLength + sizes.encode.length ≤ maxLength := by
    rw [IdSizes.encode_length]
    decide
  have told := awaitReply_told (c := greeted packets) IdSizes.valid_default valid.bytes_le
    Request.idSizes.command before unanswered short input.symm
  rw [opened_greeting]
  rcases told with ⟨fault, d, failed, unlike⟩ | ⟨found, answered, length, same⟩
  · rw [failed]
    exact .inl ⟨fault, rfl, unlike⟩
  · have read : Read.idSizes.run {} sizes.encode = .ok sizes :=
      congrArg Prod.fst (Read.idSizes_ok.mpr ⟨valid, (List.append_nil _).symm⟩)
    rw [answered]
    simp only
    rw [show (greeted packets).sizes = {} from rfl, read]
    exact .inr ⟨_, rfl, rfl, rfl, length, same⟩

/-- A target tells its sizes of identifiers after some event sets and before others. The connection
to it is opened and returns just these event sets exactly if no field of those before is longer in
the default sizes. So events after the sizes are always read as they were written. Events before
them are lost or changed, and the connection may not open at all, if they hold an identifier that
does not have eight bytes. -/
theorem delivers_iff (valid : sizes.Valid) (before : Tells sizes front early)
    (after : Tells sizes back late) (unanswered : ∀ code data, .reply 1 code data ∉ front) :
    (∃ c, opened (greeting ++ bytesOf (front ++ .reply 1 0 sizes.encode :: back)) = .ok c ∧
      c.sizes = sizes ∧ Delivers c (early ++ late)) ↔
    ∀ set ∈ early, ∀ field ∈ set.fields, field.excess sizes {} = 0 := by
  rcases opened_told back valid before unanswered with
    ⟨fault, failed, unlike⟩ | ⟨c, isOpen, known, input, length, same⟩
  · rw [failed]
    refine ⟨?_, fun alike => absurd alike unlike⟩
    rintro ⟨c, impossible, -⟩
    cases impossible
  · rw [isOpen]
    constructor
    · rintro ⟨d, isSame, -, delivers⟩
      obtain rfl := Except.ok.inj isSame
      exact same.mp (delivers.kept length)
    · intro alike
      have pending : Pending sizes c (early ++ late) :=
        ⟨known, back, late, input, after, by rw [same.mpr alike]⟩
      exact ⟨c, rfl, known, pending.delivers valid⟩

end Opening

/-- The sizes of a target whose identifiers all have four bytes, and a thread that it reports. -/
def narrowSizes : IdSizes := ⟨4, 4, 4, 4, 4⟩

def narrowReport : Packet := .command 5 .composite [2, 0, 0, 0, 1, 90, 0, 0, 0, 0, 0, 0, 0, 9]

theorem tells_narrowReport : Tells narrowSizes [narrowReport] [⟨2, [⟨0, .vmStart 9⟩]⟩] := by
  refine .events ((Read.eventSet_ok ?_).mp rfl) (by decide) .nil
  simp [IdSizes.Valid, IdSizes.all, narrowSizes]

theorem delivers_iff_narrow :
    (¬ ∃ c, opened (greeting ++ bytesOf [narrowReport, .reply 1 0 narrowSizes.encode]) = .ok c ∧
      c.sizes = narrowSizes ∧ Delivers c [⟨2, [⟨0, .vmStart 9⟩]⟩]) ∧
    ∃ c, opened (greeting ++ bytesOf [.reply 1 0 narrowSizes.encode, narrowReport]) = .ok c ∧
      c.sizes = narrowSizes ∧ Delivers c [⟨2, [⟨0, .vmStart 9⟩]⟩] := by
  have valid : narrowSizes.Valid := by simp [IdSizes.Valid, IdSizes.all, narrowSizes]
  constructor
  · intro delivered
    have alike := (delivers_iff valid tells_narrowReport .nil (by simp [narrowReport])).mp delivered
    have thread := alike _ List.mem_cons_self (.id .object 9)
      (by simp [EventSet.fields, Event.fields, Happening.fields])
    exact absurd thread (by decide)
  · exact (delivers_iff valid .nil tells_narrowReport (by simp)).mpr (by simp)

end Connection

end JavaSnippet.Wire
