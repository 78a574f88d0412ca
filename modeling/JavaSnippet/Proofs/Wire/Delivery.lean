import JavaSnippet.Proofs.Bytes
import JavaSnippet.Proofs.Wire.Exchange
import JavaSnippet.Wire.Packet
import Mathlib.Data.List.Basic
/-!
Delivery of events and replies. A packet is read back from exactly its bytes. Whatever is asked of a
connection, the event sets that it returned and those that it keeps are the ones that were read, in
order, and a request is answered by the first reply with its number.
-/
namespace JavaSnippet.Wire

namespace Packet

theorem ofParts_kindBytes (p : Packet) :
    ∃ flags x y, p.kindBytes = [flags, x, y] ∧ ofParts p.id flags x y p.data = p := by
  cases p with
  | command id c data => exact ⟨0, c.set, c.number, rfl, rfl⟩
  | reply id code data =>
    refine ⟨0x80, _, _, rfl, ?_⟩
    have value := Bytes.toNat_ofNat (n := 2) code.toNat_lt
    show reply id (Bytes.toNat (Bytes.ofNat 2 code.toNat)).toUInt16 data = reply id code data
    rw [value]
    simp

theorem readBody_append (p : Packet) (rest : List UInt8) :
    readBody p.data.length (Bytes.ofUInt32 p.id ++ (p.kindBytes ++ p.data) ++ rest) =
      (.ok p, rest) := by
  obtain ⟨flags, x, y, kind, same⟩ := ofParts_kindBytes p
  have number : (Bytes.toNat (Bytes.ofUInt32 p.id)).toUInt32 = p.id := by
    rw [Bytes.ofUInt32, Bytes.toNat_ofNat p.id.toNat_lt]
    simp
  obtain ⟨a, b, c, d, bytes⟩ : ∃ a b c d, Bytes.ofUInt32 p.id = [a, b, c, d] := ⟨_, _, _, _, rfl⟩
  rw [kind, bytes]
  rw [bytes] at number
  show readBody p.data.length (a :: b :: c :: d :: flags :: x :: y :: (p.data ++ rest)) = _
  rw [readBody, Bytes.split?_append]
  simp only
  rw [number, same]

theorem encode_of_short {p : Packet} (short : headerLength + p.data.length ≤ maxLength) :
    ∃ bytes, p.encode = .ok bytes := by
  have fits : headerLength + p.data.length < UInt32.size := Nat.lt_of_le_of_lt short (by decide)
  exact ⟨_, if_pos fits⟩

/-- A packet is read back from its bytes, and what stands behind them is left. -/
theorem read_encode {p : Packet} {bytes : List UInt8} (encoded : p.encode = .ok bytes)
    (short : headerLength + p.data.length ≤ maxLength) (rest : List UInt8) :
    read (bytes ++ rest) = (.ok p, rest) := by
  unfold encode at encoded
  simp only at encoded
  split at encoded
  · rename_i fits
    obtain rfl := Except.ok.inj encoded
    have length : Bytes.toNat (Bytes.ofNat 4 (headerLength + p.data.length)) =
        headerLength + p.data.length := Bytes.toNat_ofNat fits
    unfold read
    rw [List.append_assoc, Bytes.split?_eq_some (Bytes.ofLength32_length _)]
    simp only
    rw [Bytes.ofLength32, length, if_neg (by omega), if_neg (by omega), Nat.add_sub_cancel_left,
      readBody_append]
  · cases encoded

end Packet

section Reading

/-- Packets are read one after another, with the given results. -/
def Reads : List UInt8 → List (Except Fault Packet) → List UInt8 → Prop
  | input, [], rest => rest = input
  | input, result :: log, rest => ∃ mid, Packet.read input = (result, mid) ∧ Reads mid log rest

theorem Reads.append {input mid rest : List UInt8} {front back : List (Except Fault Packet)}
    (first : Reads input front mid) (next : Reads mid back rest) :
    Reads input (front ++ back) rest := by
  induction front generalizing input with
  | nil =>
    obtain rfl : mid = input := first
    exact next
  | cons result front ih =>
    obtain ⟨between, read, later⟩ := first
    exact ⟨between, read, ih later⟩

theorem reads_one {input rest : List UInt8} {result : Except Fault Packet}
    (read : Packet.read input = (result, rest)) : Reads input [result] rest :=
  ⟨rest, read, rfl⟩

/-- Nothing that is read is the refusal of a command. -/
theorem Packet.ne_reply_of_read {input rest : List UInt8} {fault : Fault}
    (read : Packet.read input = (.error fault, rest)) (command : Command) (code : UInt16) :
    fault ≠ .reply command code := by
  rintro rfl
  unfold Packet.read at read
  split at read
  · cases read
  · simp only at read
    split at read
    · cases read
    · split at read
      · cases read
      · unfold Packet.readBody at read
        split at read
        · split at read
          · cases read
          · cases read
        · cases read

/-- The event set that a packet holds, if it is a composite command whose data can be decoded. -/
def eventSet? (sizes : IdSizes) : Except Fault Packet → Option EventSet
  | .ok (.command _ command data) =>
    if command = .composite then (Read.eventSet.run sizes data).toOption else none
  | _ => none

/-- The event sets in what was read. -/
def eventSets (sizes : IdSizes) (log : List (Except Fault Packet)) : List EventSet :=
  log.filterMap (eventSet? sizes)

theorem eventSets_append (sizes : IdSizes) (front back : List (Except Fault Packet)) :
    eventSets sizes (front ++ back) = eventSets sizes front ++ eventSets sizes back :=
  List.filterMap_append

theorem eventSets_of_eventsOf (number : UInt32) {sizes : IdSizes} {command : Command}
    {data : List UInt8} {sets : List EventSet}
    (h : Connection.eventsOf sizes command data = .ok sets) :
    eventSets sizes [.ok (.command number command data)] = sets := by
  unfold Connection.eventsOf at h
  unfold eventSets
  rw [List.filterMap_cons, List.filterMap_nil, eventSet?]
  split at h
  · rename_i composite
    rw [if_pos composite]
    split at h
    · rename_i set decoded
      obtain rfl := Except.ok.inj h
      rw [decoded]
      rfl
    · cases h
  · rename_i other
    obtain rfl := Except.ok.inj h
    rw [if_neg other]

theorem malformed_of_eventsOf (number : UInt32) {sizes : IdSizes} {command : Command}
    {data : List UInt8} {fault : Fault}
    (h : Connection.eventsOf sizes command data = .error fault) :
    eventSets sizes [.ok (.command number command data)] = [] ∧
      ∃ cause, fault = .malformed cause := by
  unfold Connection.eventsOf at h
  unfold eventSets
  rw [List.filterMap_cons, List.filterMap_nil, eventSet?]
  split at h
  · rename_i composite
    rw [if_pos composite]
    split at h
    · cases h
    · rename_i cause undecodable
      obtain rfl := Except.error.inj h
      rw [undecodable]
      exact ⟨rfl, cause, rfl⟩
  · cases h

end Reading

namespace Connection

/-- Between two moments of a connection, the event sets that were read are either returned or kept,
after those kept before. -/
structure Receives (c : Connection) (log : List (Except Fault Packet)) (returned : List EventSet)
    (d : Connection) : Prop where
  reads : Reads c.incoming log d.incoming
  events : returned ++ d.events = c.events ++ eventSets c.sizes log
  sizes : d.sizes = c.sizes

namespace Receives

theorem refl (c : Connection) : Receives c [] [] c :=
  ⟨rfl, (List.append_nil c.events).symm, rfl⟩

variable {c d e : Connection} {log later : List (Except Fault Packet)}
  {returned others : List EventSet}

theorem trans (first : Receives c log returned d) (next : Receives d later others e) :
    Receives c (log ++ later) (returned ++ others) e where
  reads := first.reads.append next.reads
  events := by
    rw [List.append_assoc, next.events, ← List.append_assoc, first.events, List.append_assoc,
      first.sizes, eventSets_append]
  sizes := next.sizes.trans first.sizes

end Receives

variable {c : Connection} {rest : List UInt8}

theorem receives_read {result : Except Fault Packet}
    (read : Packet.read c.incoming = (result, rest)) {sets : List EventSet}
    (brings : eventSets c.sizes [result] = sets) :
    Receives c [result] [] { c with incoming := rest, events := c.events ++ sets } :=
  ⟨reads_one read, by rw [brings, List.nil_append], rfl⟩

theorem receives_none {result : Except Fault Packet}
    (read : Packet.read c.incoming = (result, rest)) (none : eventSets c.sizes [result] = []) :
    Receives c [result] [] { c with incoming := rest } :=
  ⟨reads_one read, by rw [none, List.nil_append, List.append_nil], rfl⟩

/-- The last packet that was read is the first reply with the number. -/
def Answers (id : UInt32) (log : List (Except Fault Packet)) (code : UInt16) (data : List UInt8) :
    Prop :=
  ∃ others : List Packet, log = others.map .ok ++ [.ok (.reply id code data)] ∧
    ∀ other ∈ others, ∀ code data, other ≠ .reply id code data

theorem Answers.cons {id : UInt32} {log : List (Except Fault Packet)} {code : UInt16}
    {data : List UInt8} {packet : Packet} (other : ∀ code data, packet ≠ .reply id code data)
    (h : Answers id log code data) : Answers id (.ok packet :: log) code data := by
  obtain ⟨others, rfl, differ⟩ := h
  exact ⟨packet :: others, rfl, List.forall_mem_cons.mpr ⟨other, differ⟩⟩

/-- What waiting for a reply gives: what the reply says, or a fault that no reply is. -/
def Settles (command : Command) (id : UInt32) (log : List (Except Fault Packet))
    (result : Except Fault (List UInt8)) : Prop :=
  (∃ code data, Answers id log code data ∧
    result = if code = 0 then .ok data else .error (.reply command code)) ∨
  ∃ fault, result = .error fault ∧ ∀ command code, fault ≠ .reply command code

theorem Settles.cons {command : Command} {id : UInt32} {log : List (Except Fault Packet)}
    {result : Except Fault (List UInt8)} {packet : Packet}
    (other : ∀ code data, packet ≠ .reply id code data) (h : Settles command id log result) :
    Settles command id (.ok packet :: log) result :=
  h.imp_left fun ⟨code, data, answers, same⟩ => ⟨code, data, answers.cons other, same⟩

/-- Waiting for a reply keeps all event sets that come before it. -/
theorem awaitReply_receives (command : Command) (id : UInt32) (c : Connection) :
    ∃ log, Receives c log [] (awaitReply command id c).2 ∧
      Settles command id log (awaitReply command id c).1 := by
  fun_induction awaitReply command id c with
  | case1 c fault rest read =>
    exact ⟨_, receives_none read rfl, .inr ⟨fault, rfl, Packet.ne_reply_of_read read⟩⟩
  | case2 c code data rest read =>
    exact ⟨_, receives_none read rfl, .inl ⟨code, data, ⟨[], rfl, by simp⟩, rfl⟩⟩
  | case3 c replyId code data rest read differ ih =>
    obtain ⟨log, received, settles⟩ := ih
    refine ⟨_, (receives_none read rfl).trans received, settles.cons ?_⟩
    rintro code data same
    exact differ (Packet.reply.inj same).1
  | case4 c number received data rest read fault undecodable =>
    obtain ⟨none, cause, rfl⟩ := malformed_of_eventsOf number undecodable
    exact ⟨_, receives_none read none, .inr ⟨_, rfl, by simp⟩⟩
  | case5 c number received data rest read sets decoded ih =>
    obtain ⟨log, receivedLater, settles⟩ := ih
    exact ⟨_, (receives_read read (eventSets_of_eventsOf number decoded)).trans receivedLater,
      settles.cons (by simp)⟩

/-- What waiting for a reply does with the packet that is read. -/
theorem awaitReply_of_read (command : Command) (id : UInt32) {result : Except Fault Packet}
    (read : Packet.read c.incoming = (result, rest)) :
    awaitReply command id c =
      match result with
      | .error fault => (.error fault, { c with incoming := rest })
      | .ok (.reply replyId code data) =>
        if replyId = id then
          (if code = 0 then .ok data else .error (.reply command code), { c with incoming := rest })
        else awaitReply command id { c with incoming := rest }
      | .ok (.command _ received data) =>
        match eventsOf c.sizes received data with
        | .error fault => (.error fault, { c with incoming := rest })
        | .ok sets =>
          awaitReply command id { c with incoming := rest, events := c.events ++ sets } := by
  rw [awaitReply]
  split
  all_goals
    rename_i same
    obtain ⟨rfl, rfl⟩ := Prod.mk.inj (read.symm.trans same)
    rfl

theorem awaitReply_of_reply {command : Command} {id : UInt32} {code : UInt16} {data : List UInt8}
    (read : Packet.read c.incoming = (.ok (.reply id code data), rest)) :
    awaitReply command id c =
      (if code = 0 then .ok data else .error (.reply command code),
        { c with incoming := rest }) :=
  (awaitReply_of_read command id read).trans (if_pos rfl)

theorem awaitReply_of_stale {command : Command} {id other : UInt32} {code : UInt16}
    {data : List UInt8} (read : Packet.read c.incoming = (.ok (.reply other code data), rest))
    (stale : other ≠ id) :
    awaitReply command id c = awaitReply command id { c with incoming := rest } :=
  (awaitReply_of_read command id read).trans (if_neg stale)

theorem awaitReply_of_command {command received : Command} {id number : UInt32} {data : List UInt8}
    (read : Packet.read c.incoming = (.ok (.command number received data), rest))
    {sets : List EventSet} (decoded : eventsOf c.sizes received data = .ok sets) :
    awaitReply command id c =
      awaitReply command id { c with incoming := rest, events := c.events ++ sets } := by
  rw [awaitReply_of_read command id read]
  simp only [decoded]

/-- Waiting for an event set returns the first that is kept or read. -/
theorem awaitEvent_receives (c : Connection) :
    ∃ log, Receives c log (awaitEvent c).1.toOption.toList (awaitEvent c).2 := by
  fun_induction awaitEvent c with
  | case1 c set sets kept =>
    exact ⟨[], rfl, by rw [kept]; exact (List.append_nil _).symm, rfl⟩
  | case2 c kept fault rest read => exact ⟨_, receives_none read rfl⟩
  | case3 c kept id code data rest read ih =>
    obtain ⟨log, received⟩ := ih
    exact ⟨_, (receives_none read rfl).trans received⟩
  | case4 c kept number received data rest read fault undecodable =>
    exact ⟨_, receives_none read (malformed_of_eventsOf number undecodable).1⟩
  | case5 c kept number received data rest read sets decoded ih =>
    obtain ⟨log, receivedLater⟩ := ih
    have first := receives_read read (eventSets_of_eventsOf number decoded)
    rw [kept] at first
    exact ⟨_, first.trans receivedLater⟩

/-- A request is refused before anything happens if its data cannot be encoded. One that is answered
was sent under the next number, and read its own reply and nothing behind it. -/
structure Serves (command : Command) (data : Encoded) (c : Connection)
    (log : List (Except Fault Packet)) (result : Except Fault (List UInt8)) (d : Connection) :
    Prop where
  unsent : ∀ cause, data = .error cause → log = [] ∧ result = .error (.io cause) ∧ d = c
  answered : ((∃ answer, result = .ok answer) ∨
      ∃ refused code, result = .error (.reply refused code)) →
    ∃ bytes sent code answer, data = .ok bytes ∧
      (Packet.command c.nextId command bytes).encode = .ok sent ∧
      d.outgoing = c.outgoing ++ sent ∧ d.nextId = c.nextId + 1 ∧
      Answers c.nextId log code answer ∧
      result = if code = 0 then .ok answer else .error (.reply command code)

theorem exchange_of_encode {command : Command} {data sent : List UInt8} {c : Connection}
    (encoded : (Packet.command c.nextId command data).encode = .ok sent) :
    exchange command (.ok data) c =
      awaitReply command c.nextId (({ c with nextId := c.nextId + 1 } : Connection).send sent) := by
  unfold exchange
  simp only
  rw [encoded]

theorem exchange_receives (command : Command) (data : Encoded) (c : Connection) :
    ∃ log, Receives c log [] (exchange command data c).2 ∧
      Serves command data c log (exchange command data c).1 (exchange command data c).2 := by
  unfold exchange
  cases data with
  | error cause =>
    refine ⟨[], .refl c, fun other same => ?_, ?_⟩
    · obtain rfl := Except.error.inj same
      exact ⟨rfl, rfl, rfl⟩
    · rintro (⟨answer, same⟩ | ⟨refused, code, same⟩)
      · cases same
      · cases same
  | ok bytes =>
    simp only
    cases encoded : (Packet.command c.nextId command bytes).encode with
    | error fault =>
      refine ⟨[], ⟨rfl, (List.append_nil c.events).symm, rfl⟩, fun cause same => ?_, ?_⟩
      · cases same
      · unfold Packet.encode at encoded
        simp only at encoded
        split at encoded
        · cases encoded
        · obtain rfl := Except.error.inj encoded
          rintro (⟨answer, same⟩ | ⟨refused, code, same⟩)
          · cases same
          · cases same
    | ok sent =>
      simp only
      obtain ⟨log, received, settles⟩ := awaitReply_receives command c.nextId
        (({ c with nextId := c.nextId + 1 } : Connection).send sent)
      obtain ⟨incoming, events, left⟩ := awaitReply_reads command c.nextId
        (({ c with nextId := c.nextId + 1 } : Connection).send sent)
      refine ⟨log, ⟨received.reads, received.events, received.sizes⟩,
        fun cause same => (by cases same), fun settled => ?_⟩
      rcases settles with ⟨code, answer, answers, same⟩ | ⟨fault, same, differs⟩
      · exact ⟨bytes, sent, code, answer, rfl, encoded, by rw [left]; rfl, by rw [left]; rfl,
          answers, same⟩
      · rw [same] at settled
        rcases settled with ⟨answer, isAnswer⟩ | ⟨refused, code, isRefusal⟩
        · cases isAnswer
        · exact absurd (Except.error.inj isRefusal) (differs refused code)

end Connection

/-- A use of an open connection. -/
inductive Call where
  | request (command : Command) (data : Encoded)
  | nextEvent

namespace Call

open Connection

/-- The event sets that a call returns, and the connection after it. -/
def make : Call → Connection → List EventSet × Connection
  | request command data, c => ([], (exchange command data c).2)
  | nextEvent, c => ((Connection.nextEvent c).1.toOption.toList, (Connection.nextEvent c).2)

/-- Calls one after another. -/
def makeAll : List Call → Connection → List EventSet × Connection
  | [], c => ([], c)
  | call :: rest, c =>
    ((call.make c).1 ++ (makeAll rest (call.make c).2).1, (makeAll rest (call.make c).2).2)

theorem make_receives (call : Call) (c : Connection) :
    ∃ log, Receives c log (call.make c).1 (call.make c).2 := by
  cases call with
  | request command data =>
    obtain ⟨log, received, -⟩ := exchange_receives command data c
    exact ⟨log, received⟩
  | nextEvent => exact awaitEvent_receives c

theorem makeAll_receives (calls : List Call) (c : Connection) :
    ∃ log, Receives c log (makeAll calls c).1 (makeAll calls c).2 := by
  induction calls generalizing c with
  | nil => exact ⟨[], .refl c⟩
  | cons call calls ih =>
    obtain ⟨log, first⟩ := call.make_receives c
    obtain ⟨later, others⟩ := ih (call.make c).2
    exact ⟨log ++ later, first.trans others⟩

end Call

namespace Connection

theorem incoming_of_awaitGreeting {c d : Connection} (h : awaitGreeting c = (.ok (), d)) :
    ∃ rest, c.incoming = greeting ++ rest ∧ d = { c with incoming := rest } := by
  unfold awaitGreeting at h
  split at h
  · cases h
  · rename_i front rest split
    obtain ⟨whole, -⟩ := Bytes.eq_append_of_split? split
    split at h
    · rename_i greeted
      obtain ⟨-, rfl⟩ := Prod.mk.inj h
      exact ⟨rest, greeted ▸ whole, rfl⟩
    · cases h

/-- An opened connection has read the greeting, and whatever came up to the sizes of identifiers. -/
theorem opened_receives {input : List UInt8} {c : Connection} (isOpen : opened input = .ok c) :
    ∃ rest early, input = greeting ++ rest ∧ Reads rest early c.incoming ∧
      c.events = eventSets {} early := by
  unfold opened at isOpen
  split at isOpen
  · rename_i last greeted
    obtain rfl := Except.ok.inj isOpen
    obtain ⟨⟨⟩, spoken, first, next⟩ := ExceptState.bind_eq_ok.mp greeted
    obtain ⟨-, rfl⟩ := Prod.mk.inj first
    obtain ⟨⟨⟩, ready, heard, next⟩ := ExceptState.bind_eq_ok.mp next
    obtain ⟨rest, whole, rfl⟩ := incoming_of_awaitGreeting heard
    obtain ⟨sizes, asked, performed, done⟩ := ExceptState.bind_eq_ok.mp next
    obtain ⟨-, rfl⟩ := Prod.mk.inj done
    obtain ⟨log, received, -⟩ := exchange_receives Request.idSizes.command
      (Request.idSizes.encode {}) { (silent input).send greeting with incoming := rest }
    have after := perform_snd .idSizes { (silent input).send greeting with incoming := rest }
    rw [performed] at after
    obtain rfl : asked = _ := after
    exact ⟨rest, log, whole, received.reads, received.events⟩
  · cases isOpen

/-- However an open connection is used, the event sets that it returned and those that it keeps are
the ones in the packets that were read since it was opened, in the order in which they came, and it
answers every request by the first reply to it. This also holds when packets are malformed. -/
theorem events_delivered {input : List UInt8} {c : Connection} (isOpen : opened input = .ok c) :
    ∃ rest early, input = greeting ++ rest ∧ Reads rest early c.incoming ∧
      ∀ calls returned d, Call.makeAll calls c = (returned, d) →
        (∃ log, Reads c.incoming log d.incoming ∧
          returned ++ d.events = eventSets {} early ++ eventSets c.sizes log) ∧
        ∀ command data result e, exchange command data d = (result, e) →
          ∃ log, Reads d.incoming log e.incoming ∧ Serves command data d log result e := by
  obtain ⟨rest, early, whole, reads, events⟩ := opened_receives isOpen
  refine ⟨rest, early, whole, reads, fun calls returned d made => ⟨?_, ?_⟩⟩
  · obtain ⟨log, received⟩ := Call.makeAll_receives calls c
    rw [made] at received
    exact ⟨log, received.reads, events ▸ received.events⟩
  · intro command data result e exchanged
    obtain ⟨log, received, serves⟩ := exchange_receives command data d
    rw [exchanged] at received serves
    exact ⟨log, received.reads, serves⟩

/-- The bytes of packets that are short enough. -/
def bytesOf (packets : List Packet) : List UInt8 :=
  packets.flatMap fun p => p.encode.toOption.getD []

theorem read_bytesOf {p : Packet} (short : headerLength + p.data.length ≤ maxLength)
    (others : List Packet) : Packet.read (bytesOf (p :: others)) = (.ok p, bytesOf others) := by
  obtain ⟨bytes, encoded⟩ := Packet.encode_of_short short
  have first : bytesOf (p :: others) = bytes ++ bytesOf others := by
    rw [bytesOf, List.flatMap_cons, encoded]
    rfl
  rw [first, Packet.read_encode encoded short]

/-- A connection that greeted and asked for the sizes of identifiers, but read no packet yet. -/
def greeted (packets : List UInt8) : Connection :=
  ⟨packets, greeting ++ [0, 0, 0, 11, 0, 0, 0, 1, 0, 1, 7], 2, {}, []⟩

/-- Once it is greeted, a connection is open when the sizes of identifiers came. -/
theorem opened_greeting (packets : List UInt8) :
    opened (greeting ++ packets) =
      match awaitReply Request.idSizes.command 1 (greeted packets) with
      | (.ok data, c) =>
        match Read.idSizes.run c.sizes data with
        | .ok sizes => .ok { c with sizes }
        | .error cause => .error (.malformed cause)
      | (.error fault, _) => .error fault := by
  have spoken : send greeting (silent (greeting ++ packets)) =
      ⟨greeting ++ packets, greeting, 1, {}, []⟩ := by
    simp [send, silent]
  have heard : awaitGreeting ⟨greeting ++ packets, greeting, 1, {}, []⟩ =
      (.ok (), ⟨packets, greeting, 1, {}, []⟩) := by
    rw [awaitGreeting, Bytes.split?_append]
    exact Prod.ext (if_pos rfl) rfl
  have encoded : (Packet.command 1 Request.idSizes.command []).encode =
      .ok [0, 0, 0, 11, 0, 0, 0, 1, 0, 1, 7] := except_eq_ok_of_toOption (by decide)
  have asked : exchange Request.idSizes.command (.ok []) ⟨packets, greeting, 1, {}, []⟩ =
      awaitReply Request.idSizes.command 1 (greeted packets) :=
    exchange_of_encode (c := ⟨packets, greeting, 1, {}, []⟩) encoded
  have greets : greet (silent (greeting ++ packets)) =
      (perform .idSizes >>= fun sizes => modify fun c => { c with sizes } : Exchange Unit)
        ⟨packets, greeting, 1, {}, []⟩ := by
    unfold greet
    rw [ExceptState.bind_apply]
    show (awaitGreeting >>= _ : Exchange Unit) (send greeting (silent (greeting ++ packets))) = _
    rw [spoken, ExceptState.bind_apply, heard]
  rw [opened, greets, ExceptState.bind_apply, perform]
  rw [show Request.idSizes.encode _ = .ok [] from rfl, asked]
  cases awaitReply Request.idSizes.command 1 (greeted packets) with
  | mk result c =>
    cases result with
    | error fault => rfl
    | ok data =>
      have read : (Request.idSizes.answer).run c.sizes data = Read.idSizes.run c.sizes data := rfl
      simp only [read]
      cases Read.idSizes.run c.sizes data with
      | ok sizes => rfl
      | error cause => rfl

/-- A target that starts: it tells the sizes of identifiers, reports an event, and refuses to go on.
-/
def sizesReply : Packet :=
  .reply 1 0 [0, 0, 0, 8, 0, 0, 0, 8, 0, 0, 0, 8, 0, 0, 0, 8, 0, 0, 0, 8]

def startReport : Packet :=
  .command 5 .composite [2, 0, 0, 0, 1, 90, 0, 0, 0, 0, 0, 0, 0, 0, 0, 0, 0, 9]

def refusal : Packet := .reply 2 13 []

def startConnection : Connection :=
  ⟨bytesOf [startReport, refusal], greeting ++ [0, 0, 0, 11, 0, 0, 0, 1, 0, 1, 7], 2, {}, []⟩

theorem opened_start :
    opened (greeting ++ bytesOf [sizesReply, startReport, refusal]) = .ok startConnection := by
  generalize input : bytesOf [sizesReply, startReport, refusal] = packets
  have read : Packet.read packets = (.ok sizesReply, bytesOf [startReport, refusal]) :=
    input ▸ read_bytesOf (by decide) _
  have replied : awaitReply Request.idSizes.command 1 (greeted packets) =
      (.ok sizesReply.data, startConnection) := awaitReply_of_reply (c := greeted packets) read
  rw [opened_greeting, replied]
  rfl

/-- The connection after the refusal, with the event set that came before it. -/
def refusedConnection : Connection :=
  ⟨[], startConnection.outgoing ++ [0, 0, 0, 11, 0, 0, 0, 2, 0, 1, 9],
    startConnection.nextId + 1, {},
    [⟨2, [⟨0, .vmStart 9⟩]⟩]⟩

theorem exchange_start : exchange ⟨1, 9⟩ (.ok []) startConnection =
    (.error (.reply ⟨1, 9⟩ 13), refusedConnection) := by
  have encoded : (Packet.command 2 ⟨1, 9⟩ []).encode = .ok [0, 0, 0, 11, 0, 0, 0, 2, 0, 1, 9] :=
    except_eq_ok_of_toOption (by decide)
  have reported :
      Packet.read (bytesOf [startReport, refusal]) = (.ok startReport, bytesOf [refusal]) :=
    read_bytesOf (by decide) _
  have refused : Packet.read (bytesOf [refusal]) = (.ok refusal, []) := read_bytesOf (by decide) _
  have decoded : eventsOf {} .composite startReport.data = .ok [⟨2, [⟨0, .vmStart 9⟩]⟩] := by rfl
  have answered : awaitReply ⟨1, 9⟩ 2 { refusedConnection with incoming := bytesOf [refusal] } =
      (.error (.reply ⟨1, 9⟩ 13), refusedConnection) := by
    rw [awaitReply_of_reply (c := { refusedConnection with incoming := bytesOf [refusal] }) refused,
      if_neg (by decide)]
    rfl
  rw [exchange_of_encode (c := startConnection) encoded]
  exact (awaitReply_of_command (c := { refusedConnection with
    incoming := startConnection.incoming, events := [] }) reported decoded).trans answered

theorem events_delivered_start :
    opened (greeting ++ bytesOf [sizesReply, startReport, refusal]) = .ok startConnection ∧
      ∃ early log later, Reads startConnection.incoming log refusedConnection.incoming ∧
        (∃ answer, Answers 2 log 13 answer) ∧
        Reads startConnection.incoming later refusedConnection.incoming ∧
        [⟨2, [⟨0, .vmStart 9⟩]⟩] = eventSets {} early ++ eventSets {} later := by
  obtain ⟨rest, early, -, -, delivered⟩ := events_delivered opened_start
  obtain ⟨-, serves⟩ := delivered [] [] startConnection rfl
  obtain ⟨log, reads, served⟩ := serves _ _ _ _ exchange_start
  obtain ⟨bytes, sent, code, answer, -, -, -, -, answers, same⟩ :=
    served.answered (.inr ⟨_, _, rfl⟩)
  have after :
      Call.makeAll [.request ⟨1, 9⟩ (.ok [])] startConnection = ([], refusedConnection) := by
    rw [Call.makeAll, Call.makeAll, Call.make, exchange_start]
    rfl
  obtain ⟨⟨later, readsLater, events⟩, -⟩ := delivered _ _ _ after
  have isCode : code = 13 := by
    split at same
    · cases same
    · exact (Fault.reply.inj (Except.error.inj same)).2.symm
  exact ⟨opened_start, early, log, later, reads, ⟨answer, isCode ▸ answers⟩, readsLater, events⟩

end Connection

end JavaSnippet.Wire
