import StarterProjects.Jeux.Protocol

/-!
# Packets in a stream

What successive calls of `proto_send_packet` write is what successive calls of
`proto_recv_packet` read, in whatever pieces the stream comes (`recvs_of_sends`).

A stream that ends inside a packet is another matter. The receiver takes any positive count of
`rio_readn` for success, so the last packet may be a fragment of one: `recv_whole_iff` says
which ends it notices.
-/

namespace StarterProjects.Jeux.Protocol

open Lib

/-- The payload that a header announces which was received over `hdr`. -/
def announced (hdr : JeuxPacketHeader) (bytes : List UInt8) : Nat :=
  (ntohs (JeuxPacketHeader.ofBytes (overwrite hdr.bytes (bytes.take headerSize))).size).toNat

/-- The connection delivers something for the header, and something for the payload that the
header then announces; where the connection breaks, it delivers all of both before that. -/
structure Accepts (source : Source UInt8) (hdr : JeuxPacketHeader) : Prop where
  head : source.left ≠ [] ∧ (source.broken = true → headerSize ≤ source.left.length)
  body : announced hdr source.left ≠ 0 → source.left.drop headerSize ≠ [] ∧
    (source.broken = true → announced hdr source.left ≤ (source.left.drop headerSize).length)

section Receive

variable (storage : Nat → UInt8) (source : Source UInt8) (hdr : JeuxPacketHeader)
  (payloadp : Option (List UInt8))

/-- When `rio_readn` has a result that the receiver takes for success. -/
theorem readn_pos_iff {n : Nat} (hn : 0 < n) :
    ¬ (rio_readn source n).result ≤ 0 ↔
      source.left ≠ [] ∧ (source.broken = true → n ≤ source.left.length) := by
  obtain ⟨rest, hread⟩ := rio_readn_eq source n
  rw [hread, ← List.length_pos_iff]
  dsimp only
  split
  · next h =>
    exact iff_of_false (by omega) fun hpos => absurd (hpos.2 h.1) (by omega)
  · next h =>
    constructor
    · intro hpos
      exact ⟨by omega, fun hb => Nat.not_lt.mp fun hlt => h ⟨hb, hlt⟩⟩
    · intro hpos
      omega

/-- The receiver, branch by branch. -/
theorem recv_eq : ∃ head : Source UInt8,
    head.left = source.left.drop headerSize ∧ head.broken = source.broken ∧
    proto_recv_packet storage source hdr payloadp =
      let hdr' := JeuxPacketHeader.ofBytes (overwrite hdr.bytes (source.left.take headerSize))
      if source.left ≠ [] ∧ (source.broken = true → headerSize ≤ source.left.length) then
        if announced hdr source.left ≠ 0 then
          let body := rio_readn head (announced hdr source.left)
          let block := overwrite ((List.range (announced hdr source.left)).map storage) body.usrbuf
          if body.result ≤ 0 then (⟨-1, hdr', some block⟩, body.source)
          else (⟨0, hdr', some block⟩, body.source)
        else (⟨0, hdr', payloadp⟩, head)
      else (⟨-1, hdr', payloadp⟩, head) := by
  obtain ⟨rest, hread⟩ := rio_readn_eq source headerSize
  have hpos := readn_pos_iff source (show 0 < headerSize by decide)
  refine ⟨⟨source.left.drop headerSize, source.broken, rest⟩, rfl, rfl, ?_⟩
  have hbuf : (rio_readn source headerSize).usrbuf = source.left.take headerSize := by rw [hread]
  have hsource : (rio_readn source headerSize).source =
      ⟨source.left.drop headerSize, source.broken, rest⟩ := by rw [hread]
  unfold proto_recv_packet
  dsimp only
  rw [hbuf, hsource]
  by_cases hhead : (rio_readn source headerSize).result ≤ 0
  · rw [if_pos hhead, if_neg fun hc => hpos.mpr hc hhead]
  · rw [if_neg hhead, if_pos (hpos.mp hhead)]
    show (if announced hdr source.left ≠ 0 then _ else _ : Received × Source UInt8) = _
    by_cases hsize : announced hdr source.left ≠ 0
    · rw [if_pos hsize, if_pos hsize]
      rfl
    · rw [if_neg hsize, if_neg hsize]

theorem recv_status_iff : (proto_recv_packet storage source hdr payloadp).1.status = 0 ↔
    Accepts source hdr := by
  obtain ⟨head, hleft, hbroken, hrecv⟩ := recv_eq storage source hdr payloadp
  rw [hrecv]
  dsimp only
  split
  · next hhead =>
    split
    · next hsize =>
      have hbody := readn_pos_iff head (Nat.pos_of_ne_zero hsize)
      rw [hleft, hbroken] at hbody
      split
      · next hres =>
        refine iff_of_false (show ¬ (-1 : Int) = 0 by decide) fun h => ?_
        exact hbody.mpr (h.body hsize) hres
      · next hres => exact iff_of_true rfl ⟨hhead, fun _ => hbody.mp hres⟩
    · next hsize => exact iff_of_true rfl ⟨hhead, fun h => absurd h hsize⟩
  · next hhead =>
    exact iff_of_false (show ¬ (-1 : Int) = 0 by decide) fun h => hhead h.head

theorem recv_status_cases : (proto_recv_packet storage source hdr payloadp).1.status = 0 ∨
    (proto_recv_packet storage source hdr payloadp).1.status = -1 := by
  unfold proto_recv_packet
  dsimp only
  split
  · exact Or.inr rfl
  · split
    · split
      · exact Or.inr rfl
      · exact Or.inl rfl
    · exact Or.inl rfl

/-- What is left of the stream for the next call. -/
theorem recv_source : ∃ rest, (proto_recv_packet storage source hdr payloadp).2 =
    ⟨source.left.drop (headerSize + announced hdr source.left), source.broken, rest⟩ := by
  obtain ⟨head, hleft, hbroken, hrecv⟩ := recv_eq storage source hdr payloadp
  rw [hrecv]
  dsimp only
  split
  · split
    · obtain ⟨rest, hbody⟩ := rio_readn_eq head (announced hdr source.left)
      have hsource : (rio_readn head (announced hdr source.left)).source =
          ⟨source.left.drop (headerSize + announced hdr source.left), source.broken, rest⟩ := by
        rw [hbody, hleft, hbroken, List.drop_drop]
      split
      · exact ⟨rest, hsource⟩
      · exact ⟨rest, hsource⟩
    · next hsize =>
      rw [not_not.mp hsize, Nat.add_zero, ← hleft, ← hbroken]
      exact ⟨head.attempts, rfl⟩
  · next hhead =>
    have hend : source.left.length ≤ headerSize := by
      by_contra hlong
      refine hhead ⟨?_, fun _ => by omega⟩
      rw [← List.length_pos_iff]
      omega
    rw [List.drop_of_length_le (by omega), ← List.drop_of_length_le hend, ← hleft, ← hbroken]
    exact ⟨head.attempts, rfl⟩

end Receive

/-! ## Round trips -/

/-- A packet as it is sent: `data` may be NULL where nothing follows the header. -/
structure Packet where
  hdr : JeuxPacketHeader
  data : Option (List UInt8)
  fits : (data.getD []).length ≤ 65535
  size_eq : hdr.size = htons (UInt16.ofNat (data.getD []).length)

namespace Packet

def payload (p : Packet) : List UInt8 := p.data.getD []

/-- What the stream carries of it. -/
def wire (p : Packet) : List UInt8 := p.hdr.bytes ++ p.payload

/-- What the receiver should have of it. -/
def received (p : Packet) : Received :=
  ⟨0, p.hdr, if p.payload = [] then none else some p.payload⟩

theorem size_toNat (p : Packet) : (ntohs p.hdr.size).toNat = p.payload.length := by
  have hfits : p.payload.length < 2 ^ 16 := Nat.lt_succ_of_le p.fits
  rw [p.size_eq, ntohs_htons, UInt16.toNat_ofNat']
  exact Nat.mod_eq_of_lt hfits

end Packet

/-- One call after the other, with the results. -/
def proto_sends : Sink UInt8 → List Packet → Option (List Int × Sink UInt8)
  | sink, [] => some ([], sink)
  | sink, p :: ps => (proto_send_packet sink p.hdr p.data).bind fun r =>
      (proto_sends r.2 ps).map fun rs => (r.1 :: rs.1, rs.2)

/-- So many calls, each with a header variable of its own and with a NULL payload pointer. -/
def proto_recvs (storage : Nat → Nat → UInt8) (hdr : Nat → JeuxPacketHeader) :
    Nat → Source UInt8 → List Received
  | 0, _ => []
  | n + 1, source =>
    let r := proto_recv_packet (storage n) source (hdr n) none
    r.1 :: proto_recvs storage hdr n r.2

theorem send_eq (sink : Sink UInt8) (p : Packet) (hroom : sink.room = none) :
    ∃ rest, proto_send_packet sink p.hdr p.data =
      some (0, ⟨sink.written ++ p.wire, none, rest⟩) := by
  obtain ⟨rest, hhead⟩ := rio_writen_eq sink p.hdr.bytes hroom
  unfold proto_send_packet
  dsimp only
  rw [hhead, p.size_toNat]
  dsimp only
  have hlen : ¬ ((p.hdr.bytes.length : Int) = -1) := by omega
  rw [if_neg hlen]
  by_cases hpay : p.payload.length > 0
  · rw [if_pos hpay]
    cases hdata : p.data with
    | none => exact absurd hpay (by rw [Packet.payload, hdata]; exact Nat.not_lt_zero 0)
    | some block =>
      have hblock : p.payload = block := by rw [Packet.payload, hdata, Option.getD_some]
      obtain ⟨rest', hbody⟩ := rio_writen_eq ⟨sink.written ++ p.hdr.bytes, none, rest⟩ block rfl
      have hne : ¬ ((block.length : Int) = -1) := by omega
      dsimp only
      rw [hblock, if_neg (Nat.lt_irrefl _), List.take_length, hbody, if_neg hne]
      exact ⟨rest', by rw [Packet.wire, hblock, List.append_assoc]⟩
  · rw [if_neg hpay]
    have hnil : p.payload = [] := List.length_eq_zero_iff.mp (Nat.eq_zero_of_not_pos hpay)
    exact ⟨rest, by rw [Packet.wire, hnil, List.append_nil]⟩

theorem sends_eq : ∀ (ps : List Packet) (sink : Sink UInt8), sink.room = none →
    ∃ rest, proto_sends sink ps = some (List.replicate ps.length 0,
      ⟨sink.written ++ ps.flatMap Packet.wire, none, rest⟩)
  | [], sink, hroom => ⟨sink.attempts, by rw [proto_sends, ← hroom]; simp⟩
  | p :: ps, sink, hroom => by
    obtain ⟨rest, hsend⟩ := send_eq sink p hroom
    obtain ⟨rest', hsends⟩ := sends_eq ps ⟨sink.written ++ p.wire, none, rest⟩ rfl
    refine ⟨rest', ?_⟩
    rw [proto_sends, hsend, Option.bind_some, hsends, Option.map_some, List.flatMap_cons,
      List.append_assoc]
    rfl

theorem overwrite_of_length {memory bytes : List UInt8} (h : memory.length = bytes.length) :
    overwrite memory bytes = bytes := by
  rw [overwrite, List.drop_of_length_le (Nat.le_of_eq h), List.append_nil]

theorem recv_packet (storage : Nat → UInt8) (hdr : JeuxPacketHeader) (p : Packet)
    {source : Source UInt8} {later : List UInt8} (hleft : source.left = p.wire ++ later) :
    ∃ rest, proto_recv_packet storage source hdr none =
      (p.received, ⟨later, source.broken, rest⟩) := by
  have htake : source.left.take headerSize = p.hdr.bytes := by
    rw [hleft, Packet.wire, List.append_assoc, ← p.hdr.length_bytes, List.take_left]
  have hdrop : source.left.drop headerSize = p.payload ++ later := by
    rw [hleft, Packet.wire, List.append_assoc, ← p.hdr.length_bytes, List.drop_left]
  have hhdr : JeuxPacketHeader.ofBytes (overwrite hdr.bytes (source.left.take headerSize)) =
      p.hdr := by
    rw [htake, overwrite_of_length (by simp), JeuxPacketHeader.ofBytes_bytes]
  have hsize : announced hdr source.left = p.payload.length := by
    rw [announced, hhdr, p.size_toNat]
  have hlong : headerSize ≤ source.left.length := by
    rw [hleft, Packet.wire, List.length_append, List.length_append, p.hdr.length_bytes]
    omega
  obtain ⟨head, hhead, hbroken, hrecv⟩ := recv_eq storage source hdr none
  rw [hrecv]
  dsimp only
  rw [if_pos ⟨List.ne_nil_of_length_pos (Nat.lt_of_lt_of_le (by decide) hlong), fun _ => hlong⟩,
    hhdr, hsize]
  by_cases hpay : p.payload.length ≠ 0
  · obtain ⟨rest, hbody⟩ := rio_readn_eq head p.payload.length
    have hne : p.payload ≠ [] := fun h => hpay (by rw [h]; rfl)
    rw [hhead, hdrop, List.take_left, List.drop_left, hbroken, List.length_append,
      if_neg fun h => absurd h.2 (by omega)] at hbody
    have hpos : ¬ ((min p.payload.length (p.payload.length + later.length) : Nat) : Int) ≤ 0 := by
      omega
    rw [if_pos hpay, hbody]
    dsimp only
    rw [if_neg hpos, overwrite_of_length (by simp)]
    exact ⟨rest, by rw [Packet.received, if_neg hne]⟩
  · have hnil : p.payload = [] := List.length_eq_zero_iff.mp (not_not.mp hpay)
    rw [if_neg hpay, Packet.received, if_pos hnil]
    rw [hdrop, hnil, List.nil_append] at hhead
    exact ⟨head.attempts, by rw [← hhead, ← hbroken]⟩

/-- At the end of the stream nothing is read. -/
theorem recv_end (storage : Nat → UInt8) (hdr : JeuxPacketHeader) {source : Source UInt8}
    (hleft : source.left = []) :
    (proto_recv_packet storage source hdr none).1 = ⟨-1, hdr, none⟩ := by
  obtain ⟨head, -, -, hrecv⟩ := recv_eq storage source hdr none
  rw [hrecv]
  dsimp only
  rw [if_neg fun h => h.1 hleft, hleft, List.take_nil, overwrite, List.length_nil, List.drop_zero,
    List.nil_append, JeuxPacketHeader.ofBytes_bytes]

theorem recvs_eq (storage : Nat → Nat → UInt8) (hdr : Nat → JeuxPacketHeader) :
    ∀ (ps : List Packet) (source : Source UInt8), source.left = ps.flatMap Packet.wire →
      proto_recvs storage hdr (ps.length + 1) source =
        ps.map Packet.received ++ [⟨-1, hdr 0, none⟩]
  | [], source, hleft => by
    show [_] = [_]
    rw [recv_end _ _ hleft]
  | p :: ps, source, hleft => by
    rw [List.flatMap_cons] at hleft
    obtain ⟨rest, hrecv⟩ := recv_packet (storage (ps.length + 1)) (hdr (ps.length + 1)) p hleft
    have hrest := recvs_eq storage hdr ps ⟨ps.flatMap Packet.wire, source.broken, rest⟩ rfl
    rw [List.length_cons, proto_recvs, hrecv, hrest, List.map_cons, List.cons_append]

/-- Packets that are sent over a connection are received, in whatever pieces they are written and
read, and then the end is. -/
theorem recvs_of_sends (packets : List Packet) (writes reads : List Attempt) (broken : Bool)
    (storage : Nat → Nat → UInt8) (hdr : Nat → JeuxPacketHeader) :
    ∃ sink, proto_sends ⟨[], none, writes⟩ packets =
        some (List.replicate packets.length 0, sink) ∧
      proto_recvs storage hdr (packets.length + 1) ⟨sink.written, broken, reads⟩ =
        packets.map Packet.received ++ [⟨-1, hdr 0, none⟩] := by
  obtain ⟨rest, hsends⟩ := sends_eq packets ⟨[], none, writes⟩ rfl
  exact ⟨_, hsends, recvs_eq storage hdr packets _ rfl⟩

/-! ## Streams that end early -/

/-- `JEUX_PACKET_HEADER hdr = {JEUX_NO_PKT}`. -/
def noPacket : JeuxPacketHeader := ⟨0, 0, 0, 0, 0, 0, 0, 0, 0⟩

/-- The payload that the header at the start of the stream announces. -/
def payloadSize (bytes : List UInt8) : Nat :=
  (ntohs (JeuxPacketHeader.ofBytes (bytes.take headerSize)).size).toNat

/-- The stream starts with a header and as much payload as it announces. -/
def Complete (bytes : List UInt8) : Prop :=
  headerSize ≤ bytes.length ∧ headerSize + payloadSize bytes ≤ bytes.length

/-- Nothing but a complete packet is received. -/
def Noticed (source : Source UInt8) (res : Received) : Prop :=
  (res.status = 0 → Complete source.left) ∧ (¬ Complete source.left → res.status = -1)

/-- Where the stream may end so that the receiver sees that it did: not inside the payload, and
inside the header only when what is in the header variable then announces a payload. -/
def SafeEnd (hdr : JeuxPacketHeader) (bytes : List UInt8) : Prop :=
  bytes = [] ∨ bytes.length < headerSize ∧ announced hdr bytes ≠ 0 ∨ bytes.length = headerSize

/-- What the loop of the service thread has in front of it whenever it receives a request that it
dispatches, for at most so many turns. -/
def dispatched (storage : Nat → Nat → UInt8) : Nat → Source UInt8 → List (List UInt8)
  | 0, _ => []
  | n + 1, source =>
    let r := proto_recv_packet (storage n) source noPacket none
    if r.1.status = -1 then [] else source.left :: dispatched storage n r.2

/-- Behind the complete packets the stream ends in a place that is noticed. -/
inductive EndsSafely : List UInt8 → Prop
  | packet {bytes : List UInt8} (h : Complete bytes)
      (hrest : EndsSafely (bytes.drop (headerSize + payloadSize bytes))) : EndsSafely bytes
  | fragment {bytes : List UInt8} (h : ¬ Complete bytes) (hend : SafeEnd noPacket bytes) :
      EndsSafely bytes

theorem announced_of_length {bytes : List UInt8} (hdr : JeuxPacketHeader)
    (h : headerSize ≤ bytes.length) : announced hdr bytes = payloadSize bytes := by
  have hlen : hdr.bytes.length = (bytes.take headerSize).length := by
    rw [hdr.length_bytes, List.length_take_of_le h]
  rw [announced, payloadSize, overwrite_of_length hlen]

theorem accepts_of_complete (source : Source UInt8) (hdr : JeuxPacketHeader)
    (h : Complete source.left) : Accepts source hdr := by
  have hann := announced_of_length hdr h.1
  have hlen : (source.left.drop headerSize).length = source.left.length - headerSize :=
    List.length_drop
  have hhead := h.1
  have hbody := h.2
  refine ⟨⟨List.ne_nil_of_length_pos ?_, fun _ => h.1⟩, fun hsize => ⟨?_, fun _ => ?_⟩⟩
  · exact Nat.lt_of_lt_of_le (by decide) h.1
  · rw [← List.length_pos_iff]
    omega
  · omega

/-- What the receiver accepts although it is no packet. -/
theorem accepts_fragment_iff {source : Source UInt8} {hdr : JeuxPacketHeader}
    (h : ¬ Complete source.left) :
    Accepts source hdr ↔ source.broken = false ∧ ¬ SafeEnd hdr source.left := by
  have hlen : (source.left.drop headerSize).length = source.left.length - headerSize :=
    List.length_drop
  constructor
  · intro ha
    refine ⟨Bool.eq_false_iff.mpr fun hb => h ?_, ?_⟩
    · have hlong := ha.head.2 hb
      rw [Complete, ← announced_of_length hdr hlong]
      refine ⟨hlong, ?_⟩
      by_cases hsize : announced hdr source.left = 0
      · omega
      · have hfits := (ha.body hsize).2 hb
        omega
    · rintro (hnil | ⟨hshort, hsize⟩ | hexact)
      · exact ha.head.1 hnil
      · have hmore := List.length_pos_iff.mpr (ha.body hsize).1
        omega
      · have hsize : announced hdr source.left ≠ 0 := by
          intro h0
          rw [announced_of_length hdr (Nat.le_of_eq hexact.symm)] at h0
          exact h ⟨Nat.le_of_eq hexact.symm, by omega⟩
        have hmore := List.length_pos_iff.mpr (ha.body hsize).1
        omega
  · rintro ⟨hb, hend⟩
    have hunbroken : ∀ {P : Prop}, source.broken = true → P := fun ht =>
      absurd (hb.symm.trans ht) Bool.false_ne_true
    refine ⟨⟨fun hnil => hend (Or.inl hnil), hunbroken⟩, fun hsize => ⟨fun hnil => ?_, hunbroken⟩⟩
    rw [← List.length_eq_zero_iff] at hnil
    rcases Nat.lt_or_ge source.left.length headerSize with hshort | hlong
    · exact hend (Or.inr (Or.inl ⟨hshort, hsize⟩))
    · exact hend (Or.inr (Or.inr (by omega)))

/-- A call notices an early end exactly where the end is safe. -/
theorem recv_noticed_iff (storage : Nat → UInt8) (source : Source UInt8) (hdr : JeuxPacketHeader)
    (payloadp : Option (List UInt8)) :
    Noticed source (proto_recv_packet storage source hdr payloadp).1 ↔
      Complete source.left ∨ source.broken = true ∨ SafeEnd hdr source.left := by
  have hstatus := recv_status_iff storage source hdr payloadp
  by_cases hc : Complete source.left
  · exact iff_of_true ⟨fun _ => hc, fun hn => absurd hc hn⟩ (Or.inl hc)
  · have hfragment := hstatus.trans (accepts_fragment_iff hc)
    have hnoticed : Noticed source (proto_recv_packet storage source hdr payloadp).1 ↔
        ¬ (proto_recv_packet storage source hdr payloadp).1.status = 0 :=
      ⟨fun h h0 => hc (h.1 h0), fun h => ⟨fun h0 => absurd h0 h,
        fun _ => (recv_status_cases storage source hdr payloadp).resolve_left h⟩⟩
    rw [hnoticed, hfragment, not_and_or, Bool.not_eq_false, not_not, or_iff_right hc]

section Loop

variable (storage : Nat → Nat → UInt8) {broken : Bool} {bytes : List UInt8}

theorem dispatched_accepted (n : Nat) {rest : List Attempt}
    (h : Accepts ⟨bytes, broken, rest⟩ noPacket) : ∃ rest',
      dispatched storage (n + 1) ⟨bytes, broken, rest⟩ = bytes :: dispatched storage n
        ⟨bytes.drop (headerSize + announced noPacket bytes), broken, rest'⟩ := by
  obtain ⟨rest', hsource⟩ := recv_source (storage n) ⟨bytes, broken, rest⟩ noPacket none
  have hstatus := (recv_status_iff (storage n) _ _ none).mpr h
  refine ⟨rest', ?_⟩
  rw [dispatched, hstatus, if_neg (by decide), hsource]

theorem dispatched_refused (n : Nat) {rest : List Attempt}
    (h : ¬ Accepts ⟨bytes, broken, rest⟩ noPacket) :
    dispatched storage (n + 1) ⟨bytes, broken, rest⟩ = [] := by
  have hstatus := (recv_status_cases (storage n) _ _ none).resolve_left
    (mt (recv_status_iff (storage n) _ _ none).mp h)
  rw [dispatched, if_pos hstatus]

/-- The induction is on the number of turns of the loop. -/
theorem dispatched_complete : ∀ (n : Nat) {bytes : List UInt8} {rest : List Attempt},
    broken = true ∨ EndsSafely bytes →
      ∀ b ∈ dispatched storage n ⟨bytes, broken, rest⟩, Complete b
  | 0, _, _, _, _, hb => absurd hb List.not_mem_nil
  | n + 1, bytes, rest, h, b, hb => by
    by_cases ha : Accepts ⟨bytes, broken, rest⟩ noPacket
    · have hc : Complete bytes := by
        by_contra hc
        obtain ⟨hbroken, hend⟩ := (accepts_fragment_iff hc).mp ha
        rcases h with hb' | hsafe
        · cases hb'.symm.trans hbroken
        · cases hsafe with
          | packet hc' _ => exact hc hc'
          | fragment _ hsafe => exact hend hsafe
      have hrest : broken = true ∨
          EndsSafely (bytes.drop (headerSize + announced noPacket bytes)) := by
        refine h.imp_right fun hsafe => ?_
        cases hsafe with
        | packet _ hrest => rwa [announced_of_length noPacket hc.1]
        | fragment hc' _ => exact absurd hc hc'
      obtain ⟨rest', heq⟩ := dispatched_accepted storage n ha
      rw [heq] at hb
      rcases List.mem_cons.mp hb with rfl | hb
      · exact hc
      · exact dispatched_complete n hrest b hb
    · rw [dispatched_refused storage n ha] at hb
      exact absurd hb List.not_mem_nil

/-- A fragment at an unsafe end is dispatched after the packets before it. The induction is on
the length of the stream. -/
theorem exists_dispatched (hbroken : broken = false) (hends : ¬ EndsSafely bytes) :
    ∃ n, ∀ rest : List Attempt, ∃ b ∈ dispatched storage n ⟨bytes, broken, rest⟩,
      ¬ Complete b := by
  induction hlen : bytes.length using Nat.strongRecOn generalizing bytes with
  | ind len ih =>
    by_cases hc : Complete bytes
    · have hdrop : (bytes.drop (headerSize + announced noPacket bytes)).length < len := by
        have hpos : 0 < headerSize := by decide
        have hlong := hc.1
        rw [List.length_drop]
        omega
      have hrest : ¬ EndsSafely (bytes.drop (headerSize + announced noPacket bytes)) := by
        rw [announced_of_length noPacket hc.1]
        exact fun h => hends (.packet hc h)
      obtain ⟨n, hn⟩ := ih _ hdrop hrest rfl
      refine ⟨n + 1, fun rest => ?_⟩
      obtain ⟨rest', heq⟩ := dispatched_accepted storage n
        (accepts_of_complete ⟨bytes, broken, rest⟩ noPacket hc)
      obtain ⟨b, hb, hfragment⟩ := hn rest'
      exact ⟨b, heq ▸ List.mem_cons_of_mem _ hb, hfragment⟩
    · refine ⟨1, fun rest => ⟨bytes, ?_, hc⟩⟩
      have ha : Accepts ⟨bytes, broken, rest⟩ noPacket :=
        (accepts_fragment_iff hc).mpr ⟨hbroken, fun hend => hends (.fragment hc hend)⟩
      obtain ⟨rest', heq⟩ := dispatched_accepted storage 0 ha
      rw [heq]
      exact List.mem_cons_self

end Loop

/-- The loop of the service thread dispatches nothing but complete packets exactly when the
stream ends safely. -/
theorem dispatched_complete_iff (storage : Nat → Nat → UInt8) (source : Source UInt8) :
    (∀ n, ∀ bytes ∈ dispatched storage n source, Complete bytes) ↔
      source.broken = true ∨ EndsSafely source.left := by
  obtain ⟨bytes, broken, rest⟩ := source
  constructor
  · intro h
    by_contra hneither
    obtain ⟨hbroken, hends⟩ := not_or.mp hneither
    obtain ⟨n, hn⟩ := exists_dispatched storage (Bool.not_eq_true _ ▸ hbroken) hends
    obtain ⟨b, hb, hfragment⟩ := hn rest
    exact hfragment (h n b hb)
  · exact fun h n => dispatched_complete storage n h

/-- Early ends are noticed, by a call and by the loop, exactly where they are safe. -/
theorem recv_whole_iff (source : Source UInt8) :
    (∀ storage hdr payloadp,
      Noticed source (proto_recv_packet storage source hdr payloadp).1 ↔
        Complete source.left ∨ source.broken = true ∨ SafeEnd hdr source.left) ∧
    ∀ storage, (∀ n, ∀ bytes ∈ dispatched storage n source, Complete bytes) ↔
      source.broken = true ∨ EndsSafely source.left :=
  ⟨fun storage hdr payloadp => recv_noticed_iff storage source hdr payloadp,
    fun storage => dispatched_complete_iff storage source⟩

/-- The connection is closed after one byte. -/
theorem fragment_received : ¬ Noticed ⟨[1], false, []⟩
    (proto_recv_packet (fun _ => 0) ⟨[1], false, []⟩ noPacket none).1 := by
  have hshort : ¬ Complete [1] := fun h => absurd h.1 (by decide)
  rw [recv_noticed_iff]
  rintro (hc | hb | hnil | ⟨-, hsize⟩ | hexact)
  · exact hshort hc
  · cases hb
  · cases hnil
  · exact hsize (by decide)
  · cases hexact

end StarterProjects.Jeux.Protocol
