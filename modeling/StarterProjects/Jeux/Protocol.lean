import Mathlib.Algebra.Group.Nat.Defs
import StarterProjects.Lib.Transfer

/-!
# Packets on the wire

`proto_send_packet` and `proto_recv_packet` of `protocol.c`, over the robust transfers of
`csapp.c`. A header travels as the 16 bytes that it has in memory, padding included, where the
host has the low byte of a number first. Both sides take the length of the payload from the
`size` field; where it is 0 nothing follows and the pointer to the payload is left alone.

`rio_readn` counts what it read: a stream that ends early gives a short count.
-/

namespace StarterProjects.Jeux.Protocol

open Lib

/-! ## The header -/

/-- `JEUX_PACKET_HEADER`; `pad3`, `pad6` and `pad7` are the bytes between its fields. -/
structure JeuxPacketHeader where
  type : UInt8
  id : UInt8
  role : UInt8
  pad3 : UInt8
  size : UInt16
  pad6 : UInt8
  pad7 : UInt8
  timestamp_sec : UInt32
  timestamp_nsec : UInt32
deriving DecidableEq

/-- `sizeof(JEUX_PACKET_HEADER)`. -/
def headerSize : Nat := 16

/-- The bytes of a number, the low one first. -/
def bytesOf : Nat → Nat → List UInt8
  | 0, _ => []
  | width + 1, n => UInt8.ofNat n :: bytesOf width (n / 256)

def valueOf : List UInt8 → Nat
  | [] => 0
  | b :: bs => b.toNat + 256 * valueOf bs

/-- The value of `width` bytes from `offset` on. -/
def fieldAt (bytes : List UInt8) (offset width : Nat) : Nat :=
  valueOf ((bytes.drop offset).take width)

namespace JeuxPacketHeader

def bytes (hdr : JeuxPacketHeader) : List UInt8 :=
  [hdr.type, hdr.id, hdr.role, hdr.pad3] ++ bytesOf 2 hdr.size.toNat ++ [hdr.pad6, hdr.pad7] ++
    bytesOf 4 hdr.timestamp_sec.toNat ++ bytesOf 4 hdr.timestamp_nsec.toNat

def ofBytes (bytes : List UInt8) : JeuxPacketHeader where
  type := UInt8.ofNat (fieldAt bytes 0 1)
  id := UInt8.ofNat (fieldAt bytes 1 1)
  role := UInt8.ofNat (fieldAt bytes 2 1)
  pad3 := UInt8.ofNat (fieldAt bytes 3 1)
  size := UInt16.ofNat (fieldAt bytes 4 2)
  pad6 := UInt8.ofNat (fieldAt bytes 6 1)
  pad7 := UInt8.ofNat (fieldAt bytes 7 1)
  timestamp_sec := UInt32.ofNat (fieldAt bytes 8 4)
  timestamp_nsec := UInt32.ofNat (fieldAt bytes 12 4)

end JeuxPacketHeader

/-- The two bytes change places. -/
def ntohs (netshort : UInt16) : UInt16 :=
  UInt16.ofNat (netshort.toNat % 256 * 256 + netshort.toNat / 256)

def htons (hostshort : UInt16) : UInt16 :=
  UInt16.ofNat (hostshort.toNat % 256 * 256 + hostshort.toNat / 256)

/-! ## Robust transfers -/

structure Readn where
  result : Int
  usrbuf : List UInt8
  source : Source UInt8

/-- The loop of `rio_readn`; `usrbuf` is what it has stored. -/
def readnLoop (n : Nat) (source : Source UInt8) (nleft : Nat) (usrbuf : List UInt8) : Readn :=
  if _hn : nleft = 0 then ⟨n - nleft, usrbuf, source⟩
  else
    match hread : (source.read nleft).1 with
    | .interrupted => readnLoop n (source.read nleft).2 nleft usrbuf
    | .failed => ⟨-1, usrbuf, (source.read nleft).2⟩
    | .moved nread =>
      if _hend : nread = [] then ⟨n - nleft, usrbuf, (source.read nleft).2⟩
      else readnLoop n (source.read nleft).2 (nleft - nread.length) (usrbuf ++ nread)
termination_by source.attempts.length + nleft
decreasing_by
  · have hreads := source.reads_read (Nat.pos_of_ne_zero _hn)
    generalize source.read nleft = r at hreads hread
    cases hreads with
    | interrupted hrest => exact Nat.add_lt_add_right hrest _
    | failed _ _ => cases hread
    | moved _ _ _ _ => cases hread
  · have hlen := List.length_pos_iff.mpr _hend
    have hreads := source.reads_read (Nat.pos_of_ne_zero _hn)
    generalize source.read nleft = r at hreads hread
    cases hreads with
    | interrupted hrest => cases hread
    | failed _ _ => cases hread
    | moved _ _ hrest _ =>
      dsimp only
      omega

def rio_readn (source : Source UInt8) (n : Nat) : Readn := readnLoop n source n []

/-- `rio_writen`; the result is -1 or the number of items. -/
def writenLoop (n : Nat) (sink : Sink UInt8) (bufp : List UInt8) : Int × Sink UInt8 :=
  if _hn : bufp = [] then (n, sink)
  else
    match hwrite : (sink.write bufp).1 with
    | .interrupted => writenLoop n (sink.write bufp).2 bufp
    | .failed => (-1, (sink.write bufp).2)
    | .moved nwritten => writenLoop n (sink.write bufp).2 (bufp.drop nwritten)
termination_by sink.attempts.length + bufp.length
decreasing_by
  · have hwrites := sink.writes_write _hn
    generalize sink.write bufp = r at hwrites hwrite
    cases hwrites with
    | interrupted hrest => exact Nat.add_lt_add_right hrest _
    | failed _ => cases hwrite
    | moved _ _ _ => cases hwrite
  · have hwrites := sink.writes_write _hn
    generalize sink.write bufp = r at hwrites hwrite
    cases hwrites with
    | interrupted hrest => cases hwrite
    | failed _ => cases hwrite
    | moved hpos _ hrest =>
      cases hwrite
      rw [List.length_drop]
      dsimp only
      omega

def rio_writen (sink : Sink UInt8) (usrbuf : List UInt8) : Int × Sink UInt8 :=
  writenLoop usrbuf.length sink usrbuf

/-! ## Packets -/

/-- What is behind the pointer that is sent, if it is read at all; `none` is undefined: the
payload is longer than the memory behind the pointer. -/
def proto_send_packet (sink : Sink UInt8) (hdr : JeuxPacketHeader) (data : Option (List UInt8)) :
    Option (Int × Sink UInt8) :=
  let payloadSize := (ntohs hdr.size).toNat
  let head := rio_writen sink hdr.bytes
  if head.1 = -1 then some (-1, head.2)
  else if payloadSize > 0 then
    match data with
    | none => none
    | some block =>
      if block.length < payloadSize then none
      else
        let body := rio_writen head.2 (block.take payloadSize)
        if body.1 = -1 then some (-1, body.2) else some (0, body.2)
  else some (0, head.2)

/-- Memory after the first bytes of it were written. -/
def overwrite (memory bytes : List UInt8) : List UInt8 := bytes ++ memory.drop bytes.length

structure Received where
  status : Int
  hdr : JeuxPacketHeader
  payloadp : Option (List UInt8)
deriving DecidableEq

/-- `storage` is what `malloc` finds in the new memory. -/
def proto_recv_packet (storage : Nat → UInt8) (source : Source UInt8) (hdr : JeuxPacketHeader)
    (payloadp : Option (List UInt8)) : Received × Source UInt8 :=
  let head := rio_readn source headerSize
  let hdr := JeuxPacketHeader.ofBytes (overwrite hdr.bytes head.usrbuf)
  if head.result ≤ 0 then (⟨-1, hdr, payloadp⟩, head.source)
  else
    let payLoadSize := (ntohs hdr.size).toNat
    if payLoadSize ≠ 0 then
      let body := rio_readn head.source payLoadSize
      let block := overwrite ((List.range payLoadSize).map storage) body.usrbuf
      if body.result ≤ 0 then (⟨-1, hdr, some block⟩, body.source)
      else (⟨0, hdr, some block⟩, body.source)
    else (⟨0, hdr, payloadp⟩, head.source)

/-! ## The header in memory -/

@[simp] theorem length_bytesOf (width n : Nat) : (bytesOf width n).length = width := by
  induction width generalizing n with
  | zero => rfl
  | succ width ih => rw [bytesOf, List.length_cons, ih]

theorem valueOf_bytesOf (width n : Nat) : valueOf (bytesOf width n) = n % 256 ^ width := by
  induction width generalizing n with
  | zero => rw [bytesOf, valueOf, Nat.pow_zero, Nat.mod_one]
  | succ width ih =>
    have hpow : 256 ^ (width + 1) = 256 * 256 ^ width := Nat.pow_succ'
    rw [bytesOf, valueOf, ih, UInt8.toNat_ofNat', hpow, Nat.mod_mul]

@[simp] theorem JeuxPacketHeader.length_bytes (hdr : JeuxPacketHeader) :
    hdr.bytes.length = headerSize := by
  simp [bytes, headerSize]

/-- The header is read as it was written. -/
theorem JeuxPacketHeader.ofBytes_bytes (hdr : JeuxPacketHeader) : ofBytes hdr.bytes = hdr := by
  have byte : ∀ b : UInt8, UInt8.ofNat (valueOf [b]) = b := fun b => UInt8.ofNat_toNat
  have hsize : fieldAt hdr.bytes 4 2 = hdr.size.toNat :=
    (valueOf_bytesOf 2 _).trans (Nat.mod_eq_of_lt hdr.size.toNat_lt)
  have hsec : fieldAt hdr.bytes 8 4 = hdr.timestamp_sec.toNat :=
    (valueOf_bytesOf 4 _).trans (Nat.mod_eq_of_lt hdr.timestamp_sec.toNat_lt)
  have hnsec : fieldAt hdr.bytes 12 4 = hdr.timestamp_nsec.toNat :=
    (valueOf_bytesOf 4 _).trans (Nat.mod_eq_of_lt hdr.timestamp_nsec.toNat_lt)
  rw [ofBytes, hsize, hsec, hnsec, UInt16.ofNat_toNat, UInt32.ofNat_toNat, UInt32.ofNat_toNat]
  cases hdr
  simp only [bytes, fieldAt, bytesOf, List.cons_append, List.nil_append, List.drop_succ_cons,
    List.drop_zero, List.take_succ_cons, List.take_zero, byte]

theorem ntohs_htons (x : UInt16) : ntohs (htons x) = x := by
  have hx := x.toNat_lt
  have hswap : x.toNat % 256 * 256 + x.toNat / 256 < 2 ^ 16 := by omega
  apply UInt16.toNat_inj.mp
  have hlow : (x.toNat % 256 * 256 + x.toNat / 256) % 256 = x.toNat / 256 := by omega
  have hhigh : (x.toNat % 256 * 256 + x.toNat / 256) / 256 = x.toNat % 256 := by omega
  rw [ntohs, htons, UInt16.toNat_ofNat', UInt16.toNat_ofNat', Nat.mod_eq_of_lt hswap, hlow, hhigh,
    Nat.div_add_mod', Nat.mod_eq_of_lt hx]

/-! ## What the transfers do -/

/-- After a read of `m` bytes the rest of the loop reads what is missing. -/
theorem readn_rest {left : List UInt8} {nleft m : Nat} (hle : m ≤ nleft) (hm : m ≤ left.length) :
    ((left.drop m).length < nleft - m ↔ left.length < nleft) ∧
      nleft - m - (left.drop m).length = nleft - left.length ∧
      left.take m ++ (left.drop m).take (nleft - m) = left.take nleft ∧
      (left.drop m).drop (nleft - m) = left.drop nleft := by
  have hsum : m + (nleft - m) = nleft := Nat.add_sub_cancel' hle
  rw [List.length_drop, ← List.take_add, List.drop_drop, hsum]
  refine ⟨?_, ?_, rfl, rfl⟩ <;> omega

/-- The stream may come in any pieces: what is read is what it starts with. -/
theorem readnLoop_eq (n : Nat) (source : Source UInt8) (nleft : Nat) (usrbuf : List UInt8) :
    ∃ rest, readnLoop n source nleft usrbuf =
      ⟨if source.broken = true ∧ source.left.length < nleft then -1
        else n - (nleft - source.left.length : Nat), usrbuf ++ source.left.take nleft,
        ⟨source.left.drop nleft, source.broken, rest⟩⟩ := by
  induction source, nleft, usrbuf using readnLoop.induct with
  | case1 source usrbuf =>
    rw [readnLoop, dif_pos rfl]
    exact ⟨source.attempts, by simp⟩
  | case2 source nleft usrbuf hn hread ih =>
    -- interrupted by a signal: read again
    obtain ⟨rest, hsource⟩ := (source.reads_read (Nat.pos_of_ne_zero hn)).of_interrupted hread
    rw [readnLoop, dif_neg hn, hread]
    dsimp only
    rw [hsource] at ih ⊢
    exact ih
  | case3 source nleft usrbuf hn hread =>
    -- an error comes when there is nothing left to read
    obtain ⟨hleft, hbroken, rest, hsource⟩ :=
      (source.reads_read (Nat.pos_of_ne_zero hn)).of_failed hread
    rw [readnLoop, dif_neg hn, hread]
    dsimp only
    rw [hsource]
    exact ⟨rest, by simp [hleft, hbroken, Nat.pos_of_ne_zero hn]⟩
  | case4 source nleft usrbuf hn hread =>
    -- end of file
    obtain ⟨hend, m, rest, hpos, -, hitems, hsource⟩ :=
      (source.reads_read (Nat.pos_of_ne_zero hn)).of_moved hread
    have hleft : source.left = [] := by simpa [Nat.ne_of_gt hpos] using hitems.symm
    rw [readnLoop, dif_neg hn, hread]
    dsimp only
    rw [dif_pos rfl, hsource]
    exact ⟨rest, by simp [hleft, hend hleft]⟩
  | case5 source nleft usrbuf hn nread hread hend ih =>
    obtain ⟨-, m, rest, hpos, hle, rfl, hsource⟩ :=
      (source.reads_read (Nat.pos_of_ne_zero hn)).of_moved hread
    rw [readnLoop, dif_neg hn, hread]
    dsimp only
    rw [dif_neg hend]
    rw [hsource] at ih ⊢
    obtain ⟨rest', hloop⟩ := ih
    refine ⟨rest', hloop.trans ?_⟩
    dsimp only
    rcases Nat.le_total m source.left.length with hm | hm
    · obtain ⟨hshort, hcount, htake, hdrop⟩ := readn_rest hle hm
      rw [List.length_take_of_le hm, List.append_assoc, htake, hdrop, hcount]
      simp only [hshort]
    · rw [List.take_of_length_le hm, List.drop_of_length_le hm,
        List.take_of_length_le (Nat.le_trans hm hle), List.drop_of_length_le (Nat.le_trans hm hle)]
      simp only [List.length_nil, Nat.sub_pos_iff_lt, Nat.sub_zero, List.take_nil, List.append_nil,
        List.drop_nil]

theorem rio_readn_eq (source : Source UInt8) (n : Nat) : ∃ rest, rio_readn source n =
    ⟨if source.broken = true ∧ source.left.length < n then -1 else (min n source.left.length : Nat),
      source.left.take n, ⟨source.left.drop n, source.broken, rest⟩⟩ := by
  obtain ⟨rest, h⟩ := readnLoop_eq n source n []
  have hcount : (n : Int) - (n - source.left.length : Nat) = (min n source.left.length : Nat) := by
    omega
  rw [hcount] at h
  exact ⟨rest, h⟩

theorem writenLoop_eq (n : Nat) (sink : Sink UInt8) (bufp : List UInt8) (hroom : sink.room = none) :
    ∃ rest, writenLoop n sink bufp = ((n : Int), ⟨sink.written ++ bufp, none, rest⟩) := by
  induction sink, bufp using writenLoop.induct with
  | case1 sink =>
    rw [writenLoop, dif_pos rfl]
    exact ⟨sink.attempts, by rw [List.append_nil, ← hroom]⟩
  | case2 sink bufp hne hwrite ih =>
    obtain ⟨rest, hsink⟩ := (sink.writes_write hne).of_interrupted hwrite
    rw [writenLoop, dif_neg hne, hwrite]
    dsimp only
    rw [hsink] at ih ⊢
    exact ih hroom
  | case3 sink bufp hne hwrite =>
    have hfull := (sink.writes_write hne).of_failed hwrite
    cases hroom.symm.trans hfull
  | case4 sink bufp hne nwritten hwrite ih =>
    obtain ⟨-, -, rest, hsink⟩ := (sink.writes_write hne).of_moved hwrite
    rw [writenLoop, dif_neg hne, hwrite]
    dsimp only
    rw [hsink] at ih ⊢
    obtain ⟨rest', h⟩ := ih (by rw [hroom]; rfl)
    refine ⟨rest', h.trans ?_⟩
    rw [List.append_assoc, List.take_append_drop]

/-- A connection that does not break takes everything. -/
theorem rio_writen_eq (sink : Sink UInt8) (usrbuf : List UInt8) (hroom : sink.room = none) :
    ∃ rest, rio_writen sink usrbuf =
      ((usrbuf.length : Int), ⟨sink.written ++ usrbuf, none, rest⟩) :=
  writenLoop_eq _ _ _ hroom

end StarterProjects.Jeux.Protocol
