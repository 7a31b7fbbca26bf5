/-
# The perf ring reader

The kernel writes records one behind the other into the data pages and moves
`data_head`; the reader parses a header, hands out the body in one slice or two, and
moves `data_tail`. A header or a body may lie across the end of the data at any byte.
-/

import Dial9.Lib.Circular
import Dial9.Lib.Machine
import Dial9.Lib.Run
import Dial9.Lib.Words

namespace Dial9.SelfProfile.Perf

open Lib (Bytes ByteOrder Turn)
open Lib.Machine (Log collect)
open Lib.Circular (Holds holds_append holds_mod)

/-! ## Records -/

/-- `perf_event_header` -/
structure PerfEventHeader where
  type : UInt32
  misc : UInt16
  size : UInt16
  deriving DecidableEq

namespace PerfEventHeader

/-- `size_of::<perf_event_header>()` -/
def width : Nat := 8

/-- The header as it lies in memory. -/
def bytes (order : ByteOrder) (h : PerfEventHeader) : Bytes :=
  order.bytes 4 h.type.toNat ++ (order.bytes 2 h.misc.toNat ++ order.bytes 2 h.size.toNat)

/-- `ptr::read_unaligned` -/
def read (order : ByteOrder) (bs : Bytes) : PerfEventHeader where
  type := UInt32.ofNat (order.nat (bs.take 4))
  misc := UInt16.ofNat (order.nat ((bs.drop 4).take 2))
  size := UInt16.ofNat (order.nat ((bs.drop 6).take 2))

variable {order : ByteOrder}

@[simp] theorem length_bytes (h : PerfEventHeader) : (h.bytes order).length = width := by
  simp [bytes, width]

theorem read_bytes (h : PerfEventHeader) : read order (h.bytes order) = h := by
  have htype : (h.bytes order).take 4 = order.bytes 4 h.type.toNat :=
    List.take_left' (ByteOrder.bytes_length ..)
  have hrest : (h.bytes order).drop 4 = order.bytes 2 h.misc.toNat ++ order.bytes 2 h.size.toNat :=
    List.drop_left' (ByteOrder.bytes_length ..)
  have hmisc : ((h.bytes order).drop 4).take 2 = order.bytes 2 h.misc.toNat := by
    rw [hrest, List.take_left' (ByteOrder.bytes_length ..)]
  have hsize : ((h.bytes order).drop 6).take 2 = order.bytes 2 h.size.toNat := by
    rw [← List.drop_drop (i := 2) (j := 4), hrest, List.drop_left' (ByteOrder.bytes_length ..),
      List.take_of_length_le (ByteOrder.bytes_length ..).le]
  have h4 : h.type.toNat % 256 ^ 4 = h.type.toNat := Nat.mod_eq_of_lt h.type.toNat_lt
  have h2 : h.misc.toNat % 256 ^ 2 = h.misc.toNat := Nat.mod_eq_of_lt h.misc.toNat_lt
  have h2' : h.size.toNat % 256 ^ 2 = h.size.toNat := Nat.mod_eq_of_lt h.size.toNat_lt
  rw [read, htype, hmisc, hsize, ByteOrder.nat_bytes, ByteOrder.nat_bytes, ByteOrder.nat_bytes, h4,
    h2, h2', UInt32.ofNat_toNat, UInt16.ofNat_toNat, UInt16.ofNat_toNat]

end PerfEventHeader

/-- A record that the kernel writes. The size in the header counts the header. -/
structure PerfRecord where
  header : PerfEventHeader
  body : Bytes
  size_eq : header.size.toNat = PerfEventHeader.width + body.length

namespace PerfRecord

def bytes (order : ByteOrder) (r : PerfRecord) : Bytes := r.header.bytes order ++ r.body

theorem length_bytes (order : ByteOrder) (r : PerfRecord) :
    (r.bytes order).length = r.header.size.toNat := by
  rw [bytes, List.length_append, PerfEventHeader.length_bytes, r.size_eq]

end PerfRecord

/-- The bytes of the records, one behind the other. -/
def written (order : ByteOrder) (records : List PerfRecord) : Bytes :=
  records.flatMap (PerfRecord.bytes order)

/-- The body of a record, which may be contiguous or split across the ring buffer wrap point. -/
inductive RecordBody where
  | contiguous (slice : Bytes)
  | split (first second : Bytes)
  deriving DecidableEq

def RecordBody.bytes : RecordBody → Bytes
  | contiguous slice => slice
  | split first second => first ++ second

/-- A raw record read from the ring buffer, before parsing. -/
structure RawRecord where
  header : PerfEventHeader
  body : RecordBody
  deriving DecidableEq

/-! ## The reader -/

/-- A mapped perf ring buffer: the data pages, the cursors of the metadata page and the reader's
own, which the kernel is always told of. -/
structure RingBuffer where
  data : Bytes
  dataHead : UInt64
  dataTail : UInt64
  position : UInt64
  told : dataTail = position

/-- How the loop ends: nothing is left to read, or an index or a subtraction was out of range. -/
inductive Stop where
  | drained
  | panicked
  deriving DecidableEq

namespace RingBuffer

/-- Over a fresh mapping, where both cursors are at zero. -/
def new (data : Bytes) : RingBuffer := ⟨data, 0, 0, 0, rfl⟩

/-- The record size is added to the position, and the kernel is told. -/
def advance (rb : RingBuffer) (recordSize : UInt16) : RingBuffer where
  data := rb.data
  dataHead := rb.dataHead
  dataTail := rb.position + recordSize.toUInt64
  position := rb.position + recordSize.toUInt64
  told := rfl

/-- The header at an index of the data, read byte by byte where it passes the end. -/
def headerAt (order : ByteOrder) (data : Bytes) (pos : Nat) : PerfEventHeader :=
  if pos + PerfEventHeader.width ≤ data.length then
    .read order ((data.drop pos).take PerfEventHeader.width)
  else
    .read order (List.ofFn fun i : Fin PerfEventHeader.width =>
      data.getD ((pos + i) % data.length) 0)

/-- The body in one slice, or in two if it passes the end. -/
def bodyAt (data : Bytes) (bodyStart bodySize : Nat) : Option RecordBody :=
  if bodyStart + bodySize ≤ data.length then
    some (.contiguous ((data.drop bodyStart).take bodySize))
  else if bodySize - (data.length - bodyStart) ≤ data.length then
    some (.split (data.drop bodyStart) (data.take (bodySize - (data.length - bodyStart))))
  else none

/-- One turn of `for_each_record`. -/
def turn (order : ByteOrder) (rb : RingBuffer) : Turn RingBuffer RawRecord Stop :=
  if rb.dataHead = rb.position then .halt .drained rb
  else if rb.data.length = 0 then .halt .panicked rb
  else
    let pos := rb.position.toNat % rb.data.length
    let header := headerAt order rb.data pos
    if header.size.toNat < PerfEventHeader.width then .halt .panicked rb
    else
      match bodyAt rb.data ((pos + PerfEventHeader.width) % rb.data.length)
          (header.size.toNat - PerfEventHeader.width) with
      | none => .halt .panicked rb
      | some body => .emit ⟨header, body⟩ (rb.advance header.size)

/-- The calls back, each with the buffer that it leaves, and how the loop ends. -/
def forEachRecord (order : ByteOrder) (fuel : Nat) (rb : RingBuffer) :
    Log RingBuffer RawRecord × Option (Stop × RingBuffer) :=
  collect (turn order) fuel rb

/-- What a call back is given. -/
def given (call : RawRecord × RingBuffer) : PerfEventHeader × Bytes :=
  (call.1.header, call.1.body.bytes)

end RingBuffer

/-! ## What was published -/

/-- The sum of the sizes of the records. -/
def totalSize (records : List PerfRecord) : Nat := (records.map fun r => r.header.size.toNat).sum

/-- The records that the kernel has published and the reader has not read: they lie from the
position on, the head is behind them, and they go round the data at most once. -/
structure Published (order : ByteOrder) (rb : RingBuffer) (records : List PerfRecord) : Prop where
  head : rb.dataHead.toNat = rb.position.toNat + totalSize records
  room : totalSize records ≤ rb.data.length
  held : Holds rb.data rb.position.toNat (written order records)

variable {order : ByteOrder} {rb : RingBuffer} {r : PerfRecord} {records : List PerfRecord}

namespace RingBuffer

theorem headerAt_eq {data : Bytes} {pos : Nat} {h : PerfEventHeader}
    (hheld : Holds data pos (h.bytes order)) : headerAt order data (pos % data.length) = h := by
  have hheld := holds_mod.mpr hheld
  have hlength : (h.bytes order).length = PerfEventHeader.width := PerfEventHeader.length_bytes h
  rw [headerAt]
  split
  case isTrue hfits =>
      rw [← hlength, hheld.eq_slice (by rw [hlength]; exact hfits), PerfEventHeader.read_bytes]
  case isFalse => rw [hheld.eq_ofFn hlength, PerfEventHeader.read_bytes]

theorem bodyAt_eq {data body : Bytes} {pos : Nat} (hheld : Holds data pos body)
    (hpos : 0 < data.length) (hsize : body.length ≤ data.length) :
    ∃ slices, bodyAt data (pos % data.length) body.length = some slices ∧ slices.bytes = body := by
  have hheld := holds_mod.mpr hheld
  have hlt : pos % data.length < data.length := Nat.mod_lt _ hpos
  by_cases hfits : pos % data.length + body.length ≤ data.length
  · exact ⟨_, if_pos hfits, hheld.eq_slice hfits⟩
  · have hsecond : body.length - (data.length - pos % data.length) ≤ data.length := by omega
    exact ⟨_, (if_neg hfits).trans (if_pos hsecond),
      hheld.eq_slices hlt.le (Nat.le_of_not_le hfits) hsize⟩

theorem turn_published (h : Published order rb (r :: records)) :
    ∃ slices, turn order rb = .emit ⟨r.header, slices⟩ (rb.advance r.header.size) ∧
      slices.bytes = r.body ∧ Published order (rb.advance r.header.size) records := by
  obtain ⟨hhead, hroom, hheld⟩ := h
  have htotal : totalSize (r :: records) = r.header.size.toNat + totalSize records := by
    simp [totalSize]
  have hsize := r.size_eq
  have hheadLt := rb.dataHead.toNat_lt
  rw [htotal] at hhead hroom
  obtain ⟨hrecord, hrest⟩ := holds_append.mp hheld
  obtain ⟨hheader, hbody⟩ := holds_append.mp hrecord
  rw [PerfRecord.length_bytes] at hrest
  rw [PerfEventHeader.length_bytes] at hbody
  have hwidth : PerfEventHeader.width = 8 := rfl
  obtain ⟨slices, hslices, hbytes⟩ := bodyAt_eq hbody (by omega) (by omega)
  have hunread : rb.dataHead ≠ rb.position := by
    intro heq
    rw [heq] at hhead
    omega
  have hposition : (rb.position + r.header.size.toUInt64).toNat =
      rb.position.toNat + r.header.size.toNat := by
    rw [UInt64.toNat_add, UInt16.toNat_toUInt64, Nat.mod_eq_of_lt (by omega)]
  refine ⟨slices, ?_, hbytes, ?_, ?_, ?_⟩
  · rw [turn, if_neg hunread, if_neg (by omega)]
    dsimp only
    rw [headerAt_eq hheader, if_neg (by omega), Nat.mod_add_mod,
      show r.header.size.toNat - PerfEventHeader.width = r.body.length by omega, hslices]
  · show rb.dataHead.toNat = (rb.position + r.header.size.toUInt64).toNat + totalSize records
    rw [hposition, hhead]
    omega
  · show totalSize records ≤ rb.data.length
    omega
  · show Holds rb.data (rb.position + r.header.size.toUInt64).toNat (written order records)
    rw [hposition]
    exact hrest

theorem turn_drained (h : Published order rb []) : turn order rb = .halt .drained rb := by
  have hhead : rb.dataHead = rb.position := UInt64.toNat_inj.mp h.head
  rw [turn, if_pos hhead]

/-- The reader calls back once for each record that was published, in order, with its header and
its body, and leaves its position and the tail at the head. -/
theorem forEachRecord_published (h : Published order rb records) :
    ∃ calls last,
      (∀ fuel,
        records.length < fuel → rb.forEachRecord order fuel = (calls, some (.drained, last))) ∧
      calls.map given = records.map (fun r => (r.header, r.body)) ∧
      last.position = rb.dataHead ∧ last.dataTail = rb.dataHead := by
  induction records generalizing rb with
  | nil =>
    have hhead : rb.dataHead = rb.position := UInt64.toNat_inj.mp h.head
    refine ⟨[], rb, ?_, rfl, hhead.symm, rb.told.trans hhead.symm⟩
    intro fuel hfuel
    cases fuel with
    | zero => cases hfuel
    | succ fuel => rw [forEachRecord, collect, turn_drained h]
  | cons r records ih =>
    obtain ⟨slices, hturn, hbytes, hrest⟩ := turn_published h
    obtain ⟨calls, last, hrun, hcalls, hposition, htail⟩ := ih hrest
    refine ⟨(⟨r.header, slices⟩, rb.advance r.header.size) :: calls, last, ?_, ?_, hposition, htail⟩
    · intro fuel hfuel
      cases fuel with
      | zero => cases hfuel
      | succ fuel =>
        have hmore := hrun fuel (Nat.lt_of_succ_lt_succ hfuel)
        rw [forEachRecord] at hmore
        rw [forEachRecord, collect, hturn]
        dsimp only
        rw [hmore]
    · rw [List.map_cons, List.map_cons, hcalls, given, hbytes]

/-- A record of twelve bytes in as many, whose header lies across the end. -/
theorem forEachRecord_across :
    ∃ calls last, (∀ fuel, 1 < fuel →
        (RingBuffer.mk [0, 0, 2, 0, 12, 0, 1, 2, 3, 4, 9, 0] 22 10 10 rfl).forEachRecord
          .little fuel = (calls, some (.drained, last))) ∧
      calls.map given = [(⟨9, 2, 12⟩, [1, 2, 3, 4])] ∧
      last.position = 22 ∧ last.dataTail = 22 :=
  forEachRecord_published (show Published .little _ [⟨⟨9, 2, 12⟩, [1, 2, 3, 4], rfl⟩] from
    ⟨rfl, by decide, by unfold Holds; decide⟩)

end RingBuffer

end Dial9.SelfProfile.Perf
