import Mathlib.Tactic.Common
import GoFight.Net.Message

/-!
# The frame decoder `message_format`

`message_format` is the libevent callback of a connection's read buffer.  It reads the body length
out of the sixteen header bytes, extent by extent, and while whole frames remain it moves one frame
out of the buffer, builds a `MsgNode` and queues it.

* `scanVec` / `scanVecs` — the two nested loops over `vecs`, with the running counter `sum` and the
  array `tmp_len`; `scanVecs_peek` says what they leave there: bytes 12 to 15 of the buffer, however
  the header is spread over extents;
* `scanVecsAt` — the same loops by their indices, which stay inside the extents and `tmp_len`;
* `formatPass` — one pass of `while (sum_size > 16)`, together with every size it computes;
* `messageFormatLoop` / `messageFormat` — the loop and the callback.

C `int` is 32 bits.  Sizes are computed exactly and reduced by `cint`, so that a size that is not
what the expression says can be told from one that is.
-/

namespace GoFight.Net

open GoFight.Lib

/-! ### C `int` arithmetic -/

/-- `INT_MAX`. -/
def intMax : ℤ := 2147483647

/-- The C `int` an exact integer is reduced to. -/
def cint (x : ℤ) : ℤ := (x + 2147483648) % 4294967296 - 2147483648

theorem cint_of_mem {x : ℤ} (h₁ : -2147483648 ≤ x) (h₂ : x ≤ intMax) : cint x = x := by
  unfold cint intMax at *
  omega

theorem cint_le (x : ℤ) : cint x ≤ intMax := by
  unfold cint intMax
  omega

theorem cint_natCast_le (n : ℕ) : cint n ≤ n := by
  unfold cint
  omega

/-- An `int` converted to `size_t`. -/
def sizeT (x : ℤ) : ℕ := (x % 18446744073709551616).toNat

theorem sizeT_of_nonneg {x : ℤ} (h₁ : 0 ≤ x) (h₂ : x ≤ intMax) : (sizeT x : ℤ) = x := by
  unfold sizeT intMax at *
  omega

/-! ### The length field -/

/-- The inner loop over one extent: `++sum`; bytes 13 to 16 go to `tmp_len[sum-13]`; byte 17 stops
both loops. -/
def scanVec : ℕ → List UInt8 → List UInt8 → ℕ × List UInt8 × Bool
  | sum, tmp, [] => (sum, tmp, false)
  | sum, tmp, b :: bs =>
      let tmp' := if 12 < sum + 1 ∧ sum + 1 < 17 then tmp.set (sum + 1 - 13) b else tmp
      if 17 ≤ sum + 1 then (sum + 1, tmp', true) else scanVec (sum + 1) tmp' bs

/-- The outer loop over the extents of the peek: what `tmp_len` holds at its end. -/
def scanVecs : ℕ → List UInt8 → List (List UInt8) → List UInt8
  | _, tmp, [] => tmp
  | sum, tmp, v :: vs =>
      match scanVec sum tmp v with
      | (_, tmp', true) => tmp'
      | (sum', tmp', false) => scanVecs sum' tmp' vs

/-- The length field of a stream: its bytes 12 to 15, zero where the stream is shorter. -/
def lenField (l : List UInt8) : List UInt8 :=
  (l.drop 12).take 4 ++ List.replicate (4 - (l.length - 12)) 0

theorem lenField_nil : lenField [] = [0, 0, 0, 0] := rfl

/-- The field only depends on the first sixteen bytes. -/
theorem lenField_take (l : List UInt8) : lenField (l.take 16) = lenField l := by
  have htake : ((l.take 16).drop 12).take 4 = (l.drop 12).take 4 := by
    rw [List.drop_take, List.take_take]
    rfl
  have hlen : 4 - ((l.take 16).length - 12) = 4 - (l.length - 12) := by
    rw [List.length_take]
    omega
  rw [lenField, lenField, htake, hlen]

theorem lenField_append {l : List UInt8} (h : 16 ≤ l.length) (r : List UInt8) :
    lenField (l ++ r) = lenField l := by
  rw [← lenField_take, List.take_append_of_le_length h, lenField_take]

theorem lenField_eq {l : List UInt8} (h : 16 ≤ l.length) : lenField l = (l.drop 12).take 4 := by
  have hz : 4 - (l.length - 12) = 0 := by omega
  rw [lenField, hz, List.replicate_zero, List.append_nil]

/-- Storing one more byte of the stream: nothing before byte 12, then `tmp_len[sum-13] = byte`. -/
theorem lenField_concat {l : List UInt8} (h : l.length < 16) (b : UInt8) :
    lenField (l ++ [b]) =
      if 12 < l.length + 1 ∧ l.length + 1 < 17 then (lenField l).set (l.length + 1 - 13) b
      else lenField l := by
  by_cases h12 : 12 ≤ l.length
  · rw [if_pos ⟨by omega, by omega⟩]
    have hidx : l.length + 1 - 13 = (l.drop 12).length := by
      rw [List.length_drop]
      omega
    have hrep : 4 - (l.length - 12) = 4 - ((l ++ [b]).length - 12) + 1 := by
      rw [List.length_append, List.length_singleton]
      omega
    have hd : (l.drop 12).length ≤ 3 := by
      rw [List.length_drop]
      omega
    have htake : (l.drop 12 ++ [b]).take 4 = l.drop 12 ++ [b] := by
      rw [List.take_of_length_le]
      rw [List.length_append, List.length_singleton]
      omega
    rw [lenField, lenField, hidx, hrep, List.replicate_succ, List.drop_append_of_le_length h12,
      List.take_of_length_le (l := l.drop 12) (by omega), htake, List.set_append_right _ _ (le_refl _),
      Nat.sub_self, List.set_cons_zero, List.append_assoc, List.singleton_append]
  · rw [if_neg (by omega)]
    have h₁ : (l ++ [b]).drop 12 = [] := by
      rw [List.drop_eq_nil_iff, List.length_append, List.length_singleton]
      omega
    have h₂ : l.drop 12 = [] := by
      rw [List.drop_eq_nil_iff]
      omega
    have h₃ : 4 - ((l ++ [b]).length - 12) = 4 - (l.length - 12) := by
      rw [List.length_append, List.length_singleton]
      omega
    rw [lenField, lenField, h₁, h₂, h₃]

/-- **Inner loop.**  With the `sum ≤ 16` bytes `pre` already counted, an extent `v` leaves in
`tmp_len` the field of `pre ++ v`; the loops stop exactly when a seventeenth byte was seen. -/
theorem scanVec_spec (v : List UInt8) :
    ∀ pre : List UInt8, pre.length ≤ 16 →
      scanVec pre.length (lenField pre) v =
        if pre.length + v.length ≤ 16 then
          (pre.length + v.length, lenField (pre ++ v), false)
        else (17, lenField (pre ++ v), true) := by
  induction v with
  | nil =>
    intro pre hpre
    simp [scanVec, hpre]
  | cons b bs ih =>
    intro pre hpre
    rcases Nat.lt_or_ge pre.length 16 with hlt | hge
    · -- the byte is counted; go on with `pre ++ [b]`
      have hlen : (pre ++ [b]).length = pre.length + 1 := by
        rw [List.length_append, List.length_singleton]
      have hstep := ih (pre ++ [b]) (by omega)
      rw [hlen, List.append_assoc, List.singleton_append] at hstep
      rw [scanVec, if_neg (by omega), ← lenField_concat hlt, hstep, List.length_cons,
        show pre.length + 1 + bs.length = pre.length + (bs.length + 1) from by omega]
    · -- sixteen bytes were counted: this is the seventeenth
      have h16 : pre.length = 16 := by omega
      have hstop : 17 ≤ 16 + 1 := by omega
      have hskip : ¬(12 < 16 + 1 ∧ 16 + 1 < 17) := by omega
      have hlong : ¬(16 + (b :: bs).length ≤ 16) := by
        rw [List.length_cons]
        omega
      rw [scanVec, h16, if_pos hstop, if_neg hskip, if_neg hlong, lenField_append (by omega)]

/-- **Outer loop.**  After `pre`, the extents `vs` leave the field of the whole stream. -/
theorem scanVecs_spec (vs : List (List UInt8)) :
    ∀ pre : List UInt8, pre.length ≤ 16 →
      scanVecs pre.length (lenField pre) vs = lenField (pre ++ vs.flatten) := by
  induction vs with
  | nil =>
    intro pre _
    rw [scanVecs, List.flatten_nil, List.append_nil]
  | cons v vs ih =>
    intro pre hpre
    rw [scanVecs, scanVec_spec v pre hpre, List.flatten_cons]
    by_cases hle : pre.length + v.length ≤ 16
    · rw [if_pos hle]
      have hlen : (pre ++ v).length = pre.length + v.length := List.length_append
      have hrest := ih (pre ++ v) (by omega)
      rw [hlen, List.append_assoc] at hrest
      exact hrest
    · have h16 : 16 ≤ (pre ++ v).length := by
        rw [List.length_append]
        omega
      rw [if_neg hle, ← List.append_assoc, lenField_append h16]

/-- **The length field is read right.**  Over the extents of a sixteen-byte peek the loops leave
the field of the buffer, whatever the layout. -/
theorem scanVecs_peek (b : Evbuffer) : scanVecs 0 [0, 0, 0, 0] (b.peek 16) = lenField b.bytes := by
  have h := scanVecs_spec (b.peek 16) [] (by simp)
  rw [lenField_nil, List.nil_append] at h
  rw [List.length_nil] at h
  rw [h, ← lenField_take, b.peek_flatten_take, lenField_take]

/-! ### The indices of the loops -/

/-- `memcpy(tmp_len+sum-13, buf+j, 1)`; `none` when the read is outside the extent or the write
outside `tmp_len`. -/
def copyLenByte (buf : List UInt8) (j sum : ℕ) (tmp : List UInt8) : Option (List UInt8) :=
  match buf[j]? with
  | none => none
  | some b => if 13 ≤ sum ∧ sum - 13 < tmp.length then some (tmp.set (sum - 13) b) else none

/-- The loop over `j`, by its index. -/
def scanVecAt (buf : List UInt8) (j sum : ℕ) (tmp : List UInt8) :
    Option (ℕ × List UInt8 × Bool) :=
  if j < buf.length then
    (if 12 < sum + 1 ∧ sum + 1 < 17 then copyLenByte buf j (sum + 1) tmp else some tmp).bind
      fun tmp =>
        if 17 ≤ sum + 1 then some (sum + 1, tmp, true) else scanVecAt buf (j + 1) (sum + 1) tmp
  else some (sum, tmp, false)
termination_by buf.length - j

/-- The loop over `i`, by its index; `none` when it looks at `vecs[i]` outside `vecs`. -/
def scanVecsAt (vecs : List (List UInt8)) (n i sum : ℕ) (tmp : List UInt8) :
    Option (List UInt8) :=
  if i < n then
    match vecs[i]? with
    | none => none
    | some buf =>
        (scanVecAt buf 0 sum tmp).bind fun r =>
          if r.2.2 then some r.2.1 else scanVecsAt vecs n (i + 1) r.1 r.2.1
  else some tmp
termination_by n - i

/-- What `message_format` has in `tmp_len` after the two calls of `evbuffer_peek` and the loops. -/
def peekLength (buffer : Evbuffer) : Option (List UInt8) :=
  scanVecsAt (buffer.peek 16) (buffer.peek 16).length 0 0 [0, 0, 0, 0]

theorem scanVec_length (buf : List UInt8) (sum : ℕ) (tmp : List UInt8) :
    (scanVec sum tmp buf).2.1.length = tmp.length := by
  induction buf generalizing sum tmp with
  | nil => rfl
  | cons b bs ih =>
    have hset : (if 12 < sum + 1 ∧ sum + 1 < 17 then tmp.set (sum + 1 - 13) b else tmp).length
        = tmp.length := by
      split
      · exact List.length_set
      · rfl
    rw [scanVec]
    split
    · exact hset
    · rw [ih, hset]

/-- The loop over `j` stays inside the extent and inside `tmp_len`, and runs as `scanVec` does. -/
theorem scanVecAt_eq (buf : List UInt8) (j sum : ℕ) {tmp : List UInt8} (ht : tmp.length = 4) :
    scanVecAt buf j sum tmp = some (scanVec sum tmp (buf.drop j)) := by
  induction hk : buf.length - j generalizing j sum tmp with
  | zero =>
    have hj : ¬ j < buf.length := by omega
    rw [scanVecAt, if_neg hj, List.drop_of_length_le (by omega), scanVec]
  | succ k ih =>
    have hj : j < buf.length := by omega
    have hcopy : (if 12 < sum + 1 ∧ sum + 1 < 17 then copyLenByte buf j (sum + 1) tmp else some tmp)
        = some (if 12 < sum + 1 ∧ sum + 1 < 17 then tmp.set (sum + 1 - 13) buf[j] else tmp) := by
      split
      · have hin : 13 ≤ sum + 1 ∧ sum + 1 - 13 < tmp.length := by omega
        rw [copyLenByte, List.getElem?_eq_getElem hj]
        exact if_pos hin
      · rfl
    rw [scanVecAt, if_pos hj, hcopy, Option.bind_some, List.drop_eq_getElem_cons hj, scanVec]
    split
    · rfl
    · apply ih
      · split
        · rw [List.length_set, ht]
        · exact ht
      · omega

/-- The loop over `i` looks at the extents of the peek only, and runs as `scanVecs` does. -/
theorem scanVecsAt_eq (vecs : List (List UInt8)) (i sum : ℕ) {tmp : List UInt8}
    (ht : tmp.length = 4) :
    scanVecsAt vecs vecs.length i sum tmp = some (scanVecs sum tmp (vecs.drop i)) := by
  induction hk : vecs.length - i generalizing i sum tmp with
  | zero =>
    have hi : ¬ i < vecs.length := by omega
    rw [scanVecsAt, if_neg hi, List.drop_of_length_le (by omega), scanVecs]
  | succ k ih =>
    have hi : i < vecs.length := by omega
    rw [scanVecsAt, if_pos hi, List.getElem?_eq_getElem hi, List.drop_eq_getElem_cons hi, scanVecs]
    show (scanVecAt vecs[i] 0 sum tmp).bind _ = _
    rw [scanVecAt_eq vecs[i] 0 sum ht, List.drop_zero, Option.bind_some]
    have hlen := scanVec_length vecs[i] sum tmp
    generalize scanVec sum tmp vecs[i] = r at hlen ⊢
    obtain ⟨sum', tmp', done⟩ := r
    cases done with
    | true => rfl
    | false => exact ih (i + 1) sum' (hlen.trans ht) (by omega)

/-- **The length field of a buffer.**  However libevent has cut a buffer of more than sixteen bytes
into extents, the loops stay inside them and inside `tmp_len`, and leave bytes 12 to 15 there. -/
theorem peekLength_eq {b : Evbuffer} (h : 16 < b.bytes.length) :
    peekLength b = some ((b.bytes.drop 12).take 4) := by
  rw [peekLength, scanVecsAt_eq _ 0 0 rfl, List.drop_zero, scanVecs_peek, lenField_eq h.le]

/-- A header cut inside its length field, with an empty extent in the cut. -/
theorem peekLength_cut :
    peekLength ⟨[List.replicate 13 1, [], [2, 3], [4, 5, 6]]⟩ = some [1, 2, 3, 4] :=
  peekLength_eq (by decide)

/-- The body length a stream announces: its length field as a C `int`. -/
def bodyLen (l : List UInt8) : ℤ := (i32Val (lenField l)).toInt

theorem bodyLen_take (l : List UInt8) {n : ℕ} (h : 16 ≤ n) : bodyLen (l.take n) = bodyLen l := by
  rw [bodyLen, bodyLen, ← lenField_take, List.take_take, min_eq_left h, lenField_take]

theorem bodyLen_append {l : List UInt8} (h : 16 ≤ l.length) (r : List UInt8) :
    bodyLen (l ++ r) = bodyLen l := by
  rw [bodyLen, bodyLen, lenField_append h]

theorem bodyLen_mem (l : List UInt8) : -2147483648 ≤ bodyLen l ∧ bodyLen l ≤ intMax := by
  have h₁ := Int32.le_toInt (i32Val (lenField l))
  have h₂ := Int32.toInt_lt (i32Val (lenField l))
  unfold bodyLen intMax
  omega

/-! ### One pass of the loop -/

/-- What one pass of `while (sum_size > 16)` computes, and what it leaves. -/
structure Pass (Msg : Type*) where
  /-- `msg_len`. -/
  msgLen : ℤ
  /-- The `int` handed to `GO_MALLOC` and `evbuffer_remove`. -/
  size : ℤ
  /-- The bytes `evbuffer_remove` moved into the block `msg`. -/
  block : List UInt8
  /-- The length handed to `ParseFromArray`, when it is called. -/
  parseLen : Option ℤ
  /-- The node pushed to `conn_read_msgs_`, if any. -/
  node : Option (MsgNode Msg)
  /-- The read buffer afterwards. -/
  buffer : Evbuffer
  /-- `sum_size` afterwards. -/
  sumSize : ℤ

/-- `info` of an evbuffer callback. -/
structure EvbufferCbInfo where
  origSize : ℕ
  nAdded : ℕ
  nDeleted : ℕ

section Decoder

variable {Cls Msg : Type*} (pb : Protobuf Cls Msg) (reg : Registry Cls) (conn : Addr)

/-- The node built from a block: no node when the type is not registered.  The result of
`ParseFromArray` is dropped, whatever it parsed stays in the message. -/
def frameNode (block : List UInt8) (msgLen : ℤ) : Option (MsgNode Msg) :=
  let msgType := i32Val (block.take 4)
  (reg msgType).map fun c =>
    { msgType := msgType
      cliConn := u64Val ((block.drop 4).take 8)
      msgData := (pb.parseFromArray (pb.newMsg c) ((block.drop 16).take msgLen.toNat)).2
      msgConn := conn }

/-- One pass: `none` when the loop condition fails or the body returns. -/
def formatPass (buffer : Evbuffer) (sumSize : ℤ) : Option (Pass Msg) :=
  if 16 < sumSize then
    let vecs := buffer.peek 16
    if vecs.length ≤ 0 then none
    else
      let msgLen := (i32Val (scanVecs 0 [0, 0, 0, 0] vecs)).toInt
      let size := cint (msgLen + 16)
      if sumSize < size then none
      else
        let r := buffer.remove (sizeT size)
        some
          { msgLen := msgLen
            size := size
            block := r.1
            parseLen := (reg (i32Val (r.1.take 4))).map fun _ => msgLen
            node := frameNode pb reg conn r.1 msgLen
            buffer := r.2
            sumSize := cint (sumSize - size) }
  else none

/-- The loop, given fuel for its passes; `none` when the fuel runs out. -/
def messageFormatLoop : ℕ → Evbuffer → ℤ → Option (Evbuffer × List (MsgNode Msg))
  | 0, _, _ => none
  | fuel + 1, buffer, sumSize =>
      match formatPass pb reg conn buffer sumSize with
      | none => some (buffer, [])
      | some p =>
          (messageFormatLoop fuel p.buffer p.sumSize).map fun r => (r.1, p.node.toList ++ r.2)

/-- `message_format` on the read buffer of `conn`: the buffer afterwards and the nodes pushed to
`conn_read_msgs_`.  A pass that removes nothing repeats for ever, which is `none`; any other run
has at most one pass more than the buffer has bytes. -/
def messageFormat (buffer : Evbuffer) (info : EvbufferCbInfo) :
    Option (Evbuffer × List (MsgNode Msg)) :=
  if 0 < info.nDeleted then some (buffer, [])
  else messageFormatLoop pb reg conn (buffer.length + 2) buffer
    (cint (info.origSize + info.nAdded))

/-- The record of a pass over a stream `l`, its computed size aside. -/
def passOf (b : Evbuffer) (s : ℤ) (size : ℤ) : Pass Msg where
  msgLen := bodyLen b.bytes
  size := size
  block := b.bytes.take (sizeT size)
  parseLen := (reg (i32Val ((b.bytes.take (sizeT size)).take 4))).map fun _ => bodyLen b.bytes
  node := frameNode pb reg conn (b.bytes.take (sizeT size)) (bodyLen b.bytes)
  buffer := (b.remove (sizeT size)).2
  sumSize := cint (s - size)

/-- **What a pass does.**  The length field is the buffer's, and the pass happens exactly when the
loop condition holds, the peek finds an extent and `sum_size` covers the computed size. -/
theorem formatPass_eq (b : Evbuffer) (s : ℤ) :
    formatPass pb reg conn b s =
      if 16 < s ∧ b.peek 16 ≠ [] ∧ cint (bodyLen b.bytes + 16) ≤ s then
        some (passOf pb reg conn b s (cint (bodyLen b.bytes + 16)))
      else none := by
  have hlen : (i32Val (scanVecs 0 [0, 0, 0, 0] (b.peek 16))).toInt = bodyLen b.bytes := by
    rw [scanVecs_peek]
    rfl
  have hpeek : (b.peek 16).length ≤ 0 ↔ b.peek 16 = [] := by
    rw [Nat.le_zero, List.length_eq_zero_iff]
  unfold formatPass
  simp only [hlen, hpeek]
  by_cases h₁ : 16 < s
  · by_cases h₂ : b.peek 16 = []
    · simp [h₂]
    · by_cases h₃ : s < cint (bodyLen b.bytes + 16)
      · have hno : ¬ cint (bodyLen b.bytes + 16) ≤ s := by omega
        simp [h₃, hno]
      · have hyes : cint (bodyLen b.bytes + 16) ≤ s := by omega
        simp only [h₁, h₂, h₃, hyes, if_true, if_false, ne_eq, not_false_eq_true, and_self]
        rfl
  · simp [h₁]

theorem formatPass_some {b : Evbuffer} {s : ℤ} {p : Pass Msg}
    (h : formatPass pb reg conn b s = some p) :
    16 < s ∧ b.peek 16 ≠ [] ∧ cint (bodyLen b.bytes + 16) ≤ s ∧
      p = passOf pb reg conn b s (cint (bodyLen b.bytes + 16)) := by
  rw [formatPass_eq] at h
  split at h
  · next hc => exact ⟨hc.1, hc.2.1, hc.2.2, (Option.some.inj h).symm⟩
  · cases h

end Decoder

end GoFight.Net
