import Mathlib.Data.List.Basic
import Mathlib.Tactic.Common

/-!
# The libevent buffer behind a connection

An `evbuffer` is a chain of extents; what a reader sees is their concatenation, but the code under
`src/` also looks at the extents themselves (`evbuffer_peek`).  So the buffer keeps its extents,
and every operation comes with the lemma that says what it does to the bytes:

* `Evbuffer.peek` / `peek_flatten_take` — `evbuffer_peek(buffer, len, NULL, vecs, n)`: the extents
  that cover the first `len` bytes, each at full length;
* `Evbuffer.remove` / `remove_bytes` — `evbuffer_remove(buffer, data, datlen)`;
* `Evbuffer.addReference` / `addReference_bytes` — `evbuffer_add_reference`: one extent more.

How libevent lays new data out over extents is its own business: an append is any buffer with the
right bytes, `Evbuffer.Extends`.
-/

namespace GoFight.Net

/-- A libevent `evbuffer`: the extents of its chain, front first. -/
structure Evbuffer where
  extents : List (List UInt8)
deriving DecidableEq, Repr

namespace Evbuffer

/-- The content of the buffer. -/
def bytes (b : Evbuffer) : List UInt8 := b.extents.flatten

/-- `evbuffer_get_length`. -/
def length (b : Evbuffer) : ℕ := b.bytes.length

/-- `evbuffer_new()`. -/
def empty : Evbuffer := ⟨[]⟩

@[simp] theorem bytes_empty : empty.bytes = [] := rfl

/-- `b'` is `b` with `chunk` appended, under any layout of the extents. -/
def Extends (b : Evbuffer) (chunk : List UInt8) (b' : Evbuffer) : Prop :=
  b'.bytes = b.bytes ++ chunk

instance (b : Evbuffer) (chunk : List UInt8) (b' : Evbuffer) : Decidable (b.Extends chunk b') :=
  inferInstanceAs (Decidable (b'.bytes = b.bytes ++ chunk))

/-! ### `evbuffer_peek` -/

/-- The chain walk of `evbuffer_peek`: extents are taken while fewer than `len` bytes are covered. -/
def peekExtents : ℕ → List (List UInt8) → List (List UInt8)
  | _, [] => []
  | 0, _ => []
  | len + 1, x :: xs => x :: peekExtents (len + 1 - x.length) xs

/-- `evbuffer_peek(buffer, len, NULL, vecs, n)` with room for every extent it needs. -/
def peek (b : Evbuffer) (len : ℕ) : List (List UInt8) := peekExtents len b.extents

theorem peekExtents_flatten_take (len : ℕ) (xs : List (List UInt8)) :
    (peekExtents len xs).flatten.take len = xs.flatten.take len := by
  induction xs generalizing len with
  | nil => simp [peekExtents]
  | cons x xs ih =>
    cases len with
    | zero => rfl
    | succ len =>
      rw [peekExtents, List.flatten_cons, List.flatten_cons, List.take_append, List.take_append,
        ih]

/-- The extents of a peek agree with the buffer on the bytes asked for. -/
theorem peek_flatten_take (b : Evbuffer) (len : ℕ) :
    (b.peek len).flatten.take len = b.bytes.take len :=
  peekExtents_flatten_take len b.extents

/-- A peek into a buffer with content finds at least one extent. -/
theorem peek_ne_nil {b : Evbuffer} {len : ℕ} (hlen : 0 < len) (hb : b.bytes ≠ []) :
    b.peek len ≠ [] := by
  intro hnil
  have htake := b.peek_flatten_take len
  rw [hnil, List.flatten_nil, List.take_nil] at htake
  rcases List.take_eq_nil_iff.mp htake.symm with h | h
  · omega
  · exact hb h

/-! ### `evbuffer_remove` -/

/-- Drain `n` bytes from the front of a chain; an extent that is used up leaves it. -/
def dropExtents : ℕ → List (List UInt8) → List (List UInt8)
  | 0, xs => xs
  | _ + 1, [] => []
  | n + 1, x :: xs =>
      if x.length ≤ n + 1 then dropExtents (n + 1 - x.length) xs else x.drop (n + 1) :: xs

theorem dropExtents_flatten (n : ℕ) (xs : List (List UInt8)) :
    (dropExtents n xs).flatten = xs.flatten.drop n := by
  induction xs generalizing n with
  | nil => cases n <;> rfl
  | cons x xs ih =>
    cases n with
    | zero => rfl
    | succ n =>
      rw [dropExtents, List.flatten_cons, List.drop_append]
      split
      · next hle => rw [ih, List.drop_eq_nil_of_le hle, List.nil_append]
      · next hlt =>
        have hzero : n + 1 - x.length = 0 := by omega
        rw [hzero, List.drop_zero, List.flatten_cons]

/-- `evbuffer_remove(buffer, data, datlen)`: the bytes moved out, at most all there are, and the
buffer without them. -/
def remove (b : Evbuffer) (datlen : ℕ) : List UInt8 × Evbuffer :=
  (b.bytes.take datlen, ⟨dropExtents datlen b.extents⟩)

@[simp] theorem remove_fst (b : Evbuffer) (n : ℕ) : (b.remove n).1 = b.bytes.take n := rfl

@[simp] theorem remove_bytes (b : Evbuffer) (n : ℕ) : (b.remove n).2.bytes = b.bytes.drop n :=
  dropExtents_flatten n b.extents

theorem remove_zero (b : Evbuffer) : (b.remove 0).2 = b := by
  obtain ⟨xs⟩ := b
  cases xs <;> rfl

/-! ### `evbuffer_add_reference` -/

/-- `evbuffer_add_reference`: the block becomes one extent at the end of the chain. -/
def addReference (b : Evbuffer) (block : List UInt8) : Evbuffer := ⟨b.extents ++ [block]⟩

@[simp] theorem addReference_bytes (b : Evbuffer) (block : List UInt8) :
    (b.addReference block).bytes = b.bytes ++ block := by
  simp [addReference, bytes]

end Evbuffer

end GoFight.Net
