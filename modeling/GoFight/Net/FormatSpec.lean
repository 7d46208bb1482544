import Mathlib.Logic.Relation
import GoFight.Lib.Framing
import GoFight.Net.MessageFormat
import GoFight.Protocol.Messages

/-!
# What `message_format` decodes

The abstract side of the decoder is a framing rule: a frame is sixteen header bytes and the body
the header announces, and it is taken once at least one byte more than a header is there.

* `frameRule` — that rule, for the lengths `[0, INT_MAX - 16]` a `char*` of `msg_len + 16` bytes
  can have;
* `HeadersOk` — no frame with a length outside that range comes up while cutting;
* `messageFormatLoop_spec` — **the decoder refines the rule**: on such input the loop ends, the
  nodes are those of the frames cut off, and the buffer keeps the rest;
* `decoder_safe_iff` — and only on such input is every pass free of overflow and of reads outside
  the bytes it removed.
-/

namespace GoFight.Net

open GoFight.Lib

/-! ### The framing rule -/

/-- The lengths for which `msg_len + 16` is a size: nothing negative, no overflow. -/
def LenOk (n : ℤ) : Prop := 0 ≤ n ∧ n + 16 ≤ intMax

instance (n : ℤ) : Decidable (LenOk n) := inferInstanceAs (Decidable (_ ∧ _))

/-- The size of the first frame, once it and its first byte past a header are there. -/
def nextFrame (l : List UInt8) : Option ℕ :=
  if 16 < l.length ∧ LenOk (bodyLen l) ∧ bodyLen l + 16 ≤ l.length then some (bodyLen l + 16).toNat
  else none

theorem nextFrame_eq_some {l : List UInt8} {n : ℕ} :
    nextFrame l = some n ↔
      16 < l.length ∧ LenOk (bodyLen l) ∧ bodyLen l + 16 ≤ l.length ∧ (n : ℤ) = bodyLen l + 16 := by
  unfold nextFrame
  split
  · next h =>
    have h0 := h.2.1.1
    rw [Option.some.injEq]
    refine ⟨fun hn => ⟨h.1, h.2.1, h.2.2, by omega⟩, fun hn => by omega⟩
  · next h =>
    refine ⟨fun hn => (by cases hn), fun hn => absurd ⟨hn.1, hn.2.1, hn.2.2.1⟩ h⟩

/-- **The framing rule of the wire format.** -/
def frameRule : Framing UInt8 where
  next := nextFrame
  pos := by
    intro l n h
    obtain ⟨-, hok, -, hn⟩ := nextFrame_eq_some.mp h
    have h0 := hok.1
    omega
  le := by
    intro l n h
    obtain ⟨-, -, hle, hn⟩ := nextFrame_eq_some.mp h
    omega
  stable := by
    intro l n r h
    obtain ⟨hlen, hok, hle, hn⟩ := nextFrame_eq_some.mp h
    have hb : bodyLen (l ++ r) = bodyLen l := bodyLen_append (by omega) r
    refine nextFrame_eq_some.mpr ⟨?_, ?_, ?_, ?_⟩
    · rw [List.length_append]; omega
    · rw [hb]; exact hok
    · rw [hb, List.length_append]; omega
    · rw [hb]; exact hn

/-- What is left of `l` once its whole frames are cut off does not start with a header whose
length is out of range. -/
def HeadersOk (l : List UInt8) : Prop :=
  (frameRule.split l).2.length ≤ 16 ∨ LenOk (bodyLen (frameRule.split l).2)

theorem headersOk_of_next {l : List UInt8} {n : ℕ} (h : frameRule.next l = some n) :
    HeadersOk l ↔ HeadersOk (l.drop n) := by
  rw [HeadersOk, HeadersOk, frameRule.split_some h]

theorem headersOk_of_none {l : List UInt8} (h : frameRule.next l = none) :
    HeadersOk l ↔ l.length ≤ 16 ∨ LenOk (bodyLen l) := by
  rw [HeadersOk, frameRule.split_none h]

/-- Nothing is cut off behind a bad header. -/
theorem next_of_not_headersOk {l : List UInt8} (h : ¬ HeadersOk l) (r : List UInt8) :
    frameRule.next ((frameRule.split l).2 ++ r) = none := by
  rw [HeadersOk, not_or] at h
  rw [Option.eq_none_iff_forall_ne_some]
  intro n hn
  have hsame : bodyLen ((frameRule.split l).2 ++ r) = bodyLen (frameRule.split l).2 :=
    bodyLen_append (by omega) r
  exact h.2 (hsame ▸ (nextFrame_eq_some.mp hn).2.1)

/-- Bad headers do not go away when more of the stream comes in. -/
theorem HeadersOk.of_append {l r : List UInt8} (h : HeadersOk (l ++ r)) : HeadersOk l := by
  by_contra hbad
  have hnone := next_of_not_headersOk hbad r
  rw [HeadersOk, frameRule.split_append l r] at h
  rw [HeadersOk, not_or] at hbad
  obtain ⟨hlen, hhead⟩ := hbad
  have hsame : bodyLen ((frameRule.split l).2 ++ r) = bodyLen (frameRule.split l).2 :=
    bodyLen_append (by omega) r
  simp only [frameRule.split_none hnone, hsame, List.length_append] at h
  rcases h with h | h
  · omega
  · exact hhead h

theorem headersOk_append_iff (l r : List UInt8) :
    HeadersOk (l ++ r) ↔ HeadersOk ((frameRule.split l).2 ++ r) := by
  rw [HeadersOk, HeadersOk, frameRule.split_append l r]

/-! ### The decoder refines the rule -/

section Refinement

variable {Cls Msg : Type*} (pb : Protobuf Cls Msg) (reg : Registry Cls) (conn : Addr)

/-- The node a whole frame decodes to. -/
def nodeOfFrame (frame : List UInt8) : Option (MsgNode Msg) :=
  frameNode pb reg conn frame (bodyLen frame)

/-- The part of a buffer the loop looks at: its first `sum_size` bytes. -/
def visible (b : Evbuffer) (s : ℤ) : List UInt8 := b.bytes.take s.toNat

theorem visible_length {b : Evbuffer} {s : ℤ} (h : s ≤ b.length) :
    (visible b s).length = s.toNat := by
  rw [visible, List.length_take, min_eq_left]
  rw [Evbuffer.length] at h
  omega

theorem bodyLen_visible {b : Evbuffer} {s : ℤ} (h : 16 < s) :
    bodyLen (visible b s) = bodyLen b.bytes := bodyLen_take _ (by omega)

/-- The first `n` bytes of what the loop sees are a whole frame. -/
structure TakesFrame (b : Evbuffer) (s : ℤ) (n : ℕ) : Prop where
  more : 16 < s
  le_length : s ≤ b.length
  le_max : s ≤ intMax
  lenOk : LenOk (bodyLen b.bytes)
  size : (n : ℤ) = bodyLen b.bytes + 16
  fits : (n : ℤ) ≤ s

theorem TakesFrame.of_next {b : Evbuffer} {s : ℤ} {n : ℕ} (hs : s ≤ b.length) (hmax : s ≤ intMax)
    (h : frameRule.next (visible b s) = some n) : TakesFrame b s n := by
  obtain ⟨hlen, hok, hle, hn⟩ := nextFrame_eq_some.mp h
  rw [visible_length hs] at hlen hle
  have hs16 : 16 < s := by omega
  rw [bodyLen_visible hs16] at hok hle hn
  exact ⟨hs16, hs, hmax, hok, hn, by omega⟩

namespace TakesFrame

variable {b : Evbuffer} {s : ℤ} {n : ℕ} (t : TakesFrame b s n)

include t

theorem le_bytes : n ≤ b.bytes.length := by
  have h₁ := t.fits
  have h₂ := t.le_length
  rw [Evbuffer.length] at h₂
  omega

theorem sixteen_le : 16 ≤ n := by
  have h₁ := t.size
  have h₂ := t.lenOk.1
  omega

theorem sizeT_eq : sizeT (n : ℤ) = n := by
  have h := sizeT_of_nonneg (x := (n : ℤ)) (by omega) (t.fits.trans t.le_max)
  omega

theorem cint_size : cint (bodyLen b.bytes + 16) = n := by
  have h₀ := t.lenOk.1
  rw [cint_of_mem (by omega) t.lenOk.2, t.size]

theorem pass_sumSize : (passOf pb reg conn b s n).sumSize = s - n := by
  have h₁ := t.fits
  have h₂ := t.le_max
  exact cint_of_mem (by omega) (by omega)

theorem pass_block : (passOf pb reg conn b s n).block = b.bytes.take n := by
  rw [passOf, t.sizeT_eq]

theorem pass_bytes : (passOf pb reg conn b s n).buffer.bytes = b.bytes.drop n := by
  rw [passOf, t.sizeT_eq, Evbuffer.remove_bytes]

theorem take_visible : (visible b s).take n = b.bytes.take n := by
  have h := t.fits
  rw [visible, List.take_take, min_eq_left (by omega)]

theorem pass_node : (passOf pb reg conn b s n).node =
    nodeOfFrame pb reg conn ((visible b s).take n) := by
  rw [passOf, t.sizeT_eq, t.take_visible, nodeOfFrame, bodyLen_take _ t.sixteen_le]

theorem pass_visible : visible (passOf pb reg conn b s n).buffer
    (passOf pb reg conn b s n).sumSize = (visible b s).drop n := by
  rw [visible, t.pass_bytes, t.pass_sumSize, visible, List.drop_take]
  congr 1
  omega

theorem pass_le_length : (passOf pb reg conn b s n).sumSize
    ≤ (passOf pb reg conn b s n).buffer.length := by
  have h := t.le_length
  rw [Evbuffer.length] at h
  rw [t.pass_sumSize, Evbuffer.length, t.pass_bytes, List.length_drop]
  omega

theorem pass_le_max : (passOf pb reg conn b s n).sumSize ≤ intMax := by
  have h := t.le_max
  rw [t.pass_sumSize]
  omega

/-- The pass the loop takes. -/
theorem formatPass : formatPass pb reg conn b s = some (passOf pb reg conn b s n) := by
  have hne : b.bytes ≠ [] := by
    intro hnil
    have h₁ := t.le_bytes
    have h₂ := t.sixteen_le
    rw [hnil, List.length_nil] at h₁
    omega
  rw [formatPass_eq, t.cint_size, if_pos ⟨t.more, Evbuffer.peek_ne_nil (by omega) hne, t.fits⟩]

end TakesFrame

/-- No pass is taken when the rule has no answer and the header is in range. -/
theorem formatPass_of_none {b : Evbuffer} {s : ℤ} (hs : s ≤ b.length)
    (h : frameRule.next (visible b s) = none) (hok : HeadersOk (visible b s)) :
    formatPass pb reg conn b s = none := by
  rw [headersOk_of_none h, visible_length hs] at hok
  rw [formatPass_eq, if_neg]
  rintro ⟨hs16, -, hle⟩
  have hlen : LenOk (bodyLen (visible b s)) := hok.resolve_left (by omega)
  have h₀ := hlen.1
  rw [← bodyLen_visible hs16, cint_of_mem (by omega) hlen.2] at hle
  -- the whole frame would be there, and the rule would have given it
  have hsome : frameRule.next (visible b s) = some (bodyLen (visible b s) + 16).toNat := by
    refine nextFrame_eq_some.mpr ⟨?_, hlen, ?_, by omega⟩
    · rw [visible_length hs]
      omega
    · rw [visible_length hs]
      omega
  rw [h] at hsome
  cases hsome

/-- **The decoder refines the framing rule.**  While no length out of range comes up, the loop ends
with the nodes of the frames cut off its first `sum_size` bytes, and leaves the rest. -/
theorem messageFormatLoop_spec (fuel : ℕ) :
    ∀ (b : Evbuffer) (s : ℤ), s ≤ b.length → s ≤ intMax → HeadersOk (visible b s) →
      (visible b s).length < fuel →
      ∃ b', messageFormatLoop pb reg conn fuel b s =
          some (b', (frameRule.split (visible b s)).1.filterMap (nodeOfFrame pb reg conn)) ∧
        b'.bytes = (frameRule.split (visible b s)).2 ++ b.bytes.drop s.toNat := by
  induction fuel with
  | zero =>
    intro b s _ _ _ hfuel
    omega
  | succ fuel ih =>
    intro b s hs hmax hok hfuel
    cases hnext : frameRule.next (visible b s) with
    | none =>
      refine ⟨b, ?_, ?_⟩
      · rw [messageFormatLoop, formatPass_of_none pb reg conn hs hnext hok,
          frameRule.split_none hnext]
        rfl
      · rw [frameRule.split_none hnext, visible, List.take_append_drop]
    | some n =>
      have t := TakesFrame.of_next hs hmax hnext
      have hvis := t.pass_visible pb reg conn
      have hok' := (headersOk_of_next hnext).mp hok
      have hlt := frameRule.length_drop_lt hnext
      rw [← hvis] at hok' hlt
      obtain ⟨b', hloop, hb'⟩ := ih _ _ (t.pass_le_length pb reg conn) (t.pass_le_max pb reg conn) hok' (by omega)
      have hdrop : (b.bytes.drop n).drop (s - n).toNat = b.bytes.drop s.toNat := by
        have h := t.fits
        rw [List.drop_drop]
        congr 1
        omega
      refine ⟨b', ?_, ?_⟩
      · rw [messageFormatLoop, t.formatPass]
        simp only [hloop, Option.map_some, hvis, t.pass_node, frameRule.split_some hnext,
          List.filterMap_cons]
        cases nodeOfFrame pb reg conn ((visible b s).take n) <;> rfl
      · rw [hb', hvis, t.pass_bytes, t.pass_sumSize, hdrop, frameRule.split_some hnext]

/-- `messageFormat` called after `n_added` bytes came in behind `orig_size` others. -/
theorem messageFormat_spec {b : Evbuffer} {orig added : ℕ} (hlen : orig + added = b.length)
    (hok : HeadersOk (visible b (cint b.length))) :
    ∃ b', messageFormat pb reg conn b ⟨orig, added, 0⟩ =
        some (b', (frameRule.split (visible b (cint b.length))).1.filterMap
          (nodeOfFrame pb reg conn)) ∧
      b'.bytes = (frameRule.split (visible b (cint b.length))).2 ++
        b.bytes.drop (cint b.length).toNat := by
  have hfuel : (visible b (cint b.length)).length < b.length + 2 := by
    rw [visible_length (cint_natCast_le _)]
    have h := cint_natCast_le b.length
    omega
  have hsum : cint ((orig : ℤ) + (added : ℤ)) = cint b.length := by
    rw [← hlen, Nat.cast_add]
  rw [messageFormat, if_neg (lt_irrefl 0), hsum]
  exact messageFormatLoop_spec pb reg conn _ b _ (cint_natCast_le _) (cint_le _) hok hfuel

theorem visible_all {b : Evbuffer} (h : (b.length : ℤ) ≤ intMax) :
    visible b (cint b.length) = b.bytes := by
  rw [cint_of_mem (by omega) h, visible, Int.toNat_natCast, Evbuffer.length, List.take_length]

/-- Decoding a buffer of at most `INT_MAX` bytes. -/
theorem messageFormat_all {b : Evbuffer} {orig added : ℕ} (hlen : orig + added = b.length)
    (hmax : (b.length : ℤ) ≤ intMax) (hok : HeadersOk b.bytes) :
    ∃ b', messageFormat pb reg conn b ⟨orig, added, 0⟩ =
        some (b', (frameRule.split b.bytes).1.filterMap (nodeOfFrame pb reg conn)) ∧
      b'.bytes = (frameRule.split b.bytes).2 := by
  have hvis := visible_all hmax
  obtain ⟨b', hrun, hb'⟩ := messageFormat_spec pb reg conn hlen (hvis ▸ hok)
  rw [hvis] at hrun hb'
  refine ⟨b', hrun, ?_⟩
  rw [hb', cint_of_mem (by omega) hmax, Int.toNat_natCast, Evbuffer.length, List.drop_length,
    List.append_nil]

/-- The callback that `evbuffer_remove` sets off inside a pass changes nothing. -/
theorem messageFormat_removal (b : Evbuffer) (info : EvbufferCbInfo) (h : 0 < info.nDeleted) :
    messageFormat pb reg conn b info = some (b, []) := by
  rw [messageFormat, if_pos h]

/-! ### When the decoder is safe -/

/-- One pass takes the loop state `(buffer, sum_size)` to the next. -/
def PassStep (x y : Evbuffer × ℤ) : Prop :=
  ∃ p : Pass Msg, formatPass pb reg conn x.1 x.2 = some p ∧ y = (p.buffer, p.sumSize)

/-- A pass from `b` with `sum_size = s` is safe: no `int` it computes overflowed; the size it
allocates and removes is at least a header; that many bytes really left the buffer, at least
sixteen, so that both header fields come out of them; `ParseFromArray` gets no negative length. -/
structure PassSafe (b : Evbuffer) (s : ℤ) (p : Pass Msg) : Prop where
  no_overflow : p.size = p.msgLen + 16
  no_overflow_sum : p.sumSize = s - p.size
  header : 16 ≤ p.size
  removed : b.bytes = p.block ++ p.buffer.bytes
  block : (p.block.length : ℤ) = p.size
  parse : ∀ k ∈ p.parseLen, 0 ≤ k

/-- Every pass of the loop over the whole buffer is safe, and the loop comes to an end. -/
def DecoderSafe (b : Evbuffer) : Prop :=
  (∀ x, Relation.ReflTransGen (PassStep pb reg conn) (b, cint b.length) x →
    ∀ p, formatPass pb reg conn x.1 x.2 = some p → PassSafe x.1 x.2 p) ∧
  ∃ fuel, (messageFormatLoop pb reg conn fuel b (cint b.length)).isSome

variable {pb reg conn}

theorem TakesFrame.passSafe {b : Evbuffer} {s : ℤ} {n : ℕ} (t : TakesFrame b s n) :
    PassSafe b s (passOf pb reg conn b s n) where
  no_overflow := t.size
  no_overflow_sum := t.pass_sumSize pb reg conn
  header := Int.ofNat_le.mpr t.sixteen_le
  removed := by rw [t.pass_block, t.pass_bytes, List.take_append_drop]
  block := by rw [t.pass_block, List.length_take, min_eq_left t.le_bytes]; rfl
  parse := by
    intro k hk
    obtain ⟨c, -, hc⟩ := Option.map_eq_some_iff.mp hk
    exact hc ▸ t.lenOk.1

/-- The state of a loop over a buffer whose headers are in range. -/
structure LoopOk (b : Evbuffer) (s : ℤ) : Prop where
  le_length : s ≤ b.length
  le_max : s ≤ intMax
  headers : HeadersOk (visible b s)

/-- **Step lemma.**  While headers are in range a pass takes a whole frame, and they stay so. -/
theorem LoopOk.step {b : Evbuffer} {s : ℤ} {p : Pass Msg} (h : LoopOk b s)
    (hp : formatPass pb reg conn b s = some p) :
    (∃ n, TakesFrame b s n ∧ p = passOf pb reg conn b s n) ∧ LoopOk p.buffer p.sumSize := by
  cases hnext : frameRule.next (visible b s) with
  | none =>
    rw [formatPass_of_none pb reg conn h.le_length hnext h.headers] at hp
    cases hp
  | some n =>
    have t := TakesFrame.of_next h.le_length h.le_max hnext
    rw [t.formatPass] at hp
    cases hp
    refine ⟨⟨n, t, rfl⟩, t.pass_le_length pb reg conn, t.pass_le_max pb reg conn, ?_⟩
    rw [t.pass_visible]
    exact (headersOk_of_next hnext).mp h.headers

/-- **Run lemma.** -/
theorem LoopOk.reach {x y : Evbuffer × ℤ} (h : LoopOk x.1 x.2)
    (hr : Relation.ReflTransGen (PassStep pb reg conn) x y) : LoopOk y.1 y.2 := by
  induction hr with
  | refl => exact h
  | tail _ hstep ih =>
    obtain ⟨p, hp, rfl⟩ := hstep
    exact (ih.step hp).2

variable (pb reg conn)

/-- A header out of range with a whole header and one byte more in sight makes an unsafe pass. -/
theorem unsafe_of_header {b : Evbuffer} {s : ℤ} (hs : s ≤ b.length) (hs16 : 16 < s)
    (hbad : ¬ LenOk (bodyLen b.bytes)) :
    ∃ p, formatPass pb reg conn b s = some p ∧ ¬ PassSafe b s p := by
  obtain ⟨hlo, hhi⟩ := bodyLen_mem b.bytes
  have hne : b.bytes ≠ [] := by
    intro hnil
    rw [Evbuffer.length, hnil, List.length_nil] at hs
    omega
  -- a negative length makes a size below sixteen, one near `INT_MAX` wraps round
  have hsize : cint (bodyLen b.bytes + 16) < 16 := by
    unfold LenOk cint intMax at *
    omega
  refine ⟨passOf pb reg conn b s (cint (bodyLen b.bytes + 16)), ?_, fun hsafe => ?_⟩
  · rw [formatPass_eq, if_pos ⟨hs16, Evbuffer.peek_ne_nil (by omega) hne, by omega⟩]
  · have h : 16 ≤ cint (bodyLen b.bytes + 16) := hsafe.header
    omega

/-- A run of the loop comes to every header out of range. -/
theorem reach_bad_header {b : Evbuffer} {s : ℤ} (hs : s ≤ b.length) (hmax : s ≤ intMax)
    (hbad : ¬ HeadersOk (visible b s)) :
    ∃ x, Relation.ReflTransGen (PassStep pb reg conn) (b, s) x ∧ x.2 ≤ x.1.length ∧ 16 < x.2 ∧
      ¬ LenOk (bodyLen x.1.bytes) := by
  induction hl : visible b s using frameRule.split_induction generalizing b s with
  | hnone l h =>
    rw [hl, headersOk_of_none h, not_or, ← hl, visible_length hs] at hbad
    have hs16 : 16 < s := by omega
    rw [bodyLen_visible hs16] at hbad
    exact ⟨(b, s), .refl, hs, hs16, hbad.2⟩
  | hsome l n h ih =>
    rw [← hl] at h
    have t := TakesFrame.of_next hs hmax h
    rw [headersOk_of_next h, ← t.pass_visible pb reg conn] at hbad
    obtain ⟨x, hr, hx⟩ := ih (t.pass_le_length pb reg conn) (t.pass_le_max pb reg conn) hbad (by rw [t.pass_visible, hl])
    exact ⟨x, .head ⟨_, t.formatPass pb reg conn, rfl⟩ hr, hx⟩

/-- **When the decoder is safe.**  On a read buffer every pass is free of overflow, removes at
least a header and reads only what it removed, and the loop ends, if and only if no length out of
range heads what the whole frames leave. -/
theorem decoder_safe_iff (b : Evbuffer) :
    DecoderSafe pb reg conn b ↔ HeadersOk (visible b (cint b.length)) := by
  have hs := cint_natCast_le b.length
  have hmax := cint_le (b.length : ℤ)
  refine ⟨fun hsafe => ?_, fun hok => ⟨fun x hr p hp => ?_, ?_⟩⟩
  · by_contra hbad
    obtain ⟨x, hr, hx, hx16, hlen⟩ := reach_bad_header pb reg conn hs hmax hbad
    obtain ⟨p, hp, hnot⟩ := unsafe_of_header pb reg conn hx hx16 hlen
    exact hnot (hsafe.1 x hr p hp)
  · have hstart : LoopOk b (cint b.length) := ⟨hs, hmax, hok⟩
    have hloop : LoopOk x.1 x.2 := LoopOk.reach (x := (b, cint b.length)) hstart hr
    obtain ⟨⟨n, t, rfl⟩, -⟩ := hloop.step hp
    exact t.passSafe
  · obtain ⟨b', hrun, -⟩ := messageFormatLoop_spec pb reg conn
      ((visible b (cint b.length)).length + 1) b (cint b.length) hs hmax hok (by omega)
    exact ⟨_, by rw [hrun]; rfl⟩

/-- A length of -16 makes the size zero: the pass removes nothing, and the loop never ends. -/
theorem messageFormatLoop_spin {b : Evbuffer} {s : ℤ} (hs : s ≤ b.length) (hs16 : 16 < s)
    (hmax : s ≤ intMax) (hlen : bodyLen b.bytes = -16) (fuel : ℕ) :
    messageFormatLoop pb reg conn fuel b s = none := by
  have hne : b.bytes ≠ [] := by
    intro hnil
    rw [Evbuffer.length, hnil, List.length_nil] at hs
    omega
  have hsize : cint (bodyLen b.bytes + 16) = 0 := by rw [hlen]; rfl
  have hpass : formatPass pb reg conn b s = some (passOf pb reg conn b s 0) := by
    rw [formatPass_eq, hsize, if_pos ⟨hs16, Evbuffer.peek_ne_nil (by omega) hne, by omega⟩]
  have hbuf : (passOf pb reg conn b s 0).buffer = b := b.remove_zero
  have hsum : (passOf pb reg conn b s 0).sumSize = s := by
    rw [passOf, sub_zero, cint_of_mem (by omega) hmax]
  induction fuel with
  | zero => rfl
  | succ fuel ih =>
    rw [messageFormatLoop, hpass]
    simp only [hbuf, hsum, ih, Option.map_none]

end Refinement

open GoFight.Protocol in
/-- A header with length -16 and one byte behind it. -/
theorem not_decoderSafe_minus_sixteen :
    ¬ DecoderSafe protobuf registry 7
      ⟨[[1, 0, 0, 0, 0, 0, 0, 0, 0, 0, 0, 0, 240, 255, 255, 255, 0]]⟩ := by
  intro hsafe
  obtain ⟨p, hp, hbad⟩ := unsafe_of_header protobuf registry 7
    (b := ⟨[[1, 0, 0, 0, 0, 0, 0, 0, 0, 0, 0, 0, 240, 255, 255, 255, 0]]⟩) (s := 17)
    (by decide) (by decide) (by decide)
  exact hbad (hsafe.1 _ .refl p hp)

end GoFight.Net
