import GoFight.Net.FormatSpec
import GoFight.Protocol.Messages

/-!
# The wire codec: `on_write` against `message_format`

`on_write` empties `conn_write_msgs_` into the write buffer, one block a node: four bytes of type,
eight of client connection, four of body length, then the serialised message.  This file puts that
encoder behind the decoder.

* `encodeNode` / `flushMsgs` — a block, and the loop over the queue;
* `Feeds` — a connection's read buffer growing chunk by chunk, `message_format` called each time;
* `Feeds.seen` — what any chunking of a stream without bad headers leaves: the nodes of its frames,
  and the rest after the last of them; so the chunking does not matter (`chunking_independent`);
* `split_encodeAll` — the frames of an encoded sequence are its blocks, as long as something follows;
  the last block is only cut off if its body is not empty, which is what decides the round trip.
-/

namespace GoFight.Net

open GoFight.Lib

section Codec

variable {Cls Msg : Type*} (pb : Protobuf Cls Msg) (reg : Registry Cls) (conn : Addr)

/-! ### The encoder -/

/-- The block `on_write` allocates and fills for a node. -/
def encodeNode (m : MsgNode Msg) : List UInt8 :=
  i32Bytes m.msgType ++ u64Bytes m.cliConn ++
    i32Bytes (Int32.ofNat (pb.byteSize m.msgData)) ++ pb.serializeToArray m.msgData

/-- The first loop of `on_write`: every queued node becomes a block of the write buffer. -/
def flushMsgs : List (MsgNode Msg) → Evbuffer → Evbuffer
  | [], buf => buf
  | m :: ms, buf => flushMsgs ms (buf.addReference (encodeNode pb m))

/-- The bytes of a sequence of nodes on the wire. -/
def encodeAll (ms : List (MsgNode Msg)) : List UInt8 := (ms.map (encodeNode pb)).flatten

theorem flushMsgs_bytes (ms : List (MsgNode Msg)) (buf : Evbuffer) :
    (flushMsgs pb ms buf).bytes = buf.bytes ++ encodeAll pb ms := by
  induction ms generalizing buf with
  | nil => simp [flushMsgs, encodeAll]
  | cons m ms ih =>
    rw [flushMsgs, ih, Evbuffer.addReference_bytes, List.append_assoc]
    rfl

theorem encodeAll_cons (m : MsgNode Msg) (ms : List (MsgNode Msg)) :
    encodeAll pb (m :: ms) = encodeNode pb m ++ encodeAll pb ms := rfl

/-! ### One block is one frame -/

/-- The header of a block. -/
def header (m : MsgNode Msg) : List UInt8 :=
  i32Bytes m.msgType ++ u64Bytes m.cliConn ++ i32Bytes (Int32.ofNat (pb.byteSize m.msgData))

theorem header_length (m : MsgNode Msg) : (header pb m).length = 16 := by
  simp [header]

theorem encodeNode_eq (m : MsgNode Msg) :
    encodeNode pb m = header pb m ++ pb.serializeToArray m.msgData := rfl

theorem encodeNode_length (m : MsgNode Msg) :
    (encodeNode pb m).length = 16 + (pb.serializeToArray m.msgData).length := by
  rw [encodeNode_eq, List.length_append, header_length]

theorem bodyLen_header (m : MsgNode Msg) (r : List UInt8)
    (h : (pb.byteSize m.msgData : ℤ) ≤ intMax) :
    bodyLen (header pb m ++ r) = pb.byteSize m.msgData := by
  have hlen : (header pb m).length = 16 := header_length pb m
  have hfield : ((header pb m).drop 12).take 4 = i32Bytes (Int32.ofNat (pb.byteSize m.msgData)) := by
    have h12 : (i32Bytes m.msgType ++ u64Bytes m.cliConn).length = 12 := by simp
    rw [header, List.drop_left' h12, List.take_of_length_le (by simp)]
  have hbound : pb.byteSize m.msgData < 2147483648 := by
    unfold intMax at h
    omega
  rw [bodyLen, lenField_append (by omega), lenField_eq (by omega), hfield, i32Val_i32Bytes,
    Int32.toInt_ofNat_of_lt (by simpa using hbound)]

variable {pb}

/-- The rule cuts a block off when something follows it or its body is not empty. -/
theorem next_encode (hpb : pb.Lawful) {m : MsgNode Msg} {r : List UInt8}
    (h : ((encodeNode pb m).length : ℤ) ≤ intMax)
    (hmore : pb.serializeToArray m.msgData ≠ [] ∨ r ≠ []) :
    frameRule.next (encodeNode pb m ++ r) = some (encodeNode pb m).length := by
  have hsize := hpb.byteSize_eq m.msgData
  rw [encodeNode_length] at h
  have hbody : bodyLen (encodeNode pb m ++ r) = (pb.serializeToArray m.msgData).length := by
    rw [encodeNode_eq, List.append_assoc, bodyLen_header pb m _ (by omega), hsize]
  have hlen : (encodeNode pb m ++ r).length =
      16 + (pb.serializeToArray m.msgData).length + r.length := by
    rw [List.length_append, encodeNode_length]
  have hpos : 0 < (pb.serializeToArray m.msgData).length + r.length := by
    rcases hmore with h | h
    · have := List.length_pos_iff.mpr h
      omega
    · have := List.length_pos_iff.mpr h
      omega
  refine nextFrame_eq_some.mpr ⟨by omega, ⟨by omega, by omega⟩, by omega, ?_⟩
  rw [encodeNode_length, hbody]
  omega

/-- The node a block decodes to: the one encoded, now on this connection. -/
theorem nodeOfFrame_encode (hpb : pb.Lawful) {m : MsgNode Msg}
    (h : ((encodeNode pb m).length : ℤ) ≤ intMax)
    (hreg : reg m.msgType = some (pb.clsOf m.msgData)) :
    nodeOfFrame pb reg conn (encodeNode pb m) = some { m with msgConn := conn } := by
  have hsize := hpb.byteSize_eq m.msgData
  rw [encodeNode_length] at h
  have hbody : bodyLen (encodeNode pb m) = (pb.serializeToArray m.msgData).length := by
    rw [encodeNode_eq, bodyLen_header pb m _ (by omega), hsize]
  have htype : (encodeNode pb m).take 4 = i32Bytes m.msgType := by
    rw [encodeNode, List.append_assoc, List.append_assoc, List.take_left' (by simp)]
  have hcli : ((encodeNode pb m).drop 4).take 8 = u64Bytes m.cliConn := by
    rw [encodeNode, List.append_assoc, List.append_assoc, List.drop_left' (by simp),
      List.take_left' (by simp)]
  have hdata : (encodeNode pb m).drop 16 = pb.serializeToArray m.msgData := by
    rw [encodeNode_eq, List.drop_left' (header_length pb m)]
  have hparse := hpb.parse_serialize m.msgData
  rw [nodeOfFrame, frameNode]
  simp only [htype, hcli, hdata, hbody, i32Val_i32Bytes, u64Val_u64Bytes, hreg, Option.map_some,
    Int.toNat_natCast, List.take_length, hparse]

/-! ### A sequence of blocks -/

/-- **The frames of an encoded sequence.**  Followed by something, every block is cut off. -/
theorem split_encodeAll (hpb : pb.Lawful) {r : List UInt8} (hr : r ≠ []) :
    ∀ ms : List (MsgNode Msg), ((encodeAll pb ms).length : ℤ) ≤ intMax →
      frameRule.split (encodeAll pb ms ++ r) =
        (ms.map (encodeNode pb) ++ (frameRule.split r).1, (frameRule.split r).2) := by
  intro ms
  induction ms with
  | nil => intro _; rfl
  | cons m ms ih =>
    intro hlen
    rw [encodeAll_cons, List.length_append] at hlen
    have hnext := next_encode hpb (r := encodeAll pb ms ++ r) (m := m) (by omega)
      (.inr (List.append_ne_nil_of_right_ne_nil _ hr))
    rw [encodeAll_cons, List.append_assoc, frameRule.split_cons hnext, ih (by omega)]
    rfl

/-! ### Feeding a connection -/

variable (pb)

/-- The read buffer and `conn_read_msgs_` of a connection while chunks come in: libevent appends a
chunk under some layout and runs the add callback, with `orig_size` and `n_added` as it says. -/
inductive Feeds : Evbuffer × List (MsgNode Msg) → List (List UInt8) →
    Evbuffer × List (MsgNode Msg) → Prop
  | done (st) : Feeds st [] st
  | chunk {st st' chunk chunks b r} : st.1.Extends chunk b →
      messageFormat pb reg conn b ⟨st.1.length, chunk.length, 0⟩ = some r →
      Feeds (r.1, st.2 ++ r.2) chunks st' → Feeds st (chunk :: chunks) st'

/-- The connection has seen the stream `l`: its nodes are those of the whole frames of `l`, its
buffer holds the rest. -/
def Seen (l : List UInt8) (st : Evbuffer × List (MsgNode Msg)) : Prop :=
  st.1.bytes = (frameRule.split l).2 ∧
    st.2 = (frameRule.split l).1.filterMap (nodeOfFrame pb reg conn)

theorem Seen.fresh : Seen pb reg conn [] (Evbuffer.empty, []) := by
  have h : frameRule.next [] = none := rfl
  rw [Seen, frameRule.split_none h]
  exact ⟨rfl, rfl⟩

variable {pb reg conn}

/-- **Step lemma.**  One chunk more of a stream without bad headers is decoded as far as it goes. -/
theorem Seen.feed {l chunk : List UInt8} {st : Evbuffer × List (MsgNode Msg)} {b : Evbuffer}
    (h : Seen pb reg conn l st) (hext : st.1.Extends chunk b)
    (hmax : ((l ++ chunk).length : ℤ) ≤ intMax) (hok : HeadersOk (l ++ chunk)) :
    ∃ r, messageFormat pb reg conn b ⟨st.1.length, chunk.length, 0⟩ = some r ∧
      Seen pb reg conn (l ++ chunk) (r.1, st.2 ++ r.2) := by
  obtain ⟨hbuf, hnodes⟩ := h
  have hbytes : b.bytes = (frameRule.split l).2 ++ chunk := by rw [hext, hbuf]
  have hrest : (frameRule.split l).2.length ≤ l.length := by
    have hflat := congrArg List.length (frameRule.split_flatten l)
    rw [List.length_append] at hflat
    omega
  have hlen : st.1.length + chunk.length = b.length := by
    rw [Evbuffer.length, Evbuffer.length, hbytes, hbuf, List.length_append]
  have hbmax : (b.length : ℤ) ≤ intMax := by
    rw [List.length_append] at hmax
    rw [Evbuffer.length, hbytes, List.length_append]
    omega
  obtain ⟨b', hrun, hb'⟩ := messageFormat_all pb reg conn hlen hbmax
    (hbytes ▸ (headersOk_append_iff l chunk).mp hok)
  refine ⟨_, hrun, ?_, ?_⟩
  · rw [hb', hbytes, frameRule.split_append l chunk]
  · rw [hnodes, hbytes, frameRule.split_append l chunk, List.filterMap_append]

/-- **Run lemma.**  Whatever the chunks and the layouts, the connection ends having seen the whole
stream. -/
theorem Feeds.seen {l : List UInt8} {st st' : Evbuffer × List (MsgNode Msg)}
    {chunks : List (List UInt8)} (hf : Feeds pb reg conn st chunks st')
    (h : Seen pb reg conn l st) (hmax : ((l ++ chunks.flatten).length : ℤ) ≤ intMax)
    (hok : HeadersOk (l ++ chunks.flatten)) : Seen pb reg conn (l ++ chunks.flatten) st' := by
  induction hf generalizing l with
  | done st => rwa [List.flatten_nil, List.append_nil]
  | @chunk st st' chunk chunks b r hext hrun _ ih =>
    rw [List.flatten_cons, ← List.append_assoc] at hmax hok ⊢
    have hmax' : ((l ++ chunk).length : ℤ) ≤ intMax := by
      rw [List.length_append] at hmax
      omega
    obtain ⟨r', hrun', hseen⟩ := h.feed hext hmax' hok.of_append
    rw [hrun] at hrun'
    cases hrun'
    exact ih hseen hmax hok

/-- Every chunking can be fed. -/
theorem Seen.exists_feeds {chunks : List (List UInt8)} :
    ∀ {l : List UInt8} {st : Evbuffer × List (MsgNode Msg)}, Seen pb reg conn l st →
      ((l ++ chunks.flatten).length : ℤ) ≤ intMax → HeadersOk (l ++ chunks.flatten) →
      ∃ st', Feeds pb reg conn st chunks st' := by
  induction chunks with
  | nil => exact fun {_ st} _ _ _ => ⟨st, .done st⟩
  | cons chunk chunks ih =>
    intro l st h hmax hok
    rw [List.flatten_cons, ← List.append_assoc] at hmax hok
    have hmax' : ((l ++ chunk).length : ℤ) ≤ intMax := by
      rw [List.length_append] at hmax
      omega
    have hext : st.1.Extends chunk (st.1.addReference chunk) := Evbuffer.addReference_bytes _ _
    obtain ⟨r, hrun, hseen⟩ := h.feed hext hmax' hok.of_append
    obtain ⟨st', hf⟩ := ih hseen hmax hok
    exact ⟨st', .chunk hext hrun hf⟩

/-! ### Chunking -/

/-- The type of a frame is registered. -/
def Registered (reg : Registry Cls) (frame : List UInt8) : Bool :=
  (reg (i32Val (frame.take 4))).isSome

variable (pb reg conn)

/-- However the stream `l` is cut into chunks, a fresh connection ends with the same nodes and the
same unread bytes.  The unread bytes are the same whatever types are registered, and the nodes are
those of the frames of registered types. -/
structure ChunkingIndependent (l : List UInt8) : Prop where
  fed : ∀ chunks, chunks.flatten = l → ∃ st, Feeds pb reg conn (Evbuffer.empty, []) chunks st
  same : ∀ {chunks₁ chunks₂ st₁ st₂}, chunks₁.flatten = l → chunks₂.flatten = l →
    Feeds pb reg conn (Evbuffer.empty, []) chunks₁ st₁ →
    Feeds pb reg conn (Evbuffer.empty, []) chunks₂ st₂ → st₁.2 = st₂.2 ∧ st₁.1.bytes = st₂.1.bytes
  framing : ∀ (reg' : Registry Cls) {chunks₁ chunks₂ st₁ st₂}, chunks₁.flatten = l →
    chunks₂.flatten = l → Feeds pb reg conn (Evbuffer.empty, []) chunks₁ st₁ →
    Feeds pb reg' conn (Evbuffer.empty, []) chunks₂ st₂ → st₁.1.bytes = st₂.1.bytes
  unregistered : ∀ {chunks st}, chunks.flatten = l →
    Feeds pb reg conn (Evbuffer.empty, []) chunks st →
    st.2 = ((frameRule.split l).1.filter (Registered reg)).filterMap (nodeOfFrame pb reg conn)

variable {pb reg conn}

theorem nodeOfFrame_eq_none {f : List UInt8} (h : reg (i32Val (f.take 4)) = none) :
    nodeOfFrame pb reg conn f = none := by
  rw [nodeOfFrame, frameNode, h]
  rfl

/-- The nodes of a list of frames are those of its frames of registered types. -/
theorem filterMap_registered (fs : List (List UInt8)) :
    (fs.filter (Registered reg)).filterMap (nodeOfFrame pb reg conn) =
      fs.filterMap (nodeOfFrame pb reg conn) := by
  rw [List.filterMap_filter]
  refine List.filterMap_congr fun f _ => ?_
  split
  · rfl
  · next hf => exact (nodeOfFrame_eq_none (Option.not_isSome_iff_eq_none.mp hf)).symm

/-- **Chunking does not matter** for a stream without bad headers. -/
theorem chunking_independent (l : List UInt8) (hmax : (l.length : ℤ) ≤ intMax) (hok : HeadersOk l) :
    ChunkingIndependent pb reg conn l := by
  have hseen : ∀ {reg' : Registry Cls} {chunks st}, chunks.flatten = l →
      Feeds pb reg' conn (Evbuffer.empty, []) chunks st → Seen pb reg' conn l st := by
    intro reg' chunks st hl hf
    have h := hf.seen (Seen.fresh pb reg' conn)
    rw [List.nil_append, hl] at h
    exact h hmax hok
  refine ⟨?_, ?_, ?_, ?_⟩
  · intro chunks hl
    refine (Seen.fresh pb reg conn).exists_feeds ?_ ?_
    · rwa [List.nil_append, hl]
    · rwa [List.nil_append, hl]
  · intro chunks₁ chunks₂ st₁ st₂ hl₁ hl₂ hf₁ hf₂
    obtain ⟨hbuf₁, hmsgs₁⟩ := hseen hl₁ hf₁
    obtain ⟨hbuf₂, hmsgs₂⟩ := hseen hl₂ hf₂
    exact ⟨hmsgs₁.trans hmsgs₂.symm, hbuf₁.trans hbuf₂.symm⟩
  · intro reg' chunks₁ chunks₂ st₁ st₂ hl₁ hl₂ hf₁ hf₂
    exact (hseen hl₁ hf₁).1.trans (hseen hl₂ hf₂).1.symm
  · intro chunks st hl hf
    rw [(hseen hl hf).2, filterMap_registered]

/-! ### The round trip -/

variable (pb reg conn)

/-- Fed in these chunks to a fresh connection, `ms` comes back: one node per original, in order,
with its type, client connection and message, and nothing is left in the read buffer. -/
def RoundTrips (ms : List (MsgNode Msg)) (chunks : List (List UInt8)) : Prop :=
  (∃ st, Feeds pb reg conn (Evbuffer.empty, []) chunks st) ∧
    ∀ st, Feeds pb reg conn (Evbuffer.empty, []) chunks st →
      st.2 = ms.map (fun m => { m with msgConn := conn }) ∧ st.1.bytes = []

variable {pb reg conn}

theorem nodesOf_encode (conn : Addr) (hpb : pb.Lawful) {ms : List (MsgNode Msg)}
    (hmax : ((encodeAll pb ms).length : ℤ) ≤ intMax)
    (hreg : ∀ m ∈ ms, reg m.msgType = some (pb.clsOf m.msgData)) :
    (ms.map (encodeNode pb)).filterMap (nodeOfFrame pb reg conn) =
      ms.map fun m => { m with msgConn := conn } := by
  induction ms with
  | nil => rfl
  | cons m ms ih =>
    rw [encodeAll_cons, List.length_append] at hmax
    rw [List.map_cons, List.map_cons,
      List.filterMap_cons_some (nodeOfFrame_encode reg conn hpb (by omega) (hreg m (by simp))),
      ih (by omega) fun m' hm' => hreg m' (List.mem_cons_of_mem m hm')]

/-- The frames of a whole encoded sequence. -/
theorem split_encodeAll_last (hpb : pb.Lawful) (ms : List (MsgNode Msg)) (m : MsgNode Msg)
    (hmax : ((encodeAll pb (ms ++ [m])).length : ℤ) ≤ intMax) :
    frameRule.split (encodeAll pb (ms ++ [m])) =
      if pb.serializeToArray m.msgData = [] then (ms.map (encodeNode pb), encodeNode pb m)
      else ((ms ++ [m]).map (encodeNode pb), []) := by
  have hlast : encodeAll pb (ms ++ [m]) = encodeAll pb ms ++ encodeNode pb m := by
    simp [encodeAll]
  have hne : encodeNode pb m ≠ [] := by
    intro hnil
    have hlen := encodeNode_length pb m
    rw [hnil, List.length_nil] at hlen
    omega
  rw [hlast, List.length_append] at hmax
  rw [hlast, split_encodeAll hpb hne ms (by omega)]
  by_cases hbody : pb.serializeToArray m.msgData = []
  · -- sixteen bytes are not more than a header
    have hshort : frameRule.next (encodeNode pb m) = none := by
      rw [Option.eq_none_iff_forall_ne_some]
      intro n hn
      have hlen := (nextFrame_eq_some.mp hn).1
      rw [encodeNode_length, hbody, List.length_nil] at hlen
      omega
    rw [if_pos hbody, frameRule.split_none hshort, List.append_nil]
  · have hnext := next_encode hpb (m := m) (r := []) (by omega) (.inl hbody)
    have hcut := frameRule.split_cons hnext
    have hnil : frameRule.next [] = none := rfl
    rw [List.append_nil, frameRule.split_none hnil] at hcut
    rw [if_neg hbody, hcut, List.map_append]
    rfl

theorem headersOk_encodeAll (hpb : pb.Lawful) (ms : List (MsgNode Msg))
    (hmax : ((encodeAll pb ms).length : ℤ) ≤ intMax) : HeadersOk (encodeAll pb ms) := by
  rcases List.eq_nil_or_concat ms with rfl | ⟨init, m, rfl⟩
  · have hnil : frameRule.next [] = none := rfl
    exact (headersOk_of_none hnil).mpr (.inl (by simp))
  · rw [List.concat_eq_append] at hmax ⊢
    rw [HeadersOk, split_encodeAll_last hpb init m hmax]
    left
    split
    · next hbody => rw [encodeNode_length, hbody, List.length_nil]
    · simp

/-- What a fresh connection ends with, fed an encoded sequence in any chunks. -/
theorem feeds_encodeAll (hpb : pb.Lawful) {ms : List (MsgNode Msg)}
    (hmax : ((encodeAll pb ms).length : ℤ) ≤ intMax) {chunks : List (List UInt8)}
    (hchunks : chunks.flatten = encodeAll pb ms) {st : Evbuffer × List (MsgNode Msg)}
    (hf : Feeds pb reg conn (Evbuffer.empty, []) chunks st) :
    Seen pb reg conn (encodeAll pb ms) st := by
  have hseen := hf.seen (Seen.fresh pb reg conn)
  rw [List.nil_append, hchunks] at hseen
  exact hseen hmax (headersOk_encodeAll hpb ms hmax)

/-- **The round trip, exactly.**  A sequence of nodes of registered types comes back, under every
chunking, if and only if the message of its last node does not serialise to nothing. -/
theorem roundTrips_iff (hpb : pb.Lawful) (ms : List (MsgNode Msg))
    (hreg : ∀ m ∈ ms, reg m.msgType = some (pb.clsOf m.msgData))
    (hmax : ((encodeAll pb ms).length : ℤ) ≤ intMax) (chunks : List (List UInt8))
    (hchunks : chunks.flatten = (flushMsgs pb ms Evbuffer.empty).bytes) :
    RoundTrips pb reg conn ms chunks ↔
      ∀ m ∈ ms.getLast?, pb.serializeToArray m.msgData ≠ [] := by
  rw [flushMsgs_bytes, Evbuffer.bytes_empty, List.nil_append] at hchunks
  have hexists : ∃ st, Feeds pb reg conn (Evbuffer.empty, []) chunks st :=
    (Seen.fresh pb reg conn).exists_feeds (by rwa [List.nil_append, hchunks])
      (by rw [List.nil_append, hchunks]; exact headersOk_encodeAll hpb ms hmax)
  have hnodes := nodesOf_encode conn hpb hmax hreg
  rcases List.eq_nil_or_concat ms with rfl | ⟨init, m, rfl⟩
  · -- nothing sent, nothing left
    have hnil : frameRule.split (encodeAll pb []) = ([], []) := frameRule.split_none rfl
    refine ⟨fun _ m hm => (by cases hm), fun _ => ⟨hexists, fun st hf => ?_⟩⟩
    obtain ⟨hbuf, hmsgs⟩ := feeds_encodeAll hpb hmax hchunks hf
    rw [hnil] at hbuf hmsgs
    exact ⟨hmsgs, hbuf⟩
  · rw [List.concat_eq_append] at *
    have hsplit := split_encodeAll_last hpb init m hmax
    have hlast : (∀ m' ∈ (init ++ [m]).getLast?, pb.serializeToArray m'.msgData ≠ []) ↔
        pb.serializeToArray m.msgData ≠ [] := by simp
    rw [hlast]
    refine ⟨fun htrip hbody => ?_, fun hbody => ⟨hexists, fun st hf => ?_⟩⟩
    · -- the header of the last block stays behind
      obtain ⟨st, hf⟩ := hexists
      obtain ⟨hbuf, -⟩ := feeds_encodeAll hpb hmax hchunks hf
      have hlen := encodeNode_length pb m
      rw [hsplit, if_pos hbody, (htrip.2 st hf).2] at hbuf
      have hempty : encodeNode pb m = [] := hbuf.symm
      rw [hempty, List.length_nil] at hlen
      omega
    · obtain ⟨hbuf, hmsgs⟩ := feeds_encodeAll hpb hmax hchunks hf
      rw [hsplit, if_neg hbody] at hbuf hmsgs
      exact ⟨hmsgs.trans hnodes, hbuf⟩

end Codec

/-! ### Concrete runs -/

section Concrete

open GoFight.Protocol

/-- A `Regist::Req` of gate 33. -/
def registNode : MsgNode Message := ⟨messageRegistReq, 5, ⟨.registReq, some 33⟩, 3⟩

/-- A `Regist::Res` with no field set: it serialises to nothing. -/
def blankNode : MsgNode Message := ⟨messageRegistRes, 5, ⟨.registRes, none⟩, 3⟩

/-- A registration, and a header without a body behind it. -/
theorem chunking_independent_registNode :
    ChunkingIndependent protobuf registry 7 (encodeAll protobuf [registNode, blankNode]) :=
  chunking_independent _ (by decide) (headersOk_encodeAll protobuf_lawful _ (by decide))

/-- A registration cut after nine bytes, inside its header. -/
theorem roundTrips_registNode :
    RoundTrips protobuf registry 7 [registNode]
      [(encodeNode protobuf registNode).take 9, (encodeNode protobuf registNode).drop 9] :=
  (roundTrips_iff protobuf_lawful [registNode] (by decide) (by decide) _ (by decide)).mpr
    (by decide)

/-- A message without a body is sixteen bytes on the wire, and they stay in the read buffer. -/
theorem not_roundTrips_blankNode :
    ¬ RoundTrips protobuf registry 7 [blankNode] [(flushMsgs protobuf [blankNode] .empty).bytes] := by
  rintro ⟨⟨st, hf⟩, htrip⟩
  have hseen : Seen protobuf registry 7 (encodeAll protobuf [blankNode]) st :=
    feeds_encodeAll protobuf_lawful (by decide) (by decide) hf
  have hrest : frameRule.next (encodeAll protobuf [blankNode]) = none := by decide
  have hbuf := hseen.1
  rw [(htrip st hf).2, frameRule.split_none hrest] at hbuf
  exact absurd hbuf (by decide)

end Concrete

end GoFight.Net
