import GoFight.Lib.Varint
import GoFight.Lib.LittleEndian

/-!
# The tagged wire format and its unknown fields

A message on the wire is a sequence of fields, each a tag (a field number and a wire type) and a
payload: a varint, a fixed-width word, a string with its length, or a group of further fields up to
an end tag.  This file is about the fields a parser does not know and keeps:

* `UnknownFieldSet` — the fields kept; `serialize` and `byteSize` — how they are written;
* `skipMessage` — how they are read back, with the fields left behind by a read that fails;
* `Encodes` — the grammar: which bytes stand for which fields, padded varints included;
* `skipMessage_of_encodes`, `encodes_of_skipMessage` — **the reader accepts the grammar and nothing
  else**;
* `UnknownFieldSet.Ok`, `skipMessage_ok` — what is read can be written, also after a failure;
* `encodes_serialize`, `byteSize_eq` — what is written is in the grammar, and has the size computed.

A varint has at most ten bytes, and a reader of 32 bits drops the others.
-/

namespace GoFight.Lib.WireFormat

/-! ### Tags -/

/-- The tag of a field number and a wire type. -/
def makeTag (number wireType : ℕ) : ℕ := number * 8 + wireType

/-- The wire type that opens a group. -/
def startGroup : ℕ := 3

/-- The wire type that closes one. -/
def endGroup : ℕ := 4

/-- A tag and what follows; at the end of the input, or before a varint that does not end, the tag
is 0. -/
def readTag (bs : List UInt8) : ℕ × List UInt8 :=
  match readVarint 10 bs with
  | none => (0, bs)
  | some r => (r.1 % 2 ^ 32, r.2)

/-- No field follows: the tag is 0 or closes a group. -/
def Stops (tag : ℕ) : Prop := tag = 0 ∨ tag % 8 = endGroup

instance (tag : ℕ) : Decidable (Stops tag) := inferInstanceAs (Decidable (_ ∨ _))

/-- A tag as it is written. -/
def tagBytes (number wireType : ℕ) : List UInt8 := varintBytes 5 (makeTag number wireType)

/-! ### Payloads -/

/-- A payload other than a group. -/
inductive Scalar
  | varint (value : UInt64)
  | fixed64 (value : UInt64)
  | lengthDelimited (data : List UInt8)
  | fixed32 (value : UInt32)
deriving DecidableEq, Repr

namespace Scalar

def wireType : Scalar → ℕ
  | varint _ => 0
  | fixed64 _ => 1
  | lengthDelimited _ => 2
  | fixed32 _ => 5

def bytes : Scalar → List UInt8
  | varint value => varintBytes 10 value.toNat
  | fixed64 value => leBytes 8 value.toNat
  | lengthDelimited data => varintBytes 5 data.length ++ data
  | fixed32 value => leBytes 4 value.toNat

/-- A string whose length is an `int`. -/
def Ok : Scalar → Prop
  | lengthDelimited data => data.length < 2 ^ 31
  | _ => True

end Scalar

/-- A payload of a wire type: the value kept, and what follows when the read succeeds.  A string
that is cut off is kept as far as it goes, and one whose length is no `int` as an empty one. -/
def readScalar (wireType : ℕ) (bs : List UInt8) : Option Scalar × Option (List UInt8) :=
  match wireType with
  | 0 =>
      match readVarint 10 bs with
      | none => (none, none)
      | some r => (some (.varint (UInt64.ofNat r.1)), some r.2)
  | 1 =>
      if bs.length < 8 then (none, none)
      else (some (.fixed64 (UInt64.ofNat (leVal (bs.take 8)))), some (bs.drop 8))
  | 2 =>
      match readVarint 10 bs with
      | none => (none, none)
      | some r =>
          let size := r.1 % 2 ^ 32
          if 2 ^ 31 ≤ size then (some (.lengthDelimited []), none)
          else if r.2.length < size then (some (.lengthDelimited r.2), none)
          else (some (.lengthDelimited (r.2.take size)), some (r.2.drop size))
  | 5 =>
      if bs.length < 4 then (none, none)
      else (some (.fixed32 (UInt32.ofNat (leVal (bs.take 4)))), some (bs.drop 4))
  | _ => (none, none)

/-! ### Sets of fields -/

/-- The unknown fields in order: a field, and those behind it. -/
inductive UnknownFieldSet
  | empty
  | scalar (number : ℕ) (value : Scalar) (rest : UnknownFieldSet)
  | group (number : ℕ) (fields rest : UnknownFieldSet)
deriving DecidableEq, Repr

namespace UnknownFieldSet

/-- The fields of one set, then those of the other. -/
def append : UnknownFieldSet → UnknownFieldSet → UnknownFieldSet
  | empty, other => other
  | scalar number value rest, other => scalar number value (rest.append other)
  | group number fields rest, other => group number fields (rest.append other)

/-- The bytes of the fields. -/
def serialize : UnknownFieldSet → List UInt8
  | empty => []
  | scalar number value rest => tagBytes number value.wireType ++ (value.bytes ++ rest.serialize)
  | group number fields rest =>
      tagBytes number startGroup ++
        (fields.serialize ++ (tagBytes number endGroup ++ rest.serialize))

/-- Field numbers have 29 bits, no tag is 0, strings have an `int` for their length, and groups are
nested at most `levels` deep. -/
def Ok : ℕ → UnknownFieldSet → Prop
  | _, empty => True
  | levels, scalar number value rest =>
      number < 2 ^ 29 ∧ 0 < makeTag number value.wireType ∧ value.Ok ∧ rest.Ok levels
  | 0, group _ _ _ => False
  | levels + 1, group number fields rest =>
      number < 2 ^ 29 ∧ fields.Ok levels ∧ rest.Ok (levels + 1)

@[simp] theorem append_empty (s : UnknownFieldSet) : s.append empty = s := by
  induction s with
  | empty => rfl
  | scalar number value rest ih => rw [append, ih]
  | group number fields rest _ ih => rw [append, ih]

theorem append_assoc (s t u : UnknownFieldSet) : (s.append t).append u = s.append (t.append u) := by
  induction s with
  | empty => rfl
  | scalar number value rest ih => rw [append, append, append, ih]
  | group number fields rest _ ih => rw [append, append, append, ih]

theorem Ok.append {levels : ℕ} {s t : UnknownFieldSet} (hs : s.Ok levels) (ht : t.Ok levels) :
    (s.append t).Ok levels := by
  induction s with
  | empty => exact ht
  | scalar number value rest ih => exact ⟨hs.1, hs.2.1, hs.2.2.1, ih hs.2.2.2⟩
  | group number fields rest _ ih =>
    cases levels with
    | zero => exact hs.elim
    | succ levels => exact ⟨hs.1, hs.2.1, ih hs.2.2⟩

end UnknownFieldSet

/-- What a read of fields leaves: the fields added, and, when it succeeds, the tag it stopped at and
what follows. -/
abbrev Skipped := UnknownFieldSet × Option (ℕ × List UInt8)

/-- One field behind its tag: the fields added, and what follows when the read succeeds.  `group`
reads the fields of a group; there is none at the limit of the nesting. -/
def skipField (group : Option (List UInt8 → Skipped)) (tag : ℕ) (bs : List UInt8) :
    UnknownFieldSet × Option (List UInt8) :=
  if tag % 8 = startGroup then
    match group with
    | none => (.empty, none)
    | some read =>
        (.group (tag / 8) (read bs).1 .empty, (read bs).2.bind fun e =>
          if e.1 = makeTag (tag / 8) endGroup then some e.2 else none)
  else
    let r := readScalar (tag % 8) bs
    (r.1.elim .empty fun value => .scalar (tag / 8) value .empty, r.2)

/-- The fields up to the tag that ends them.  The first argument bounds the number of tags, the
second the nesting. -/
def skipMessage : ℕ → ℕ → List UInt8 → Skipped
  | 0, _, _ => (.empty, none)
  | fuel + 1, levels, bs =>
      let t := readTag bs
      if Stops t.1 then (.empty, some t)
      else
        let f := skipField (if levels = 0 then none else some (skipMessage fuel (levels - 1))) t.1 t.2
        match f.2 with
        | none => (f.1, none)
        | some rest =>
            let r := skipMessage fuel levels rest
            (f.1.append r.1, r.2)

/-- How a group is read below `levels`. -/
def groupReader (fuel levels : ℕ) : Option (List UInt8 → Skipped) :=
  if levels = 0 then none else some (skipMessage fuel (levels - 1))

theorem groupReader_zero (fuel : ℕ) : groupReader fuel 0 = none := rfl

theorem groupReader_succ (fuel levels : ℕ) :
    groupReader fuel (levels + 1) = some (skipMessage fuel levels) := rfl

theorem skipMessage_stops {fuel levels : ℕ} {bs : List UInt8} (h : Stops (readTag bs).1) :
    skipMessage (fuel + 1) levels bs = (.empty, some (readTag bs)) := by
  rw [skipMessage]
  exact if_pos h

theorem skipMessage_field {fuel levels : ℕ} {bs : List UInt8} (h : ¬ Stops (readTag bs).1) :
    skipMessage (fuel + 1) levels bs =
      match (skipField (groupReader fuel levels) (readTag bs).1 (readTag bs).2).2 with
      | none => ((skipField (groupReader fuel levels) (readTag bs).1 (readTag bs).2).1, none)
      | some rest =>
          ((skipField (groupReader fuel levels) (readTag bs).1 (readTag bs).2).1.append
            (skipMessage fuel levels rest).1, (skipMessage fuel levels rest).2) := by
  rw [skipMessage]
  exact if_neg h

/-! ### The grammar -/

/-- `bs` is a varint for `n`, of at most ten bytes. -/
def IsVarint (bs : List UInt8) (n : ℕ) : Prop :=
  ∀ rest, readVarint 10 (bs ++ rest) = some (n, rest)

/-- `bs` is a varint whose low 32 bits are the tag. -/
def IsTag (bs : List UInt8) (tag : ℕ) : Prop := 0 < tag ∧ ∃ n, IsVarint bs n ∧ n % 2 ^ 32 = tag

/-- The bytes of a payload. -/
inductive IsScalar : List UInt8 → Scalar → Prop
  | varint {bs : List UInt8} {n : ℕ} (h : IsVarint bs n) : IsScalar bs (.varint (UInt64.ofNat n))
  | fixed64 {bs : List UInt8} (h : bs.length = 8) :
      IsScalar bs (.fixed64 (UInt64.ofNat (leVal bs)))
  | lengthDelimited {bs data : List UInt8} {n : ℕ} (h : IsVarint bs n)
      (hn : n % 2 ^ 32 = data.length) (hlt : data.length < 2 ^ 31) :
      IsScalar (bs ++ data) (.lengthDelimited data)
  | fixed32 {bs : List UInt8} (h : bs.length = 4) :
      IsScalar bs (.fixed32 (UInt32.ofNat (leVal bs)))

/-- The bytes of a sequence of fields, nested at most `levels` deep. -/
inductive Encodes : ℕ → List UInt8 → UnknownFieldSet → Prop
  | empty (levels : ℕ) : Encodes levels [] .empty
  | scalar {levels number : ℕ} {value : Scalar} {rest : UnknownFieldSet} {t p bs : List UInt8}
      (ht : IsTag t (makeTag number value.wireType)) (hp : IsScalar p value)
      (hbs : Encodes levels bs rest) :
      Encodes levels (t ++ (p ++ bs)) (.scalar number value rest)
  | group {levels number : ℕ} {fields rest : UnknownFieldSet} {t inner e bs : List UInt8}
      (ht : IsTag t (makeTag number startGroup)) (hinner : Encodes levels inner fields)
      (he : IsTag e (makeTag number endGroup)) (hbs : Encodes (levels + 1) bs rest) :
      Encodes (levels + 1) (t ++ (inner ++ (e ++ bs))) (.group number fields rest)

theorem Encodes.append {levels : ℕ} {as bs : List UInt8} {s t : UnknownFieldSet}
    (hs : Encodes levels as s) (ht : Encodes levels bs t) :
    Encodes levels (as ++ bs) (s.append t) := by
  induction hs with
  | empty levels => exact ht
  | scalar htag hp _ ih =>
    rw [List.append_assoc, List.append_assoc]
    exact .scalar htag hp (ih ht)
  | group htag hinner he _ _ ih =>
    rw [List.append_assoc, List.append_assoc, List.append_assoc]
    exact .group htag hinner he (ih ht)

/-! ### Varints and tags, read -/

theorem IsVarint.pos {bs : List UInt8} {n : ℕ} (h : IsVarint bs n) : 0 < bs.length := by
  cases bs with
  | nil => cases h []
  | cons b bs => exact Nat.succ_pos _

/-- A varint that is read does not depend on what follows. -/
theorem readVarint_split {k n : ℕ} {bs rest : List UInt8} (h : readVarint k bs = some (n, rest)) :
    ∃ v, bs = v ++ rest ∧ ∀ tail, readVarint k (v ++ tail) = some (n, tail) := by
  induction k generalizing bs n with
  | zero => cases h
  | succ k ih =>
    cases bs with
    | nil => cases h
    | cons b bs =>
      rw [readVarint] at h
      split at h
      · next hb =>
        simp only [Option.some.injEq, Prod.mk.injEq] at h
        obtain ⟨rfl, rfl⟩ := h
        refine ⟨[b], List.singleton_append.symm, fun tail => ?_⟩
        rw [List.singleton_append, readVarint, if_pos hb]
      · next hb =>
        obtain ⟨⟨m, r⟩, hm, heq⟩ := Option.map_eq_some_iff.mp h
        simp only [Prod.mk.injEq] at heq
        obtain ⟨rfl, rfl⟩ := heq
        obtain ⟨v, rfl, hv⟩ := ih hm
        refine ⟨b :: v, List.cons_append.symm, fun tail => ?_⟩
        rw [List.cons_append, readVarint, if_neg hb, hv, Option.map_some]

theorem isVarint_of_read {n : ℕ} {bs rest : List UInt8} (h : readVarint 10 bs = some (n, rest)) :
    ∃ v, bs = v ++ rest ∧ IsVarint v n := readVarint_split h

theorem IsTag.pos {bs : List UInt8} {tag : ℕ} (h : IsTag bs tag) : 0 < bs.length := by
  obtain ⟨-, n, hn, -⟩ := h
  exact hn.pos

theorem IsTag.lt {bs : List UInt8} {tag : ℕ} (h : IsTag bs tag) : tag < 2 ^ 32 := by
  obtain ⟨-, n, -, rfl⟩ := h
  exact Nat.mod_lt _ (by norm_num)

theorem IsTag.read {bs : List UInt8} {tag : ℕ} (h : IsTag bs tag) (rest : List UInt8) :
    readTag (bs ++ rest) = (tag, rest) := by
  obtain ⟨-, n, hn, rfl⟩ := h
  rw [readTag, hn rest]

theorem readTag_lt (bs : List UInt8) : (readTag bs).1 < 2 ^ 32 := by
  rw [readTag]
  split
  · norm_num
  · exact Nat.mod_lt _ (by norm_num)

/-- A tag other than 0 stands at the head of the input. -/
theorem isTag_of_readTag {bs : List UInt8} (h : (readTag bs).1 ≠ 0) :
    ∃ t, bs = t ++ (readTag bs).2 ∧ IsTag t (readTag bs).1 := by
  rw [readTag] at h ⊢
  split at h
  · exact absurd rfl h
  · next r hr =>
    obtain ⟨t, ht, hn⟩ := isVarint_of_read hr
    exact ⟨t, ht, Nat.pos_of_ne_zero h, r.1, hn, rfl⟩

theorem makeTag_mod {number wireType : ℕ} (h : wireType < 8) :
    makeTag number wireType % 8 = wireType := by
  rw [makeTag]
  omega

theorem makeTag_div {number wireType : ℕ} (h : wireType < 8) :
    makeTag number wireType / 8 = number := by
  rw [makeTag]
  omega

theorem makeTag_div_mod (tag : ℕ) : makeTag (tag / 8) (tag % 8) = tag := by
  rw [makeTag]
  omega

theorem Scalar.wireType_lt (value : Scalar) : value.wireType < 8 := by
  cases value <;> simp [wireType]

theorem Scalar.wireType_ne (value : Scalar) :
    value.wireType ≠ startGroup ∧ value.wireType ≠ endGroup := by
  cases value <;> simp [wireType, startGroup, endGroup]

theorem Encodes.eq_empty {levels : ℕ} {fs : UnknownFieldSet} (h : Encodes levels [] fs) :
    fs = .empty := by
  generalize hbs : ([] : List UInt8) = bs at h
  cases h with
  | empty => rfl
  | scalar ht _ _ =>
    have hpos := ht.pos
    rw [(List.append_eq_nil_iff.mp hbs.symm).1] at hpos
    cases hpos
  | group ht _ _ _ =>
    have hpos := ht.pos
    rw [(List.append_eq_nil_iff.mp hbs.symm).1] at hpos
    cases hpos

/-! ### Payloads, read -/

theorem readScalar_of_isScalar {p : List UInt8} {value : Scalar} (h : IsScalar p value)
    (rest : List UInt8) : readScalar value.wireType (p ++ rest) = (some value, some rest) := by
  cases h with
  | varint hn =>
    show readScalar 0 _ = _
    rw [readScalar, hn rest]
  | fixed64 hlen =>
    show readScalar 1 _ = _
    have hge : ¬ (p ++ rest).length < 8 := by
      rw [List.length_append]
      omega
    rw [readScalar, if_neg hge, ← hlen, List.take_left, List.drop_left]
  | @lengthDelimited bs data n hn hsize hlt =>
    show readScalar 2 _ = _
    have hlong : ¬ (data ++ rest).length < data.length := by
      rw [List.length_append]
      omega
    rw [readScalar, List.append_assoc, hn (data ++ rest)]
    simp only [hsize]
    rw [if_neg (Nat.not_le_of_lt hlt), if_neg hlong, List.take_left, List.drop_left]
  | fixed32 hlen =>
    show readScalar 5 _ = _
    have hge : ¬ (p ++ rest).length < 4 := by
      rw [List.length_append]
      omega
    rw [readScalar, if_neg hge, ← hlen, List.take_left, List.drop_left]

theorem isScalar_of_readScalar {wireType : ℕ} {bs rest : List UInt8} {o : Option Scalar}
    (h : readScalar wireType bs = (o, some rest)) :
    ∃ value p, o = some value ∧ value.wireType = wireType ∧ bs = p ++ rest ∧ IsScalar p value := by
  unfold readScalar at h
  split at h
  · split at h
    · cases h
    · next r hr =>
      cases h
      obtain ⟨p, hp, hn⟩ := isVarint_of_read hr
      exact ⟨_, p, rfl, rfl, hp, .varint hn⟩
  · split at h
    · cases h
    · next hlen =>
      cases h
      have htake : (bs.take 8).length = 8 := by
        rw [List.length_take]
        omega
      exact ⟨_, bs.take 8, rfl, rfl, (List.take_append_drop 8 bs).symm, .fixed64 htake⟩
  · split at h
    · cases h
    · next r hr =>
      dsimp only at h
      split at h
      · cases h
      · split at h
        · cases h
        · next hsmall hlong =>
          cases h
          obtain ⟨v, hv, hn⟩ := isVarint_of_read hr
          have htake : (r.2.take (r.1 % 2 ^ 32)).length = r.1 % 2 ^ 32 := by
            rw [List.length_take]
            omega
          refine ⟨_, v ++ r.2.take (r.1 % 2 ^ 32), rfl, rfl, ?_, .lengthDelimited hn htake.symm ?_⟩
          · rw [List.append_assoc, List.take_append_drop]
            exact hv
          · rw [htake]
            omega
  · split at h
    · cases h
    · next hlen =>
      cases h
      have htake : (bs.take 4).length = 4 := by
        rw [List.length_take]
        omega
      exact ⟨_, bs.take 4, rfl, rfl, (List.take_append_drop 4 bs).symm, .fixed32 htake⟩
  · cases h

/-- The value kept is one that can be written, also when the read fails. -/
theorem readScalar_ok {wireType : ℕ} {bs : List UInt8} {value : Scalar}
    (h : (readScalar wireType bs).1 = some value) : value.Ok ∧ value.wireType = wireType := by
  unfold readScalar at h
  split at h
  · split at h
    · cases h
    · cases h
      exact ⟨trivial, rfl⟩
  · split at h
    · cases h
    · cases h
      exact ⟨trivial, rfl⟩
  · split at h
    · cases h
    · dsimp only at h
      split at h
      · cases h
        exact ⟨by norm_num [Scalar.Ok], rfl⟩
      · next hsmall =>
        split at h
        · next hlong =>
          cases h
          exact ⟨by rw [Scalar.Ok]; omega, rfl⟩
        · cases h
          refine ⟨?_, rfl⟩
          rw [Scalar.Ok, List.length_take]
          omega
  · split at h
    · cases h
    · cases h
      exact ⟨trivial, rfl⟩
  · cases h

/-! ### Fields, read -/

theorem skipField_scalar {g : Option (List UInt8 → Skipped)} {number : ℕ} {value : Scalar}
    {p : List UInt8} (h : IsScalar p value) (rest : List UInt8) :
    skipField g (makeTag number value.wireType) (p ++ rest) =
      (.scalar number value .empty, some rest) := by
  unfold skipField
  rw [makeTag_mod value.wireType_lt, if_neg value.wireType_ne.1, readScalar_of_isScalar h,
    makeTag_div value.wireType_lt]
  rfl

theorem skipField_group {read : List UInt8 → Skipped} {number : ℕ} {fields : UnknownFieldSet}
    {bs rest : List UInt8} (h : read bs = (fields, some (makeTag number endGroup, rest))) :
    skipField (some read) (makeTag number startGroup) bs =
      (.group number fields .empty, some rest) := by
  have hmod : makeTag number startGroup % 8 = startGroup := makeTag_mod (by decide)
  have hdiv : makeTag number startGroup / 8 = number := makeTag_div (by decide)
  unfold skipField
  rw [if_pos hmod]
  simp only [h, hdiv, Option.bind_some, if_true]

theorem IsTag.not_stops_scalar {t : List UInt8} {number : ℕ} {value : Scalar}
    (ht : IsTag t (makeTag number value.wireType)) : ¬ Stops (makeTag number value.wireType) := by
  rintro (hzero | hend)
  · exact absurd hzero ht.1.ne'
  · exact value.wireType_ne.2 ((makeTag_mod value.wireType_lt).symm.trans hend)

theorem not_stops_startGroup (number : ℕ) : ¬ Stops (makeTag number startGroup) := by
  rw [Stops, makeTag, startGroup, endGroup]
  omega

/-- What a field that is read was. -/
theorem skipField_cases {g : Option (List UInt8 → Skipped)} {tag : ℕ} {bs rest : List UInt8}
    {f : UnknownFieldSet} (h : skipField g tag bs = (f, some rest)) :
    (∃ value p, f = .scalar (tag / 8) value .empty ∧ value.wireType = tag % 8 ∧ bs = p ++ rest ∧
        IsScalar p value) ∨
      ∃ read fields, g = some read ∧ tag % 8 = startGroup ∧ f = .group (tag / 8) fields .empty ∧
        read bs = (fields, some (makeTag (tag / 8) endGroup, rest)) := by
  unfold skipField at h
  split at h
  · next hgroup =>
    cases g with
    | none => cases h
    | some read =>
      simp only [Prod.mk.injEq] at h
      obtain ⟨hf, hrest⟩ := h
      obtain ⟨e, he, hend⟩ := Option.bind_eq_some_iff.mp hrest
      rw [Option.ite_none_right_eq_some, Option.some.injEq] at hend
      refine .inr ⟨read, (read bs).1, rfl, hgroup, hf.symm, Prod.ext rfl ?_⟩
      rw [he, ← hend.1, ← hend.2]
  · generalize hr : readScalar (tag % 8) bs = r at h
    obtain ⟨o, behind⟩ := r
    simp only [Prod.mk.injEq] at h
    obtain ⟨rfl, rfl⟩ := h
    obtain ⟨value, p, rfl, htype, hbs, hp⟩ := isScalar_of_readScalar hr
    exact .inl ⟨value, p, rfl, htype, hbs, hp⟩

/-- **The reader accepts what the grammar has**, up to the tag that ends the fields. -/
theorem skipMessage_of_encodes {levels : ℕ} {bs : List UInt8} {fs : UnknownFieldSet}
    (h : Encodes levels bs fs) {fuel : ℕ} (tail : List UInt8) (hfuel : bs.length < fuel)
    (hstop : Stops (readTag tail).1) :
    skipMessage fuel levels (bs ++ tail) = (fs, some (readTag tail)) := by
  induction h generalizing fuel tail with
  | empty levels =>
    obtain ⟨fuel, rfl⟩ := Nat.exists_eq_succ_of_ne_zero (Nat.ne_of_gt hfuel)
    exact skipMessage_stops hstop
  | @scalar levels number value rest t p bs ht hp _ ih =>
    obtain ⟨fuel, rfl⟩ := Nat.exists_eq_succ_of_ne_zero (Nat.ne_of_gt (Nat.zero_lt_of_lt hfuel))
    have hpos := ht.pos
    simp only [List.length_append] at hfuel
    have hread : readTag (t ++ (p ++ bs) ++ tail) =
        (makeTag number value.wireType, p ++ (bs ++ tail)) := by
      rw [List.append_assoc, List.append_assoc, ht.read]
    have hbehind : bs.length < fuel := by omega
    rw [skipMessage_field (by rw [hread]; exact ht.not_stops_scalar), hread]
    simp only [skipField_scalar hp, ih tail hbehind hstop, UnknownFieldSet.append]
  | @group levels number fields rest t inner e bs ht _ he _ ihinner ih =>
    obtain ⟨fuel, rfl⟩ := Nat.exists_eq_succ_of_ne_zero (Nat.ne_of_gt (Nat.zero_lt_of_lt hfuel))
    have hpos := ht.pos
    simp only [List.length_append] at hfuel
    have hread : readTag (t ++ (inner ++ (e ++ bs)) ++ tail) =
        (makeTag number startGroup, inner ++ (e ++ (bs ++ tail))) := by
      rw [List.append_assoc, List.append_assoc, List.append_assoc, ht.read]
    have hend : readTag (e ++ (bs ++ tail)) = (makeTag number endGroup, bs ++ tail) := he.read _
    have hinner : skipMessage fuel levels (inner ++ (e ++ (bs ++ tail))) =
        (fields, some (makeTag number endGroup, bs ++ tail)) := by
      rw [← hend]
      refine ihinner _ (by omega) ?_
      rw [hend]
      exact .inr (makeTag_mod (by decide))
    have hbehind : bs.length < fuel := by omega
    rw [skipMessage_field (by rw [hread]; exact not_stops_startGroup number), hread,
      groupReader_succ]
    simp only [skipField_group hinner, ih tail hbehind hstop, UnknownFieldSet.append]

/-- A group, read with its end tag. -/
theorem skipField_encodes {levels fuel number : ℕ} {inner e : List UInt8} {fields : UnknownFieldSet}
    (h : Encodes levels inner fields) (he : IsTag e (makeTag number endGroup))
    (hfuel : inner.length < fuel) (rest : List UInt8) :
    skipField (groupReader fuel (levels + 1)) (makeTag number startGroup)
      (inner ++ (e ++ rest)) = (.group number fields .empty, some rest) := by
  rw [groupReader_succ]
  refine skipField_group ?_
  rw [skipMessage_of_encodes h (e ++ rest) hfuel, he.read]
  rw [he.read]
  exact .inr (makeTag_mod (by decide))

/-- One field that is read, with its tag. -/
theorem encodes_of_skipField_of {fuel levels tag : ℕ} {t bs rest : List UInt8} {f : UnknownFieldSet}
    (ht : IsTag t tag) (h : skipField (groupReader fuel levels) tag bs = (f, some rest))
    (hsub : ∀ {l tag bs rest fs}, skipMessage fuel l bs = (fs, some (tag, rest)) →
      ∃ front tail, bs = front ++ tail ∧ Encodes l front fs ∧ readTag tail = (tag, rest) ∧
        Stops tag) :
    ∃ p, bs = p ++ rest ∧ Encodes levels (t ++ p) f := by
  rcases skipField_cases h with
    ⟨value, p, rfl, htype, hp, hvalue⟩ | ⟨read, fields, hread, htype, rfl, hinner⟩
  · refine ⟨p, hp, ?_⟩
    rw [← List.append_nil p]
    refine .scalar ?_ hvalue (.empty levels)
    rw [htype, makeTag_div_mod]
    exact ht
  · cases levels with
    | zero =>
      rw [groupReader_zero] at hread
      cases hread
    | succ levels =>
      rw [groupReader_succ, Option.some.injEq] at hread
      subst hread
      obtain ⟨inner, tail, rfl, hfields, htag, -⟩ := hsub hinner
      have hne : (readTag tail).1 ≠ 0 := by
        rw [htag, makeTag, endGroup]
        omega
      obtain ⟨e, he, hetag⟩ := isTag_of_readTag hne
      rw [htag] at he hetag
      refine ⟨inner ++ e, ?_, ?_⟩
      · rw [List.append_assoc, ← he]
      · rw [← List.append_nil e]
        refine .group ?_ hfields hetag (.empty _)
        rw [← htype, makeTag_div_mod]
        exact ht

/-- **The reader accepts nothing else.** -/
theorem encodes_of_skipMessage {fuel levels tag : ℕ} {bs rest : List UInt8} {fs : UnknownFieldSet}
    (h : skipMessage fuel levels bs = (fs, some (tag, rest))) :
    ∃ front tail, bs = front ++ tail ∧ Encodes levels front fs ∧ readTag tail = (tag, rest) ∧
      Stops tag := by
  induction fuel generalizing levels bs fs tag rest with
  | zero => cases h
  | succ fuel ih =>
    by_cases hstop : Stops (readTag bs).1
    · rw [skipMessage_stops hstop] at h
      simp only [Prod.mk.injEq, Option.some.injEq] at h
      obtain ⟨rfl, htag⟩ := h
      rw [htag] at hstop
      exact ⟨[], bs, rfl, .empty levels, htag, hstop⟩
    · rw [skipMessage_field hstop] at h
      have hne : (readTag bs).1 ≠ 0 := fun hzero => hstop (.inl hzero)
      obtain ⟨t, hbs, ht⟩ := isTag_of_readTag hne
      generalize hf : skipField (groupReader fuel levels) (readTag bs).1 (readTag bs).2 = f at h
      obtain ⟨f, _ | behind⟩ := f
      · cases h
      · simp only [Prod.mk.injEq] at h
        obtain ⟨rfl, hrest⟩ := h
        obtain ⟨front, tail, rfl, hfront, htail, hend⟩ :=
          ih (Prod.ext (Eq.refl (skipMessage fuel levels behind).1) hrest)
        obtain ⟨p, hp, hfield⟩ := encodes_of_skipField_of ht hf ih
        refine ⟨t ++ p ++ front, tail, ?_, hfield.append hfront, htail, hend⟩
        rw [List.append_assoc, List.append_assoc, ← hp]
        exact hbs

theorem encodes_of_skipField {fuel levels tag : ℕ} {t bs rest : List UInt8} {f : UnknownFieldSet}
    (ht : IsTag t tag) (h : skipField (groupReader fuel levels) tag bs = (f, some rest)) :
    ∃ p, bs = p ++ rest ∧ Encodes levels (t ++ p) f :=
  encodes_of_skipField_of ht h encodes_of_skipMessage

/-! ### What a read leaves, also one that fails -/

theorem skipField_ok {fuel levels tag : ℕ} {bs : List UInt8} (htag : tag < 2 ^ 32) (hne : tag ≠ 0)
    (hsub : ∀ l bs, (skipMessage fuel l bs).1.Ok l) :
    (skipField (groupReader fuel levels) tag bs).1.Ok levels := by
  unfold skipField
  split
  · cases levels with
    | zero => exact trivial
    | succ levels => exact ⟨by omega, hsub levels bs, trivial⟩
  · generalize hr : readScalar (tag % 8) bs = r
    obtain ⟨_ | value, o⟩ := r
    · exact trivial
    · obtain ⟨hok, htype⟩ := readScalar_ok (congrArg Prod.fst hr)
      refine ⟨by omega, ?_, hok, trivial⟩
      rw [htype, makeTag_div_mod]
      exact Nat.pos_of_ne_zero hne

/-- **The fields a read leaves can be written**, whether it succeeds or not. -/
theorem skipMessage_ok (fuel levels : ℕ) (bs : List UInt8) :
    (skipMessage fuel levels bs).1.Ok levels := by
  induction fuel generalizing levels bs with
  | zero => exact trivial
  | succ fuel ih =>
    by_cases hstop : Stops (readTag bs).1
    · rw [skipMessage_stops hstop]
      exact trivial
    · have hne : (readTag bs).1 ≠ 0 := fun hzero => hstop (.inl hzero)
      have hfield : (skipField (groupReader fuel levels) (readTag bs).1 (readTag bs).2).1.Ok levels :=
        skipField_ok (readTag_lt bs) hne ih
      rw [skipMessage_field hstop]
      split
      · exact hfield
      · exact hfield.append (ih _ _)

/-! ### Fields, written -/

theorem varintBytes_last (k : ℕ) {n : ℕ} (h : n < 128) :
    varintBytes (k + 1) n = [UInt8.ofNat n] := by
  rw [varintBytes, if_pos h]

/-- Reading a varint that was written with fewer bytes than the reader allows. -/
theorem isVarint_varintBytes {k n : ℕ} (hk : k < 10) (h : n < 128 ^ (k + 1)) :
    IsVarint (varintBytes (k + 1) n) n := by
  have hread : ∀ m rest, k ≤ m → readVarint (m + 1) (varintBytes (k + 1) n ++ rest) = some (n, rest) := by
    clear hk
    induction k generalizing n with
    | zero =>
      intro m rest _
      have hlt : n < 128 := by omega
      rw [varintBytes_last 0 hlt, ← varintBytes_last m hlt]
      exact readVarint_last m hlt rest
    | succ k ih =>
      intro m rest hm
      obtain ⟨m, rfl⟩ := Nat.exists_eq_succ_of_ne_zero (Nat.ne_of_gt (Nat.lt_of_lt_of_le k.succ_pos hm))
      by_cases hlt : n < 128
      · rw [varintBytes_last _ hlt, ← varintBytes_last (m + 1) hlt]
        exact readVarint_last _ hlt rest
      · have hbyte : (UInt8.ofNat (n % 128 + 128)).toNat = n % 128 + 128 :=
          toNat_ofNat_of_lt_256 (by omega)
        have hdiv : n / 128 < 128 ^ (k + 1) := by
          rw [pow_succ] at h
          omega
        rw [varintBytes, if_neg hlt, List.cons_append, readVarint, hbyte, if_neg (by omega),
          ih hdiv m rest (by omega), Option.map_some]
        congr 2
        omega
  exact fun rest => hread 9 rest (by omega)

theorem isTag_tagBytes {number wireType : ℕ} (hnumber : number < 2 ^ 29) (htype : wireType < 8)
    (hpos : 0 < makeTag number wireType) :
    IsTag (tagBytes number wireType) (makeTag number wireType) := by
  have hlt : makeTag number wireType < 2 ^ 32 := by
    rw [makeTag]
    omega
  exact ⟨hpos, _, isVarint_varintBytes (by norm_num) (by norm_num; omega), Nat.mod_eq_of_lt hlt⟩

theorem isScalar_bytes {value : Scalar} (h : value.Ok) : IsScalar value.bytes value := by
  cases value with
  | varint value =>
    have hlt : value.toNat < 128 ^ (9 + 1) := lt_trans value.toNat_lt (by norm_num)
    have hn := IsScalar.varint (isVarint_varintBytes (by norm_num) hlt)
    rwa [UInt64.ofNat_toNat] at hn
  | fixed64 value =>
    have hlt : value.toNat < 256 ^ 8 := value.toNat_lt
    have hn := IsScalar.fixed64 (leBytes_length 8 value.toNat)
    rwa [leVal_leBytes_of_lt hlt, UInt64.ofNat_toNat] at hn
  | lengthDelimited data =>
    have hlen : data.length < 2 ^ 31 := h
    have hlt : data.length < 128 ^ (4 + 1) := by
      norm_num
      omega
    exact .lengthDelimited (isVarint_varintBytes (by norm_num) hlt)
      (Nat.mod_eq_of_lt (by omega)) h
  | fixed32 value =>
    have hlt : value.toNat < 256 ^ 4 := value.toNat_lt
    have hn := IsScalar.fixed32 (leBytes_length 4 value.toNat)
    rwa [leVal_leBytes_of_lt hlt, UInt32.ofNat_toNat] at hn

/-- **What is written is in the grammar.** -/
theorem encodes_serialize {levels : ℕ} {fs : UnknownFieldSet} (h : fs.Ok levels) :
    Encodes levels fs.serialize fs := by
  induction fs generalizing levels with
  | empty => exact .empty levels
  | scalar number value rest ih =>
    obtain ⟨hnumber, hpos, hvalue, hrest⟩ := h
    exact .scalar (isTag_tagBytes hnumber value.wireType_lt hpos) (isScalar_bytes hvalue) (ih hrest)
  | group number fields rest ihfields ih =>
    cases levels with
    | zero => exact h.elim
    | succ levels =>
      obtain ⟨hnumber, hfields, hrest⟩ := h
      have hstart : 0 < makeTag number startGroup := Nat.add_pos_right _ (by decide)
      have hend : 0 < makeTag number endGroup := Nat.add_pos_right _ (by decide)
      exact .group (isTag_tagBytes hnumber (by decide) hstart) (ihfields hfields)
        (isTag_tagBytes hnumber (by decide) hend) (ih hrest)

/-! ### Sizes -/

/-- The size of a varint of 32 bits. -/
def varintSize32 (n : ℕ) : ℕ :=
  if n < 2 ^ 7 then 1
  else if n < 2 ^ 14 then 2
  else if n < 2 ^ 21 then 3
  else if n < 2 ^ 28 then 4
  else 5

/-- The size of a varint of 64 bits. -/
def varintSize64 (n : ℕ) : ℕ :=
  if n < 2 ^ 35 then
    if n < 2 ^ 7 then 1
    else if n < 2 ^ 14 then 2
    else if n < 2 ^ 21 then 3
    else if n < 2 ^ 28 then 4
    else 5
  else if n < 2 ^ 42 then 6
  else if n < 2 ^ 49 then 7
  else if n < 2 ^ 56 then 8
  else if n < 2 ^ 63 then 9
  else 10

/-- The size of a payload. -/
def Scalar.byteSize : Scalar → ℕ
  | varint value => varintSize64 value.toNat
  | fixed64 _ => 8
  | lengthDelimited data => varintSize32 data.length + data.length
  | fixed32 _ => 4

/-- The size of the fields. -/
def UnknownFieldSet.byteSize : UnknownFieldSet → ℕ
  | empty => 0
  | scalar number value rest =>
      varintSize32 (makeTag number value.wireType) + value.byteSize + rest.byteSize
  | group number fields rest =>
      varintSize32 (makeTag number startGroup) + fields.byteSize +
        varintSize32 (makeTag number endGroup) + rest.byteSize

/-- A varint has one byte for each seven bits of the number. -/
theorem length_varintBytes {k j n : ℕ} (hj : j < k) (hge : j = 0 ∨ 128 ^ j ≤ n)
    (hlt : n < 128 ^ (j + 1)) : (varintBytes k n).length = j + 1 := by
  induction j generalizing k n with
  | zero =>
    obtain ⟨k, rfl⟩ := Nat.exists_eq_succ_of_ne_zero (Nat.ne_of_gt hj)
    have hsmall : n < 128 := by omega
    rw [varintBytes, if_pos hsmall]
    rfl
  | succ j ih =>
    obtain ⟨k, rfl⟩ := Nat.exists_eq_succ_of_ne_zero (Nat.ne_of_gt (Nat.zero_lt_of_lt hj))
    have hge : 128 ^ (j + 1) ≤ n := by simpa using hge
    have hpos : 0 < 128 ^ j := Nat.pow_pos (by norm_num)
    have hbig : ¬ n < 128 := by
      rw [pow_succ] at hge
      omega
    rw [varintBytes, if_neg hbig, List.length_cons, ih (by omega) (.inr ?_) ?_]
    · rw [pow_succ] at hge
      omega
    · rw [pow_succ 128 (j + 1)] at hlt
      omega

/-- Room for more bytes changes nothing. -/
theorem varintBytes_eq {k m n : ℕ} (h : n < 128 ^ k) (hk : 0 < k) (hm : k ≤ m) :
    varintBytes m n = varintBytes k n := by
  induction k generalizing m n with
  | zero => cases hk
  | succ k ih =>
    obtain ⟨m, rfl⟩ := Nat.exists_eq_succ_of_ne_zero (Nat.ne_of_gt (Nat.lt_of_lt_of_le k.succ_pos hm))
    by_cases hlt : n < 128
    · rw [varintBytes_last m hlt, varintBytes_last k hlt]
    · have hpos : 0 < k := by
        by_contra hzero
        have hk0 : k = 0 := by omega
        rw [hk0] at h
        omega
      rw [varintBytes, varintBytes, if_neg hlt, if_neg hlt, ih ?_ hpos (by omega)]
      rw [pow_succ] at h
      omega

theorem varintSize32_eq {n : ℕ} (h : n < 2 ^ 32) : varintSize32 n = (varintBytes 5 n).length := by
  rw [varintSize32]
  split_ifs
  · exact (length_varintBytes (by norm_num) (.inl rfl) (by omega)).symm
  · exact (length_varintBytes (j := 1) (by norm_num) (.inr (by omega)) (by omega)).symm
  · exact (length_varintBytes (j := 2) (by norm_num) (.inr (by omega)) (by omega)).symm
  · exact (length_varintBytes (j := 3) (by norm_num) (.inr (by omega)) (by omega)).symm
  · exact (length_varintBytes (j := 4) (by norm_num) (.inr (by omega)) (by omega)).symm

theorem varintSize64_eq {n : ℕ} (h : n < 2 ^ 64) : varintSize64 n = (varintBytes 10 n).length := by
  rw [varintSize64]
  split_ifs
  · exact (length_varintBytes (by norm_num) (.inl rfl) (by omega)).symm
  · exact (length_varintBytes (j := 1) (by norm_num) (.inr (by omega)) (by omega)).symm
  · exact (length_varintBytes (j := 2) (by norm_num) (.inr (by omega)) (by omega)).symm
  · exact (length_varintBytes (j := 3) (by norm_num) (.inr (by omega)) (by omega)).symm
  · exact (length_varintBytes (j := 4) (by norm_num) (.inr (by omega)) (by omega)).symm
  · exact (length_varintBytes (j := 5) (by norm_num) (.inr (by omega)) (by omega)).symm
  · exact (length_varintBytes (j := 6) (by norm_num) (.inr (by omega)) (by omega)).symm
  · exact (length_varintBytes (j := 7) (by norm_num) (.inr (by omega)) (by omega)).symm
  · exact (length_varintBytes (j := 8) (by norm_num) (.inr (by omega)) (by omega)).symm
  · exact (length_varintBytes (j := 9) (by norm_num) (.inr (by omega)) (by omega)).symm

theorem Scalar.byteSize_eq {value : Scalar} (h : value.Ok) :
    value.byteSize = value.bytes.length := by
  cases value with
  | varint value => exact varintSize64_eq value.toNat_lt
  | fixed64 value => exact (leBytes_length _ _).symm
  | lengthDelimited data =>
    have hlt : data.length < 2 ^ 31 := h
    rw [Scalar.byteSize, Scalar.bytes, List.length_append, varintSize32_eq (by omega)]
  | fixed32 value => exact (leBytes_length _ _).symm

theorem length_tagBytes {number wireType : ℕ} (hnumber : number < 2 ^ 29) (htype : wireType < 8) :
    varintSize32 (makeTag number wireType) = (tagBytes number wireType).length := by
  refine varintSize32_eq ?_
  rw [makeTag]
  omega

/-- **The size computed is the number of bytes written.** -/
theorem byteSize_eq {levels : ℕ} {fs : UnknownFieldSet} (h : fs.Ok levels) :
    fs.byteSize = fs.serialize.length := by
  induction fs generalizing levels with
  | empty => rfl
  | scalar number value rest ih =>
    obtain ⟨hnumber, -, hvalue, hrest⟩ := h
    rw [UnknownFieldSet.byteSize, UnknownFieldSet.serialize, List.length_append, List.length_append,
      length_tagBytes hnumber value.wireType_lt, value.byteSize_eq hvalue, ih hrest, Nat.add_assoc]
  | group number fields rest ihfields ih =>
    cases levels with
    | zero => exact h.elim
    | succ levels =>
      obtain ⟨hnumber, hfields, hrest⟩ := h
      rw [UnknownFieldSet.byteSize, UnknownFieldSet.serialize, List.length_append,
        List.length_append, List.length_append, length_tagBytes hnumber (by decide),
        length_tagBytes hnumber (by decide), ihfields hfields, ih hrest]
      omega

end GoFight.Lib.WireFormat
