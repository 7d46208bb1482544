import GoFight.Lib.WireFormat
import GoFight.Net.Codec
import GoFight.Protocol.Messages

/-!
# The generated classes, with the fields they do not know

The generated code of `Regist::Req`, `Regist::Res`, `Shutdown::Req` and `Shutdown::Res` is the same
up to the name of the one field.  Here it is in full: `MergePartialFromCodedStream` hands every tag
but field 1's to `WireFormat::SkipField`, which keeps the field, and what is kept is written behind
field 1 again.

* `WireMessage` — an object; its unknown fields can be written, and none of them is field 1;
* `WireMessage.parseFromArray`, `serializeToArray`, `byteSize` — the generated calls;
* `IsBody` — the grammar of a body, and what it stands for;
* `parseBody_iff` — **a body is accepted when it is in the grammar and sets field 1**;
* `parseBody_serialize` — **the round trip**, for every object;
* `parseBody_append` — bodies behind one another are merged;
* `parse_wireOf` — on bodies without another tag `Message`'s parser and this one agree.

`ParseFromArray` reads a flat array, so a varint is read the same way on each of the library's
paths.  The object is kept when the parse fails, as `message_format` keeps it.
-/

namespace GoFight.Protocol

open GoFight.Lib GoFight.Lib.WireFormat GoFight.Net

/-- `default_recursion_limit_`. -/
def recursionLimit : ℕ := 100

/-- `kDefaultTotalBytesLimit`, 64 MB. -/
def totalBytesLimit : ℕ := 2 ^ 26

/-- The tag of field 1. -/
def fieldTag : ℕ := 8

/-! ### The fields of an object -/

/-- `my_id_` or `code_`, when its bit is set, and `_unknown_fields_`. -/
structure Body where
  value : Option Int32
  unknown : UnknownFieldSet
deriving DecidableEq, Repr

/-- No unknown field is field 1. -/
def Foreign : UnknownFieldSet → Prop
  | .empty => True
  | .scalar number value rest => makeTag number value.wireType ≠ fieldTag ∧ Foreign rest
  | .group _ _ rest => Foreign rest

namespace Body

/-- `Clear`. -/
def clear : Body := ⟨none, .empty⟩

/-- `set_my_id` or `set_code`. -/
def set (b : Body) (v : Int32) : Body := { b with value := some v }

/-- `SkipField` keeps fields. -/
def keep (b : Body) (f : UnknownFieldSet) : Body := { b with unknown := b.unknown.append f }

/-- `MergeFrom`. -/
def mergeFrom (b other : Body) : Body :=
  { value := other.value.or b.value, unknown := b.unknown.append other.unknown }

/-- What the generated code keeps of an object's unknown fields. -/
structure Ok (b : Body) : Prop where
  fields : b.unknown.Ok recursionLimit
  foreign : Foreign b.unknown

end Body

/-- The low 32 bits of a varint, as the field holds them. -/
def int32Of (n : ℕ) : Int32 := (UInt64.ofNat n).toUInt32.toInt32

/-- `MergePartialFromCodedStream`, on the bytes left of an input of `size`.  The result is `none` on
a failure, and else whether the end was a legitimate one: the end of the input, within the limit of
the size unless field 1 comes last. -/
def mergePartial (size : ℕ) : ℕ → List UInt8 → Body → Option Bool × Body
  | 0, _, b => (none, b)
  | fuel + 1, bs, b =>
      let t := readTag bs
      if t.1 = fieldTag then
        match readVarint 10 t.2 with
        | none => (none, b)
        | some r =>
            if r.2 = [] then (some true, b.set (int32Of r.1))
            else mergePartial size fuel r.2 (b.set (int32Of r.1))
      else if Stops t.1 then (some (bs.isEmpty && decide (size ≤ totalBytesLimit)), b)
      else
        let f := skipField (groupReader fuel recursionLimit) t.1 t.2
        match f.2 with
        | none => (none, b.keep f.1)
        | some rest => mergePartial size fuel rest (b.keep f.1)

/-- `ParseFromArray` behind `Clear`: the result, and the fields afterwards. -/
def parseBody (bs : List UInt8) : Bool × Body :=
  let r := mergePartial bs.length (bs.length + 1) bs .clear
  (r.1 == some true && r.2.value.isSome, r.2)

/-- `SerializeWithCachedSizesToArray`. -/
def Body.serialize (b : Body) : List UInt8 :=
  (match b.value with | none => [] | some v => fieldBytes v) ++ b.unknown.serialize

/-- `ByteSize`: a negative `int32` takes ten bytes. -/
def Body.byteSize (b : Body) : ℕ :=
  (match b.value with
    | none => 0
    | some v => 1 + if v < 0 then 10 else varintSize32 v.toUInt32.toNat) + b.unknown.byteSize

/-! ### One round of the parse loop -/

theorem mergePartial_value {size fuel n : ℕ} {bs rest : List UInt8} {b : Body}
    (ht : (readTag bs).1 = fieldTag) (hn : readVarint 10 (readTag bs).2 = some (n, rest)) :
    mergePartial size (fuel + 1) bs b =
      if rest = [] then (some true, b.set (int32Of n))
      else mergePartial size fuel rest (b.set (int32Of n)) := by
  conv => lhs; unfold mergePartial
  simp only [ht, if_true, hn]

theorem mergePartial_value_none {size fuel : ℕ} {bs : List UInt8} {b : Body}
    (ht : (readTag bs).1 = fieldTag) (hn : readVarint 10 (readTag bs).2 = none) :
    mergePartial size (fuel + 1) bs b = (none, b) := by
  unfold mergePartial
  simp only [ht, if_true, hn]

theorem mergePartial_stops {size fuel : ℕ} {bs : List UInt8} {b : Body}
    (hstop : Stops (readTag bs).1) :
    mergePartial size (fuel + 1) bs b =
      (some (bs.isEmpty && decide (size ≤ totalBytesLimit)), b) := by
  have hne : (readTag bs).1 ≠ fieldTag := by
    intro heq
    rw [heq] at hstop
    exact absurd hstop (by decide)
  unfold mergePartial
  simp only [hne, if_false, hstop, if_true]

/-- A field that is kept, and the rest when it could be read. -/
theorem mergePartial_field {size fuel tag : ℕ} {bs behind : List UInt8} {b : Body}
    {f : UnknownFieldSet} {o : Option (List UInt8)} (ht : readTag bs = (tag, behind))
    (hne : tag ≠ fieldTag) (hstop : ¬ Stops tag)
    (hf : skipField (groupReader fuel recursionLimit) tag behind = (f, o)) :
    mergePartial size (fuel + 1) bs b =
      match o with
      | none => (none, b.keep f)
      | some rest => mergePartial size fuel rest (b.keep f) := by
  conv => lhs; unfold mergePartial
  cases o <;> simp only [ht, hne, if_false, hstop, hf]

/-! ### Merging -/

namespace Body

@[simp] theorem mergeFrom_clear (b : Body) : b.mergeFrom clear = b := by
  rw [mergeFrom, clear, UnknownFieldSet.append_empty]
  rfl

@[simp] theorem clear_mergeFrom (b : Body) : clear.mergeFrom b = b := by
  rw [mergeFrom, clear, Option.or_none]
  rfl

theorem mergeFrom_assoc (a b c : Body) : (a.mergeFrom b).mergeFrom c = a.mergeFrom (b.mergeFrom c) := by
  simp only [mergeFrom, Option.or_assoc, UnknownFieldSet.append_assoc]

/-- The value set is the last one. -/
theorem set_mergeFrom (a b : Body) (v : Int32) :
    (a.set v).mergeFrom b = a.mergeFrom ((clear.set v).mergeFrom b) := by
  rw [← mergeFrom_assoc]
  congr 1
  rw [mergeFrom, set, set, clear, UnknownFieldSet.append_empty]
  rfl

theorem keep_mergeFrom (a b : Body) (f : UnknownFieldSet) :
    (a.keep f).mergeFrom b = a.mergeFrom ((clear.keep f).mergeFrom b) := by
  rw [← mergeFrom_assoc]
  congr 1

end Body

theorem Foreign.append {s t : UnknownFieldSet} (hs : Foreign s) (ht : Foreign t) :
    Foreign (s.append t) := by
  induction s with
  | empty => exact ht
  | scalar number value rest ih => exact ⟨hs.1, ih hs.2⟩
  | group number fields rest _ ih => exact ih hs

/-! ### The grammar of a body -/

/-- The bytes of a body, and what they stand for: field 1 as often as it comes, and between its
occurrences fields that are kept. -/
inductive IsBody : List UInt8 → Body → Prop
  | empty : IsBody [] .clear
  | value {t v bs : List UInt8} {n : ℕ} {b : Body} (ht : IsTag t fieldTag) (hv : IsVarint v n)
      (hbs : IsBody bs b) : IsBody (t ++ (v ++ bs)) ((Body.clear.set (int32Of n)).mergeFrom b)
  | fields {p bs : List UInt8} {f : UnknownFieldSet} {b : Body} (hp : Encodes recursionLimit p f)
      (hf : Foreign f) (hbs : IsBody bs b) : IsBody (p ++ bs) ((Body.clear.keep f).mergeFrom b)

theorem IsBody.append {as bs : List UInt8} {a b : Body} (ha : IsBody as a) (hb : IsBody bs b) :
    IsBody (as ++ bs) (a.mergeFrom b) := by
  induction ha with
  | empty =>
    rw [Body.clear_mergeFrom]
    exact hb
  | value ht hv _ ih =>
    rw [List.append_assoc, List.append_assoc, Body.mergeFrom_assoc]
    exact .value ht hv ih
  | fields hp hf _ ih =>
    rw [List.append_assoc, Body.mergeFrom_assoc]
    exact .fields hp hf ih

theorem IsBody.eq_clear {b : Body} (h : IsBody [] b) : b = .clear := by
  generalize hbs : ([] : List UInt8) = bs at h
  induction h with
  | empty => rfl
  | value ht _ _ _ =>
    have hpos := ht.pos
    rw [(List.append_eq_nil_iff.mp hbs.symm).1] at hpos
    cases hpos
  | fields hp _ _ ih =>
    obtain ⟨rfl, rfl⟩ := List.append_eq_nil_iff.mp hbs.symm
    rw [ih rfl, hp.eq_empty]
    rfl

/-- A field behind another tag is not field 1. -/
theorem foreign_of_skipField {g : Option (List UInt8 → Skipped)} {tag : ℕ} {bs : List UInt8}
    {f : UnknownFieldSet} {o : Option (List UInt8)} (hne : tag ≠ fieldTag)
    (h : skipField g tag bs = (f, o)) : Foreign f := by
  unfold skipField at h
  split at h
  · cases g with
    | none =>
      cases h
      exact trivial
    | some read =>
      cases h
      exact trivial
  · generalize hr : readScalar (tag % 8) bs = r at h
    obtain ⟨_ | value, o⟩ := r
    · cases h
      exact trivial
    · cases h
      refine ⟨?_, trivial⟩
      rw [(readScalar_ok (congrArg Prod.fst hr)).2, makeTag_div_mod]
      exact hne

/-- The loop takes fields it keeps one by one. -/
theorem mergePartial_of_encodes {size levels : ℕ} {p : List UInt8} {f : UnknownFieldSet}
    (hp : Encodes levels p f) (hlevels : levels = recursionLimit) (hf : Foreign f) {fuel : ℕ}
    (tail : List UInt8) (b : Body) (hfuel : (p ++ tail).length < fuel) :
    ∃ fuel', tail.length < fuel' ∧
      mergePartial size fuel (p ++ tail) b = mergePartial size fuel' tail (b.keep f) := by
  induction hp generalizing fuel b with
  | empty levels =>
    refine ⟨fuel, hfuel, ?_⟩
    rw [Body.keep, UnknownFieldSet.append_empty, List.nil_append]
  | @scalar levels number value rest t p bs ht hp _ ih =>
    obtain ⟨fuel, rfl⟩ := Nat.exists_eq_succ_of_ne_zero (Nat.ne_of_gt (Nat.zero_lt_of_lt hfuel))
    have hpos := ht.pos
    have hread : readTag (t ++ (p ++ bs) ++ tail) =
        (makeTag number value.wireType, p ++ (bs ++ tail)) := by
      rw [List.append_assoc, List.append_assoc, ht.read]
    have hlen : (bs ++ tail).length < fuel := by
      simp only [List.length_append] at hfuel ⊢
      omega
    obtain ⟨fuel', htail, heq⟩ := ih hlevels hf.2 (b.keep (.scalar number value .empty)) hlen
    refine ⟨fuel', htail, ?_⟩
    rw [mergePartial_field hread hf.1 ht.not_stops_scalar (skipField_scalar hp _)]
    refine heq.trans ?_
    rw [Body.keep, Body.keep, Body.keep, UnknownFieldSet.append_assoc]
    rfl
  | @group levels number fields rest t inner e bs ht hinner he _ _ ih =>
    obtain ⟨fuel, rfl⟩ := Nat.exists_eq_succ_of_ne_zero (Nat.ne_of_gt (Nat.zero_lt_of_lt hfuel))
    have hpos := ht.pos
    have hread : readTag (t ++ (inner ++ (e ++ bs)) ++ tail) =
        (makeTag number startGroup, inner ++ (e ++ (bs ++ tail))) := by
      rw [List.append_assoc, List.append_assoc, List.append_assoc, ht.read]
    have hlen : (bs ++ tail).length < fuel ∧ inner.length < fuel := by
      simp only [List.length_append] at hfuel ⊢
      omega
    have hskip : skipField (groupReader fuel recursionLimit) (makeTag number startGroup)
        (inner ++ (e ++ (bs ++ tail))) = (.group number fields .empty, some (bs ++ tail)) := by
      rw [← hlevels]
      exact skipField_encodes hinner he hlen.2 _
    have hne : makeTag number startGroup ≠ fieldTag := by
      rw [makeTag, startGroup, fieldTag]
      omega
    obtain ⟨fuel', htail, heq⟩ := ih hlevels hf (b.keep (.group number fields .empty)) hlen.1
    refine ⟨fuel', htail, ?_⟩
    rw [mergePartial_field hread hne (not_stops_startGroup number) hskip]
    refine heq.trans ?_
    rw [Body.keep, Body.keep, Body.keep, UnknownFieldSet.append_assoc]
    rfl

/-- **The loop accepts the grammar**, within the limit of the size. -/
theorem mergePartial_of_isBody {size : ℕ} {bs : List UInt8} {c : Body} (h : IsBody bs c)
    (hsize : size ≤ totalBytesLimit) {fuel : ℕ} (b : Body) (hfuel : bs.length < fuel) :
    mergePartial size fuel bs b = (some true, b.mergeFrom c) := by
  induction h generalizing fuel b with
  | empty =>
    obtain ⟨fuel, rfl⟩ := Nat.exists_eq_succ_of_ne_zero (Nat.ne_of_gt hfuel)
    rw [mergePartial_stops (.inl rfl), Body.mergeFrom_clear, decide_eq_true hsize]
    rfl
  | @value t v bs n c ht hv hbs ih =>
    obtain ⟨fuel, rfl⟩ := Nat.exists_eq_succ_of_ne_zero (Nat.ne_of_gt (Nat.zero_lt_of_lt hfuel))
    have hpos := ht.pos
    have hlen : bs.length < fuel := by
      simp only [List.length_append] at hfuel
      omega
    have hread : readTag (t ++ (v ++ bs)) = (fieldTag, v ++ bs) := ht.read _
    rw [mergePartial_value (by rw [hread]) (by rw [hread]; exact hv bs), ← Body.set_mergeFrom]
    split
    · next hnil =>
      subst hnil
      cases hbs.eq_clear
      rw [Body.mergeFrom_clear]
    · exact ih _ hlen
  | @fields p bs f c hp hf _ ih =>
    obtain ⟨fuel', htail, heq⟩ := mergePartial_of_encodes hp rfl hf bs b hfuel
    rw [heq, ih _ htail, Body.keep_mergeFrom]

/-- **The loop accepts nothing else.** -/
theorem isBody_of_mergePartial {size fuel : ℕ} {bs : List UInt8} {b b' : Body}
    (h : mergePartial size fuel bs b = (some true, b')) :
    ∃ c, IsBody bs c ∧ b' = b.mergeFrom c := by
  induction fuel generalizing bs b with
  | zero => cases h
  | succ fuel ih =>
    by_cases htag : (readTag bs).1 = fieldTag
    · have hne : (readTag bs).1 ≠ 0 := by
        rw [htag]
        decide
      obtain ⟨t, hbs, ht⟩ := isTag_of_readTag hne
      rw [htag] at ht
      cases hn : readVarint 10 (readTag bs).2 with
      | none =>
        rw [mergePartial_value_none htag hn] at h
        cases h
      | some r =>
        obtain ⟨v, hv, hvarint⟩ := isVarint_of_read hn
        have hrest : ∀ c, IsBody r.2 c → IsBody bs ((Body.clear.set (int32Of r.1)).mergeFrom c) := by
          intro c hc
          rw [hbs, hv]
          exact .value ht hvarint hc
        rw [mergePartial_value htag hn] at h
        split at h
        · next hnil =>
          cases h
          refine ⟨_, hrest .clear (hnil ▸ .empty), ?_⟩
          rw [← Body.set_mergeFrom, Body.mergeFrom_clear]
        · obtain ⟨c, hc, rfl⟩ := ih h
          exact ⟨_, hrest c hc, Body.set_mergeFrom _ _ _⟩
    · by_cases hstop : Stops (readTag bs).1
      · rw [mergePartial_stops hstop] at h
        simp only [Prod.mk.injEq, Option.some.injEq, Bool.and_eq_true, List.isEmpty_iff] at h
        obtain ⟨⟨rfl, -⟩, rfl⟩ := h
        exact ⟨.clear, .empty, (Body.mergeFrom_clear b).symm⟩
      · have hne : (readTag bs).1 ≠ 0 := fun hzero => hstop (.inl hzero)
        obtain ⟨t, hbs, ht⟩ := isTag_of_readTag hne
        generalize hf : skipField (groupReader fuel recursionLimit) (readTag bs).1 (readTag bs).2 = f
          at h
        obtain ⟨f, o⟩ := f
        rw [mergePartial_field rfl htag hstop hf] at h
        cases o with
        | none => cases h
        | some rest =>
          obtain ⟨c, hc, rfl⟩ := ih h
          obtain ⟨p, hp, hfield⟩ := encodes_of_skipField ht hf
          refine ⟨_, ?_, Body.keep_mergeFrom b c f⟩
          rw [hbs, hp, ← List.append_assoc]
          exact .fields hfield (foreign_of_skipField htag hf) hc

/-- **A body is accepted** when it is in the grammar and sets field 1. -/
theorem parseBody_iff {bs : List UInt8} (hsize : bs.length ≤ totalBytesLimit) (b : Body) :
    parseBody bs = (true, b) ↔ IsBody bs b ∧ b.value.isSome = true := by
  constructor
  · intro h
    rw [parseBody, Prod.mk.injEq, Bool.and_eq_true, beq_iff_eq] at h
    obtain ⟨⟨hlegit, hset⟩, rfl⟩ := h
    obtain ⟨c, hc, heq⟩ := isBody_of_mergePartial (Prod.ext hlegit rfl)
    rw [Body.clear_mergeFrom] at heq
    rw [← heq] at hc
    exact ⟨hc, hset⟩
  · rintro ⟨hb, hset⟩
    rw [parseBody, mergePartial_of_isBody hb hsize .clear (Nat.lt_succ_self _),
      Body.clear_mergeFrom]
    exact Prod.ext hset rfl

/-! ### What a parse leaves, also one that fails -/

theorem Body.Ok.keep {b : Body} {f : UnknownFieldSet} (h : b.Ok) (hf : f.Ok recursionLimit)
    (hforeign : Foreign f) : (b.keep f).Ok :=
  ⟨h.fields.append hf, h.foreign.append hforeign⟩

theorem mergePartial_ok {size fuel : ℕ} {bs : List UInt8} {b : Body} (h : b.Ok) :
    (mergePartial size fuel bs b).2.Ok := by
  induction fuel generalizing bs b with
  | zero => exact h
  | succ fuel ih =>
    by_cases htag : (readTag bs).1 = fieldTag
    · cases hn : readVarint 10 (readTag bs).2 with
      | none =>
        rw [mergePartial_value_none htag hn]
        exact h
      | some r =>
        have hset : (b.set (int32Of r.1)).Ok := ⟨h.fields, h.foreign⟩
        rw [mergePartial_value htag hn]
        split
        · exact hset
        · exact ih hset
    · by_cases hstop : Stops (readTag bs).1
      · rw [mergePartial_stops hstop]
        exact h
      · have hne : (readTag bs).1 ≠ 0 := fun hzero => hstop (.inl hzero)
        generalize hf : skipField (groupReader fuel recursionLimit) (readTag bs).1 (readTag bs).2 = f
        have hfields : f.1.Ok recursionLimit := hf ▸ skipField_ok (readTag_lt bs) hne (skipMessage_ok fuel)
        obtain ⟨f, o⟩ := f
        have hkeep : (b.keep f).Ok := h.keep hfields (foreign_of_skipField htag hf)
        rw [mergePartial_field rfl htag hstop hf]
        cases o with
        | none => exact hkeep
        | some rest => exact ih hkeep

theorem Body.ok_clear : Body.clear.Ok := ⟨trivial, trivial⟩

theorem parseBody_ok (bs : List UInt8) : (parseBody bs).2.Ok := mergePartial_ok Body.ok_clear

/-! ### What is written -/

theorem isVarint_fieldBytes (v : Int32) :
    IsVarint (varintBytes 10 v.toInt64.toUInt64.toNat) v.toInt64.toUInt64.toNat :=
  isVarint_varintBytes (by norm_num) (lt_trans v.toInt64.toUInt64.toNat_lt (by norm_num))

theorem isTag_field : IsTag [8] fieldTag := ⟨by decide, 8, fun _ => rfl, rfl⟩

/-- What is written of an object is in the grammar. -/
theorem isBody_serialize {b : Body} (h : b.Ok) : IsBody b.serialize b := by
  have hfields := IsBody.fields (encodes_serialize h.fields) h.foreign .empty
  rw [List.append_nil, Body.mergeFrom_clear] at hfields
  obtain ⟨_ | v, unknown⟩ := b
  · exact hfields
  · have hvalue := IsBody.value isTag_field (isVarint_fieldBytes v) hfields
    rw [int32Of, toInt32_ofNat] at hvalue
    exact hvalue

/-- The ten bytes of a negative number, and as many as the number needs for another. -/
theorem length_fieldBytes (v : Int32) :
    (1 + if v < 0 then 10 else varintSize32 v.toUInt32.toNat) = (fieldBytes v).length := by
  have hext : v.toInt64.toUInt64.toNat =
      v.toUInt32.toNat + if v < 0 then 2 ^ 64 - 2 ^ 32 else 0 := by
    have hmsb : v < 0 ↔ v.toBitVec.msb = true := by
      rw [Int32.lt_iff_toInt_lt, ← Int32.toInt_toBitVec, BitVec.msb_eq_toInt, decide_eq_true_iff]
      rfl
    show (v.toBitVec.signExtend 64).toNat = v.toBitVec.toNat + _
    rw [BitVec.toNat_signExtend, BitVec.toNat_setWidth_of_le (by norm_num)]
    simp only [hmsb]
  have hlt := v.toUInt32.toNat_lt
  rw [fieldBytes, List.length_cons, Nat.add_comm 1, hext]
  congr 1
  split
  · rw [← varintSize64_eq (by omega), varintSize64]
    rw [if_neg (by omega), if_neg (by omega), if_neg (by omega), if_neg (by omega),
      if_neg (by omega)]
  · have hfits : v.toUInt32.toNat < 128 ^ 5 := lt_trans hlt (by norm_num)
    rw [Nat.add_zero, varintSize32_eq hlt,
      varintBytes_eq hfits (by norm_num) (by norm_num : 5 ≤ 10)]

theorem Body.byteSize_eq {b : Body} (h : b.Ok) : b.byteSize = b.serialize.length := by
  rw [Body.byteSize, Body.serialize, List.length_append, WireFormat.byteSize_eq h.fields]
  congr 1
  obtain ⟨_ | v, unknown⟩ := b
  · rfl
  · exact length_fieldBytes v

theorem parseBody_serialize {b : Body} (h : b.Ok) (hsize : b.byteSize ≤ totalBytesLimit) :
    parseBody b.serialize = (b.value.isSome, b) := by
  rw [Body.byteSize_eq h] at hsize
  rw [parseBody, mergePartial_of_isBody (isBody_serialize h) hsize .clear (Nat.lt_succ_self _),
    Body.clear_mergeFrom]
  rfl

/-! ### The objects -/

/-- An object of one of the classes. -/
structure WireMessage where
  cls : MsgClass
  body : Body
  ok : body.Ok

/-- The protobuf calls on these objects. -/
def wireProtobuf : Protobuf MsgClass WireMessage where
  clsOf := WireMessage.cls
  newMsg c := ⟨c, .clear, Body.ok_clear⟩
  isInitialized m := m.body.value.isSome
  byteSize m := m.body.byteSize
  serializeToArray m := m.body.serialize
  parseFromArray m bs := ((parseBody bs).1, ⟨m.cls, (parseBody bs).2, parseBody_ok bs⟩)

/-- **The round trip.**  Every object that fits the limit, with all it keeps, is parsed back from the
bytes written of it, which are as many as `ByteSize` says. -/
theorem wireProtobuf_roundTrip (m : WireMessage)
    (hsize : wireProtobuf.byteSize m ≤ totalBytesLimit) :
    wireProtobuf.byteSize m = (wireProtobuf.serializeToArray m).length ∧
      wireProtobuf.parseFromArray (wireProtobuf.newMsg m.cls) (wireProtobuf.serializeToArray m) =
        (wireProtobuf.isInitialized m, m) := by
  obtain ⟨cls, body, ok⟩ := m
  have hparse : parseBody body.serialize = (body.value.isSome, body) := parseBody_serialize ok hsize
  refine ⟨Body.byteSize_eq ok, ?_⟩
  simp only [wireProtobuf, hparse]

/-- A registration with a number and a group that this server does not know. -/
def newerRequest : WireMessage where
  cls := .registReq
  body := ⟨some (-1), .scalar 2 (.varint 7) (.group 3 (.scalar 1 (.lengthDelimited [104, 105]) .empty)
    .empty)⟩
  ok := ⟨by simp [UnknownFieldSet.Ok, recursionLimit, makeTag, Scalar.wireType, Scalar.Ok],
    by simp [Foreign, makeTag, Scalar.wireType, fieldTag]⟩

theorem wireProtobuf_roundTrip_newerRequest :
    wireProtobuf.parseFromArray (wireProtobuf.newMsg .registReq)
      [8, 255, 255, 255, 255, 255, 255, 255, 255, 255, 1, 16, 7, 27, 10, 2, 104, 105, 28] =
        (true, newerRequest) :=
  (wireProtobuf_roundTrip newerRequest (by decide)).2

/-- **What is accepted**: the bodies of the grammar that set field 1, and what they stand for. -/
theorem wireProtobuf_accepts (m : WireMessage) {bs : List UInt8}
    (hsize : bs.length ≤ totalBytesLimit) (b : Body) :
    (wireProtobuf.parseFromArray m bs).1 = true ∧ (wireProtobuf.parseFromArray m bs).2.body = b ↔
      IsBody bs b ∧ b.value.isSome = true := by
  rw [← parseBody_iff hsize b, Prod.ext_iff]
  exact Iff.rfl

/-- The last value counts, and a field that is kept may stand anywhere. -/
theorem wireProtobuf_accepts_lastValue :
    IsBody [8, 1, 16, 7, 8, 130, 0] ⟨some 2, .scalar 2 (.varint 7) .empty⟩ :=
  ((wireProtobuf_accepts newerRequest (by decide) _).mp (by decide)).1

/-- Bodies behind one another are parsed as one and the other merged. -/
theorem parseBody_append {as bs : List UInt8} {a b : Body} (ha : parseBody as = (true, a))
    (hb : parseBody bs = (true, b)) (hsize : (as ++ bs).length ≤ totalBytesLimit) :
    parseBody (as ++ bs) = (true, a.mergeFrom b) := by
  rw [List.length_append] at hsize
  obtain ⟨ha, -⟩ := (parseBody_iff (by omega) a).mp ha
  obtain ⟨hb, hset⟩ := (parseBody_iff (by omega) b).mp hb
  refine (parseBody_iff (by rw [List.length_append]; omega) _).mpr ⟨ha.append hb, ?_⟩
  rw [Body.mergeFrom, Option.isSome_or, hset]
  rfl

/-! ### Through a relay -/

/-- A block is decoded to the node it was made from, whose object is parsed back. -/
theorem nodeOfFrame_encodeNode {reg : Registry MsgClass} {conn : Addr} {m : MsgNode WireMessage}
    (hdata : wireProtobuf.byteSize m.msgData = (wireProtobuf.serializeToArray m.msgData).length ∧
      wireProtobuf.parseFromArray (wireProtobuf.newMsg m.msgData.cls)
        (wireProtobuf.serializeToArray m.msgData) = (wireProtobuf.isInitialized m.msgData, m.msgData))
    (hsize : (wireProtobuf.byteSize m.msgData : ℤ) ≤ intMax)
    (hreg : reg m.msgType = some m.msgData.cls) :
    nodeOfFrame wireProtobuf reg conn (encodeNode wireProtobuf m) =
      some { m with msgConn := conn } := by
  obtain ⟨hlength, hparse⟩ := hdata
  have hbody : bodyLen (encodeNode wireProtobuf m) =
      (wireProtobuf.serializeToArray m.msgData).length := by
    rw [encodeNode_eq, bodyLen_header wireProtobuf m _ hsize, hlength]
  have htype : (encodeNode wireProtobuf m).take 4 = i32Bytes m.msgType := by
    rw [encodeNode, List.append_assoc, List.append_assoc, List.take_left' (by simp)]
  have hcli : ((encodeNode wireProtobuf m).drop 4).take 8 = u64Bytes m.cliConn := by
    rw [encodeNode, List.append_assoc, List.append_assoc, List.drop_left' (by simp),
      List.take_left' (by simp)]
  have hbytes : (encodeNode wireProtobuf m).drop 16 = wireProtobuf.serializeToArray m.msgData := by
    rw [encodeNode_eq, List.drop_left' (header_length wireProtobuf m)]
  rw [nodeOfFrame, frameNode]
  simp only [htype, hcli, hbytes, hbody, i32Val_i32Bytes, u64Val_u64Bytes, hreg, Option.map_some,
    Int.toNat_natCast, List.take_length, hparse]

/-- **A relay loses nothing.**  A frame decoded by one server, its client connection set anew, and
written out again, is decoded by the next server to the same object, with the fields neither of them
knows; also when the body did not parse. -/
theorem nodeOfFrame_relay {reg : Registry MsgClass} {conn : Addr} {frame : List UInt8}
    {m : MsgNode WireMessage} (h : nodeOfFrame wireProtobuf reg conn frame = some m)
    (hsize : wireProtobuf.byteSize m.msgData ≤ totalBytesLimit) (cli : UInt64) (conn' : Addr) :
    nodeOfFrame wireProtobuf reg conn' (encodeNode wireProtobuf { m with cliConn := cli }) =
      some { m with cliConn := cli, msgConn := conn' } := by
  have hmax : (wireProtobuf.byteSize m.msgData : ℤ) ≤ intMax := by
    have hlimit : (totalBytesLimit : ℤ) ≤ intMax := by decide
    omega
  obtain ⟨c, hc, rfl⟩ := Option.map_eq_some_iff.mp h
  exact nodeOfFrame_encodeNode (wireProtobuf_roundTrip _ hsize) hmax hc

/-- A registration with a field that is cut off: the parse fails, and the node is made. -/
def cutOffFrame : List UInt8 :=
  i32Bytes messageRegistReq ++ u64Bytes 5 ++ i32Bytes 6 ++ [8, 33, 18, 9, 104, 105]

theorem nodeOfFrame_relay_cutOffFrame : ∃ m,
    nodeOfFrame wireProtobuf registry 3 cutOffFrame = some m ∧
      m.msgData.body = ⟨some 33, .scalar 2 (.lengthDelimited [104, 105]) .empty⟩ ∧
      nodeOfFrame wireProtobuf registry 4 (encodeNode wireProtobuf { m with cliConn := 9 }) =
        some { m with cliConn := 9, msgConn := 4 } := by
  have hbody : (nodeOfFrame wireProtobuf registry 3 cutOffFrame).map (fun m => m.msgData.body) =
      some ⟨some 33, .scalar 2 (.lengthDelimited [104, 105]) .empty⟩ := by decide
  obtain ⟨m, hm, hbody⟩ := Option.map_eq_some_iff.mp hbody
  have hsize : wireProtobuf.byteSize m.msgData ≤ totalBytesLimit := by
    show m.msgData.body.byteSize ≤ totalBytesLimit
    rw [hbody]
    decide
  exact ⟨m, hm, hbody, nodeOfFrame_relay hm hsize 9 4⟩

/-! ### Bodies with field 1 only -/

/-- The object of `Message`. -/
def wireOf (m : Message) : WireMessage := ⟨m.cls, ⟨m.value, .empty⟩, ⟨trivial, trivial⟩⟩

theorem serialize_wireOf (m : Message) :
    wireProtobuf.serializeToArray (wireOf m) = protobuf.serializeToArray m := by
  obtain ⟨c, _ | v⟩ := m
  · rfl
  · exact List.append_nil _

/-- No tag but field 1's. -/
inductive FieldOnly : List UInt8 → Prop
  | nil : FieldOnly []
  /-- The input ends inside the field. -/
  | cut {bs} (h : readVarint 10 bs = none) : FieldOnly (8 :: bs)
  | field {bs n rest} (h : readVarint 10 bs = some (n, rest)) (hrest : FieldOnly rest) :
      FieldOnly (8 :: bs)

theorem mergePartial_of_fieldOnly {size fuel fuel' : ℕ} {bs : List UInt8} {b : Body}
    (h : FieldOnly bs) (hne : bs ≠ []) (hfuel : bs.length ≤ fuel) (hfuel' : bs.length < fuel') :
    mergePartial size fuel' bs b = (if (mergeFields fuel bs b.value).1 then some true else none,
      { b with value := (mergeFields fuel bs b.value).2 }) := by
  induction h generalizing b fuel fuel' with
  | nil => exact absurd rfl hne
  | @cut bs h =>
    obtain ⟨fuel, rfl⟩ := Nat.exists_eq_add_one.mpr (Nat.lt_of_lt_of_le bs.length.succ_pos hfuel)
    obtain ⟨fuel', rfl⟩ := Nat.exists_eq_add_one.mpr (Nat.zero_lt_of_lt hfuel')
    have hread : readTag (8 :: bs) = (fieldTag, bs) := rfl
    rw [mergeFields, if_pos rfl, h,
      mergePartial_value_none (congrArg Prod.fst hread) (by rw [hread]; exact h)]
    rfl
  | @field bs n rest h hrest ih =>
    obtain ⟨fuel, rfl⟩ := Nat.exists_eq_add_one.mpr (Nat.lt_of_lt_of_le bs.length.succ_pos hfuel)
    obtain ⟨fuel', rfl⟩ := Nat.exists_eq_add_one.mpr (Nat.zero_lt_of_lt hfuel')
    have hread : readTag (8 :: bs) = (fieldTag, bs) := rfl
    have hstep : mergeFields (fuel + 1) (8 :: bs) b.value =
        mergeFields fuel rest (b.set (int32Of n)).value := by
      rw [mergeFields, if_pos rfl, h]
      rfl
    rw [hstep, mergePartial_value (congrArg Prod.fst hread) (by rw [hread]; exact h)]
    split
    · next hnil =>
      rw [hnil, mergeFields_nil]
      rfl
    · next hnil =>
      obtain ⟨v, hv, hvarint⟩ := isVarint_of_read h
      have hpos := hvarint.pos
      rw [List.length_cons, hv, List.length_append] at hfuel hfuel'
      exact ih hnil (by omega) (by omega)

/-- Where the parser for field 1 alone comes through, there is no other tag. -/
theorem fieldOnly_of_mergeFields {fuel : ℕ} {bs : List UInt8} {acc : Option Int32}
    (h : (mergeFields fuel bs acc).1 = true) : FieldOnly bs := by
  induction fuel generalizing bs acc with
  | zero =>
    cases bs with
    | nil => exact .nil
    | cons tag bs => cases h
  | succ fuel ih =>
    cases bs with
    | nil => exact .nil
    | cons tag bs =>
      rw [mergeFields] at h
      split at h
      · next htag =>
        rw [htag]
        cases hn : readVarint 10 bs with
        | none => exact .cut hn
        | some r =>
          rw [hn] at h
          exact .field hn (ih h)
      · cases h

/-- **On bodies without another tag the two parsers agree**, also where they fail. -/
theorem parse_wireOf {m : Message} {bs : List UInt8} (h : FieldOnly bs) :
    wireProtobuf.parseFromArray (wireOf m) bs =
      ((protobuf.parseFromArray m bs).1, wireOf (protobuf.parseFromArray m bs).2) := by
  by_cases hne : bs = []
  · rw [hne]
    rfl
  · have hbody : parseBody bs = ((protobuf.parseFromArray m bs).1,
        ⟨(mergeFields bs.length bs none).2, .empty⟩) := by
      rw [parseBody, mergePartial_of_fieldOnly h hne le_rfl (Nat.lt_succ_self _)]
      show ((if (mergeFields bs.length bs none).1 then some true else none) == some true &&
          (mergeFields bs.length bs none).2.isSome,
        (⟨(mergeFields bs.length bs none).2, .empty⟩ : Body)) =
          ((mergeFields bs.length bs none).1 && (mergeFields bs.length bs none).2.isSome, _)
      cases (mergeFields bs.length bs none).1 <;> rfl
    simp only [wireProtobuf, hbody]
    rfl

/-- Where `Message`'s parser succeeds, there is no other tag. -/
theorem parse_wireOf_true {m : Message} {bs : List UInt8}
    (h : (protobuf.parseFromArray m bs).1 = true) :
    wireProtobuf.parseFromArray (wireOf m) bs = (true, wireOf (protobuf.parseFromArray m bs).2) := by
  rw [parse_wireOf (fieldOnly_of_mergeFields (Bool.and_eq_true_iff.mp h).1), h]

/-- A field, and a tag with nothing behind it. -/
example : FieldOnly [8, 5, 8] :=
  have hread : readVarint 10 [5, 8] = some (5, [8]) := rfl
  .field hread (.cut rfl)

end GoFight.Protocol
