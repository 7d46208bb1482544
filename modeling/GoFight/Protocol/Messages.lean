import GoFight.Lib.Varint
import GoFight.Net.Message

/-!
# The registered messages of the repository

`src/protocol` registers four message types, and each of the four classes behind them is one
required `int32` in field 1: `Shutdown::Req { code }`, `Shutdown::Res { code }`,
`Regist::Req { my_id }` and `Regist::Res { code }`.  This file has their generated parse and
serialise code on that field and the registry `protocol_init` builds, as an instance of the
protobuf parameter (`protobuf`, `protobuf_lawful`).

A body with a tag other than field 1's is taken as one that does not parse; the generated classes
would skip a well-formed unknown field instead, as `WireMessages.lean` has it.  The theorems on whole
runs are for any classes; the concrete runs beside them take these, and have no such body, so they
are the same with those (`parse_wireOf`, `serialize_wireOf`).
-/

namespace GoFight.Protocol

open GoFight.Lib GoFight.Net

/-- The registered message classes. -/
inductive MsgClass
  | shutdownReq
  | shutdownRes
  | registReq
  | registRes
deriving DecidableEq, Repr

/-- An object of one of them: its class and its field, when set. -/
structure Message where
  cls : MsgClass
  value : Option Int32
deriving DecidableEq, Repr

/-- `WriteInt32ToArray(1, value)`: the tag, then the value sign-extended to 64 bits. -/
def fieldBytes (v : Int32) : List UInt8 := 8 :: varintBytes 10 v.toInt64.toUInt64.toNat

/-- `SerializeWithCachedSizesToArray`. -/
def serialize (m : Message) : List UInt8 :=
  match m.value with
  | none => []
  | some v => fieldBytes v

/-- The loop of `MergePartialFromCodedStream`: the low 32 bits of each varint behind tag 8 set the
field. -/
def mergeFields : ℕ → List UInt8 → Option Int32 → Bool × Option Int32
  | _, [], acc => (true, acc)
  | 0, _ :: _, acc => (false, acc)
  | fuel + 1, tag :: bs, acc =>
      if tag = 8 then
        match readVarint 10 bs with
        | none => (false, acc)
        | some (n, rest) => mergeFields fuel rest (some (UInt64.ofNat n).toUInt32.toInt32)
      else (false, acc)

/-- `ParseFromArray`: clear, merge, and check the required field. -/
def parse (m : Message) (bs : List UInt8) : Bool × Message :=
  let r := mergeFields bs.length bs none
  (r.1 && r.2.isSome, { m with value := r.2 })

/-- The protobuf calls on these classes. -/
def protobuf : Protobuf MsgClass Message where
  clsOf := Message.cls
  newMsg c := ⟨c, none⟩
  isInitialized m := m.value.isSome
  byteSize m := (serialize m).length
  serializeToArray := serialize
  parseFromArray := parse

/-- `set_code` of the `Shutdown` messages and `set_my_id` of `Regist::Req` set the one field. -/
def setValue (m : Message) (v : Int32) : Message := { m with value := some v }

/-- The generated classes. -/
def generated : Generated MsgClass Message where
  toProtobuf := protobuf
  setCode := setValue
  setMyId := setValue
  myId m := m.value.getD 0

theorem toInt32_ofNat (v : Int32) :
    (UInt64.ofNat v.toInt64.toUInt64.toNat).toUInt32.toInt32 = v := by
  rw [UInt64.ofNat_toNat]
  apply Int32.toBitVec_inj.mp
  show BitVec.setWidth 32 (BitVec.signExtend 64 v.toBitVec) = v.toBitVec
  ext i hi
  simp only [BitVec.getElem_setWidth, BitVec.getLsbD_signExtend]
  grind

theorem mergeFields_nil (fuel : ℕ) (acc : Option Int32) : mergeFields fuel [] acc = (true, acc) := by
  cases fuel <;> rfl

theorem mergeFields_fieldBytes (v : Int32) :
    mergeFields (fieldBytes v).length (fieldBytes v) none = (true, some v) := by
  have hlt : v.toInt64.toUInt64.toNat < 128 ^ (9 + 1) :=
    lt_trans v.toInt64.toUInt64.toNat_lt (by norm_num)
  have hread := readVarint_varintBytes 9 _ hlt []
  rw [List.append_nil] at hread
  rw [fieldBytes, List.length_cons, mergeFields, if_pos rfl, hread]
  simp only [toInt32_ofNat, mergeFields_nil]

/-- The classes behave as protobuf documents. -/
theorem protobuf_lawful : protobuf.Lawful where
  clsOf_newMsg _ := rfl
  clsOf_parse _ _ := rfl
  byteSize_eq _ := rfl
  parse_serialize := by
    intro m
    obtain ⟨c, _ | v⟩ := m
    · rfl
    · show parse ⟨c, none⟩ (fieldBytes v) = (true, ⟨c, some v⟩)
      rw [parse, mergeFields_fieldBytes]
      rfl
  parse_initialized := by
    intro m bs h
    exact (Bool.and_eq_true_iff.mp h).2

/-! ### `protocol_init` -/

/-- `message_Shutdown_Req_`, the type of a disconnect notice. -/
def messageShutdownReq : Int32 := 0

/-- `message_Shutdown_Res_`. -/
def messageShutdownRes : Int32 := 1

/-- `message_Regist_Req_`. -/
def messageRegistReq : Int32 := 20001

/-- `message_Regist_Res_`. -/
def messageRegistRes : Int32 := 20002

/-- `protocol_init`: the registry after its four `regist_msg_processer` calls. -/
def protocolInit (reg : Registry MsgClass) : Registry MsgClass :=
  let reg := (registMsgProcesser reg messageShutdownReq .shutdownReq).1
  let reg := (registMsgProcesser reg messageShutdownRes .shutdownRes).1
  let reg := (registMsgProcesser reg messageRegistReq .registReq).1
  (registMsgProcesser reg messageRegistRes .registRes).1

/-- The registry of a server after `protocol_init`. -/
def registry : Registry MsgClass := protocolInit fun _ => none

example : registry 20001 = some .registReq := by decide

example : serialize ⟨.registReq, some 33⟩ = [8, 33] := by decide

end GoFight.Protocol
