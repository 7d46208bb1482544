import Mathlib.Logic.Function.Basic
import GoFight.Net.Evbuffer
import GoFight.Lib.LittleEndian

/-!
# Messages, message classes and the processer registry

What the net layer passes around: a `MsgNode` (message type, client connection, decoded message,
connection), the registry `s_msg_processers` from message types to message classes, and the part of
protobuf the net layer calls.

The net layer uses protobuf through the message classes alone, so it is a parameter here:
`Protobuf Cls Msg` has the message classes `Cls`, the message objects `Msg` and the four calls the
code makes.  `Protobuf.Lawful` states the behaviour the code relies on, and `Protocol/Messages.lean`
and `Protocol/WireMessages.lean` have the generated classes.

`MsgNode::msg_length_` is never read or written and is left out; `msg_data_` is never `NULL`, since
every creator of a node fills it from a registered `new_msg_data`.
-/

namespace GoFight.Net

open GoFight.Lib

/-- The address of a `Connection`, as `cli_conn_` carries it over the wire. -/
abbrev Addr := UInt64

/-! ### Protobuf -/

/-- The protobuf calls of the net layer. -/
structure Protobuf (Cls Msg : Type*) where
  /-- The class of a message object. -/
  clsOf : Msg → Cls
  /-- A new object of a class, as a registered `new_msg_data` makes it. -/
  newMsg : Cls → Msg
  /-- `IsInitialized()`: every required field is set. -/
  isInitialized : Msg → Bool
  /-- `ByteSize()`. -/
  byteSize : Msg → ℕ
  /-- The bytes `SerializeToArray` writes. -/
  serializeToArray : Msg → List UInt8
  /-- `ParseFromArray`: the result, and the object afterwards. -/
  parseFromArray : Msg → List UInt8 → Bool × Msg

/-- Documented behaviour of protobuf: parsing undoes serialising, and succeeds exactly on an
initialised message; the byte size is the serialised length; objects keep their class. -/
structure Protobuf.Lawful {Cls Msg : Type*} (pb : Protobuf Cls Msg) : Prop where
  clsOf_newMsg : ∀ c, pb.clsOf (pb.newMsg c) = c
  clsOf_parse : ∀ m bs, pb.clsOf (pb.parseFromArray m bs).2 = pb.clsOf m
  byteSize_eq : ∀ m, pb.byteSize m = (pb.serializeToArray m).length
  parse_serialize : ∀ m, pb.parseFromArray (pb.newMsg (pb.clsOf m)) (pb.serializeToArray m)
    = (pb.isInitialized m, m)
  parse_initialized : ∀ m bs, (pb.parseFromArray m bs).1 = true →
    pb.isInitialized (pb.parseFromArray m bs).2 = true

/-- Protobuf with the accessors the servers call. -/
structure Generated (Cls Msg : Type*) extends Protobuf Cls Msg where
  /-- `Shutdown::Req::set_code`. -/
  setCode : Msg → Int32 → Msg
  /-- `Regist::Req::set_my_id`. -/
  setMyId : Msg → Int32 → Msg
  /-- `Regist::Req::my_id`. -/
  myId : Msg → Int32

/-! ### Nodes and the registry -/

/-- `net::MsgNode`. -/
structure MsgNode (Msg : Type*) where
  msgType : Int32
  cliConn : UInt64
  msgData : Msg
  msgConn : Addr
deriving DecidableEq, Repr

/-- `s_msg_processers`: the class whose objects the processer of a message type makes. -/
abbrev Registry (Cls : Type*) := Int32 → Option Cls

/-- `regist_msg_processer`: a type is registered once; a second registration is refused. -/
def registMsgProcesser {Cls : Type*} (reg : Registry Cls) (msgType : Int32) (init : Cls) :
    Registry Cls × Bool :=
  match reg msgType with
  | some _ => (reg, false)
  | none => (Function.update reg msgType (some init), true)

/-- `get_msgnode`: `cli_conn_` is left uninitialised, so its value is an argument here. -/
def getMsgnode {Cls Msg : Type*} (pb : Protobuf Cls Msg) (reg : Registry Cls) (junk : UInt64)
    (msgType : Int32) : Option (MsgNode Msg) :=
  (reg msgType).map fun c => ⟨msgType, junk, pb.newMsg c, 0⟩

/-- `get_res_node`: the answer to a request keeps its client connection and its connection. -/
def getResNode {Cls Msg : Type*} (pb : Protobuf Cls Msg) (reg : Registry Cls) (msgType : Int32)
    (req : MsgNode Msg) : Option (MsgNode Msg) :=
  (reg msgType).map fun c => ⟨msgType, req.cliConn, pb.newMsg c, req.msgConn⟩

end GoFight.Net
