import Mathlib.Data.List.Sort
import Mathlib.Data.UInt
import GoFight.Net.Codec

/-!
# The state of the net layer

The data of `go_net.h`: `Connection` objects on a heap, one `ThreadData` per worker, the two queues
new connections wait in, and the registry.

* `Connection` — the object; `Item` — a `MsgNode` on its way, with its history;
* `Phase` — where `data_thread_worker` is in its loop, `ThreadData` — the data of a worker;
* `Layer` — the whole layer.

Addresses are reused by the allocator, so an object also has a number of its own: its *incarnation*,
`Connection.id`.  What a field of the model records about the past only is marked "history"; no
step of the code reads it.  `Life` collects the history of an incarnation, which outlives its object.

Descriptors, `s_conns_map` and the statistics counters decide nothing here and are left out: whether
`accept`, `connect`, `dup`, `event_add` and `write` succeed is part of a step's label.
-/

namespace GoFight.Net

open GoFight.Lib

/-- `enum ConnState`. -/
inductive ConnState
  | listen
  | waiting
  | waitingData
  | close
  | connect
deriving DecidableEq, Repr

/-- The two sides of a connection, each with an event and a handler. -/
inductive Side
  | read
  | write
deriving DecidableEq, Repr

/-! ### Messages on their way -/

/-- History: where a node comes from. -/
inductive Source
  /-- The node with this number among those `message_format` decoded on an incarnation. -/
  | wire (conn index : ℕ)
  /-- The disconnect notice of an incarnation. -/
  | notice (conn : ℕ)
  /-- The registration the connector callback sends on an incarnation. -/
  | regist (conn : ℕ)
deriving DecidableEq, Repr

/-- The incarnation a source came in on. -/
def Source.conn : Source → Option ℕ
  | .wire id _ => some id
  | .notice id => some id
  | .regist _ => none

/-- History: what the logic thread sends a node for. -/
inductive Role
  /-- It goes to the server behind, or is not sent yet. -/
  | request
  /-- It goes to a client: the answer to a request of this incarnation, where there was one. -/
  | answer (conn : Option ℕ)
deriving DecidableEq, Repr

/-- A node in a queue. -/
structure Item (Msg : Type*) where
  node : MsgNode Msg
  src : Source
  role : Role
deriving DecidableEq, Repr

/-- The items of an incarnation in a queue. -/
def itemsOf {Msg : Type*} (id : ℕ) (l : List (Item Msg)) : List (Item Msg) :=
  l.filter fun it => it.src.conn = some id

/-- Number the nodes a callback decoded. -/
def number {Msg : Type*} (id : ℕ) : ℕ → List (MsgNode Msg) → List (Item Msg)
  | _, [] => []
  | k, m :: ms => ⟨m, .wire id k, .request⟩ :: number id (k + 1) ms

/-! ### Connections -/

/-- History: which list of the layer holds an object. -/
inductive Place
  /-- `s_connect_conns`. -/
  | connecting
  /-- `new_connections_` of a worker. -/
  | handed (w : ℕ)
  /-- `create_conn` failed, and the callback runs. -/
  | refused (w : ℕ)
  /-- `thread_connections_` of a worker. -/
  | registered (w : ℕ)
  /-- Swept; in `for_delete_connections_`, or in no list. -/
  | retired (w : ℕ)
deriving DecidableEq, Repr

/-- `net::Connection`.  An event is its bit "pending in the event base"; `td_` is unset before the
object is registered. -/
structure Connection (Msg : Type*) where
  /-- History: the incarnation. -/
  id : ℕ
  place : Place
  state : ConnState
  closeTime : ℕ
  canRead : Bool
  canWrite : Bool
  readEvent : Bool
  writeEvent : Bool
  td : Option ℕ
  readBuffer : Evbuffer
  connReadMsgs : List (Item Msg)
  writeBuffer : Evbuffer
  connWriteMsgs : List (Item Msg)
  /-- History: the nodes put into the write buffer, and the bytes handed to the socket. -/
  flushed : List (Item Msg)
  sent : List UInt8

/-- `GO_NEW(Connection)`; `state_` is set by `create_conn`, and nothing reads it before. -/
def Connection.new {Msg : Type*} (id : ℕ) (place : Place) : Connection Msg where
  id := id
  place := place
  state := .connect
  closeTime := 0
  canRead := false
  canWrite := false
  readEvent := false
  writeEvent := false
  td := none
  readBuffer := .empty
  connReadMsgs := []
  writeBuffer := .empty
  connWriteMsgs := []
  flushed := []
  sent := []

/-- History: the object is in another list. -/
def Connection.setPlace {Msg : Type*} (p : Place) (c : Connection Msg) : Connection Msg :=
  { c with place := p }

/-- `can_read_ = false`. -/
def Connection.stopRead {Msg : Type*} (c : Connection Msg) : Connection Msg :=
  { c with canRead := false }

/-- `can_read_ = false`, and the read event added again, or lost in the attempt. -/
def Connection.waitRead {Msg : Type*} (added : Bool) (c : Connection Msg) : Connection Msg :=
  { c with canRead := false, readEvent := added }

/-- What `on_read` does with `buffer` after a callback that queued `items`. -/
def Connection.receive {Msg : Type*} (buffer : Evbuffer) (items : List (Item Msg))
    (c : Connection Msg) : Connection Msg :=
  { c with
    canRead := true
    readBuffer := buffer
    connReadMsgs := c.connReadMsgs ++ items }

/-- The first node has gone to `td_read_msgs_`. -/
def Connection.setRead {Msg : Type*} (rest : List (Item Msg)) (c : Connection Msg) :
    Connection Msg :=
  { c with connReadMsgs := rest }

/-- `CS_CLOSE`, and its time. -/
def Connection.shut {Msg : Type*} (now : ℕ) (c : Connection Msg) : Connection Msg :=
  { c with state := .close, closeTime := now }

/-- A one-shot event has fired. -/
def Connection.readFired {Msg : Type*} (c : Connection Msg) : Connection Msg :=
  { c with readEvent := false }

def Connection.writeFired {Msg : Type*} (c : Connection Msg) : Connection Msg :=
  { c with writeEvent := false }

/-- The connection without what `on_write` and its event touch. -/
def Connection.readSide {Msg : Type*} (c : Connection Msg) : Connection Msg :=
  { c with
    canWrite := false
    writeEvent := false
    writeBuffer := .empty
    connWriteMsgs := []
    flushed := []
    sent := [] }

/-- History of an incarnation. -/
structure Life (Msg : Type*) where
  /-- Where its object is or was. -/
  addr : Addr
  /-- Made by `net_connect`. -/
  connector : Bool
  /-- The worker that registered it. -/
  owner : Option ℕ
  /-- The bytes read from its socket. -/
  received : List UInt8
  /-- The items `message_format` queued, all of them. -/
  decoded : List (Item Msg)
  /-- Once `CS_CLOSE`: the close time, and how many items had been queued then. -/
  closed : Option (ℕ × ℕ)
  /-- Its disconnect notice was queued. -/
  noticed : Bool
  /-- Its object was deleted. -/
  deleted : Bool

/-- The history of an object just made. -/
def Life.new {Msg : Type*} (addr : Addr) (connector : Bool) : Life Msg where
  addr := addr
  connector := connector
  owner := none
  received := []
  decoded := []
  closed := none
  noticed := false
  deleted := false

/-- History: `n` nodes had been queued when the state became `CS_CLOSE`. -/
def Life.shut {Msg : Type*} (now : ℕ) (l : Life Msg) : Life Msg :=
  { l with closed := some (now, l.decoded.length) }

/-- History: bytes came in, and items were queued. -/
def Life.receive {Msg : Type*} (chunk : List UInt8) (items : List (Item Msg)) (l : Life Msg) :
    Life Msg :=
  { l with received := l.received ++ chunk, decoded := l.decoded ++ items }

/-- History: worker `w` registered it. -/
def Life.setOwner {Msg : Type*} (w : ℕ) (l : Life Msg) : Life Msg := { l with owner := some w }

/-- History: its notice was queued. -/
def Life.notice {Msg : Type*} (l : Life Msg) : Life Msg := { l with noticed := true }

/-- History: its object was deleted. -/
def Life.delete {Msg : Type*} (l : Life Msg) : Life Msg := { l with deleted := true }

/-! ### Workers -/

/-- Where `data_thread_worker` is.  `todo` is what an iteration over `thread_connections_` has
still to visit; `back` is where a handler returns to: the rest of the pass over readable
connections, or the event loop. -/
inductive Phase
  /-- Before `now = get_s_time()`. -/
  | top
  /-- Before the distribution of `td_write_msgs_`. -/
  | drain
  /-- Moving `conn_read_msgs_` to `td_read_msgs_`. -/
  | transfer (todo : List Addr)
  /-- Handing out `s_connect_conns`. -/
  | connectors
  /-- The pass over readable and writable connections. -/
  | pass (todo : List Addr)
  /-- In that pass, before `if (can_read_)` and before `if (can_write_)`. -/
  | tryRead (a : Addr) (todo : List Addr)
  | tryWrite (a : Addr) (todo : List Addr)
  /-- In `on_read` and `on_write`, past their test of the state. -/
  | reading (a : Addr) (back : Option (List Addr))
  | writing (a : Addr) (back : Option (List Addr))
  /-- In `event_base_loop`. -/
  | poll
  /-- In `s_cntor_callback(a, ok)`, called by `thread_libevent_process`. -/
  | callback (a : Addr) (ok : Bool)
  /-- The close sweep, with `remove_ids`. -/
  | sweep (todo removeIds : List Addr)
  /-- In the sweep, before `conn_internal_close(a)`. -/
  | closing (a : Addr) (todo removeIds : List Addr)
  /-- Erasing `remove_ids` from `thread_connections_`. -/
  | erase (removeIds : List Addr)
  /-- The deletion loop. -/
  | delete
deriving DecidableEq, Repr

/-- `ConnInfo`: the pre-allocated connection of a connector, and the state to give. -/
structure ConnInfo where
  preNew : Option Addr
  state : ConnState
deriving DecidableEq, Repr

/-- `ThreadData`, with the locals of the worker's loop. -/
structure ThreadData (Msg : Type*) where
  phase : Phase
  now : ℕ
  newConnections : List ConnInfo
  /-- Bytes in the notification pipe. -/
  notify : ℕ
  /-- The keys of `thread_connections_`, which are the addresses of its values, in order. -/
  threadConnections : List Addr
  /-- `for_delete_connections_`, a map from close times. -/
  forDelete : List (ℕ × Addr)
  tdReadMsgs : List (Item Msg)
  tdWriteMsgs : List (Item Msg)

/-- A worker before its loop. -/
def ThreadData.new {Msg : Type*} : ThreadData Msg where
  phase := .top
  now := 0
  newConnections := []
  notify := 0
  threadConnections := []
  forDelete := []
  tdReadMsgs := []
  tdWriteMsgs := []

/-- A worker in phase `p`. -/
def ThreadData.goto {Msg : Type*} (p : Phase) (t : ThreadData Msg) : ThreadData Msg :=
  { t with phase := p }

/-- `td_read_msgs_.push_back`. -/
def ThreadData.queueRead {Msg : Type*} (it : Item Msg) (t : ThreadData Msg) : ThreadData Msg :=
  { t with tdReadMsgs := t.tdReadMsgs ++ [it] }

/-- `td_write_msgs_.push_back`. -/
def ThreadData.queueWrite {Msg : Type*} (it : Item Msg) (t : ThreadData Msg) : ThreadData Msg :=
  { t with tdWriteMsgs := t.tdWriteMsgs ++ [it] }

/-- `new_connections_.Push(ci)`, and a byte for it in the pipe. -/
def ThreadData.give {Msg : Type*} (ci : ConnInfo) (written : Bool) (t : ThreadData Msg) :
    ThreadData Msg :=
  { t with
    newConnections := t.newConnections ++ [ci]
    notify := if written then t.notify + 1 else t.notify }

/-- One byte less in the pipe, and `new_connections_.Pop()`. -/
def ThreadData.take {Msg : Type*} (n : ℕ) (rest : List ConnInfo) (t : ThreadData Msg) :
    ThreadData Msg :=
  { t with notify := n, newConnections := rest }

/-- `thread_connections_[a] = ...` for a key that is not there. -/
def insertConn (a : Addr) (l : List Addr) : List Addr := l.orderedInsert (· ≤ ·) a

/-- `for_delete_connections_[t] = a`: an entry with the same time is overwritten. -/
def insertTime (t : ℕ) (a : Addr) : List (ℕ × Addr) → List (ℕ × Addr)
  | [] => [(t, a)]
  | (u, b) :: l =>
      if t < u then (t, a) :: (u, b) :: l
      else if t = u then (t, a) :: l
      else (u, b) :: insertTime t a l

/-- `thread_connections_[a] = a`. -/
def ThreadData.register {Msg : Type*} (a : Addr) (t : ThreadData Msg) : ThreadData Msg :=
  { t with threadConnections := insertConn a t.threadConnections }

/-! ### The layer -/

/-- The net layer.  `threadNum` is `net_thread_num_`. -/
structure Layer (Cls Msg : Type*) where
  threadNum : ℕ
  heap : Addr → Option (Connection Msg)
  worker : ℕ → ThreadData Msg
  /-- `s_last_thread_id`. -/
  lastThreadId : UInt64
  /-- The pre-allocated connections of `s_connect_conns`. -/
  connectConns : List Addr
  /-- `s_msg_processers`. -/
  registry : Registry Cls
  /-- `get_s_time()`. -/
  clock : ℕ
  /-- Everything `get_net_msgs` has output, in order. -/
  output : List (Item Msg)
  /-- History: everything pushed on a `td_write_msgs_`, in order. -/
  pushes : List (Item Msg)
  /-- History: the number of the next incarnation, and the incarnations so far. -/
  nextId : ℕ
  life : ℕ → Life Msg

namespace Layer

variable {Cls Msg : Type*}

/-- Before the first worker runs. -/
def start (threadNum : ℕ) (registry : Registry Cls) (clock : ℕ) : Layer Cls Msg where
  threadNum := threadNum
  heap _ := none
  worker _ := .new
  lastThreadId := -1
  connectConns := []
  registry := registry
  clock := clock
  output := []
  pushes := []
  nextId := 0
  life _ := .new 0 false

/-- Update the object at an address. -/
def modConn (s : Layer Cls Msg) (a : Addr) (f : Connection Msg → Connection Msg) : Layer Cls Msg :=
  { s with heap := Function.update s.heap a ((s.heap a).map f) }

/-- Update a worker. -/
def modWorker (s : Layer Cls Msg) (w : ℕ) (f : ThreadData Msg → ThreadData Msg) : Layer Cls Msg :=
  { s with worker := Function.update s.worker w (f (s.worker w)) }

/-- Update the history of an incarnation. -/
def modLife (s : Layer Cls Msg) (id : ℕ) (f : Life Msg → Life Msg) : Layer Cls Msg :=
  { s with life := Function.update s.life id (f (s.life id)) }

/-- A worker goes on to `p`. -/
def goto (s : Layer Cls Msg) (w : ℕ) (p : Phase) : Layer Cls Msg :=
  s.modWorker w (.goto p)

/-- An object goes to another list. -/
def setPlace (s : Layer Cls Msg) (a : Addr) (p : Place) : Layer Cls Msg := s.modConn a (.setPlace p)

/-- Update `s_connect_conns`. -/
def setConnectors (s : Layer Cls Msg) (l : List Addr) : Layer Cls Msg := { s with connectConns := l }

end Layer

end GoFight.Net
