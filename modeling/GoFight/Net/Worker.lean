import GoFight.Net.Connection

/-!
# The worker loop

`data_thread_worker` and what it calls, step by step.  A step ends where another thread may act in
between: at a lock, at a read of a connection's state, at a system call.  What the operating system
and libevent answer is the label of a step (`WorkerAct`).

* `connClose` — `conn_close`: the one operation other threads do on a connection's state;
* `onRead`, `onWrite` — the handlers past their test of the state, for each outcome of the call to
  the socket;
* `drainStep`, `transferStep`, `pushWorkerNewConn`, `notifyStep`, `noticeStep`, `closingStep`,
  `eraseStep`, `deleteStep` — the parts of the loop;
* `workerStep` — the loop.

A step that would touch an address without an object, or make a null pointer dereference, has no
successor; `Moves.lean` shows that a reachable worker finds an object at every address it has in hand.
-/

namespace GoFight.Net

open GoFight.Lib

/-- What `evbuffer_read` gives. -/
inductive ReadResult
  /-- Data, and the read buffer with it appended. -/
  | data (chunk : List UInt8) (buffer : Evbuffer)
  | eof
  /-- `EAGAIN` or `EINTR`, and whether `update_event` succeeds. -/
  | again (updated : Bool)
  | error
deriving DecidableEq, Repr

/-- What `on_write` meets: nothing to write, or what `evbuffer_write` gives. -/
inductive WriteResult
  | idle
  | wrote (n : ℕ)
  | again (updated : Bool)
  | error
deriving DecidableEq, Repr

/-- What happens in a step of a worker. -/
inductive WorkerAct
  /-- The next step, with no outcome to choose. -/
  | go
  /-- `push_worker_new_conn`, and whether the byte was written to the pipe. -/
  | push (written : Bool)
  | read (r : ReadResult)
  | write (r : WriteResult)
  /-- An event of a connection fires. -/
  | readEvent (a : Addr)
  | writeEvent (a : Addr)
  /-- A byte of the pipe is read; whether `create_conn` succeeds, and where it allocates. -/
  | notified (created : Bool) (a : Addr)
  /-- The sweep makes a notice, whose `cli_conn_` is not initialised. -/
  | notice (junk : UInt64)
deriving DecidableEq, Repr

namespace Layer

variable {Cls Msg : Type*}

/-- `conn_close`, on the object at `a`: the state and the close time change once. -/
def connClose (s : Layer Cls Msg) (a : Addr) : Layer Cls Msg :=
  match s.heap a with
  | none => s
  | some c =>
      if c.state = .close then s
      else (s.modConn a (.shut s.clock)).modLife c.id (.shut s.clock)

/-- What an allocation may return. -/
def Fresh (s : Layer Cls Msg) (a : Addr) : Prop := s.heap a = none ∧ a ≠ 0 ∧ a.toNat % 16 = 0

instance (s : Layer Cls Msg) (a : Addr) : Decidable (s.Fresh a) :=
  match h : s.heap a with
  | none => decidable_of_iff (a ≠ 0 ∧ a.toNat % 16 = 0) (by simp [Fresh, h])
  | some _ => isFalse (by simp [Fresh, h])

section Handlers

variable (G : Generated Cls Msg)

/-! ### The handlers -/

/-- `on_read` on the object at `a`, past its test of the state. -/
def onRead (s : Layer Cls Msg) (a : Addr) (c : Connection Msg) :
    ReadResult → Option (Layer Cls Msg)
  | .data chunk buffer =>
      if chunk ≠ [] ∧ c.readBuffer.Extends chunk buffer then
        (messageFormat G.toProtobuf s.registry a buffer
            ⟨c.readBuffer.length, chunk.length, 0⟩).map fun r =>
          let items := number c.id (s.life c.id).decoded.length r.2
          (s.modConn a (.receive r.1 items)).modLife c.id (.receive chunk items)
      else none
  | .eof => some ((s.modConn a .stopRead).connClose a)
  | .again true => some (s.modConn a (.waitRead true))
  | .again false => some ((s.modConn a (.waitRead false)).connClose a)
  | .error => some ((s.modConn a .stopRead).connClose a)

/-- The first loop of `on_write`: `conn_write_msgs_` goes to the write buffer. -/
def flushConn (c : Connection Msg) : Connection Msg :=
  { c with
    writeBuffer := flushMsgs G.toProtobuf (c.connWriteMsgs.map Item.node) c.writeBuffer
    connWriteMsgs := []
    flushed := c.flushed ++ c.connWriteMsgs }

/-- `on_write` on the object at `a`, past its test of the state. -/
def onWrite (s : Layer Cls Msg) (a : Addr) (c : Connection Msg) (r : WriteResult) :
    Option (Layer Cls Msg) :=
  let s := s.modConn a (flushConn G)
  let len := (flushConn G c).writeBuffer.length
  match r with
  | .idle => if len = 0 then some (s.modConn a fun c => { c with canWrite := true }) else none
  | .wrote n =>
      if 0 < len ∧ n ≤ len then
        some (s.modConn a fun c =>
          { c with
            canWrite := true
            writeBuffer := (c.writeBuffer.remove n).2
            sent := c.sent ++ (c.writeBuffer.remove n).1 })
      else none
  | .again true =>
      if 0 < len then some (s.modConn a fun c => { c with writeEvent := true }) else none
  | .again false =>
      if 0 < len then some ((s.modConn a .writeFired).connClose a)
      else none
  | .error => if 0 < len then some (s.modConn a fun c => { c with canWrite := false }) else none

end Handlers

/-! ### The parts of the loop -/

/-- Distribute `td_write_msgs_`: a node whose connection is not in `thread_connections_` is
freed. -/
def drainWrites (conns : List Addr) (heap : Addr → Option (Connection Msg)) :
    List (Item Msg) → Addr → Option (Connection Msg)
  | [] => heap
  | it :: its =>
      if it.node.msgConn ∈ conns then
        drainWrites conns (Function.update heap it.node.msgConn ((heap it.node.msgConn).map
          fun c => { c with connWriteMsgs := c.connWriteMsgs ++ [it] })) its
      else drainWrites conns heap its

/-- The first loop of an iteration, under `write_msgs_lock_`. -/
def drainStep (s : Layer Cls Msg) (w : ℕ) : Layer Cls Msg :=
  let t := s.worker w
  { s with heap := drainWrites t.threadConnections s.heap t.tdWriteMsgs }.modWorker w
    fun t => { t with tdWriteMsgs := [], phase := .transfer t.threadConnections }

/-- Move one node of the object at `a` to `td_read_msgs_`, or go on to the next connection. -/
def transferStep (s : Layer Cls Msg) (w : ℕ) (a : Addr) (todo : List Addr) :
    Option (Layer Cls Msg) :=
  (s.heap a).map fun c =>
    match c.connReadMsgs with
    | [] => s.goto w (.transfer todo)
    | it :: rest =>
        (s.modConn a (.setRead rest)).modWorker w (.queueRead it)

/-- The worker the next new connection goes to. -/
def nextThread (s : Layer Cls Msg) : ℕ := (s.lastThreadId + 1).toNat % s.threadNum

/-- `_td->new_connections_.Push(ci)`, and the byte to the pipe of that worker. -/
def giveWorker (s : Layer Cls Msg) (ci : ConnInfo) (written : Bool) : Layer Cls Msg :=
  { s with lastThreadId := UInt64.ofNat s.nextThread }.modWorker s.nextThread (.give ci written)

/-- `push_worker_new_conn` on the first of `s_connect_conns`. -/
def pushWorkerNewConn (s : Layer Cls Msg) (written : Bool) : Option (Layer Cls Msg) :=
  match s.connectConns with
  | [] => none
  | a :: rest =>
      some (((s.setConnectors rest).setPlace a (.handed s.nextThread)).giveWorker
        ⟨some a, .connect⟩ written)

/-- `create_conn` where it succeeds, and `td_` behind it. -/
def initConn (w : ℕ) (state : ConnState) (c : Connection Msg) : Connection Msg :=
  { c with
    place := .registered w
    state := state
    canRead := false
    canWrite := false
    readEvent := true
    writeEvent := true
    td := some w
    readBuffer := .empty
    writeBuffer := .empty }

/-- `thread_connections_[conn] = conn; conn->td_ = _td` for the object at `a`. -/
def registerConn (s : Layer Cls Msg) (w : ℕ) (a : Addr) (id : ℕ) (state : ConnState) :
    Layer Cls Msg :=
  ((s.modConn a (initConn w state)).modLife id (.setOwner w)).modWorker w (.register a)

/-- A new object. -/
def alloc (s : Layer Cls Msg) (a : Addr) (place : Place) (connector : Bool) : Layer Cls Msg :=
  { s with
    heap := Function.update s.heap a (some (.new s.nextId place))
    nextId := s.nextId + 1
    life := Function.update s.life s.nextId (.new a connector) }

/-- `GO_DELETE` of the object at `a`. -/
def free (s : Layer Cls Msg) (a : Addr) : Layer Cls Msg :=
  match s.heap a with
  | none => s
  | some c =>
      { s with heap := Function.update s.heap a none }.modLife c.id .delete

/-- `thread_libevent_process`: one byte is read and a `ConnInfo` popped.  The duplicate test behind
`create_conn` looks for a descriptor among addresses and finds none. -/
def notifyStep (s : Layer Cls Msg) (w : ℕ) (created : Bool) (fresh : Addr) :
    Option (Layer Cls Msg) :=
  let t := s.worker w
  match t.notify, t.newConnections with
  | n + 1, ci :: rest =>
      let s := s.modWorker w (.take n rest)
      match ci.preNew, created with
      | none, false => some s
      | none, true =>
          if s.Fresh fresh then
            some ((s.alloc fresh .connecting false).registerConn w fresh s.nextId ci.state)
          else none
      | some a, false => some ((s.setPlace a (.refused w)).goto w (.callback a false))
      | some a, true =>
          (s.heap a).map fun c => (s.registerConn w a c.id ci.state).goto w (.callback a true)
  | _, _ => none

/-- `conn_internal_close`: buffers and events go, the queues of the object stay. -/
def connInternalClose (c : Connection Msg) : Connection Msg :=
  { c with readBuffer := .empty, writeBuffer := .empty, readEvent := false, writeEvent := false }

/-- The visit of the sweep to a closed connection: the notice is queued.  Without a class for
`Shutdown::Req` the sweep visits the connection again, for ever. -/
def noticeStep (G : Generated Cls Msg) (s : Layer Cls Msg) (w : ℕ) (a : Addr) (id : ℕ)
    (todo removeIds : List Addr) (junk : UInt64) : Layer Cls Msg :=
  match getMsgnode G.toProtobuf s.registry junk Protocol.messageShutdownReq with
  | none => s
  | some node =>
      let node := { node with msgData := G.setCode node.msgData 0, msgType := 0, msgConn := a }
      ((s.modLife id .notice).modWorker w
        (.queueRead ⟨node, .notice id, .request⟩)).goto w (.closing a todo removeIds)

/-- The rest of that visit. -/
def closingStep (s : Layer Cls Msg) (w : ℕ) (a : Addr) (closeTime : ℕ)
    (todo removeIds : List Addr) : Layer Cls Msg :=
  (s.modConn a connInternalClose).modWorker w fun t =>
    { t with
      forDelete := insertTime closeTime a t.forDelete
      phase := .sweep todo (removeIds ++ [a]) }

/-- History: the swept objects leave `thread_connections_`. -/
def retire (s : Layer Cls Msg) (w : ℕ) (removeIds : List Addr) (a : Addr) :
    Option (Connection Msg) :=
  if a ∈ removeIds then (s.heap a).map (.setPlace (.retired w)) else s.heap a

/-- `thread_connections_.erase` of everything swept. -/
def eraseStep (s : Layer Cls Msg) (w : ℕ) (removeIds : List Addr) : Layer Cls Msg :=
  { s with heap := s.retire w removeIds }.modWorker w fun t =>
    { t with
      threadConnections := t.threadConnections.filter (· ∉ removeIds)
      phase := .delete }

/-- One round of the deletion loop. -/
def deleteStep (s : Layer Cls Msg) (w : ℕ) : Option (Layer Cls Msg) :=
  match (s.worker w).forDelete with
  | [] => some (s.goto w .top)
  | (_, a) :: rest =>
      (s.heap a).map fun c =>
        if c.closeTime + 2 * 60 < (s.worker w).now then
          (s.free a).modWorker w fun t => { t with forDelete := rest }
        else s.goto w .top

/-! ### The loop -/

variable (G : Generated Cls Msg)

/-- Where a handler returns to. -/
def readReturn (a : Addr) : Option (List Addr) → Phase
  | some todo => .tryWrite a todo
  | none => .poll

def writeReturn : Option (List Addr) → Phase
  | some todo => .pass todo
  | none => .poll

/-- `data_thread_worker`, one step. -/
def workerStep (s : Layer Cls Msg) (w : ℕ) (e : WorkerAct) : Option (Layer Cls Msg) :=
  match (s.worker w).phase, e with
  | .top, .go => some (s.modWorker w fun t => { t with now := s.clock, phase := .drain })
  | .drain, .go => some (s.drainStep w)
  | .transfer [], .go => some (s.goto w .connectors)
  | .transfer (a :: todo), .go => s.transferStep w a todo
  | .connectors, .push written => s.pushWorkerNewConn written
  | .connectors, .go =>
      if s.connectConns = [] then some (s.goto w (.pass (s.worker w).threadConnections)) else none
  | .pass [], .go => some (s.goto w .poll)
  | .pass (a :: todo), .go =>
      (s.heap a).map fun c =>
        s.goto w (if c.state = .close then .pass todo else .tryRead a todo)
  | .tryRead a todo, .go =>
      (s.heap a).map fun c =>
        s.goto w (if c.canRead ∧ c.state ≠ .close then .reading a (some todo)
          else .tryWrite a todo)
  | .tryWrite a todo, .go =>
      (s.heap a).map fun c =>
        s.goto w (if c.canWrite ∧ c.state ≠ .close then .writing a (some todo) else .pass todo)
  | .reading a back, .read r =>
      (s.heap a).bind fun c => (s.onRead G a c r).map fun s => s.goto w (readReturn a back)
  | .writing a back, .write r =>
      (s.heap a).bind fun c => (s.onWrite G a c r).map fun s => s.goto w (writeReturn back)
  | .poll, .readEvent a =>
      if a ∈ (s.worker w).threadConnections then
        (s.heap a).bind fun c =>
          if c.readEvent then
            some ((s.modConn a .readFired).goto w
              (if c.state = .close then .poll else .reading a none))
          else none
      else none
  | .poll, .writeEvent a =>
      if a ∈ (s.worker w).threadConnections then
        (s.heap a).bind fun c =>
          if c.writeEvent then
            some ((s.modConn a .writeFired).goto w
              (if c.state = .close then .poll else .writing a none))
          else none
      else none
  | .poll, .notified created fresh => s.notifyStep w created fresh
  | .poll, .go => some (s.goto w (.sweep (s.worker w).threadConnections []))
  | .callback a ok, .go => some ((if ok then s else s.free a).goto w .poll)
  | .sweep [] removeIds, .go => some (s.goto w (.erase removeIds))
  | .sweep (a :: todo) removeIds, .go =>
      (s.heap a).bind fun c =>
        if c.state = .close then none else some (s.goto w (.sweep todo removeIds))
  | .sweep (a :: todo) removeIds, .notice junk =>
      (s.heap a).bind fun c =>
        if c.state = .close then some (s.noticeStep G w a c.id todo removeIds junk) else none
  | .closing a todo removeIds, .go =>
      (s.heap a).map fun c => s.closingStep w a c.closeTime todo removeIds
  | .erase removeIds, .go => some (s.eraseStep w removeIds)
  | .delete, .go => s.deleteStep w
  | _, _ => none

end Layer

end GoFight.Net
