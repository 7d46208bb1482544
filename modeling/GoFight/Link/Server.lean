import GoFight.Net.System

/-!
# A server with an upstream link

The gate and the game server around the net layer.  Each keeps one connection to the server behind
it, which a thread of its own opens: the gate's `connect_to_gs` for `s_game_conn`, the game server's
`connect_to_ds` for `s_data_conn`.  A worker that registers the connection, or fails to, runs
`connector_callback`, and the logic thread runs `logic_update`.

* `Server` — the net layer, the link's variable, the threads, and where each of them is;
* `connectStep`, `callbackStep`, `logicStep` — the three kinds of threads, one access to shared data
  a step;
* `Server.step` — all of it, `serverSystem` — the runs from the call of `connect_gs` in
  `init_config` on.

The servers' tables of registered peers (`s_connections_to_me`) decide nothing here; the game
server's is a function of the nodes handled.  Reading a deleted `Connection`, or the `td_` of one no
worker has registered, is undefined: such a step has no successor.
-/

namespace GoFight.Link

open GoFight.Lib GoFight.Net

/-- Which server. -/
inductive Kind
  | gate
  | game
deriving DecidableEq, Repr

/-- `GATE_SERVER`. -/
def gateServer : Int32 := 32

/-- `GAME_SERVER`. -/
def gameServer : Int32 := 16

namespace Kind

/-- The initial value of `s_game_conn` and `s_data_conn`. -/
def unset : Kind → Addr
  | gate => 0
  | game => -1

/-- What `regist_to_game` and `regist_to_data` put in `my_id`. -/
def myId : Kind → Int32
  | gate => gateServer + 1
  | game => gameServer + 1

end Kind

/-- Where a thread in `connect_to_gs` or `connect_to_ds` is. -/
inductive ConnectPc
  /-- Before `while (!s_game_conn)`. -/
  | check
  /-- Before `net_connect`. -/
  | connect
  /-- Before the assignment of what `net_connect` returned. -/
  | store (v : Addr)
  /-- In `usleep`. -/
  | sleep
deriving DecidableEq, Repr

/-- How a call of `net_connect` ends. -/
inductive ConnectResult
  /-- `connect` failed: 0. -/
  | refused
  /-- `fcntl` failed: -1. -/
  | broken
  /-- A `Connection` at this address. -/
  | made (a : Addr)
deriving DecidableEq, Repr

/-- Where a worker is in `connector_callback`. -/
inductive CallbackPc (Msg : Type*)
  /-- Before `if (conn == s_game_conn)`. -/
  | compare
  /-- Before `set_init_ok(true)`. -/
  | setInitOk
  /-- Before `regist_to_game()`. -/
  | regist
  /-- In its `net_send`, before `conn->td_`. -/
  | send (it : Item Msg)
  /-- In its `net_send`, before the push. -/
  | push (w : ℕ) (it : Item Msg)
  /-- Before `connect_gs()`. -/
  | connectGs
  | done

/-- Where the logic thread is. -/
inductive LogicPc (Msg : Type*)
  /-- In `init_config`, before the connect thread is created. -/
  | init
  /-- In the loop of `main`, before `is_init_ok()`. -/
  | idle
  /-- In `get_net_msgs`, before thread `i`. -/
  | fetch (i : ℕ)
  /-- Before `while (s_recv_msgs.size() > 0)`. -/
  | handle
  /-- Before `s_game_conn = 0`. -/
  | reset (it : Item Msg)
  /-- Before `net_send(s_game_conn, msg_node)`. -/
  | toGs (it : Item Msg)
  /-- In `net_send`, before `conn->td_`. -/
  | send (it : Item Msg)
  /-- In `net_send`, before the push. -/
  | push (w : ℕ) (it : Item Msg)

/-- A server. -/
structure Server (Cls Msg : Type*) where
  net : Layer Cls Msg
  /-- `s_game_conn`, `s_data_conn`. -/
  upstream : Addr
  /-- `s_init_ok`. -/
  initOk : Bool
  threads : List ConnectPc
  /-- Of a worker in the callback. -/
  callback : ℕ → CallbackPc Msg
  logic : LogicPc Msg
  /-- How many of the nodes output so far `logic_update` has taken from `s_recv_msgs`. -/
  handled : ℕ
  /-- History: the incarnations whose callback with `is_ok` has returned. -/
  returned : List ℕ

/-- What happens next. -/
inductive Move
  | accept (written : Bool)
  | clock (t : ℕ)
  | worker (w : ℕ) (e : WorkerAct)
  /-- A worker in the callback; whether `pthread_create` succeeds, and the uninitialised `cli_conn_` of
  a new node. -/
  | callback (w : ℕ) (created : Bool) (junk : UInt64)
  | connect (i : ℕ) (r : ConnectResult)
  /-- The logic thread; whether `pthread_create` succeeds, and, history, the number of the push whose
  request the next node answers. -/
  | logic (created : Bool) (request : Option ℕ)
deriving DecidableEq, Repr

namespace Server

variable {Cls Msg : Type*}

/-- Before `connect_gs`. -/
def start (k : Kind) (net : Layer Cls Msg) : Server Cls Msg where
  net := net
  upstream := k.unset
  initOk := false
  threads := []
  callback _ := .done
  logic := .init
  handled := 0
  returned := []

/-- A new thread; the game server's does not test `s_data_conn`. -/
def createWorker (k : Kind) (sv : Server Cls Msg) : Server Cls Msg :=
  { sv with threads := sv.threads ++ [match k with | .gate => .check | .game => .connect] }

/-- The end of `init_config`. -/
def initConfig (k : Kind) (created : Bool) (sv : Server Cls Msg) : Server Cls Msg :=
  { (if created then sv.createWorker k else sv) with
    initOk := sv.initOk || k = .game
    logic := .idle }

/-- A connect thread goes on. -/
def setThread (sv : Server Cls Msg) (i : ℕ) (pc : ConnectPc) : Server Cls Msg :=
  { sv with threads := sv.threads.set i pc }

/-- A connect thread returns. -/
def endThread (sv : Server Cls Msg) (i : ℕ) : Server Cls Msg :=
  { sv with threads := sv.threads.eraseIdx i }

/-- A worker goes on in the callback. -/
def setCallback (sv : Server Cls Msg) (w : ℕ) (pc : CallbackPc Msg) : Server Cls Msg :=
  { sv with callback := Function.update sv.callback w pc }

/-- The logic thread goes on. -/
def setLogic (sv : Server Cls Msg) (pc : LogicPc Msg) : Server Cls Msg := { sv with logic := pc }

/-- The net layer has taken a step. -/
def setNet (sv : Server Cls Msg) (net : Layer Cls Msg) : Server Cls Msg := { sv with net := net }

/-- The worker a `net_send` finds at `conn->td_`. -/
def tdOf (sv : Server Cls Msg) (a : Addr) : Option ℕ := (sv.net.heap a).bind Connection.td

section Steps

variable (G : Generated Cls Msg) (k : Kind)

/-- The thread `i` of `connect_to_gs` or `connect_to_ds`. -/
def connectStep (sv : Server Cls Msg) (i : ℕ) (r : ConnectResult) : Option (Server Cls Msg) :=
  match sv.threads[i]? with
  | none => none
  | some .check =>
      some (if sv.upstream = 0 then sv.setThread i .connect else sv.endThread i)
  | some .connect =>
      match r with
      | .refused => some (sv.setThread i (.store 0))
      | .broken => some (sv.setThread i (.store (-1)))
      | .made a =>
          (sv.net.step G (.connect a)).map fun net => (sv.setNet net).setThread i (.store a)
  | some (.store v) =>
      let sv := { sv with upstream := v }
      some (match k with | .gate => sv.setThread i .sleep | .game => sv.endThread i)
  | some .sleep => some (sv.setThread i .check)

/-- The node of `regist_to_game` and `regist_to_data`. -/
def registNode (sv : Server Cls Msg) (node : MsgNode Msg) (id : ℕ) : Item Msg :=
  ⟨{ node with msgData := G.setMyId node.msgData k.myId, msgConn := sv.upstream }, .regist id, .request⟩

/-- `connector_callback` on a worker. -/
def callbackStep (sv : Server Cls Msg) (w : ℕ) (created : Bool) (junk : UInt64) :
    Option (Server Cls Msg) :=
  match (sv.net.worker w).phase, sv.callback w with
  | .callback a ok, .compare =>
      some (sv.setCallback w
        (if a = sv.upstream then (if ok then .setInitOk else .connectGs) else .done))
  | .callback _ _, .setInitOk => some ({ sv with initOk := true }.setCallback w .regist)
  | .callback a _, .regist =>
      (sv.net.heap a).map fun c =>
        match getMsgnode G.toProtobuf sv.net.registry junk Protocol.messageRegistReq with
        | none => sv.setCallback w .done
        | some node =>
            sv.setCallback w
              (if sv.upstream = 0 then .done else .send (sv.registNode G k node c.id))
  | .callback _ _, .send it =>
      (sv.tdOf it.node.msgConn).map fun v => sv.setCallback w (.push v it)
  | .callback _ _, .push v it =>
      (sv.net.step G (.send v it)).map fun net => (sv.setNet net).setCallback w .done
  | .callback _ _, .connectGs =>
      some ((if created then sv.createWorker k else sv).setCallback w .done)
  | _, _ => none

/-- A worker outside the callback, or at its end; a worker that comes to the callback starts it. -/
def workerStep (sv : Server Cls Msg) (w : ℕ) (e : WorkerAct) : Option (Server Cls Msg) :=
  match (sv.net.worker w).phase, sv.callback w with
  | .callback a ok, .done =>
      (sv.net.step G (.worker w e)).map fun net =>
        { sv.setNet net with
          returned := sv.returned ++ if ok then ((sv.net.heap a).map Connection.id).toList else [] }
  | .callback _ _, _ => none
  | _, _ => (sv.net.step G (.worker w e)).map fun net => (sv.setNet net).setCallback w .compare

/-- History: the incarnation whose request, the push `r`, a node answers. -/
def requester (sv : Server Cls Msg) (node : MsgNode Msg) (r : Option ℕ) : Option ℕ :=
  (r.bind fun n => sv.net.pushes[n]?).bind fun req =>
    if req.role = .request ∧ req.node.cliConn = node.cliConn then req.src.conn else none

/-- The body of the gate's loop over `s_recv_msgs`, up to its next access to shared data. -/
def relay (sv : Server Cls Msg) (it : Item Msg) (r : Option ℕ) : Server Cls Msg :=
  if it.node.msgConn = sv.upstream then
    if it.node.msgType ≠ 0 then
      if it.node.msgConn = 0 ∨ it.node.cliConn = 0 then sv
      else
        sv.setLogic (.send ⟨{ it.node with msgConn := it.node.cliConn }, it.src,
          .answer (sv.requester it.node r)⟩)
    else sv.setLogic (.reset it)
  else sv.setLogic (.toGs ⟨{ it.node with cliConn := it.node.msgConn }, it.src, .request⟩)

/-- `message_process` of the game server: only a refused registration does something. -/
def messageProcess (sv : Server Cls Msg) (it : Item Msg) : Option (Server Cls Msg) :=
  if it.node.msgType = Protocol.messageRegistReq ∧
      G.myId it.node.msgData &&& gateServer ≠ gateServer then
    (sv.net.step G (.close it.node.msgConn)).map sv.setNet
  else some sv

/-- The logic thread. -/
def logicStep (sv : Server Cls Msg) (created : Bool) (r : Option ℕ) : Option (Server Cls Msg) :=
  match sv.logic with
  | .init => some (sv.initConfig k created)
  | .idle => if sv.initOk then some (sv.setLogic (.fetch 0)) else none
  | .fetch i =>
      if i < sv.net.threadNum then
        (sv.net.step G (.getMsgs i)).map fun net => (sv.setNet net).setLogic (.fetch (i + 1))
      else some (sv.setLogic .handle)
  | .handle =>
      match sv.net.output[sv.handled]? with
      | none => some (sv.setLogic .idle)
      | some it =>
          let sv := { sv with handled := sv.handled + 1 }
          match k with
          | .gate => some (sv.relay it r)
          | .game => sv.messageProcess G it
  | .reset _ => some ({ sv with upstream := 0 }.setLogic .handle)
  | .toGs it =>
      some (if it.node.msgConn = 0 ∨ sv.upstream = 0 then sv.setLogic .handle
        else sv.setLogic (.send { it with node := { it.node with msgConn := sv.upstream } }))
  | .send it => (sv.tdOf it.node.msgConn).map fun v => sv.setLogic (.push v it)
  | .push v it =>
      (sv.net.step G (.send v it)).map fun net => (sv.setNet net).setLogic .handle

/-- One step of the server. -/
def step (sv : Server Cls Msg) : Move → Option (Server Cls Msg)
  | .accept written => (sv.net.step G (.accept written)).map sv.setNet
  | .clock t => (sv.net.step G (.clock t)).map sv.setNet
  | .worker w e => sv.workerStep G w e
  | .callback w created junk => sv.callbackStep G k w created junk
  | .connect i r => sv.connectStep G k i r
  | .logic created r => sv.logicStep G k created r

end Steps

end Server

/-- The runs of a server from the end of `protocol_init` on, when no connection has come in yet. -/
def serverSystem {Cls Msg : Type*} (G : Generated Cls Msg) (k : Kind) :
    Lts (Server Cls Msg) Move where
  init sv := ∃ threadNum registry clock, (registry Protocol.messageRegistReq).isSome ∧
    sv = .start k (.start threadNum registry clock)
  step sv m := sv.step G k m

end GoFight.Link
