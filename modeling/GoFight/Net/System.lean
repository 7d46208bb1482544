import GoFight.Lib.Lts
import GoFight.Net.Worker

/-!
# The net layer as a transition system

The workers beside everything else that touches their data: the accept thread, `net_connect`,
`get_net_msgs`, `net_send`, `conn_close` from another thread, and the clock.  Each is one step, and
the steps interleave in any order; a registration may happen at any time.

* `Act` — a step, `Layer.step` — what it does;
* `netSystem` — the system, started with any number of workers and any registry.

The `@[simp]` lemmas say what each update does to each part of the state.
-/

namespace GoFight.Net

open GoFight.Lib

/-- A step of the layer or of a thread that uses it. -/
inductive Act (Cls Msg : Type*)
  | worker (w : ℕ) (e : WorkerAct)
  /-- `give_worker_new_conn` of the accept thread. -/
  | accept (written : Bool)
  /-- `net_connect` where `connect` and `fcntl` succeed, with the address it allocates. -/
  | connect (a : Addr)
  /-- One round of the loop of `get_net_msgs`. -/
  | getMsgs (i : ℕ)
  /-- `td_write_msgs_.push_back` of a `net_send`, on the queue of a worker. -/
  | send (w : ℕ) (it : Item Msg)
  /-- `conn_close` of another thread, on a connection it has a node of. -/
  | close (a : Addr)
  | clock (t : ℕ)
  | regist (msgType : Int32) (init : Cls)

namespace Layer

variable {Cls Msg : Type*}

/-- One round of `get_net_msgs`. -/
def getNetMsgs (s : Layer Cls Msg) (i : ℕ) : Layer Cls Msg :=
  { s with output := s.output ++ (s.worker i).tdReadMsgs }.modWorker i
    fun t => { t with tdReadMsgs := [] }

/-- `net_connect`: the object is made and queued. -/
def netConnect (s : Layer Cls Msg) (a : Addr) : Layer Cls Msg :=
  (s.alloc a .connecting true).setConnectors (s.connectConns ++ [a])

/-- The push of `net_send`. -/
def pushWrite (s : Layer Cls Msg) (w : ℕ) (it : Item Msg) : Layer Cls Msg :=
  { s with pushes := s.pushes ++ [it] }.modWorker w (.queueWrite it)

/-- One step. -/
def step (G : Generated Cls Msg) (s : Layer Cls Msg) : Act Cls Msg → Option (Layer Cls Msg)
  | .worker w e => if w < s.threadNum then s.workerStep G w e else none
  | .accept written =>
      if 0 < s.threadNum then some (s.giveWorker ⟨none, .waiting⟩ written) else none
  | .connect a => if s.Fresh a then some (s.netConnect a) else none
  | .getMsgs i => if i < s.threadNum then some (s.getNetMsgs i) else none
  | .send w it => if w < s.threadNum then some (s.pushWrite w it) else none
  | .close a => (s.heap a).bind fun c => if c.td.isSome then some (s.connClose a) else none
  | .clock t => some { s with clock := t }
  | .regist msgType init =>
      some { s with registry := (registMsgProcesser s.registry msgType init).1 }

/-! ### What the updates change -/

section Api

variable (s : Layer Cls Msg) (a b : Addr) (w v id : ℕ) (f : Connection Msg → Connection Msg)
  (g : ThreadData Msg → ThreadData Msg) (h : Life Msg → Life Msg) (p : Phase)

theorem modConn_heap : (s.modConn a f).heap b = if b = a then (s.heap b).map f else s.heap b := by
  by_cases hb : b = a
  · subst hb
    simp [modConn]
  · simp [modConn, hb]

@[simp] theorem modConn_worker : (s.modConn a f).worker = s.worker := rfl
@[simp] theorem modConn_life : (s.modConn a f).life = s.life := rfl
@[simp] theorem modConn_output : (s.modConn a f).output = s.output := rfl
@[simp] theorem modConn_pushes : (s.modConn a f).pushes = s.pushes := rfl
@[simp] theorem modConn_nextId : (s.modConn a f).nextId = s.nextId := rfl
@[simp] theorem modConn_connectConns : (s.modConn a f).connectConns = s.connectConns := rfl
@[simp] theorem modConn_threadNum : (s.modConn a f).threadNum = s.threadNum := rfl
@[simp] theorem modConn_registry : (s.modConn a f).registry = s.registry := rfl
@[simp] theorem modConn_clock : (s.modConn a f).clock = s.clock := rfl

theorem modWorker_worker :
    (s.modWorker w g).worker v = if v = w then g (s.worker v) else s.worker v := by
  by_cases hv : v = w
  · subst hv
    simp [modWorker]
  · simp [modWorker, hv]

@[simp] theorem modWorker_worker_self : (s.modWorker w g).worker w = g (s.worker w) := by
  simp [modWorker_worker]

@[simp] theorem modWorker_heap : (s.modWorker w g).heap = s.heap := rfl
@[simp] theorem modWorker_life : (s.modWorker w g).life = s.life := rfl
@[simp] theorem modWorker_output : (s.modWorker w g).output = s.output := rfl
@[simp] theorem modWorker_pushes : (s.modWorker w g).pushes = s.pushes := rfl
@[simp] theorem modWorker_nextId : (s.modWorker w g).nextId = s.nextId := rfl
@[simp] theorem modWorker_connectConns : (s.modWorker w g).connectConns = s.connectConns := rfl
@[simp] theorem modWorker_threadNum : (s.modWorker w g).threadNum = s.threadNum := rfl
@[simp] theorem modWorker_registry : (s.modWorker w g).registry = s.registry := rfl
@[simp] theorem modWorker_clock : (s.modWorker w g).clock = s.clock := rfl

theorem modLife_life :
    (s.modLife id h).life v = if v = id then h (s.life v) else s.life v := by
  by_cases hv : v = id
  · subst hv
    simp [modLife]
  · simp [modLife, hv]

@[simp] theorem modLife_heap : (s.modLife id h).heap = s.heap := rfl
@[simp] theorem modLife_worker : (s.modLife id h).worker = s.worker := rfl
@[simp] theorem modLife_output : (s.modLife id h).output = s.output := rfl
@[simp] theorem modLife_pushes : (s.modLife id h).pushes = s.pushes := rfl
@[simp] theorem modLife_nextId : (s.modLife id h).nextId = s.nextId := rfl
@[simp] theorem modLife_connectConns : (s.modLife id h).connectConns = s.connectConns := rfl
@[simp] theorem modLife_threadNum : (s.modLife id h).threadNum = s.threadNum := rfl
@[simp] theorem modLife_registry : (s.modLife id h).registry = s.registry := rfl
@[simp] theorem modLife_clock : (s.modLife id h).clock = s.clock := rfl

@[simp] theorem goto_heap : (s.goto w p).heap = s.heap := rfl
@[simp] theorem goto_life : (s.goto w p).life = s.life := rfl
@[simp] theorem goto_output : (s.goto w p).output = s.output := rfl
@[simp] theorem goto_pushes : (s.goto w p).pushes = s.pushes := rfl
@[simp] theorem goto_nextId : (s.goto w p).nextId = s.nextId := rfl
@[simp] theorem goto_connectConns : (s.goto w p).connectConns = s.connectConns := rfl
@[simp] theorem goto_threadNum : (s.goto w p).threadNum = s.threadNum := rfl
@[simp] theorem goto_registry : (s.goto w p).registry = s.registry := rfl
@[simp] theorem goto_clock : (s.goto w p).clock = s.clock := rfl

theorem goto_worker : (s.goto w p).worker v =
    if v = w then (s.worker v).goto p else s.worker v := by
  rw [goto, modWorker_worker]

end Api

end Layer

/-- The net layer, started with `threadNum` workers. -/
def netSystem {Cls Msg : Type*} (G : Generated Cls Msg) : Lts (Layer Cls Msg) (Act Cls Msg) where
  init s := ∃ threadNum registry clock, s = .start threadNum registry clock
  step s a := s.step G a

end GoFight.Net
