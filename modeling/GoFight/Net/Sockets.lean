import Mathlib.Data.Finset.Filter
import Mathlib.Data.UInt
import Mathlib.Order.Interval.Finset.Nat
import GoFight.Lib.Lts
import GoFight.Net.MessageFormat

/-!
# Descriptors, the registry of connections and its counter

The part of the net layer that opens and closes sockets: the accept loop, `net_connect`,
`create_conn` as `thread_libevent_process` calls it, and `conn_internal_close` in the close sweep,
each cut at its locks and system calls, with `s_conns_map` and `s_gns_stat.curr_conns_`.

* `Sockets` — the threads, the objects and the open descriptors; `socketSystem` — the system;
* `RegistryOk` — what `s_conns_map` and the workers' `thread_connections_` say of the connections;
* `CounterExact` — what the counter says of `s_conns_map`.

The operating system hands out descriptors below `openMax` that are not open, and no object lies at
an address below it.  Which worker a new connection goes to, which connections are closed when the
sweep looks, and when a swept object is deleted, is left to the labels: nothing here depends on it.
What only records the past is marked "history".
-/

namespace GoFight.Net

open GoFight.Lib

/-- History: who has a descriptor. -/
inductive Holder
  /-- The accept loop. -/
  | accepting
  /-- A call of `net_connect`. -/
  | dialing
  /-- `s_connect_conns`. -/
  | connecting
  /-- `new_connections_` of a worker. -/
  | handed (w : ℕ)
  /-- `thread_libevent_process` of a worker, before its connection has it. -/
  | making (w : ℕ)
  | conn (a : Addr)
  /-- Nobody in the net layer. -/
  | other
deriving DecidableEq, Repr

/-- History: where an object is. -/
inductive Post
  | listening
  | connecting
  | handed (w : ℕ)
  /-- In `thread_libevent_process`, and `create_conn` has not set it up. -/
  | taken (w : ℕ)
  /-- In `thread_libevent_process`, set up. -/
  | making (w : ℕ)
  /-- `thread_connections_`. -/
  | registered (w : ℕ)
  /-- Swept. -/
  | retired (w : ℕ)
deriving DecidableEq, Repr

/-- `net::Connection`: its descriptors, `none` where they are not set or -1. -/
structure Socket where
  post : Post
  sfd : Option ℕ
  dup : Option ℕ
  /-- History: the descriptors it has and has not closed. -/
  live : List ℕ
deriving DecidableEq, Repr

/-- `GO_NEW(Connection)`. -/
def Socket.new (post : Post) : Socket := ⟨post, none, none, []⟩

/-- The descriptors of a connection. -/
def Socket.fds (c : Socket) : List ℕ := c.sfd.toList ++ c.dup.toList

/-- `ConnInfo`. -/
structure SockInfo where
  preNew : Option Addr
  sfd : ℕ
deriving DecidableEq, Repr

/-- Where the accept thread is in `new_connection`. -/
inductive AcceptPc
  /-- Before `accept`, or in the event loop. -/
  | idle
  /-- Before `fcntl`. -/
  | accepted (fd : ℕ)
  /-- Before `++s_gns_stat.curr_conns_`. -/
  | counting
deriving DecidableEq, Repr

/-- Where a worker is. -/
inductive SockPc
  /-- In neither `thread_libevent_process` nor the sweep. -/
  | loop
  /-- In `create_conn`, before `s_conns_map.find(sfd)`, and where it was not found. -/
  | popped (ci : SockInfo)
  | checked (ci : SockInfo)
  /-- `create_conn` returns null: a duplicate descriptor, or a failed `event_add`. -/
  | duplicate (ci : SockInfo)
  | failed (ci : SockInfo)
  /-- Before `s_conns_map[sfd] = _ret`, and before `++curr_conns_`. -/
  | made (ci : SockInfo) (a : Addr)
  | mapped (ci : SockInfo) (a : Addr)
  /-- Before `thread_connections_.find(ci->sfd_)`, and where it was found. -/
  | counted (ci : SockInfo) (a : Addr)
  | twice (ci : SockInfo) (a : Addr)
  /-- The close sweep, with `remove_ids`. -/
  | sweep (todo removeIds : List Addr)
  /-- In `conn_internal_close`: before the erase from `s_conns_map`, before each `close`, and before
  `--curr_conns_`. -/
  | erasing (a : Addr) (todo removeIds : List Addr)
  | closeDup (a : Addr) (todo removeIds : List Addr)
  | closeSock (a : Addr) (todo removeIds : List Addr)
  | uncount (a : Addr) (todo removeIds : List Addr)
  /-- Erasing `remove_ids` from `thread_connections_`. -/
  | removing (removeIds : List Addr)
deriving DecidableEq, Repr

/-- What a worker has. -/
structure SockWorker where
  pc : SockPc
  newConnections : List SockInfo
  threadConnections : List Addr
  forDelete : List Addr

/-- `new_connections_.Push(ci)`. -/
def SockWorker.give (ci : SockInfo) (t : SockWorker) : SockWorker :=
  { t with newConnections := t.newConnections ++ [ci] }

/-- `new_connections_.Pop()` gave `ci`. -/
def SockWorker.pop (ci : SockInfo) (rest : List SockInfo) (t : SockWorker) : SockWorker :=
  { t with pc := .popped ci, newConnections := rest }

/-- The net layer, as far as sockets go. -/
structure Sockets where
  threadNum : ℕ
  openMax : ℕ
  /-- The open descriptors, with their holders (history). -/
  os : ℕ → Option Holder
  heap : Addr → Option Socket
  /-- `s_conns_map`. -/
  connsMap : ℕ → Option Addr
  /-- `s_gns_stat.curr_conns_`. -/
  currConns : UInt64
  accept : AcceptPc
  /-- The descriptors of the calls of `net_connect` past `socket`. -/
  dialing : List ℕ
  connectConns : List SockInfo
  worker : ℕ → SockWorker
  /-- The descriptors the rest of the process has. -/
  others : List ℕ

/-- What a worker meets. -/
inductive SockEvent
  | go
  /-- The first of `s_connect_conns` goes to worker `v`. -/
  | connector (v : ℕ)
  | notified
  /-- What `dup` gives, whether the events were added, and where an object is allocated. -/
  | create (dup : Option ℕ) (added : Bool) (fresh : Addr)
  | sweep
  /-- Whether the connection the sweep is at is in `CS_CLOSE`. -/
  | visit (closed : Bool)
  | delete (a : Addr)
deriving DecidableEq, Repr

/-- A step. -/
inductive SockAct
  /-- `accept` returns a descriptor. -/
  | accept (fd : ℕ)
  /-- `fcntl` fails on it. -/
  | acceptFail
  /-- `give_worker_new_conn`, to worker `v`. -/
  | give (v : ℕ)
  | count
  /-- `socket` returns a descriptor in a call of `net_connect`; the call fails, or queues it. -/
  | dial (fd : ℕ)
  | dialFail (fd : ℕ)
  | dialed (fd : ℕ) (a : Addr)
  /-- The rest of the process opens and closes descriptors of its own. -/
  | otherOpen (fd : ℕ)
  | otherClose (fd : ℕ)
  | worker (w : ℕ) (e : SockEvent)
deriving DecidableEq, Repr

namespace Sockets

/-! ### Updates -/

def setOs (s : Sockets) (f : ℕ) (h : Option Holder) : Sockets :=
  { s with os := Function.update s.os f h }

def setObj (s : Sockets) (a : Addr) (c : Option Socket) : Sockets :=
  { s with heap := Function.update s.heap a c }

/-- History: the object is elsewhere. -/
def setPost (s : Sockets) (a : Addr) (p : Post) : Sockets :=
  s.setObj a ((s.heap a).map fun c => { c with post := p })

def setMap (s : Sockets) (f : ℕ) (a : Option Addr) : Sockets :=
  { s with connsMap := Function.update s.connsMap f a }

def modWorker (s : Sockets) (w : ℕ) (g : SockWorker → SockWorker) : Sockets :=
  { s with worker := Function.update s.worker w (g (s.worker w)) }

def setPc (s : Sockets) (w : ℕ) (pc : SockPc) : Sockets :=
  s.modWorker w fun t => { t with pc := pc }

/-- What the operating system may return. -/
def CanOpen (s : Sockets) (f : ℕ) : Prop := f < s.openMax ∧ s.os f = none

/-- What an allocation may return. -/
def Fresh (s : Sockets) (a : Addr) : Prop := s.heap a = none ∧ s.openMax ≤ a.toNat

instance (s : Sockets) (f : ℕ) : Decidable (s.CanOpen f) := inferInstanceAs (Decidable (_ ∧ _))

instance (s : Sockets) (a : Addr) : Decidable (s.Fresh a) := inferInstanceAs (Decidable (_ ∧ _))

/-! ### `create_conn` and `conn_internal_close` -/

/-- The object is set up: `sfd_`, `dup(sfd)`, and both events added. -/
def initSocket (s : Sockets) (w : ℕ) (ci : SockInfo) (a : Addr) (dup : Option ℕ) : Sockets :=
  ((({ s with os := fun f => if some f = dup then some (.conn a) else s.os f }).setOs ci.sfd
    (some (.conn a))).setObj a (some ⟨.making w, some ci.sfd, dup, ci.sfd :: dup.toList⟩)).setPc w
      (.made ci a)

/-- `create_conn` past its test for a duplicate.  Where `event_add` fails both descriptors are closed
again, and an object that was not pre-allocated is deleted again. -/
def createConn (s : Sockets) (w : ℕ) (ci : SockInfo) (dup : Option ℕ) (added : Bool) (fresh : Addr) :
    Option Sockets :=
  if (∀ d ∈ dup, s.CanOpen d) ∧ (ci.preNew = none → s.Fresh fresh) then
    if added then some (s.initSocket w ci (ci.preNew.getD fresh) dup)
    else some ((s.setOs ci.sfd none).setPc w (.failed ci))
  else none

/-- What `thread_libevent_process` does where it got no connection: it closes the descriptor, and
deletes a pre-allocated object. -/
def giveUp (s : Sockets) (w : ℕ) (ci : SockInfo) : Sockets :=
  (match ci.preNew with
    | none => s.setOs ci.sfd none
    | some a => (s.setOs ci.sfd none).setObj a none).setPc w .loop

/-- `thread_connections_[conn] = conn`. -/
def register (s : Sockets) (w : ℕ) (a : Addr) : Sockets :=
  (s.setPost a (.registered w)).modWorker w fun t =>
    { t with pc := .loop, threadConnections := a :: t.threadConnections }

/-- The erase from `s_conns_map` in `conn_internal_close`. -/
def eraseConn (s : Sockets) (c : Socket) : Sockets :=
  match c.sfd with
  | none => s
  | some f => s.setMap f none

/-- `close` of a descriptor of the object `c` at `a`. -/
def closeOf (s : Sockets) (a : Addr) (c : Socket) (f : ℕ) : Sockets :=
  (s.setOs f none).setObj a (some { c with live := c.live.erase f })

/-- `if (sfd_dup_for_write_ != -1) close(sfd_dup_for_write_)`. -/
def closeDupOf (s : Sockets) (a : Addr) (c : Socket) : Sockets :=
  match c.dup with
  | none => s
  | some d => s.closeOf a c d

/-- `if (sfd_dup_for_write_ != -1) close(sfd_)`. -/
def closeSockOf (s : Sockets) (a : Addr) (c : Socket) : Sockets :=
  match c.dup, c.sfd with
  | some _, some f => s.closeOf a c f
  | _, _ => s

/-- History: the swept objects leave `thread_connections_`. -/
def retire (s : Sockets) (w : ℕ) (removeIds : List Addr) (a : Addr) : Option Socket :=
  if a ∈ removeIds then (s.heap a).map fun c => { c with post := .retired w } else s.heap a

/-- `thread_connections_.erase` of everything swept, which `for_delete_connections_` has now. -/
def removeSwept (s : Sockets) (w : ℕ) (removeIds : List Addr) : Sockets :=
  { s with heap := s.retire w removeIds }.modWorker w fun t =>
    { t with
      pc := .loop
      threadConnections := t.threadConnections.filter (· ∉ removeIds)
      forDelete := t.forDelete ++ removeIds }

/-! ### Steps -/

/-- A worker at `pc`. -/
def workerStep (s : Sockets) (w : ℕ) : SockPc → SockEvent → Option Sockets
  | .loop, .connector v =>
      match s.connectConns with
      | ⟨some a, fd⟩ :: rest =>
          if v < s.threadNum then
            some ((({ s with connectConns := rest }.setOs fd (some (.handed v))).setPost a
              (.handed v)).modWorker v (.give ⟨some a, fd⟩))
          else none
      | _ => none
  | .loop, .notified =>
      match (s.worker w).newConnections with
      | [] => none
      | ci :: rest =>
          some (((match ci.preNew with
            | none => s
            | some a => s.setPost a (.taken w)).setOs ci.sfd (some (.making w))).modWorker w
              (.pop ci rest))
  | .popped ci, .go =>
      some (s.setPc w (if (s.connsMap ci.sfd).isSome then .duplicate ci else .checked ci))
  | .checked ci, .create dup added fresh => s.createConn w ci dup added fresh
  | .duplicate ci, .go => some (s.giveUp w ci)
  | .failed ci, .go => some (s.giveUp w ci)
  | .made ci a, .go => some ((s.setMap ci.sfd (some a)).setPc w (.mapped ci a))
  | .mapped ci a, .go => some ({ s with currConns := s.currConns + 1 }.setPc w (.counted ci a))
  | .counted ci a, .go =>
      if UInt64.ofNat ci.sfd ∈ (s.worker w).threadConnections then some (s.setPc w (.twice ci a))
      else some (s.register w a)
  | .twice ci _, .go => some (s.giveUp w ci)
  | .loop, .sweep => some (s.setPc w (.sweep (s.worker w).threadConnections []))
  | .sweep (a :: todo) removeIds, .visit closed =>
      some (s.setPc w (if closed then .erasing a todo removeIds else .sweep todo removeIds))
  | .erasing a todo removeIds, .go =>
      (s.heap a).map fun c => (s.eraseConn c).setPc w (.closeDup a todo removeIds)
  | .closeDup a todo removeIds, .go =>
      (s.heap a).map fun c => (s.closeDupOf a c).setPc w (.closeSock a todo removeIds)
  | .closeSock a todo removeIds, .go =>
      (s.heap a).map fun c => (s.closeSockOf a c).setPc w (.uncount a todo removeIds)
  | .uncount a todo removeIds, .go =>
      some ({ s with currConns := s.currConns - 1 }.setPc w (.sweep todo (removeIds ++ [a])))
  | .sweep [] removeIds, .go => some (s.setPc w (.removing removeIds))
  | .removing removeIds, .go => some (s.removeSwept w removeIds)
  | .loop, .delete a =>
      if a ∈ (s.worker w).forDelete then
        some ((s.setObj a none).modWorker w fun t => { t with forDelete := t.forDelete.erase a })
      else none
  | _, _ => none

/-- One step. -/
def step (s : Sockets) : SockAct → Option Sockets
  | .accept fd =>
      if s.accept = .idle ∧ s.CanOpen fd then
        some { s.setOs fd (some .accepting) with accept := .accepted fd }
      else none
  | .acceptFail =>
      match s.accept with
      | .accepted fd => some { s.setOs fd none with accept := .idle }
      | _ => none
  | .give v =>
      match s.accept with
      | .accepted fd =>
          if v < s.threadNum then
            some ({ s.setOs fd (some (.handed v)) with accept := .counting }.modWorker v
              (.give ⟨none, fd⟩))
          else none
      | _ => none
  | .count =>
      if s.accept = .counting then some { s with currConns := s.currConns + 1, accept := .idle }
      else none
  | .dial fd =>
      if s.CanOpen fd then some { s.setOs fd (some .dialing) with dialing := fd :: s.dialing }
      else none
  | .dialFail fd =>
      if fd ∈ s.dialing then some { s.setOs fd none with dialing := s.dialing.erase fd } else none
  | .dialed fd a =>
      if fd ∈ s.dialing ∧ s.Fresh a then
        some { (s.setOs fd (some .connecting)).setObj a (some (.new .connecting)) with
          dialing := s.dialing.erase fd
          connectConns := s.connectConns ++ [⟨some a, fd⟩] }
      else none
  | .otherOpen fd =>
      if s.CanOpen fd then some { s.setOs fd (some .other) with others := fd :: s.others } else none
  | .otherClose fd =>
      if fd ∈ s.others then some { s.setOs fd none with others := s.others.erase fd } else none
  | .worker w e => if w < s.threadNum then s.workerStep w (s.worker w).pc e else none

/-- After `server_listen` has created its connection, at `a` and for the descriptor `fd`. -/
def start (threadNum openMax : ℕ) (fd : ℕ) (a : Addr) (others : List ℕ) : Sockets where
  threadNum := threadNum
  openMax := openMax
  os f := if f = fd then some (.conn a) else if f ∈ others then some .other else none
  heap b := if b = a then some ⟨.listening, some fd, none, [fd]⟩ else none
  connsMap f := if f = fd then some a else none
  currConns := 1
  accept := .idle
  dialing := []
  connectConns := []
  worker _ := ⟨.loop, [], [], []⟩
  others := others

/-! ### The two properties -/

/-- What the registry and the workers' maps say. -/
structure RegistryOk (s : Sockets) : Prop where
  /-- A key is the open descriptor of its connection. -/
  key : ∀ {f a}, s.connsMap f = some a →
    ∃ c, s.heap a = some c ∧ c.sfd = some f ∧ (s.os f).isSome
  /-- No connection has two keys. -/
  inj : ∀ {f g a}, s.connsMap f = some a → s.connsMap g = some a → f = g
  /-- No connection is registered with two workers. -/
  disjoint : ∀ {v w}, v ≠ w →
    (s.worker v).threadConnections.Disjoint (s.worker w).threadConnections
  /-- Between calls the workers have exactly the connections of `s_conns_map` that do not listen. -/
  exact : (∀ w, (s.worker w).pc = .loop) → ∀ a, (∃ w, a ∈ (s.worker w).threadConnections) ↔
    ∃ f c, s.connsMap f = some a ∧ s.heap a = some c ∧ c.post ≠ .listening
  /-- The two exits for duplicates are not taken. -/
  noDuplicate : ∀ w ci, (s.worker w).pc ≠ .duplicate ci
  noTwice : ∀ w ci a, (s.worker w).pc ≠ .twice ci a

/-- How many connections `s_conns_map` has. -/
def connCount (s : Sockets) : ℕ :=
  ((Finset.range s.openMax).filter fun f => (s.connsMap f).isSome).card

/-- No worker is between its update of `s_conns_map` and that of the counter, which have different
locks. -/
def AtRest (s : Sockets) : Prop :=
  ∀ w < s.threadNum, match (s.worker w).pc with
    | .mapped .. | .closeDup .. | .closeSock .. | .uncount .. => False
    | _ => True

/-- What the counter says. -/
structure CounterExact (s : Sockets) : Prop where
  exact : s.AtRest → s.currConns.toNat = s.connCount
  /-- It does not wrap below zero. -/
  noWrap : ∀ {w a todo removeIds}, (s.worker w).pc = .uncount a todo removeIds → s.currConns ≠ 0

end Sockets

/-- The sockets of a process.  Descriptors and the number of threads are of type `int`. -/
def socketSystem : Lts Sockets SockAct where
  init s := ∃ (threadNum openMax fd : ℕ) (a : Addr) (others : List ℕ),
    (threadNum : ℤ) ≤ intMax ∧ (openMax : ℤ) ≤ intMax ∧ fd < openMax ∧ openMax ≤ a.toNat ∧
      fd ∉ others ∧ others.Nodup ∧ (∀ f ∈ others, f < openMax) ∧
      s = .start threadNum openMax fd a others
  step := Sockets.step

end GoFight.Net
