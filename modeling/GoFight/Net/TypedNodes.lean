import GoFight.Net.NodeQueues

/-!
# The type of a node and the class of its message

`msg_type_` and `msg_data_` of a `MsgNode` are two public fields, and the class of the object is
known only by the type: the handler, the deleter and the receiver of the bytes are looked up by it.

* `Layer.All` — every node in a queue of the net layer has a property; `All.step` — nodes come from
  `message_format`, from the close sweep and from `net_send`, and the queues change none;
* `Generated.KeepsClass` — what is relied on of protobuf: a class makes its objects, and neither
  parsing nor an accessor changes the class of one;
* `Typed` — the message of a node is of the class registered for its type;
* `Program`, `programSystem` — any program on the net layer: its threads take nodes, make them with
  `get_msgnode` and `get_res_node`, fill, readdress, send, handle and free them;
* `Program.uses` — the nodes a step gives to a handler, a deleter or the encoder;
* `typed_uses_of_reach` — in every run they are typed.
-/

namespace GoFight.Net

open GoFight.Lib

variable {Cls Msg : Type*}

namespace Layer

/-! ### Every node of the layer -/

/-- The nodes in the queues of the layer have the property. -/
structure All (P : MsgNode Msg → Prop) (s : Layer Cls Msg) : Prop where
  objects : ∀ b c, s.heap b = some c → ∀ it ∈ c.connReadMsgs ++ c.connWriteMsgs, P it.node
  workers : ∀ v, ∀ it ∈ (s.worker v).tdReadMsgs ++ (s.worker v).tdWriteMsgs, P it.node
  output : ∀ it ∈ s.output, P it.node

variable {G : Generated Cls Msg} {P Q : MsgNode Msg → Prop} {s s' : Layer Cls Msg}

namespace All

theorem mono (h : s.All P) (hPQ : ∀ n, P n → Q n) : s.All Q where
  objects b c hc it hit := hPQ _ (h.objects b c hc it hit)
  workers v it hit := hPQ _ (h.workers v it hit)
  output it hit := hPQ _ (h.output it hit)

/-- The parts of the layer that hold nodes. -/
theorem congr (h : s.All P) (hheap : s'.heap = s.heap) (hworker : s'.worker = s.worker)
    (houtput : s'.output = s.output) : s'.All P where
  objects := by
    rw [hheap]
    exact h.objects
  workers := by
    rw [hworker]
    exact h.workers
  output := by
    rw [houtput]
    exact h.output

theorem modConn (h : s.All P) {a : Addr} {f : Connection Msg → Connection Msg}
    (hf : ∀ c, s.heap a = some c → ∀ it ∈ (f c).connReadMsgs ++ (f c).connWriteMsgs, P it.node) :
    (s.modConn a f).All P where
  objects b c hc := by
    rw [modConn_heap] at hc
    split at hc
    · next hb =>
      obtain ⟨d, hd, rfl⟩ := Option.map_eq_some_iff.mp hc
      exact hf d (hb ▸ hd)
    · exact h.objects b c hc
  workers := h.workers
  output := h.output

/-- An update that leaves the queues of the object alone. -/
theorem modConn_same (h : s.All P) (a : Addr) {f : Connection Msg → Connection Msg}
    (hf : ∀ c, (f c).queues = c.queues) : (s.modConn a f).All P := by
  apply h.modConn
  intro c hc
  have hread : (f c).connReadMsgs = c.connReadMsgs := congrArg Prod.fst (hf c)
  have hwrite : (f c).connWriteMsgs = c.connWriteMsgs := congrArg Prod.snd (hf c)
  rw [hread, hwrite]
  exact h.objects a c hc

theorem modWorker (h : s.All P) {w : ℕ} {g : ThreadData Msg → ThreadData Msg}
    (hg : ∀ it ∈ (g (s.worker w)).tdReadMsgs ++ (g (s.worker w)).tdWriteMsgs, P it.node) :
    (s.modWorker w g).All P where
  objects := h.objects
  workers v := by
    rw [modWorker_worker]
    split
    · next hv =>
      rw [hv]
      exact hg
    · exact h.workers v
  output := h.output

/-- An update that leaves the queues of the worker alone. -/
theorem modWorker_same (h : s.All P) (w : ℕ) {g : ThreadData Msg → ThreadData Msg}
    (hg : (g (s.worker w)).queues = (s.worker w).queues) : (s.modWorker w g).All P := by
  apply h.modWorker
  have hread : (g (s.worker w)).tdReadMsgs = (s.worker w).tdReadMsgs := congrArg Prod.fst hg
  have hwrite : (g (s.worker w)).tdWriteMsgs = (s.worker w).tdWriteMsgs := congrArg Prod.snd hg
  rw [hread, hwrite]
  exact h.workers w

theorem goto (h : s.All P) (w : ℕ) (p : Phase) : (s.goto w p).All P := h.modWorker_same w rfl

theorem modLife (h : s.All P) (id : ℕ) (f : Life Msg → Life Msg) : (s.modLife id f).All P :=
  h.congr rfl rfl rfl

theorem connClose (h : s.All P) (a : Addr) : (s.connClose a).All P := by
  unfold Layer.connClose
  split
  · exact h
  · split
    · exact h
    · exact (h.modConn_same a (f := .shut s.clock) fun _ => rfl).modLife _ _

theorem alloc (h : s.All P) (a : Addr) (p : Place) (k : Bool) : (s.alloc a p k).All P where
  objects b c hc := by
    rw [alloc_heap] at hc
    split at hc
    · obtain rfl := Option.some.inj hc
      exact nofun
    · exact h.objects b c hc
  workers := h.workers
  output := h.output

theorem free (h : s.All P) (a : Addr) : (s.free a).All P where
  objects b c hc := by
    rw [free_heap] at hc
    split at hc
    · cases hc
    · exact h.objects b c hc
  workers := by
    rw [free_worker]
    exact h.workers
  output := by
    have hout : (s.free a).output = s.output := congrArg (fun f => f.1.1) (free_frame s a)
    rw [hout]
    exact h.output

theorem registerConn (h : s.All P) (w : ℕ) (a : Addr) (id : ℕ) (st : ConnState) :
    (s.registerConn w a id st).All P := by
  have hconn : (s.modConn a (initConn w st)).All P := h.modConn_same a fun _ => rfl
  exact (hconn.modLife id _).modWorker_same w rfl

theorem giveWorker (h : s.All P) (ci : ConnInfo) (written : Bool) : (s.giveWorker ci written).All P := by
  have hlast : Layer.All P { s with lastThreadId := UInt64.ofNat s.nextThread } :=
    h.congr rfl rfl rfl
  exact hlast.modWorker_same _ rfl

theorem retire (h : s.All P) (w : ℕ) (removeIds : List Addr) : (s.eraseStep w removeIds).All P := by
  have hheap : Layer.All P { s with heap := s.retire w removeIds } :=
    ⟨fun b c hc => by
      have hc : s.retire w removeIds b = some c := hc
      rw [Layer.retire] at hc
      split at hc
      · obtain ⟨d, hd, rfl⟩ := Option.map_eq_some_iff.mp hc
        exact h.objects b d hd
      · exact h.objects b c hc, h.workers, h.output⟩
  exact hheap.modWorker_same w rfl

/-- The distribution moves nodes from the worker to the objects. -/
theorem drainStep (h : s.All P) (w : ℕ) : (s.drainStep w).All P := by
  have hwrite : ∀ it ∈ (s.worker w).tdWriteMsgs, P it.node := fun it hit =>
    h.workers w it (List.mem_append_right _ hit)
  have hheap : Layer.All P
      { s with heap := drainWrites (s.worker w).threadConnections s.heap (s.worker w).tdWriteMsgs } := by
    refine ⟨fun b c hc => ?_, h.workers, h.output⟩
    dsimp only at hc
    rw [drainWrites_heap] at hc
    obtain ⟨d, hd, rfl⟩ := Option.map_eq_some_iff.mp hc
    intro it hit
    dsimp only at hit
    rw [← List.append_assoc, List.mem_append] at hit
    rcases hit with hit | hit
    · exact h.objects b d hd it hit
    · split at hit
      · exact hwrite it (List.mem_of_mem_filter hit)
      · cases hit
  rw [Layer.drainStep]
  refine hheap.modWorker ?_
  intro it hit
  rw [List.append_nil] at hit
  exact h.workers w it (List.mem_append_left _ hit)

/-- `get_net_msgs` moves nodes from a worker to the output. -/
theorem getNetMsgs (h : s.All P) (i : ℕ) : (s.getNetMsgs i).All P := by
  have hout : Layer.All P { s with output := s.output ++ (s.worker i).tdReadMsgs } := by
    refine ⟨h.objects, h.workers, fun it hit => ?_⟩
    rcases List.mem_append.mp hit with hit | hit
    · exact h.output it hit
    · exact h.workers i it (List.mem_append_left _ hit)
  refine hout.modWorker ?_
  intro it hit
  exact h.workers i it (List.mem_append_right _ hit)

theorem pushWrite (h : s.All P) (w : ℕ) {it : Item Msg} (hit : P it.node) :
    (s.pushWrite w it).All P := by
  have hpush : Layer.All P { s with pushes := s.pushes ++ [it] } := h.congr rfl rfl rfl
  refine hpush.modWorker ?_
  intro it' hit'
  change it' ∈ (s.worker w).tdReadMsgs ++ ((s.worker w).tdWriteMsgs ++ [it]) at hit'
  rw [← List.append_assoc, List.mem_append, List.mem_singleton] at hit'
  rcases hit' with hit' | rfl
  · exact h.workers w it' hit'
  · exact hit

theorem writeStep (h : s.All P) {a : Addr} {r : WriteResult} (hr : WriteStep G s a r s') :
    s'.All P := by
  have hflush : ∀ {f : Connection Msg → Connection Msg}, Writes G f → (s.modConn a f).All P := by
    intro f hf
    apply h.modConn
    intro c hc it hit
    have hread : (f c).connReadMsgs = c.connReadMsgs := by
      show (f c).readSide.connReadMsgs = c.readSide.connReadMsgs
      rw [hf.readSide]
    rw [hf.queue, hread, List.append_nil] at hit
    exact h.objects a c hc it (List.mem_append_left _ hit)
  cases hr with
  | quiet hf => exact hflush hf
  | failed _ hf => exact (hflush hf).connClose a

theorem readStep (h : s.All P) {a : Addr} {c : Connection Msg} (hc : s.heap a = some c)
    (hframe : ∀ conn block len n, frameNode G.toProtobuf s.registry conn block len = some n → P n)
    (hr : ReadStep G s a c s') : s'.All P := by
  cases hr with
  | @data chunk buffer r hne hext hr =>
    refine modLife (modConn h ?_) _ _
    intro c' hc' it hit
    rw [hc, Option.some.injEq] at hc'
    subst hc'
    change it ∈ c.connReadMsgs ++ number c.id (s.life c.id).decoded.length r.2 ++ c.connWriteMsgs
      at hit
    rw [List.append_assoc, List.mem_append, List.mem_append] at hit
    rcases hit with hit | hit | hit
    · exact h.objects a c hc it (List.mem_append_left _ hit)
    · obtain ⟨block, len, hnode⟩ := messageFormat_frameNode hr it.node (mem_number hit)
      exact hframe a block len it.node hnode
    · exact h.objects a c hc it (List.mem_append_right _ hit)
  | again => exact h.modConn_same a fun _ => rfl
  | shut => exact (h.modConn_same a (f := .stopRead) fun _ => rfl).connClose a
  | failed => exact (h.modConn_same a (f := .waitRead false) fun _ => rfl).connClose a

theorem workerStep (h : s.All P)
    (hframe : ∀ conn block len n, frameNode G.toProtobuf s.registry conn block len = some n → P n)
    (hnotice : ∀ junk n a,
      getMsgnode G.toProtobuf s.registry junk Protocol.messageShutdownReq = some n →
        P { n with msgData := G.setCode n.msgData 0, msgType := 0, msgConn := a })
    {w : ℕ} {e : WorkerAct} (hs : WorkerStep G s w e s') : s'.All P := by
  cases hs with
  | top | transferEnd | transferSkip | connectorsEnd | passEnd | passSkip | passVisit | readStart
  | readSkip | writeStart | writeSkip | pollEnd | callbackOk | sweepEnd | sweepSkip | deleteEnd
  | dropped => exact h.modWorker_same w rfl
  | drain => exact h.drainStep w
  | @transferMove a todo c it rest hp hc hmsgs =>
    have hold := h.objects a c hc
    rw [hmsgs] at hold
    have hrest : (s.modConn a (.setRead rest)).All P := by
      apply h.modConn
      intro c' hc' it' hit'
      rw [hc, Option.some.injEq] at hc'
      subst hc'
      exact hold it' (List.mem_cons_of_mem _ hit')
    apply hrest.modWorker
    intro it' hit'
    change it' ∈ (s.worker w).tdReadMsgs ++ [it] ++ (s.worker w).tdWriteMsgs at hit'
    rw [List.append_assoc, List.mem_append, List.mem_append, List.mem_singleton] at hit'
    rcases hit' with hit' | rfl | hit'
    · exact h.workers w it' (List.mem_append_left _ hit')
    · exact hold it' List.mem_cons_self
    · exact h.workers w it' (List.mem_append_right _ hit')
  | @push a rest written =>
    have hplace : ((s.setConnectors rest).setPlace a (.handed s.nextThread)).All P :=
      modConn_same (s := s.setConnectors rest) (h.congr rfl rfl rfl) a fun _ => rfl
    exact hplace.giveWorker _ _
  | read hp hc hr => exact (h.readStep hc hframe hr).goto w _
  | write hp hc he hr => exact (h.writeStep hr).goto w _
  | @readEvent a => exact (h.modConn_same a (f := .readFired) fun _ => rfl).goto w _
  | @writeEvent a => exact (h.modConn_same a (f := .writeFired) fun _ => rfl).goto w _
  | @accepted n st rest a =>
    have htake : (s.modWorker w (.take n rest)).All P := h.modWorker_same w rfl
    exact (htake.alloc a _ _).registerConn w a _ st
  | @refused n st rest a =>
    have htake : (s.modWorker w (.take n rest)).All P := h.modWorker_same w rfl
    exact (htake.modConn_same a (f := .setPlace (.refused w)) fun _ => rfl).goto w _
  | @connected n st rest a c =>
    have htake : (s.modWorker w (.take n rest)).All P := h.modWorker_same w rfl
    exact (htake.registerConn w a c.id st).goto w _
  | @callbackFail a => exact (h.free a).goto w _
  | @notice a todo removeIds c junk =>
    rw [noticeStep]
    cases hnode : getMsgnode G.toProtobuf s.registry junk Protocol.messageShutdownReq with
    | none => exact h
    | some node =>
      refine goto (modWorker (h.modLife c.id .notice) ?_) w _
      intro it hit
      change it ∈ (s.worker w).tdReadMsgs ++ [_] ++ (s.worker w).tdWriteMsgs at hit
      rw [List.append_assoc, List.mem_append, List.mem_append, List.mem_singleton] at hit
      rcases hit with hit | rfl | hit
      · exact h.workers w it (List.mem_append_left _ hit)
      · exact hnotice junk node a hnode
      · exact h.workers w it (List.mem_append_right _ hit)
  | @closing a =>
    have hclose : (s.modConn a connInternalClose).All P := h.modConn_same a fun _ => rfl
    exact hclose.modWorker_same w rfl
  | @erase removeIds => exact h.retire w removeIds
  | @deleteFree t a => exact (h.free a).modWorker_same w rfl

/-- **Where nodes come from.**  A step of the layer takes no node into a queue but those that
`message_format` builds, the notices of the close sweep and what `net_send` pushes. -/
theorem step (h : s.All P)
    (hframe : ∀ conn block len n, frameNode G.toProtobuf s.registry conn block len = some n → P n)
    (hnotice : ∀ junk n a,
      getMsgnode G.toProtobuf s.registry junk Protocol.messageShutdownReq = some n →
        P { n with msgData := G.setCode n.msgData 0, msgType := 0, msgConn := a })
    {a : Act Cls Msg} (hsend : ∀ w it, a = .send w it → P it.node)
    (hs : s.step G a = some s') : s'.All P := by
  cases a with
  | worker w e =>
    simp only [Layer.step, Option.ite_none_right_eq_some] at hs
    exact h.workerStep hframe hnotice (workerStep_cases hs.2)
  | connect a =>
    simp only [Layer.step, Option.ite_none_right_eq_some, Option.some.injEq] at hs
    obtain ⟨-, rfl⟩ := hs
    exact (h.alloc a .connecting true).congr rfl rfl rfl
  | close a =>
    obtain ⟨c, -, hs⟩ := Option.bind_eq_some_iff.mp hs
    simp only [Option.ite_none_right_eq_some, Option.some.injEq] at hs
    obtain ⟨-, rfl⟩ := hs
    exact h.connClose a
  | accept written =>
    simp only [Layer.step, Option.ite_none_right_eq_some, Option.some.injEq] at hs
    obtain ⟨-, rfl⟩ := hs
    exact h.giveWorker _ _
  | getMsgs i =>
    simp only [Layer.step, Option.ite_none_right_eq_some, Option.some.injEq] at hs
    obtain ⟨-, rfl⟩ := hs
    exact h.getNetMsgs i
  | send w it =>
    simp only [Layer.step, Option.ite_none_right_eq_some, Option.some.injEq] at hs
    obtain ⟨-, rfl⟩ := hs
    exact h.pushWrite w (hsend w it rfl)
  | clock t | regist msgType init =>
    cases hs
    exact h.congr rfl rfl rfl

end All

/-- **A registration stays.**  No step changes the processer of a type that has one. -/
theorem step_registry_some {a : Act Cls Msg} {msgType : Int32} {c : Cls}
    (hs : s.step G a = some s') (hc : s.registry msgType = some c) :
    s'.registry msgType = some c := by
  by_cases ha : ∀ ty init, a ≠ .regist ty init
  · rw [step_registry hs ha, hc]
  · simp only [not_forall, not_not] at ha
    obtain ⟨ty, init, rfl⟩ := ha
    cases hs
    show (registMsgProcesser s.registry ty init).1 msgType = some c
    unfold registMsgProcesser
    cases hty : s.registry ty with
    | some c' => exact hc
    | none =>
      have hne : msgType ≠ ty := by
        intro heq
        rw [heq, hty] at hc
        cases hc
      rw [← hc]
      exact Function.update_of_ne hne _ _

end Layer

/-! ### Types and classes -/

/-- What the net layer and the programs on it rely on: a new object is of its class, and neither
`ParseFromArray` nor an accessor changes the class of an object. -/
structure Generated.KeepsClass (G : Generated Cls Msg) : Prop where
  newMsg : ∀ c, G.clsOf (G.newMsg c) = c
  parse : ∀ m bs, G.clsOf (G.parseFromArray m bs).2 = G.clsOf m
  setCode : ∀ m v, G.clsOf (G.setCode m v) = G.clsOf m
  setMyId : ∀ m v, G.clsOf (G.setMyId m v) = G.clsOf m

/-- The message of the node was made by the `new_msg_data` registered for the node's type. -/
def Typed (pb : Protobuf Cls Msg) (reg : Registry Cls) (n : MsgNode Msg) : Prop :=
  reg n.msgType = some (pb.clsOf n.msgData)

section Makers

variable {G : Generated Cls Msg} {reg : Registry Cls}

theorem typed_frameNode (hG : G.KeepsClass) {conn : Addr} {block : List UInt8} {len : ℤ}
    {n : MsgNode Msg} (h : frameNode G.toProtobuf reg conn block len = some n) :
    Typed G.toProtobuf reg n := by
  obtain ⟨c, hc, rfl⟩ := Option.map_eq_some_iff.mp h
  rw [Typed, hc, hG.parse, hG.newMsg]

theorem typed_getMsgnode (hG : G.KeepsClass) {junk : UInt64} {msgType : Int32} {n : MsgNode Msg}
    (h : getMsgnode G.toProtobuf reg junk msgType = some n) : Typed G.toProtobuf reg n := by
  obtain ⟨c, hc, rfl⟩ := Option.map_eq_some_iff.mp h
  rw [Typed, hc, hG.newMsg]

theorem typed_getResNode (hG : G.KeepsClass) {msgType : Int32} {r n : MsgNode Msg}
    (h : getResNode G.toProtobuf reg msgType r = some n) : Typed G.toProtobuf reg n := by
  obtain ⟨c, hc, rfl⟩ := Option.map_eq_some_iff.mp h
  rw [Typed, hc, hG.newMsg]

/-- The notice of the close sweep: its type is overwritten with what it was. -/
theorem typed_notice (hG : G.KeepsClass) {junk : UInt64} {n : MsgNode Msg} (a : Addr)
    (h : getMsgnode G.toProtobuf reg junk Protocol.messageShutdownReq = some n) :
    Typed G.toProtobuf reg { n with msgData := G.setCode n.msgData 0, msgType := 0, msgConn := a } := by
  have hn := typed_getMsgnode hG h
  obtain ⟨c, hc, rfl⟩ := Option.map_eq_some_iff.mp h
  rw [Typed] at hn ⊢
  rw [hG.setCode]
  exact hn

end Makers

/-! ### Programs on the net layer -/

/-- A program on the net layer: what each of its threads has in hand, and how many of the nodes
output so far have been taken from the deque that `get_net_msgs` fills. -/
structure Program (Cls Msg : Type*) where
  net : Layer Cls Msg
  hand : ℕ → List (MsgNode Msg)
  taken : ℕ

/-- A step of a program; `t` is the thread and `i` the place of the node in its hand. -/
inductive ProgramAct (Cls Msg : Type*)
  /-- A step of the net layer, other than a push of `net_send`. -/
  | net (a : Act Cls Msg)
  /-- `pop_front` of what `get_net_msgs` has output. -/
  | take (t : ℕ)
  /-- `get_msgnode`, which leaves `cli_conn_` uninitialised. -/
  | make (t : ℕ) (msgType : Int32) (junk : UInt64)
  /-- `get_res_node` for a node in hand. -/
  | answer (t i : ℕ) (msgType : Int32)
  /-- Accessors of `msg_data_`. -/
  | fill (t i : ℕ) (m : Msg)
  /-- `msg_conn_` and `cli_conn_` are assigned. -/
  | route (t i : ℕ) (msgConn : Addr) (cliConn : UInt64)
  /-- The push of `net_send` on the queue of a worker; `src` and `role` are history. -/
  | send (t i w : ℕ) (src : Source) (role : Role)
  /-- `mp_` in `message_process`. -/
  | handle (t i : ℕ)
  /-- The rest of `message_process`, or `message_free`. -/
  | free (t i : ℕ)
  /-- The last pointer to the node is gone. -/
  | lose (t i : ℕ)

/-- What becomes of a node by its type. -/
inductive Consumer
  /-- The registered `mp_`. -/
  | handler
  /-- The registered `dmd_`. -/
  | deleter
  /-- `on_write`, which writes the type and the bytes of the message. -/
  | encoder
deriving DecidableEq, Repr

/-- The nodes a step of worker `w` gives to the encoder and to a deleter: in `on_write`, and in the
dead-connection branch of the distribution. -/
def Layer.uses (s : Layer Cls Msg) (w : ℕ) : List (Consumer × MsgNode Msg) :=
  match (s.worker w).phase with
  | .drain => (s.frees w).map fun it => (.deleter, it.node)
  | .writing _ _ => (s.frees w).flatMap fun it => [(.encoder, it.node), (.deleter, it.node)]
  | _ => []

namespace Program

/-- Before the first worker runs. -/
def start (net : Layer Cls Msg) : Program Cls Msg where
  net := net
  hand _ := []
  taken := 0

/-- The net layer has taken a step. -/
def setNet (p : Program Cls Msg) (net : Layer Cls Msg) : Program Cls Msg := { p with net := net }

/-- A thread has other nodes in hand. -/
def setHand (p : Program Cls Msg) (t : ℕ) (l : List (MsgNode Msg)) : Program Cls Msg :=
  { p with hand := Function.update p.hand t l }

section Steps

variable [DecidableEq Cls] (G : Generated Cls Msg)

/-- One step. -/
def step (p : Program Cls Msg) : ProgramAct Cls Msg → Option (Program Cls Msg)
  | .net (.send _ _) => none
  | .net a => (p.net.step G a).map p.setNet
  | .take t =>
      (p.net.output[p.taken]?).map fun it =>
        { p with taken := p.taken + 1 }.setHand t (p.hand t ++ [it.node])
  | .make t msgType junk =>
      (getMsgnode G.toProtobuf p.net.registry junk msgType).map fun n =>
        p.setHand t (p.hand t ++ [n])
  | .answer t i msgType =>
      ((p.hand t)[i]?).bind fun r =>
        (getResNode G.toProtobuf p.net.registry msgType r).map fun n =>
          p.setHand t (p.hand t ++ [n])
  | .fill t i m =>
      ((p.hand t)[i]?).bind fun n =>
        if G.clsOf m = G.clsOf n.msgData then
          some (p.setHand t ((p.hand t).set i { n with msgData := m }))
        else none
  | .route t i msgConn cliConn =>
      ((p.hand t)[i]?).map fun n =>
        p.setHand t ((p.hand t).set i { n with msgConn := msgConn, cliConn := cliConn })
  | .send t i w src role =>
      ((p.hand t)[i]?).bind fun n =>
        (p.net.step G (.send w ⟨n, src, role⟩)).map fun net =>
          (p.setNet net).setHand t ((p.hand t).eraseIdx i)
  | .handle t i => ((p.hand t)[i]?).map fun _ => p
  | .free t i => ((p.hand t)[i]?).map fun _ => p.setHand t ((p.hand t).eraseIdx i)
  | .lose t i => ((p.hand t)[i]?).map fun _ => p.setHand t ((p.hand t).eraseIdx i)

theorem step_net {p : Program Cls Msg} {a : Act Cls Msg} (ha : ∀ w it, a ≠ .send w it) :
    p.step G (.net a) = (p.net.step G a).map p.setNet := by
  cases a with
  | send w it => exact absurd rfl (ha w it)
  | _ => rfl

section Hands

variable {G} {p : Program Cls Msg} {t : ℕ} {n : MsgNode Msg}

omit [DecidableEq Cls] in
theorem setHand_self {l : List (MsgNode Msg)} (h : p.hand t = l) : p.setHand t l = p := by
  rw [setHand, ← h, Function.update_eq_self]

omit [DecidableEq Cls] in
@[simp] theorem setHand_setHand (l l' : List (MsgNode Msg)) :
    (p.setHand t l).setHand t l' = p.setHand t l' := by
  rw [setHand, setHand, setHand, Function.update_idem]

omit [DecidableEq Cls] in
@[simp] theorem setHand_hand (l : List (MsgNode Msg)) : (p.setHand t l).hand t = l :=
  Function.update_self ..

theorem step_take {it : Item Msg} (ht : p.hand t = []) (hit : p.net.output[p.taken]? = some it) :
    p.step G (.take t) = some ({ p with taken := p.taken + 1 }.setHand t [it.node]) := by
  rw [step, hit, ht]
  rfl

theorem step_make {msgType : Int32} {junk : UInt64} (ht : p.hand t = [])
    (hn : getMsgnode G.toProtobuf p.net.registry junk msgType = some n) :
    p.step G (.make t msgType junk) = some (p.setHand t [n]) := by
  rw [step, hn, ht]
  rfl

theorem step_fill {m : Msg} (ht : p.hand t = [n]) (hm : G.clsOf m = G.clsOf n.msgData) :
    p.step G (.fill t 0 m) = some (p.setHand t [{ n with msgData := m }]) := by
  rw [step, ht]
  exact if_pos hm

theorem step_route (ht : p.hand t = [n]) (c : Addr) (d : UInt64) :
    p.step G (.route t 0 c d) = some (p.setHand t [{ n with msgConn := c, cliConn := d }]) := by
  rw [step, ht]
  rfl

theorem step_send {w : ℕ} {src : Source} {role : Role} {net : Layer Cls Msg} (ht : p.hand t = [n])
    (hs : p.net.step G (.send w ⟨n, src, role⟩) = some net) :
    p.step G (.send t 0 w src role) = some ((p.setNet net).setHand t []) := by
  rw [step, ht]
  show (p.net.step G (.send w ⟨n, src, role⟩)).map _ = _
  rw [hs]
  rfl

theorem step_handle (ht : p.hand t = [n]) : p.step G (.handle t 0) = some p := by
  rw [step, ht]
  rfl

theorem step_free (ht : p.hand t = [n]) : p.step G (.free t 0) = some (p.setHand t []) := by
  rw [step, ht]
  rfl

theorem step_lose (ht : p.hand t = [n]) : p.step G (.lose t 0) = some (p.setHand t []) := by
  rw [step, ht]
  rfl

end Hands

end Steps

/-- The nodes a step gives to a handler, a deleter or the encoder. -/
def uses (p : Program Cls Msg) : ProgramAct Cls Msg → List (Consumer × MsgNode Msg)
  | .net (.worker w _) => p.net.uses w
  | .handle t i => ((p.hand t)[i]?).toList.map fun n => (.handler, n)
  | .free t i => ((p.hand t)[i]?).toList.map fun n => (.deleter, n)
  | _ => []

end Program

/-- Any program, on any number of workers and any registry. -/
def programSystem [DecidableEq Cls] (G : Generated Cls Msg) :
    Lts (Program Cls Msg) (ProgramAct Cls Msg) where
  init p := ∃ threadNum registry clock, p = .start (.start threadNum registry clock)
  step p a := p.step G a

/-! ### The run -/

namespace Program

/-- Every node in a queue and in a hand is typed. -/
structure AllTyped (pb : Protobuf Cls Msg) (p : Program Cls Msg) : Prop where
  net : p.net.All (Typed pb p.net.registry)
  hand : ∀ t, ∀ n ∈ p.hand t, Typed pb p.net.registry n

variable {G : Generated Cls Msg} {p p' : Program Cls Msg}

theorem allTyped_start (threadNum : ℕ) (registry : Registry Cls) (clock : ℕ) :
    (start (.start threadNum registry clock) : Program Cls Msg).AllTyped G.toProtobuf where
  net := by
    refine ⟨fun b c hc => ?_, fun v it hit => ?_, fun it hit => ?_⟩
    · cases (show none = some c from hc)
    · cases (show it ∈ [] from hit)
    · cases (show it ∈ [] from hit)
  hand t n hn := by cases (show n ∈ [] from hn)

namespace AllTyped

theorem setHand (h : p.AllTyped G.toProtobuf) (t : ℕ) {l : List (MsgNode Msg)}
    (hl : ∀ n ∈ l, Typed G.toProtobuf p.net.registry n) : (p.setHand t l).AllTyped G.toProtobuf where
  net := h.net
  hand v := by
    show ∀ n ∈ Function.update p.hand t l v, _
    rw [Function.update_apply]
    split
    · exact hl
    · exact h.hand v

/-- A new node in hand. -/
theorem push (h : p.AllTyped G.toProtobuf) (t : ℕ) {n : MsgNode Msg}
    (hn : Typed G.toProtobuf p.net.registry n) :
    (p.setHand t (p.hand t ++ [n])).AllTyped G.toProtobuf := by
  apply h.setHand t
  intro n' hn'
  rcases List.mem_append.mp hn' with hn' | hn'
  · exact h.hand t n' hn'
  · exact List.mem_singleton.mp hn' ▸ hn

/-- A node in hand is replaced. -/
theorem set (h : p.AllTyped G.toProtobuf) (t i : ℕ) {n : MsgNode Msg}
    (hn : Typed G.toProtobuf p.net.registry n) :
    (p.setHand t ((p.hand t).set i n)).AllTyped G.toProtobuf := by
  apply h.setHand t
  intro n' hn'
  rcases List.mem_or_eq_of_mem_set hn' with hn' | rfl
  · exact h.hand t n' hn'
  · exact hn

/-- A node leaves a hand. -/
theorem erase (h : p.AllTyped G.toProtobuf) (t i : ℕ) :
    (p.setHand t ((p.hand t).eraseIdx i)).AllTyped G.toProtobuf :=
  h.setHand t fun n hn => h.hand t n (List.mem_of_mem_eraseIdx hn)

theorem mem (h : p.AllTyped G.toProtobuf) {t i : ℕ} {n : MsgNode Msg}
    (hn : (p.hand t)[i]? = some n) : Typed G.toProtobuf p.net.registry n :=
  h.hand t n (List.mem_of_getElem? hn)

/-- A step of the net layer. -/
theorem setNet (hG : G.KeepsClass) (h : p.AllTyped G.toProtobuf) {a : Act Cls Msg}
    {net : Layer Cls Msg}
    (hsend : ∀ w it, a = .send w it → Typed G.toProtobuf p.net.registry it.node)
    (hs : p.net.step G a = some net) : (p.setNet net).AllTyped G.toProtobuf where
  net := (h.net.step (fun _ _ _ _ => typed_frameNode hG) (fun _ _ a => typed_notice hG a) hsend
    hs).mono fun _ hn => Layer.step_registry_some hs hn
  hand t n hn := Layer.step_registry_some hs (h.hand t n hn)

/-- **One step.** -/
theorem step [DecidableEq Cls] (hG : G.KeepsClass) (h : p.AllTyped G.toProtobuf)
    {a : ProgramAct Cls Msg} (hs : p.step G a = some p') : p'.AllTyped G.toProtobuf := by
  cases a with
  | net a =>
    have ha : ∀ w it, a ≠ .send w it := by
      rintro w it rfl
      cases hs
    rw [step_net G ha] at hs
    obtain ⟨net, hnet, rfl⟩ := Option.map_eq_some_iff.mp hs
    exact h.setNet hG (fun w it heq => absurd heq (ha w it)) hnet
  | take t =>
    obtain ⟨it, hit, rfl⟩ := Option.map_eq_some_iff.mp hs
    have hn := h.net.output it (List.mem_of_getElem? hit)
    exact push (p := { p with taken := p.taken + 1 }) ⟨h.net, h.hand⟩ t hn
  | make t msgType junk =>
    obtain ⟨n, hn, rfl⟩ := Option.map_eq_some_iff.mp hs
    exact h.push t (typed_getMsgnode hG hn)
  | answer t i msgType =>
    obtain ⟨r, -, hs⟩ := Option.bind_eq_some_iff.mp hs
    obtain ⟨n, hn, rfl⟩ := Option.map_eq_some_iff.mp hs
    exact h.push t (typed_getResNode hG hn)
  | fill t i m =>
    obtain ⟨n, hn, hs⟩ := Option.bind_eq_some_iff.mp hs
    simp only [Option.ite_none_right_eq_some, Option.some.injEq] at hs
    obtain ⟨hcls, rfl⟩ := hs
    apply h.set t i
    rw [Typed, hcls]
    exact h.mem hn
  | route t i msgConn cliConn =>
    obtain ⟨n, hn, rfl⟩ := Option.map_eq_some_iff.mp hs
    have htyped := h.mem hn
    exact h.set t i htyped
  | send t i w src role =>
    obtain ⟨n, hn, hs⟩ := Option.bind_eq_some_iff.mp hs
    obtain ⟨net, hnet, rfl⟩ := Option.map_eq_some_iff.mp hs
    have hsent : (p.setNet net).AllTyped G.toProtobuf := by
      apply h.setNet hG _ hnet
      rintro w' it heq
      cases heq
      exact h.mem hn
    exact hsent.erase t i
  | handle t i =>
    obtain ⟨n, -, rfl⟩ := Option.map_eq_some_iff.mp hs
    exact h
  | free t i | lose t i =>
    obtain ⟨n, -, rfl⟩ := Option.map_eq_some_iff.mp hs
    exact h.erase t i

/-- What a worker frees was in a queue. -/
theorem uses_worker (h : p.AllTyped G.toProtobuf) {w : ℕ} {u : Consumer × MsgNode Msg}
    (hu : u ∈ p.net.uses w) : Typed G.toProtobuf p.net.registry u.2 := by
  have hfrees : ∀ it ∈ p.net.frees w, Typed G.toProtobuf p.net.registry it.node := by
    intro it hit
    unfold Layer.frees at hit
    split at hit
    · exact h.net.workers w it (List.mem_append_right _ (List.mem_of_mem_filter hit))
    · next a _ _ =>
      cases hc : p.net.heap a with
      | none =>
        rw [Layer.objQueues, hc] at hit
        cases hit
      | some c =>
        rw [Layer.objQueues_of_some hc] at hit
        exact h.net.objects a c hc it (List.mem_append_right _ hit)
    · cases hit
  unfold Layer.uses at hu
  split at hu
  · obtain ⟨it, hit, rfl⟩ := List.mem_map.mp hu
    exact hfrees it hit
  · obtain ⟨it, hit, hu⟩ := List.mem_flatMap.mp hu
    have hnode : u.2 = it.node := by
      rcases List.mem_pair.mp hu with rfl | rfl <;> rfl
    rw [hnode]
    exact hfrees it hit
  · cases hu

end AllTyped

end Program

variable [DecidableEq Cls] {G : Generated Cls Msg} {C : Program Cls Msg → ProgramAct Cls Msg → Prop}
  {p : Program Cls Msg}

theorem allTyped_of_reach (hG : G.KeepsClass) (h : (programSystem G).Reach C p) :
    p.AllTyped G.toProtobuf := by
  apply h.invariant
  · rintro p ⟨threadNum, registry, clock, rfl⟩
    exact Program.allTyped_start threadNum registry clock
  · intro p a p' hp _ hs
    exact hp.step hG hs

/-- **Type and message always match.**  In every run of every program on the net layer, a node that
a step gives to a handler, to a deleter or to the encoder has a message made by the `new_msg_data`
that is registered for its type. -/
theorem typed_uses_of_reach (hG : G.KeepsClass) (h : (programSystem G).Reach Lts.Free p)
    (a : ProgramAct Cls Msg) : ∀ u ∈ p.uses a, Typed G.toProtobuf p.net.registry u.2 := by
  have hp := allTyped_of_reach hG h
  intro u hu
  cases a with
  | net a =>
    cases a with
    | worker w e => exact hp.uses_worker hu
    | _ => cases hu
  | handle t i | free t i =>
    obtain ⟨n, hn, rfl⟩ := List.mem_map.mp hu
    exact hp.mem (Option.mem_toList.mp hn)
  | _ => cases hu

/-- The classes of the repository keep. -/
theorem keepsClass_generated : Protocol.generated.KeepsClass where
  newMsg _ := rfl
  parse _ _ := rfl
  setCode _ _ := rfl
  setMyId _ _ := rfl

/-- A client sends a frame; the node is taken, sent back to the client, and comes to `on_write`. -/
def sentBack : List (ProgramAct Protocol.MsgClass Protocol.Message) :=
  let frame := encodeNode Protocol.protobuf ⟨20001, 0, ⟨.registReq, some 5⟩, 0⟩
  .net (.accept true) ::
    ([.go, .go, .go, .go, .go, .notified true 16, .readEvent 16, .read (.data frame ⟨[frame]⟩),
      .go, .go, .go, .go, .go, .go, .go, .go] : List WorkerAct).map (fun e => .net (.worker 0 e)) ++
    [.net (.getMsgs 0), .take 0, .route 0 0 16 0, .send 0 0 0 (.wire 0 0) .request] ++
    ([.go, .go, .go, .go, .go, .read (.again true), .go, .go, .go, .go, .go, .go, .go, .go, .go,
      .go, .go, .go, .go, .go, .go, .go, .writeEvent 16] : List WorkerAct).map
      fun e => .net (.worker 0 e)

theorem typed_uses_sentBack : ∃ p,
    (programSystem Protocol.generated).exec (.start (.start 1 Protocol.registry 0)) sentBack =
        some p ∧
      p.uses (.net (.worker 0 (.write .idle))) =
        [(.encoder, ⟨20001, 0, ⟨.registReq, some 5⟩, 16⟩),
          (.deleter, ⟨20001, 0, ⟨.registReq, some 5⟩, 16⟩)] ∧
      ∀ u ∈ p.uses (.net (.worker 0 (.write .idle))),
        Typed Protocol.protobuf p.net.registry u.2 := by
  obtain ⟨p, hp, huses⟩ : ∃ p,
      (programSystem Protocol.generated).exec (.start (.start 1 Protocol.registry 0)) sentBack =
          some p ∧
        p.uses (.net (.worker 0 (.write .idle))) =
          [(.encoder, ⟨20001, 0, ⟨.registReq, some 5⟩, 16⟩),
            (.deleter, ⟨20001, 0, ⟨.registReq, some 5⟩, 16⟩)] := by
    refine Option.map_eq_some_iff.mp ?_
    decide +kernel
  have hr : (programSystem Protocol.generated).Reach Lts.Free p :=
    .of_exec (.start ⟨1, Protocol.registry, 0, rfl⟩) (Lts.allSteps_free _ _) hp
  exact ⟨p, hp, huses, typed_uses_of_reach keepsClass_generated hr _⟩

end GoFight.Net
