import GoFight.Lib.Places
import GoFight.Link.Callback

/-!
# Who has a node

A `MsgNode` of the gate goes by pointer from queue to queue until it is freed.  This module says
where each node is (in one of the five queues, freed, or, inside `logic_update` or the connector
callback, in the hand of the thread that runs it) and how the pieces of a step move it.

* `Spot`, `Server.nodesAt` — the places and what they have;
* `Server.Made` — the nodes made so far;
* `NodeHistory`, `nodeSystem` — the gate, with the nodes it has freed;
* `Server.KeepsNodes` — the condition on a step: `net_send` gets a connection, and no `Connection` is
  deleted with nodes in its queues;
* `Flow` — one movement of nodes, and a `flow_` lemma for each kind there is.

A frame of an unregistered type is not listed: `message_format` deletes its node where it made it.
-/

namespace GoFight.Link

open GoFight.Lib GoFight.Net

variable {Cls Msg : Type*}

/-! ### The places -/

/-- Where a node can be. -/
inductive Spot
  /-- `conn_read_msgs_` of the `Connection` at an address. -/
  | connRead (a : Addr)
  /-- `td_read_msgs_` of a worker. -/
  | tdRead (w : ℕ)
  /-- `s_recv_msgs`. -/
  | recv
  /-- `td_write_msgs_` of a worker. -/
  | tdWrite (w : ℕ)
  /-- `conn_write_msgs_` of the `Connection` at an address. -/
  | connWrite (a : Addr)
  /-- In `logic_update`, between `pop_front` and the push of its `net_send`, or `message_process`. -/
  | logic
  /-- In `regist_to_game` on a worker, between `get_msgnode` and the push. -/
  | callback (w : ℕ)
  /-- Freed, with its `msg_data_`. -/
  | freed
deriving DecidableEq

/-- History of the nodes: those freed, and the incarnations whose registration was made. -/
structure NodeHistory (Msg : Type*) where
  freed : List (Item Msg)
  regists : List ℕ

namespace Server

/-- What a place has. -/
def nodesAt (sv : Server Cls Msg) (h : NodeHistory Msg) : Spot → List (Item Msg)
  | .connRead a => (sv.net.objQueues a).1
  | .tdRead w => (sv.net.worker w).tdReadMsgs
  | .recv => sv.net.output.drop sv.handled
  | .tdWrite w => (sv.net.worker w).tdWriteMsgs
  | .connWrite a => (sv.net.objQueues a).2
  | .logic => sv.logic.held
  | .callback w => (sv.callback w).hand
  | .freed => h.freed

/-- The nodes in a place, by where they come from. -/
def holds (sv : Server Cls Msg) (h : NodeHistory Msg) (p : Spot) : List Source :=
  (sv.nodesAt h p).map Item.src

/-- The node was made: by `message_format`, by the close sweep, or by `get_msgnode`. -/
def Made (sv : Server Cls Msg) (h : NodeHistory Msg) : Source → Prop
  | .wire id k => k < (sv.net.life id).decoded.length
  | .notice id => (sv.net.life id).noticed = true
  | .regist id => id ∈ h.regists

/-- The nodes a move frees: in a worker, and in the `message_process` of `logic_update`. -/
def frees (sv : Server Cls Msg) : Move → List (Item Msg)
  | .worker w _ => sv.net.frees w
  | .logic _ _ =>
      match sv.logic with
      | .reset it => [it]
      | _ => []
  | _ => []

end Server

/-- A node is freed with its `msg_data_` if its type has a processer. -/
def NodeHistory.record (sv : Server Cls Msg) (m : Move) (_sv' : Server Cls Msg)
    (h : NodeHistory Msg) : NodeHistory Msg where
  freed := h.freed ++ (sv.frees m).filter fun it => (sv.net.registry it.node.msgType).isSome
  regists := h.regists ++ sv.registers m

/-- The gate, with that history. -/
def nodeSystem (G : Generated Cls Msg) : Lts (Server Cls Msg × NodeHistory Msg) Move :=
  (serverSystem G .gate).withHistory ⟨[], []⟩ NodeHistory.record

namespace Server

/-! ### The condition -/

/-- No `net_send` of the move gets a null connection, and the move deletes no `Connection` that has
nodes. -/
def KeepsNodes (sv : Server Cls Msg) : Move → Prop
  | .worker w e => ∀ b ∈ sv.net.deletes (.worker w e), ∀ c ∈ sv.net.heap b,
      c.connReadMsgs = [] ∧ c.connWriteMsgs = []
  | .callback w _ _ =>
      match sv.callback w with
      | .regist => sv.upstream ≠ 0
      | _ => True
  | .logic _ _ =>
      match sv.logic with
      | .handle => ∀ it ∈ sv.net.output[sv.handled]?, it.node.msgConn = sv.upstream →
          it.node.msgType ≠ 0 → it.node.msgConn ≠ 0 ∧ it.node.cliConn ≠ 0
      | .toGs it => it.node.msgConn ≠ 0 ∧ sv.upstream ≠ 0
      | _ => True
  | _ => True

instance (sv : Server Cls Msg) : DecidablePred sv.KeepsNodes
  | .worker w e =>
      have (b : Addr) : Decidable (∀ c ∈ sv.net.heap b, c.connReadMsgs = [] ∧ c.connWriteMsgs = []) :=
        Option.decidableForallMem _
      Option.decidableForallMem (sv.net.deletes (.worker w e))
  | .callback w _ _ =>
      show Decidable (match sv.callback w with
        | .regist => sv.upstream ≠ 0
        | _ => True) from
      match sv.callback w with
      | .regist => inferInstanceAs (Decidable (sv.upstream ≠ 0))
      | .compare | .setInitOk | .send _ | .push _ _ | .connectGs | .done => isTrue trivial
  | .logic _ _ =>
      show Decidable (match sv.logic with
        | .handle => ∀ it ∈ sv.net.output[sv.handled]?, it.node.msgConn = sv.upstream →
            it.node.msgType ≠ 0 → it.node.msgConn ≠ 0 ∧ it.node.cliConn ≠ 0
        | .toGs it => it.node.msgConn ≠ 0 ∧ sv.upstream ≠ 0
        | _ => True) from
      match sv.logic with
      | .handle => Option.decidableForallMem _
      | .toGs it => inferInstanceAs (Decidable (it.node.msgConn ≠ 0 ∧ sv.upstream ≠ 0))
      | .init | .idle | .fetch _ | .reset _ | .send _ | .push _ _ => isTrue trivial
  | .accept _ => isTrue trivial
  | .clock _ => isTrue trivial
  | .connect _ _ => isTrue trivial

/-! ### Movements -/

/-- What identifies a node, and its type. -/
def tag (it : Item Msg) : Source × Int32 := (it.src, it.node.msgType)

/-- The places, seen so. -/
def board (sv : Server Cls Msg) (h : NodeHistory Msg) (p : Spot) : List (Source × Int32) :=
  (sv.nodesAt h p).map tag

/-- The nodes of one place go to others, or new nodes come to one place. -/
inductive Flow (Msg : Type*) (reg : Registry Cls) (B B' : Spot → List (Source × Int32))
    (M M' : Source → Prop) : Prop
  | scatter {p} (its : List (Item Msg)) (dest : Item Msg → Spot) (hp : B p = its.map tag ++ B' p)
      (hq : ∀ q, q ≠ p → B' q = B q ++ (its.filter fun it => dest it = q).map tag)
      (hdest : ∀ it ∈ its, dest it ≠ p) (hm : ∀ x, M' x ↔ M x)
  | make {q} (its : List (Item Msg)) (hq : B' q = B q ++ its.map tag)
      (hrest : ∀ r, r ≠ q → B' r = B r) (hnodup : (its.map Item.src).Nodup)
      (hnew : ∀ it ∈ its, ¬ M it.src) (hm : ∀ x, M' x ↔ M x ∨ x ∈ its.map Item.src)
      (hty : ∀ it ∈ its, (reg it.node.msgType).isSome)

/-- Every node that is not freed yet has a type with a processer. -/
def Typed (reg : Registry Cls) (B : Spot → List (Source × Int32)) : Prop :=
  ∀ p, ∀ n ∈ B p, (reg n.2).isSome

variable {reg : Registry Cls} {B B' : Spot → List (Source × Int32)} {M M' : Source → Prop}

theorem Flow.custody (h : Flow Msg reg B B' M M') (hc : Custody (fun p => (B p).map Prod.fst) M) :
    Custody (fun p => (B' p).map Prod.fst) M' := by
  have hfst : ∀ its : List (Item Msg), (its.map tag).map Prod.fst = its.map Item.src := fun its => by
    rw [List.map_map]
    rfl
  cases h with
  | @scatter p its dest hp hq hdest hm =>
    have hp' : (B p).map Prod.fst = its.map Item.src ++ (B' p).map Prod.fst := by
      rw [hp, List.map_append, hfst]
    have hgo : Custody (fun q => (B' q).map Prod.fst) M := by
      refine hc.scatter dest hp' (fun q hne => ?_) hdest
      rw [hq q hne, List.map_append, hfst]
    exact hgo.congr (fun _ => rfl) hm
  | @make q its hq hrest hnodup hnew hm =>
    have hq' : (B' q).map Prod.fst = (B q).map Prod.fst ++ its.map Item.src := by
      rw [hq, List.map_append, hfst]
    refine hc.make hq' (fun r hr => by rw [hrest r hr]) hnodup (fun x hx => ?_) hm
    obtain ⟨it, hit, rfl⟩ := List.mem_map.mp hx
    exact hnew it hit

theorem Flow.typed (h : Flow Msg reg B B' M M') (ht : Typed reg B) : Typed reg B' := by
  intro r n hn
  cases h with
  | @scatter p its dest hp hq =>
    by_cases hr : r = p
    · refine ht p n ?_
      rw [hp]
      exact List.mem_append_right _ (hr ▸ hn)
    · rw [hq r hr] at hn
      rcases List.mem_append.mp hn with hn | hn
      · exact ht r n hn
      · obtain ⟨it, hit, rfl⟩ := List.mem_map.mp hn
        refine ht p (tag it) ?_
        rw [hp]
        exact List.mem_append_left _ (List.mem_map_of_mem (List.mem_filter.mp hit).1)
  | @make q its hq hrest _ _ _ hty =>
    by_cases hr : r = q
    · rw [hr, hq] at hn
      rcases List.mem_append.mp hn with hn | hn
      · exact ht q n hn
      · obtain ⟨it, hit, rfl⟩ := List.mem_map.mp hn
        exact hty it hit
    · exact ht r n (hrest r hr ▸ hn)

/-- Nothing moves. -/
theorem Flow.same (h : ∀ p, B' p = B p) (hm : ∀ x, M' x ↔ M x) : Flow Msg reg B B' M M' :=
  .scatter (p := .logic) [] (fun _ => .freed) (h .logic).symm
    (fun q _ => (h q).trans (List.append_nil _).symm) nofun hm

/-- Nodes go from one place to another. -/
theorem Flow.move {p d : Spot} (its : List (Item Msg)) (hne : d ≠ p) (hp : B p = its.map tag ++ B' p)
    (hd : B' d = B d ++ its.map tag) (hrest : ∀ q, q ≠ p → q ≠ d → B' q = B q)
    (hm : ∀ x, M' x ↔ M x) : Flow Msg reg B B' M M' := by
  refine .scatter its (fun _ => d) hp (fun q hq => ?_) (fun _ _ => hne) hm
  by_cases hqd : d = q
  · subst hqd
    rw [hd]
    simp
  · rw [hrest q hq fun h => hqd h.symm]
    simp [hqd]

theorem Flow.congr {B'' : Spot → List (Source × Int32)} {M'' : Source → Prop}
    (h : Flow Msg reg B B' M M') (hB : ∀ p, B'' p = B' p) (hM : ∀ x, M'' x ↔ M' x) :
    Flow Msg reg B B'' M M'' := by
  rw [funext hB, show M'' = M' from funext fun x => propext (hM x)]
  exact h

section Net

variable {G : Generated Cls Msg} {sv sv' : Server Cls Msg} {h h' : NodeHistory Msg}

/-- A server whose net layer goes on without moving a node. -/
theorem board_still {s : Layer Cls Msg} (hs : Layer.Still s sv'.net)
    (hhandled : sv'.handled = sv.handled) (hlogic : sv'.logic.held.map tag = sv.logic.held.map tag)
    (hcallback : ∀ w, (sv'.callback w).hand.map tag = (sv.callback w).hand.map tag) (p : Spot) :
    sv'.board h' p = (sv.setNet s).board h' p := by
  cases p with
  | connRead a => exact congrArg (fun q => q.1.map tag) (hs.objects a)
  | connWrite a => exact congrArg (fun q => q.2.map tag) (hs.objects a)
  | tdRead w => exact congrArg (fun q => q.1.map tag) (hs.workers w)
  | tdWrite w => exact congrArg (fun q => q.2.map tag) (hs.workers w)
  | recv =>
    show (sv'.net.output.drop sv'.handled).map tag = (s.output.drop sv.handled).map tag
    rw [hs.output, hhandled]
  | logic => exact hlogic
  | callback w => exact hcallback w
  | freed => rfl

theorem made_still {s : Layer Cls Msg} (hs : Layer.Still s sv'.net)
    (hregists : h'.regists = h.regists) (x : Source) : sv'.Made h' x ↔ (sv.setNet s).Made h x := by
  cases x with
  | wire id k =>
    have hdec : (sv'.net.life id).decoded = (s.life id).decoded := congrArg Prod.fst (hs.nodes id)
    show k < (sv'.net.life id).decoded.length ↔ k < (s.life id).decoded.length
    rw [hdec]
  | notice id =>
    have hn : (sv'.net.life id).noticed = (s.life id).noticed := congrArg Prod.snd (hs.nodes id)
    show (sv'.net.life id).noticed = true ↔ (s.life id).noticed = true
    rw [hn]
  | regist id =>
    show id ∈ h'.regists ↔ id ∈ h.regists
    rw [hregists]

theorem made_congr (hlife : sv'.net.life = sv.net.life) (hregists : h'.regists = h.regists)
    (x : Source) : sv'.Made h' x ↔ sv.Made h x := by
  cases x with
  | wire id k => simp only [Made, hlife]
  | notice id => simp only [Made, hlife]
  | regist id => simp only [Made, hregists]

theorem objQueues_modConn {s : Layer Cls Msg} {a : Addr} {c : Connection Msg}
    (hc : s.heap a = some c) (f : Connection Msg → Connection Msg) (b : Addr) :
    (s.modConn a f).objQueues b = if b = a then (f c).queues else s.objQueues b := by
  rw [Layer.objQueues, Layer.modConn_heap]
  split
  · next hb =>
    rw [hb, hc]
    rfl
  · rfl

/-- One node goes to `td_read_msgs_`. -/
theorem flow_transfer {w : ℕ} {b : Addr} {c : Connection Msg} {it : Item Msg} {rest : List (Item Msg)}
    {s : Layer Cls Msg} (hs : s = (sv.net.modConn b (.setRead rest)).modWorker w (.queueRead it))
    (hc : sv.net.heap b = some c) (hmsgs : c.connReadMsgs = it :: rest) :
    Flow Msg reg (sv.board h) ((sv.setNet s).board h) (sv.Made h) ((sv.setNet s).Made h) := by
  have hold := Layer.objQueues_of_some hc
  have hobj : ∀ d, s.objQueues d = if d = b then (rest, c.connWriteMsgs) else sv.net.objQueues d :=
    fun d => hs ▸ objQueues_modConn hc (.setRead rest) d
  have hworker : ∀ v, s.worker v =
      if v = w then (sv.net.worker v).queueRead it else sv.net.worker v := by
    intro v
    rw [hs, Layer.modWorker_worker]
    split
    · next hv => rw [hv]; rfl
    · rfl
  refine .move (p := .connRead b) (d := .tdRead w) [it] nofun ?_ ?_ (fun q hq hd => ?_)
    (made_congr (hs ▸ rfl) rfl)
  · show (sv.net.objQueues b).1.map tag = [it].map tag ++ (s.objQueues b).1.map tag
    rw [hobj, if_pos rfl, hold, Connection.queues, hmsgs]
    rfl
  · show (s.worker w).tdReadMsgs.map tag = _
    rw [hworker, if_pos rfl]
    exact List.map_append ..
  · cases q with
    | connRead d =>
      show (s.objQueues d).1.map tag = (sv.net.objQueues d).1.map tag
      rw [hobj, if_neg fun heq => hq (by rw [heq])]
    | connWrite d =>
      show (s.objQueues d).2.map tag = (sv.net.objQueues d).2.map tag
      rw [hobj]
      split
      · next heq =>
        rw [heq, hold]
        rfl
      · rfl
    | tdRead v =>
      show (s.worker v).tdReadMsgs.map tag = _
      rw [hworker, if_neg fun heq => hd (by rw [heq])]
      rfl
    | tdWrite v =>
      show (s.worker v).tdWriteMsgs.map tag = _
      rw [hworker]
      split <;> rfl
    | recv => exact hs ▸ rfl
    | logic | callback | freed => rfl

/-- `message_format` makes nodes. -/
theorem flow_read {b : Addr} {c : Connection Msg} {chunk : List UInt8} {buffer : Evbuffer}
    {ms : List (MsgNode Msg)} {items : List (Item Msg)} {s : Layer Cls Msg}
    (hitems : items = number c.id (sv.net.life c.id).decoded.length ms)
    (hs : s = (sv.net.modConn b (.receive buffer items)).modLife c.id (.receive chunk items))
    (hc : sv.net.heap b = some c) (hty : ∀ m ∈ ms, (reg m.msgType).isSome) :
    Flow Msg reg (sv.board h) ((sv.setNet s).board h) (sv.Made h) ((sv.setNet s).Made h) := by
  have hold := Layer.objQueues_of_some hc
  have hobj : ∀ d, s.objQueues d =
      if d = b then (c.connReadMsgs ++ items, c.connWriteMsgs) else sv.net.objQueues d :=
    fun d => hs ▸ objQueues_modConn hc (.receive buffer items) d
  have hlife : ∀ v, s.life v =
      if v = c.id then (sv.net.life v).receive chunk items else sv.net.life v := by
    intro v
    rw [hs, Layer.modLife_life]
    rfl
  have hsrc : items.map Item.src =
      (List.range' (sv.net.life c.id).decoded.length ms.length).map (.wire c.id) := by
    rw [hitems, number_src]
  refine .make (q := .connRead b) items ?_ (fun q hq => ?_) ?_ (fun it hit => ?_) (fun x => ?_)
    fun it hit => hty _ (mem_number (hitems ▸ hit))
  · show (s.objQueues b).1.map tag = (sv.net.objQueues b).1.map tag ++ _
    rw [hobj, if_pos rfl, hold]
    exact List.map_append ..
  · cases q with
    | connRead d =>
      show (s.objQueues d).1.map tag = (sv.net.objQueues d).1.map tag
      rw [hobj, if_neg fun heq => hq (by rw [heq])]
    | connWrite d =>
      show (s.objQueues d).2.map tag = (sv.net.objQueues d).2.map tag
      rw [hobj]
      split
      · next heq =>
        rw [heq, hold]
        rfl
      · rfl
    | tdRead | tdWrite | recv => exact hs ▸ rfl
    | logic | callback | freed => rfl
  · rw [hsrc]
    refine List.Nodup.map (fun i j hij => ?_) List.nodup_range'
    cases hij
    rfl
  · have hmem : it.src ∈ items.map Item.src := List.mem_map_of_mem hit
    rw [hsrc] at hmem
    obtain ⟨k, hk, heq⟩ := List.mem_map.mp hmem
    rw [← heq]
    exact Nat.not_lt.mpr (List.mem_range'_1.mp hk).1
  · rw [hsrc]
    cases x with
    | notice id =>
      show (s.life id).noticed = true ↔ (sv.net.life id).noticed = true ∨ _
      rw [hlife]
      split <;> simp [Life.receive]
    | regist id =>
      show id ∈ h.regists ↔ id ∈ h.regists ∨ _
      simp
    | wire id k =>
      show k < (s.life id).decoded.length ↔ k < (sv.net.life id).decoded.length ∨ _
      rw [hlife]
      by_cases hid : id = c.id
      · subst hid
        have hlen : items.length = ms.length := by rw [hitems, number_length]
        simp only [if_true, Life.receive, List.length_append, hlen, List.mem_map,
          Source.wire.injEq, true_and, exists_eq_right, List.mem_range'_1]
        omega
      · rw [if_neg hid]
        simp [Ne.symm hid]

/-- The sweep makes a notice. -/
theorem flow_notice {w id : ℕ} {it : Item Msg} {s : Layer Cls Msg}
    (hs : s = (sv.net.modLife id .notice).modWorker w (.queueRead it))
    (hn : (sv.net.life id).noticed = false) (hsrc : it.src = .notice id)
    (hty : (reg it.node.msgType).isSome) :
    Flow Msg reg (sv.board h) ((sv.setNet s).board h) (sv.Made h) ((sv.setNet s).Made h) := by
  have hworker : ∀ v, s.worker v =
      if v = w then (sv.net.worker v).queueRead it else sv.net.worker v := by
    intro v
    rw [hs, Layer.modWorker_worker]
    split
    · next hv => rw [hv]; rfl
    · rfl
  have hlife : ∀ v, s.life v = if v = id then (sv.net.life v).notice else sv.net.life v := by
    intro v
    rw [hs, Layer.modWorker_life, Layer.modLife_life]
  refine .make (q := .tdRead w) [it] ?_ (fun q hq => ?_) (List.nodup_singleton _) (fun jt hjt => ?_)
    (fun x => ?_) fun jt hjt => List.mem_singleton.mp hjt ▸ hty
  · show (s.worker w).tdReadMsgs.map tag = _
    rw [hworker, if_pos rfl]
    exact List.map_append ..
  · cases q with
    | tdRead v =>
      show (s.worker v).tdReadMsgs.map tag = _
      rw [hworker, if_neg fun heq => hq (by rw [heq])]
      rfl
    | tdWrite v =>
      show (s.worker v).tdWriteMsgs.map tag = _
      rw [hworker]
      split <;> rfl
    | connRead | connWrite | recv => exact hs ▸ rfl
    | logic | callback | freed => rfl
  · rw [List.mem_singleton.mp hjt, hsrc]
    simp [Made, hn]
  · rw [List.map_singleton, List.mem_singleton, hsrc]
    cases x with
    | wire v k =>
      show k < (s.life v).decoded.length ↔ k < (sv.net.life v).decoded.length ∨ _
      rw [hlife]
      split <;> simp [Life.notice]
    | notice v =>
      show (s.life v).noticed = true ↔ (sv.net.life v).noticed = true ∨ _
      rw [hlife]
      split
      · next heq => simp [Life.notice, heq]
      · next heq => simp [heq]
    | regist v =>
      show v ∈ h.regists ↔ v ∈ h.regists ∨ _
      simp

/-- A worker distributes its queue: a node goes to its connection, or is freed. -/
theorem flow_drain {w : ℕ} {s : Layer Cls Msg} (hs : s = sv.net.drainStep w)
    (hw : sv.net.WellPlaced) (hregists : h'.regists = h.regists)
    (hfreed : h'.freed = h.freed ++ (sv.net.worker w).tdWriteMsgs.filter
      fun it => it.node.msgConn ∉ (sv.net.worker w).threadConnections) :
    Flow Msg reg (sv.board h) ((sv.setNet s).board h') (sv.Made h) ((sv.setNet s).Made h') := by
  have hobj : ∀ d, s.objQueues d = ((sv.net.objQueues d).1, (sv.net.objQueues d).2 ++
      if d ∈ (sv.net.worker w).threadConnections then itemsFor d (sv.net.worker w).tdWriteMsgs
        else []) := by
    intro d
    have hheap := Layer.drainWrites_heap (sv.net.worker w).threadConnections
      (sv.net.worker w).tdWriteMsgs sv.net.heap d
    change (sv.net.drainStep w).heap d = _ at hheap
    rw [Layer.objQueues, Layer.objQueues, hs, hheap]
    cases hd : sv.net.heap d with
    | some c => rfl
    | none =>
      -- an address in the map has its object
      have hnot : d ∉ (sv.net.worker w).threadConnections := fun hmem => by
        have hat := hw.placed (p := .registered w) hmem
        rw [Layer.placeAt, hd] at hat
        cases hat
      rw [if_neg hnot]
      rfl
  have hworker : ∀ v, s.worker v = if v = w then
      { sv.net.worker v with
        tdWriteMsgs := [], phase := .transfer (sv.net.worker w).threadConnections }
      else sv.net.worker v := by
    intro v
    rw [hs, Layer.drainStep, Layer.modWorker_worker]
    split
    · next hv => rw [hv]
    · rfl
  refine .scatter (p := .tdWrite w) (sv.net.worker w).tdWriteMsgs
    (fun it => if it.node.msgConn ∈ (sv.net.worker w).threadConnections then .connWrite it.node.msgConn
      else .freed) ?_ (fun q hq => ?_) (fun it _ => ?_) (made_congr (hs ▸ rfl) hregists)
  · show _ = _ ++ (s.worker w).tdWriteMsgs.map tag
    rw [hworker, if_pos rfl]
    exact (List.append_nil _).symm
  · have hnone : (∀ it : Item Msg, (if it.node.msgConn ∈ (sv.net.worker w).threadConnections then
        Spot.connWrite it.node.msgConn else .freed) ≠ q) → (sv.setNet s).board h' q = sv.board h q →
        (sv.setNet s).board h' q = sv.board h q ++ ((sv.net.worker w).tdWriteMsgs.filter fun it =>
          (if it.node.msgConn ∈ (sv.net.worker w).threadConnections then
            Spot.connWrite it.node.msgConn else .freed) = q).map tag := by
      intro hne heq
      rw [heq, List.filter_eq_nil_iff.mpr fun it _ => by simpa using hne it]
      exact (List.append_nil _).symm
    cases q with
    | connWrite d =>
      show (s.objQueues d).2.map tag = (sv.net.objQueues d).2.map tag ++ _
      rw [hobj, List.map_append]
      refine congrArg ((sv.net.objQueues d).2.map tag ++ List.map tag ·) ?_
      split
      · next hmem =>
        refine List.filter_congr fun it _ => ?_
        by_cases hit : it.node.msgConn = d
        · simp [hit, hmem]
        · by_cases hin : it.node.msgConn ∈ (sv.net.worker w).threadConnections <;> simp [hit, hin]
      · next hmem =>
        refine (List.filter_eq_nil_iff.mpr fun it _ => ?_).symm
        by_cases hit : it.node.msgConn = d
        · simp [hit, hmem]
        · by_cases hin : it.node.msgConn ∈ (sv.net.worker w).threadConnections <;> simp [hit, hin]
    | freed =>
      show h'.freed.map tag = h.freed.map tag ++ _
      rw [hfreed, List.map_append]
      refine congrArg (h.freed.map tag ++ List.map tag ·) (List.filter_congr fun it _ => ?_)
      by_cases hin : it.node.msgConn ∈ (sv.net.worker w).threadConnections <;> simp [hin]
    | connRead d =>
      refine hnone (fun it => by split <;> simp) ?_
      show (s.objQueues d).1.map tag = _
      rw [hobj]
      rfl
    | tdRead v =>
      refine hnone (fun it => by split <;> simp) ?_
      show (s.worker v).tdReadMsgs.map tag = _
      rw [hworker]
      split <;> rfl
    | tdWrite v =>
      refine hnone (fun it => by split <;> simp) ?_
      show (s.worker v).tdWriteMsgs.map tag = _
      rw [hworker, if_neg fun heq => hq (by rw [heq])]
      rfl
    | recv => exact hnone (fun it => by split <;> simp) (hs ▸ rfl)
    | logic => exact hnone (fun it => by split <;> simp) rfl
    | callback v => exact hnone (fun it => by split <;> simp) rfl
  · split <;> simp

/-- `on_write` frees what it has encoded. -/
theorem flow_flush {b : Addr} {c : Connection Msg} {f : Connection Msg → Connection Msg}
    {s : Layer Cls Msg} (hs : s = sv.net.modConn b f) (hc : sv.net.heap b = some c)
    (hf : Layer.Writes G f) (hregists : h'.regists = h.regists)
    (hfreed : h'.freed = h.freed ++ (sv.net.objQueues b).2) :
    Flow Msg reg (sv.board h) ((sv.setNet s).board h') (sv.Made h) ((sv.setNet s).Made h') := by
  have hold := Layer.objQueues_of_some hc
  have hread : (f c).readSide.connReadMsgs = c.readSide.connReadMsgs :=
    congrArg Connection.connReadMsgs (hf.readSide c)
  have hobj : ∀ d, s.objQueues d = if d = b then (c.connReadMsgs, []) else sv.net.objQueues d := by
    intro d
    have hqueues : (f c).queues = (c.connReadMsgs, []) := Prod.ext hread (hf.queue c)
    rw [hs, objQueues_modConn hc, hqueues]
  refine .move (p := .connWrite b) (d := .freed) (sv.net.objQueues b).2 nofun ?_ ?_ (fun q hq hd => ?_)
    (made_congr (hs ▸ rfl) hregists)
  · show _ = _ ++ (s.objQueues b).2.map tag
    rw [hobj, if_pos rfl]
    exact (List.append_nil _).symm
  · show h'.freed.map tag = h.freed.map tag ++ _
    rw [hfreed, List.map_append]
  · cases q with
    | connRead d =>
      show (s.objQueues d).1.map tag = (sv.net.objQueues d).1.map tag
      rw [hobj]
      split
      · next heq =>
        rw [heq, hold]
        rfl
      · rfl
    | connWrite d =>
      show (s.objQueues d).2.map tag = (sv.net.objQueues d).2.map tag
      rw [hobj, if_neg fun heq => hq (by rw [heq])]
    | tdRead | tdWrite | recv => exact hs ▸ rfl
    | logic | callback => rfl
    | freed => exact absurd rfl hd

/-- One round of `get_net_msgs`. -/
theorem flow_getMsgs {i : ℕ} {s : Layer Cls Msg} (hs : s = sv.net.getNetMsgs i)
    (hhandled : sv.handled ≤ sv.net.output.length) :
    Flow Msg reg (sv.board h) ((sv.setNet s).board h) (sv.Made h) ((sv.setNet s).Made h) := by
  have hworker : ∀ v, s.worker v =
      if v = i then { sv.net.worker v with tdReadMsgs := [] } else sv.net.worker v := by
    intro v
    rw [hs, Layer.getNetMsgs, Layer.modWorker_worker]
  refine .move (p := .tdRead i) (d := .recv) (sv.net.worker i).tdReadMsgs (by simp) ?_ ?_
    (fun q hq hd => ?_) (made_congr (hs ▸ rfl) rfl)
  · show _ = _ ++ (s.worker i).tdReadMsgs.map tag
    rw [hworker, if_pos rfl]
    exact (List.append_nil _).symm
  · have hout : s.output = sv.net.output ++ (sv.net.worker i).tdReadMsgs := hs ▸ rfl
    show (s.output.drop sv.handled).map tag = (sv.net.output.drop sv.handled).map tag ++ _
    rw [hout, List.drop_append_of_le_length hhandled, List.map_append]
  · cases q with
    | tdRead v =>
      show (s.worker v).tdReadMsgs.map tag = _
      rw [hworker, if_neg fun heq => hq (by rw [heq])]
      rfl
    | tdWrite v =>
      show (s.worker v).tdWriteMsgs.map tag = _
      rw [hworker]
      split <;> rfl
    | connRead | connWrite => exact hs ▸ rfl
    | recv => exact absurd rfl hd
    | logic | callback | freed => rfl

/-- The push of a `net_send`, by the logic thread or a callback. -/
theorem flow_push {p : Spot} {v : ℕ} {it : Item Msg} {s : Layer Cls Msg}
    (hs : s = sv.net.pushWrite v it) (hne : .tdWrite v ≠ p) (hp : sv.nodesAt h p = [it])
    (hnet : sv'.net = s) (hhandled : sv'.handled = sv.handled) (hgone : sv'.nodesAt h p = [])
    (hlogic : p ≠ .logic → sv'.logic.held = sv.logic.held)
    (hcallback : ∀ w, p ≠ .callback w → (sv'.callback w).hand = (sv.callback w).hand) :
    Flow Msg reg (sv.board h) (sv'.board h) (sv.Made h) (sv'.Made h) := by
  have hworker : ∀ u, s.worker u =
      if u = v then (sv.net.worker u).queueWrite it else sv.net.worker u := by
    intro u
    rw [hs, Layer.pushWrite, Layer.modWorker_worker]
  refine .move (p := p) (d := .tdWrite v) [it] hne ?_ ?_ (fun q hq hd => ?_)
    (made_congr (by rw [hnet, hs]; rfl) rfl)
  · rw [board, board, hp, hgone]
    rfl
  · show (sv'.net.worker v).tdWriteMsgs.map tag = _
    rw [hnet, hworker, if_pos rfl]
    exact List.map_append ..
  · cases q with
    | tdWrite u =>
      show (sv'.net.worker u).tdWriteMsgs.map tag = _
      rw [hnet, hworker, if_neg fun heq => hd (by rw [heq])]
      rfl
    | tdRead u =>
      show (sv'.net.worker u).tdReadMsgs.map tag = _
      rw [hnet, hworker]
      split <;> rfl
    | connRead d =>
      show (sv'.net.objQueues d).1.map tag = _
      rw [hnet, hs]
      rfl
    | connWrite d =>
      show (sv'.net.objQueues d).2.map tag = _
      rw [hnet, hs]
      rfl
    | recv =>
      show (sv'.net.output.drop sv'.handled).map tag = _
      rw [hnet, hhandled, hs]
      rfl
    | logic => exact congrArg (List.map tag) (hlogic hq.symm)
    | callback u => exact congrArg (List.map tag) (hcallback u hq.symm)
    | freed => rfl

end Net

end Server

end GoFight.Link
