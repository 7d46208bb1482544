import GoFight.Link.Steps

/-!
# The game server's table of gates

`s_connections_to_me` of the game server, which `process_Regist_req` fills.  Only the logic thread
touches it, so it is a function of the nodes processed so far.

* `registerServer`, `processRegistReq`, `processShutdownReq`, `messageProcess` — the code;
* `connectionsToMe` — the table after a list of nodes;
* `Consistent` — its entries are connections that have not hung up, and a gate that comes back is
  registered under its new connection;
* `consistent_iff_of_reach` — in every reachable state this holds exactly as long as no gate that is
  registered has hung up: `process_Shutdown_req` does nothing, and nothing else calls
  `disconnect_server`.
-/

namespace GoFight.Link

open GoFight.Lib GoFight.Net

variable {Cls Msg : Type*}

/-- A value of the table: the connection, and, history, its incarnation. -/
structure Entry where
  conn : Addr
  id : Option ℕ
deriving DecidableEq, Repr

/-- `MAP(int, uint64_t)`. -/
abbrev Table := Int32 → Option Entry

/-- `register_server`; nobody looks at what it returns. -/
def registerServer (t : Table) (id : Int32) (conn : Entry) : Table :=
  if (t id).isSome then t else Function.update t id (some conn)

section Code

variable (G : Generated Cls Msg)

/-- `process_Regist_req`, without its `conn_close`. -/
def processRegistReq (t : Table) (it : Item Msg) : Table :=
  if G.myId it.node.msgData &&& gateServer = gateServer then
    registerServer t (G.myId it.node.msgData) ⟨it.node.msgConn, it.src.conn⟩
  else t

/-- `process_Shutdown_req`. -/
def processShutdownReq (t : Table) (_it : Item Msg) : Table := t

/-- `message_process`, of the types that have a processor with a body or a claim to one. -/
def messageProcess (t : Table) (it : Item Msg) : Table :=
  if it.node.msgType = Protocol.messageRegistReq then processRegistReq G t it
  else if it.node.msgType = Protocol.messageShutdownReq then processShutdownReq t it
  else t

/-- The table after these nodes. -/
def connectionsToMe (its : List (Item Msg)) : Table := its.foldl (messageProcess G) fun _ => none

/-- The table in a state: `logic_update` has processed the first `handled` nodes. -/
def Server.connectionsToMe (sv : Server Cls Msg) : Table :=
  Link.connectionsToMe G (sv.net.output.take sv.handled)

/-- The node registers the gate `id`, where there is no entry yet. -/
def Registers (it : Item Msg) (id : Int32) : Prop :=
  it.node.msgType = Protocol.messageRegistReq ∧ G.myId it.node.msgData = id ∧
    id &&& gateServer = gateServer

instance (it : Item Msg) (id : Int32) : Decidable (Registers G it id) := by
  unfold Registers
  infer_instance

/-- The connection of an entry has hung up: its notice is among the nodes. -/
def HungUp (its : List (Item Msg)) (e : Entry) : Prop :=
  ∃ it ∈ its, ∃ c, it.src = .notice c ∧ e.id = some c

/-- **The property**, after the nodes `its`. -/
structure Consistent (its : List (Item Msg)) : Prop where
  live : ∀ {id e}, connectionsToMe G its id = some e → ¬ HungUp its e
  reconnect : ∀ {p it q id}, its = p ++ it :: q → Registers G it id →
    (∀ e, connectionsToMe G p id = some e → HungUp p e) →
    connectionsToMe G (p ++ [it]) id = some ⟨it.node.msgConn, it.src.conn⟩

/-- No connection hung up while it was in the table. -/
def NoneHungUp (its : List (Item Msg)) : Prop :=
  ∀ p it q c, its = p ++ it :: q → it.src = .notice c →
    ∀ id e, connectionsToMe G p id = some e → e.id ≠ some c

end Code

/-! ### Entries stay -/

variable {G : Generated Cls Msg}

/-- A node registers a gate that is not there, and changes nothing else. -/
theorem messageProcess_eq (t : Table) (it : Item Msg) (id : Int32) :
    messageProcess G t it id =
      if Registers G it id ∧ t id = none then some ⟨it.node.msgConn, it.src.conn⟩ else t id := by
  by_cases hty : it.node.msgType = Protocol.messageRegistReq
  · rw [messageProcess, if_pos hty, processRegistReq]
    by_cases hgate : G.myId it.node.msgData &&& gateServer = gateServer
    · rw [if_pos hgate, registerServer]
      by_cases hid : G.myId it.node.msgData = id
      · have hreg : Registers G it id := ⟨hty, hid, hid ▸ hgate⟩
        subst hid
        cases ht : t (G.myId it.node.msgData) with
        | none => simp [hreg]
        | some e => simp [ht]
      · have hno : ¬ (Registers G it id ∧ t id = none) := fun h => hid h.1.2.1
        rw [if_neg hno]
        split
        · rfl
        · rw [Function.update_of_ne (Ne.symm hid)]
    · have hno : ¬ (Registers G it id ∧ t id = none) := by
        rintro ⟨⟨-, rfl, hg⟩, -⟩
        exact hgate hg
      rw [if_neg hgate, if_neg hno]
  · have hno : ¬ (Registers G it id ∧ t id = none) := fun h => hty h.1.1
    rw [messageProcess, if_neg hty, if_neg hno]
    split <;> rfl

theorem connectionsToMe_concat (its : List (Item Msg)) (it : Item Msg) :
    connectionsToMe G (its ++ [it]) = messageProcess G (connectionsToMe G its) it := by
  rw [connectionsToMe, List.foldl_concat]
  rfl

/-- An entry is never changed. -/
theorem connectionsToMe_append {p : List (Item Msg)} {id : Int32} {e : Entry}
    (h : connectionsToMe G p id = some e) (q : List (Item Msg)) :
    connectionsToMe G (p ++ q) id = some e := by
  induction q using List.reverseRecOn with
  | nil => rwa [List.append_nil]
  | append_singleton q it ih =>
    rw [← List.append_assoc, connectionsToMe_concat, messageProcess_eq, if_neg, ih]
    rintro ⟨-, hnone⟩
    rw [ih] at hnone
    cases hnone

/-! ### The exact condition -/

/-- A notice is one by its type too, and nothing of its connection comes after it. -/
def NoticeLast (its : List (Item Msg)) : Prop :=
  ∀ p it q c, its = p ++ it :: q → it.src = .notice c →
    it.node.msgType = Protocol.messageShutdownReq ∧ ∀ jt ∈ q, jt.src.conn ≠ some c

theorem NoticeLast.of_append {p q : List (Item Msg)} (h : NoticeLast (p ++ q)) : NoticeLast p := by
  intro p₁ it q₁ c hp hsrc
  obtain ⟨hty, hq⟩ := h p₁ it (q₁ ++ q) c (by rw [hp, List.append_assoc, List.cons_append]) hsrc
  exact ⟨hty, fun jt hjt => hq jt (List.mem_append_left q hjt)⟩

theorem NoneHungUp.of_append {p q : List (Item Msg)} (h : NoneHungUp G (p ++ q)) :
    NoneHungUp G p := fun p₁ it q₁ c hp hsrc =>
  h p₁ it (q₁ ++ q) c (by rw [hp, List.append_assoc, List.cons_append]) hsrc

/-- An entry made by the last node is not of a connection whose notice came before. -/
theorem NoticeLast.not_hungUp {its : List (Item Msg)} {it : Item Msg} {id : Int32}
    (h : NoticeLast (its ++ [it])) (hreg : Registers G it id) :
    ¬ HungUp (its ++ [it]) ⟨it.node.msgConn, it.src.conn⟩ := by
  rintro ⟨jt, hjt, c, hsrc, hid⟩
  rcases List.mem_append.mp hjt with hjt | hjt
  · obtain ⟨p, q, rfl⟩ := List.append_of_mem hjt
    have hq := (h p jt (q ++ [it]) c (by simp) hsrc).2
    exact hq it (List.mem_append_right q List.mem_cons_self) hid
  · rw [List.mem_singleton] at hjt
    subst hjt
    have hty := (h its jt [] c rfl hsrc).1
    rw [hreg.1] at hty
    exact absurd hty (by decide)

/-- **Step by step**: as long as no connection in the table hangs up, none in it has. -/
theorem not_hungUp {its : List (Item Msg)} (hlast : NoticeLast its) (h : NoneHungUp G its)
    {id : Int32} {e : Entry} (he : connectionsToMe G its id = some e) : ¬ HungUp its e := by
  induction its using List.reverseRecOn with
  | nil => cases he
  | append_singleton its it ih =>
    rw [connectionsToMe_concat, messageProcess_eq] at he
    split at he
    · next hreg =>
      cases he
      exact hlast.not_hungUp hreg.1
    · rintro ⟨jt, hjt, c, hsrc, hid⟩
      rcases List.mem_append.mp hjt with hjt | hjt
      · exact ih hlast.of_append h.of_append he ⟨jt, hjt, c, hsrc, hid⟩
      · rw [List.mem_singleton] at hjt
        subst hjt
        exact h its jt [] c rfl hsrc id e he hid

/-- **Exactly.** -/
theorem consistent_iff {its : List (Item Msg)} (hlast : NoticeLast its) :
    Consistent G its ↔ NoneHungUp G its := by
  constructor
  · intro h p it q c hits hsrc id e hp hid
    have hstay := connectionsToMe_append hp (it :: q)
    rw [← hits] at hstay
    refine h.live hstay ⟨it, ?_, c, hsrc, hid⟩
    rw [hits]
    exact List.mem_append_right p List.mem_cons_self
  · intro h
    refine ⟨fun he => not_hungUp hlast h he, fun {p it q id} hits hreg hall => ?_⟩
    subst hits
    cases hp : connectionsToMe G p id with
    | none => rw [connectionsToMe_concat, messageProcess_eq, if_pos ⟨hreg, hp⟩]
    | some e => exact absurd (hall e hp) (not_hungUp hlast.of_append h.of_append hp)

/-- What `get_net_msgs` outputs has each notice last among its connection's nodes. -/
theorem noticeLast_output {s : Layer Cls Msg} (h : s.InOrder) : NoticeLast s.output := by
  intro p it q c hout hsrc
  have hit : it ∈ s.output := by
    rw [hout]
    exact List.mem_append_right p List.mem_cons_self
  exact ⟨(h.isNotice hit hsrc).1.2.1, h.notice_last hout hsrc⟩

/-- **The table of gates, exactly.**  In every reachable state of the game server it is consistent if
and only if no connection has hung up while it was in the table. -/
theorem consistent_iff_of_reach {sv : Server Cls Msg}
    (h : (serverSystem G .game).Reach Lts.Free sv) :
    Consistent G (sv.net.output.take sv.handled) ↔
      NoneHungUp G (sv.net.output.take sv.handled) := by
  obtain ⟨-, -, ho⟩ := inOrder_of_reach (net_of_reach h)
  have hlast := noticeLast_output ho
  rw [← List.take_append_drop sv.handled sv.net.output] at hlast
  exact consistent_iff hlast.of_append

/-- A gate connects to the game server and registers, and the logic thread takes its node. -/
def gateRegisters : List Move :=
  let frame := encodeNode Protocol.protobuf registNode
  [.logic true none, .accept true] ++
    ([.go, .go, .go, .go, .go, .notified true 16, .readEvent 16, .read (.data frame ⟨[frame]⟩),
      .go, .go, .go, .go, .go, .go, .go, .go, .go, .go] : List WorkerAct).map (.worker 0) ++
    List.replicate 4 (.logic true none)

theorem consistent_gateRegisters : ∃ sv,
    (serverSystem Protocol.generated .game).exec (.start .game (.start 1 Protocol.registry 0))
        gateRegisters = some sv ∧
      sv.connectionsToMe Protocol.generated 33 = some ⟨16, some 0⟩ ∧
      Consistent Protocol.generated (sv.net.output.take sv.handled) := by
  obtain ⟨sv, hs, hrun⟩ : ∃ sv,
      (serverSystem Protocol.generated .game).exec (.start .game (.start 1 Protocol.registry 0))
          gateRegisters = some sv ∧
        (sv.connectionsToMe Protocol.generated 33, (sv.net.output.take sv.handled).map Item.src) =
          (some ⟨16, some 0⟩, [.wire 0 0]) := by
    refine Option.map_eq_some_iff.mp ?_
    decide +kernel
  rw [Prod.mk.injEq] at hrun
  obtain ⟨htable, hsrcs⟩ := hrun
  have hreach : (serverSystem Protocol.generated .game).Reach Lts.Free sv :=
    .of_exec (.start ⟨1, Protocol.registry, 0, by decide, rfl⟩) (Lts.allSteps_free _ _) hs
  refine ⟨sv, hs, htable, (consistent_iff_of_reach hreach).mpr ?_⟩
  intro p it q c hits hsrc
  have hmem : Source.notice c ∈ (sv.net.output.take sv.handled).map Item.src := by
    rw [hits, ← hsrc]
    exact List.mem_map_of_mem (List.mem_append_right p List.mem_cons_self)
  rw [hsrcs, List.mem_singleton] at hmem
  cases hmem

/-- Then it hangs up. -/
def gateHangsUp : List Move :=
  gateRegisters ++ ([.go, .go, .go, .read .eof, .go, .go, .go, .notice 0, .go].map (.worker 0)) ++
    List.replicate 5 (.logic true none)

/-- Its entry stays. -/
theorem not_consistent_gateHangsUp : ∃ sv,
    (serverSystem Protocol.generated .game).Reach Lts.Free sv ∧
      ¬ Consistent Protocol.generated (sv.net.output.take sv.handled) := by
  obtain ⟨sv, hs, hrun⟩ : ∃ sv,
      (serverSystem Protocol.generated .game).exec (.start .game (.start 1 Protocol.registry 0))
          gateHangsUp = some sv ∧
        (sv.connectionsToMe Protocol.generated 33, (sv.net.output.take sv.handled).map Item.src) =
          (some ⟨16, some 0⟩, [.wire 0 0, .notice 0]) := by
    refine Option.map_eq_some_iff.mp ?_
    decide +kernel
  rw [Prod.mk.injEq] at hrun
  obtain ⟨htable, hsrcs⟩ := hrun
  refine ⟨sv, .of_exec (.start ⟨1, Protocol.registry, 0, by decide, rfl⟩)
    (Lts.allSteps_free _ _) hs, fun h => ?_⟩
  have hmem : Source.notice 0 ∈ (sv.net.output.take sv.handled).map Item.src := by
    rw [hsrcs]
    decide
  obtain ⟨it, hit, hsrc⟩ := List.mem_map.mp hmem
  exact h.live htable ⟨it, hit, 0, hsrc, rfl⟩

end GoFight.Link
