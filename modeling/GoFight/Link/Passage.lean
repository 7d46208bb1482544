import GoFight.Link.Fidelity
import GoFight.Link.Registration
import GoFight.Link.ServerProgram
import GoFight.Link.Wire

/-!
# From a client through the gate to the game server

The gate and the game server as two processes, each with all its threads, and the TCP connection
between them.  What the game server handles of that connection is what the gate sent on it, and that
is traced back to the bytes of the gate's own connections.

* `Server.Sends` — a server's `net_send` calls give every connection a whole stream;
* `Cluster`, `clusterSystem` — the two servers, and what the socket between them has taken;
* `Server.Origin` — where a node that the gate sends is from: its own registration, a notice, or the
  `k`-th frame of a connection;
* `Cluster.Serves`, `serves_of_reach` — the game server handles them in order, once and unchanged;
* `told_of_reach` — it hangs up on the gate only for what somebody sent to the gate.
-/

namespace GoFight.Link

open GoFight.Lib GoFight.Net

variable {Cls Msg : Type*}

namespace Server

variable {G : Generated Cls Msg} {k : Kind} {sv sv' : Server Cls Msg}

/-! ### The calls of `net_send` -/

/-- A thread has read `conn->td_` in `net_send` and is about to push. -/
def Ready (sv : Server Cls Msg) (v : ℕ) (it : Item Msg) : Prop :=
  sv.logic = .push v it ∨ ∃ w, sv.callback w = .push v it

/-- The net layer's share of a step once more: a push is that of a thread that is ready. -/
theorem ServerStep.net_ready {m : Move} (hs : ServerStep G .gate sv m sv') :
    sv'.net = sv.net ∨ ∃ a, sv.net.step G a = some sv'.net ∧ sv.net.allocates a = sv.allocates m ∧
      ∀ v it, a = .send v it → sv.Ready v it := by
  cases hs with
  | accept h | clock h | worker _ h | returned _ _ h | fetch _ h => exact .inr ⟨_, h, rfl, by simp⟩
  | made hi h =>
    refine .inr ⟨_, h, ?_, by simp⟩
    rw [allocates, if_pos hi]
    rfl
  | @callbackPush w created junk a ok it v net hp hc h =>
    refine .inr ⟨_, h, rfl, fun v' it' heq => .inr ⟨w, ?_⟩⟩
    rw [Act.send.injEq] at heq
    rw [hc, heq.1, heq.2]
  | @push created r it v net hl h =>
    refine .inr ⟨_, h, rfl, fun v' it' heq => .inl ?_⟩
    rw [Act.send.injEq] at heq
    rw [hl, heq.1, heq.2]
  | connectGs =>
    left
    dsimp only [setCallback]
    split <;> rfl
  | init =>
    left
    dsimp only [initConfig]
    split <;> rfl
  | relay =>
    left
    unfold Server.relay
    split_ifs <;> rfl
  | toGs =>
    left
    split_ifs <;> rfl
  | processClose hk => cases hk
  | _ => exact .inl rfl

/-- A thread becomes ready where it reads `conn->td_`. -/
theorem ServerStep.ready {m : Move} (hs : ServerStep G k sv m sv') {v : ℕ} {it : Item Msg}
    (h : sv'.Ready v it) :
    sv.Ready v it ∨ sv'.net = sv.net ∧ sv.tdOf it.node.msgConn = some v := by
  -- the callback of one worker goes on, to where it is not ready
  have hcallback : ∀ {u pc}, pc ≠ .push v it → sv'.logic = sv.logic →
      sv'.callback = Function.update sv.callback u pc → sv.Ready v it := by
    intro u pc hpc hlogic heq
    rcases h with h | ⟨w, h⟩
    · exact .inl (hlogic ▸ h)
    · rw [heq, Function.update_apply] at h
      split_ifs at h
      · exact absurd h hpc
      · exact .inr ⟨w, h⟩
  -- the logic thread goes on, to where it is not ready
  have hlogic : sv'.logic ≠ .push v it → sv'.callback = sv.callback → sv.Ready v it := by
    intro hne heq
    rcases h with h | ⟨w, h⟩
    · exact absurd h hne
    · exact .inr ⟨w, heq ▸ h⟩
  cases hs with
  | accept | clock | returned | made | refused | broken | checkUnset | checkSet | storeGate
  | storeGame | sleep | process | processClose => exact .inl h
  | worker => exact .inl (hcallback (by simp) rfl rfl)
  | compare => exact .inl (hcallback (by split_ifs <;> simp) rfl rfl)
  | setInitOk | registNull | callbackPush => exact .inl (hcallback (by simp) rfl rfl)
  | regist => exact .inl (hcallback (by split_ifs <;> simp) rfl rfl)
  | @callbackSend w created junk a ok jt u hp hc hu =>
    by_cases heq : u = v ∧ jt = it
    · exact .inr ⟨rfl, by rw [← heq.1, ← heq.2]; exact hu⟩
    · refine .inl (hcallback ?_ rfl rfl)
      simpa using heq
  | @connectGs w created =>
    cases created <;> exact .inl (hcallback (by simp) rfl rfl)
  | @init created =>
    cases created <;> exact .inl (hlogic (by simp [initConfig]) rfl)
  | idle | fetch | fetched | handledAll | reset | push =>
    exact .inl (hlogic (by simp [setLogic]) rfl)
  | @relay created r jt hk hl =>
    unfold Server.relay at h hlogic
    split_ifs at h hlogic
    · exact .inl h
    · exact .inl (hlogic (by simp [setLogic]) rfl)
    · exact .inl (hlogic (by simp [setLogic]) rfl)
    · exact .inl (hlogic (by simp [setLogic]) rfl)
  | toGs =>
    refine .inl (hlogic ?_ ?_)
    · split_ifs <;> simp [setLogic]
    · split_ifs <;> rfl
  | @send created r jt u hl hu =>
    by_cases heq : u = v ∧ jt = it
    · exact .inr ⟨rfl, by rw [← heq.1, ← heq.2]; exact hu⟩
    · refine .inl (hlogic ?_ rfl)
      simpa [setLogic] using heq

/-- No object is made at an address that an object had before. -/
def NoReuse (sv : Server Cls Msg) (m : Move) : Prop :=
  ∀ a ∈ sv.allocates m, ∀ id < sv.net.nextId, (sv.net.life id).addr ≠ a

instance (sv : Server Cls Msg) (m : Move) : Decidable (sv.NoReuse m) :=
  Option.decidableForallMem _

/-- What the threads of a server send makes whole streams. -/
structure Sends (G : Generated Cls Msg) (sv : Server Cls Msg) : Prop where
  streams : Sending.Streams G ⟨sv.net, []⟩
  ready : ∀ {v it}, sv.Ready v it → sv.net.Owns v it.node.msgConn

theorem Sends.step {m : Move} (h : sv.Sends G) (hw : sv.net.WellPlaced) (hc : sv.NoReuse m)
    (hs : ServerStep G .gate sv m sv') : sv'.Sends G := by
  have hready : ∀ {v it}, sv'.Ready v it → sv.net.Owns v it.node.msgConn := by
    intro v it hv
    rcases hs.ready hv with hv | ⟨-, htd⟩
    · exact h.ready hv
    · obtain ⟨c, hobj, hc⟩ := Option.bind_eq_some_iff.mp htd
      exact hw.owns hobj hc
  rcases hs.net_ready with heq | ⟨a, ha, halloc, hsend⟩
  · exact ⟨heq ▸ h.streams, fun hv => heq ▸ hready hv⟩
  · refine ⟨?_, fun hv => (hready hv).step hw ha⟩
    have hnet : ∀ (hno : ∀ v it, a ≠ .send v it), Sending.Streams G ⟨sv'.net, []⟩ := by
      intro hno
      refine h.streams.step (m := .net a) hw ?_ ?_
      · show ∀ b ∈ sv.net.allocates a, ∀ id < sv.net.nextId, (sv.net.life id).addr ≠ b
        rw [halloc]
        exact hc
      · cases a with
        | send v it => exact absurd rfl (hno v it)
        | _ => simp only [Sending.step, ha, Option.map_some]
    by_cases hno : ∀ v it, a ≠ .send v it
    · exact hnet hno
    · push Not at hno
      obtain ⟨v, it, rfl⟩ := hno
      -- the thread that is ready is in its call
      have hcall : Sending.Streams G ⟨sv.net, [(v, it)]⟩ := by
        refine ⟨⟨h.streams.addressed.apart, ?_, h.streams.addressed.queued,
          h.streams.addressed.pushed⟩, h.streams.intact⟩
        intro q hq
        rw [List.mem_singleton.mp hq]
        exact h.ready (hsend v it rfl)
      refine hcall.step (m := .push 0) hw trivial ?_
      exact congrArg (Option.map _) ha

theorem sends_of_reach (h : (serverSystem G .gate).Reach NoReuse sv) : sv.Sends G := by
  refine h.invariant_of (P := Sends G) ?_ fun sv m sv' hr hi hc hs => ?_
  · rintro sv ⟨threadNum, registry, clock, -, rfl⟩
    refine ⟨Sending.streams_of_reach (.start ⟨⟨threadNum, registry, clock, rfl⟩, rfl⟩), ?_⟩
    rintro v it (hl | ⟨w, hw⟩)
    · cases hl
    · cases hw
  · exact hi.step (wellPlaced_of_reach (net_of_reach hr)) hc (step_cases hs)

/-! ### What is sent -/

/-- The node is one that `regist_to_game` sends. -/
def OwnRegist (G : Generated Cls Msg) (it : Item Msg) : Prop :=
  it.node.msgType = Protocol.messageRegistReq ∧ ∃ m, it.node.msgData = G.setMyId m Kind.gate.myId

/-- A worker in the callback sends a registration. -/
theorem ServerStep.callback_hand {m : Move} (hs : ServerStep G .gate sv m sv') {w : ℕ}
    {it : Item Msg} (hit : it ∈ (sv'.callback w).hand) :
    it ∈ (sv.callback w).hand ∨ OwnRegist G it := by
  have hset : ∀ {u pc}, sv'.callback = Function.update sv.callback u pc →
      (∀ jt ∈ pc.hand, jt ∈ (sv.callback u).hand ∨ OwnRegist G jt) →
      it ∈ (sv.callback w).hand ∨ OwnRegist G it := by
    intro u pc heq hpc
    rw [heq, Function.update_apply] at hit
    split_ifs at hit with hwu
    · rw [hwu]
      exact hpc it hit
    · exact .inl hit
  cases hs with
  | accept | clock | returned | made | refused | broken | checkUnset | checkSet | storeGate
  | storeGame | sleep | process | processClose | idle | fetch | fetched | handledAll | reset | push
  | send => exact .inl hit
  | worker | setInitOk | registNull | callbackPush => exact hset rfl (by simp [CallbackPc.hand])
  | compare => exact hset rfl (by split_ifs <;> simp [CallbackPc.hand])
  | @regist u created junk a ok c node hp hc ha hn =>
    refine hset rfl fun jt hjt => ?_
    split_ifs at hjt
    · cases hjt
    · rw [CallbackPc.hand, List.mem_singleton] at hjt
      obtain ⟨cls, -, rfl⟩ := Option.map_eq_some_iff.mp hn
      rw [hjt]
      exact .inr ⟨rfl, _, rfl⟩
  | @callbackSend u created junk a ok jt v hp hc hv =>
    have hpc : ∀ kt ∈ (CallbackPc.push v jt).hand,
        kt ∈ (sv.callback u).hand ∨ OwnRegist G kt := by
      intro kt hkt
      left
      rw [hc]
      exact hkt
    exact hset rfl hpc
  | @connectGs u created =>
    cases created <;> exact hset rfl (by simp [CallbackPc.hand])
  | @init created => cases created <;> exact .inl hit
  | relay =>
    left
    unfold Server.relay at hit
    split_ifs at hit <;> exact hit
  | toGs =>
    left
    split_ifs at hit <;> exact hit

/-- What a server has sent: nodes of the class of their type, and of its own just registrations. -/
structure Proper (G : Generated Cls Msg) (sv : Server Cls Msg) : Prop where
  typed : ∀ it ∈ sv.net.pushes, Net.Typed G.toProtobuf sv.net.registry it.node
  own : ∀ it ∈ sv.net.pushes, it.src.conn = none → OwnRegist G it
  callback : ∀ w, ∀ it ∈ (sv.callback w).hand, OwnRegist G it

theorem Proper.step {m : Move} (h : sv.Proper G) (hcopied : sv.Copied)
    (htyped : ∀ {v it}, sv.Ready v it → Net.Typed G.toProtobuf sv.net.registry it.node)
    (hs : ServerStep G .gate sv m sv') : sv'.Proper G := by
  have hcallback : ∀ w, ∀ it ∈ (sv'.callback w).hand, OwnRegist G it := fun w it hit =>
    (hs.callback_hand hit).elim (h.callback w it) fun hown => hown
  rcases hs.net_ready with heq | ⟨a, ha, -, hsend⟩
  · exact ⟨heq ▸ h.typed, heq ▸ h.own, hcallback⟩
  · have hregistry : ∀ {n : MsgNode Msg}, Net.Typed G.toProtobuf sv.net.registry n →
        Net.Typed G.toProtobuf sv'.net.registry n := fun hn => Layer.step_registry_some ha hn
    have hpushes := Layer.step_pushes ha
    by_cases hno : ∀ v it, a ≠ .send v it
    · have hsame : sv'.net.pushes = sv.net.pushes := pushes_of_step ha hno
      exact ⟨fun it hit => hregistry (h.typed it (hsame ▸ hit)),
        fun it hit => h.own it (hsame ▸ hit), hcallback⟩
    · push Not at hno
      obtain ⟨v, it, rfl⟩ := hno
      change sv'.net.pushes = sv.net.pushes ++ [it] at hpushes
      have hready := hsend v it rfl
      refine ⟨fun jt hjt => ?_, fun jt hjt hnone => ?_, hcallback⟩
      · rw [hpushes] at hjt
        rcases List.mem_append.mp hjt with hjt | hjt
        · exact hregistry (h.typed jt hjt)
        · rw [List.mem_singleton.mp hjt]
          exact hregistry (htyped hready)
      · rw [hpushes] at hjt
        rcases List.mem_append.mp hjt with hjt | hjt
        · exact h.own jt hjt hnone
        · rw [List.mem_singleton.mp hjt] at hnone ⊢
          rcases hready with hl | ⟨w, hw⟩
          · have hsome := hcopied.hand it (by rw [hl]; exact List.mem_singleton_self it)
            rw [hnone] at hsome
            cases hsome
          · exact h.callback w it (by rw [hw]; exact List.mem_singleton_self it)

theorem proper_of_reach [DecidableEq Cls] (hG : G.KeepsClass)
    {C : Server Cls Msg → Move → Prop} (h : (serverSystem G .gate).Reach C sv) : sv.Proper G := by
  refine h.invariant_of (P := Proper G) ?_ fun sv m sv' hr hi _ hs => ?_
  · rintro sv ⟨threadNum, registry, clock, -, rfl⟩
    refine ⟨?_, ?_, ?_⟩
    · simp [start, Layer.start]
    · simp [start, Layer.start]
    · simp [start, CallbackPc.hand]
  · refine hi.step (copied_of_reach hr) (fun {v it} hready => ?_) (step_cases hs)
    have htyped := (typed_of_reach hG hr).hand
    rcases hready with hl | ⟨w, hw⟩
    · refine htyped 0 it.node ?_
      show it.node ∈ sv.logic.held.map Item.node
      rw [hl]
      exact List.mem_singleton_self _
    · refine htyped (w + 1) it.node ?_
      show it.node ∈ (sv.callback w).hand.map Item.node
      rw [hw]
      exact List.mem_singleton_self _

/-- Where a node that the gate sends is from. -/
inductive Origin (G : Generated Cls Msg) (sv : Server Cls Msg) (it : Item Msg) : Prop
  /-- The gate itself. -/
  | regist (h : OwnRegist G it)
  /-- A worker, which closed a connection. -/
  | notice {id} (hsrc : it.src = .notice id) (hclosed : (sv.net.life id).closed.isSome)
      (htype : it.node.msgType = 0)
      (hcli : it.role = .request → it.node.cliConn = (sv.net.life id).addr)
  /-- The `n`-th node in the bytes of a connection.  Whom it is for says its connection, or, of an
  answer, its header. -/
  | frame {id n o} (hsrc : it.src = .wire id n)
      (hdecoded : ((sv.net.life id).decoded.map Item.node)[n]? = some o)
      (hframe : HeadersOk (sv.net.life id).received →
        (streamNodes G.toProtobuf sv.net.registry (sv.net.life id).addr
          (sv.net.life id).received)[n]? = some o)
      (htype : it.node.msgType = o.msgType) (hdata : it.node.msgData = o.msgData)
      (hrequest : it.role = .request → it.node.cliConn = (sv.net.life id).addr)
      (hanswer : ∀ c, it.role = .answer c → it.node.cliConn = o.cliConn)

theorem Proper.origin (h : sv.Proper G) (hcopied : sv.Copied) (ho : sv.net.InOrder)
    (hheard : sv.net.Heard G) {it : Item Msg} (hit : it ∈ sv.net.pushes) : sv.Origin G it := by
  by_cases hsome : it.src.conn.isSome
  · have hrelayed : it ∈ sv.relayed := List.mem_append_left _ (List.mem_filter.mpr ⟨hit, hsome⟩)
    obtain ⟨o, hmem, hcopy⟩ := hcopied.copies it hrelayed
    have hout : o ∈ sv.net.output := List.mem_of_mem_take hmem
    have hsrc := hcopy.src
    cases ho' : o.src with
    | wire id n =>
      have hdecoded := ho.decoded_of_output hout ho'
      have hconn := ho.conn (List.mem_of_getElem? hdecoded)
      have hnode : ((sv.net.life id).decoded.map Item.node)[n]? = some o.node := by
        rw [List.getElem?_map, hdecoded]
        rfl
      refine .frame (hsrc ▸ ho') hnode (fun hok => ?_) hcopy.msgType hcopy.msgData
        (fun hrole => (hcopy.request hrole).trans hconn) fun c hrole => (hcopy.answer hrole).1
      rcases hheard.decoded id with hp | ⟨hbad, -⟩
      · obtain ⟨t, ht⟩ := hp
        rw [← ht, List.getElem?_append_left (List.getElem?_eq_some_iff.mp hnode).1, hnode]
      · exact absurd hok hbad
    | notice id =>
      obtain ⟨⟨-, htype, hconn⟩, hclosed⟩ := ho.isNotice hout ho'
      exact .notice (hsrc ▸ ho') hclosed (hcopy.msgType.trans htype)
        fun hrole => (hcopy.request hrole).trans hconn
    | regist id =>
      rw [← hsrc, ho'] at hsome
      cases hsome
  · exact .regist (h.own it hit (by simpa using hsome))

end Server

/-! ### The two servers -/

/-- The gate, the game server, and what the socket of the gate's end has taken. -/
structure Cluster (Cls Msg : Type*) where
  gate : Server Cls Msg
  game : Server Cls Msg
  taken : List UInt8

/-- A move of one of the servers. -/
inductive ClusterMove
  | gate (m : Move)
  | game (m : Move)
deriving DecidableEq, Repr

namespace Cluster

/-- One step, with the gate's connection at `b` and the game server's incarnation `j`: the game
server receives nothing that the gate's socket has not taken. -/
def step (G : Generated Cls Msg) (b : Addr) (j : ℕ) (c : Cluster Cls Msg) :
    ClusterMove → Option (Cluster Cls Msg)
  | .gate m =>
      (c.gate.step G .gate m).map fun sv =>
        { c with gate := sv, taken := ((sv.net.heap b).map Connection.sent).getD c.taken }
  | .game m =>
      (c.game.step G .game m).bind fun sv =>
        if (sv.net.life j).received <+: c.taken then some { c with game := sv } else none

/-- The gate uses no address twice, and what a read gives the game server and its read buffer has
are at most `INT_MAX` bytes. -/
def Steady (G : Generated Cls Msg) (j : ℕ) (c : Cluster Cls Msg) : ClusterMove → Prop
  | .gate m => c.gate.NoReuse m
  | .game m => ∀ sv ∈ c.game.step G .game m,
      ∀ d ∈ c.game.net.heap (c.game.net.life j).addr,
        d.readBuffer.length + (sv.net.life j).received.length ≤
          intMax + (c.game.net.life j).received.length

instance (G : Generated Cls Msg) (j : ℕ) (c : Cluster Cls Msg) (x : ClusterMove) :
    Decidable (c.Steady G j x) :=
  match x with
  | .gate m => inferInstanceAs (Decidable (c.gate.NoReuse m))
  | .game m =>
      have (sv : Server Cls Msg) : Decidable (∀ d ∈ c.game.net.heap (c.game.net.life j).addr,
          d.readBuffer.length + (sv.net.life j).received.length ≤
            intMax + (c.game.net.life j).received.length) :=
        Option.decidableForallMem _
      Option.decidableForallMem (c.game.step G .game m)

/-- The net layers and what is between them. -/
def wire (c : Cluster Cls Msg) : Wire Cls Msg := ⟨⟨c.gate.net, []⟩, c.game.net, c.taken⟩

end Cluster

/-- The runs of the two servers, whose registries `protocol_init` has made the same. -/
def clusterSystem (G : Generated Cls Msg) (b : Addr) (j : ℕ) :
    Lts (Cluster Cls Msg) ClusterMove where
  init c := (serverSystem G .gate).init c.gate ∧ (serverSystem G .game).init c.game ∧
    c.gate.net.registry = c.game.net.registry ∧ c.taken = []
  step c x := c.step G b j x

namespace Cluster

variable {G : Generated Cls Msg} {b : Addr} {j : ℕ} {c c' : Cluster Cls Msg}

/-- What is known of the two servers in every run. -/
structure Joined (G : Generated Cls Msg) (b : Addr) (j : ℕ) (c : Cluster Cls Msg) : Prop where
  gate : (serverSystem G .gate).Reach Server.NoReuse c.gate
  game : (serverSystem G .game).Reach Lts.Free c.game
  registry : c.gate.net.registry = c.game.net.registry
  carries : c.wire.Carries G b j

/-- No server registers a type. -/
theorem registry_of_step {k : Kind} {sv sv' : Server Cls Msg} {m : Move}
    (hs : sv.step G k m = some sv') : sv'.net.registry = sv.net.registry := by
  rcases (Server.step_cases hs).net_regist with heq | ⟨a, ha, hno⟩
  · rw [heq]
  · exact Layer.step_registry ha hno

theorem Joined.gateStep {m : Move} {sv : Server Cls Msg} (h : c.Joined G b j)
    (hc : c.gate.NoReuse m) (hs : c.gate.step G .gate m = some sv) : Joined G b j
      { c with gate := sv, taken := ((sv.net.heap b).map Connection.sent).getD c.taken } := by
  have hreach : (serverSystem G .gate).Reach Server.NoReuse sv := .next h.gate hc hs
  have hpushes : ∃ l, sv.net.pushes = c.gate.net.pushes ++ l := by
    rcases (Server.step_cases hs).net with heq | ⟨a, ha⟩
    · exact ⟨[], by rw [heq, List.append_nil]⟩
    · exact ⟨_, Layer.step_pushes ha⟩
  obtain ⟨l, hl⟩ := hpushes
  refine ⟨hreach, h.game, (registry_of_step hs).trans h.registry, ?_⟩
  refine Wire.Carries.sender (p := ⟨sv.net, []⟩) h.carries (Server.sends_of_reach hreach).streams
    (l := (itemsFor b l).map Item.node) ?_
  show (itemsFor b sv.net.pushes).map Item.node = _
  rw [hl, itemsFor_append, List.map_append]
  rfl

theorem Joined.gameStep {m : Move} {sv : Server Cls Msg} (h : c.Joined G b j)
    (hc : c.Steady G j (.game m)) (hs : c.game.step G .game m = some sv)
    (hreceived : (sv.net.life j).received <+: c.taken) :
    Joined G b j { c with game := sv } := by
  refine ⟨h.gate, .next h.game trivial hs, h.registry.trans (registry_of_step hs).symm, ?_⟩
  rcases (Server.step_cases hs).net_regist with heq | ⟨a, ha, hno⟩
  · have hwire : ({ c with game := sv } : Cluster Cls Msg).wire = c.wire := by
      rw [wire, heq]
      rfl
    rw [hwire]
    exact h.carries
  · obtain ⟨hw, -, ho⟩ := inOrder_of_reach (net_of_reach h.game)
    refine h.carries.receiver hw ho ⟨hno, fun s hstep d hd => ?_⟩ ha hreceived
    have hsame : s = sv.net := Option.some.inj (hstep.symm.trans ha)
    rw [hsame]
    exact hc sv hs d hd

theorem joined_of_reach (h : (clusterSystem G b j).Reach (Steady G j) c) : c.Joined G b j := by
  refine h.invariant_of (P := Joined G b j) ?_ fun c x c' _ hi hc hs => ?_
  · rintro c ⟨hgate, hgame, hregistry, htaken⟩
    have hgate' : (serverSystem G .gate).Reach Server.NoReuse c.gate := .start hgate
    have hgame' : (serverSystem G .game).Reach Lts.Free c.game := .start hgame
    obtain ⟨n, reg, clock, -, hg⟩ := hgate
    obtain ⟨n', reg', clock', -, hd⟩ := hgame
    refine ⟨hgate', hgame', hregistry, Wire.carries_start ⟨n, reg, clock, ?_⟩
      ⟨n', reg', clock', ?_⟩ htaken⟩
    · show c.gate.net = _
      rw [hg]
      rfl
    · show c.game.net = _
      rw [hd]
      rfl
  · cases x with
    | gate m =>
      obtain ⟨sv, hsv, rfl⟩ := Option.map_eq_some_iff.mp hs
      exact hi.gateStep hc hsv
    | game m =>
      obtain ⟨sv, hsv, hs⟩ := Option.bind_eq_some_iff.mp hs
      simp only [Option.ite_none_right_eq_some, Option.some.injEq] at hs
      obtain ⟨hreceived, rfl⟩ := hs
      exact hi.gameStep hc hsv hreceived

/-! ### What the game server handles -/

/-- The nodes of the gate's connection that `logic_update` of the game server has handled. -/
def handled (c : Cluster Cls Msg) (j : ℕ) : List (MsgNode Msg) :=
  ((itemsOf j c.game.processed).filter fun it => it.src ≠ .notice j).map Item.node

/-- `l` is what the gate has sent of the nodes that the game server has handled. -/
structure Serves (G : Generated Cls Msg) (b : Addr) (j : ℕ) (c : Cluster Cls Msg)
    (l : List (Item Msg)) : Prop where
  sent : l <+: itemsFor b c.gate.net.pushes
  /-- Each once, and unchanged but for `msg_conn_`. -/
  handled : c.handled j = l.map fun it => { it.node with msgConn := (c.game.net.life j).addr }
  origin : ∀ it ∈ l, c.gate.Origin G it
  /-- In the order in which the gate's logic thread took them. -/
  order : ((l.filter fun it => it.src.conn.isSome).map Item.src).Sublist
    (c.gate.processed.map Item.src)
  once : ∀ id n, (l.map Item.src).count (.wire id n) ≤ 1
  /-- None is left out in the end, but for a last message that serialises to no bytes: its frame is a
  bare header, which `message_format` leaves in the buffer. -/
  whole : c.wire.Still b j →
    (∀ it ∈ (itemsFor b c.gate.net.pushes).getLast?, G.serializeToArray it.node.msgData ≠ []) →
    (c.game.net.life j).decoded.map Item.node = (itemsFor b c.gate.net.pushes).map fun it =>
      { it.node with msgConn := (c.game.net.life j).addr }

/-- What the gate's connections decoded is in their bytes. -/
theorem heard_of_reach {k : Kind} {C : Server Cls Msg → Move → Prop} {sv : Server Cls Msg}
    (h : (serverSystem G k).Reach C sv) : sv.net.Heard G := by
  refine h.invariant_of (P := fun sv => sv.net.Heard G) ?_ fun sv m sv' hr hi _ hs => ?_
  · rintro sv ⟨threadNum, registry, clock, -, rfl⟩
    exact Layer.heard_start ..
  · obtain ⟨hw, -, ho⟩ := inOrder_of_reach (net_of_reach hr)
    rcases (Server.step_cases hs).net_regist with heq | ⟨a, ha, hno⟩
    · rw [heq]
      exact hi
    · exact hi.step hw ho ha hno

/-- What was handled is a front of what was output. -/
theorem handled_output (c : Cluster Cls Msg) (j : ℕ) : c.handled j <+: c.wire.output j := by
  have hprocessed : c.game.processed <+: c.game.net.output := List.take_prefix _ _
  exact ((hprocessed.filter _).filter _).map _

theorem Joined.serves [DecidableEq Cls] (h : c.Joined G b j) (hpb : G.toProtobuf.Lawful)
    (hG : G.KeepsClass) (hlen : ∀ it ∈ itemsFor b c.gate.net.pushes,
      ((encodeNode G.toProtobuf it.node).length : ℤ) ≤ intMax) : ∃ l, c.Serves G b j l := by
  obtain ⟨-, -, ho⟩ := inOrder_of_reach (net_of_reach h.gate)
  obtain ⟨-, -, ho'⟩ := inOrder_of_reach (net_of_reach h.game)
  have hcopied := copied_of_reach h.gate
  have hproper := Server.proper_of_reach hG h.gate
  -- every node sent has the class that the game server has for its type
  have htyped : ∀ it ∈ itemsFor b c.gate.net.pushes,
      c.game.net.registry it.node.msgType = some (G.clsOf it.node.msgData) := by
    intro it hit
    rw [← h.registry]
    exact hproper.typed it (List.mem_of_mem_filter hit)
  have hfits : ∀ m ∈ c.wire.given b, Fits G.toProtobuf c.wire.receiver.registry m := by
    intro m hm
    obtain ⟨it, hit, rfl⟩ := List.mem_map.mp hm
    exact ⟨hlen it hit, fun cls hcls => Option.some.inj (hcls.symm.trans (htyped it hit))⟩
  have harrive : (c.wire.given b).filterMap
      (arriving c.wire.receiver.registry (c.wire.receiver.life j).addr) =
        (itemsFor b c.gate.net.pushes).map fun it =>
          { it.node with msgConn := (c.game.net.life j).addr } := by
    rw [Wire.given, List.filterMap_map, ← List.filterMap_eq_map]
    refine List.filterMap_congr fun it hit => ?_
    show (c.game.net.registry it.node.msgType).map _ = _
    rw [htyped it hit]
    rfl
  have hcarried := h.carries.carried hpb ho' (Server.sends_of_reach h.gate).streams hfits
  have hfront := (handled_output c j).trans hcarried.order
  rw [harrive] at hfront
  have hsent : ((itemsFor b c.gate.net.pushes).take (c.handled j).length).Sublist
      c.gate.net.pushes := (List.take_sublist _ _).trans List.filter_sublist
  refine ⟨(itemsFor b c.gate.net.pushes).take (c.handled j).length, ?_, ?_, ?_, ?_, ?_, ?_⟩
  · exact List.take_prefix _ _
  · rw [List.map_take]
    exact List.prefix_iff_eq_take.mp hfront
  · intro it hit
    exact hproper.origin hcopied ho (heard_of_reach h.gate) (hsent.subset hit)
  · refine List.Sublist.trans ?_ hcopied.order
    exact ((hsent.filter _).trans (List.sublist_append_left _ _)).map _
  · exact fun id n => ((hsent.map _).count_le _).trans (hcopied.once ho)
  · intro hstill hlast
    rw [← harrive]
    refine hcarried.complete hstill fun m hm => ?_
    rw [Wire.given, List.getLast?_map] at hm
    obtain ⟨it, hit, rfl⟩ := Option.map_eq_some_iff.mp hm
    exact hlast it hit

end Cluster

/-- **From a client to the game server.**  In every steady run of the two servers, whatever their
threads do, the nodes of the gate's connection that the game server handles are the first of those
the gate sent on it, in order, once and unchanged; and each is the gate's own registration, its
notice that a connection is gone, or a node of the bytes of one of its connections, under that
connection's address. -/
theorem serves_of_reach [DecidableEq Cls] {G : Generated Cls Msg} {b : Addr} {j : ℕ}
    {c : Cluster Cls Msg} (hpb : G.toProtobuf.Lawful) (hG : G.KeepsClass)
    (h : (clusterSystem G b j).Reach (Cluster.Steady G j) c)
    (hlen : ∀ it ∈ itemsFor b c.gate.net.pushes,
      ((encodeNode G.toProtobuf it.node).length : ℤ) ≤ intMax) : ∃ l, c.Serves G b j l :=
  (Cluster.joined_of_reach h).serves hpb hG hlen

/-- The two servers before a run. -/
def clusterStart : Cluster Protocol.MsgClass Protocol.Message where
  gate := relayStart.1
  game := .start .game (.start 1 Protocol.registry 0)
  taken := []

/-- Steps of the one worker. -/
def onWorker (es : List WorkerAct) : List Move := es.map (.worker 0)

/-- A client registers at the gate with the id 5, the gate sends that on behind its own
registration, and the game server hangs up. -/
def refusedClient : List ClusterMove :=
  let bytes := encodeNode Protocol.protobuf ⟨20001, 0, ⟨.registReq, some 33⟩, 0⟩ ++
    encodeNode Protocol.protobuf ⟨20001, 32, ⟨.registReq, some 5⟩, 0⟩
  let gate : List Move := clientSends forgedFrame ++
    onWorker (List.replicate 8 .go) ++ onWorker [.read (.again true)] ++
    onWorker (List.replicate 21 .go) ++ onWorker [.writeEvent 16, .write (.wrote 36)]
  let game : List Move := .logic false none :: .accept true :: onWorker (List.replicate 5 .go) ++
    onWorker [.notified true 48, .readEvent 48, .read (.data bytes ⟨[bytes]⟩)] ++
    onWorker (List.replicate 10 .go) ++ List.replicate 5 (.logic true none)
  gate.map .gate ++ game.map .game

theorem clusterStart_init (b : Addr) (j : ℕ) :
    (clusterSystem Protocol.generated b j).init clusterStart :=
  ⟨⟨1, Protocol.registry, 0, by decide, rfl⟩, ⟨1, Protocol.registry, 0, by decide, rfl⟩, rfl, rfl⟩

theorem serves_refusedClient : ∃ c l,
    (clusterSystem Protocol.generated 16 0).exec clusterStart refusedClient = some c ∧
      c.handled 0 = [⟨20001, 0, ⟨.registReq, some 33⟩, 48⟩, ⟨20001, 32, ⟨.registReq, some 5⟩, 48⟩] ∧
      c.Serves Protocol.generated 16 0 l := by
  obtain ⟨c, hc, hhandled, hlen⟩ : ∃ c ∈
      (clusterSystem Protocol.generated 16 0).exec clusterStart refusedClient,
      c.handled 0 = [⟨20001, 0, ⟨.registReq, some 33⟩, 48⟩, ⟨20001, 32, ⟨.registReq, some 5⟩, 48⟩] ∧
        ∀ it ∈ itemsFor 16 c.gate.net.pushes,
          ((encodeNode Protocol.protobuf it.node).length : ℤ) ≤ intMax := by
    decide +kernel
  have hsteps : (clusterSystem Protocol.generated 16 0).AllSteps
      (Cluster.Steady Protocol.generated 0) clusterStart refusedClient := by
    decide +kernel
  obtain ⟨l, hl⟩ := serves_of_reach (j := 0) Protocol.protobuf_lawful keepsClass_generated
    (.of_exec (.start (clusterStart_init 16 0)) hsteps hc) hlen
  exact ⟨c, l, hc, hhandled, hl⟩

/-! ### What the game server makes of it -/

/-- `process_Regist_req` of the game server hangs up for this node. -/
def Refused (G : Generated Cls Msg) (n : MsgNode Msg) : Prop :=
  n.msgType = Protocol.messageRegistReq ∧ G.myId n.msgData &&& gateServer ≠ gateServer

/-- A connection of the server has decoded such a node. -/
def Server.Received (sv : Server Cls Msg) (P : MsgNode Msg → Prop) : Prop :=
  ∃ id, ∃ it ∈ (sv.net.life id).decoded, P it.node

namespace Cluster

variable {G : Generated Cls Msg} {b : Addr} {j : ℕ} {c : Cluster Cls Msg}

/-- **What the game server does about the gate**: each id that it registers for the gate's
connection, the gate's own apart, and each registration for which it hangs up on it, came in at the
gate with the same type and data. -/
structure Told (G : Generated Cls Msg) (j : ℕ) (c : Cluster Cls Msg) : Prop where
  entry : ∀ {id e}, c.game.connectionsToMe G id = some e → e.id = some j →
    id = Kind.gate.myId ∨
      c.gate.Received fun o => o.msgType = Protocol.messageRegistReq ∧ G.myId o.msgData = id
  refused : ∀ n ∈ c.handled j, Refused G n →
    c.gate.Received fun o => o.msgType = n.msgType ∧ o.msgData = n.msgData

/-- A registration that the game server handles is the gate's, or was received by the gate. -/
theorem Serves.regist {l : List (Item Msg)} (h : c.Serves G b j l)
    (hid : ∀ m v, G.myId (G.setMyId m v) = v) {n : MsgNode Msg} (hn : n ∈ c.handled j)
    (htype : n.msgType = Protocol.messageRegistReq) : G.myId n.msgData = Kind.gate.myId ∨
      c.gate.Received fun o => o.msgType = n.msgType ∧ o.msgData = n.msgData := by
  rw [h.handled] at hn
  obtain ⟨it, hit, rfl⟩ := List.mem_map.mp hn
  cases h.origin it hit with
  | regist hown =>
    obtain ⟨-, m, hm⟩ := hown
    left
    show G.myId it.node.msgData = _
    rw [hm, hid]
  | notice _ _ hzero =>
    change it.node.msgType = _ at htype
    rw [hzero] at htype
    exact absurd htype (by decide)
  | @frame id k o _ hdecoded _ hty hdata =>
    rw [List.getElem?_map] at hdecoded
    obtain ⟨ot, hot, rfl⟩ := Option.map_eq_some_iff.mp hdecoded
    exact .inr ⟨id, ot, List.mem_of_getElem? hot, hty.symm, hdata.symm⟩

/-- An entry was made by a node that was handled. -/
theorem exists_of_entry {its : List (Item Msg)} {id : Int32} {e : Entry}
    (he : connectionsToMe G its id = some e) :
    ∃ it ∈ its, Registers G it id ∧ e = ⟨it.node.msgConn, it.src.conn⟩ := by
  induction its using List.reverseRecOn with
  | nil => cases he
  | append_singleton its it ih =>
    rw [connectionsToMe_concat, messageProcess_eq] at he
    split_ifs at he with hreg
    · exact ⟨it, by simp, hreg.1, (Option.some.inj he).symm⟩
    · obtain ⟨jt, hjt, hrest⟩ := ih he
      exact ⟨jt, List.mem_append_left _ hjt, hrest⟩

theorem Serves.told {l : List (Item Msg)} (h : c.Serves G b j l)
    (hid : ∀ m v, G.myId (G.setMyId m v) = v) (ho : c.game.net.InOrder) : c.Told G j := by
  refine ⟨fun {id e} he hj => ?_, fun n hn hrefused => ?_⟩
  · obtain ⟨it, hit, ⟨htype, hmyId, -⟩, rfl⟩ := exists_of_entry he
    have hnotice : it.src ≠ .notice j := by
      intro hsrc
      have hzero := (ho.isNotice (List.mem_of_mem_take hit) hsrc).1.2.1
      rw [htype] at hzero
      exact absurd hzero (by decide)
    have hhandled : it.node ∈ c.handled j := by
      refine List.mem_map_of_mem (List.mem_filter.mpr ⟨mem_itemsOf.mpr ⟨hit, hj⟩, ?_⟩)
      simpa using hnotice
    rcases h.regist hid hhandled htype with hown | ⟨i, ot, hot, hty, hdata⟩
    · exact .inl (hmyId.symm.trans hown)
    · exact .inr ⟨i, ot, hot, hty.trans htype, hdata ▸ hmyId⟩
  · rcases h.regist hid hn hrefused.1 with hown | hreceived
    · -- the gate's own number is a gate's
      have hgate := hrefused.2
      rw [hown] at hgate
      exact absurd (by decide) hgate
    · exact hreceived

end Cluster

/-- **The game server takes the gate for whom its clients say**, in every steady run of the two: it
registers no other id for the gate's connection, and hangs up on it for nothing else, than what came
in at the gate, the gate's own registration apart. -/
theorem told_of_reach [DecidableEq Cls] {G : Generated Cls Msg} {b : Addr} {j : ℕ}
    {c : Cluster Cls Msg} (hpb : G.toProtobuf.Lawful) (hG : G.KeepsClass)
    (hid : ∀ m v, G.myId (G.setMyId m v) = v)
    (h : (clusterSystem G b j).Reach (Cluster.Steady G j) c)
    (hlen : ∀ it ∈ itemsFor b c.gate.net.pushes,
      ((encodeNode G.toProtobuf it.node).length : ℤ) ≤ intMax) : c.Told G j := by
  have hjoined := Cluster.joined_of_reach h
  obtain ⟨-, -, ho⟩ := inOrder_of_reach (net_of_reach hjoined.game)
  obtain ⟨l, hl⟩ := hjoined.serves hpb hG hlen
  exact hl.told hid ho

/-- One client has cut off the gate, and with it all others. -/
theorem told_refusedClient : ∃ c,
    (clusterSystem Protocol.generated 16 0).exec clusterStart refusedClient = some c ∧
      (c.game.net.heap 48).map Connection.state = some .close ∧
      c.Told Protocol.generated 0 := by
  obtain ⟨c, hc, hstate, hlen⟩ : ∃ c ∈
      (clusterSystem Protocol.generated 16 0).exec clusterStart refusedClient,
      (c.game.net.heap 48).map Connection.state = some .close ∧
        ∀ it ∈ itemsFor 16 c.gate.net.pushes,
          ((encodeNode Protocol.protobuf it.node).length : ℤ) ≤ intMax := by
    decide +kernel
  have hsteps : (clusterSystem Protocol.generated 16 0).AllSteps
      (Cluster.Steady Protocol.generated 0) clusterStart refusedClient := by
    decide +kernel
  refine ⟨c, hc, hstate, told_of_reach (b := 16) Protocol.protobuf_lawful keepsClass_generated
    (fun _ _ => rfl) (.of_exec (.start (clusterStart_init 16 0)) hsteps hc) hlen⟩

end GoFight.Link
