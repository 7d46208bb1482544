import GoFight.Link.Server
import GoFight.Net.Order

/-!
# What a server can do in a step

The threads of a server once more, as a list of cases, and the net layer's share of a step.

* `ServerStep` — the cases, `step_cases` — every step is one of them;
* `ServerStep.net` — a step leaves the net layer alone or is one step of it;
* `net_of_reach` — so the runs of a server are runs of the net layer.
-/

namespace GoFight.Link

open GoFight.Lib GoFight.Net

variable {Cls Msg : Type*}

/-- The node the logic thread is about to send. -/
def LogicPc.hand : LogicPc Msg → List (Item Msg)
  | .toGs it => [it]
  | .send it => [it]
  | .push _ it => [it]
  | _ => []

/-- The node the logic thread has not let go: about to be sent or, behind the reset, freed. -/
def LogicPc.held : LogicPc Msg → List (Item Msg)
  | .reset it => [it]
  | pc => pc.hand

/-- The node a worker is about to send in the callback. -/
def CallbackPc.hand : CallbackPc Msg → List (Item Msg)
  | .send it => [it]
  | .push _ it => [it]
  | _ => []

namespace Server

variable (G : Generated Cls Msg) (k : Kind)

/-- The incarnation at an address, as a list. -/
def idAt (sv : Server Cls Msg) (a : Addr) : List ℕ := ((sv.net.heap a).map Connection.id).toList

/-- `sv'` is `sv` after the move. -/
inductive ServerStep (sv : Server Cls Msg) : Move → Server Cls Msg → Prop
  | accept {written net} (h : sv.net.step G (.accept written) = some net) :
      ServerStep sv (.accept written) (sv.setNet net)
  | clock {t net} (h : sv.net.step G (.clock t) = some net) :
      ServerStep sv (.clock t) (sv.setNet net)
  | worker {w e net} (hp : ∀ a ok, (sv.net.worker w).phase ≠ .callback a ok)
      (h : sv.net.step G (.worker w e) = some net) :
      ServerStep sv (.worker w e) ((sv.setNet net).setCallback w .compare)
  | returned {w e a ok net} (hp : (sv.net.worker w).phase = .callback a ok)
      (hc : sv.callback w = .done) (h : sv.net.step G (.worker w e) = some net) :
      ServerStep sv (.worker w e)
        { sv.setNet net with returned := sv.returned ++ if ok then sv.idAt a else [] }
  | compare {w created junk a ok} (hp : (sv.net.worker w).phase = .callback a ok)
      (hc : sv.callback w = .compare) : ServerStep sv (.callback w created junk) (sv.setCallback w
        (if a = sv.upstream then (if ok then .setInitOk else .connectGs) else .done))
  | setInitOk {w created junk a ok} (hp : (sv.net.worker w).phase = .callback a ok)
      (hc : sv.callback w = .setInitOk) :
      ServerStep sv (.callback w created junk) ({ sv with initOk := true }.setCallback w .regist)
  | registNull {w created junk a ok} (hp : (sv.net.worker w).phase = .callback a ok)
      (hc : sv.callback w = .regist)
      (hn : sv.net.registry Protocol.messageRegistReq = none) :
      ServerStep sv (.callback w created junk) (sv.setCallback w .done)
  | regist {w created junk a ok c node} (hp : (sv.net.worker w).phase = .callback a ok)
      (hc : sv.callback w = .regist) (ha : sv.net.heap a = some c)
      (hn : getMsgnode G.toProtobuf sv.net.registry junk Protocol.messageRegistReq = some node) :
      ServerStep sv (.callback w created junk) (sv.setCallback w
        (if sv.upstream = 0 then .done else .send (sv.registNode G k node c.id)))
  | callbackSend {w created junk a ok it v} (hp : (sv.net.worker w).phase = .callback a ok)
      (hc : sv.callback w = .send it) (hv : sv.tdOf it.node.msgConn = some v) :
      ServerStep sv (.callback w created junk) (sv.setCallback w (.push v it))
  | callbackPush {w created junk a ok it v net} (hp : (sv.net.worker w).phase = .callback a ok)
      (hc : sv.callback w = .push v it) (h : sv.net.step G (.send v it) = some net) :
      ServerStep sv (.callback w created junk) ((sv.setNet net).setCallback w .done)
  | connectGs {w created junk a ok} (hp : (sv.net.worker w).phase = .callback a ok)
      (hc : sv.callback w = .connectGs) : ServerStep sv (.callback w created junk)
        ((if created then sv.createWorker k else sv).setCallback w .done)
  | checkUnset {i r} (hi : sv.threads[i]? = some .check) (h : sv.upstream = 0) :
      ServerStep sv (.connect i r) (sv.setThread i .connect)
  | checkSet {i r} (hi : sv.threads[i]? = some .check) (h : sv.upstream ≠ 0) :
      ServerStep sv (.connect i r) (sv.endThread i)
  | refused {i} (hi : sv.threads[i]? = some .connect) :
      ServerStep sv (.connect i .refused) (sv.setThread i (.store 0))
  | broken {i} (hi : sv.threads[i]? = some .connect) :
      ServerStep sv (.connect i .broken) (sv.setThread i (.store (-1)))
  | made {i a net} (hi : sv.threads[i]? = some .connect)
      (h : sv.net.step G (.connect a) = some net) :
      ServerStep sv (.connect i (.made a)) ((sv.setNet net).setThread i (.store a))
  | storeGate {i r v} (hk : k = .gate) (hi : sv.threads[i]? = some (.store v)) :
      ServerStep sv (.connect i r) ({ sv with upstream := v }.setThread i .sleep)
  | storeGame {i r v} (hk : k = .game) (hi : sv.threads[i]? = some (.store v)) :
      ServerStep sv (.connect i r) ({ sv with upstream := v }.endThread i)
  | sleep {i r} (hi : sv.threads[i]? = some .sleep) :
      ServerStep sv (.connect i r) (sv.setThread i .check)
  | init {created r} (hl : sv.logic = .init) :
      ServerStep sv (.logic created r) (sv.initConfig k created)
  | idle {created r} (hl : sv.logic = .idle) (hi : sv.initOk = true) :
      ServerStep sv (.logic created r) (sv.setLogic (.fetch 0))
  | fetch {created r i net} (hl : sv.logic = .fetch i)
      (h : sv.net.step G (.getMsgs i) = some net) :
      ServerStep sv (.logic created r) ((sv.setNet net).setLogic (.fetch (i + 1)))
  | fetched {created r i} (hl : sv.logic = .fetch i) :
      ServerStep sv (.logic created r) (sv.setLogic .handle)
  | handledAll {created r} (hl : sv.logic = .handle) :
      ServerStep sv (.logic created r) (sv.setLogic .idle)
  | relay {created r it} (hk : k = .gate) (hl : sv.logic = .handle)
      (hit : sv.net.output[sv.handled]? = some it) :
      ServerStep sv (.logic created r) ({ sv with handled := sv.handled + 1 }.relay it r)
  | process {created r it} (hk : k = .game) (hl : sv.logic = .handle)
      (hit : sv.net.output[sv.handled]? = some it) :
      ServerStep sv (.logic created r) { sv with handled := sv.handled + 1 }
  | processClose {created r it net} (hk : k = .game) (hl : sv.logic = .handle)
      (hit : sv.net.output[sv.handled]? = some it)
      (h : sv.net.step G (.close it.node.msgConn) = some net) :
      ServerStep sv (.logic created r) ({ sv with handled := sv.handled + 1 }.setNet net)
  | reset {created r it} (hl : sv.logic = .reset it) :
      ServerStep sv (.logic created r) ({ sv with upstream := 0 }.setLogic .handle)
  | toGs {created r it} (hl : sv.logic = .toGs it) :
      ServerStep sv (.logic created r)
        (if it.node.msgConn = 0 ∨ sv.upstream = 0 then sv.setLogic .handle
        else sv.setLogic (.send { it with node := { it.node with msgConn := sv.upstream } }))
  | send {created r it v} (hl : sv.logic = .send it) (hv : sv.tdOf it.node.msgConn = some v) :
      ServerStep sv (.logic created r) (sv.setLogic (.push v it))
  | push {created r it v net} (hl : sv.logic = .push v it)
      (h : sv.net.step G (.send v it) = some net) :
      ServerStep sv (.logic created r) ((sv.setNet net).setLogic .handle)

variable {G k} {sv sv' : Server Cls Msg}

theorem setCallback_callback (sv : Server Cls Msg) (w v : ℕ) (pc : CallbackPc Msg) :
    (sv.setCallback w pc).callback v = if v = w then pc else sv.callback v :=
  Function.update_apply ..

theorem connectStep_cases {i : ℕ} {r : ConnectResult} (h : sv.connectStep G k i r = some sv') :
    ServerStep G k sv (.connect i r) sv' := by
  unfold connectStep at h
  split at h
  case h_1 => cases h
  case h_2 hi =>
    cases h
    split
    · next hu => exact .checkUnset hi hu
    · next hu => exact .checkSet hi hu
  case h_3 hi =>
    cases r with
    | refused => cases h; exact .refused hi
    | broken => cases h; exact .broken hi
    | made a =>
      obtain ⟨net, hnet, rfl⟩ := Option.map_eq_some_iff.mp h
      exact .made hi hnet
  case h_4 hi =>
    cases k with
    | gate => cases h; exact .storeGate rfl hi
    | game => cases h; exact .storeGame rfl hi
  case h_5 hi => cases h; exact .sleep hi

theorem callbackStep_cases {w : ℕ} {created : Bool} {junk : UInt64}
    (h : sv.callbackStep G k w created junk = some sv') :
    ServerStep G k sv (.callback w created junk) sv' := by
  unfold callbackStep at h
  split at h
  case h_1 hp hc => cases h; exact .compare hp hc
  case h_2 hp hc => cases h; exact .setInitOk hp hc
  case h_3 hp hc =>
    obtain ⟨c, ha, h⟩ := Option.map_eq_some_iff.mp h
    split at h
    · next hn =>
      cases h
      exact .registNull hp hc (Option.map_eq_none_iff.mp hn)
    · next hn => cases h; exact .regist hp hc ha hn
  case h_4 hp hc =>
    obtain ⟨v, hv, rfl⟩ := Option.map_eq_some_iff.mp h
    exact .callbackSend hp hc hv
  case h_5 hp hc =>
    obtain ⟨net, hnet, rfl⟩ := Option.map_eq_some_iff.mp h
    exact .callbackPush hp hc hnet
  case h_6 hp hc => cases h; exact .connectGs hp hc
  case h_7 => cases h

theorem workerStep_cases {w : ℕ} {e : WorkerAct} (h : sv.workerStep G w e = some sv') :
    ServerStep G k sv (.worker w e) sv' := by
  unfold workerStep at h
  split at h
  case h_1 hp hc =>
    obtain ⟨net, hnet, rfl⟩ := Option.map_eq_some_iff.mp h
    exact .returned hp hc hnet
  case h_2 => cases h
  case h_3 hcall _ =>
    obtain ⟨net, hnet, rfl⟩ := Option.map_eq_some_iff.mp h
    exact .worker (fun a ok hp => hcall a ok hp) hnet

theorem logicStep_cases {created : Bool} {r : Option ℕ}
    (h : sv.logicStep G k created r = some sv') : ServerStep G k sv (.logic created r) sv' := by
  unfold logicStep at h
  split at h
  case h_1 hl => cases h; exact .init hl
  case h_2 hl =>
    split at h
    · next hi => cases h; exact .idle hl hi
    · cases h
  case h_3 hl =>
    split at h
    · obtain ⟨net, hnet, rfl⟩ := Option.map_eq_some_iff.mp h
      exact .fetch hl hnet
    · cases h; exact .fetched hl
  case h_4 hl =>
    split at h
    · cases h; exact .handledAll hl
    · next it hit =>
      cases k with
      | gate => cases h; exact .relay rfl hl hit
      | game =>
        dsimp only [messageProcess] at h
        split at h
        · obtain ⟨net, hnet, rfl⟩ := Option.map_eq_some_iff.mp h
          exact .processClose rfl hl hit hnet
        · cases h; exact .process rfl hl hit
  case h_5 hl => cases h; exact .reset hl
  case h_6 hl => cases h; exact .toGs hl
  case h_7 hl =>
    obtain ⟨v, hv, rfl⟩ := Option.map_eq_some_iff.mp h
    exact .send hl hv
  case h_8 hl =>
    obtain ⟨net, hnet, rfl⟩ := Option.map_eq_some_iff.mp h
    exact .push hl hnet

/-- **Every step.** -/
theorem step_cases {m : Move} (h : sv.step G k m = some sv') : ServerStep G k sv m sv' := by
  cases m with
  | accept written =>
    obtain ⟨net, hnet, rfl⟩ := Option.map_eq_some_iff.mp h
    exact .accept hnet
  | clock t =>
    change (sv.net.step G (.clock t)).map sv.setNet = some sv' at h
    obtain ⟨net, hnet, rfl⟩ := Option.map_eq_some_iff.mp h
    exact .clock hnet
  | worker w e => exact workerStep_cases h
  | callback w created junk => exact callbackStep_cases h
  | connect i r => exact connectStep_cases h
  | logic created r => exact logicStep_cases h

/-! ### The net layer's share -/

/-- A step leaves the net layer alone or is a step of it, and registers no message type. -/
theorem ServerStep.net_regist {m : Move} (h : ServerStep G k sv m sv') :
    sv'.net = sv.net ∨
      ∃ a, sv.net.step G a = some sv'.net ∧ ∀ msgType init, a ≠ .regist msgType init := by
  cases h with
  | accept h | clock h | worker _ h | returned _ _ h | callbackPush _ _ h | made _ h | fetch _ h
  | processClose _ _ _ h | push _ h => exact .inr ⟨_, h, nofun⟩
  | connectGs =>
    left
    dsimp only [setCallback]
    split <;> rfl
  | init =>
    left
    dsimp only [initConfig]
    split <;> rfl
  | relay =>
    left
    unfold Server.relay
    split
    · split
      · split <;> rfl
      · rfl
    · rfl
  | toGs =>
    left
    split <;> rfl
  | _ => exact .inl rfl

/-- A step leaves the net layer alone or is a step of it. -/
theorem ServerStep.net {m : Move} (h : ServerStep G k sv m sv') :
    sv'.net = sv.net ∨ ∃ a, sv.net.step G a = some sv'.net :=
  h.net_regist.imp_right fun ⟨a, ha, _⟩ => ⟨a, ha⟩

end Server

/-- **The runs of a server are runs of the net layer.** -/
theorem net_of_reach {G : Generated Cls Msg} {k : Kind} {C : Server Cls Msg → Move → Prop}
    {sv : Server Cls Msg} (h : (serverSystem G k).Reach C sv) :
    (netSystem G).Reach Lts.Free sv.net := by
  induction h with
  | start h₀ =>
    obtain ⟨threadNum, registry, clock, -, rfl⟩ := h₀
    exact .start ⟨threadNum, registry, clock, rfl⟩
  | next _ _ hs ih =>
    rcases (Server.step_cases hs).net with heq | ⟨a, ha⟩
    · rw [heq]
      exact ih
    · exact .next ih trivial ha

end GoFight.Link
