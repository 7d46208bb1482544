import GoFight.Link.Notices
import GoFight.Net.Outbound
import GoFight.Net.Sweep

/-!
# Whom an answer reaches

The gate sends an answer of the game server to the address in the answer's `cli_conn_`.  Addresses
are handed out again, so the object there need not be the client that asked.

* `Reaches` — where an answer in `td_write_msgs_` will end up: in the object it is for, or nowhere;
* `Answered`, `Answered.step` — answers in a queue reach their client only, and so do those written;
* `Prompt` — the condition on a step: an answer is taken while its client is there, and the client is
  not deleted while the logic thread has the answer in hand;
* `Isolated`, `isolated_of_reach` — every answer goes to the connection whose request it answers.

After that the client may go: between the push and the distribution of `td_write_msgs_` its worker
deletes it, but registers nothing.
-/

namespace GoFight.Net

open GoFight.Lib

variable {Cls Msg : Type*} {G : Generated Cls Msg}

/-- The client an answer is for, where there is one. -/
def Role.client : Role → Option ℕ
  | .request => none
  | .answer c => c

/-- Between the deletion loop and the distribution of `td_write_msgs_`. -/
def Phase.registersNone : Phase → Bool
  | .delete => true
  | .top => true
  | .drain => true
  | _ => false

namespace Layer

variable {s s' : Layer Cls Msg} {w id : ℕ} {b : Addr}

/-! ### One answer on its way -/

/-- What stands in `td_write_msgs_` of worker `w` for the address `b` gets to the incarnation `id`,
or is freed. -/
def Reaches (s : Layer Cls Msg) (w : ℕ) (b : Addr) (id : ℕ) : Prop :=
  (∃ o, s.heap b = some o ∧ o.id = id ∧ o.td = some w) ∨
    ((s.worker w).phase.registersNone = true ∧ b ∉ (s.worker w).threadConnections)

theorem workerStep_top {e : WorkerAct} (hs : s.workerStep G w e = some s')
    (hp : (s.worker w).phase = .top) :
    s' = s.modWorker w fun t => { t with now := s.clock, phase := .drain } := by
  unfold workerStep at hs
  rw [hp] at hs
  cases e with
  | go => exact (Option.some.inj hs).symm
  | _ => cases hs

theorem workerStep_drain {e : WorkerAct} (hs : s.workerStep G w e = some s')
    (hp : (s.worker w).phase = .drain) : s' = s.drainStep w := by
  unfold workerStep at hs
  rw [hp] at hs
  cases e with
  | go => exact (Option.some.inj hs).symm
  | _ => cases hs

theorem workerStep_delete {e : WorkerAct} (hs : s.workerStep G w e = some s')
    (hp : (s.worker w).phase = .delete) : s.deleteStep w = some s' := by
  unfold workerStep at hs
  rw [hp] at hs
  cases e with
  | go => exact hs
  | _ => cases hs

/-- At the end of an iteration and before the distribution a worker registers nothing. -/
theorem step_registersNone {e : WorkerAct} (hs : s.step G (.worker w e) = some s')
    (hp : (s.worker w).phase = .delete ∨ (s.worker w).phase = .top) :
    (s'.worker w).phase.registersNone = true ∧
      (s'.worker w).threadConnections = (s.worker w).threadConnections := by
  simp only [Layer.step, Option.ite_none_right_eq_some] at hs
  rcases hp with hp | hp
  · have hdel := workerStep_delete hs.2 hp
    unfold deleteStep at hdel
    split at hdel
    · cases hdel
      rw [goto_worker, if_pos rfl]
      exact ⟨rfl, rfl⟩
    · obtain ⟨c, -, rfl⟩ := Option.map_eq_some_iff.mp hdel
      split
      · rw [modWorker_worker_self, free_worker]
        exact ⟨congrArg Phase.registersNone hp, rfl⟩
      · rw [goto_worker, if_pos rfl]
        exact ⟨rfl, rfl⟩
  · rw [workerStep_top hs.2 hp, modWorker_worker_self]
    exact ⟨rfl, rfl⟩

/-- A worker deletes in its deletion loop, or after a callback that reports a failure. -/
theorem phase_of_deletes {e : WorkerAct} (hd : s.deletes (.worker w e) = some b) :
    (s.worker w).phase = .delete ∨ (s.worker w).phase = .callback b false := by
  unfold deletes at hd
  dsimp only at hd
  cases hp : (s.worker w).phase with
  | callback d ok =>
    rw [hp] at hd
    cases ok with
    | false =>
      cases hd
      exact .inr rfl
    | true => cases hd
  | delete => exact .inl rfl
  | _ =>
    rw [hp] at hd
    cases hd

/-- A registered object is deleted in the deletion loop, and is out of `thread_connections_`. -/
theorem WellPlaced.delete_of_deletes (h : s.WellPlaced) {e : WorkerAct} {o : Connection Msg}
    (hd : s.deletes (.worker w e) = some b) (hb : s.heap b = some o) {v : ℕ} (htd : o.td = some v) :
    v = w ∧ (s.worker w).phase = .delete ∧ b ∉ (s.worker w).threadConnections := by
  obtain ⟨u, e', heq, hat⟩ := h.placeAt_of_deletes hd
  cases heq
  have hretired : s.placeAt b = some (.retired w) := by
    rcases hat with hat | hat
    · rw [show o.td = none from h.td_of_place hat hb] at htd
      cases htd
    · exact hat
  have hw : o.td = some w := h.td_of_place hretired hb
  refine ⟨Option.some.inj (htd.symm.trans hw), ?_, fun hmem => ?_⟩
  · rcases phase_of_deletes hd with hp | hp
    · exact hp
    · obtain ⟨c, hc, -, hnone⟩ := h.refused hp
      rw [hb, Option.some.injEq] at hc
      rw [← hc, hw] at hnone
      cases hnone
  · have hplaced : s.placeAt b = some (.registered w) := h.placed (p := .registered w) hmem
    rw [hretired] at hplaced
    cases hplaced

/-- An object that is not deleted stays with its worker. -/
theorem step_keeps_td {a : Act Cls Msg} {o : Connection Msg} (hw : s.WellPlaced)
    (hw' : s'.WellPlaced) (hs : s.step G a = some s') (hd : s.deletes a ≠ some b)
    (hb : s.heap b = some o) (htd : o.td = some w) :
    ∃ o', s'.heap b = some o' ∧ o'.id = o.id ∧ o'.td = some w := by
  obtain ⟨o', hb', hid⟩ := step_keeps hs hd hb
  have howner : (s'.life o.id).owner = some w := step_owner hw hs ((hw.owner hb).trans htd)
  refine ⟨o', hb', hid, ?_⟩
  rw [← hw'.owner hb', hid]
  exact howner

/-- **A queued answer stays on its way**, whatever the next step is but the distribution itself. -/
theorem Reaches.step {a : Act Cls Msg} (h : s.Reaches w b id) (hw : s.WellPlaced) (ho : s.InOrder)
    (hw' : s'.WellPlaced) (hs : s.step G a = some s')
    (hdrain : ∀ e, a = .worker w e → (s.worker w).phase ≠ .drain) : s'.Reaches w b id := by
  by_cases hown : ∃ e, a = .worker w e
  · obtain ⟨e, rfl⟩ := hown
    rcases h with ⟨o, hb, hid, htd⟩ | ⟨hp, hnot⟩
    · by_cases hd : s.deletes (.worker w e) = some b
      · -- its own worker deletes it, and has nothing more to do with the address
        obtain ⟨-, hp, hnot⟩ := hw.delete_of_deletes hd hb htd
        obtain ⟨hp', hconns⟩ := step_registersNone hs (.inl hp)
        exact .inr ⟨hp', hconns ▸ hnot⟩
      · obtain ⟨o', hb', hid', htd'⟩ := step_keeps_td hw hw' hs hd hb htd
        exact .inl ⟨o', hb', hid'.trans hid, htd'⟩
    · have hphase : (s.worker w).phase = .delete ∨ (s.worker w).phase = .top := by
        cases hq : (s.worker w).phase with
        | delete => exact .inl rfl
        | top => exact .inr rfl
        | drain => exact absurd hq (hdrain e rfl)
        | _ =>
          rw [hq] at hp
          cases hp
      obtain ⟨hp', hconns⟩ := step_registersNone hs hphase
      exact .inr ⟨hp', hconns ▸ hnot⟩
  · have hown' : ∀ e, a ≠ .worker w e := fun e he => hown ⟨e, he⟩
    rcases h with ⟨o, hb, hid, htd⟩ | ⟨hp, hnot⟩
    · obtain ⟨o', hb', hid', htd'⟩ := step_object hw hw' hs hown' hb htd
      exact .inl ⟨o', hb', hid'.trans hid, htd'⟩
    · have hact : a.ofWorker w = false := by
        cases a with
        | worker v e => exact decide_eq_false fun hv => hown' e (by rw [hv])
        | _ => rfl
      refine .inr ⟨?_, ?_⟩
      · rwa [step_phase hw ho hs hown']
      · rwa [step_conns hs hact]

/-! ### Every answer -/

/-- Answers reach their own clients. -/
structure Answered (s : Layer Cls Msg) : Prop where
  queued : ∀ w, ∀ it ∈ (s.worker w).tdWriteMsgs, ∀ c ∈ it.role.client, s.Reaches w it.node.msgConn c
  written : ∀ {b o}, s.heap b = some o → ∀ it ∈ o.flushed ++ o.connWriteMsgs,
    ∀ c ∈ it.role.client, c = o.id

/-- The distribution appends to an object what is for it. -/
theorem Answered.drain (h : s.Answered) (w : ℕ) {o' : Connection Msg}
    (hb : (s.drainStep w).heap b = some o') : ∀ it ∈ o'.flushed ++ o'.connWriteMsgs,
      ∀ c ∈ it.role.client, c = o'.id := by
  intro it hit c hc
  rw [drainStep, modWorker_heap] at hb
  dsimp only at hb
  rw [drainWrites_heap] at hb
  obtain ⟨o, ho, rfl⟩ := Option.map_eq_some_iff.mp hb
  dsimp only at hit
  rw [← List.append_assoc, List.mem_append] at hit
  rcases hit with hit | hit
  · exact h.written ho it hit c hc
  · split at hit
    · next hmem =>
      obtain ⟨hq, hconn⟩ := List.mem_filter.mp hit
      rw [decide_eq_true_eq] at hconn
      rcases h.queued w it hq c hc with ⟨d, hd, hid, -⟩ | ⟨-, hnot⟩
      · rw [hconn, ho, Option.some.injEq] at hd
        rw [← hid, ← hd]
      · exact absurd hmem (hconn ▸ hnot)
    · cases hit

/-- **Every step**, where a `net_send` sends an answer to its client. -/
theorem Answered.step {a : Act Cls Msg} (h : s.Answered) (hw : s.WellPlaced) (ho : s.InOrder)
    (hw' : s'.WellPlaced) (hs : s.step G a = some s')
    (hsend : ∀ v it, a = .send v it → ∀ c ∈ it.role.client, s.Reaches v it.node.msgConn c) :
    s'.Answered := by
  refine ⟨fun v it hit c hc => ?_, fun {b o} hb => ?_⟩
  · by_cases hdrain : ∃ e, a = .worker v e ∧ (s.worker v).phase = .drain
    · obtain ⟨e, rfl, hp⟩ := hdrain
      simp only [Layer.step, Option.ite_none_right_eq_some] at hs
      rw [workerStep_drain hs.2 hp, drainStep, modWorker_worker_self] at hit
      cases hit
    · have hreach : s.Reaches v it.node.msgConn c := by
        rcases step_tdWriteMsgs hw hs hit with hold | hnew
        · exact h.queued v it hold c hc
        · exact hsend v it hnew c hc
      exact hreach.step hw ho hw' hs fun e he hp => hdrain ⟨e, he, hp⟩
  · cases step_fate (b := b) hs with
    | same htrack =>
      rw [hb, Option.map_some] at htrack
      obtain ⟨d, hd, heq⟩ := Option.map_eq_some_iff.mp htrack.symm
      simp only [Connection.track, Prod.mk.injEq] at heq
      rw [← heq.1, ← heq.2]
      exact h.written hd
    | made _ _ htrack =>
      rw [hb, Option.map_some, Option.some.injEq] at htrack
      have hnil : o.flushed ++ o.connWriteMsgs = [] := congrArg Prod.snd htrack
      rw [hnil]
      intro it hit
      cases hit
    | gone _ hgone =>
      rw [hgone] at hb
      cases hb
    | drained _ _ heq =>
      rw [heq] at hb
      exact h.drain _ hb

end Layer

end GoFight.Net

namespace GoFight.Link

open GoFight.Lib GoFight.Net

variable {Cls Msg : Type*}

/-- The node `net_send` has just been called with. -/
def LogicPc.called : LogicPc Msg → Option (Item Msg)
  | .send it => some it
  | _ => none

theorem LogicPc.mem_hand {pc : LogicPc Msg} {it : Item Msg} (h : pc.called = some it) :
    it ∈ pc.hand := by
  cases pc with
  | send jt =>
    cases h
    exact List.mem_singleton_self it
  | _ => cases h

namespace Server

/-- The client whose request the node answers that the step takes and sends back. -/
def asked (sv : Server Cls Msg) : Move → Option ℕ
  | .logic _ r =>
      match sv.logic, sv.net.output[sv.handled]? with
      | .handle, some it =>
          if it.node.msgConn = sv.upstream ∧ it.node.msgType ≠ 0 then sv.requester it.node r else none
      | _, _ => none
  | _ => none

/-- The address whose object the step deletes. -/
def deletes (sv : Server Cls Msg) : Move → Option Addr
  | .worker w e => sv.net.deletes (.worker w e)
  | _ => none

/-- An answer is taken while its client is there, and the client stays until the answer is pushed. -/
def Prompt (sv : Server Cls Msg) (m : Move) : Prop :=
  (∀ c ∈ sv.asked m, sv.idAt (sv.net.life c).addr = [c]) ∧
    ∀ it ∈ sv.logic.hand, it.role.client.isSome → sv.deletes m ≠ some it.node.msgConn

instance (sv : Server Cls Msg) (m : Move) : Decidable (sv.Prompt m) :=
  have : Decidable (∀ c ∈ sv.asked m, sv.idAt (sv.net.life c).addr = [c]) :=
    Option.decidableForallMem _
  have : Decidable (∀ it ∈ sv.logic.hand, it.role.client.isSome →
      sv.deletes m ≠ some it.node.msgConn) := List.decidableBAll _ _
  inferInstanceAs (Decidable (_ ∧ _))

/-- Answers go to the clients that asked. -/
structure Isolated (sv : Server Cls Msg) : Prop where
  /-- The object `net_send` is called with is the client. -/
  called : ∀ {it c}, sv.logic.called = some it → it.role.client = some c →
    sv.idAt it.node.msgConn = [c]
  /-- What is queued on a connection or in its write buffer answers this connection. -/
  own : ∀ {b o}, sv.net.heap b = some o → ∀ it ∈ o.flushed ++ o.connWriteMsgs,
    ∀ c ∈ it.role.client, c = o.id

/-! ### The logic thread -/

/-- The invariant. -/
structure Isolating (sv : Server Cls Msg) : Prop where
  hand : ∀ it ∈ sv.logic.hand, ∀ c ∈ it.role.client, ∃ o, sv.net.heap it.node.msgConn = some o ∧
    o.id = c ∧ ∀ v, sv.logic = .push v it → o.td = some v
  callback : ∀ w, ∀ it ∈ (sv.callback w).hand, it.role = .request
  answered : sv.net.Answered

variable {G : Generated Cls Msg} {k : Kind} {sv sv' : Server Cls Msg}

theorem idAt_eq_singleton {a : Addr} {c : ℕ} :
    sv.idAt a = [c] ↔ ∃ o, sv.net.heap a = some o ∧ o.id = c := by
  unfold idAt
  cases sv.net.heap a with
  | none => simp
  | some o => simp

theorem Isolating.isolated (h : sv.Isolating) : sv.Isolated := by
  refine ⟨fun {it c} hcall hc => ?_, h.answered.written⟩
  obtain ⟨o, ho, hid, -⟩ := h.hand it (LogicPc.mem_hand hcall) c hc
  exact idAt_eq_singleton.mpr ⟨o, ho, hid⟩

/-- **Whose request it was.**  The requester of a node was made at the address in its `cli_conn_`. -/
theorem requester_addr (hc : sv.Copied) (ho : sv.net.InOrder) {node : MsgNode Msg} {r : Option ℕ}
    {c : ℕ} (h : sv.requester node r = some c) : (sv.net.life c).addr = node.cliConn := by
  unfold requester at h
  obtain ⟨req, hreq, h⟩ := Option.bind_eq_some_iff.mp h
  obtain ⟨n, -, hn⟩ := Option.bind_eq_some_iff.mp hreq
  simp only [Option.ite_none_right_eq_some] at h
  obtain ⟨⟨hrole, hcli⟩, hsrc⟩ := h
  have hrelayed : req ∈ sv.relayed := by
    refine List.mem_append_left _ (List.mem_filter.mpr ⟨List.mem_of_getElem? hn, ?_⟩)
    rw [hsrc]
    rfl
  obtain ⟨o, hmem, hcopy⟩ := hc.copies req hrelayed
  have hits : o ∈ itemsOf c sv.net.output :=
    mem_itemsOf.mpr ⟨List.mem_of_mem_take hmem, by rw [hcopy.src, hsrc]⟩
  rw [← hcli, hcopy.request hrole]
  exact ((ho.outputOrder c).conn hits).symm

namespace Isolating

/-- The logic thread has nothing in hand and no worker a new registration. -/
theorem of_nil (h : sv.Isolating) (hnet : sv'.net = sv.net) (hhand : sv'.logic.hand = [])
    (hcallback : ∀ w, ∀ it ∈ (sv'.callback w).hand, it.role = .request) : sv'.Isolating := by
  refine ⟨fun it hit => ?_, hcallback, hnet ▸ h.answered⟩
  rw [hhand] at hit
  cases hit

/-- A step outside the net layer that leaves the logic thread alone. -/
theorem same (h : sv.Isolating) (hnet : sv'.net = sv.net) (hlogic : sv'.logic = sv.logic)
    (hcallback : ∀ w, ∀ it ∈ (sv'.callback w).hand, it.role = .request) : sv'.Isolating := by
  refine ⟨?_, hcallback, hnet ▸ h.answered⟩
  rw [hnet, hlogic]
  exact h.hand

/-- A step of the net layer that deletes no client whose answer is in hand. -/
theorem setNet (h : sv.Isolating) (hw : sv.net.WellPlaced) (ho : sv.net.InOrder) {a : Act Cls Msg}
    (hw' : sv'.net.WellPlaced) (hs : sv.net.step G a = some sv'.net)
    (hkeep : ∀ it ∈ sv.logic.hand, it.role.client.isSome →
      sv.net.deletes a ≠ some it.node.msgConn)
    (hsend : ∀ v it, a = .send v it → ∀ c ∈ it.role.client, sv.net.Reaches v it.node.msgConn c)
    (hlogic : sv'.logic = sv.logic ∨ sv'.logic.hand = [])
    (hcallback : ∀ w, ∀ it ∈ (sv'.callback w).hand, it.role = .request) : sv'.Isolating := by
  refine ⟨?_, hcallback, h.answered.step hw ho hw' hs hsend⟩
  intro it hit c hc
  rcases hlogic with hlogic | hnil
  · rw [hlogic] at hit ⊢
    obtain ⟨o, hb, hid, htd⟩ := h.hand it hit c hc
    have hd : sv.net.deletes a ≠ some it.node.msgConn :=
      hkeep it hit (by rw [Option.mem_def.mp hc]; rfl)
    obtain ⟨o', hb', hid'⟩ := Layer.step_keeps hs hd hb
    refine ⟨o', hb', hid'.trans hid, fun v hv => ?_⟩
    obtain ⟨d, hdb, -, hdtd⟩ := Layer.step_keeps_td hw hw' hs hd hb (htd v hv)
    rw [hb', Option.some.injEq] at hdb
    exact hdb ▸ hdtd
  · rw [hnil] at hit
    cases hit

theorem setCallback (h : sv.Isolating) {w : ℕ} {pc : CallbackPc Msg}
    (hpc : ∀ it ∈ pc.hand, it.role = .request) (v : ℕ) :
    ∀ it ∈ ((sv.setCallback w pc).callback v).hand, it.role = .request := by
  rw [setCallback_callback]
  split
  · exact hpc
  · exact h.callback v

/-- A node is taken from `s_recv_msgs`, and an answer finds its client. -/
theorem relay (h : sv.Isolating) {it : Item Msg} {r : Option ℕ} {created : Bool}
    (hl : sv.logic = .handle) (hit : sv.net.output[sv.handled]? = some it) (hcopied : sv.Copied)
    (ho : sv.net.InOrder)
    (hp : ∀ c ∈ sv.asked (.logic created r), sv.idAt (sv.net.life c).addr = [c]) :
    ({ sv with handled := sv.handled + 1 }.relay it r).Isolating := by
  have hhand : sv.logic.hand = [] := by rw [hl]; rfl
  unfold Server.relay
  split_ifs with hup hty hnull
  · exact h.of_nil rfl hhand h.callback
  · refine ⟨fun jt hjt c hc => ?_, h.callback, h.answered⟩
    rw [setLogic, LogicPc.hand, List.mem_singleton] at hjt
    subst hjt
    have hask : sv.asked (.logic created r) = some c := by
      unfold asked
      rw [hl, hit]
      dsimp only
      rw [if_pos ⟨hup, hty⟩]
      exact hc
    have hthere := hp c hask
    rw [requester_addr hcopied ho (show sv.requester it.node r = some c from hc)] at hthere
    obtain ⟨o, hb, hid⟩ := idAt_eq_singleton.mp hthere
    exact ⟨o, hb, hid, by simp [setLogic]⟩
  · exact h.of_nil rfl rfl h.callback
  · refine ⟨fun jt hjt c hc => ?_, h.callback, h.answered⟩
    rw [setLogic, LogicPc.hand, List.mem_singleton] at hjt
    rw [hjt] at hc
    cases hc

/-- **Every step.** -/
theorem step {m : Move} (h : sv.Isolating) (hw : sv.net.WellPlaced) (ho : sv.net.InOrder)
    (hw' : sv'.net.WellPlaced) (hcopied : sv.Copied) (hto : sv.ToGs) (hp : sv.Prompt m)
    (hs : ServerStep G k sv m sv') : sv'.Isolating := by
  cases hs with
  | accept hn | clock hn | made hi hn =>
    exact h.setNet hw ho hw' hn (by simp [Layer.deletes]) (by simp) (.inl rfl) h.callback
  | returned _ _ hn => exact h.setNet hw ho hw' hn hp.2 (by simp) (.inl rfl) h.callback
  | worker _ hn =>
    exact h.setNet hw ho hw' hn hp.2 (by simp) (.inl rfl) (h.setCallback (by simp [CallbackPc.hand]))
  | fetch hl hn =>
    exact h.setNet hw ho hw' hn (by simp [Layer.deletes]) (by simp) (.inr rfl) h.callback
  | compare =>
    refine h.same rfl rfl (h.setCallback ?_)
    split_ifs <;> simp [CallbackPc.hand]
  | setInitOk | registNull => exact h.same rfl rfl (h.setCallback (by simp [CallbackPc.hand]))
  | regist =>
    refine h.same rfl rfl (h.setCallback ?_)
    split_ifs
    · simp [CallbackPc.hand]
    · intro it hit
      rw [CallbackPc.hand, List.mem_singleton] at hit
      rw [hit]
      rfl
  | @callbackSend w _ _ _ _ it _ hp hcb =>
    have hold := h.callback w
    rw [hcb] at hold
    exact h.same rfl rfl (h.setCallback hold)
  | @callbackPush w _ _ _ _ it v net hp' hcb hn =>
    have hrole : it.role = .request :=
      h.callback w it (by rw [hcb]; exact List.mem_singleton_self it)
    refine h.setNet hw ho hw' hn (by simp [Layer.deletes]) ?_ (.inl rfl)
      (h.setCallback (by simp [CallbackPc.hand]))
    intro u jt heq c hc
    cases heq
    rw [hrole] at hc
    cases hc
  | @connectGs w created =>
    cases created with
    | true => exact h.same rfl rfl (h.setCallback (by simp [CallbackPc.hand]))
    | false => exact h.same rfl rfl (h.setCallback (by simp [CallbackPc.hand]))
  | checkUnset | checkSet | refused | broken | storeGate | storeGame | sleep =>
    exact h.same rfl rfl h.callback
  | @init created =>
    cases created with
    | true => exact h.of_nil rfl rfl h.callback
    | false => exact h.of_nil rfl rfl h.callback
  | idle hl | fetched hl | handledAll hl | reset hl => exact h.of_nil rfl rfl h.callback
  | relay _ hl hit => exact h.relay hl hit hcopied ho hp.1
  | process _ hl =>
    have hhand : sv.logic.hand = [] := by rw [hl]; rfl
    exact h.of_nil rfl hhand h.callback
  | processClose _ hl _ hn =>
    have hhand : sv.logic.hand = [] := by rw [hl]; rfl
    exact h.setNet hw ho hw' hn (by simp [Layer.deletes]) (by simp) (.inr hhand) h.callback
  | @toGs _ _ it hl =>
    split_ifs
    · exact h.of_nil rfl rfl h.callback
    · refine ⟨fun jt hjt c hc => ?_, h.callback, h.answered⟩
      rw [setLogic, LogicPc.hand, List.mem_singleton] at hjt
      rw [hjt, show it.role = .request from hto it hl] at hc
      cases hc
  | @send _ _ it v hl hv =>
    refine ⟨fun jt hjt c hc => ?_, h.callback, h.answered⟩
    rw [setLogic, LogicPc.hand, List.mem_singleton] at hjt
    subst hjt
    obtain ⟨o, hb, hid, -⟩ := h.hand jt (by rw [hl]; exact List.mem_singleton_self jt) c hc
    refine ⟨o, hb, hid, fun u hu => ?_⟩
    rw [tdOf, hb] at hv
    cases hu
    exact hv
  | @push _ _ it v net hl hn =>
    refine h.setNet hw ho hw' hn (by simp [Layer.deletes]) ?_ (.inr rfl) h.callback
    intro u jt heq c hc
    cases heq
    obtain ⟨o, hb, hid, htd⟩ := h.hand it (by rw [hl]; exact List.mem_singleton_self it) c hc
    exact .inl ⟨o, hb, hid, htd v hl⟩

end Isolating

end Server

/-- **Answers go to the clients that asked**, in every run of the gate that takes an answer only while
its client is there and deletes no client whose answer it is about to push. -/
theorem isolated_of_reach {G : Generated Cls Msg} {sv : Server Cls Msg}
    (h : (serverSystem G .gate).Reach Server.Prompt sv) : sv.Isolated := by
  have hinv : sv.Isolating := by
    refine h.invariant_of (P := Server.Isolating) ?_ fun sv m sv' hr hi hp hs => ?_
    · rintro sv ⟨threadNum, registry, clock, -, rfl⟩
      refine ⟨?_, ?_, ?_⟩
      · simp [Server.start, LogicPc.hand]
      · simp [Server.start, CallbackPc.hand]
      · exact ⟨by simp [Server.start, Layer.start, ThreadData.new], by simp [Server.start, Layer.start]⟩
    · obtain ⟨hw, -, ho⟩ := inOrder_of_reach (net_of_reach hr)
      have hw' := wellPlaced_of_reach (net_of_reach (hr.next hp hs))
      exact hi.step hw ho hw' (copied_of_reach hr) (toGs_of_reach hr) hp (Server.step_cases hs)
  exact hinv.isolated

/-! ### A client that stays and one that does not -/

/-- The worker goes on. -/
def goes (n : ℕ) : List Move := List.replicate n (.worker 0 .go)

/-- The client at 32 sends a request, and the logic thread sends it on. -/
def clientAsks : List Move :=
  let frame := encodeNode Protocol.protobuf registNode
  gateAndClient ++ [.readEvent 32, .read (.data frame ⟨[frame]⟩)].map (.worker 0) ++ goes 10 ++
    List.replicate 8 (.logic true none) ++ goes 8 ++ [.worker 0 (.read (.again true))] ++ goes 2

/-- The game server's answer comes in, and the worker ends its iteration. -/
def gameAnswers : List Move :=
  let frame := encodeNode Protocol.protobuf { registNode with cliConn := 32 }
  [.readEvent 16, .read (.data frame ⟨[frame]⟩)].map (.worker 0) ++ goes 9

/-- The answer is handled, queued and put in the client's write buffer. -/
def answerInTime : List Move :=
  clientAsks ++ gameAnswers ++ List.replicate 6 (.logic true (some 1)) ++ goes 6 ++
    [.worker 0 (.read (.again true))] ++ goes 24 ++
    [.worker 0 (.writeEvent 32), .worker 0 (.write (.wrote 1))]

/-- The client hangs up and is deleted, and another is at its address when the answer comes. -/
def answerTooLate : List Move :=
  clientAsks ++ [.clock 1000] ++ [.readEvent 32, .read .eof, .go, .go, .notice 0].map (.worker 0) ++
    goes 4 ++ [.clock 1121] ++ goes 24 ++ [.accept true, .worker 0 (.notified true 32)] ++
    gameAnswers ++ List.replicate 8 (.logic true (some 1))

theorem isolated_answerInTime : ∃ sv,
    (serverSystem Protocol.generated .gate).exec gateStart.1 answerInTime = some sv ∧
      (sv.net.heap 32).map (fun o => (o.id, o.flushed.map Item.role)) =
        some (1, [.answer (some 1)]) ∧ sv.Isolated := by
  obtain ⟨sv, hrun, hflushed⟩ : ∃ sv,
      (serverSystem Protocol.generated .gate).exec gateStart.1 answerInTime = some sv ∧
        (sv.net.heap 32).map (fun o => (o.id, o.flushed.map Item.role)) =
          some (1, [.answer (some 1)]) := by
    refine Option.map_eq_some_iff.mp ?_
    decide +kernel
  have hprompt : (serverSystem Protocol.generated .gate).AllSteps Server.Prompt gateStart.1
      answerInTime := by
    decide +kernel
  refine ⟨sv, hrun, hflushed, isolated_of_reach (.of_exec (.start ?_) hprompt hrun)⟩
  exact ⟨1, Protocol.registry, 0, by decide, rfl⟩

/-- **The answer to one client is about to be sent to another.** -/
theorem not_isolated_answerTooLate : ∃ sv,
    (serverSystem Protocol.generated .gate).Reach Lts.Free sv ∧ ¬ sv.Isolated := by
  obtain ⟨sv, hrun, hcall⟩ : ∃ sv,
      (serverSystem Protocol.generated .gate).exec gateStart.1 answerTooLate = some sv ∧
        (sv.logic.called.map fun it => (it.role, sv.idAt it.node.msgConn)) =
          some (.answer (some 1), [2]) := by
    refine Option.map_eq_some_iff.mp ?_
    decide +kernel
  refine ⟨sv, .of_exec (.start ?_) (Lts.allSteps_free _ _) hrun, fun h => ?_⟩
  · exact ⟨1, Protocol.registry, 0, by decide, rfl⟩
  · obtain ⟨it, hit, heq⟩ := Option.map_eq_some_iff.mp hcall
    rw [Prod.mk.injEq] at heq
    have hthere : sv.idAt it.node.msgConn = [1] := h.called hit (by rw [heq.1]; rfl)
    rw [heq.2] at hthere
    cases hthere

end GoFight.Link
