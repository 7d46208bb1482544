import GoFight.Net.Fate

/-!
# The queues of nodes

The four queues of the net layer that hold nodes, and what a step does to them.  A node that a
worker frees leaves them for good; one that is decoded, or a notice, comes into one.

* `objQueues`, `ThreadData.queues` — the queues of an object and of a worker;
* `frees` — the nodes a step of a worker frees;
* `Still` — a step that moves no node;
* `Shift`, `step_shift` — every step: one movement of nodes, and nothing else of note.

An object that is deleted takes its queues along, so `step_shift` asks that they be empty.
-/

namespace GoFight.Net

open GoFight.Lib

variable {Cls Msg : Type*}

/-- `conn_read_msgs_` and `conn_write_msgs_`. -/
def Connection.queues (c : Connection Msg) : List (Item Msg) × List (Item Msg) :=
  (c.connReadMsgs, c.connWriteMsgs)

/-- `td_read_msgs_` and `td_write_msgs_`. -/
def ThreadData.queues (t : ThreadData Msg) : List (Item Msg) × List (Item Msg) :=
  (t.tdReadMsgs, t.tdWriteMsgs)

/-- The nodes made on an incarnation: the decoded ones, and whether its notice was. -/
def Life.nodes (l : Life Msg) : List (Item Msg) × Bool := (l.decoded, l.noticed)

namespace Layer

/-- The queues of the object at an address, if there is one. -/
def objQueues (s : Layer Cls Msg) (b : Addr) : List (Item Msg) × List (Item Msg) :=
  ((s.heap b).map Connection.queues).getD ([], [])

/-- The nodes a step of worker `w` frees: in the dead-connection branch of the distribution, and in
`on_write` behind the encoding. -/
def frees (s : Layer Cls Msg) (w : ℕ) : List (Item Msg) :=
  match (s.worker w).phase with
  | .drain =>
      (s.worker w).tdWriteMsgs.filter fun it => it.node.msgConn ∉ (s.worker w).threadConnections
  | .writing a _ => (s.objQueues a).2
  | _ => []

variable {G : Generated Cls Msg} {s s' s'' : Layer Cls Msg}

theorem objQueues_of_some {b : Addr} {c : Connection Msg} (hc : s.heap b = some c) :
    s.objQueues b = c.queues := by
  rw [objQueues, hc]
  rfl

/-! ### Steps that move no node -/

/-- No node is moved, and none is made. -/
structure Still (s s' : Layer Cls Msg) : Prop where
  objects : ∀ b, s'.objQueues b = s.objQueues b
  workers : ∀ v, (s'.worker v).queues = (s.worker v).queues
  output : s'.output = s.output
  nodes : ∀ id, (s'.life id).nodes = (s.life id).nodes

namespace Still

theorem refl (s : Layer Cls Msg) : Still s s := ⟨fun _ => rfl, fun _ => rfl, rfl, fun _ => rfl⟩

theorem trans (h : Still s s') (h' : Still s' s'') : Still s s'' where
  objects b := (h'.objects b).trans (h.objects b)
  workers v := (h'.workers v).trans (h.workers v)
  output := h'.output.trans h.output
  nodes id := (h'.nodes id).trans (h.nodes id)

theorem of_kept (hk : Kept Connection.queues s s') (hw : s'.worker = s.worker)
    (ho : s'.output = s.output) (hl : ∀ id, (s'.life id).nodes = (s.life id).nodes) : Still s s' where
  objects b := by rw [objQueues, objQueues, hk b]
  workers v := by rw [hw]
  output := ho
  nodes := hl

theorem modConn (s : Layer Cls Msg) (a : Addr) {f : Connection Msg → Connection Msg}
    (hf : ∀ c, (f c).queues = c.queues) : Still s (s.modConn a f) :=
  of_kept (Kept.modConn s a hf) rfl rfl fun _ => rfl

theorem modWorker (s : Layer Cls Msg) (w : ℕ) {g : ThreadData Msg → ThreadData Msg}
    (hg : (g (s.worker w)).queues = (s.worker w).queues) : Still s (s.modWorker w g) where
  objects _ := rfl
  workers v := by
    rw [modWorker_worker]
    split
    · next hv => rw [hv, hg]
    · rfl
  output := rfl
  nodes _ := rfl

theorem goto (s : Layer Cls Msg) (w : ℕ) (p : Phase) : Still s (s.goto w p) := modWorker s w rfl

theorem modLife (s : Layer Cls Msg) (id : ℕ) {f : Life Msg → Life Msg}
    (hf : ∀ l, (f l).nodes = l.nodes) : Still s (s.modLife id f) where
  objects _ := rfl
  workers _ := rfl
  output := rfl
  nodes v := by
    rw [modLife_life]
    split
    · exact hf _
    · rfl

theorem connClose (s : Layer Cls Msg) (a : Addr) : Still s (s.connClose a) := by
  unfold Layer.connClose
  split
  · exact refl s
  · split
    · exact refl s
    · refine (modConn s a ?_).trans (modLife _ _ ?_)
      · exact fun _ => rfl
      · exact fun _ => rfl

/-- A new object has no nodes. -/
theorem alloc {a : Addr} (ha : s.heap a = none) (hn : (s.life s.nextId).nodes = ([], false))
    (p : Place) (k : Bool) :
    Still s (s.alloc a p k) where
  objects b := by
    rw [objQueues, objQueues, alloc_heap]
    split
    · next hb =>
      rw [hb, ha]
      rfl
    · rfl
  workers _ := rfl
  output := rfl
  nodes id := by
    rw [alloc_life]
    split
    · next hid =>
      rw [hid, hn]
      rfl
    · rfl

/-- An object is deleted that has no nodes. -/
theorem free {a : Addr} (ha : s.objQueues a = ([], [])) : Still s (s.free a) where
  objects b := by
    rw [objQueues, free_heap]
    split
    · next hb =>
      rw [hb, ha]
      rfl
    · rfl
  workers v := by rw [free_worker]
  output := congrArg (fun f => f.1.1) (free_frame s a)
  nodes id := by
    unfold Layer.free
    split
    · rfl
    · rw [modLife_life]
      split <;> rfl

theorem registerConn (s : Layer Cls Msg) (w : ℕ) (a : Addr) (id : ℕ) (st : ConnState) :
    Still s (s.registerConn w a id st) := by
  have hconn : Still s (s.modConn a (initConn w st)) := modConn s a fun _ => rfl
  have hlife : Still s ((s.modConn a (initConn w st)).modLife id (.setOwner w)) :=
    hconn.trans (modLife _ id fun _ => rfl)
  exact hlife.trans (modWorker _ w rfl)

theorem giveWorker (s : Layer Cls Msg) (ci : ConnInfo) (written : Bool) :
    Still s (s.giveWorker ci written) := by
  have hlast : Still s { s with lastThreadId := UInt64.ofNat s.nextThread } :=
    of_kept (fun _ => rfl) rfl rfl fun _ => rfl
  exact hlast.trans (modWorker _ _ rfl)

end Still

/-! ### Every step -/

/-- What the step `a` does to the queues: at most one movement, then nothing. -/
inductive Shift (G : Generated Cls Msg) (s : Layer Cls Msg) (a : Act Cls Msg) (s' : Layer Cls Msg) :
    Prop
  | still (hf : ∀ w e, a = .worker w e → s.frees w = []) (hg : ∀ i, a ≠ .getMsgs i)
      (hs : ∀ w it, a ≠ .send w it) (h : Still s s')
  | transfer {w e b c it rest} (ha : a = .worker w e) (hf : s.frees w = []) (hc : s.heap b = some c)
      (hmsgs : c.connReadMsgs = it :: rest)
      (h : Still ((s.modConn b (.setRead rest)).modWorker w (.queueRead it)) s')
  | read {w e b c chunk buffer info r} (ha : a = .worker w e) (hf : s.frees w = [])
      (hc : s.heap b = some c)
      (hr : messageFormat G.toProtobuf s.registry b buffer info = some r)
      (h : Still ((s.modConn b (.receive r.1 (number c.id (s.life c.id).decoded.length r.2))).modLife
        c.id (.receive chunk (number c.id (s.life c.id).decoded.length r.2))) s')
  | notice {w e it} {id : ℕ} (ha : a = .worker w e) (hf : s.frees w = [])
      (hn : (s.life id).noticed = false) (hsrc : it.src = .notice id)
      (hty : (s.registry it.node.msgType).isSome)
      (h : Still ((s.modLife id .notice).modWorker w (.queueRead it)) s')
  | drain {w e} (ha : a = .worker w e) (hp : (s.worker w).phase = .drain) (h : s' = s.drainStep w)
  | flush {w e b c back f} (ha : a = .worker w e) (hp : (s.worker w).phase = .writing b back)
      (hc : s.heap b = some c) (hf : Writes G f) (h : Still (s.modConn b f) s')
  | getMsgs {i} (ha : a = .getMsgs i) (h : s' = s.getNetMsgs i)
  | send {w it} (ha : a = .send w it) (h : s' = s.pushWrite w it)

theorem shift_workerStep {w : ℕ} {e : WorkerAct} (hw : s.WellPlaced) (ho : s.InOrder)
    (hdel : ∀ b ∈ s.deletes (.worker w e), s.objQueues b = ([], [])) (hs : WorkerStep G s w e s') :
    Shift G s (.worker w e) s' := by
  have hstill : s.frees w = [] → Still s s' → Shift G s (.worker w e) s' := by
    intro hf h
    refine .still (fun v e' heq => ?_) nofun nofun h
    cases heq
    exact hf
  cases hs with
  | top hp | transferEnd hp | transferSkip hp | connectorsEnd hp | passEnd hp | passSkip hp
  | passVisit hp | readStart hp | readSkip hp | writeStart hp | writeSkip hp | pollEnd hp
  | callbackOk hp | sweepEnd hp | sweepSkip hp | deleteEnd hp | dropped hp =>
    refine hstill ?_ (.modWorker s w rfl)
    rw [frees, hp]
  | drain hp => exact .drain rfl hp rfl
  | @transferMove a todo c it rest hp hc hmsgs =>
    refine .transfer rfl ?_ hc hmsgs (.refl _)
    rw [frees, hp]
  | @push a rest written hp hq =>
    refine hstill (by rw [frees, hp]) ?_
    have hplace : Still s ((s.setConnectors rest).setPlace a (.handed s.nextThread)) :=
      .of_kept (Kept.modConn s a fun _ => by rfl) rfl rfl fun _ => rfl
    exact hplace.trans (.giveWorker _ _ _)
  | @read a back c s₁ hp hc hr =>
    have hf : s.frees w = [] := by rw [frees, hp]
    cases hr with
    | data hne hext hr => exact .read rfl hf hc hr (.goto _ w _)
    | again =>
      have hwait : Still s (s.modConn a (.waitRead true)) := .modConn s a fun _ => rfl
      exact hstill hf (hwait.trans (.goto _ w _))
    | shut =>
      have hstop : Still s (s.modConn a .stopRead) := .modConn s a fun _ => rfl
      exact hstill hf ((hstop.trans (.connClose _ a)).trans (.goto _ w _))
    | failed =>
      have hwait : Still s (s.modConn a (.waitRead false)) := .modConn s a fun _ => rfl
      exact hstill hf ((hwait.trans (.connClose _ a)).trans (.goto _ w _))
  | @write a back c r s₁ hp hc he hr =>
    cases hr with
    | quiet hf => exact .flush rfl hp hc hf (.goto _ w _)
    | failed _ hf => exact .flush rfl hp hc hf ((Still.connClose _ a).trans (.goto _ w _))
  | @readEvent a c hp =>
    refine hstill (by rw [frees, hp]) ((Still.modConn s a (f := .readFired) ?_).trans (.goto _ w _))
    exact fun _ => rfl
  | @writeEvent a c hp =>
    refine hstill (by rw [frees, hp]) ((Still.modConn s a (f := .writeFired) ?_).trans (.goto _ w _))
    exact fun _ => rfl
  | @accepted n st rest a hp hq ha he =>
    refine hstill (by rw [frees, hp]) ?_
    have htake : Still s (s.modWorker w (.take n rest)) := .modWorker s w rfl
    have hn : (s.life s.nextId).nodes = ([], false) := by
      rw [hw.fresh le_rfl]
      rfl
    have halloc : Still (s.modWorker w (.take n rest))
        ((s.modWorker w (.take n rest)).alloc a .connecting false) :=
      .alloc (s := s.modWorker w (.take n rest)) ha.1 hn _ _
    exact (htake.trans halloc).trans (.registerConn _ w a _ st)
  | @refused n st rest a hp hq =>
    have htake : Still s (s.modWorker w (.take n rest)) := .modWorker s w rfl
    have hplace : Still (s.modWorker w (.take n rest))
        ((s.modWorker w (.take n rest)).setPlace a (.refused w)) := .modConn _ a fun _ => rfl
    exact hstill (by rw [frees, hp]) ((htake.trans hplace).trans (.goto _ w _))
  | @connected n st rest a c hp hq hc =>
    have htake : Still s (s.modWorker w (.take n rest)) := .modWorker s w rfl
    exact hstill (by rw [frees, hp])
      ((htake.trans (.registerConn _ w a c.id st)).trans (.goto _ w _))
  | @callbackFail a hp =>
    have ha : s.objQueues a = ([], []) := hdel a (by rw [deletes, hp]; rfl)
    exact hstill (by rw [frees, hp]) ((Still.free ha).trans (.goto _ w _))
  | @notice a todo removeIds c junk hp hc hst =>
    have hf : s.frees w = [] := by rw [frees, hp]
    cases hnode : getMsgnode G.toProtobuf s.registry junk Protocol.messageShutdownReq with
    | none =>
      refine hstill hf ?_
      rw [noticeStep, hnode]
      exact .refl s
    | some node =>
      rw [noticeStep, hnode]
      obtain ⟨cls, hcls, -⟩ := Option.map_eq_some_iff.mp hnode
      refine .notice rfl hf (ho.not_noticed_of_sweep hw hp hc) rfl ?_ (.goto _ w _)
      exact Option.isSome_iff_exists.mpr ⟨cls, hcls⟩
  | @closing a todo removeIds c hp hc =>
    have hclose : Still s (s.modConn a connInternalClose) := .modConn s a fun _ => rfl
    exact hstill (by rw [frees, hp]) (hclose.trans (.modWorker _ w rfl))
  | @erase removeIds hp =>
    have hretire : Still s { s with heap := s.retire w removeIds } :=
      .of_kept (Kept.retire s w removeIds fun _ => by rfl) rfl rfl fun _ => rfl
    exact hstill (by rw [frees, hp]) (hretire.trans (.modWorker _ w rfl))
  | @deleteFree t a rest c hp hq hc htime =>
    have ha : s.objQueues a = ([], []) := by
      refine hdel a ?_
      rw [deletes, hp, hq]
      dsimp only
      rw [hc]
      exact if_pos htime
    exact hstill (by rw [frees, hp]) ((Still.free ha).trans (.modWorker _ w rfl))

/-- **What a step does to the queues of nodes.** -/
theorem step_shift {a : Act Cls Msg} (hw : s.WellPlaced) (ho : s.InOrder)
    (hdel : ∀ b ∈ s.deletes a, s.objQueues b = ([], [])) (hs : s.step G a = some s') :
    Shift G s a s' := by
  cases a with
  | worker w e =>
    simp only [Layer.step, Option.ite_none_right_eq_some] at hs
    exact shift_workerStep hw ho hdel (workerStep_cases hs.2)
  | connect a =>
    simp only [Layer.step, Option.ite_none_right_eq_some, Option.some.injEq] at hs
    obtain ⟨ha, rfl⟩ := hs
    have hn : (s.life s.nextId).nodes = ([], false) := by
      rw [hw.fresh le_rfl]
      rfl
    have hstill := Still.alloc ha.1 hn .connecting true
    exact .still (by simp) (by simp) (by simp) ⟨hstill.objects, hstill.workers, hstill.output, hstill.nodes⟩
  | close a =>
    obtain ⟨c, -, hs⟩ := Option.bind_eq_some_iff.mp hs
    simp only [Option.ite_none_right_eq_some, Option.some.injEq] at hs
    obtain ⟨-, rfl⟩ := hs
    exact .still (by simp) (by simp) (by simp) (.connClose s a)
  | accept written =>
    simp only [Layer.step, Option.ite_none_right_eq_some, Option.some.injEq] at hs
    obtain ⟨-, rfl⟩ := hs
    exact .still (by simp) (by simp) (by simp) (.giveWorker s _ _)
  | getMsgs i =>
    simp only [Layer.step, Option.ite_none_right_eq_some, Option.some.injEq] at hs
    exact .getMsgs rfl hs.2.symm
  | send w it =>
    simp only [Layer.step, Option.ite_none_right_eq_some, Option.some.injEq] at hs
    exact .send rfl hs.2.symm
  | clock t | regist msgType init =>
    cases hs
    exact .still (by simp) (by simp) (by simp) (.of_kept (fun _ => rfl) rfl rfl fun _ => rfl)

/-- Only workers, `get_net_msgs` and `net_send` move nodes. -/
theorem still_of_step {a : Act Cls Msg} (hw : s.WellPlaced) (ho : s.InOrder)
    (hs : s.step G a = some s') (ha : ∀ w e, a ≠ .worker w e) (hg : ∀ i, a ≠ .getMsgs i)
    (hsend : ∀ w it, a ≠ .send w it) : Still s s' := by
  have hdel : ∀ b ∈ s.deletes a, s.objQueues b = ([], []) := by
    intro b hb
    obtain ⟨w, e, heq, -⟩ := hw.placeAt_of_deletes hb
    exact absurd heq (ha w e)
  cases step_shift hw ho hdel hs with
  | still _ _ _ h => exact h
  | transfer heq | read heq | notice heq | drain heq | flush heq => exact absurd heq (ha _ _)
  | getMsgs heq => exact absurd heq (hg _)
  | send heq => exact absurd heq (hsend _ _)

/-! ### The object a callback is for -/

/-- A worker comes to a callback that reports success when it has registered the object. -/
theorem step_callback {w : ℕ} {e : WorkerAct} {a : Addr} (hw : s.WellPlaced)
    (hs : s.step G (.worker w e) = some s') (hp' : (s'.worker w).phase = .callback a true) :
    ∃ c c', s.heap a = some c ∧ c.td = none ∧ s'.heap a = some c' ∧ c'.id = c.id ∧
      c'.td = some w := by
  have hmod : ∀ (s₁ : Layer Cls Msg) (g : ThreadData Msg → ThreadData Msg),
      ((s₁.modWorker w g).worker w).phase = (g (s₁.worker w)).phase := by
    intro s₁ g
    rw [modWorker_worker_self]
  have hgoto : ∀ (s₁ : Layer Cls Msg) (q : Phase), ((s₁.goto w q).worker w).phase = q :=
    fun s₁ q => hmod s₁ _
  -- a step that leaves the phase alone is taken in another one
  have hkept : ∀ {q : Phase}, (s.worker w).phase = q → q ≠ .callback a true →
      (s'.worker w).phase = (s.worker w).phase → False :=
    fun hp hq h => hq (hp.symm.trans (h.symm.trans hp'))
  simp only [Layer.step, Option.ite_none_right_eq_some] at hs
  cases workerStep_cases hs.2 with
  | transferEnd hp | transferSkip hp | connectorsEnd hp | passEnd hp | passSkip hp | passVisit hp
  | readStart hp | readSkip hp | writeStart hp | writeSkip hp | pollEnd hp | callbackOk hp
  | sweepEnd hp | sweepSkip hp | deleteEnd hp | refused hp | callbackFail hp =>
    rw [hgoto] at hp'
    cases hp'
  | top hp =>
    rw [hmod] at hp'
    cases hp'
  | drain hp =>
    rw [drainStep, hmod] at hp'
    cases hp'
  | closing hp =>
    rw [closingStep, hmod] at hp'
    cases hp'
  | erase hp =>
    rw [eraseStep, hmod] at hp'
    cases hp'
  | @read b back =>
    rw [hgoto] at hp'
    cases back <;> cases hp'
  | @write b back =>
    rw [hgoto] at hp'
    cases back <;> cases hp'
  | readEvent | writeEvent =>
    rw [hgoto] at hp'
    split at hp' <;> cases hp'
  | transferMove hp | dropped hp => exact (hkept hp (by simp) (hmod _ _)).elim
  | deleteFree hp =>
    refine (hkept hp (by simp) ((hmod _ _).trans ?_)).elim
    rw [free_worker]
  | @push b rest written hp =>
    refine (hkept hp (by simp) ?_).elim
    rw [giveWorker, modWorker_worker]
    split <;> rfl
  | @accepted n st rest b hp =>
    refine (hkept hp (by simp) ?_).elim
    rw [registerConn, hmod]
    exact hmod s _
  | @notice b todo removeIds c junk hp =>
    rw [noticeStep] at hp' hkept
    split at hp'
    · rw [hp] at hp'
      cases hp'
    · rw [hgoto] at hp'
      cases hp'
  | @connected n st rest b c hp hq hc =>
    rw [hgoto, Phase.callback.injEq] at hp'
    obtain ⟨rfl, -⟩ := hp'
    refine ⟨c, initConn w st c, hc, hw.td_of_place (hw.handed_of_cons hq) hc, ?_, rfl, rfl⟩
    rw [goto_heap, registerConn_heap, if_pos rfl]
    exact congrArg (Option.map (initConn w st)) hc

end Layer

end GoFight.Net
