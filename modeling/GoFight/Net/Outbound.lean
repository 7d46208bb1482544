import GoFight.Net.Fate

/-!
# The byte stream out of a connection

`net_send` appends a node to `td_write_msgs_` of a worker; the worker moves it to the connection's
`conn_write_msgs_`, encodes it into `write_buffer_`, and writes what the socket takes.  Any number
of threads are inside `net_send` at a time, each between its read of `conn->td_` and its push.

* `Sending`, `sendSystem` — the layer and the threads in `net_send`;
* `Turn`, `step_turn` — what a step does to the write side of the connections;
* `Intact` — the invariant of one connection, `Addressed` — whom a node in a queue is for;
* `StreamIntact`, `streamIntact_of_reach` — nothing is lost, added or reordered on the way.

Addresses are taken as not reused (`NoReuse`).
-/

namespace GoFight.Net

open GoFight.Lib

variable {Cls Msg : Type*}

/-- The encoded frames of nodes. -/
def frames (G : Generated Cls Msg) (l : List (Item Msg)) : List UInt8 :=
  encodeAll G.toProtobuf (l.map Item.node)

theorem frames_append (G : Generated Cls Msg) (l r : List (Item Msg)) :
    frames G (l ++ r) = frames G l ++ frames G r := by
  simp [frames, encodeAll]

theorem frames_mono (G : Generated Cls Msg) {l r : List (Item Msg)} (h : l <+: r) :
    frames G l <+: frames G r := by
  obtain ⟨t, rfl⟩ := h
  rw [frames_append]
  exact List.prefix_append _ _

/-! ### The system -/

/-- The layer, and for each thread inside `net_send` the worker it has read and its node. -/
structure Sending (Cls Msg : Type*) where
  net : Layer Cls Msg
  calls : List (ℕ × Item Msg)

/-- A step of the layer or of a thread in `net_send`. -/
inductive SendAct (Cls Msg : Type*)
  | net (a : Act Cls Msg)
  /-- `net_send(md)`, up to `conn->td_`. -/
  | netSend (it : Item Msg)
  /-- `net_send(cli_conn, md)`, up to `conn->td_`. -/
  | netSendTo (cliConn : Addr) (it : Item Msg)
  /-- The push of the `i`-th thread inside. -/
  | push (i : ℕ)

namespace Sending

/-- `net_send(md)`, up to `conn->td_`: the object has to be there, and registered. -/
def netSend (p : Sending Cls Msg) (it : Item Msg) : Option (Sending Cls Msg) :=
  if it.node.msgConn = 0 then some p
  else ((p.net.heap it.node.msgConn).bind Connection.td).map fun w =>
    { p with calls := p.calls ++ [(w, it)] }

/-- `net_send(cli_conn, md)`, up to `conn->td_`. -/
def netSendTo (p : Sending Cls Msg) (cliConn : Addr) (it : Item Msg) : Option (Sending Cls Msg) :=
  if it.node.msgConn = 0 ∨ cliConn = 0 then some p
  else p.netSend { it with node := { it.node with msgConn := cliConn } }

/-- One step.  A push is no step of the layer alone here. -/
def step (G : Generated Cls Msg) (p : Sending Cls Msg) : SendAct Cls Msg → Option (Sending Cls Msg)
  | .net (.send _ _) => none
  | .net a => (p.net.step G a).map fun net => { p with net := net }
  | .netSend it => p.netSend it
  | .netSendTo cliConn it => p.netSendTo cliConn it
  | .push i =>
      (p.calls[i]?).bind fun q =>
        (p.net.step G (.send q.1 q.2)).map fun net => ⟨net, p.calls.eraseIdx i⟩

/-- The step makes an object, if any, at an address no object has had. -/
def NoReuse (p : Sending Cls Msg) : SendAct Cls Msg → Prop
  | .net a => ∀ b ∈ p.net.allocates a, ∀ id < p.net.nextId, (p.net.life id).addr ≠ b
  | _ => True

instance (p : Sending Cls Msg) : DecidablePred p.NoReuse
  | .net a => Option.decidableForallMem (p.net.allocates a)
  | .netSend _ => isTrue trivial
  | .netSendTo _ _ => isTrue trivial
  | .push _ => isTrue trivial

end Sending

/-- The layer from its start on, with any threads calling `net_send`. -/
def sendSystem (G : Generated Cls Msg) : Lts (Sending Cls Msg) (SendAct Cls Msg) where
  init p := (netSystem G).init p.net ∧ p.calls = []
  step p a := p.step G a

/-! ### What a step does to the write side -/

/-- `td_` and the write side of a connection. -/
structure Outbound (Msg : Type*) where
  td : Option ℕ
  sent : List UInt8
  buffered : List UInt8
  flushed : List (Item Msg)
  queued : List (Item Msg)

def Connection.outbound (c : Connection Msg) : Outbound Msg :=
  ⟨c.td, c.sent, c.writeBuffer.bytes, c.flushed, c.connWriteMsgs⟩

/-- A connection that was given nothing to write, with this `td_`. -/
def Outbound.fresh (td : Option ℕ) : Outbound Msg := ⟨td, [], [], [], []⟩

/-- Worker `w` registers the connection, with a new buffer. -/
def Outbound.register (w : ℕ) (o : Outbound Msg) : Outbound Msg :=
  ⟨some w, o.sent, [], o.flushed, o.queued⟩

namespace Layer

/-- Only the object at `b`, if any, has another write side, `o`. -/
def Sets (s : Layer Cls Msg) (b : Option Addr) (o : Outbound Msg) (s' : Layer Cls Msg) : Prop :=
  ∀ d c', s'.heap d = some c' → (some d = b ∧ c'.outbound = o) ∨
    some d ≠ b ∧ ∃ c, s.heap d = some c ∧ c'.outbound = c.outbound

/-- Nothing is queued, and only `b`, if anything, is registered; the sweep takes nothing back. -/
structure Idle (s : Layer Cls Msg) (b : Option Addr) (s' : Layer Cls Msg) : Prop where
  queue : ∀ v, (s'.worker v).tdWriteMsgs = (s.worker v).tdWriteMsgs
  conns : ∀ {v d}, some d ≠ b → d ∈ (s'.worker v).threadConnections →
    d ∈ (s.worker v).threadConnections ∧
      (d ∈ (s.worker v).phase.removing → d ∈ (s'.worker v).phase.removing)
  pushes : s'.pushes = s.pushes

/-- What the step `a` does to the write sides and to what stands before them. -/
inductive Turn (G : Generated Cls Msg) (s : Layer Cls Msg) (a : Act Cls Msg) (s' : Layer Cls Msg) :
    Prop
  | calm (h : Sets s none (.fresh none) s') (k : Idle s none s')
  | write {w b c back f} (hp : (s.worker w).phase = .writing b back) (hc : s.heap b = some c)
      (hf : Writes G f) (h : Sets s (some b) (f c).outbound s') (k : Idle s none s')
  | close {w b c} (hat : s.placeAt b = some (.registered w)) (hc : s.heap b = some c)
      (h : Sets s (some b) (connInternalClose c).outbound s') (k : Idle s none s')
      (hr : b ∈ (s'.worker w).phase.removing)
  | make {b td} (ha : s.allocates a = some b) (h : Sets s (some b) (.fresh td) s')
      (k : Idle s (some b) s')
  | register {w b c} (hc : s.heap b = some c) (htd : c.td = none)
      (h : Sets s (some b) (c.outbound.register w) s')
      (k : Idle s (some b) s')
  | drain {w e} (ha : a = .worker w e) (hp : (s.worker w).phase = .drain) (h : s' = s.drainStep w)
  | send {w it} (ha : a = .send w it) (h : s' = s.pushWrite w it)

variable {G : Generated Cls Msg} {s s' s'' : Layer Cls Msg} {o : Outbound Msg} {b : Addr}

theorem Sets.of_kept (h : Kept Connection.outbound s s') : Sets s none o s' := by
  intro d c' hc'
  obtain ⟨c, hc, hout⟩ := h.exists_of_some hc'
  exact .inr ⟨Option.some_ne_none d, c, hc, hout.symm⟩

theorem Sets.free (s : Layer Cls Msg) (b : Addr) : Sets s none o (s.free b) := by
  intro d c' hc'
  rw [free_heap] at hc'
  split at hc'
  · cases hc'
  · exact .inr ⟨Option.some_ne_none d, c', hc', rfl⟩

/-- One object is written to. -/
theorem Sets.modConn {c : Connection Msg} {f : Connection Msg → Connection Msg}
    (hc : s.heap b = some c) : Sets s (some b) (f c).outbound (s.modConn b f) := by
  intro d c' hc'
  rw [modConn_heap] at hc'
  split at hc'
  · next hd =>
    rw [hd, hc, Option.map_some, Option.some.injEq] at hc'
    exact .inl ⟨congrArg some hd, hc' ▸ rfl⟩
  · next hd => exact .inr ⟨fun h => hd (Option.some.inj h), c', hc', rfl⟩

theorem Sets.trans_kept {r : Option Addr} (h : Sets s r o s') (hk : Kept Connection.outbound s' s'') :
    Sets s r o s'' := by
  intro d c'' hc''
  obtain ⟨c', hc', hout⟩ := hk.exists_of_some hc''
  rw [← hout]
  exact h d c' hc'

theorem Idle.refl (s : Layer Cls Msg) : Idle s none s :=
  ⟨fun _ => rfl, fun _ hd => ⟨hd, id⟩, rfl⟩

theorem Idle.trans {r : Option Addr} (h : Idle s none s') (h' : Idle s' r s'') : Idle s r s'' where
  queue v := (h'.queue v).trans (h.queue v)
  conns hd hmem :=
    have hmem' := h'.conns hd hmem
    have hmem'' := h.conns (Option.some_ne_none _) hmem'.1
    ⟨hmem''.1, fun hr => hmem'.2 (hmem''.2 hr)⟩
  pushes := h'.pushes.trans h.pushes

/-- An update beside the workers. -/
theorem Idle.of_worker (hw : s'.worker = s.worker) (hp : s'.pushes = s.pushes) : Idle s none s' where
  queue _ := by rw [hw]
  conns _ hd := by
    rw [hw] at hd ⊢
    exact ⟨hd, id⟩
  pushes := hp

/-- A worker goes on, beside an update `s₁` of other things; what it may register is `r`. -/
theorem Idle.modWorker (s s₁ : Layer Cls Msg) (hw : s₁.worker = s.worker) (hp : s₁.pushes = s.pushes)
    {w : ℕ} {g : ThreadData Msg → ThreadData Msg} {r : Option Addr}
    (hq : (g (s.worker w)).tdWriteMsgs = (s.worker w).tdWriteMsgs)
    (hc : ∀ d, some d ≠ r → d ∈ (g (s.worker w)).threadConnections →
      d ∈ (s.worker w).threadConnections ∧
        (d ∈ (s.worker w).phase.removing → d ∈ (g (s.worker w)).phase.removing)) :
    Idle s r (s₁.modWorker w g) where
  queue v := by
    rw [modWorker_worker, hw]
    split
    · next hv => rw [hv, hq]
    · rfl
  conns {v d} hd hmem := by
    rw [modWorker_worker, hw] at hmem
    rw [modWorker_worker, hw]
    split at hmem
    · next hv =>
      subst hv
      rw [if_pos rfl]
      exact hc d hd hmem
    · next hv =>
      rw [if_neg hv]
      exact ⟨hmem, id⟩
  pushes := hp

theorem Idle.goto (s s₁ : Layer Cls Msg) (hw : s₁.worker = s.worker) (hpush : s₁.pushes = s.pushes)
    {w : ℕ} {p q : Phase} (hp : (s.worker w).phase = p) (hr : p.removing ⊆ q.removing) :
    Idle s none (s₁.goto w q) :=
  .modWorker s s₁ hw hpush rfl fun _ _ hd => ⟨hd, fun hmem => hr (hp ▸ hmem)⟩

theorem Idle.goto_after {r : Option Addr} (h : Idle s r s') {w : ℕ} {p q : Phase}
    (hp : (s'.worker w).phase = p) (hr : p.removing = []) : Idle s r (s'.goto w q) := by
  have hgoto : Idle s' none (s'.goto w q) := .goto s' s' rfl rfl hp (hr ▸ List.nil_subset _)
  refine ⟨fun v => (hgoto.queue v).trans (h.queue v), fun {v d} hd hmem => ?_,
    hgoto.pushes.trans h.pushes⟩
  have hmem' := hgoto.conns (Option.some_ne_none d) hmem
  have hmem'' := h.conns hd hmem'.1
  exact ⟨hmem''.1, fun hr => hmem'.2 (hmem''.2 hr)⟩

/-- A worker takes the first `ConnInfo`. -/
theorem Idle.take (s : Layer Cls Msg) (w n : ℕ) (rest : List ConnInfo) :
    Idle s none (s.modWorker w (.take n rest)) :=
  .modWorker s s rfl rfl rfl fun _ _ hd => ⟨hd, id⟩

theorem Idle.registerConn (s : Layer Cls Msg) (w : ℕ) (a : Addr) (id : ℕ) (st : ConnState) :
    Idle s (some a) (s.registerConn w a id st) := by
  refine .modWorker s ((s.modConn a (initConn w st)).modLife id (.setOwner w)) rfl rfl rfl
    fun d hd hmem => ⟨?_, fun hr => hr⟩
  have hins := (insertConn_perm a (s.worker w).threadConnections).subset hmem
  exact (List.mem_cons.mp hins).resolve_left fun h => hd (congrArg some h)

theorem Idle.giveWorker (s : Layer Cls Msg) (ci : ConnInfo) (written : Bool) :
    Idle s none (s.giveWorker ci written) :=
  .modWorker s { s with lastThreadId := UInt64.ofNat s.nextThread } rfl rfl rfl
    fun _ _ hd => ⟨hd, id⟩

theorem Kept.outbound_readStep {a : Addr} {c : Connection Msg} (hr : ReadStep G s a c s') :
    Kept Connection.outbound s s' := by
  cases hr with
  | data => exact Kept.modConn s a fun _ => rfl
  | again => exact Kept.modConn s a fun _ => rfl
  | shut => exact .trans (Kept.modConn s a fun _ => by rfl) (Kept.connClose _ a fun _ _ => rfl)
  | failed => exact .trans (Kept.modConn s a fun _ => by rfl) (Kept.connClose _ a fun _ _ => rfl)

theorem readStep_idle {a : Addr} {c : Connection Msg} (hr : ReadStep G s a c s') : Idle s none s' :=
  .of_worker (readStep_worker hr) (congrArg (fun f => f.1.2.1) (readStep_frame hr))

theorem writeStep_idle {a : Addr} {r : WriteResult} (hr : WriteStep G s a r s') : Idle s none s' :=
  .of_worker (writeStep_worker hr) (congrArg (fun f => f.1.2.1) (writeStep_frame hr))

/-- `on_write` on one object. -/
theorem WriteStep.sets {a : Addr} {c : Connection Msg} {r : WriteResult} (hc : s.heap a = some c)
    (hr : WriteStep G s a r s') : ∃ f, Writes G f ∧ Sets s (some a) (f c).outbound s' := by
  cases hr with
  | @quiet f hf => exact ⟨f, hf, .modConn hc⟩
  | @failed f _ hf =>
    exact ⟨f, hf, (Sets.modConn hc).trans_kept (Kept.connClose _ a fun _ _ => rfl)⟩

/-- `create_conn` registers an object of which nothing was sent. -/
theorem Sets.registerConn (s₁ : Layer Cls Msg) (w : ℕ) {a : Addr} (id : ℕ) (st : ConnState)
    {c : Connection Msg} (hc : s₁.heap a = some c) (hheap : ∀ d, d ≠ a → s₁.heap d = s.heap d) :
    Sets s (some a) (c.outbound.register w) (s₁.registerConn w a id st) := by
  intro d c' hc'
  rw [registerConn_heap] at hc'
  split at hc'
  · next hd =>
    rw [hd, hc, Option.map_some, Option.some.injEq] at hc'
    exact .inl ⟨congrArg some hd, hc' ▸ rfl⟩
  · next hd => exact .inr ⟨fun h => hd (Option.some.inj h), c', (hheap d hd) ▸ hc', rfl⟩

theorem Sets.goto {r : Option Addr} (h : Sets s r o s') (w : ℕ) (p : Phase) :
    Sets s r o (s'.goto w p) := h

theorem turn_workerStep {w : ℕ} {e : WorkerAct} (hw : s.WellPlaced) (hs : WorkerStep G s w e s') :
    Turn G s (.worker w e) s' := by
  have hsame : Sets s none (.fresh none) s := .of_kept (.refl s)
  have hmod : ∀ {f : Connection Msg → Connection Msg} a, (∀ c, (f c).outbound = c.outbound) →
      Sets s none (.fresh none) (s.modConn a f) := fun a hf => .of_kept (Kept.modConn s a hf)
  cases hs with
  | top hp =>
    refine .calm hsame (.modWorker s s rfl rfl rfl fun _ _ hd => ⟨hd, fun hr => ?_⟩)
    rw [hp] at hr
    cases hr
  | drain hp => exact .drain rfl hp rfl
  | transferEnd hp | transferSkip hp | connectorsEnd hp | passEnd hp | passSkip hp | passVisit hp
  | readStart hp | readSkip hp | writeStart hp | writeSkip hp | pollEnd hp | callbackOk hp
  | deleteEnd hp => exact .calm hsame (.goto s s rfl rfl hp (List.nil_subset _))
  | sweepEnd hp | sweepSkip hp => exact .calm hsame (.goto s s rfl rfl hp fun _ hr => hr)
  | @transferMove a todo c it rest hp =>
    exact .calm (hmod a fun _ => rfl)
      (.modWorker s (s.modConn a (.setRead rest)) rfl rfl rfl fun _ _ hd => ⟨hd, id⟩)
  | @push a rest written hp hq =>
    have hplace : Idle s none ((s.setConnectors rest).setPlace a (.handed s.nextThread)) :=
      .of_worker rfl rfl
    exact .calm (hmod a (f := .setPlace (.handed s.nextThread)) fun _ => rfl)
      (hplace.trans (.giveWorker _ _ _))
  | @read a back c s₁ hp hc hr =>
    have hsets : Sets s none (.fresh none) s₁ := .of_kept (Kept.outbound_readStep hr)
    exact .calm (hsets.goto w _)
      (.goto s s₁ (readStep_worker hr) (readStep_idle hr).pushes hp (List.nil_subset _))
  | @write a back c r s₁ hp hc he hr =>
    obtain ⟨f, hf, hset⟩ := hr.sets hc
    exact .write hp hc hf (hset.goto w _)
      (.goto s s₁ (writeStep_worker hr) (writeStep_idle hr).pushes hp (List.nil_subset _))
  | @readEvent a c hp =>
    exact .calm ((hmod a (f := .readFired) fun _ => rfl).goto w _)
      (.goto s (s.modConn a .readFired) rfl rfl hp (List.nil_subset _))
  | @writeEvent a c hp =>
    exact .calm ((hmod a (f := .writeFired) fun _ => rfl).goto w _)
      (.goto s (s.modConn a .writeFired) rfl rfl hp (List.nil_subset _))
  | dropped => exact .calm hsame (.take s w _ _)
  | @accepted n st rest a hp hq ha he =>
    have hset : Sets s (some a) (.fresh (some w))
        (((s.modWorker w (.take n rest)).alloc a .connecting false).registerConn w a s.nextId st) := by
      refine .registerConn (c := .new s.nextId .connecting) _ w s.nextId st ?_ fun d hd => ?_
      · rw [alloc_heap, if_pos rfl]
        rfl
      · rw [alloc_heap, if_neg hd]
        rfl
    have halloc : Idle s none ((s.modWorker w (.take n rest)).alloc a .connecting false) :=
      (Idle.take s w n rest).trans (.of_worker rfl rfl)
    refine .make ?_ hset (halloc.trans (.registerConn _ w a _ st))
    rw [he, allocates, hq]
  | @refused n st rest a hp hq =>
    refine .calm ((hmod a (f := .setPlace (.refused w)) fun _ => rfl).goto w (.callback a false)) ?_
    have hplace : Idle s none ((s.modWorker w (.take n rest)).setPlace a (.refused w)) :=
      (Idle.take s w n rest).trans (.of_worker rfl rfl)
    refine hplace.goto_after (p := .poll) ?_ rfl
    show ((s.modWorker w (.take n rest)).worker w).phase = .poll
    rw [modWorker_worker_self]
    exact hp
  | @connected n st rest a c hp hq hc =>
    have htd : c.td = none := hw.td_of_place (hw.handed_of_cons hq) hc
    refine .register (w := w) hc htd ?_ ?_
    · exact (Sets.registerConn (s.modWorker w (.take n rest)) w c.id st hc fun _ _ => rfl).goto w _
    · have hreg : Idle s (some a) ((s.modWorker w (.take n rest)).registerConn w a c.id st) :=
        (Idle.take s w n rest).trans (.registerConn _ w a _ st)
      refine hreg.goto_after (p := .poll) ?_ rfl
      rw [Layer.registerConn, modWorker_worker_self]
      show ((s.modWorker w (.take n rest)).worker w).phase = .poll
      rw [modWorker_worker_self]
      exact hp
  | @callbackFail a hp =>
    have hfree : Idle s none (s.free a) :=
      .of_worker (free_worker s a) (congrArg (fun f => f.1.2.1) (free_frame s a))
    exact .calm (.free s a) (.goto s (s.free a) (free_worker s a) hfree.pushes hp (List.nil_subset _))
  | @notice a todo removeIds c junk hp =>
    rw [noticeStep]
    split
    · exact .calm hsame (.refl s)
    · have hnotice : ∀ it, Idle s none ((s.modLife c.id .notice).modWorker w (.queueRead it)) :=
        fun it => .modWorker s (s.modLife c.id .notice) rfl rfl rfl fun _ _ hd => ⟨hd, id⟩
      refine .calm hsame ((hnotice _).trans
        (.goto (p := .sweep (a :: todo) removeIds) _ _ rfl rfl ?_ fun _ hr => hr))
      rw [modWorker_worker_self]
      exact hp
  | @closing a todo removeIds c hp hc =>
    refine .close (hw.in_hand hp List.mem_cons_self) hc (.modConn hc) ?_ ?_
    · refine .modWorker s (s.modConn a connInternalClose) rfl rfl rfl fun _ _ hd => ⟨hd, fun hr => ?_⟩
      rw [hp] at hr
      exact List.mem_append_left _ hr
    · rw [closingStep, modWorker_worker_self]
      exact List.mem_append_right _ (List.mem_singleton_self a)
  | @erase removeIds hp =>
    refine .calm (.of_kept (Kept.retire s w removeIds fun _ => by rfl))
      (.modWorker s { s with heap := s.retire w removeIds } rfl rfl rfl fun _ _ hd => ?_)
    have hkeep := List.mem_filter.mp hd
    refine ⟨hkeep.1, fun hr => ?_⟩
    rw [hp] at hr
    exact absurd (show _ ∈ removeIds from hr) (by simpa using hkeep.2)
  | @deleteFree t a rest c hp hq hc htime =>
    have hfree : Idle s none (s.free a) :=
      .of_worker (free_worker s a) (congrArg (fun f => f.1.2.1) (free_frame s a))
    exact .calm (.free s a)
      (.modWorker s (s.free a) (free_worker s a) hfree.pushes rfl fun _ _ hd => ⟨hd, id⟩)

/-- **What a step does to the write sides.** -/
theorem step_turn {a : Act Cls Msg} (hw : s.WellPlaced) (hs : s.step G a = some s') :
    Turn G s a s' := by
  have hsame : Sets s none (.fresh none) s := .of_kept (.refl s)
  cases a with
  | worker w e =>
    simp only [Layer.step, Option.ite_none_right_eq_some] at hs
    exact turn_workerStep hw (workerStep_cases hs.2)
  | connect a =>
    simp only [Layer.step, Option.ite_none_right_eq_some, Option.some.injEq] at hs
    obtain ⟨ha, rfl⟩ := hs
    have hset : Sets s (some a) (.fresh none) (s.netConnect a) := by
      intro d c' hc'
      change (s.alloc a .connecting true).heap d = some c' at hc'
      rw [alloc_heap] at hc'
      split at hc'
      · next hd => exact .inl ⟨congrArg some hd, (Option.some.inj hc') ▸ rfl⟩
      · next hd => exact .inr ⟨fun h => hd (Option.some.inj h), c', hc', rfl⟩
    exact .make rfl hset ⟨fun _ => rfl, fun _ hd => ⟨hd, id⟩, rfl⟩
  | close a =>
    obtain ⟨c, -, hs⟩ := Option.bind_eq_some_iff.mp hs
    simp only [Option.ite_none_right_eq_some, Option.some.injEq] at hs
    obtain ⟨-, rfl⟩ := hs
    exact .calm (.of_kept (Kept.connClose s a fun _ _ => rfl))
      (.of_worker (connClose_worker s a) (congrArg (fun f => f.1.2.1) (connClose_frame s a)))
  | accept written =>
    simp only [Layer.step, Option.ite_none_right_eq_some, Option.some.injEq] at hs
    obtain ⟨-, rfl⟩ := hs
    exact .calm hsame (.giveWorker s _ _)
  | getMsgs i =>
    simp only [Layer.step, Option.ite_none_right_eq_some, Option.some.injEq] at hs
    obtain ⟨-, rfl⟩ := hs
    exact .calm hsame (.modWorker s { s with output := s.output ++ (s.worker i).tdReadMsgs } rfl rfl rfl
      fun _ _ hd => ⟨hd, id⟩)
  | send w it =>
    simp only [Layer.step, Option.ite_none_right_eq_some, Option.some.injEq] at hs
    exact .send rfl hs.2.symm
  | clock t | regist msgType init =>
    cases hs
    exact .calm hsame (.of_worker rfl rfl)

/-- `td_write_msgs_` distributed. -/
theorem drainWrites_outbound (conns : List Addr) (its : List (Item Msg))
    (heap : Addr → Option (Connection Msg)) (d : Addr) :
    (drainWrites conns heap its d).map Connection.outbound =
      ((heap d).map Connection.outbound).map fun o =>
        { o with queued := o.queued ++ if d ∈ conns then itemsFor d its else [] } := by
  rw [drainWrites_heap, Option.map_map, Option.map_map]
  rfl

/-! ### Whom a node is for -/

/-- Worker `w` registered an object that was made at `b`. -/
def Owns (s : Layer Cls Msg) (w : ℕ) (b : Addr) : Prop :=
  ∃ id < s.nextId, (s.life id).addr = b ∧ (s.life id).owner = some w

/-- No two objects were made at one address. -/
def Apart (s : Layer Cls Msg) : Prop :=
  ∀ i < s.nextId, ∀ j < s.nextId, (s.life i).addr = (s.life j).addr → i = j

theorem Owns.step {a : Act Cls Msg} {w : ℕ} (h : s.Owns w b) (hw : s.WellPlaced)
    (hs : s.step G a = some s') : s'.Owns w b := by
  obtain ⟨id, hid, haddr, howner⟩ := h
  exact ⟨id, hid.trans_le (nextId_le hs), (step_addr hw hs hid).trans haddr, step_owner hw hs howner⟩

theorem Apart.step {a : Act Cls Msg} (h : s.Apart) (hw : s.WellPlaced) (hs : s.step G a = some s')
    (hnew : ∀ b ∈ s.allocates a, ∀ id < s.nextId, (s.life id).addr ≠ b) : s'.Apart := by
  intro i hi j hj heq
  rcases step_nextId hs with hn | ⟨b, ha, -, hn, haddr⟩
  · rw [hn] at hi hj
    rw [step_addr hw hs hi, step_addr hw hs hj] at heq
    exact h i hi j hj heq
  · rw [hn] at hi hj
    rcases Nat.lt_succ_iff_lt_or_eq.mp hi with hi | rfl
    · rcases Nat.lt_succ_iff_lt_or_eq.mp hj with hj | rfl
      · rw [step_addr hw hs hi, step_addr hw hs hj] at heq
        exact h i hi j hj heq
      · rw [haddr, step_addr hw hs hi] at heq
        exact absurd heq (hnew b ha i hi)
    · rcases Nat.lt_succ_iff_lt_or_eq.mp hj with hj | rfl
      · rw [haddr, step_addr hw hs hj] at heq
        exact absurd heq.symm (hnew b ha j hj)
      · rfl

/-- The object at an address is that of the worker that registered one there. -/
theorem Owns.td {w : ℕ} (h : s.Owns w b) (hw : s.WellPlaced) (hap : s.Apart) {c : Connection Msg}
    (hc : s.heap b = some c) : c.td = some w := by
  obtain ⟨id, hid, haddr, howner⟩ := h
  have heq : c.id = id := hap _ (hw.id_lt hc) _ hid ((hw.addr hc).trans haddr.symm)
  rw [← hw.owner hc, heq, howner]

/-- What `net_send` finds at `conn->td_`. -/
theorem WellPlaced.owns (hw : s.WellPlaced) {w : ℕ} {c : Connection Msg} (hc : s.heap b = some c)
    (htd : c.td = some w) : s.Owns w b :=
  ⟨c.id, hw.id_lt hc, hw.addr hc, (hw.owner hc).trans htd⟩

/-- A step queues nothing for a worker but in its push. -/
theorem step_tdWriteMsgs {a : Act Cls Msg} {v : ℕ} {it : Item Msg} (hw : s.WellPlaced)
    (hs : s.step G a = some s') (hit : it ∈ (s'.worker v).tdWriteMsgs) :
    it ∈ (s.worker v).tdWriteMsgs ∨ a = .send v it := by
  cases step_turn hw hs with
  | calm _ k | write _ _ _ _ k | close _ _ _ k | make _ _ k | register _ _ _ k =>
    exact .inl (k.queue v ▸ hit)
  | drain _ _ h =>
    rw [h, drainStep, modWorker_worker] at hit
    split at hit
    · cases hit
    · exact .inl hit
  | @send w jt ha h =>
    rw [h, pushWrite, modWorker_worker] at hit
    split at hit
    · next hv =>
      rcases List.mem_append.mp hit with hit | hit
      · exact .inl hit
      · exact .inr (by rw [ha, hv, List.mem_singleton.mp hit])
    · exact .inl hit

end Layer

namespace Sending

variable {G : Generated Cls Msg} {p p' : Sending Cls Msg}

/-- Every node in a queue, or pushed before, is for a connection of the worker it went to. -/
structure Addressed (p : Sending Cls Msg) : Prop where
  apart : p.net.Apart
  calls : ∀ q ∈ p.calls, p.net.Owns q.1 q.2.node.msgConn
  queued : ∀ w, ∀ it ∈ (p.net.worker w).tdWriteMsgs, it ∈ p.net.pushes
  pushed : ∀ it ∈ p.net.pushes, ∃ w, p.net.Owns w it.node.msgConn

/-- What a step is: one of the layer, a call, or a push. -/
inductive SendStep (G : Generated Cls Msg) (p : Sending Cls Msg) : SendAct Cls Msg → Sending Cls Msg → Prop
  | net {a net} (ha : ∀ w it, a ≠ .send w it) (h : p.net.step G a = some net) :
      SendStep G p (.net a) { p with net := net }
  | quiet {m} (hm : ∀ a, m ≠ .net a) : SendStep G p m p
  | call {m w it c} (hm : ∀ a, m ≠ .net a) (hc : p.net.heap it.node.msgConn = some c)
      (htd : c.td = some w) : SendStep G p m { p with calls := p.calls ++ [(w, it)] }
  | push {i w it net} (hi : (w, it) ∈ p.calls) (h : p.net.step G (.send w it) = some net) :
      SendStep G p (.push i) ⟨net, p.calls.eraseIdx i⟩

theorem netSend_cases {m : SendAct Cls Msg} {it : Item Msg} (hm : ∀ a, m ≠ .net a)
    (h : p.netSend it = some p') : SendStep G p m p' := by
  unfold netSend at h
  split at h
  · cases h
    exact .quiet hm
  · obtain ⟨w, hw, rfl⟩ := Option.map_eq_some_iff.mp h
    obtain ⟨c, hc, htd⟩ := Option.bind_eq_some_iff.mp hw
    exact .call hm hc htd

theorem step_cases {m : SendAct Cls Msg} (h : p.step G m = some p') : SendStep G p m p' := by
  unfold step at h
  split at h
  case h_1 => cases h
  case h_2 a ha =>
    obtain ⟨net, hnet, rfl⟩ := Option.map_eq_some_iff.mp h
    exact .net (fun w it heq => ha w it heq) hnet
  case h_3 => exact netSend_cases (fun _ h => nomatch h) h
  case h_4 =>
    unfold netSendTo at h
    split at h
    · cases h
      exact .quiet fun _ h => nomatch h
    · exact netSend_cases (fun _ h => nomatch h) h
  case h_5 =>
    obtain ⟨q, hq, h⟩ := Option.bind_eq_some_iff.mp h
    obtain ⟨net, hnet, rfl⟩ := Option.map_eq_some_iff.mp h
    exact .push (List.mem_of_getElem? hq) hnet

/-- The runs with `net_send` are runs of the layer. -/
theorem net_of_reach {C : Sending Cls Msg → SendAct Cls Msg → Prop}
    (h : (sendSystem G).Reach C p) : (netSystem G).Reach Lts.Free p.net := by
  induction h with
  | start h₀ => exact .start h₀.1
  | next _ _ hs ih =>
    cases step_cases hs with
    | quiet => exact ih
    | call => exact ih
    | @net a net _ h => exact .next (a := a) ih trivial h
    | @push i w it net _ h => exact .next (a := .send w it) ih trivial h

/-- What a step does to the invariant on addresses. -/
theorem Addressed.step {m : SendAct Cls Msg} (h : p.Addressed) (hw : p.net.WellPlaced)
    (hc : p.NoReuse m) (hs : p.step G m = some p') : p'.Addressed := by
  cases step_cases hs with
  | quiet => exact h
  | @call m w it c _ hobj htd =>
    refine ⟨h.apart, fun q hq => ?_, h.queued, h.pushed⟩
    rcases List.mem_append.mp hq with hq | hq
    · exact h.calls q hq
    · rw [List.mem_singleton.mp hq]
      exact hw.owns hobj htd
  | @net a net ha hnet =>
    have hpush : net.pushes = p.net.pushes := by
      rw [Layer.step_pushes hnet]
      cases a with
      | send w it => exact absurd rfl (ha w it)
      | _ => exact List.append_nil _
    refine ⟨h.apart.step hw hnet hc, fun q hq => (h.calls q hq).step hw hnet, fun w it hit => ?_,
      fun it hit => ?_⟩
    · rcases Layer.step_tdWriteMsgs hw hnet hit with hit | hsend
      · exact hpush.symm ▸ h.queued w it hit
      · exact absurd hsend (ha w it)
    · obtain ⟨w, hown⟩ := h.pushed it (hpush ▸ hit)
      exact ⟨w, hown.step hw hnet⟩
  | @push i w it net hi hnet =>
    have hpush : net.pushes = p.net.pushes ++ [it] := Layer.step_pushes hnet
    have hsub : ∀ q ∈ p.calls.eraseIdx i, q ∈ p.calls := fun q hq => List.mem_of_mem_eraseIdx hq
    have hap : net.Apart := h.apart.step hw hnet fun b hb => nomatch hb
    refine ⟨hap, fun q hq => (h.calls q (hsub q hq)).step hw hnet, fun v jt hjt => ?_, fun jt hjt => ?_⟩
    · show jt ∈ net.pushes
      rw [hpush]
      rcases Layer.step_tdWriteMsgs hw hnet hjt with hjt | hsend
      · exact List.mem_append_left _ (h.queued v jt hjt)
      · cases hsend
        exact List.mem_append_right _ (List.mem_singleton_self it)
    · change jt ∈ net.pushes at hjt
      rw [hpush] at hjt
      rcases List.mem_append.mp hjt with hjt | hjt
      · obtain ⟨v, hown⟩ := h.pushed jt hjt
        exact ⟨v, hown.step hw hnet⟩
      · rw [List.mem_singleton.mp hjt]
        exact ⟨w, (h.calls (w, it) hi).step hw hnet⟩

end Sending

/-! ### The stream of one connection -/

namespace Layer

variable {G : Generated Cls Msg} {s s' : Layer Cls Msg} {b : Addr} {o : Outbound Msg}

/-- The invariant of the write side `o` of the object at `b`: what was pushed for it is, in order,
what it has sent, what is buffered, and what stands in the two queues. -/
structure Intact (G : Generated Cls Msg) (s : Layer Cls Msg) (b : Addr) (o : Outbound Msg) : Prop where
  unset : o.td = none → o.sent = [] ∧ o.flushed = [] ∧ o.queued = []
  sent : o.sent <+: frames G o.flushed
  items : o.flushed ++ o.queued <+: itemsFor b s.pushes
  whole : ∀ w, b ∈ (s.worker w).threadConnections →
    o.flushed ++ o.queued ++ itemsFor b (s.worker w).tdWriteMsgs = itemsFor b s.pushes
  buffered : ∀ w, b ∈ (s.worker w).threadConnections → b ∉ (s.worker w).phase.removing →
    o.sent ++ o.buffered = frames G o.flushed

theorem Intact.idle {r : Option Addr} (h : Intact G s b o) (k : Idle s r s') (hb : some b ≠ r) :
    Intact G s' b o where
  unset := h.unset
  sent := h.sent
  items := k.pushes ▸ h.items
  whole w hmem := by
    rw [k.queue, k.pushes]
    exact h.whole w (k.conns hb hmem).1
  buffered w hmem hr :=
    have hold := k.conns hb hmem
    h.buffered w hold.1 fun hrem => hr (hold.2 hrem)

/-- An object that was given nothing, at an address for which nothing was pushed. -/
theorem Intact.fresh (td : Option ℕ) (hpush : itemsFor b s.pushes = [])
    (hqueue : ∀ w, itemsFor b (s.worker w).tdWriteMsgs = []) : Intact G s b (.fresh td) where
  unset _ := ⟨rfl, rfl, rfl⟩
  sent := List.nil_prefix
  items := List.nil_prefix
  whole w _ := by
    rw [hpush, hqueue]
    rfl
  buffered _ _ _ := rfl

/-- `on_write` moves bytes and nodes on. -/
theorem Intact.write {c : Connection Msg} {f : Connection Msg → Connection Msg} {w : ℕ}
    (h : Intact G s b c.outbound) (hf : Writes G f) (htd : c.td = some w)
    (hmem : b ∈ (s.worker w).threadConnections) (hr : b ∉ (s.worker w).phase.removing) :
    Intact G s b (f c).outbound := by
  have hitems : (f c).flushed ++ (f c).connWriteMsgs = c.flushed ++ c.connWriteMsgs := by
    rw [hf.flushed, hf.queue, List.append_nil]
  have hbytes : (f c).sent ++ (f c).writeBuffer.bytes = frames G (f c).flushed := by
    have hold : c.sent ++ c.writeBuffer.bytes = frames G c.flushed := h.buffered w hmem hr
    rw [hf.bytes, hf.flushed, frames_append, hold]
    rfl
  have hside : (f c).readSide.td = c.readSide.td := congrArg Connection.td (hf.readSide c)
  constructor
  · intro hnone
    have htd' : (f c).td = some w := hside.trans htd
    exact absurd (htd'.symm.trans hnone) (Option.some_ne_none w)
  · exact ⟨_, hbytes⟩
  · show (f c).flushed ++ (f c).connWriteMsgs <+: _
    rw [hitems]
    exact h.items
  · intro v hv
    show (f c).flushed ++ (f c).connWriteMsgs ++ _ = _
    rw [hitems]
    exact h.whole v hv
  · exact fun _ _ _ => hbytes

/-- A worker distributes its queue. -/
theorem Intact.drain {w : ℕ} (h : Intact G s b o)
    (htd : ∀ v, b ∈ (s.worker v).threadConnections → o.td = some v)
    (hp : (s.worker w).phase = .drain) :
    Intact G (s.drainStep w) b { o with
      queued := o.queued ++ if b ∈ (s.worker w).threadConnections then
        itemsFor b (s.worker w).tdWriteMsgs else [] } := by
  have hkeys := SameKeys.drainStep s w
  by_cases hmem : b ∈ (s.worker w).threadConnections
  · have hmove : o.flushed ++ (o.queued ++ itemsFor b (s.worker w).tdWriteMsgs) =
        itemsFor b s.pushes := by
      rw [← List.append_assoc]
      exact h.whole w hmem
    rw [if_pos hmem]
    refine ⟨fun hnone => ?_, h.sent, hmove ▸ List.prefix_rfl, fun v hv => ?_, fun v hv _ => ?_⟩
    · rw [htd w hmem] at hnone
      cases hnone
    · have heq : v = w := by
        have hold := htd v (hkeys.conns v ▸ hv)
        rw [htd w hmem, Option.some.injEq] at hold
        exact hold.symm
      have hnil : ((s.drainStep w).worker v).tdWriteMsgs = [] := by
        rw [heq, drainStep, modWorker_worker_self]
      rw [hnil]
      exact (List.append_nil _).trans hmove
    · refine h.buffered w hmem ?_
      rw [hp]
      exact List.not_mem_nil
  · rw [if_neg hmem, List.append_nil]
    refine ⟨h.unset, h.sent, h.items, fun v hv => ?_, fun v hv hr => ?_⟩
    · have hne : v ≠ w := fun heq => hmem (heq ▸ hkeys.conns v ▸ hv)
      rw [drainStep, modWorker_worker, if_neg hne]
      exact h.whole v (hkeys.conns v ▸ hv)
    · have hne : v ≠ w := fun heq => hmem (heq ▸ hkeys.conns v ▸ hv)
      rw [drainStep, modWorker_worker, if_neg hne] at hr
      exact h.buffered v (hkeys.conns v ▸ hv) hr

/-- A node is pushed, for this connection or for another. -/
theorem Intact.push {w : ℕ} {it : Item Msg} (h : Intact G s b o)
    (htd : ∀ v, b ∈ (s.worker v).threadConnections → o.td = some v)
    (hit : it.node.msgConn = b → o.td = some w) : Intact G (s.pushWrite w it) b o := by
  have hworker : ∀ v, ((s.pushWrite w it).worker v).threadConnections =
        (s.worker v).threadConnections ∧
      ((s.pushWrite w it).worker v).phase = (s.worker v).phase := by
    intro v
    rw [pushWrite, modWorker_worker]
    split <;> exact ⟨rfl, rfl⟩
  have hpushes : (s.pushWrite w it).pushes = s.pushes ++ [it] := rfl
  refine ⟨h.unset, h.sent, ?_, fun v hv => ?_, fun v hv hr => ?_⟩
  · rw [hpushes, itemsFor_append]
    exact h.items.trans (List.prefix_append _ _)
  · rw [(hworker v).1] at hv
    have hold := h.whole v hv
    by_cases hb : it.node.msgConn = b
    · have heq : v = w := by
        have hown := htd v hv
        rw [hit hb, Option.some.injEq] at hown
        exact hown.symm
      have hqueue : ((s.pushWrite w it).worker v).tdWriteMsgs = (s.worker v).tdWriteMsgs ++ [it] := by
        rw [heq, pushWrite, modWorker_worker_self]
        rfl
      rw [hqueue, hpushes, itemsFor_append_self _ hb, itemsFor_append_self _ hb, ← hold]
      simp only [List.append_assoc]
    · have hqueue : itemsFor b ((s.pushWrite w it).worker v).tdWriteMsgs =
          itemsFor b (s.worker v).tdWriteMsgs := by
        rw [pushWrite, modWorker_worker]
        split
        · exact itemsFor_append_of_ne _ hb
        · rfl
      rw [hqueue, hpushes, itemsFor_append_of_ne _ hb]
      exact hold
  · rw [(hworker v).1] at hv
    rw [(hworker v).2] at hr
    exact h.buffered v hv hr

/-- What is in `thread_connections_` has that worker as its `td_`. -/
theorem WellPlaced.td_of_conns (hw : s.WellPlaced) {w : ℕ} {c : Connection Msg}
    (hc : s.heap b = some c) (hmem : b ∈ (s.worker w).threadConnections) : c.td = some w :=
  hw.td_of_place (hw.placed (p := .registered w) hmem) hc

end Layer

namespace Sending

variable {G : Generated Cls Msg} {p p' : Sending Cls Msg}

/-- Nothing was pushed for an address no worker has. -/
theorem Addressed.unowned (h : p.Addressed) {b : Addr} (hb : ∀ w, ¬ p.net.Owns w b) :
    itemsFor b p.net.pushes = [] ∧ ∀ w, itemsFor b (p.net.worker w).tdWriteMsgs = [] := by
  have hne : ∀ it ∈ p.net.pushes, it.node.msgConn ≠ b := by
    intro it hit heq
    obtain ⟨w, hown⟩ := h.pushed it hit
    exact hb w (heq ▸ hown)
  exact ⟨itemsFor_eq_nil hne, fun w => itemsFor_eq_nil fun it hit => hne it (h.queued w it hit)⟩

/-- **A step of the layer keeps every stream.** -/
theorem Addressed.intact_step (h : p.Addressed) (hw : p.net.WellPlaced) {a : Act Cls Msg}
    {net : Layer Cls Msg} (hs : p.net.step G a = some net)
    (hnew : ∀ b ∈ p.net.allocates a, ∀ id < p.net.nextId, (p.net.life id).addr ≠ b)
    (hsend : ∀ w it, a = .send w it → p.net.Owns w it.node.msgConn)
    (hi : ∀ {b c}, p.net.heap b = some c → Layer.Intact G p.net b c.outbound)
    {b : Addr} {c' : Connection Msg} (hc' : net.heap b = some c') :
    Layer.Intact G net b c'.outbound := by
  have hother : ∀ {r c}, p.net.heap b = some c → c'.outbound = c.outbound → Layer.Idle p.net r net →
      some b ≠ r → Layer.Intact G net b c'.outbound := by
    intro r c hc hout k hr
    rw [hout]
    exact (hi hc).idle k hr
  have hblank : ∀ {r} td, c'.outbound = .fresh td → Layer.Idle p.net r net →
      (∀ w, ¬ p.net.Owns w b) → Layer.Intact G net b c'.outbound := by
    intro r td hout k hunowned
    obtain ⟨hpush, hqueue⟩ := h.unowned hunowned
    rw [hout]
    refine .fresh td (k.pushes ▸ hpush) fun w => ?_
    rw [k.queue]
    exact hqueue w
  cases Layer.step_turn hw hs with
  | calm hset k =>
    rcases hset b c' hc' with ⟨hb, -⟩ | ⟨hb, c, hc, hout⟩
    · cases hb
    · exact hother hc hout k hb
  | @write w d c back f hp hc hf hset k =>
    rcases hset b c' hc' with ⟨hb, hout⟩ | ⟨-, c, hc, hout⟩
    · cases hb
      have hmem : b ∈ (p.net.worker w).threadConnections :=
        (hw.phase w).subset (by rw [hp]; exact List.mem_cons_self)
      have hr : b ∉ (p.net.worker w).phase.removing := by
        rw [hp]
        exact List.not_mem_nil
      rw [hout]
      exact ((hi hc).write hf (hw.td_of_conns hc hmem) hmem hr).idle k (Option.some_ne_none b)
    · exact hother hc hout k (Option.some_ne_none b)
  | @close w d c hat hc hset k hr =>
    rcases hset b c' hc' with ⟨hb, hout⟩ | ⟨-, c, hc, hout⟩
    · cases hb
      have hold := (hi hc).idle k (Option.some_ne_none b)
      rw [hout]
      refine ⟨hold.unset, hold.sent, hold.items, hold.whole, fun v hv hnot => ?_⟩
      -- the buffer is gone, and the sweep has the object
      have hmem := (k.conns (Option.some_ne_none b) hv).1
      have hreg : p.net.placeAt b = some (.registered v) := hw.placed (p := .registered v) hmem
      rw [hat, Option.some.injEq, Place.registered.injEq] at hreg
      exact absurd (hreg ▸ hr) hnot
    · exact hother hc hout k (Option.some_ne_none b)
  | @make d td ha hset k =>
    rcases hset b c' hc' with ⟨hb, hout⟩ | ⟨hb, c, hc, hout⟩
    · cases hb
      refine hblank td hout k fun w hown => ?_
      obtain ⟨id, hid, haddr, -⟩ := hown
      exact hnew b ha id hid haddr
    · exact hother hc hout k hb
  | @register w d c hc htd hset k =>
    rcases hset b c' hc' with ⟨hb, hout⟩ | ⟨hb, c, hc, hout⟩
    · cases hb
      obtain ⟨hsent, hflushed, hqueued⟩ := (hi hc).unset htd
      refine hblank (some w) ?_ k fun v hown => ?_
      · rw [hout, Outbound.register, hsent, hflushed, hqueued]
        rfl
      · rw [hown.td hw h.apart hc] at htd
        cases htd
    · exact hother hc hout k hb
  | @drain w e ha hp heq =>
    subst heq
    have hdrain := Layer.drainWrites_outbound (p.net.worker w).threadConnections
      (p.net.worker w).tdWriteMsgs p.net.heap b
    change ((p.net.drainStep w).heap b).map _ = _ at hdrain
    rw [hc', Option.map_some] at hdrain
    obtain ⟨o, ho, hout⟩ := Option.map_eq_some_iff.mp hdrain.symm
    obtain ⟨c, hc, rfl⟩ := Option.map_eq_some_iff.mp ho
    rw [← hout]
    exact (hi hc).drain (fun v hv => hw.td_of_conns hc hv) hp
  | @send w it ha heq =>
    subst heq
    refine (hi hc').push (fun v hv => hw.td_of_conns hc' hv) fun hb => ?_
    exact (hsend w it ha).td hw h.apart (hb ▸ hc')

/-- Every stream of a state reached is whole. -/
structure Streams (G : Generated Cls Msg) (p : Sending Cls Msg) : Prop where
  addressed : p.Addressed
  intact : ∀ {b c}, p.net.heap b = some c → Layer.Intact G p.net b c.outbound

theorem Streams.step {m : SendAct Cls Msg} (h : p.Streams G) (hw : p.net.WellPlaced)
    (hc : p.NoReuse m) (hs : p.step G m = some p') : p'.Streams G := by
  have haddr := h.addressed.step hw hc hs
  cases step_cases hs with
  | quiet => exact h
  | call => exact ⟨haddr, h.intact⟩
  | @net a net ha hnet =>
    exact ⟨haddr, h.addressed.intact_step hw hnet hc (fun w it heq => absurd heq (ha w it)) h.intact⟩
  | @push i w it net hi hnet =>
    refine ⟨haddr, h.addressed.intact_step hw hnet (fun b hb => nomatch hb) (fun v jt heq => ?_)
      h.intact⟩
    cases heq
    exact h.addressed.calls (w, it) hi

theorem streams_of_reach (h : (sendSystem G).Reach NoReuse p) : p.Streams G := by
  refine h.invariant_of ?_ ?_
  · rintro ⟨net, calls⟩ ⟨⟨threadNum, registry, clock, rfl⟩, rfl⟩
    refine ⟨⟨fun i hi => absurd hi i.not_lt_zero, ?_, ?_, ?_⟩, fun hc => nomatch hc⟩
    · exact fun q hq => nomatch hq
    · exact fun w it hit => nomatch hit
    · exact fun it hit => nomatch hit
  · exact fun p m p' hr hi hc hs => hi.step (wellPlaced_of_reach (net_of_reach hr)) hc hs

end Sending

/-! ### The result -/

/-- **Nothing is lost, added or reordered** between `net_send` and the socket, for the connection
`c` at `b`.  `conn_internal_close` frees what is left in the write buffer. -/
structure StreamIntact (G : Generated Cls Msg) (s : Layer Cls Msg) (b : Addr) (c : Connection Msg) :
    Prop where
  sent_prefix : c.sent <+: frames G (itemsFor b s.pushes)
  whole : ∀ w, b ∈ (s.worker w).threadConnections → b ∉ (s.worker w).phase.removing →
    c.sent ++ c.writeBuffer.bytes ++ frames G c.connWriteMsgs ++
      frames G (itemsFor b (s.worker w).tdWriteMsgs) = frames G (itemsFor b s.pushes)
  swept : ∀ w, b ∈ (s.worker w).threadConnections → ∃ freed,
    c.sent ++ freed ++ frames G c.connWriteMsgs ++
      frames G (itemsFor b (s.worker w).tdWriteMsgs) = frames G (itemsFor b s.pushes)

theorem Layer.Intact.streamIntact {G : Generated Cls Msg} {s : Layer Cls Msg} {b : Addr}
    {c : Connection Msg} (h : Layer.Intact G s b c.outbound) : StreamIntact G s b c := by
  have hrest : ∀ {w buffered}, b ∈ (s.worker w).threadConnections →
      c.sent ++ buffered = frames G c.flushed →
      c.sent ++ buffered ++ frames G c.connWriteMsgs ++
        frames G (itemsFor b (s.worker w).tdWriteMsgs) = frames G (itemsFor b s.pushes) := by
    intro w buffered hmem heq
    rw [← h.whole w hmem, heq, frames_append, frames_append]
    rfl
  refine ⟨?_, fun w hmem hr => hrest hmem (h.buffered w hmem hr), fun w hmem => ?_⟩
  · exact h.sent.trans (frames_mono G ((List.prefix_append _ _).trans h.items))
  · obtain ⟨freed, hfreed⟩ := h.sent
    exact ⟨freed, hrest hmem hfreed⟩

/-- **Outbound byte stream integrity.** -/
theorem streamIntact_of_reach {G : Generated Cls Msg} {p : Sending Cls Msg}
    (h : (sendSystem G).Reach Sending.NoReuse p) {b : Addr} {c : Connection Msg}
    (hc : p.net.heap b = some c) : StreamIntact G p.net b c :=
  ((Sending.streams_of_reach h).intact hc).streamIntact

/-- A node is sent to a client; the socket takes five of its bytes. -/
def fiveBytes : List (SendAct Protocol.MsgClass Protocol.Message) :=
  .net (.accept true) ::
    ([.go, .go, .go, .go, .go, .notified true 16, .go, .go, .go, .go, .go] :
      List WorkerAct).map (.net <| .worker 0 ·) ++
    [.netSendTo 16 ⟨registNode, .regist 0, .request⟩, .push 0] ++
    ([.go, .go, .go, .go, .go, .go, .go, .go, .go, .writeEvent 16, .write (.wrote 5)] :
      List WorkerAct).map (.net <| .worker 0 ·)

theorem streamIntact_fiveBytes : ∃ p c,
    (sendSystem Protocol.generated).exec ⟨.start 1 Protocol.registry 0, []⟩ fiveBytes = some p ∧
      p.net.heap 16 = some c ∧ c.sent = (encodeNode Protocol.protobuf registNode).take 5 ∧
        StreamIntact Protocol.generated p.net 16 c := by
  obtain ⟨p, hp, hrun⟩ : ∃ p,
      (sendSystem Protocol.generated).exec ⟨.start 1 Protocol.registry 0, []⟩ fiveBytes = some p ∧
        (p.net.heap 16).map Connection.sent =
          some ((encodeNode Protocol.protobuf registNode).take 5) := by
    refine Option.map_eq_some_iff.mp ?_
    decide +kernel
  obtain ⟨c, hc, hsent⟩ := Option.map_eq_some_iff.mp hrun
  have hsteps : (sendSystem Protocol.generated).AllSteps Sending.NoReuse
      ⟨.start 1 Protocol.registry 0, []⟩ fiveBytes := by
    decide +kernel
  exact ⟨p, c, hp, hc, hsent,
    streamIntact_of_reach (.of_exec (.start ⟨⟨1, Protocol.registry, 0, rfl⟩, rfl⟩) hsteps hp) hc⟩

/-- The client hangs up behind them, and the sweep has closed the connection. -/
def fiveBytesSwept : List (SendAct Protocol.MsgClass Protocol.Message) :=
  fiveBytes ++ ([.readEvent 16, .read .eof, .go, .notice 0, .go].map (.net <| .worker 0 ·))

/-- The rest of the frame is in no buffer, and the connection still in `thread_connections_`. -/
theorem not_whole_fiveBytesSwept : ∃ p b c w,
    (sendSystem Protocol.generated).Reach Sending.NoReuse p ∧ p.net.heap b = some c ∧
      b ∈ (p.net.worker w).threadConnections ∧
      c.sent ++ c.writeBuffer.bytes ++ frames Protocol.generated c.connWriteMsgs ++
        frames Protocol.generated (itemsFor b (p.net.worker w).tdWriteMsgs) ≠
          frames Protocol.generated (itemsFor b p.net.pushes) := by
  obtain ⟨p, hp, hrun⟩ : ∃ p,
      (sendSystem Protocol.generated).exec ⟨.start 1 Protocol.registry 0, []⟩ fiveBytesSwept = some p ∧
        (p.net.heap 16).map (fun c => decide (16 ∈ (p.net.worker 0).threadConnections ∧
          c.sent ++ c.writeBuffer.bytes ++ frames Protocol.generated c.connWriteMsgs ++
            frames Protocol.generated (itemsFor 16 (p.net.worker 0).tdWriteMsgs) ≠
              frames Protocol.generated (itemsFor 16 p.net.pushes))) = some true := by
    refine Option.map_eq_some_iff.mp ?_
    decide +kernel
  obtain ⟨c, hc, hlost⟩ := Option.map_eq_some_iff.mp hrun
  have hsteps : (sendSystem Protocol.generated).AllSteps Sending.NoReuse
      ⟨.start 1 Protocol.registry 0, []⟩ fiveBytesSwept := by
    decide +kernel
  obtain ⟨hmem, hne⟩ := of_decide_eq_true hlost
  exact ⟨p, 16, c, 0, .of_exec (.start ⟨⟨1, Protocol.registry, 0, rfl⟩, rfl⟩) hsteps hp, hc, hmem, hne⟩

end GoFight.Net
