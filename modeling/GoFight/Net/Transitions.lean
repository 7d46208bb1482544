import GoFight.Net.System

/-!
# What a worker can do in a step

The loop of `workerStep` once more, as a list of cases: each constructor of `WorkerStep` is one way
through the loop body, with everything the code has tested on it.  Proofs about the worker go by
cases over it and never unfold the loop.

* `ReadStep`, `WriteStep` — the outcomes of the two handlers;
* `workerStep_cases` — every step of the loop is one of the cases.
-/

namespace GoFight.Net

open GoFight.Lib

namespace Layer

variable {Cls Msg : Type*} (G : Generated Cls Msg)

/-- `s'` is `s` after `on_read` on the object `c` at `a`. -/
inductive ReadStep (s : Layer Cls Msg) (a : Addr) (c : Connection Msg) : Layer Cls Msg → Prop
  | data {chunk buffer r} (hne : chunk ≠ []) (hext : c.readBuffer.Extends chunk buffer)
      (hr : messageFormat G.toProtobuf s.registry a buffer
        ⟨c.readBuffer.length, chunk.length, 0⟩ = some r) :
      ReadStep s a c
        ((s.modConn a (.receive r.1 (number c.id (s.life c.id).decoded.length r.2))).modLife c.id
          (.receive chunk (number c.id (s.life c.id).decoded.length r.2)))
  | again : ReadStep s a c (s.modConn a (.waitRead true))
  | shut : ReadStep s a c ((s.modConn a .stopRead).connClose a)
  | failed : ReadStep s a c ((s.modConn a (.waitRead false)).connClose a)

/-- What `on_write` does to a connection whatever comes of it: the queue is flushed, and the read
side is left alone. -/
structure Writes (f : Connection Msg → Connection Msg) : Prop where
  readSide : ∀ c, (f c).readSide = c.readSide
  queue : ∀ c, (f c).connWriteMsgs = []
  flushed : ∀ c, (f c).flushed = c.flushed ++ c.connWriteMsgs
  bytes : ∀ c, (f c).sent ++ (f c).writeBuffer.bytes =
    c.sent ++ c.writeBuffer.bytes ++ encodeAll G.toProtobuf (c.connWriteMsgs.map Item.node)

/-- `s'` is `s` after `on_write` on the object at `a`; `update_event` may have failed. -/
inductive WriteStep (s : Layer Cls Msg) (a : Addr) (r : WriteResult) : Layer Cls Msg → Prop
  | quiet {f} (hf : Writes G f) : WriteStep s a r (s.modConn a f)
  | failed {f} (hr : r = .again false) (hf : Writes G f) :
      WriteStep s a r ((s.modConn a f).connClose a)

/-- `s'` is `s` after the step `e` of the loop of worker `w`. -/
inductive WorkerStep (s : Layer Cls Msg) (w : ℕ) (e : WorkerAct) : Layer Cls Msg → Prop
  | top (hp : (s.worker w).phase = .top) :
      WorkerStep s w e (s.modWorker w fun t => { t with now := s.clock, phase := .drain })
  | drain (hp : (s.worker w).phase = .drain) : WorkerStep s w e (s.drainStep w)
  | transferEnd (hp : (s.worker w).phase = .transfer []) : WorkerStep s w e (s.goto w .connectors)
  | transferSkip {a todo c} (hp : (s.worker w).phase = .transfer (a :: todo))
      (hc : s.heap a = some c) (hmsgs : c.connReadMsgs = []) :
      WorkerStep s w e (s.goto w (.transfer todo))
  | transferMove {a todo c it rest} (hp : (s.worker w).phase = .transfer (a :: todo))
      (hc : s.heap a = some c) (hmsgs : c.connReadMsgs = it :: rest) :
      WorkerStep s w e ((s.modConn a (.setRead rest)).modWorker w
        (.queueRead it))
  | push {a rest written} (hp : (s.worker w).phase = .connectors)
      (hq : s.connectConns = a :: rest) :
      WorkerStep s w e (((s.setConnectors rest).setPlace a (.handed s.nextThread)).giveWorker
        ⟨some a, .connect⟩ written)
  | connectorsEnd (hp : (s.worker w).phase = .connectors) (hq : s.connectConns = []) :
      WorkerStep s w e (s.goto w (.pass (s.worker w).threadConnections))
  | passEnd (hp : (s.worker w).phase = .pass []) : WorkerStep s w e (s.goto w .poll)
  | passSkip {a todo c} (hp : (s.worker w).phase = .pass (a :: todo)) (hc : s.heap a = some c)
      (hst : c.state = .close) : WorkerStep s w e (s.goto w (.pass todo))
  | passVisit {a todo c} (hp : (s.worker w).phase = .pass (a :: todo)) (hc : s.heap a = some c)
      (hst : c.state ≠ .close) : WorkerStep s w e (s.goto w (.tryRead a todo))
  | readStart {a todo c} (hp : (s.worker w).phase = .tryRead a todo) (hc : s.heap a = some c)
      (hread : c.canRead = true) (hst : c.state ≠ .close) :
      WorkerStep s w e (s.goto w (.reading a (some todo)))
  | readSkip {a todo} (hp : (s.worker w).phase = .tryRead a todo) :
      WorkerStep s w e (s.goto w (.tryWrite a todo))
  | writeStart {a todo} (hp : (s.worker w).phase = .tryWrite a todo) :
      WorkerStep s w e (s.goto w (.writing a (some todo)))
  | writeSkip {a todo} (hp : (s.worker w).phase = .tryWrite a todo) :
      WorkerStep s w e (s.goto w (.pass todo))
  | read {a back c s₁} (hp : (s.worker w).phase = .reading a back) (hc : s.heap a = some c)
      (hr : ReadStep G s a c s₁) : WorkerStep s w e (s₁.goto w (readReturn a back))
  | write {a back c r s₁} (hp : (s.worker w).phase = .writing a back) (hc : s.heap a = some c)
      (he : e = .write r) (hr : WriteStep G s a r s₁) : WorkerStep s w e (s₁.goto w (writeReturn back))
  | readEvent {a c} (hp : (s.worker w).phase = .poll)
      (ha : a ∈ (s.worker w).threadConnections) (hc : s.heap a = some c)
      (hev : c.readEvent = true) :
      WorkerStep s w e ((s.modConn a .readFired).goto w
        (if c.state = .close then .poll else .reading a none))
  | writeEvent {a c} (hp : (s.worker w).phase = .poll)
      (ha : a ∈ (s.worker w).threadConnections) (hc : s.heap a = some c) :
      WorkerStep s w e ((s.modConn a .writeFired).goto w
        (if c.state = .close then .poll else .writing a none))
  | dropped {n st rest} (hp : (s.worker w).phase = .poll)
      (hq : (s.worker w).newConnections = ⟨none, st⟩ :: rest) :
      WorkerStep s w e (s.modWorker w (.take n rest))
  | accepted {n st rest a} (hp : (s.worker w).phase = .poll)
      (hq : (s.worker w).newConnections = ⟨none, st⟩ :: rest) (ha : s.Fresh a)
      (he : e = .notified true a) :
      WorkerStep s w e (((s.modWorker w (.take n rest)).alloc a .connecting false).registerConn w a
        s.nextId st)
  | refused {n st rest a} (hp : (s.worker w).phase = .poll)
      (hq : (s.worker w).newConnections = ⟨some a, st⟩ :: rest) :
      WorkerStep s w e (((s.modWorker w (.take n rest)).setPlace a (.refused w)).goto w
        (.callback a false))
  | connected {n st rest a c} (hp : (s.worker w).phase = .poll)
      (hq : (s.worker w).newConnections = ⟨some a, st⟩ :: rest) (hc : s.heap a = some c) :
      WorkerStep s w e (((s.modWorker w (.take n rest)).registerConn w a c.id st).goto w
        (.callback a true))
  | pollEnd (hp : (s.worker w).phase = .poll) :
      WorkerStep s w e (s.goto w (.sweep (s.worker w).threadConnections []))
  | callbackOk {a} (hp : (s.worker w).phase = .callback a true) : WorkerStep s w e (s.goto w .poll)
  | callbackFail {a} (hp : (s.worker w).phase = .callback a false) :
      WorkerStep s w e ((s.free a).goto w .poll)
  | sweepEnd {removeIds} (hp : (s.worker w).phase = .sweep [] removeIds) :
      WorkerStep s w e (s.goto w (.erase removeIds))
  | sweepSkip {a todo removeIds c} (hp : (s.worker w).phase = .sweep (a :: todo) removeIds)
      (hc : s.heap a = some c) (hst : c.state ≠ .close) :
      WorkerStep s w e (s.goto w (.sweep todo removeIds))
  | notice {a todo removeIds c junk} (hp : (s.worker w).phase = .sweep (a :: todo) removeIds)
      (hc : s.heap a = some c) (hst : c.state = .close) :
      WorkerStep s w e (s.noticeStep G w a c.id todo removeIds junk)
  | closing {a todo removeIds c} (hp : (s.worker w).phase = .closing a todo removeIds)
      (hc : s.heap a = some c) : WorkerStep s w e (s.closingStep w a c.closeTime todo removeIds)
  | erase {removeIds} (hp : (s.worker w).phase = .erase removeIds) :
      WorkerStep s w e (s.eraseStep w removeIds)
  | deleteEnd (hp : (s.worker w).phase = .delete)
      (hq : ∀ t a rest c, (s.worker w).forDelete = (t, a) :: rest → s.heap a = some c →
        (s.worker w).now ≤ c.closeTime + 2 * 60) : WorkerStep s w e (s.goto w .top)
  | deleteFree {t a rest c} (hp : (s.worker w).phase = .delete)
      (hq : (s.worker w).forDelete = (t, a) :: rest) (hc : s.heap a = some c)
      (htime : c.closeTime + 2 * 60 < (s.worker w).now) :
      WorkerStep s w e ((s.free a).modWorker w fun t => { t with forDelete := rest })

variable {G}

theorem onRead_cases {s s' : Layer Cls Msg} {a : Addr} {c : Connection Msg} {r : ReadResult}
    (h : s.onRead G a c r = some s') : ReadStep G s a c s' := by
  cases r with
  | data chunk buffer =>
    simp only [onRead, Option.ite_none_right_eq_some, Option.map_eq_some_iff] at h
    obtain ⟨⟨hne, hext⟩, r, hr, rfl⟩ := h
    exact .data hne hext hr
  | eof => cases h; exact .shut
  | again updated =>
    cases updated with
    | true => cases h; exact .again
    | false => cases h; exact .failed
  | error => cases h; exact .shut

theorem modConn_modConn (s : Layer Cls Msg) (a : Addr) (f g : Connection Msg → Connection Msg) :
    (s.modConn a f).modConn a g = s.modConn a (g ∘ f) := by
  simp [modConn]

theorem flushConn_bytes (c : Connection Msg) :
    (flushConn G c).sent ++ (flushConn G c).writeBuffer.bytes =
      c.sent ++ c.writeBuffer.bytes ++ encodeAll G.toProtobuf (c.connWriteMsgs.map Item.node) := by
  show c.sent ++ (flushMsgs G.toProtobuf _ c.writeBuffer).bytes = _
  rw [flushMsgs_bytes, List.append_assoc]

/-- What `evbuffer_write` takes from the buffer goes to the socket. -/
theorem wrote_bytes (c : Connection Msg) (n : ℕ) :
    c.sent ++ (c.writeBuffer.remove n).1 ++ (c.writeBuffer.remove n).2.bytes =
      c.sent ++ c.writeBuffer.bytes := by
  rw [Evbuffer.remove_fst, Evbuffer.remove_bytes, List.append_assoc, List.take_append_drop]

theorem onWrite_cases {s s' : Layer Cls Msg} {a : Addr} {c : Connection Msg} {r : WriteResult}
    (h : s.onWrite G a c r = some s') : WriteStep G s a r s' := by
  cases r with
  | idle =>
    simp only [onWrite, Option.ite_none_right_eq_some, Option.some.injEq, modConn_modConn] at h
    obtain ⟨-, rfl⟩ := h
    exact .quiet ⟨fun _ => rfl, fun _ => rfl, fun _ => rfl, fun c => flushConn_bytes c⟩
  | wrote n =>
    simp only [onWrite, Option.ite_none_right_eq_some, Option.some.injEq, modConn_modConn] at h
    obtain ⟨-, rfl⟩ := h
    exact .quiet ⟨fun _ => rfl, fun _ => rfl, fun _ => rfl, fun c =>
      (wrote_bytes (flushConn G c) n).trans (flushConn_bytes c)⟩
  | again updated =>
    cases updated with
    | true =>
      simp only [onWrite, Option.ite_none_right_eq_some, Option.some.injEq, modConn_modConn] at h
      obtain ⟨-, rfl⟩ := h
      exact .quiet ⟨fun _ => rfl, fun _ => rfl, fun _ => rfl, fun c => flushConn_bytes c⟩
    | false =>
      simp only [onWrite, Option.ite_none_right_eq_some, Option.some.injEq, modConn_modConn] at h
      obtain ⟨-, rfl⟩ := h
      exact .failed rfl ⟨fun _ => rfl, fun _ => rfl, fun _ => rfl, fun c => flushConn_bytes c⟩
  | error =>
    simp only [onWrite, Option.ite_none_right_eq_some, Option.some.injEq, modConn_modConn] at h
    obtain ⟨-, rfl⟩ := h
    exact .quiet ⟨fun _ => rfl, fun _ => rfl, fun _ => rfl, fun c => flushConn_bytes c⟩

/-- The four outcomes of a notification. -/
theorem notifyStep_cases {s s' : Layer Cls Msg} {w : ℕ} {created : Bool} {fresh : Addr}
    (hp : (s.worker w).phase = .poll) (h : s.notifyStep w created fresh = some s') :
    WorkerStep G s w (.notified created fresh) s' := by
  simp only [notifyStep] at h
  split at h
  · next n ci rest hbytes hq =>
    obtain ⟨pre, st⟩ := ci
    cases pre with
    | none =>
      cases created with
      | false =>
        cases h
        exact .dropped hp hq
      | true =>
        dsimp only at h
        split at h
        · next ha =>
          cases h
          exact .accepted hp hq ha rfl
        · cases h
    | some a =>
      cases created with
      | false =>
        cases h
        exact .refused hp hq
      | true =>
        obtain ⟨c, hc, rfl⟩ := Option.map_eq_some_iff.mp h
        exact .connected hp hq hc
  · cases h

/-- A round of the deletion loop. -/
theorem deleteStep_cases {s s' : Layer Cls Msg} {w : ℕ} {e : WorkerAct}
    (hp : (s.worker w).phase = .delete) (h : s.deleteStep w = some s') : WorkerStep G s w e s' := by
  unfold deleteStep at h
  split at h
  · next hq =>
    cases h
    refine .deleteEnd hp fun t a rest c hl _ => ?_
    rw [hq] at hl
    cases hl
  · next hq =>
    obtain ⟨c, hc, h⟩ := Option.map_eq_some_iff.mp h
    split at h
    · next ht => cases h; exact .deleteFree hp hq hc ht
    · next ht =>
      cases h
      refine .deleteEnd hp fun t a rest c' hl hc' => ?_
      rw [hq, List.cons.injEq, Prod.mk.injEq] at hl
      rw [← hl.1.2, hc, Option.some.injEq] at hc'
      exact hc' ▸ Nat.le_of_not_lt ht

/-- **Every step of the loop.** -/
theorem workerStep_cases {s s' : Layer Cls Msg} {w : ℕ} {e : WorkerAct}
    (h : s.workerStep G w e = some s') : WorkerStep G s w e s' := by
  unfold workerStep at h
  cases hp : (s.worker w).phase with
  | top =>
    rw [hp] at h
    cases e with
    | go => cases h; exact .top hp
    | _ => cases h
  | drain =>
    rw [hp] at h
    cases e with
    | go => cases h; exact .drain hp
    | _ => cases h
  | transfer todo =>
    rw [hp] at h
    cases todo with
    | nil =>
      cases e with
      | go => cases h; exact .transferEnd hp
      | _ => cases h
    | cons a todo =>
      cases e with
      | go =>
        obtain ⟨c, hc, h⟩ := Option.map_eq_some_iff.mp h
        split at h
        · next hm => cases h; exact .transferSkip hp hc hm
        · next hm => cases h; exact .transferMove hp hc hm
      | _ => cases h
  | connectors =>
    rw [hp] at h
    cases e with
    | push written =>
      dsimp only [pushWorkerNewConn] at h
      split at h
      · cases h
      · next hq => cases h; exact .push hp hq
    | go =>
      dsimp only at h
      split at h
      · next hq => cases h; exact .connectorsEnd hp hq
      · cases h
    | _ => cases h
  | pass todo =>
    rw [hp] at h
    cases todo with
    | nil =>
      cases e with
      | go => cases h; exact .passEnd hp
      | _ => cases h
    | cons a todo =>
      cases e with
      | go =>
        obtain ⟨c, hc, h⟩ := Option.map_eq_some_iff.mp h
        split at h
        · next hst => cases h; exact .passSkip hp hc hst
        · next hst => cases h; exact .passVisit hp hc hst
      | _ => cases h
  | tryRead a todo =>
    rw [hp] at h
    cases e with
    | go =>
      obtain ⟨c, hc, h⟩ := Option.map_eq_some_iff.mp h
      split at h
      · next hr => cases h; exact .readStart hp hc hr.1 hr.2
      · cases h; exact .readSkip hp
    | _ => cases h
  | tryWrite a todo =>
    rw [hp] at h
    cases e with
    | go =>
      obtain ⟨c, hc, h⟩ := Option.map_eq_some_iff.mp h
      split at h
      · cases h; exact .writeStart hp
      · cases h; exact .writeSkip hp
    | _ => cases h
  | reading a back =>
    rw [hp] at h
    cases e with
    | read r =>
      obtain ⟨c, hc, h⟩ := Option.bind_eq_some_iff.mp h
      obtain ⟨s₁, hr, rfl⟩ := Option.map_eq_some_iff.mp h
      exact .read hp hc (onRead_cases hr)
    | _ => cases h
  | writing a back =>
    rw [hp] at h
    cases e with
    | write r =>
      obtain ⟨c, hc, h⟩ := Option.bind_eq_some_iff.mp h
      obtain ⟨s₁, hr, rfl⟩ := Option.map_eq_some_iff.mp h
      exact .write hp hc rfl (onWrite_cases hr)
    | _ => cases h
  | poll =>
    rw [hp] at h
    cases e with
    | readEvent a =>
      dsimp only at h
      split at h
      · next ha =>
        obtain ⟨c, hc, h⟩ := Option.bind_eq_some_iff.mp h
        split at h
        · next hev => cases h; exact .readEvent hp ha hc hev
        · cases h
      · cases h
    | writeEvent a =>
      dsimp only at h
      split at h
      · next ha =>
        obtain ⟨c, hc, h⟩ := Option.bind_eq_some_iff.mp h
        split at h
        · cases h; exact .writeEvent hp ha hc
        · cases h
      · cases h
    | notified created fresh => exact notifyStep_cases hp h
    | go => cases h; exact .pollEnd hp
    | _ => cases h
  | callback a ok =>
    rw [hp] at h
    cases e with
    | go =>
      cases h
      cases ok with
      | true => exact .callbackOk hp
      | false => exact .callbackFail hp
    | _ => cases h
  | sweep todo removeIds =>
    rw [hp] at h
    cases todo with
    | nil =>
      cases e with
      | go => cases h; exact .sweepEnd hp
      | _ => cases h
    | cons a todo =>
      cases e with
      | go =>
        obtain ⟨c, hc, h⟩ := Option.bind_eq_some_iff.mp h
        split at h
        · cases h
        · next hst => cases h; exact .sweepSkip hp hc hst
      | notice junk =>
        obtain ⟨c, hc, h⟩ := Option.bind_eq_some_iff.mp h
        split at h
        · next hst => cases h; exact .notice hp hc hst
        · cases h
      | _ => cases h
  | closing a todo removeIds =>
    rw [hp] at h
    cases e with
    | go =>
      obtain ⟨c, hc, rfl⟩ := Option.map_eq_some_iff.mp h
      exact .closing hp hc
    | _ => cases h
  | erase removeIds =>
    rw [hp] at h
    cases e with
    | go => cases h; exact .erase hp
    | _ => cases h
  | delete =>
    rw [hp] at h
    cases e with
    | go => exact deleteStep_cases hp h
    | _ => cases h

end Layer

end GoFight.Net
