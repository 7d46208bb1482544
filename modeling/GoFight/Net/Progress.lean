import GoFight.Net.Sweep
import GoFight.Net.TypedNodes

/-!
# A worker goes on

The loop of a worker follows pointers at every turn: those in `thread_connections_`, in
`for_delete_connections_`, in `new_connections_`.

* `Permits` — what the operating system and libevent may answer where the worker is;
* `workerStep_isSome_iff` — it can take just these steps: every object it follows a pointer to is there;
* `cost` — how many steps are left of the iteration;
* `iteration_of_reach` — so many at most, but for connections made meanwhile, and the end can be
  reached.
-/

namespace GoFight.Net

open GoFight.Lib

variable {Cls Msg : Type*} {G : Generated Cls Msg}

/-- What `on_write` may meet with this much to write. -/
def WriteResult.Meets (len : ℕ) : WriteResult → Prop
  | .idle => len = 0
  | .wrote n => 0 < len ∧ n ≤ len
  | .again _ => 0 < len
  | .error => 0 < len

/-- An event that libevent reports: data, room to write, or a byte in the pipe. -/
def WorkerAct.fires : WorkerAct → Bool
  | .readEvent _ => true
  | .writeEvent _ => true
  | .notified _ _ => true
  | _ => false

/-- A `net_connect` that makes an object. -/
def Act.connects : Act Cls Msg → Bool
  | .connect _ => true
  | _ => false

/-- What the loop of a worker goes by. -/
def ThreadData.course (t : ThreadData Msg) : Phase × List Addr × List (ℕ × Addr) :=
  (t.phase, t.threadConnections, t.forDelete)

namespace Layer

/-- `evbuffer_read` may give `r` on `c`; `message_format` comes to an end on what was read. -/
def Reads (G : Generated Cls Msg) (s : Layer Cls Msg) (a : Addr) (c : Connection Msg) :
    ReadResult → Prop
  | .data chunk buffer => (chunk ≠ [] ∧ c.readBuffer.Extends chunk buffer) ∧
      (messageFormat G.toProtobuf s.registry a buffer
        ⟨c.readBuffer.length, chunk.length, 0⟩).isSome
  | _ => True

/-- What may happen to worker `w` where it is.  The conditions on an object say nothing when there is
none at the address. -/
def Permits (G : Generated Cls Msg) (s : Layer Cls Msg) (w : ℕ) (e : WorkerAct) : Prop :=
  match (s.worker w).phase, e with
  | .top, .go | .drain, .go | .transfer _, .go | .pass _, .go | .tryRead _ _, .go
  | .tryWrite _ _, .go | .poll, .go | .callback _ _, .go | .sweep [] _, .go | .closing _ _ _, .go
  | .erase _, .go | .delete, .go => True
  | .connectors, .push _ => s.connectConns ≠ []
  | .connectors, .go => s.connectConns = []
  | .reading a _, .read r => ∀ c ∈ s.heap a, s.Reads G a c r
  | .writing a _, .write r => ∀ c ∈ s.heap a, r.Meets (flushConn G c).writeBuffer.length
  | .poll, .readEvent a =>
      a ∈ (s.worker w).threadConnections ∧ ∀ c ∈ s.heap a, c.readEvent = true
  | .poll, .writeEvent a =>
      a ∈ (s.worker w).threadConnections ∧ ∀ c ∈ s.heap a, c.writeEvent = true
  | .poll, .notified created fresh =>
      0 < (s.worker w).notify ∧ ∃ ci rest, (s.worker w).newConnections = ci :: rest ∧
        (ci.preNew = none → created = true → s.Fresh fresh)
  | .sweep (a :: _) _, .go => ∀ c ∈ s.heap a, c.state ≠ .close
  | .sweep (a :: _) _, .notice _ => ∀ c ∈ s.heap a, c.state = .close
  | _, _ => False

variable {s s' : Layer Cls Msg} {w : ℕ}

/-! ### Every pointer leads to an object -/

/-- An object in the worker's hands is there. -/
theorem WellPlaced.there (h : s.WellPlaced) {p : Phase} {a : Addr}
    (hp : (s.worker w).phase = p) (ha : a ∈ p.addrs) : ∃ c, s.heap a = some c := by
  obtain ⟨c, hc, -⟩ := Option.map_eq_some_iff.mp (h.in_hand hp ha)
  exact ⟨c, hc⟩

theorem onRead_isSome_iff {a : Addr} {c : Connection Msg} {r : ReadResult} :
    (s.onRead G a c r).isSome ↔ s.Reads G a c r := by
  cases r with
  | data chunk buffer =>
    unfold onRead Reads
    dsimp only
    split
    · next h => simp [h]
    · next h => simp [h]
  | again updated => cases updated <;> simp [onRead, Reads]
  | eof | error => simp [onRead, Reads]

theorem onWrite_isSome_iff {a : Addr} {c : Connection Msg} {r : WriteResult} :
    (s.onWrite G a c r).isSome ↔ r.Meets (flushConn G c).writeBuffer.length := by
  cases r with
  | idle | wrote n | error =>
    unfold onWrite WriteResult.Meets
    dsimp only
    split
    · next h => simp [h]
    · next h => simp [h]
  | again updated =>
    cases updated with
    | false | true =>
      unfold onWrite WriteResult.Meets
      dsimp only
      split
      · next h => simp [h]
      · next h => simp [h]

/-- `thread_libevent_process` finds the pre-allocated object it pops. -/
theorem notifyStep_isSome_iff (h : s.WellPlaced) {created : Bool} {fresh : Addr} :
    (s.notifyStep w created fresh).isSome ↔
      0 < (s.worker w).notify ∧ ∃ ci rest, (s.worker w).newConnections = ci :: rest ∧
        (ci.preNew = none → created = true → s.Fresh fresh) := by
  unfold notifyStep
  dsimp only
  cases hn : (s.worker w).notify with
  | zero => simp
  | succ n =>
    cases hq : (s.worker w).newConnections with
    | nil => simp
    | cons ci rest =>
      obtain ⟨pre, st⟩ := ci
      cases pre with
      | none =>
        cases created with
        | false => simp
        | true =>
          have hfresh : (s.modWorker w (.take n rest)).Fresh fresh ↔ s.Fresh fresh := Iff.rfl
          simp [hfresh]
      | some a =>
        cases created with
        | false => simp
        | true =>
          have hplace : s.placeAt a = some (.handed w) := by
            refine h.placed (p := .handed w) ?_
            show a ∈ (s.worker w).handed
            rw [ThreadData.handed, hq]
            exact List.mem_cons_self
          obtain ⟨c, hc, -⟩ := Option.map_eq_some_iff.mp hplace
          simp [hc]

/-- The deletion loop finds an object at each entry. -/
theorem deleteStep_isSome (h : s.WellPlaced) (hp : (s.worker w).phase = .delete) :
    (s.deleteStep w).isSome := by
  unfold deleteStep
  cases hq : (s.worker w).forDelete with
  | nil => rfl
  | cons x rest =>
    have hplace : s.placeAt x.2 = some (.retired w) := by
      refine h.placed (p := .retired w) ?_
      show x.2 ∈ (((s.worker w).forDelete.map Prod.snd).filter (· ∉ (s.worker w).phase.removing))
      rw [hp, hq]
      exact List.mem_filter.mpr ⟨List.mem_cons_self, by simp [Phase.removing]⟩
    obtain ⟨c, hc, -⟩ := Option.map_eq_some_iff.mp hplace
    simp [hc]

/-- **A worker can take just the steps that may happen to it.** -/
theorem workerStep_isSome_iff (h : s.WellPlaced) (e : WorkerAct) :
    (s.workerStep G w e).isSome ↔ s.Permits G w e := by
  unfold workerStep Permits
  cases hp : (s.worker w).phase with
  | top | drain | callback | erase => cases e <;> simp
  | connectors =>
    cases e with
    | push written =>
      dsimp only
      unfold pushWorkerNewConn
      cases s.connectConns <;> simp
    | _ => simp
  | transfer todo =>
    cases todo with
    | nil => cases e <;> simp
    | cons a todo =>
      obtain ⟨c, hc⟩ := h.there hp List.mem_cons_self
      cases e <;> simp [transferStep, hc]
  | pass todo =>
    cases todo with
    | nil => cases e <;> simp
    | cons a todo =>
      obtain ⟨c, hc⟩ := h.there hp List.mem_cons_self
      cases e <;> simp [hc]
  | tryRead a todo | tryWrite a todo =>
    obtain ⟨c, hc⟩ := h.there hp List.mem_cons_self
    cases e <;> simp [hc]
  | reading a back =>
    obtain ⟨c, hc⟩ := h.there hp List.mem_cons_self
    cases e with
    | read r => simp [hc, onRead_isSome_iff]
    | _ => simp
  | writing a back =>
    obtain ⟨c, hc⟩ := h.there hp List.mem_cons_self
    cases e with
    | write r => simp [hc, onWrite_isSome_iff]
    | _ => simp
  | poll =>
    have hconn : ∀ {a}, a ∈ (s.worker w).threadConnections → ∃ c, s.heap a = some c := by
      intro a ha
      obtain ⟨c, hc, -⟩ := Option.map_eq_some_iff.mp (h.placed (p := .registered w) ha)
      exact ⟨c, hc⟩
    cases e with
    | readEvent a | writeEvent a =>
      dsimp only
      split
      · next ha =>
        obtain ⟨c, hc⟩ := hconn ha
        simp [hc, ha]
      · next ha => simp [ha]
    | notified created fresh => exact notifyStep_isSome_iff h
    | _ => simp
  | sweep todo removeIds =>
    cases todo with
    | nil => cases e <;> simp
    | cons a todo =>
      obtain ⟨c, hc⟩ := h.there hp List.mem_cons_self
      cases e <;> simp [hc]
  | closing a todo removeIds =>
    obtain ⟨c, hc⟩ := h.there hp List.mem_cons_self
    cases e <;> simp [hc]
  | delete =>
    cases e with
    | go => simp [deleteStep_isSome h hp]
    | _ => simp

/-! ### What the other threads leave alone -/

theorem course_modWorker (s : Layer Cls Msg) (v : ℕ) {g : ThreadData Msg → ThreadData Msg}
    (hg : ∀ t, (g t).course = t.course) : ((s.modWorker v g).worker w).course =
      (s.worker w).course := by
  rw [modWorker_worker]
  split
  · exact hg _
  · rfl

theorem giveWorker_course (ci : ConnInfo) (written : Bool) :
    ((s.giveWorker ci written).worker w).course = (s.worker w).course :=
  course_modWorker _ _ (g := .give ci written) fun _ => rfl

theorem workerStep_course {v : ℕ} {e : WorkerAct} (hv : w ≠ v) (hs : WorkerStep G s v e s') :
    (s'.worker w).course = (s.worker w).course := by
  have hother : ∀ (s : Layer Cls Msg) (g : ThreadData Msg → ThreadData Msg),
      (s.modWorker v g).worker w = s.worker w := fun s g => by rw [modWorker_worker, if_neg hv]
  cases hs with
  | read hp hc hr => rw [goto, hother, readStep_worker hr]
  | write hp hc he hr => rw [goto, hother, writeStep_worker hr]
  | push => exact course_modWorker _ _ (g := .give _ _) (fun _ => rfl)
  | drain => rw [drainStep, hother]
  | notice =>
    rw [noticeStep]
    split
    · rfl
    · rw [goto, hother, hother]
      rfl
  | callbackFail => rw [goto, hother, free_worker]
  | deleteFree => rw [hother, free_worker]
  | accepted => rw [registerConn, hother]; exact congrArg _ (hother s _)
  | connected => rw [goto, hother, registerConn, hother]; exact congrArg _ (hother s _)
  | refused => rw [goto, hother]; exact congrArg _ (hother s _)
  | _ => exact congrArg _ (hother _ _)

/-- Only its own steps move a worker along. -/
theorem step_course {a : Act Cls Msg} (hs : s.step G a = some s') (ha : a.ofWorker w = false) :
    (s'.worker w).course = (s.worker w).course := by
  cases a with
  | worker v e =>
    simp only [Layer.step, Option.ite_none_right_eq_some] at hs
    refine workerStep_course (fun hv => ?_) (workerStep_cases hs.2)
    rw [hv, Act.ofWorker, decide_eq_false_iff_not] at ha
    exact ha rfl
  | accept written =>
    simp only [Layer.step, Option.ite_none_right_eq_some, Option.some.injEq] at hs
    obtain ⟨-, rfl⟩ := hs
    exact course_modWorker _ _ (g := .give _ _) (fun _ => rfl)
  | getMsgs i =>
    simp only [Layer.step, Option.ite_none_right_eq_some, Option.some.injEq] at hs
    obtain ⟨-, rfl⟩ := hs
    exact course_modWorker _ _ (fun _ => rfl)
  | send v it =>
    simp only [Layer.step, Option.ite_none_right_eq_some, Option.some.injEq] at hs
    obtain ⟨-, rfl⟩ := hs
    exact course_modWorker _ _ (g := .queueWrite it) (fun _ => rfl)
  | close a =>
    obtain ⟨c, -, hs⟩ := Option.bind_eq_some_iff.mp hs
    simp only [Option.ite_none_right_eq_some, Option.some.injEq] at hs
    obtain ⟨-, rfl⟩ := hs
    rw [connClose_worker]
  | connect a =>
    simp only [Layer.step, Option.ite_none_right_eq_some, Option.some.injEq] at hs
    obtain ⟨-, rfl⟩ := hs
    rfl
  | clock t | regist msgType init =>
    cases hs
    rfl

theorem ne_of_placeAt {a b : Addr} {p q : Place} (hb : s.placeAt b = some p)
    (ha : s.placeAt a = some q) (hpq : p ≠ q) : b ≠ a := by
  intro hab
  rw [hab, ha, Option.some.injEq] at hb
  exact hpq hb.symm

/-- The nodes waiting at an address. -/
def waiting (s : Layer Cls Msg) (b : Addr) : ℕ :=
  match s.heap b with
  | none => 0
  | some c => c.connReadMsgs.length

theorem waiting_congr {b : Addr} (h : (s'.heap b).map Connection.connReadMsgs =
    (s.heap b).map Connection.connReadMsgs) : s'.waiting b = s.waiting b := by
  unfold waiting
  cases hb : s.heap b with
  | none =>
    rw [hb] at h
    rw [Option.map_eq_none_iff.mp h]
  | some c =>
    rw [hb] at h
    obtain ⟨c', hc', heq⟩ := Option.map_eq_some_iff.mp h
    rw [hc']
    exact congrArg List.length heq

theorem heap_modConn_of_ne {a b : Addr} (f : Connection Msg → Connection Msg) (hb : b ≠ a) :
    (s.modConn a f).heap b = s.heap b := by
  rw [modConn_heap, if_neg hb]

theorem reads_readStep {a b : Addr} {c : Connection Msg} (hr : ReadStep G s a c s') (hb : b ≠ a) :
    (s'.heap b).map Connection.connReadMsgs = (s.heap b).map Connection.connReadMsgs := by
  cases hr with
  | data => rw [modLife_heap, heap_modConn_of_ne _ hb]
  | again => rw [heap_modConn_of_ne _ hb]
  | shut | failed =>
    rw [Kept.connClose (K := Connection.connReadMsgs) _ a (fun _ _ => rfl) b,
      heap_modConn_of_ne _ hb]

theorem reads_writeStep {a : Addr} {r : WriteResult} (hr : WriteStep G s a r s') :
    Kept Connection.connReadMsgs s s' := by
  have hread : ∀ {f : Connection Msg → Connection Msg}, Writes G f →
      ∀ c, (f c).connReadMsgs = c.connReadMsgs := fun hf c => by
    show (_ : Connection Msg).readSide.connReadMsgs = c.readSide.connReadMsgs
    rw [hf.readSide]
  cases hr with
  | quiet hf => exact Kept.modConn s a (hread hf)
  | failed _ hf => exact .trans (Kept.modConn s a (hread hf)) (Kept.connClose _ a fun _ _ => rfl)

/-- What waits on a connection of worker `w` is left alone by worker `v`. -/
theorem workerStep_reads (h : s.WellPlaced) {v : ℕ} {e : WorkerAct} {b : Addr} (hv : w ≠ v)
    (hb : s.placeAt b = some (.registered w)) (hs : WorkerStep G s v e s') :
    (s'.heap b).map Connection.connReadMsgs = (s.heap b).map Connection.connReadMsgs := by
  have hmine : ∀ {a p}, (s.worker v).phase = p → a ∈ p.addrs → b ≠ a := fun hp ha =>
    ne_of_placeAt hb (h.in_hand hp ha) fun heq => hv (Place.registered.inj heq)
  cases hs with
  | top | transferEnd | transferSkip | connectorsEnd | passEnd | passSkip | passVisit | readStart
  | readSkip | writeStart | writeSkip | dropped | pollEnd | callbackOk | sweepEnd | sweepSkip
  | deleteEnd => rfl
  | drain => exact Kept.drainStep s v (fun _ _ => rfl) b
  | transferMove hp =>
    rw [modWorker_heap, heap_modConn_of_ne _ (hmine hp List.mem_cons_self)]
  | @push a => exact Kept.modConn s a (fun _ => by rfl) b
  | @readEvent a => exact Kept.modConn s a (fun _ => by rfl) b
  | @writeEvent a => exact Kept.modConn s a (fun _ => by rfl) b
  | @refused n st rest a => exact Kept.modConn s a (fun _ => by rfl) b
  | @closing a => exact Kept.modConn s a (fun _ => by rfl) b
  | read hp hc hr =>
    rw [goto_heap]
    exact reads_readStep hr (hmine hp List.mem_cons_self)
  | write hp hc he hr => exact reads_writeStep hr b
  | @accepted n st rest a hp hq ha he =>
    have hne : b ≠ a := by
      intro hab
      rw [hab, placeAt, ha.1] at hb
      cases hb
    rw [registerConn_heap, if_neg hne, alloc_heap, if_neg hne]
    rfl
  | @connected n st rest a c =>
    rw [goto_heap, registerConn_heap]
    split
    · rw [Option.map_map]
      rfl
    · rfl
  | @callbackFail a hp =>
    have hplace : s.placeAt a = some (.refused v) := by
      obtain ⟨c, hc, hplace, -⟩ := h.refused hp
      rw [placeAt, hc, Option.map_some, hplace]
    rw [goto_heap, free_heap, if_neg (ne_of_placeAt hb hplace (by simp))]
  | notice =>
    rw [noticeStep]
    split <;> rfl
  | erase => exact Kept.retire s v _ (fun _ => by rfl) b
  | @deleteFree t a rest c hp hq hc htime =>
    have hdel : s.deletes (.worker v e) = some a := by
      rw [deletes, hp, hq]
      dsimp only
      rw [hc]
      exact if_pos htime
    obtain ⟨u, e', heq, hat⟩ := h.placeAt_of_deletes hdel
    have hne : b ≠ a := by
      rcases hat with hat | hat
      · exact ne_of_placeAt hb hat (by simp)
      · exact ne_of_placeAt hb hat (by simp)
    rw [modWorker_heap, free_heap, if_neg hne]

/-- Only its own worker takes from what waits on a connection, or adds to it. -/
theorem step_waiting (h : s.WellPlaced) {a : Act Cls Msg} {b : Addr} (hs : s.step G a = some s')
    (ha : a.ofWorker w = false) (hb : b ∈ (s.worker w).threadConnections) :
    s'.waiting b = s.waiting b := by
  have hplace : s.placeAt b = some (.registered w) := h.placed (p := .registered w) hb
  apply waiting_congr
  cases a with
  | worker v e =>
    simp only [Layer.step, Option.ite_none_right_eq_some] at hs
    refine workerStep_reads h (fun hv => ?_) hplace (workerStep_cases hs.2)
    rw [hv, Act.ofWorker, decide_eq_false_iff_not] at ha
    exact ha rfl
  | connect a =>
    simp only [Layer.step, Option.ite_none_right_eq_some, Option.some.injEq] at hs
    obtain ⟨hfresh, rfl⟩ := hs
    have hne : b ≠ a := by
      intro hab
      rw [hab, placeAt, hfresh.1] at hplace
      cases hplace
    show ((s.alloc a .connecting true).heap b).map _ = _
    rw [alloc_heap, if_neg hne]
  | close a =>
    obtain ⟨c, -, hs⟩ := Option.bind_eq_some_iff.mp hs
    simp only [Option.ite_none_right_eq_some, Option.some.injEq] at hs
    obtain ⟨-, rfl⟩ := hs
    exact Kept.connClose s a (fun _ _ => rfl) b
  | accept written | getMsgs i | send v it =>
    simp only [Layer.step, Option.ite_none_right_eq_some, Option.some.injEq] at hs
    obtain ⟨-, rfl⟩ := hs
    rfl
  | clock t | regist msgType init =>
    cases hs
    rfl

theorem connClose_connectConns (s : Layer Cls Msg) (a : Addr) :
    (s.connClose a).connectConns = s.connectConns := by
  unfold connClose
  split
  · rfl
  · split <;> rfl

theorem free_connectConns (s : Layer Cls Msg) (a : Addr) :
    (s.free a).connectConns = s.connectConns := by
  unfold free
  split <;> rfl

theorem workerStep_connectConns {v : ℕ} {e : WorkerAct} (hs : WorkerStep G s v e s') :
    s'.connectConns = s.connectConns ∨ ∃ a, s.connectConns = a :: s'.connectConns := by
  cases hs with
  | @push a rest written hp hq => exact .inr ⟨a, hq⟩
  | read hp hc hr =>
    left
    rw [goto_connectConns]
    cases hr with
    | data => rfl
    | again => rfl
    | shut | failed => exact connClose_connectConns _ _
  | write hp hc he hr =>
    left
    rw [goto_connectConns]
    cases hr with
    | quiet => rfl
    | failed => exact connClose_connectConns _ _
  | callbackFail | deleteFree => exact .inl (free_connectConns _ _)
  | notice =>
    rw [noticeStep]
    split <;> exact .inl rfl
  | _ => exact .inl rfl

/-- Only `net_connect` adds to `s_connect_conns`. -/
theorem step_connectConns {a : Act Cls Msg} (hs : s.step G a = some s') :
    s'.connectConns.length ≤ s.connectConns.length + a.connects.toNat := by
  cases a with
  | worker v e =>
    simp only [Layer.step, Option.ite_none_right_eq_some] at hs
    rcases workerStep_connectConns (workerStep_cases hs.2) with heq | ⟨b, heq⟩
    · rw [heq]
      exact Nat.le_add_right _ _
    · rw [heq]
      exact Nat.le_add_right_of_le (Nat.le_succ _)
  | close b =>
    obtain ⟨c, -, hs⟩ := Option.bind_eq_some_iff.mp hs
    simp only [Option.ite_none_right_eq_some, Option.some.injEq] at hs
    obtain ⟨-, rfl⟩ := hs
    rw [connClose_connectConns]
    exact Nat.le_add_right _ _
  | connect b =>
    simp only [Layer.step, Option.ite_none_right_eq_some, Option.some.injEq] at hs
    obtain ⟨-, rfl⟩ := hs
    exact (List.length_append ..).le
  | accept written | getMsgs i | send v it =>
    simp only [Layer.step, Option.ite_none_right_eq_some, Option.some.injEq] at hs
    obtain ⟨-, rfl⟩ := hs
    exact Nat.le_add_right _ _
  | clock t | regist msgType init =>
    cases hs
    exact Nat.le_add_right _ _

/-! ### How far it is to the end of the iteration -/

/-- The nodes waiting at the addresses of a list. -/
def waitingAt (s : Layer Cls Msg) (l : List Addr) : ℕ := (l.map s.waiting).sum

/-- How many steps a sweep over `n` connections and the deletion of `d` take. -/
def sweepCost (n d : ℕ) : ℕ := 3 * n + d + 3

/-- How many steps a pass over `m` of `n` connections and what comes after it take. -/
def passCost (m n d : ℕ) : ℕ := 5 * m + (sweepCost n d + 2)

/-- How many steps worker `w` takes at most from a phase to the top of its loop, when no event
fires. -/
def costFrom (s : Layer Cls Msg) (w : ℕ) (p : Phase) : ℕ :=
  let n := (s.worker w).threadConnections.length
  let d := (s.worker w).forDelete.length
  let k := s.connectConns.length
  match p with
  | .top => 0
  | .delete => d + 1
  | .erase _ => d + 2
  | .sweep todo _ => sweepCost todo.length d
  | .closing _ todo _ => sweepCost todo.length d + 2
  | .poll => sweepCost n d + 1
  | .callback _ _ => sweepCost n d + 2
  | .pass todo => passCost todo.length n d
  | .tryRead _ todo => passCost todo.length n d + 4
  | .reading _ back => passCost (back.getD []).length n d + 3
  | .tryWrite _ todo => passCost todo.length n d + 2
  | .writing _ back => passCost (back.getD []).length n d + 1
  | .connectors => k + passCost n n d + 1
  | .transfer todo => s.waitingAt todo + todo.length + (k + passCost n n d + 2)
  | .drain => s.waitingAt (s.worker w).threadConnections + n + (k + passCost n n d + 3)

/-- The steps left of the iteration of worker `w`. -/
def cost (s : Layer Cls Msg) (w : ℕ) : ℕ := s.costFrom w (s.worker w).phase

theorem waitingAt_congr {l : List Addr} (h : ∀ b ∈ l, s'.waiting b = s.waiting b) :
    s'.waitingAt l = s.waitingAt l :=
  congrArg List.sum (List.map_congr_left h)

/-- Another thread's step brings at most one new connection. -/
theorem cost_other (h : s.WellPlaced) {a : Act Cls Msg} (hs : s.step G a = some s')
    (ha : a.ofWorker w = false) : s'.cost w ≤ s.cost w + a.connects.toNat := by
  have hcourse := step_course hs ha
  have hwait : ∀ l ⊆ (s.worker w).threadConnections, s'.waitingAt l = s.waitingAt l := fun l hl =>
    waitingAt_congr fun b hb => step_waiting h hs ha (hl hb)
  have hconnect := step_connectConns hs
  simp only [ThreadData.course, Prod.mk.injEq] at hcourse
  obtain ⟨hphase, hconns, hdel⟩ := hcourse
  have hsub := (h.phase w).subset
  unfold cost costFrom
  dsimp only
  rw [hphase, hconns, hdel]
  cases hp : (s.worker w).phase with
  | connectors =>
    dsimp only
    omega
  | transfer todo =>
    rw [hp] at hsub
    dsimp only
    rw [hwait todo hsub]
    omega
  | drain =>
    dsimp only
    rw [hwait _ (List.Subset.refl _)]
    omega
  | _ => exact Nat.le_add_right _ _

theorem costFrom_goto (p q : Phase) : (s.goto w p).costFrom w q = s.costFrom w q := by
  unfold costFrom
  rw [goto_worker, if_pos rfl]
  rfl

theorem cost_goto (p : Phase) : (s.goto w p).cost w = s.costFrom w p := by
  rw [cost, costFrom_goto, goto_worker, if_pos rfl]
  rfl

theorem insertTime_length_le (t : ℕ) (a : Addr) (l : List (ℕ × Addr)) :
    (insertTime t a l).length ≤ l.length + 1 := by
  induction l with
  | nil => exact le_rfl
  | cons x l ih =>
    rw [insertTime]
    split_ifs <;> simp only [List.length_cons] <;> omega

/-- Moving a node takes it from what waits. -/
theorem waitingAt_move {a : Addr} {todo : List Addr} {c : Connection Msg} {it : Item Msg}
    {rest : List (Item Msg)} (hc : s.heap a = some c) (hmsgs : c.connReadMsgs = it :: rest)
    (ha : a ∉ todo) : (s.modConn a (.setRead rest)).waitingAt (a :: todo) + 1 =
      s.waitingAt (a :: todo) := by
  have hself : (s.modConn a (.setRead rest)).waiting a + 1 = s.waiting a := by
    unfold waiting
    rw [modConn_heap, if_pos rfl, hc]
    dsimp only [Option.map_some, Connection.setRead]
    rw [hmsgs, List.length_cons]
  have hrest : (s.modConn a (.setRead rest)).waitingAt todo = s.waitingAt todo := by
    refine waitingAt_congr fun b hb => ?_
    have hne : b ≠ a := fun hab => ha (hab ▸ hb)
    unfold waiting
    rw [heap_modConn_of_ne _ hne]
  show (s.modConn a (.setRead rest)).waiting a + (s.modConn a (.setRead rest)).waitingAt todo + 1 =
    s.waiting a + s.waitingAt todo
  omega

/-- Every step of the loop outside libevent comes nearer to its top. -/
theorem workerStep_cost (h : s.WellPlaced) (hclass : (s.registry Protocol.messageShutdownReq).isSome)
    {e : WorkerAct} (hs : WorkerStep G s w e s') (htop : (s.worker w).phase ≠ .top)
    (hpoll : (s.worker w).phase ≠ .poll) : s'.cost w + 1 ≤ s.cost w := by
  cases hs with
  | top hp => exact absurd hp htop
  | readEvent hp | writeEvent hp | dropped hp | accepted hp | refused hp | connected hp
  | pollEnd hp => exact absurd hp hpoll
  | drain hp =>
    have hwait : (s.drainStep w).waitingAt (s.worker w).threadConnections =
        s.waitingAt (s.worker w).threadConnections :=
      waitingAt_congr fun b _ => waiting_congr (Kept.drainStep s w (fun _ _ => rfl) b)
    have hgoes : (s.drainStep w).cost w =
        (s.drainStep w).waitingAt (s.worker w).threadConnections +
          (s.worker w).threadConnections.length + (s.connectConns.length +
            passCost (s.worker w).threadConnections.length (s.worker w).threadConnections.length
              (s.worker w).forDelete.length + 2) := by
      unfold cost costFrom
      rw [drainStep, modWorker_worker_self]
      rfl
    rw [hgoes, hwait, cost, hp]
    simp only [costFrom]
    omega
  | transferEnd hp =>
    rw [cost_goto, cost, hp]
    simp only [costFrom, waitingAt, List.map_nil, List.sum_nil, List.length_nil]
    omega
  | @transferSkip a todo c hp hc hmsgs =>
    have hcons : s.waitingAt (a :: todo) = s.waiting a + s.waitingAt todo := rfl
    rw [cost_goto, cost, hp]
    simp only [costFrom, hcons, List.length_cons]
    omega
  | @transferMove a todo c it rest hp hc hmsgs =>
    have hnodup := (h.phase w).nodup
    rw [hp] at hnodup
    have hmove := waitingAt_move hc hmsgs (List.nodup_cons.mp hnodup).1
    have hgoes : ((s.modConn a (.setRead rest)).modWorker w (.queueRead it)).cost w =
        (s.modConn a (.setRead rest)).costFrom w (s.worker w).phase := by
      unfold cost costFrom
      rw [modWorker_worker_self]
      rfl
    rw [hgoes, cost, hp]
    simp only [costFrom, modConn_worker, modConn_connectConns]
    omega
  | @push a rest written hp hq =>
    have hworker : ((((s.setConnectors rest).setPlace a (.handed s.nextThread)).giveWorker
        ⟨some a, .connect⟩ written).worker w).course = (s.worker w).course := giveWorker_course ..
    simp only [ThreadData.course, Prod.mk.injEq] at hworker
    have hconnect : (((s.setConnectors rest).setPlace a (.handed s.nextThread)).giveWorker
        ⟨some a, .connect⟩ written).connectConns = rest := rfl
    rw [cost, cost, hworker.1, hp]
    simp only [costFrom, hworker.2.1, hworker.2.2, hconnect, hq, List.length_cons]
    omega
  | connectorsEnd hp hq =>
    rw [cost_goto, cost, hp]
    simp only [costFrom]
    omega
  | passEnd hp =>
    rw [cost_goto, cost, hp]
    simp only [costFrom, passCost, List.length_nil]
    omega
  | passSkip hp | passVisit hp =>
    rw [cost_goto, cost, hp]
    simp only [costFrom, passCost, List.length_cons]
    omega
  | readStart hp | readSkip hp | writeStart hp | writeSkip hp =>
    rw [cost_goto, cost, hp]
    simp only [costFrom, Option.getD_some]
    omega
  | @read a back c s₁ hp hc hr =>
    rw [cost_goto, cost, hp]
    cases back with
    | none =>
      simp only [costFrom, readReturn, Option.getD_none, passCost, List.length_nil,
        readStep_worker hr]
      omega
    | some todo =>
      simp only [costFrom, readReturn, Option.getD_some, readStep_worker hr]
      omega
  | @write a back c r s₁ hp hc he hr =>
    rw [cost_goto, cost, hp]
    cases back with
    | none =>
      simp only [costFrom, writeReturn, Option.getD_none, passCost, List.length_nil,
        writeStep_worker hr]
      omega
    | some todo =>
      simp only [costFrom, writeReturn, Option.getD_some, writeStep_worker hr]
      omega
  | callbackOk hp =>
    rw [cost_goto, cost, hp]
    simp only [costFrom]
    omega
  | callbackFail hp =>
    rw [cost_goto, cost, hp]
    simp only [costFrom, free_worker]
    omega
  | sweepEnd hp =>
    rw [cost_goto, cost, hp]
    simp only [costFrom, sweepCost, List.length_nil]
    omega
  | sweepSkip hp =>
    rw [cost_goto, cost, hp]
    simp only [costFrom, sweepCost, List.length_cons]
    omega
  | @notice a todo removeIds c junk hp hc hst =>
    obtain ⟨cls, hcls⟩ := Option.isSome_iff_exists.mp hclass
    have hnode : ∃ node, getMsgnode G.toProtobuf s.registry junk Protocol.messageShutdownReq =
        some node := by
      rw [getMsgnode, hcls]
      exact ⟨_, rfl⟩
    obtain ⟨node, hnode⟩ := hnode
    unfold noticeStep
    rw [hnode]
    dsimp only
    rw [cost_goto, cost, hp]
    simp only [costFrom, modWorker_worker_self, modLife_worker, ThreadData.queueRead, sweepCost,
      List.length_cons]
    omega
  | @closing a todo removeIds c hp hc =>
    have hinsert := insertTime_length_le c.closeTime a (s.worker w).forDelete
    rw [cost, cost, hp]
    simp only [costFrom, closingStep, modWorker_worker_self, modConn_worker, sweepCost]
    omega
  | @erase removeIds hp =>
    rw [cost, cost, hp]
    simp only [costFrom, eraseStep, modWorker_worker_self]
    omega
  | deleteEnd hp =>
    rw [cost_goto, cost, hp]
    simp only [costFrom]
    omega
  | @deleteFree t a rest c hp hq hc htime =>
    rw [cost, cost]
    simp only [costFrom, modWorker_worker_self, free_worker, hp, hq, List.length_cons]
    omega

theorem workerStep_poll {e : WorkerAct} (hs : s.workerStep G w e = some s')
    (hp : (s.worker w).phase = .poll) (he : e.fires = false) :
    s' = s.goto w (.sweep (s.worker w).threadConnections []) := by
  unfold workerStep at hs
  rw [hp] at hs
  cases e with
  | go => exact (Option.some.inj hs).symm
  | readEvent | writeEvent | notified => cases he
  | push | read | write | notice => cases hs

/-- An own step that is neither the top of the loop nor an event costs one. -/
theorem cost_own (h : s.WellPlaced) (hclass : (s.registry Protocol.messageShutdownReq).isSome)
    {e : WorkerAct} (hs : s.step G (.worker w e) = some s') (htop : (s.worker w).phase ≠ .top)
    (he : e.fires = false) : s'.cost w + 1 ≤ s.cost w := by
  simp only [Layer.step, Option.ite_none_right_eq_some] at hs
  by_cases hpoll : (s.worker w).phase = .poll
  · rw [workerStep_poll hs.2 hpoll he, cost_goto, cost, hpoll]
    exact le_rfl
  · exact workerStep_cost h hclass (workerStep_cases hs.2) htop hpoll

/-! ### An iteration -/

/-- The step does not begin a new iteration of worker `w`, and no event of the worker fires in it. -/
def InIteration (w : ℕ) (s : Layer Cls Msg) : Act Cls Msg → Prop
  | .worker v e => v = w → (s.worker w).phase ≠ .top ∧ e.fires = false
  | _ => True

instance decidableInIteration (w : ℕ) (s : Layer Cls Msg) (a : Act Cls Msg) :
    Decidable (s.InIteration w a) :=
  match a with
  | .worker v e =>
      inferInstanceAs (Decidable (v = w → (s.worker w).phase ≠ .top ∧ e.fires = false))
  | .accept _ | .connect _ | .getMsgs _ | .send _ _ | .close _ | .clock _ | .regist _ _ =>
      isTrue trivial

/-- **One step.** -/
theorem cost_step (h : s.WellPlaced) (hclass : (s.registry Protocol.messageShutdownReq).isSome)
    {a : Act Cls Msg} (hs : s.step G a = some s') (hi : s.InIteration w a) :
    s'.cost w + (a.ofWorker w).toNat ≤ s.cost w + a.connects.toNat := by
  by_cases hown : a.ofWorker w = true
  · rw [hown]
    cases a with
    | worker v e =>
      have hv : v = w := of_decide_eq_true hown
      subst hv
      obtain ⟨htop, he⟩ := hi rfl
      exact cost_own h hclass hs htop he
    | _ => cases hown
  · rw [Bool.not_eq_true] at hown
    rw [hown]
    exact cost_other h hs hown

/-- Something other than an event can happen to a worker wherever it is. -/
theorem exists_permits (G : Generated Cls Msg) (s : Layer Cls Msg) (w : ℕ) :
    ∃ e, e.fires = false ∧ s.Permits G w e := by
  unfold Permits
  cases (s.worker w).phase with
  | top | drain | transfer | pass | tryRead | tryWrite | poll | callback | closing | erase | delete =>
    exact ⟨.go, rfl, trivial⟩
  | connectors =>
    by_cases hq : s.connectConns = []
    · exact ⟨.go, rfl, hq⟩
    · exact ⟨.push true, rfl, hq⟩
  | reading a back => exact ⟨.read .eof, rfl, fun _ _ => trivial⟩
  | writing a back =>
    cases ha : s.heap a with
    | none => exact ⟨.write .idle, rfl, by simp [ha]⟩
    | some c =>
      by_cases hlen : (flushConn G c).writeBuffer.length = 0
      · exact ⟨.write .idle, rfl, by simpa [ha, WriteResult.Meets] using hlen⟩
      · exact ⟨.write .error, rfl, by simpa [ha, WriteResult.Meets, Nat.pos_iff_ne_zero] using hlen⟩
  | sweep todo removeIds =>
    cases todo with
    | nil => exact ⟨.go, rfl, trivial⟩
    | cons a todo =>
      cases ha : s.heap a with
      | none => exact ⟨.go, rfl, by simp [ha]⟩
      | some c =>
        by_cases hst : c.state = .close
        · exact ⟨.notice 0, rfl, by simpa [ha] using hst⟩
        · exact ⟨.go, rfl, by simpa [ha] using hst⟩

/-- **A worker is never stuck.**  In every reachable state the loop can take exactly the steps that
may happen to it, so it follows no pointer to a deleted object; and there is one. -/
theorem permits_of_reach (hr : (netSystem G).Reach Lts.Free s) (hn : w < s.threadNum) :
    (∀ e, (s.step G (.worker w e)).isSome ↔ s.Permits G w e) ∧ ∃ e, s.Permits G w e := by
  refine ⟨fun e => ?_, ?_⟩
  · rw [Layer.step, if_pos hn]
    exact workerStep_isSome_iff (wellPlaced_of_reach hr) e
  · obtain ⟨e, -, he⟩ := exists_permits G s w
    exact ⟨e, he⟩

end Layer

/-- In the middle of the sweep, with one connection closed. -/
theorem permits_hangUp : ∃ s,
    (netSystem Protocol.generated).exec (.start 1 Protocol.registry 0) hangUp = some s ∧
      (s.worker 0).phase = .sweep [16, 32] [] ∧
      (∀ e, (s.step Protocol.generated (.worker 0 e)).isSome ↔
        s.Permits Protocol.generated 0 e) ∧ ∃ e, s.Permits Protocol.generated 0 e := by
  obtain ⟨s, hs, hp, hn⟩ : ∃ s ∈
      (netSystem Protocol.generated).exec (.start 1 Protocol.registry 0) hangUp,
      (s.worker 0).phase = .sweep [16, 32] [] ∧ 0 < s.threadNum := by
    decide +kernel
  have hr : (netSystem Protocol.generated).Reach Lts.Free s :=
    .of_exec (.start ⟨1, Protocol.registry, 0, rfl⟩) (Lts.allSteps_free _ _) hs
  exact ⟨s, hs, hp, Layer.permits_of_reach hr hn⟩

end GoFight.Net
