import GoFight.Net.Order

/-!
# What a step does to an address, a history and a worker

One lemma for each part of the state says what any step of the layer may do to it.  What is proved
about objects and the nodes they write goes by cases over these, not over the steps.

* `deletes`, `allocates` — the object a step deletes, and the one it makes;
* `Fate`, `step_fate` — of an address: its object stays, a new one is made there, or it is deleted;
* `Follows`, `step_follows` — of an incarnation's history.
-/

namespace GoFight.Net

open GoFight.Lib

variable {Cls Msg : Type*}

/-- The incarnation, and every node the object was given to write. -/
def Connection.track (c : Connection Msg) : ℕ × List (Item Msg) :=
  (c.id, c.flushed ++ c.connWriteMsgs)

/-- What a history says about registering, closing and deleting the object. -/
def Life.track (l : Life Msg) : Addr × Bool × Option ℕ × Option (ℕ × ℕ) × Bool :=
  (l.addr, l.connector, l.owner, l.closed, l.deleted)

namespace Layer

/-- The address whose object a step deletes: after a callback that reports a failure, and in the
deletion loop. -/
def deletes (s : Layer Cls Msg) : Act Cls Msg → Option Addr
  | .worker w _ =>
      match (s.worker w).phase, (s.worker w).forDelete with
      | .callback a false, _ => some a
      | .delete, (_, a) :: _ =>
          (s.heap a).bind fun c => if c.closeTime + 2 * 60 < (s.worker w).now then some a else none
      | _, _ => none
  | _ => none

/-- The address at which a step makes an object: in `net_connect`, and in `create_conn` for an
accepted socket. -/
def allocates (s : Layer Cls Msg) : Act Cls Msg → Option Addr
  | .connect a => some a
  | .worker w (.notified true a) =>
      match (s.worker w).newConnections with
      | ⟨none, _⟩ :: _ => some a
      | _ => none
  | _ => none

variable {G : Generated Cls Msg} {s s' s'' : Layer Cls Msg}

/-! ### Addresses -/

/-- What the step `a` does to the object at `b`. -/
inductive Fate (s : Layer Cls Msg) (a : Act Cls Msg) (b : Addr) (s' : Layer Cls Msg) : Prop
  | same (h : (s'.heap b).map Connection.track = (s.heap b).map Connection.track)
  | made (ha : s.allocates a = some b) (hb : s.Fresh b)
      (h : (s'.heap b).map Connection.track = some (s.nextId, []))
  | gone (hd : s.deletes a = some b) (h : s'.heap b = none)
  | drained {w e} (ha : a = .worker w e) (hp : (s.worker w).phase = .drain) (h : s' = s.drainStep w)

variable {b : Addr}

theorem Writes.track {f : Connection Msg → Connection Msg} (hf : Writes G f) (c : Connection Msg) :
    (f c).track = c.track := by
  have hid : (f c).id = c.id := congrArg Prod.fst (hf.queue_eq c).1
  rw [Connection.track, Connection.track, hid, hf.flushed, hf.queue, List.append_nil]

theorem Kept.track_readStep {a : Addr} {c : Connection Msg} (hr : ReadStep G s a c s') :
    Kept Connection.track s s' := by
  cases hr with
  | data => exact Kept.modConn s a fun _ => rfl
  | again => exact Kept.modConn s a fun _ => rfl
  | shut => exact .trans (Kept.modConn s a fun _ => by rfl) (Kept.connClose _ a fun _ _ => rfl)
  | failed => exact .trans (Kept.modConn s a fun _ => by rfl) (Kept.connClose _ a fun _ _ => rfl)

theorem Kept.track_writeStep {a : Addr} {r : WriteResult} (hr : WriteStep G s a r s') :
    Kept Connection.track s s' := by
  cases hr with
  | quiet hf => exact Kept.modConn s a hf.track
  | failed _ hf => exact .trans (Kept.modConn s a hf.track) (Kept.connClose _ a fun _ _ => rfl)

theorem Kept.track_registerConn (s : Layer Cls Msg) (w : ℕ) (a : Addr) (id : ℕ) (st : ConnState) :
    Kept Connection.track s (s.registerConn w a id st) := by
  intro v
  rw [registerConn_heap]
  split
  · rw [Option.map_map]
    rfl
  · rfl

theorem fate_workerStep {w : ℕ} {e : WorkerAct} (hs : WorkerStep G s w e s') :
    Fate s (.worker w e) b s' := by
  cases hs with
  | top | transferEnd | transferSkip | connectorsEnd | passEnd | passSkip | passVisit | readStart
  | readSkip | writeStart | writeSkip | dropped | pollEnd | callbackOk | sweepEnd | sweepSkip
  | deleteEnd => exact .same rfl
  | drain hp => exact .drained rfl hp rfl
  | @transferMove a todo c it rest => exact .same (Kept.modConn s a (fun _ => by rfl) b)
  | @push a => exact .same (Kept.modConn s a (fun _ => by rfl) b)
  | @readEvent a => exact .same (Kept.modConn s a (fun _ => by rfl) b)
  | @writeEvent a => exact .same (Kept.modConn s a (fun _ => by rfl) b)
  | @refused n st rest a => exact .same (Kept.modConn s a (fun _ => by rfl) b)
  | @closing a => exact .same (Kept.modConn s a (fun _ => by rfl) b)
  | read hp hc hr => exact .same (Kept.track_readStep hr b)
  | write hp hc he hr => exact .same (Kept.track_writeStep hr b)
  | @accepted n st rest a hp hq ha he =>
    have hreg := Kept.track_registerConn
      ((s.modWorker w (.take n rest)).alloc a .connecting false) w a s.nextId st b
    rw [alloc_heap] at hreg
    by_cases hb : b = a
    · rw [if_pos hb] at hreg
      refine .made ?_ (hb ▸ ha) hreg
      rw [he, allocates, hq, hb]
    · rw [if_neg hb] at hreg
      exact .same hreg
  | @connected n st rest a c =>
    exact .same (Kept.track_registerConn (s.modWorker w (.take n rest)) w a c.id st b)
  | @callbackFail a hp =>
    by_cases hb : b = a
    · refine .gone ?_ ?_
      · rw [deletes, hp, hb]
      · rw [goto_heap, free_heap, if_pos hb]
    · refine .same ?_
      rw [goto_heap, free_heap, if_neg hb]
  | notice =>
    rw [noticeStep]
    split <;> exact .same rfl
  | erase => exact .same (Kept.retire s w _ (fun _ => by rfl) b)
  | @deleteFree t a rest c hp hq hc htime =>
    by_cases hb : b = a
    · refine .gone ?_ ?_
      · rw [deletes, hp, hq]
        dsimp only
        rw [hc, hb]
        exact if_pos htime
      · rw [modWorker_heap, free_heap, if_pos hb]
    · refine .same ?_
      rw [modWorker_heap, free_heap, if_neg hb]

/-- **What a step does to an address.** -/
theorem step_fate {a : Act Cls Msg} (hs : s.step G a = some s') : Fate s a b s' := by
  cases a with
  | worker w e =>
    simp only [Layer.step, Option.ite_none_right_eq_some] at hs
    exact fate_workerStep (workerStep_cases hs.2)
  | connect a =>
    simp only [Layer.step, Option.ite_none_right_eq_some, Option.some.injEq] at hs
    obtain ⟨ha, rfl⟩ := hs
    have halloc := alloc_heap s a .connecting true b
    by_cases hb : b = a
    · refine .made (congrArg some hb.symm) (hb ▸ ha) ?_
      show ((s.alloc a .connecting true).heap b).map _ = _
      rw [halloc, if_pos hb]
      rfl
    · refine .same ?_
      show ((s.alloc a .connecting true).heap b).map _ = _
      rw [halloc, if_neg hb]
  | close a =>
    obtain ⟨c, -, hs⟩ := Option.bind_eq_some_iff.mp hs
    simp only [Option.ite_none_right_eq_some, Option.some.injEq] at hs
    obtain ⟨-, rfl⟩ := hs
    exact .same (Kept.connClose s a (fun _ _ => rfl) b)
  | accept written =>
    simp only [Layer.step, Option.ite_none_right_eq_some, Option.some.injEq] at hs
    obtain ⟨-, rfl⟩ := hs
    exact .same rfl
  | getMsgs i =>
    simp only [Layer.step, Option.ite_none_right_eq_some, Option.some.injEq] at hs
    obtain ⟨-, rfl⟩ := hs
    exact .same rfl
  | send w it =>
    simp only [Layer.step, Option.ite_none_right_eq_some, Option.some.injEq] at hs
    obtain ⟨-, rfl⟩ := hs
    exact .same rfl
  | clock t | regist msgType init =>
    cases hs
    exact .same rfl

/-- An object is there afterwards unless the step deletes it. -/
theorem step_keeps {a : Act Cls Msg} {c : Connection Msg} (hs : s.step G a = some s')
    (hb : s.deletes a ≠ some b) (hc : s.heap b = some c) :
    ∃ c', s'.heap b = some c' ∧ c'.id = c.id := by
  have htrack : (s'.heap b).map Connection.id = (s.heap b).map Connection.id := by
    cases step_fate (b := b) hs with
    | same h =>
      have hfst := congrArg (Option.map Prod.fst) h
      rwa [Option.map_map, Option.map_map] at hfst
    | made _ hfresh =>
      rw [hfresh.1] at hc
      cases hc
    | gone hd => exact absurd hd hb
    | drained _ _ h =>
      rw [h]
      exact Kept.drainStep s _ (fun _ _ => rfl) b
  rw [hc] at htrack
  exact Option.map_eq_some_iff.mp htrack

/-- An object that is there afterwards was there before, or has the next number. -/
theorem step_origin {a : Act Cls Msg} {c' : Connection Msg} (hs : s.step G a = some s')
    (hc : s'.heap b = some c') :
    (∃ c, s.heap b = some c ∧ c.id = c'.id) ∨ s.allocates a = some b ∧ c'.id = s.nextId := by
  cases step_fate (b := b) hs with
  | same h =>
    rw [hc] at h
    obtain ⟨c, hb, htrack⟩ := Option.map_eq_some_iff.mp h.symm
    exact .inl ⟨c, hb, congrArg Prod.fst htrack⟩
  | made ha _ h =>
    rw [hc, Option.map_some, Option.some.injEq] at h
    exact .inr ⟨ha, congrArg Prod.fst h⟩
  | gone _ h =>
    rw [hc] at h
    cases h
  | drained _ _ h =>
    have hk : Kept Connection.id s s' := h ▸ Kept.drainStep s _ fun _ _ => rfl
    exact .inl (hk.exists_of_some hc)

/-! ### Histories -/

/-- What the step `a` does to the history of the incarnation `id`. -/
inductive Follows (s : Layer Cls Msg) (a : Act Cls Msg) (id : ℕ) (s' : Layer Cls Msg) : Prop
  | same (h : (s'.life id).track = (s.life id).track)
  | made {b k o} (hid : id = s.nextId) (ha : s.allocates a = some b) (hb : s.Fresh b)
      (h : (s'.life id).track = (b, k, o, none, false))
  | registered {w b c} (hp : (s.worker w).phase = .poll) (hat : s.placeAt b = some (.handed w))
      (hc : s.heap b = some c) (hid : c.id = id)
      (h : (s'.life id).track = ((s.life id).setOwner w).track)
  | shut {b c} (hc : s.heap b = some c) (hid : c.id = id) (hst : c.state ≠ .close)
      (htd : c.td.isSome) (h : (s'.life id).track = ((s.life id).shut s.clock).track)
  | deleted {b c} (hd : s.deletes a = some b) (hc : s.heap b = some c) (hid : c.id = id)
      (h : (s'.life id).track = (s.life id).delete.track)

variable {id : ℕ}

theorem Follows.congr {a : Act Cls Msg} (h : Follows s a id s') (hlife : s''.life = s'.life) :
    Follows s a id s'' := by
  cases h with
  | same h => exact .same (by rw [hlife, h])
  | made hid ha hb h => exact .made hid ha hb (by rw [hlife, h])
  | registered hp hat hc hid h => exact .registered hp hat hc hid (by rw [hlife, h])
  | shut hc hid hst htd h => exact .shut hc hid hst htd (by rw [hlife, h])
  | deleted hd hc hid h => exact .deleted hd hc hid (by rw [hlife, h])

/-- `conn_close` behind an update that leaves the state alone. -/
theorem Follows.connClose {a : Act Cls Msg} {s₁ : Layer Cls Msg} {b : Addr} {c c₁ : Connection Msg}
    (hlife : s₁.life = s.life) (hclock : s₁.clock = s.clock) (hc : s.heap b = some c)
    (hc₁ : s₁.heap b = some c₁) (hid : c₁.id = c.id) (hst : c₁.state = c.state) (htd : c.td.isSome) :
    Follows s a id (s₁.connClose b) := by
  have hcl := connClose_life hc₁ id
  rw [hst, hid, hlife, hclock] at hcl
  by_cases hi : id = c.id ∧ c.state ≠ .close
  · rw [if_pos hi] at hcl
    exact .shut hc hi.1.symm hi.2 htd (by rw [hcl])
  · rw [if_neg hi] at hcl
    exact .same (by rw [hcl])

theorem follows_readStep {a : Act Cls Msg} {b : Addr} {c : Connection Msg} (hc : s.heap b = some c)
    (htd : c.td.isSome) (hr : ReadStep G s b c s') : Follows s a id s' := by
  have hmod : ∀ f : Connection Msg → Connection Msg, (s.modConn b f).heap b = some (f c) := by
    intro f
    rw [modConn_heap, if_pos rfl, hc]
    rfl
  cases hr with
  | data =>
    refine .same ?_
    rw [modLife_life]
    split <;> rfl
  | again => exact .same rfl
  | shut => exact .connClose rfl rfl hc (hmod _) rfl rfl htd
  | failed => exact .connClose rfl rfl hc (hmod _) rfl rfl htd

theorem Writes.state_eq {f : Connection Msg → Connection Msg} (hf : Writes G f) (c : Connection Msg) :
    (f c).id = c.id ∧ (f c).state = c.state := by
  have hid : (f c).readSide.id = c.readSide.id := congrArg Connection.id (hf.readSide c)
  have hst : (f c).readSide.state = c.readSide.state := congrArg Connection.state (hf.readSide c)
  exact ⟨hid, hst⟩

theorem follows_writeStep {a : Act Cls Msg} {b : Addr} {c : Connection Msg} {r : WriteResult}
    (hc : s.heap b = some c) (htd : c.td.isSome) (hr : WriteStep G s b r s') : Follows s a id s' := by
  cases hr with
  | quiet hf => exact .same rfl
  | @failed f _ hf =>
    have hmod : (s.modConn b f).heap b = some (f c) := by
      rw [modConn_heap, if_pos rfl, hc]
      rfl
    obtain ⟨hid, hst⟩ := hf.state_eq c
    exact .connClose rfl rfl hc hmod hid hst htd

/-- `GO_DELETE` of the object a step deletes. -/
theorem Follows.free {a : Act Cls Msg} {s₁ : Layer Cls Msg} {b : Addr} (hd : s.deletes a = some b)
    (hlife : s₁.life = (s.free b).life) : Follows s a id s₁ := by
  cases hc : s.heap b with
  | none =>
    refine .same ?_
    rw [hlife, Layer.free, hc]
  | some c =>
    by_cases hid : c.id = id
    · refine .deleted hd hc hid ?_
      rw [hlife, free_life hc, if_pos hid.symm]
    · refine .same ?_
      rw [hlife, free_life hc, if_neg fun h => hid h.symm]

theorem WellPlaced.td_isSome (h : s.WellPlaced) {w : ℕ} {b : Addr} {c : Connection Msg}
    (hc : s.heap b = some c) (hat : s.placeAt b = some (.registered w)) : c.td.isSome :=
  Option.isSome_iff_ne_none.mpr (h.td_ne_none hat hc)

theorem follows_workerStep {w : ℕ} {e : WorkerAct} (hw : s.WellPlaced)
    (hs : WorkerStep G s w e s') : Follows s (.worker w e) id s' := by
  cases hs with
  | top | drain | transferEnd | transferSkip | transferMove | push | connectorsEnd | passEnd
  | passSkip | passVisit | readStart | readSkip | writeStart | writeSkip | readEvent | writeEvent
  | dropped | refused | pollEnd | callbackOk | sweepEnd | sweepSkip | closing | erase
  | deleteEnd => exact .same rfl
  | read hp hc hr =>
    have htd := hw.td_isSome hc (hw.in_hand hp List.mem_cons_self)
    exact (follows_readStep hc htd hr).congr rfl
  | write hp hc he hr =>
    have htd := hw.td_isSome hc (hw.in_hand hp List.mem_cons_self)
    exact (follows_writeStep hc htd hr).congr rfl
  | @accepted n st rest a hp hq ha he =>
    have hlife : ∀ v, (((s.modWorker w (.take n rest)).alloc a .connecting false).registerConn w a
        s.nextId st).life v = if v = s.nextId then (Life.new a false : Life Msg).setOwner w
          else s.life v := by
      intro v
      rw [registerConn_life, alloc_life]
      by_cases hv : v = s.nextId
      · rw [if_pos hv, if_pos hv]
        exact congrArg (Life.setOwner w) (if_pos hv)
      · rw [if_neg hv, if_neg hv]
        exact if_neg hv
    by_cases hid : id = s.nextId
    · refine .made (b := a) (k := false) (o := some w) hid ?_ ha ?_
      · rw [he, allocates, hq]
      · rw [hlife, if_pos hid]
        rfl
    · refine .same ?_
      rw [hlife, if_neg hid]
  | @connected n st rest a c hp hq hc =>
    by_cases hid : c.id = id
    · refine .registered hp (hw.handed_of_cons hq) hc hid ?_
      rw [goto_life, registerConn_life, if_pos hid.symm]
      rfl
    · refine .same ?_
      rw [goto_life, registerConn_life, if_neg fun h => hid h.symm]
      rfl
  | @callbackFail a hp =>
    refine .free (b := a) ?_ rfl
    rw [deletes, hp]
  | notice =>
    refine .same ?_
    rw [noticeStep]
    split
    · rfl
    · rw [goto_life, modWorker_life, modLife_life]
      split <;> rfl
  | @deleteFree t a rest c hp hq hc htime =>
    refine .free (b := a) ?_ rfl
    rw [deletes, hp, hq]
    dsimp only
    rw [hc]
    exact if_pos htime

/-- **What a step does to the history of an incarnation.** -/
theorem step_follows {a : Act Cls Msg} (hw : s.WellPlaced) (hs : s.step G a = some s') :
    Follows s a id s' := by
  cases a with
  | worker w e =>
    simp only [Layer.step, Option.ite_none_right_eq_some] at hs
    exact follows_workerStep hw (workerStep_cases hs.2)
  | connect a =>
    simp only [Layer.step, Option.ite_none_right_eq_some, Option.some.injEq] at hs
    obtain ⟨ha, rfl⟩ := hs
    have hlife : (s.netConnect a).life id =
        if id = s.nextId then .new a true else s.life id := alloc_life s a .connecting true id
    by_cases hid : id = s.nextId
    · refine .made (b := a) (k := true) (o := none) hid rfl ha ?_
      rw [hlife, if_pos hid]
      rfl
    · refine .same ?_
      rw [hlife, if_neg hid]
  | close a =>
    obtain ⟨c, hc, hs⟩ := Option.bind_eq_some_iff.mp hs
    simp only [Option.ite_none_right_eq_some, Option.some.injEq] at hs
    obtain ⟨htd, rfl⟩ := hs
    exact .connClose rfl rfl hc hc rfl rfl htd
  | accept written =>
    simp only [Layer.step, Option.ite_none_right_eq_some, Option.some.injEq] at hs
    obtain ⟨-, rfl⟩ := hs
    exact .same rfl
  | getMsgs i =>
    simp only [Layer.step, Option.ite_none_right_eq_some, Option.some.injEq] at hs
    obtain ⟨-, rfl⟩ := hs
    exact .same rfl
  | send w it =>
    simp only [Layer.step, Option.ite_none_right_eq_some, Option.some.injEq] at hs
    obtain ⟨-, rfl⟩ := hs
    exact .same rfl
  | clock t | regist msgType init =>
    cases hs
    exact .same rfl

/-! ### What belongs to no worker -/

/-- What a worker leaves alone. -/
def frame (s : Layer Cls Msg) : List (Item Msg) × List (Item Msg) × ℕ × Registry Cls × ℕ :=
  (s.output, s.pushes, s.threadNum, s.registry, s.clock)

theorem connClose_frame (s : Layer Cls Msg) (b : Addr) :
    ((s.connClose b).frame, (s.connClose b).nextId) = (s.frame, s.nextId) := by
  unfold Layer.connClose
  split
  · rfl
  · split <;> rfl

theorem free_frame (s : Layer Cls Msg) (b : Addr) :
    ((s.free b).frame, (s.free b).nextId) = (s.frame, s.nextId) := by
  unfold Layer.free
  split <;> rfl

theorem readStep_frame {b : Addr} {c : Connection Msg} (hr : ReadStep G s b c s') :
    (s'.frame, s'.nextId) = (s.frame, s.nextId) := by
  cases hr with
  | data | again => rfl
  | shut => exact connClose_frame _ b
  | failed => exact connClose_frame _ b

theorem writeStep_frame {b : Addr} {r : WriteResult} (hr : WriteStep G s b r s') :
    (s'.frame, s'.nextId) = (s.frame, s.nextId) := by
  cases hr with
  | quiet => rfl
  | failed => exact connClose_frame _ b

theorem workerStep_frame {w : ℕ} {e : WorkerAct} (hs : WorkerStep G s w e s') :
    s'.frame = s.frame ∧ (s'.nextId = s.nextId ∨ ∃ b, s.allocates (.worker w e) = some b ∧
      s.Fresh b ∧ s'.nextId = s.nextId + 1 ∧ (s'.life s.nextId).addr = b) := by
  cases hs with
  | top | drain | transferEnd | transferSkip | transferMove | push | connectorsEnd | passEnd
  | passSkip | passVisit | readStart | readSkip | writeStart | writeSkip | readEvent | writeEvent
  | dropped | refused | connected | pollEnd | callbackOk | sweepEnd | sweepSkip | closing | erase
  | deleteEnd => exact ⟨rfl, .inl rfl⟩
  | read hp hc hr =>
    have h := readStep_frame hr
    exact ⟨congrArg Prod.fst h, .inl (congrArg Prod.snd h)⟩
  | write hp hc he hr =>
    have h := writeStep_frame hr
    exact ⟨congrArg Prod.fst h, .inl (congrArg Prod.snd h)⟩
  | @accepted n st rest a hp hq ha he =>
    refine ⟨rfl, .inr ⟨a, ?_, ha, rfl, ?_⟩⟩
    · rw [he, allocates, hq]
    · rw [registerConn_life, if_pos rfl, alloc_life]
      exact congrArg (fun l : Life Msg => (l.setOwner w).addr) (if_pos rfl)
  | @callbackFail a | @deleteFree t a =>
    have h := free_frame s a
    exact ⟨congrArg Prod.fst h, .inl (congrArg Prod.snd h)⟩
  | notice =>
    rw [noticeStep]
    split <;> exact ⟨rfl, .inl rfl⟩

/-- A step numbers an object it makes, and no other. -/
theorem step_nextId {a : Act Cls Msg} (hs : s.step G a = some s') :
    s'.nextId = s.nextId ∨ ∃ b, s.allocates a = some b ∧ s.Fresh b ∧ s'.nextId = s.nextId + 1 ∧
      (s'.life s.nextId).addr = b := by
  cases a with
  | worker w e =>
    simp only [Layer.step, Option.ite_none_right_eq_some] at hs
    exact (workerStep_frame (workerStep_cases hs.2)).2
  | connect a =>
    simp only [Layer.step, Option.ite_none_right_eq_some, Option.some.injEq] at hs
    obtain ⟨ha, rfl⟩ := hs
    refine .inr ⟨a, rfl, ha, rfl, ?_⟩
    show ((s.alloc a .connecting true).life s.nextId).addr = a
    rw [alloc_life, if_pos rfl]
    rfl
  | close a =>
    obtain ⟨c, -, hs⟩ := Option.bind_eq_some_iff.mp hs
    simp only [Option.ite_none_right_eq_some, Option.some.injEq] at hs
    obtain ⟨-, rfl⟩ := hs
    exact .inl (congrArg Prod.snd (connClose_frame s a))
  | accept written | getMsgs i | send w it =>
    simp only [Layer.step, Option.ite_none_right_eq_some, Option.some.injEq] at hs
    obtain ⟨-, rfl⟩ := hs
    exact .inl rfl
  | clock t | regist msgType init =>
    cases hs
    exact .inl rfl

theorem nextId_le {a : Act Cls Msg} (hs : s.step G a = some s') : s.nextId ≤ s'.nextId := by
  rcases step_nextId hs with h | ⟨b, -, -, h, -⟩
  · exact h.ge
  · exact h ▸ s.nextId.le_succ

/-- An incarnation keeps its address. -/
theorem step_addr {a : Act Cls Msg} (hw : s.WellPlaced) (hs : s.step G a = some s')
    (hid : id < s.nextId) : (s'.life id).addr = (s.life id).addr := by
  have hfollows : Follows s a id s' := step_follows hw hs
  cases hfollows with
  | made heq => exact absurd heq (Nat.ne_of_lt hid)
  | same h | registered _ _ _ _ h | shut _ _ _ _ h | deleted _ _ _ h => exact congrArg Prod.fst h

theorem step_connector {a : Act Cls Msg} (hw : s.WellPlaced) (hs : s.step G a = some s')
    (hid : id < s.nextId) : (s'.life id).connector = (s.life id).connector := by
  have hfollows : Follows s a id s' := step_follows hw hs
  cases hfollows with
  | made heq => exact absurd heq (Nat.ne_of_lt hid)
  | same h | registered _ _ _ _ h | shut _ _ _ _ h | deleted _ _ _ h =>
    exact congrArg (fun t => t.2.1) h

/-- The worker that registered an incarnation stays the one. -/
theorem step_owner {a : Act Cls Msg} {w : ℕ} (hw : s.WellPlaced) (hs : s.step G a = some s')
    (howner : (s.life id).owner = some w) : (s'.life id).owner = some w := by
  have hfollows : Follows s a id s' := step_follows hw hs
  cases hfollows with
  | made heq =>
    rw [heq, hw.fresh le_rfl] at howner
    cases howner
  | same h | shut _ _ _ _ h | deleted _ _ _ h => exact (congrArg (fun t => t.2.2.1) h).trans howner
  | registered _ hat hc hcid =>
    -- it is not registered yet
    have htd : _ = none := hw.td_of_place hat hc
    rw [← hcid, hw.owner hc, htd] at howner
    cases howner

/-- Every incarnation was made at an address that the allocator returns. -/
def Aligned (s : Layer Cls Msg) : Prop :=
  ∀ id < s.nextId, (s.life id).addr ≠ 0 ∧ (s.life id).addr.toNat % 16 = 0

theorem Aligned.step {a : Act Cls Msg} (h : s.Aligned) (hw : s.WellPlaced)
    (hs : s.step G a = some s') : s'.Aligned := by
  intro id hid
  rcases Nat.lt_or_ge id s.nextId with hlt | hge
  · rw [step_addr hw hs hlt]
    exact h id hlt
  · rcases step_nextId hs with heq | ⟨b, -, hb, heq, haddr⟩
    · exact absurd hid (heq ▸ Nat.not_lt_of_ge hge)
    · rw [heq] at hid
      have hnew : id = s.nextId := Nat.le_antisymm (Nat.le_of_lt_succ hid) hge
      rw [hnew, haddr]
      exact hb.2

/-- What is closed stays closed. -/
theorem step_closed {a : Act Cls Msg} (hw : s.WellPlaced) (hs : s.step G a = some s')
    (hcl : (s.life id).closed.isSome) : (s'.life id).closed.isSome := by
  have hfollows : Follows s a id s' := step_follows hw hs
  cases hfollows with
  | made heq =>
    rw [heq, hw.fresh le_rfl] at hcl
    cases hcl
  | same h | registered _ _ _ _ h | deleted _ _ _ h =>
    have hsame : (s'.life id).closed = (s.life id).closed := congrArg (fun t => t.2.2.2.1) h
    rwa [hsame]
  | shut _ _ _ _ h =>
    have hnow : (s'.life id).closed = some (s.clock, (s.life id).decoded.length) :=
      congrArg (fun t => t.2.2.2.1) h
    rw [hnow]
    rfl

theorem step_threadNum {a : Act Cls Msg} (hs : s.step G a = some s') :
    s'.threadNum = s.threadNum := by
  cases a with
  | worker w e =>
    simp only [Layer.step, Option.ite_none_right_eq_some] at hs
    exact congrArg (fun f => f.2.2.1) (workerStep_frame (workerStep_cases hs.2)).1
  | close a =>
    obtain ⟨c, -, hs⟩ := Option.bind_eq_some_iff.mp hs
    simp only [Option.ite_none_right_eq_some, Option.some.injEq] at hs
    obtain ⟨-, rfl⟩ := hs
    exact congrArg (fun f => f.1.2.2.1) (connClose_frame s a)
  | connect a | accept written | getMsgs i | send w it =>
    simp only [Layer.step, Option.ite_none_right_eq_some, Option.some.injEq] at hs
    obtain ⟨-, rfl⟩ := hs
    rfl
  | clock t | regist msgType init =>
    cases hs
    rfl

/-- Only `regist_msg_processer` changes the registry. -/
theorem step_registry {a : Act Cls Msg} (hs : s.step G a = some s')
    (ha : ∀ msgType init, a ≠ .regist msgType init) : s'.registry = s.registry := by
  cases a with
  | worker w e =>
    simp only [Layer.step, Option.ite_none_right_eq_some] at hs
    exact congrArg (fun f => f.2.2.2.1) (workerStep_frame (workerStep_cases hs.2)).1
  | close a =>
    obtain ⟨c, -, hs⟩ := Option.bind_eq_some_iff.mp hs
    simp only [Option.ite_none_right_eq_some, Option.some.injEq] at hs
    obtain ⟨-, rfl⟩ := hs
    exact congrArg (fun f => f.1.2.2.2.1) (connClose_frame s a)
  | connect a | accept written | getMsgs i | send w it =>
    simp only [Layer.step, Option.ite_none_right_eq_some, Option.some.injEq] at hs
    obtain ⟨-, rfl⟩ := hs
    rfl
  | clock t =>
    cases hs
    rfl
  | regist msgType init => exact absurd rfl (ha msgType init)

/-- A step leaves the output alone, or `get_net_msgs` adds what a worker has. -/
theorem step_output {a : Act Cls Msg} (hs : s.step G a = some s') :
    s'.output = s.output ∨ ∃ w < s.threadNum, s'.output = s.output ++ (s.worker w).tdReadMsgs := by
  cases a with
  | worker w e =>
    simp only [Layer.step, Option.ite_none_right_eq_some] at hs
    exact .inl (congrArg Prod.fst (workerStep_frame (workerStep_cases hs.2)).1)
  | close a =>
    obtain ⟨c, -, hs⟩ := Option.bind_eq_some_iff.mp hs
    simp only [Option.ite_none_right_eq_some, Option.some.injEq] at hs
    obtain ⟨-, rfl⟩ := hs
    exact .inl (connClose_output s a)
  | getMsgs i =>
    simp only [Layer.step, Option.ite_none_right_eq_some, Option.some.injEq] at hs
    obtain ⟨hi, rfl⟩ := hs
    exact .inr ⟨i, hi, rfl⟩
  | connect a | accept written | send w it =>
    simp only [Layer.step, Option.ite_none_right_eq_some, Option.some.injEq] at hs
    obtain ⟨-, rfl⟩ := hs
    exact .inl rfl
  | clock t | regist msgType init =>
    cases hs
    exact .inl rfl

/-- A push is a `net_send`. -/
theorem step_pushes {a : Act Cls Msg} (hs : s.step G a = some s') :
    s'.pushes = s.pushes ++ match a with | .send _ it => [it] | _ => [] := by
  cases a with
  | worker w e =>
    simp only [Layer.step, Option.ite_none_right_eq_some] at hs
    rw [List.append_nil]
    exact congrArg (fun f => f.2.1) (workerStep_frame (workerStep_cases hs.2)).1
  | close a =>
    obtain ⟨c, -, hs⟩ := Option.bind_eq_some_iff.mp hs
    simp only [Option.ite_none_right_eq_some, Option.some.injEq] at hs
    obtain ⟨-, rfl⟩ := hs
    rw [List.append_nil]
    exact congrArg (fun f => f.1.2.1) (connClose_frame s a)
  | send w it =>
    simp only [Layer.step, Option.ite_none_right_eq_some, Option.some.injEq] at hs
    obtain ⟨-, rfl⟩ := hs
    rfl
  | connect a | accept written | getMsgs i =>
    simp only [Layer.step, Option.ite_none_right_eq_some, Option.some.injEq] at hs
    obtain ⟨-, rfl⟩ := hs
    exact (List.append_nil _).symm
  | clock t | regist msgType init =>
    cases hs
    exact (List.append_nil _).symm

/-! ### Workers -/

/-- Only the worker `w` goes on, and `get_net_msgs` finds the same as before. -/
def Quiet (w : ℕ) (s s' : Layer Cls Msg) : Prop :=
  ∀ v, (v ≠ w → (s'.worker v).phase = (s.worker v).phase) ∧
    (s'.worker v).tdReadMsgs = (s.worker v).tdReadMsgs

theorem Quiet.of_worker {w : ℕ} (h : s'.worker = s.worker) : Quiet w s s' := fun v => by
  rw [h]
  exact ⟨fun _ => rfl, rfl⟩

theorem Quiet.trans {w : ℕ} (h : Quiet w s s') (h' : Quiet w s' s'') : Quiet w s s'' := fun v =>
  ⟨fun hv => ((h' v).1 hv).trans ((h v).1 hv), (h' v).2.trans (h v).2⟩

theorem Quiet.modWorker (s : Layer Cls Msg) (w : ℕ) {g : ThreadData Msg → ThreadData Msg}
    (hg : (g (s.worker w)).tdReadMsgs = (s.worker w).tdReadMsgs) : Quiet w s (s.modWorker w g) := by
  intro v
  rw [modWorker_worker]
  split
  · next hv => exact ⟨fun hne => absurd hv hne, hv ▸ hg⟩
  · exact ⟨fun _ => rfl, rfl⟩

theorem Quiet.giveWorker (s : Layer Cls Msg) (w : ℕ) (ci : ConnInfo) (written : Bool) :
    Quiet w s (s.giveWorker ci written) := by
  intro v
  rw [Layer.giveWorker, modWorker_worker]
  split <;> exact ⟨fun _ => rfl, rfl⟩

theorem readStep_worker {b : Addr} {c : Connection Msg} (hr : ReadStep G s b c s') :
    s'.worker = s.worker := by
  cases hr with
  | data | again => rfl
  | shut | failed => exact connClose_worker _ b

theorem writeStep_worker {b : Addr} {r : WriteResult} (hr : WriteStep G s b r s') :
    s'.worker = s.worker := by
  cases hr with
  | quiet => rfl
  | failed => exact connClose_worker _ b

/-- The first node of a connection that is being transferred was decoded. -/
theorem InOrder.wire_of_transfer (h : s.InOrder) (hw : s.WellPlaced) {w : ℕ} {a : Addr}
    {todo : List Addr} {c : Connection Msg} {it : Item Msg}
    (hp : (s.worker w).phase = .transfer (a :: todo)) (hc : s.heap a = some c)
    (hit : it ∈ c.connReadMsgs) : ∃ k, it.src = .wire c.id k := by
  have hsw : a ∉ (s.worker w).phase.swept := by
    rw [hp]
    exact List.not_mem_nil
  have hn : (s.life c.id).noticed = false := by
    refine h.not_noticed hc (not_left_of_registered hc ?_ hsw)
    exact hw.in_hand hp List.mem_cons_self
  refine h.src_of_mem ?_
  rw [← h.live hc hn]
  exact List.mem_append_right _ hit

/-- A step of a worker moves no other worker on, and brings it nothing for `get_net_msgs` but a
decoded node and a notice. -/
theorem workerStep_inbox {w : ℕ} {e : WorkerAct} (hw : s.WellPlaced) (ho : s.InOrder)
    (hs : WorkerStep G s w e s') : Quiet w s s' ∨ ∃ it, Quiet w (s.modWorker w (.queueRead it)) s' ∧
      ((∃ id k, it.src = .wire id k) ∨
        ∃ b c, s.heap b = some c ∧ it.src = .notice c.id ∧ it.node.msgConn = b) := by
  cases hs with
  | top | transferEnd | transferSkip | connectorsEnd | passEnd | passSkip | passVisit | readStart
  | readSkip | writeStart | writeSkip | dropped | pollEnd | callbackOk | sweepEnd | sweepSkip
  | deleteEnd => exact .inl (.modWorker s w rfl)
  | drain =>
    refine .inl fun v => ?_
    rw [drainStep, modWorker_worker]
    split
    · next hv => exact ⟨fun hne => absurd hv hne, rfl⟩
    · exact ⟨fun _ => rfl, rfl⟩
  | @erase removeIds => exact .inl (.modWorker { s with heap := s.retire w removeIds } w rfl)
  | @transferMove a todo c it rest hp hc hmsgs =>
    obtain ⟨k, hk⟩ := ho.wire_of_transfer hw hp hc (hmsgs ▸ List.mem_cons_self)
    exact .inr ⟨it, .of_worker rfl, .inl ⟨_, k, hk⟩⟩
  | @push a rest written =>
    exact .inl (.trans (.of_worker rfl) (.giveWorker ((s.setConnectors rest).setPlace a _) w _ _))
  | @read a back c s₁ hp hc hr =>
    exact .inl (.trans (.of_worker (readStep_worker hr)) (.modWorker s₁ w rfl))
  | @write a back c r s₁ hp hc he hr =>
    exact .inl (.trans (.of_worker (writeStep_worker hr)) (.modWorker s₁ w rfl))
  | @readEvent a => exact .inl (.modWorker (s.modConn a _) w rfl)
  | @writeEvent a => exact .inl (.modWorker (s.modConn a _) w rfl)
  | @closing a => exact .inl (.modWorker (s.modConn a connInternalClose) w rfl)
  | @accepted n st rest a =>
    have htake : Quiet w s (s.modWorker w (.take n rest)) := .modWorker s w rfl
    exact .inl (htake.trans (.modWorker (((s.modWorker w _).alloc a _ _).modConn a _ |>.modLife _ _)
      w rfl))
  | @refused n st rest a =>
    have htake : Quiet w s (s.modWorker w (.take n rest)) := .modWorker s w rfl
    exact .inl (htake.trans (.modWorker ((s.modWorker w _).setPlace a _) w rfl))
  | @connected n st rest a c =>
    have htake : Quiet w s (s.modWorker w (.take n rest)) := .modWorker s w rfl
    have hreg : Quiet w (s.modWorker w (.take n rest))
        ((s.modWorker w (.take n rest)).registerConn w a c.id st) := .modWorker _ w rfl
    exact .inl (htake.trans (hreg.trans (.modWorker _ w rfl)))
  | @callbackFail a =>
    exact .inl (.trans (.of_worker (free_worker s a)) (.modWorker (s.free a) w rfl))
  | @deleteFree t a =>
    exact .inl (.trans (.of_worker (free_worker s a)) (.modWorker (s.free a) w rfl))
  | @notice a todo removeIds c junk hp hc =>
    rw [noticeStep]
    split
    · exact .inl (.of_worker rfl)
    · next node _ =>
      let notice : MsgNode Msg :=
        { node with msgData := G.setCode node.msgData 0, msgType := 0, msgConn := a }
      refine .inr ⟨⟨notice, .notice c.id, .request⟩, ?_, .inr ⟨a, c, hc, rfl, rfl⟩⟩
      exact .modWorker (s.modWorker w _) w rfl

/-- What a worker has for `get_net_msgs` was there before, or comes from a connection: decoded, or
its notice. -/
theorem step_tdReadMsgs {a : Act Cls Msg} {v : ℕ} {it : Item Msg} (hw : s.WellPlaced)
    (ho : s.InOrder) (hs : s.step G a = some s') (hit : it ∈ (s'.worker v).tdReadMsgs) :
    it ∈ (s.worker v).tdReadMsgs ∨ v < s.threadNum ∧ ((∃ id k, it.src = .wire id k) ∨
      ∃ b c, s.heap b = some c ∧ it.src = .notice c.id ∧ it.node.msgConn = b) := by
  cases a with
  | worker w e =>
    simp only [Layer.step, Option.ite_none_right_eq_some] at hs
    rcases workerStep_inbox hw ho (workerStep_cases hs.2) with hq | ⟨jt, hq, hjt⟩
    · exact .inl ((hq v).2 ▸ hit)
    · rw [(hq v).2, modWorker_worker] at hit
      split at hit
      · next hv =>
        rcases List.mem_append.mp hit with hit | hit
        · exact .inl hit
        · rw [List.mem_singleton.mp hit]
          exact .inr ⟨hv ▸ hs.1, hjt⟩
      · exact .inl hit
  | accept written =>
    simp only [Layer.step, Option.ite_none_right_eq_some, Option.some.injEq] at hs
    obtain ⟨-, rfl⟩ := hs
    exact .inl ((Quiet.giveWorker s 0 _ _ v).2 ▸ hit)
  | getMsgs i =>
    simp only [Layer.step, Option.ite_none_right_eq_some, Option.some.injEq] at hs
    obtain ⟨-, rfl⟩ := hs
    rw [getNetMsgs, modWorker_worker] at hit
    split at hit
    · cases hit
    · exact .inl hit
  | send w jt =>
    simp only [Layer.step, Option.ite_none_right_eq_some, Option.some.injEq] at hs
    obtain ⟨-, rfl⟩ := hs
    rw [pushWrite, modWorker_worker] at hit
    split at hit <;> exact .inl hit
  | close a =>
    obtain ⟨c, -, hs⟩ := Option.bind_eq_some_iff.mp hs
    simp only [Option.ite_none_right_eq_some, Option.some.injEq] at hs
    obtain ⟨-, rfl⟩ := hs
    rw [connClose_worker] at hit
    exact .inl hit
  | connect a =>
    simp only [Layer.step, Option.ite_none_right_eq_some, Option.some.injEq] at hs
    obtain ⟨-, rfl⟩ := hs
    exact .inl hit
  | clock t | regist msgType init =>
    cases hs
    exact .inl hit

/-- Only its own steps move a worker on. -/
theorem step_phase {a : Act Cls Msg} {v : ℕ} (hw : s.WellPlaced) (ho : s.InOrder)
    (hs : s.step G a = some s') (ha : ∀ e, a ≠ .worker v e) :
    (s'.worker v).phase = (s.worker v).phase := by
  cases a with
  | worker w e =>
    have hne : v ≠ w := fun h => ha e (by rw [h])
    simp only [Layer.step, Option.ite_none_right_eq_some] at hs
    rcases workerStep_inbox hw ho (workerStep_cases hs.2) with hq | ⟨jt, hq, -⟩
    · exact (hq v).1 hne
    · rw [(hq v).1 hne, modWorker_worker, if_neg hne]
  | accept written =>
    simp only [Layer.step, Option.ite_none_right_eq_some, Option.some.injEq] at hs
    obtain ⟨-, rfl⟩ := hs
    exact (Quiet.giveWorker s (v + 1) _ _ v).1 (Nat.ne_of_lt v.lt_succ_self)
  | getMsgs i =>
    simp only [Layer.step, Option.ite_none_right_eq_some, Option.some.injEq] at hs
    obtain ⟨-, rfl⟩ := hs
    rw [getNetMsgs, modWorker_worker]
    split <;> rfl
  | send w jt =>
    simp only [Layer.step, Option.ite_none_right_eq_some, Option.some.injEq] at hs
    obtain ⟨-, rfl⟩ := hs
    rw [pushWrite, modWorker_worker]
    split <;> rfl
  | close a =>
    obtain ⟨c, -, hs⟩ := Option.bind_eq_some_iff.mp hs
    simp only [Option.ite_none_right_eq_some, Option.some.injEq] at hs
    obtain ⟨-, rfl⟩ := hs
    rw [connClose_worker]
  | connect a =>
    simp only [Layer.step, Option.ite_none_right_eq_some, Option.some.injEq] at hs
    obtain ⟨-, rfl⟩ := hs
    rfl
  | clock t | regist msgType init =>
    cases hs
    rfl

/-! ### Objects whose connect failed -/

/-- An object that a step deletes belongs to that worker, and is refused or retired. -/
theorem WellPlaced.placeAt_of_deletes (h : s.WellPlaced) {a : Act Cls Msg} {b : Addr}
    (hd : s.deletes a = some b) : ∃ w e, a = .worker w e ∧
      (s.placeAt b = some (.refused w) ∨ s.placeAt b = some (.retired w)) := by
  unfold deletes at hd
  cases a with
  | worker w e =>
    refine ⟨w, e, rfl, ?_⟩
    dsimp only at hd
    cases hp : (s.worker w).phase with
    | callback d ok =>
      rw [hp] at hd
      cases ok with
      | false =>
        cases hd
        refine .inl (h.placed (p := .refused w) ?_)
        show b ∈ (s.worker w).phase.refusing
        rw [hp]
        exact List.mem_singleton_self b
      | true => cases hd
    | delete =>
      cases hq : (s.worker w).forDelete with
      | nil =>
        rw [hp, hq] at hd
        cases hd
      | cons x rest =>
        rw [hp, hq] at hd
        obtain ⟨c, -, hd⟩ := Option.bind_eq_some_iff.mp hd
        simp only [Option.ite_none_right_eq_some, Option.some.injEq] at hd
        obtain ⟨-, rfl⟩ := hd
        refine .inr (h.placed (p := .retired w) ?_)
        show _ ∈ (((s.worker w).forDelete.map Prod.snd).filter (· ∉ (s.worker w).phase.removing))
        rw [hp, hq]
        exact List.mem_filter.mpr ⟨List.mem_cons_self, by simp [Phase.removing]⟩
    | _ =>
      rw [hp] at hd
      cases hd
  | _ => cases hd

/-- A registered object is deleted by its own worker only. -/
theorem step_object {a : Act Cls Msg} {w : ℕ} {b : Addr} {c : Connection Msg} (hw : s.WellPlaced)
    (hw' : s'.WellPlaced) (hs : s.step G a = some s') (ha : ∀ e, a ≠ .worker w e)
    (hc : s.heap b = some c) (htd : c.td = some w) :
    ∃ c', s'.heap b = some c' ∧ c'.id = c.id ∧ c'.td = some w := by
  have hkeep : s.deletes a ≠ some b := by
    intro hd
    obtain ⟨v, e, rfl, hat⟩ := hw.placeAt_of_deletes hd
    rcases hat with hat | hat
    · have hnone : c.td = none := hw.td_of_place hat hc
      rw [htd] at hnone
      cases hnone
    · have hv : c.td = some v := hw.td_of_place hat hc
      rw [htd, Option.some.injEq] at hv
      exact ha e (by rw [hv])
  obtain ⟨c', hc', hid⟩ := step_keeps hs hkeep hc
  have howner : (s'.life c.id).owner = some w := step_owner hw hs ((hw.owner hc).trans htd)
  refine ⟨c', hc', hid, ?_⟩
  rw [← hw'.owner hc', hid]
  exact howner

/-- The object a failing callback is for. -/
theorem WellPlaced.refused (h : s.WellPlaced) {w : ℕ} {b : Addr}
    (hp : (s.worker w).phase = .callback b false) :
    ∃ c, s.heap b = some c ∧ c.place = .refused w ∧ c.td = none := by
  have hat : s.placeAt b = some (.refused w) := by
    refine h.placed (p := .refused w) ?_
    show b ∈ (s.worker w).phase.refusing
    rw [hp]
    exact List.mem_singleton_self b
  obtain ⟨c, hc, hplace⟩ := Option.map_eq_some_iff.mp hat
  exact ⟨c, hc, hplace, h.td_of_place hat hc⟩

/-- `create_conn` failed for the connector `id`, which was or will be deleted. -/
def Doomed (s : Layer Cls Msg) (id : ℕ) : Prop :=
  (∃ w b c, (s.worker w).phase = .callback b false ∧ s.heap b = some c ∧ c.id = id) ∨
    (s.life id).deleted = true ∧ (s.life id).owner = none

theorem Doomed.owner (h : s.Doomed id) (hw : s.WellPlaced) : (s.life id).owner = none := by
  rcases h with ⟨w, b, c, hp, hc, rfl⟩ | ⟨-, h⟩
  · obtain ⟨d, hd, -, htd⟩ := hw.refused hp
    rw [hc, Option.some.injEq] at hd
    rw [hw.owner hc, hd, htd]
  · exact h

/-- It is so for good. -/
theorem Doomed.step {a : Act Cls Msg} (h : s.Doomed id) (hw : s.WellPlaced) (ho : s.InOrder)
    (hs : s.step G a = some s') : s'.Doomed id := by
  have hnone := h.owner hw
  rcases h with ⟨w, b, c, hp, hc, hid⟩ | ⟨hdel, -⟩
  · by_cases hown : ∃ e, a = .worker w e
    · obtain ⟨e, rfl⟩ := hown
      simp only [Layer.step, Option.ite_none_right_eq_some] at hs
      cases workerStep_cases hs.2 with
      | @callbackFail d hq =>
        rw [hp, Phase.callback.injEq] at hq
        obtain ⟨rfl, -⟩ := hq
        have hlife : (((s.free b).goto w .poll).life id) = (s.life id).delete := by
          rw [goto_life, free_life hc, if_pos hid.symm]
        refine .inr ⟨?_, ?_⟩
        · rw [hlife]
          rfl
        · rw [hlife]
          exact hnone
      | top hq | drain hq | transferEnd hq | transferSkip hq | transferMove hq | push hq
      | connectorsEnd hq | passEnd hq | passSkip hq | passVisit hq | readStart hq | readSkip hq
      | writeStart hq | writeSkip hq | read hq | write hq | readEvent hq | writeEvent hq
      | dropped hq | accepted hq | refused hq | connected hq | pollEnd hq | callbackOk hq
      | sweepEnd hq | sweepSkip hq | notice hq | closing hq | erase hq | deleteEnd hq
      | deleteFree hq =>
        rw [hp] at hq
        cases hq
    · have hphase := step_phase hw ho hs fun e he => hown ⟨e, he⟩
      have hkeep : s.deletes a ≠ some b := by
        intro hd
        obtain ⟨v, e, rfl, hat⟩ := hw.placeAt_of_deletes hd
        obtain ⟨d, hd, hplace, -⟩ := hw.refused hp
        rw [placeAt, hd, Option.map_some, hplace, Option.some.injEq, Option.some.injEq] at hat
        rcases hat with hat | hat
        · cases hat
          exact hown ⟨e, rfl⟩
        · cases hat
      obtain ⟨c', hc', hid'⟩ := step_keeps hs hkeep hc
      exact .inl ⟨w, b, c', hphase.trans hp, hc', hid'.trans hid⟩
  · have hgone : ∀ {b c}, s.heap b = some c → c.id ≠ id := by
      rintro b c hc rfl
      rw [hw.not_deleted hc] at hdel
      cases hdel
    refine .inr ?_
    have hfollows : Follows s a id s' := step_follows hw hs
    cases hfollows with
    | same h =>
      have hsame : (s'.life id).owner = (s.life id).owner ∧
          (s'.life id).deleted = (s.life id).deleted :=
        ⟨congrArg (fun t => t.2.2.1) h, congrArg (fun t => t.2.2.2.2) h⟩
      exact ⟨hsame.2.trans hdel, hsame.1.trans hnone⟩
    | made heq =>
      rw [heq, hw.fresh le_rfl] at hdel
      cases hdel
    | registered _ _ hc hid => exact absurd hid (hgone hc)
    | shut hc hid => exact absurd hid (hgone hc)
    | deleted _ hc hid => exact absurd hid (hgone hc)

end Layer

/-! ### In every run -/

theorem aligned_of_reach {G : Generated Cls Msg} {s : Layer Cls Msg}
    (h : (netSystem G).Reach Lts.Free s) : s.Aligned := by
  apply h.invariant_of
  · rintro s ⟨threadNum, registry, clock, rfl⟩ id hid
    exact absurd hid id.not_lt_zero
  · intro s a s' hr hi _ hs
    exact hi.step (inOrder_of_reach hr).1 hs

/-- Only the workers that were started leave the top of the loop. -/
theorem lt_threadNum_of_reach {G : Generated Cls Msg} {s : Layer Cls Msg}
    (h : (netSystem G).Reach Lts.Free s) {w : ℕ} (hp : (s.worker w).phase ≠ .top) :
    w < s.threadNum := by
  by_contra hw
  refine hp (h.invariant_of (P := fun s => ∀ w, s.threadNum ≤ w → (s.worker w).phase = .top) ?_ ?_ w
    (Nat.le_of_not_lt hw))
  · rintro s ⟨threadNum, registry, clock, rfl⟩ w -
    rfl
  · intro s a s' hr hi _ hs v hv
    obtain ⟨hw, -, ho⟩ := inOrder_of_reach hr
    rw [Layer.step_threadNum hs] at hv
    rw [Layer.step_phase hw ho hs ?_]
    · exact hi v hv
    · rintro e rfl
      simp only [netSystem, Layer.step, Option.ite_none_right_eq_some] at hs
      exact absurd hs.1 (Nat.not_lt.mpr hv)

end GoFight.Net
