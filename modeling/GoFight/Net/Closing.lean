import GoFight.Net.Moves

/-!
# When a connection is closed

`CS_CLOSE` is set once and stays: the history of an incarnation has a close time exactly while its
object is in that state, and it is the object's `close_time_`.

* `Stamped` — the invariant, `Stamped.step` — its step lemma, `stamped_of_reach` — over runs.
-/

namespace GoFight.Net

open GoFight.Lib

variable {Cls Msg : Type*}

/-- The part of an object the invariant reads. -/
def Connection.stamp (c : Connection Msg) : ℕ × ConnState × ℕ × Option ℕ :=
  (c.id, c.state, c.closeTime, c.td)

namespace Layer

/-- States and close times. -/
structure Stamped (s : Layer Cls Msg) : Prop where
  closed : ∀ {a c}, s.heap a = some c → (s.life c.id).closed.map Prod.fst =
    if c.state = .close then some c.closeTime else none
  unregistered : ∀ {a c}, s.heap a = some c → c.td = none → c.state ≠ .close
  info : ∀ {w ci}, ci ∈ (s.worker w).newConnections → ci.state ≠ .close

variable {G : Generated Cls Msg} {s s' : Layer Cls Msg}

/-- An update that closes nothing. -/
theorem Stamped.of_kept (h : s.Stamped) (hk : Kept Connection.stamp s s')
    (hl : ∀ id, (s'.life id).closed = (s.life id).closed)
    (hn : ∀ w, (s'.worker w).newConnections ⊆ (s.worker w).newConnections) : s'.Stamped where
  closed hc := by
    obtain ⟨c, hc, hstamp⟩ := hk.exists_of_some hc
    simp only [Connection.stamp, Prod.mk.injEq] at hstamp
    obtain ⟨hid, hst, ht, -⟩ := hstamp
    rw [← hid, ← hst, ← ht, hl]
    exact h.closed hc
  unregistered hc htd := by
    obtain ⟨c, hc, hstamp⟩ := hk.exists_of_some hc
    simp only [Connection.stamp, Prod.mk.injEq] at hstamp
    obtain ⟨-, hst, -, ht⟩ := hstamp
    rw [← hst]
    exact h.unregistered hc (ht.trans htd)
  info hci := h.info (hn _ hci)

theorem newConnections_modWorker {w : ℕ} {g : ThreadData Msg → ThreadData Msg}
    (hg : (g (s.worker w)).newConnections ⊆ (s.worker w).newConnections) (v : ℕ) :
    ((s.modWorker w g).worker v).newConnections ⊆ (s.worker v).newConnections := by
  rw [modWorker_worker]
  split
  · next hv => exact hv ▸ hg
  · exact fun _ h => h

theorem Stamped.modWorker (h : s.Stamped) (w : ℕ) {g : ThreadData Msg → ThreadData Msg}
    (hg : (g (s.worker w)).newConnections ⊆ (s.worker w).newConnections) :
    (s.modWorker w g).Stamped :=
  h.of_kept (fun _ => rfl) (fun _ => rfl) (newConnections_modWorker hg)

theorem Stamped.goto (h : s.Stamped) (w : ℕ) (p : Phase) : (s.goto w p).Stamped :=
  h.modWorker w fun _ hci => hci

theorem Stamped.modConn (h : s.Stamped) (a : Addr) {f : Connection Msg → Connection Msg}
    (hf : ∀ c, (f c).stamp = c.stamp) : (s.modConn a f).Stamped :=
  h.of_kept (Kept.modConn s a hf) (fun _ => rfl) fun _ _ hci => hci

/-- `conn_close` of a registered connection. -/
theorem Stamped.connClose (h : s.Stamped) (hw : s.Objects) {a : Addr}
    (ha : ∀ c, s.heap a = some c → c.td ≠ none) : (s.connClose a).Stamped := by
  cases hc : s.heap a with
  | none =>
    rwa [connClose_of_close fun d hd => by rw [hc] at hd; cases hd]
  | some c =>
    constructor
    · intro b d hd
      rw [connClose_life hc]
      rw [connClose_heap] at hd
      split at hd
      · next hb =>
        subst hb
        rw [hc, Option.map_some, Option.some.injEq] at hd
        subst hd
        by_cases hst : c.state = .close
        · rw [if_pos hst, if_neg fun hn => hn.2 hst]
          exact h.closed hc
        · rw [if_neg hst, if_pos ⟨rfl, hst⟩]
          rfl
      · next hb =>
        have hid : d.id ≠ c.id := fun hid => hb (hw.id_inj hd hc hid)
        rw [if_neg fun hn => hid hn.1]
        exact h.closed hd
    · intro b d hd htd
      rw [connClose_heap] at hd
      split at hd
      · next hb =>
        subst hb
        rw [hc, Option.map_some, Option.some.injEq] at hd
        have hnone : c.td = none := by
          rw [← htd, ← hd]
          split <;> rfl
        exact absurd hnone (ha c hc)
      · exact h.unregistered hd htd
    · intro w ci hci
      rw [connClose_worker] at hci
      exact h.info hci

/-- An object that was just made. -/
theorem Stamped.alloc (h : s.Stamped) (hw : s.Objects) (a : Addr) (p : Place) (k : Bool) :
    (s.alloc a p k).Stamped := by
  constructor
  · intro b d hd
    rw [alloc_heap] at hd
    rw [alloc_life]
    split at hd
    · obtain rfl := Option.some.inj hd
      have hid : (Connection.new s.nextId p : Connection Msg).id = s.nextId := rfl
      rw [if_pos hid]
      rfl
    · rw [if_neg (Nat.ne_of_lt (hw.id_lt hd))]
      exact h.closed hd
  · intro b d hd
    rw [alloc_heap] at hd
    split at hd
    · obtain rfl := Option.some.inj hd
      exact fun _ => nofun
    · exact h.unregistered hd
  · exact fun hci => h.info hci

theorem Stamped.free (h : s.Stamped) (hw : s.Objects) (a : Addr) : (s.free a).Stamped := by
  cases hc : s.heap a with
  | none =>
    have hsame : s.free a = s := by
      unfold Layer.free
      rw [hc]
    rwa [hsame]
  | some c =>
    constructor
    · intro b d hd
      rw [free_heap] at hd
      split at hd
      · cases hd
      · next hb =>
        rw [free_life hc, if_neg fun hid => hb (hw.id_inj hd hc hid)]
        exact h.closed hd
    · intro b d hd
      rw [free_heap] at hd
      split at hd
      · cases hd
      · exact h.unregistered hd
    · intro w ci hci
      rw [free_worker] at hci
      exact h.info hci

/-- A registered object starts open. -/
theorem Stamped.registerConn (h : s.Stamped) (hw : s.Objects) {w : ℕ} {a : Addr}
    {c : Connection Msg} (hc : s.heap a = some c) (htd : c.td = none) {st : ConnState}
    (hst : st ≠ .close) : (s.registerConn w a c.id st).Stamped := by
  have hopen : (s.life c.id).closed.map Prod.fst = none := by
    rw [h.closed hc, if_neg (h.unregistered hc htd)]
  constructor
  · intro b d hd
    rw [registerConn_heap] at hd
    rw [registerConn_life]
    split at hd
    · next hb =>
      subst hb
      rw [hc, Option.map_some, Option.some.injEq] at hd
      subst hd
      have hid : (initConn w st c).id = c.id := rfl
      rw [if_pos hid]
      exact hopen.trans (if_neg hst).symm
    · next hb =>
      rw [if_neg fun hid => hb (hw.id_inj hd hc hid)]
      exact h.closed hd
  · intro b d hd hnone
    rw [registerConn_heap] at hd
    split at hd
    · obtain ⟨d, -, rfl⟩ := Option.map_eq_some_iff.mp hd
      cases hnone
    · exact h.unregistered hd hnone
  · intro v ci hci
    refine h.info (newConnections_modWorker (s := s) (w := w) (g := .register a) ?_ v hci)
    exact fun _ h => h

theorem Stamped.giveWorker (h : s.Stamped) {ci : ConnInfo} (hci : ci.state ≠ .close)
    (written : Bool) : (s.giveWorker ci written).Stamped := by
  refine ⟨fun hc => h.closed hc, fun hc => h.unregistered hc, fun {v cj} hcj => ?_⟩
  rw [Layer.giveWorker, modWorker_worker] at hcj
  split at hcj
  · rcases List.mem_append.mp hcj with hcj | hcj
    · exact h.info hcj
    · exact List.mem_singleton.mp hcj ▸ hci
  · exact h.info hcj

/-! ### Every step -/

theorem WellPlaced.td_ne_none (h : s.WellPlaced) {w : ℕ} {a : Addr}
    (ha : s.placeAt a = some (.registered w)) {c : Connection Msg} (hc : s.heap a = some c) :
    c.td ≠ none := by
  rw [h.td_of_place ha hc]
  exact Option.some_ne_none w

/-- The pre-allocated connection in front of `new_connections_` is handed to that worker. -/
theorem WellPlaced.handed_of_cons (h : s.WellPlaced) {w : ℕ} {a : Addr} {st : ConnState}
    {rest : List ConnInfo} (hq : (s.worker w).newConnections = ⟨some a, st⟩ :: rest) :
    s.placeAt a = some (.handed w) := by
  refine h.placed (p := .handed w) ?_
  show a ∈ (s.worker w).handed
  rw [ThreadData.handed, hq]
  exact List.mem_cons_self

theorem Stamped.readStep (h : s.Stamped) (hw : s.WellPlaced) {w : ℕ} {a : Addr}
    {c : Connection Msg} (ha : s.placeAt a = some (.registered w))
    (hr : ReadStep G s a c s') : s'.Stamped := by
  have hshut : ∀ f : Connection Msg → Connection Msg, (∀ c, (f c).stamp = c.stamp) →
      (∀ c, (f c).key = c.key) → ((s.modConn a f).connClose a).Stamped := by
    intro f hstamp hkey
    have hw' : (s.modConn a f).WellPlaced := hw.modConn a hkey
    have hat : (s.modConn a f).placeAt a = some (.registered w) := by
      rw [(SameKeys.modConn s a hkey).placeAt, ha]
    exact (h.modConn a hstamp).connClose hw'.toObjects fun c hc => hw'.td_ne_none hat hc
  cases hr with
  | data hne hext hr =>
    refine h.of_kept (Kept.modConn s a fun _ => rfl) (fun id => ?_) fun _ _ hci => hci
    rw [modLife_life]
    split <;> rfl
  | again => exact h.modConn a fun _ => rfl
  | shut => exact hshut _ (fun _ => rfl) fun _ => rfl
  | failed => exact hshut _ (fun _ => rfl) fun _ => rfl

theorem Stamped.writeStep (h : s.Stamped) (hw : s.WellPlaced) {w : ℕ} {a : Addr}
    (ha : s.placeAt a = some (.registered w)) {r : WriteResult} (hr : WriteStep G s a r s') : s'.Stamped := by
  have hstamp : ∀ {f : Connection Msg → Connection Msg}, Writes G f → ∀ c, (f c).stamp = c.stamp := by
    intro f hf c
    show (f c).readSide.stamp = c.readSide.stamp
    rw [hf.readSide]
  cases hr with
  | quiet hf => exact h.modConn a (hstamp hf)
  | @failed f _ hf =>
    have hw' : (s.modConn a f).WellPlaced := hw.modConn a hf.key
    have hat : (s.modConn a f).placeAt a = some (.registered w) := by
      rw [(SameKeys.modConn s a hf.key).placeAt, ha]
    exact (h.modConn a (hstamp hf)).connClose hw'.toObjects fun c hc => hw'.td_ne_none hat hc

theorem take_subset {w n : ℕ} {ci : ConnInfo} {rest : List ConnInfo}
    (hq : (s.worker w).newConnections = ci :: rest) :
    ((s.worker w).take n rest).newConnections ⊆ (s.worker w).newConnections := by
  rw [hq]
  exact List.subset_cons_self _ _

theorem Stamped.workerStep {w : ℕ} {e : WorkerAct} (h : s.Stamped) (hw : s.WellPlaced)
    (hs : WorkerStep G s w e s') : s'.Stamped := by
  cases hs with
  | top =>
    refine h.modWorker w ?_
    exact fun _ hci => hci
  | drain =>
    refine h.of_kept (Kept.drainWrites (fun _ _ => rfl) _ _ s.heap) (fun _ => rfl) fun v => ?_
    rw [drainStep, modWorker_worker]
    split <;> exact fun _ hci => hci
  | transferEnd | transferSkip | connectorsEnd | passEnd | passSkip | passVisit | readStart
  | readSkip | writeStart | writeSkip | pollEnd | callbackOk | sweepEnd | sweepSkip | deleteEnd =>
    exact h.goto w _
  | transferMove =>
    refine .modWorker (.modConn h _ ?_) w ?_
    · exact fun _ => rfl
    · exact fun _ hci => hci
  | push =>
    refine Stamped.giveWorker ?_ (show ConnState.connect ≠ .close by decide) _
    refine h.of_kept (Kept.modConn s _ ?_) (fun _ => rfl) fun _ _ hci => hci
    exact fun _ => rfl
  | read hp hc hr => exact (h.readStep hw (hw.in_hand hp List.mem_cons_self) hr).goto w _
  | write hp hc he hr => exact (h.writeStep hw (hw.in_hand hp List.mem_cons_self) hr).goto w _
  | readEvent | writeEvent =>
    refine .goto (.modConn h _ ?_) w _
    exact fun _ => rfl
  | dropped hp hq => exact h.modWorker w (take_subset hq)
  | @accepted n st rest a hp hq ha =>
    have htake : (s.modWorker w (.take n rest)).Stamped := h.modWorker w (take_subset hq)
    have hobj : (s.modWorker w (.take n rest)).Objects := hw.toObjects.congr rfl rfl rfl
    have hst : st ≠ .close := h.info (hq ▸ List.mem_cons_self)
    refine (htake.alloc hobj a .connecting false).registerConn (hobj.alloc a false rfl)
      (c := .new s.nextId .connecting) ?_ rfl hst
    rw [alloc_heap, if_pos rfl]
    rfl
  | @refused n st rest a hp hq =>
    refine .goto (.modConn (h.modWorker w (take_subset hq)) _ ?_) w _
    exact fun _ => rfl
  | @connected n st rest a c hp hq hc =>
    have hst : st ≠ .close := h.info (hq ▸ List.mem_cons_self)
    have hat : s.placeAt a = some (.handed w) := hw.handed_of_cons hq
    have hobj : (s.modWorker w (.take n rest)).Objects := hw.toObjects.congr rfl rfl rfl
    exact ((h.modWorker w (take_subset hq)).registerConn hobj hc (hw.td_of_place hat hc) hst).goto w _
  | callbackFail => exact (h.free hw.toObjects _).goto w _
  | notice =>
    rw [noticeStep]
    split
    · exact h
    · refine .goto (.modWorker ?_ w fun _ hci => hci) w _
      refine h.of_kept (fun _ => rfl) (fun id => ?_) fun _ _ hci => hci
      rw [modLife_life]
      split <;> rfl
  | closing =>
    refine .modWorker (.modConn h _ ?_) w ?_
    · exact fun _ => rfl
    · exact fun _ hci => hci
  | erase =>
    refine h.of_kept (Kept.retire s w _ fun _ => rfl) (fun _ => rfl) fun v => ?_
    rw [eraseStep, modWorker_worker]
    split <;> exact fun _ hci => hci
  | deleteFree =>
    refine (h.free hw.toObjects _).modWorker w ?_
    exact fun _ hci => hci

theorem Stamped.step {a : Act Cls Msg} (h : s.Stamped) (hw : s.WellPlaced)
    (hs : s.step G a = some s') : s'.Stamped := by
  cases a with
  | worker w e =>
    simp only [Layer.step, Option.ite_none_right_eq_some] at hs
    exact h.workerStep hw (workerStep_cases hs.2)
  | accept written =>
    simp only [Layer.step, Option.ite_none_right_eq_some, Option.some.injEq] at hs
    obtain ⟨-, rfl⟩ := hs
    exact h.giveWorker (show ConnState.waiting ≠ .close by decide) written
  | connect a =>
    simp only [Layer.step, Option.ite_none_right_eq_some, Option.some.injEq] at hs
    obtain ⟨-, rfl⟩ := hs
    exact (h.alloc hw.toObjects a .connecting true).of_kept (fun _ => rfl) (fun _ => rfl)
      fun _ _ hci => hci
  | getMsgs i =>
    simp only [Layer.step, Option.ite_none_right_eq_some, Option.some.injEq] at hs
    obtain ⟨-, rfl⟩ := hs
    refine h.of_kept (fun _ => rfl) (fun _ => rfl) fun v => ?_
    rw [getNetMsgs, modWorker_worker]
    split <;> exact fun _ hci => hci
  | send w it =>
    simp only [Layer.step, Option.ite_none_right_eq_some, Option.some.injEq] at hs
    obtain ⟨-, rfl⟩ := hs
    have hpush : { s with pushes := s.pushes ++ [it] }.Stamped :=
      h.of_kept (fun _ => rfl) (fun _ => rfl) fun _ _ hci => hci
    refine hpush.modWorker w ?_
    exact fun _ hci => hci
  | close a =>
    obtain ⟨c, hc, hs⟩ := Option.bind_eq_some_iff.mp hs
    simp only [Option.ite_none_right_eq_some, Option.some.injEq] at hs
    obtain ⟨htd, rfl⟩ := hs
    refine h.connClose hw.toObjects fun d hd hnone => ?_
    rw [hc, Option.some.injEq] at hd
    rw [hd, hnone] at htd
    cases htd
  | clock t =>
    cases hs
    exact h.of_kept (fun _ => rfl) (fun _ => rfl) fun _ _ hci => hci
  | regist msgType init =>
    cases hs
    exact h.of_kept (fun _ => rfl) (fun _ => rfl) fun _ _ hci => hci

end Layer

theorem stamped_of_reach {G : Generated Cls Msg} {C : Layer Cls Msg → Act Cls Msg → Prop}
    {s : Layer Cls Msg} (h : (netSystem G).Reach C s) : s.WellPlaced ∧ s.Stamped := by
  refine h.invariant (P := fun s => s.WellPlaced ∧ s.Stamped) ?_ ?_
  · rintro s ⟨threadNum, registry, clock, rfl⟩
    exact ⟨Layer.wellPlaced_start threadNum registry clock, ⟨nofun, nofun, nofun⟩⟩
  · exact fun s a s' hs _ hstep => ⟨hs.1.step hstep, hs.2.step hs.1 hstep⟩

end GoFight.Net
