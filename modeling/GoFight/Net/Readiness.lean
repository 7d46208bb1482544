import GoFight.Net.Deletion
import GoFight.Net.Fate

/-!
# Readiness of the registered connections

A worker calls a handler of a connection when its flag is set or its event fires, and an event that
has fired is pending again only once the handler has added it.  So an open connection that has
neither, and that no handler is at work on, is never served again.

* `Connection.ready`, `Phase.handler` — what calls the handler of a side of a connection, and the
  handler a worker is in;
* `KeepsReady` — no connection loses a side; `ReadyStep`, `step_ready` — what a step does to the
  sides: nothing, or a handler is entered or left;
* `Armed.step` — the step lemma: a side that is neither ready nor in its handler comes from
  a write that failed for good (`FailsArmed`);
* `readArmed_of_reach`, `outputArmed_of_reach` — the read side in every run, and the write side in
  the runs without such a write.
-/

namespace GoFight.Net

open GoFight.Lib

variable {Cls Msg : Type*}

/-- The handler of a side will be called: its flag is set, or its event is pending. -/
def Connection.ready (c : Connection Msg) : Side → Bool
  | .read => c.canRead || c.readEvent
  | .write => c.canWrite || c.writeEvent

/-- What the invariant reads of an object. -/
def Connection.standing (c : Connection Msg) (σ : Side) : Place × ConnState × Bool :=
  (c.place, c.state, c.ready σ)

/-- The handler a worker is in, and the object it is at work on. -/
def Phase.handler : Phase → Option (Side × Addr)
  | .reading a _ => some (.read, a)
  | .writing a _ => some (.write, a)
  | _ => none

namespace Layer

/-- A side of an open registered connection is ready, or in its handler. -/
def Armed (σ : Side) (s : Layer Cls Msg) : Prop :=
  ∀ w b c, s.heap b = some c → c.place = .registered w → c.state ≠ .close →
    c.ready σ = true ∨ (s.worker w).phase.handler = some (σ, b)

/-- A write that fails for good finds the connection closed, or its write event pending. -/
def FailsArmed (s : Layer Cls Msg) : Act Cls Msg → Prop
  | .worker w (.write .error) =>
      match (s.worker w).phase with
      | .writing b _ => ∀ c ∈ s.heap b, c.state = .close ∨ c.writeEvent = true
      | _ => True
  | _ => True

instance decidableFailsArmed (s : Layer Cls Msg) (a : Act Cls Msg) :
    Decidable (s.FailsArmed a) :=
  match a with
  | .worker w (.write .error) =>
      show Decidable (match (s.worker w).phase with
        | .writing b _ => ∀ c ∈ s.heap b, c.state = .close ∨ c.writeEvent = true
        | _ => True) from
      match (s.worker w).phase with
      | .writing _ _ => Option.decidableForallMem _
      | .top | .drain | .transfer _ | .connectors | .pass _ | .tryRead _ _ | .tryWrite _ _
      | .reading _ _ | .poll | .callback _ _ | .sweep _ _ | .closing _ _ _ | .erase _ | .delete =>
        isTrue trivial
  | .worker _ .go | .worker _ (.push _) | .worker _ (.read _) | .worker _ (.write .idle)
  | .worker _ (.write (.wrote _)) | .worker _ (.write (.again _)) | .worker _ (.readEvent _)
  | .worker _ (.writeEvent _) | .worker _ (.notified _ _) | .worker _ (.notice _) | .accept _
  | .connect _ | .getMsgs _ | .send _ _ | .close _ | .clock _ | .regist _ _ => isTrue trivial

variable {G : Generated Cls Msg} {s s' s'' : Layer Cls Msg}

/-! ### Updates that take no side away -/

/-- Every open registered connection has the sides it had, but perhaps the side `o`. -/
def KeepsReady (s s' : Layer Cls Msg) (o : Option (Side × Addr)) : Prop :=
  ∀ b w d σ, o ≠ some (σ, b) → s'.heap b = some d → d.place = .registered w → d.state ≠ .close →
    d.ready σ = true ∨ ∃ c, s.heap b = some c ∧ c.standing σ = d.standing σ

namespace KeepsReady

variable {o : Option (Side × Addr)}

theorem of_heap (h : s'.heap = s.heap) : KeepsReady s s' o := by
  intro b w d σ _ hd _ _
  rw [h] at hd
  exact .inr ⟨d, hd, rfl⟩

theorem of_kept (h : ∀ σ, Kept (fun c => c.standing σ) s s') : KeepsReady s s' o := by
  intro b w d σ _ hd _ _
  exact .inr ((h σ).exists_of_some hd)

theorem trans (h : KeepsReady s s' o) (h' : KeepsReady s' s'' o) : KeepsReady s s'' o := by
  intro b w d σ ho hd hplace hst
  rcases h' b w d σ ho hd hplace hst with hready | ⟨c', hc', hsame⟩
  · exact .inl hready
  · simp only [Connection.standing, Prod.mk.injEq] at hsame
    obtain ⟨hp, hs, hr⟩ := hsame
    rcases h b w c' σ ho hc' (hp.trans hplace) (hs.trans_ne hst) with hready | ⟨c, hc, hsame⟩
    · exact .inl (hr.symm.trans hready)
    · refine .inr ⟨c, hc, hsame.trans ?_⟩
      rw [Connection.standing, Connection.standing, hp, hs, hr]

/-- An update of one object, where it is still open and registered afterwards. -/
theorem modConn (s : Layer Cls Msg) (a : Addr) {f : Connection Msg → Connection Msg}
    (hf : ∀ c σ, s.heap a = some c → o ≠ some (σ, a) → (f c).state ≠ .close →
      (f c).ready σ = true ∨ (f c).standing σ = c.standing σ) : KeepsReady s (s.modConn a f) o := by
  intro b w d σ ho hd _ hst
  rw [modConn_heap] at hd
  split at hd
  · next hb =>
    subst hb
    obtain ⟨c, hc, rfl⟩ := Option.map_eq_some_iff.mp hd
    rcases hf c σ hc ho hst with hready | hsame
    · exact .inl hready
    · exact .inr ⟨c, hc, hsame.symm⟩
  · exact .inr ⟨d, hd, rfl⟩

/-- An object that leaves its list or was never in one. -/
theorem setPlace (s : Layer Cls Msg) (a : Addr) {p : Place} (hp : ∀ w, p ≠ .registered w) :
    KeepsReady s (s.setPlace a p) o := by
  intro b w d σ _ hd hplace _
  rw [Layer.setPlace, modConn_heap] at hd
  split at hd
  · obtain ⟨c, -, rfl⟩ := Option.map_eq_some_iff.mp hd
    exact absurd hplace (hp w)
  · exact .inr ⟨d, hd, rfl⟩

theorem alloc (s : Layer Cls Msg) (a : Addr) {p : Place} (k : Bool) (hp : ∀ w, p ≠ .registered w) :
    KeepsReady s (s.alloc a p k) o := by
  intro b w d σ _ hd hplace _
  rw [alloc_heap] at hd
  split at hd
  · obtain rfl := Option.some.inj hd
    exact absurd hplace (hp w)
  · exact .inr ⟨d, hd, rfl⟩

theorem free (s : Layer Cls Msg) (a : Addr) : KeepsReady s (s.free a) o := by
  intro b w d σ _ hd _ _
  rw [free_heap] at hd
  split at hd
  · cases hd
  · exact .inr ⟨d, hd, rfl⟩

/-- `create_conn` adds both events. -/
theorem registerConn (s : Layer Cls Msg) (w : ℕ) (a : Addr) (id : ℕ) (st : ConnState) :
    KeepsReady s (s.registerConn w a id st) o := by
  intro b v d σ _ hd _ _
  rw [registerConn_heap] at hd
  split at hd
  · obtain ⟨c, -, rfl⟩ := Option.map_eq_some_iff.mp hd
    cases σ <;> exact .inl rfl
  · exact .inr ⟨d, hd, rfl⟩

theorem connClose (s : Layer Cls Msg) (a : Addr) : KeepsReady s (s.connClose a) o := by
  intro b w d σ _ hd _ hst
  rw [connClose_heap] at hd
  split at hd
  · obtain ⟨c, hc, rfl⟩ := Option.map_eq_some_iff.mp hd
    by_cases hcl : c.state = .close
    · rw [if_pos hcl] at hst
      exact absurd hcl hst
    · rw [if_neg hcl] at hst
      exact absurd rfl hst
  · exact .inr ⟨d, hd, rfl⟩

/-- What is done to an object before `conn_close` does not count. -/
theorem modConn_connClose (s : Layer Cls Msg) (a : Addr) (f : Connection Msg → Connection Msg) :
    KeepsReady s ((s.modConn a f).connClose a) o ∧
      ∀ d, ((s.modConn a f).connClose a).heap a = some d → d.state = .close := by
  have hshut : ∀ d, ((s.modConn a f).connClose a).heap a = some d → d.state = .close := by
    intro d hd
    rw [connClose_heap, if_pos rfl] at hd
    obtain ⟨c, -, rfl⟩ := Option.map_eq_some_iff.mp hd
    by_cases hcl : c.state = .close
    · rw [if_pos hcl]
      exact hcl
    · rw [if_neg hcl]
      rfl
  refine ⟨?_, hshut⟩
  intro b w d σ _ hd _ hst
  by_cases hb : b = a
  · subst hb
    exact absurd (hshut d hd) hst
  · rw [connClose_heap, if_neg hb, modConn_heap, if_neg hb] at hd
    exact .inr ⟨d, hd, rfl⟩

theorem retire (s : Layer Cls Msg) (w : ℕ) (removeIds : List Addr) :
    KeepsReady s (s.eraseStep w removeIds) o := by
  intro b v d σ _ hd hplace _
  change s.retire w removeIds b = some d at hd
  rw [Layer.retire] at hd
  split at hd
  · obtain ⟨c, -, rfl⟩ := Option.map_eq_some_iff.mp hd
    cases hplace
  · exact .inr ⟨d, hd, rfl⟩

end KeepsReady

/-! ### The handlers -/

/-- `on_read` leaves the read side ready, or the connection closed. -/
theorem readStep_ready {a : Addr} {c : Connection Msg} (hr : ReadStep G s a c s') :
    KeepsReady s s' (some (.read, a)) ∧
      ∀ d, s'.heap a = some d → d.state ≠ .close → d.ready .read = true := by
  have hwrite : ∀ {f : Connection Msg → Connection Msg},
      (∀ c, (f c).standing .write = c.standing .write) →
        KeepsReady s (s.modConn a f) (some (.read, a)) := by
    intro f hf
    refine .modConn s a fun c σ _ ho _ => ?_
    cases σ with
    | read => exact absurd rfl ho
    | write => exact .inr (hf c)
  cases hr with
  | data =>
    refine ⟨hwrite fun _ => by rfl, fun d hd _ => ?_⟩
    rw [modLife_heap, modConn_heap, if_pos rfl] at hd
    obtain ⟨c, -, rfl⟩ := Option.map_eq_some_iff.mp hd
    rfl
  | again =>
    refine ⟨hwrite fun _ => by rfl, fun d hd _ => ?_⟩
    rw [modConn_heap, if_pos rfl] at hd
    obtain ⟨c, -, rfl⟩ := Option.map_eq_some_iff.mp hd
    rfl
  | shut =>
    obtain ⟨hq, hshut⟩ := KeepsReady.modConn_connClose s a Connection.stopRead
    exact ⟨hq, fun d hd hst => absurd (hshut d hd) hst⟩
  | failed =>
    obtain ⟨hq, hshut⟩ := KeepsReady.modConn_connClose s a (Connection.waitRead false)
    exact ⟨hq, fun d hd hst => absurd (hshut d hd) hst⟩

/-- `on_write` leaves the write side ready or the connection closed, unless the write fails for
good. -/
theorem onWrite_ready {a : Addr} {c : Connection Msg} {r : WriteResult} (hc : s.heap a = some c)
    (h : s.onWrite G a c r = some s') :
    KeepsReady s s' (some (.write, a)) ∧
      ∀ d, s'.heap a = some d → d.state ≠ .close →
        d.ready .write = true ∨ r = .error ∧ c.state ≠ .close ∧ c.writeEvent = false := by
  have hread : ∀ {f : Connection Msg → Connection Msg},
      (∀ c, (f c).standing .read = c.standing .read) →
        KeepsReady s (s.modConn a f) (some (.write, a)) := by
    intro f hf
    refine .modConn s a fun c σ _ ho _ => ?_
    cases σ with
    | read => exact .inr (hf c)
    | write => exact absurd rfl ho
  have hat : ∀ {f : Connection Msg → Connection Msg} {d},
      (s.modConn a f).heap a = some d → f c = d := by
    intro f d hd
    rw [modConn_heap, if_pos rfl, hc] at hd
    exact Option.some.inj hd
  cases r with
  | idle =>
    simp only [onWrite, Option.ite_none_right_eq_some, Option.some.injEq, modConn_modConn] at h
    obtain ⟨-, rfl⟩ := h
    exact ⟨hread fun _ => by rfl, fun d hd _ => .inl (hat hd ▸ rfl)⟩
  | wrote n =>
    simp only [onWrite, Option.ite_none_right_eq_some, Option.some.injEq, modConn_modConn] at h
    obtain ⟨-, rfl⟩ := h
    exact ⟨hread fun _ => by rfl, fun d hd _ => .inl (hat hd ▸ rfl)⟩
  | again updated =>
    cases updated with
    | true =>
      simp only [onWrite, Option.ite_none_right_eq_some, Option.some.injEq, modConn_modConn] at h
      obtain ⟨-, rfl⟩ := h
      refine ⟨hread fun _ => by rfl, fun d hd _ => .inl ?_⟩
      rw [← hat hd]
      exact Bool.or_true _
    | false =>
      simp only [onWrite, Option.ite_none_right_eq_some, Option.some.injEq, modConn_modConn] at h
      obtain ⟨-, rfl⟩ := h
      obtain ⟨hq, hshut⟩ := KeepsReady.modConn_connClose s a (Connection.writeFired ∘ flushConn G)
      exact ⟨hq, fun d hd hst => absurd (hshut d hd) hst⟩
  | error =>
    simp only [onWrite, Option.ite_none_right_eq_some, Option.some.injEq, modConn_modConn] at h
    obtain ⟨-, rfl⟩ := h
    refine ⟨hread fun _ => by rfl, fun d hd hst => ?_⟩
    -- the flag goes down, and what is left is the event of an earlier `EAGAIN`
    rw [← hat hd] at hst ⊢
    cases hev : c.writeEvent with
    | true => exact .inl hev
    | false => exact .inr ⟨rfl, hst, rfl⟩

/-! ### Every step -/

/-- What the step `a` does to the sides of the connections. -/
inductive ReadyStep (s : Layer Cls Msg) (a : Act Cls Msg) (s' : Layer Cls Msg) : Prop
  | keeps (hq : KeepsReady s s' none)
      (hp : ∀ v p, (s.worker v).phase.handler = some p → (s'.worker v).phase.handler = some p)
  | enter {w σ b} (hq : KeepsReady s s' (some (σ, b)))
      (hp : ∀ v p, (s.worker v).phase.handler = some p → (s'.worker v).phase.handler = some p)
      (hin : (s'.worker w).phase.handler = some (σ, b))
      (hat : ∀ v d, s'.heap b = some d → d.place = .registered v → v = w)
  | leave {w σ b} (hq : KeepsReady s s' (some (σ, b)))
      (hin : (s.worker w).phase.handler = some (σ, b))
      (hp : ∀ v, v ≠ w → (s'.worker v).phase = (s.worker v).phase)
      (hout : ∀ d, s'.heap b = some d → d.state ≠ .close →
        d.ready σ = true ∨ σ = .write ∧ ¬s.FailsArmed a)

/-- A step of a worker that is in no handler leaves every handler where it is. -/
theorem handler_kept {w : ℕ} (hp : (s.worker w).phase.handler = none)
    (hother : ∀ v, v ≠ w → (s'.worker v).phase = (s.worker v).phase) (v : ℕ) (p : Side × Addr)
    (h : (s.worker v).phase.handler = some p) : (s'.worker v).phase.handler = some p := by
  by_cases hv : v = w
  · rw [hv, hp] at h
    cases h
  · rw [hother v hv]
    exact h

/-- An event fires. -/
theorem readyStep_fired {w : ℕ} {a : Act Cls Msg} {b : Addr} {c : Connection Msg} {σ : Side}
    {f : Connection Msg → Connection Msg} {q : Phase} (hw : s.WellPlaced)
    (hp : (s.worker w).phase = .poll) (hb : b ∈ (s.worker w).threadConnections)
    (hc : s.heap b = some c) (hq : q.handler = some (σ, b))
    (hplace : ∀ c, (f c).place = c.place) (hst : ∀ c, (f c).state = c.state)
    (hf : ∀ c τ, τ ≠ σ → (f c).ready τ = c.ready τ) :
    ReadyStep s a ((s.modConn b f).goto w (if c.state = .close then .poll else q)) := by
  have hnone : (s.worker w).phase.handler = none := by rw [hp]; rfl
  have hother : ∀ {p} v, v ≠ w → (((s.modConn b f).goto w p).worker v).phase =
      (s.worker v).phase := by
    intro p v hv
    rw [goto_worker, if_neg hv, modConn_worker]
  have hsame : ∀ c τ, τ ≠ σ → (f c).standing τ = c.standing τ := by
    intro c τ hτ
    rw [Connection.standing, Connection.standing, hplace, hst, hf c τ hτ]
  split
  · next hcl =>
    refine .keeps (KeepsReady.modConn s b fun d τ hd _ hopen => ?_)
      (handler_kept hnone hother)
    rw [hst, Option.some.inj (hd.symm.trans hc)] at hopen
    exact absurd hcl hopen
  · refine .enter (w := w) (KeepsReady.modConn s b (o := some (σ, b)) fun d τ _ ho _ => ?_)
      (handler_kept hnone hother) ?_ fun v d hd hpl => ?_
    · refine .inr (hsame d τ fun hτ => ho ?_)
      rw [hτ]
    · rw [goto_worker, if_pos rfl]
      exact hq
    · have hreg : s.placeAt b = some (.registered w) := hw.placed (p := .registered w) hb
      rw [goto_heap, modConn_heap, if_pos rfl, hc, Option.map_some, Option.some.injEq] at hd
      rw [placeAt, hc, Option.map_some, Option.some.injEq] at hreg
      rw [← hd, hplace, hreg, Place.registered.injEq] at hpl
      exact hpl.symm

theorem readyStep_workerStep {w : ℕ} {e : WorkerAct} (hw : s.WellPlaced) (hst : s.Stamped)
    (ho : s.InOrder) (hs : s.workerStep G w e = some s')
    (hother : ∀ v, v ≠ w → (s'.worker v).phase = (s.worker v).phase) :
    ReadyStep s (.worker w e) s' := by
  cases workerStep_cases hs with
  | top hp | transferEnd hp | transferSkip hp | connectorsEnd hp | passEnd hp | passSkip hp
  | passVisit hp | readStart hp | readSkip hp | writeStart hp | writeSkip hp | dropped hp
  | pollEnd hp | callbackOk hp | sweepEnd hp | sweepSkip hp | deleteEnd hp =>
    exact .keeps (.of_heap rfl) (handler_kept (by rw [hp]; rfl) hother)
  | drain hp =>
    exact .keeps (.of_kept fun σ => Kept.drainStep s w fun _ _ => rfl)
      (handler_kept (by rw [hp]; rfl) hother)
  | @transferMove a todo c it rest hp hc hmsgs =>
    refine .keeps (.modConn s a fun c σ _ _ _ => .inr ?_) (handler_kept (by rw [hp]; rfl) hother)
    cases σ <;> rfl
  | @push a rest written hp hq =>
    exact .keeps (KeepsReady.setPlace s a (p := .handed s.nextThread) fun w => nofun)
      (handler_kept (by rw [hp]; rfl) hother)
  | @read a back c s₁ hp hc hr =>
    obtain ⟨hq, hout⟩ := readStep_ready hr
    exact .leave (w := w) hq (by rw [hp]; rfl) hother fun d hd hopen => .inl (hout d hd hopen)
  | @write a back c r s₁ hp hc he hr =>
    subst he
    unfold workerStep at hs
    rw [hp] at hs
    simp only [hc, Option.bind_some, Option.map_eq_some_iff] at hs
    obtain ⟨s₂, hs₂, heq⟩ := hs
    obtain ⟨hq, hout⟩ := onWrite_ready hc hs₂
    rw [← heq] at hother ⊢
    refine .leave (w := w) hq (by rw [hp]; rfl) hother fun d hd hopen => ?_
    rcases hout d hd hopen with hready | ⟨rfl, hst, hev⟩
    · exact .inl hready
    · refine .inr ⟨rfl, fun hfails => ?_⟩
      simp only [FailsArmed, hp] at hfails
      rcases hfails c hc with hcl | hpend
      · exact hst hcl
      · rw [hev] at hpend
        cases hpend
  | @readEvent a c hp ha hc hev =>
    refine readyStep_fired (σ := .read) hw hp ha hc rfl (fun _ => rfl) (fun _ => rfl)
      fun c τ hτ => ?_
    cases τ with
    | read => exact absurd rfl hτ
    | write => rfl
  | @writeEvent a c hp ha hc =>
    refine readyStep_fired (σ := .write) hw hp ha hc rfl (fun _ => rfl) (fun _ => rfl)
      fun c τ hτ => ?_
    cases τ with
    | read => rfl
    | write => exact absurd rfl hτ
  | @accepted n st rest a hp hq ha =>
    exact .keeps (.trans (KeepsReady.alloc s a (p := .connecting) false fun w => nofun)
      (KeepsReady.registerConn ((s.modWorker w (.take n rest)).alloc a .connecting false) w a s.nextId st))
      (handler_kept (by rw [hp]; rfl) hother)
  | @refused n st rest a hp hq =>
    exact .keeps (KeepsReady.setPlace s a (p := .refused w) fun w => nofun)
      (handler_kept (by rw [hp]; rfl) hother)
  | @connected n st rest a c hp hq hc =>
    exact .keeps (KeepsReady.registerConn s w a c.id st) (handler_kept (by rw [hp]; rfl) hother)
  | @callbackFail a hp =>
    exact .keeps (KeepsReady.free s a) (handler_kept (by rw [hp]; rfl) hother)
  | @notice a todo removeIds c junk hp hc hcl =>
    refine .keeps (.of_heap ?_) (handler_kept (by rw [hp]; rfl) hother)
    rw [noticeStep]
    split <;> rfl
  | @closing a todo removeIds c hp hc =>
    -- the events go, but the connection is closed
    have hcl := ho.closed_of_closing hw hst hp hc
    refine .keeps (KeepsReady.modConn s a fun d σ hd _ hopen => ?_)
      (handler_kept (by rw [hp]; rfl) hother)
    rw [Option.some.inj (hd.symm.trans hc)] at hopen
    exact absurd hcl hopen
  | @erase removeIds hp =>
    exact .keeps (.retire s w removeIds) (handler_kept (by rw [hp]; rfl) hother)
  | @deleteFree t a rest c hp hq hc htime =>
    exact .keeps (KeepsReady.free s a) (handler_kept (by rw [hp]; rfl) hother)

/-- **What a step does to the sides.** -/
theorem step_ready {a : Act Cls Msg} (hw : s.WellPlaced) (hst : s.Stamped) (ho : s.InOrder)
    (hs : s.step G a = some s') : ReadyStep s a s' := by
  have hphase : ∀ v, (∀ e, a ≠ .worker v e) → (s'.worker v).phase = (s.worker v).phase :=
    fun v => step_phase hw ho hs
  have hall : (∀ v e, a ≠ .worker v e) → ∀ v p, (s.worker v).phase.handler = some p →
      (s'.worker v).phase.handler = some p := by
    intro ha v p hp
    rw [hphase v (ha v)]
    exact hp
  cases a with
  | worker w e =>
    simp only [Layer.step, Option.ite_none_right_eq_some] at hs
    refine readyStep_workerStep hw hst ho hs.2 fun v hv => hphase v fun e he => hv ?_
    cases he
    rfl
  | connect a =>
    simp only [Layer.step, Option.ite_none_right_eq_some, Option.some.injEq] at hs
    obtain ⟨-, rfl⟩ := hs
    exact .keeps (KeepsReady.alloc s a (p := .connecting) true fun w => (by simp)) (hall (by simp))
  | close a =>
    obtain ⟨c, -, hs⟩ := Option.bind_eq_some_iff.mp hs
    simp only [Option.ite_none_right_eq_some, Option.some.injEq] at hs
    obtain ⟨-, rfl⟩ := hs
    exact .keeps (.connClose s a) (hall (by simp))
  | accept written =>
    simp only [Layer.step, Option.ite_none_right_eq_some, Option.some.injEq] at hs
    obtain ⟨-, rfl⟩ := hs
    exact .keeps (.of_heap rfl) (hall (by simp))
  | getMsgs i =>
    simp only [Layer.step, Option.ite_none_right_eq_some, Option.some.injEq] at hs
    obtain ⟨-, rfl⟩ := hs
    exact .keeps (.of_heap rfl) (hall (by simp))
  | send w it =>
    simp only [Layer.step, Option.ite_none_right_eq_some, Option.some.injEq] at hs
    obtain ⟨-, rfl⟩ := hs
    exact .keeps (.of_heap rfl) (hall (by simp))
  | clock t | regist msgType init =>
    cases hs
    exact .keeps (.of_heap rfl) (hall (by simp))

/-- **The step lemma.**  A side is lost only where a write fails for good. -/
theorem Armed.step {σ : Side} {a : Act Cls Msg} (h : s.Armed σ) (hs : ReadyStep s a s')
    (hσ : σ = .write → s.FailsArmed a) : s'.Armed σ := by
  have hbefore : ∀ {o : Option (Side × Addr)}, KeepsReady s s' o →
      ∀ {w b d}, o ≠ some (σ, b) → s'.heap b = some d → d.place = .registered w →
        d.state ≠ .close → d.ready σ = true ∨ (s.worker w).phase.handler = some (σ, b) := by
    intro o hq w b d hne hd hplace hopen
    rcases hq b w d σ hne hd hplace hopen with hready | ⟨c, hc, hsame⟩
    · exact .inl hready
    · simp only [Connection.standing, Prod.mk.injEq] at hsame
      obtain ⟨hp, hst, hr⟩ := hsame
      rw [← hr]
      exact h w b c hc (hp.trans hplace) (hst.trans_ne hopen)
  intro w b d hd hplace hopen
  cases hs with
  | keeps hq hp => exact (hbefore hq nofun hd hplace hopen).imp_right (hp w _)
  | @enter v τ x hq hp hin hat =>
    by_cases heq : (τ, x) = (σ, b)
    · cases heq
      rw [hat w d hd hplace]
      exact .inr hin
    · exact (hbefore hq (fun h => heq (Option.some.inj h)) hd hplace hopen).imp_right (hp w _)
  | @leave v τ x hq hin hp hout =>
    by_cases heq : (τ, x) = (σ, b)
    · cases heq
      rcases hout d hd hopen with hready | ⟨rfl, hfails⟩
      · exact .inl hready
      · exact absurd (hσ rfl) hfails
    · rcases hbefore hq (fun h => heq (Option.some.inj h)) hd hplace hopen with hready | hbusy
      · exact .inl hready
      · have hv : w ≠ v := by
          rintro rfl
          exact heq (Option.some.inj (hin.symm.trans hbusy))
        rw [hp w hv]
        exact .inr hbusy

/-- Conversely, such a write leaves an open connection with output and with neither flag nor
event. -/
theorem stranded_of_not_failsArmed {a : Act Cls Msg} (hs : s.step G a = some s')
    (ha : ¬s.FailsArmed a) : ∃ w b back d, (s.worker w).phase = .writing b back ∧
      s'.heap b = some d ∧ d.state ≠ .close ∧ 0 < d.writeBuffer.length ∧ d.ready .write = false := by
  unfold FailsArmed at ha
  split at ha
  · next w =>
    split at ha
    · next b back hp =>
      simp only [not_forall, not_or, Bool.not_eq_true] at ha
      obtain ⟨c, hc, hst, hev⟩ := ha
      rw [Option.mem_def] at hc
      rw [Layer.step, Option.ite_none_right_eq_some] at hs
      unfold workerStep at hs
      rw [hp] at hs
      simp only [hc, Option.bind_some, Option.map_eq_some_iff, onWrite,
        Option.ite_none_right_eq_some, Option.some.injEq, modConn_modConn] at hs
      obtain ⟨-, s₁, ⟨hlen, rfl⟩, rfl⟩ := hs
      have hat : (((s.modConn b ((fun c => { c with canWrite := false }) ∘ flushConn G)).goto w
          (writeReturn back)).heap b) = some { flushConn G c with canWrite := false } := by
        rw [goto_heap, modConn_heap, if_pos rfl, hc]
        rfl
      exact ⟨w, b, back, _, hp, hat, hst, hlen, hev⟩
    · exact absurd trivial ha
  · exact absurd trivial ha

/-! ### Runs -/

/-- Between the handlers of a worker: each of its connections is closed, or will be read. -/
def ReadArmed (s : Layer Cls Msg) (w : ℕ) : Prop :=
  ∀ a ∈ (s.worker w).threadConnections, (∀ back, (s.worker w).phase ≠ .reading a back) →
    ∃ c, s.heap a = some c ∧ (c.state = .close ∨ c.canRead = true ∨ c.readEvent = true)

/-- At the end of an iteration of a worker: each of its connections is closed, or has nothing to
write, or will be written. -/
def OutputArmed (s : Layer Cls Msg) (w : ℕ) : Prop :=
  (s.worker w).phase = .top → ∀ a ∈ (s.worker w).threadConnections,
    ∃ c, s.heap a = some c ∧ (c.state ≠ .close →
      c.connWriteMsgs ≠ [] ∨ 0 < c.writeBuffer.length → c.canWrite = true ∨ c.writeEvent = true)

end Layer

theorem armed_of_reach {G : Generated Cls Msg} {C : Layer Cls Msg → Act Cls Msg → Prop}
    {s : Layer Cls Msg} {σ : Side} (h : (netSystem G).Reach C s)
    (hC : σ = .write → ∀ s a, C s a → s.FailsArmed a) : s.Armed σ := by
  refine h.invariant_of ?_ fun s a s' hr hi hc hs => ?_
  · rintro s ⟨threadNum, registry, clock, rfl⟩
    intro w b c hc
    cases hc
  · obtain ⟨hw, hst, ho⟩ := inOrder_of_reach hr
    exact hi.step (Layer.step_ready hw hst ho hs) fun hσ => hC hσ s a hc

/-- The object of a registered connection, and its place. -/
theorem Layer.WellPlaced.registered {s : Layer Cls Msg} (h : s.WellPlaced) {w : ℕ} {a : Addr}
    (ha : a ∈ (s.worker w).threadConnections) :
    ∃ c, s.heap a = some c ∧ c.place = .registered w :=
  Option.map_eq_some_iff.mp (h.placed (p := .registered w) ha)

/-- **Readable data is never stranded.** -/
theorem readArmed_of_reach {G : Generated Cls Msg} {s : Layer Cls Msg}
    (h : (netSystem G).Reach Lts.Free s) (w : ℕ) : s.ReadArmed w := by
  intro a ha hphase
  obtain ⟨c, hc, hplace⟩ := (wellPlaced_of_reach h).registered ha
  refine ⟨c, hc, ?_⟩
  by_cases hst : c.state = .close
  · exact .inl hst
  · rcases armed_of_reach (σ := .read) h nofun w a c hc hplace hst with hready | hbusy
    · exact .inr (Bool.or_eq_true_iff.mp hready)
    · cases hp : (s.worker w).phase with
      | reading b back =>
        rw [hp, Phase.handler, Option.some.injEq, Prod.mk.injEq] at hbusy
        rw [hbusy.2] at hp
        exact absurd hp (hphase back)
      | _ =>
        rw [hp] at hbusy
        cases hbusy

/-- The run of `oneClient`, in which the read handler of the client has returned. -/
theorem readArmed_oneClient : ∃ s,
    (netSystem Protocol.generated).exec (.start 1 Protocol.registry 0) (oneClient.take 14) = some s ∧
      (s.worker 0).threadConnections = [16] ∧ s.ReadArmed 0 := by
  obtain ⟨s, hs, hconns⟩ : ∃ s,
      (netSystem Protocol.generated).exec (.start 1 Protocol.registry 0) (oneClient.take 14) =
        some s ∧ (s.worker 0).threadConnections = [16] := by
    refine Option.map_eq_some_iff.mp ?_
    decide +kernel
  exact ⟨s, hs, hconns, readArmed_of_reach
    (.of_exec (.start ⟨1, Protocol.registry, 0, rfl⟩) (Lts.allSteps_free _ _) hs) 0⟩

/-- **Pending output is not stranded**, where no write fails for good on an open connection whose
write event is not pending. -/
theorem outputArmed_of_reach {G : Generated Cls Msg} {s : Layer Cls Msg}
    (h : (netSystem G).Reach Layer.FailsArmed s) (w : ℕ) : s.OutputArmed w := by
  intro hp a ha
  obtain ⟨c, hc, hplace⟩ := (wellPlaced_of_reach h).registered ha
  refine ⟨c, hc, fun hst _ => ?_⟩
  rcases armed_of_reach (σ := .write) h (fun _ _ _ => id) w a c hc hplace hst with hready | hbusy
  · exact Bool.or_eq_true_iff.mp hready
  · rw [hp] at hbusy
    cases hbusy

/-- A client is accepted, is sent a node, and its write event fires; `evbuffer_write` gives `r`. -/
def answerWritten (r : WriteResult) : List (Act Protocol.MsgClass Protocol.Message) :=
  [.accept true] ++
    ([.go, .go, .go, .go, .go, .notified true 16, .go, .go, .go, .go, .go] :
      List WorkerAct).map (.worker 0) ++
    [.send 0 ⟨⟨Protocol.messageShutdownRes, 0, ⟨.shutdownRes, some 0⟩, 16⟩, .wire 0 0, .answer (some 0)⟩] ++
    ([.go, .go, .go, .go, .go, .go, .go, .go, .go, .writeEvent 16, .write r,
      .go, .go, .go, .go, .go] : List WorkerAct).map (.worker 0)

/-- The socket takes two bytes and is full. -/
theorem outputArmed_answerWritten : ∃ s,
    (netSystem Protocol.generated).exec (.start 1 Protocol.registry 0) (answerWritten (.wrote 2)) =
        some s ∧
      ((s.worker 0).phase, (s.heap 16).map fun c => c.writeBuffer.length) = (.top, some 16) ∧
      s.OutputArmed 0 := by
  obtain ⟨s, hs, hrun⟩ : ∃ s,
      (netSystem Protocol.generated).exec (.start 1 Protocol.registry 0) (answerWritten (.wrote 2)) =
          some s ∧
        ((s.worker 0).phase, (s.heap 16).map fun c => c.writeBuffer.length) = (.top, some 16) := by
    refine Option.map_eq_some_iff.mp ?_
    decide +kernel
  have hc : (netSystem Protocol.generated).AllSteps Layer.FailsArmed
      (.start 1 Protocol.registry 0) (answerWritten (.wrote 2)) := by
    decide +kernel
  exact ⟨s, hs, hrun, outputArmed_of_reach (.of_exec (.start ⟨1, Protocol.registry, 0, rfl⟩) hc hs) 0⟩

/-- The write fails, say with `EPIPE`: the connection stays open, and nothing will write it. -/
theorem not_outputArmed_answerWritten : ∃ s,
    (netSystem Protocol.generated).Reach Lts.Free s ∧ ¬s.OutputArmed 0 := by
  obtain ⟨s, hs, hrun⟩ : ∃ s,
      (netSystem Protocol.generated).exec (.start 1 Protocol.registry 0) (answerWritten .error) =
          some s ∧
        (((s.worker 0).phase, (s.worker 0).threadConnections), (s.heap 16).map fun c =>
          ((c.state, c.writeBuffer.length), c.ready .write)) =
        ((.top, [16]), some ((.waiting, 18), false)) := by
    refine Option.map_eq_some_iff.mp ?_
    decide +kernel
  simp only [Prod.mk.injEq, Option.map_eq_some_iff] at hrun
  obtain ⟨⟨hp, hconns⟩, c, hc, ⟨hst, hlen⟩, hready⟩ := hrun
  refine ⟨s, .of_exec (.start ⟨1, Protocol.registry, 0, rfl⟩) (Lts.allSteps_free _ _) hs, fun h => ?_⟩
  obtain ⟨d, hd, harmed⟩ := h hp 16 (by rw [hconns]; exact List.mem_singleton_self _)
  obtain rfl := Option.some.inj (hc.symm.trans hd)
  have hone := harmed (by rw [hst]; nofun) (.inr (by omega))
  rw [← Bool.or_eq_true_iff] at hone
  exact Bool.false_ne_true (hready.symm.trans hone)

end GoFight.Net
