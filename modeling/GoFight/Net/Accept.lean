import GoFight.Lib.Lts
import Mathlib.Logic.Function.Iterate

/-!
# The listening socket

The accept thread between `event_base_loop` and `new_connection`.  The listening socket is
registered edge-triggered and one-shot: libevent takes the event out of its base before it calls the
handler, and `update_event` puts it back at the end of `new_connection`.

* `Listener`, `listenSystem` — the backlog, the event and the thread, with every call that can fail;
* `Listener.Deaf` — the thread waits for an event that is in no base;
* `Listener.serve` — the thread goes on, and its calls succeed; `Listener.cost` — how often, until
  it waits with nothing to take;
* `hears_of_reach` — the server goes deaf exactly when `update_event` fails, and takes nothing ever
  after; until then no connection is missed, whatever `accept` has returned.

What saves a connection behind an error of `accept` is `update_event`, not the loop around `accept`:
adding the event makes epoll look at the backlog again.  The counter `curr_conns_` and the
descriptors are in other modules.
-/

namespace GoFight.Net

open GoFight.Lib

/-! ### The thread and the socket -/

/-- Where the accept thread is. -/
inductive ListenPc
  /-- In `event_base_loop`. -/
  | polling
  /-- In `new_connection`, before `accept`. -/
  | accepting
  /-- With a socket, before `fcntl`. -/
  | setting
  /-- In `give_worker_new_conn`. -/
  | giving
  /-- In `update_event`, before `event_del`. -/
  | removing
  /-- Before `event_add`. -/
  | adding
deriving DecidableEq, Repr

/-- The listening socket and the accept thread. -/
structure Listener where
  pc : ListenPc
  /-- `read_event_` is in the event base. -/
  added : Bool
  /-- epoll has the socket to report, or has reported it to libevent. -/
  reported : Bool
  /-- How many connections are in the backlog. -/
  waiting : ℕ
  /-- History: the connections established. -/
  arrived : ℕ
  /-- History: those given to a worker, closed by the accept thread, and gone by themselves. -/
  given : ℕ
  closed : ℕ
  aborted : ℕ
  /-- History: `update_event` has returned `false`. -/
  failed : Bool
deriving DecidableEq, Repr

/-- What happens next, and whether the call succeeds. -/
inductive ListenAct
  /-- A connection is established. -/
  | arrive
  /-- One that waits goes away. -/
  | abort
  /-- `event_base_loop` calls `event_handler`. -/
  | dispatch
  | accept (ok : Bool)
  | setFlags (ok : Bool)
  /-- `GO_NEW(ConnInfo)` in `give_worker_new_conn`. -/
  | give (ok : Bool)
  | remove (ok : Bool)
  | add (ok : Bool)
deriving DecidableEq, Repr

namespace Listener

/-- A call of the accept thread.  `accept` may fail while connections wait. -/
def call (s : Listener) : ListenAct → Option Listener
  | .dispatch =>
      if s.pc = .polling ∧ s.added = true ∧ s.reported = true then
        some { s with pc := .accepting, added := false, reported := false }
      else none
  | .accept ok =>
      if s.pc = .accepting ∧ (ok = true → 0 < s.waiting) then
        some (if ok then { s with pc := .setting, waiting := s.waiting - 1 }
          else { s with pc := .removing })
      else none
  | .setFlags ok =>
      if s.pc = .setting then
        some (if ok then { s with pc := .giving }
          else { s with pc := .accepting, closed := s.closed + 1 })
      else none
  | .give ok =>
      if s.pc = .giving then
        some (if ok then { s with pc := .accepting, given := s.given + 1 }
          else { s with pc := .accepting, closed := s.closed + 1 })
      else none
  | .remove ok =>
      if s.pc = .removing then
        some (if ok then { s with pc := .adding, added := false, reported := false }
          else { s with pc := .polling, failed := true })
      else none
  | .add ok =>
      if s.pc = .adding then
        some (if ok then { s with pc := .polling, added := true, reported := 0 < s.waiting }
          else { s with pc := .polling, failed := true })
      else none
  | _ => none

/-- One step. -/
def step (s : Listener) : ListenAct → Option Listener
  | .arrive =>
      some { s with
        waiting := s.waiting + 1, arrived := s.arrived + 1, reported := s.reported || s.added }
  | .abort =>
      if 0 < s.waiting then
        some { s with waiting := s.waiting - 1, aborted := s.aborted + 1 }
      else none
  | a => s.call a

/-- The accept thread has a socket it has not given away. -/
def inHand (s : Listener) : ℕ :=
  match s.pc with
  | .setting | .giving => 1
  | _ => 0

/-- **Deaf**: the thread waits for an event that is in no base. -/
def Deaf (s : Listener) : Prop := s.pc = .polling ∧ s.added = false

end Listener

/-- The system, from `server_listen` on: what is in the backlog when the event is added is
reported. -/
def listenSystem : Lts Listener ListenAct where
  init s := s.pc = .polling ∧ s.added = true ∧ s.reported = decide (0 < s.waiting) ∧
    s.arrived = s.waiting ∧ s.given = 0 ∧ s.closed = 0 ∧ s.aborted = 0 ∧ s.failed = false
  step s a := s.step a

namespace Listener

/-! ### What holds in every state -/

/-- The event is in the base just while the thread waits, unless `update_event` has failed; what
waits is then reported; every connection is somewhere. -/
structure Sound (s : Listener) : Prop where
  armed : s.added = true ↔ s.pc = .polling ∧ s.failed = false
  idle : s.failed = true → s.pc = .polling
  heard : s.added = true → 0 < s.waiting → s.reported = true
  accounted : s.arrived = s.waiting + s.inHand + s.given + s.closed + s.aborted

/-- In `new_connection` nothing has failed yet, and the event is out of its base. -/
theorem Sound.in_handler {s : Listener} (h : s.Sound) (hpc : s.pc ≠ .polling) :
    s.failed = false ∧ s.added = false := by
  have hadded := h.armed
  simp only [hpc, false_and, iff_false, Bool.not_eq_true] at hadded
  refine ⟨?_, hadded⟩
  rw [← Bool.not_eq_true]
  exact fun hf => hpc (h.idle hf)

/-- **One call.** -/
theorem Sound.call {s s' : Listener} {a : ListenAct} (h : s.Sound) (hs : s.call a = some s') :
    s'.Sound := by
  have hacc := h.accounted
  cases a with
  | arrive | abort => cases hs
  | dispatch =>
    simp only [Listener.call, Option.ite_none_right_eq_some, Option.some.injEq] at hs
    obtain ⟨⟨hpc, hadded, -⟩, rfl⟩ := hs
    have hok := (h.armed.mp hadded).2
    refine ⟨by simp, by simp [hok], by simp, ?_⟩
    simpa only [inHand, hpc] using hacc
  | accept ok =>
    simp only [Listener.call, Option.ite_none_right_eq_some, Option.some.injEq] at hs
    obtain ⟨⟨hpc, hw⟩, rfl⟩ := hs
    obtain ⟨hok, hadded⟩ := h.in_handler (by simp [hpc])
    simp only [inHand, hpc] at hacc
    cases ok with
    | true =>
      have hpos := hw rfl
      refine ⟨by simp [hadded], by simp [hok], by simp [hadded], ?_⟩
      simp only [if_true, inHand]
      omega
    | false => exact ⟨by simp [hadded], by simp [hok], by simp [hadded], hacc⟩
  | setFlags ok =>
    simp only [Listener.call, Option.ite_none_right_eq_some, Option.some.injEq] at hs
    obtain ⟨hpc, rfl⟩ := hs
    obtain ⟨hok, hadded⟩ := h.in_handler (by simp [hpc])
    simp only [inHand, hpc] at hacc
    cases ok with
    | true => exact ⟨by simp [hadded], by simp [hok], by simp [hadded], hacc⟩
    | false =>
      refine ⟨by simp [hadded], by simp [hok], by simp [hadded], ?_⟩
      simp only [Bool.false_eq_true, if_false, inHand]
      omega
  | give ok =>
    simp only [Listener.call, Option.ite_none_right_eq_some, Option.some.injEq] at hs
    obtain ⟨hpc, rfl⟩ := hs
    obtain ⟨hok, hadded⟩ := h.in_handler (by simp [hpc])
    simp only [inHand, hpc] at hacc
    cases ok with
    | true =>
      refine ⟨by simp [hadded], by simp [hok], by simp [hadded], ?_⟩
      simp only [if_true, inHand]
      omega
    | false =>
      refine ⟨by simp [hadded], by simp [hok], by simp [hadded], ?_⟩
      simp only [Bool.false_eq_true, if_false, inHand]
      omega
  | remove ok =>
    simp only [Listener.call, Option.ite_none_right_eq_some, Option.some.injEq] at hs
    obtain ⟨hpc, rfl⟩ := hs
    obtain ⟨hok, hadded⟩ := h.in_handler (by simp [hpc])
    simp only [inHand, hpc] at hacc
    cases ok with
    | true => exact ⟨by simp, by simp [hok], by simp, hacc⟩
    | false => exact ⟨by simp [hadded], by simp, by simp [hadded], hacc⟩
  | add ok =>
    simp only [Listener.call, Option.ite_none_right_eq_some, Option.some.injEq] at hs
    obtain ⟨hpc, rfl⟩ := hs
    obtain ⟨hok, hadded⟩ := h.in_handler (by simp [hpc])
    simp only [inHand, hpc] at hacc
    cases ok with
    | true => exact ⟨by simp [hok], by simp [hok], by simp, hacc⟩
    | false => exact ⟨by simp [hadded], by simp, by simp [hadded], hacc⟩

/-- **One step.** -/
theorem Sound.step {s s' : Listener} {a : ListenAct} (h : s.Sound) (hs : s.step a = some s') :
    s'.Sound := by
  have hacc := h.accounted
  cases a with
  | arrive =>
    obtain rfl := Option.some.inj hs
    refine ⟨h.armed, h.idle, fun hadded _ => by simp [show s.added = true from hadded], ?_⟩
    show s.arrived + 1 = s.waiting + 1 + s.inHand + s.given + s.closed + s.aborted
    omega
  | abort =>
    simp only [Listener.step, Option.ite_none_right_eq_some, Option.some.injEq] at hs
    obtain ⟨hpos, rfl⟩ := hs
    refine ⟨h.armed, h.idle, fun hadded _ => h.heard hadded hpos, ?_⟩
    show s.arrived = s.waiting - 1 + s.inHand + s.given + s.closed + (s.aborted + 1)
    omega
  | dispatch => exact h.call (a := .dispatch) hs
  | accept ok => exact h.call (a := .accept ok) hs
  | setFlags ok => exact h.call (a := .setFlags ok) hs
  | give ok => exact h.call (a := .give ok) hs
  | remove ok => exact h.call (a := .remove ok) hs
  | add ok => exact h.call (a := .add ok) hs

theorem sound_of_reach {s : Listener} (h : listenSystem.Reach Lts.Free s) : s.Sound := by
  apply h.invariant
  · intro s hs
    obtain ⟨hpc, hadded, hreported, harrived, hgiven, hclosed, haborted, hok⟩ := hs
    refine ⟨by simp [hpc, hadded, hok], by simp [hok], ?_, ?_⟩
    · intro _ hpos
      rw [hreported, decide_eq_true hpos]
    · simp only [inHand, hpc, harrived, hgiven, hclosed, haborted, Nat.add_zero]
  · intro s a s' hsound _ hs
    exact hsound.step hs

/-! ### The thread alone -/

/-- The call the thread makes next, when it does not wait, and that it succeeds. -/
def next (s : Listener) : Option ListenAct :=
  match s.pc with
  | .polling => if s.added = true ∧ s.reported = true then some .dispatch else none
  | .accepting => some (.accept (0 < s.waiting))
  | .setting => some (.setFlags true)
  | .giving => some (.give true)
  | .removing => some (.remove true)
  | .adding => some (.add true)

/-- The thread goes on, and its calls succeed. -/
def serve (s : Listener) : Listener := ((s.next.bind s.call).getD s)

/-- The thread waits, and so does no connection. -/
def AtRest (s : Listener) : Prop := s.pc = .polling ∧ s.waiting = 0 ∧ s.reported = false

/-- How often the thread goes on until it is at rest. -/
def cost (s : Listener) : ℕ :=
  match s.pc with
  | .polling => if s.reported = true then 3 * s.waiting + 4 else 0
  | .accepting => 3 * s.waiting + 3
  | .setting => 3 * s.waiting + 5
  | .giving => 3 * s.waiting + 4
  | .removing => if 0 < s.waiting then 3 * s.waiting + 6 else 2
  | .adding => if 0 < s.waiting then 3 * s.waiting + 5 else 1

/-- The connections that are still to be given to a worker. -/
def toGive (s : Listener) : ℕ := s.waiting + s.inHand

theorem Sound.serve {s : Listener} (h : s.Sound) : s.serve.Sound := by
  rw [Listener.serve]
  cases hs : s.next.bind s.call with
  | none => exact h
  | some s' =>
    obtain ⟨a, -, ha⟩ := Option.bind_eq_some_iff.mp hs
    exact h.call ha

/-- **The thread comes closer.**  Each call brings it one nearer to its rest, and a connection that
leaves the backlog goes to a worker. -/
theorem serve_cost {s : Listener} (h : s.Sound) (hok : s.failed = false) :
    s.serve.failed = false ∧ s.serve.cost = s.cost - 1 ∧
      s.serve.given + s.serve.toGive = s.given + s.toGive := by
  have hadded : s.added = true ↔ s.pc = .polling := by
    rw [h.armed, and_iff_left hok]
  obtain ⟨pc, added, reported, waiting, arrived, given, closed, aborted, failed⟩ := s
  simp only at hok hadded
  subst hok
  cases pc with
  | polling =>
    obtain rfl := hadded.mpr rfl
    cases reported with
    | true => exact ⟨rfl, rfl, rfl⟩
    | false => exact ⟨rfl, rfl, rfl⟩
  | accepting =>
    cases waiting with
    | zero => exact ⟨rfl, rfl, rfl⟩
    | succ n =>
      have hserve : (⟨.accepting, added, reported, n + 1, arrived, given, closed, aborted,
          false⟩ : Listener).serve =
          ⟨.setting, added, reported, n, arrived, given, closed, aborted, false⟩ := by
        simp [Listener.serve, next, Listener.call]
      rw [hserve]
      refine ⟨rfl, ?_, ?_⟩
      · show 3 * n + 5 = 3 * (n + 1) + 3 - 1
        omega
      · show given + (n + 1) = given + (n + 1 + 0)
        omega
  | setting => exact ⟨rfl, rfl, rfl⟩
  | giving =>
    refine ⟨rfl, rfl, ?_⟩
    show given + 1 + (waiting + 0) = given + (waiting + 1)
    omega
  | removing =>
    cases waiting with
    | zero => exact ⟨rfl, rfl, rfl⟩
    | succ n => exact ⟨rfl, rfl, rfl⟩
  | adding =>
    cases waiting with
    | zero => exact ⟨rfl, rfl, rfl⟩
    | succ n => exact ⟨rfl, rfl, rfl⟩

theorem atRest_of_cost {s : Listener} (h : s.Sound) (hok : s.failed = false) (hcost : s.cost = 0) :
    s.AtRest := by
  have harmed := h.armed
  cases hpc : s.pc with
  | polling =>
    have hadded := harmed.mpr ⟨hpc, hok⟩
    simp only [cost, hpc] at hcost
    have hrep : s.reported = false := by
      rw [← Bool.not_eq_true]
      intro hrep
      rw [if_pos hrep] at hcost
      omega
    refine ⟨hpc, ?_, hrep⟩
    by_contra hw
    have hheard := h.heard hadded (Nat.pos_of_ne_zero hw)
    rw [hrep] at hheard
    cases hheard
  | accepting | setting | giving => simp only [cost, hpc] at hcost; omega
  | removing | adding =>
    simp only [cost, hpc] at hcost
    split at hcost <;> omega

/-- **The thread alone.**  It gives every connection of the backlog to a worker and comes to
rest. -/
theorem atRest_of_serve {s : Listener} (h : s.Sound) (hok : s.failed = false) {n : ℕ}
    (hn : s.cost ≤ n) :
    (serve^[n] s).AtRest ∧ (serve^[n] s).given = s.given + s.toGive := by
  induction n generalizing s with
  | zero =>
    have hrest := atRest_of_cost h hok (by omega)
    refine ⟨hrest, ?_⟩
    simp only [Function.iterate_zero, id_eq, toGive, hrest.2.1, inHand, hrest.1, Nat.add_zero]
  | succ n ih =>
    obtain ⟨hok', hcost, hgiven⟩ := serve_cost h hok
    obtain ⟨hrest, htotal⟩ := ih h.serve hok' (by omega)
    rw [Function.iterate_succ_apply]
    exact ⟨hrest, htotal.trans hgiven⟩

theorem cost_le (s : Listener) : s.cost ≤ 3 * s.waiting + 6 := by
  cases hpc : s.pc with
  | accepting | setting | giving => simp only [cost, hpc]; omega
  | polling | removing | adding =>
    simp only [cost, hpc]
    split <;> omega

theorem step_of_call {s s' : Listener} {a : ListenAct} (hs : s.call a = some s') :
    listenSystem.step s a = some s' := by
  cases a with
  | arrive | abort => cases hs
  | dispatch => exact hs
  | accept ok => exact hs
  | setFlags ok => exact hs
  | give ok => exact hs
  | remove ok => exact hs
  | add ok => exact hs

/-- What the thread does alone is a run. -/
theorem runs_serve (s : Listener) (n : ℕ) : listenSystem.Runs s (serve^[n] s) := by
  induction n generalizing s with
  | zero => exact .refl s
  | succ n ih =>
    rw [Function.iterate_succ_apply]
    refine .trans ?_ (ih s.serve)
    cases hs : s.next.bind s.call with
    | none =>
      have hserve : s.serve = s := by rw [Listener.serve, hs]; rfl
      rw [hserve]
      exact .refl s
    | some s' =>
      have hserve : s.serve = s' := by rw [Listener.serve, hs]; rfl
      obtain ⟨a, -, ha⟩ := Option.bind_eq_some_iff.mp hs
      rw [hserve]
      exact .one (step_of_call ha)

/-! ### Deaf -/

/-- A deaf thread makes no call. -/
theorem Deaf.call {s : Listener} (h : s.Deaf) (a : ListenAct) : s.call a = none := by
  cases a <;> simp [Listener.call, h.1, h.2]

theorem Deaf.step {s s' : Listener} (h : s.Deaf) {a : ListenAct} (hs : s.step a = some s') :
    s'.Deaf ∧ s'.given = s.given := by
  cases a with
  | arrive =>
    obtain rfl := Option.some.inj hs
    exact ⟨h, rfl⟩
  | abort =>
    simp only [Listener.step, Option.ite_none_right_eq_some, Option.some.injEq] at hs
    obtain ⟨-, rfl⟩ := hs
    exact ⟨h, rfl⟩
  | dispatch => cases (h.call .dispatch).symm.trans hs
  | accept ok => cases (h.call (.accept ok)).symm.trans hs
  | setFlags ok => cases (h.call (.setFlags ok)).symm.trans hs
  | give ok => cases (h.call (.give ok)).symm.trans hs
  | remove ok => cases (h.call (.remove ok)).symm.trans hs
  | add ok => cases (h.call (.add ok)).symm.trans hs

/-- A deaf server takes nothing any more. -/
theorem Deaf.exec {s s' : Listener} (h : s.Deaf) {as : List ListenAct}
    (hs : listenSystem.exec s as = some s') : s'.Deaf ∧ s'.given = s.given := by
  induction as generalizing s with
  | nil =>
    obtain rfl := Option.some.inj hs
    exact ⟨h, rfl⟩
  | cons a as ih =>
    obtain ⟨t, ht, hrest⟩ := Option.bind_eq_some_iff.mp hs
    obtain ⟨hdeaf, hgiven⟩ := h.step ht
    obtain ⟨hdeaf', hgiven'⟩ := ih hdeaf hrest
    exact ⟨hdeaf', hgiven'.trans hgiven⟩

/-- **No connection is missed while `update_event` succeeds**, in every run: every connection is in
the backlog, with the thread, given to a worker, closed or gone by itself; the server is deaf exactly
when a call of `update_event` has failed, and then takes nothing ever after; else the thread, left
alone, gives all that wait to the workers. -/
theorem hears_of_reach {s : Listener} (h : listenSystem.Reach Lts.Free s) :
    s.arrived = s.toGive + s.given + s.closed + s.aborted ∧
      (s.Deaf ↔ s.failed = true) ∧
      (s.failed = true → ∀ as s', listenSystem.exec s as = some s' →
        s'.Deaf ∧ s'.given = s.given) ∧
      (s.failed = false → ∀ n, 3 * s.waiting + 6 ≤ n →
        listenSystem.Runs s (serve^[n] s) ∧ (serve^[n] s).AtRest ∧
          (serve^[n] s).given = s.given + s.toGive) := by
  have hsound := sound_of_reach h
  have hdeaf : s.Deaf ↔ s.failed = true := by
    constructor
    · rintro ⟨hpc, hadded⟩
      rw [← Bool.not_eq_false]
      intro hok
      rw [hsound.armed.mpr ⟨hpc, hok⟩] at hadded
      cases hadded
    · intro hf
      have hadded := hsound.armed
      simp only [hf, Bool.true_eq_false, and_false, iff_false, Bool.not_eq_true] at hadded
      exact ⟨hsound.idle hf, hadded⟩
  refine ⟨hsound.accounted, hdeaf, ?_, ?_⟩
  · intro hf as s' hs
    exact (hdeaf.mpr hf).exec hs
  · intro hok n hn
    exact ⟨runs_serve s n, atRest_of_serve hsound hok (Nat.le_trans (cost_le s) hn)⟩

end Listener

/-- Behind `server_listen`. -/
def listening : Listener := ⟨.polling, true, false, 0, 0, 0, 0, 0, false⟩

/-- Two clients connect; `accept` takes the one and has no descriptor for the other. -/
def outOfDescriptors : List ListenAct :=
  [.arrive, .arrive, .dispatch, .accept true, .setFlags true, .give true, .accept false,
    .remove true, .add true]

/-- The other one is taken too. -/
theorem hears_outOfDescriptors : ∃ s, listenSystem.exec listening outOfDescriptors = some s ∧
    s.waiting = 1 ∧ s.given = 1 ∧ (Listener.serve^[9] s).given = 2 := by
  have hinit : listenSystem.init listening := ⟨rfl, rfl, rfl, rfl, rfl, rfl, rfl, rfl⟩
  have hreach := Lts.Reach.of_exec (.start hinit) (Lts.allSteps_free listening outOfDescriptors) rfl
  exact ⟨_, rfl, rfl, rfl, ((Listener.hears_of_reach hreach).2.2.2 rfl 9 (Nat.le_refl 9)).2.2⟩

end GoFight.Net
