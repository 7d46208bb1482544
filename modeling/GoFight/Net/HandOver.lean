import GoFight.Lib.Doorbell
import GoFight.Net.Connection

/-!
# Handing a new connection to a worker

`give_worker_new_conn` and `push_worker_new_conn` choose a worker, push a `ConnInfo` on its
`new_connections_`, and write a byte to its pipe; `thread_libevent_process` of the worker reads a byte
and pops.  Every access to shared data is a step of its own here, so that the threads interleave at
each of them.

* `HandOver`, `handOverSystem` — the workers' queues and pipes, and where each thread is;
* `HandOver.doorbell`, `step_doorbell` — queue and pipe of a worker are a queue with a doorbell;
* `HandedOver` — what holds between the two, `handedOver_of_reach` — in every run.
-/

namespace GoFight.Net

open GoFight.Lib

/-- Where a thread is in `give_worker_new_conn` or `push_worker_new_conn`. -/
inductive GiverPc
  | idle
  /-- Before `s_last_thread_id` is read, and before it is written. -/
  | choose (ci : ConnInfo)
  | store (ci : ConnInfo) (idx : ℕ)
  /-- Before `new_connections_.Push`. -/
  | push (ci : ConnInfo) (idx : ℕ)
  /-- Before the byte is written. -/
  | notify (idx : ℕ)
deriving DecidableEq, Repr

/-- About to write to the pipe of worker `w`. -/
def GiverPc.notifies (w : ℕ) : GiverPc → Bool
  | .notify idx => idx = w
  | _ => false

/-- Where a worker is in `thread_libevent_process`. -/
inductive TakerPc
  | idle
  /-- The byte is read. -/
  | read
  /-- `Pop` has returned. -/
  | popped (ci : Option ConnInfo)
deriving DecidableEq, Repr

/-- What a worker has of the hand-over. -/
structure Taker where
  pc : TakerPc
  newConnections : List ConnInfo
  /-- Bytes in the pipe. -/
  notify : ℕ
  /-- History: everything pushed and everything popped, and the writes to the pipe that failed. -/
  pushed : List ConnInfo
  popped : List ConnInfo
  failed : ℕ

/-- A worker that was given nothing yet. -/
def Taker.new : Taker where
  pc := .idle
  newConnections := []
  notify := 0
  pushed := []
  popped := []
  failed := 0

/-- `new_connections_.Push(ci)`. -/
def Taker.push (ci : ConnInfo) (t : Taker) : Taker :=
  { t with newConnections := t.newConnections ++ [ci], pushed := t.pushed ++ [ci] }

/-- `write(notify_send_fd_, "c", 1)`, and whether it returned 1. -/
def Taker.ring (written : Bool) (t : Taker) : Taker :=
  if written then { t with notify := t.notify + 1 } else { t with failed := t.failed + 1 }

/-- `ConnQueue::Pop`: `NULL` where the queue is empty. -/
def Taker.pop (t : Taker) : Taker :=
  { t with
    pc := .popped t.newConnections.head?
    newConnections := t.newConnections.tail
    popped := t.popped ++ t.newConnections.head?.toList }

/-- The queues, the pipes and the threads. -/
structure HandOver where
  threadNum : ℕ
  /-- `s_last_thread_id`. -/
  lastThreadId : UInt64
  giver : List GiverPc
  taker : ℕ → Taker

/-- What happens next. -/
inductive HandOverAct
  /-- `give_worker_new_conn` is called by the thread `i`, and allocates. -/
  | give (i : ℕ) (state : ConnState)
  /-- `push_worker_new_conn` is called by the thread `i`. -/
  | pushWorker (i : ℕ) (ci : ConnInfo)
  /-- The thread `i` goes on; whether a write to the pipe returns 1. -/
  | giver (i : ℕ) (written : Bool)
  /-- `read` of worker `w` returns 1, or does not. -/
  | read (w : ℕ) (ok : Bool)
  /-- Worker `w` goes on. -/
  | taker (w : ℕ)
deriving DecidableEq, Repr

namespace HandOver

/-- A thread goes on. -/
def setGiver (s : HandOver) (i : ℕ) (pc : GiverPc) : HandOver := { s with giver := s.giver.set i pc }

/-- Update a worker. -/
def modTaker (s : HandOver) (w : ℕ) (f : Taker → Taker) : HandOver :=
  { s with taker := Function.update s.taker w (f (s.taker w)) }

/-- A thread past its call. -/
def giverStep (s : HandOver) (i : ℕ) (written : Bool) : Option HandOver :=
  match s.giver[i]? with
  | some (.choose ci) =>
      if 0 < s.threadNum then
        some (s.setGiver i (.store ci ((s.lastThreadId + 1).toNat % s.threadNum)))
      else none
  | some (.store ci idx) =>
      some ({ s with lastThreadId := UInt64.ofNat idx }.setGiver i (.push ci idx))
  | some (.push ci idx) => some ((s.modTaker idx (.push ci)).setGiver i (.notify idx))
  | some (.notify idx) => some ((s.modTaker idx (.ring written)).setGiver i .idle)
  | _ => none

/-- Worker `w` past its `read`.  To use what `Pop` returned where it is `NULL` is undefined: such a step
has no successor. -/
def takerStep (s : HandOver) (w : ℕ) : Option HandOver :=
  match (s.taker w).pc with
  | .idle => none
  | .read => some (s.modTaker w .pop)
  | .popped none => none
  | .popped (some _) => some (s.modTaker w fun t => { t with pc := .idle })

/-- One step. -/
def step (s : HandOver) : HandOverAct → Option HandOver
  | .give i state =>
      if s.giver[i]? = some .idle then some (s.setGiver i (.choose ⟨none, state⟩)) else none
  | .pushWorker i ci =>
      if s.giver[i]? = some .idle then
        some (if ci.preNew = none then s else s.setGiver i (.choose ci))
      else none
  | .giver i written => s.giverStep i written
  | .read w ok =>
      match (s.taker w).pc, ok, (s.taker w).notify with
      | .idle, true, n + 1 => some (s.modTaker w fun t => { t with pc := .read, notify := n })
      | .idle, false, _ => some s
      | _, _, _ => none
  | .taker w => s.takerStep w

/-- The start, with any number of threads that hand connections over. -/
def start (threadNum givers : ℕ) : HandOver where
  threadNum := threadNum
  lastThreadId := -1
  giver := List.replicate givers .idle
  taker _ := .new

/-! ### Queue and pipe as a queue with a doorbell -/

/-- Worker `w` has read a byte, and not yet popped. -/
def popping (s : HandOver) (w : ℕ) : ℕ := if (s.taker w).pc = .read then 1 else 0

/-- How many threads have pushed for worker `w`, and not yet written. -/
def ringing (s : HandOver) (w : ℕ) : ℕ := s.giver.countP (GiverPc.notifies w)

/-- What the hand-over to worker `w` is, as a queue with a doorbell. -/
def doorbell (w : ℕ) (s : HandOver) : Doorbell ConnInfo where
  queue := (s.taker w).newConnections
  rings := (s.taker w).notify
  ringing := s.ringing w
  popping := s.popping w
  lost := (s.taker w).failed
  pushed := (s.taker w).pushed
  popped := (s.taker w).popped

variable {s s' : HandOver} {w i : ℕ}

theorem modTaker_taker (s : HandOver) (v : ℕ) (f : Taker → Taker) (w : ℕ) :
    (s.modTaker v f).taker w = if w = v then f (s.taker w) else s.taker w := by
  by_cases hw : w = v
  · subst hw
    simp [modTaker]
  · simp [modTaker, hw]

@[simp] theorem modTaker_ringing (s : HandOver) (v : ℕ) (f : Taker → Taker) (w : ℕ) :
    (s.modTaker v f).ringing w = s.ringing w := rfl

@[simp] theorem setGiver_taker (s : HandOver) (i : ℕ) (pc : GiverPc) :
    (s.setGiver i pc).taker = s.taker := rfl

/-- A thread that goes on from `p` to `q`. -/
theorem setGiver_ringing {p q : GiverPc} (hp : s.giver[i]? = some p) :
    (s.setGiver i q).ringing w + (if p.notifies w then 1 else 0) =
      s.ringing w + if q.notifies w then 1 else 0 := by
  obtain ⟨hi, hget⟩ := List.getElem?_eq_some_iff.mp hp
  have hle : (if p.notifies w then 1 else 0) ≤ s.giver.countP (GiverPc.notifies w) := by
    split
    · next hpw =>
      exact List.countP_pos_iff.mpr ⟨p, hget ▸ List.getElem_mem hi, hpw⟩
    · exact Nat.zero_le _
  rw [ringing, ringing, setGiver, List.countP_set hi, hget]
  omega

/-- A step that is not at worker `w`. -/
theorem doorbell_congr (ht : s'.taker w = s.taker w) (hr : s'.ringing w = s.ringing w) :
    s'.doorbell w = s.doorbell w := by
  rw [doorbell, doorbell, popping, popping, ht, hr]

/-- A thread goes on from `p` to `q`, neither of them before a write to the pipe of `w`. -/
theorem doorbell_setGiver {p q : GiverPc} (hp : s.giver[i]? = some p)
    (hpw : p.notifies w = false) (hqw : q.notifies w = false) :
    (s.setGiver i q).doorbell w = s.doorbell w := by
  refine doorbell_congr rfl ?_
  have hcount := setGiver_ringing (w := w) (q := q) hp
  rw [hpw, hqw] at hcount
  exact hcount

/-- **Every step is one step of the doorbell, or none.** -/
theorem step_doorbell {e : HandOverAct} (hs : s.step e = some s') :
    s'.doorbell w = s.doorbell w ∨ ∃ b, (s.doorbell w).step b = some (s'.doorbell w) := by
  cases e with
  | give i state =>
    simp only [step, Option.ite_none_right_eq_some, Option.some.injEq] at hs
    obtain ⟨hi, rfl⟩ := hs
    exact .inl (doorbell_setGiver hi rfl rfl)
  | pushWorker i ci =>
    simp only [step, Option.ite_none_right_eq_some, Option.some.injEq] at hs
    obtain ⟨hi, rfl⟩ := hs
    split
    · exact .inl rfl
    · exact .inl (doorbell_setGiver hi rfl rfl)
  | giver i written =>
    simp only [step, giverStep] at hs
    split at hs
    · next ci hi =>
      simp only [Option.ite_none_right_eq_some, Option.some.injEq] at hs
      obtain ⟨-, rfl⟩ := hs
      exact .inl (doorbell_setGiver hi rfl rfl)
    · next ci idx hi =>
      cases hs
      exact .inl (doorbell_setGiver (s := { s with lastThreadId := UInt64.ofNat idx }) hi rfl rfl)
    · next ci idx hi =>
      cases hs
      have hcount := setGiver_ringing (s := s.modTaker idx (.push ci)) (w := w)
        (q := .notify idx) hi
      by_cases hw : idx = w
      · subst hw
        refine .inr ⟨.push ci, ?_⟩
        simp only [GiverPc.notifies, modTaker_ringing, decide_true, if_true, Bool.false_eq_true,
          if_false, Nat.add_zero] at hcount
        simp [Doorbell.step, doorbell, popping, hcount, modTaker_taker, Taker.push]
      · refine .inl (doorbell_congr ?_ ?_)
        · rw [setGiver_taker, modTaker_taker, if_neg (Ne.symm hw)]
        · simpa [GiverPc.notifies, hw] using hcount
    · next idx hi =>
      cases hs
      have hcount := setGiver_ringing (s := s.modTaker idx (.ring written)) (w := w)
        (q := .idle) hi
      by_cases hw : idx = w
      · subst hw
        refine .inr ⟨.ring written, ?_⟩
        simp only [GiverPc.notifies, modTaker_ringing, decide_true, if_true, Bool.false_eq_true,
          if_false, Nat.add_zero] at hcount
        have hring : (s.doorbell idx).ringing =
            ((s.modTaker idx (.ring written)).setGiver i .idle).ringing idx + 1 := hcount.symm
        rw [Doorbell.step, hring]
        cases written <;> simp [doorbell, popping, modTaker_taker, Taker.ring]
      · refine .inl (doorbell_congr ?_ ?_)
        · rw [setGiver_taker, modTaker_taker, if_neg (Ne.symm hw)]
        · simpa [GiverPc.notifies, hw] using hcount
    · cases hs
  | read v ok =>
    simp only [step] at hs
    split at hs
    · next n hpc hn =>
      cases hs
      by_cases hw : w = v
      · subst hw
        refine .inr ⟨.hear, ?_⟩
        simp [Doorbell.step, doorbell, hn, popping, modTaker_taker, hpc]
      · refine .inl (doorbell_congr ?_ rfl)
        rw [modTaker_taker, if_neg hw]
    · cases hs
      exact .inl rfl
    · cases hs
  | taker v =>
    simp only [step, takerStep] at hs
    split at hs
    · cases hs
    · next hpc =>
      cases hs
      by_cases hw : w = v
      · subst hw
        refine .inr ⟨.pop, ?_⟩
        simp [Doorbell.step, doorbell, popping, modTaker_taker, hpc, Taker.pop]
      · refine .inl (doorbell_congr ?_ rfl)
        rw [modTaker_taker, if_neg hw]
    · cases hs
    · next ci hpc =>
      cases hs
      refine .inl ?_
      by_cases hw : w = v
      · subst hw
        simp [doorbell, popping, modTaker_taker, hpc]
      · refine doorbell_congr ?_ rfl
        rw [modTaker_taker, if_neg hw]

end HandOver

/-- The runs of the hand-over. -/
def handOverSystem : Lts HandOver HandOverAct where
  init s := ∃ threadNum givers, s = .start threadNum givers
  step s e := s.step e

namespace HandOver

/-- What holds between queue and pipe of a worker. -/
structure HandedOver (s : HandOver) (w : ℕ) : Prop where
  /-- `Pop` is called on a queue with something in it, and never returns `NULL`. -/
  found : (s.taker w).pc = .read → (s.taker w).newConnections ≠ []
  notNull : (s.taker w).pc ≠ .popped none
  /-- What was popped is what was pushed first, in order and each once. -/
  order : (s.taker w).popped ++ (s.taker w).newConnections = (s.taker w).pushed
  count : (s.taker w).newConnections.length =
    (s.taker w).notify + ((s.taker w).failed + s.ringing w + s.popping w)
  /-- What stays in the queue of an idle worker is there for a write that failed. -/
  stranded : (s.taker w).pc = .idle → (s.taker w).notify = 0 → s.ringing w = 0 →
    (s.taker w).newConnections ≠ [] → 0 < (s.taker w).failed

theorem balanced_of_reach {s : HandOver} (h : handOverSystem.Reach Lts.Free s) (w : ℕ) :
    (s.doorbell w).Balanced := by
  refine Doorbell.balanced_of_reach (h.simulate (doorbell w) ?_ fun s e s' _ hs => step_doorbell hs)
  rintro s ⟨threadNum, givers, rfl⟩
  have hringing : (start threadNum givers).ringing w = 0 := by
    rw [ringing, List.countP_eq_zero]
    intro pc hpc
    rw [List.eq_of_mem_replicate hpc]
    exact Bool.false_ne_true
  show doorbell w (start threadNum givers) = .empty
  rw [doorbell, hringing]
  rfl

/-- A worker that is about to pop. -/
theorem popping_pos {s : HandOver} {w : ℕ} (h : (s.taker w).pc = .read) : 0 < s.popping w := by
  rw [popping, if_pos h]
  exact Nat.one_pos

/-- `Pop` never returns `NULL`. -/
theorem notNull_of_reach {s : HandOver} (h : handOverSystem.Reach Lts.Free s) (w : ℕ) :
    (s.taker w).pc ≠ .popped none := by
  refine h.invariant_of (P := fun s => (s.taker w).pc ≠ .popped none) ?_ fun s e s' hr hi _ hs => ?_
  · rintro s ⟨threadNum, givers, rfl⟩
    exact nofun
  · -- only the pop itself comes to `popped`
    have hpc : (s'.taker w).pc = (s.taker w).pc ∨ (s'.taker w).pc = .idle ∨
        (s'.taker w).pc = .read ∨
        (s.taker w).pc = .read ∧ (s'.taker w).pc = .popped (s.taker w).newConnections.head? := by
      cases e with
      | give i state =>
        simp only [handOverSystem, step, Option.ite_none_right_eq_some, Option.some.injEq] at hs
        obtain ⟨-, rfl⟩ := hs
        exact .inl rfl
      | pushWorker i ci =>
        simp only [handOverSystem, step, Option.ite_none_right_eq_some, Option.some.injEq] at hs
        obtain ⟨-, rfl⟩ := hs
        split <;> exact .inl rfl
      | giver i written =>
        simp only [handOverSystem, step, giverStep] at hs
        split at hs
        · simp only [Option.ite_none_right_eq_some, Option.some.injEq] at hs
          obtain ⟨-, rfl⟩ := hs
          exact .inl rfl
        · cases hs
          exact .inl rfl
        · cases hs
          rw [setGiver_taker, modTaker_taker]
          split <;> exact .inl rfl
        · cases hs
          rw [setGiver_taker, modTaker_taker, Taker.ring]
          split
          · split <;> exact .inl rfl
          · exact .inl rfl
        · cases hs
      | read v ok =>
        simp only [handOverSystem, step] at hs
        split at hs
        · cases hs
          rw [modTaker_taker]
          split
          · exact .inr (.inr (.inl rfl))
          · exact .inl rfl
        · cases hs
          exact .inl rfl
        · cases hs
      | taker v =>
        simp only [handOverSystem, step, takerStep] at hs
        split at hs
        · cases hs
        · next hv =>
          cases hs
          rw [modTaker_taker]
          split
          · next hw => exact .inr (.inr (.inr ⟨hw ▸ hv, rfl⟩))
          · exact .inl rfl
        · cases hs
        · cases hs
          rw [modTaker_taker]
          split
          · exact .inr (.inl rfl)
          · exact .inl rfl
    rcases hpc with heq | heq | heq | ⟨hread, heq⟩
    · exact heq ▸ hi
    · rw [heq]
      exact nofun
    · rw [heq]
      exact nofun
    · rw [heq]
      intro hnone
      exact (balanced_of_reach hr w).pop_finds (popping_pos hread)
        (List.head?_eq_none_iff.mp (TakerPc.popped.inj hnone))

/-- **Queue and pipe of every worker stay in step**, whatever the interleaving. -/
theorem handedOver_of_reach {s : HandOver} (h : handOverSystem.Reach Lts.Free s) (w : ℕ) :
    s.HandedOver w := by
  have hbal := balanced_of_reach h w
  have hcount : (s.taker w).newConnections.length =
      (s.taker w).notify + s.ringing w + s.popping w + (s.taker w).failed := hbal.count
  refine ⟨fun hpc => ?_, notNull_of_reach h w, hbal.order, by omega, ?_⟩
  · exact hbal.pop_finds (popping_pos hpc)
  · intro hpc hnotify hringing hne
    refine hbal.lost_pos hnotify hringing ?_ hne
    show s.popping w = 0
    rw [popping, hpc, if_neg nofun]

/-- Two threads hand a connection over to worker 0, and the byte of the first is lost. -/
def lostByte : List HandOverAct :=
  [.give 0 .waiting, .give 1 .waiting, .giver 0 true, .giver 1 true, .giver 0 true, .giver 0 true,
    .giver 1 true, .giver 1 true, .giver 0 false, .giver 1 true, .read 0 true, .taker 0, .taker 0]

theorem handedOver_lostByte : ∃ s,
    handOverSystem.exec (.start 1 2) lostByte = some s ∧
      ((s.taker 0).newConnections.length, (s.taker 0).failed) = (1, 1) ∧ s.HandedOver 0 := by
  obtain ⟨s, hs, hrun⟩ : ∃ s, handOverSystem.exec (.start 1 2) lostByte = some s ∧
      ((s.taker 0).newConnections.length, (s.taker 0).failed) = (1, 1) := by
    refine Option.map_eq_some_iff.mp ?_
    decide +kernel
  exact ⟨s, hs, hrun, handedOver_of_reach
    (.of_exec (.start ⟨1, 2, rfl⟩) (Lts.allSteps_free _ _) hs) 0⟩

end HandOver

end GoFight.Net
