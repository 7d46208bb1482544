import GoFight.Data.Redis
import GoFight.Lib.Lts
import Mathlib.Data.List.Count

/-!
# The write-behind list of the game server

`add_redis_data` appends to `s_redis_list`, and a thread in `process_redis_list` takes from its front
and writes to Redis, at most 300 records between two sleeps.  Adds come in between any two steps of
the thread, and each write ends as Redis and the connection have it.

* `RedisList` — the list, the thread, and Redis; `redisList` — the system;
* `Kept` — nothing added is lost or written out of order, and an empty list leaves the last values;
* `kept_iff` — after a run this holds exactly when every write of the run succeeded.

A record is taken off the list before it is written, and a failed write is only logged.
-/

namespace GoFight.Data

open GoFight.Lib

/-- `RedisData`; `V` is the class of `value_`. -/
structure RedisData (V : Type*) where
  key : Bytes
  value : V
deriving DecidableEq, Repr

/-- What becomes of a `SET`. -/
inductive SetResult
  | ok
  /-- Redis refuses. -/
  | refused
  /-- `redisCommand` gives `NULL`; the command may have been carried out. -/
  | lost (applied : Bool)
deriving DecidableEq, Repr

/-- The reply hiredis gives. -/
def SetResult.reply : SetResult → Option Reply
  | ok => some (.status (ascii "OK"))
  | refused => some (.error (ascii "ERR"))
  | lost _ => none

/-- The value is stored. -/
def SetResult.applied : SetResult → Bool
  | ok => true
  | refused => false
  | lost applied => applied

/-- `redis_set_data` returns `true`. -/
def SetResult.Succeeds (r : SetResult) : Prop := redisSetData r.reply = true

instance (r : SetResult) : Decidable r.Succeeds := by
  unfold SetResult.Succeeds
  infer_instance

theorem SetResult.succeeds_iff (r : SetResult) : r.Succeeds ↔ r = .ok := by
  cases r <;> simp [Succeeds, reply, redisSetData]

/-- Where the thread is. -/
inductive ListPc (V : Type*)
  /-- Before `while (s_redis_list.size() > 0 && i < NUM_RECORD)`. -/
  | test (i : ℕ)
  /-- Before `redis_set_data` on a record taken off the list. -/
  | write (i : ℕ) (d : RedisData V)
  /-- In `usleep`. -/
  | sleep
deriving DecidableEq, Repr

/-- `NUM_RECORD`. -/
def numRecord : ℕ := 300

/-- The list, the thread and Redis. -/
structure RedisList (V : Type*) where
  list : List (RedisData V)
  pc : ListPc V
  kv : Bytes → Option Bytes
  /-- History: what was added, and what was written with success, in order. -/
  added : List (RedisData V)
  written : List (RedisData V)

/-- A step. -/
inductive ListAct (V : Type*)
  /-- `add_redis_data`. -/
  | add (d : RedisData V)
  /-- The thread goes on. -/
  | loop
  /-- `redis_set_data` of the thread. -/
  | write (r : SetResult)
deriving DecidableEq, Repr

/-- `redis_set_data` returns `false`. -/
def ListAct.Fails {V : Type*} : ListAct V → Prop
  | write r => ¬ r.Succeeds
  | _ => False

instance {V : Type*} (a : ListAct V) : Decidable a.Fails := by
  unfold ListAct.Fails
  split <;> infer_instance

namespace RedisList

variable {V : Type*} (serialize : V → Bytes)

/-- Before the first step. -/
def start (kv : Bytes → Option Bytes) : RedisList V where
  list := []
  pc := .test 0
  kv := kv
  added := []
  written := []

/-- The record being written. -/
def inFlight (s : RedisList V) : List (RedisData V) :=
  match s.pc with
  | .write _ d => [d]
  | _ => []

/-- Redis after a `SET` of the record. -/
def store (d : RedisData V) (kv : Bytes → Option Bytes) : Bytes → Option Bytes :=
  Function.update kv d.key (some (serialize d.value))

/-- The thread, before its next test or in its sleep. -/
def loopStep (s : RedisList V) : Option (RedisList V) :=
  match s.pc, s.list with
  | .test i, d :: rest =>
      if i < numRecord then some { s with list := rest, pc := .write i d }
      else some { s with pc := .sleep }
  | .test _, [] => some { s with pc := .sleep }
  | .sleep, _ => some { s with pc := .test 0 }
  | .write _ _, _ => none

/-- The thread writes the record it has taken, and deletes it. -/
def writeStep (s : RedisList V) (r : SetResult) : Option (RedisList V) :=
  match s.pc with
  | .write i d =>
      some
        { s with
          pc := .test (i + 1)
          kv := if r.applied then store serialize d s.kv else s.kv
          written := if redisSetData r.reply then s.written ++ [d] else s.written }
  | _ => none

/-- One step. -/
def step (s : RedisList V) : ListAct V → Option (RedisList V)
  | .add d => some { s with list := s.list ++ [d], added := s.added ++ [d] }
  | .loop => s.loopStep
  | .write r => s.writeStep serialize r

/-- `s'` is `s` after the step. -/
inductive ListStep (s : RedisList V) : ListAct V → RedisList V → Prop
  | add (d) : ListStep s (.add d) { s with list := s.list ++ [d], added := s.added ++ [d] }
  | take {i d rest} (hpc : s.pc = .test i) (hl : s.list = d :: rest) :
      ListStep s .loop { s with list := rest, pc := .write i d }
  | pause {i} (hpc : s.pc = .test i) : ListStep s .loop { s with pc := .sleep }
  | wake (hpc : s.pc = .sleep) : ListStep s .loop { s with pc := .test 0 }
  | written {i d} (hpc : s.pc = .write i d) : ListStep s (.write .ok)
      { s with pc := .test (i + 1), kv := store serialize d s.kv, written := s.written ++ [d] }
  | dropped {i d r kv} (hpc : s.pc = .write i d) (hr : ¬ r.Succeeds) :
      ListStep s (.write r) { s with pc := .test (i + 1), kv := kv }

variable {serialize}

/-- **Every step.** -/
theorem step_cases {s s' : RedisList V} {a : ListAct V} (h : s.step serialize a = some s') :
    ListStep serialize s a s' := by
  cases a with
  | add d => cases h; exact .add d
  | loop =>
    change s.loopStep = some s' at h
    unfold loopStep at h
    split at h
    · next hpc hl =>
      split at h
      · cases h; exact .take hpc hl
      · cases h; exact .pause hpc
    · next hpc _ => cases h; exact .pause hpc
    · next hpc => cases h; exact .wake hpc
    · cases h
  | write r =>
    change s.writeStep serialize r = some s' at h
    unfold writeStep at h
    split at h
    · next i d hpc =>
      cases h
      by_cases hr : r.Succeeds
      · rw [r.succeeds_iff.mp hr]
        exact .written hpc
      · have hr' : ¬ redisSetData r.reply = true := hr
        rw [if_neg hr']
        exact .dropped hpc hr
    · cases h

end RedisList

/-- The system, from any contents of Redis. -/
def redisList {V : Type*} (serialize : V → Bytes) (kv : Bytes → Option Bytes) :
    Lts (RedisList V) (ListAct V) where
  init s := s = .start kv
  step := RedisList.step serialize

namespace RedisList

variable {V : Type*} {serialize : V → Bytes} {kv : Bytes → Option Bytes}

/-- The last value added for a key, or what Redis held for it at first. -/
def lastValue (serialize : V → Bytes) (kv : Bytes → Option Bytes) (ds : List (RedisData V))
    (key : Bytes) : Option Bytes :=
  match (ds.filter (·.key = key)).getLast? with
  | some d => some (serialize d.value)
  | none => kv key

/-- **The property.**  What was added is written, being written or in the list, each record once
and in order; and when the list is empty and nothing is being written, every key has its last
value. -/
structure Kept (serialize : V → Bytes) (kv : Bytes → Option Bytes) (s : RedisList V) : Prop where
  order : s.written ++ s.inFlight ++ s.list = s.added
  drained : s.list = [] → s.inFlight = [] → ∀ key, s.kv key = lastValue serialize kv s.added key

/-- The list invariant of a run without a failed write. -/
structure Stored (serialize : V → Bytes) (kv : Bytes → Option Bytes) (s : RedisList V) : Prop where
  order : s.written ++ s.inFlight ++ s.list = s.added
  kv : s.kv = lastValue serialize kv s.written

theorem Stored.kept {s : RedisList V} (h : s.Stored serialize kv) : s.Kept serialize kv := by
  refine ⟨h.order, fun hlist hflight key => ?_⟩
  have horder := h.order
  rw [hlist, hflight, List.append_nil, List.append_nil] at horder
  rw [h.kv, horder]

/-- A record written last is the last value of its key, and of no other. -/
theorem lastValue_concat (ds : List (RedisData V)) (d : RedisData V) :
    lastValue serialize kv (ds ++ [d]) = store serialize d (lastValue serialize kv ds) := by
  funext key
  by_cases hkey : key = d.key
  · subst hkey
    rw [store, Function.update_self, lastValue, List.filter_append, List.filter_cons_of_pos (by simp),
      List.filter_nil, List.getLast?_concat]
  · have hne : ¬ d.key = key := fun h => hkey h.symm
    rw [store, Function.update_of_ne hkey, lastValue, List.filter_append,
      List.filter_cons_of_neg (by simpa using hne), List.filter_nil, List.append_nil, lastValue]

theorem Stored.step {s s' : RedisList V} {a : ListAct V} (h : s.Stored serialize kv)
    (ha : ¬ a.Fails) (hs : s.step serialize a = some s') : s'.Stored serialize kv := by
  obtain ⟨horder, hkv⟩ := h
  cases step_cases hs with
  | add d =>
    refine ⟨?_, hkv⟩
    show s.written ++ s.inFlight ++ (s.list ++ [d]) = s.added ++ [d]
    rw [← List.append_assoc, horder]
  | @take i d rest hpc hl =>
    refine ⟨?_, hkv⟩
    rw [inFlight, hpc, List.append_nil, hl] at horder
    show s.written ++ [d] ++ rest = s.added
    rw [List.append_assoc, ← horder]
    rfl
  | pause hpc =>
    rw [inFlight, hpc] at horder
    exact ⟨horder, hkv⟩
  | wake hpc =>
    rw [inFlight, hpc] at horder
    exact ⟨horder, hkv⟩
  | @written i d hpc =>
    refine ⟨?_, ?_⟩
    · rw [inFlight, hpc] at horder
      show s.written ++ [d] ++ [] ++ s.list = s.added
      rw [List.append_nil, horder]
    · show store serialize d s.kv = lastValue serialize kv (s.written ++ [d])
      rw [lastValue_concat, hkv]
  | dropped _ hr => exact absurd hr ha

/-- How many records are written, being written or in the list. -/
def held (s : RedisList V) : ℕ := s.written.length + s.inFlight.length + s.list.length

/-- A step adds a record or keeps their number, unless its write fails. -/
theorem held_step {s s' : RedisList V} {a : ListAct V} (hs : s.step serialize a = some s') :
    s'.added.length + s.held = s.added.length + s'.held + if a.Fails then 1 else 0 := by
  cases step_cases hs with
  | add d =>
    have hok : ¬ (ListAct.add d).Fails := nofun
    rw [if_neg hok]
    show (s.added ++ [d]).length + s.held =
      s.added.length + (s.written.length + s.inFlight.length + (s.list ++ [d]).length) + 0
    rw [List.length_append, List.length_append, held]
    omega
  | @take i d rest hpc hl =>
    have hok : ¬ (ListAct.loop (V := V)).Fails := nofun
    rw [if_neg hok]
    show s.added.length + s.held = s.added.length + (s.written.length + 1 + rest.length) + 0
    rw [held, inFlight, hpc, hl, List.length_cons, List.length_nil]
    omega
  | pause hpc =>
    have hok : ¬ (ListAct.loop (V := V)).Fails := nofun
    rw [if_neg hok, held, held, inFlight, hpc]
    rfl
  | wake hpc =>
    have hok : ¬ (ListAct.loop (V := V)).Fails := nofun
    rw [if_neg hok, held, held, inFlight, hpc]
    rfl
  | @written i d hpc =>
    have hok : ¬ (ListAct.write (V := V) .ok).Fails := fun h => h rfl
    rw [if_neg hok]
    show s.added.length + s.held =
      s.added.length + ((s.written ++ [d]).length + 0 + s.list.length) + 0
    rw [held, inFlight, hpc, List.length_append]
    rfl
  | @dropped i d r kv hpc hr =>
    have hfail : (ListAct.write (V := V) r).Fails := hr
    rw [if_pos hfail]
    show s.added.length + s.held = s.added.length + (s.written.length + 0 + s.list.length) + 1
    rw [held, inFlight, hpc, List.length_singleton]
    omega

/-- Along a run without a failed write everything is kept. -/
theorem Stored.exec {as : List (ListAct V)} :
    ∀ {s s' : RedisList V}, s.Stored serialize kv → (∀ a ∈ as, ¬ a.Fails) →
      (redisList serialize kv).exec s as = some s' → s'.Stored serialize kv := by
  induction as with
  | nil =>
    intro s s' h _ he
    cases he
    exact h
  | cons a as ih =>
    intro s s' h hok he
    obtain ⟨t, ht, he⟩ := Option.bind_eq_some_iff.mp he
    exact ih (h.step (hok a List.mem_cons_self) ht)
      (fun b hb => hok b (List.mem_cons_of_mem a hb)) he

/-- Along any run each failed write loses one record. -/
theorem held_exec {as : List (ListAct V)} :
    ∀ {s s' : RedisList V}, (redisList serialize kv).exec s as = some s' →
      s'.added.length + s.held =
        s.added.length + s'.held + as.countP fun a => decide a.Fails := by
  induction as with
  | nil =>
    intro s s' he
    cases he
    rfl
  | cons a as ih =>
    intro s s' he
    obtain ⟨t, ht, he⟩ := Option.bind_eq_some_iff.mp he
    have hstep := held_step ht
    have hrest := ih he
    rw [List.countP_cons]
    simp only [decide_eq_true_eq]
    omega

end RedisList

/-- **The write-behind list, exactly.**  After a run everything added is kept if and only if every
`redis_set_data` of the run returned `true`. -/
theorem kept_iff {V : Type*} (serialize : V → Bytes) (kv : Bytes → Option Bytes)
    {as : List (ListAct V)} {s : RedisList V}
    (h : (redisList serialize kv).exec (.start kv) as = some s) :
    s.Kept serialize kv ↔ ∀ a ∈ as, ¬ a.Fails := by
  refine ⟨fun hkept => ?_, fun hok => ?_⟩
  · have hheld := RedisList.held_exec h
    have hlen : s.held = s.added.length := by
      rw [← hkept.order, List.length_append, List.length_append, RedisList.held]
    have hstart : (RedisList.start kv : RedisList V).held = 0 := rfl
    have hzero : (RedisList.start kv : RedisList V).added.length = 0 := rfl
    have hcount : (as.countP fun a => decide a.Fails) = 0 := by omega
    simpa using hcount
  · have hstart : (RedisList.start kv : RedisList V).Stored serialize kv := ⟨rfl, rfl⟩
    exact (hstart.exec hok h).kept

/-- Two records are added and written, one of them between the steps for the other. -/
def twoRecords : List (ListAct Bytes) :=
  [.add ⟨[1], [7]⟩, .loop, .add ⟨[1], [8]⟩, .write .ok, .loop, .write .ok]

theorem kept_iff_twoRecords : ∃ s,
    (redisList id fun _ => none).exec (.start fun _ => none) twoRecords = some s ∧
      s.Kept id fun _ => none := by
  obtain ⟨s, hs⟩ := Option.isSome_iff_exists.mp (show
    ((redisList id fun _ => none).exec (.start fun _ => none) twoRecords).isSome by decide)
  exact ⟨s, hs, (kept_iff id (fun _ => none) hs).mpr (by decide)⟩

/-- The write of a record fails. -/
theorem not_kept_refused : ∃ s,
    (redisList id fun _ => none).exec (.start fun _ => none)
        [.add ⟨[1], [7]⟩, .loop, .write .refused] = some s ∧
      ¬ s.Kept id fun _ => none := by
  refine ⟨_, rfl, fun h => ?_⟩
  have horder := h.order
  revert horder
  decide

end GoFight.Data
