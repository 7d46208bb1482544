import Mathlib.Data.UInt
import GoFight.Net.MessageFormat

/-!
# The choice of a worker

`give_worker_new_conn` and `push_worker_new_conn` hand new connections to the workers in turn: the
index is `(s_last_thread_id + 1) % net_thread_num_`, the counter is a `pthread_t`, the number of
threads an `int` of the settings.

* `netPreSetParameter` — the check of the settings; `threadInit` — the worker table;
* `threadIdx` — the index, in the C types; `Workers.assign` — what the two functions do with it;
* `InTurn` — at every point of a sequence of calls no call has divided by zero or met an index without
  a worker, and no worker is ahead of another by more than one connection;
* `inTurn_iff` — when that is so.

The settings are accepted with any `net_thread_num_`.
-/

namespace GoFight.Net

/-! ### The settings -/

/-- `NetSetting`. -/
structure NetSetting where
  maxConnections : Int32
  ipAddr : String
  listenPort : Int32
  netThreadNum : Int32
deriving DecidableEq, Repr

/-- `NetSetting ns;`; the constructor leaves `listen_port_` as it is. -/
def NetSetting.new (listenPort : Int32) : NetSetting := ⟨0, "", listenPort, 4⟩

/-- The globals of the choice: `s_net_setting`, `s_set_parameters`, `s_last_thread_id`, and
`s_threads_datas` with a `ThreadData` named by its number. -/
structure Workers where
  setting : NetSetting
  setParameters : Bool
  lastThreadId : UInt64
  table : UInt64 → Option ℕ
  /-- History: how many connections each worker was given. -/
  given : ℕ → ℕ

namespace Workers

/-- When the process starts. -/
def start (listenPort : Int32) : Workers where
  setting := .new listenPort
  setParameters := false
  lastThreadId := -1
  table _ := none
  given _ := 0

/-- `net_pre_set_parameter`. -/
def netPreSetParameter (s : Workers) (ns : NetSetting) : Bool × Workers :=
  if 0 < ns.maxConnections then (true, { s with setting := ns, setParameters := true })
  else (false, s)

/-- `s_threads_datas[i] = _td`. -/
def store (s : Workers) (i : ℕ) : Workers :=
  { s with table := Function.update s.table (UInt64.ofNat i) (some i) }

/-- The table of `thread_init`: one entry for each `i` from 0 to `num_thread - 1`. -/
def threadInit (s : Workers) (numThread : Int32) : Workers :=
  (List.range numThread.toInt.toNat).foldl store s

/-! ### The index -/

/-- `(s_last_thread_id + 1) % net_thread_num_`, as an `int`: the sum is a `pthread_t`, to which the
number of threads is converted.  `none` is a division by zero. -/
def threadIdx (s : Workers) : Option Int32 :=
  let divisor := s.setting.netThreadNum.toInt64.toUInt64
  if divisor = 0 then none else some ((s.lastThreadId + 1) % divisor).toInt64.toInt32

/-- Push on the worker of the index; `none` when the index has no worker. -/
def assign (s : Workers) : Option Workers :=
  match s.threadIdx with
  | none => none
  | some idx =>
      let key := idx.toInt64.toUInt64
      match s.table key with
      | none => none
      | some w =>
          some
            { s with
              lastThreadId := key
              given := Function.update s.given w (s.given w + 1) }

/-- A call: `give_worker_new_conn`, and whether its `ConnInfo` was allocated; or
`push_worker_new_conn`, and whether `pre_new` is set. -/
inductive Call
  | giveWorkerNewConn (allocated : Bool)
  | pushWorkerNewConn (preNew : Bool)
deriving DecidableEq, Repr

/-- The call gets to the choice of a worker. -/
def Call.Assigns : Call → Prop
  | giveWorkerNewConn allocated => allocated = true
  | pushWorkerNewConn preNew => preNew = true

instance (c : Call) : Decidable c.Assigns := by
  cases c <;> unfold Call.Assigns <;> infer_instance

/-- `give_worker_new_conn`: what it returns, and the globals. -/
def giveWorkerNewConn (s : Workers) (allocated : Bool) : Option (Bool × Workers) :=
  if allocated then s.assign.map (true, ·) else some (false, s)

/-- `push_worker_new_conn`. -/
def pushWorkerNewConn (s : Workers) (preNew : Bool) : Option (Bool × Workers) :=
  if preNew then s.assign.map (true, ·) else some (false, s)

/-- A call; `none` when the process dies in it. -/
def call (s : Workers) : Call → Option (Bool × Workers)
  | .giveWorkerNewConn allocated => s.giveWorkerNewConn allocated
  | .pushWorkerNewConn preNew => s.pushWorkerNewConn preNew

/-- Calls, one at a time. -/
def calls (s : Workers) : List Call → Option Workers
  | [] => some s
  | c :: cs => (s.call c).bind fun r => r.2.calls cs

/-- Settings that were accepted, and the table filled. -/
def ready (listenPort : Int32) (ns : NetSetting) : Workers :=
  ((start listenPort).netPreSetParameter ns).2.threadInit ns.netThreadNum

end Workers

open Workers

/-- **The property**, at every point of the sequence: no call has died, and no two of the workers
differ by more than one connection. -/
def InTurn (s : Workers) (cs : List Call) : Prop :=
  ∀ k, ∃ t, s.calls (cs.take k) = some t ∧
    ∀ v w : ℕ, (v : ℤ) < s.setting.netThreadNum.toInt → (w : ℤ) < s.setting.netThreadNum.toInt →
      t.given v ≤ t.given w + 1

/-! ### The index of a positive number of threads -/

/-- An `int` that is not negative, as a `pthread_t`. -/
theorem toUInt64_ofNat {i : ℕ} (h : i < 2 ^ 31) :
    (Int32.ofNat i).toInt64.toUInt64 = UInt64.ofNat i := by
  have hwide : (Int32.ofNat i).toInt64 = Int64.ofNat i := by
    apply Int64.toInt.inj
    rw [Int32.toInt_toInt64, Int32.toInt_ofNat_of_lt h, Int64.toInt_ofNat_of_lt (by omega)]
  rw [hwide]
  rfl

theorem toNat_ofNat {i : ℕ} (h : i ≤ 2 ^ 31) : (UInt64.ofNat i).toNat = i := by
  rw [UInt64.toNat_ofNat']
  omega

theorem eq_ofNat_of_pos {n : Int32} (h : 0 < n.toInt) : n = Int32.ofNat n.toInt.toNat := by
  have hlt := n.toInt_lt
  apply Int32.toInt.inj
  rw [Int32.toInt_ofNat_of_lt (by omega)]
  omega

namespace Workers

theorem threadIdx_of_pos {s : Workers} {n : ℕ} (h : s.setting.netThreadNum = Int32.ofNat n)
    (hpos : 0 < n) (hlt : n < 2 ^ 31) :
    s.threadIdx = some (Int32.ofNat ((s.lastThreadId + 1).toNat % n)) := by
  have hne : UInt64.ofNat n ≠ 0 := by
    intro h0
    have htoNat := congrArg UInt64.toNat h0
    rw [toNat_ofNat hlt.le] at htoNat
    exact hpos.ne' htoNat
  have hmod : (s.lastThreadId + 1) % UInt64.ofNat n
      = UInt64.ofNat ((s.lastThreadId + 1).toNat % n) := by
    have hsmall : (s.lastThreadId + 1).toNat % n < n := Nat.mod_lt _ hpos
    apply UInt64.toNat.inj
    rw [UInt64.toNat_mod, toNat_ofNat hlt.le, toNat_ofNat (hsmall.trans hlt).le]
  simp only [threadIdx, h, toUInt64_ofNat hlt, if_neg hne, hmod]
  exact congrArg some Int64.toInt32_ofNat'

/-! ### One connection after the other -/

/-- The globals with `n` workers once `m` connections were handed out. -/
structure Turn (n m : ℕ) (s : Workers) : Prop where
  setting : s.setting.netThreadNum = Int32.ofNat n
  next : (s.lastThreadId + 1).toNat % n = m % n
  table : ∀ i < n, s.table (UInt64.ofNat i) = some i
  given : ∀ w < n, s.given w = m / n + if w < m % n then 1 else 0

/-- The next connection: the quotient moves when the remainder is the last. -/
theorem div_mod_succ {n : ℕ} (hpos : 0 < n) (m : ℕ) :
    (m % n + 1 = n ∧ (m + 1) / n = m / n + 1 ∧ (m + 1) % n = 0) ∨
      (m % n + 1 < n ∧ (m + 1) / n = m / n ∧ (m + 1) % n = m % n + 1) := by
  have hr : m % n < n := Nat.mod_lt _ hpos
  have hm : m + 1 = m % n + 1 + n * (m / n) := by
    have hdiv := Nat.mod_add_div m n
    omega
  rcases Nat.lt_or_ge (m % n + 1) n with hlt | hge
  · right
    refine ⟨hlt, ?_, ?_⟩
    · rw [hm, Nat.add_mul_div_left _ _ hpos, Nat.div_eq_of_lt hlt, Nat.zero_add]
    · rw [hm, Nat.add_mul_mod_self_left, Nat.mod_eq_of_lt hlt]
  · left
    have hn : m % n + 1 = n := by omega
    refine ⟨hn, ?_, ?_⟩
    · rw [hm, Nat.add_mul_div_left _ _ hpos, hn, Nat.div_self hpos, Nat.add_comm]
    · rw [hm, Nat.add_mul_mod_self_left, hn, Nat.mod_self]

variable {n m : ℕ} {s : Workers}

/-- **One more connection.** -/
theorem Turn.assign (h : s.Turn n m) (hpos : 0 < n) (hlt : n < 2 ^ 31) :
    ∃ t, s.assign = some t ∧ t.Turn n (m + 1) := by
  have hr : m % n < n := Nat.mod_lt _ hpos
  have hidx := threadIdx_of_pos h.setting hpos hlt
  rw [h.next] at hidx
  refine ⟨{ s with
    lastThreadId := UInt64.ofNat (m % n)
    given := Function.update s.given (m % n) (s.given (m % n) + 1) }, ?_, h.setting, ?_, h.table, ?_⟩
  · simp only [Workers.assign, hidx, toUInt64_ofNat (hr.trans hlt), h.table _ hr]
  · have hnext : (UInt64.ofNat (m % n) + 1).toNat = m % n + 1 := by
      rw [UInt64.toNat_add, toNat_ofNat (hr.trans hlt).le]
      exact Nat.mod_eq_of_lt (show m % n + 1 < 2 ^ 64 by omega)
    show (UInt64.ofNat (m % n) + 1).toNat % n = (m + 1) % n
    rw [hnext, Nat.mod_add_mod]
  · intro w hw
    show Function.update s.given (m % n) (s.given (m % n) + 1) w = _
    rw [Function.update_apply, h.given _ hr, h.given _ hw]
    rcases div_mod_succ hpos m with ⟨hlast, hdiv, hmod⟩ | ⟨_, hdiv, hmod⟩
    · rw [hdiv, hmod]
      split_ifs <;> omega
    · rw [hdiv, hmod]
      split_ifs <;> omega

theorem call_of_assigns {c : Call} (hc : c.Assigns) (s : Workers) :
    s.call c = s.assign.map (true, ·) := by
  cases c with
  | giveWorkerNewConn allocated => exact if_pos hc
  | pushWorkerNewConn preNew => exact if_pos hc

theorem call_of_not_assigns {c : Call} (hc : ¬ c.Assigns) (s : Workers) :
    s.call c = some (false, s) := by
  cases c with
  | giveWorkerNewConn allocated => exact if_neg hc
  | pushWorkerNewConn preNew => exact if_neg hc

/-- Any calls: no one dies, and the connections go round. -/
theorem Turn.calls (hpos : 0 < n) (hlt : n < 2 ^ 31) (cs : List Call) (h : s.Turn n m) :
    ∃ m' t, s.calls cs = some t ∧ t.Turn n m' := by
  induction cs generalizing s m with
  | nil => exact ⟨m, s, rfl, h⟩
  | cons c cs ih =>
    by_cases hc : c.Assigns
    · obtain ⟨t, ht, hturn⟩ := h.assign hpos hlt
      obtain ⟨m', u, hu, hend⟩ := ih hturn
      refine ⟨m', u, ?_, hend⟩
      rw [Workers.calls, call_of_assigns hc, ht]
      exact hu
    · obtain ⟨m', u, hu, hend⟩ := ih h
      refine ⟨m', u, ?_, hend⟩
      rw [Workers.calls, call_of_not_assigns hc]
      exact hu

/-- Nobody is ahead by more than one. -/
theorem Turn.fair (h : s.Turn n m) {v w : ℕ} (hv : v < n) (hw : w < n) :
    s.given v ≤ s.given w + 1 := by
  rw [h.given v hv, h.given w hw]
  split_ifs <;> omega

/-! ### The table -/

theorem foldl_store (k : ℕ) (s : Workers) :
    (List.range k).foldl store s = { s with table := ((List.range k).foldl store s).table } := by
  induction k with
  | zero => rfl
  | succ k ih =>
    rw [List.range_succ, List.foldl_concat, ih]
    rfl

theorem table_foldl_store {i k : ℕ} (hi : i < k) (hk : k < 2 ^ 31) (s : Workers) :
    ((List.range k).foldl store s).table (UInt64.ofNat i) = some i := by
  induction k with
  | zero => omega
  | succ k ih =>
    rw [List.range_succ, List.foldl_concat]
    show Function.update ((List.range k).foldl store s).table (UInt64.ofNat k) (some k) _ = some i
    by_cases hik : i = k
    · rw [hik, Function.update_self]
    · have hne : UInt64.ofNat i ≠ UInt64.ofNat k := by
        intro heq
        have htoNat := congrArg UInt64.toNat heq
        rw [toNat_ofNat (by omega), toNat_ofNat (by omega)] at htoNat
        exact hik htoNat
      rw [Function.update_of_ne hne, ih (by omega) (by omega)]

variable {listenPort : Int32} {ns : NetSetting}

theorem ready_eq (h : ((start listenPort).netPreSetParameter ns).1 = true) :
    ready listenPort ns =
      { start listenPort with
        setting := ns
        setParameters := true
        table := (ready listenPort ns).table } := by
  have hset : (start listenPort).netPreSetParameter ns =
      (true, { start listenPort with setting := ns, setParameters := true }) := by
    unfold netPreSetParameter at h ⊢
    split at h
    · next hmax => rw [if_pos hmax]
    · cases h
  have hready := foldl_store ns.netThreadNum.toInt.toNat
    { start listenPort with setting := ns, setParameters := true }
  rw [ready, hset]
  exact hready

/-- A positive number of threads fills the table. -/
theorem turn_ready (h : ((start listenPort).netPreSetParameter ns).1 = true)
    (hpos : 0 < ns.netThreadNum.toInt) :
    (ready listenPort ns).Turn ns.netThreadNum.toInt.toNat 0 := by
  have hlt := ns.netThreadNum.toInt_lt
  have hzero : (-1 : UInt64) + 1 = 0 := by decide
  refine ⟨?_, ?_, ?_, ?_⟩
  · rw [ready_eq h]
    exact eq_ofNat_of_pos hpos
  · rw [ready_eq h]
    show ((-1 : UInt64) + 1).toNat % _ = _
    rw [hzero]
    rfl
  · intro i hi
    exact table_foldl_store hi (by omega) _
  · intro w _
    rw [ready_eq h]
    show 0 = _
    rw [Nat.zero_div, Nat.zero_mod, if_neg (Nat.not_lt_zero w)]

/-- Any other number divides by zero or meets an empty table. -/
theorem assign_ready_of_not_pos (hpos : ¬ 0 < ns.netThreadNum.toInt) : (ready listenPort ns).assign = none := by
  have htable : (ready listenPort ns).table = fun _ => none := by
    have hempty : ns.netThreadNum.toInt.toNat = 0 := by omega
    unfold ready threadInit
    rw [hempty]
    unfold netPreSetParameter
    split <;> rfl
  unfold assign
  cases (ready listenPort ns).threadIdx with
  | none => rfl
  | some idx => simp only [htable]

theorem calls_of_not_assigns {cs : List Call} (hcs : ∀ c ∈ cs, ¬ c.Assigns) (s : Workers) :
    s.calls cs = some s := by
  induction cs with
  | nil => rfl
  | cons c cs ih =>
    rw [calls, call_of_not_assigns (hcs c List.mem_cons_self)]
    exact ih fun d hd => hcs d (List.mem_cons_of_mem c hd)

/-- The first call that gets to the choice dies. -/
theorem calls_of_assign_none {cs : List Call} (hs : s.assign = none)
    (hcs : ∃ c ∈ cs, c.Assigns) : s.calls cs = none := by
  induction cs with
  | nil => simp at hcs
  | cons c cs ih =>
    by_cases hc : c.Assigns
    · rw [calls, call_of_assigns hc, hs]
      rfl
    · rw [calls, call_of_not_assigns hc]
      apply ih
      obtain ⟨d, hd, hda⟩ := hcs
      rcases List.mem_cons.mp hd with rfl | hd
      · exact absurd hda hc
      · exact ⟨d, hd, hda⟩

end Workers

/-- **Round robin, exactly.**  With settings that were accepted, any calls keep the workers in turn if
and only if the number of threads is positive, or no call gets to the choice of a worker. -/
theorem inTurn_iff {listenPort : Int32} {ns : NetSetting}
    (h : ((start listenPort).netPreSetParameter ns).1 = true) (cs : List Call) :
    InTurn (ready listenPort ns) cs ↔ 0 < ns.netThreadNum ∨ ∀ c ∈ cs, ¬ c.Assigns := by
  have hsetting : (ready listenPort ns).setting = ns := by rw [ready_eq h]
  have hlt := ns.netThreadNum.toInt_lt
  have hpos : 0 < ns.netThreadNum ↔ 0 < ns.netThreadNum.toInt := Int32.lt_iff_toInt_lt
  unfold InTurn
  rw [hpos, hsetting]
  constructor
  · intro hturn
    by_contra hno
    rw [not_or] at hno
    obtain ⟨t, ht, -⟩ := hturn cs.length
    have hdies : (ready listenPort ns).calls cs = none := by
      apply calls_of_assign_none (assign_ready_of_not_pos hno.1)
      simpa using hno.2
    rw [List.take_length, hdies] at ht
    cases ht
  · rintro (hthreads | hcs) k
    · obtain ⟨m, t, ht, hturn⟩ :=
        (turn_ready h hthreads).calls (by omega) (by omega) (cs.take k)
      exact ⟨t, ht, fun v w hv hw => hturn.fair (by omega) (by omega)⟩
    · refine ⟨ready listenPort ns,
        calls_of_not_assigns (fun c hc => hcs c (List.mem_of_mem_take hc)) _, fun v w _ _ => ?_⟩
      rw [ready_eq h]
      exact Nat.zero_le _

/-- Three workers, and a connection that could not be allocated in between. -/
theorem inTurn_threeThreads :
    InTurn (ready 8000 ⟨1024, "127.0.0.1", 8000, 3⟩)
      [.giveWorkerNewConn true, .giveWorkerNewConn false, .pushWorkerNewConn true] :=
  (inTurn_iff (by decide) _).mpr (.inl (by decide))

/-- **No threads are accepted**, and the first connection divides by zero. -/
theorem not_inTurn_noThreads :
    ((start 8000).netPreSetParameter ⟨1024, "127.0.0.1", 8000, 0⟩).1 = true ∧
      ¬ InTurn (ready 8000 ⟨1024, "127.0.0.1", 8000, 0⟩) [.giveWorkerNewConn true] := by
  refine ⟨by decide, fun h => ?_⟩
  obtain ⟨t, ht, -⟩ := h 1
  have hdies : (ready 8000 ⟨1024, "127.0.0.1", 8000, 0⟩).calls [.giveWorkerNewConn true] = none :=
    rfl
  have hcalls := hdies.symm.trans ht
  cases hcalls

end GoFight.Net
