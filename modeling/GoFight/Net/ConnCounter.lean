import Mathlib.Algebra.BigOperators.Intervals
import Mathlib.Algebra.Order.BigOperators.Group.Finset
import GoFight.Net.SocketClose

/-!
# The connection counter

`s_gns_stat.curr_conns_` against `s_conns_map`.  Each worker's connections are counted with it: those
in `thread_connections_`, and the one `thread_libevent_process` has in hand.

* `SockWorker.counted`, `SockWorker.mapped` — how many of a worker's connections the counter and
  the map have;
* `CountsOnce` — the condition on a step: the accept loop does not count, and no descriptor is closed
  that was handed out again;
* `Tally` — the invariant; `counterExact_of_reach` — the run theorem.
-/

namespace GoFight.Net

open GoFight.Lib

/-- How many of its connections have been counted and not uncounted. -/
def SockWorker.counted (t : SockWorker) : ℕ :=
  match t.pc with
  | .counted _ _ => t.threadConnections.length + 1
  | .sweep _ removeIds => t.threadConnections.length - removeIds.length
  | .erasing _ _ removeIds => t.threadConnections.length - removeIds.length
  | .closeDup _ _ removeIds => t.threadConnections.length - removeIds.length
  | .closeSock _ _ removeIds => t.threadConnections.length - removeIds.length
  | .uncount _ _ removeIds => t.threadConnections.length - removeIds.length
  | .removing removeIds => t.threadConnections.length - removeIds.length
  | _ => t.threadConnections.length

/-- How many of them are in `s_conns_map`. -/
def SockWorker.mapped (t : SockWorker) : ℕ :=
  match t.pc with
  | .mapped _ _ => t.threadConnections.length + 1
  | .counted _ _ => t.threadConnections.length + 1
  | .sweep _ removeIds => t.threadConnections.length - removeIds.length
  | .erasing _ _ removeIds => t.threadConnections.length - removeIds.length
  | .closeDup _ _ removeIds => t.threadConnections.length - (removeIds.length + 1)
  | .closeSock _ _ removeIds => t.threadConnections.length - (removeIds.length + 1)
  | .uncount _ _ removeIds => t.threadConnections.length - (removeIds.length + 1)
  | .removing removeIds => t.threadConnections.length - removeIds.length
  | _ => t.threadConnections.length

/-- The two differ by at most one connection. -/
theorem SockWorker.counted_le (t : SockWorker) : t.counted ≤ t.mapped + 1 := by
  cases hp : t.pc <;> simp only [counted, mapped, hp] <;> omega

namespace Sockets

variable {s s' : Sockets}

/-- The accept loop does not count in the step, and the second `close` behind a failed `create_conn`
closes nothing. -/
def CountsOnce (s : Sockets) : SockAct → Prop
  | .count => False
  | a => s.ClosesOwn a

instance (s : Sockets) (a : SockAct) : Decidable (s.CountsOnce a) := by
  unfold CountsOnce
  split <;> infer_instance

theorem CountsOnce.closesOwn {a : SockAct} (h : s.CountsOnce a) : s.ClosesOwn a := by
  cases a with
  | worker w e => exact h
  | _ => trivial

/-! ### Sums over the workers -/

theorem modWorker_worker' (s : Sockets) (w v : ℕ) (g : SockWorker → SockWorker) :
    (s.modWorker w g).worker v = if v = w then g (s.worker w) else s.worker v := by
  rw [modWorker_worker]
  split
  · next hv => rw [hv]
  · rfl

/-- How many connections the workers have, in the sense of `f`. -/
def total (s : Sockets) (f : SockWorker → ℕ) : ℕ :=
  ∑ v ∈ Finset.range s.threadNum, f (s.worker v)

/-- Only the worker `w` changes: its share goes, and the new one comes. -/
theorem total_update (f : SockWorker → ℕ) {w : ℕ} {t : SockWorker} (hw : w < s.threadNum)
    (hnum : s'.threadNum = s.threadNum)
    (hworker : ∀ v, s'.worker v = if v = w then t else s.worker v) :
    ∃ rest, s.total f = rest + f (s.worker w) ∧ s'.total f = rest + f t := by
  have hmem : w ∈ Finset.range s.threadNum := Finset.mem_range.mpr hw
  have hrest : ∑ v ∈ (Finset.range s.threadNum).erase w, f (s'.worker v) =
      ∑ v ∈ (Finset.range s.threadNum).erase w, f (s.worker v) := by
    refine Finset.sum_congr rfl fun v hv => ?_
    rw [hworker, if_neg (Finset.ne_of_mem_erase hv)]
  have hself : s'.worker w = t := by rw [hworker, if_pos rfl]
  refine ⟨∑ v ∈ (Finset.range s.threadNum).erase w, f (s.worker v), ?_, ?_⟩
  · exact (Finset.sum_erase_add _ _ hmem).symm
  · rw [← hrest, ← hself, total, hnum]
    exact (Finset.sum_erase_add _ _ hmem).symm

/-! ### The size of `s_conns_map` -/

theorem connCount_insert {f : ℕ} (hf : f < s.openMax) (hnone : s.connsMap f = none) (a : Addr) :
    (s.setMap f (some a)).connCount = s.connCount + 1 := by
  have hset : ((Finset.range s.openMax).filter fun g => ((s.setMap f (some a)).connsMap g).isSome) =
      insert f ((Finset.range s.openMax).filter fun g => (s.connsMap g).isSome) := by
    ext g
    simp only [Finset.mem_filter, Finset.mem_insert, Finset.mem_range, setMap_connsMap]
    by_cases hg : g = f
    · simp [hg, hf]
    · simp [hg]
  show Finset.card _ = _
  rw [show (s.setMap f (some a)).openMax = s.openMax from rfl, hset, Finset.card_insert_of_notMem]
  · rfl
  · simp [hnone]

theorem connCount_erase {f : ℕ} {a : Addr} (hf : f < s.openMax) (hsome : s.connsMap f = some a) :
    (s.setMap f none).connCount + 1 = s.connCount := by
  have hset : ((Finset.range s.openMax).filter fun g => ((s.setMap f none).connsMap g).isSome) =
      ((Finset.range s.openMax).filter fun g => (s.connsMap g).isSome).erase f := by
    ext g
    simp only [Finset.mem_filter, Finset.mem_erase, Finset.mem_range, setMap_connsMap]
    by_cases hg : g = f
    · simp [hg]
    · simp [hg]
  have hmem : f ∈ (Finset.range s.openMax).filter fun g => (s.connsMap g).isSome := by
    simp [hf, hsome]
  show Finset.card _ + 1 = _
  rw [show (s.setMap f none).openMax = s.openMax from rfl, hset]
  exact Finset.card_erase_add_one hmem

theorem connCount_le (s : Sockets) : s.connCount ≤ s.openMax := by
  unfold connCount
  exact (Finset.card_filter_le _ _).trans (Finset.card_range _).le

/-! ### The invariant -/

/-- The listening connection and the workers' are counted, and are in the map. -/
structure Tally (s : Sockets) : Prop where
  count : s.currConns = UInt64.ofNat (1 + s.total SockWorker.counted)
  size : s.connCount = 1 + s.total SockWorker.mapped
  small : s.openMax + s.threadNum < 2 ^ 64

/-- Nothing that is counted changes. -/
theorem Tally.congr (h : s.Tally) (hcurr : s'.currConns = s.currConns)
    (hmap : s'.connsMap = s.connsMap) (hmax : s'.openMax = s.openMax)
    (hnum : s'.threadNum = s.threadNum) (hworker : s'.worker = s.worker) : s'.Tally := by
  refine ⟨?_, ?_, by rw [hmax, hnum]; exact h.small⟩
  · rw [hcurr, h.count, total, total, hnum, hworker]
  · have hsize := h.size
    rw [connCount, total] at hsize ⊢
    rw [hmax, hmap, hnum, hworker, hsize]

/-- The worker `w` takes a step, and the counter and the map follow its share. -/
theorem Tally.follow (h : s.Tally) {w : ℕ} {t : SockWorker} (hw : w < s.threadNum)
    (hworker : ∀ v, s'.worker v = if v = w then t else s.worker v)
    (hcurr : ∀ n, s.currConns = UInt64.ofNat (n + (s.worker w).counted) →
      s'.currConns = UInt64.ofNat (n + t.counted))
    (hsize : ∀ n, s.connCount = n + (s.worker w).mapped → s'.connCount = n + t.mapped)
    (hmax : s'.openMax = s.openMax) (hnum : s'.threadNum = s.threadNum) : s'.Tally := by
  obtain ⟨n, hold, hnew⟩ := total_update SockWorker.counted hw hnum hworker
  obtain ⟨m, hold', hnew'⟩ := total_update SockWorker.mapped hw hnum hworker
  have hc := h.count
  have hm := h.size
  rw [hold, ← Nat.add_assoc] at hc
  rw [hold', ← Nat.add_assoc] at hm
  refine ⟨?_, ?_, by rw [hmax, hnum]; exact h.small⟩
  · rw [hnew, ← Nat.add_assoc]
    exact hcurr _ hc
  · rw [hnew', ← Nat.add_assoc]
    exact hsize _ hm

/-- The worker `w` goes on, and has as many connections as before. -/
theorem Tally.goOn (h : s.Tally) {w : ℕ} {t : SockWorker} (hw : w < s.threadNum)
    (hworker : ∀ v, s'.worker v = if v = w then t else s.worker v)
    (hcounted : t.counted = (s.worker w).counted) (hmapped : t.mapped = (s.worker w).mapped)
    (hcurr : s'.currConns = s.currConns) (hmap : s'.connsMap = s.connsMap)
    (hmax : s'.openMax = s.openMax) (hnum : s'.threadNum = s.threadNum) : s'.Tally := by
  refine h.follow hw hworker (fun n hn => ?_) (fun n hn => ?_) hmax hnum
  · rw [hcurr, hcounted, hn]
  · rw [hmapped, ← hn, connCount, connCount, hmax, hmap]

/-- Only its program point changes. -/
theorem Tally.setPc (h : s.Tally) {w : ℕ} {q : SockPc} (hw : w < s.threadNum)
    (hworker : s'.worker = (s.setPc w q).worker)
    (hcounted : { s.worker w with pc := q : SockWorker }.counted = (s.worker w).counted)
    (hmapped : { s.worker w with pc := q : SockWorker }.mapped = (s.worker w).mapped)
    (hcurr : s'.currConns = s.currConns) (hmap : s'.connsMap = s.connsMap)
    (hmax : s'.openMax = s.openMax) (hnum : s'.threadNum = s.threadNum) : s'.Tally := by
  refine h.goOn hw (fun v => ?_) hcounted hmapped hcurr hmap hmax hnum
  rw [hworker, setPc_worker]
  split
  · next hv => rw [hv]
  · rfl

/-- What the sweep has in hand is less than what is registered. -/
theorem Good.length_lt (h : s.Good) {w : ℕ} {p : SockPc} {a : Addr} {todo removeIds : List Addr}
    (hp : (s.worker w).pc = p) (haddrs : p.addrs = a :: (todo ++ removeIds)) :
    removeIds.length < (s.worker w).threadConnections.length := by
  have hsub := (h.sweep w).subset
  have hnd := (h.sweep w).nodup
  rw [hp, haddrs] at hsub hnd
  have hle := (hnd.subperm hsub).length_le
  simp only [List.length_cons, List.length_append] at hle
  omega

theorem length_filter_of_subset {l r : List Addr} (hnd : l.Nodup) (hr : r.Nodup) (hsub : r ⊆ l) :
    (l.filter (· ∉ r)).length = l.length - r.length := by
  have hsplit : (l.filter (· ∈ r)).Perm r := by
    refine (List.perm_ext_iff_of_nodup (hnd.filter _) hr).mpr fun b => ?_
    simp only [List.mem_filter, decide_eq_true_eq]
    exact ⟨fun hb => hb.2, fun hb => ⟨hsub hb, hb⟩⟩
  have hsum := List.length_eq_length_filter_add (l := l) (fun b => decide (b ∈ r))
  have hnot : (l.filter fun b => !decide (b ∈ r)) = l.filter (· ∉ r) := by
    refine List.filter_congr fun b _ => ?_
    simp
  rw [hsplit.length_eq, hnot] at hsum
  omega

theorem Tally.giveUp (h : s.Tally) {w : ℕ} {ci : SockInfo} (hw : w < s.threadNum)
    (hp : (s.worker w).pc = .failed ci) : (s.giveUp w ci).Tally := by
  unfold Sockets.giveUp
  split
  all_goals
    refine h.setPc hw rfl ?_ ?_ rfl rfl rfl rfl
    · simp only [SockWorker.counted, hp]
    · simp only [SockWorker.mapped, hp]

/-- `s_conns_map[sfd] = _ret`. -/
theorem Tally.mapConn (h : s.Tally) (hg : s.Good) {w : ℕ} {ci : SockInfo} {a : Addr}
    (hw : w < s.threadNum) (hp : (s.worker w).pc = .made ci a) :
    ((s.setMap ci.sfd (some a)).setPc w (.mapped ci a)).Tally := by
  obtain ⟨c, -, -, -, hos⟩ := hg.made hp
  have hlt : ci.sfd < s.openMax := hg.fds.lt (by rw [hos]; exact nofun)
  refine h.follow hw (fun v => modWorker_worker' ..) (fun n hn => ?_) (fun n hn => ?_) rfl rfl
  · show s.currConns = _
    rw [hn]
    simp only [SockWorker.counted, hp]
    rfl
  · show (s.setMap ci.sfd (some a)).connCount = _
    rw [connCount_insert hlt (hg.not_key_of_made hp) a, hn]
    simp only [SockWorker.mapped, hp]
    rfl

/-- `++s_gns_stat.curr_conns_` in `create_conn`. -/
theorem Tally.countConn (h : s.Tally) {w : ℕ} {ci : SockInfo} {a : Addr} (hw : w < s.threadNum)
    (hp : (s.worker w).pc = .mapped ci a) :
    ({ s with currConns := s.currConns + 1 }.setPc w (.counted ci a)).Tally := by
  refine h.follow hw (fun v => modWorker_worker' ..) (fun n hn => ?_) (fun n hn => ?_) rfl rfl
  · show s.currConns + 1 = _
    rw [hn]
    simp only [SockWorker.counted, hp, ← Nat.add_assoc, UInt64.ofNat_add]
    rfl
  · show s.connCount = _
    rw [hn]
    simp only [SockWorker.mapped, hp]

/-- `thread_connections_[conn] = conn`. -/
theorem Tally.register (h : s.Tally) {w : ℕ} {ci : SockInfo} {a : Addr} (hw : w < s.threadNum)
    (hp : (s.worker w).pc = .counted ci a) : (s.register w a).Tally := by
  refine h.goOn hw (fun v => modWorker_worker' ..) ?_ ?_ rfl rfl rfl rfl
  · simp only [SockWorker.counted, hp, List.length_cons]
    rfl
  · simp only [SockWorker.mapped, hp, List.length_cons]
    rfl

/-- The erase from `s_conns_map`. -/
theorem Tally.eraseConn (h : s.Tally) (hg : s.Good) {w : ℕ} {a : Addr} {c : Socket}
    {todo removeIds : List Addr} (hw : w < s.threadNum)
    (hp : (s.worker w).pc = .erasing a todo removeIds) (hc : s.heap a = some c) :
    ((s.eraseConn c).setPc w (.closeDup a todo removeIds)).Tally := by
  have hlen := hg.length_lt hp rfl
  obtain ⟨f, hsfd, hmap⟩ := hg.key_of_erasing hp hc
  have hlt : f < s.openMax := hg.fds.lt (by rw [hg.os_of_entry hmap]; exact nofun)
  have hsize := connCount_erase hlt hmap
  have herase : s.eraseConn c = s.setMap f none := by simp only [Sockets.eraseConn, hsfd]
  rw [herase]
  refine h.follow hw (fun v => modWorker_worker' ..) (fun n hn => ?_) (fun n hn => ?_) rfl rfl
  · show s.currConns = _
    rw [hn]
    simp only [SockWorker.counted, hp]
    rfl
  · show (s.setMap f none).connCount = _
    simp only [SockWorker.mapped, hp] at hn
    show _ = n + ((s.worker w).threadConnections.length - (removeIds.length + 1))
    omega

/-- `--s_gns_stat.curr_conns_`. -/
theorem Tally.uncount (h : s.Tally) (hg : s.Good) {w : ℕ} {a : Addr}
    {todo removeIds : List Addr} (hw : w < s.threadNum)
    (hp : (s.worker w).pc = .uncount a todo removeIds) :
    ({ s with currConns := s.currConns - 1 }.setPc w (.sweep todo (removeIds ++ [a]))).Tally := by
  have hlen := hg.length_lt hp rfl
  refine h.follow hw (fun v => modWorker_worker' ..) (fun n hn => ?_) (fun n hn => ?_) rfl rfl
  · show s.currConns - 1 = _
    have hsucc : n + (s.worker w).counted =
        n + ((s.worker w).threadConnections.length - (removeIds.length + 1)) + 1 := by
      simp only [SockWorker.counted, hp]
      omega
    rw [hn, hsucc, UInt64.ofNat_add]
    simp only [SockWorker.counted, List.length_append, List.length_singleton]
    exact UInt64.add_sub_cancel _ _
  · show s.connCount = _
    rw [hn]
    simp only [SockWorker.mapped, hp, List.length_append, List.length_singleton]

/-- The swept connections leave `thread_connections_`. -/
theorem Tally.removeSwept (h : s.Tally) (hg : s.Good) {w : ℕ} {removeIds : List Addr}
    (hw : w < s.threadNum) (hp : (s.worker w).pc = .removing removeIds) :
    (s.removeSwept w removeIds).Tally := by
  have hlen : ((s.worker w).threadConnections.filter (· ∉ removeIds)).length =
      (s.worker w).threadConnections.length - removeIds.length := by
    have hsub := (hg.sweep w).subset
    have hnd := (hg.sweep w).nodup
    rw [hp] at hsub hnd
    exact length_filter_of_subset (hg.objs.placed.nodup (.registered w)) hnd hsub
  refine h.goOn hw (fun v => modWorker_worker' ..) ?_ ?_ rfl rfl rfl rfl
  · simp only [SockWorker.counted, hp]
    exact hlen
  · simp only [SockWorker.mapped, hp]
    exact hlen

/-! ### Every step -/

/-- The worker `w` goes on, and the lists of connections are as before. -/
theorem Tally.keep (h : s.Tally) {w : ℕ} {g : SockWorker → SockWorker} (hw : w < s.threadNum)
    (hworker : s'.worker = (s.modWorker w g).worker)
    (hcounted : (g (s.worker w)).counted = (s.worker w).counted)
    (hmapped : (g (s.worker w)).mapped = (s.worker w).mapped) (hcurr : s'.currConns = s.currConns)
    (hmap : s'.connsMap = s.connsMap) (hmax : s'.openMax = s.openMax)
    (hnum : s'.threadNum = s.threadNum) : s'.Tally := by
  refine h.goOn hw (fun v => ?_) hcounted hmapped hcurr hmap hmax hnum
  rw [hworker]
  exact modWorker_worker' ..

theorem counted_give (ci : SockInfo) (t : SockWorker) : (t.give ci).counted = t.counted := rfl

theorem mapped_give (ci : SockInfo) (t : SockWorker) : (t.give ci).mapped = t.mapped := rfl

theorem Tally.workerStep {w : ℕ} {e : SockEvent} (h : s.Tally) (hg : s.Good) (hw : w < s.threadNum)
    (hs : s.workerStep w (s.worker w).pc e = some s') : s'.Tally := by
  unfold Sockets.workerStep at hs
  split at hs
  case h_1 v hp =>
    split at hs
    · split at hs
      · next hv =>
        cases hs
        exact h.keep hv rfl (counted_give _ _) (mapped_give _ _) rfl rfl rfl rfl
      · cases hs
    · cases hs
  case h_2 hp =>
    split at hs
    · cases hs
    · cases hs
      split
      all_goals
        refine h.keep hw rfl ?_ ?_ rfl rfl rfl rfl
        · simp only [SockWorker.counted, SockWorker.pop, hp]
        · simp only [SockWorker.mapped, SockWorker.pop, hp]
  case h_3 ci hp =>
    cases hs
    split
    all_goals
      refine h.setPc hw rfl ?_ ?_ rfl rfl rfl rfl
      · simp only [SockWorker.counted, hp]
      · simp only [SockWorker.mapped, hp]
  case h_4 ci dup added fresh hp =>
    unfold Sockets.createConn at hs
    split at hs
    · split at hs
      all_goals
        cases hs
        refine h.setPc hw rfl ?_ ?_ rfl rfl rfl rfl
        · simp only [SockWorker.counted, hp]
        · simp only [SockWorker.mapped, hp]
    · cases hs
  case h_5 ci hp =>
    refine absurd ?_ (hg.accepts w)
    rw [hp]
    trivial
  case h_6 ci hp =>
    cases hs
    exact h.giveUp hw hp
  case h_7 ci a hp =>
    cases hs
    exact h.mapConn hg hw hp
  case h_8 ci a hp =>
    cases hs
    exact h.countConn hw hp
  case h_9 ci a hp =>
    rw [if_neg (hg.not_twice hp)] at hs
    cases hs
    exact h.register hw hp
  case h_10 ci a hp =>
    refine absurd ?_ (hg.accepts w)
    rw [hp]
    trivial
  case h_11 hp =>
    cases hs
    refine h.setPc hw rfl ?_ ?_ rfl rfl rfl rfl
    · simp [SockWorker.counted, hp]
    · simp [SockWorker.mapped, hp]
  case h_12 a todo removeIds closed hp =>
    cases hs
    cases closed
    all_goals
      refine h.setPc hw rfl ?_ ?_ rfl rfl rfl rfl
      · simp [SockWorker.counted, hp]
      · simp [SockWorker.mapped, hp]
  case h_13 a todo removeIds hp =>
    obtain ⟨c, hcon, rfl⟩ := Option.map_eq_some_iff.mp hs
    exact h.eraseConn hg hw hp hcon
  case h_14 a todo removeIds hp =>
    obtain ⟨c, -, rfl⟩ := Option.map_eq_some_iff.mp hs
    unfold Sockets.closeDupOf
    split
    all_goals
      refine h.setPc hw rfl ?_ ?_ rfl rfl rfl rfl
      · simp only [SockWorker.counted, hp]
      · simp only [SockWorker.mapped, hp]
  case h_15 a todo removeIds hp =>
    obtain ⟨c, -, rfl⟩ := Option.map_eq_some_iff.mp hs
    unfold Sockets.closeSockOf
    split
    all_goals
      refine h.setPc hw rfl ?_ ?_ rfl rfl rfl rfl
      · simp only [SockWorker.counted, hp]
      · simp only [SockWorker.mapped, hp]
  case h_16 a todo removeIds hp =>
    cases hs
    exact h.uncount hg hw hp
  case h_17 removeIds hp =>
    cases hs
    refine h.setPc hw rfl ?_ ?_ rfl rfl rfl rfl
    · simp only [SockWorker.counted, hp]
    · simp only [SockWorker.mapped, hp]
  case h_18 removeIds hp =>
    cases hs
    exact h.removeSwept hg hw hp
  case h_19 a hp =>
    split at hs
    · cases hs
      exact h.keep (g := fun t => { t with forDelete := t.forDelete.erase a }) hw rfl rfl rfl rfl rfl
        rfl rfl
    · cases hs
  case h_20 => cases hs

/-- **Every step that counts once keeps the tally.** -/
theorem Tally.step {a : SockAct} (h : s.Tally) (hg : s.Good) (hc : s.CountsOnce a)
    (hs : s.step a = some s') : s'.Tally := by
  cases a with
  | count => exact hc.elim
  | worker w e =>
    simp only [Sockets.step, Option.ite_none_right_eq_some] at hs
    exact h.workerStep hg hs.1 hs.2
  | acceptFail =>
    simp only [Sockets.step] at hs
    split at hs
    · cases hs
      exact h.congr rfl rfl rfl rfl rfl
    · cases hs
  | give v =>
    simp only [Sockets.step] at hs
    split at hs
    · split at hs
      · next hv =>
        cases hs
        exact h.keep hv rfl (counted_give _ _) (mapped_give _ _) rfl rfl rfl rfl
      · cases hs
    · cases hs
  | accept fd | dial fd | dialFail fd | dialed fd a | otherOpen fd | otherClose fd =>
    simp only [Sockets.step, Option.ite_none_right_eq_some, Option.some.injEq] at hs
    obtain ⟨-, rfl⟩ := hs
    exact h.congr rfl rfl rfl rfl rfl

theorem tally_start {threadNum openMax fd : ℕ} {a : Addr} {others : List ℕ}
    (hnum : (threadNum : ℤ) ≤ intMax) (hmax : (openMax : ℤ) ≤ intMax) (hfd : fd < openMax) :
    (start threadNum openMax fd a others).Tally := by
  have hzero : ∀ f : SockWorker → ℕ, f ⟨.loop, [], [], []⟩ = 0 →
      (start threadNum openMax fd a others).total f = 0 :=
    fun f hf => Finset.sum_eq_zero fun _ _ => hf
  refine ⟨?_, ?_, ?_⟩
  · rw [hzero _ rfl]
    rfl
  · rw [hzero _ rfl]
    have hone : ((Finset.range openMax).filter fun g =>
        ((if g = fd then some a else none : Option Addr)).isSome) = {fd} := by
      ext g
      rw [Finset.mem_filter, Finset.mem_range, Finset.mem_singleton]
      constructor
      · intro hg
        split at hg
        · next hgf => exact hgf
        · exact absurd hg.2 nofun
      · intro hg
        rw [if_pos hg]
        exact ⟨hg ▸ hfd, rfl⟩
    show Finset.card _ = 1
    exact (congrArg Finset.card hone).trans (Finset.card_singleton fd)
  · show openMax + threadNum < 2 ^ 64
    rw [intMax] at hnum hmax
    omega

/-! ### What the tally says -/

theorem total_counted_le (s : Sockets) :
    s.total SockWorker.counted ≤ s.total SockWorker.mapped + s.threadNum := by
  have hsum : s.total SockWorker.counted ≤
      ∑ v ∈ Finset.range s.threadNum, ((s.worker v).mapped + 1) :=
    Finset.sum_le_sum fun v _ => (s.worker v).counted_le
  rw [Finset.sum_add_distrib] at hsum
  simpa [total] using hsum

/-- The counter has not wrapped. -/
theorem Tally.toNat (h : s.Tally) : s.currConns.toNat = 1 + s.total SockWorker.counted := by
  have hle := s.total_counted_le
  have hmax := s.connCount_le
  have hsize := h.size
  have hsmall := h.small
  rw [h.count]
  exact UInt64.toNat_ofNat_of_lt' (show _ < 2 ^ 64 by omega)

/-- **The counter is exact.** -/
theorem Tally.counterExact (h : s.Tally) : s.CounterExact := by
  refine ⟨fun hrest => ?_, fun hp => ?_⟩
  · have heq : s.total SockWorker.counted = s.total SockWorker.mapped := by
      refine Finset.sum_congr rfl fun v hmem => ?_
      have hv := hrest v (Finset.mem_range.mp hmem)
      cases hpc : (s.worker v).pc <;>
        simp only [hpc] at hv <;> simp only [SockWorker.counted, SockWorker.mapped, hpc]
    rw [h.toNat, heq, h.size]
  · intro hzero
    have hn := h.toNat
    rw [hzero] at hn
    have hz : (0 : UInt64).toNat = 0 := rfl
    omega

end Sockets

/-- **The connection counter**, in every run in which the accept loop does not count and no second
`close` hits a descriptor that was handed out again. -/
theorem counterExact_of_reach {s : Sockets} (h : socketSystem.Reach Sockets.CountsOnce s) :
    s.CounterExact := by
  have hinv : s.Good ∧ s.Tally := by
    refine h.invariant (P := fun s => s.Good ∧ s.Tally) ?_ fun s a s' hi hc hs => ?_
    · rintro s ⟨threadNum, openMax, fd, a, others, hnum, hmax, hfd, ha, hnot, hnd, hlt, rfl⟩
      exact ⟨Sockets.good_start hfd ha hnot hnd hlt, Sockets.tally_start hnum hmax hfd⟩
    · exact ⟨hi.1.step hc.closesOwn hs, hi.2.step hi.1 hc hs⟩
  exact hinv.2.counterExact

/-- A connection of `net_connect` is set up. -/
def upstreamDialed : List SockAct :=
  [.dial 4, .dialed 4 64, .worker 0 (.connector 0), .worker 0 .notified, .worker 0 .go,
    .worker 0 (.create (some 5) true 0), .worker 0 .go, .worker 0 .go, .worker 0 .go]

theorem counterExact_upstreamDialed : ∃ s,
    socketSystem.exec (.start 1 16 3 32 [0, 1, 2]) upstreamDialed = some s ∧
      s.currConns = 2 ∧ s.CounterExact := by
  obtain ⟨s, hs, hcurr⟩ : ∃ s,
      socketSystem.exec (.start 1 16 3 32 [0, 1, 2]) upstreamDialed = some s ∧
        s.currConns = 2 := by
    refine Option.map_eq_some_iff.mp ?_
    decide +kernel
  have hc : socketSystem.AllSteps Sockets.CountsOnce (.start 1 16 3 32 [0, 1, 2])
      upstreamDialed := by
    decide +kernel
  refine ⟨s, hs, hcurr, counterExact_of_reach (.of_exec (.start ?_) hc hs)⟩
  exact ⟨1, 16, 3, 32, [0, 1, 2], by decide, by decide, by decide, by decide, by decide, by decide,
    by decide, rfl⟩

/-- A client is accepted, counted, and registered. -/
def clientCounted : List SockAct :=
  [.accept 4, .give 0, .count, .worker 0 .notified, .worker 0 .go,
    .worker 0 (.create (some 5) true 64), .worker 0 .go, .worker 0 .go, .worker 0 .go]

/-- **The accept loop and `create_conn` both count it.** -/
theorem not_counterExact_clientCounted : ∃ s,
    socketSystem.Reach Lts.Free s ∧ ¬ s.CounterExact := by
  obtain ⟨s, hs, hend⟩ : ∃ s,
      socketSystem.exec (.start 1 16 3 32 [0, 1, 2]) clientCounted = some s ∧
        (s.threadNum, (s.worker 0).pc, s.currConns, s.connCount) = (1, .loop, 3, 2) := by
    refine Option.map_eq_some_iff.mp ?_
    decide +kernel
  simp only [Prod.mk.injEq] at hend
  obtain ⟨hnum, hpc, hcurr, hcount⟩ := hend
  refine ⟨s, .of_exec (.start ?_) (Lts.allSteps_free _ _) hs, fun h => ?_⟩
  · exact ⟨1, 16, 3, 32, [0, 1, 2], by decide, by decide, by decide, by decide, by decide,
      by decide, by decide, rfl⟩
  · have hrest : s.AtRest := by
      intro w hw
      rw [hnum, Nat.lt_one_iff] at hw
      rw [hw, hpc]
      trivial
    have heq := h.exact hrest
    rw [hcurr, hcount] at heq
    exact absurd heq (by decide)

end GoFight.Net
