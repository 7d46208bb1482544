import GoFight.Net.Fate

/-!
# The close sweep ends

Once in an iteration `data_thread_worker` walks over `thread_connections_`, queues a notice for each
connection it finds closed, and erases these connections when it is through.  The walk does not
advance over a closed connection for which `get_msgnode` makes no node.

* `visits` — the connections a worker comes to in a run, and which of them it finds closed;
* `SweepExact` — each connection is visited once, the walk ends, and what was found closed is gone;
* `SweepStep`, `step_sweep` — what a step does to a worker in the sweep;
* `sweepExact_iff` — the walk is exact if and only if `Shutdown::Req` is registered whenever a closed
  connection is visited (`Announces`), whatever the other threads do meanwhile.
-/

namespace GoFight.Net

open GoFight.Lib

variable {Cls Msg : Type*}

/-! ### Where the sweep is -/

/-- In the sweep, up to the erasing of `remove_ids`. -/
def Phase.sweeping : Phase → Bool
  | .sweep _ _ => true
  | .closing _ _ _ => true
  | .erase _ => true
  | _ => false

/-- What the sweep has still to visit. -/
def Phase.toVisit : Phase → List Addr
  | .sweep todo _ => todo
  | .closing _ todo _ => todo
  | _ => []

/-- What the sweep has found closed. -/
def Phase.picked : Phase → List Addr
  | .sweep _ removeIds => removeIds
  | .closing a _ removeIds => removeIds ++ [a]
  | .erase removeIds => removeIds
  | _ => []

/-- How many steps of its own the worker has still to take in the sweep, at most. -/
def Phase.sweepLeft : Phase → ℕ
  | .sweep todo _ => 2 * todo.length + 2
  | .closing _ todo _ => 2 * todo.length + 3
  | .erase _ => 1
  | _ => 0

/-- A step of worker `w`. -/
def Act.ofWorker (w : ℕ) : Act Cls Msg → Bool
  | .worker v _ => v = w
  | _ => false

namespace Layer

/-- The connection worker `w` comes to in a step, and whether it finds it closed. -/
def visit (s : Layer Cls Msg) (w : ℕ) : Act Cls Msg → List (Addr × Bool)
  | .worker v _ =>
      if v = w then
        match (s.worker w).phase with
        | .sweep (a :: _) _ => [(a, (s.heap a).map Connection.state = some .close)]
        | _ => []
      else []
  | _ => []

/-- The visits of worker `w` in a run from `s`. -/
def visits (G : Generated Cls Msg) (w : ℕ) (s : Layer Cls Msg) :
    List (Act Cls Msg) → List (Addr × Bool)
  | [] => []
  | a :: as =>
      s.visit w a ++ match s.step G a with
        | none => []
        | some s' => visits G w s' as

/-- What the visits found closed. -/
def closedOf (l : List (Addr × Bool)) : List Addr := (l.filter Prod.snd).map Prod.fst

/-- Where worker `w` makes a notice, `Shutdown::Req` is registered. -/
def Announces (w : ℕ) (s : Layer Cls Msg) : Act Cls Msg → Prop
  | .worker v (.notice _) => v = w → (s.registry Protocol.messageShutdownReq).isSome = true
  | _ => True

instance decidableAnnounces (w : ℕ) (s : Layer Cls Msg) (a : Act Cls Msg) :
    Decidable (s.Announces w a) :=
  match a with
  | .worker v (.notice _) =>
      inferInstanceAs (Decidable (v = w → (s.registry Protocol.messageShutdownReq).isSome = true))
  | .worker _ .go | .worker _ (.push _) | .worker _ (.read _) | .worker _ (.write _)
  | .worker _ (.readEvent _) | .worker _ (.writeEvent _) | .worker _ (.notified _ _) | .accept _
  | .connect _ | .getMsgs _ | .send _ _ | .close _ | .clock _ | .regist _ _ => isTrue trivial

/-- Worker `w` is in the sweep. -/
def InSweep (w : ℕ) (s : Layer Cls Msg) (_ : Act Cls Msg) : Prop :=
  (s.worker w).phase.sweeping = true

instance decidableInSweep (w : ℕ) (s : Layer Cls Msg) (a : Act Cls Msg) :
    Decidable (s.InSweep w a) :=
  inferInstanceAs (Decidable (_ = true))

/-- What the run `as` from `s`, where the sweep begins, to `s'` says about the sweep. -/
structure SweepExact (G : Generated Cls Msg) (w : ℕ) (s : Layer Cls Msg) (as : List (Act Cls Msg))
    (s' : Layer Cls Msg) : Prop where
  /-- No connection is visited twice. -/
  distinct : ((s.visits G w as).map Prod.fst).Nodup
  /-- Every connection was visited or will be. -/
  once : (s.visits G w as).map Prod.fst ++ (s'.worker w).phase.toVisit =
    (s.worker w).threadConnections
  /-- The worker does not stay in the sweep for long, and is never stuck in it. -/
  bounded : as.countP (Act.ofWorker w) ≤ 2 * (s.worker w).threadConnections.length + 2
  awake : (s'.worker w).phase.sweeping = true → ∃ e, (s'.step G (.worker w e)).isSome
  /-- After the sweep exactly the connections it found closed are gone. -/
  removed : (s'.worker w).phase.sweeping = false → (s'.worker w).threadConnections =
    (s.worker w).threadConnections.filter (· ∉ closedOf (s.visits G w as))

variable {G : Generated Cls Msg} {s s' : Layer Cls Msg} {w : ℕ} {a : Act Cls Msg}

/-! ### Whose steps change `thread_connections_` -/

theorem conns_modWorker (s : Layer Cls Msg) (w : ℕ) {g : ThreadData Msg → ThreadData Msg}
    (hg : ∀ t, (g t).threadConnections = t.threadConnections) (v : ℕ) :
    ((s.modWorker w g).worker v).threadConnections = (s.worker v).threadConnections := by
  rw [modWorker_worker]
  split
  · exact hg _
  · rfl

theorem workerStep_conns {v : ℕ} {e : WorkerAct} (hv : w ≠ v) (hs : WorkerStep G s v e s') :
    (s'.worker w).threadConnections = (s.worker w).threadConnections := by
  have hother : ∀ (s : Layer Cls Msg) (g : ThreadData Msg → ThreadData Msg),
      (s.modWorker v g).worker w = s.worker w := fun s g => by rw [modWorker_worker, if_neg hv]
  cases hs with
  | read hp hc hr => rw [goto, hother, readStep_worker hr]
  | write hp hc he hr => rw [goto, hother, writeStep_worker hr]
  | push => exact conns_modWorker _ _ (g := .give _ _) (fun _ => rfl) w
  | drain => rw [drainStep, hother]
  | notice =>
    rw [noticeStep]
    split
    · rfl
    · rw [goto, hother, hother]
      rfl
  | callbackFail => rw [goto, hother, free_worker]
  | deleteFree => rw [hother, free_worker]
  | accepted => rw [registerConn, hother]; exact congrArg _ (hother s _)
  | connected => rw [goto, hother, registerConn, hother]; exact congrArg _ (hother s _)
  | refused => rw [goto, hother]; exact congrArg _ (hother s _)
  | _ => exact congrArg _ (hother _ _)

/-- Only its own steps change `thread_connections_` of a worker. -/
theorem step_conns (hs : s.step G a = some s') (ha : a.ofWorker w = false) :
    (s'.worker w).threadConnections = (s.worker w).threadConnections := by
  cases a with
  | worker v e =>
    simp only [Layer.step, Option.ite_none_right_eq_some] at hs
    refine workerStep_conns (fun hv => ?_) (workerStep_cases hs.2)
    rw [hv, Act.ofWorker, decide_eq_false_iff_not] at ha
    exact ha rfl
  | accept written =>
    simp only [Layer.step, Option.ite_none_right_eq_some, Option.some.injEq] at hs
    obtain ⟨-, rfl⟩ := hs
    exact conns_modWorker _ _ (g := .give _ _) (fun _ => rfl) w
  | getMsgs i =>
    simp only [Layer.step, Option.ite_none_right_eq_some, Option.some.injEq] at hs
    obtain ⟨-, rfl⟩ := hs
    exact conns_modWorker _ _ (g := fun t => { t with tdReadMsgs := [] }) (fun _ => rfl) w
  | send v it =>
    simp only [Layer.step, Option.ite_none_right_eq_some, Option.some.injEq] at hs
    obtain ⟨-, rfl⟩ := hs
    exact conns_modWorker _ _ (g := .queueWrite it) (fun _ => rfl) w
  | connect b =>
    simp only [Layer.step, Option.ite_none_right_eq_some, Option.some.injEq] at hs
    obtain ⟨-, rfl⟩ := hs
    rfl
  | close b =>
    obtain ⟨c, -, hs⟩ := Option.bind_eq_some_iff.mp hs
    simp only [Option.ite_none_right_eq_some, Option.some.injEq] at hs
    obtain ⟨-, rfl⟩ := hs
    rw [connClose_worker]
  | clock t | regist msgType init =>
    cases hs
    rfl

/-! ### A step -/

/-- What a step does to a worker in the sweep. -/
inductive SweepStep (w : ℕ) (s : Layer Cls Msg) (a : Act Cls Msg) (s' : Layer Cls Msg) : Prop
  /-- Another thread. -/
  | other (ha : a.ofWorker w = false) (hv : s.visit w a = [])
      (hp : (s'.worker w).phase = (s.worker w).phase)
      (hc : (s'.worker w).threadConnections = (s.worker w).threadConnections)
  /-- A visit. -/
  | visit {b closed} (hv : s.visit w a = [(b, closed)])
      (hto : (s.worker w).phase.toVisit = b :: (s'.worker w).phase.toVisit)
      (hpick : (s'.worker w).phase.picked = (s.worker w).phase.picked ++ closedOf [(b, closed)])
      (hleft : (s'.worker w).phase.sweepLeft < (s.worker w).phase.sweepLeft)
      (hsw : (s'.worker w).phase.sweeping = true)
      (hc : (s'.worker w).threadConnections = (s.worker w).threadConnections)
      (hok : s.Announces w a)
  /-- A visit that has to be made again. -/
  | stuck {b} (hv : s.visit w a = [(b, true)]) (hs : s' = s) (hbad : ¬s.Announces w a)
  /-- The rest of a visit, or the end of the walk. -/
  | move (hv : s.visit w a = []) (hto : (s.worker w).phase.toVisit = (s'.worker w).phase.toVisit)
      (hpick : (s'.worker w).phase.picked = (s.worker w).phase.picked)
      (hleft : (s'.worker w).phase.sweepLeft < (s.worker w).phase.sweepLeft)
      (hsw : (s'.worker w).phase.sweeping = true)
      (hc : (s'.worker w).threadConnections = (s.worker w).threadConnections)
      (hok : s.Announces w a)
  /-- What was found closed is erased. -/
  | erase (hv : s.visit w a = []) (hto : (s.worker w).phase.toVisit = [])
      (hto' : (s'.worker w).phase.toVisit = [])
      (hleft : (s'.worker w).phase.sweepLeft < (s.worker w).phase.sweepLeft)
      (hsw : (s'.worker w).phase.sweeping = false)
      (hc : (s'.worker w).threadConnections =
        (s.worker w).threadConnections.filter (· ∉ (s.worker w).phase.picked))
      (hok : s.Announces w a)

/-- The end of the walk. -/
theorem sweepStep_nil {e : WorkerAct} {removeIds : List Addr}
    (hp : (s.worker w).phase = .sweep [] removeIds) (hs : s.workerStep G w e = some s') :
    SweepStep w s (.worker w e) s' := by
  cases e with
  | go =>
    unfold workerStep at hs
    rw [hp] at hs
    simp only [Option.some.injEq] at hs
    subst hs
    have hgo : ((s.goto w (.erase removeIds)).worker w) =
        (s.worker w).goto (.erase removeIds) := by rw [goto_worker, if_pos rfl]
    refine .move ?_ ?_ ?_ ?_ ?_ ?_ trivial
    · simp only [Layer.visit, hp, if_true]
    · rw [hgo, hp]; rfl
    · rw [hgo, hp]; rfl
    · rw [hgo, hp]; exact Nat.one_lt_two
    · rw [hgo]; rfl
    · rw [hgo]; rfl
  | _ =>
    unfold workerStep at hs
    rw [hp] at hs
    cases hs

/-- The walk comes to a connection that is open. -/
theorem sweepStep_skip {b : Addr} {todo removeIds : List Addr}
    (hp : (s.worker w).phase = .sweep (b :: todo) removeIds)
    (hs : s.workerStep G w .go = some s') : SweepStep w s (.worker w .go) s' := by
  unfold workerStep at hs
  rw [hp] at hs
  simp only [Option.bind_eq_some_iff, Option.ite_none_left_eq_some,
    Option.some.injEq] at hs
  obtain ⟨c, hc, hst, rfl⟩ := hs
  have hgo : ((s.goto w (.sweep todo removeIds)).worker w) =
      (s.worker w).goto (.sweep todo removeIds) := by rw [goto_worker, if_pos rfl]
  have hv : s.visit w (.worker w .go) = [(b, false)] := by
    simp only [Layer.visit, hp, if_true, hc, Option.map_some, Option.some.injEq, hst,
      decide_false]
  refine .visit hv ?_ ?_ ?_ ?_ ?_ trivial
  · rw [hgo, hp]; rfl
  · rw [hgo, hp]; exact (List.append_nil _).symm
  · rw [hgo, hp]
    show 2 * todo.length + 2 < 2 * (todo.length + 1) + 2
    omega
  · rw [hgo]; rfl
  · rw [hgo]; rfl

/-- The walk comes to a connection that is closed. -/
theorem sweepStep_notice {b : Addr} {todo removeIds : List Addr} {junk : UInt64}
    (hp : (s.worker w).phase = .sweep (b :: todo) removeIds)
    (hs : s.workerStep G w (.notice junk) = some s') :
    SweepStep w s (.worker w (.notice junk)) s' := by
  unfold workerStep at hs
  rw [hp] at hs
  simp only [Option.bind_eq_some_iff, Option.ite_none_right_eq_some,
    Option.some.injEq] at hs
  obtain ⟨c, hc, hst, rfl⟩ := hs
  have hv : s.visit w (.worker w (.notice junk)) = [(b, true)] := by
    simp only [Layer.visit, hp, if_true, hc, Option.map_some, hst, decide_true]
  rw [noticeStep]
  cases hreg : s.registry Protocol.messageShutdownReq with
  | none =>
    have hnone : getMsgnode G.toProtobuf s.registry junk Protocol.messageShutdownReq = none := by
      rw [getMsgnode, hreg]
      rfl
    rw [hnone]
    refine .stuck hv rfl fun hok => ?_
    have hsome := hok rfl
    rw [hreg] at hsome
    cases hsome
  | some cls =>
    have hsome : getMsgnode G.toProtobuf s.registry junk Protocol.messageShutdownReq =
        some ⟨Protocol.messageShutdownReq, junk, G.newMsg cls, 0⟩ := by
      rw [getMsgnode, hreg]
      rfl
    rw [hsome]
    refine .visit hv ?_ ?_ ?_ ?_ ?_ fun _ => by rw [hreg]; rfl
    · rw [goto_worker, if_pos rfl, hp]; rfl
    · rw [goto_worker, if_pos rfl, hp]; rfl
    · rw [goto_worker, if_pos rfl, hp]
      show 2 * todo.length + 3 < 2 * (todo.length + 1) + 2
      omega
    · rw [goto_worker, if_pos rfl]; rfl
    · rw [goto_worker, if_pos rfl, modWorker_worker_self]; rfl

/-- The walk comes to a connection. -/
theorem sweepStep_cons {e : WorkerAct} {b : Addr} {todo removeIds : List Addr}
    (hp : (s.worker w).phase = .sweep (b :: todo) removeIds)
    (hs : s.workerStep G w e = some s') : SweepStep w s (.worker w e) s' := by
  cases e with
  | go => exact sweepStep_skip hp hs
  | notice junk => exact sweepStep_notice hp hs
  | _ =>
    unfold workerStep at hs
    rw [hp] at hs
    cases hs

/-- The rest of a visit. -/
theorem sweepStep_closing {e : WorkerAct} {b : Addr} {todo removeIds : List Addr}
    (hp : (s.worker w).phase = .closing b todo removeIds)
    (hs : s.workerStep G w e = some s') : SweepStep w s (.worker w e) s' := by
  cases e with
  | go =>
    unfold workerStep at hs
    rw [hp] at hs
    simp only [Option.map_eq_some_iff] at hs
    obtain ⟨c, hc, rfl⟩ := hs
    refine .move ?_ ?_ ?_ ?_ ?_ ?_ trivial
    · simp only [Layer.visit, hp, if_true]
    · rw [closingStep, modWorker_worker_self, hp]; rfl
    · rw [closingStep, modWorker_worker_self, hp]; rfl
    · rw [closingStep, modWorker_worker_self, hp]; exact Nat.lt_succ_self _
    · rw [closingStep, modWorker_worker_self]; rfl
    · rw [closingStep, modWorker_worker_self]; rfl
  | _ =>
    unfold workerStep at hs
    rw [hp] at hs
    cases hs

/-- What was found closed is erased. -/
theorem sweepStep_erase {e : WorkerAct} {removeIds : List Addr}
    (hp : (s.worker w).phase = .erase removeIds)
    (hs : s.workerStep G w e = some s') : SweepStep w s (.worker w e) s' := by
  cases e with
  | go =>
    unfold workerStep at hs
    rw [hp] at hs
    simp only [Option.some.injEq] at hs
    subst hs
    refine .erase ?_ ?_ ?_ ?_ ?_ ?_ trivial
    · simp only [Layer.visit, hp, if_true]
    · rw [hp]; rfl
    · rw [eraseStep, modWorker_worker_self]; rfl
    · rw [eraseStep, modWorker_worker_self, hp]; exact Nat.one_pos
    · rw [eraseStep, modWorker_worker_self]; rfl
    · rw [eraseStep, modWorker_worker_self, hp]; rfl
  | _ =>
    unfold workerStep at hs
    rw [hp] at hs
    cases hs

theorem sweepStep_own {e : WorkerAct} (hs : s.workerStep G w e = some s')
    (hsw : (s.worker w).phase.sweeping = true) : SweepStep w s (.worker w e) s' := by
  cases hp : (s.worker w).phase with
  | sweep todo removeIds =>
    cases todo with
    | nil => exact sweepStep_nil hp hs
    | cons b todo => exact sweepStep_cons hp hs
  | closing b todo removeIds => exact sweepStep_closing hp hs
  | erase removeIds => exact sweepStep_erase hp hs
  | _ =>
    rw [hp] at hsw
    cases hsw

/-- **What a step does to a worker in the sweep.** -/
theorem step_sweep (hw : s.WellPlaced) (ho : s.InOrder) (hs : s.step G a = some s')
    (hsw : (s.worker w).phase.sweeping = true) : SweepStep w s a s' := by
  cases hown : a.ofWorker w with
  | true =>
    cases a with
    | worker v e =>
      simp only [Act.ofWorker, decide_eq_true_eq] at hown
      subst hown
      simp only [Layer.step, Option.ite_none_right_eq_some] at hs
      exact sweepStep_own hs.2 hsw
    | _ => cases hown
  | false =>
    have hne : ∀ e, a ≠ .worker w e := by
      rintro e rfl
      simp [Act.ofWorker] at hown
    refine .other hown ?_ (step_phase hw ho hs hne) (step_conns hs hown)
    cases a with
    | worker v e => exact if_neg fun hv => hne e (by rw [hv])
    | _ => rfl

/-! ### Runs -/

section Runs

variable {as : List (Act Cls Msg)}

/-- The rest of a run. -/
theorem visits_cons (hs : s.step G a = some s') :
    s.visits G w (a :: as) = s.visit w a ++ s'.visits G w as := by
  rw [visits, hs]

/-- **Step by step the walk comes to what it has to visit, and to some of it again.** -/
theorem toVisit_length_le (hr : (netSystem G).Reach Lts.Free s)
    (hs : (netSystem G).exec s as = some s') (hin : (netSystem G).AllSteps (InSweep w) s as) :
    (s.worker w).phase.toVisit.length ≤
      (s.visits G w as).length + (s'.worker w).phase.toVisit.length := by
  induction as generalizing s with
  | nil =>
    rw [Lts.exec, Option.some.injEq] at hs
    rw [hs]
    exact Nat.le_add_left _ _
  | cons a as ih =>
    obtain ⟨t, ht, hs⟩ := Option.bind_eq_some_iff.mp hs
    obtain ⟨hw, -, ho⟩ := inOrder_of_reach hr
    have hrest := ih (.next hr trivial ht) hs (hin.2 t ht)
    rw [visits_cons ht, List.length_append]
    cases step_sweep hw ho ht hin.1 with
    | other _ hv hp => rw [hv, ← hp]; simpa using hrest
    | visit hv hto =>
      rw [hv, hto, List.length_cons, List.length_singleton]
      omega
    | stuck hv hst =>
      rw [hv, ← hst, List.length_singleton]
      omega
    | move hv hto => rw [hv, hto]; simpa using hrest
    | erase hv hto => rw [hto]; exact Nat.zero_le _

/-- Where every notice could be made: each visit advances the walk. -/
theorem sweep_of_announces (hr : (netSystem G).Reach Lts.Free s)
    (hs : (netSystem G).exec s as = some s') (hin : (netSystem G).AllSteps (InSweep w) s as)
    (hok : (netSystem G).AllSteps (Announces w) s as) :
    (s.visits G w as).map Prod.fst ++ (s'.worker w).phase.toVisit = (s.worker w).phase.toVisit ∧
      as.countP (Act.ofWorker w) + (s'.worker w).phase.sweepLeft ≤
        (s.worker w).phase.sweepLeft := by
  induction as generalizing s with
  | nil =>
    rw [Lts.exec, Option.some.injEq] at hs
    rw [hs]
    exact ⟨rfl, (Nat.zero_add _).le⟩
  | cons a as ih =>
    obtain ⟨t, ht, hs⟩ := Option.bind_eq_some_iff.mp hs
    obtain ⟨hw, -, ho⟩ := inOrder_of_reach hr
    obtain ⟨hto', hleft'⟩ := ih (.next hr trivial ht) hs (hin.2 t ht) (hok.2 t ht)
    have hcount : (a :: as).countP (Act.ofWorker w) ≤ as.countP (Act.ofWorker w) + 1 := by
      rw [List.countP_cons]
      split <;> omega
    rw [visits_cons ht, List.map_append, List.append_assoc, hto']
    cases step_sweep hw ho ht hin.1 with
    | other ha hv hp =>
      rw [hv, hp, List.countP_cons, ha]
      exact ⟨rfl, hp ▸ hleft'⟩
    | visit hv hto _ hleft =>
      rw [hv, hto]
      exact ⟨rfl, by omega⟩
    | stuck _ _ hbad => exact absurd hok.1 hbad
    | move hv hto _ hleft =>
      rw [hv, hto]
      exact ⟨rfl, by omega⟩
    | erase hv hto hto' hleft =>
      rw [hv, hto, hto']
      exact ⟨rfl, by omega⟩

/-- What the walk finds closed is picked, and the end of the sweep erases what was picked. -/
theorem picked_of_announces (hr : (netSystem G).Reach Lts.Free s)
    (hs : (netSystem G).exec s as = some s') (hin : (netSystem G).AllSteps (InSweep w) s as)
    (hok : (netSystem G).AllSteps (Announces w) s as) (hsw : (s.worker w).phase.sweeping = true) :
    let picked := (s.worker w).phase.picked ++ closedOf (s.visits G w as)
    if (s'.worker w).phase.sweeping = true then
      (s'.worker w).phase.picked = picked ∧
        (s'.worker w).threadConnections = (s.worker w).threadConnections
    else (s'.worker w).threadConnections = (s.worker w).threadConnections.filter (· ∉ picked) := by
  induction as generalizing s with
  | nil =>
    rw [Lts.exec, Option.some.injEq] at hs
    subst hs
    rw [if_pos hsw]
    exact ⟨(List.append_nil _).symm, rfl⟩
  | cons a as ih =>
    obtain ⟨t, ht, hs⟩ := Option.bind_eq_some_iff.mp hs
    obtain ⟨hw, -, ho⟩ := inOrder_of_reach hr
    have hrest := ih (.next hr trivial ht) hs (hin.2 t ht) (hok.2 t ht)
    have hclosed : closedOf (s.visits G w (a :: as)) =
        closedOf (s.visit w a) ++ closedOf (t.visits G w as) := by
      rw [visits_cons ht, closedOf, List.filter_append, List.map_append]
      rfl
    rw [hclosed]
    cases step_sweep hw ho ht hin.1 with
    | other _ hv hp hc =>
      rw [hp, hc] at hrest
      rw [hv]
      exact hrest hsw
    | visit hv _ hpick _ hsw' hc =>
      rw [hpick, hc, List.append_assoc] at hrest
      rw [hv]
      exact hrest hsw'
    | stuck _ _ hbad => exact absurd hok.1 hbad
    | move hv _ hpick _ hsw' hc =>
      rw [hpick, hc] at hrest
      rw [hv]
      exact hrest hsw'
    | erase hv _ _ _ hsw' hc =>
      -- the sweep is over, and so is the run
      have hnil : as = [] := by
        cases as with
        | nil => rfl
        | cons b as =>
          have hin' := (hin.2 t ht).1
          rw [InSweep, hsw'] at hin'
          cases hin'
      subst hnil
      rw [Lts.exec, Option.some.injEq] at hs
      subst hs
      rw [hsw', hv, hc]
      exact (congrArg (fun l => (s.worker w).threadConnections.filter (· ∉ l))
        (List.append_nil _)).symm

/-- Conversely, a walk that visits no connection twice has made every notice. -/
theorem announces_of_once (hr : (netSystem G).Reach Lts.Free s)
    (hs : (netSystem G).exec s as = some s') (hin : (netSystem G).AllSteps (InSweep w) s as)
    (honce : (s.visits G w as).map Prod.fst ++ (s'.worker w).phase.toVisit =
      (s.worker w).phase.toVisit) : (netSystem G).AllSteps (Announces w) s as := by
  induction as generalizing s with
  | nil => trivial
  | cons a as ih =>
    obtain ⟨t, ht, hs⟩ := Option.bind_eq_some_iff.mp hs
    obtain ⟨hw, -, ho⟩ := inOrder_of_reach hr
    have hrest := ih (.next hr trivial ht) hs (hin.2 t ht)
    have hnext : ∀ {u}, s.step G a = some u → u = t := fun hu => Option.some.inj (hu.symm.trans ht)
    rw [visits_cons ht, List.map_append, List.append_assoc] at honce
    cases step_sweep hw ho ht hin.1 with
    | other ha hv hp =>
      rw [hv, ← hp] at honce
      refine ⟨?_, fun u hu => hnext hu ▸ hrest honce⟩
      cases a with
      | worker v e =>
        cases e with
        | notice junk =>
          intro hvw
          rw [Act.ofWorker, decide_eq_false_iff_not] at ha
          exact absurd hvw ha
        | _ => trivial
      | _ => trivial
    | visit hv hto _ _ _ _ hok =>
      rw [hv, hto] at honce
      exact ⟨hok, fun u hu => hnext hu ▸ hrest (List.cons.inj honce).2⟩
    | stuck hv hst =>
      have hlen := toVisit_length_le (.next hr trivial ht) hs (hin.2 t ht)
      have heq := congrArg List.length honce
      rw [hv, List.length_append, List.length_append, List.length_map, List.length_singleton,
        List.length_map] at heq
      rw [hst] at hlen heq
      omega
    | move hv hto _ _ _ _ hok =>
      rw [hv, hto] at honce
      exact ⟨hok, fun u hu => hnext hu ▸ hrest honce⟩
    | erase hv hto hto' _ _ _ hok =>
      rw [hv, hto] at honce
      exact ⟨hok, fun u hu => hnext hu ▸ hrest (honce.trans hto'.symm)⟩

end Runs

/-- A worker in the sweep can go on. -/
theorem sweep_awake (hw : s.WellPlaced) (hn : w < s.threadNum)
    (hsw : (s.worker w).phase.sweeping = true) : ∃ e, (s.step G (.worker w e)).isSome := by
  have hstep : ∀ e, (s.workerStep G w e).isSome → ∃ e, (s.step G (.worker w e)).isSome := by
    intro e he
    refine ⟨e, ?_⟩
    rw [Layer.step, if_pos hn]
    exact he
  cases hp : (s.worker w).phase with
  | sweep todo removeIds =>
    cases todo with
    | nil =>
      apply hstep .go
      unfold workerStep
      rw [hp]
      rfl
    | cons a todo =>
      obtain ⟨c, hc, -⟩ := Option.map_eq_some_iff.mp (hw.in_hand hp List.mem_cons_self)
      by_cases hst : c.state = .close
      · apply hstep (.notice 0)
        unfold workerStep
        rw [hp]
        simp [hc, hst]
      · apply hstep .go
        unfold workerStep
        rw [hp]
        simp [hc, hst]
  | closing a todo removeIds =>
    obtain ⟨c, hc, -⟩ := Option.map_eq_some_iff.mp (hw.in_hand hp List.mem_cons_self)
    apply hstep .go
    unfold workerStep
    rw [hp]
    simp [hc]
  | erase removeIds =>
    apply hstep .go
    unfold workerStep
    rw [hp]
    rfl
  | _ =>
    rw [hp] at hsw
    cases hsw

end Layer

/-- **The close sweep is exact if and only if every notice can be made.** -/
theorem sweepExact_iff {G : Generated Cls Msg} {s s' : Layer Cls Msg} {w : ℕ}
    {as : List (Act Cls Msg)} (hr : (netSystem G).Reach Lts.Free s)
    (hp : (s.worker w).phase = .sweep (s.worker w).threadConnections [])
    (hs : (netSystem G).exec s as = some s')
    (hin : (netSystem G).AllSteps (Layer.InSweep w) s as) :
    Layer.SweepExact G w s as s' ↔ (netSystem G).AllSteps (Layer.Announces w) s as := by
  have hvisit : (s.worker w).phase.toVisit = (s.worker w).threadConnections := by rw [hp]; rfl
  have hreach : (netSystem G).Reach Lts.Free s' := hr.of_exec (Lts.allSteps_free _ _) hs
  constructor
  · intro h
    exact Layer.announces_of_once hr hs hin (h.once.trans hvisit.symm)
  · intro hok
    obtain ⟨hto, hleft⟩ := Layer.sweep_of_announces hr hs hin hok
    have hpicked := Layer.picked_of_announces hr hs hin hok (by rw [hp]; rfl)
    rw [hvisit] at hto
    refine ⟨?_, hto, ?_, fun hsw => ?_, fun hsw => ?_⟩
    · have hnodup := ((wellPlaced_of_reach hr).phase w).nodup
      rw [hp, Phase.addrs, List.append_nil, ← hto] at hnodup
      exact (List.nodup_append.mp hnodup).1
    · rw [hp] at hleft
      exact (Nat.le_add_right _ _).trans hleft
    · refine Layer.sweep_awake (wellPlaced_of_reach hreach) (lt_threadNum_of_reach hreach ?_) hsw
      intro htop
      rw [htop] at hsw
      cases hsw
    · rw [hsw, if_neg Bool.false_ne_true, hp] at hpicked
      exact hpicked

/-- Two clients are accepted, the first hangs up, and worker 0 comes to the sweep. -/
def hangUp : List (Act Protocol.MsgClass Protocol.Message) :=
  .accept true :: .accept true ::
    ([.go, .go, .go, .go, .go, .notified true 16, .notified true 32, .readEvent 16, .read .eof,
      .go].map (.worker 0))

/-- Worker 0 goes through the sweep, and a third client is accepted meanwhile. -/
def sweepThrough : List (Act Protocol.MsgClass Protocol.Message) :=
  [.worker 0 (.notice 0), .accept true, .worker 0 .go, .worker 0 .go, .worker 0 .go, .worker 0 .go]

theorem sweepExact_hangUp : ∃ s s',
    (netSystem Protocol.generated).exec (.start 1 Protocol.registry 0) hangUp = some s ∧
      (netSystem Protocol.generated).exec s sweepThrough = some s' ∧
      (s.worker 0).threadConnections = [16, 32] ∧ (s'.worker 0).threadConnections = [32] ∧
      Layer.SweepExact Protocol.generated 0 s sweepThrough s' := by
  obtain ⟨s, hs, hp, hconns, hin, hok, hend⟩ : ∃ s ∈
      (netSystem Protocol.generated).exec (.start 1 Protocol.registry 0) hangUp,
      (s.worker 0).phase = .sweep [16, 32] [] ∧ (s.worker 0).threadConnections = [16, 32] ∧
        (netSystem Protocol.generated).AllSteps (Layer.InSweep 0) s sweepThrough ∧
        (netSystem Protocol.generated).AllSteps (Layer.Announces 0) s sweepThrough ∧
        ((netSystem Protocol.generated).exec s sweepThrough).map
          (fun s' => (s'.worker 0).threadConnections) = some [32] := by
    decide +kernel
  obtain ⟨s', hs', hconns'⟩ := Option.map_eq_some_iff.mp hend
  have hr : (netSystem Protocol.generated).Reach Lts.Free s :=
    .of_exec (.start ⟨1, Protocol.registry, 0, rfl⟩) (Lts.allSteps_free _ _) hs
  exact ⟨s, s', hs, hs', hconns, hconns', (sweepExact_iff hr (by rw [hp, hconns]) hs' hin).mpr hok⟩

/-- Without a class for `Shutdown::Req` the sweep visits the closed connection for ever. -/
theorem not_sweepExact_hangUp : ∃ s,
    (netSystem Protocol.generated).Reach Lts.Free s ∧
      (s.worker 0).phase = .sweep (s.worker 0).threadConnections [] ∧
      (∀ n, (netSystem Protocol.generated).exec s (List.replicate n (.worker 0 (.notice 0))) =
        some s) ∧
      ¬Layer.SweepExact Protocol.generated 0 s [.worker 0 (.notice 0)] s := by
  obtain ⟨s, hs, hp, hconns, hnum, hreg, hst⟩ : ∃ s ∈
      (netSystem Protocol.generated).exec (.start 1 (fun _ => none) 0) hangUp,
      (s.worker 0).phase = .sweep [16, 32] [] ∧ (s.worker 0).threadConnections = [16, 32] ∧
        s.threadNum = 1 ∧ s.registry Protocol.messageShutdownReq = none ∧
        (s.heap 16).map Connection.state = some .close := by
    decide +kernel
  obtain ⟨c, hc, hst⟩ := Option.map_eq_some_iff.mp hst
  have hstep : s.step Protocol.generated (.worker 0 (.notice 0)) = some s := by
    rw [Layer.step, if_pos (by rw [hnum]; exact Nat.one_pos)]
    unfold Layer.workerStep
    rw [hp]
    simp [hc, hst, Layer.noticeStep, getMsgnode, hreg]
  refine ⟨s, .of_exec (.start ⟨1, _, 0, rfl⟩) (Lts.allSteps_free _ _) hs, by rw [hp, hconns],
    fun n => ?_, fun h => ?_⟩
  · induction n with
    | zero => rfl
    | succ n ih =>
      rw [List.replicate_succ, Lts.exec]
      show (s.step Protocol.generated (.worker 0 (.notice 0))).bind _ = _
      rw [hstep, Option.bind_some, ih]
  · have honce := congrArg List.length h.once
    have hvisits : s.visits Protocol.generated 0 [.worker 0 (.notice 0)] = [(16, true)] := by
      rw [Layer.visits_cons hstep]
      simp [Layer.visit, hp, hc, hst, Layer.visits]
    rw [hvisits, hp, hconns] at honce
    cases honce

end GoFight.Net
