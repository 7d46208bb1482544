import GoFight.Net.SocketRegistry

/-!
# How a connection gets into the registry

Each step from a descriptor's first `accept` or `connect` to `thread_connections_` keeps the
invariant `Good`.

* `Good.accept`, `Good.dial`, `Good.otherOpen`, … — a descriptor comes, or goes, outside the workers;
* `Good.give`, `Good.dialed`, `Good.connector` — on the way to a worker;
* `Good.notified`, `Good.createConn`, `Good.mapConn`, `Good.register` — `thread_libevent_process`;
* `Good.createFail`, `Good.giveUp` — its way out.
-/

namespace GoFight.Net

open GoFight.Lib

namespace Sockets

variable {s s' : Sockets}

/-! ### The accept loop, `net_connect` and the rest of the process -/

theorem Good.accept (h : s.Good) {fd : ℕ} (hidle : s.accept = .idle) (hfd : s.CanOpen fd) :
    { s.setOs fd (some .accepting) with accept := .accepted fd }.Good := by
  refine h.moveFd (f := fd) (p := none) (q := some .accepting) ⟨hfd.2, fun g => ?_, fun r _ hr => ?_,
    nofun, fun r hr => ?_⟩ (fun _ => hfd.1) rfl rfl rfl rfl rfl
  · exact setOs_os ..
  · cases r with
    | accepting => exact absurd rfl hr
    | _ => rfl
  · cases hr
    show [fd].Perm (fd :: s.holdsFd .accepting)
    rw [holdsFd, hidle]

theorem Good.acceptFail (h : s.Good) {fd : ℕ} (hacc : s.accept = .accepted fd) :
    { s.setOs fd none with accept := .idle }.Good := by
  have hlist : s.holdsFd .accepting = [fd] := by rw [holdsFd, hacc]
  refine h.moveFd (f := fd) (p := some .accepting) (q := none) ⟨?_, fun g => ?_, fun r hr _ => ?_,
    fun r hr => ?_, by simp⟩ (fun hq => absurd rfl hq) rfl rfl rfl rfl rfl
  · exact h.fds.placed.mem (hlist ▸ List.mem_singleton_self fd)
  · exact setOs_os ..
  · cases r with
    | accepting => exact absurd rfl hr
    | _ => rfl
  · cases hr
    rw [hlist]
    exact .refl _

theorem Good.dial (h : s.Good) {fd : ℕ} (hfd : s.CanOpen fd) :
    { s.setOs fd (some .dialing) with dialing := fd :: s.dialing }.Good := by
  refine h.moveFd (f := fd) (p := none) (q := some .dialing) ⟨hfd.2, fun g => ?_, fun r _ hr => ?_,
    nofun, fun r hr => ?_⟩ (fun _ => hfd.1) rfl rfl rfl rfl rfl
  · exact setOs_os ..
  · cases r with
    | dialing => exact absurd rfl hr
    | _ => rfl
  · cases hr
    exact .refl _

theorem Good.dialFail (h : s.Good) {fd : ℕ} (hfd : fd ∈ s.dialing) :
    { s.setOs fd none with dialing := s.dialing.erase fd }.Good := by
  refine h.moveFd (f := fd) (p := some .dialing) (q := none) ⟨?_, fun g => ?_, fun r hr _ => ?_,
    fun r hr => ?_, nofun⟩ (fun hq => absurd rfl hq) rfl rfl rfl rfl rfl
  · exact h.fds.placed.mem (p := .dialing) hfd
  · exact setOs_os ..
  · cases r with
    | dialing => exact absurd rfl hr
    | _ => rfl
  · cases hr
    exact (List.perm_cons_erase hfd).symm

theorem Good.otherOpen (h : s.Good) {fd : ℕ} (hfd : s.CanOpen fd) :
    { s.setOs fd (some .other) with others := fd :: s.others }.Good := by
  refine h.moveFd (f := fd) (p := none) (q := some .other) ⟨hfd.2, fun g => ?_, fun r _ hr => ?_,
    nofun, fun r hr => ?_⟩ (fun _ => hfd.1) rfl rfl rfl rfl rfl
  · exact setOs_os ..
  · cases r with
    | other => exact absurd rfl hr
    | _ => rfl
  · cases hr
    exact .refl _

theorem Good.otherClose (h : s.Good) {fd : ℕ} (hfd : fd ∈ s.others) :
    { s.setOs fd none with others := s.others.erase fd }.Good := by
  refine h.moveFd (f := fd) (p := some .other) (q := none) ⟨?_, fun g => ?_, fun r hr _ => ?_,
    fun r hr => ?_, nofun⟩ (fun hq => absurd rfl hq) rfl rfl rfl rfl rfl
  · exact h.fds.placed.mem (p := .other) hfd
  · exact setOs_os ..
  · cases r with
    | other => exact absurd rfl hr
    | _ => rfl
  · cases hr
    exact (List.perm_cons_erase hfd).symm

theorem Good.count (h : s.Good) (hacc : s.accept = .counting) :
    { s with currConns := s.currConns + 1, accept := .idle }.Good := by
  have hheld : { s with currConns := s.currConns + 1, accept := .idle }.holdsFd = s.holdsFd := by
    funext r
    cases r with
    | accepting =>
      show [] = s.holdsFd .accepting
      rw [holdsFd, hacc]
    | _ => rfl
  exact ⟨h.fds.congr rfl hheld rfl, ⟨h.objs.placed, h.objs.registered, h.objs.ge⟩,
    h.entries.of_calm rfl rfl fun _ b => .refl b _, h.sweep, h.accepts⟩

/-! ### On the way to a worker -/

/-- A descriptor that a worker is given. -/
theorem holdsFd_give (v : ℕ) (ci : SockInfo) {r : Holder} (hr : r ≠ .handed v) :
    (s.modWorker v (.give ci)).holdsFd r = s.holdsFd r := by
  cases r with
  | handed w =>
    show ((s.modWorker v (.give ci)).worker w).newConnections.map _ = _
    rw [modWorker_worker, if_neg fun hw => hr (congrArg Holder.handed hw)]
    rfl
  | making w =>
    show ((s.modWorker v (.give ci)).worker w).pc.fds = _
    rw [modWorker_worker]
    split <;> rfl
  | _ => rfl

theorem holdsFd_give_self (v : ℕ) (ci : SockInfo) :
    (s.modWorker v (.give ci)).holdsFd (.handed v) = s.holdsFd (.handed v) ++ [ci.sfd] := by
  show ((s.modWorker v (.give ci)).worker v).newConnections.map _ = _
  rw [modWorker_worker, if_pos rfl]
  exact List.map_append ..

theorem holdsObj_give (v : ℕ) (ci : SockInfo) {r : Post} (hr : r ≠ .handed v) :
    (s.modWorker v (.give ci)).holdsObj r = s.holdsObj r := by
  cases r with
  | handed w =>
    show ((s.modWorker v (.give ci)).worker w).newConnections.filterMap _ = _
    rw [modWorker_worker, if_neg fun hw => hr (congrArg Post.handed hw)]
    rfl
  | taken w | making w | registered w | retired w =>
    simp only [holdsObj]
    rw [modWorker_worker]
    split <;> rfl
  | _ => rfl

theorem holdsObj_give_self (v : ℕ) (ci : SockInfo) :
    (s.modWorker v (.give ci)).holdsObj (.handed v) =
      s.holdsObj (.handed v) ++ ci.preNew.toList := by
  show ((s.modWorker v (.give ci)).worker v).newConnections.filterMap _ = _
  rw [modWorker_worker, if_pos rfl]
  show (_ ++ [ci]).filterMap _ = _
  rw [List.filterMap_append]
  cases hci : ci.preNew <;> simp [hci, holdsObj]

theorem give_pc (v w : ℕ) (ci : SockInfo) :
    ((s.modWorker v (.give ci)).worker w).pc = (s.worker w).pc ∧
      ((s.modWorker v (.give ci)).worker w).threadConnections = (s.worker w).threadConnections := by
  rw [modWorker_worker]
  split <;> exact ⟨rfl, rfl⟩

theorem Good.give (h : s.Good) {fd v : ℕ} (hacc : s.accept = .accepted fd) :
    ({ s.setOs fd (some (.handed v)) with accept := .counting }.modWorker v
      (.give ⟨none, fd⟩)).Good := by
  have hlist : s.holdsFd .accepting = [fd] := by rw [holdsFd, hacc]
  have hos : s.os fd = some .accepting := h.fds.placed.mem (hlist ▸ List.mem_singleton_self fd)
  refine ⟨h.fds.move (f := fd) (p := some .accepting) (q := some (.handed v))
    ⟨hos, fun g => ?_, fun r h₁ h₂ => ?_, fun r hr => ?_, fun r hr => ?_⟩ rfl fun _ => ?_,
    h.objs.congr rfl (funext fun r => ?_) rfl, h.entries.of_calm rfl rfl fun w b => ?_, fun w => ?_,
    fun w => ?_⟩
  · exact setOs_os ..
  · rw [holdsFd_give v _ fun hr => h₂ (congrArg some hr)]
    cases r with
    | accepting => exact absurd rfl h₁
    | _ => rfl
  · cases hr
    rw [holdsFd_give v _ (r := .accepting) (by simp), hlist]
    exact .refl _
  · cases hr
    rw [holdsFd_give_self]
    exact List.perm_append_singleton fd _
  · exact h.fds.lt (by rw [hos]; simp)
  · by_cases hr : r = .handed v
    · rw [hr, holdsObj_give_self]
      exact List.append_nil _
    · rw [holdsObj_give v _ hr]
      cases r <;> rfl
  · rw [(give_pc v w _).1]
    exact .refl b _
  · have hold := h.sweep w
    exact ⟨by rw [(give_pc v w _).1, (give_pc v w _).2]; exact hold.subset,
      by rw [(give_pc v w _).1]; exact hold.nodup⟩
  · rw [(give_pc v w _).1]
    exact h.accepts w

/-- The post of an object a worker owns a descriptor for, or has half closed. -/
theorem Good.post_of_owns (h : s.Good) {w f : ℕ} {a : Addr} (hp : (s.worker w).pc.Owns f a) :
    s.postAt a = some (.making w) := by
  refine h.objs.placed.mem (p := .making w) ?_
  show a ∈ (s.worker w).pc.making
  cases hpc : (s.worker w).pc with
  | made ci b | mapped ci b | counted ci b =>
    rw [hpc] at hp
    exact hp.2 ▸ List.mem_singleton_self _
  | _ =>
    rw [hpc] at hp
    cases hp

theorem Good.post_of_halved (h : s.Good) {w : ℕ} {a : Addr} (hp : (s.worker w).pc.Halved a) :
    s.postAt a = some (.registered w) := by
  refine h.objs.placed.mem (p := .registered w) ((h.sweep w).subset ?_)
  cases hpc : (s.worker w).pc with
  | closeSock b todo removeIds =>
    rw [hpc] at hp
    exact hp ▸ List.mem_cons_self
  | _ =>
    rw [hpc] at hp
    cases hp

/-- An object that is not set up: nothing else is known of it. -/
theorem Good.objOk_of_unset (h : s.Good) {a : Addr} {c : Socket} {q : Option Post}
    (ha : s.postAt a = q) (hq : ∀ w, q ≠ some (.making w) ∧ q ≠ some (.registered w))
    (hunset : c.post.Unset) (hlive : c.live = [])
    (hpc : ∀ w, SockPc.Calm a (s.worker w).pc (s'.worker w).pc) : s'.ObjOk a c := by
  refine ⟨fun _ => hlive, fun hin => ?_, fun {w f d} hp => ?_, fun {w f} hp => ?_, fun {w} hp => ?_⟩
  · unfold InUse at hin
    unfold Post.Unset at hunset
    split at hin <;> simp_all
  · exact absurd (ha.symm.trans (h.post_of_halved ((hpc w).halved hp))) (hq w).2
  · exact absurd (ha.symm.trans (h.post_of_owns ((hpc w).own _ hp))) (hq w).1
  · rw [hp] at hunset
    cases hunset

/-- An object that is not set up has no entry. -/
theorem not_inMap_of_unset {a : Addr} {c : Socket} (hunset : c.post.Unset) : ¬ s.InMap a c := by
  intro hin
  unfold InMap at hin
  unfold Post.Unset at hunset
  split at hin <;> simp_all

theorem Good.dialed (h : s.Good) {fd : ℕ} {a : Addr} (hfd : fd ∈ s.dialing) (ha : s.Fresh a) :
    { (s.setOs fd (some .connecting)).setObj a (some (.new .connecting)) with
      dialing := s.dialing.erase fd
      connectConns := s.connectConns ++ [SockInfo.mk (some a) fd] }.Good := by
  have hos : s.os fd = some .dialing := h.fds.placed.mem (p := .dialing) hfd
  have hpost : s.postAt a = none := by rw [postAt, ha.1]; rfl
  refine ⟨h.fds.move (f := fd) (p := some .dialing) (q := some .connecting)
    ⟨hos, fun g => ?_, fun r h₁ h₂ => ?_, fun r hr => ?_, fun r hr => ?_⟩ rfl fun _ => ?_,
    h.objs.move (a := a) (p := none) (q := some .connecting)
      ⟨hpost, fun b => ?_, fun r _ h₂ => ?_, by simp, fun r hr => ?_⟩ rfl fun _ => ha.2,
    h.entries.update a (fun b hb => ?_) (fun _ _ _ => .rfl) (fun _ b _ => .refl b _) (fun f => ?_)
      fun c hc => ?_, h.sweep, h.accepts⟩
  · exact setOs_os ..
  · cases r with
    | dialing => exact absurd rfl h₁
    | connecting => exact absurd rfl h₂
    | conn b =>
      show ((Function.update s.heap a _ b).map Socket.live).getD [] = ((s.heap b).map Socket.live).getD []
      by_cases hb : b = a
      · subst hb
        rw [Function.update_self, ha.1]
        rfl
      · rw [Function.update_of_ne hb]
    | _ => rfl
  · cases hr
    exact (List.perm_cons_erase hfd).symm
  · cases hr
    show ((s.connectConns ++ [_]).map SockInfo.sfd).Perm _
    rw [List.map_append]
    exact List.perm_append_singleton fd _
  · exact h.fds.lt (by rw [hos]; simp)
  · show (Function.update s.heap a _ b).map Socket.post = _
    rw [Function.update_apply]
    split <;> rfl
  · cases r with
    | connecting => exact absurd rfl h₂
    | _ => rfl
  · cases hr
    show ((s.connectConns ++ [_]).filterMap SockInfo.preNew).Perm _
    rw [List.filterMap_append]
    exact List.perm_append_singleton a _
  · exact Function.update_of_ne hb ..
  · constructor
    · intro hf
      obtain ⟨c, hc, -⟩ := (h.entries.entry f a).mp hf
      rw [ha.1] at hc
      cases hc
    · rintro ⟨c, hc, hsfd, -⟩
      have hnew : some (Socket.new .connecting) = some c := (Function.update_self a _ s.heap).symm.trans hc
      cases hnew
      cases hsfd
  · have hnew : some (Socket.new .connecting) = some c := (Function.update_self a _ s.heap).symm.trans hc
    cases hnew
    exact h.objOk_of_unset hpost (fun w => ⟨by simp, by simp⟩) trivial rfl fun w => .refl a _

theorem setPost_heap (s : Sockets) (a b : Addr) (p : Post) : (s.setPost a p).heap b =
    if b = a then (s.heap b).map fun c => { c with post := p } else s.heap b := by
  rw [setPost, setObj_heap]
  split
  · next hb => rw [hb]
  · rfl

theorem setPost_live (s : Sockets) (a b : Addr) (p : Post) :
    ((s.setPost a p).heap b).map Socket.live = (s.heap b).map Socket.live := by
  rw [setPost_heap]
  split
  · rw [Option.map_map]
    rfl
  · rfl

theorem setPost_postAt {a : Addr} {q : Post} (ha : s.postAt a = some q) (b : Addr) (p : Post) :
    ((s.setPost a p).heap b).map Socket.post = if b = a then some p else s.postAt b := by
  rw [setPost_heap]
  split
  · next hb =>
    obtain ⟨c, hc, -⟩ := Option.map_eq_some_iff.mp ha
    rw [hb, hc]
    rfl
  · rfl

/-- An object that is not set up gets another post of that kind. -/
theorem Good.entries_setPost (h : s.Good) {a : Addr} {p q : Post} (ha : s.postAt a = some q)
    (hq : q.Unset) (hp : p.Unset) (hheap : s'.heap = (s.setPost a p).heap)
    (hmap : s'.connsMap = s.connsMap)
    (hpc : ∀ w b, SockPc.Calm b (s.worker w).pc (s'.worker w).pc) : s'.Entries := by
  obtain ⟨c, hc, hpost⟩ := Option.map_eq_some_iff.mp ha
  have hnew : s'.heap a = some { c with post := p } := by
    rw [hheap, setPost_heap, if_pos rfl, hc]
    rfl
  refine h.entries.update a (fun b hb => ?_) (fun f b _ => by rw [hmap]) (fun w b _ => hpc w b)
    (fun f => ?_) fun d hd => ?_
  · rw [hheap, setPost_heap, if_neg hb]
  · rw [hmap]
    constructor
    · intro hf
      obtain ⟨d, hd, -, hin⟩ := (h.entries.entry f a).mp hf
      rw [hc, Option.some.injEq] at hd
      subst hd
      exact absurd hin (not_inMap_of_unset (hpost ▸ hq))
    · rintro ⟨d, hd, -, hin⟩
      rw [hnew, Option.some.injEq] at hd
      subst hd
      exact absurd hin (not_inMap_of_unset hp)
  · rw [hnew, Option.some.injEq] at hd
    subst hd
    refine h.objOk_of_unset ha (fun w => ⟨?_, ?_⟩) hp ((h.entries.obj hc).unset (hpost ▸ hq))
      fun w => hpc w a
    · rintro ⟨rfl⟩
      cases hq
    · rintro ⟨rfl⟩
      cases hq

theorem Good.connector (h : s.Good) {a : Addr} {fd v : ℕ} {rest : List SockInfo}
    (hq : s.connectConns = ⟨some a, fd⟩ :: rest) :
    ((({ s with connectConns := rest }.setOs fd (some (.handed v))).setPost a
      (.handed v)).modWorker v (.give ⟨some a, fd⟩)).Good := by
  have hos : s.os fd = some .connecting := by
    refine h.fds.placed.mem (p := .connecting) ?_
    show fd ∈ s.connectConns.map SockInfo.sfd
    rw [hq]
    exact List.mem_cons_self
  have hpost : s.postAt a = some .connecting := by
    refine h.objs.placed.mem (p := .connecting) ?_
    show a ∈ s.connectConns.filterMap SockInfo.preNew
    rw [hq]
    exact List.mem_cons_self
  refine ⟨h.fds.move (f := fd) (p := some .connecting) (q := some (.handed v))
    ⟨hos, fun g => ?_, fun r h₁ h₂ => ?_, fun r hr => ?_, fun r hr => ?_⟩ rfl fun _ => ?_,
    h.objs.move (a := a) (p := some .connecting) (q := some (.handed v))
      ⟨hpost, fun b => ?_, fun r h₁ h₂ => ?_, fun r hr => ?_, fun r hr => ?_⟩ rfl fun _ => ?_,
    h.entries_setPost hpost (p := .handed v) trivial trivial rfl rfl fun w b => ?_, fun w => ?_,
    fun w => ?_⟩
  · exact setOs_os ..
  · rw [holdsFd_give v _ fun hr => h₂ (congrArg some hr)]
    cases r with
    | connecting => exact absurd rfl h₁
    | conn b => exact congrArg (fun l => l.getD []) (setPost_live s a b (.handed v))
    | _ => rfl
  · cases hr
    rw [holdsFd_give v _ (r := .connecting) nofun]
    show (fd :: rest.map SockInfo.sfd).Perm (s.connectConns.map SockInfo.sfd)
    rw [hq]
    exact .refl _
  · cases hr
    rw [holdsFd_give_self]
    exact List.perm_append_singleton fd _
  · exact h.fds.lt (by rw [hos]; exact nofun)
  · exact setPost_postAt hpost b (.handed v)
  · rw [holdsObj_give v _ fun hr => h₂ (congrArg some hr)]
    cases r with
    | connecting => exact absurd rfl h₁
    | _ => rfl
  · cases hr
    rw [holdsObj_give v _ (r := .connecting) nofun]
    show (a :: rest.filterMap SockInfo.preNew).Perm (s.connectConns.filterMap SockInfo.preNew)
    rw [hq]
    exact .refl _
  · cases hr
    rw [holdsObj_give_self]
    exact List.perm_append_singleton a _
  · refine h.objs.ge fun hnone => ?_
    rw [postAt, hnone] at hpost
    cases hpost
  · rw [(give_pc v w _).1]
    exact .refl b _
  · have hold := h.sweep w
    exact ⟨by rw [(give_pc v w _).1, (give_pc v w _).2]; exact hold.subset,
      by rw [(give_pc v w _).1]; exact hold.nodup⟩
  · rw [(give_pc v w _).1]
    exact h.accepts w

/-! ### `thread_libevent_process` -/

theorem pop_worker (w v : ℕ) (ci : SockInfo) (rest : List SockInfo) :
    (s.modWorker w (.pop ci rest)).worker v =
      if v = w then (s.worker v).pop ci rest else s.worker v :=
  modWorker_worker ..

theorem calm_pop {w : ℕ} (hp : (s.worker w).pc = .loop) (ci : SockInfo) (rest : List SockInfo) (v : ℕ) (b : Addr) :
    SockPc.Calm b (s.worker v).pc ((s.modWorker w (.pop ci rest)).worker v).pc := by
  rw [pop_worker]
  split
  · next hv =>
    subst hv
    rw [hp]
    exact ⟨.rfl, .rfl, id, id, fun _ => id⟩
  · exact .refl b _

theorem sweepOk_of_nil {t : SockWorker} (h : t.pc.addrs = []) : SweepOk t :=
  ⟨by rw [h]; exact List.nil_subset _, by rw [h]; exact List.nodup_nil⟩

/-- The descriptor of a new connection, popped. -/
theorem Good.fds_pop (h : s.Good) {w : ℕ} {ci : SockInfo} {rest : List SockInfo}
    (hp : (s.worker w).pc = .loop) (hq : (s.worker w).newConnections = ci :: rest)
    {t : Sockets} (hos : t.os = s.os)
    (hheld : t.holdsFd = s.holdsFd) (hmax : t.openMax = s.openMax) :
    ((t.setOs ci.sfd (some (.making w))).modWorker w (.pop ci rest)).Fds := by
  have hat : s.os ci.sfd = some (.handed w) := by
    refine h.fds.placed.mem (p := .handed w) ?_
    show ci.sfd ∈ (s.worker w).newConnections.map SockInfo.sfd
    rw [hq]
    exact List.mem_cons_self
  refine h.fds.move (f := ci.sfd) (p := some (.handed w)) (q := some (.making w))
    ⟨hat, fun g => ?_, fun r h₁ h₂ => ?_, fun r hr => ?_, fun r hr => ?_⟩ hmax fun _ => ?_
  · show Function.update t.os ci.sfd _ g = _
    rw [Function.update_apply, hos]
  · rw [← hheld]
    cases r with
    | handed v =>
      show (((t.setOs ci.sfd _).modWorker w (.pop ci rest)).worker v).newConnections.map _ = _
      rw [pop_worker, if_neg fun hv => h₁ (by rw [hv])]
      rfl
    | making v =>
      show (((t.setOs ci.sfd _).modWorker w (.pop ci rest)).worker v).pc.fds = _
      rw [pop_worker, if_neg fun hv => h₂ (by rw [hv])]
      rfl
    | _ => rfl
  · cases hr
    show (ci.sfd :: (((t.setOs ci.sfd _).modWorker w (.pop ci rest)).worker w).newConnections.map _).Perm
      ((s.worker w).newConnections.map _)
    rw [pop_worker, if_pos rfl, hq]
    exact .refl _
  · cases hr
    show ((((t.setOs ci.sfd _).modWorker w (.pop ci rest)).worker w).pc.fds).Perm
      (ci.sfd :: (s.worker w).pc.fds)
    rw [pop_worker, if_pos rfl, hp]
    exact .refl _
  · exact h.fds.lt (by rw [hat]; exact nofun)

theorem Good.notified (h : s.Good) {w : ℕ} {ci : SockInfo} {rest : List SockInfo}
    (hp : (s.worker w).pc = .loop) (hq : (s.worker w).newConnections = ci :: rest) :
    (((match ci.preNew with
      | none => s
      | some a => s.setPost a (.taken w)).setOs ci.sfd (some (.making w))).modWorker w
        (.pop ci rest)).Good := by
  have hsweep : ∀ v, SweepOk ((s.modWorker w (.pop ci rest)).worker v) := by
    intro v
    rw [pop_worker]
    split
    · exact sweepOk_of_nil rfl
    · exact h.sweep v
  have haccepts : ∀ v, ¬ ((s.modWorker w (.pop ci rest)).worker v).pc.Rejects := by
    intro v
    rw [pop_worker]
    split
    · exact id
    · exact h.accepts v
  have hholds : ∀ r, r ≠ .handed w → r ≠ .taken w →
      (s.modWorker w (.pop ci rest)).holdsObj r = s.holdsObj r := by
    intro r h₁ h₂
    cases r with
    | handed v =>
      show ((s.modWorker w (.pop ci rest)).worker v).newConnections.filterMap _ = _
      rw [pop_worker, if_neg fun hv => h₁ (by rw [hv])]
      rfl
    | taken v =>
      show ((s.modWorker w (.pop ci rest)).worker v).pc.taken = _
      rw [pop_worker, if_neg fun hv => h₂ (by rw [hv])]
      rfl
    | making v =>
      show ((s.modWorker w (.pop ci rest)).worker v).pc.making = (s.worker v).pc.making
      rw [pop_worker]
      split
      · next hv =>
        rw [hv, hp]
        rfl
      · rfl
    | registered v | retired v =>
      simp only [holdsObj]
      rw [pop_worker]
      split <;> rfl
    | _ => rfl
  have hhanded : (s.modWorker w (.pop ci rest)).holdsObj (.handed w) =
      rest.filterMap SockInfo.preNew := by
    show ((s.modWorker w (.pop ci rest)).worker w).newConnections.filterMap _ = _
    rw [pop_worker, if_pos rfl]
    rfl
  have htaken : (s.modWorker w (.pop ci rest)).holdsObj (.taken w) = ci.preNew.toList := by
    show ((s.modWorker w (.pop ci rest)).worker w).pc.taken = _
    rw [pop_worker, if_pos rfl]
    rfl
  have hold : s.holdsObj (.handed w) = ci.preNew.toList ++ rest.filterMap SockInfo.preNew := by
    show (s.worker w).newConnections.filterMap _ = _
    rw [hq]
    cases hpre : ci.preNew <;> simp [hpre]
  have hempty : s.holdsObj (.taken w) = [] := by
    show (s.worker w).pc.taken = []
    rw [hp]
    rfl
  obtain ⟨pre, fd⟩ := ci
  cases pre with
  | none =>
    refine ⟨h.fds_pop hp hq rfl rfl rfl, h.objs.congr rfl (funext fun r => ?_) rfl,
      h.entries.of_calm rfl rfl (calm_pop hp _ rest), hsweep, haccepts⟩
    by_cases h₁ : r = .handed w
    · rw [h₁]
      exact hhanded.trans hold.symm
    · by_cases h₂ : r = .taken w
      · rw [h₂]
        exact htaken.trans hempty.symm
      · exact hholds r h₁ h₂
  | some a =>
    have hpost : s.postAt a = some (.handed w) :=
      h.objs.placed.mem (p := .handed w) (hold ▸ List.mem_cons_self)
    refine ⟨h.fds_pop (t := s.setPost a (.taken w)) hp hq rfl (funext fun r => ?_) rfl,
      h.objs.move (a := a) (p := some (.handed w)) (q := some (.taken w))
        ⟨hpost, fun b => ?_, fun r h₁ h₂ => ?_, fun r hr => ?_, fun r hr => ?_⟩ rfl fun _ => ?_,
      h.entries_setPost hpost (p := .taken w) trivial trivial rfl rfl (calm_pop hp _ rest), hsweep,
      haccepts⟩
    · cases r with
      | conn b => exact congrArg (fun l => l.getD []) (setPost_live s a b (.taken w))
      | _ => rfl
    · exact setPost_postAt hpost b (.taken w)
    · exact hholds r (fun hr => h₁ (congrArg some hr)) fun hr => h₂ (congrArg some hr)
    · cases hr
      rw [hold]
      exact .of_eq (congrArg (a :: ·) hhanded)
    · cases hr
      rw [hempty]
      exact .of_eq htaken
    · refine h.objs.ge fun hnone => ?_
      rw [postAt, hnone] at hpost
      cases hpost

/-- The lists of a worker that hold no program point. -/
theorem setPc_lists (s : Sockets) (w v : ℕ) (q : SockPc) :
    ((s.setPc w q).worker v).newConnections = (s.worker v).newConnections ∧
      ((s.setPc w q).worker v).threadConnections = (s.worker v).threadConnections ∧
      ((s.setPc w q).worker v).forDelete = (s.worker v).forDelete := by
  rw [setPc_worker]
  split <;> exact ⟨rfl, rfl, rfl⟩

theorem holdsObj_setPc (s : Sockets) (w : ℕ) (q : SockPc) {r : Post} (h₁ : r ≠ .taken w)
    (h₂ : r ≠ .making w) : (s.setPc w q).holdsObj r = s.holdsObj r := by
  cases r with
  | handed v => exact congrArg (List.filterMap _) (setPc_lists s w v q).1
  | taken v =>
    show ((s.setPc w q).worker v).pc.taken = _
    rw [setPc_worker, if_neg fun hv => h₁ (by rw [hv])]
    rfl
  | making v =>
    show ((s.setPc w q).worker v).pc.making = _
    rw [setPc_worker, if_neg fun hv => h₂ (by rw [hv])]
    rfl
  | registered v => exact (setPc_lists s w v q).2.1
  | retired v => exact (setPc_lists s w v q).2.2
  | _ => rfl

theorem holdsFd_setPc (s : Sockets) (w : ℕ) (q : SockPc) {r : Holder} (hr : r ≠ .making w) :
    (s.setPc w q).holdsFd r = s.holdsFd r := by
  cases r with
  | handed v => exact congrArg (List.map _) (setPc_lists s w v q).1
  | making v =>
    show ((s.setPc w q).worker v).pc.fds = _
    rw [setPc_worker, if_neg fun hv => hr (by rw [hv])]
    rfl
  | _ => rfl

theorem setPc_pc_self (s : Sockets) (w : ℕ) (q : SockPc) : ((s.setPc w q).worker w).pc = q := by
  rw [setPc_worker, if_pos rfl]

/-- The other workers, and this one at a point that fits. -/
theorem Good.sweep_setPc (h : s.Good) (w : ℕ) {q : SockPc}
    (hsub : q.addrs ⊆ (s.worker w).threadConnections) (hnd : q.addrs.Nodup) (v : ℕ) :
    SweepOk ((s.setPc w q).worker v) := by
  rw [setPc_worker]
  split
  · next hv =>
    subst hv
    exact ⟨hsub, hnd⟩
  · exact h.sweep v

theorem Good.accepts_setPc (h : s.Good) (w : ℕ) {q : SockPc} (hq : ¬ q.Rejects) (v : ℕ) :
    ¬ ((s.setPc w q).worker v).pc.Rejects := by
  rw [setPc_worker]
  split
  · exact hq
  · exact h.accepts v

theorem calm_setPc {w : ℕ} {p q : SockPc} {b : Addr} (hp : (s.worker w).pc = p)
    (hcalm : SockPc.Calm b p q) (v : ℕ) :
    SockPc.Calm b (s.worker v).pc ((s.setPc w q).worker v).pc := by
  rw [setPc_worker]
  split
  · next hv =>
    subst hv
    exact hp ▸ hcalm
  · exact .refl b _

/-- The object a connection is set up in: pre-allocated, or new. -/
def Free (s : Sockets) (w : ℕ) (ci : SockInfo) (a : Addr) (q : Option Post) : Prop :=
  s.postAt a = q ∧ (q = none ∧ ci.preNew = none ∧ s.openMax ≤ a.toNat ∨
    q = some (.taken w) ∧ ci.preNew = some a)

theorem Good.initSocket (h : s.Good) {w : ℕ} {ci : SockInfo} {a : Addr} {q : Option Post}
    (hp : (s.worker w).pc = .checked ci) (ha : s.Free w ci a q) :
    (s.initSocket w ci a none).Good := by
  obtain ⟨hpost, hfree⟩ := ha
  have hfds : s.holdsFd (.making w) = [ci.sfd] := by rw [holdsFd, hp]; rfl
  have hos : s.os ci.sfd = some (.making w) :=
    h.fds.placed.mem (p := .making w) (hfds ▸ List.mem_singleton_self _)
  have hne : ∀ v, q ≠ some (.making v) ∧ q ≠ some (.registered v) := by
    intro v
    rcases hfree with ⟨rfl, -⟩ | ⟨rfl, -⟩ <;> exact ⟨by simp, by simp⟩
  have hlive : ((s.heap a).map Socket.live).getD [] = [] := by
    cases hc : s.heap a with
    | none => rfl
    | some c =>
      rw [postAt, hc] at hpost
      refine (h.entries.obj hc).unset ?_
      rcases hfree with ⟨rfl, -⟩ | ⟨rfl, -⟩
      · cases hpost
      · rw [Option.some.inj hpost]
        trivial
  have hheap : ∀ b, (s.initSocket w ci a none).heap b =
      if b = a then some ⟨.making w, some ci.sfd, none, [ci.sfd]⟩ else s.heap b :=
    fun b => Function.update_apply ..
  have hpc : ∀ v b, b ≠ a →
      SockPc.Calm b (s.worker v).pc ((s.initSocket w ci a none).worker v).pc := by
    intro v b hb
    show SockPc.Calm b (s.worker v).pc ((s.setPc w (.made ci a)).worker v).pc
    have hcalm : SockPc.Calm b (.checked ci) (.made ci a) :=
      ⟨.rfl, .rfl, id, id, fun f hown => absurd hown.2.symm hb⟩
    exact calm_setPc hp hcalm v
  have hobj : ∀ r, r ≠ .taken w → r ≠ .making w →
      (s.initSocket w ci a none).holdsObj r = s.holdsObj r := fun r h₁ h₂ => by
    rw [Sockets.initSocket, holdsObj_setPc _ _ _ h₁ h₂]
    cases r <;> rfl
  have htaken : (s.initSocket w ci a none).holdsObj (.taken w) = [] := by
    show ((s.initSocket w ci a none).worker w).pc.taken = []
    rw [Sockets.initSocket, setPc_pc_self]
    rfl
  have hmaking : (s.initSocket w ci a none).holdsObj (.making w) = [a] := by
    show ((s.initSocket w ci a none).worker w).pc.making = [a]
    rw [Sockets.initSocket, setPc_pc_self]
    rfl
  refine ⟨h.fds.move (f := ci.sfd) (p := some (.making w)) (q := some (.conn a))
    ⟨hos, fun g => ?_, fun r h₁ h₂ => ?_, fun r hr => ?_, fun r hr => ?_⟩ rfl fun _ => ?_,
    h.objs.move (a := a) (p := q) (q := some (.making w))
      ⟨hpost, fun b => ?_, fun r h₁ h₂ => ?_, fun r hr => ?_, fun r hr => ?_⟩ rfl fun _ => ?_,
    h.entries.update a (fun b hb => by rw [hheap, if_neg hb]) (fun _ _ _ => .rfl) hpc
      (fun f => ?_) fun c hc => ?_,
    h.sweep_setPc w (List.nil_subset _) List.nodup_nil, h.accepts_setPc w id⟩
  · simp [Sockets.initSocket, Sockets.setOs, Sockets.setObj, Sockets.setPc, Sockets.modWorker,
      Function.update_apply]
  · rw [Sockets.initSocket, holdsFd_setPc _ _ _ fun hr => h₁ (congrArg some hr)]
    cases r with
    | conn b =>
      show (((s.initSocket w ci a none).heap b).map Socket.live).getD [] = _
      rw [hheap, if_neg fun hb => h₂ (by rw [hb])]
      rfl
    | _ => rfl
  · cases hr
    show (ci.sfd :: ((s.initSocket w ci a none).worker w).pc.fds).Perm _
    rw [Sockets.initSocket, setPc_pc_self, hfds]
    exact .refl _
  · cases hr
    show ((((s.initSocket w ci a none).heap a).map Socket.live).getD []).Perm
      (ci.sfd :: ((s.heap a).map Socket.live).getD [])
    rw [hheap, if_pos rfl, hlive]
    exact .refl _
  · exact h.fds.lt (by rw [hos]; simp)
  · show ((s.initSocket w ci a none).heap b).map Socket.post = _
    rw [hheap]
    split <;> rfl
  · by_cases hr : r = .taken w
    · rw [hr, htaken]
      rcases hfree with ⟨-, hpre, -⟩ | ⟨rfl, -⟩
      · show [] = (s.worker w).pc.taken
        rw [hp]
        exact (congrArg Option.toList hpre).symm
      · exact absurd (congrArg some hr) h₁
    · exact hobj r hr fun hr => h₂ (congrArg some hr)
  · rcases hfree with ⟨rfl, -⟩ | ⟨rfl, hpre⟩
    · cases hr
    · cases hr
      rw [htaken]
      show [a].Perm (s.worker w).pc.taken
      rw [hp]
      exact .of_eq (congrArg Option.toList hpre).symm
  · cases hr
    rw [hmaking]
    show [a].Perm (a :: (s.worker w).pc.making)
    rw [hp]
    exact .refl _
  · rcases hfree with ⟨-, -, hge⟩ | ⟨rfl, -⟩
    · exact hge
    · refine h.objs.ge fun hnone => ?_
      rw [postAt, hnone] at hpost
      cases hpost
  · constructor
    · intro hf
      obtain ⟨c, hc, -, hin⟩ := (h.entries.entry f a).mp hf
      rw [postAt, hc, Option.map_some] at hpost
      rcases hfree with ⟨rfl, -⟩ | ⟨rfl, -⟩
      · cases hpost
      · refine absurd hin (not_inMap_of_unset ?_)
        rw [Option.some.inj hpost]
        trivial
    · rintro ⟨c, hc, -, hin⟩
      rw [hheap, if_pos rfl, Option.some.injEq] at hc
      subst hc
      have hin : ((s.initSocket w ci a none).worker w).pc.Mapped a := hin
      rw [Sockets.initSocket, setPc_pc_self] at hin
      cases hin
  · rw [hheap, if_pos rfl, Option.some.injEq] at hc
    subst hc
    refine ⟨by simp [Post.Unset], fun _ => rfl, fun _ hdup => (by cases hdup), fun {v f} hown => ?_,
      fun hpost => (by cases hpost)⟩
    rw [Sockets.initSocket, setPc_worker] at hown
    split at hown
    · exact congrArg some hown.1
    · exact absurd (hpost.symm.trans (h.post_of_owns hown)) (hne v).1

theorem initSocket_heap (s : Sockets) (w : ℕ) (ci : SockInfo) (a b : Addr) (dup : Option ℕ) :
    (s.initSocket w ci a dup).heap b =
      if b = a then some ⟨.making w, some ci.sfd, dup, ci.sfd :: dup.toList⟩ else s.heap b :=
  Function.update_apply ..

/-- The second descriptor of a connection. -/
theorem Good.initSocket_dup {w d : ℕ} {ci : SockInfo} {a : Addr}
    (h : (s.initSocket w ci a none).Good) (hd : (s.initSocket w ci a none).CanOpen d) :
    (s.initSocket w ci a (some d)).Good := by
  have hself : (s.initSocket w ci a none).os ci.sfd = some (.conn a) := by
    refine h.os_of_mem (c := ⟨.making w, some ci.sfd, none, [ci.sfd]⟩) ?_ (List.mem_singleton_self _)
    rw [initSocket_heap, if_pos rfl]
    rfl
  have hne : d ≠ ci.sfd := by
    rintro rfl
    rw [hd.2] at hself
    cases hself
  have hos : ∀ g, (s.initSocket w ci a (some d)).os g =
      if g = d then some (.conn a) else (s.initSocket w ci a none).os g := by
    intro g
    simp only [Sockets.initSocket, Sockets.setOs, Sockets.setObj, Sockets.setPc, Sockets.modWorker,
      Function.update_apply, Option.some.injEq, reduceCtorEq, if_false]
    by_cases hg : g = d
    · rw [if_pos hg, if_pos hg, if_neg fun hs => hne (hg.symm.trans hs)]
    · rw [if_neg hg, if_neg hg]
  have hobj := h.entries.obj (a := a) (by rw [initSocket_heap, if_pos rfl])
  refine ⟨h.fds.move (f := d) (p := none) (q := some (.conn a)) ⟨hd.2, hos, fun r _ h₂ => ?_,
      (by simp), fun r hr => ?_⟩ rfl fun _ => hd.1,
    h.objs.congr (funext fun b => ?_) (funext fun r => ?_) rfl,
    h.entries.update a (fun b hb => ?_) (fun _ _ _ => .rfl) (fun _ b _ => .refl b _) (fun f => ?_)
      fun c hc => ?_, h.sweep, h.accepts⟩
  · cases r with
    | conn b =>
      show (((s.initSocket w ci a (some d)).heap b).map Socket.live).getD [] =
        (((s.initSocket w ci a none).heap b).map Socket.live).getD []
      have hb : b ≠ a := fun hb => h₂ (by rw [hb])
      rw [initSocket_heap, initSocket_heap, if_neg hb, if_neg hb]
    | _ => rfl
  · cases hr
    show ((((s.initSocket w ci a (some d)).heap a).map Socket.live).getD []).Perm
      (d :: (((s.initSocket w ci a none).heap a).map Socket.live).getD [])
    rw [initSocket_heap, initSocket_heap, if_pos rfl, if_pos rfl]
    exact .swap d ci.sfd []
  · rw [postAt, postAt, initSocket_heap, initSocket_heap]
    split <;> rfl
  · cases r <;> rfl
  · rw [initSocket_heap, initSocket_heap, if_neg hb, if_neg hb]
  · show (s.initSocket w ci a none).connsMap f = some a ↔ _
    rw [h.entries.entry f a, initSocket_heap, initSocket_heap, if_pos rfl, if_pos rfl]
    constructor
    · rintro ⟨c, ⟨⟩, hsfd, hin⟩
      exact ⟨_, rfl, hsfd, hin⟩
    · rintro ⟨c, ⟨⟩, hsfd, hin⟩
      exact ⟨_, rfl, hsfd, hin⟩
  · rw [initSocket_heap, if_pos rfl, Option.some.injEq] at hc
    subst hc
    refine ⟨by simp [Post.Unset], fun _ => rfl, fun _ _ hsfd => ?_, fun hown => hobj.own hown,
      fun hpost => (by cases hpost)⟩
    rw [← Option.some.inj hsfd]
    exact List.mem_cons_self

/-- `create_conn` past its test, where an object is set up. -/
theorem Good.createConn (h : s.Good) {w : ℕ} {ci : SockInfo} {dup : Option ℕ} {fresh : Addr}
    (hp : (s.worker w).pc = .checked ci) (hdup : ∀ d ∈ dup, s.CanOpen d)
    (hfresh : ci.preNew = none → s.Fresh fresh) :
    (s.initSocket w ci (ci.preNew.getD fresh) dup).Good := by
  have hfree : ∃ q, s.Free w ci (ci.preNew.getD fresh) q := by
    cases hpre : ci.preNew with
    | none =>
      refine ⟨none, ?_, .inl ⟨rfl, hpre, (hfresh hpre).2⟩⟩
      show s.postAt fresh = none
      rw [postAt, (hfresh hpre).1]
      rfl
    | some a =>
      refine ⟨some (.taken w), h.objs.placed.mem (p := .taken w) ?_, .inr ⟨rfl, hpre⟩⟩
      show a ∈ (s.worker w).pc.taken
      rw [hp]
      show a ∈ ci.preNew.toList
      rw [hpre]
      exact List.mem_singleton_self a
  obtain ⟨q, hq⟩ := hfree
  have hset := h.initSocket hp hq
  cases dup with
  | none => exact hset
  | some d =>
    obtain ⟨hlt, hnone⟩ := hdup d rfl
    refine hset.initSocket_dup ⟨hlt, ?_⟩
    have hne : d ≠ ci.sfd := by
      rintro rfl
      have hos : s.os ci.sfd = some (.making w) := by
        refine h.fds.placed.mem (p := .making w) ?_
        show ci.sfd ∈ (s.worker w).pc.fds
        rw [hp]
        exact List.mem_singleton_self _
      rw [hnone] at hos
      cases hos
    simp only [Sockets.initSocket, Sockets.setOs, Sockets.setObj, Sockets.setPc, Sockets.modWorker,
      Function.update_apply, reduceCtorEq, if_false, if_neg hne]
    exact hnone

/-- `create_conn` past its test, where `event_add` fails. -/
theorem Good.createFail (h : s.Good) {w : ℕ} {ci : SockInfo} (hp : (s.worker w).pc = .checked ci) :
    ((s.setOs ci.sfd none).setPc w (.failed ci)).Good := by
  have hfds : s.holdsFd (.making w) = [ci.sfd] := by rw [holdsFd, hp]; rfl
  have hpc : ∀ v b, SockPc.Calm b (s.worker v).pc
      (((s.setOs ci.sfd none).setPc w (.failed ci)).worker v).pc := by
    intro v b
    have hcalm : SockPc.Calm b (.checked ci) (.failed ci) := ⟨.rfl, .rfl, id, id, fun _ => id⟩
    exact calm_setPc hp hcalm v
  refine ⟨h.fds.move (f := ci.sfd) (p := some (.making w)) (q := none)
    ⟨h.fds.placed.mem (p := .making w) (hfds ▸ List.mem_singleton_self _), fun g => setOs_os ..,
      fun r h₁ _ => ?_, fun r hr => ?_, by simp⟩ rfl fun hq => absurd rfl hq,
    h.objs.congr rfl (funext fun r => ?_) rfl, h.entries.of_calm rfl rfl hpc,
    h.sweep_setPc w (List.nil_subset _) List.nodup_nil, h.accepts_setPc w id⟩
  · rw [holdsFd_setPc _ _ _ fun hr => h₁ (congrArg some hr)]
    cases r <;> rfl
  · cases hr
    rw [hfds]
    show (ci.sfd :: ((s.setPc w (.failed ci)).worker w).pc.fds).Perm [ci.sfd]
    rw [setPc_pc_self]
    exact .refl _
  · by_cases h₁ : r = .taken w
    · subst h₁
      show ((s.setPc w (.failed ci)).worker w).pc.taken = (s.worker w).pc.taken
      rw [setPc_pc_self, hp]
      rfl
    · by_cases h₂ : r = .making w
      · subst h₂
        show ((s.setPc w (.failed ci)).worker w).pc.making = (s.worker w).pc.making
        rw [setPc_pc_self, hp]
        rfl
      · rw [holdsObj_setPc _ _ _ h₁ h₂]
        cases r <;> rfl

/-- The places of the worker's program points, where it has nothing before and after. -/
theorem holdsObj_setPc_same {w : ℕ} {p q : SockPc} (hp : (s.worker w).pc = p)
    (htaken : q.taken = p.taken) (hmaking : q.making = p.making) :
    (s.setPc w q).holdsObj = s.holdsObj := by
  funext r
  by_cases h₁ : r = .taken w
  · subst h₁
    show ((s.setPc w q).worker w).pc.taken = (s.worker w).pc.taken
    rw [setPc_pc_self, hp, htaken]
  · by_cases h₂ : r = .making w
    · subst h₂
      show ((s.setPc w q).worker w).pc.making = (s.worker w).pc.making
      rw [setPc_pc_self, hp, hmaking]
    · exact holdsObj_setPc _ _ _ h₁ h₂

theorem holdsFd_setPc_same {w : ℕ} {p q : SockPc} (hp : (s.worker w).pc = p) (hfds : q.fds = p.fds) :
    (s.setPc w q).holdsFd = s.holdsFd := by
  funext r
  by_cases hr : r = .making w
  · subst hr
    show ((s.setPc w q).worker w).pc.fds = (s.worker w).pc.fds
    rw [setPc_pc_self, hp, hfds]
  · exact holdsFd_setPc _ _ _ hr

theorem calm_failed_loop (b : Addr) (ci : SockInfo) : SockPc.Calm b (.failed ci) .loop :=
  ⟨.rfl, .rfl, id, id, fun _ => id⟩

/-- `thread_libevent_process` gives up, and its second `close` closes nothing. -/
theorem Good.giveUp (h : s.Good) {w : ℕ} {ci : SockInfo} (hp : (s.worker w).pc = .failed ci)
    (hclosed : s.os ci.sfd = none) : (s.giveUp w ci).Good := by
  have hos : Function.update s.os ci.sfd none = s.os := by
    rw [← hclosed]
    exact Function.update_eq_self ..
  obtain ⟨pre, fd⟩ := ci
  cases pre with
  | none =>
    have hsame : s.giveUp w ⟨none, fd⟩ = s.setPc w .loop := by
      show { s with os := Function.update s.os fd none }.setPc w .loop = _
      rw [hos]
    rw [hsame]
    exact h.setPc hp rfl rfl rfl (fun b => calm_failed_loop b _) (List.nil_subset _) List.nodup_nil id
  | some a =>
    have hsame : s.giveUp w ⟨some a, fd⟩ = (s.setObj a none).setPc w .loop := by
      show ({ s with os := Function.update s.os fd none }.setObj a none).setPc w .loop = _
      rw [hos]
    have hpost : s.postAt a = some (.taken w) := by
      refine h.objs.placed.mem (p := .taken w) ?_
      show a ∈ (s.worker w).pc.taken
      rw [hp]
      exact List.mem_singleton_self a
    have hheap : ∀ b, ((s.setObj a none).setPc w .loop).heap b = if b = a then none else s.heap b :=
      fun b => setObj_heap ..
    rw [hsame]
    refine ⟨h.fds.of_sublist rfl (fun r => ?_) rfl,
      h.objs.move (a := a) (p := some (.taken w)) (q := none)
        ⟨hpost, fun b => ?_, fun r h₁ _ => ?_, fun r hr => ?_, nofun⟩ rfl fun hq => absurd rfl hq,
      h.entries.update a (fun b hb => by rw [hheap, if_neg hb]) (fun _ _ _ => .rfl)
        (fun v b _ => calm_setPc hp (calm_failed_loop b _) v) (fun f => ?_) fun c hc => ?_,
      h.sweep_setPc w (List.nil_subset _) List.nodup_nil, h.accepts_setPc w id⟩
    · rw [holdsFd_setPc_same (s := s.setObj a none) (q := .loop) hp rfl]
      cases r with
      | conn b =>
        show (((s.setObj a none).heap b).map Socket.live).getD [] |>.Sublist _
        rw [setObj_heap]
        split
        · exact List.nil_sublist _
        · exact .refl _
      | _ => exact .refl _
    · show (((s.setObj a none).setPc w .loop).heap b).map Socket.post = _
      rw [hheap]
      split <;> rfl
    · have hr : r ≠ .taken w := fun hr => h₁ (congrArg some hr)
      by_cases h₂ : r = .making w
      · subst h₂
        show (((s.setObj a none).setPc w .loop).worker w).pc.making = (s.worker w).pc.making
        rw [setPc_pc_self, hp]
        rfl
      · rw [holdsObj_setPc _ _ _ hr h₂]
        cases r <;> rfl
    · cases hr
      show (a :: (((s.setObj a none).setPc w .loop).worker w).pc.taken).Perm (s.worker w).pc.taken
      rw [setPc_pc_self, hp]
      exact .refl _
    · rw [hheap, if_pos rfl]
      constructor
      · intro hf
        obtain ⟨c, hc, -, hin⟩ := (h.entries.entry f a).mp hf
        rw [postAt, hc, Option.map_some, Option.some.injEq] at hpost
        exact absurd hin (not_inMap_of_unset (by rw [hpost]; trivial))
      · rintro ⟨c, hc, -⟩
        cases hc
    · rw [hheap, if_pos rfl] at hc
      cases hc

/-- The connection that is about to be put into `s_conns_map`, and its descriptor. -/
theorem Good.made (h : s.Good) {w : ℕ} {ci : SockInfo} {a : Addr}
    (hp : (s.worker w).pc = .made ci a) : ∃ c, s.heap a = some c ∧ c.post = .making w ∧
      c.sfd = some ci.sfd ∧ s.os ci.sfd = some (.conn a) := by
  have hat : s.postAt a = some (.making w) := h.post_of_owns (f := ci.sfd) (by rw [hp]; exact ⟨rfl, rfl⟩)
  obtain ⟨c, hc, hpost⟩ := Option.map_eq_some_iff.mp hat
  have hok := h.entries.obj hc
  have hsfd : c.sfd = some ci.sfd := hok.own (w := w) (by rw [hp]; exact ⟨rfl, rfl⟩)
  refine ⟨c, hc, hpost, hsfd, h.os_of_mem hc ?_⟩
  rw [hok.live (by rw [InUse, hpost]; trivial), Socket.fds, hsfd]
  exact List.mem_cons_self

/-- Nothing is overwritten. -/
theorem Good.not_key_of_made (h : s.Good) {w : ℕ} {ci : SockInfo} {a : Addr}
    (hp : (s.worker w).pc = .made ci a) : s.connsMap ci.sfd = none := by
  obtain ⟨c, hc, hpost, -, hos⟩ := h.made hp
  by_contra hne
  obtain ⟨b, hb⟩ := Option.ne_none_iff_exists'.mp hne
  have hba := (h.os_of_entry hb).symm.trans hos
  simp only [Option.some.injEq, Holder.conn.injEq] at hba
  subst hba
  obtain ⟨d, hd, -, hin⟩ := (h.entries.entry ci.sfd b).mp hb
  rw [hc, Option.some.injEq] at hd
  subst hd
  rw [InMap, hpost] at hin
  have hin : (s.worker w).pc.Mapped b := hin
  rw [hp] at hin
  cases hin

/-- `s_conns_map[sfd] = _ret`. -/
theorem Good.mapConn (h : s.Good) {w : ℕ} {ci : SockInfo} {a : Addr}
    (hp : (s.worker w).pc = .made ci a) :
    ((s.setMap ci.sfd (some a)).setPc w (.mapped ci a)).Good := by
  obtain ⟨c, hc, hpost, hsfd, -⟩ := h.made hp
  have hfree := h.not_key_of_made hp
  have hmap : ∀ f, ((s.setMap ci.sfd (some a)).setPc w (.mapped ci a)).connsMap f =
      if f = ci.sfd then some a else s.connsMap f := fun f => setMap_connsMap ..
  have hpc : ∀ v b, b ≠ a → SockPc.Calm b (s.worker v).pc
      (((s.setMap ci.sfd (some a)).setPc w (.mapped ci a)).worker v).pc := by
    intro v b hb
    have hcalm : SockPc.Calm b (.made ci a) (.mapped ci a) :=
      ⟨⟨fun hba => absurd hba.symm hb, False.elim⟩, .rfl, id, id, fun _ => id⟩
    exact calm_setPc hp hcalm v
  refine ⟨h.fds.congr rfl (holdsFd_setPc_same (s := s.setMap ci.sfd (some a)) hp rfl) rfl,
    h.objs.congr rfl (holdsObj_setPc_same (s := s.setMap ci.sfd (some a)) hp rfl rfl) rfl,
    h.entries.update a (fun _ _ => rfl) (fun f b hb => ?_) hpc (fun f => ?_) fun d hd => ?_,
    h.sweep_setPc w (List.nil_subset _) List.nodup_nil, h.accepts_setPc w id⟩
  · rw [hmap]
    split
    · next hf =>
      subst hf
      rw [hfree]
      exact ⟨fun hab => absurd (Option.some.inj hab).symm hb, nofun⟩
    · exact .rfl
  · rw [hmap]
    constructor
    · intro hf
      split at hf
      · next heq =>
        refine ⟨c, hc, heq ▸ hsfd, ?_⟩
        rw [InMap, hpost]
        show (((s.setMap ci.sfd (some a)).setPc w (.mapped ci a)).worker w).pc.Mapped a
        rw [setPc_pc_self]
        rfl
      · next heq =>
        obtain ⟨d, hd, hsfd', -⟩ := (h.entries.entry f a).mp hf
        rw [hc, Option.some.injEq] at hd
        subst hd
        exact absurd (Option.some.inj (hsfd'.symm.trans hsfd)) heq
    · rintro ⟨d, hd, hsfd', -⟩
      have hd : s.heap a = some d := hd
      rw [hc, Option.some.injEq] at hd
      subst hd
      rw [if_pos (Option.some.inj (hsfd'.symm.trans hsfd))]
  · refine (h.entries.obj (c := d) hd).of_pc (fun v => ?_) (fun v => ?_) fun v f => ?_
    all_goals
      rw [setPc_worker]
      split
    · next hv =>
      subst hv
      show a ∈ (s.worker v).pc.shut → a ∈ []
      rw [hp]
      exact id
    · exact id
    · exact False.elim
    · exact id
    · next hv =>
      subst hv
      show (SockPc.mapped ci a).Owns f a → (s.worker v).pc.Owns f a
      rw [hp]
      exact id
    · exact id

/-- `thread_connections_[conn] = conn`. -/
theorem Good.register (h : s.Good) {w : ℕ} {ci : SockInfo} {a : Addr}
    (hp : (s.worker w).pc = .counted ci a) : (s.register w a).Good := by
  have hat : s.postAt a = some (.making w) :=
    h.post_of_owns (f := ci.sfd) (by rw [hp]; exact ⟨rfl, rfl⟩)
  obtain ⟨c, hc, hpost⟩ := Option.map_eq_some_iff.mp hat
  have hok := h.entries.obj hc
  have hsfd : c.sfd = some ci.sfd := hok.own (w := w) (by rw [hp]; exact ⟨rfl, rfl⟩)
  have hworker : ∀ v, (s.register w a).worker v = if v = w then
      { s.worker v with pc := .loop, threadConnections := a :: (s.worker v).threadConnections }
      else s.worker v := fun v => modWorker_worker ..
  have hheap : ∀ b, (s.register w a).heap b =
      if b = a then (s.heap b).map fun c => { c with post := .registered w } else s.heap b :=
    fun b => setPost_heap ..
  have hcalm : ∀ v b, b ≠ a → SockPc.Calm b (s.worker v).pc ((s.register w a).worker v).pc := by
    intro v b hb
    rw [hworker]
    split
    · next hv =>
      subst hv
      rw [hp]
      exact ⟨⟨False.elim, fun hba => hb hba.symm⟩, .rfl, id, id, fun _ => False.elim⟩
    · exact .refl b _
  have hloop : ((s.register w a).worker w).pc = .loop := by rw [hworker, if_pos rfl]
  refine ⟨h.fds.congr rfl (funext fun r => ?_) rfl,
    h.objs.move (a := a) (p := some (.making w)) (q := some (.registered w))
      ⟨hat, fun b => setPost_postAt hat b _, fun r h₁ h₂ => ?_, fun r hr => ?_, fun r hr => ?_⟩ rfl
      fun _ => ?_,
    h.entries.update a (fun b hb => by rw [hheap, if_neg hb]) (fun _ _ _ => .rfl) hcalm (fun f => ?_)
      fun d hd => ?_,
    fun v => ?_, fun v => ?_⟩
  · cases r with
    | handed v =>
      show ((s.register w a).worker v).newConnections.map _ = _
      rw [hworker]
      split <;> rfl
    | making v =>
      show ((s.register w a).worker v).pc.fds = (s.worker v).pc.fds
      rw [hworker]
      split
      · next hv =>
        rw [hv, hp]
        rfl
      · rfl
    | conn b => exact congrArg (fun l => l.getD []) (setPost_live s a b (.registered w))
    | _ => rfl
  · cases r with
    | handed v | retired v =>
      simp only [holdsObj]
      rw [hworker]
      split <;> rfl
    | taken v =>
      show ((s.register w a).worker v).pc.taken = (s.worker v).pc.taken
      rw [hworker]
      split
      · next hv =>
        rw [hv, hp]
        rfl
      · rfl
    | making v =>
      show ((s.register w a).worker v).pc.making = _
      rw [hworker, if_neg fun hv => h₁ (by rw [hv])]
      rfl
    | registered v =>
      show ((s.register w a).worker v).threadConnections = _
      rw [hworker, if_neg fun hv => h₂ (by rw [hv])]
      rfl
    | _ => rfl
  · cases hr
    show (a :: ((s.register w a).worker w).pc.making).Perm (s.worker w).pc.making
    rw [hloop, hp]
    exact .refl _
  · cases hr
    show ((s.register w a).worker w).threadConnections.Perm _
    rw [hworker, if_pos rfl]
    exact .refl _
  · refine h.objs.ge fun hnone => ?_
    rw [hc] at hnone
    cases hnone
  · show s.connsMap f = some a ↔ _
    rw [h.entries.entry f a, hheap, if_pos rfl, hc]
    constructor
    · rintro ⟨d, ⟨⟩, hf, -⟩
      refine ⟨_, rfl, hf, ?_⟩
      show a ∉ ((s.register w a).worker w).pc.gone
      rw [hloop]
      exact List.not_mem_nil
    · rintro ⟨d, ⟨⟩, hf, -⟩
      refine ⟨c, rfl, hf, ?_⟩
      rw [InMap, hpost]
      show (s.worker w).pc.Mapped a
      rw [hp]
      rfl
  · rw [hheap, if_pos rfl, hc, Option.map_some, Option.some.injEq] at hd
    subst hd
    refine ⟨by simp [Post.Unset], fun _ => hok.live (by rw [InUse, hpost]; trivial), fun {v f d} hh => ?_,
      fun {v f} hown => ?_, fun _ => by rw [hsfd]; rfl⟩
    · rw [hworker] at hh
      split at hh
      · cases hh
      · exact absurd (hat.symm.trans (h.post_of_halved hh)) (by simp)
    · rw [hworker] at hown
      split at hown
      · cases hown
      · next hv =>
        have heq := hat.symm.trans (h.post_of_owns hown)
        simp only [Option.some.injEq, Post.making.injEq] at heq
        exact absurd heq.symm hv
  · rw [hworker]
    split
    · exact sweepOk_of_nil rfl
    · exact h.sweep v
  · rw [hworker]
    split
    · exact id
    · exact h.accepts v

end Sockets

end GoFight.Net
