import GoFight.Net.SocketSteps

/-!
# The registry of open sockets over runs

How a connection leaves the registry, and from all the steps what holds in every run.

* `Good.eraseConn`, `Good.closeDup`, `Good.closeSock`, `Good.uncount` — `conn_internal_close`;
* `Good.removeSwept`, `Good.delete` — the end of the sweep, and the deletion of an object;
* `Good.step` — the step lemma, as long as the second `close` behind a failed `create_conn` closes
  nothing; `registryOk_of_reach` — the run theorem, where `dup` and `event_add` succeed.
-/

namespace GoFight.Net

open GoFight.Lib

namespace Sockets

variable {s s' : Sockets}

/-! ### The close sweep -/

/-- What the sweep is at is registered, and was not swept before. -/
theorem Good.registered_of_addrs (h : s.Good) {w : ℕ} {p : SockPc} {a : Addr} {l : List Addr}
    (hp : (s.worker w).pc = p) (hl : p.addrs = a :: l) :
    s.postAt a = some (.registered w) ∧ a ∉ l := by
  have hok := h.sweep w
  have hsub := hok.subset
  have hnd := hok.nodup
  rw [hp, hl] at hsub hnd
  exact ⟨h.objs.placed.mem (p := .registered w) (hsub List.mem_cons_self), (List.nodup_cons.mp hnd).1⟩

/-- What `conn_internal_close` erases is there. -/
theorem Good.key_of_erasing (h : s.Good) {w : ℕ} {a : Addr} {todo removeIds : List Addr} {c : Socket}
    (hp : (s.worker w).pc = .erasing a todo removeIds) (hc : s.heap a = some c) :
    ∃ f, c.sfd = some f ∧ s.connsMap f = some a := by
  obtain ⟨hat, hnot⟩ := h.registered_of_addrs hp rfl
  have hpost : c.post = .registered w := by
    rw [postAt, hc, Option.map_some, Option.some.injEq] at hat
    exact hat
  obtain ⟨f, hsfd⟩ := Option.isSome_iff_exists.mp ((h.entries.obj hc).set hpost)
  refine ⟨f, hsfd, (h.entries.entry f a).mpr ⟨c, hc, hsfd, ?_⟩⟩
  rw [InMap, hpost]
  show a ∉ (s.worker w).pc.gone
  rw [hp]
  exact fun hmem => hnot (List.mem_append_right _ hmem)

/-- The erase from `s_conns_map`. -/
theorem Good.eraseConn (h : s.Good) {w : ℕ} {a : Addr} {todo removeIds : List Addr} {c : Socket}
    (hp : (s.worker w).pc = .erasing a todo removeIds) (hc : s.heap a = some c) :
    ((s.eraseConn c).setPc w (.closeDup a todo removeIds)).Good := by
  obtain ⟨hat, -⟩ := h.registered_of_addrs hp rfl
  have hpost : c.post = .registered w := by
    rw [postAt, hc, Option.map_some, Option.some.injEq] at hat
    exact hat
  obtain ⟨f, hsfd, hentry⟩ := h.key_of_erasing hp hc
  have herase : s.eraseConn c = s.setMap f none := by
    unfold Sockets.eraseConn
    rw [hsfd]
  have hmap : ∀ g, ((s.setMap f none).setPc w (.closeDup a todo removeIds)).connsMap g =
      if g = f then none else s.connsMap g := fun g => setMap_connsMap ..
  have hpc : ∀ v b, b ≠ a → SockPc.Calm b (s.worker v).pc
      (((s.setMap f none).setPc w (.closeDup a todo removeIds)).worker v).pc := by
    intro v b hb
    have hcalm : SockPc.Calm b (.erasing a todo removeIds) (.closeDup a todo removeIds) :=
      ⟨.rfl, ⟨fun hmem => (List.mem_cons.mp hmem).resolve_left hb, List.mem_cons_of_mem a⟩, id, id,
        fun _ => id⟩
    exact calm_setPc hp hcalm v
  rw [herase]
  refine ⟨h.fds.congr rfl (holdsFd_setPc_same (s := s.setMap f none) hp rfl) rfl,
    h.objs.congr rfl (holdsObj_setPc_same (s := s.setMap f none) hp rfl rfl) rfl,
    h.entries.update a (fun _ _ => rfl) (fun g b hb => ?_) hpc (fun g => ?_) fun d hd => ?_,
    h.sweep_setPc w ?_ ?_, h.accepts_setPc w id⟩
  · rw [hmap]
    split
    · next hg =>
      rw [hg, hentry]
      exact ⟨by simp, fun hab => absurd (Option.some.inj hab).symm hb⟩
    · exact .rfl
  · rw [hmap]
    constructor
    · intro hg
      split at hg
      · cases hg
      · next hne =>
        obtain ⟨d, hd, hsfd', -⟩ := (h.entries.entry g a).mp hg
        rw [hc, Option.some.injEq] at hd
        subst hd
        exact absurd (Option.some.inj (hsfd'.symm.trans hsfd)) hne
    · rintro ⟨d, hd, -, hin⟩
      have hd : s.heap a = some d := hd
      rw [hc, Option.some.injEq] at hd
      subst hd
      rw [InMap, hpost] at hin
      have hin : a ∉ (((s.setMap f none).setPc w (.closeDup a todo removeIds)).worker w).pc.gone := hin
      rw [setPc_pc_self] at hin
      exact absurd List.mem_cons_self hin
  · refine (h.entries.obj (c := d) hd).of_pc (fun v => ?_) (fun v => ?_) fun v f => ?_
    all_goals
      rw [setPc_worker]
      split
    · next hv =>
      subst hv
      show a ∈ (s.worker v).pc.shut → a ∈ removeIds
      rw [hp]
      exact id
    · exact id
    · exact False.elim
    · exact id
    · exact False.elim
    · exact id
  · have hsub := (h.sweep w).subset
    rwa [hp] at hsub
  · have hnd := (h.sweep w).nodup
    rwa [hp] at hnd

/-- A descriptor of the connection the sweep is at is closed. -/
theorem Good.closeOf (h : s.Good) {w f : ℕ} {a : Addr} {l : List Addr} {p q : SockPc} {c : Socket}
    (hp : (s.worker w).pc = p) (hl : p.addrs = a :: l) (hc : s.heap a = some c) (hf : f ∈ c.live)
    (hfds : q.fds = p.fds) (htaken : q.taken = p.taken) (hmaking : q.making = p.making)
    (hcalm : ∀ b, b ≠ a → SockPc.Calm b p q) (hgone : a ∈ p.gone ∧ a ∈ q.gone) (hshut : a ∈ q.shut)
    (haddrs : q.addrs = p.addrs) (hown : ∀ f, ¬ q.Owns f a) (hrej : ¬ q.Rejects)
    (hhalved : q.Halved a → ∀ d g, c.dup = some d → c.sfd = some g → g ∈ c.live.erase f) :
    ((s.closeOf a c f).setPc w q).Good := by
  obtain ⟨hat, -⟩ := h.registered_of_addrs hp hl
  have hpost : c.post = .registered w := by
    rw [postAt, hc, Option.map_some, Option.some.injEq] at hat
    exact hat
  have hok := h.entries.obj hc
  have hheap : ∀ b, ((s.closeOf a c f).setPc w q).heap b =
      if b = a then some { c with live := c.live.erase f } else s.heap b :=
    fun b => Function.update_apply ..
  have hother : ∀ {v : ℕ} {r : SockPc → Prop}, v ≠ w →
      (r ((s.closeOf a c f).setPc w q |>.worker v).pc ↔ r (s.worker v).pc) := by
    intro v r hv
    rw [setPc_worker, if_neg hv]
    exact .rfl
  refine ⟨h.fds.move (f := f) (p := some (.conn a)) (q := none)
      ⟨h.os_of_mem hc hf, fun g => Function.update_apply .., fun r h₁ _ => ?_, fun r hr => ?_, by simp⟩
      rfl fun hq => absurd rfl hq,
    h.objs.congr (funext fun b => ?_)
      ((holdsObj_setPc_same (s := s.closeOf a c f) hp htaken hmaking).trans (funext fun r => ?_)) rfl,
    h.entries.update a (fun b hb => by rw [hheap, if_neg hb]) (fun _ _ _ => .rfl)
      (fun v b hb => calm_setPc hp (hcalm b hb) v) (fun g => ?_) fun d hd => ?_,
    h.sweep_setPc w ?_ ?_, h.accepts_setPc w hrej⟩
  · rw [holdsFd_setPc_same (s := s.closeOf a c f) hp hfds]
    cases r with
    | conn b =>
      show (((s.closeOf a c f).setPc w q).heap b |>.map Socket.live).getD [] = _
      rw [hheap, if_neg fun hb => h₁ (by rw [hb])]
      rfl
    | _ => rfl
  · cases hr
    show (f :: (((s.closeOf a c f).setPc w q).heap a |>.map Socket.live).getD []).Perm
      (((s.heap a).map Socket.live).getD [])
    rw [hheap, if_pos rfl, hc]
    exact (List.perm_cons_erase hf).symm
  · rw [postAt, postAt, hheap]
    split
    · next hb =>
      rw [hb, hc]
      rfl
    · rfl
  · cases r <;> rfl
  · show s.connsMap g = some a ↔ _
    rw [h.entries.entry g a, hheap, if_pos rfl, hc]
    have hfalse : ∀ {d : Socket}, d.post = .registered w → ¬ s.InMap a d := by
      intro d hd hin
      rw [InMap, hd] at hin
      exact hin (by rw [hp]; exact hgone.1)
    constructor
    · rintro ⟨d, ⟨⟩, -, hin⟩
      exact absurd hin (hfalse hpost)
    · rintro ⟨d, ⟨⟩, -, hin⟩
      rw [InMap] at hin
      dsimp only at hin
      rw [hpost] at hin
      refine absurd ?_ hin
      rw [setPc_pc_self]
      exact hgone.2
  · rw [hheap, if_pos rfl, Option.some.injEq] at hd
    subst hd
    refine ⟨fun hunset => ?_, fun hin => ?_, fun {v g d} hh hdup hsfd => ?_, fun {v g} hh => ?_,
      fun hset => hok.set hset⟩
    · have hunset : c.post.Unset := hunset
      rw [hpost] at hunset
      cases hunset
    · rw [InUse] at hin
      dsimp only at hin
      rw [hpost] at hin
      refine absurd ?_ hin
      rw [setPc_pc_self]
      exact hshut
    · by_cases hv : v = w
      · rw [hv, setPc_pc_self] at hh
        exact hhalved hh d g hdup hsfd
      · have hpo := hat.symm.trans (h.post_of_halved ((hother (r := SockPc.Halved a) hv).mp hh))
        simp only [Option.some.injEq, Post.registered.injEq] at hpo
        exact absurd hpo.symm hv
    · by_cases hv : v = w
      · rw [hv, setPc_pc_self] at hh
        exact absurd hh (hown g)
      · exact absurd (hat.symm.trans (h.post_of_owns ((hother (r := SockPc.Owns g a) hv).mp hh))) (by simp)
  · have hsub := (h.sweep w).subset
    rwa [hp, ← haddrs] at hsub
  · have hnd := (h.sweep w).nodup
    rwa [hp, ← haddrs] at hnd

/-- `close(sfd_dup_for_write_)`, where there is one. -/
theorem Good.closeDup (h : s.Good) {w : ℕ} {a : Addr} {todo removeIds : List Addr} {c : Socket}
    (hp : (s.worker w).pc = .closeDup a todo removeIds) (hc : s.heap a = some c) :
    ((s.closeDupOf a c).setPc w (.closeSock a todo removeIds)).Good := by
  obtain ⟨hat, hnot⟩ := h.registered_of_addrs hp rfl
  have hpost : c.post = .registered w := by
    rw [postAt, hc, Option.map_some, Option.some.injEq] at hat
    exact hat
  have hlive : c.live = c.fds := by
    refine (h.entries.obj hc).live ?_
    rw [InUse, hpost]
    show a ∉ (s.worker w).pc.shut
    rw [hp]
    exact fun hmem => hnot (List.mem_append_right _ hmem)
  have hcalm : ∀ b, b ≠ a → SockPc.Calm b (.closeDup a todo removeIds) (.closeSock a todo removeIds) :=
    fun b hb => ⟨.rfl, .rfl, List.mem_cons_of_mem a, fun hh => hb (Eq.symm hh), fun _ => id⟩
  cases hdup : c.dup with
  | none =>
    have hsame : s.closeDupOf a c = s := by
      unfold Sockets.closeDupOf
      rw [hdup]
    rw [hsame]
    refine ⟨h.fds.congr rfl (holdsFd_setPc_same hp rfl) rfl,
      h.objs.congr rfl (holdsObj_setPc_same hp rfl rfl) rfl,
      h.entries.update a (fun _ _ => rfl) (fun _ _ _ => .rfl)
        (fun v b hb => calm_setPc hp (hcalm b hb) v) (fun f => ?_) fun d hd => ?_,
      h.sweep_setPc w ?_ ?_, h.accepts_setPc w id⟩
    · refine (h.entries.entry f a).trans (exists_congr fun d => and_congr_right fun hd =>
        and_congr_right fun _ => ?_)
      rw [hc, Option.some.injEq] at hd
      rw [InMap, InMap, ← hd, hpost]
      show a ∉ (s.worker w).pc.gone ↔ a ∉ ((s.setPc w (.closeSock a todo removeIds)).worker w).pc.gone
      rw [setPc_pc_self, hp]
      exact .rfl
    · have hd' : s.heap a = some d := hd
      rw [hc, Option.some.injEq] at hd'
      subst hd'
      refine ⟨(h.entries.obj hc).unset, fun _ => hlive, fun _ hsome => ?_, fun {v f} hown => ?_,
        (h.entries.obj hc).set⟩
      · rw [hdup] at hsome
        cases hsome
      · rw [setPc_worker] at hown
        split at hown
        · cases hown
        · exact (h.entries.obj hc).own hown
    · have hsub := (h.sweep w).subset
      rwa [hp] at hsub
    · have hnd := (h.sweep w).nodup
      rwa [hp] at hnd
  | some d =>
    have hsame : s.closeDupOf a c = s.closeOf a c d := by
      unfold Sockets.closeDupOf
      rw [hdup]
    have hnd : c.fds.Nodup := by
      have hheld := h.fds.placed.nodup (.conn a)
      rw [holdsFd, hc] at hheld
      exact hlive ▸ hheld
    rw [hsame]
    refine h.closeOf hp rfl hc ?_ rfl rfl rfl hcalm ⟨List.mem_cons_self, List.mem_cons_self⟩
      List.mem_cons_self rfl (fun _ => id) id fun _ e g hd hsfd => ?_
    · rw [hlive, Socket.fds, hdup]
      exact List.mem_append_right _ (List.mem_singleton_self d)
    · rw [Socket.fds, hsfd, hdup] at hnd
      have hne : g ≠ d := fun hgd => (List.nodup_cons.mp hnd).1 (hgd ▸ List.mem_singleton_self _)
      rw [hlive, Socket.fds, hsfd, hdup]
      exact (List.mem_erase_of_ne hne).mpr List.mem_cons_self

/-- `close(sfd_)`, where there was a second descriptor. -/
theorem Good.closeSock (h : s.Good) {w : ℕ} {a : Addr} {todo removeIds : List Addr} {c : Socket}
    (hp : (s.worker w).pc = .closeSock a todo removeIds) (hc : s.heap a = some c) :
    ((s.closeSockOf a c).setPc w (.uncount a todo removeIds)).Good := by
  have hcalm : ∀ b, SockPc.Calm b (.closeSock a todo removeIds) (.uncount a todo removeIds) :=
    fun b => ⟨.rfl, .rfl, id, False.elim, fun _ => id⟩
  have hsub := (h.sweep w).subset
  have hnd := (h.sweep w).nodup
  rw [hp] at hsub hnd
  unfold closeSockOf
  split
  · next d f hdup hsfd =>
    refine h.closeOf hp rfl hc ?_ rfl rfl rfl (fun b _ => hcalm b)
      ⟨List.mem_cons_self, List.mem_cons_self⟩ List.mem_cons_self rfl (fun _ => id) id False.elim
    refine (h.entries.obj hc).halved (w := w) ?_ hdup hsfd
    rw [hp]
    rfl
  · exact h.setPc hp rfl rfl rfl hcalm hsub hnd id

/-- The next connection of the sweep. -/
theorem Good.uncount (h : s.Good) {w : ℕ} {a : Addr} {todo removeIds : List Addr}
    (hp : (s.worker w).pc = .uncount a todo removeIds) :
    ({ s with currConns := s.currConns - 1 }.setPc w (.sweep todo (removeIds ++ [a]))).Good := by
  have hsub := (h.sweep w).subset
  have hnd := (h.sweep w).nodup
  rw [hp] at hsub hnd
  have hmem : ∀ b, b ∈ removeIds ++ [a] ↔ b ∈ a :: removeIds := fun b => by
    rw [List.mem_append, List.mem_singleton, List.mem_cons, or_comm]
  have hperm : (todo ++ (removeIds ++ [a])).Perm (a :: (todo ++ removeIds)) := by
    rw [← List.append_assoc]
    exact List.perm_append_singleton a _
  refine (h.setCount _).setPc hp rfl rfl rfl
    (fun b => ⟨.rfl, hmem b, (hmem b).mpr, False.elim, fun _ => id⟩) ?_ ?_ id
  · exact fun b hb => hsub (hperm.subset hb)
  · exact hperm.nodup_iff.mpr hnd

theorem removeSwept_worker (s : Sockets) (w v : ℕ) (removeIds : List Addr) :
    (s.removeSwept w removeIds).worker v = if v = w then
      { s.worker v with
        pc := .loop
        threadConnections := (s.worker v).threadConnections.filter (· ∉ removeIds)
        forDelete := (s.worker v).forDelete ++ removeIds } else s.worker v :=
  modWorker_worker ..

/-- `thread_connections_.erase` of everything swept. -/
theorem Good.removeSwept (h : s.Good) {w : ℕ} {removeIds : List Addr}
    (hp : (s.worker w).pc = .removing removeIds) : (s.removeSwept w removeIds).Good := by
  have hsub := (h.sweep w).subset
  have hnd := (h.sweep w).nodup
  rw [hp] at hsub hnd
  have hat : ∀ b ∈ removeIds, s.postAt b = some (.registered w) := fun b hb =>
    h.objs.placed.mem (p := .registered w) (hsub hb)
  have hheap : ∀ b, (s.removeSwept w removeIds).heap b = s.retire w removeIds b := fun _ => rfl
  have hpost : ∀ b, (s.removeSwept w removeIds).postAt b =
      if b ∈ removeIds then some (.retired w) else s.postAt b := by
    intro b
    rw [postAt, hheap, retire]
    split
    · next hb =>
      obtain ⟨c, hc, -⟩ := Option.map_eq_some_iff.mp (hat b hb)
      rw [hc]
      rfl
    · rfl
  have hother : ∀ r, r ≠ .registered w → r ≠ .retired w →
      (s.removeSwept w removeIds).holdsObj r = s.holdsObj r := by
    intro r h₁ h₂
    cases r with
    | handed v =>
      show ((s.removeSwept w removeIds).worker v).newConnections.filterMap _ = _
      rw [removeSwept_worker]
      split <;> rfl
    | taken v =>
      show ((s.removeSwept w removeIds).worker v).pc.taken = (s.worker v).pc.taken
      rw [removeSwept_worker]
      split
      · next hv =>
        rw [hv, hp]
        rfl
      · rfl
    | making v =>
      show ((s.removeSwept w removeIds).worker v).pc.making = (s.worker v).pc.making
      rw [removeSwept_worker]
      split
      · next hv =>
        rw [hv, hp]
        rfl
      · rfl
    | registered v =>
      show ((s.removeSwept w removeIds).worker v).threadConnections = _
      rw [removeSwept_worker, if_neg fun hv => h₁ (by rw [hv])]
      rfl
    | retired v =>
      show ((s.removeSwept w removeIds).worker v).forDelete = _
      rw [removeSwept_worker, if_neg fun hv => h₂ (by rw [hv])]
      rfl
    | _ => rfl
  have hregistered : (s.removeSwept w removeIds).holdsObj (.registered w) =
      (s.worker w).threadConnections.filter (· ∉ removeIds) := by
    show ((s.removeSwept w removeIds).worker w).threadConnections = _
    rw [removeSwept_worker, if_pos rfl]
  have hretired : (s.removeSwept w removeIds).holdsObj (.retired w) =
      (s.worker w).forDelete ++ removeIds := by
    show ((s.removeSwept w removeIds).worker w).forDelete = _
    rw [removeSwept_worker, if_pos rfl]
  have hregAt : ∀ {r : Post} {b}, b ∈ removeIds → b ∈ s.holdsObj r → r = .registered w := by
    intro r b hb hr
    exact Option.some.inj ((h.objs.placed.mem hr).symm.trans (hat b hb))
  refine ⟨h.fds.congr rfl (funext fun r => ?_) rfl, ⟨⟨?_, fun r => ?_⟩, fun v b hb => ?_,
    fun {b} hb => h.objs.ge fun hnone => hb ?_⟩, ⟨fun f b => ?_, fun {b d} hd => ?_⟩, fun v => ?_,
    fun v => ?_⟩
  · cases r with
    | handed v =>
      show ((s.removeSwept w removeIds).worker v).newConnections.map _ = _
      rw [removeSwept_worker]
      split <;> rfl
    | making v =>
      show ((s.removeSwept w removeIds).worker v).pc.fds = (s.worker v).pc.fds
      rw [removeSwept_worker]
      split
      · next hv =>
        rw [hv, hp]
        rfl
      · rfl
    | conn b =>
      refine congrArg (fun l : Option (List ℕ) => l.getD []) ?_
      rw [hheap, retire]
      split
      · rw [Option.map_map]
        rfl
      · rfl
    | _ => rfl
  · intro r b hb
    rw [hpost]
    by_cases h₁ : r = .registered w
    · rw [h₁, hregistered] at hb
      obtain ⟨hmem, hnot⟩ := List.mem_filter.mp hb
      rw [if_neg (by simpa using hnot), h₁]
      exact h.objs.placed.mem (p := .registered w) hmem
    · by_cases h₂ : r = .retired w
      · rw [h₂, hretired] at hb
        rw [h₂]
        split
        · rfl
        · next hnot =>
          exact h.objs.placed.mem (p := .retired w) ((List.mem_append.mp hb).resolve_right hnot)
      · rw [hother r h₁ h₂] at hb
        rw [if_neg fun hmem => h₁ (hregAt hmem hb)]
        exact h.objs.placed.mem hb
  · by_cases h₁ : r = .registered w
    · rw [h₁, hregistered]
      exact (h.objs.placed.nodup (.registered w)).filter _
    · by_cases h₂ : r = .retired w
      · rw [h₂, hretired]
        refine List.nodup_append'.mpr ⟨h.objs.placed.nodup (.retired w), hnd, fun b hb hb' => ?_⟩
        exact absurd (hregAt hb' (r := .retired w) hb) (by simp)
      · rw [hother r h₁ h₂]
        exact h.objs.placed.nodup r
  · rw [hpost] at hb
    split at hb
    · cases hb
    · next hnot =>
      have hold := h.objs.registered v b hb
      by_cases hv : v = w
      · subst hv
        rw [hregistered]
        exact List.mem_filter.mpr ⟨hold, by simpa using hnot⟩
      · rw [hother _ (fun hr => hv (Post.registered.inj hr)) (by simp)]
        exact hold
  · rw [hheap, retire, hnone]
    split <;> rfl
  · show s.connsMap f = some b ↔ _
    rw [h.entries.entry f b, hheap, retire]
    split
    · next hb =>
      obtain ⟨c, hc, hreg⟩ := Option.map_eq_some_iff.mp (hat b hb)
      rw [hc]
      constructor
      · rintro ⟨d, ⟨⟩, -, hin⟩
        rw [InMap, hreg] at hin
        refine absurd ?_ hin
        rw [hp]
        exact hb
      · rintro ⟨d, ⟨⟩, -, ⟨⟩⟩
    · next hb =>
      refine exists_congr fun d => and_congr_right fun _ => and_congr_right fun _ =>
        (inMap_congr fun v => ?_).symm
      rw [removeSwept_worker]
      split
      · next hv =>
        subst hv
        rw [hp]
        exact ⟨.rfl, ⟨False.elim ∘ List.not_mem_nil, fun hmem => absurd hmem hb⟩,
          fun hmem => absurd hmem hb, id, fun _ => id⟩
      · exact .refl b _
  · rw [hheap, retire] at hd
    split at hd
    · next hb =>
      obtain ⟨c, hc, rfl⟩ := Option.map_eq_some_iff.mp hd
      refine ⟨by simp [Post.Unset], False.elim, fun {v f d} hh => ?_, fun {v f} hown => ?_, by simp⟩
      · rw [removeSwept_worker] at hh
        split at hh
        · cases hh
        · exact (h.entries.obj hc).halved hh
      · rw [removeSwept_worker] at hown
        split at hown
        · cases hown
        · exact (h.entries.obj hc).own hown
    · next hb =>
      refine (h.entries.obj hd).of_pc (fun v => ?_) (fun v => ?_) fun v f => ?_
      all_goals
        rw [removeSwept_worker]
        split
      · next hv =>
        subst hv
        rw [hp]
        exact fun hmem => absurd hmem hb
      · exact id
      · exact False.elim
      · exact id
      · exact False.elim
      · exact id
  · rw [removeSwept_worker]
    split
    · exact sweepOk_of_nil rfl
    · exact h.sweep v
  · rw [removeSwept_worker]
    split
    · exact id
    · exact h.accepts v

/-- The deletion of a swept object. -/
theorem Good.delete (h : s.Good) {w : ℕ} {a : Addr} (ha : a ∈ (s.worker w).forDelete) :
    ((s.setObj a none).modWorker w fun t => { t with forDelete := t.forDelete.erase a }).Good := by
  have hat : s.postAt a = some (.retired w) := h.objs.placed.mem (p := .retired w) ha
  have hworker : ∀ v, ((s.setObj a none).modWorker w fun t =>
      { t with forDelete := t.forDelete.erase a }).worker v =
        if v = w then { s.worker v with forDelete := (s.worker v).forDelete.erase a }
        else s.worker v := fun v => modWorker_worker ..
  have hpc : ∀ v, (((s.setObj a none).modWorker w fun t =>
      { t with forDelete := t.forDelete.erase a }).worker v).pc = (s.worker v).pc := by
    intro v
    rw [hworker]
    split <;> rfl
  have hheap : ∀ b, ((s.setObj a none).modWorker w fun t =>
      { t with forDelete := t.forDelete.erase a }).heap b = if b = a then none else s.heap b :=
    fun b => setObj_heap ..
  refine ⟨h.fds.of_sublist rfl (fun r => ?_) rfl,
    h.objs.move (a := a) (p := some (.retired w)) (q := none)
      ⟨hat, fun b => ?_, fun r h₁ _ => ?_, fun r hr => ?_, nofun⟩ rfl fun hq => absurd rfl hq,
    h.entries.update a (fun b hb => by rw [hheap, if_neg hb]) (fun _ _ _ => .rfl)
      (fun v b _ => by rw [hpc]; exact .refl b _) (fun f => ?_) fun c hc => ?_, fun v => ?_,
    fun v => by rw [hpc]; exact h.accepts v⟩
  · cases r with
    | handed v =>
      simp only [holdsFd]
      rw [hworker]
      split <;> exact .refl _
    | making v =>
      simp only [holdsFd]
      rw [hpc]
    | conn b =>
      simp only [holdsFd]
      rw [hheap]
      split
      · exact List.nil_sublist _
      · exact .refl _
    | _ => exact .refl _
  · rw [postAt, hheap]
    split <;> rfl
  · cases r with
    | retired v =>
      simp only [holdsObj]
      rw [hworker, if_neg fun hv => h₁ (by rw [hv])]
    | handed v | registered v =>
      simp only [holdsObj]
      rw [hworker]
      split <;> rfl
    | taken v | making v =>
      simp only [holdsObj]
      rw [hpc]
    | _ => rfl
  · cases hr
    simp only [holdsObj]
    rw [hworker, if_pos rfl]
    exact (List.perm_cons_erase ha).symm
  · rw [hheap, if_pos rfl]
    constructor
    · intro hf
      obtain ⟨c, hc, -, hin⟩ := (h.entries.entry f a).mp hf
      rw [postAt, hc, Option.map_some, Option.some.injEq] at hat
      rw [InMap, hat] at hin
      cases hin
    · rintro ⟨c, hc, -⟩
      cases hc
  · rw [hheap, if_pos rfl] at hc
    cases hc
  · have hold := h.sweep v
    rw [hworker]
    split <;> exact ⟨hold.subset, hold.nodup⟩

/-! ### Every step -/

/-- No descriptor that is about to be registered is a key. -/
theorem Good.not_key (h : s.Good) {w : ℕ} {ci : SockInfo} (hp : (s.worker w).pc = .popped ci) :
    s.connsMap ci.sfd = none := by
  by_contra hne
  obtain ⟨a, ha⟩ := Option.ne_none_iff_exists'.mp hne
  have hos : s.os ci.sfd = some (.making w) := by
    refine h.fds.placed.mem (p := .making w) ?_
    show ci.sfd ∈ (s.worker w).pc.fds
    rw [hp]
    exact List.mem_singleton_self _
  rw [h.os_of_entry ha] at hos
  cases hos

/-- No address in `thread_connections_` is the number of a descriptor. -/
theorem Good.not_twice (h : s.Good) {w : ℕ} {ci : SockInfo} {a : Addr}
    (hp : (s.worker w).pc = .counted ci a) :
    UInt64.ofNat ci.sfd ∉ (s.worker w).threadConnections := by
  intro hmem
  have hat : s.postAt a = some (.making w) :=
    h.post_of_owns (f := ci.sfd) (by rw [hp]; exact ⟨rfl, rfl⟩)
  obtain ⟨c, hc, hpost⟩ := Option.map_eq_some_iff.mp hat
  have hok := h.entries.obj hc
  have hsfd : c.sfd = some ci.sfd := hok.own (w := w) (by rw [hp]; exact ⟨rfl, rfl⟩)
  have hos : s.os ci.sfd = some (.conn a) := by
    refine h.os_of_mem hc ?_
    rw [hok.live (by rw [InUse, hpost]; trivial), Socket.fds, hsfd]
    exact List.mem_cons_self
  have hlt : ci.sfd < s.openMax := h.fds.lt (by rw [hos]; simp)
  have hreg : s.postAt (UInt64.ofNat ci.sfd) = some (.registered w) :=
    h.objs.placed.mem (p := .registered w) hmem
  have hge : s.openMax ≤ (UInt64.ofNat ci.sfd).toNat := by
    refine h.objs.ge fun hnone => ?_
    rw [postAt, hnone] at hreg
    cases hreg
  rw [UInt64.toNat_ofNat'] at hge
  have hle := Nat.mod_le ci.sfd (2 ^ 64)
  omega

/-- What the visit of the sweep decides. -/
theorem Good.visit (h : s.Good) {w : ℕ} {a : Addr} {todo removeIds : List Addr}
    (hp : (s.worker w).pc = .sweep (a :: todo) removeIds) (closed : Bool) :
    (s.setPc w (if closed then .erasing a todo removeIds else .sweep todo removeIds)).Good := by
  have hsub := (h.sweep w).subset
  have hnd := (h.sweep w).nodup
  rw [hp] at hsub hnd
  cases closed with
  | true => exact h.setPc hp rfl rfl rfl (fun b => ⟨.rfl, .rfl, id, id, fun _ => id⟩) hsub hnd id
  | false =>
    exact h.setPc hp rfl rfl rfl (fun b => ⟨.rfl, .rfl, id, id, fun _ => id⟩)
      (fun b hb => hsub (List.mem_cons_of_mem a hb)) (List.nodup_cons.mp hnd).2 id

theorem Good.workerStep {w : ℕ} {e : SockEvent} (h : s.Good) (hc : s.ClosesOwn (.worker w e))
    (hs : s.workerStep w (s.worker w).pc e = some s') : s'.Good := by
  unfold Sockets.workerStep at hs
  split at hs
  case h_1 v hp =>
    split at hs
    · next a fd rest hq =>
      split at hs
      · cases hs
        exact h.connector hq
      · cases hs
    · cases hs
  case h_2 hp =>
    split at hs
    · cases hs
    · next ci rest hq =>
      cases hs
      exact h.notified hp hq
  case h_3 ci hp =>
    cases hs
    rw [h.not_key hp, Option.isSome_none]
    exact h.setPc hp rfl rfl rfl (fun b => ⟨.rfl, .rfl, id, id, fun _ => id⟩) (List.nil_subset _)
      List.nodup_nil id
  case h_4 ci dup added fresh hp =>
    unfold Sockets.createConn at hs
    split at hs
    · next hok =>
      split at hs
      · cases hs
        exact h.createConn hp hok.1 hok.2
      · cases hs
        exact h.createFail hp
    · cases hs
  case h_5 ci hp =>
    refine absurd ?_ (h.accepts w)
    rw [hp]
    trivial
  case h_6 ci hp =>
    cases hs
    simp only [ClosesOwn, hp] at hc
    exact h.giveUp hp hc
  case h_7 ci a hp =>
    cases hs
    exact h.mapConn hp
  case h_8 ci a hp =>
    cases hs
    exact (h.setCount _).setPc hp rfl rfl rfl (fun b => ⟨.rfl, .rfl, id, id, fun _ => id⟩)
      (List.nil_subset _) List.nodup_nil id
  case h_9 ci a hp =>
    rw [if_neg (h.not_twice hp)] at hs
    cases hs
    exact h.register hp
  case h_10 ci a hp =>
    refine absurd ?_ (h.accepts w)
    rw [hp]
    trivial
  case h_11 hp =>
    cases hs
    refine h.setPc hp rfl rfl rfl (fun b => ⟨.rfl, .rfl, id, id, fun _ => id⟩) ?_ ?_ id
    · rw [SockPc.addrs, List.append_nil]
      exact List.Subset.refl _
    · rw [SockPc.addrs, List.append_nil]
      exact h.objs.placed.nodup (.registered w)
  case h_12 a todo removeIds closed hp =>
    cases hs
    exact h.visit hp closed
  case h_13 a todo removeIds hp =>
    obtain ⟨c, hcon, rfl⟩ := Option.map_eq_some_iff.mp hs
    exact h.eraseConn hp hcon
  case h_14 a todo removeIds hp =>
    obtain ⟨c, hcon, rfl⟩ := Option.map_eq_some_iff.mp hs
    exact h.closeDup hp hcon
  case h_15 a todo removeIds hp =>
    obtain ⟨c, hcon, rfl⟩ := Option.map_eq_some_iff.mp hs
    exact h.closeSock hp hcon
  case h_16 a todo removeIds hp =>
    cases hs
    exact h.uncount hp
  case h_17 removeIds hp =>
    cases hs
    have hsub := (h.sweep w).subset
    have hnd := (h.sweep w).nodup
    rw [hp] at hsub hnd
    exact h.setPc hp rfl rfl rfl (fun b => ⟨.rfl, .rfl, id, id, fun _ => id⟩) hsub hnd id
  case h_18 removeIds hp =>
    cases hs
    exact h.removeSwept hp
  case h_19 a hp =>
    split at hs
    · next ha =>
      cases hs
      exact h.delete ha
    · cases hs
  case h_20 => cases hs

/-- **Every step keeps the invariant.** -/
theorem Good.step {a : SockAct} (h : s.Good) (hc : s.ClosesOwn a) (hs : s.step a = some s') :
    s'.Good := by
  cases a with
  | accept fd =>
    simp only [Sockets.step, Option.ite_none_right_eq_some, Option.some.injEq] at hs
    obtain ⟨⟨hidle, hfd⟩, rfl⟩ := hs
    exact h.accept hidle hfd
  | acceptFail =>
    simp only [Sockets.step] at hs
    split at hs
    · next fd hacc =>
      cases hs
      exact h.acceptFail hacc
    · cases hs
  | give v =>
    simp only [Sockets.step] at hs
    split at hs
    · next fd hacc =>
      split at hs
      · cases hs
        exact h.give hacc
      · cases hs
    · cases hs
  | count =>
    simp only [Sockets.step, Option.ite_none_right_eq_some, Option.some.injEq] at hs
    obtain ⟨hacc, rfl⟩ := hs
    exact h.count hacc
  | dial fd =>
    simp only [Sockets.step, Option.ite_none_right_eq_some, Option.some.injEq] at hs
    obtain ⟨hfd, rfl⟩ := hs
    exact h.dial hfd
  | dialFail fd =>
    simp only [Sockets.step, Option.ite_none_right_eq_some, Option.some.injEq] at hs
    obtain ⟨hfd, rfl⟩ := hs
    exact h.dialFail hfd
  | dialed fd a =>
    simp only [Sockets.step, Option.ite_none_right_eq_some, Option.some.injEq] at hs
    obtain ⟨⟨hfd, ha⟩, rfl⟩ := hs
    exact h.dialed hfd ha
  | otherOpen fd =>
    simp only [Sockets.step, Option.ite_none_right_eq_some, Option.some.injEq] at hs
    obtain ⟨hfd, rfl⟩ := hs
    exact h.otherOpen hfd
  | otherClose fd =>
    simp only [Sockets.step, Option.ite_none_right_eq_some, Option.some.injEq] at hs
    obtain ⟨hfd, rfl⟩ := hs
    exact h.otherClose hfd
  | worker w e =>
    simp only [Sockets.step, Option.ite_none_right_eq_some] at hs
    exact h.workerStep hc hs.2

theorem good_start {threadNum openMax fd : ℕ} {a : Addr} {others : List ℕ} (hfd : fd < openMax)
    (ha : openMax ≤ a.toNat) (hnot : fd ∉ others) (hnd : others.Nodup)
    (hlt : ∀ f ∈ others, f < openMax) : (start threadNum openMax fd a others).Good := by
  have hheap : ∀ b, (start threadNum openMax fd a others).heap b =
      if b = a then some ⟨.listening, some fd, none, [fd]⟩ else none := fun _ => rfl
  have hos : ∀ f, (start threadNum openMax fd a others).os f =
      if f = fd then some (.conn a) else if f ∈ others then some .other else none := fun _ => rfl
  have hpost : ∀ b p, (start threadNum openMax fd a others).postAt b = some p → p = .listening := by
    intro b p hb
    rw [postAt, hheap] at hb
    split at hb
    · exact (Option.some.inj hb).symm
    · cases hb
  have hnone : ∀ p, (start threadNum openMax fd a others).holdsObj p = [] := by
    intro p
    cases p <;> rfl
  refine ⟨⟨⟨?_, fun r => ?_⟩, fun {f} hf => ?_⟩, ⟨⟨?_, fun r => ?_⟩, fun w b hb => ?_, fun {b} hb => ?_⟩,
    ⟨fun f b => ?_, fun {b c} hc => ?_⟩, fun _ => sweepOk_of_nil rfl, fun _ => id⟩
  · intro r f hf
    rw [hos]
    cases r with
    | conn b =>
      simp only [holdsFd] at hf
      rw [hheap] at hf
      split at hf
      · next hb =>
        obtain rfl := List.mem_singleton.mp hf
        rw [if_pos rfl, hb]
      · cases hf
    | other =>
      have hne : f ≠ fd := fun hff => hnot (hff ▸ hf)
      have hmem : f ∈ others := hf
      rw [if_neg hne, if_pos hmem]
    | _ => cases hf
  · cases r with
    | conn b =>
      simp only [holdsFd]
      rw [hheap]
      split
      · exact List.nodup_singleton fd
      · exact List.nodup_nil
    | other => exact hnd
    | _ => exact List.nodup_nil
  · rw [hos] at hf
    split at hf
    · next hff => exact hff ▸ hfd
    · split at hf
      · next hmem => exact hlt f hmem
      · exact absurd rfl hf
  · intro r b hb
    rw [hnone] at hb
    cases hb
  · rw [hnone]
    exact List.nodup_nil
  · cases hpost b _ hb
  · rw [hheap] at hb
    split at hb
    · next hba => exact hba ▸ ha
    · exact absurd rfl hb
  · show (if f = fd then some a else none) = some b ↔ _
    rw [hheap]
    constructor
    · intro hf
      split at hf
      · next hff =>
        rw [Option.some.injEq] at hf
        exact ⟨⟨.listening, some fd, none, [fd]⟩, by rw [if_pos hf.symm], by rw [hff], trivial⟩
      · cases hf
    · rintro ⟨c, hc, hsfd, -⟩
      split at hc
      · next hba =>
        cases hc
        rw [if_pos (Option.some.inj hsfd).symm, hba]
      · cases hc
  · rw [hheap] at hc
    split at hc
    · cases hc
      exact ⟨by simp [Post.Unset], fun _ => rfl, fun _ hdup => (by cases hdup),
        by simp [start, SockPc.Owns], by simp⟩
    · cases hc

/-! ### Runs in which `dup` and `event_add` succeed -/

/-- In the step `dup` and `event_add` succeed. -/
def AddsEvents (_ : Sockets) : SockAct → Prop
  | .worker _ (.create dup added _) => dup.isSome ∧ added = true
  | _ => True

instance (s : Sockets) (a : SockAct) : Decidable (s.AddsEvents a) := by
  unfold AddsEvents
  split <;> infer_instance

/-- No `create_conn` has failed in `event_add`. -/
def NoneFailed (s : Sockets) : Prop := ∀ w ci, (s.worker w).pc ≠ .failed ci

theorem NoneFailed.modWorker (h : s.NoneFailed) {w : ℕ} {g : SockWorker → SockWorker}
    (hg : ∀ ci, (g (s.worker w)).pc ≠ .failed ci) : (s.modWorker w g).NoneFailed := by
  intro v ci
  rw [modWorker_worker]
  split
  · next hv => exact hv ▸ hg ci
  · exact h v ci

theorem NoneFailed.giveUp (h : s.NoneFailed) (w : ℕ) (ci : SockInfo) :
    (s.giveUp w ci).NoneFailed := by
  unfold Sockets.giveUp
  split <;> exact NoneFailed.modWorker (by exact h) nofun

theorem NoneFailed.workerStep {w : ℕ} {e : SockEvent} (h : s.NoneFailed)
    (hc : s.AddsEvents (.worker w e)) (hs : s.workerStep w (s.worker w).pc e = some s') :
    s'.NoneFailed := by
  unfold Sockets.workerStep at hs
  split at hs
  case h_1 v hp =>
    split at hs
    · split at hs
      · cases hs
        exact NoneFailed.modWorker (by exact h) (h v)
      · cases hs
    · cases hs
  case h_2 hp =>
    split at hs
    · cases hs
    · cases hs
      split <;> exact NoneFailed.modWorker (by exact h) (by simp [SockWorker.pop])
  case h_3 ci hp =>
    cases hs
    refine NoneFailed.modWorker h fun ci' => ?_
    dsimp only
    split <;> simp
  case h_4 ci dup added fresh hp =>
    unfold Sockets.createConn at hs
    rw [if_pos hc.2] at hs
    split at hs
    · cases hs
      intro v ci'
      rw [Sockets.initSocket, setPc_worker]
      split
      · simp
      · exact h v ci'
    · cases hs
  case h_5 ci hp | h_6 ci hp =>
    cases hs
    exact h.giveUp w ci
  case h_10 ci a hp =>
    cases hs
    exact h.giveUp w ci
  case h_7 ci a hp | h_8 ci a hp | h_11 hp | h_16 a todo removeIds hp | h_17 removeIds hp
  | h_18 removeIds hp =>
    cases hs
    exact NoneFailed.modWorker (by exact h) (by simp)
  case h_9 ci a hp =>
    split at hs
    all_goals
      cases hs
      exact NoneFailed.modWorker (by exact h) (by simp)
  case h_12 a todo removeIds closed hp =>
    cases hs
    refine NoneFailed.modWorker h fun ci' => ?_
    dsimp only
    split <;> simp
  case h_13 a todo removeIds hp =>
    obtain ⟨c, -, rfl⟩ := Option.map_eq_some_iff.mp hs
    unfold Sockets.eraseConn
    split <;> exact NoneFailed.modWorker (by exact h) (by simp)
  case h_14 a todo removeIds hp =>
    obtain ⟨c, -, rfl⟩ := Option.map_eq_some_iff.mp hs
    unfold Sockets.closeDupOf
    split <;> exact NoneFailed.modWorker (by exact h) (by simp)
  case h_15 a todo removeIds hp =>
    obtain ⟨c, -, rfl⟩ := Option.map_eq_some_iff.mp hs
    unfold Sockets.closeSockOf
    split <;> exact NoneFailed.modWorker (by exact h) (by simp)
  case h_19 a hp =>
    split at hs
    · cases hs
      exact NoneFailed.modWorker (by exact h) (h w)
    · cases hs
  case h_20 => cases hs

theorem NoneFailed.step {a : SockAct} (h : s.NoneFailed) (hc : s.AddsEvents a)
    (hs : s.step a = some s') : s'.NoneFailed := by
  cases a with
  | worker w e =>
    simp only [Sockets.step, Option.ite_none_right_eq_some] at hs
    exact h.workerStep hc hs.2
  | acceptFail =>
    simp only [Sockets.step] at hs
    split at hs
    · cases hs
      exact h
    · cases hs
  | give v =>
    simp only [Sockets.step] at hs
    split at hs
    · split at hs
      · cases hs
        exact NoneFailed.modWorker (by exact h) (h v)
      · cases hs
    · cases hs
  | accept fd | count | dial fd | dialFail fd | dialed fd a | otherOpen fd | otherClose fd =>
    simp only [Sockets.step, Option.ite_none_right_eq_some, Option.some.injEq] at hs
    obtain ⟨-, rfl⟩ := hs
    exact h

theorem NoneFailed.closesOwn (h : s.NoneFailed) (a : SockAct) : s.ClosesOwn a := by
  unfold ClosesOwn
  split
  · split
    · next w _ _ ci hp => exact absurd hp (h w ci)
    · trivial
  · trivial

end Sockets

/-- **The registry of open sockets**, in every run in which `dup` and `event_add` succeed. -/
theorem registryOk_of_reach {s : Sockets} (h : socketSystem.Reach Sockets.AddsEvents s) :
    s.RegistryOk := by
  have hgood : s.NoneFailed ∧ s.Good := by
    refine h.invariant (P := fun s => s.NoneFailed ∧ s.Good) ?_ fun s a s' hi hc hs => ?_
    · rintro s ⟨threadNum, openMax, fd, a, others, -, -, hfd, ha, hnot, hnd, hlt, rfl⟩
      exact ⟨fun _ _ => nofun, Sockets.good_start hfd ha hnot hnd hlt⟩
    · exact ⟨hi.1.step hc hs, hi.2.step (hi.1.closesOwn a) hs⟩
  exact hgood.2.registryOk

/-- A client is accepted and registered. -/
def clientRegisters : List SockAct :=
  [.accept 4, .give 0, .worker 0 .notified, .worker 0 .go, .worker 0 (.create (some 5) true 64),
    .worker 0 .go, .worker 0 .go, .worker 0 .go]

theorem registryOk_clientRegisters : ∃ s,
    socketSystem.exec (.start 1 16 3 32 [0, 1, 2]) clientRegisters = some s ∧
      s.connsMap 4 = some 64 ∧ s.RegistryOk := by
  obtain ⟨s, hs, hmap⟩ : ∃ s,
      socketSystem.exec (.start 1 16 3 32 [0, 1, 2]) clientRegisters = some s ∧
        s.connsMap 4 = some 64 := by
    refine Option.map_eq_some_iff.mp ?_
    decide +kernel
  have hc : socketSystem.AllSteps Sockets.AddsEvents (.start 1 16 3 32 [0, 1, 2])
      clientRegisters := by
    decide +kernel
  refine ⟨s, hs, hmap, registryOk_of_reach (.of_exec (.start ?_) hc hs)⟩
  exact ⟨1, 16, 3, 32, [0, 1, 2], by decide, by decide, by decide, by decide, by decide, by decide,
    by decide, rfl⟩

end GoFight.Net
