import GoFight.Lib.Places
import GoFight.Net.Sockets

/-!
# The registry of open sockets

The invariant behind `RegistryOk`: every open descriptor has one holder, every object is in one
place, and `s_conns_map` has exactly the connections that are set up and not yet being closed.

* `Good` — the invariant, in three parts: `Fds`, `Objs` and the entries of `s_conns_map`;
* `ClosesOwn` — the condition on a step: the second `close` of a descriptor, behind a `create_conn`
  that failed in `event_add`, finds it closed;
* `Good.step` — the step lemma; `Good.registryOk`.
-/

namespace GoFight.Net

open GoFight.Lib

/-! ### What a program point says -/

namespace SockPc

/-- The descriptor `thread_libevent_process` has, before its connection has it. -/
def fds : SockPc → List ℕ
  | .popped ci => [ci.sfd]
  | .checked ci => [ci.sfd]
  | .duplicate ci => [ci.sfd]
  | _ => []

/-- The pre-allocated object it has. -/
def taken : SockPc → List Addr
  | .popped ci => ci.preNew.toList
  | .checked ci => ci.preNew.toList
  | .duplicate ci => ci.preNew.toList
  | .failed ci => ci.preNew.toList
  | _ => []

/-- The connection it has set up. -/
def making : SockPc → List Addr
  | .made _ a => [a]
  | .mapped _ a => [a]
  | .counted _ a => [a]
  | .twice _ a => [a]
  | _ => []

/-- `a` was set up for the descriptor `f`. -/
def Owns (f : ℕ) (a : Addr) : SockPc → Prop
  | .made ci b => ci.sfd = f ∧ b = a
  | .mapped ci b => ci.sfd = f ∧ b = a
  | .counted ci b => ci.sfd = f ∧ b = a
  | _ => False

/-- `a` has been put into `s_conns_map`. -/
def Mapped (a : Addr) : SockPc → Prop
  | .mapped _ b => b = a
  | .counted _ b => b = a
  | _ => False

/-- What the sweep has in hand. -/
def addrs : SockPc → List Addr
  | .sweep todo removeIds => todo ++ removeIds
  | .erasing a todo removeIds => a :: (todo ++ removeIds)
  | .closeDup a todo removeIds => a :: (todo ++ removeIds)
  | .closeSock a todo removeIds => a :: (todo ++ removeIds)
  | .uncount a todo removeIds => a :: (todo ++ removeIds)
  | .removing removeIds => removeIds
  | _ => []

/-- What the sweep has erased from `s_conns_map`. -/
def gone : SockPc → List Addr
  | .sweep _ removeIds => removeIds
  | .erasing _ _ removeIds => removeIds
  | .closeDup a _ removeIds => a :: removeIds
  | .closeSock a _ removeIds => a :: removeIds
  | .uncount a _ removeIds => a :: removeIds
  | .removing removeIds => removeIds
  | _ => []

/-- What the sweep has closed a descriptor of. -/
def shut : SockPc → List Addr
  | .sweep _ removeIds => removeIds
  | .erasing _ _ removeIds => removeIds
  | .closeDup _ _ removeIds => removeIds
  | .closeSock a _ removeIds => a :: removeIds
  | .uncount a _ removeIds => a :: removeIds
  | .removing removeIds => removeIds
  | _ => []

/-- Past the first `close`. -/
def Halved (a : Addr) : SockPc → Prop
  | .closeSock b _ _ => b = a
  | _ => False

/-- One of the two exits for duplicates. -/
def Rejects : SockPc → Prop
  | .duplicate _ => True
  | .twice _ _ => True
  | _ => False

theorem shut_subset_gone (pc : SockPc) : pc.shut ⊆ pc.gone := by
  cases pc with
  | closeDup a todo removeIds => exact List.subset_cons_self _ _
  | _ => exact List.Subset.refl _

end SockPc

/-- The program point `q` after `p` says the same of the object at `a`, or less. -/
structure SockPc.Calm (a : Addr) (p q : SockPc) : Prop where
  mapped : q.Mapped a ↔ p.Mapped a
  gone : a ∈ q.gone ↔ a ∈ p.gone
  shut : a ∈ p.shut → a ∈ q.shut
  halved : q.Halved a → p.Halved a
  own : ∀ f, q.Owns f a → p.Owns f a

theorem SockPc.Calm.refl (a : Addr) (p : SockPc) : SockPc.Calm a p p :=
  ⟨.rfl, .rfl, id, id, fun _ => id⟩

/-- `create_conn` has not set it up. -/
def Post.Unset : Post → Prop
  | .connecting => True
  | .handed _ => True
  | .taken _ => True
  | _ => False

namespace Sockets

/-! ### Who has what -/

/-- The descriptors a holder has. -/
def holdsFd (s : Sockets) : Holder → List ℕ
  | .accepting =>
      match s.accept with
      | .accepted fd => [fd]
      | _ => []
  | .dialing => s.dialing
  | .connecting => s.connectConns.map SockInfo.sfd
  | .handed w => (s.worker w).newConnections.map SockInfo.sfd
  | .making w => (s.worker w).pc.fds
  | .conn a => ((s.heap a).map Socket.live).getD []
  | .other => s.others

/-- Where the object at an address is. -/
def postAt (s : Sockets) (a : Addr) : Option Post := (s.heap a).map Socket.post

/-- The objects a place has. -/
def holdsObj (s : Sockets) : Post → List Addr
  | .listening => []
  | .connecting => s.connectConns.filterMap SockInfo.preNew
  | .handed w => (s.worker w).newConnections.filterMap SockInfo.preNew
  | .taken w => (s.worker w).pc.taken
  | .making w => (s.worker w).pc.making
  | .registered w => (s.worker w).threadConnections
  | .retired w => (s.worker w).forDelete

/-- The object `c` at `a` belongs into `s_conns_map`. -/
def InMap (s : Sockets) (a : Addr) (c : Socket) : Prop :=
  match c.post with
  | .listening => True
  | .making w => (s.worker w).pc.Mapped a
  | .registered w => a ∉ (s.worker w).pc.gone
  | _ => False

/-- The object `c` at `a` has all its descriptors. -/
def InUse (s : Sockets) (a : Addr) (c : Socket) : Prop :=
  match c.post with
  | .listening => True
  | .making _ => True
  | .registered w => a ∉ (s.worker w).pc.shut
  | _ => False

/-- Every open descriptor has one holder. -/
structure Fds (s : Sockets) : Prop where
  placed : Placed s.os s.holdsFd
  lt : ∀ {f}, s.os f ≠ none → f < s.openMax

/-- Every object is in one place. -/
structure Objs (s : Sockets) : Prop where
  placed : Placed s.postAt s.holdsObj
  registered : ∀ w, Complete s.postAt s.holdsObj (.registered w)
  ge : ∀ {a}, s.heap a ≠ none → s.openMax ≤ a.toNat

/-- What is known of the object `c` at `a`. -/
structure ObjOk (s : Sockets) (a : Addr) (c : Socket) : Prop where
  unset : c.post.Unset → c.live = []
  live : s.InUse a c → c.live = c.fds
  halved : ∀ {w f d}, (s.worker w).pc.Halved a → c.dup = some d → c.sfd = some f → f ∈ c.live
  own : ∀ {w f}, (s.worker w).pc.Owns f a → c.sfd = some f
  set : ∀ {w}, c.post = .registered w → c.sfd.isSome

/-- The objects and `s_conns_map`. -/
structure Entries (s : Sockets) : Prop where
  entry : ∀ f a, s.connsMap f = some a ↔ ∃ c, s.heap a = some c ∧ c.sfd = some f ∧ s.InMap a c
  obj : ∀ {a c}, s.heap a = some c → s.ObjOk a c

/-- What the sweep has in hand is registered, and is there once. -/
structure SweepOk (t : SockWorker) : Prop where
  subset : t.pc.addrs ⊆ t.threadConnections
  nodup : t.pc.addrs.Nodup

/-- The invariant. -/
structure Good (s : Sockets) : Prop where
  fds : s.Fds
  objs : s.Objs
  entries : s.Entries
  sweep : ∀ w, SweepOk (s.worker w)
  accepts : ∀ w, ¬ (s.worker w).pc.Rejects

/-- The second `close` behind a failed `create_conn` closes nothing. -/
def ClosesOwn (s : Sockets) : SockAct → Prop
  | .worker w _ =>
      match (s.worker w).pc with
      | .failed ci => s.os ci.sfd = none
      | _ => True
  | _ => True

instance (s : Sockets) (a : SockAct) : Decidable (s.ClosesOwn a) := by
  unfold ClosesOwn
  split
  · split <;> infer_instance
  · infer_instance

variable {s s' : Sockets}

theorem inUse_of_inMap {a : Addr} {c : Socket} (h : s.InMap a c) : s.InUse a c := by
  unfold InMap at h
  unfold InUse
  split at h
  · trivial
  · trivial
  · next w hp => exact fun hs => h ((s.worker w).pc.shut_subset_gone hs)
  · cases h

/-- A descriptor of an object that has all of them. -/
theorem Good.os_of_mem (h : s.Good) {a : Addr} {c : Socket} {f : ℕ} (hc : s.heap a = some c)
    (hf : f ∈ c.live) : s.os f = some (.conn a) := by
  refine h.fds.placed.mem (p := .conn a) ?_
  rw [holdsFd, hc]
  exact hf

/-- The descriptor of a key is its connection's. -/
theorem Good.os_of_entry (h : s.Good) {a : Addr} {f : ℕ} (hf : s.connsMap f = some a) :
    s.os f = some (.conn a) := by
  obtain ⟨c, hc, hsfd, hin⟩ := (h.entries.entry f a).mp hf
  refine h.os_of_mem hc ?_
  rw [(h.entries.obj hc).live (inUse_of_inMap hin), Socket.fds, hsfd]
  exact List.mem_cons_self

/-- **The invariant says what it should.** -/
theorem Good.registryOk (h : s.Good) : s.RegistryOk := by
  refine ⟨fun {f a} hf => ?_, fun {f g a} hf hg => ?_, fun {v w} hne => ?_, fun hloop a => ?_,
    fun w ci hp => ?_, fun w ci a hp => ?_⟩
  · obtain ⟨c, hc, hsfd, -⟩ := (h.entries.entry f a).mp hf
    exact ⟨c, hc, hsfd, by rw [h.os_of_entry hf]; rfl⟩
  · obtain ⟨c, hc, hsfd, -⟩ := (h.entries.entry f a).mp hf
    obtain ⟨d, hd, hsfd', -⟩ := (h.entries.entry g a).mp hg
    rw [hc, Option.some.injEq] at hd
    rw [← hd, hsfd, Option.some.injEq] at hsfd'
    exact hsfd'
  · have hne' : Post.registered v ≠ .registered w := fun hr => hne (Post.registered.inj hr)
    exact h.objs.placed.disjoint hne'
  · constructor
    · rintro ⟨w, ha⟩
      have hat : s.postAt a = some (.registered w) := h.objs.placed.mem (p := .registered w) ha
      obtain ⟨c, hc, hp⟩ := Option.map_eq_some_iff.mp hat
      obtain ⟨f, hf⟩ := Option.isSome_iff_exists.mp ((h.entries.obj hc).set hp)
      refine ⟨f, c, (h.entries.entry f a).mpr ⟨c, hc, hf, ?_⟩, hc, by rw [hp]; exact nofun⟩
      rw [InMap, hp]
      dsimp only
      rw [hloop w]
      exact List.not_mem_nil
    · rintro ⟨f, c, hf, hc, hne⟩
      obtain ⟨d, hd, -, hin⟩ := (h.entries.entry f a).mp hf
      rw [hc, Option.some.injEq] at hd
      subst hd
      unfold InMap at hin
      split at hin
      · next hp => exact absurd hp hne
      · next w hp =>
        rw [hloop w] at hin
        cases hin
      · next w hp =>
        refine ⟨w, h.objs.registered w a ?_⟩
        rw [postAt, hc, Option.map_some, hp]
      · cases hin
  · refine h.accepts w ?_
    rw [hp]
    trivial
  · refine h.accepts w ?_
    rw [hp]
    trivial

/-! ### Updates and the invariant -/

theorem modWorker_worker (s : Sockets) (w v : ℕ) (g : SockWorker → SockWorker) :
    (s.modWorker w g).worker v = if v = w then g (s.worker v) else s.worker v := by
  by_cases hv : v = w
  · subst hv
    simp [modWorker]
  · simp [modWorker, hv]

theorem setPc_worker (s : Sockets) (w v : ℕ) (pc : SockPc) :
    (s.setPc w pc).worker v = if v = w then { s.worker v with pc := pc } else s.worker v :=
  modWorker_worker ..

theorem setObj_heap (s : Sockets) (a b : Addr) (c : Option Socket) :
    (s.setObj a c).heap b = if b = a then c else s.heap b :=
  Function.update_apply ..

theorem setOs_os (s : Sockets) (f g : ℕ) (h : Option Holder) :
    (s.setOs f h).os g = if g = f then h else s.os g :=
  Function.update_apply ..

theorem setMap_connsMap (s : Sockets) (f g : ℕ) (a : Option Addr) :
    (s.setMap f a).connsMap g = if g = f then a else s.connsMap g :=
  Function.update_apply ..

/-- One descriptor changes hands. -/
theorem Fds.move {f : ℕ} {p q : Option Holder} (h : s.Fds)
    (m : Moves s.os s'.os s.holdsFd s'.holdsFd f p q) (hmax : s'.openMax = s.openMax)
    (hq : q ≠ none → f < s.openMax) : s'.Fds := by
  refine ⟨h.placed.move m, fun {g} hg => ?_⟩
  rw [m.place] at hg
  rw [hmax]
  split at hg
  · next hgf => exact hgf ▸ hq hg
  · exact h.lt hg

theorem Fds.of_sublist (h : s.Fds) (hos : s'.os = s.os)
    (hheld : ∀ r, (s'.holdsFd r).Sublist (s.holdsFd r)) (hmax : s'.openMax = s.openMax) : s'.Fds := by
  refine ⟨⟨fun hf => ?_, fun r => (h.placed.nodup r).sublist (hheld r)⟩, fun {f} hf => ?_⟩
  · rw [hos]
    exact h.placed.mem ((hheld _).subset hf)
  · rw [hos] at hf
    exact hmax ▸ h.lt hf

theorem Fds.congr (h : s.Fds) (hos : s'.os = s.os) (hheld : s'.holdsFd = s.holdsFd)
    (hmax : s'.openMax = s.openMax) : s'.Fds :=
  h.of_sublist hos (fun r => by rw [hheld]) hmax

/-- One object changes place. -/
theorem Objs.move {a : Addr} {p q : Option Post} (h : s.Objs)
    (m : Moves s.postAt s'.postAt s.holdsObj s'.holdsObj a p q) (hmax : s'.openMax = s.openMax)
    (hq : q ≠ none → s.openMax ≤ a.toNat) : s'.Objs := by
  refine ⟨h.placed.move m, fun w => .move (h.registered w) m, fun {b} hb => ?_⟩
  have hplace : s'.postAt b ≠ none := fun hnone => hb (Option.map_eq_none_iff.mp hnone)
  rw [m.place] at hplace
  rw [hmax]
  split at hplace
  · next hba => exact hba ▸ hq hplace
  · exact h.ge fun hnone => hplace (by rw [postAt, hnone]; rfl)

theorem Objs.congr (h : s.Objs) (hpost : s'.postAt = s.postAt) (hheld : s'.holdsObj = s.holdsObj)
    (hmax : s'.openMax = s.openMax) : s'.Objs := by
  refine ⟨by rw [hpost, hheld]; exact h.placed, fun w => ?_, fun {a} ha => ?_⟩
  · rw [hpost, hheld]
    exact h.registered w
  · have hplace : s.postAt a ≠ none := hpost ▸ fun hnone => ha (Option.map_eq_none_iff.mp hnone)
    rw [hmax]
    exact h.ge fun hnone => hplace (by rw [postAt, hnone]; rfl)

theorem inMap_congr {a : Addr} {c : Socket}
    (hpc : ∀ w, SockPc.Calm a (s.worker w).pc (s'.worker w).pc) : s'.InMap a c ↔ s.InMap a c := by
  unfold InMap
  split
  · exact .rfl
  · next w hp => exact (hpc w).mapped
  · next w hp => exact not_congr (hpc w).gone
  · exact .rfl

theorem ObjOk.of_pc {a : Addr} {c : Socket} (h : s.ObjOk a c)
    (hshut : ∀ w, a ∈ (s.worker w).pc.shut → a ∈ (s'.worker w).pc.shut)
    (hhalved : ∀ w, (s'.worker w).pc.Halved a → (s.worker w).pc.Halved a)
    (hown : ∀ w f, (s'.worker w).pc.Owns f a → (s.worker w).pc.Owns f a) : s'.ObjOk a c := by
  refine ⟨h.unset, fun hin => h.live ?_, fun hp => h.halved (hhalved _ hp),
    fun hp => h.own (hown _ _ hp), h.set⟩
  unfold InUse at hin ⊢
  split at hin
  · trivial
  · trivial
  · next w hp => exact fun hs => hin (hshut w hs)
  · cases hin

theorem ObjOk.of_calm {a : Addr} {c : Socket} (h : s.ObjOk a c)
    (hpc : ∀ w, SockPc.Calm a (s.worker w).pc (s'.worker w).pc) : s'.ObjOk a c :=
  h.of_pc (fun w => (hpc w).shut) (fun w => (hpc w).halved) fun w => (hpc w).own

/-- Only what concerns the address `a` changes. -/
theorem Entries.update (h : s.Entries) (a : Addr) (hheap : ∀ b, b ≠ a → s'.heap b = s.heap b)
    (hmap : ∀ f b, b ≠ a → (s'.connsMap f = some b ↔ s.connsMap f = some b))
    (hpc : ∀ w b, b ≠ a → SockPc.Calm b (s.worker w).pc (s'.worker w).pc)
    (hentry : ∀ f, s'.connsMap f = some a ↔
      ∃ c, s'.heap a = some c ∧ c.sfd = some f ∧ s'.InMap a c)
    (hobj : ∀ c, s'.heap a = some c → s'.ObjOk a c) : s'.Entries := by
  constructor
  · intro f b
    by_cases hb : b = a
    · exact hb ▸ hentry f
    · rw [hmap f b hb, hheap b hb, h.entry]
      exact exists_congr fun c => and_congr_right fun _ => and_congr_right fun _ =>
        (inMap_congr fun w => hpc w b hb).symm
  · intro b c hc
    by_cases hb : b = a
    · exact hb ▸ hobj c (hb ▸ hc)
    · exact (h.obj (hheap b hb ▸ hc)).of_calm fun w => hpc w b hb

/-- The objects and the map stay, and the workers say the same of them. -/
theorem Entries.of_calm (h : s.Entries) (hheap : s'.heap = s.heap) (hmap : s'.connsMap = s.connsMap)
    (hpc : ∀ w b, SockPc.Calm b (s.worker w).pc (s'.worker w).pc) : s'.Entries := by
  constructor
  · intro f b
    rw [hmap, hheap, h.entry]
    exact exists_congr fun c => and_congr_right fun _ => and_congr_right fun _ =>
      (inMap_congr fun w => hpc w b).symm
  · intro b c hc
    exact (h.obj (hheap ▸ hc)).of_calm fun w => hpc w b

/-- Only the program point of a worker changes, and it has what it had. -/
theorem Good.setPc (h : s.Good) {w : ℕ} {p q : SockPc} (hp : (s.worker w).pc = p)
    (hfds : q.fds = p.fds) (htaken : q.taken = p.taken) (hmaking : q.making = p.making)
    (hcalm : ∀ b, SockPc.Calm b p q) (hsub : q.addrs ⊆ (s.worker w).threadConnections) (hnd : q.addrs.Nodup)
    (hrej : ¬ q.Rejects) : (s.setPc w q).Good := by
  subst hp
  refine ⟨h.fds.congr rfl (funext fun r => ?_) rfl, h.objs.congr rfl (funext fun r => ?_) rfl,
    h.entries.of_calm rfl rfl fun v b => ?_, fun v => ?_, fun v => ?_⟩
  · cases r with
    | handed v =>
      show ((s.setPc w q).worker v).newConnections.map _ = _
      rw [setPc_worker]
      split <;> rfl
    | making v =>
      show ((s.setPc w q).worker v).pc.fds = (s.worker v).pc.fds
      rw [setPc_worker]
      split
      · next hv => exact hv ▸ hfds
      · rfl
    | _ => rfl
  · cases r with
    | handed v =>
      show ((s.setPc w q).worker v).newConnections.filterMap _ = _
      rw [setPc_worker]
      split <;> rfl
    | taken v =>
      show ((s.setPc w q).worker v).pc.taken = (s.worker v).pc.taken
      rw [setPc_worker]
      split
      · next hv => exact hv ▸ htaken
      · rfl
    | making v =>
      show ((s.setPc w q).worker v).pc.making = (s.worker v).pc.making
      rw [setPc_worker]
      split
      · next hv => exact hv ▸ hmaking
      · rfl
    | registered v =>
      show ((s.setPc w q).worker v).threadConnections = _
      rw [setPc_worker]
      split <;> rfl
    | retired v =>
      show ((s.setPc w q).worker v).forDelete = _
      rw [setPc_worker]
      split <;> rfl
    | _ => rfl
  · rw [setPc_worker]
    split
    · next hv => exact hv ▸ hcalm b
    · exact .refl b _
  · rw [setPc_worker]
    split
    · next hv =>
      subst hv
      exact ⟨hsub, hnd⟩
    · exact h.sweep v
  · rw [setPc_worker]
    split
    · exact hrej
    · exact h.accepts v

/-- A descriptor changes hands outside the workers and the objects. -/
theorem Good.moveFd (h : s.Good) {f : ℕ} {p q : Option Holder}
    (m : Moves s.os s'.os s.holdsFd s'.holdsFd f p q) (hq : q ≠ none → f < s.openMax)
    (hmax : s'.openMax = s.openMax) (hheap : s'.heap = s.heap) (hmap : s'.connsMap = s.connsMap)
    (hworker : s'.worker = s.worker) (hconn : s'.connectConns = s.connectConns) : s'.Good := by
  refine ⟨h.fds.move m hmax hq, h.objs.congr ?_ (funext fun r => ?_) hmax,
    h.entries.of_calm hheap hmap fun v b => ?_, fun v => ?_, fun v => ?_⟩
  · funext a
    rw [postAt, postAt, hheap]
  · cases r <;> simp only [holdsObj, hworker, hconn]
  · rw [hworker]
    exact .refl b _
  · rw [hworker]
    exact h.sweep v
  · rw [hworker]
    exact h.accepts v

/-- The counter says nothing of the registry. -/
theorem Good.setCount (h : s.Good) (n : UInt64) : { s with currConns := n }.Good :=
  ⟨⟨h.fds.placed, h.fds.lt⟩, ⟨h.objs.placed, h.objs.registered, h.objs.ge⟩,
    h.entries.of_calm rfl rfl fun _ b => .refl b _, h.sweep, h.accepts⟩

end Sockets

end GoFight.Net
