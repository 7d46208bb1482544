import GoFight.Net.Connection

/-!
# What `create_conn` takes and gives back

`create_conn` duplicates a descriptor, adds events, and enters the connection in `s_conns_map`; its two
callers and `conn_internal_close` clean up behind it.  Each of them is a function on the resources of
the process here, with what the system calls give as an argument; what the process did with a
descriptor or an object so far is recorded.

* `Resources` — descriptors, events, map, counter, and the record;
* `createConn`, `threadLibeventProcess`, `serverListen`, `connInternalClose` — the functions;
* `Call.cleansUp_iff` — when a call of `create_conn` and its caller clean up once;
* `atomic_iff` — when `create_conn` leaves nothing behind;
* `closesOnce_iff` — when `conn_internal_close` closes what `create_conn` opened.
-/

namespace GoFight.Net

/-- The resources of the process, and what was done with them. -/
structure Resources where
  /-- The open descriptors. -/
  opened : ℤ → Bool
  /-- `s_conns_map`. -/
  connsMap : ℤ → Option Addr
  /-- `s_gns_stat.curr_conns_`. -/
  currConns : UInt64
  /-- The events in the event base, and the objects they point at. -/
  events : List (Addr × Side)
  /-- The keys of `thread_connections_` of the worker. -/
  threadConnections : List Addr
  /-- History: the descriptors closed, and whether `s_conns_map` had them as a key then. -/
  closed : List (ℤ × Bool)
  /-- History: the connections deleted, and how many `ConnInfo` were. -/
  deleted : List Addr
  infosDeleted : ℕ

/-- `net::Connection`: where it is, and its descriptors. -/
structure ConnFds where
  addr : Addr
  sfd : ℤ
  dup : ℤ
deriving DecidableEq, Repr

/-- `ConnInfo`, as far as `create_conn` goes. -/
structure ConnRequest where
  sfd : ℤ
  state : ConnState
  preNew : Option Addr
deriving DecidableEq, Repr

/-- What the system calls give in `create_conn`, and where it allocates. -/
structure Answers where
  dup : ℤ
  readAdded : Bool
  writeAdded : Bool
  fresh : Addr
deriving DecidableEq, Repr

namespace Resources

/-- `close`. -/
def close (r : Resources) (f : ℤ) : Resources :=
  { r with
    opened := Function.update r.opened f false
    closed := r.closed ++ [(f, (r.connsMap f).isSome)] }

/-- `if (f != -1) close(f)`. -/
def closeSet (r : Resources) (f : ℤ) : Resources := if f ≠ -1 then r.close f else r

/-- `GO_DELETE` of a connection. -/
def deleteConn (r : Resources) (a : Addr) : Resources := { r with deleted := r.deleted ++ [a] }

/-- `GO_DELETE` of a `ConnInfo`. -/
def deleteInfo (r : Resources) : Resources := { r with infosDeleted := r.infosDeleted + 1 }

/-- `event_add`, where it succeeds. -/
def addEvent (r : Resources) (a : Addr) (side : Side) : Resources :=
  { r with events := r.events ++ [(a, side)] }

/-- `dup(sfd)`, where it opens a descriptor. -/
def openDup (r : Resources) (f : ℤ) : Resources :=
  if f ≠ -1 then { r with opened := Function.update r.opened f true } else r

/-- How often a descriptor was closed. -/
def closes (r : Resources) (f : ℤ) : ℕ := r.closed.countP fun e => e.1 = f

/-! ### `create_conn` -/

/-- The end of `create_conn` behind its loop, where it has an object and gives it up. -/
def discard (r : Resources) (c : ConnFds) (preNew : Option Addr) : Resources :=
  let r := (r.closeSet c.dup).closeSet c.sfd
  match preNew with
  | none => r.deleteConn c.addr
  | some _ => r

/-- `create_conn` has no use for its arguments: no descriptor, no event base, or a descriptor that has a
connection. -/
def Unusable (r : Resources) (sfd : ℤ) (ebase : Bool) : Prop :=
  sfd < 0 ∨ ebase = false ∨ (r.connsMap sfd).isSome = true

instance (r : Resources) (sfd : ℤ) (ebase : Bool) : Decidable (r.Unusable sfd ebase) :=
  inferInstanceAs (Decidable (_ ∨ _))

/-- The object of `create_conn`, with its attributes set. -/
def setAttribute (q : ConnRequest) (o : Answers) : ConnFds where
  addr := q.preNew.getD o.fresh
  sfd := q.sfd
  dup := if q.state ≠ .listen then o.dup else -1

/-- `create_conn`; `ebase` is whether there is an event base. -/
def createConn (r : Resources) (q : ConnRequest) (ebase : Bool) (o : Answers) :
    Resources × Option ConnFds :=
  if q.sfd < 0 then (r, none)
  else if ebase = false then (r, none)
  else if (r.connsMap q.sfd).isSome then (r, none)
  else
    let c := setAttribute q o
    let r := r.openDup c.dup
    if o.readAdded = false then (r.discard c q.preNew, none)
    else
      let r := r.addEvent c.addr .read
      if q.state ≠ .listen ∧ o.writeAdded = false then (r.discard c q.preNew, none)
      else
        let r := if q.state ≠ .listen then r.addEvent c.addr .write else r
        ({ r with
          connsMap := Function.update r.connsMap q.sfd (some c.addr)
          currConns := r.currConns + 1 }, some c)

/-! ### The callers -/

/-- The end of `thread_libevent_process`, where it gives the connection up. -/
def giveUp (r : Resources) (q : ConnRequest) : Resources :=
  match q.preNew with
  | none => r.deleteInfo
  | some a => (r.deleteConn a).deleteInfo

/-- `thread_libevent_process` on a `ConnInfo`. -/
def threadLibeventProcess (r : Resources) (q : ConnRequest) (ebase : Bool) (o : Answers) :
    Resources :=
  match r.createConn q ebase o with
  | (r, none) => (r.closeSet q.sfd).giveUp q
  | (r, some c) =>
      if UInt64.ofNat q.sfd.toNat ∈ r.threadConnections then (r.closeSet q.sfd).giveUp q
      else { r with threadConnections := c.addr :: r.threadConnections }

/-- `server_listen` from its `create_conn` on. -/
def serverListen (r : Resources) (sfd : ℤ) (ebase : Bool) (o : Answers) : Resources × ℤ :=
  match r.createConn ⟨sfd, .listen, none⟩ ebase o with
  | (r, none) => (r.closeSet sfd, -1)
  | (r, some _) => (r, sfd)

/-- `conn_internal_close`: the second `close` tests the first descriptor again. -/
def connInternalClose (r : Resources) (c : ConnFds) : Resources :=
  let r := { r with
    connsMap := Function.update r.connsMap c.sfd none
    events := r.events.filter fun e => e.1 ≠ c.addr }
  let r := if c.dup ≠ -1 then r.close c.dup else r
  let r := if c.dup ≠ -1 then r.close c.sfd else r
  { r with currConns := r.currConns - 1 }

/-! ### What the updates change -/

section Api

variable (r : Resources) (f g : ℤ) (a : Addr) (c : ConnFds) (side : Side) (p : Option Addr)
  (q : ConnRequest)

theorem close_closes : (r.close f).closes g = r.closes g + if f = g then 1 else 0 := by
  simp [close, closes, List.countP_append, List.countP_cons]

theorem closeSet_of_ne (hf : f ≠ -1) : r.closeSet f = r.close f := if_pos hf

@[simp] theorem closeSet_neg_one : r.closeSet (-1) = r := if_neg fun h => h rfl

@[simp] theorem closeSet_deleted : (r.closeSet f).deleted = r.deleted := by
  unfold closeSet
  split <;> rfl

@[simp] theorem closeSet_infosDeleted : (r.closeSet f).infosDeleted = r.infosDeleted := by
  unfold closeSet
  split <;> rfl

@[simp] theorem closeSet_events : (r.closeSet f).events = r.events := by
  unfold closeSet
  split <;> rfl

@[simp] theorem closeSet_connsMap : (r.closeSet f).connsMap = r.connsMap := by
  unfold closeSet
  split <;> rfl

@[simp] theorem closeSet_currConns : (r.closeSet f).currConns = r.currConns := by
  unfold closeSet
  split <;> rfl

theorem closes_le_closeSet : r.closes g ≤ (r.closeSet f).closes g := by
  unfold closeSet
  split
  · rw [close_closes]
    exact Nat.le_add_right _ _
  · exact le_rfl

@[simp] theorem discard_events : (r.discard c p).events = r.events := by
  cases p <;> simp [discard, deleteConn]

@[simp] theorem discard_connsMap : (r.discard c p).connsMap = r.connsMap := by
  cases p <;> simp [discard, deleteConn]

@[simp] theorem discard_currConns : (r.discard c p).currConns = r.currConns := by
  cases p <;> simp [discard, deleteConn]

theorem discard_closes : (r.discard c p).closes f = ((r.closeSet c.dup).closeSet c.sfd).closes f := by
  cases p <;> rfl

@[simp] theorem giveUp_closes : (r.giveUp q).closes f = r.closes f := by
  unfold giveUp
  split <;> rfl

@[simp] theorem giveUp_infosDeleted : (r.giveUp q).infosDeleted = r.infosDeleted + 1 := by
  unfold giveUp
  split <;> rfl

@[simp] theorem openDup_closed : (r.openDup f).closed = r.closed := by
  unfold openDup
  split <;> rfl

@[simp] theorem openDup_events : (r.openDup f).events = r.events := by
  unfold openDup
  split <;> rfl

@[simp] theorem openDup_connsMap : (r.openDup f).connsMap = r.connsMap := by
  unfold openDup
  split <;> rfl

@[simp] theorem openDup_currConns : (r.openDup f).currConns = r.currConns := by
  unfold openDup
  split <;> rfl

@[simp] theorem openDup_deleted : (r.openDup f).deleted = r.deleted := by
  unfold openDup
  split <;> rfl

@[simp] theorem openDup_infosDeleted : (r.openDup f).infosDeleted = r.infosDeleted := by
  unfold openDup
  split <;> rfl

end Api

/-! ### The exits of `create_conn` -/

/-- What `create_conn` returns. -/
inductive Created (r : Resources) (q : ConnRequest) (ebase : Bool) (o : Answers) :
    Resources × Option ConnFds → Prop
  | unusable (hu : r.Unusable q.sfd ebase) : Created r q ebase o (r, none)
  | noRead (hu : ¬r.Unusable q.sfd ebase) (hread : o.readAdded = false) :
      Created r q ebase o
        ((r.openDup (setAttribute q o).dup).discard (setAttribute q o) q.preNew, none)
  | noWrite (hu : ¬r.Unusable q.sfd ebase) (hread : o.readAdded = true) (hst : q.state ≠ .listen)
      (hwrite : o.writeAdded = false) :
      Created r q ebase o
        (((r.openDup (setAttribute q o).dup).addEvent (setAttribute q o).addr .read).discard
          (setAttribute q o) q.preNew, none)
  | made {r'} (hu : ¬r.Unusable q.sfd ebase) (hread : o.readAdded = true)
      (hwrite : q.state ≠ .listen → o.writeAdded = true)
      (hmap : r'.connsMap = Function.update r.connsMap q.sfd (some (setAttribute q o).addr))
      (hcount : r'.currConns = r.currConns + 1)
      (hevents : r'.events = r.events ++ ((setAttribute q o).addr, .read) ::
        if q.state ≠ .listen then [((setAttribute q o).addr, .write)] else [])
      (hclosed : r'.closed = r.closed) (hdeleted : r'.deleted = r.deleted)
      (hinfos : r'.infosDeleted = r.infosDeleted) :
      Created r q ebase o (r', some (setAttribute q o))

/-- **The exits of `create_conn`.** -/
theorem createConn_cases (r : Resources) (q : ConnRequest) (ebase : Bool) (o : Answers) :
    Created r q ebase o (r.createConn q ebase o) := by
  unfold createConn
  split
  · next hsfd => exact .unusable (.inl hsfd)
  · next hsfd =>
    split
    · next hbase => exact .unusable (.inr (.inl hbase))
    · next hbase =>
      split
      · next hkey => exact .unusable (.inr (.inr hkey))
      · next hkey =>
        have hu : ¬r.Unusable q.sfd ebase := by
          rintro (h | h | h)
          · exact hsfd h
          · exact hbase h
          · exact hkey h
        dsimp only
        split
        · next hread => exact .noRead hu hread
        · next hread =>
          rw [Bool.not_eq_false] at hread
          split
          · next hwrite => exact .noWrite hu hread hwrite.1 hwrite.2
          · next hwrite =>
            rw [not_and, Bool.not_eq_false] at hwrite
            apply Created.made hu hread hwrite
            all_goals
              by_cases hst : q.state = .listen
              · simp [hst, addEvent]
              · simp [hst, addEvent]

/-- What a failing `create_conn` does with the descriptor it was given. -/
theorem discard_closes_sfd {r : Resources} {q : ConnRequest} {o : Answers} (hsfd : 0 ≤ q.sfd) :
    r.closes q.sfd + 1 ≤ (r.discard (setAttribute q o) q.preNew).closes q.sfd := by
  have hne : q.sfd ≠ -1 := by omega
  have hdup := closes_le_closeSet r (setAttribute q o).dup q.sfd
  rw [discard_closes]
  show _ ≤ ((r.closeSet (setAttribute q o).dup).closeSet q.sfd).closes q.sfd
  rw [closeSet_of_ne _ _ hne, close_closes, if_pos rfl]
  omega

theorem closes_congr {r r' : Resources} (h : r'.closed = r.closed) (f : ℤ) :
    r'.closes f = r.closes f := by
  rw [closes, closes, h]

end Resources

/-! ### Clean-up between `create_conn` and its callers -/

/-- A call of `create_conn`. -/
inductive Call
  /-- In `thread_libevent_process`. -/
  | process (q : ConnRequest)
  /-- In `server_listen`. -/
  | listen (sfd : ℤ)
deriving DecidableEq, Repr

namespace Call

/-- What `create_conn` is called with. -/
def request : Call → ConnRequest
  | process q => q
  | listen sfd => ⟨sfd, .listen, none⟩

/-- How many `ConnInfo` the caller has. -/
def infos : Call → ℕ
  | process _ => 1
  | listen _ => 0

/-- The call, and what its caller does behind it. -/
def run (r : Resources) (ebase : Bool) (o : Answers) : Call → Resources
  | process q => r.threadLibeventProcess q ebase o
  | listen sfd => (r.serverListen sfd ebase o).1

/-- Caller and `create_conn` together give everything back once, or keep it. -/
structure CleansUp (call : Call) (r : Resources) (ebase : Bool) (o : Answers) : Prop where
  /-- On failure the descriptor is closed once, and so is its duplicate, where there is one. -/
  sfd : (r.createConn call.request ebase o).2 = none → 0 ≤ call.request.sfd →
    (call.run r ebase o).closes call.request.sfd = r.closes call.request.sfd + 1
  dup : (r.createConn call.request ebase o).2 = none → ¬r.Unusable call.request.sfd ebase →
    call.request.state ≠ .listen → o.dup ≠ -1 →
      (call.run r ebase o).closes o.dup = r.closes o.dup + 1
  /-- A pre-allocated connection is deleted once. -/
  preNew : (r.createConn call.request ebase o).2 = none → ∀ a, call.request.preNew = some a →
    (call.run r ebase o).deleted.count a = r.deleted.count a + 1
  /-- On success nothing is closed, and the connection is kept. -/
  kept : (r.createConn call.request ebase o).2.isSome →
    (call.run r ebase o).closed = r.closed ∧ (call.run r ebase o).deleted = r.deleted
  /-- The `ConnInfo` is deleted once. -/
  info : (call.run r ebase o).infosDeleted = r.infosDeleted + call.infos

/-- What the caller does where `create_conn` failed. -/
def afterFailure (r : Resources) : Call → Resources
  | process q => (r.closeSet q.sfd).giveUp q
  | listen sfd => r.closeSet sfd

variable {call : Call} {r r₁ : Resources} {ebase : Bool} {o : Answers}

theorem run_of_none (h : r.createConn call.request ebase o = (r₁, none)) :
    call.run r ebase o = call.afterFailure r₁ := by
  cases call with
  | process q =>
    change r.createConn q ebase o = (r₁, none) at h
    show r.threadLibeventProcess q ebase o = _
    rw [Resources.threadLibeventProcess, h]
    rfl
  | listen sfd =>
    change r.createConn ⟨sfd, .listen, none⟩ ebase o = (r₁, none) at h
    show (r.serverListen sfd ebase o).1 = _
    rw [Resources.serverListen, h]
    rfl

theorem afterFailure_closes (f : ℤ) :
    (call.afterFailure r).closes f = (r.closeSet call.request.sfd).closes f := by
  cases call with
  | process q => exact Resources.giveUp_closes _ _ _
  | listen sfd => rfl

theorem afterFailure_infosDeleted :
    (call.afterFailure r).infosDeleted = r.infosDeleted + call.infos := by
  cases call with
  | process q => exact (Resources.giveUp_infosDeleted _ _).trans (by rw [Resources.closeSet_infosDeleted]; rfl)
  | listen sfd => exact Resources.closeSet_infosDeleted _ _

theorem afterFailure_deleted {a : Addr} (ha : call.request.preNew = some a) :
    (call.afterFailure r).deleted = r.deleted ++ [a] := by
  cases call with
  | process q =>
    change q.preNew = some a at ha
    show ((r.closeSet q.sfd).giveUp q).deleted = _
    simp only [Resources.giveUp, ha, Resources.deleteInfo, Resources.deleteConn,
      Resources.closeSet_deleted]
  | listen sfd => cases ha

/-- The caller closes the descriptor, whatever `create_conn` did. -/
theorem run_closes_sfd (h : r.createConn call.request ebase o = (r₁, none))
    (hsfd : 0 ≤ call.request.sfd) :
    (call.run r ebase o).closes call.request.sfd = r₁.closes call.request.sfd + 1 := by
  have hne : call.request.sfd ≠ -1 := by omega
  rw [run_of_none h, afterFailure_closes, Resources.closeSet_of_ne _ _ hne, Resources.close_closes,
    if_pos rfl]

/-- Where `event_add` fails, `create_conn` has closed the descriptor before. -/
theorem not_cleansUp_of_discard (hu : ¬r.Unusable call.request.sfd ebase) {r₂ : Resources}
    (hr₂ : r₂.closed = r.closed)
    (h : r.createConn call.request ebase o =
      (r₂.discard (Resources.setAttribute call.request o) call.request.preNew, none)) :
    ¬call.CleansUp r ebase o := by
  intro hclean
  have hsfd : 0 ≤ call.request.sfd := Int.not_lt.mp fun hlt => hu (.inl hlt)
  have hone := hclean.sfd (by rw [h]) hsfd
  have htwo := Resources.discard_closes_sfd (r := r₂) (q := call.request) (o := o) hsfd
  rw [run_closes_sfd h hsfd] at hone
  rw [Resources.closes_congr hr₂] at htwo
  omega

/-- `thread_libevent_process` never deletes the `ConnInfo` of a connection it keeps. -/
theorem not_cleansUp_of_made {q : ConnRequest} {c : ConnFds}
    (hu : ¬r.Unusable q.sfd ebase) (hclosed : r₁.closed = r.closed)
    (hinfos : r₁.infosDeleted = r.infosDeleted) (h : r.createConn q ebase o = (r₁, some c)) :
    ¬(Call.process q).CleansUp r ebase o := by
  intro hclean
  have hne : q.sfd ≠ -1 := fun heq => hu (.inl (by omega))
  have hkept := (hclean.kept (by rw [request, h]; rfl)).1
  have hinfo := hclean.info
  change (r.threadLibeventProcess q ebase o).closed = _ at hkept
  change (r.threadLibeventProcess q ebase o).infosDeleted = r.infosDeleted + 1 at hinfo
  rw [Resources.threadLibeventProcess, h] at hkept hinfo
  dsimp only at hkept hinfo
  split at hkept
  · have hclose : ((r₁.closeSet q.sfd).giveUp q).closes q.sfd = r.closes q.sfd :=
      Resources.closes_congr hkept q.sfd
    rw [Resources.giveUp_closes, Resources.closeSet_of_ne _ _ hne, Resources.close_closes,
      if_pos rfl, Resources.closes_congr hclosed] at hclose
    omega
  · next hkey =>
    rw [if_neg hkey] at hinfo
    change r₁.infosDeleted = _ at hinfo
    omega

/-- **Clean-up is complete and not done twice if and only if** `create_conn` has no use for its
arguments, or is called by `server_listen` and succeeds. -/
theorem cleansUp_iff (call : Call) (r : Resources) (ebase : Bool) (o : Answers) :
    call.CleansUp r ebase o ↔
      r.Unusable call.request.sfd ebase ∨ ∃ sfd, call = .listen sfd ∧ o.readAdded = true := by
  have hcreated := r.createConn_cases call.request ebase o
  cases hres : r.createConn call.request ebase o with
  | mk r₁ res =>
  rw [hres] at hcreated
  cases hcreated with
  | unusable hu =>
    refine iff_of_true ⟨fun _ hsfd => ?_, fun _ hu' => absurd hu hu', fun _ a ha => ?_, ?_, ?_⟩
      (.inl hu)
    · exact run_closes_sfd hres hsfd
    · rw [run_of_none hres, afterFailure_deleted ha, List.count_append, List.count_singleton_self]
    · rw [hres]
      exact nofun
    · rw [run_of_none hres, afterFailure_infosDeleted]
  | noRead hu hread =>
    refine iff_of_false (not_cleansUp_of_discard hu (Resources.openDup_closed _ _) hres) ?_
    rintro (h | ⟨_, -, h⟩)
    · exact hu h
    · rw [hread] at h
      cases h
  | noWrite hu hread hst hwrite =>
    refine iff_of_false (not_cleansUp_of_discard hu ?_ hres) ?_
    · exact Resources.openDup_closed _ _
    · rintro (h | ⟨sfd, rfl, -⟩)
      · exact hu h
      · exact hst rfl
  | made hu hread hwrite hmap hcount hevents hclosed hdeleted hinfos =>
    cases call with
    | process q =>
      refine iff_of_false (not_cleansUp_of_made hu hclosed hinfos hres) ?_
      rintro (h | ⟨_, h, -⟩)
      · exact hu h
      · cases h
    | listen sfd =>
      have hrun : (Call.listen sfd).run r ebase o = r₁ := by
        change r.createConn ⟨sfd, .listen, none⟩ ebase o = (r₁, some _) at hres
        show (r.serverListen sfd ebase o).1 = r₁
        rw [Resources.serverListen, hres]
      refine iff_of_true ⟨?_, ?_, ?_, fun _ => ?_, ?_⟩ (.inr ⟨sfd, rfl, hread⟩)
      · rw [hres]
        exact nofun
      · rw [hres]
        exact nofun
      · rw [hres]
        exact nofun
      · rw [hrun]
        exact ⟨hclosed, hdeleted⟩
      · rw [hrun]
        exact hinfos

end Call

/-- A process with one open socket. -/
def oneSocket : Resources where
  opened f := f = 5
  connsMap _ := none
  currConns := 0
  events := []
  threadConnections := []
  closed := []
  deleted := []
  infosDeleted := 0

/-- The first `event_add` fails on an accepted socket: it is closed twice. -/
theorem not_cleansUp_oneSocket :
    ¬(Call.process ⟨5, .waiting, none⟩).CleansUp oneSocket true ⟨6, false, true, 64⟩ := by
  intro h
  have hone := h.sfd (by decide) (by decide)
  revert hone
  decide

/-! ### What a failed `create_conn` leaves behind -/

/-- `create_conn` does all or nothing. -/
structure Atomic (r : Resources) (q : ConnRequest) (ebase : Bool) (o : Answers) : Prop where
  failed : (r.createConn q ebase o).2 = none →
    (r.createConn q ebase o).1.events = r.events ∧
      (r.createConn q ebase o).1.connsMap = r.connsMap ∧
      (r.createConn q ebase o).1.currConns = r.currConns
  /-- The events of the connection are registered, and it has one new entry in the map and the
  counter. -/
  made : ∀ c, (r.createConn q ebase o).2 = some c →
    (c.addr, .read) ∈ (r.createConn q ebase o).1.events ∧
      (q.state ≠ .listen → (c.addr, .write) ∈ (r.createConn q ebase o).1.events) ∧
      r.connsMap q.sfd = none ∧
      (r.createConn q ebase o).1.connsMap = Function.update r.connsMap q.sfd (some c.addr) ∧
      (r.createConn q ebase o).1.currConns = r.currConns + 1

/-- **`create_conn` does all or nothing, unless** the read event was added and the write event could
not be. -/
theorem atomic_iff (r : Resources) (q : ConnRequest) (ebase : Bool) (o : Answers) :
    Atomic r q ebase o ↔
      ¬(¬r.Unusable q.sfd ebase ∧ q.state ≠ .listen ∧ o.readAdded = true ∧ o.writeAdded = false) := by
  have hcreated := r.createConn_cases q ebase o
  cases hres : r.createConn q ebase o with
  | mk r₁ res =>
  rw [hres] at hcreated
  cases hcreated with
  | unusable hu =>
    refine iff_of_true ⟨fun _ => ?_, ?_⟩ fun h => h.1 hu
    · rw [hres]
      exact ⟨rfl, rfl, rfl⟩
    · rw [hres]
      exact nofun
  | noRead hu hread =>
    refine iff_of_true ⟨fun _ => ?_, ?_⟩ fun h => ?_
    · rw [hres]
      simp
    · rw [hres]
      exact nofun
    · rw [hread] at h
      exact Bool.false_ne_true h.2.2.1
  | noWrite hu hread hst hwrite =>
    refine iff_of_false (fun h => ?_) fun h => h ⟨hu, hst, hread, hwrite⟩
    -- the read event stays behind
    have hevents := (h.failed (by rw [hres])).1
    have hlen := congrArg List.length hevents
    rw [hres, Resources.discard_events, Resources.addEvent, List.length_append,
      Resources.openDup_events, List.length_singleton] at hlen
    omega
  | made hu hread hwrite hmap hcount hevents hclosed hdeleted hinfos =>
    refine iff_of_true ⟨?_, fun c hc => ?_⟩ fun h => ?_
    · rw [hres]
      exact nofun
    · rw [hres, Option.some.injEq] at hc
      subst hc
      have hnone : r.connsMap q.sfd = none := by
        rw [← Option.not_isSome_iff_eq_none]
        exact fun hkey => hu (.inr (.inr hkey))
      rw [hres, hevents]
      refine ⟨by simp, fun hst => ?_, hnone, hmap, hcount⟩
      rw [if_pos hst]
      simp
    · rw [hwrite h.2.1] at h
      exact Bool.noConfusion h.2.2.2

/-- The second `event_add` fails: an event of the deleted object stays behind. -/
theorem not_atomic_oneSocket :
    ¬Atomic oneSocket ⟨5, .waiting, none⟩ true ⟨6, true, false, 64⟩ := by
  intro h
  have hevents := (h.failed (by decide)).1
  revert hevents
  decide

/-! ### Closing what `create_conn` opened -/

/-- `conn_internal_close` closes the descriptors of a connection, each once, and no other. -/
structure ClosesOnce (r : Resources) (c : ConnFds) : Prop where
  sfd : (r.connInternalClose c).closes c.sfd = r.closes c.sfd + 1
  dup : c.dup ≠ -1 → (r.connInternalClose c).closes c.dup = r.closes c.dup + 1
  other : ∀ f, f ≠ c.sfd → f ≠ c.dup → (r.connInternalClose c).closes f = r.closes f
  /-- The entry in `s_conns_map` goes first. -/
  unmapped : ∀ e ∈ (r.connInternalClose c).closed.drop r.closed.length, e.1 = c.sfd → e.2 = false
  /-- Nothing stays open. -/
  shut : (r.connInternalClose c).opened c.sfd = false ∧
    (c.dup ≠ -1 → (r.connInternalClose c).opened c.dup = false)

/-- **A connection that `create_conn` made is closed as it should be if and only if `dup` gave it a
second descriptor.** -/
theorem closesOnce_iff {r₀ r₁ : Resources} {q : ConnRequest} {ebase : Bool} {o : Answers} {c : ConnFds}
    (h : r₀.createConn q ebase o = (r₁, some c)) (hst : q.state ≠ .listen) (hdup : o.dup ≠ q.sfd)
    (r : Resources) : ClosesOnce r c ↔ o.dup ≠ -1 := by
  have hcreated := r₀.createConn_cases q ebase o
  rw [h] at hcreated
  cases hcreated with
  | made hu hread hwrite hmap hcount hevents hclosed hdeleted hinfos =>
  have hcdup : (Resources.setAttribute q o).dup = o.dup := if_pos hst
  have hsfd : (Resources.setAttribute q o).sfd = q.sfd := rfl
  constructor
  · intro hclose heq
    have hone := hclose.sfd
    simp only [Resources.connInternalClose, hcdup, heq, ne_eq, not_true_eq_false, if_false] at hone
    change r.closes _ = r.closes _ + 1 at hone
    omega
  · intro hne
    have hrun : r.connInternalClose (Resources.setAttribute q o) =
        let r := { r with
          connsMap := Function.update r.connsMap q.sfd none
          events := r.events.filter fun e => e.1 ≠ (Resources.setAttribute q o).addr }
        { (r.close o.dup).close q.sfd with
          currConns := ((r.close o.dup).close q.sfd).currConns - 1 } := by
      rw [Resources.connInternalClose, hcdup, hsfd]
      simp only [if_pos hne]
    have hcloses : ∀ f, (r.connInternalClose (Resources.setAttribute q o)).closes f =
        r.closes f + (if o.dup = f then 1 else 0) + if q.sfd = f then 1 else 0 := by
      intro f
      rw [hrun]
      exact (Resources.close_closes _ q.sfd f).trans (by rw [Resources.close_closes]; rfl)
    refine ⟨?_, fun _ => ?_, fun f hf hfd => ?_, ?_, ?_, fun _ => ?_⟩
    · rw [hcloses, hsfd, if_neg hdup, if_pos rfl]
    · rw [hcloses, hcdup, if_pos rfl, if_neg (Ne.symm hdup)]
    · rw [hcloses, if_neg fun h => hfd (h.symm.trans hcdup.symm), if_neg fun h => hf h.symm, Nat.add_zero]
    · intro e he hes
      rw [hrun] at he
      simp only [Resources.close, List.append_assoc, List.drop_left, List.cons_append,
        List.nil_append, List.mem_cons, List.not_mem_nil, or_false] at he
      rcases he with rfl | rfl
      · exact absurd (hes.trans hsfd) hdup
      · simp
    · rw [hrun, hsfd]
      simp [Resources.close]
    · rw [hrun, hcdup]
      simp [Resources.close, hdup]

/-- An accepted socket, duplicated, and closed by the sweep. -/
theorem closesOnce_oneSocket :
    ∃ r c, oneSocket.createConn ⟨5, .waiting, none⟩ true ⟨6, true, true, 64⟩ = (r, some c) ∧
      c = ⟨64, 5, 6⟩ ∧ ClosesOnce r c := by
  obtain ⟨c, hc, rfl⟩ : ∃ c, (oneSocket.createConn ⟨5, .waiting, none⟩ true ⟨6, true, true, 64⟩).2 =
      some c ∧ c = ⟨64, 5, 6⟩ := ⟨_, rfl, by decide⟩
  have hres : oneSocket.createConn ⟨5, .waiting, none⟩ true ⟨6, true, true, 64⟩ =
      ((oneSocket.createConn ⟨5, .waiting, none⟩ true ⟨6, true, true, 64⟩).1, some ⟨64, 5, 6⟩) :=
    Prod.ext rfl hc
  exact ⟨_, _, hres, rfl, (closesOnce_iff hres (by decide) (by decide) _).mpr (by decide)⟩

/-- Without a duplicate the socket stays open. -/
theorem not_closesOnce_oneSocket :
    ∃ r c, oneSocket.createConn ⟨5, .waiting, none⟩ true ⟨-1, true, true, 64⟩ = (r, some c) ∧
      ¬ClosesOnce r c ∧ (r.connInternalClose c).opened 5 = true := by
  refine ⟨_, _, rfl, fun h => ?_, by decide⟩
  have hshut := h.shut.1
  revert hshut
  decide

end GoFight.Net
