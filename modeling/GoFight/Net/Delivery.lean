import GoFight.Net.Reading

/-!
# Messages in front of a disconnect

A worker moves `conn_read_msgs_` at one point of its loop, reads at two later ones and sweeps closed
connections after both.  So what was read is still queued at the sweep, and is lost with the object
unless the connection stays open until the next transfer.

* `Phase.Past` — where a worker is past the transfer of a connection, and its sweep still comes to it;
* `ClosesInTime` — the condition on a step: what closes a connection from outside `on_read` finds its
  queue empty, or its worker not there;
* `Counted` — the invariant: what was queued before a close has left the queue when the sweep comes;
* `InboundKept` — what was queued before `CS_CLOSE` comes before the notice;
  `inboundKept_of_reach` — so it is in every run whose steps meet the condition.
-/

namespace GoFight.Net

open GoFight.Lib

variable {Cls Msg : Type*}

/-! ### Between the transfer and the sweep -/

/-- Whether a worker in this phase is past the transfer from the connection at `a`, and its sweep
still comes to it: what is queued there now is queued there then. -/
def Phase.Past (a : Addr) : Phase → Prop
  | .top => False
  | .drain => False
  | .transfer todo => a ∉ todo
  | .sweep todo _ => a ∈ todo
  | .closing _ todo _ => a ∈ todo
  | .erase _ => False
  | .delete => False
  | _ => True

instance decidablePast (a : Addr) : ∀ p : Phase, Decidable (p.Past a)
  | .top => isFalse id
  | .drain => isFalse id
  | .transfer todo => inferInstanceAs (Decidable (a ∉ todo))
  | .connectors => isTrue trivial
  | .pass _ => isTrue trivial
  | .tryRead _ _ => isTrue trivial
  | .tryWrite _ _ => isTrue trivial
  | .reading _ _ => isTrue trivial
  | .writing _ _ => isTrue trivial
  | .poll => isTrue trivial
  | .callback _ _ => isTrue trivial
  | .sweep todo _ => inferInstanceAs (Decidable (a ∈ todo))
  | .closing _ todo _ => inferInstanceAs (Decidable (a ∈ todo))
  | .erase _ => isFalse id
  | .delete => isFalse id

/-- `c'` is `c` after a step that does not register it. -/
structure Connection.Stays (c c' : Connection Msg) : Prop where
  id : c.id = c'.id
  place : ∀ {w}, c'.place = .registered w → c.place = .registered w

theorem Connection.Stays.refl (c : Connection Msg) : c.Stays c := ⟨rfl, fun h => h⟩

namespace Layer

variable {G : Generated Cls Msg} {s s' : Layer Cls Msg}

/-! ### Counting what came before a close -/

/-- The object `c` at `a` is past the transfer of its worker, and the sweep still comes to it. -/
def Past (s : Layer Cls Msg) (a : Addr) (c : Connection Msg) : Prop :=
  ∃ w, c.place = .registered w ∧ (s.worker w).phase.Past a

theorem Past.of_stays {a : Addr} {c c' : Connection Msg} (h : s'.Past a c') (hc : c.Stays c')
    (hphase : ∀ {w}, c'.place = .registered w → (s'.worker w).phase.Past a →
      (s.worker w).phase.Past a) : s.Past a c := by
  obtain ⟨w, hp, hpast⟩ := h
  exact ⟨w, hc.place hp, hphase hp hpast⟩

/-- No worker goes on. -/
theorem past_modWorker {a : Addr} {c : Connection Msg} {w : ℕ} {g : ThreadData Msg → ThreadData Msg}
    (hg : ∀ t, (g t).phase = t.phase) : (s.modWorker w g).Past a c ↔ s.Past a c := by
  have hphase : ∀ v, ((s.modWorker w g).worker v).phase = (s.worker v).phase := by
    intro v
    rw [modWorker_worker]
    split
    · exact hg _
    · rfl
  simp only [Past, hphase]

/-- What was queued before a close is decoded, has left `conn_read_msgs_` when the sweep comes, and is
in front of the notice. -/
structure Counted (s : Layer Cls Msg) : Prop where
  decoded : ∀ {id t n}, (s.life id).closed = some (t, n) → n ≤ (s.life id).decoded.length
  moved : ∀ {a c t n}, s.heap a = some c → s.Past a c → (s.life c.id).closed = some (t, n) →
    n ≤ (s.stream c.id).length
  noticed : ∀ {id t n}, (s.life id).closed = some (t, n) → (s.life id).noticed = true →
    n < (s.stream id).length

/-- Streams only grow, nothing is closed or noticed, and no closed connection gets past the
transfer. -/
structure Grows (s s' : Layer Cls Msg) : Prop where
  closed : ∀ {id}, (s'.life id).closed.isSome →
    (s'.life id).closed = (s.life id).closed ∧ (s'.life id).noticed = (s.life id).noticed
  decoded : ∀ {id}, (s'.life id).closed.isSome →
    (s.life id).decoded.length ≤ (s'.life id).decoded.length
  owner : ∀ {id w}, (s.life id).owner = some w → (s'.life id).owner = some w
  output : s'.output = s.output
  queues : ∀ w, (s.worker w).tdReadMsgs <+: (s'.worker w).tdReadMsgs
  past : ∀ {a c'}, s'.heap a = some c' → (s'.life c'.id).closed.isSome → s'.Past a c' →
    ∃ c, s.heap a = some c ∧ c.id = c'.id ∧ s.Past a c

namespace Grows

variable {s'' : Layer Cls Msg}

theorem trans (h₁ : Grows s s') (h₂ : Grows s' s'') : Grows s s'' where
  closed hcl := by
    obtain ⟨hc₂, hn₂⟩ := h₂.closed hcl
    obtain ⟨hc₁, hn₁⟩ := h₁.closed (hc₂ ▸ hcl)
    exact ⟨hc₂.trans hc₁, hn₂.trans hn₁⟩
  decoded hcl := (h₁.decoded ((h₂.closed hcl).1 ▸ hcl)).trans (h₂.decoded hcl)
  owner ho := h₂.owner (h₁.owner ho)
  output := h₂.output.trans h₁.output
  queues w := (h₁.queues w).trans (h₂.queues w)
  past hd hcl hpast := by
    obtain ⟨c', hc', hid', hpast'⟩ := h₂.past hd hcl hpast
    rw [← hid'] at hcl
    obtain ⟨c, hc, hid, hpast⟩ := h₁.past hc' ((h₂.closed hcl).1 ▸ hcl) hpast'
    exact ⟨c, hc, hid.trans hid', hpast⟩

/-- Histories and queues are the same, and nothing is registered. -/
theorem of_eq (hlife : s'.life = s.life) (hout : s'.output = s.output)
    (hheap : ∀ {a c'}, s'.heap a = some c' → ∃ c, s.heap a = some c ∧ c.Stays c')
    (hworker : ∀ w, (s'.worker w).tdReadMsgs = (s.worker w).tdReadMsgs ∧
      (s'.worker w).phase = (s.worker w).phase) : Grows s s' where
  closed _ := by rw [hlife]; exact ⟨rfl, rfl⟩
  decoded _ := by rw [hlife]
  owner ho := by rw [hlife]; exact ho
  output := hout
  queues w := by rw [(hworker w).1]
  past hd _ hpast := by
    obtain ⟨c, hc, hstays⟩ := hheap hd
    refine ⟨c, hc, hstays.id, hpast.of_stays hstays fun {w} _ hp => ?_⟩
    rwa [← (hworker w).2]

/-- Nothing here depends on what changes. -/
theorem congr (hlife : s'.life = s.life) (hout : s'.output = s.output) (hheap : s'.heap = s.heap)
    (hworker : s'.worker = s.worker) : Grows s s' :=
  of_eq hlife hout (fun {_ d} hd => ⟨d, hheap ▸ hd, .refl d⟩) fun _ => by rw [hworker]; exact ⟨rfl, rfl⟩

theorem modConn (s : Layer Cls Msg) (a : Addr) {f : Connection Msg → Connection Msg}
    (hf : ∀ c : Connection Msg, c.Stays (f c)) : Grows s (s.modConn a f) := by
  refine of_eq rfl rfl (fun {b d} hd => ?_) fun _ => ⟨rfl, rfl⟩
  rw [modConn_heap] at hd
  split at hd
  · obtain ⟨c, hc, rfl⟩ := Option.map_eq_some_iff.mp hd
    exact ⟨c, hc, hf c⟩
  · exact ⟨d, hd, .refl d⟩

theorem modWorker (s : Layer Cls Msg) (w : ℕ) {g : ThreadData Msg → ThreadData Msg}
    (hg : (s.worker w).tdReadMsgs <+: (g (s.worker w)).tdReadMsgs)
    (hp : ∀ {a c}, s.heap a = some c → c.place = .registered w → (g (s.worker w)).phase.Past a →
      (s.worker w).phase.Past a) : Grows s (s.modWorker w g) where
  closed _ := ⟨rfl, rfl⟩
  decoded _ := le_rfl
  owner ho := ho
  output := rfl
  queues v := by
    rw [modWorker_worker]
    split
    · next hv => rw [hv]; exact hg
    · exact List.prefix_rfl
  past {a c} hc _ hpast := by
    refine ⟨c, hc, rfl, hpast.of_stays (.refl c) fun {v} hpl hv => ?_⟩
    rw [modWorker_worker] at hv
    split at hv
    · next hvw =>
      subst hvw
      exact hp hc hpl hv
    · exact hv

/-- A worker goes on to a phase that is past no more connections. -/
theorem goto (s : Layer Cls Msg) {w : ℕ} {p q : Phase} (hp : (s.worker w).phase = p)
    (hpast : ∀ a, q.Past a → p.Past a) : Grows s (s.goto w q) :=
  modWorker s w List.prefix_rfl fun _ _ hq => hp ▸ hpast _ hq

theorem modLife (s : Layer Cls Msg) {id : ℕ} {f : Life Msg → Life Msg}
    (hc : ∀ l, (f l).closed = l.closed) (hn : ∀ l, (f l).noticed = l.noticed)
    (hd : ∀ l, l.decoded.length ≤ (f l).decoded.length)
    (ho : ∀ w, (s.life id).owner = some w → (f (s.life id)).owner = some w) :
    Grows s (s.modLife id f) where
  closed _ := by
    rw [modLife_life]
    split
    · exact ⟨hc _, hn _⟩
    · exact ⟨rfl, rfl⟩
  decoded _ := by
    rw [modLife_life]
    split
    · exact hd _
    · exact le_rfl
  owner hov := by
    rw [modLife_life]
    split
    · next hid =>
      subst hid
      exact ho _ hov
    · exact hov
  output := rfl
  queues _ := List.prefix_rfl
  past {_ c} hc _ hpast := ⟨c, hc, rfl, hpast⟩

theorem alloc (hw : s.Objects) (a : Addr) (p : Place) (k : Bool) : Grows s (s.alloc a p k) where
  closed hcl := by
    rw [alloc_life] at hcl ⊢
    split at hcl
    · cases hcl
    · next hid =>
      rw [if_neg hid]
      exact ⟨rfl, rfl⟩
  decoded hcl := by
    rw [alloc_life] at hcl ⊢
    split at hcl
    · cases hcl
    · next hid => rw [if_neg hid]
  owner {id w} ho := by
    have hid : id ≠ s.nextId := by
      rintro rfl
      rw [hw.fresh le_rfl] at ho
      cases ho
    rw [alloc_life, if_neg hid, ho]
  output := rfl
  queues _ := List.prefix_rfl
  past {b d} hd hcl hpast := by
    rw [alloc_heap] at hd
    split at hd
    · -- the new object has a new history
      cases hd
      change ((s.alloc a p k).life s.nextId).closed.isSome at hcl
      rw [alloc_life, if_pos rfl] at hcl
      cases hcl
    · exact ⟨d, hd, rfl, hpast⟩

theorem free (s : Layer Cls Msg) (a : Addr) : Grows s (s.free a) := by
  unfold Layer.free
  split
  · exact .congr rfl rfl rfl rfl
  · have hheap : Grows s { s with heap := Function.update s.heap a none } := by
      refine of_eq rfl rfl (fun {b d} hd => ?_) fun _ => ⟨rfl, rfl⟩
      change Function.update s.heap a none b = some d at hd
      rw [Function.update_apply] at hd
      split at hd
      · cases hd
      · exact ⟨d, hd, .refl d⟩
    refine hheap.trans (modLife _ ?_ ?_ ?_ ?_)
    · exact fun _ => rfl
    · exact fun _ => rfl
    · exact fun _ => le_rfl
    · exact fun _ h => h

/-- What is registered has never been closed. -/
theorem registerConn (hw : s.Objects) {w : ℕ} {a : Addr} {c : Connection Msg}
    (hc : s.heap a = some c) (htd : c.td = none) (hopen : (s.life c.id).closed = none)
    (st : ConnState) : Grows s (s.registerConn w a c.id st) where
  closed _ := by
    rw [registerConn_life]
    split <;> exact ⟨rfl, rfl⟩
  decoded _ := by
    rw [registerConn_life]
    split <;> exact le_rfl
  owner {id v} ho := by
    rw [registerConn_life]
    split
    · next hid =>
      rw [hid, hw.owner hc, htd] at ho
      cases ho
    · exact ho
  output := rfl
  queues v := by
    rw [Layer.registerConn, modWorker_worker]
    split
    · next hv => rw [hv]; exact List.prefix_rfl
    · exact List.prefix_rfl
  past {b d} hd hcl hpast := by
    rw [registerConn_heap] at hd
    split at hd
    · next hb =>
      rw [hb, hc, Option.map_some, Option.some.injEq] at hd
      subst hd
      change ((s.registerConn w a c.id st).life c.id).closed.isSome at hcl
      rw [registerConn_life, if_pos rfl] at hcl
      change (s.life c.id).closed.isSome at hcl
      rw [hopen] at hcl
      cases hcl
    · exact ⟨d, hd, rfl, (past_modWorker (g := .register a) fun _ => rfl).mp hpast⟩

theorem stream_le (h : Grows s s') (id : ℕ) : (s.stream id).length ≤ (s'.stream id).length := by
  cases ho : (s.life id).owner with
  | none =>
    rw [stream, ho]
    exact Nat.zero_le _
  | some w =>
    rw [stream_of_owner ho, stream_of_owner (h.owner ho), h.output, itemsOf_append, itemsOf_append,
      List.length_append, List.length_append]
    exact Nat.add_le_add_left (List.Sublist.length_le ((h.queues w).sublist.filter _)) _

end Grows

theorem Counted.grow (h : s.Counted) (g : Grows s s') : s'.Counted where
  decoded {id t n} hcl := by
    have hsome : (s'.life id).closed.isSome := by rw [hcl]; rfl
    exact (h.decoded ((g.closed hsome).1.symm.trans hcl)).trans (g.decoded hsome)
  moved {a c' t n} hc' hpast hcl := by
    have hsome : (s'.life c'.id).closed.isSome := by rw [hcl]; rfl
    obtain ⟨c, hc, hid, hpast⟩ := g.past hc' hsome hpast
    have hle := g.stream_le c'.id
    rw [(g.closed hsome).1] at hcl
    rw [← hid] at hcl hle ⊢
    exact (h.moved hc hpast hcl).trans hle
  noticed {id t n} hcl hn := by
    have hsome : (s'.life id).closed.isSome := by rw [hcl]; rfl
    obtain ⟨hc, hn'⟩ := g.closed hsome
    exact (h.noticed (hc.symm.trans hcl) (hn' ▸ hn)).trans_le (g.stream_le id)

/-- With an empty queue, everything decoded has left it. -/
theorem Counted.moved_of_empty (h : s.Counted) (ho : s.InOrder) {a : Addr} {c : Connection Msg}
    (hc : s.heap a = some c) (hq : c.connReadMsgs = []) {t n : ℕ}
    (hcl : (s.life c.id).closed = some (t, n)) : n ≤ (s.stream c.id).length := by
  by_cases hn : (s.life c.id).noticed = true
  · exact (h.noticed hcl hn).le
  · have hlive := ho.live hc (Bool.not_eq_true _ ▸ hn)
    rw [hq, List.append_nil] at hlive
    rw [hlive]
    exact h.decoded hcl

/-- The transfer leaves a connection whose queue is empty. -/
theorem Counted.transferSkip (h : s.Counted) (ho : s.InOrder) {w : ℕ} {a : Addr} {todo : List Addr}
    {c : Connection Msg} (hp : (s.worker w).phase = .transfer (a :: todo)) (hc : s.heap a = some c)
    (hq : c.connReadMsgs = []) : (s.goto w (.transfer todo)).Counted := by
  have hsame : SameQueues s (s.goto w (.transfer todo)) := by
    refine .of_kept (.refl s) (fun _ => rfl) (fun _ hcl => hcl) (fun v => ?_) rfl
    rw [goto_worker]
    split <;> rfl
  constructor
  · exact h.decoded
  · intro b d t n hd hpast hcl
    rw [hsame.stream]
    by_cases hb : b = a
    · rw [hb] at hd
      exact h.moved_of_empty ho hd (Option.some.inj (hc.symm.trans hd) ▸ hq) hcl
    · refine h.moved hd (hpast.of_stays (.refl d) fun {v} _ hv => ?_) hcl
      rw [goto_worker] at hv
      split at hv
      · next hvw =>
        rw [hvw, hp]
        exact fun hmem => hv ((List.mem_cons.mp hmem).resolve_left hb)
      · exact hv
  · intro id t n hcl hn
    rw [hsame.stream]
    exact h.noticed hcl hn

/-- Whatever the object at `a` is: it is closed, has no nodes queued, or is transferred before the
sweep comes to it. -/
def InTime (s : Layer Cls Msg) (a : Addr) : Prop :=
  ∀ c ∈ s.heap a, c.state = .close ∨ c.connReadMsgs = [] ∨ ¬ s.Past a c

/-- `conn_close` in time. -/
theorem Counted.connClose (h : s.Counted) (hw : s.Objects) (hst : s.Stamped) (ho : s.InOrder)
    {a : Addr} (ha : s.InTime a) : (s.connClose a).Counted := by
  by_cases hclosed : ∀ c, s.heap a = some c → c.state = .close
  · rwa [connClose_of_close hclosed]
  simp only [not_forall, exists_prop] at hclosed
  obtain ⟨c, hc, hopen⟩ := hclosed
  have hlife : ∀ id, (s.connClose a).life id =
      if id = c.id then (s.life id).shut s.clock else s.life id := by
    intro id
    rw [connClose_life hc]
    exact if_congr (and_iff_left hopen) rfl rfl
  have hstream : ∀ id, (s.connClose a).stream id = s.stream id := by
    intro id
    have howner : ((s.connClose a).life id).owner = (s.life id).owner := by
      rw [hlife]
      split <;> rfl
    exact stream_congr howner (connClose_output s a) (connClose_worker s a)
  have hn : (s.life c.id).noticed = false := by
    have hnone := hst.closed hc
    rw [if_neg hopen, Option.map_eq_none_iff] at hnone
    rw [← Bool.not_eq_true]
    intro hn
    obtain ⟨-, -, -, -, -, hsome⟩ := ho.done hn
    rw [hnone] at hsome
    cases hsome
  have hlive := ho.live hc hn
  constructor
  · intro id t n hcl
    rw [hlife] at hcl ⊢
    split at hcl
    · next hid =>
      rw [if_pos hid]
      obtain ⟨-, rfl⟩ := Prod.mk.inj (Option.some.inj hcl)
      exact le_rfl
    · next hid =>
      rw [if_neg hid]
      exact h.decoded hcl
  · intro b d t n hd hpast hcl
    have hkept : Kept (fun c => (c.id, c.place)) s (s.connClose a) :=
      Kept.connClose s a fun _ _ => rfl
    obtain ⟨d₀, hd₀, hkey⟩ := hkept.exists_of_some hd
    obtain ⟨hid, hplace⟩ := Prod.mk.inj hkey
    have hpast₀ : s.Past b d₀ := by
      refine hpast.of_stays ⟨hid, fun hpl => hplace.trans hpl⟩ fun _ hv => ?_
      rwa [connClose_worker] at hv
    rw [hstream]
    rw [hlife, ← hid] at hcl
    rw [← hid]
    split at hcl
    · next hid₀ =>
      -- the close is this one
      obtain rfl := hw.id_inj hd₀ hc hid₀
      obtain rfl := Option.some.inj (hd₀.symm.trans hc)
      obtain ⟨-, rfl⟩ := Prod.mk.inj (Option.some.inj hcl)
      have hempty : d₀.connReadMsgs = [] :=
        ((ha d₀ hd₀).resolve_left hopen).resolve_right fun hnot => hnot hpast₀
      rw [hempty, List.append_nil] at hlive
      rw [hlive]
    · exact h.moved hd₀ hpast₀ hcl
  · intro id t n hcl hnot
    rw [hstream]
    rw [hlife] at hcl hnot
    split at hcl
    · next hid =>
      rw [if_pos hid, hid] at hnot
      change (s.life c.id).noticed = true at hnot
      rw [hn] at hnot
      cases hnot
    · next hid =>
      rw [if_neg hid] at hnot
      exact h.noticed hcl hnot

/-- The notice comes after everything that has left the queue. -/
theorem Counted.noticeStep (h : s.Counted) (hw : s.WellPlaced) {w : ℕ} {a : Addr}
    {c : Connection Msg} {todo removeIds : List Addr} {junk : UInt64}
    (hp : (s.worker w).phase = .sweep (a :: todo) removeIds) (hc : s.heap a = some c) :
    (s.noticeStep G w a c.id todo removeIds junk).Counted := by
  have hat : s.placeAt a = some (.registered w) := hw.in_hand hp List.mem_cons_self
  have howner : (s.life c.id).owner = some w := hw.owner_eq hc hat
  have hpast : s.Past a c := by
    rw [placeAt, hc, Option.map_some, Option.some.injEq] at hat
    exact ⟨w, hat, hp ▸ List.mem_cons_self⟩
  rw [Layer.noticeStep]
  split
  · exact h
  next node hnode =>
  have hlife : ∀ id, ((s.modLife c.id .notice).life id).owner = (s.life id).owner := by
    intro id
    rw [modLife_life]
    split <;> rfl
  have hclosed : ∀ id, ((s.modLife c.id .notice).life id).closed = (s.life id).closed := by
    intro id
    rw [modLife_life]
    split <;> rfl
  have hdecoded : ∀ id, ((s.modLife c.id .notice).life id).decoded = (s.life id).decoded := by
    intro id
    rw [modLife_life]
    split <;> rfl
  refine Counted.grow ⟨?_, ?_, ?_⟩ (.goto _ (p := .sweep (a :: todo) removeIds) ?_ ?_)
  · intro id t n hcl
    rw [modWorker_life, hclosed] at hcl
    rw [modWorker_life, hdecoded]
    exact h.decoded hcl
  · intro b d t n hd hpast' hcl
    have hpast₀ : s.Past b d := (past_modWorker (g := .queueRead _) fun _ => rfl).mp hpast'
    rw [modWorker_life, hclosed] at hcl
    rw [stream_queueRead (s := s.modLife c.id .notice) rfl ((hlife c.id).trans howner),
      stream_congr (hlife d.id) rfl rfl]
    have hle := h.moved hd hpast₀ hcl
    split
    · rw [List.length_append]
      exact Nat.le_add_right_of_le hle
    · exact hle
  · intro id t n hcl hnot
    rw [modWorker_life, hclosed] at hcl
    rw [stream_queueRead (s := s.modLife c.id .notice) rfl ((hlife c.id).trans howner),
      stream_congr (hlife id) rfl rfl]
    split
    · next hid =>
      subst hid
      rw [List.length_append]
      exact Nat.lt_succ_of_le (h.moved hc hpast hcl)
    · next hid =>
      rw [modWorker_life, modLife_life, if_neg hid] at hnot
      exact h.noticed hcl hnot
  · rw [modWorker_worker_self]
    exact hp
  · exact fun b hb => List.mem_cons_of_mem _ hb

/-- **The condition.**  A connection that another thread closes, or that `on_write` closes since its
event cannot be added, is closed in time: it has no nodes in `conn_read_msgs_`, or its worker is not
between the transfer and the sweep. -/
def ClosesInTime (s : Layer Cls Msg) : Act Cls Msg → Prop
  | .close a => s.InTime a
  | .worker w (.write (.again false)) =>
      match (s.worker w).phase with
      | .writing a _ => s.InTime a
      | _ => True
  | _ => True

instance decidableLayerPast (s : Layer Cls Msg) (a : Addr) (c : Connection Msg) :
    Decidable (s.Past a c) :=
  match h : c.place with
  | .registered w => decidable_of_iff ((s.worker w).phase.Past a) (by simp [Past, h])
  | .connecting | .handed _ | .refused _ | .retired _ => isFalse (by simp [Past, h])

instance decidableInTime (s : Layer Cls Msg) (a : Addr) : Decidable (s.InTime a) :=
  match h : s.heap a with
  | none => isTrue (by simp [InTime, h])
  | some c =>
      decidable_of_iff (c.state = .close ∨ c.connReadMsgs.isEmpty = true ∨ ¬ s.Past a c)
        (by simp [InTime, h])

instance decidableClosesInTime (s : Layer Cls Msg) (a : Act Cls Msg) :
    Decidable (s.ClosesInTime a) :=
  match a with
  | .close a => decidableInTime s a
  | .worker w (.write (.again false)) =>
      show Decidable (match (s.worker w).phase with
        | .writing a _ => s.InTime a
        | _ => True) from
      match (s.worker w).phase with
      | .writing a _ => decidableInTime s a
      | .top | .drain | .transfer _ | .connectors | .pass _ | .tryRead _ _ | .tryWrite _ _
      | .reading _ _ | .poll | .callback _ _ | .sweep _ _ | .closing _ _ _ | .erase _ | .delete =>
        isTrue trivial
  | .worker _ .go | .worker _ (.push _) | .worker _ (.read _) | .worker _ (.write .idle)
  | .worker _ (.write (.wrote _)) | .worker _ (.write (.again true)) | .worker _ (.write .error)
  | .worker _ (.readEvent _) | .worker _ (.writeEvent _) | .worker _ (.notified _ _)
  | .worker _ (.notice _) | .accept _ | .connect _ | .getMsgs _ | .send _ _ | .clock _
  | .regist _ _ => isTrue trivial

/-- An update of one object, and then `conn_close` in time. -/
theorem Counted.modConn_connClose (h : s.Counted) (hw : s.Objects) (hst : s.Stamped)
    (ho : s.InOrder) {a : Addr} {f : Connection Msg → Connection Msg}
    (hkey : ∀ c, (f c).key = c.key) (hqueue : ∀ c, (f c).queue = c.queue)
    (hstamp : ∀ c, (f c).stamp = c.stamp) (ha : s.InTime a) :
    ((s.modConn a f).connClose a).Counted := by
  have hplace : ∀ c, (f c).place = c.place := fun c => congrArg (fun k => k.2.1) (hkey c)
  have hstays : ∀ c : Connection Msg, c.Stays (f c) := fun c =>
    ⟨(congrArg Prod.fst (hqueue c)).symm, fun hpl => (hplace c).symm.trans hpl⟩
  refine Counted.connClose (s := s.modConn a f) (h.grow (.modConn s a hstays))
    ((SameKeys.modConn s a hkey).objects hw) (hst.modConn a hstamp) (ho.modConn a hqueue hplace)
    fun d hd => ?_
  rw [Option.mem_def, modConn_heap, if_pos rfl] at hd
  obtain ⟨e, he, rfl⟩ := Option.map_eq_some_iff.mp hd
  have hstate : (f e).state = e.state := congrArg (fun k => k.2.1) (hstamp e)
  have hmsgs : (f e).connReadMsgs = e.connReadMsgs := congrArg Prod.snd (hqueue e)
  rw [hstate, hmsgs]
  exact (ha e he).imp_right (Or.imp_right fun hnot hpast =>
    hnot (hpast.of_stays (hstays e) fun _ hv => hv))

theorem Counted.readStep (h : s.Counted) (hw : s.WellPlaced) (hst : s.Stamped) (ho : s.InOrder)
    (hcalm : s.Calm) {w : ℕ} {a : Addr} {back : Option (List Addr)}
    (hp : (s.worker w).phase = .reading a back) {c : Connection Msg} (hr : ReadStep G s a c s') :
    s'.Counted := by
  have hat : s.placeAt a = some (.registered w) := hw.in_hand hp List.mem_cons_self
  have hempty : s.InTime a := by
    intro d hd
    rw [placeAt, hd, Option.map_some, Option.some.injEq] at hat
    exact (hcalm.queue_empty hp hd hat).imp_right .inl
  cases hr with
  | data hne hext hr =>
    refine h.grow (.trans (.modConn s a ?_) (.modLife _ ?_ ?_ ?_ ?_))
    · exact fun _ => ⟨rfl, fun hpl => hpl⟩
    · exact fun _ => rfl
    · exact fun _ => rfl
    · intro l
      change l.decoded.length ≤ (l.decoded ++ _).length
      rw [List.length_append]
      exact Nat.le_add_right _ _
    · exact fun _ hov => hov
  | again => exact h.grow (.modConn s a fun _ => ⟨rfl, fun hpl => hpl⟩)
  | shut | failed =>
    exact h.modConn_connClose hw.toObjects hst ho (fun _ => rfl) (fun _ => rfl) (fun _ => rfl) hempty

theorem Counted.writeStep (h : s.Counted) (hw : s.Objects) (hst : s.Stamped) (ho : s.InOrder)
    {a : Addr} {r : WriteResult} (hempty : r = .again false → s.InTime a)
    (hr : WriteStep G s a r s') : s'.Counted := by
  have hkey : ∀ {f : Connection Msg → Connection Msg}, Writes G f → ∀ c, (f c).key = c.key := by
    intro f hf c
    show (f c).readSide.key = c.readSide.key
    rw [hf.readSide]
  have hstamp : ∀ {f : Connection Msg → Connection Msg}, Writes G f → ∀ c, (f c).stamp = c.stamp := by
    intro f hf c
    show (f c).readSide.stamp = c.readSide.stamp
    rw [hf.readSide]
  cases hr with
  | quiet hf =>
    refine h.grow (.modConn s a fun c => ⟨?_, fun hpl => ?_⟩)
    · exact (congrArg Prod.fst (hkey hf c)).symm
    · exact (congrArg (fun k => k.2.1) (hkey hf c)).symm.trans hpl
  | failed hr hf =>
    exact h.modConn_connClose hw hst ho (hkey hf) (fun c => (hf.queue_eq c).1) (hstamp hf) (hempty hr)

theorem Grows.giveWorker (s : Layer Cls Msg) (ci : ConnInfo) (written : Bool) :
    Grows s (s.giveWorker ci written) := by
  have hlast : Grows s { s with lastThreadId := UInt64.ofNat s.nextThread } :=
    congr rfl rfl rfl rfl
  exact hlast.trans (modWorker _ _ List.prefix_rfl fun _ _ hq => hq)

/-- A place that is not a worker's. -/
theorem Grows.setPlace (s : Layer Cls Msg) (a : Addr) {p : Place} (hp : ∀ w, p ≠ .registered w) :
    Grows s (s.setPlace a p) :=
  modConn s a fun _ => ⟨rfl, fun hpl => absurd hpl (hp _)⟩

theorem Counted.workerStep {w : ℕ} {e : WorkerAct} (h : s.Counted) (hw : s.WellPlaced)
    (hst : s.Stamped) (ho : s.InOrder) (hcalm : s.Calm) (hcond : s.ClosesInTime (.worker w e))
    (hs : WorkerStep G s w e s') : s'.Counted := by
  cases hs with
  | top => exact h.grow (.modWorker s w List.prefix_rfl fun _ _ hq => hq.elim)
  | drain =>
    have hkept : Kept (fun c => (c.id, c.place)) s (s.drainStep w) :=
      Kept.drainStep s w fun _ _ => rfl
    have hheap : Grows s { s with heap := (s.drainStep w).heap } := by
      refine .of_eq rfl rfl (fun {a c'} hc' => ?_) fun _ => ⟨rfl, rfl⟩
      obtain ⟨c, hc, hkey⟩ := hkept.exists_of_some hc'
      obtain ⟨hid, hplace⟩ := Prod.mk.inj hkey
      exact ⟨c, hc, hid, fun hpl => hplace.trans hpl⟩
    refine h.grow (hheap.trans (.modWorker { s with heap := (s.drainStep w).heap } w
      (g := fun t => { t with tdWriteMsgs := [], phase := .transfer t.threadConnections })
      List.prefix_rfl fun {a c'} hc' hpl hq => ?_))
    -- the transfer has all registered connections in front of it
    obtain ⟨c, hc, hkey⟩ := hkept.exists_of_some hc'
    exact absurd (hcalm.listed hc ((Prod.mk.inj hkey).2.trans hpl)) hq
  | transferSkip hp hc hmsgs => exact h.transferSkip ho hp hc hmsgs
  | transferEnd hp => exact h.grow (.goto s hp fun _ _ => List.not_mem_nil)
  | connectorsEnd hp | passEnd hp | passSkip hp | passVisit hp | readStart hp | readSkip hp
  | writeStart hp | writeSkip hp | pollEnd hp | callbackOk hp =>
    exact h.grow (.goto s hp fun _ _ => trivial)
  | sweepEnd hp | deleteEnd hp => exact h.grow (.goto s hp fun _ hq => hq.elim)
  | sweepSkip hp => exact h.grow (.goto s hp fun _ hq => List.mem_cons_of_mem _ hq)
  | transferMove =>
    refine h.grow (.trans (.modConn s _ ?_) (.modWorker _ w ?_ fun _ _ hq => hq))
    · exact fun _ => ⟨rfl, fun hpl => hpl⟩
    · exact List.prefix_append _ _
  | @push a rest written hp hq =>
    have hset : Grows s (s.setConnectors rest) := .congr rfl rfl rfl rfl
    exact h.grow (hset.trans (.trans (.setPlace _ a fun _ hpl => by cases hpl) (.giveWorker _ _ _)))
  | @read a back c s₁ hp hc hr =>
    refine (h.readStep hw hst ho hcalm hp hr).grow (.goto _ (p := .reading a back) ?_ fun _ _ => trivial)
    rw [(SameKeys.readStep hw hc hr).2, hp]
  | @write a back c r s₁ hp hc he hr =>
    refine (h.writeStep hw.toObjects hst ho (fun hr => ?_) hr).grow
      (.goto _ (p := .writing a back) ?_ fun _ _ => trivial)
    · rw [he, hr, ClosesInTime, hp] at hcond
      exact hcond
    · rw [(SameKeys.writeStep hw hr).2, hp]
  | readEvent hp | writeEvent hp =>
    refine h.grow (.trans (.modConn s _ ?_) (.goto _ (p := .poll) hp fun _ _ => trivial))
    exact fun _ => ⟨rfl, fun hpl => hpl⟩
  | dropped => exact h.grow (.modWorker s w List.prefix_rfl fun _ _ hq => hq)
  | @accepted n st rest a hp hq ha =>
    have hobj : (s.modWorker w (.take n rest)).Objects := hw.toObjects.congr rfl rfl rfl
    refine h.grow (.trans (.modWorker s w (g := .take n rest) List.prefix_rfl fun _ _ hq => hq)
      (.trans (.alloc hobj a .connecting false) (.registerConn (hobj.alloc a false rfl)
        (c := .new s.nextId .connecting) ?_ rfl ?_ st)))
    · rw [alloc_heap, if_pos rfl]
      rfl
    · change (((s.modWorker w (.take n rest)).alloc a .connecting false).life s.nextId).closed = none
      rw [alloc_life, modWorker_nextId, if_pos rfl]
      rfl
  | @refused n st rest a hp hq =>
    refine h.grow (.trans (.modWorker s w (g := .take n rest) List.prefix_rfl fun _ _ hq => hq)
      (.trans (.setPlace _ a fun _ hpl => by cases hpl) (.goto _ (p := .poll) ?_ fun _ _ => trivial)))
    show ((s.modWorker w (.take n rest)).worker w).phase = .poll
    rw [modWorker_worker_self, ThreadData.take, hp]
  | @connected n st rest a c hp hq hc =>
    have hobj : (s.modWorker w (.take n rest)).Objects := hw.toObjects.congr rfl rfl rfl
    have htd : c.td = none := hw.td_of_place (hw.handed_of_cons hq) hc
    have hopen : (s.life c.id).closed = none := by
      have hcl := hst.closed hc
      rwa [if_neg (hst.unregistered hc htd), Option.map_eq_none_iff] at hcl
    refine h.grow (.trans (.modWorker s w (g := .take n rest) List.prefix_rfl fun _ _ hq => hq)
      (.trans (.registerConn hobj hc htd hopen st) (.goto _ (p := .poll) ?_ fun _ _ => trivial)))
    rw [Layer.registerConn, modWorker_worker_self, ThreadData.register]
    show ((s.modWorker w (.take n rest)).worker w).phase = .poll
    rw [modWorker_worker_self, ThreadData.take, hp]
  | @callbackFail a hp =>
    refine h.grow (.trans (.free s a) (.goto _ (p := .callback a false) ?_ fun _ _ => trivial))
    rw [free_worker, hp]
  | notice hp hc hclose => exact h.noticeStep hw hp hc
  | @closing a todo removeIds c hp hc =>
    refine h.grow (.trans (.modConn s a (f := connInternalClose) ?_)
      (.modWorker (s.modConn a connInternalClose) w (g := fun t =>
        { t with
          forDelete := insertTime c.closeTime a t.forDelete
          phase := .sweep todo (removeIds ++ [a]) }) List.prefix_rfl fun {b _} _ _ hq => ?_))
    · exact fun _ => ⟨rfl, fun hpl => hpl⟩
    · show (s.worker w).phase.Past b
      rw [hp]
      exact hq
  | @erase removeIds hp =>
    have hheap : Grows s { s with heap := s.retire w removeIds } := by
      refine .of_eq rfl rfl (fun {a c'} hc' => ?_) fun _ => ⟨rfl, rfl⟩
      change s.retire w removeIds a = some c' at hc'
      rw [retire] at hc'
      split at hc'
      · obtain ⟨c, hc, rfl⟩ := Option.map_eq_some_iff.mp hc'
        exact ⟨c, hc, rfl, fun hpl => by cases hpl⟩
      · exact ⟨c', hc', .refl c'⟩
    exact h.grow (hheap.trans (.modWorker _ w List.prefix_rfl fun _ _ hq => hq.elim))
  | deleteFree =>
    exact h.grow (.trans (.free s _) (.modWorker _ w List.prefix_rfl fun _ _ hq => hq))

/-- What `get_net_msgs` takes stays in the stream. -/
theorem Counted.getNetMsgs (h : s.Counted) (ho : s.InOrder) (i : ℕ) : (s.getNetMsgs i).Counted where
  decoded := h.decoded
  moved {a c t n} hc hpast hcl := by
    rw [ho.stream_getNetMsgs]
    exact h.moved hc ((past_modWorker (g := fun t => { t with tdReadMsgs := [] }) fun _ => rfl).mp hpast) hcl
  noticed hcl hn := by
    rw [ho.stream_getNetMsgs]
    exact h.noticed hcl hn

theorem Counted.step {a : Act Cls Msg} (h : s.Counted) (hw : s.WellPlaced) (hst : s.Stamped)
    (ho : s.InOrder) (hcalm : s.Calm) (hcond : s.ClosesInTime a) (hs : s.step G a = some s') :
    s'.Counted := by
  cases a with
  | worker w e =>
    simp only [Layer.step, Option.ite_none_right_eq_some] at hs
    exact h.workerStep hw hst ho hcalm hcond (workerStep_cases hs.2)
  | accept written =>
    simp only [Layer.step, Option.ite_none_right_eq_some, Option.some.injEq] at hs
    obtain ⟨-, rfl⟩ := hs
    exact h.grow (.giveWorker s _ written)
  | connect a =>
    simp only [Layer.step, Option.ite_none_right_eq_some, Option.some.injEq] at hs
    obtain ⟨-, rfl⟩ := hs
    exact h.grow (.trans (.alloc hw.toObjects a .connecting true) (.congr rfl rfl rfl rfl))
  | getMsgs i =>
    simp only [Layer.step, Option.ite_none_right_eq_some, Option.some.injEq] at hs
    obtain ⟨-, rfl⟩ := hs
    exact h.getNetMsgs ho i
  | send w it =>
    simp only [Layer.step, Option.ite_none_right_eq_some, Option.some.injEq] at hs
    obtain ⟨-, rfl⟩ := hs
    have hpush : Grows s { s with pushes := s.pushes ++ [it] } := .congr rfl rfl rfl rfl
    exact h.grow (hpush.trans (.modWorker _ w List.prefix_rfl fun _ _ hq => hq))
  | close a =>
    obtain ⟨c, -, hs⟩ := Option.bind_eq_some_iff.mp hs
    simp only [Option.ite_none_right_eq_some, Option.some.injEq] at hs
    obtain ⟨-, rfl⟩ := hs
    exact h.connClose hw.toObjects hst ho hcond
  | clock t =>
    cases hs
    exact h.grow (.congr rfl rfl rfl rfl)
  | regist msgType init =>
    cases hs
    exact h.grow (.congr rfl rfl rfl rfl)

end Layer

/-! ### Nothing is lost -/

theorem counted_of_reach {G : Generated Cls Msg} {s : Layer Cls Msg}
    (h : (netSystem G).Reach Layer.ClosesInTime s) :
    (s.WellPlaced ∧ s.Stamped ∧ s.InOrder) ∧ s.Calm ∧ s.Counted := by
  refine h.invariant
    (P := fun s => (s.WellPlaced ∧ s.Stamped ∧ s.InOrder) ∧ s.Calm ∧ s.Counted) ?_ ?_
  · rintro s ⟨threadNum, registry, clock, rfl⟩
    exact ⟨⟨Layer.wellPlaced_start .., ⟨nofun, nofun, nofun⟩, Layer.inOrder_start ..⟩,
      ⟨nofun, nofun, nofun⟩, ⟨nofun, nofun, nofun⟩⟩
  · rintro s a s' ⟨⟨hw, hst, ho⟩, hcalm, hcount⟩ hcond hstep
    exact ⟨⟨hw.step hstep, hst.step hw hstep, ho.step hw hst hstep⟩, hcalm.step hw ho hstep,
      hcount.step hw hst ho hcalm hcond hstep⟩

/-- Of the incarnation `id`: once its notice is in a queue, what `message_format` had queued when the
state became `CS_CLOSE` is in front of it, and so it is in the output of `get_net_msgs`. -/
structure Layer.InboundKept (s : Layer Cls Msg) (id : ℕ) : Prop where
  queued : (s.life id).noticed = true → ∃ t n p it, (s.life id).closed = some (t, n) ∧
    s.stream id = p ++ [it] ∧ s.IsNotice id it ∧ (s.life id).decoded.take n <+: p
  output : ∀ {p it q}, itemsOf id s.output = p ++ it :: q → it.src = .notice id →
    ∃ t n, (s.life id).closed = some (t, n) ∧ (s.life id).decoded.take n <+: p

/-- **Nothing queued before the close is lost**, in every run whose closes from outside `on_read` come
in time. -/
theorem inboundKept_of_reach {G : Generated Cls Msg} {s : Layer Cls Msg}
    (h : (netSystem G).Reach Layer.ClosesInTime s) (id : ℕ) : s.InboundKept id := by
  obtain ⟨⟨-, -, ho⟩, -, hcount⟩ := counted_of_reach h
  have hqueued : (s.life id).noticed = true → ∃ t n p it, (s.life id).closed = some (t, n) ∧
      s.stream id = p ++ [it] ∧ s.IsNotice id it ∧ (s.life id).decoded.take n <+: p := by
    intro hn
    obtain ⟨p, it, hstream, hp, hit, hcl⟩ := ho.done hn
    obtain ⟨⟨t, n⟩, hcl⟩ := Option.isSome_iff_exists.mp hcl
    have hlen := hcount.noticed hcl hn
    rw [hstream, List.length_append] at hlen
    have hle : n ≤ p.length := Nat.le_of_lt_succ hlen
    refine ⟨t, n, p, it, hcl, hstream, hit, ?_⟩
    obtain ⟨r, hr⟩ := hp
    rw [← hr, List.take_append_of_le_length hle]
    exact List.take_prefix n p
  refine ⟨hqueued, fun {p it q} hout hsrc => ?_⟩
  have hwire : ∀ {jt}, jt ∈ (s.life id).decoded → jt.src ≠ .notice id := by
    intro jt hjt hj
    obtain ⟨k, hk⟩ := ho.src_of_mem hjt
    rw [hk] at hj
    cases hj
  have hpre := Layer.itemsOf_output_prefix ho id
  have hmem : it ∈ s.stream id := by
    refine hpre.subset ?_
    rw [hout]
    exact List.mem_append_right _ List.mem_cons_self
  have hn : (s.life id).noticed = true := by
    by_contra hn
    exact hwire ((ho.stream_prefix (Bool.not_eq_true _ ▸ hn)).subset hmem) hsrc
  -- so the output ends with the notice, and is the whole stream
  have hq : q = [] := (ho.outputOrder id).last hout hsrc
  obtain ⟨p', it', hstream', hp', -, -⟩ := ho.done hn
  obtain ⟨t, n, p₁, it₁, hcl, hstream, -, htake⟩ := hqueued hn
  refine ⟨t, n, hcl, ?_⟩
  rw [hstream, hout, hq] at hpre
  rw [hstream] at hstream'
  have hp₁ : p₁ = p' := List.append_inj_left' hstream' rfl
  rcases prefix_concat_cases hpre with hle | heq
  · refine absurd hsrc (hwire (hp'.subset (hp₁ ▸ hle.subset ?_)))
    exact List.mem_append_right _ List.mem_cons_self
  · rw [List.append_inj_left' heq rfl]
    exact htake

/-- The run of `oneClient` closes by end of file only. -/
theorem inboundKept_oneClient : ∃ s,
    (netSystem Protocol.generated).exec (.start 1 Protocol.registry 0) oneClient = some s ∧
      s.InboundKept 0 := by
  obtain ⟨s, hs⟩ := Option.isSome_iff_exists.mp (show
    ((netSystem Protocol.generated).exec (.start 1 Protocol.registry 0) oneClient).isSome by
      decide +kernel)
  have hc : (netSystem Protocol.generated).AllSteps Layer.ClosesInTime
      (.start 1 Protocol.registry 0) oneClient := by
    decide +kernel
  exact ⟨s, hs, inboundKept_of_reach (.of_exec (.start ⟨1, Protocol.registry, 0, rfl⟩) hc hs) 0⟩

/-- A peer registers with a number the logic thread refuses, and its next frame is read between
the transfer and the sweep, before the logic thread closes the connection. -/
def refusedPeer : List (Act Protocol.MsgClass Protocol.Message) :=
  let frame := encodeNode Protocol.protobuf registNode
  .accept true ::
    ([.go, .go, .go, .go, .go, .notified true 16, .readEvent 16, .read (.data frame ⟨[frame]⟩),
      .go, .go, .go, .go, .go, .go, .go, .go, .go, .go] : List WorkerAct).map (.worker 0) ++
    .getMsgs 0 ::
    ([.go, .go, .go, .read (.data frame ⟨[frame]⟩), .go] : List WorkerAct).map (.worker 0) ++
    .close 16 :: ([.go, .go, .notice 0, .go, .go, .go] : List WorkerAct).map (.worker 0) ++
    [.getMsgs 0]

/-- Its second frame is lost: two nodes were queued before the close, one comes before the notice. -/
theorem not_inboundKept_refusedPeer : ∃ s,
    (netSystem Protocol.generated).Reach Lts.Free s ∧ ¬ s.InboundKept 0 := by
  obtain ⟨s, hs, hrun⟩ : ∃ s,
      (netSystem Protocol.generated).exec (.start 1 Protocol.registry 0) refusedPeer = some s ∧
        ((itemsOf 0 s.output).map Item.src, (s.life 0).closed, (s.life 0).decoded.length) =
          ([.wire 0 0, .notice 0], some (0, 2), 2) := by
    refine Option.map_eq_some_iff.mp ?_
    decide +kernel
  simp only [Prod.mk.injEq] at hrun
  obtain ⟨hout, hclosed, hlen⟩ := hrun
  refine ⟨s, .of_exec (.start ⟨1, Protocol.registry, 0, rfl⟩) (Lts.allSteps_free _ _) hs, ?_⟩
  intro h
  obtain ⟨x, l, hx, -, hl⟩ := List.map_eq_cons_iff.mp hout
  obtain ⟨y, r, hy, hysrc, hr⟩ := List.map_eq_cons_iff.mp hl
  rw [List.map_eq_nil_iff] at hr
  subst hr hy
  obtain ⟨t, n, hcl, hpre⟩ := h.output (p := [x]) hx hysrc
  rw [hclosed, Option.some.injEq, Prod.mk.injEq] at hcl
  have hle := hpre.length_le
  rw [List.length_take, hlen, ← hcl.2] at hle
  rw [List.length_singleton] at hle
  omega

end GoFight.Net
