import GoFight.Net.Transitions

/-!
# What the larger updates change

Lookups in the heap and the histories after `conn_close`, an allocation, a registration and a
deletion, and `Kept`: a part of every object that an update leaves alone.
-/

namespace GoFight.Net

open GoFight.Lib

variable {Cls Msg : Type*}

namespace Layer

/-! ### `conn_close` -/

theorem connClose_heap (s : Layer Cls Msg) (a b : Addr) :
    (s.connClose a).heap b =
      if b = a then (s.heap b).map fun c => if c.state = .close then c else c.shut s.clock
      else s.heap b := by
  unfold connClose
  split
  · next ha =>
    split
    · next hb => rw [hb, ha]; rfl
    · rfl
  · next c hc =>
    split
    · next hst =>
      split
      · next hb => rw [hb, hc, Option.map_some, if_pos hst]
      · rfl
    · next hst =>
      rw [modLife_heap, modConn_heap]
      split
      · next hb => rw [hb, hc, Option.map_some, Option.map_some, if_neg hst]
      · rfl

theorem connClose_life {s : Layer Cls Msg} {a : Addr} {c : Connection Msg} (hc : s.heap a = some c)
    (id : ℕ) : (s.connClose a).life id =
      if id = c.id ∧ c.state ≠ .close then (s.life id).shut s.clock else s.life id := by
  unfold connClose
  rw [hc]
  dsimp only
  split
  · next hst => rw [if_neg fun h => h.2 hst]
  · next hst =>
    rw [modLife_life, modConn_life]
    by_cases hid : id = c.id
    · rw [if_pos hid, if_pos ⟨hid, hst⟩]
    · rw [if_neg hid, if_neg fun h => hid h.1]

/-- Nothing happens where there is no object, or a closed one. -/
theorem connClose_of_close {s : Layer Cls Msg} {a : Addr}
    (h : ∀ c, s.heap a = some c → c.state = .close) : s.connClose a = s := by
  unfold connClose
  split
  · rfl
  · next c hc => rw [if_pos (h c hc)]

theorem connClose_worker (s : Layer Cls Msg) (a : Addr) : (s.connClose a).worker = s.worker := by
  unfold connClose
  split
  · rfl
  · split <;> rfl

@[simp] theorem connClose_output (s : Layer Cls Msg) (a : Addr) :
    (s.connClose a).output = s.output := by
  unfold connClose
  split
  · rfl
  · split <;> rfl

@[simp] theorem connClose_clock (s : Layer Cls Msg) (a : Addr) :
    (s.connClose a).clock = s.clock := by
  unfold connClose
  split
  · rfl
  · split <;> rfl

/-! ### Allocation and deletion -/

theorem alloc_heap (s : Layer Cls Msg) (a : Addr) (p : Place) (k : Bool) (b : Addr) :
    (s.alloc a p k).heap b = if b = a then some (.new s.nextId p) else s.heap b := by
  by_cases hb : b = a
  · subst hb
    simp [alloc]
  · simp [alloc, hb]

theorem alloc_life (s : Layer Cls Msg) (a : Addr) (p : Place) (k : Bool) (id : ℕ) :
    (s.alloc a p k).life id = if id = s.nextId then .new a k else s.life id := by
  by_cases hid : id = s.nextId
  · subst hid
    simp [alloc]
  · simp [alloc, hid]

theorem free_heap (s : Layer Cls Msg) (a b : Addr) :
    (s.free a).heap b = if b = a then none else s.heap b := by
  unfold free
  split
  · next ha =>
    split
    · next hb => rw [hb, ha]
    · rfl
  · rw [modLife_heap]
    by_cases hb : b = a
    · simp [hb]
    · simp [hb]

theorem free_life {s : Layer Cls Msg} {a : Addr} {c : Connection Msg} (hc : s.heap a = some c)
    (id : ℕ) : (s.free a).life id = if id = c.id then (s.life id).delete else s.life id := by
  unfold free
  rw [hc]
  exact modLife_life ..

theorem free_worker (s : Layer Cls Msg) (a : Addr) : (s.free a).worker = s.worker := by
  unfold free
  split <;> rfl

theorem registerConn_heap (s : Layer Cls Msg) (w : ℕ) (a : Addr) (id : ℕ) (st : ConnState)
    (b : Addr) : (s.registerConn w a id st).heap b =
      if b = a then (s.heap b).map (initConn w st) else s.heap b := by
  rw [registerConn, modWorker_heap, modLife_heap, modConn_heap]

theorem registerConn_life (s : Layer Cls Msg) (w : ℕ) (a : Addr) (id : ℕ) (st : ConnState)
    (v : ℕ) : (s.registerConn w a id st).life v =
      if v = id then (s.life v).setOwner w else s.life v := by
  rw [registerConn, modWorker_life, modLife_life]
  rfl

/-! ### The distribution of nodes -/

end Layer

/-- The nodes for a connection in a queue. -/
def itemsFor (b : Addr) (l : List (Item Msg)) : List (Item Msg) := l.filter fun it => it.node.msgConn = b

theorem itemsFor_append (b : Addr) (l r : List (Item Msg)) :
    itemsFor b (l ++ r) = itemsFor b l ++ itemsFor b r := List.filter_append ..

theorem itemsFor_eq_nil {b : Addr} {l : List (Item Msg)} (h : ∀ it ∈ l, it.node.msgConn ≠ b) :
    itemsFor b l = [] := List.filter_eq_nil_iff.mpr fun it hit => by simpa using h it hit

theorem itemsFor_append_of_ne {b : Addr} {it : Item Msg} (l : List (Item Msg))
    (h : it.node.msgConn ≠ b) : itemsFor b (l ++ [it]) = itemsFor b l := by
  rw [itemsFor_append]
  simp [itemsFor, h]

theorem itemsFor_append_self {b : Addr} {it : Item Msg} (l : List (Item Msg))
    (h : it.node.msgConn = b) : itemsFor b (l ++ [it]) = itemsFor b l ++ [it] := by
  rw [itemsFor_append]
  simp [itemsFor, h]

namespace Layer

/-- `td_write_msgs_` distributed: each object in `conns` gets the nodes for it, in order. -/
theorem drainWrites_heap (conns : List Addr) (its : List (Item Msg)) :
    ∀ (heap : Addr → Option (Connection Msg)) (d : Addr),
      drainWrites conns heap its d = (heap d).map fun c =>
        { c with connWriteMsgs := c.connWriteMsgs ++ if d ∈ conns then itemsFor d its else [] } := by
  induction its with
  | nil =>
    intro heap d
    rw [drainWrites]
    cases heap d <;> simp [itemsFor]
  | cons it its ih =>
    intro heap d
    rw [drainWrites]
    split
    · next hmem =>
      rw [ih]
      by_cases hd : d = it.node.msgConn
      · subst hd
        cases heap it.node.msgConn <;> simp [itemsFor, hmem]
      · rw [Function.update_of_ne hd]
        simp [itemsFor, Ne.symm hd]
    · next hmem =>
      rw [ih]
      by_cases hd : d = it.node.msgConn
      · subst hd
        simp [hmem]
      · simp [itemsFor, Ne.symm hd]

/-! ### Parts of the objects that stay -/

/-- The objects have the same `K`. -/
def Kept {α : Type*} (K : Connection Msg → α) (s s' : Layer Cls Msg) : Prop :=
  ∀ a, (s'.heap a).map K = (s.heap a).map K

namespace Kept

variable {α : Type*} {K : Connection Msg → α} {s s' s'' : Layer Cls Msg}

theorem refl (s : Layer Cls Msg) : Kept K s s := fun _ => rfl

theorem trans (h₁ : Kept K s s') (h₂ : Kept K s' s'') : Kept K s s'' := fun a =>
  (h₂ a).trans (h₁ a)

theorem symm (h : Kept K s s') : Kept K s' s := fun a => (h a).symm

theorem modConn (s : Layer Cls Msg) (a : Addr) {f : Connection Msg → Connection Msg}
    (hf : ∀ c, K (f c) = K c) : Kept K s (s.modConn a f) := by
  intro b
  rw [modConn_heap]
  split
  · rw [Option.map_map]
    exact congrArg (fun g => (s.heap b).map g) (funext hf)
  · rfl

theorem connClose (s : Layer Cls Msg) (a : Addr) (hf : ∀ t c, K (Connection.shut t c) = K c) :
    Kept K s (s.connClose a) := by
  intro b
  rw [connClose_heap]
  split
  · rw [Option.map_map]
    refine congrArg (fun g => (s.heap b).map g) (funext fun c => ?_)
    show K (if c.state = .close then c else c.shut s.clock) = K c
    split
    · rfl
    · exact hf _ _
  · rfl

theorem drainWrites {K : Connection Msg → α}
    (hK : ∀ c it, K { c with connWriteMsgs := c.connWriteMsgs ++ [it] } = K c) (conns : List Addr)
    (its : List (Item Msg)) : ∀ (heap : Addr → Option (Connection Msg)) (a : Addr),
      (drainWrites conns heap its a).map K = (heap a).map K := by
  induction its with
  | nil => exact fun _ _ => rfl
  | cons it its ih =>
    intro heap a
    rw [Layer.drainWrites]
    split
    · rw [ih]
      by_cases ha : a = it.node.msgConn
      · subst ha
        rw [Function.update_self, Option.map_map]
        exact congrArg (fun g => (heap it.node.msgConn).map g) (funext fun c => hK c it)
      · rw [Function.update_of_ne ha]
    · exact ih heap a

theorem drainStep {K : Connection Msg → α} (s : Layer Cls Msg) (w : ℕ)
    (hK : ∀ c it, K { c with connWriteMsgs := c.connWriteMsgs ++ [it] } = K c) :
    Kept K s (s.drainStep w) :=
  drainWrites hK _ _ s.heap

theorem retire (s : Layer Cls Msg) (w : ℕ) (removeIds : List Addr)
    (hK : ∀ c, K (Connection.setPlace (.retired w) c) = K c) (a : Addr) :
    (s.retire w removeIds a).map K = (s.heap a).map K := by
  rw [Layer.retire]
  split
  · rw [Option.map_map]
    exact congrArg (fun g => (s.heap a).map g) (funext hK)
  · rfl

theorem exists_of_some (h : Kept K s s') {a : Addr} {c' : Connection Msg}
    (hc : s'.heap a = some c') : ∃ c, s.heap a = some c ∧ K c = K c' := by
  have hk := h a
  rw [hc, Option.map_some] at hk
  exact Option.map_eq_some_iff.mp hk.symm

end Kept

end Layer

end GoFight.Net
