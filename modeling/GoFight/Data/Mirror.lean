import GoFight.Data.Drain
import GoFight.Data.SavedSql
import GoFight.Data.Undisturbed

/-!
# MySQL catches up with Redis

The write-behind queue as the clients mean it: a client `SET`s a role under its id and then `ZADD`s
the id to `role_sets`, and the loop of the data server brings it to MySQL.

* `mirrorSystem` — the system `writeBehind`, with the keys that are written and not yet marked as a
  history;
* `Marks` — the condition on a step: it is undisturbed, and a role is stored under its own id;
* `Covered` — a role in Redis is in MySQL too, or its key is in `role_sets`, or about to be put
  there;
* `Mirrors` — every role in Redis is in MySQL;
* `mirrors_of_reach` — **no role is lost**: `Covered` holds in every state reached, whatever the
  order of the commands, and from there the loop left alone makes MySQL the mirror of Redis.

That MySQL saves a role when it gets the statement that saves it is the hypothesis on `exec`; what it
does with another text is left open.
-/

namespace GoFight.Data

open GoFight.Lib

variable {S : Type*} (parseRole : Bytes → Bool × Role) (exec : Bytes → Option Role)

/-! ### The property -/

/-- The key holds the role. -/
def World.Stores (w : World S) (key : Bytes) (role : Role) : Prop :=
  ∃ value, w.kv key = some value ∧ parseRole value = (true, role)

/-- Every role is stored under its own id. -/
def OwnKeys (w : World S) : Prop := ∀ key role, w.Stores parseRole key role → role.id = key

/-- A role in Redis is in MySQL, or its key is in `role_sets`, or a client is about to put it
there. -/
def Covered (w : World S) (marking : List Bytes) : Prop :=
  ∀ key role, w.Stores parseRole key role →
    w.mysql role.id = some role ∨ key ∈ w.roleSets.map Prod.snd ∨ key ∈ marking

/-- Every role in Redis is in MySQL. -/
def Mirrors (w : World S) : Prop :=
  ∀ key role, w.Stores parseRole key role → w.mysql role.id = some role

/-- The entry can be saved: its key holds a role that fits into its statement. -/
def Savable (w : World S) (key : Bytes) : Prop :=
  ∃ role, w.Stores parseRole key role ∧ key ≠ [] ∧ NulFree role ∧ Storable role

variable {parseRole}

theorem World.Stores.unique {w : World S} {key : Bytes} {role role' : Role}
    (h : w.Stores parseRole key role) (h' : w.Stores parseRole key role') : role = role' := by
  obtain ⟨value, hv, hp⟩ := h
  obtain ⟨value', hv', hp'⟩ := h'
  rw [hv, Option.some.injEq] at hv'
  rw [← hv', hp] at hp'
  exact (Prod.mk.inj hp').2

theorem stores_congr {w w' : World S} (h : w'.kv = w.kv) {key : Bytes} {role : Role} :
    w'.Stores parseRole key role ↔ w.Stores parseRole key role := by
  rw [World.Stores, World.Stores, h]

/-! ### The system -/

/-- A client's `SET` is to be followed by the `ZADD` of the key. -/
def record (a : Act S) (marking : List Bytes) : List Bytes :=
  match a with
  | .loop => marking
  | .set key _ => key :: marking
  | .zadd _ member => marking.filter fun key => key ≠ member

variable (parseRole)

section System

variable [LinearOrder S]

/-- The queue, its clients and the loop, started when nothing is lost. -/
def mirrorSystem : Lts (World S × List Bytes) (Act S) where
  init p := p.1.loop = .start ∧ OwnKeys parseRole p.1 ∧ Covered parseRole p.1 p.2
  step p a := some (p.1.step parseRole exec a, record a p.2)

/-- The step is undisturbed, and a role that a client writes is written under its id. -/
def Marks (p : World S × List Bytes) (a : Act S) : Prop :=
  Undisturbed parseRole exec p.1 a ∧
    match a with
    | .set key value => (parseRole value).1 = true → (parseRole value).2.id = key
    | _ => True

instance (p : World S × List Bytes) (a : Act S) : Decidable (Marks parseRole exec p a) :=
  match a with
  | .loop => inferInstanceAs (Decidable (_ ∧ True))
  | .set key value =>
      inferInstanceAs (Decidable (_ ∧ ((parseRole value).1 = true → (parseRole value).2.id = key)))
  | .zadd _ _ => inferInstanceAs (Decidable (_ ∧ True))

end System

/-! ### One command of the loop -/

theorem serve_kv (w : World S) : (w.serve parseRole exec).kv = w.kv := by
  unfold World.serve
  cases w.loop.pc with
  | replace role => cases hx : exec (sqlText role) <;> simp only [hx]
  | _ => rfl

/-- The loop takes at most the first entry. -/
theorem serve_roleSets (w : World S) :
    (w.serve parseRole exec).roleSets = w.roleSets ∨
      (w.serve parseRole exec).roleSets = w.roleSets.drop 1 := by
  unfold World.serve
  cases w.loop.pc with
  | replace role => cases hx : exec (sqlText role) <;> simp only [hx, true_or]
  | zrem role => exact .inr rfl
  | _ => exact .inl rfl

/-- Before the `REPLACE` the loop only reads. -/
theorem serve_reads {w : World S} (h : w.loop.pc = .zrange ∨ w.loop.pc = .get) :
    (w.serve parseRole exec).roleSets = w.roleSets ∧ (w.serve parseRole exec).mysql = w.mysql := by
  unfold World.serve
  rcases h with h | h <;> rw [h] <;> exact ⟨rfl, rfl⟩

theorem covered_reads {w w' : World S} {marking : List Bytes} (h : Covered parseRole w marking)
    (hkv : w'.kv = w.kv) (hsets : w'.roleSets = w.roleSets) (hmysql : w'.mysql = w.mysql) :
    Covered parseRole w' marking := by
  intro key role hs
  rw [hsets, hmysql]
  exact h key role ((stores_congr hkv).mp hs)

/-- The loop keeps what is covered. -/
theorem covered_serve {w : World S} {marking : List Bytes} (hinv : Inv parseRole w)
    (hkeys : OwnKeys parseRole w) (h : Covered parseRole w marking)
    (hc : ∀ role, w.loop.pc = .replace role → ∀ row ∈ exec (sqlText role), row = role) :
    Covered parseRole (w.serve parseRole exec) marking := by
  cases hpc : w.loop.pc with
  | zrange =>
    obtain ⟨hsets, hmysql⟩ := serve_reads parseRole exec (.inl hpc)
    exact covered_reads parseRole h (serve_kv parseRole exec w) hsets hmysql
  | get =>
    obtain ⟨hsets, hmysql⟩ := serve_reads parseRole exec (.inr hpc)
    exact covered_reads parseRole h (serve_kv parseRole exec w) hsets hmysql
  | replace role =>
    simp only [Inv, hpc] at hinv
    cases hx : exec (sqlText role) with
    | none =>
      apply covered_reads parseRole h (serve_kv parseRole exec w) <;>
        simp only [World.serve, hpc, hx]
    | some row =>
      obtain rfl := hc role hpc row hx
      intro key role' hs
      have hs' := (stores_congr (serve_kv parseRole exec w)).mp hs
      simp only [World.serve, hpc, hx]
      by_cases hid : role'.id = row.id
      · -- the row just written is the one stored under this id
        left
        have hkey : key = w.loop.response := by
          rw [← hkeys key role' hs', hid]
          exact hkeys _ row hinv.2
        subst hkey
        rw [hs'.unique hinv.2]
        exact Function.update_self ..
      · rw [Function.update_of_ne hid]
        exact h key role' hs'
  | zrem role =>
    simp only [Inv, hpc] at hinv
    obtain ⟨⟨hfirst, hstores⟩, hsaved⟩ := hinv
    intro key role' hs
    have hs' := (stores_congr (serve_kv parseRole exec w)).mp hs
    simp only [World.serve, hpc]
    rcases h key role' hs' with hdone | hin | hmark
    · exact .inl hdone
    · obtain ⟨e, z, hz⟩ : ∃ e z, w.roleSets = e :: z := by
        cases hz : w.roleSets with
        | nil => rw [hz] at hin; cases hin
        | cons e z => exact ⟨e, z, rfl⟩
      rw [hz, List.map_cons, List.mem_cons] at hin
      rw [hz, List.drop_succ_cons, List.drop_zero]
      rcases hin with rfl | hin
      · -- the entry removed is the one saved
        left
        have hresponse : e.2 = w.loop.response := by simpa [firstMember, hz] using hfirst
        rw [hresponse] at hs'
        rw [hs'.unique hstores]
        exact hsaved
      · exact .inr (.inl hin)
    · exact .inr (.inr hmark)

/-! ### A command of a client -/

section Clients

variable [LinearOrder S]

theorem mem_insertEntry {e x : S × Bytes} {z : List (S × Bytes)} :
    x ∈ insertEntry e z ↔ x = e ∨ x ∈ z := by
  induction z with
  | nil => simp [insertEntry]
  | cons y z ih =>
    rw [insertEntry]
    by_cases hlt : EntryLt e y
    · rw [if_pos hlt, List.mem_cons]
    · rw [if_neg hlt, List.mem_cons, ih, List.mem_cons]
      exact or_left_comm

/-- The member is in the set afterwards, beside the others. -/
theorem mem_zadd {score : S} {member key : Bytes} {z : List (S × Bytes)} :
    key ∈ (zadd score member z).map Prod.snd ↔ key = member ∨ key ∈ z.map Prod.snd := by
  simp only [zadd, List.mem_map, mem_insertEntry, List.mem_filter, decide_eq_true_eq]
  constructor
  · rintro ⟨e, rfl | ⟨he, -⟩, rfl⟩
    · exact .inl rfl
    · exact .inr ⟨e, he, rfl⟩
  · rintro (rfl | ⟨e, he, rfl⟩)
    · exact ⟨(score, key), .inl rfl, rfl⟩
    · by_cases hm : e.2 = member
      · exact ⟨(score, member), .inl rfl, hm.symm⟩
      · exact ⟨e, .inr ⟨he, hm⟩, rfl⟩

theorem stores_set {w : World S} {key key' value : Bytes} {role : Role}
    (h : (w.step parseRole exec (.set key value)).Stores parseRole key' role) :
    (key' = key ∧ parseRole value = (true, role)) ∨
      (key' ≠ key ∧ w.Stores parseRole key' role) := by
  obtain ⟨v, hv, hp⟩ := h
  by_cases hk : key' = key
  · subst hk
    have hself : Function.update w.kv key' (some value) key' = some v := hv
    rw [Function.update_self, Option.some.injEq] at hself
    exact .inl ⟨rfl, hself ▸ hp⟩
  · have hother : Function.update w.kv key (some value) key' = some v := hv
    rw [Function.update_of_ne hk] at hother
    exact .inr ⟨hk, v, hother, hp⟩

/-- What is kept in every state: the loop is where it should be, roles are under their ids, and none
is lost. -/
structure Tracked (p : World S × List Bytes) : Prop where
  inv : Inv parseRole p.1
  keys : OwnKeys parseRole p.1
  covered : Covered parseRole p.1 p.2

/-- **One command.** -/
theorem Tracked.step {p : World S × List Bytes} (h : Tracked parseRole p) {a : Act S}
    (hc : Marks parseRole exec p a) :
    Tracked parseRole (p.1.step parseRole exec a, record a p.2) := by
  obtain ⟨w, marking⟩ := p
  obtain ⟨hund, hown⟩ := hc
  refine ⟨inv_step parseRole exec a h.inv hund, ?_, ?_⟩
  · intro key role hs
    cases a with
    | loop => exact h.keys key role ((stores_congr (serve_kv parseRole exec w)).mp hs)
    | set key' value =>
      rcases stores_set parseRole exec hs with ⟨rfl, hp⟩ | ⟨-, hs⟩
      · have hid := hown (congrArg Prod.fst hp)
        rwa [hp] at hid
      · exact h.keys key role hs
    | zadd score member => exact h.keys key role hs
  · cases a with
    | loop =>
      apply covered_serve parseRole exec h.inv h.keys h.covered
      intro role hpc row hrow
      have hreplace : w.loop.pc = .replace role := hpc
      simp only [Undisturbed, hreplace] at hund
      exact hund row hrow
    | set key' value =>
      intro key role hs
      rcases stores_set parseRole exec hs with ⟨rfl, -⟩ | ⟨-, hs⟩
      · exact .inr (.inr List.mem_cons_self)
      · rcases h.covered key role hs with hdone | hin | hmark
        · exact .inl hdone
        · exact .inr (.inl hin)
        · exact .inr (.inr (List.mem_cons_of_mem _ hmark))
    | zadd score member =>
      intro key role hs
      rcases h.covered key role hs with hdone | hin | hmark
      · exact .inl hdone
      · exact .inr (.inl (mem_zadd.mpr (.inr hin)))
      · by_cases hk : key = member
        · exact .inr (.inl (mem_zadd.mpr (.inl hk)))
        · exact .inr (.inr (List.mem_filter.mpr ⟨hmark, by simpa using hk⟩))

theorem tracked_of_reach {p : World S × List Bytes}
    (h : (mirrorSystem parseRole exec).Reach (Marks parseRole exec) p) : Tracked parseRole p := by
  apply h.invariant
  · intro p hp
    obtain ⟨hloop, hkeys, hcovered⟩ := hp
    refine ⟨?_, hkeys, hcovered⟩
    simp [Inv, hloop, Loop.start]
  · intro p a p' htracked hc hs
    obtain rfl := Option.some.inj hs
    exact htracked.step parseRole exec hc

/-! ### The loop alone -/

/-- The loop is where it should be, no role is lost, and every entry can be saved. -/
structure Ready (w : World S) (marking : List Bytes) : Prop where
  tracked : Tracked parseRole (w, marking)
  savable : ∀ e ∈ w.roleSets, Savable parseRole w e.2

section Alone

variable {parseRole exec} {w : World S} {marking : List Bytes}
  (hexec : ∀ sql role, IsSave sql role → exec sql = some role)
include hexec

omit [LinearOrder S] in
/-- The role of an entry that can be saved is what the loop saves for it. -/
theorem saved_of_savable (hkeys : OwnKeys parseRole w) {e : S × Bytes}
    (h : Savable parseRole w e.2) :
    ∃ role, w.Stores parseRole e.2 role ∧ w.saved parseRole exec e = some role := by
  obtain ⟨role, hs, hne, hnul, hfits⟩ := h
  have hid : role.id = e.2 := hkeys _ _ hs
  have hkey : cstr e.2 = e.2 := by
    rw [← hid]
    exact cstr_eq_self hnul.1
  have hrole : w.roleOf parseRole e.2 = role := by
    obtain ⟨value, hv, hp⟩ := hs
    simp only [World.roleOf, World.getReply, hkey, hv, redisGetData, getPayload, hp]
  refine ⟨role, hs, ?_⟩
  rw [World.saved, hkey, if_neg hne, hrole]
  exact hexec _ _ ((isSave_sqlText_iff hnul).mpr hfits)

/-- A command of the loop is permitted while all entries can be saved. -/
theorem marks_loop (h : Tracked parseRole (w, marking))
    (hall : ∀ e ∈ w.roleSets, Savable parseRole w e.2) :
    Marks parseRole exec (w, marking) .loop := by
  have hfirst : ∀ {key}, firstMember w.roleSets = some key → Savable parseRole w key := by
    intro key hkey
    obtain ⟨e, he, rfl⟩ := Option.map_eq_some_iff.mp hkey
    exact hall e (List.mem_of_head? he)
  refine ⟨?_, trivial⟩
  have hinv := h.inv
  cases hpc : w.loop.pc with
  | zrange =>
    simp only [Undisturbed, hpc]
    intro member hm
    obtain ⟨role, hs, -, hnul, -⟩ := hfirst hm
    rw [← h.keys _ _ hs]
    exact hnul.1
  | get =>
    simp only [Inv, hpc] at hinv
    obtain ⟨hnul, hmember⟩ := hinv
    obtain ⟨role, ⟨value, hv, hp⟩, -⟩ := hfirst hmember
    simp only [Undisturbed, hpc]
    refine ⟨value, ?_, by rw [hp]⟩
    rw [World.getReply, cstr_eq_self hnul, hv, getPayload]
  | replace role =>
    simp only [Inv, hpc] at hinv
    obtain ⟨role', hs, -, hnul, hfits⟩ := hfirst hinv.1
    obtain rfl := hs.unique hinv.2
    simp only [Undisturbed, hpc]
    intro row hrow
    rw [hexec _ _ ((isSave_sqlText_iff hnul).mpr hfits)] at hrow
    exact (Option.some.inj hrow).symm
  | zrem role => simp only [Undisturbed, hpc]

/-- **A command of the loop.**  It keeps what is ready, and the queue does not grow. -/
theorem Ready.serve (h : Ready parseRole w marking) :
    Ready parseRole (w.serve parseRole exec) marking ∧
      (w.serve parseRole exec).roleSets.length ≤ w.roleSets.length := by
  have hsub : (w.serve parseRole exec).roleSets ⊆ w.roleSets ∧
      (w.serve parseRole exec).roleSets.length ≤ w.roleSets.length := by
    rcases serve_roleSets parseRole exec w with heq | heq <;> rw [heq]
    · exact ⟨List.Subset.refl _, le_rfl⟩
    · exact ⟨List.drop_subset _ _, by rw [List.length_drop]; omega⟩
  refine ⟨⟨h.tracked.step parseRole exec (marks_loop hexec h.tracked h.savable), ?_⟩, hsub.2⟩
  intro e he
  obtain ⟨role, hs, hrest⟩ := h.savable e (hsub.1 he)
  exact ⟨role, (stores_congr (serve_kv parseRole exec w)).mpr hs, hrest⟩

/-- Commands of the loop. -/
theorem Ready.iterate (h : Ready parseRole w marking) (n : ℕ) :
    Ready parseRole ((World.serve parseRole exec)^[n] w) marking ∧
      ((World.serve parseRole exec)^[n] w).roleSets.length ≤ w.roleSets.length ∧
      ((World.serve parseRole exec)^[n] w).kv = w.kv := by
  induction n generalizing w with
  | zero => exact ⟨h, le_rfl, rfl⟩
  | succ n ih =>
    obtain ⟨hready, hlen⟩ := h.serve hexec
    obtain ⟨hready', hlen', hkv⟩ := ih hready
    rw [Function.iterate_succ_apply]
    exact ⟨hready', hlen'.trans hlen, hkv.trans (serve_kv parseRole exec w)⟩

/-- The loop ends its iteration. -/
theorem Ready.exists_idle (h : Ready parseRole w marking) :
    ∃ k ≤ 3, ((World.serve parseRole exec)^[k] w).Idle := by
  have hzrem : ∀ {w : World S} {role}, w.loop.pc = .zrem role →
      (w.serve parseRole exec).Idle := by
    intro w role hpc
    simp only [World.serve, hpc, World.Idle, Loop.resume, and_self]
  have hreplace : ∀ {w : World S} {role}, Ready parseRole w marking →
      w.loop.pc = .replace role → (w.serve parseRole exec).loop.pc = .zrem role := by
    intro w role h hpc
    have hinv := h.tracked.inv
    simp only [Inv, hpc] at hinv
    obtain ⟨e, he, hkey⟩ := Option.map_eq_some_iff.mp hinv.1
    obtain ⟨role', hs, -, hnul, hfits⟩ := h.savable e (List.mem_of_head? he)
    rw [hkey] at hs
    obtain rfl := hs.unique hinv.2
    have hx := hexec _ _ ((isSave_sqlText_iff hnul).mpr hfits)
    simp only [World.serve, hpc, hx, Loop.resume, Answer.mysql, if_true]
  cases hpc : w.loop.pc with
  | zrange =>
    have hinv := h.tracked.inv
    simp only [Inv, hpc] at hinv
    exact ⟨0, by omega, hpc, hinv⟩
  | get =>
    have hget : (w.serve parseRole exec).loop.pc =
        .replace (w.roleOf parseRole w.loop.response) := by
      rw [serve_get parseRole exec hpc]
    exact ⟨3, le_rfl, hzrem (hreplace (h.serve hexec).1 hget)⟩
  | replace role => exact ⟨2, by omega, hzrem (hreplace h hpc)⟩
  | zrem role => exact ⟨1, by omega, hzrem hpc⟩

omit [LinearOrder S] in
/-- The rows saved for a queue whose entries can all be saved: those of its keys. -/
theorem mem_rows (h : Ready parseRole w marking) {row : Role} :
    row ∈ rows (w.saved parseRole exec) w.roleSets ↔
      ∃ e ∈ w.roleSets, w.Stores parseRole e.2 row := by
  have hsome : w.roleSets.takeWhile (fun e => (w.saved parseRole exec e).isSome) = w.roleSets := by
    rw [List.takeWhile_eq_self_iff]
    intro e he
    obtain ⟨role, -, hsaved⟩ := saved_of_savable hexec h.tracked.keys (h.savable e he)
    rw [hsaved, Option.isSome_some]
  rw [rows, hsome, List.mem_filterMap]
  constructor
  · rintro ⟨e, he, hrow⟩
    obtain ⟨role, hs, hsaved⟩ := saved_of_savable hexec h.tracked.keys (h.savable e he)
    rw [hsaved, Option.some.injEq] at hrow
    exact ⟨e, he, hrow ▸ hs⟩
  · rintro ⟨e, he, hs⟩
    obtain ⟨role, hs', hsaved⟩ := saved_of_savable hexec h.tracked.keys (h.savable e he)
    exact ⟨e, he, hsaved.trans (congrArg some (hs'.unique hs))⟩

/-- From an idle loop: after four commands an entry the queue is empty, and MySQL the mirror. -/
theorem Ready.settled (h : Ready parseRole w []) (hidle : w.Idle) {n : ℕ}
    (hn : 4 * w.roleSets.length ≤ n) :
    ((World.serve parseRole exec)^[n] w).roleSets = [] ∧
      Mirrors parseRole ((World.serve parseRole exec)^[n] w) := by
  obtain ⟨k, hk, hrest⟩ := exists_rest parseRole exec hidle
  obtain ⟨hroles, hmysql⟩ := hrest (n - k)
  rw [Nat.sub_add_cancel (by omega)] at hroles hmysql
  constructor
  · rw [hroles, settle_queue, List.dropWhile_eq_nil_iff]
    intro e he
    obtain ⟨role, -, hsaved⟩ := saved_of_savable hexec h.tracked.keys (h.savable e he)
    rw [hsaved, Option.isSome_some]
  · intro key role hs
    have hs := (stores_congr (h.iterate hexec n).2.2).mp hs
    -- every row saved under this id is the role
    have hrow : ∀ row ∈ rows (w.saved parseRole exec) w.roleSets, row.id = role.id →
        row = role := by
      intro row hrow hid
      obtain ⟨e, -, hs'⟩ := (mem_rows hexec h).mp hrow
      have hrowkey : row.id = e.2 := h.tracked.keys _ _ hs'
      have hkey : role.id = key := h.tracked.keys _ _ hs
      rw [← hrowkey, hid, hkey] at hs'
      exact hs'.unique hs
    rw [hmysql, settle_table]
    cases hfind : (rows (w.saved parseRole exec) w.roleSets).reverse.find?
        fun row => row.id = role.id with
    | some row =>
      have hmem := List.mem_reverse.mp (List.mem_of_find?_eq_some hfind)
      have hid := List.find?_some hfind
      rw [Option.some_or, hrow row hmem (by simpa using hid)]
    | none =>
      rw [Option.none_or]
      rcases h.tracked.covered key role hs with hdone | hin | hmark
      · exact hdone
      · obtain ⟨e, he, rfl⟩ := List.mem_map.mp hin
        have hmem := (mem_rows hexec h).mpr ⟨e, he, hs⟩
        have hno := List.find?_eq_none.mp hfind role (List.mem_reverse.mpr hmem)
        simp at hno
      · cases hmark

end Alone

/-- **No role is lost.**  Whatever clients and the loop have done, a role in Redis is in MySQL or on
its way there; and when no client is about to mark a key and every entry can be saved, the loop left
alone empties the queue and makes MySQL the mirror of Redis. -/
theorem mirrors_of_reach (hexec : ∀ sql role, IsSave sql role → exec sql = some role)
    {p : World S × List Bytes}
    (h : (mirrorSystem parseRole exec).Reach (Marks parseRole exec) p) :
    Covered parseRole p.1 p.2 ∧
      (p.2 = [] → (∀ e ∈ p.1.roleSets, Savable parseRole p.1 e.2) →
        ∀ n, 4 * p.1.roleSets.length + 3 ≤ n →
          ∃ w', (writeBehind parseRole exec).exec p.1 (List.replicate n .loop) = some w' ∧
            w'.kv = p.1.kv ∧ w'.roleSets = [] ∧ Mirrors parseRole w') := by
  have htracked := tracked_of_reach parseRole exec h
  refine ⟨htracked.covered, ?_⟩
  intro hmarking hall n hn
  obtain ⟨w, marking⟩ := p
  obtain rfl : marking = [] := hmarking
  have hready : Ready parseRole w [] := ⟨htracked, hall⟩
  obtain ⟨k, hk, hidle⟩ := hready.exists_idle hexec
  obtain ⟨hready', hlen, hkv⟩ := hready.iterate hexec k
  have hrest : 4 * ((World.serve parseRole exec)^[k] w).roleSets.length ≤ n - k := by
    have hqueue : 4 * w.roleSets.length + 3 ≤ n := hn
    omega
  obtain ⟨hempty, hmirrors⟩ := hready'.settled hexec hidle hrest
  rw [← Function.iterate_add_apply, Nat.sub_add_cancel (by omega)] at hempty hmirrors
  exact ⟨_, exec_loop parseRole exec n w, (hready.iterate hexec n).2.2, hempty, hmirrors⟩

end Clients

/-! ### A run on concrete servers -/

/-- The row of a statement, and what may come behind it. -/
def rowOf : List Lib.Sql.Token → Option Role
  | .text id :: .punct 44 :: .text name :: .punct 44 :: .text user :: .punct 41 :: semicolon =>
      if semicolon = [] ∨ semicolon = [.punct 59] then some ⟨id, name, user⟩ else none
  | _ => none

/-- What MySQL does with a text: it saves the role of a statement that saves one, and refuses any
other. -/
def execSave (sql : Bytes) : Option Role :=
  (Lib.Sql.tokens sql).bind fun ts =>
    if ts.take 12 = saveHead then rowOf (ts.drop 12) else none

theorem execSave_of_isSave (sql : Bytes) (role : Role) (h : IsSave sql role) :
    execSave sql = some role := by
  obtain ⟨semicolon, hsemi, hts⟩ := h
  have hlen : saveHead.length = 12 := rfl
  rw [execSave, hts, saveTokens, List.append_assoc, Option.bind_some, ← hlen, List.take_left,
    List.drop_left, if_pos rfl]
  simp only [List.cons_append, List.nil_append, rowOf]
  rw [if_pos (by simpa using hsemi)]

/-- A field of `Role` on the wire: its tag, its length in one byte, and its bytes. -/
def readField (tag : UInt8) (bs : Bytes) : Option (Bytes × Bytes) :=
  match bs with
  | t :: n :: rest =>
      if t = tag ∧ n < 128 ∧ n.toNat ≤ rest.length then some (rest.splitAt n.toNat) else none
  | _ => none

/-- `ParseFromArray` on a `Role` as it is serialized, with fields of less than 128 bytes. -/
def parseFields (bs : Bytes) : Bool × Role :=
  match (readField 10 bs).bind fun i => (readField 18 i.2).bind fun n =>
      (readField 26 n.2).bind fun u => if u.2 = [] then some ⟨i.1, n.1, u.1⟩ else none with
  | some role => (true, role)
  | none => (false, .blank)

/-- The bytes of a role. -/
def roleBytes (id name user : String) : Bytes :=
  10 :: UInt8.ofNat id.length :: ascii id ++ 18 :: UInt8.ofNat name.length :: ascii name ++
    26 :: UInt8.ofNat user.length :: ascii user

/-- Empty servers. -/
def emptyWorld : World ℕ := ⟨.start, fun _ => none, [], fun _ => none⟩

/-- Two roles are written and marked while the loop saves the first, which is written again before
the loop has read it. -/
def twoRoles : List (Act ℕ) :=
  [.set (ascii "7") (roleBytes "7" "Ann" "u7"), .zadd 1 (ascii "7"), .loop,
    .set (ascii "7") (roleBytes "7" "Anna" "u7"), .loop,
    .set (ascii "8") (roleBytes "8" "Bob" "u8"), .zadd 2 (ascii "7"), .loop, .zadd 3 (ascii "8")]

/-- What the commands leave. -/
def twoRolesWorld : World ℕ where
  loop := ⟨.zrem ⟨ascii "7", ascii "Anna", ascii "u7"⟩, ascii "7", []⟩
  kv := Function.update (Function.update (Function.update (fun _ => none) (ascii "7")
    (some (roleBytes "7" "Ann" "u7"))) (ascii "7") (some (roleBytes "7" "Anna" "u7"))) (ascii "8")
    (some (roleBytes "8" "Bob" "u8"))
  roleSets := [(2, ascii "7"), (3, ascii "8")]
  mysql := Function.update (fun _ => none) (ascii "7") (some ⟨ascii "7", ascii "Anna", ascii "u7"⟩)

/-- Both are in MySQL in the end. -/
theorem mirrors_twoRoles : (mirrorSystem parseFields execSave).Reach (Marks parseFields execSave)
      (twoRolesWorld, []) ∧
    ∃ w', (writeBehind parseFields execSave).exec twoRolesWorld (List.replicate 11 .loop) =
        some w' ∧
      w'.roleSets = [] ∧ Mirrors parseFields w' := by
  have hinit : (mirrorSystem parseFields execSave).init (emptyWorld, []) := by
    refine ⟨rfl, ?_, ?_⟩ <;>
    · rintro key role ⟨value, hv, -⟩
      cases hv
  have hall : (mirrorSystem parseFields execSave).AllSteps (Marks parseFields execSave)
      (emptyWorld, []) twoRoles := by decide +kernel
  have hreach : (mirrorSystem parseFields execSave).Reach (Marks parseFields execSave)
      (twoRolesWorld, []) := .of_exec (.start hinit) hall rfl
  have hsavable : ∀ e ∈ twoRolesWorld.roleSets, Savable parseFields twoRolesWorld e.2 := by
    intro e he
    simp only [twoRolesWorld, List.mem_cons, List.not_mem_nil, or_false] at he
    rcases he with rfl | rfl
    · exact ⟨⟨ascii "7", ascii "Anna", ascii "u7"⟩, ⟨roleBytes "7" "Anna" "u7", rfl, rfl⟩,
        by decide⟩
    · exact ⟨⟨ascii "8", ascii "Bob", ascii "u8"⟩, ⟨roleBytes "8" "Bob" "u8", rfl, rfl⟩,
        by decide⟩
  obtain ⟨w', hrun, -, hempty, hmirrors⟩ :=
    (mirrors_of_reach parseFields execSave execSave_of_isSave hreach).2 rfl hsavable 11 le_rfl
  exact ⟨hreach, w', hrun, hempty, hmirrors⟩

end GoFight.Data
