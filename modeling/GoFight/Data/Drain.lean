import GoFight.Data.OwnReply
import GoFight.Data.WriteBehind
import Mathlib.Logic.Function.Iterate

/-!
# What becomes of the write-behind queue

`process_redis_list` left alone: no other client writes to Redis.  The loop then works through
`role_sets` from the front, and an entry it cannot save stays in front of all others.

* `World.saved` — the row the loop saves for an entry, if it saves one;
* `settle` — the entries in order, up to the first that is not saved;
* `exists_rest` — after at most four commands for each entry, the queue and the table are what
  `settle` says, and stay so;
* `settles` — the queue then starts with the first entry that cannot be saved, and the table holds
  for every id the last row saved.
-/

namespace GoFight.Data

open GoFight.Lib

variable {S : Type*} (parseRole : Bytes → Bool × Role) (exec : Bytes → Option Role)

/-- The role the loop has for a key: what `get_redis_data` leaves in a fresh message. -/
def World.roleOf (w : World S) (key : Bytes) : Role :=
  (redisGetData parseRole
    (some ({ w with loop := { w.loop with response := key } } : World S).getReply) .blank).2

/-- The row MySQL gets for an entry of `role_sets`: none when the key reads as an empty one, or when
the statement fails. -/
def World.saved (w : World S) (e : S × Bytes) : Option Role :=
  if cstr e.2 = [] then none else exec (sqlText (w.roleOf parseRole (cstr e.2)))

/-- The entries in order, up to the first that is not saved: the queue left, and the table. -/
def settle (saved : S × Bytes → Option Role) :
    List (S × Bytes) → (Bytes → Option Role) → List (S × Bytes) × (Bytes → Option Role)
  | [], table => ([], table)
  | e :: z, table =>
      match saved e with
      | none => (e :: z, table)
      | some row => settle saved z (Function.update table row.id (some row))

theorem settle_none {saved : S × Bytes → Option Role} {e : S × Bytes} (h : saved e = none)
    (z : List (S × Bytes)) (table : Bytes → Option Role) :
    settle saved (e :: z) table = (e :: z, table) := by
  rw [settle, h]

theorem settle_some {saved : S × Bytes → Option Role} {e : S × Bytes} {row : Role}
    (h : saved e = some row) (z : List (S × Bytes)) (table : Bytes → Option Role) :
    settle saved (e :: z) table = settle saved z (Function.update table row.id (some row)) := by
  rw [settle, h]

/-- The queue left is the part from the first entry on that is not saved. -/
theorem settle_queue {saved : S × Bytes → Option Role} (z : List (S × Bytes))
    (table : Bytes → Option Role) :
    (settle saved z table).1 = z.dropWhile fun e => (saved e).isSome := by
  induction z generalizing table with
  | nil => rfl
  | cons e z ih =>
    cases he : saved e with
    | none => rw [settle_none he, List.dropWhile_cons, he]; rfl
    | some row => rw [settle_some he, ih, List.dropWhile_cons, he]; rfl

/-! ### One command -/

/-- `ZRANGE` gives the loop the first member. -/
theorem serve_zrange {w : World S} {e : S × Bytes} {z : List (S × Bytes)}
    (hpc : w.loop.pc = .zrange) (hz : w.roleSets = e :: z) (hne : cstr e.2 ≠ []) :
    w.serve parseRole exec =
      { w with loop := { w.loop with pc := .get, response := cstr e.2 } } := by
  simp only [World.serve, hpc, hz, Loop.resume, Answer.redis, redisCmd, List.map_cons,
    List.take_succ_cons, hne, if_false]

/-- An empty queue, or a first member that reads as the empty string, sends it round again. -/
theorem serve_zrange_none {w : World S} (hpc : w.loop.pc = .zrange) (hr : w.loop.response = [])
    (hz : ∀ e ∈ w.roleSets.head?, cstr e.2 = []) : w.serve parseRole exec = w := by
  obtain ⟨⟨pc, response, responseDel⟩, kv, roleSets, mysql⟩ := w
  simp only at hpc hr hz
  subst hpc hr
  rcases roleSets with _ | ⟨e, z⟩
  · simp only [World.serve, Loop.resume, Answer.redis, redisCmd, List.map_nil, List.take_nil,
      if_true]
  · have he : cstr e.2 = [] := hz e rfl
    simp only [World.serve, Loop.resume, Answer.redis, redisCmd, he, List.map_cons,
      List.take_succ_cons, if_true]

/-- `GET` gives it the role of the key. -/
theorem serve_get {w : World S} (hpc : w.loop.pc = .get) :
    w.serve parseRole exec = { w with loop :=
      { w.loop with pc := .replace (w.roleOf parseRole w.loop.response) } } := by
  rw [World.serve, hpc]
  simp only [Loop.resume_get parseRole _ hpc]
  rfl

/-- The loop is about to ask for the next entry. -/
def World.Idle (w : World S) : Prop := w.loop.pc = .zrange ∧ w.loop.response = []

/-- The four commands for an entry that is saved. -/
theorem serve_saved {w : World S} {e : S × Bytes} {z : List (S × Bytes)} {row : Role}
    (h : w.Idle) (hz : w.roleSets = e :: z) (hs : w.saved parseRole exec e = some row) :
    ((World.serve parseRole exec)^[4] w).Idle ∧
      ((World.serve parseRole exec)^[4] w).roleSets = z ∧
      ((World.serve parseRole exec)^[4] w).mysql = Function.update w.mysql row.id (some row) ∧
      ((World.serve parseRole exec)^[4] w).kv = w.kv := by
  have hne : cstr e.2 ≠ [] := by
    intro he
    rw [World.saved, if_pos he] at hs
    cases hs
  rw [World.saved, if_neg hne] at hs
  have hzrange := serve_zrange parseRole exec h.1 hz hne
  have hget := serve_get parseRole exec
    (w := { w with loop := { w.loop with pc := .get, response := cstr e.2 } }) rfl
  have hfour : (World.serve parseRole exec)^[4] w = World.serve parseRole exec
      (World.serve parseRole exec { w with loop := { w.loop with
        pc := .replace (w.roleOf parseRole (cstr e.2)), response := cstr e.2 } }) := by
    show World.serve parseRole exec (World.serve parseRole exec (World.serve parseRole exec
      (World.serve parseRole exec w))) = _
    rw [hzrange, hget]
    rfl
  rw [hfour]
  simp only [World.serve, hs, Loop.resume, Answer.mysql, if_true, World.Idle, hz,
    List.drop_succ_cons, List.drop_zero, and_self]

/-! ### An entry that is not saved -/

/-- The first entry, if there is one, is not saved, and the loop is at work on it. -/
def World.Stuck (w : World S) : Prop :=
  (∀ e ∈ w.roleSets.head?, w.saved parseRole exec e = none) ∧
    match w.loop.pc with
    | .zrange => w.loop.response = []
    | .get => ∃ e ∈ w.roleSets.head?, w.loop.response = cstr e.2 ∧ cstr e.2 ≠ []
    | .replace role => ∃ e ∈ w.roleSets.head?, role = w.roleOf parseRole (cstr e.2) ∧ cstr e.2 ≠ []
    | .zrem _ => False

/-- A command of a stuck loop changes nothing in the servers, and the loop stays stuck. -/
theorem World.Stuck.serve {w : World S} (h : w.Stuck parseRole exec) :
    (w.serve parseRole exec).Stuck parseRole exec ∧
      (w.serve parseRole exec).roleSets = w.roleSets ∧
      (w.serve parseRole exec).mysql = w.mysql := by
  obtain ⟨hhead, hpc⟩ := h
  cases hcase : w.loop.pc with
  | zrange =>
    simp only [hcase] at hpc
    by_cases hz : ∀ e ∈ w.roleSets.head?, cstr e.2 = []
    · rw [serve_zrange_none parseRole exec hcase hpc hz, World.Stuck, hcase]
      exact ⟨⟨hhead, hpc⟩, rfl, rfl⟩
    · push Not at hz
      obtain ⟨e, he, hne⟩ := hz
      obtain ⟨z, hroles⟩ := List.head?_eq_some_iff.1 he
      rw [serve_zrange parseRole exec hcase hroles hne, World.Stuck]
      exact ⟨⟨hhead, e, he, rfl, hne⟩, rfl, rfl⟩
  | get =>
    simp only [hcase] at hpc
    obtain ⟨e, he, hresponse, hne⟩ := hpc
    rw [serve_get parseRole exec hcase, World.Stuck]
    refine ⟨⟨hhead, e, he, ?_, hne⟩, rfl, rfl⟩
    rw [hresponse]
    rfl
  | replace role =>
    simp only [hcase] at hpc
    obtain ⟨e, he, hrole, hne⟩ := hpc
    have hnone : exec (sqlText role) = none := by
      have hsaved := hhead e he
      rw [World.saved, if_neg hne] at hsaved
      rw [hrole]
      exact hsaved
    have hserve : w.serve parseRole exec =
        { w with loop := { w.loop with pc := .zrange, response := [] } } := by
      simp only [World.serve, hcase, hnone, Loop.resume, Answer.mysql, Bool.false_eq_true, if_false]
    rw [hserve, World.Stuck]
    exact ⟨⟨hhead, rfl⟩, rfl, rfl⟩
  | zrem role =>
    simp only [hcase] at hpc

/-- Commands of a stuck loop. -/
theorem World.Stuck.iterate {w : World S} (h : w.Stuck parseRole exec) (n : ℕ) :
    ((World.serve parseRole exec)^[n] w).roleSets = w.roleSets ∧
      ((World.serve parseRole exec)^[n] w).mysql = w.mysql := by
  induction n generalizing w with
  | zero => exact ⟨rfl, rfl⟩
  | succ n ih =>
    obtain ⟨hstuck, hroles, hmysql⟩ := World.Stuck.serve parseRole exec h
    obtain ⟨ihroles, ihmysql⟩ := ih hstuck
    rw [Function.iterate_succ_apply]
    exact ⟨ihroles.trans hroles, ihmysql.trans hmysql⟩

/-! ### The queue -/

/-- The loop comes to rest, and then changes nothing any more. -/
theorem exists_rest {w : World S} (h : w.Idle) :
    ∃ k ≤ 4 * w.roleSets.length, ∀ n,
      ((World.serve parseRole exec)^[n + k] w).roleSets =
          (settle (w.saved parseRole exec) w.roleSets w.mysql).1 ∧
        ((World.serve parseRole exec)^[n + k] w).mysql =
          (settle (w.saved parseRole exec) w.roleSets w.mysql).2 := by
  generalize hz : w.roleSets = z
  induction z generalizing w with
  | nil =>
    have hstuck : w.Stuck parseRole exec := by
      rw [World.Stuck, h.1, hz]
      exact ⟨by simp, h.2⟩
    refine ⟨0, Nat.zero_le _, fun n => ?_⟩
    obtain ⟨hroles, hmysql⟩ := World.Stuck.iterate parseRole exec hstuck n
    exact ⟨hroles.trans hz, hmysql⟩
  | cons e z ih =>
    cases hs : w.saved parseRole exec e with
    | none =>
      rw [settle_none hs]
      have hstuck : w.Stuck parseRole exec := by
        rw [World.Stuck, h.1, hz]
        exact ⟨by simpa using hs, h.2⟩
      refine ⟨0, Nat.zero_le _, fun n => ?_⟩
      obtain ⟨hroles, hmysql⟩ := World.Stuck.iterate parseRole exec hstuck n
      exact ⟨hroles.trans hz, hmysql⟩
    | some row =>
      rw [settle_some hs]
      obtain ⟨hidle, hroles, hmysql, hkv⟩ := serve_saved parseRole exec h hz hs
      have hsaved : ((World.serve parseRole exec)^[4] w).saved parseRole exec =
          w.saved parseRole exec := by
        funext entry
        simp only [World.saved, World.roleOf, World.getReply, hkv]
      obtain ⟨k, hk, hrest⟩ := ih hidle hroles
      refine ⟨k + 4, by rw [List.length_cons]; omega, fun n => ?_⟩
      rw [← Nat.add_assoc, Function.iterate_add_apply, ← hsaved, ← hmysql]
      exact hrest n

/-- The rows saved: those of the entries before the first that is not. -/
def rows (saved : S × Bytes → Option Role) (z : List (S × Bytes)) : List Role :=
  (z.takeWhile fun e => (saved e).isSome).filterMap saved

/-- Of the rows with one id the last is in the table. -/
theorem settle_table (saved : S × Bytes → Option Role) (z : List (S × Bytes))
    (table : Bytes → Option Role) (id : Bytes) :
    (settle saved z table).2 id =
      ((rows saved z).reverse.find? fun row => row.id = id).or (table id) := by
  induction z generalizing table with
  | nil => rfl
  | cons e z ih =>
    rw [rows, List.takeWhile_cons]
    cases he : saved e with
    | none => rw [settle_none he]; rfl
    | some row =>
      rw [settle_some he]
      simp only [Option.isSome_some, if_true, List.filterMap_cons, he, List.reverse_cons,
        List.find?_append]
      rw [ih]
      by_cases hid : id = row.id
      · subst hid
        simp [rows]
      · simp [rows, Function.update_of_ne hid, Ne.symm hid]

/-- The loop alone. -/
theorem exec_loop [LinearOrder S] (n : ℕ) (w : World S) : (writeBehind parseRole exec).exec w
    (List.replicate n .loop) = some ((World.serve parseRole exec)^[n] w) := by
  induction n generalizing w with
  | zero => rfl
  | succ n ih =>
    rw [List.replicate_succ, Lts.exec, Function.iterate_succ_apply]
    exact ih _

/-- **What becomes of the queue.**  Left alone for four commands an entry or more, the loop has
taken from the queue just the entries before the first that it cannot save, and MySQL holds, for
every id, the last row saved for it, or what it held before. -/
theorem settles [LinearOrder S] {w : World S} (h : w.Idle) {n : ℕ}
    (hn : 4 * w.roleSets.length ≤ n) :
    ∃ w', (writeBehind parseRole exec).exec w (List.replicate n .loop) = some w' ∧
      w'.roleSets = (w.roleSets.dropWhile fun e => (w.saved parseRole exec e).isSome) ∧
      ∀ id, w'.mysql id =
        ((rows (w.saved parseRole exec) w.roleSets).reverse.find? fun row => row.id = id).or
          (w.mysql id) := by
  obtain ⟨k, hk, hrest⟩ := exists_rest parseRole exec h
  obtain ⟨hroles, hmysql⟩ := hrest (n - k)
  rw [Nat.sub_add_cancel (by omega)] at hroles hmysql
  refine ⟨_, exec_loop parseRole exec n w, hroles.trans (settle_queue _ _), fun id => ?_⟩
  rw [hmysql]
  exact settle_table _ _ _ _

/-- A queue whose second member is the empty string. -/
def blockedQueue : World ℕ where
  loop := .start
  kv := oneDirty.kv
  roleSets := [(5, ascii "a"), (6, []), (7, ascii "a")]
  mysql := fun _ => none

/-- The entries behind it are never saved. -/
theorem settles_blockedQueue : ∃ w',
    (writeBehind parseThree execReplace).exec blockedQueue (List.replicate 12 .loop) =
        some w' ∧
      w'.roleSets = [(6, []), (7, ascii "a")] ∧
      w'.mysql (ascii "a") = some ⟨ascii "a", ascii "X", ascii "u"⟩ := by
  have hsettles : ∃ w', (writeBehind parseThree execReplace).exec blockedQueue
      (List.replicate 12 .loop) = some w' ∧ _ :=
    settles parseThree execReplace (w := blockedQueue) ⟨rfl, rfl⟩ le_rfl
  obtain ⟨w', hs, hroles, hmysql⟩ := hsettles
  refine ⟨w', hs, hroles.trans (by decide +kernel), (hmysql _).trans (by decide +kernel)⟩

end GoFight.Data
