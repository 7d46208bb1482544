import GoFight.Data.ProcessRedisList
import GoFight.Lib.Lts
import Mathlib.Order.Lattice

/-!
# The write-behind queue beside other Redis clients

`process_redis_list` interleaved with clients that `SET` role values and `ZADD` their keys to
`role_sets`.  Each Redis or MySQL command is one step of the system `writeBehind`; its state is the
loop's, the two Redis values and the table `role`.

* `World` — the state, `Act` — a step of the loop or a command of another client;
* `RemovesSaved` — when the loop is about to dequeue, the entry it removes is the key it saved and
  its Redis value still is what MySQL holds;
* `KeepsSaved` — the condition on a step: the `REPLACE` saves what the first key holds, and up to the
  `ZREMRANGEBYRANK` this key stays first and its value stays;
* `removesSaved_iff` — the run theorem: all steps meet the condition if and only if all states have
  the property.

The entry to remove is named by its rank, so a lower score that arrives in between is dequeued
unsaved.  What MySQL does with the text of a statement is the parameter `exec`: the row written, or
`none` when the statement fails.
-/

namespace GoFight.Data

open GoFight.Lib

/-! ### The servers -/

section Zset

variable {S : Type*} [LinearOrder S]

/-- The order of a sorted set: by score, then by member. -/
def EntryLt (a b : S × Bytes) : Prop := a.1 < b.1 ∨ a.1 = b.1 ∧ a.2 < b.2

instance (a b : S × Bytes) : Decidable (EntryLt a b) := by
  unfold EntryLt
  infer_instance

/-- Put an entry in front of the first greater one. -/
def insertEntry (e : S × Bytes) : List (S × Bytes) → List (S × Bytes)
  | [] => [e]
  | x :: xs => if EntryLt e x then e :: x :: xs else x :: insertEntry e xs

/-- `ZADD`: a member already there gets the new score. -/
def zadd (score : S) (member : Bytes) (z : List (S × Bytes)) : List (S × Bytes) :=
  insertEntry (score, member) (z.filter fun e => e.2 ≠ member)

/-- The member of rank 0. -/
def firstMember (z : List (S × Bytes)) : Option Bytes := z.head?.map Prod.snd

end Zset

/-- The loop, Redis (the role values and `role_sets`, in ascending order) and the table `role` by
its primary key. -/
structure World (S : Type*) where
  loop : Loop
  kv : Bytes → Option Bytes
  roleSets : List (S × Bytes)
  mysql : Bytes → Option Role

/-- A command of the loop, or of another client. -/
inductive Act (S : Type*)
  | loop
  | set (key value : Bytes)
  | zadd (score : S) (member : Bytes)
deriving DecidableEq, Repr

variable {S : Type*}

/-- `GET`. -/
def World.getReply (w : World S) : Reply :=
  match w.kv (cstr w.loop.response) with
  | some value => .string value
  | none => .nil

/-! ### The property -/

section Property

variable (parseRole : Bytes → Bool × Role)

/-- The key and the value the loop works on, with the row it has read: the key is first in
`role_sets`, and its value parses to the row. -/
def World.Holds (w : World S) (role : Role) : Prop :=
  firstMember w.roleSets = some w.loop.response ∧
    ∃ value, w.kv w.loop.response = some value ∧ parseRole value = (true, role)

/-- When the loop is about to remove a member, that member is the key it has saved, and the row in
MySQL is the value now stored under it. -/
def RemovesSaved (w : World S) : Prop :=
  ∀ role, w.loop.pc = .zrem role → ∀ member, firstMember w.roleSets = some member →
    member = w.loop.response ∧
      ∃ value, w.kv member = some value ∧ parseRole value = (true, role) ∧
        w.mysql role.id = some role

/-- The loop works on a key only while `role_sets` has entries. -/
structure Picked (w : World S) : Prop where
  idle : w.loop.pc = .zrange → w.loop.response = []
  busy : w.loop.pc ≠ .zrange → w.roleSets ≠ []

theorem Picked.exists_first {w : World S} (h : Picked w) (hpc : w.loop.pc ≠ .zrange) :
    ∃ member, firstMember w.roleSets = some member := by
  obtain ⟨e, z, hz⟩ := List.exists_cons_of_ne_nil (h.busy hpc)
  exact ⟨e.2, by rw [hz]; rfl⟩

/-- The property, where there is something to remove. -/
theorem Picked.removesSaved_iff_holds {w : World S} (h : Picked w) : RemovesSaved parseRole w ↔
    ∀ role, w.loop.pc = .zrem role → w.Holds parseRole role ∧ w.mysql role.id = some role := by
  constructor
  · intro hr role hpc
    obtain ⟨member, hm⟩ := h.exists_first (by rw [hpc]; simp)
    obtain ⟨rfl, value, hv, hp, hrow⟩ := hr role hpc member hm
    exact ⟨⟨hm, value, hv, hp⟩, hrow⟩
  · intro hs role hpc member hm
    obtain ⟨⟨hfirst, value, hv, hp⟩, hrow⟩ := hs role hpc
    rw [hfirst, Option.some.injEq] at hm
    subst hm
    exact ⟨rfl, value, hv, hp, hrow⟩

/-- Where the loop is not about to remove anything. -/
theorem removesSaved_of_ne {w : World S} (h : ∀ role, w.loop.pc ≠ .zrem role) :
    RemovesSaved parseRole w :=
  fun role hpc => absurd hpc (h role)

instance (w : World S) (role : Role) : Decidable (w.Holds parseRole role) :=
  match h : w.kv w.loop.response with
  | none => isFalse (by simp [World.Holds, h])
  | some value =>
      decidable_of_iff (firstMember w.roleSets = some w.loop.response ∧
        parseRole value = (true, role)) (by simp [World.Holds, h])

/-- A `SET` keeps what is held if and only if it is of another key, or of a value for the same role. -/
theorem World.Holds.set_iff {w : World S} {role : Role} {key value : Bytes}
    (h : w.Holds parseRole role) :
    ({ w with kv := Function.update w.kv key (some value) } : World S).Holds parseRole role ↔
      (key = w.loop.response → parseRole value = (true, role)) := by
  obtain ⟨hfirst, v, hv, hp⟩ := h
  by_cases hk : key = w.loop.response
  · simp [World.Holds, hk, hfirst]
  · simp [World.Holds, hk, Ne.symm hk, hfirst, hv, hp]

end Property

/-! ### The system -/

section System

variable [LinearOrder S] (parseRole : Bytes → Bool × Role) (exec : Bytes → Option Role)

/-- The servers run the loop's command and the loop goes on with the answer. -/
def World.serve (w : World S) : World S :=
  match w.loop.pc with
  | .zrange =>
      let members := (w.roleSets.map Prod.snd).take 1
      { w with loop := w.loop.resume parseRole (.reply (some (.array members))) }
  | .get => { w with loop := w.loop.resume parseRole (.reply (some w.getReply)) }
  | .replace role =>
      match exec (sqlText role) with
      | some row =>
          { w with
            mysql := Function.update w.mysql row.id (some row)
            loop := w.loop.resume parseRole (.exe true) }
      | none => { w with loop := w.loop.resume parseRole (.exe false) }
  | .zrem _ =>
      { w with
        roleSets := w.roleSets.drop 1
        loop := w.loop.resume parseRole
          (.reply (some (.integer (w.roleSets.take 1).length))) }

/-- One atomic command. -/
def World.step (w : World S) : Act S → World S
  | .loop => w.serve parseRole exec
  | .set key value => { w with kv := Function.update w.kv key (some value) }
  | .zadd score member => { w with roleSets := zadd score member w.roleSets }

/-- `process_redis_list` and the other clients, started on any contents of the two servers. -/
def writeBehind : Lts (World S) (Act S) where
  init w := w.loop = .start
  step w a := some (w.step parseRole exec a)

/-! ### The condition -/

/-- A step after which the loop may remove what it has saved.  When it saves the role it has read, the
key it has picked is first in `role_sets` and has a value that parses to this role, and MySQL has the
role afterwards; until the removal, other clients leave the first member first and give it no value
that parses to something else. -/
def KeepsSaved (w : World S) : Act S → Prop
  | .loop =>
      match w.loop.pc with
      | .replace role => ∀ row ∈ exec (sqlText role),
          w.Holds parseRole role ∧ Function.update w.mysql row.id (some row) role.id = some role
      | _ => True
  | .set key value =>
      match w.loop.pc with
      | .zrem role => key = w.loop.response → parseRole value = (true, role)
      | _ => True
  | .zadd score member =>
      match w.loop.pc with
      | .zrem _ => firstMember (zadd score member w.roleSets) = firstMember w.roleSets
      | _ => True

instance (w : World S) (a : Act S) : Decidable (KeepsSaved parseRole exec w a) := by
  cases a with
  | loop =>
    have (role : Role) : Decidable (∀ row ∈ exec (sqlText role), w.Holds parseRole role ∧
        Function.update w.mysql row.id (some row) role.id = some role) :=
      Option.decidableForallMem _
    unfold KeepsSaved
    cases w.loop.pc <;> infer_instance
  | set key value => unfold KeepsSaved; cases w.loop.pc <;> infer_instance
  | zadd score member => unfold KeepsSaved; cases w.loop.pc <;> infer_instance

/-! ### Every step -/

omit [LinearOrder S] in
/-- The loop is about to remove an entry only when it has just saved a row. -/
theorem serve_zrem {w : World S} {role : Role} (h : (w.serve parseRole exec).loop.pc = .zrem role) :
    w.loop.pc = .replace role ∧ ∃ row, exec (sqlText role) = some row := by
  cases hpc : w.loop.pc with
  | zrange =>
    simp only [World.serve, hpc, Loop.resume] at h
    split at h
    · split at h <;> cases h
    · cases h
  | get =>
    simp [World.serve, hpc, Loop.resume_get parseRole _ hpc] at h
  | replace role' =>
    cases hx : exec (sqlText role') with
    | none => simp [World.serve, hpc, hx, Loop.resume, Answer.mysql] at h
    | some row =>
      simp only [World.serve, hpc, hx, Loop.resume, Answer.mysql, if_true, Pc.zrem.injEq] at h
      subst h
      exact ⟨rfl, row, hx⟩
  | zrem role' => simp [World.serve, hpc, Loop.resume] at h

omit [LinearOrder S] in
theorem Picked.serve {w : World S} (h : Picked w) : Picked (w.serve parseRole exec) := by
  cases hpc : w.loop.pc with
  | zrange =>
    have hresponse := h.idle hpc
    rcases hz : w.roleSets with _ | ⟨e, z⟩
    · constructor <;>
        simp [World.serve, hpc, hz, hresponse, Loop.resume, Answer.redis, redisCmd]
    · have hsets : (w.serve parseRole exec).roleSets ≠ [] := by simp [World.serve, hpc, hz]
      refine ⟨?_, fun _ => hsets⟩
      by_cases hkey : cstr e.2 = [] <;>
        simp [World.serve, hpc, hz, Loop.resume, Answer.redis, redisCmd, hkey]
  | get =>
    have hsets : (w.serve parseRole exec).roleSets = w.roleSets := by simp [World.serve, hpc]
    refine ⟨fun hpc' => ?_, fun _ => hsets ▸ h.busy (by rw [hpc]; simp)⟩
    simp [World.serve, hpc, Loop.resume_get parseRole _ hpc] at hpc'
  | replace role =>
    have hsets : (w.serve parseRole exec).roleSets = w.roleSets := by
      cases hx : exec (sqlText role) <;> simp [World.serve, hpc, hx]
    refine ⟨fun hpc' => ?_, fun _ => hsets ▸ h.busy (by rw [hpc]; simp)⟩
    cases hx : exec (sqlText role) with
    | none => simp [World.serve, hpc, hx, Loop.resume, Answer.mysql]
    | some row => simp [World.serve, hpc, hx, Loop.resume, Answer.mysql] at hpc'
  | zrem role => constructor <;> simp [World.serve, hpc, Loop.resume]

theorem insertEntry_ne_nil (e : S × Bytes) (z : List (S × Bytes)) :
    insertEntry e z ≠ [] := by
  cases z with
  | nil => simp [insertEntry]
  | cons x xs =>
    rw [insertEntry]
    split <;> simp

theorem Picked.step {w : World S} (h : Picked w) (a : Act S) :
    Picked (w.step parseRole exec a) := by
  cases a with
  | loop => exact h.serve parseRole exec
  | set key value => exact ⟨h.idle, h.busy⟩
  | zadd score member => exact ⟨h.idle, fun _ => insertEntry_ne_nil _ _⟩

/-- **One step**, exactly. -/
theorem removesSaved_step_iff {w : World S} (hp : Picked w) (h : RemovesSaved parseRole w)
    (a : Act S) :
    RemovesSaved parseRole (w.step parseRole exec a) ↔ KeepsSaved parseRole exec w a := by
  have hs := (hp.removesSaved_iff_holds parseRole).mp h
  rw [(hp.step parseRole exec a).removesSaved_iff_holds parseRole]
  cases a with
  | loop =>
    cases hpc : w.loop.pc with
    | replace role =>
      simp only [KeepsSaved, hpc]
      cases hx : exec (sqlText role) with
      | none => simp [World.step, World.serve, hpc, hx, Loop.resume, Answer.mysql]
      | some row => simp [World.step, World.serve, hpc, hx, Loop.resume, Answer.mysql, World.Holds]
    | zrange | get | zrem role =>
      simp only [KeepsSaved, hpc, iff_true]
      intro role' hpc'
      have hreplace := (serve_zrem parseRole exec hpc').1
      rw [hpc] at hreplace
      cases hreplace
  | set key value =>
    cases hpc : w.loop.pc with
    | zrem role =>
      obtain ⟨hholds, hrow⟩ := hs role hpc
      simp only [KeepsSaved, hpc]
      rw [← hholds.set_iff parseRole]
      simp [World.step, hpc, hrow]
    | _ => simp [KeepsSaved, World.step, hpc]
  | zadd score member =>
    cases hpc : w.loop.pc with
    | zrem role =>
      obtain ⟨⟨hfirst, hvalue⟩, hrow⟩ := hs role hpc
      simp only [KeepsSaved, hpc]
      rw [hfirst]
      simp [World.step, World.Holds, hpc, hrow, hvalue]
    | _ => simp [KeepsSaved, World.step, hpc]

/-- **No update is lost, exactly.**  In a run of the loop and other clients, from any contents of
Redis and MySQL, all states have the property if and only if all steps meet the condition. -/
theorem removesSaved_iff {w : World S} (hw : w.loop = .start) (acts : List (Act S)) :
    (writeBehind parseRole exec).AllSteps
        (fun w a => RemovesSaved parseRole (w.step parseRole exec a)) w acts ↔
      (writeBehind parseRole exec).AllSteps (KeepsSaved parseRole exec) w acts := by
  have hpc : w.loop.pc = .zrange := by rw [hw]; rfl
  have hpicked : Picked w := ⟨fun _ => by rw [hw]; rfl, fun hne => absurd hpc hne⟩
  have hremoves : RemovesSaved parseRole w := removesSaved_of_ne parseRole (by rw [hpc]; simp)
  refine Lts.allSteps_congr (I := fun w => Picked w ∧ RemovesSaved parseRole w)
    ⟨hpicked, hremoves⟩ ?_ ?_ acts
  · exact fun w a h => removesSaved_step_iff parseRole exec h.1 h.2 a
  · rintro w a w' ⟨hp, -⟩ hc hs
    obtain rfl := Option.some.inj hs
    exact ⟨hp.step parseRole exec a, hc⟩

end System

/-! ### Runs on concrete servers -/

/-- The text up to a quote that is followed by `sep`, and what is behind `sep`. -/
def quoted (sep sql : Bytes) : Option (Bytes × Bytes) :=
  let text := sql.takeWhile (· ≠ 39)
  let rest := sql.drop text.length
  if sep.isPrefixOf rest then some (text, rest.drop sep.length) else none

/-- MySQL on the one statement the loop sends: three quoted texts, without escapes. -/
def execReplace (sql : Bytes) : Option Role := do
  let (_, s) ← quoted (ascii "'") sql
  let (id, s) ← quoted (ascii "', '") s
  let (name, s) ← quoted (ascii "', '") s
  let (user, _) ← quoted (ascii "');") s
  pure ⟨id, name, user⟩

/-- One dirty player, `a` with score 5, and an empty table. -/
def oneDirty : World ℕ where
  loop := .start
  kv := fun key => if key = ascii "a" then some (ascii "aXu") else none
  roleSets := [(5, ascii "a")]
  mysql := fun _ => none

/-- The rows, and the state of the loop when it is about to dequeue `a`, with other entries beside
it. -/
def savedA (roleSets : List (ℕ × Bytes)) : World ℕ where
  loop := ⟨.zrem ⟨ascii "a", ascii "X", ascii "u"⟩, ascii "a", []⟩
  kv := oneDirty.kv
  roleSets := roleSets
  mysql := Function.update oneDirty.mysql (ascii "a") (some ⟨ascii "a", ascii "X", ascii "u"⟩)

/-- The commands up to that point, with a `ZADD` just before it. -/
def saveA (score : ℕ) : List (Act ℕ) := [.loop, .loop, .loop, .zadd score (ascii "b")]

theorem init_oneDirty : (writeBehind parseThree execReplace).init oneDirty := rfl

/-- The loop saves `a` while `b` is marked dirty behind it. -/
theorem removesSaved_saveA :
    (writeBehind parseThree execReplace).AllSteps
      (fun w a => RemovesSaved parseThree (w.step parseThree execReplace a)) oneDirty (saveA 7) := by
  have hall : (writeBehind parseThree execReplace).AllSteps (KeepsSaved parseThree execReplace)
      oneDirty (saveA 7) := by decide +kernel
  exact (removesSaved_iff parseThree execReplace rfl (saveA 7)).mpr hall

/-- **A dirty player is dequeued unsaved.**  `b` is marked with a lower score after the loop has
picked `a`: the row of `a` is saved, and the entry of `b` is the one to be removed. -/
theorem not_removesSaved_lower_score :
    (writeBehind parseThree execReplace).Reach Lts.Free (savedA [(3, ascii "b"), (5, ascii "a")]) ∧
      ¬ RemovesSaved parseThree (savedA [(3, ascii "b"), (5, ascii "a")]) := by
  refine ⟨.of_exec (.start init_oneDirty) (Lts.allSteps_free oneDirty (saveA 3)) rfl, ?_⟩
  intro h
  exact absurd (h _ rfl (ascii "b") rfl).1 (by decide)

end GoFight.Data
