import GoFight.Data.Redis

/-!
# The loop of `process_redis_list`

The data server's write-behind loop, as a machine that waits for one answer at a time:

`ZRANGE role_sets 0 0`, then, for a non-empty response, `GET` of that key, `REPLACE INTO role` with
the fields of the message, and `ZREMRANGEBYRANK role_sets 0 0` when the statement succeeded.

* `Loop.cmd` — the command the loop has sent in a state, `Loop.resume` — what it does with the
  answer;
* `Loop.iteration` — one round of `while (true)`: the commands it sends and the state it leaves;
* `SavesOnlyRead` — an iteration that writes to MySQL or dequeues has read the role it saves;
* `iterations_saveOnlyRead_iff` — when every iteration does.

`get_redis_data` of the data server answers `true` for every reply, so a key whose `GET` gave no
role is saved as whatever the fresh message holds.
-/

namespace GoFight.Data

/-! ### The machine -/

/-- Where the loop waits.  From the `GET` on, `role` is in scope. -/
inductive Pc
  | zrange
  | get
  | replace (role : Role)
  | zrem (role : Role)
deriving DecidableEq, Repr

/-- The locals of `process_redis_list` that live across commands. -/
structure Loop where
  pc : Pc
  response : Bytes
  responseDel : Bytes
deriving DecidableEq, Repr

/-- The loop before its first command. -/
def Loop.start : Loop := ⟨.zrange, [], []⟩

/-- The commands of the loop. -/
inductive Cmd
  | zrange
  | get (key : Bytes)
  | replace (sql : Bytes)
  | zremrangebyrank
deriving DecidableEq, Repr

/-- The command the loop waits on. -/
def Loop.cmd (l : Loop) : Cmd :=
  match l.pc with
  | .zrange => .zrange
  | .get => .get (cstr l.response)
  | .replace role => .replace (sqlText role)
  | .zrem _ => .zremrangebyrank

/-- The commands that change MySQL or `role_sets`. -/
def Cmd.Writes : Cmd → Prop
  | .zrange => False
  | .get _ => False
  | .replace _ => True
  | .zremrangebyrank => True

instance (c : Cmd) : Decidable c.Writes := by
  cases c <;> unfold Cmd.Writes <;> infer_instance

/-- The answer to a command: a Redis reply, or the result of `go::db_exe`. -/
inductive Answer
  | reply (r : Option Reply)
  | exe (ok : Bool)
deriving DecidableEq, Repr

/-- The Redis reply of an answer. -/
def Answer.redis : Answer → Option Reply
  | .reply r => r
  | .exe _ => none

/-- The MySQL result of an answer. -/
def Answer.mysql : Answer → Bool
  | .reply _ => false
  | .exe ok => ok

section Machine

variable (parseRole : Bytes → Bool × Role)

/-- The loop from one command to the next. -/
def Loop.resume (l : Loop) (a : Answer) : Loop :=
  match l.pc with
  | .zrange =>
      match redisCmd a.redis l.response with
      | (true, response) =>
          if response = [] then { l with response := response }
          else { l with pc := .get, response := response }
      | (false, response) => { l with response := response }
  | .get =>
      match getRedisData parseRole a.redis .blank with
      | (true, role) => { l with pc := .replace role }
      | (false, _) => { l with pc := .zrange, response := [] }
  | .replace role =>
      if a.mysql then { l with pc := .zrem role }
      else { l with pc := .zrange, response := [] }
  | .zrem _ =>
      { pc := .zrange, response := [], responseDel := (redisCmd a.redis l.responseDel).2 }

/-- The answers the servers have for one iteration; it reads those of the commands it sends. -/
structure Replies where
  zrange : Option Reply
  get : Option Reply
  exe : Bool
  zrem : Option Reply
deriving DecidableEq, Repr

/-- The answer to the command at `pc`. -/
def Replies.answer (r : Replies) : Pc → Answer
  | .zrange => .reply r.zrange
  | .get => .reply r.get
  | .replace _ => .exe r.exe
  | .zrem _ => .reply r.zrem

/-- At most `n` commands, up to the end of the iteration. -/
def Loop.commands : ℕ → Loop → Replies → List Cmd × Loop
  | 0, l, _ => ([], l)
  | n + 1, l, r =>
      let l' := l.resume parseRole (r.answer l.pc)
      if l'.pc = .zrange then ([l.cmd], l')
      else
        let rest := Loop.commands n l' r
        (l.cmd :: rest.1, rest.2)

/-- One iteration: it sends at most four commands. -/
def Loop.iteration (l : Loop) (r : Replies) : List Cmd × Loop := l.commands parseRole 4 r

/-- The response of an iteration's `ZRANGE`. -/
def Replies.picked (r : Replies) (l : Loop) : Option Bytes :=
  match redisCmd r.zrange l.response with
  | (true, response) => if response = [] then none else some response
  | (false, _) => none

/-! ### What an iteration sends -/

theorem Loop.resume_get {l : Loop} (a : Answer) (h : l.pc = .get) :
    l.resume parseRole a
      = { l with pc := .replace (redisGetData parseRole a.redis .blank).2 } := by
  simp only [Loop.resume, h, getRedisData]

theorem Loop.resume_not_picked {l : Loop} {r : Replies} (hl : l.pc = .zrange)
    (hp : r.picked l = none) :
    l.resume parseRole (r.answer .zrange)
      = { l with response := (redisCmd r.zrange l.response).2 } := by
  rw [Replies.picked] at hp
  simp only [Loop.resume, hl, Replies.answer, Answer.redis]
  rcases hc : redisCmd r.zrange l.response with ⟨_ | _, response⟩
  · rfl
  · by_cases he : response = []
    · simp [he]
    · simp [hc, he] at hp

theorem Loop.resume_picked {l : Loop} {r : Replies} {key : Bytes} (hl : l.pc = .zrange)
    (hp : r.picked l = some key) :
    l.resume parseRole (r.answer .zrange) = { l with pc := .get, response := key } := by
  rw [Replies.picked] at hp
  simp only [Loop.resume, hl, Replies.answer, Answer.redis]
  rcases hc : redisCmd r.zrange l.response with ⟨_ | _, response⟩
  · simp [hc] at hp
  · by_cases he : response = []
    · simp [hc, he] at hp
    · simp only [hc, he, if_false, Option.some.injEq] at hp
      subst hp
      simp [he]

/-- An iteration whose `ZRANGE` picks no key sends nothing else. -/
theorem iteration_not_picked {l : Loop} {r : Replies} (hl : l.pc = .zrange)
    (hp : r.picked l = none) :
    l.iteration parseRole r
      = ([.zrange], { l with response := (redisCmd r.zrange l.response).2 }) := by
  have hcmd : l.cmd = .zrange := by rw [Loop.cmd, hl]
  rw [Loop.iteration, Loop.commands, hcmd, hl, Loop.resume_not_picked parseRole hl hp]
  simp only [hl, if_true]

/-- **An iteration that picks a key writes.**  The role it saves is what `get_redis_data` left in
a fresh message, whether or not the key was read. -/
theorem iteration_picked {l : Loop} {r : Replies} {key : Bytes} (hl : l.pc = .zrange)
    (hp : r.picked l = some key) :
    l.iteration parseRole r
      = ([.zrange, .get (cstr key), .replace (sqlText (redisGetData parseRole r.get .blank).2)]
          ++ (if r.exe then [.zremrangebyrank] else []),
        { pc := .zrange
          response := []
          responseDel := if r.exe then (redisCmd r.zrem l.responseDel).2 else l.responseDel }) := by
  have hcmd : l.cmd = .zrange := by rw [Loop.cmd, hl]
  rw [Loop.iteration, Loop.commands, hcmd, hl, Loop.resume_picked parseRole hl hp]
  simp only [reduceCtorEq, if_false]
  rw [Loop.commands, Loop.resume_get parseRole _ rfl]
  simp only [Replies.answer, Answer.redis, reduceCtorEq, if_false]
  cases hx : r.exe with
  | false => simp [Loop.commands, Loop.resume, Loop.cmd, Replies.answer, Answer.mysql, hx]
  | true =>
    simp [Loop.commands, Loop.resume, Loop.cmd, Replies.answer, Answer.mysql, Answer.redis, hx]

/-- Every iteration ends at its `ZRANGE`. -/
theorem iteration_pc {l : Loop} (r : Replies) (hl : l.pc = .zrange) :
    (l.iteration parseRole r).2.pc = .zrange := by
  cases hp : r.picked l with
  | none => rw [iteration_not_picked parseRole hl hp]; exact hl
  | some key => rw [iteration_picked parseRole hl hp]

/-! ### Only what was read is saved -/

/-- The iteration changes MySQL or `role_sets` only for a key it asked for, whose `GET` succeeded
with bytes that parse into an initialised `Role`. -/
def SavesOnlyRead (l : Loop) (r : Replies) : Prop :=
  ∀ c ∈ (l.iteration parseRole r).1, c.Writes →
    ReadRole parseRole r.get ∧ ∃ key, r.picked l = some key ∧
      Cmd.get (cstr key) ∈ (l.iteration parseRole r).1

/-- **One iteration.**  It keeps to the rule exactly when the `GET` of the key it picks, if it
picks one, reads a role. -/
theorem savesOnlyRead_iff {l : Loop} {r : Replies} (hl : l.pc = .zrange) :
    SavesOnlyRead parseRole l r ↔ ((r.picked l).isSome → ReadRole parseRole r.get) := by
  cases hp : r.picked l with
  | none =>
    refine ⟨fun _ h => by simp at h, fun _ c hc hw => ?_⟩
    rw [iteration_not_picked parseRole hl hp, List.mem_singleton] at hc
    rw [hc] at hw
    exact hw.elim
  | some key =>
    have hrun := iteration_picked parseRole hl hp
    constructor
    · intro h _
      refine (h (.replace (sqlText (redisGetData parseRole r.get .blank).2)) ?_ trivial).1
      rw [hrun]
      simp
    · intro h c _ _
      refine ⟨h rfl, key, hp, ?_⟩
      rw [hrun]
      simp

/-- Every iteration of the loop, from `l` on, does so. -/
def IterationsSaveOnlyRead (l : Loop) : List Replies → Prop
  | [] => True
  | r :: rs => SavesOnlyRead parseRole l r ∧
      IterationsSaveOnlyRead (l.iteration parseRole r).2 rs

/-- In every iteration that picks a key, the `GET` reply is a value that parses into an
initialised `Role`. -/
def PickedKeysReadable (l : Loop) : List Replies → Prop
  | [] => True
  | r :: rs => ((r.picked l).isSome → ReadRole parseRole r.get) ∧
      PickedKeysReadable (l.iteration parseRole r).2 rs

/-- **The loop saves only what it read, for as long as every key it picks is readable.**  For every
sequence of server replies, the iterations of `process_redis_list` write to MySQL and dequeue only
for keys they read exactly when each key that `ZRANGE` gives has a value that parses. -/
theorem iterations_saveOnlyRead_iff (rs : List Replies) :
    IterationsSaveOnlyRead parseRole .start rs ↔ PickedKeysReadable parseRole .start rs := by
  have key : ∀ l : Loop, l.pc = .zrange →
      (IterationsSaveOnlyRead parseRole l rs ↔ PickedKeysReadable parseRole l rs) := by
    induction rs with
    | nil => exact fun _ _ => Iff.rfl
    | cons r rs ih =>
      intro l hl
      exact and_congr (savesOnlyRead_iff parseRole hl) (ih _ (iteration_pc parseRole r hl))
  exact key .start rfl

end Machine

/-! ### A missing value -/

/-- A parser that reads `id`, `name` and `user` as one byte each. -/
def parseThree : Bytes → Bool × Role
  | [i, n, u] => (true, ⟨[i], [n], [u]⟩)
  | _ => (false, .blank)

/-- The key of a role whose value is gone: `GET` gives nil. -/
def missing : Replies := ⟨some (.array [ascii "role:7"]), some .nil, true, some (.integer 1)⟩

/-- **A blank row is written and the player dequeued.**  The `GET` of the picked key gives nil,
and the iteration still sends the `REPLACE` and the `ZREMRANGEBYRANK`. -/
theorem not_iterationsSaveOnlyRead_missing :
    ¬ IterationsSaveOnlyRead parseThree .start [missing] := by
  intro h
  exact absurd (h.1 .zremrangebyrank (by decide) trivial).1 (by decide)

end GoFight.Data
