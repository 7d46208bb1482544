import GoFight.Data.ProcessRedisList
import Mathlib.Data.List.Induction

/-!
# Whose reply an iteration acts on

`response` of `process_redis_list` lives across the iterations.  `redis_cmd` leaves it as it was on
`NULL` and on an empty array, and puts the text of an error there, which only a processed key clears.

* `Loop.after` — the loop after some iterations;
* `response_after` — what is left in `response`: the text of an error, if that was the last reply;
* `ActsOnOwnReply` — the key of an iteration is the first element of its own array, and an iteration
  without one sends nothing else;
* `actsOnOwnReply_iff` — when all iterations do.
-/

namespace GoFight.Data

/-! ### The replies -/

/-- The reply holds no key: nothing in it, or nothing at all. -/
def HoldsNoKey (reply : Option Reply) : Prop :=
  match reply with
  | none => True
  | some .nil => True
  | some (.error _) => True
  | some (.array []) => True
  | some _ => False

/-- What a reply that is no array reads as, an error apart. -/
def Reply.text : Reply → Bytes
  | integer n => ascii (toString n)
  | string s => cstr s
  | status s => cstr s
  | _ => []

/-- What a reply leaves in `response` for the next iteration. -/
def Reply.remains : Reply → Bytes
  | error s => cstr s
  | other => ascii "Undefine Reply Type"
  | _ => []

/-- What earlier replies leave there: the last that is not `NULL` decides. -/
def remainder (before : List (Option Reply)) : Bytes :=
  match (before.filterMap id).getLast? with
  | some r => r.remains
  | none => []

theorem remainder_concat_none (before : List (Option Reply)) :
    remainder (before ++ [none]) = remainder before := by
  rw [remainder, List.filterMap_append, remainder]
  simp

theorem remainder_concat_some (before : List (Option Reply)) (r : Reply) :
    remainder (before ++ [some r]) = r.remains := by
  rw [remainder, List.filterMap_append]
  simp

/-- The reply, after those before it, is the only one its iteration acts on. -/
def StandsAlone (before : List (Option Reply)) (reply : Option Reply) : Prop :=
  match reply with
  | none => True
  | some (.array []) => remainder before = []
  | some (.array (e :: _)) => cstr e = e ∨ cstr e = []
  | some r => r.text = []

instance (before : List (Option Reply)) (reply : Option Reply) :
    Decidable (StandsAlone before reply) := by
  unfold StandsAlone
  split <;> infer_instance

section Machine

variable (parseRole : Bytes → Bool × Role)

/-- The loop after its iterations with these replies. -/
def Loop.after (l : Loop) (rs : List Replies) : Loop :=
  rs.foldl (fun l r => (l.iteration parseRole r).2) l

/-- The iteration asks only for the first element of its own array, and goes on to nothing where
its reply holds no key. -/
structure ActsOnOwnReply (l : Loop) (r : Replies) : Prop where
  key : ∀ key, Cmd.get key ∈ (l.iteration parseRole r).1 → ∃ es, r.zrange = some (.array (key :: es))
  nothing : HoldsNoKey r.zrange → (l.iteration parseRole r).1 = [.zrange]

/-! ### What stays in `response` -/

theorem after_concat (l : Loop) (rs : List Replies) (r : Replies) :
    l.after parseRole (rs ++ [r]) = ((l.after parseRole rs).iteration parseRole r).2 := by
  rw [Loop.after, List.foldl_append]
  rfl

theorem after_pc {l : Loop} (hl : l.pc = .zrange) (rs : List Replies) :
    (l.after parseRole rs).pc = .zrange := by
  induction rs generalizing l with
  | nil => exact hl
  | cons r rs ih => exact ih (iteration_pc parseRole r hl)

/-- A response that is not empty is taken for a key. -/
def keyOf (response : Bytes) : Option Bytes := if response = [] then none else some response

theorem keyOf_eq_none_iff {s : Bytes} : keyOf s = none ↔ s = [] := by
  simp [keyOf]

theorem keyOf_eq_some_iff {s key : Bytes} : keyOf s = some key ↔ s ≠ [] ∧ s = key := by
  simp [keyOf]

/-- Whether an iteration picks a key, and which. -/
theorem picked_eq (l : Loop) (r : Replies) :
    r.picked l =
      match r.zrange with
      | none => none
      | some (.error _) => none
      | some .other => none
      | some (.array []) => keyOf l.response
      | some (.array (e :: _)) => keyOf (cstr e)
      | some reply => keyOf reply.text := by
  unfold Replies.picked
  rcases r.zrange with _ | ⟨_ | _ | _ | _ | (_ | _) | _ | _⟩ <;> rfl

/-- One iteration: a key that was picked is cleared, whatever it came from. -/
theorem iteration_response {l : Loop} (r : Replies) (hl : l.pc = .zrange) :
    (l.iteration parseRole r).2.response =
      match r.zrange with
      | none => l.response
      | some reply => reply.remains := by
  have hpick := picked_eq l r
  cases hp : r.picked l with
  | none =>
    rw [iteration_not_picked parseRole hl hp]
    rw [hp, eq_comm] at hpick
    revert hpick
    rcases r.zrange with _ | ⟨_ | _ | _ | _ | (_ | _) | _ | _⟩ <;>
      simp [redisCmd, Reply.text, Reply.remains, keyOf_eq_none_iff]
  | some key =>
    rw [iteration_picked parseRole hl hp]
    rw [hp, eq_comm] at hpick
    revert hpick
    rcases r.zrange with _ | ⟨_ | _ | _ | _ | (_ | _) | _ | _⟩ <;> simp [Reply.remains]

/-- **What is left in `response`** is what the earlier replies leave there. -/
theorem response_after (rs : List Replies) :
    (Loop.start.after parseRole rs).response = remainder (rs.map (·.zrange)) := by
  induction rs using List.reverseRecOn with
  | nil => rfl
  | append_singleton rs r ih =>
    rw [after_concat, iteration_response parseRole r (after_pc parseRole rfl rs), List.map_append,
      List.map_singleton]
    cases r.zrange with
    | none => rw [remainder_concat_none, ← ih]
    | some reply => rw [remainder_concat_some]

/-! ### One iteration, and all of them -/

/-- **One iteration** acts on its own reply exactly when it picks no key, or the first element of its
array. -/
theorem actsOnOwnReply_iff_picked {l : Loop} {r : Replies} (hl : l.pc = .zrange) :
    ActsOnOwnReply parseRole l r ↔
      ∀ key, r.picked l = some key → ∃ es, r.zrange = some (.array (cstr key :: es)) := by
  cases hp : r.picked l with
  | none =>
    have hrun := iteration_not_picked parseRole hl hp
    refine ⟨fun _ => nofun, fun _ => ⟨?_, ?_⟩⟩
    · intro key hkey
      rw [hrun, List.mem_singleton] at hkey
      cases hkey
    · intro _
      rw [hrun]
  | some key =>
    have hrun := iteration_picked parseRole hl hp
    constructor
    · rintro ⟨hkey, -⟩ _ ⟨⟩
      apply hkey
      rw [hrun]
      simp
    · intro h
      obtain ⟨es, hes⟩ := h key rfl
      refine ⟨?_, ?_⟩
      · intro key' hkey'
        rw [hrun] at hkey'
        have heq : key' = cstr key := by
          cases r.exe <;> simpa using hkey'
        exact ⟨es, heq ▸ hes⟩
      · intro hno
        rw [hes] at hno
        exact hno.elim

theorem cstr_cstr (s : Bytes) : cstr (cstr s) = cstr s := cstr_eq_self (zero_not_mem_cstr s)

/-- The key that is picked is the first element of the array, if the reply stands alone. -/
theorem picked_first_iff {l : Loop} {r : Replies} {before : List (Option Reply)}
    (hl : l.response = remainder before) :
    (∀ key, r.picked l = some key → ∃ es, r.zrange = some (.array (cstr key :: es))) ↔
      StandsAlone before r.zrange := by
  rw [picked_eq]
  unfold StandsAlone
  rcases r.zrange with _ | ⟨_ | _ | _ | _ | (_ | ⟨e, es⟩) | _ | _⟩ <;>
    simp only [keyOf_eq_some_iff, Option.some.injEq, Reply.array.injEq, reduceCtorEq, exists_false,
      imp_false, not_and_or, not_not, hl, Reply.text]
  case some.array.cons =>
    constructor
    · intro h
      rw [or_iff_not_imp_right]
      intro hne
      obtain ⟨es', hes⟩ := h (cstr e) ⟨hne, rfl⟩
      rw [List.cons.injEq, cstr_cstr] at hes
      exact hes.1.symm
    · rintro (he | he) key ⟨hne, rfl⟩
      · exact ⟨es, by rw [he, he]⟩
      · exact absurd he hne
  all_goals simp [forall_or_left]

/-- **The iterations act on their own replies, exactly.**  For every sequence of server replies, each
iteration does so if and only if each `ZRANGE` reply, after those before it, stands alone: the first
element of an array has no NUL, another reply with a value has an empty text, and an empty array does
not come when the last reply that was not `NULL` is an error with a text. -/
theorem actsOnOwnReply_iff (rs : List Replies) :
    (∀ pre r post, rs = pre ++ r :: post →
        ActsOnOwnReply parseRole (Loop.start.after parseRole pre) r) ↔
      ∀ pre r post, rs = pre ++ r :: post → StandsAlone (pre.map (·.zrange)) r.zrange := by
  have hone : ∀ pre r, ActsOnOwnReply parseRole (Loop.start.after parseRole pre) r ↔
      StandsAlone (pre.map (·.zrange)) r.zrange := by
    intro pre r
    rw [actsOnOwnReply_iff_picked parseRole (after_pc parseRole rfl pre)]
    exact picked_first_iff (response_after parseRole pre)
  simp only [hone]

end Machine

/-- A reply to `ZRANGE`, in an iteration whose statement succeeds. -/
def zrangeOnly (reply : Option Reply) : Replies := ⟨reply, some .nil, true, some (.integer 1)⟩

/-- **The text of an error is saved as a role.**  The second iteration gets an empty array, asks for
the key `ERR`, writes a row and dequeues. -/
theorem not_actsOnOwnReply_error :
    ¬ ActsOnOwnReply parseThree (Loop.start.after parseThree [zrangeOnly (some (.error (ascii "ERR")))])
      (zrangeOnly (some (.array []))) := by
  intro h
  have hnothing := h.nothing trivial
  revert hnothing
  decide

end GoFight.Data
