import GoFight.Data.WriteBehind

/-!
# A write-behind loop that is left alone

While the loop works on a key, the other clients neither put an entry in front of it nor change what
it holds: then each command of the loop finds what the one before it found.

* `Undisturbed` — the condition on a step;
* `Inv` — what holds at each command, `inv_step` — every such step keeps it;
* `removesSaved_of_undisturbed` — so nothing is dequeued unsaved.
-/

namespace GoFight.Data

variable {S : Type*}

section Invariant

variable (parseRole : Bytes → Bool × Role)

/-- What holds at each command of an undisturbed run. -/
def Inv (w : World S) : Prop :=
  match w.loop.pc with
  | .zrange => w.loop.response = []
  | .get => (0 : UInt8) ∉ w.loop.response ∧ firstMember w.roleSets = some w.loop.response
  | .replace role => w.Holds parseRole role
  | .zrem role => w.Holds parseRole role ∧ w.mysql role.id = some role

theorem Inv.removesSaved {w : World S} (h : Inv parseRole w) : RemovesSaved parseRole w := by
  intro role hpc member hm
  simp only [Inv, hpc] at h
  obtain ⟨⟨hfirst, value, hv, hp⟩, hdb⟩ := h
  rw [hfirst, Option.some.injEq] at hm
  subst hm
  exact ⟨rfl, value, hv, hp, hdb⟩

end Invariant

section System

variable [LinearOrder S] (parseRole : Bytes → Bool × Role) (exec : Bytes → Option Role)

/-- A step that leaves the key in work alone: the loop picks a key without NUL bytes, finds a value
that parses, and its statement fails or saves what it says; while the loop works on a key, no other
client puts an entry in front of it, and once its value is read, no other client gives it one that
parses to something else. -/
def Undisturbed (w : World S) : Act S → Prop
  | .loop =>
      match w.loop.pc with
      | .zrange => ∀ member ∈ firstMember w.roleSets, (0 : UInt8) ∉ member
      | .get => ReadRole parseRole (some w.getReply)
      | .replace role => ∀ row ∈ exec (sqlText role), row = role
      | .zrem _ => True
  | .set key value =>
      match w.loop.pc with
      | .replace role => key = w.loop.response → parseRole value = (true, role)
      | .zrem role => key = w.loop.response → parseRole value = (true, role)
      | _ => True
  | .zadd score member =>
      w.loop.pc ≠ .zrange →
        firstMember (zadd score member w.roleSets) = firstMember w.roleSets

instance (w : World S) : ∀ a : Act S, Decidable (Undisturbed parseRole exec w a)
  | .loop => by
      unfold Undisturbed
      generalize w.loop.pc = pc
      rcases pc with _ | _ | _ | _ <;> infer_instance
  | .set key value => by
      unfold Undisturbed
      generalize w.loop.pc = pc
      rcases pc with _ | _ | _ | _ <;> infer_instance
  | .zadd score member => by
      unfold Undisturbed
      infer_instance

/-! ### The loop's own steps -/

theorem inv_zrange {w : World S} (hpc : w.loop.pc = .zrange) (h : Inv parseRole w)
    (hc : Undisturbed parseRole exec w .loop) : Inv parseRole (w.serve parseRole exec) := by
  simp only [Inv, hpc] at h
  simp only [Undisturbed, hpc] at hc
  rcases hz : w.roleSets with _ | ⟨e, z⟩
  · simp [World.serve, hpc, hz, Inv, Loop.resume, Answer.redis, redisCmd, h]
  · have hnul : cstr e.2 = e.2 := cstr_eq_self (hc e.2 (by rw [firstMember, hz]; rfl))
    by_cases he : e.2 = []
    · rw [he] at hnul
      simp [World.serve, hpc, hz, Inv, Loop.resume, Answer.redis, redisCmd, hnul, he]
    · have h0 := hc e.2 (by rw [firstMember, hz]; rfl)
      simp [World.serve, hpc, hz, Inv, Loop.resume, Answer.redis, redisCmd, hnul, he, h0,
        firstMember]

theorem inv_get {w : World S} (hpc : w.loop.pc = .get) (h : Inv parseRole w)
    (hc : Undisturbed parseRole exec w .loop) : Inv parseRole (w.serve parseRole exec) := by
  simp only [Inv, hpc] at h
  simp only [Undisturbed, hpc] at hc
  obtain ⟨hnul, hfirst⟩ := h
  obtain ⟨value, hpay, hok⟩ := hc
  have hkv : w.kv w.loop.response = some value := by
    rw [World.getReply, cstr_eq_self hnul] at hpay
    cases hv : w.kv w.loop.response with
    | none => simp [hv, getPayload] at hpay
    | some v => simpa [hv, getPayload] using hpay
  have hgd : (redisGetData parseRole (some w.getReply) .blank).2 = (parseRole value).2 := by
    rw [redisGetData, hpay]
  have hres := Loop.resume_get parseRole (.reply (some w.getReply)) hpc
  rw [Answer.redis, hgd] at hres
  simp only [World.serve, hpc, hres, Inv, World.Holds]
  exact ⟨hfirst, value, hkv, Prod.ext hok rfl⟩

theorem inv_replace {w : World S} {role : Role} (hpc : w.loop.pc = .replace role)
    (h : Inv parseRole w) (hc : Undisturbed parseRole exec w .loop) :
    Inv parseRole (w.serve parseRole exec) := by
  simp only [Inv, hpc] at h
  simp only [Undisturbed, hpc] at hc
  cases hx : exec (sqlText role) with
  | none => simp [World.serve, hpc, hx, Inv, Loop.resume, Answer.mysql]
  | some row =>
    have hrow : row = role := hc row hx
    subst hrow
    simp only [World.serve, hpc, hx, Inv, Loop.resume, Answer.mysql, if_true]
    exact ⟨h, Function.update_self ..⟩

theorem inv_serve {w : World S} (h : Inv parseRole w)
    (hc : Undisturbed parseRole exec w .loop) : Inv parseRole (w.serve parseRole exec) := by
  cases hpc : w.loop.pc with
  | zrange => exact inv_zrange parseRole exec hpc h hc
  | get => exact inv_get parseRole exec hpc h hc
  | replace role => exact inv_replace parseRole exec hpc h hc
  | zrem role => simp [World.serve, hpc, Inv, Loop.resume]

/-! ### The steps of other clients -/

theorem inv_set {w : World S} {key value : Bytes} (h : Inv parseRole w)
    (hc : Undisturbed parseRole exec w (.set key value)) :
    Inv parseRole (w.step parseRole exec (.set key value)) := by
  cases hpc : w.loop.pc with
  | zrange => simpa [World.step, Inv, hpc] using h
  | get => simpa [World.step, Inv, hpc] using h
  | replace role =>
    simp only [Inv, hpc] at h
    simp only [Undisturbed, hpc] at hc
    simp only [World.step, Inv, hpc]
    exact (h.set_iff parseRole).mpr hc
  | zrem role =>
    simp only [Inv, hpc] at h
    simp only [Undisturbed, hpc] at hc
    simp only [World.step, Inv, hpc]
    exact ⟨(h.1.set_iff parseRole).mpr hc, h.2⟩

theorem inv_zadd {w : World S} {score : S} {member : Bytes} (h : Inv parseRole w)
    (hc : Undisturbed parseRole exec w (.zadd score member)) :
    Inv parseRole (w.step parseRole exec (.zadd score member)) := by
  cases hpc : w.loop.pc with
  | zrange => simpa [World.step, Inv, hpc] using h
  | get | replace role | zrem role =>
    have hfirst := hc (by simp [hpc])
    simpa [World.step, Inv, World.Holds, hpc, hfirst] using h

/-! ### Runs -/

theorem inv_step {w : World S} (a : Act S) (h : Inv parseRole w)
    (hc : Undisturbed parseRole exec w a) : Inv parseRole (w.step parseRole exec a) := by
  cases a with
  | loop => exact inv_serve parseRole exec h hc
  | set key value => exact inv_set parseRole exec h hc
  | zadd score member => exact inv_zadd parseRole exec h hc

/-- **An undisturbed run loses no update.**  In every state that undisturbed steps reach, from any
contents of Redis and MySQL, a member the loop is about to remove is the key it saved, and MySQL
holds the value that is stored under it. -/
theorem removesSaved_of_undisturbed {w : World S}
    (h : (writeBehind parseRole exec).Reach (Undisturbed parseRole exec) w) :
    RemovesSaved parseRole w := by
  refine Inv.removesSaved parseRole (h.invariant ?_ ?_)
  · intro w hw
    have hw : w.loop = .start := hw
    simp [Inv, hw, Loop.start]
  · intro w a w' hinv hc hs
    obtain rfl := Option.some.inj hs
    exact inv_step parseRole exec a hinv hc

end System

end GoFight.Data
