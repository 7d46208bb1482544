import Mathlib.Data.List.Perm.Basic
import Mathlib.Data.List.Nodup

/-!
# Things in places

A resource is in at most one place at a time, and each place keeps a list of what it holds.

* `Placed` — the lists agree with where things are, and hold nothing twice;
* `Complete` — a place that holds everything that is there;
* `Moves` — one thing goes from its place to another, or comes, or goes for good;
* `Placed.move`, `Complete.move` — both survive a move;
* `Custody` — the same without a map of places: everything made is in one place, and there once;
* `Custody.scatter`, `Custody.make` — things leave a place for others, or come.

Distinct places hold disjoint lists (`Placed.disjoint`), because a thing has one place.
-/

namespace GoFight.Lib

variable {X P : Type*}

/-- The lists of the places agree with the places of the things. -/
structure Placed (place : X → Option P) (holds : P → List X) : Prop where
  mem : ∀ {p x}, x ∈ holds p → place x = some p
  nodup : ∀ p, (holds p).Nodup

/-- `p` holds everything that is there. -/
def Complete (place : X → Option P) (holds : P → List X) (p : P) : Prop :=
  ∀ x, place x = some p → x ∈ holds p

/-- `x` goes from `p` to `q`; `none` is no place at all. -/
structure Moves [DecidableEq X] (place place' : X → Option P) (holds holds' : P → List X) (x : X)
    (p q : Option P) : Prop where
  before : place x = p
  place : ∀ y, place' y = if y = x then q else place y
  rest : ∀ r, some r ≠ p → some r ≠ q → holds' r = holds r
  source : ∀ r, some r = p → (x :: holds' r).Perm (holds r)
  target : ∀ r, some r = q → (holds' r).Perm (x :: holds r)

variable {place place' : X → Option P} {holds holds' : P → List X} {p q : Option P} {x : X}

/-- Different places share nothing. -/
theorem Placed.disjoint (h : Placed place holds) {r r' : P} (hne : r ≠ r') :
    (holds r).Disjoint (holds r') := by
  intro y hy hy'
  exact hne (Option.some.inj ((h.mem hy).symm.trans (h.mem hy')))

variable [DecidableEq X]

theorem Moves.not_mem (m : Moves place place' holds holds' x p q) (h : Placed place holds) {r : P}
    (hr : some r ≠ p) : x ∉ holds r := by
  intro hmem
  exact hr ((h.mem hmem).symm.trans m.before)

/-- **A move keeps the lists in agreement.** -/
theorem Placed.move (h : Placed place holds) (m : Moves place place' holds holds' x p q) :
    Placed place' holds' := by
  constructor
  · intro r y hy
    rw [m.place]
    by_cases hp : some r = p
    · -- the source has lost `x`
      have hperm := m.source r hp
      have hnd := hperm.nodup_iff.mpr (h.nodup r)
      have hne : y ≠ x := fun hyx => (List.nodup_cons.mp hnd).1 (hyx ▸ hy)
      rw [if_neg hne]
      exact h.mem (hperm.subset (List.mem_cons_of_mem x hy))
    · by_cases hq : some r = q
      · rcases List.mem_cons.mp ((m.target r hq).subset hy) with hyx | hy
        · rw [if_pos hyx, hq]
        · rw [if_neg fun hyx : y = x => m.not_mem h hp (hyx ▸ hy)]
          exact h.mem hy
      · rw [m.rest r hp hq] at hy
        rw [if_neg fun hyx : y = x => m.not_mem h hp (hyx ▸ hy)]
        exact h.mem hy
  · intro r
    by_cases hp : some r = p
    · exact (List.nodup_cons.mp ((m.source r hp).nodup_iff.mpr (h.nodup r))).2
    · by_cases hq : some r = q
      · exact (m.target r hq).nodup_iff.mpr (List.nodup_cons.mpr ⟨m.not_mem h hp, h.nodup r⟩)
      · rw [m.rest r hp hq]
        exact h.nodup r

/-- A move keeps a place complete. -/
theorem Complete.move {r : P} (h : Complete place holds r)
    (m : Moves place place' holds holds' x p q) : Complete place' holds' r := by
  intro y hy
  rw [m.place] at hy
  by_cases hyx : y = x
  · rw [if_pos hyx] at hy
    exact (m.target r hy.symm).symm.subset (hyx ▸ List.mem_cons_self)
  · rw [if_neg hyx] at hy
    have hold : y ∈ holds r := h y hy
    by_cases hp : some r = p
    · exact (List.mem_cons.mp ((m.source r hp).symm.subset hold)).resolve_left hyx
    · by_cases hq : some r = q
      · exact (m.target r hq).symm.subset (List.mem_cons_of_mem x hold)
      · rw [m.rest r hp hq]
        exact hold

/-! ### Custody -/

section Custody

variable {X P Y : Type*} [DecidableEq X] {holds holds' : P → List X} {made made' : X → Prop}
  {p q : P} {x : X} {key : Y → X} {ys : List Y}

/-- Everything that was made is in one place, and there once; nothing else is anywhere. -/
structure Custody (holds : P → List X) (made : X → Prop) : Prop where
  one : ∀ x, made x → ∃ p, (holds p).count x = 1 ∧ ∀ q, q ≠ p → x ∉ holds q
  only : ∀ p, ∀ x ∈ holds p, made x

/-- A place that has a thing is its place. -/
theorem Custody.here (h : Custody holds made) (hx : x ∈ holds p) :
    (holds p).count x = 1 ∧ ∀ q, q ≠ p → x ∉ holds q := by
  obtain ⟨p₀, hone, hother⟩ := h.one x (h.only p x hx)
  by_cases hp : p = p₀
  · exact hp ▸ ⟨hone, hother⟩
  · exact absurd hx (hother p hp)

theorem Custody.congr (h : Custody holds made) (hholds : ∀ p, holds' p = holds p)
    (hmade : ∀ x, made' x ↔ made x) : Custody holds' made' := by
  have heq : holds' = holds := funext hholds
  refine ⟨fun x hx => ?_, fun p x hx => ?_⟩
  · rw [heq]
    exact h.one x ((hmade x).mp hx)
  · exact (hmade x).mpr (h.only p x (heq ▸ hx))

/-- A list with one entry under the key `x`, cut down by a test on the entries. -/
theorem count_map_filter {y : Y} (hone : (ys.map key).count x = 1) (hy : y ∈ ys) (hx : key y = x)
    (f : Y → Bool) : ((ys.filter f).map key).count x = if f y then 1 else 0 := by
  have hcount : ∀ l : List Y, (l.map key).count x = (l.filter fun z => key z == x).length := by
    intro l
    rw [List.count_eq_countP, List.countP_map, List.countP_eq_length_filter]
    rfl
  rw [hcount] at hone ⊢
  obtain ⟨z, hz⟩ := List.length_eq_one_iff.mp hone
  have hyz : y = z := by
    have hmem : y ∈ ys.filter fun z => key z == x := List.mem_filter.mpr ⟨hy, by simpa using hx⟩
    rw [hz] at hmem
    exact List.mem_singleton.mp hmem
  rw [List.filter_comm, hz, ← hyz, List.filter_singleton]
  cases f y <;> rfl

/-- **Things leave a place**, each for the place `dest` says. -/
theorem Custody.scatter [DecidableEq P] (h : Custody holds made) (dest : Y → P)
    (hp : holds p = ys.map key ++ holds' p)
    (hq : ∀ q, q ≠ p → holds' q = holds q ++ (ys.filter fun y => dest y = q).map key)
    (hdest : ∀ y ∈ ys, dest y ≠ p) : Custody holds' made := by
  have hpart : ∀ {q y}, y ∈ ys.filter (fun y => dest y = q) → y ∈ ys :=
    fun hy => (List.mem_filter.mp hy).1
  refine ⟨fun x hx => ?_, fun r x hx => ?_⟩
  · obtain ⟨p₀, hone, hother⟩ := h.one x hx
    by_cases hmem : x ∈ ys.map key
    · -- it leaves `p`
      obtain ⟨y, hy, hkey⟩ := List.mem_map.mp hmem
      have hxp : x ∈ holds p := by
        rw [hp]
        exact List.mem_append_left _ hmem
      obtain ⟨hone', hother'⟩ := h.here hxp
      have hpos : 0 < (ys.map key).count x := List.count_pos_iff.mpr hmem
      rw [hp, List.count_append] at hone'
      have hys : (ys.map key).count x = 1 := by omega
      have hgone : x ∉ holds' p := by
        intro hin
        have hin' := List.count_pos_iff.mpr hin
        omega
      have hcount : ∀ r, r ≠ p → (holds' r).count x = if dest y = r then 1 else 0 := by
        intro r hr
        rw [hq r hr, List.count_append, List.count_eq_zero.mpr (hother' r hr),
          count_map_filter hys hy hkey]
        simp
      refine ⟨dest y, ?_, fun r hr => ?_⟩
      · rw [hcount _ (hdest y hy), if_pos rfl]
      · by_cases hrp : r = p
        · exact hrp ▸ hgone
        · have hzero := hcount r hrp
          rw [if_neg fun heq => hr heq.symm] at hzero
          exact List.count_eq_zero.mp hzero
    · have hnot : ∀ r, x ∉ (ys.filter fun y => dest y = r).map key := by
        intro r hin
        obtain ⟨y, hy, hkey⟩ := List.mem_map.mp hin
        exact hmem (hkey ▸ List.mem_map_of_mem (hpart hy))
      have hsame : ∀ r, (holds' r).count x = (holds r).count x := by
        intro r
        by_cases hr : r = p
        · rw [hr, hp, List.count_append, List.count_eq_zero.mpr hmem, Nat.zero_add]
        · rw [hq r hr, List.count_append, List.count_eq_zero.mpr (hnot r), Nat.add_zero]
      refine ⟨p₀, (hsame p₀).trans hone, fun r hr => ?_⟩
      exact List.count_eq_zero.mp ((hsame r).trans (List.count_eq_zero.mpr (hother r hr)))
  · by_cases hr : r = p
    · refine h.only p x ?_
      rw [hp]
      exact List.mem_append_right _ (hr ▸ hx)
    · rw [hq r hr] at hx
      rcases List.mem_append.mp hx with hx | hx
      · exact h.only r x hx
      · obtain ⟨y, hy, rfl⟩ := List.mem_map.mp hx
        refine h.only p _ ?_
        rw [hp]
        exact List.mem_append_left _ (List.mem_map_of_mem (hpart hy))

/-- **New things come**, to one place. -/
theorem Custody.make {xs : List X} (h : Custody holds made) (hq : holds' q = holds q ++ xs)
    (hrest : ∀ r, r ≠ q → holds' r = holds r) (hnodup : xs.Nodup) (hnew : ∀ x ∈ xs, ¬ made x)
    (hmade : ∀ x, made' x ↔ made x ∨ x ∈ xs) : Custody holds' made' := by
  have hin : ∀ {r x}, x ∈ holds' r → x ∈ holds r ∨ r = q ∧ x ∈ xs := by
    intro r x hx
    by_cases hr : r = q
    · rw [hr, hq] at hx
      exact (List.mem_append.mp hx).imp (fun h => hr ▸ h) fun h => ⟨hr, h⟩
    · exact .inl (hrest r hr ▸ hx)
  refine ⟨fun x hx => ?_, fun r x hx => ?_⟩
  · rcases (hmade x).mp hx with hold | hxs
    · obtain ⟨p₀, hone, hother⟩ := h.one x hold
      have hx' : x ∉ xs := fun hmem => hnew x hmem hold
      refine ⟨p₀, ?_, fun r hr hmem => ?_⟩
      · by_cases hp : p₀ = q
        · rw [hp, hq, List.count_append, List.count_eq_zero.mpr hx', Nat.add_zero, ← hp]
          exact hone
        · rw [hrest p₀ hp]
          exact hone
      · rcases hin hmem with hmem | ⟨-, hmem⟩
        · exact hother r hr hmem
        · exact hx' hmem
    · have hnot : ∀ r, x ∉ holds r := fun r hmem => hnew x hxs (h.only r x hmem)
      refine ⟨q, ?_, fun r hr hmem => ?_⟩
      · rw [hq, List.count_append, List.count_eq_zero.mpr (hnot q), Nat.zero_add]
        exact List.count_eq_one_of_mem hnodup hxs
      · rcases hin hmem with hmem | ⟨heq, -⟩
        · exact hnot r hmem
        · exact hr heq
  · rcases hin hx with hmem | ⟨-, hmem⟩
    · exact (hmade x).mpr (.inl (h.only r x hmem))
    · exact (hmade x).mpr (.inr hmem)

end Custody

end GoFight.Lib
