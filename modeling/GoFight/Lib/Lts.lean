import Mathlib.Tactic.Common

/-!
# Labelled transition systems and conditional reachability

A system is a set of start states and a partial step function: a label that cannot happen in a
state has no successor.  The one notion of run used throughout is

* `Lts.Reach C s` — `s` is reached by a run whose every step `(state, label)` meets `C`.

With `C := fun _ _ => True` these are the reachable states; a proper `C` says what the environment
is assumed to do, step by step.  `Reach.invariant` packages the induction, once: a property of the
start states that every permitted step preserves holds wherever a permitted run goes.
`exec` runs a list of labels, so that a concrete run is evaluated instead of built by hand.
`Reach.simulate` carries runs over to a system that does the same with less detail.
`withHistory` adds a history variable, for what a state does not say about the past.
-/

namespace GoFight.Lib

/-- A labelled transition system with a partial step function. -/
structure Lts (σ α : Type*) where
  /-- The start states. -/
  init : σ → Prop
  /-- The successor under a label, when the label can happen. -/
  step : σ → α → Option σ

namespace Lts

variable {σ α : Type*} (L : Lts σ α)

/-- The states reached by runs whose steps all meet `C`. -/
inductive Reach (C : σ → α → Prop) : σ → Prop
  | start {s : σ} : L.init s → Reach C s
  | next {s s' : σ} {a : α} : Reach C s → C s a → L.step s a = some s' → Reach C s'

/-- Any step is permitted. -/
def Free : σ → α → Prop := fun _ _ => True

variable {L}

/-- **The invariant rule.** -/
theorem Reach.invariant {C : σ → α → Prop} {P : σ → Prop} {s : σ} (h : L.Reach C s)
    (hinit : ∀ s, L.init s → P s)
    (hstep : ∀ s a s', P s → C s a → L.step s a = some s' → P s') : P s := by
  induction h with
  | start h₀ => exact hinit _ h₀
  | next _ hc hs ih => exact hstep _ _ _ ih hc hs

/-- The invariant rule, where a step may use what is known of every state reached. -/
theorem Reach.invariant_of {C : σ → α → Prop} {P : σ → Prop} {s : σ} (h : L.Reach C s)
    (hinit : ∀ s, L.init s → P s)
    (hstep : ∀ s a s', L.Reach C s → P s → C s a → L.step s a = some s' → P s') : P s := by
  induction h with
  | start h₀ => exact hinit _ h₀
  | next hr hc hs ih => exact hstep _ _ _ hr ih hc hs

/-- Weakening the condition on steps keeps a run. -/
theorem Reach.mono {C D : σ → α → Prop} (hCD : ∀ s a, C s a → D s a) {s : σ} (h : L.Reach C s) :
    L.Reach D s := by
  induction h with
  | start h₀ => exact .start h₀
  | next _ hc hs ih => exact .next ih (hCD _ _ hc) hs

variable (L)

/-- Run a list of labels. -/
def exec (s : σ) : List α → Option σ
  | [] => some s
  | a :: as => (L.step s a).bind fun s' => exec s' as

/-- Every step of the run of `as` from `s` meets `C`. -/
def AllSteps (C : σ → α → Prop) (s : σ) : List α → Prop
  | [] => True
  | a :: as => C s a ∧ ∀ s' ∈ L.step s a, AllSteps C s' as

instance decidableAllSteps {C : σ → α → Prop} [∀ s a, Decidable (C s a)] :
    ∀ s as, Decidable (L.AllSteps C s as)
  | _, [] => isTrue trivial
  | s, a :: as =>
      have : Decidable (∀ s' ∈ L.step s a, L.AllSteps C s' as) :=
        match L.step s a with
        | none => isTrue (by simp)
        | some s' =>
            have : Decidable (L.AllSteps C s' as) := decidableAllSteps s' as
            decidable_of_iff (L.AllSteps C s' as) (by simp)
      inferInstanceAs (Decidable (C s a ∧ _))

variable {L}

/-- Some run leads from the one state to the other. -/
def Runs (L : Lts σ α) (s t : σ) : Prop := ∃ as, L.exec s as = some t

namespace Runs

theorem refl (s : σ) : L.Runs s s := ⟨[], rfl⟩

theorem head {s s' t : σ} {a : α} (h : L.step s a = some s') (h' : L.Runs s' t) : L.Runs s t := by
  obtain ⟨as, has⟩ := h'
  refine ⟨a :: as, ?_⟩
  rw [exec, h]
  exact has

theorem one {s s' : σ} {a : α} (h : L.step s a = some s') : L.Runs s s' := head h (.refl s')

theorem trans {s t u : σ} (h : L.Runs s t) (h' : L.Runs t u) : L.Runs s u := by
  obtain ⟨as, has⟩ := h
  induction as generalizing s with
  | nil =>
    rw [exec, Option.some.injEq] at has
    rw [has]
    exact h'
  | cons a as ih =>
    obtain ⟨s', hs', has⟩ := Option.bind_eq_some_iff.mp has
    exact head hs' (ih has)

end Runs

/-- A permitted run that was evaluated. -/
theorem Reach.of_exec {C : σ → α → Prop} {as : List α} :
    ∀ {s s' : σ}, L.Reach C s → L.AllSteps C s as → L.exec s as = some s' → L.Reach C s' := by
  induction as with
  | nil =>
    intro s s' h _ he
    rw [exec, Option.some.injEq] at he
    exact he ▸ h
  | cons a as ih =>
    intro s s' h hc he
    obtain ⟨t, ht, he'⟩ := Option.bind_eq_some_iff.mp he
    exact ih (.next h hc.1 ht) (hc.2 t ht) he'

/-- **Two conditions on steps that say the same** of the states with an invariant, which permitted
steps keep: the same runs meet them. -/
theorem allSteps_congr {C D : σ → α → Prop} {I : σ → Prop} {s : σ} (h : I s)
    (hiff : ∀ s a, I s → (C s a ↔ D s a))
    (hkeep : ∀ s a s', I s → C s a → L.step s a = some s' → I s') (as : List α) :
    L.AllSteps C s as ↔ L.AllSteps D s as := by
  induction as generalizing s with
  | nil => exact Iff.rfl
  | cons a as ih =>
    constructor
    · rintro ⟨hc, hrest⟩
      exact ⟨(hiff s a h).mp hc, fun s' hs => (ih (hkeep s a s' h hc hs)).mp (hrest s' hs)⟩
    · rintro ⟨hd, hrest⟩
      have hc := (hiff s a h).mpr hd
      exact ⟨hc, fun s' hs => (ih (hkeep s a s' h hc hs)).mpr (hrest s' hs)⟩

theorem allSteps_free (s : σ) (as : List α) : L.AllSteps Free s as := by
  induction as generalizing s with
  | nil => trivial
  | cons a as ih => exact ⟨trivial, fun s' _ => ih s'⟩

/-! ### Simulation -/

/-- **The simulation rule.**  Where every step is a run of another system, as seen through `f`, every
run is a run of that system. -/
theorem Reach.simulate_runs {τ β : Type*} {M : Lts τ β} {C : σ → α → Prop} (f : σ → τ) {s : σ}
    (h : L.Reach C s) (hinit : ∀ s, L.init s → M.init (f s))
    (hstep : ∀ s a s', C s a → L.step s a = some s' → M.Runs (f s) (f s')) :
    M.Reach Free (f s) := by
  induction h with
  | start h₀ => exact .start (hinit _ h₀)
  | next _ hc hs ih =>
    obtain ⟨bs, hbs⟩ := hstep _ _ _ hc hs
    exact ih.of_exec (allSteps_free _ bs) hbs

/-- The simulation rule where every step is one step or no step of the other system. -/
theorem Reach.simulate {τ β : Type*} {M : Lts τ β} {C : σ → α → Prop} (f : σ → τ) {s : σ}
    (h : L.Reach C s) (hinit : ∀ s, L.init s → M.init (f s))
    (hstep : ∀ s a s', C s a → L.step s a = some s' →
      f s' = f s ∨ ∃ b, M.step (f s) b = some (f s')) : M.Reach Free (f s) := by
  apply h.simulate_runs f hinit
  intro s a s' hc hs
  rcases hstep s a s' hc hs with heq | ⟨b, hb⟩
  · rw [heq]
    exact .refl _
  · exact .one hb

/-! ### History variables -/

section History

variable {η : Type*}

/-- The system with a history variable: every step updates it, and none reads it. -/
def withHistory (L : Lts σ α) (h₀ : η) (upd : σ → α → σ → η → η) : Lts (σ × η) α where
  init p := L.init p.1 ∧ p.2 = h₀
  step p a := (L.step p.1 a).map fun s' => (s', upd p.1 a s' p.2)

/-- Without its history a run is a run of the system. -/
theorem Reach.forget {h₀ : η} {upd : σ → α → σ → η → η} {C : σ × η → α → Prop} {p : σ × η}
    (h : (L.withHistory h₀ upd).Reach C p) : L.Reach Free p.1 := by
  induction h with
  | start hp => exact .start hp.1
  | next _ _ hs ih =>
    obtain ⟨s', hs', rfl⟩ := Option.map_eq_some_iff.mp hs
    exact .next ih trivial hs'

end History

end Lts

end GoFight.Lib
