import GoFight.Link.Steps
import GoFight.Net.Fate

/-!
# The gate's link to the game server

`s_game_conn` is 0, or points to a `Connection`; where it is 0, a thread is in `connect_to_gs` to
change that.  Four branches of the code break this:

* `net_connect` returns -1, which `connect_to_gs` takes for a connection;
* a game server hangs up when no thread is in `connect_to_gs`, and `logic_update` starts none;
* the object of a failed connect is deleted while `s_game_conn` is its address;
* `pthread_create` fails in `connect_gs`.

`KeepsLink` says of a step that it takes none of them, and `linked_of_reach` that a gate all whose
steps are such has a link, or a thread that connects it.
-/

namespace GoFight.Link

open GoFight.Lib GoFight.Net

variable {Cls Msg : Type*}

instance (pc : LogicPc Msg) : Decidable (pc = .init) :=
  match pc with
  | .init => isTrue rfl
  | .idle | .fetch _ | .handle | .reset _ | .toGs _ | .send _ | .push _ _ => isFalse nofun

namespace Server

/-- `s_game_conn` points to an object, or a thread is in `connect_to_gs`. -/
def Linked (sv : Server Cls Msg) : Prop :=
  (sv.net.heap sv.upstream).isSome ∨ (sv.upstream = 0 ∧ sv.threads ≠ [])

/-- The step takes none of the four branches. -/
def KeepsLink (sv : Server Cls Msg) : Move → Prop
  | .connect i r => sv.threads[i]? = some .connect → r ≠ .broken
  | .worker w e =>
      ∀ a ∈ sv.net.deletes (.worker w e), sv.upstream ≠ a ∧ .store a ∉ sv.threads
  | .logic created _ =>
      match sv.logic with
      | .init => created = true
      | .reset _ => sv.threads ≠ []
      | _ => True
  | _ => True

instance (sv : Server Cls Msg) (m : Move) : Decidable (sv.KeepsLink m) :=
  match m with
  | .connect i r => inferInstanceAs (Decidable (sv.threads[i]? = some .connect → r ≠ .broken))
  | .worker _ _ => Option.decidableForallMem _
  | .logic created _ =>
      show Decidable (match sv.logic with
        | .init => created = true
        | .reset _ => sv.threads ≠ []
        | _ => True) from
      match sv.logic with
      | .init => inferInstanceAs (Decidable (created = true))
      | .reset _ => inferInstanceAs (Decidable (sv.threads ≠ []))
      | .idle | .fetch _ | .handle | .toGs _ | .send _ | .push _ _ => isTrue trivial
  | .accept _ | .clock _ | .callback _ _ _ => isTrue trivial

/-- 0, or the address of an object. -/
def Valid (sv : Server Cls Msg) (v : Addr) : Prop := v = 0 ∨ (sv.net.heap v).isSome

/-- The link invariant. -/
structure Upheld (sv : Server Cls Msg) : Prop where
  upstream : sv.Valid sv.upstream
  pending : ∀ v, .store v ∈ sv.threads → sv.Valid v
  running : sv.logic ≠ .init → sv.upstream = 0 → sv.threads ≠ []

theorem Upheld.linked {sv : Server Cls Msg} (h : sv.Upheld) (hl : sv.logic ≠ .init) : sv.Linked := by
  rcases h.upstream with h₀ | hsome
  · exact .inr ⟨h₀, h.running hl h₀⟩
  · exact .inl hsome

variable {G : Generated Cls Msg} {sv sv' : Server Cls Msg}

/-! ### What the updates keep -/

/-- A step of the net layer that deletes no object in use. -/
theorem Upheld.setNet (h : sv.Upheld) {a : Act Cls Msg} {net : Layer Cls Msg}
    (hs : sv.net.step G a = some net)
    (hd : ∀ b ∈ sv.net.deletes a, sv.upstream ≠ b ∧ .store b ∉ sv.threads) :
    (sv.setNet net).Upheld := by
  have hvalid : ∀ v, sv.Valid v → (sv.upstream = v ∨ .store v ∈ sv.threads) →
      (sv.setNet net).Valid v := by
    rintro v (h₀ | hsome) huse
    · exact .inl h₀
    · obtain ⟨c, hc⟩ := Option.isSome_iff_exists.mp hsome
      have hne : sv.net.deletes a ≠ some v := by
        intro hdel
        obtain ⟨hup, hpend⟩ := hd v hdel
        exact huse.elim hup hpend
      obtain ⟨c', hc', -⟩ := Layer.step_keeps hs hne hc
      exact .inr (Option.isSome_iff_exists.mpr ⟨c', hc'⟩)
  refine ⟨hvalid _ h.upstream (.inl rfl), fun v hv => hvalid v (h.pending v hv) (.inr hv), ?_⟩
  exact h.running

theorem Upheld.setCallback (h : sv.Upheld) (w : ℕ) (pc : CallbackPc Msg) :
    (sv.setCallback w pc).Upheld :=
  ⟨h.upstream, h.pending, h.running⟩

theorem Upheld.setLogic (h : sv.Upheld) (hl : sv.logic ≠ .init) (pc : LogicPc Msg) :
    (sv.setLogic pc).Upheld :=
  ⟨h.upstream, h.pending, fun _ => h.running hl⟩

/-- A thread goes on, and has nothing but a valid address to store. -/
theorem Upheld.setThread (h : sv.Upheld) {i : ℕ} {pc : ConnectPc}
    (hpc : ∀ v, pc = .store v → sv.Valid v) : (sv.setThread i pc).Upheld := by
  refine ⟨h.upstream, fun v hv => ?_, fun hl h₀ => ?_⟩
  · rcases List.mem_or_eq_of_mem_set hv with hv | hv
    · exact h.pending v hv
    · exact hpc v hv.symm
  · show sv.threads.set i pc ≠ []
    rw [Ne, List.set_eq_nil_iff]
    exact h.running hl h₀

/-- A thread returns, with the link set. -/
theorem Upheld.endThread (h : sv.Upheld) (i : ℕ) (hne : sv.upstream ≠ 0) :
    (sv.endThread i).Upheld :=
  ⟨h.upstream, fun v hv => h.pending v (List.mem_of_mem_eraseIdx hv), fun _ h₀ => absurd h₀ hne⟩

/-- A thread stores what `net_connect` returned, and is not at its end. -/
theorem Upheld.store (h : sv.Upheld) {i : ℕ} {v : Addr} (hi : sv.threads[i]? = some (.store v)) :
    ({ sv with upstream := v }.setThread i .sleep).Upheld := by
  have hmem : ConnectPc.store v ∈ sv.threads := List.mem_of_getElem? hi
  have hset : ({ sv with upstream := v } : Server Cls Msg).Upheld :=
    ⟨h.pending v hmem, h.pending, fun _ _ => List.ne_nil_of_mem hmem⟩
  exact hset.setThread fun u hu => by cases hu

theorem Upheld.createWorker (h : sv.Upheld) : (sv.createWorker .gate).Upheld := by
  refine ⟨h.upstream, fun v hv => ?_, fun _ _ => List.append_ne_nil_of_right_ne_nil _ nofun⟩
  rcases List.mem_append.mp hv with hv | hv
  · exact h.pending v hv
  · rw [List.mem_singleton] at hv
    cases hv

/-! ### The invariant -/

/-- One node of the logic loop, up to the reset. -/
theorem Upheld.relay (h : sv.Upheld) (hl : sv.logic ≠ .init) (it : Item Msg) (r : Option ℕ) :
    ({ sv with handled := sv.handled + 1 }.relay it r).Upheld := by
  have hh : ({ sv with handled := sv.handled + 1 } : Server Cls Msg).Upheld :=
    ⟨h.upstream, h.pending, h.running⟩
  unfold Server.relay
  split_ifs
  · exact hh
  · exact hh.setLogic hl _
  · exact hh.setLogic hl _
  · exact hh.setLogic hl _

theorem Upheld.step {m : Move} (h : sv.Upheld) (hc : sv.KeepsLink m)
    (hs : sv.step G .gate m = some sv') : sv'.Upheld := by
  cases step_cases hs with
  | accept hn => exact h.setNet hn fun _ hd => by cases hd
  | clock hn => exact h.setNet hn fun _ hd => by cases hd
  | worker _ hn => exact (h.setNet hn hc).setCallback _ _
  | returned _ _ hn =>
    obtain ⟨hup, hpend, hrun⟩ := h.setNet hn hc
    exact ⟨hup, hpend, hrun⟩
  | compare | registNull | regist | callbackSend => exact h.setCallback _ _
  | setInitOk => exact ⟨h.upstream, h.pending, h.running⟩
  | callbackPush _ _ hn => exact (h.setNet hn fun _ hd => by cases hd).setCallback _ _
  | connectGs =>
    refine Upheld.setCallback ?_ _ _
    split
    · exact h.createWorker
    · exact h
  | checkUnset => exact h.setThread fun v hv => by cases hv
  | checkSet _ hne => exact h.endThread _ hne
  | refused =>
    refine h.setThread fun v hv => .inl ?_
    cases hv
    rfl
  | broken hi => exact absurd rfl (hc hi)
  | @made i a net hi hn =>
    refine (h.setNet hn fun _ hd => by cases hd).setThread fun v hv => .inr ?_
    cases hv
    -- the object is on the heap before its address is stored
    simp only [Layer.step, Option.ite_none_right_eq_some, Option.some.injEq] at hn
    obtain ⟨-, rfl⟩ := hn
    show (((sv.net.alloc a .connecting true).setConnectors _).heap a).isSome
    rw [Layer.setConnectors, Layer.alloc_heap, if_pos rfl]
    rfl
  | storeGate _ hi => exact h.store hi
  | storeGame hk => cases hk
  | sleep => exact h.setThread fun v hv => by cases hv
  | init hl =>
    simp only [KeepsLink, hl] at hc
    obtain ⟨hup, hpend, hrun⟩ := h.createWorker
    rw [initConfig, if_pos hc]
    exact ⟨hup, hpend, fun _ _ => List.append_ne_nil_of_right_ne_nil _ (by simp)⟩
  | idle hl => exact h.setLogic (hl ▸ (by simp)) _
  | fetch hl hn => exact (h.setNet hn fun _ hd => by cases hd).setLogic (hl ▸ (by simp)) _
  | fetched hl => exact h.setLogic (hl ▸ (by simp)) _
  | handledAll hl => exact h.setLogic (hl ▸ (by simp)) _
  | relay _ hl => exact h.relay (hl ▸ (by simp)) _ _
  | process hk => cases hk
  | processClose hk => cases hk
  | reset hl =>
    -- the game server has hung up, and a thread is there to connect it again
    simp only [KeepsLink, hl] at hc
    exact ⟨.inl rfl, h.pending, fun _ _ => hc⟩
  | toGs hl =>
    split
    · exact h.setLogic (hl ▸ (by simp)) _
    · exact h.setLogic (hl ▸ (by simp)) _
  | send hl => exact h.setLogic (hl ▸ (by simp)) _
  | push hl hn => exact (h.setNet hn fun _ hd => by cases hd).setLogic (hl ▸ (by simp)) _

end Server

/-- **A link, or a thread that connects it**, in every run of the gate that takes none of the four
branches. -/
theorem linked_of_reach {G : Generated Cls Msg} {sv : Server Cls Msg}
    (h : (serverSystem G .gate).Reach Server.KeepsLink sv) (hl : sv.logic ≠ .init) : sv.Linked := by
  have hup : sv.Upheld := by
    refine h.invariant ?_ fun s m s' hi hc hs => hi.step hc hs
    rintro s ⟨threadNum, registry, clock, -, rfl⟩
    exact ⟨.inl rfl, nofun, fun hne => absurd rfl hne⟩
  exact hup.linked hl

/-- The moves of worker 0 up to the callback for the connection a thread has made at 16, the callback,
and the moves after an end of file on it, up to the notice. -/
def connectAndHangUp : List Move :=
  ([.go, .go, .go, .push true, .go, .go, .notified true 0].map (.worker 0)) ++
    List.replicate 5 (.callback 0 true 0) ++
    ([.go, .readEvent 16, .read .eof, .go, .notice 0, .go].map (.worker 0))

/-- The logic thread, from the start of its loop until it has reset `s_game_conn` for the one node of
one worker. -/
def handleOne : List Move := List.replicate 5 (.logic true none)

/-- The gate connects, and the game server hangs up while the connect thread sleeps. -/
def linkKept : List Move :=
  .logic true none :: ([.refused, .made 16, .refused].map (.connect 0)) ++
    connectAndHangUp ++ handleOne

theorem linked_linkKept : ∃ sv,
    (serverSystem Protocol.generated .gate).exec (.start .gate (.start 1 Protocol.registry 0))
        linkKept = some sv ∧ sv.upstream = 0 ∧ sv.Linked := by
  obtain ⟨sv, hs, hrun⟩ : ∃ sv,
      (serverSystem Protocol.generated .gate).exec (.start .gate (.start 1 Protocol.registry 0))
        linkKept = some sv ∧ (sv.upstream, decide (sv.logic = .init)) = (0, false) := by
    refine Option.map_eq_some_iff.mp ?_
    decide +kernel
  have hc : (serverSystem Protocol.generated .gate).AllSteps Server.KeepsLink
      (.start .gate (.start 1 Protocol.registry 0)) linkKept := by
    decide +kernel
  have hreach : (serverSystem Protocol.generated .gate).Reach Server.KeepsLink sv :=
    .of_exec (.start ⟨1, Protocol.registry, 0, by decide, rfl⟩) hc hs
  simp only [Prod.mk.injEq, decide_eq_false_iff_not] at hrun
  exact ⟨sv, hs, hrun.1, linked_of_reach hreach hrun.2⟩

/-- The same with the connect thread gone. -/
def linkLost : List Move :=
  .logic true none ::
    ([.refused, .made 16, .refused, .refused, .refused].map (.connect 0)) ++
    connectAndHangUp ++ handleOne

/-- The gate has no link, and nothing connects it. -/
theorem not_linked_linkLost : ∃ sv,
    (serverSystem Protocol.generated .gate).Reach Lts.Free sv ∧ sv.logic ≠ .init ∧ ¬ sv.Linked := by
  obtain ⟨sv, hs, hrun⟩ : ∃ sv,
      (serverSystem Protocol.generated .gate).exec (.start .gate (.start 1 Protocol.registry 0))
        linkLost = some sv ∧
        (sv.upstream, sv.threads, (sv.net.heap 0).isSome, decide (sv.logic = .init)) =
          (0, [], false, false) := by
    refine Option.map_eq_some_iff.mp ?_
    decide +kernel
  simp only [Prod.mk.injEq, decide_eq_false_iff_not] at hrun
  obtain ⟨hup, hthreads, hheap, hl⟩ := hrun
  refine ⟨sv, .of_exec (.start ⟨1, Protocol.registry, 0, by decide, rfl⟩)
    (Lts.allSteps_free _ _) hs, hl, ?_⟩
  rintro (hsome | ⟨-, hne⟩)
  · rw [hup, hheap] at hsome
    cases hsome
  · exact hne hthreads

end GoFight.Link
