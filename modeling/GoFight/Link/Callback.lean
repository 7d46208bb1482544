import GoFight.Link.Steps
import GoFight.Net.NodeQueues

/-!
# Workers in the connector callback

A worker that has registered a connector calls `connector_callback` with it, and stays there until
it returns.  The object is the worker's own in that time, so nobody else deletes it; and as it is
registered only once, it comes to a callback only once.

* `CallbackPc.registered` — the callback is past the registration;
* `InCallback` — where the workers are, and which incarnations a registration was made for;
* `InCallback.step` — every step of a server keeps it.
-/

namespace GoFight.Link

open GoFight.Lib GoFight.Net

variable {Cls Msg : Type*}

/-- The callback makes no registration any more. -/
def CallbackPc.registered : CallbackPc Msg → Prop
  | .compare | .setInitOk | .regist => False
  | .send _ | .push _ _ | .connectGs | .done => True

namespace Server

/-- The incarnation for which a move makes a registration. -/
def registers (sv : Server Cls Msg) : Move → List ℕ
  | .callback w _ _ =>
      match (sv.net.worker w).phase, sv.callback w with
      | .callback a _, .regist =>
          if (sv.net.registry Protocol.messageRegistReq).isSome then sv.idAt a else []
      | _, _ => []
  | _ => []

/-- The callbacks that run, when registrations were made for the incarnations `ids`. -/
structure InCallback (sv : Server Cls Msg) (ids : List ℕ) : Prop where
  /-- The callback is entered from `thread_libevent_process`, and registers when `is_ok`. -/
  phase : ∀ w, sv.callback w = .compare ∨ sv.callback w = .done ∨
    ∃ a ok, (sv.net.worker w).phase = .callback a ok ∧ (ok = true ∨ sv.callback w = .connectGs)
  object : ∀ {w a}, (sv.net.worker w).phase = .callback a true →
    ∃ c, sv.net.heap a = some c ∧ c.td = some w
  once : ∀ {w a c}, (sv.net.worker w).phase = .callback a true → sv.net.heap a = some c →
    c.id ∈ ids → (sv.callback w).registered
  owned : ∀ id ∈ ids, id < sv.net.nextId ∧ (sv.net.life id).owner.isSome

variable {G : Generated Cls Msg} {k : Kind} {sv sv' : Server Cls Msg} {ids : List ℕ}

theorem InCallback.ok (h : sv.InCallback ids) {w : ℕ} {a : Addr} {ok : Bool}
    (hp : (sv.net.worker w).phase = .callback a ok) (hcompare : sv.callback w ≠ .compare)
    (hdone : sv.callback w ≠ .done) (hgs : sv.callback w ≠ .connectGs) : ok = true := by
  rcases h.phase w with hc | hc | ⟨b, ok', hp', hok⟩
  · exact absurd hc hcompare
  · exact absurd hc hdone
  · rw [hp, Phase.callback.injEq] at hp'
    rw [hp'.2]
    exact hok.resolve_right hgs

/-- The registrations made stay so. -/
theorem InCallback.owned_of_step (h : sv.InCallback ids) {a : Act Cls Msg} {net : Layer Cls Msg}
    (hw : sv.net.WellPlaced) (hs : sv.net.step G a = some net) :
    ∀ id ∈ ids, id < net.nextId ∧ (net.life id).owner.isSome := by
  intro id hid
  obtain ⟨hlt, howner⟩ := h.owned id hid
  obtain ⟨v, hv⟩ := Option.isSome_iff_exists.mp howner
  refine ⟨Nat.lt_of_lt_of_le hlt (Layer.nextId_le hs), ?_⟩
  rw [Layer.step_owner hw hs hv]
  rfl

/-- The net layer takes a step that is not a worker's; a callback may end with it. -/
theorem InCallback.net_step (h : sv.InCallback ids) {a : Act Cls Msg} (hw : sv.net.WellPlaced)
    (ho : sv.net.InOrder) (hw' : sv'.net.WellPlaced) (hs : sv.net.step G a = some sv'.net)
    (ha : ∀ w e, a ≠ .worker w e)
    (hcb : ∀ w, sv'.callback w = sv.callback w ∨ sv'.callback w = .done) : sv'.InCallback ids := by
  have hphase : ∀ w, (sv'.net.worker w).phase = (sv.net.worker w).phase :=
    fun w => Layer.step_phase hw ho hs (ha w)
  refine ⟨fun w => ?_, fun {w b} hp => ?_, fun {w b c'} hp hc' hid => ?_, h.owned_of_step hw hs⟩
  · rcases hcb w with heq | heq
    · rw [heq, hphase]
      exact h.phase w
    · exact .inr (.inl heq)
  · rw [hphase] at hp
    obtain ⟨c, hc, htd⟩ := h.object hp
    obtain ⟨c', hc', -, htd'⟩ := Layer.step_object hw hw' hs (ha w) hc htd
    exact ⟨c', hc', htd'⟩
  · rcases hcb w with heq | heq
    · rw [hphase] at hp
      obtain ⟨c, hc, htd⟩ := h.object hp
      obtain ⟨d, hd, hdid, -⟩ := Layer.step_object hw hw' hs (ha w) hc htd
      rw [hc', Option.some.injEq] at hd
      rw [heq]
      exact h.once hp hc (by rw [← hdid, ← hd]; exact hid)
    · rw [heq]
      trivial

/-- A worker takes a step outside the callback, or returns from it. -/
theorem InCallback.worker_step (h : sv.InCallback ids) {w : ℕ} {e : WorkerAct}
    (hw : sv.net.WellPlaced) (ho : sv.net.InOrder) (hw' : sv'.net.WellPlaced)
    (hs : sv.net.step G (.worker w e) = some sv'.net)
    (hcb : sv'.callback w = .compare ∨ sv'.callback w = .done)
    (hrest : ∀ v, v ≠ w → sv'.callback v = sv.callback v) : sv'.InCallback ids := by
  have hother : ∀ {v}, v ≠ w → ∀ e', Act.worker w e ≠ (.worker v e' : Act Cls Msg) := by
    intro v hv e' heq
    cases heq
    exact hv rfl
  have hphase : ∀ {v}, v ≠ w → (sv'.net.worker v).phase = (sv.net.worker v).phase :=
    fun hv => Layer.step_phase hw ho hs (hother hv)
  refine ⟨fun v => ?_, fun {v b} hp => ?_, fun {v b c'} hp hc' hid => ?_, h.owned_of_step hw hs⟩
  · by_cases hv : v = w
    · exact hv ▸ hcb.imp_right .inl
    · rw [hrest v hv, hphase hv]
      exact h.phase v
  · by_cases hv : v = w
    · subst hv
      obtain ⟨c, c', -, -, hc', -, htd⟩ := Layer.step_callback hw hs hp
      exact ⟨c', hc', htd⟩
    · rw [hphase hv] at hp
      obtain ⟨c, hc, htd⟩ := h.object hp
      obtain ⟨c', hc', -, htd'⟩ := Layer.step_object hw hw' hs (hother hv) hc htd
      exact ⟨c', hc', htd'⟩
  · by_cases hv : v = w
    · -- it was not registered before
      subst hv
      obtain ⟨c, d, hc, htd, hd, hdid, -⟩ := Layer.step_callback hw hs hp
      rw [hc', Option.some.injEq] at hd
      have howner := (h.owned c'.id hid).2
      rw [hd, hdid, hw.owner hc, htd] at howner
      cases howner
    · rw [hphase hv] at hp
      obtain ⟨c, hc, htd⟩ := h.object hp
      obtain ⟨d, hd, hdid, -⟩ := Layer.step_object hw hw' hs (hother hv) hc htd
      rw [hc', Option.some.injEq] at hd
      rw [hrest v hv]
      exact h.once hp hc (by rw [← hdid, ← hd]; exact hid)

/-- A worker goes on in the callback, and may make its registration. -/
theorem InCallback.goesOn (h : sv.InCallback ids) {w : ℕ} {a : Addr} {ok : Bool}
    {pc : CallbackPc Msg} {made : List ℕ} (hw : sv.net.WellPlaced)
    (hp : (sv.net.worker w).phase = .callback a ok) (hnet : sv'.net = sv.net)
    (hcb : ∀ v, sv'.callback v = if v = w then pc else sv.callback v)
    (hpc : pc = .done ∨ ok = true ∨ pc = .connectGs)
    (hreg : (sv.callback w).registered → pc.registered)
    (hmade : made = [] ∨ ok = true ∧ pc.registered ∧ made = sv.idAt a) :
    sv'.InCallback (ids ++ made) := by
  have hmem : ∀ {id}, id ∈ made → ok = true ∧ pc.registered ∧
      ∃ c, sv.net.heap a = some c ∧ c.td = some w ∧ id = c.id := by
    intro id hid
    rcases hmade with hmade | ⟨hok, hpcr, hmade⟩
    · rw [hmade] at hid
      cases hid
    · obtain ⟨c, hc, htd⟩ := h.object (hok ▸ hp)
      rw [hmade, idAt, hc] at hid
      exact ⟨hok, hpcr, c, hc, htd, List.mem_singleton.mp hid⟩
  refine ⟨fun v => ?_, fun {v b} hpv => ?_, fun {v b c} hpv hc hid => ?_, fun id hid => ?_⟩
  · rw [hcb, hnet]
    by_cases hv : v = w
    · rw [if_pos hv, hv]
      rcases hpc with hpc | hpc
      · exact .inr (.inl hpc)
      · exact .inr (.inr ⟨a, ok, hp, hpc⟩)
    · rw [if_neg hv]
      exact h.phase v
  · rw [hnet] at hpv ⊢
    exact h.object hpv
  · rw [hnet] at hpv hc
    rw [hcb]
    rcases List.mem_append.mp hid with hold | hnew
    · split
      · next hv => exact hreg (hv ▸ h.once hpv hc hold)
      · exact h.once hpv hc hold
    · obtain ⟨-, hpcr, d, hd, htd, heq⟩ := hmem hnew
      have hab : b = a := hw.toObjects.id_inj hc hd heq
      obtain ⟨c', hc', htd'⟩ := h.object hpv
      have hv : v = w := by
        rw [hab, hd, Option.some.injEq] at hc'
        rw [← hc', htd, Option.some.injEq] at htd'
        exact htd'.symm
      rw [if_pos hv]
      exact hpcr
  · rw [hnet]
    rcases List.mem_append.mp hid with hold | hnew
    · exact h.owned id hold
    · obtain ⟨-, -, c, hc, htd, rfl⟩ := hmem hnew
      refine ⟨hw.toObjects.id_lt hc, ?_⟩
      rw [hw.owner hc, htd]
      rfl

theorem InCallback.congr (h : sv.InCallback ids) (hnet : sv'.net = sv.net)
    (hcb : sv'.callback = sv.callback) : sv'.InCallback ids :=
  ⟨by rw [hnet, hcb]; exact h.phase, by rw [hnet]; exact h.object, by rw [hnet, hcb]; exact h.once,
    by rw [hnet]; exact h.owned⟩

/-- The body of the loop over `s_recv_msgs` moves the logic thread only. -/
theorem relay_rest (sv : Server Cls Msg) (it : Item Msg) (r : Option ℕ) :
    ((sv.relay it r).net, (sv.relay it r).callback, (sv.relay it r).handled) =
      (sv.net, sv.callback, sv.handled) := by
  unfold Server.relay
  split
  · split
    · split <;> rfl
    · rfl
  · rfl

/-- **Every step.** -/
theorem InCallback.step {m : Move} (h : sv.InCallback ids) (hw : sv.net.WellPlaced)
    (ho : sv.net.InOrder) (hw' : sv'.net.WellPlaced) (hs : ServerStep G k sv m sv') :
    sv'.InCallback (ids ++ sv.registers m) := by
  have hnone : ∀ {w created junk}, sv.callback w ≠ .regist →
      sv.registers (.callback w created junk) = [] := by
    intro w created junk hne
    dsimp only [registers]
    split
    · next heq => exact absurd heq hne
    · rfl
  have hnil : sv'.InCallback ids → sv'.InCallback (ids ++ []) :=
    fun h => (List.append_nil ids).symm ▸ h
  cases hs with
  | accept hn | clock hn | made _ hn | fetch _ hn | processClose _ _ _ hn | push _ hn =>
    exact hnil (h.net_step hw ho hw' hn nofun fun _ => .inl rfl)
  | @worker w e net hp hn =>
    refine hnil (h.worker_step hw ho hw' hn (.inl ?_) fun v hv => ?_)
    · exact Function.update_self ..
    · exact Function.update_of_ne hv ..
  | returned hp hc hn => exact hnil (h.worker_step hw ho hw' hn (.inr hc) fun _ _ => rfl)
  | @callbackPush w created junk a ok it v net hp hc hn =>
    rw [hnone (by rw [hc]; exact nofun)]
    refine hnil (h.net_step hw ho hw' hn nofun fun v => ?_)
    by_cases hv : v = w
    · exact .inr (hv ▸ Function.update_self ..)
    · exact .inl (Function.update_of_ne hv ..)
  | @compare w created junk a ok hp hc =>
    rw [hnone (by rw [hc]; exact nofun)]
    refine h.goesOn hw hp rfl (fun v => setCallback_callback ..) ?_ (fun hr => ?_) (.inl rfl)
    · split
      · cases ok with
        | true => exact .inr (.inl rfl)
        | false => exact .inr (.inr rfl)
      · exact .inl rfl
    · rw [hc] at hr
      exact hr.elim
  | @setInitOk w created junk a ok hp hc =>
    rw [hnone (by rw [hc]; exact nofun)]
    refine h.goesOn hw hp rfl (fun v => setCallback_callback ..) (.inr (.inl ?_)) (fun hr => ?_)
      (.inl rfl)
    · exact h.ok hp (by rw [hc]; exact nofun) (by rw [hc]; exact nofun) (by rw [hc]; exact nofun)
    · rw [hc] at hr
      exact hr.elim
  | @registNull w created junk a ok hp hc hn =>
    have hnone : sv.registers (.callback w created junk) = [] := by
      simp [registers, hp, hc, hn]
    rw [hnone]
    exact h.goesOn hw hp rfl (fun v => setCallback_callback ..) (.inl rfl) (fun _ => trivial)
      (.inl rfl)
  | @regist w created junk a ok c node hp hc ha hn =>
    have hok : ok = true :=
      h.ok hp (by rw [hc]; exact nofun) (by rw [hc]; exact nofun) (by rw [hc]; exact nofun)
    obtain ⟨cls, hcls, -⟩ := Option.map_eq_some_iff.mp hn
    have hmade : sv.registers (.callback w created junk) = sv.idAt a := by
      simp [registers, hp, hc, hcls]
    have hpc : (if sv.upstream = 0 then CallbackPc.done else .send (sv.registNode G k node c.id) :
        CallbackPc Msg).registered := by
      split <;> trivial
    rw [hmade]
    exact h.goesOn hw hp rfl (fun v => setCallback_callback ..) (.inr (.inl hok)) (fun _ => hpc)
      (.inr ⟨hok, hpc, rfl⟩)
  | @callbackSend w created junk a ok it v hp hc hv =>
    rw [hnone (by rw [hc]; exact nofun)]
    refine h.goesOn hw hp rfl (fun v => setCallback_callback ..) (.inr (.inl ?_)) (fun _ => trivial)
      (.inl rfl)
    exact h.ok hp (by rw [hc]; exact nofun) (by rw [hc]; exact nofun) (by rw [hc]; exact nofun)
  | @connectGs w created junk a ok hp hc =>
    rw [hnone (by rw [hc]; exact nofun)]
    refine h.goesOn hw hp ?_ (fun v => ?_) (.inl rfl) (fun _ => trivial) (.inl rfl)
    · cases created <;> rfl
    · cases created <;> exact setCallback_callback ..
  | checkUnset | checkSet | refused | broken | storeGate | storeGame | sleep | idle | fetched
  | handledAll | process | reset | send => exact hnil (h.congr rfl rfl)
  | @init created =>
    refine hnil (h.congr ?_ ?_)
    · cases created <;> rfl
    · cases created <;> rfl
  | @relay created r it =>
    have hrest := relay_rest { sv with handled := sv.handled + 1 } it r
    exact hnil (h.congr (congrArg Prod.fst hrest) (congrArg (fun q => q.2.1) hrest))
  | toGs =>
    refine hnil ?_
    split <;> exact h.congr rfl rfl

end Server

end GoFight.Link
