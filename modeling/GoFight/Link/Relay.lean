import GoFight.Link.Steps
import GoFight.Net.Fate

/-!
# What the gate relays

The logic thread sends a node on as it took it, but for the two fields that say whose it is and
where it goes.

* `processed`, `relayed` — the nodes handled so far, and those sent or about to be;
* `IsCopy` — what relaying leaves of a node;
* `Copied` — every relayed node is a copy of a handled one, in the same order and once;
* `copied_of_reach` — in every run.
-/

namespace GoFight.Link

open GoFight.Lib GoFight.Net

variable {Cls Msg : Type*}

namespace Server

variable {G : Generated Cls Msg} {k : Kind} {sv sv' : Server Cls Msg}

/-- The nodes handled so far. -/
def processed (sv : Server Cls Msg) : List (Item Msg) := sv.net.output.take sv.handled

/-- The nodes the logic thread sent or is sending, but for registrations. -/
def relayed (sv : Server Cls Msg) : List (Item Msg) :=
  (sv.net.pushes.filter fun it => it.src.conn.isSome) ++ sv.logic.hand

/-- `it` is what the logic thread makes of the node `o`. -/
structure IsCopy (o it : Item Msg) : Prop where
  src : o.src = it.src
  msgType : it.node.msgType = o.node.msgType
  msgData : it.node.msgData = o.node.msgData
  request : it.role = .request → it.node.cliConn = o.node.msgConn
  answer : ∀ {c}, it.role = .answer c →
    it.node.cliConn = o.node.cliConn ∧ it.node.msgConn = o.node.cliConn

/-- A `Regist::Req` that comes from nobody. -/
def Own (it : Item Msg) : Prop := it.src.conn = none ∧ it.node.msgType = Protocol.messageRegistReq

/-- What goes to the game server goes there as a client's. -/
def ToGs (sv : Server Cls Msg) : Prop := ∀ it, sv.logic = .toGs it → it.role = .request

/-- What is relayed was handled, in this order. -/
structure Copied (sv : Server Cls Msg) : Prop where
  handled : sv.handled ≤ sv.net.output.length
  order : (sv.relayed.map Item.src).Sublist (sv.processed.map Item.src)
  copies : ∀ it ∈ sv.relayed, ∃ o ∈ sv.processed, IsCopy o it
  hand : ∀ it ∈ sv.logic.hand, it.src.conn.isSome
  regist : ∀ it ∈ sv.net.pushes, it.src.conn = none → Own it
  callback : ∀ w, ∀ it ∈ (sv.callback w).hand, Own it

theorem ToGs.step {m : Move} (h : sv.ToGs) (hs : ServerStep G k sv m sv') : sv'.ToGs := by
  cases hs with
  | accept | clock | worker | returned | compare | setInitOk | registNull | regist | callbackSend
  | callbackPush | checkUnset | checkSet | refused | broken | made | storeGate | storeGame | sleep
  | process | processClose => exact h
  | @connectGs w created => cases created <;> exact h
  | @init created => cases created <;> exact nofun
  | idle | fetch | fetched | handledAll | reset | send | push => exact nofun
  | relay =>
    unfold Server.relay
    split_ifs
    · exact h
    · exact nofun
    · exact nofun
    · rintro it heq
      cases heq
      rfl
  | toGs => split_ifs <;> exact nofun

/-! ### What a step handles -/

/-- Nothing is taken from `s_recv_msgs`. -/
theorem processed_of_output (h : sv.handled ≤ sv.net.output.length)
    (houtput : ∃ t, sv'.net.output = sv.net.output ++ t) (hhandled : sv'.handled = sv.handled) :
    sv'.processed = sv.processed := by
  obtain ⟨t, ht⟩ := houtput
  rw [processed, processed, ht, hhandled, List.take_append_of_le_length h]

theorem take_handled {it : Item Msg} (hit : sv.net.output[sv.handled]? = some it) :
    sv.net.output.take (sv.handled + 1) = sv.processed ++ [it] := by
  rw [List.take_add_one, hit]
  rfl

/-- The output grows. -/
theorem ServerStep.output {m : Move} (hs : ServerStep G k sv m sv') :
    ∃ t, sv'.net.output = sv.net.output ++ t := by
  rcases hs.net with heq | ⟨a, ha⟩
  · exact ⟨[], by rw [heq, List.append_nil]⟩
  · rcases Layer.step_output ha with heq | ⟨w, -, heq⟩
    · exact ⟨[], by rw [heq, List.append_nil]⟩
    · exact ⟨_, heq⟩

/-- Only `net_send` pushes. -/
theorem pushes_of_step {a : Act Cls Msg} {net : Layer Cls Msg} (hs : sv.net.step G a = some net)
    (ha : ∀ w it, a ≠ .send w it) : net.pushes = sv.net.pushes := by
  rw [Layer.step_pushes hs]
  cases a with
  | send w it => exact absurd rfl (ha w it)
  | _ => exact List.append_nil _

/-- The logic thread, in its loop over `s_recv_msgs`, takes `it`. -/
structure Takes (sv : Server Cls Msg) (m : Move) (it : Item Msg) : Prop where
  logic : sv.logic = .handle
  next : sv.net.output[sv.handled]? = some it
  move : ∃ created r, m = .logic created r

theorem ServerStep.handled {m : Move} (hs : ServerStep G k sv m sv') :
    sv'.handled = sv.handled ∨ ∃ it, sv.Takes m it ∧ sv'.handled = sv.handled + 1 := by
  cases hs with
  | relay _ hl hit =>
    refine .inr ⟨_, ⟨hl, hit, _, _, rfl⟩, ?_⟩
    unfold Server.relay
    split_ifs <;> rfl
  | process _ hl hit => exact .inr ⟨_, ⟨hl, hit, _, _, rfl⟩, rfl⟩
  | processClose _ hl hit => exact .inr ⟨_, ⟨hl, hit, _, _, rfl⟩, rfl⟩
  | @connectGs w created => cases created <;> exact .inl rfl
  | @init created => cases created <;> exact .inl rfl
  | toGs => split_ifs <;> exact .inl rfl
  | _ => exact .inl rfl

/-- **A step takes at most one node.** -/
theorem ServerStep.processed {m : Move} (hs : ServerStep G k sv m sv')
    (h : sv.handled ≤ sv.net.output.length) : sv'.processed = sv.processed ∨
      ∃ it, sv.Takes m it ∧ sv'.processed = sv.processed ++ [it] := by
  rcases hs.handled with heq | ⟨it, ht, heq⟩
  · exact .inl (processed_of_output h hs.output heq)
  · obtain ⟨t, hout⟩ := hs.output
    refine .inr ⟨it, ht, ?_⟩
    rw [Server.processed, heq, hout, List.take_append_of_le_length, take_handled ht.next]
    exact (List.getElem?_eq_some_iff.mp ht.next).1

namespace Copied

/-- Nothing is handled or sent. -/
theorem congr (h : sv.Copied) (hpushes : sv'.net.pushes = sv.net.pushes)
    (houtput : ∃ t, sv'.net.output = sv.net.output ++ t) (hhandled : sv'.handled = sv.handled)
    (hhand : sv'.logic.hand = sv.logic.hand)
    (hcallback : ∀ w, ∀ it ∈ (sv'.callback w).hand, Own it) : sv'.Copied := by
  have hprocessed := processed_of_output h.handled houtput hhandled
  have hrelayed : sv'.relayed = sv.relayed := by rw [relayed, relayed, hpushes, hhand]
  refine ⟨?_, ?_, ?_, hhand ▸ h.hand, hpushes ▸ h.regist, hcallback⟩
  · obtain ⟨t, ht⟩ := houtput
    rw [hhandled, ht, List.length_append]
    exact Nat.le_add_right_of_le h.handled
  · rw [hrelayed, hprocessed]
    exact h.order
  · rw [hrelayed, hprocessed]
    exact h.copies

/-- A step outside the net layer. -/
theorem same (h : sv.Copied) (hnet : sv'.net = sv.net) (hhandled : sv'.handled = sv.handled)
    (hhand : sv'.logic.hand = sv.logic.hand)
    (hcallback : ∀ w, ∀ it ∈ (sv'.callback w).hand, Own it) : sv'.Copied := by
  apply h.congr _ _ hhandled hhand hcallback
  · rw [hnet]
  · exact ⟨[], by rw [hnet, List.append_nil]⟩

/-- A step of the net layer that is no `net_send`. -/
theorem setNet (h : sv.Copied) {a : Act Cls Msg} {net : Layer Cls Msg}
    (hs : sv.net.step G a = some net) (ha : ∀ w it, a ≠ .send w it) (hnet : sv'.net = net)
    (hhandled : sv'.handled = sv.handled) (hhand : sv'.logic.hand = sv.logic.hand)
    (hcallback : ∀ w, ∀ it ∈ (sv'.callback w).hand, Own it) : sv'.Copied := by
  apply h.congr _ _ hhandled hhand hcallback
  · rw [hnet, pushes_of_step hs ha]
  · rw [hnet]
    rcases Layer.step_output hs with heq | ⟨w, -, heq⟩
    · exact ⟨[], by rw [heq, List.append_nil]⟩
    · exact ⟨_, heq⟩

theorem setCallback (h : sv.Copied) {w : ℕ} {pc : CallbackPc Msg} (hpc : ∀ it ∈ pc.hand, Own it)
    (v : ℕ) : ∀ it ∈ ((sv.setCallback w pc).callback v).hand, Own it := by
  rw [setCallback_callback]
  split
  · exact hpc
  · exact h.callback v

/-- A node is taken from `s_recv_msgs`; perhaps its copy is to be sent. -/
theorem handle (h : sv.Copied) {it : Item Msg} {pc : LogicPc Msg}
    (hl : sv.logic.hand = []) (hit : sv.net.output[sv.handled]? = some it)
    (hsome : it.src.conn.isSome) (hpc : pc.hand = [] ∨ ∃ jt, pc.hand = [jt] ∧ IsCopy it jt) :
    ({ sv with handled := sv.handled + 1, logic := pc } : Server Cls Msg).Copied := by
  have hprocessed := take_handled hit
  have hrelayed : sv.relayed = sv.net.pushes.filter fun it => it.src.conn.isSome := by
    rw [relayed, hl, List.append_nil]
  refine ⟨(List.getElem?_eq_some_iff.mp hit).1, ?_, ?_, ?_, h.regist, h.callback⟩
  · show List.Sublist (((sv.net.pushes.filter fun it => it.src.conn.isSome) ++ pc.hand).map Item.src)
      ((sv.net.output.take (sv.handled + 1)).map Item.src)
    rw [← hrelayed, hprocessed, List.map_append, List.map_append]
    apply h.order.append
    rcases hpc with hpc | ⟨jt, hpc, hcopy⟩
    · rw [hpc]
      exact List.nil_sublist _
    · rw [hpc, List.map_singleton, List.map_singleton, hcopy.src]
  · intro jt hjt
    show ∃ o ∈ sv.net.output.take (sv.handled + 1), IsCopy o jt
    rw [hprocessed]
    rcases List.mem_append.mp hjt with hjt | hjt
    · obtain ⟨o, ho, hcopy⟩ := h.copies jt (hrelayed ▸ hjt)
      exact ⟨o, List.mem_append_left _ ho, hcopy⟩
    · change jt ∈ pc.hand at hjt
      rcases hpc with hpc | ⟨kt, hpc, hcopy⟩
      · rw [hpc] at hjt
        cases hjt
      · rw [hpc, List.mem_singleton] at hjt
        rw [hjt]
        exact ⟨it, List.mem_append_right _ (List.mem_singleton_self it), hcopy⟩
  · intro jt hjt
    change jt ∈ pc.hand at hjt
    rcases hpc with hpc | ⟨kt, hpc, hcopy⟩
    · rw [hpc] at hjt
      cases hjt
    · rw [hpc, List.mem_singleton] at hjt
      rw [hjt, ← hcopy.src]
      exact hsome

/-- One round of the loop of `logic_update`. -/
theorem relay (h : sv.Copied) (ho : sv.net.InOrder) {it : Item Msg} {r : Option ℕ}
    (hl : sv.logic = .handle) (hit : sv.net.output[sv.handled]? = some it) :
    ({ sv with handled := sv.handled + 1 }.relay it r).Copied := by
  have hhand : sv.logic.hand = [] := by rw [hl]; rfl
  have hsome : it.src.conn.isSome := by
    obtain ⟨c, w, hc, -⟩ := ho.out (List.mem_of_getElem? hit)
    rw [hc]
    rfl
  unfold Server.relay
  split_ifs
  · exact h.handle hhand hit hsome (.inl hhand)
  · exact h.handle hhand hit hsome (.inr ⟨_, rfl, rfl, rfl, rfl, nofun, fun _ => ⟨rfl, rfl⟩⟩)
  · exact h.handle hhand hit hsome (.inl rfl)
  · exact h.handle hhand hit hsome (.inr ⟨_, rfl, rfl, rfl, rfl, fun _ => rfl, nofun⟩)

/-- The logic thread goes on with the node it has in hand, or drops it. -/
theorem carry (h : sv.Copied) {it : Item Msg} {pc : LogicPc Msg} (hl : sv.logic.hand = [it])
    (hpc : pc.hand = [] ∨ ∃ jt, pc.hand = [jt] ∧ jt.src = it.src ∧
      ∀ o, IsCopy o it → IsCopy o jt) : (sv.setLogic pc).Copied := by
  have hmem : it ∈ sv.relayed := List.mem_append_right _ (hl ▸ List.mem_singleton_self it)
  refine ⟨h.handled, ?_, ?_, ?_, h.regist, h.callback⟩
  · have horder := h.order
    show List.Sublist (((sv.net.pushes.filter fun it => it.src.conn.isSome) ++ pc.hand).map Item.src)
      (sv.processed.map Item.src)
    rw [relayed, hl, List.map_append, List.map_singleton] at horder
    rw [List.map_append]
    rcases hpc with hpc | ⟨jt, hpc, hsrc, -⟩
    · rw [hpc]
      exact (List.Sublist.append_left (List.nil_sublist _) _).trans horder
    · rw [hpc, List.map_singleton, hsrc]
      exact horder
  · intro jt hjt
    rcases List.mem_append.mp hjt with hjt | hjt
    · exact h.copies jt (List.mem_append_left _ hjt)
    · change jt ∈ pc.hand at hjt
      rcases hpc with hpc | ⟨kt, hpc, -, hcopy⟩
      · rw [hpc] at hjt
        cases hjt
      · rw [hpc, List.mem_singleton] at hjt
        obtain ⟨o, ho, ho'⟩ := h.copies it hmem
        rw [hjt]
        exact ⟨o, ho, hcopy o ho'⟩
  · intro jt hjt
    change jt ∈ pc.hand at hjt
    rcases hpc with hpc | ⟨kt, hpc, hsrc, -⟩
    · rw [hpc] at hjt
      cases hjt
    · rw [hpc, List.mem_singleton] at hjt
      rw [hjt, hsrc]
      exact h.hand it (hl ▸ List.mem_singleton_self it)

/-- The logic thread's push. -/
theorem push (h : sv.Copied) {v : ℕ} {it : Item Msg} {net : Layer Cls Msg}
    (hl : sv.logic = .push v it) (hs : sv.net.step G (.send v it) = some net) :
    ((sv.setNet net).setLogic .handle).Copied := by
  have hhand : sv.logic.hand = [it] := by rw [hl]; rfl
  have hsome : it.src.conn.isSome := h.hand it (hhand ▸ List.mem_singleton_self it)
  simp only [Layer.step, Option.ite_none_right_eq_some, Option.some.injEq] at hs
  obtain ⟨-, rfl⟩ := hs
  have hrelayed : ((sv.setNet (sv.net.pushWrite v it)).setLogic .handle).relayed = sv.relayed := by
    show ((sv.net.pushes ++ [it]).filter fun it => it.src.conn.isSome) ++ [] = sv.relayed
    rw [relayed, hhand, List.filter_append, List.append_nil]
    simp [hsome]
  refine ⟨h.handled, hrelayed ▸ h.order, hrelayed ▸ h.copies, by simp [setLogic, LogicPc.hand], ?_, h.callback⟩
  intro jt hjt hnone
  rcases List.mem_append.mp hjt with hjt | hjt
  · exact h.regist jt hjt hnone
  · rw [List.mem_singleton.mp hjt] at hnone
    rw [hnone] at hsome
    cases hsome

/-- A registration is sent. -/
theorem regist_push (h : sv.Copied) {v w : ℕ} {it : Item Msg} {net : Layer Cls Msg}
    (hcb : sv.callback w = .push v it) (hs : sv.net.step G (.send v it) = some net) :
    ((sv.setNet net).setCallback w .done).Copied := by
  have hown : Own it := h.callback w it (by rw [hcb]; exact List.mem_singleton_self it)
  simp only [Layer.step, Option.ite_none_right_eq_some, Option.some.injEq] at hs
  obtain ⟨-, rfl⟩ := hs
  have hrelayed : ((sv.setNet (sv.net.pushWrite v it)).setCallback w .done).relayed = sv.relayed := by
    show ((sv.net.pushes ++ [it]).filter fun it => it.src.conn.isSome) ++ sv.logic.hand = sv.relayed
    rw [relayed, List.filter_append]
    simp [hown.1]
  refine ⟨h.handled, hrelayed ▸ h.order, hrelayed ▸ h.copies, h.hand, ?_, h.setCallback (by simp [CallbackPc.hand])⟩
  intro jt hjt hnone
  rcases List.mem_append.mp hjt with hjt | hjt
  · exact h.regist jt hjt hnone
  · rw [List.mem_singleton.mp hjt]
    exact hown

/-- **Every step.** -/
theorem step {m : Move} (h : sv.Copied) (hto : sv.ToGs) (ho : sv.net.InOrder)
    (hs : ServerStep G k sv m sv') : sv'.Copied := by
  cases hs with
  | accept hn | clock hn | returned _ _ hn | made hi hn =>
    exact h.setNet hn nofun rfl rfl rfl h.callback
  | worker _ hn => exact h.setNet hn nofun rfl rfl rfl (h.setCallback nofun)
  | fetch hl hn => exact h.setNet hn nofun rfl rfl (by rw [hl]; rfl) h.callback
  | compare =>
    refine h.same rfl rfl rfl (h.setCallback ?_)
    split_ifs <;> exact nofun
  | setInitOk | registNull => exact h.same rfl rfl rfl (h.setCallback nofun)
  | @regist w created junk a ok c node hp hcb ha hn =>
    refine h.same rfl rfl rfl (h.setCallback ?_)
    split_ifs
    · exact nofun
    · intro it hit
      rw [CallbackPc.hand, List.mem_singleton] at hit
      obtain ⟨cls, -, rfl⟩ := Option.map_eq_some_iff.mp hn
      rw [hit]
      exact ⟨rfl, rfl⟩
  | @callbackSend w _ _ _ _ it _ hp hcb =>
    have hold := h.callback w
    rw [hcb] at hold
    exact h.same rfl rfl rfl (h.setCallback hold)
  | callbackPush hp hcb hn => exact h.regist_push hcb hn
  | @connectGs w created =>
    cases created with
    | true => exact h.same rfl rfl rfl (h.setCallback nofun)
    | false => exact h.same rfl rfl rfl (h.setCallback nofun)
  | checkUnset | checkSet | refused | broken | storeGate | storeGame | sleep =>
    exact h.same rfl rfl rfl h.callback
  | @init created r hl =>
    have hhand : sv.logic.hand = [] := by rw [hl]; rfl
    cases created with
    | true => exact h.same rfl rfl hhand.symm h.callback
    | false => exact h.same rfl rfl hhand.symm h.callback
  | idle hl | fetched hl | handledAll hl | reset hl =>
    exact h.same rfl rfl (by rw [hl]; rfl) h.callback
  | relay _ hl hit => exact h.relay ho hl hit
  | @process created r it hk hl hit =>
    have hhand : sv.logic.hand = [] := by rw [hl]; rfl
    obtain ⟨c, w, hc, -⟩ := ho.out (List.mem_of_getElem? hit)
    exact h.handle hhand hit (by rw [hc]; rfl) (.inl hhand)
  | @processClose created r it net hk hl hit hn =>
    have hhand : sv.logic.hand = [] := by rw [hl]; rfl
    obtain ⟨c, w, hc, -⟩ := ho.out (List.mem_of_getElem? hit)
    have htaken : ({ sv with handled := sv.handled + 1 } : Server Cls Msg).Copied :=
      h.handle hhand hit (by rw [hc]; rfl) (.inl hhand)
    exact htaken.setNet hn nofun rfl rfl rfl h.callback
  | @toGs created r it hl =>
    have hhand : sv.logic.hand = [it] := by rw [hl]; rfl
    split_ifs
    · exact h.carry hhand (.inl rfl)
    · refine h.carry hhand (.inr ⟨_, rfl, rfl, fun o hcopy => ?_⟩)
      refine ⟨hcopy.src, hcopy.msgType, hcopy.msgData, hcopy.request, fun hrole => ?_⟩
      rw [hto it hl] at hrole
      cases hrole
  | @send created r it v hl =>
    have hhand : sv.logic.hand = [it] := by rw [hl]; rfl
    exact h.carry hhand (.inr ⟨_, rfl, rfl, fun _ ho => ho⟩)
  | push hl hn => exact h.push hl hn

end Copied

end Server

/-- What goes to the game server is a client's, in every run. -/
theorem toGs_of_reach {G : Generated Cls Msg} {k : Kind} {C : Server Cls Msg → Move → Prop}
    {sv : Server Cls Msg} (h : (serverSystem G k).Reach C sv) : sv.ToGs := by
  refine h.invariant_of (P := Server.ToGs) ?_ fun sv m sv' _ hto _ hs => ?_
  · rintro sv ⟨threadNum, registry, clock, -, rfl⟩
    exact nofun
  · exact hto.step (Server.step_cases hs)

/-- **What is relayed is a copy**, in every run. -/
theorem copied_of_reach {G : Generated Cls Msg} {k : Kind} {C : Server Cls Msg → Move → Prop}
    {sv : Server Cls Msg} (h : (serverSystem G k).Reach C sv) : sv.Copied := by
  refine h.invariant_of (P := Server.Copied) ?_ fun sv m sv' hr hi _ hs => ?_
  · rintro sv ⟨threadNum, registry, clock, -, rfl⟩
    exact ⟨Nat.zero_le _, .slnil, nofun, nofun, nofun, nofun⟩
  · obtain ⟨-, -, ho⟩ := inOrder_of_reach (net_of_reach hr)
    exact hi.step (toGs_of_reach hr) ho (Server.step_cases hs)

end GoFight.Link
