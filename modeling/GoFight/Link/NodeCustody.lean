import GoFight.Link.Nodes
import GoFight.Link.Notices

/-!
# Every node is in one place

In a run of the gate that meets `KeepsNodes` at every step, each node made is in one of the five
queues, freed, or in the hand of the thread that moves it, and there once.

* `flow_worker`, `flow_step` — every step is one movement of nodes;
* `Accounted` — the invariant, `custody_of_reach` — the run theorem.

Without the condition `net_send` loses the node it was given when its connection is null, and the
deletion of a `Connection` loses those that are still in its queues.
-/

namespace GoFight.Link

open GoFight.Lib GoFight.Net

variable {Cls Msg : Type*}

namespace Server

variable {G : Generated Cls Msg} {sv sv' : Server Cls Msg} {h : NodeHistory Msg}

/-! ### What a move frees -/

theorem record_of_nil {m : Move} (hf : sv.frees m = []) (hr : sv.registers m = []) :
    h.record sv m sv' = h := by
  rw [NodeHistory.record, hf, hr]
  simp

/-- The node of a place has a processer, so it is freed whole. -/
theorem record_freed {m : Move} (hty : Typed sv.net.registry (sv.board h))
    (hf : ∀ it ∈ sv.frees m, ∃ p, it ∈ sv.nodesAt h p) :
    (h.record sv m sv').freed = h.freed ++ sv.frees m := by
  refine congrArg (h.freed ++ ·) (List.filter_eq_self.mpr fun it hit => ?_)
  obtain ⟨p, hp⟩ := hf it hit
  exact hty p (tag it) (List.mem_map_of_mem hp)

theorem frees_worker {w : ℕ} {e : WorkerAct} {it : Item Msg}
    (hit : it ∈ sv.frees (.worker w e)) : ∃ p, it ∈ sv.nodesAt h p := by
  change it ∈ sv.net.frees w at hit
  unfold Layer.frees at hit
  split at hit
  · exact ⟨.tdWrite w, (List.mem_filter.mp hit).1⟩
  · next a _ _ => exact ⟨.connWrite a, hit⟩
  · cases hit

/-! ### Every step -/

/-- No node is moved. -/
theorem flow_still (hs : Layer.Still sv.net sv'.net) (hhandled : sv'.handled = sv.handled)
    (hlogic : sv'.logic.held.map tag = sv.logic.held.map tag)
    (hcallback : ∀ w, (sv'.callback w).hand.map tag = (sv.callback w).hand.map tag) :
    Flow Msg sv.net.registry (sv.board h) (sv'.board h) (sv.Made h) (sv'.Made h) :=
  .same (board_still hs hhandled hlogic hcallback) (made_still hs rfl)

/-- A worker's step. -/
theorem flow_worker {w : ℕ} {e : WorkerAct} (hw : sv.net.WellPlaced) (ho : sv.net.InOrder)
    (hty : Typed sv.net.registry (sv.board h)) (hc : sv.KeepsNodes (.worker w e))
    (hs : sv.net.step G (.worker w e) = some sv'.net) (hhandled : sv'.handled = sv.handled)
    (hlogic : sv'.logic.held.map tag = sv.logic.held.map tag)
    (hcallback : ∀ w, (sv'.callback w).hand.map tag = (sv.callback w).hand.map tag) :
    Flow Msg sv.net.registry (sv.board h) (sv'.board (h.record sv (.worker w e) sv')) (sv.Made h)
      (sv'.Made (h.record sv (.worker w e) sv')) := by
  have hdel : ∀ b ∈ sv.net.deletes (.worker w e), sv.net.objQueues b = ([], []) := by
    intro b hb
    cases hcon : sv.net.heap b with
    | none => rw [Layer.objQueues, hcon]; rfl
    | some c =>
      rw [Layer.objQueues_of_some hcon]
      obtain ⟨hread, hwrite⟩ := hc b hb c hcon
      exact Prod.ext hread hwrite
  have hregists : (h.record sv (.worker w e) sv').regists = h.regists := List.append_nil _
  have hfreed : (h.record sv (.worker w e) sv').freed = h.freed ++ sv.net.frees w :=
    record_freed hty fun it hit => frees_worker hit
  have hsame : sv.net.frees w = [] → h.record sv (.worker w e) sv' = h := fun hf =>
    record_of_nil hf rfl
  cases Layer.step_shift hw ho hdel hs with
  | still hf _ _ hstill =>
    rw [hsame (hf w e rfl)]
    exact flow_still hstill hhandled hlogic hcallback
  | transfer ha hf hcon hmsgs hstill =>
    cases ha
    rw [hsame hf]
    exact (flow_transfer rfl hcon hmsgs).congr (board_still hstill hhandled hlogic hcallback)
      (made_still hstill rfl)
  | read ha hf hcon hr hstill =>
    cases ha
    rw [hsame hf]
    exact (flow_read rfl rfl hcon (messageFormat_registered hr)).congr
      (board_still hstill hhandled hlogic hcallback) (made_still hstill rfl)
  | notice ha hf hn hsrc hreg hstill =>
    cases ha
    rw [hsame hf]
    exact (flow_notice rfl hn hsrc hreg).congr (board_still hstill hhandled hlogic hcallback)
      (made_still hstill rfl)
  | drain ha hp hs' =>
    cases ha
    rw [Layer.frees, hp] at hfreed
    have hstill : Layer.Still (sv.net.drainStep w) sv'.net := hs' ▸ .refl _
    exact (flow_drain rfl hw hregists hfreed).congr (board_still hstill hhandled hlogic hcallback)
      (made_still hstill rfl)
  | flush ha hp hcon hf hstill =>
    cases ha
    rw [Layer.frees, hp] at hfreed
    exact (flow_flush rfl hcon hf hregists hfreed).congr
      (board_still hstill hhandled hlogic hcallback) (made_still hstill rfl)
  | getMsgs ha | send ha => cases ha

/-- The logic thread frees behind the reset only. -/
theorem frees_logic {created : Bool} {r : Option ℕ} (hl : ∀ it, sv.logic ≠ .reset it) :
    sv.frees (.logic created r) = [] := by
  dsimp only [frees]
  split
  · next heq => exact absurd heq (hl _)
  · rfl

/-- `logic_update` takes a node from `s_recv_msgs`, and holds it. -/
theorem flow_take {it : Item Msg} (hl : sv.logic.held = [])
    (hit : sv.net.output[sv.handled]? = some it) (hnet : sv'.net = sv.net)
    (hhandled : sv'.handled = sv.handled + 1) (hcallback : sv'.callback = sv.callback)
    (hheld : sv'.logic.held.map tag = [tag it]) :
    Flow Msg sv.net.registry (sv.board h) (sv'.board h) (sv.Made h) (sv'.Made h) := by
  obtain ⟨hlt, hget⟩ := List.getElem?_eq_some_iff.mp hit
  refine .move (p := .recv) (d := .logic) [it] (by simp) ?_ ?_ (fun q hq hd => ?_)
    (made_congr (by rw [hnet]) rfl)
  · show (sv.net.output.drop sv.handled).map tag =
      [it].map tag ++ (sv'.net.output.drop sv'.handled).map tag
    rw [hnet, hhandled, List.drop_eq_getElem_cons hlt, hget]
    rfl
  · show sv'.logic.held.map tag = sv.logic.held.map tag ++ [it].map tag
    rw [hheld, hl]
    rfl
  · cases q with
    | recv => exact absurd rfl hq
    | logic => exact absurd rfl hd
    | connRead | connWrite | tdRead | tdWrite => simp only [board, nodesAt, hnet]
    | callback => simp only [board, nodesAt, hcallback]
    | freed => rfl

/-- One round of the loop of `logic_update`. -/
theorem flow_relay {it : Item Msg} {created : Bool} {r : Option ℕ}
    (hc : sv.KeepsNodes (.logic created r)) (hl : sv.logic = .handle)
    (hit : sv.net.output[sv.handled]? = some it)
    (hsv : sv' = { sv with handled := sv.handled + 1 }.relay it r) :
    Flow Msg sv.net.registry (sv.board h) (sv'.board h) (sv.Made h) (sv'.Made h) := by
  have hheld : sv.logic.held = [] := by rw [hl]; rfl
  have hkeep : it.node.msgConn = sv.upstream → it.node.msgType ≠ 0 →
      it.node.msgConn ≠ 0 ∧ it.node.cliConn ≠ 0 := by
    have hc' := hc
    rw [KeepsNodes, hl] at hc'
    exact hc' it hit
  unfold Server.relay at hsv
  split_ifs at hsv with hup hne hnull
  · obtain ⟨hconn, hcli⟩ := hkeep hup hne
    exact absurd hnull (by simp [hconn, hcli])
  · exact flow_take hheld hit (hsv ▸ rfl) (hsv ▸ rfl) (hsv ▸ rfl) (hsv ▸ rfl)
  · exact flow_take hheld hit (hsv ▸ rfl) (hsv ▸ rfl) (hsv ▸ rfl) (hsv ▸ rfl)
  · exact flow_take hheld hit (hsv ▸ rfl) (hsv ▸ rfl) (hsv ▸ rfl) (hsv ▸ rfl)

/-- `logic_update` frees the node it holds. -/
theorem flow_reset {it : Item Msg} {created : Bool} {r : Option ℕ}
    (hty : Typed sv.net.registry (sv.board h)) (hl : sv.logic = .reset it)
    (hsv : sv' = { sv with upstream := 0 }.setLogic .handle) :
    Flow Msg sv.net.registry (sv.board h) (sv'.board (h.record sv (.logic created r) sv'))
      (sv.Made h) (sv'.Made (h.record sv (.logic created r) sv')) := by
  have hheld : sv.nodesAt h .logic = [it] := by rw [nodesAt, hl]; rfl
  have hfrees : sv.frees (.logic created r) = [it] := by rw [frees, hl]
  have hfreed : (h.record sv (.logic created r) sv').freed = h.freed ++ [it] := by
    rw [record_freed hty fun jt hjt => ⟨.logic, ?_⟩, hfrees]
    rw [hheld, ← hfrees]
    exact hjt
  refine .move (p := .logic) (d := .freed) [it] (by simp) ?_ ?_ (fun q hq hd => ?_)
    (made_congr (hsv ▸ rfl) (List.append_nil _))
  · rw [board, hheld, hsv]
    rfl
  · rw [board, nodesAt, hfreed, List.map_append]
    rfl
  · rw [hsv]
    cases q with
    | logic => exact absurd rfl hq
    | freed => exact absurd rfl hd
    | connRead | connWrite | tdRead | tdWrite | recv | callback => rfl

/-- `get_msgnode` makes a registration. -/
theorem flow_regist {h' : NodeHistory Msg} {w id : ℕ} {it : Item Msg}
    (hcb : (sv.callback w).hand = []) (hid : id ∉ h.regists) (hsrc : it.src = .regist id)
    (hty : (sv.net.registry it.node.msgType).isSome) (hfreed : h'.freed = h.freed)
    (hregists : h'.regists = h.regists ++ [id]) :
    Flow Msg sv.net.registry (sv.board h) ((sv.setCallback w (.send it)).board h') (sv.Made h)
      ((sv.setCallback w (.send it)).Made h') := by
  refine .make (q := .callback w) [it] ?_ (fun q hq => ?_) (List.nodup_singleton _)
    (fun jt hjt => ?_) (fun x => ?_) fun jt hjt => List.mem_singleton.mp hjt ▸ hty
  · show ((sv.setCallback w (.send it)).callback w).hand.map tag = (sv.callback w).hand.map tag ++ _
    rw [setCallback_callback, if_pos rfl, hcb]
    rfl
  · cases q with
    | callback v =>
      have hv : v ≠ w := fun heq => hq (by rw [heq])
      show ((sv.setCallback w (.send it)).callback v).hand.map tag = _
      rw [setCallback_callback, if_neg hv]
      rfl
    | freed =>
      show h'.freed.map tag = _
      rw [hfreed]
      rfl
    | connRead | connWrite | tdRead | tdWrite | recv | logic => rfl
  · rw [List.mem_singleton.mp hjt, hsrc]
    exact hid
  · rw [List.map_singleton, List.mem_singleton, hsrc]
    cases x with
    | regist v =>
      show v ∈ h'.regists ↔ v ∈ h.regists ∨ _
      rw [hregists, List.mem_append, List.mem_singleton, Source.regist.injEq]
    | wire v i =>
      show i < (sv.net.life v).decoded.length ↔ _
      simp [Made]
    | notice v =>
      show (sv.net.life v).noticed = true ↔ _
      simp [Made]

/-- **Every step is one movement of nodes.** -/
theorem flow_step {m : Move} (hw : sv.net.WellPlaced) (ho : sv.net.InOrder)
    (hin : sv.InCallback h.regists) (hhandled : sv.handled ≤ sv.net.output.length)
    (hty : Typed sv.net.registry (sv.board h)) (hc : sv.KeepsNodes m)
    (hs : sv.step G .gate m = some sv') :
    Flow Msg sv.net.registry (sv.board h) (sv'.board (h.record sv m sv')) (sv.Made h)
      (sv'.Made (h.record sv m sv')) := by
  have hcallback : ∀ {w : ℕ} {pc : CallbackPc Msg},
      pc.hand.map tag = (sv.callback w).hand.map tag → ∀ v,
      ((sv.setCallback w pc).callback v).hand.map tag = (sv.callback v).hand.map tag := by
    intro w pc heq v
    rw [setCallback_callback]
    split
    · next hv => rw [heq, hv]
    · rfl
  have hregisters : ∀ {w created junk}, sv.callback w ≠ .regist →
      sv.registers (.callback w created junk) = [] := by
    intro w created junk hne
    dsimp only [registers]
    split
    · next heq => exact absurd heq hne
    · rfl
  cases step_cases hs with
  | accept hn | clock hn | made _ hn =>
    rw [record_of_nil rfl rfl]
    exact flow_still (Layer.still_of_step hw ho hn (by simp) (by simp) (by simp)) rfl rfl fun _ => rfl
  | @worker w e net hp hn =>
    refine flow_worker hw ho hty hc hn rfl rfl (hcallback ?_)
    rcases hin.phase w with heq | heq | ⟨a, ok, hcall, -⟩
    · rw [heq]
    · rw [heq]
      rfl
    · exact absurd hcall (hp a ok)
  | returned hp hcb hn => exact flow_worker hw ho hty hc hn rfl rfl fun _ => rfl
  | compare hp hcb =>
    rw [record_of_nil rfl (hregisters (by rw [hcb]; simp))]
    refine flow_still (.refl _) rfl rfl (hcallback ?_)
    rw [hcb]
    split
    · split <;> rfl
    · rfl
  | setInitOk hp hcb =>
    rw [record_of_nil rfl (hregisters (by rw [hcb]; simp))]
    exact flow_still (.refl _) rfl rfl (hcallback (by rw [hcb]; rfl))
  | registNull hp hcb hn =>
    rw [record_of_nil rfl (by simp [registers, hp, hcb, hn])]
    exact flow_still (.refl _) rfl rfl (hcallback (by rw [hcb]; rfl))
  | @regist w created junk a ok c node hp hcb ha hn =>
    obtain ⟨cls, hcls, hnode⟩ := Option.map_eq_some_iff.mp hn
    have hup : sv.upstream ≠ 0 := by
      have hc' := hc
      rw [KeepsNodes, hcb] at hc'
      exact hc'
    have hok : ok = true :=
      hin.ok hp (by rw [hcb]; simp) (by rw [hcb]; simp) (by rw [hcb]; simp)
    have hid : c.id ∉ h.regists := by
      intro hmem
      have hreg := hin.once (hok ▸ hp) ha hmem
      rw [hcb] at hreg
      exact hreg
    have hregisters : sv.registers (.callback w created junk) = [c.id] := by
      simp [registers, hp, hcb, hcls, idAt, ha]
    rw [if_neg hup]
    refine flow_regist (by rw [hcb]; rfl) hid rfl ?_ (List.append_nil _) ?_
    · rw [registNode, ← hnode]
      exact Option.isSome_iff_exists.mpr ⟨cls, hcls⟩
    · rw [NodeHistory.record, hregisters]
  | callbackSend hp hcb hv =>
    rw [record_of_nil rfl (hregisters (by rw [hcb]; simp))]
    exact flow_still (.refl _) rfl rfl (hcallback (by rw [hcb]; rfl))
  | @callbackPush w created junk a ok it v net hp hcb hn =>
    simp only [Layer.step, Option.ite_none_right_eq_some, Option.some.injEq] at hn
    rw [record_of_nil rfl (hregisters (by rw [hcb]; simp))]
    refine flow_push (p := .callback w) hn.2.symm (by simp) ?_ rfl rfl ?_ (fun _ => rfl) fun u hu => ?_
    · rw [nodesAt, hcb]
      rfl
    · show ((sv.setNet net).setCallback w .done |>.callback w).hand = []
      rw [setCallback_callback, if_pos rfl]
      rfl
    · rw [setCallback_callback, if_neg fun heq => hu (by rw [heq])]
      rfl
  | @connectGs w created junk a ok hp hcb =>
    rw [record_of_nil rfl (hregisters (by rw [hcb]; simp))]
    have hworker : (if created then sv.createWorker .gate else sv).net = sv.net := by
      cases created <;> rfl
    refine flow_still ?_ ?_ ?_ ?_
    · rw [setCallback, hworker]
      exact .refl _
    · cases created <;> rfl
    · cases created <;> rfl
    · cases created <;> exact hcallback (by rw [hcb]; rfl)
  | checkUnset | checkSet | refused | broken | storeGate | sleep =>
    rw [record_of_nil rfl rfl]
    exact flow_still (.refl _) rfl rfl fun _ => rfl
  | storeGame hk | process hk | processClose hk => cases hk
  | @init created r hl =>
    rw [record_of_nil (frees_logic (by simp [hl])) rfl]
    cases created <;> exact flow_still (.refl _) rfl (by rw [hl]; rfl) fun _ => rfl
  | idle hl | fetched hl | handledAll hl | send hl =>
    rw [record_of_nil (frees_logic (by simp [hl])) rfl]
    exact flow_still (.refl _) rfl (by rw [hl]; rfl) fun _ => rfl
  | fetch hl hn =>
    rw [record_of_nil (frees_logic (by simp [hl])) rfl]
    simp only [Layer.step, Option.ite_none_right_eq_some, Option.some.injEq] at hn
    refine (flow_getMsgs hn.2.symm hhandled).congr (board_still (.refl _) rfl ?_ fun _ => rfl)
      (made_still (.refl _) rfl)
    rw [hl]
    rfl
  | relay _ hl hit =>
    rw [record_of_nil (frees_logic (by simp [hl])) rfl]
    exact flow_relay hc hl hit rfl
  | reset hl => exact flow_reset hty hl rfl
  | @toGs created r it hl =>
    have hc' := hc
    rw [KeepsNodes, hl] at hc'
    rw [record_of_nil (frees_logic (by simp [hl])) rfl, if_neg (by simp [hc'.1, hc'.2])]
    exact flow_still (.refl _) rfl (by rw [hl]; rfl) fun _ => rfl
  | @push created r it v net hl hn =>
    simp only [Layer.step, Option.ite_none_right_eq_some, Option.some.injEq] at hn
    rw [record_of_nil (frees_logic (by simp [hl])) rfl]
    refine flow_push (p := .logic) hn.2.symm (by simp) ?_ rfl rfl rfl (fun hne => absurd rfl hne)
      fun _ _ => rfl
    rw [nodesAt, hl]
    rfl

/-! ### Every run -/

/-- What is known of the nodes in every run. -/
structure Accounted (sv : Server Cls Msg) (h : NodeHistory Msg) : Prop where
  inCallback : sv.InCallback h.regists
  handled : sv.handled ≤ sv.net.output.length
  typed : Typed sv.net.registry (sv.board h)
  custody : Custody (fun p => (sv.board h p).map Prod.fst) (sv.Made h)

theorem board_fst (sv : Server Cls Msg) (h : NodeHistory Msg) :
    (fun p => (sv.board h p).map Prod.fst) = sv.holds h := by
  funext p
  rw [board, List.map_map]
  rfl

/-- `logic_update` takes no more from `s_recv_msgs` than is in it. -/
theorem handled_step {m : Move} (h : sv.handled ≤ sv.net.output.length)
    (hs : ServerStep G .gate sv m sv') : sv'.handled ≤ sv'.net.output.length := by
  have hle : sv.net.output.length ≤ sv'.net.output.length := by
    rcases hs.net with heq | ⟨a, ha⟩
    · rw [heq]
    · rcases Layer.step_output ha with heq | ⟨w, -, heq⟩
      · rw [heq]
      · rw [heq, List.length_append]
        exact Nat.le_add_right ..
  cases hs with
  | @relay created r it _ _ hit =>
    have hrest := relay_rest { sv with handled := sv.handled + 1 } it r
    have hhandled := congrArg (fun q => q.2.2) hrest
    have hnet := congrArg Prod.fst hrest
    dsimp only at hhandled hnet
    rw [hhandled, hnet]
    exact (List.getElem?_eq_some_iff.mp hit).1
  | process hk | processClose hk => cases hk
  | @connectGs w created | @init created => cases created <;> exact h.trans hle
  | toGs => split <;> exact h
  | _ => exact h.trans hle

theorem accounted_start (threadNum : ℕ) (registry : Registry Cls) (clock : ℕ) :
    (Server.start .gate (.start threadNum registry clock) : Server Cls Msg).Accounted ⟨[], []⟩ := by
  have hnil : ∀ p, (Server.start .gate (.start threadNum registry clock) :
      Server Cls Msg).board ⟨[], []⟩ p = [] := fun p => by
    cases p <;> rfl
  refine ⟨⟨fun _ => .inr (.inl rfl), nofun, nofun, nofun⟩, Nat.zero_le _, fun p n hn => ?_,
    fun x hx => ?_, fun p x hx => ?_⟩
  · rw [hnil] at hn
    cases hn
  · cases x with
    | wire id i => exact absurd hx (Nat.not_lt_zero i)
    | notice id => cases hx
    | regist id => cases hx
  · rw [hnil] at hx
    cases hx

theorem Accounted.step {m : Move} (h' : sv.Accounted h) (hw : sv.net.WellPlaced)
    (ho : sv.net.InOrder) (hw' : sv'.net.WellPlaced) (hc : sv.KeepsNodes m)
    (hs : sv.step G .gate m = some sv') : sv'.Accounted (h.record sv m sv') := by
  have hcases := step_cases hs
  have hflow := flow_step hw ho h'.inCallback h'.handled h'.typed hc hs
  have hregistry : sv'.net.registry = sv.net.registry := by
    rcases hcases.net_regist with heq | ⟨a, ha, hne⟩
    · rw [heq]
    · exact Layer.step_registry ha hne
  refine ⟨h'.inCallback.step hw ho hw' hcases, handled_step h'.handled hcases, ?_,
    hflow.custody h'.custody⟩
  rw [hregistry]
  exact hflow.typed h'.typed

end Server

/-- The invariant in every run. -/
theorem accounted_of_reach {G : Generated Cls Msg} {p : Server Cls Msg × NodeHistory Msg}
    (h : (nodeSystem G).Reach (fun p m => p.1.KeepsNodes m) p) : p.1.Accounted p.2 := by
  refine h.invariant_of (P := fun p => p.1.Accounted p.2) ?_ fun p m p' hr hp hc hs => ?_
  · rintro ⟨sv, l⟩ ⟨⟨threadNum, registry, clock, -, rfl⟩, hl⟩
    dsimp only at hl
    subst hl
    exact Server.accounted_start ..
  · obtain ⟨hw, -, ho⟩ := inOrder_of_reach (net_of_reach hr.forget)
    have hnext : (nodeSystem G).Reach (fun p m => p.1.KeepsNodes m) p' := .next hr hc hs
    obtain ⟨hw', -, -⟩ := inOrder_of_reach (net_of_reach hnext.forget)
    obtain ⟨sv', hsv, rfl⟩ := Option.map_eq_some_iff.mp hs
    exact hp.step hw ho hw' hc hsv

/-- **Each node made is in one place, and there once**, in every run of the gate in which no
`net_send` gets a null connection and no `Connection` is deleted with nodes in its queues. -/
theorem custody_of_reach {G : Generated Cls Msg} {p : Server Cls Msg × NodeHistory Msg}
    (h : (nodeSystem G).Reach (fun p m => p.1.KeepsNodes m) p) :
    Custody (p.1.holds p.2) (p.1.Made p.2) := by
  rw [← Server.board_fst]
  exact (accounted_of_reach h).custody

/-- The gate with a game server and a client at which the runs below begin. -/
def custodyStart : Server Protocol.MsgClass Protocol.Message × NodeHistory Protocol.Message :=
  (.start .gate (.start 1 Protocol.registry 0), ⟨[], []⟩)

/-- A frame of a client. -/
def clientFrame : List UInt8 := encodeNode Protocol.protobuf ⟨20001, 0, ⟨.registReq, some 5⟩, 0⟩

/-- The client's node is on its way to the game server, and the registration is written. -/
def frameRelayed : List Move :=
  gateAndClient ++
    ([.readEvent 32, .read (.data clientFrame ⟨[clientFrame]⟩), .go, .go, .go, .go, .go, .go, .go,
      .go, .go, .go] : List WorkerAct).map (.worker 0) ++
    List.replicate 7 (.logic true none) ++
    ([.go, .go, .go, .go, .go, .go, .go, .go, .read (.again true), .go, .go, .writeEvent 16,
      .write (.wrote 18)] : List WorkerAct).map (.worker 0)

theorem custody_frameRelayed : ∃ p,
    (nodeSystem Protocol.generated).exec custodyStart frameRelayed = some p ∧
      p.1.holds p.2 (.tdWrite 0) = [.wire 1 0] ∧ p.1.holds p.2 .freed = [.regist 0] ∧
      Custody (p.1.holds p.2) (p.1.Made p.2) := by
  obtain ⟨p, hp, hrun⟩ : ∃ p,
      (nodeSystem Protocol.generated).exec custodyStart frameRelayed = some p ∧
        (p.1.holds p.2 (.tdWrite 0), p.1.holds p.2 .freed) = ([.wire 1 0], [.regist 0]) := by
    refine Option.map_eq_some_iff.mp ?_
    decide +kernel
  have hc : (nodeSystem Protocol.generated).AllSteps (fun p m => p.1.KeepsNodes m) custodyStart
      frameRelayed := by
    decide +kernel
  rw [Prod.mk.injEq] at hrun
  refine ⟨p, hp, hrun.1, hrun.2, custody_of_reach (.of_exec (.start ?_) hc hp)⟩
  exact ⟨⟨1, Protocol.registry, 0, by decide, rfl⟩, rfl⟩

/-! ### Where a node is lost -/

/-- `net_send` with a null `s_game_conn` returns, and the node is in no place. -/
theorem Server.lost_of_unset {sv : Server Cls Msg} {h : NodeHistory Msg} {it : Item Msg}
    (hc : Custody (sv.holds h) (sv.Made h)) (hl : sv.logic = .toGs it) :
    ¬ Custody ((sv.setLogic .handle).holds h) ((sv.setLogic .handle).Made h) := by
  intro hc'
  have hmem : it.src ∈ sv.holds h .logic := by
    rw [holds, nodesAt, hl]
    exact List.mem_singleton_self it.src
  have hmade : (sv.setLogic .handle).Made h it.src := by
    rw [Server.made_congr rfl rfl]
    exact hc.only _ _ hmem
  obtain ⟨p, hone, -⟩ := hc'.one _ hmade
  have hp : it.src ∈ (sv.setLogic .handle).holds h p := List.count_pos_iff.mp (by omega)
  by_cases hlogic : p = .logic
  · rw [hlogic] at hp
    cases hp
  · have hsame : (sv.setLogic .handle).holds h p = sv.holds h p := by
      cases p with
      | logic => exact absurd rfl hlogic
      | connRead | tdRead | recv | tdWrite | connWrite | callback | freed => rfl
    exact (hc.here hmem).2 p hlogic (hsame ▸ hp)

/-- The game server hangs up while a frame of the client waits, and the logic thread sets
`s_game_conn` to 0. -/
def frameAndHangUp : List Move :=
  gateAndClient ++
    [.readEvent 32, .read (.data clientFrame ⟨[clientFrame]⟩), .readEvent 16, .read .eof, .go,
      .notice 0, .go, .go, .go, .go, .go, .go, .go, .go].map (.worker 0) ++
    List.replicate 6 (.logic true none)

/-- **A client's node is lost while `s_game_conn` is 0.** -/
theorem not_custody_frameAndHangUp : ∃ p,
    (nodeSystem Protocol.generated).Reach Lts.Free p ∧
      ¬ Custody (p.1.holds p.2) (p.1.Made p.2) := by
  obtain ⟨p, hp, hrun⟩ : ∃ p,
      (nodeSystem Protocol.generated).exec custodyStart frameAndHangUp = some p ∧
        ((match p.1.logic with | .toGs it => some it.src | _ => none), p.1.upstream) =
          (some (.wire 1 0), 0) := by
    refine Option.map_eq_some_iff.mp ?_
    decide +kernel
  have hc : (nodeSystem Protocol.generated).AllSteps (fun p m => p.1.KeepsNodes m) custodyStart
      frameAndHangUp := by
    decide +kernel
  rw [Prod.mk.injEq] at hrun
  obtain ⟨hlogic, hup⟩ := hrun
  have hreach : (nodeSystem Protocol.generated).Reach (fun p m => p.1.KeepsNodes m) p :=
    .of_exec (.start ⟨⟨1, Protocol.registry, 0, by decide, rfl⟩, rfl⟩) hc hp
  split at hlogic
  · next it hl =>
    have hbefore : Custody (p.1.holds p.2) (p.1.Made p.2) := by
      rw [← Server.board_fst]
      exact (accounted_of_reach hreach).custody
    have hstep : p.1.step Protocol.generated .gate (.logic true none) =
        some (p.1.setLogic .handle) := by
      show p.1.logicStep Protocol.generated .gate true none = _
      simp [Server.logicStep, hl, hup]
    have hf : p.1.frees (.logic true none) = [] := by
      simp [Server.frees, hl]
    refine ⟨(p.1.setLogic .handle, p.2), ?_, Server.lost_of_unset hbefore hl⟩
    refine .next (a := .logic true none) (hreach.mono fun _ _ _ => trivial) trivial ?_
    refine Option.map_eq_some_iff.mpr ⟨_, hstep, ?_⟩
    rw [Server.record_of_nil hf rfl]
  · cases hlogic

end GoFight.Link
