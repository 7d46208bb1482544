import GoFight.Link.Notices
import GoFight.Net.Streams

/-!
# What the gate makes of a frame

A frame comes in on one connection of the gate, is decoded, routed by the address of its connection,
and goes out encoded anew.  `ParseFromArray` is called on the way, and what it returns is dropped.

* `relaySystem` — the gate, with the history of its calls `net_send(s_game_conn, msg_node)`;
* `Faithful` — at most one frame goes out for it, to the right side and with the same message, and
  none if its body does not parse;
* `Routes` — the condition on the step that takes its node: the body parsed, and the address in
  `s_game_conn` says which side it is from;
* `Aimed`, `Called` — what is sent as a client's goes to a connection made by `connect_to_gs`, the one
  in `s_game_conn` at the call;
* `faithful_of_reach` — the run theorem.
-/

namespace GoFight.Link

open GoFight.Lib GoFight.Net

variable {Cls Msg : Type*}

/-! ### The calls of `net_send` -/

/-- History: the calls `net_send(s_game_conn, msg_node)`, with the node's source and the address. -/
def recordCall (sv : Server Cls Msg) (m : Move) (_sv' : Server Cls Msg)
    (calls : List (Source × Addr)) : List (Source × Addr) :=
  match m, sv.logic with
  | .logic _ _, .toGs it => calls ++ [(it.src, sv.upstream)]
  | _, _ => calls

/-- The gate, with that history. -/
def relaySystem (G : Generated Cls Msg) : Lts (Server Cls Msg × List (Source × Addr)) Move :=
  (serverSystem G .gate).withHistory [] recordCall

/-! ### The property -/

/-- What follows the header of a frame. -/
def frameBody (f : List UInt8) : List UInt8 := (f.drop 16).take (bodyLen f).toNat

/-- The `cli_conn_` in the header of a frame. -/
def frameCliConn (f : List UInt8) : UInt64 := u64Val ((f.drop 4).take 8)

/-- `ParseFromArray` takes the body as a message of the frame's type. -/
def Parses (pb : Protobuf Cls Msg) (reg : Registry Cls) (f : List UInt8) : Prop :=
  ∀ c ∈ reg (i32Val (f.take 4)), (pb.parseFromArray (pb.newMsg c) (frameBody f)).1 = true

instance (pb : Protobuf Cls Msg) (reg : Registry Cls) (f : List UInt8) :
    Decidable (Parses pb reg f) :=
  Option.decidableForallMem _

/-- The node of a call of `net_send` by the logic thread. -/
def LogicPc.addressed : LogicPc Msg → List (Item Msg)
  | .send it => [it]
  | .push _ it => [it]
  | _ => []

namespace Server

/-- It is the address of a connection that `connect_to_gs` made. -/
def IsGs (sv : Server Cls Msg) (a : Addr) : Prop :=
  ∃ g < sv.net.nextId, (sv.net.life g).connector = true ∧ (sv.net.life g).addr = a

/-- The node `it` tells what the frame `f` of the incarnation `id` tells. -/
structure FaithfulCopy (G : Generated Cls Msg) (sv : Server Cls Msg) (calls : List (Source × Addr))
    (id : ℕ) (f : List UInt8) (it : Item Msg) : Prop where
  parses : Parses G.toProtobuf sv.net.registry f
  msgType : it.node.msgType = i32Val (f.take 4)
  /-- Its body, as it will be written, decodes to what the frame's decodes to. -/
  body : ∀ c ∈ sv.net.registry (i32Val (f.take 4)),
    G.parseFromArray (G.newMsg c) (G.serializeToArray it.node.msgData) =
      G.parseFromArray (G.newMsg c) (frameBody f)
  /-- Of a client: it goes to the game server, the one in `s_game_conn` when `net_send` was called
  with it, under the client's address. -/
  client : (sv.net.life id).connector = false →
    it.role = .request ∧ it.node.cliConn = (sv.net.life id).addr ∧
      (it.src, it.node.msgConn) ∈ calls ∧ sv.IsGs it.node.msgConn
  /-- Of the game server: it goes to the client the header names. -/
  gs : (sv.net.life id).connector = true →
    it.node.cliConn = frameCliConn f ∧ it.node.msgConn = frameCliConn f

/-- **The frame `f`, the `k`-th on the incarnation `id`, is relayed faithfully.** -/
structure Faithful (G : Generated Cls Msg) (sv : Server Cls Msg) (calls : List (Source × Addr))
    (id k : ℕ) (f : List UInt8) : Prop where
  once : (sv.net.pushes.map Item.src).count (.wire id k) ≤ 1
  copy : ∀ it ∈ sv.net.pushes, it.src = .wire id k → sv.FaithfulCopy G calls id f it

/-! ### The condition -/

/-- When the logic thread takes the `k`-th node of the incarnation `id`, its frame's body has parsed,
and `s_game_conn` has its address just when it is a connection to the game server. -/
def Routes (G : Generated Cls Msg) (id k : ℕ) (sv : Server Cls Msg) (m : Move) : Prop :=
  match m, sv.logic with
  | .logic _ _, .handle =>
      ∀ it ∈ sv.net.output[sv.handled]?, it.src = .wire id k →
        (it.node.msgConn = sv.upstream ↔ (sv.net.life id).connector = true) ∧
          ∀ f ∈ (registeredFrames sv.net.registry (sv.net.life id).received)[k]?,
            Parses G.toProtobuf sv.net.registry f
  | _, _ => True

instance (G : Generated Cls Msg) (id k : ℕ) (sv : Server Cls Msg) (m : Move) :
    Decidable (sv.Routes G id k m) :=
  show Decidable (match m, sv.logic with
    | .logic _ _, .handle => ∀ it ∈ sv.net.output[sv.handled]?, it.src = .wire id k →
        (it.node.msgConn = sv.upstream ↔ (sv.net.life id).connector = true) ∧
          ∀ f ∈ (registeredFrames sv.net.registry (sv.net.life id).received)[k]?,
            Parses G.toProtobuf sv.net.registry f
    | _, _ => True) from
  match m, sv.logic with
  | .logic _ _, .handle =>
      have (o : Option (List UInt8)) : Decidable (∀ f ∈ o, Parses G.toProtobuf sv.net.registry f) :=
        Option.decidableForallMem _
      Option.decidableForallMem _
  | .logic _ _, .init | .logic _ _, .idle | .logic _ _, .fetch _ | .logic _ _, .reset _
  | .logic _ _, .toGs _ | .logic _ _, .send _ | .logic _ _, .push _ _ | .accept _, _ | .clock _, _
  | .worker _ _, _ | .callback _ _ _, _ | .connect _ _, _ => isTrue trivial

variable {G : Generated Cls Msg} {sv sv' : Server Cls Msg} {id k : ℕ}

/-! ### Where a client's node goes -/

/-- Addresses stay what they are. -/
theorem IsGs.step {kind : Kind} {m : Move} {a : Addr} (h : sv.IsGs a) (hw : sv.net.WellPlaced)
    (hs : ServerStep G kind sv m sv') : sv'.IsGs a := by
  obtain ⟨g, hg, hconn, haddr⟩ := h
  rcases hs.net with heq | ⟨act, hact⟩
  · rw [IsGs, heq]
    exact ⟨g, hg, hconn, haddr⟩
  · refine ⟨g, hg.trans_le (Layer.nextId_le hact), ?_, ?_⟩
    · rw [Layer.step_connector hw hact hg, hconn]
    · rw [Layer.step_addr hw hact hg, haddr]

/-- What `net_connect` returns. -/
def Returned (sv : Server Cls Msg) (a : Addr) : Prop := a = 0 ∨ a = -1 ∨ sv.IsGs a

/-- A client's node is sent to where `s_game_conn` points, and there is an object. -/
structure Aimed (sv : Server Cls Msg) : Prop where
  upstream : sv.Returned sv.upstream
  threads : ∀ {v}, .store v ∈ sv.threads → sv.Returned v
  send : ∀ {it}, sv.logic = .send it → it.role = .request →
    it.node.msgConn ≠ 0 ∧ sv.Returned it.node.msgConn
  push : ∀ {v it}, sv.logic = .push v it → it.role = .request → sv.IsGs it.node.msgConn
  pushes : ∀ it ∈ sv.net.pushes, it.src.conn.isSome → it.role = .request → sv.IsGs it.node.msgConn

namespace Aimed

theorem congr (h : sv.Aimed) (hgs : ∀ {a}, sv.IsGs a → sv'.IsGs a)
    (hupstream : sv'.upstream = sv.upstream)
    (hthreads : ∀ {v}, .store v ∈ sv'.threads → .store v ∈ sv.threads ∨ sv'.Returned v)
    (hlogic : sv'.logic = sv.logic) (hpushes : sv'.net.pushes = sv.net.pushes) : sv'.Aimed := by
  have hreturned : ∀ {a}, sv.Returned a → sv'.Returned a := fun h => h.imp_right (.imp_right hgs)
  refine ⟨?_, fun hv => ?_, fun hl hrole => ?_, fun hl hrole => ?_, fun it hit hsome hrole => ?_⟩
  · rw [hupstream]
    exact hreturned h.upstream
  · exact (hthreads hv).elim (fun hv => hreturned (h.threads hv)) fun hv => hv
  · rw [hlogic] at hl
    exact (h.send hl hrole).imp_right hreturned
  · rw [hlogic] at hl
    exact hgs (h.push hl hrole)
  · rw [hpushes] at hit
    exact hgs (h.pushes it hit hsome hrole)

/-- The logic thread goes on. -/
theorem setLogic (h : sv.Aimed) {net : Layer Cls Msg} {n : ℕ} {pc : LogicPc Msg} {u : Addr}
    (hgs : ∀ {a}, sv.IsGs a → ({ sv with net := net } : Server Cls Msg).IsGs a)
    (hpushes : net.pushes = sv.net.pushes) (hu : u = sv.upstream ∨ u = 0)
    (hsend : ∀ {it}, pc = .send it → it.role = .request →
      it.node.msgConn ≠ 0 ∧ sv.Returned it.node.msgConn)
    (hpush : ∀ {v it}, pc = .push v it → it.role = .request → sv.IsGs it.node.msgConn) :
    ({ sv with net := net, upstream := u, handled := n, logic := pc } : Server Cls Msg).Aimed := by
  have hreturned : ∀ {a}, sv.Returned a → ({ sv with net := net } : Server Cls Msg).Returned a :=
    fun h => h.imp_right (.imp_right hgs)
  refine ⟨?_, fun hv => hreturned (h.threads hv), fun hl hrole => (hsend hl hrole).imp_right hreturned,
    fun hl hrole => hgs (hpush hl hrole), fun it hit hsome hrole => ?_⟩
  · rcases hu with rfl | rfl
    · exact hreturned h.upstream
    · exact .inl rfl
  · change it ∈ net.pushes at hit
    rw [hpushes] at hit
    exact hgs (h.pushes it hit hsome hrole)

/-- **Every step.** -/
theorem step {m : Move} (h : sv.Aimed) (hw : sv.net.WellPlaced) (hal : sv.net.Aligned)
    (hcopied : sv.Copied) (hs : ServerStep G .gate sv m sv') : sv'.Aimed := by
  have hgs : ∀ {a}, sv.IsGs a → sv'.IsGs a := fun ha => ha.step hw hs
  cases hs with
  | accept hn | clock hn | worker _ hn | returned _ _ hn =>
    exact h.congr hgs rfl .inl rfl (pushes_of_step hn (by simp))
  | compare | setInitOk | registNull | regist | callbackSend => exact h.congr hgs rfl .inl rfl rfl
  | @callbackPush w created junk a ok it v net hp hcb hn =>
    have hown : Own it := hcopied.callback w it (by rw [hcb]; exact List.mem_singleton_self it)
    have hpushes : net.pushes = sv.net.pushes ++ [it] := Layer.step_pushes hn
    refine ⟨h.upstream.imp_right (.imp_right hgs), fun hv => (h.threads hv).imp_right (.imp_right hgs),
      fun hl hrole => (h.send hl hrole).imp_right (.imp_right (.imp_right hgs)),
      fun hl hrole => hgs (h.push hl hrole), fun jt hjt hsome hrole => ?_⟩
    change jt ∈ net.pushes at hjt
    rw [hpushes] at hjt
    rcases List.mem_append.mp hjt with hjt | hjt
    · exact hgs (h.pushes jt hjt hsome hrole)
    · rw [List.mem_singleton.mp hjt, hown.1] at hsome
      cases hsome
  | @connectGs w created =>
    cases created with
    | false => exact h.congr hgs rfl .inl rfl rfl
    | true =>
      refine h.congr hgs rfl (fun hv => .inl ?_) rfl rfl
      rcases List.mem_append.mp hv with hv | hv
      · exact hv
      · cases List.mem_singleton.mp hv
  | @checkUnset i | @sleep i =>
    refine h.congr hgs rfl (fun hv => .inl ?_) rfl rfl
    rcases List.mem_or_eq_of_mem_set hv with hv | hv
    · exact hv
    · cases hv
  | checkSet => exact h.congr hgs rfl (fun hv => .inl (List.mem_of_mem_eraseIdx hv)) rfl rfl
  | refused =>
    refine h.congr hgs rfl (fun hv => ?_) rfl rfl
    rcases List.mem_or_eq_of_mem_set hv with hv | hv
    · exact .inl hv
    · cases hv
      exact .inr (.inl rfl)
  | broken =>
    refine h.congr hgs rfl (fun hv => ?_) rfl rfl
    rcases List.mem_or_eq_of_mem_set hv with hv | hv
    · exact .inl hv
    · cases hv
      exact .inr (.inr (.inl rfl))
  | @made i a net hi hn =>
    refine h.congr hgs rfl (fun hv => ?_) rfl (pushes_of_step hn (by simp))
    rcases List.mem_or_eq_of_mem_set hv with hv | hv
    · exact .inl hv
    · cases hv
      refine .inr (.inr (.inr ⟨sv.net.nextId, ?_⟩))
      simp only [Layer.step, Option.ite_none_right_eq_some, Option.some.injEq] at hn
      obtain ⟨-, rfl⟩ := hn
      have hlife : ((sv.net.netConnect a).life sv.net.nextId) = .new a true := by
        show (sv.net.alloc a .connecting true).life sv.net.nextId = _
        rw [Layer.alloc_life, if_pos rfl]
      refine ⟨Nat.lt_succ_self _, ?_, ?_⟩
      · exact congrArg Life.connector hlife
      · exact congrArg Life.addr hlife
  | @storeGate i r v _ hi =>
    have hv : sv.Returned v := h.threads (List.mem_of_getElem? hi)
    refine ⟨hv, fun hmem => ?_, h.send, h.push, h.pushes⟩
    rcases List.mem_or_eq_of_mem_set hmem with hmem | hmem
    · exact h.threads hmem
    · cases hmem
  | storeGame hk | process hk | processClose hk => cases hk
  | @init created r hl =>
    have hnone : ∀ threads, (∀ {v}, .store v ∈ threads → .store v ∈ sv.threads) →
        ({ sv with threads := threads, initOk := sv.initOk || Kind.gate = .game, logic := .idle } :
          Server Cls Msg).Aimed := fun threads hthreads =>
      ⟨h.upstream, fun hv => h.threads (hthreads hv), by simp, by simp, h.pushes⟩
    cases created with
    | false => exact hnone sv.threads id
    | true =>
      refine hnone (sv.threads ++ [.check]) fun hv => ?_
      rcases List.mem_append.mp hv with hv | hv
      · exact hv
      · cases List.mem_singleton.mp hv
  | fetch hl hn => exact h.setLogic hgs (pushes_of_step hn (by simp)) (.inl rfl) (by simp) (by simp)
  | idle | fetched | handledAll => exact h.setLogic hgs rfl (.inl rfl) (by simp) (by simp)
  | reset => exact h.setLogic hgs rfl (.inr rfl) (by simp) (by simp)
  | @relay created r it =>
    unfold Server.relay at hgs ⊢
    split_ifs
    · exact h.setLogic (fun ha => ha) rfl (.inl rfl) h.send h.push
    · refine h.setLogic (fun ha => ha) rfl (.inl rfl) (fun heq hrole => ?_) (by simp)
      cases heq
      cases hrole
    · exact h.setLogic (fun ha => ha) rfl (.inl rfl) (by simp) (by simp)
    · exact h.setLogic (fun ha => ha) rfl (.inl rfl) (by simp) (by simp)
  | @toGs created r it hl =>
    split_ifs with hnull
    · exact h.setLogic (fun ha => ha) rfl (.inl rfl) (by simp) (by simp)
    · rw [not_or] at hnull
      refine h.setLogic (fun ha => ha) rfl (.inl rfl) (fun heq _ => ?_) (by simp)
      cases heq
      exact ⟨hnull.2, h.upstream⟩
  | @send created r it v hl hv =>
    refine h.setLogic (fun ha => ha) rfl (.inl rfl) (by simp) fun heq hrole => ?_
    cases heq
    obtain ⟨hne, hret⟩ := h.send hl hrole
    -- there is an object, and none is at -1
    obtain ⟨c, hc, -⟩ := Option.bind_eq_some_iff.mp hv
    have hmod := (hal c.id (hw.id_lt hc)).2
    rw [hw.addr hc] at hmod
    rcases hret with h₀ | h₁ | hgs
    · exact absurd h₀ hne
    · rw [h₁] at hmod
      exact absurd hmod (by decide)
    · exact hgs
  | @push created r it v net hl hn =>
    have hpushes : net.pushes = sv.net.pushes ++ [it] := Layer.step_pushes hn
    refine ⟨h.upstream.imp_right (.imp_right hgs), fun hv => (h.threads hv).imp_right (.imp_right hgs),
      (fun heq => by cases heq), (fun heq => by cases heq), fun jt hjt hsome hrole => ?_⟩
    change jt ∈ net.pushes at hjt
    rw [hpushes] at hjt
    rcases List.mem_append.mp hjt with hjt | hjt
    · exact hgs (h.pushes jt hjt hsome hrole)
    · rw [List.mem_singleton.mp hjt] at hrole ⊢
      exact hgs (h.push hl hrole)

end Aimed

/-- The nodes the logic thread has given an address to send to, but for registrations. -/
def addressed (sv : Server Cls Msg) : List (Item Msg) :=
  (sv.net.pushes.filter fun it => it.src.conn.isSome) ++ sv.logic.addressed

/-- What is addressed as a client's after a step was so before, or was just given `s_game_conn`. -/
theorem ServerStep.addressed {m : Move} (hcopied : sv.Copied) (hs : ServerStep G .gate sv m sv')
    {jt : Item Msg} (hjt : jt ∈ sv'.addressed) (hrole : jt.role = .request) :
    jt ∈ sv.addressed ∨ ∃ it created r, sv.logic = .toGs it ∧ m = .logic created r ∧
      jt.src = it.src ∧ jt.node.msgConn = sv.upstream := by
  have hsame : sv'.net.pushes = sv.net.pushes →
      sv'.logic.addressed = sv.logic.addressed ∨ sv'.logic.addressed = [] → jt ∈ sv.addressed := by
    intro hpushes hlogic
    rw [Server.addressed, hpushes] at hjt
    rcases List.mem_append.mp hjt with hjt | hjt
    · exact List.mem_append_left _ hjt
    · rcases hlogic with heq | heq
      · exact List.mem_append_right _ (heq ▸ hjt)
      · rw [heq] at hjt
        cases hjt
  cases hs with
  | accept hn | clock hn | worker _ hn | returned _ _ hn | made _ hn =>
    exact .inl (hsame (pushes_of_step hn (by simp)) (.inl rfl))
  | compare | setInitOk | registNull | regist | callbackSend | checkUnset | checkSet | refused
  | broken | storeGate | sleep => exact .inl (hsame rfl (.inl rfl))
  | storeGame hk | process hk | processClose hk => cases hk
  | connectGs => exact .inl (hsame (by split_ifs <;> rfl) (.inl (by split_ifs <;> rfl)))
  | init => exact .inl (hsame (by dsimp only [initConfig]; split_ifs <;> rfl) (.inr rfl))
  | fetch _ hn => exact .inl (hsame (pushes_of_step hn (by simp)) (.inr rfl))
  | idle | fetched | handledAll | reset => exact .inl (hsame rfl (.inr rfl))
  | send hl => exact .inl (hsame rfl (.inl (by rw [hl]; rfl)))
  | @callbackPush w created junk a ok it v net hp hcb hn =>
    have hown : Own it := hcopied.callback w it (by rw [hcb]; exact List.mem_singleton_self it)
    have hpushes : net.pushes = sv.net.pushes ++ [it] := Layer.step_pushes hn
    left
    change jt ∈ (net.pushes.filter fun it => it.src.conn.isSome) ++ sv.logic.addressed at hjt
    rw [hpushes, List.filter_append] at hjt
    simpa [Server.addressed, hown.1] using hjt
  | @relay created r it hk hl =>
    unfold Server.relay at hjt hsame
    split_ifs at hjt hsame
    · exact .inl (hsame rfl (.inl rfl))
    · rcases List.mem_append.mp hjt with hjt | hjt
      · exact .inl (List.mem_append_left _ hjt)
      · -- an answer
        rw [List.mem_singleton.mp hjt] at hrole
        cases hrole
    · exact .inl (hsame rfl (.inr rfl))
    · exact .inl (hsame rfl (.inr rfl))
  | @toGs created r it hl =>
    split_ifs at hjt hsame
    · exact .inl (hsame rfl (.inr rfl))
    · rcases List.mem_append.mp hjt with hjt | hjt
      · exact .inl (List.mem_append_left _ hjt)
      · refine .inr ⟨it, created, r, hl, rfl, ?_⟩
        rw [List.mem_singleton.mp hjt]
        exact ⟨rfl, rfl⟩
  | @push created r it v net hl hn =>
    have hpushes : net.pushes = sv.net.pushes ++ [it] := Layer.step_pushes hn
    left
    change jt ∈ (net.pushes.filter fun it => it.src.conn.isSome) ++ [] at hjt
    rw [hpushes, List.append_nil, List.filter_append] at hjt
    rw [Server.addressed, hl]
    rcases List.mem_append.mp hjt with hjt | hjt
    · exact List.mem_append_left _ hjt
    · exact List.mem_append_right _ (List.mem_of_mem_filter hjt)

/-- A client's node goes to where `s_game_conn` pointed when `net_send` was called with it. -/
def Called (sv : Server Cls Msg) (calls : List (Source × Addr)) : Prop :=
  ∀ it ∈ sv.addressed, it.role = .request → (it.src, it.node.msgConn) ∈ calls

theorem Called.step {m : Move} {calls : List (Source × Addr)} (h : sv.Called calls)
    (hcopied : sv.Copied) (hs : ServerStep G .gate sv m sv') :
    sv'.Called (recordCall sv m sv' calls) := by
  have hkeep : calls ⊆ recordCall sv m sv' calls := by
    unfold recordCall
    split
    · exact List.subset_append_left _ _
    · exact List.Subset.refl _
  intro jt hjt hrole
  rcases hs.addressed hcopied hjt hrole with hold | ⟨it, created, r, hl, rfl, hsrc, hconn⟩
  · exact hkeep (h jt hold hrole)
  · have hcall : recordCall sv (.logic created r) sv' calls = calls ++ [(it.src, sv.upstream)] := by
      rw [recordCall.eq_def, hl]
    rw [hsrc, hconn, hcall]
    exact List.mem_append_right _ (List.mem_singleton_self _)

/-! ### Which side a node is from -/

/-- What is relayed after a step was relayed before, or is what becomes of the node it takes. -/
theorem ServerStep.relayed {kind : Kind} {m : Move} (hcopied : sv.Copied)
    (hs : ServerStep G kind sv m sv') : ∀ jt ∈ sv'.relayed,
      (∃ it ∈ sv.relayed, jt.src = it.src ∧ jt.role = it.role) ∨
        ∃ o, sv.Takes m o ∧ jt.src = o.src ∧
          (o.node.msgConn = sv.upstream ∧ jt.role ≠ .request ∨
            o.node.msgConn ≠ sv.upstream ∧ jt.role = .request) := by
  intro jt hjt
  have hkeep : ∀ {hand : List (Item Msg)}, sv'.net.pushes = sv.net.pushes → sv'.logic.hand = hand →
      (∀ it ∈ hand, ∃ it' ∈ sv.logic.hand, it.src = it'.src ∧ it.role = it'.role) →
        ∃ it ∈ sv.relayed, jt.src = it.src ∧ jt.role = it.role := by
    intro hand hpushes hhand hsub
    rw [Server.relayed, hpushes, hhand] at hjt
    rcases List.mem_append.mp hjt with hjt | hjt
    · exact ⟨jt, List.mem_append_left _ hjt, rfl, rfl⟩
    · obtain ⟨it, hit, heq⟩ := hsub jt hjt
      exact ⟨it, List.mem_append_right _ hit, heq⟩
  have hsame : sv'.net.pushes = sv.net.pushes → sv'.logic = sv.logic →
      ∃ it ∈ sv.relayed, jt.src = it.src ∧ jt.role = it.role := fun hpushes hlogic =>
    hkeep hpushes (congrArg LogicPc.hand hlogic) fun it hit => ⟨it, hit, rfl, rfl⟩
  have hnone : sv'.net.pushes = sv.net.pushes → sv'.logic.hand = [] →
      ∃ it ∈ sv.relayed, jt.src = it.src ∧ jt.role = it.role := fun hpushes hhand =>
    hkeep hpushes hhand (by simp)
  cases hs with
  | accept hn | clock hn | worker _ hn | returned _ _ hn | made _ hn | processClose _ _ _ hn =>
    exact .inl (hsame (pushes_of_step hn (by simp)) rfl)
  | compare | setInitOk | registNull | regist | callbackSend | checkUnset | checkSet | refused
  | broken | storeGate | storeGame | sleep | process => exact .inl (hsame rfl rfl)
  | connectGs => exact .inl (hsame (by split_ifs <;> rfl) (by split_ifs <;> rfl))
  | init => exact .inl (hnone (by dsimp only [initConfig]; split_ifs <;> rfl) rfl)
  | fetch _ hn => exact .inl (hnone (pushes_of_step hn (by simp)) rfl)
  | idle | fetched | handledAll | reset => exact .inl (hnone rfl rfl)
  | @callbackPush w created junk a ok it v net hp hcb hn =>
    have hown : Own it := hcopied.callback w it (by rw [hcb]; exact List.mem_singleton_self it)
    have hpushes : net.pushes = sv.net.pushes ++ [it] := Layer.step_pushes hn
    refine .inl ⟨jt, ?_, rfl, rfl⟩
    change jt ∈ (net.pushes.filter fun it => it.src.conn.isSome) ++ sv.logic.hand at hjt
    rw [hpushes, List.filter_append] at hjt
    simpa [Server.relayed, hown.1] using hjt
  | @relay created r it _ hl hit =>
    have htakes : sv.Takes (.logic created r) it := ⟨hl, hit, created, r, rfl⟩
    -- the copy in hand, or one relayed before
    have hcases : ∀ {pc : LogicPc Msg} {kt}, pc.hand = [kt] →
        jt ∈ (sv.net.pushes.filter fun it => it.src.conn.isSome) ++ pc.hand →
          jt = kt ∨ ∃ it ∈ sv.relayed, jt.src = it.src ∧ jt.role = it.role := by
      intro pc kt hpc hmem
      rw [hpc] at hmem
      rcases List.mem_append.mp hmem with hmem | hmem
      · exact .inr ⟨jt, List.mem_append_left _ hmem, rfl, rfl⟩
      · exact .inl (List.mem_singleton.mp hmem)
    unfold Server.relay at hjt
    split_ifs at hjt with hup
    · exact .inl ⟨jt, hjt, rfl, rfl⟩
    · rcases hcases rfl hjt with heq | hold
      · refine .inr ⟨it, htakes, by rw [heq], .inl ⟨hup, ?_⟩⟩
        rw [heq]
        simp
      · exact .inl hold
    · refine .inl ⟨jt, ?_, rfl, rfl⟩
      rw [Server.relayed, hl]
      exact hjt
    · rcases hcases rfl hjt with heq | hold
      · exact .inr ⟨it, htakes, by rw [heq], .inr ⟨hup, by rw [heq]⟩⟩
      · exact .inl hold
  | @toGs created r it hl =>
    have hhand : sv.logic.hand = [it] := by rw [hl]; rfl
    split_ifs at hjt hkeep hnone
    · exact .inl (hnone rfl rfl)
    · refine .inl (hkeep rfl rfl fun kt hkt => ⟨it, ?_, ?_⟩)
      · rw [hhand]
        exact List.mem_singleton_self it
      · rw [List.mem_singleton.mp hkt]
        exact ⟨rfl, rfl⟩
  | @send created r it v hl =>
    refine .inl (hkeep rfl rfl fun kt hkt => ⟨it, ?_, ?_⟩)
    · rw [hl]
      exact List.mem_singleton_self it
    · rw [List.mem_singleton.mp hkt]
      exact ⟨rfl, rfl⟩
  | @push created r it v net hl hn =>
    have hpushes : net.pushes = sv.net.pushes ++ [it] := Layer.step_pushes hn
    have hhand : sv.logic.hand = [it] := by rw [hl]; rfl
    refine .inl ⟨jt, ?_, rfl, rfl⟩
    change jt ∈ (net.pushes.filter fun it => it.src.conn.isSome) ++ [] at hjt
    rw [hpushes, List.append_nil, List.filter_append] at hjt
    rw [Server.relayed, hhand]
    rcases List.mem_append.mp hjt with hjt | hjt
    · exact List.mem_append_left _ hjt
    · exact List.mem_append_right _ (List.mem_of_mem_filter hjt)

/-- A frame whose node was decoded has been one of its stream since. -/
theorem ServerStep.frame_of_step {kind : Kind} {m : Move} (hheard : sv.net.Heard G)
    (hw : sv.net.WellPlaced) (ho : sv.net.InOrder) (hs : ServerStep G kind sv m sv') {it : Item Msg}
    (hit : (sv.net.life id).decoded[k]? = some it) {f : List UInt8}
    (hf : (registeredFrames sv'.net.registry (sv'.net.life id).received)[k]? = some f) :
    sv'.net.registry = sv.net.registry ∧
      (registeredFrames sv.net.registry (sv.net.life id).received)[k]? = some f := by
  rcases hs.net_regist with heq | ⟨a, ha, hno⟩
  · rw [heq] at hf ⊢
    exact ⟨rfl, hf⟩
  · have hreg := Layer.step_registry ha hno
    obtain ⟨chunk, hchunk⟩ := Layer.step_received hw ho ha id
    rw [hreg, hchunk] at hf
    refine ⟨hreg, (hheard.decoded id).frame_of_append ?_ hf⟩
    rw [List.length_map]
    exact (List.getElem?_eq_some_iff.mp hit).1

/-- What is relayed for the `k`-th frame of the incarnation `id` goes to the right side, and its body
parsed. -/
def Routed (G : Generated Cls Msg) (id k : ℕ) (sv : Server Cls Msg) : Prop :=
  ∀ it ∈ sv.relayed, it.src = .wire id k →
    (it.role = .request ↔ (sv.net.life id).connector = false) ∧
      ∀ f ∈ (registeredFrames sv.net.registry (sv.net.life id).received)[k]?,
        Parses G.toProtobuf sv.net.registry f

theorem Routed.step {m : Move} (h : sv.Routed G id k) (hheard : sv.net.Heard G)
    (hw : sv.net.WellPlaced) (ho : sv.net.InOrder) (hcopied : sv.Copied) (hc : sv.Routes G id k m)
    (hs : ServerStep G .gate sv m sv') : sv'.Routed G id k := by
  intro jt hjt hsrc
  obtain ⟨o, ho', hosrc, hside, hparses⟩ : ∃ o ∈ sv.net.output, o.src = .wire id k ∧
      (jt.role = .request ↔ (sv.net.life id).connector = false) ∧
        ∀ f ∈ (registeredFrames sv.net.registry (sv.net.life id).received)[k]?,
          Parses G.toProtobuf sv.net.registry f := by
    rcases hs.relayed hcopied jt hjt with ⟨it, hit, hsrc', hrole⟩ | ⟨o, htakes, hsrc', hbranch⟩
    · obtain ⟨o, ho', hcopy⟩ := hcopied.copies it hit
      refine ⟨o, List.mem_of_mem_take ho', ?_, ?_⟩
      · rw [hcopy.src, ← hsrc', hsrc]
      · rw [hrole]
        exact h it hit (hsrc' ▸ hsrc)
    · have hosrc : o.src = .wire id k := hsrc' ▸ hsrc
      have hroutes := hc
      obtain ⟨created, r, rfl⟩ := htakes.move
      unfold Routes at hroutes
      rw [htakes.logic] at hroutes
      obtain ⟨hside, hparses⟩ := hroutes o htakes.next hosrc
      refine ⟨o, List.mem_of_getElem? htakes.next, hosrc, ?_, hparses⟩
      rw [← Bool.not_eq_true, ← hside]
      rcases hbranch with ⟨heq, hrole⟩ | ⟨hne, hrole⟩
      · exact ⟨fun hr => absurd hr hrole, fun hne => absurd heq hne⟩
      · exact ⟨fun _ => hne, fun _ => hrole⟩
  have hdecoded := ho.decoded_of_output ho' hosrc
  have hlt : id < sv.net.nextId := by
    refine lt_of_not_ge fun hge => ?_
    rw [hw.fresh hge] at hdecoded
    cases hdecoded
  have hconnector : (sv'.net.life id).connector = (sv.net.life id).connector := by
    rcases hs.net with heq | ⟨a, ha⟩
    · rw [heq]
    · exact Layer.step_connector hw ha hlt
  refine ⟨hconnector ▸ hside, fun f hf => ?_⟩
  obtain ⟨hreg, hf'⟩ := hs.frame_of_step hheard hw ho hdecoded hf
  rw [hreg]
  exact hparses f hf'

/-! ### The copy -/

/-- A message that was parsed is parsed again from what it serialises to. -/
theorem parse_serialize_parse {pb : Protobuf Cls Msg} (hpb : pb.Lawful) {c : Cls} {bs : List UInt8}
    (h : (pb.parseFromArray (pb.newMsg c) bs).1 = true) :
    pb.parseFromArray (pb.newMsg c)
      (pb.serializeToArray (pb.parseFromArray (pb.newMsg c) bs).2) =
        pb.parseFromArray (pb.newMsg c) bs := by
  have hcls : pb.clsOf (pb.parseFromArray (pb.newMsg c) bs).2 = c := by
    rw [hpb.clsOf_parse, hpb.clsOf_newMsg]
  have hback := hpb.parse_serialize (pb.parseFromArray (pb.newMsg c) bs).2
  rw [hcls, hpb.parse_initialized _ _ h, ← h] at hback
  exact hback

/-- A copy of the frame's node that goes to the right side is faithful when the body parsed. -/
theorem IsCopy.faithful (hpb : G.toProtobuf.Lawful) {o it : Item Msg} {f : List UInt8}
    (hcopy : IsCopy o it)
    (hnode : nodeOfFrame G.toProtobuf sv.net.registry (sv.net.life id).addr f = some o.node)
    (hparses : Parses G.toProtobuf sv.net.registry f)
    {calls : List (Source × Addr)} (hside : it.role = .request ↔ (sv.net.life id).connector = false)
    (hgs : it.role = .request → (it.src, it.node.msgConn) ∈ calls ∧ sv.IsGs it.node.msgConn) :
    sv.FaithfulCopy G calls id f it := by
  obtain ⟨c, hc, hnode⟩ := Option.map_eq_some_iff.mp hnode
  refine ⟨hparses, ?_, fun c' hc' => ?_, fun hconn => ?_, fun hconn => ?_⟩
  · rw [hcopy.msgType, ← hnode]
  · have hcc : c' = c := Option.some.inj (hc'.symm.trans hc)
    have hdata : it.node.msgData =
        (G.parseFromArray (G.newMsg c) (frameBody f)).2 := by
      rw [hcopy.msgData, ← hnode]
      rfl
    rw [hcc, hdata]
    exact parse_serialize_parse hpb (hparses c hc)
  · have hrole := hside.mpr hconn
    refine ⟨hrole, ?_, hgs hrole⟩
    rw [hcopy.request hrole, ← hnode]
  · cases hrole : it.role with
    | request =>
      rw [hside.mp hrole] at hconn
      cases hconn
    | answer r =>
      obtain ⟨hcli, hmsg⟩ := hcopy.answer hrole
      rw [hcli, hmsg, ← hnode]
      exact ⟨rfl, rfl⟩

/-- Nothing is relayed twice. -/
theorem Copied.once (h : sv.Copied) (ho : sv.net.InOrder) :
    (sv.net.pushes.map Item.src).count (.wire id k) ≤ 1 := by
  have hfilter : ((sv.net.pushes.filter fun it => it.src.conn.isSome).map Item.src).count
      (.wire id k) = (sv.net.pushes.map Item.src).count (.wire id k) := by
    apply count_src_filter
    intro it heq
    rw [heq]
    rfl
  calc (sv.net.pushes.map Item.src).count (.wire id k)
      ≤ (sv.relayed.map Item.src).count (.wire id k) := by
        rw [← hfilter, Server.relayed, List.map_append, List.count_append]
        exact Nat.le_add_right _ _
    _ ≤ (sv.processed.map Item.src).count (.wire id k) := h.order.count_le _
    _ ≤ (sv.net.output.map Item.src).count (.wire id k) :=
        ((List.take_sublist _ _).map _).count_le _
    _ ≤ 1 := ho.count_output id k

end Server

/-- **The gate relays a frame faithfully**, in every run in which the step that takes its node meets
the condition. -/
theorem faithful_of_reach {G : Generated Cls Msg} (hpb : G.toProtobuf.Lawful) {id k : ℕ}
    {p : Server Cls Msg × List (Source × Addr)}
    (h : (relaySystem G).Reach (fun p m => p.1.Routes G id k m) p) {f : List UInt8}
    (hf : (registeredFrames p.1.net.registry (p.1.net.life id).received)[k]? = some f) :
    p.1.Faithful G p.2 id k f := by
  have hinv : p.1.net.Heard G ∧ p.1.Aimed ∧ p.1.Called p.2 ∧ p.1.Routed G id k := by
    refine h.invariant_of (P := fun p => p.1.net.Heard G ∧ p.1.Aimed ∧ p.1.Called p.2 ∧
      p.1.Routed G id k) ?_ ?_
    · rintro ⟨sv, calls⟩ ⟨⟨threadNum, registry, clock, -, rfl⟩, -⟩
      exact ⟨Layer.heard_start .., ⟨.inl rfl, nofun, nofun, nofun, nofun⟩, nofun, nofun⟩
    · rintro p m p' hr ⟨hheard, haimed, hcalled, hrouted⟩ hc hs
      obtain ⟨sv', hsv, rfl⟩ := Option.map_eq_some_iff.mp hs
      obtain ⟨hw, -, ho⟩ := inOrder_of_reach (net_of_reach hr.forget)
      have hcases := Server.step_cases hsv
      have hcopied := copied_of_reach hr.forget
      refine ⟨?_, haimed.step hw (aligned_of_reach (net_of_reach hr.forget)) hcopied hcases,
        hcalled.step hcopied hcases, hrouted.step hheard hw ho hcopied hc hcases⟩
      rcases hcases.net_regist with heq | ⟨a, ha, hno⟩
      · rw [heq]
        exact hheard
      · exact hheard.step hw ho ha hno
  obtain ⟨hheard, haimed, hcalled, hrouted⟩ := hinv
  obtain ⟨-, -, ho⟩ := inOrder_of_reach (net_of_reach h.forget)
  have hcopied := copied_of_reach h.forget
  refine ⟨hcopied.once ho, fun it hit hsrc => ?_⟩
  have hsome : it.src.conn.isSome := by
    rw [hsrc]
    rfl
  have hpushed : it ∈ p.1.net.pushes.filter fun it => it.src.conn.isSome :=
    List.mem_filter.mpr ⟨hit, hsome⟩
  obtain ⟨o, ho', hcopy⟩ := hcopied.copies it (List.mem_append_left _ hpushed)
  have hdecoded := ho.decoded_of_output (List.mem_of_mem_take ho') (hcopy.src.trans hsrc)
  obtain ⟨hside, hparses⟩ := hrouted it (List.mem_append_left _ hpushed) hsrc
  refine hcopy.faithful hpb ((hheard.decoded id).node hf ?_) (hparses f hf) hside fun hrole =>
    ⟨hcalled it (List.mem_append_left _ hpushed) hrole, haimed.pushes it hit hsome hrole⟩
  rw [List.getElem?_map, hdecoded]
  rfl

/-- A client of the gate sends `frame`, and the logic thread sends it on. -/
def clientSends (frame : List UInt8) : List Move :=
  gateAndClient ++
    [.readEvent 32, .read (.data frame ⟨[frame]⟩), .go, .go, .go, .go, .go, .go, .go, .go, .go,
      .go].map (.worker 0) ++
    List.replicate 7 (.logic true none)

/-- The gate before the run. -/
def relayStart : Server Protocol.MsgClass Protocol.Message × List (Source × Addr) :=
  (.start .gate (.start 1 Protocol.registry 0), [])

theorem relayStart_init : (relaySystem Protocol.generated).init relayStart :=
  ⟨⟨1, Protocol.registry, 0, by decide, rfl⟩, rfl⟩

/-- A registration whose header names another connection. -/
def forgedFrame : List UInt8 := encodeNode Protocol.protobuf ⟨20001, 48, ⟨.registReq, some 5⟩, 0⟩

theorem faithful_forgedFrame : ∃ p,
    (relaySystem Protocol.generated).exec relayStart (clientSends forgedFrame) = some p ∧
      (p.1.net.pushes.map fun it => (it.src, it.node.cliConn)) = [(.regist 0, 0), (.wire 1 0, 32)] ∧
      p.2 = [(.wire 1 0, 16)] ∧ p.1.Faithful Protocol.generated p.2 1 0 forgedFrame := by
  obtain ⟨p, hp, hrun⟩ : ∃ p,
      (relaySystem Protocol.generated).exec relayStart (clientSends forgedFrame) = some p ∧
        ((p.1.net.pushes.map fun it => (it.src, it.node.cliConn)), p.2,
          (registeredFrames p.1.net.registry (p.1.net.life 1).received)[0]?) =
        ([(.regist 0, 0), (.wire 1 0, 32)], [(.wire 1 0, 16)], some forgedFrame) := by
    refine Option.map_eq_some_iff.mp ?_
    decide +kernel
  have hc : (relaySystem Protocol.generated).AllSteps
      (fun p m => p.1.Routes Protocol.generated 1 0 m) relayStart (clientSends forgedFrame) := by
    decide +kernel
  simp only [Prod.mk.injEq] at hrun
  refine ⟨p, hp, hrun.1, hrun.2.1, ?_⟩
  exact faithful_of_reach Protocol.protobuf_lawful (.of_exec (.start relayStart_init) hc hp) hrun.2.2

/-- A registration with a byte too many: the field is read, and what follows is no field. -/
def brokenFrame : List UInt8 :=
  [33, 78, 0, 0] ++ List.replicate 8 0 ++ [3, 0, 0, 0] ++ [8, 5, 8]

/-- **The gate sends on what it could parse of a body that does not parse.** -/
theorem not_faithful_brokenFrame : ∃ p,
    (relaySystem Protocol.generated).Reach Lts.Free p ∧
      (registeredFrames p.1.net.registry (p.1.net.life 1).received)[0]? = some brokenFrame ∧
      i32Val (brokenFrame.take 4) ≠ 0 ∧ ¬ p.1.Faithful Protocol.generated p.2 1 0 brokenFrame := by
  obtain ⟨p, hp, hrun⟩ : ∃ p,
      (relaySystem Protocol.generated).exec relayStart (clientSends brokenFrame) = some p ∧
        ((p.1.net.pushes.map fun it => (it.src, it.node.msgData.value)),
          (registeredFrames p.1.net.registry (p.1.net.life 1).received)[0]?,
          decide (Parses Protocol.protobuf p.1.net.registry brokenFrame)) =
        ([(.regist 0, some 33), (.wire 1 0, some 5)], some brokenFrame, false) := by
    refine Option.map_eq_some_iff.mp ?_
    decide +kernel
  simp only [Prod.mk.injEq, decide_eq_false_iff_not] at hrun
  obtain ⟨hpushes, hframe, hparses⟩ := hrun
  refine ⟨p, .of_exec (.start relayStart_init) (Lts.allSteps_free _ _) hp, hframe, by decide,
    fun h => ?_⟩
  have hmem : (Source.wire 1 0, some (5 : Int32)) ∈
      p.1.net.pushes.map fun it => (it.src, it.node.msgData.value) := by
    rw [hpushes]
    exact List.mem_cons_of_mem _ (List.mem_singleton_self _)
  obtain ⟨it, hit, heq⟩ := List.mem_map.mp hmem
  exact hparses (h.copy it hit (Prod.mk.inj heq).1).parses

end GoFight.Link
