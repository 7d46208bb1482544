import GoFight.Link.GameConn
import GoFight.Link.Relay

/-!
# Disconnect notices in the gate

What the gate tells the game server of its clients, and itself of the game server, when a
connection is gone.  Both go by a node of type 0, which a worker makes; but a frame of type 0 is
decoded like any other.

* `Genuine` — the property;
* `Relayed` — what the logic thread sends, against what it has handled;
* `genuine_of_reach` — the run theorem, under `Trusts`.
-/

namespace GoFight.Link

open GoFight.Lib GoFight.Net

variable {Cls Msg : Type*}

/-! ### The property -/

namespace Server

/-- **What the gate tells of a closed connection is true.** -/
structure Genuine (sv : Server Cls Msg) (h : LinkHistory) : Prop where
  /-- A frame of type 0 names a client that is closed. -/
  closed : ∀ {it}, it ∈ sv.net.pushes → it.role = .request → it.node.msgType = 0 →
    ∃ c, it.src.conn = some c ∧ it.node.cliConn = (sv.net.life c).addr ∧
      (sv.net.life c).closed.isSome
  /-- Nothing of the client is relayed after it, a second such frame included. -/
  last : ∀ {p it q c}, sv.net.pushes = p ++ it :: q → it.role = .request → it.node.msgType = 0 →
    it.src.conn = some c → ∀ jt ∈ q, jt.src.conn ≠ some c
  /-- `s_game_conn` went to 0 only when its connection was closed. -/
  reset : ∀ {r}, r ∈ h.resets → ∃ c, r = some c ∧ (sv.net.life c).closed.isSome

end Server

/-! ### What is relayed -/

namespace Server

variable {G : Generated Cls Msg} {sv sv' : Server Cls Msg} {l : LinkHistory}

/-- A frame for the game server is a client's node, under the client's address. -/
def Copies (sv : Server Cls Msg) (it : Item Msg) : Prop :=
  it.role = .request → ∃ o ∈ sv.processed, o.src = it.src ∧ o.node.msgType = it.node.msgType ∧
    it.node.cliConn = o.node.msgConn

/-- What is relayed was handled, in this order. -/
structure Relayed (sv : Server Cls Msg) : Prop where
  handled : sv.handled ≤ sv.net.output.length
  order : (sv.relayed.map Item.src).Sublist (sv.processed.map Item.src)
  copies : ∀ it ∈ sv.relayed, sv.Copies it
  hand : ∀ it ∈ sv.logic.hand, it.src.conn.isSome
  notice : ∀ o ∈ sv.processed, o.node.msgType = 0 → isNotice o
  regist : ∀ it ∈ sv.net.pushes, it.src.conn = none → it.node.msgType ≠ 0
  callback : ∀ w, ∀ it ∈ (sv.callback w).hand, it.src.conn = none ∧ it.node.msgType ≠ 0

/-- What is known of every run, and of the nodes of type 0. -/
theorem Relayed.of_copied (h : sv.Copied)
    (hn : ∀ o ∈ sv.processed, o.node.msgType = 0 → isNotice o) : sv.Relayed := by
  have hty : ∀ {it : Item Msg}, Own it → it.node.msgType ≠ 0 := by
    intro it hown
    rw [hown.2]
    decide
  refine ⟨h.handled, h.order, fun it hit hrole => ?_, h.hand, hn,
    fun it hit hnone => hty (h.regist it hit hnone),
    fun w it hit => ⟨(h.callback w it hit).1, hty (h.callback w it hit)⟩⟩
  obtain ⟨o, ho, hcopy⟩ := h.copies it hit
  exact ⟨o, ho, hcopy.src, hcopy.msgType.symm, hcopy.request hrole⟩

/-- **Every step.** -/
theorem Relayed.step {m : Move} (h : sv.Relayed) (h' : sv'.Copied) (hc : sv.Trusts m)
    (hs : ServerStep G .gate sv m sv') : sv'.Relayed := by
  apply Relayed.of_copied h'
  rcases hs.processed h.handled with heq | ⟨it, ht, heq⟩
  · rw [heq]
    exact h.notice
  · obtain ⟨created, r, rfl⟩ := ht.move
    have htrust := hc.2
    rw [ht.logic] at htrust
    intro o ho
    rw [heq] at ho
    rcases List.mem_append.mp ho with ho | ho
    · exact h.notice o ho
    · rw [List.mem_singleton.mp ho]
      exact htrust it ht.next

/-! ### The property in every run -/

/-- Two nodes relayed one after the other were handled one after the other. -/
theorem exists_of_pair_sublist {xs : List (Item Msg)} {x y : Source}
    (h : [x, y].Sublist (xs.map Item.src)) :
    ∃ p o q, xs = p ++ o :: q ∧ o.src = x ∧ ∃ o' ∈ q, o'.src = y := by
  obtain ⟨os, hos, hmap⟩ := List.sublist_map_iff.mp h
  obtain ⟨o, os', rfl, rfl, hmap'⟩ := List.map_eq_cons_iff.mp hmap.symm
  obtain ⟨o', os'', rfl, rfl, -⟩ := List.map_eq_cons_iff.mp hmap'
  obtain ⟨r₁, r₂, rfl, ho, hrest⟩ := List.cons_sublist_iff.mp hos
  obtain ⟨p, q, rfl⟩ := List.append_of_mem ho
  refine ⟨p, o, q ++ r₂, by rw [List.append_assoc, List.cons_append], rfl, o', ?_, rfl⟩
  exact List.mem_append_right _ (hrest.subset List.mem_cons_self)

/-- A frame of type 0 for the game server was made of a notice. -/
theorem Relayed.notice_of_push (h : sv.Relayed) {it : Item Msg} (hit : it ∈ sv.net.pushes)
    (hrole : it.role = .request) (hty : it.node.msgType = 0) :
    ∃ c o, o ∈ sv.processed ∧ o.src = .notice c ∧ it.src = .notice c ∧
      it.node.cliConn = o.node.msgConn := by
  have hsome : it.src.conn.isSome := by
    rw [Option.isSome_iff_ne_none]
    exact fun hnone => h.regist it hit hnone hty
  have hmem : it ∈ sv.relayed :=
    List.mem_append_left _ (List.mem_filter.mpr ⟨hit, hsome⟩)
  obtain ⟨o, ho, hsrc, hoty, hcli⟩ := h.copies it hmem hrole
  obtain ⟨c, hc⟩ := exists_of_isNotice (h.notice o ho (hoty.trans hty))
  exact ⟨c, o, ho, hc, hsrc ▸ hc, hcli⟩

/-- What is known of a gate in every run. -/
structure Sound (sv : Server Cls Msg) (l : LinkHistory) : Prop where
  known : sv.Known l
  steady : sv.Steady l
  relayed : sv.Relayed
  aligned : sv.net.Aligned
  reset : ∀ r ∈ l.resets, ∃ c, r = some c ∧ (sv.net.life c).closed.isSome

theorem Sound.step {m : Move} (h : sv.Sound l) (hcopied : sv'.Copied) (hw : sv.net.WellPlaced) (ho : sv.net.InOrder)
    (hc : sv.Trusts m) (hs : sv.step G .gate m = some sv') : sv'.Sound (l.record sv m sv') := by
  have hcases := step_cases hs
  have hclosed : ∀ {c}, (sv.net.life c).closed.isSome → (sv'.net.life c).closed.isSome := by
    intro c hcl
    rcases hcases.net_allocates with heq | ⟨act, hact, -⟩
    · rw [heq]
      exact hcl
    · exact Layer.step_closed hw hact hcl
  have haligned : sv'.net.Aligned := by
    rcases hcases.net_allocates with heq | ⟨act, hact, -⟩
    · rw [heq]
      exact h.aligned
    · exact h.aligned.step hw hact
  have hsteady : sv'.Steady (l.record sv m sv') ∧ (sv.upstream ≠ 0 → sv'.upstream = 0 →
      ∃ c, l.gs = some c ∧ (sv.net.life c).closed.isSome) := by
    by_cases hm : ∀ i r, m ≠ .connect i r
    · refine ⟨h.steady.others h.known hw ho h.aligned hc hcases hm, fun hne h₀ => ?_⟩
      rcases (hcases.link hm).upstream with hup | ⟨-, it, hr⟩
      · exact absurd (hup ▸ h₀) hne
      · obtain ⟨c, hgs, hcl, -⟩ := h.steady.reset hr
        exact ⟨c, hgs, hcl⟩
    · push Not at hm
      obtain ⟨i, r, rfl⟩ := hm
      obtain ⟨hst, hup⟩ := h.steady.connect h.known h.aligned hcases
      refine ⟨hst, fun hne h₀ => ?_⟩
      rcases hup with hup | hup
      · exact absurd hup hne
      · exact absurd (hup ▸ h₀) hne
  refine ⟨h.known.step hw ho hc hs, hsteady.1, h.relayed.step hcopied hc hcases, haligned, fun r hr => ?_⟩
  have hold : ∀ r ∈ l.resets, ∃ c, r = some c ∧ (sv'.net.life c).closed.isSome := by
    intro r hr
    obtain ⟨c, hrc, hcl⟩ := h.reset r hr
    exact ⟨c, hrc, hclosed hcl⟩
  change r ∈ (if sv.upstream ≠ 0 ∧ sv'.upstream = 0 then l.resets ++ [l.gs] else l.resets) at hr
  split at hr
  · next hup =>
    rcases List.mem_append.mp hr with hr | hr
    · exact hold r hr
    · obtain ⟨c, hgs, hcl⟩ := hsteady.2 hup.1 hup.2
      exact ⟨c, (List.mem_singleton.mp hr).trans hgs, hclosed hcl⟩
  · exact hold r hr

theorem Sound.genuine (h : sv.Sound l) (ho : sv.net.InOrder) : sv.Genuine l := by
  refine ⟨fun {it} hit hrole hty => ?_, fun {p it q c} hpushes hrole hty hconn jt hjt hjc => ?_,
    fun hr => h.reset _ hr⟩
  · obtain ⟨c, o, hmem, hosrc, hsrc, hcli⟩ := h.relayed.notice_of_push hit hrole hty
    obtain ⟨⟨-, -, hoconn⟩, hcl⟩ := ho.isNotice (List.mem_of_mem_take hmem) hosrc
    exact ⟨c, by rw [hsrc]; rfl, hcli.trans hoconn, hcl⟩
  · have hit : it ∈ sv.net.pushes := by
      rw [hpushes]
      exact List.mem_append_right _ List.mem_cons_self
    obtain ⟨c', o, -, -, hsrc, -⟩ := h.relayed.notice_of_push hit hrole hty
    have hcc : c' = c := by
      rw [hsrc, Source.conn, Option.some.injEq] at hconn
      exact hconn
    rw [hcc] at hsrc
    have hpair : [it, jt].Sublist sv.net.pushes := by
      rw [hpushes]
      refine List.Sublist.trans ?_ (List.sublist_append_right p _)
      exact (List.singleton_sublist.mpr hjt).cons_cons it
    have hrelayed : [it, jt].Sublist sv.relayed := by
      refine List.Sublist.trans ?_ (List.sublist_append_left _ _)
      have hfilter := hpair.filter fun it => it.src.conn.isSome
      rwa [List.filter_cons_of_pos (by rw [hconn]; rfl), List.filter_cons_of_pos (by rw [hjc]; rfl),
        List.filter_nil] at hfilter
    obtain ⟨p', o, q', hout, hosrc, o', ho', hsrc'⟩ :=
      exists_of_pair_sublist ((hrelayed.map Item.src).trans h.relayed.order)
    have houtput : sv.net.output = p' ++ o :: (q' ++ sv.net.output.drop sv.handled) := by
      rw [← List.cons_append, ← List.append_assoc, ← hout]
      exact (List.take_append_drop _ _).symm
    refine ho.notice_last houtput (hosrc.trans hsrc) o' (List.mem_append_left _ ho') ?_
    rw [hsrc', hjc]

end Server

/-- **Disconnect notices are genuine**, in every run of the gate that handles no decoded node of type
0 and in which no address is handed out again while something refers to it. -/
theorem genuine_of_reach {G : Generated Cls Msg} {p : Server Cls Msg × LinkHistory}
    (h : (gateSystem G).Reach (fun p m => p.1.Trusts m) p) : p.1.Genuine p.2 := by
  have hinv : (p.1.Sound p.2) := by
    refine h.invariant_of (P := fun p => p.1.Sound p.2) ?_ fun p m p' hr hp hc hs => ?_
    · rintro ⟨sv, l⟩ ⟨⟨threadNum, registry, clock, -, rfl⟩, hl⟩
      dsimp only at hl
      subst hl
      refine ⟨⟨rfl, nofun, fun _ => .inl rfl, nofun, nofun⟩, ⟨fun hne => absurd rfl hne,
        .inl ⟨Nat.zero_le 1, fun _ => nofun⟩, nofun, fun _ => ⟨rfl, rfl⟩⟩, ⟨Nat.zero_le _, .slnil,
        nofun, nofun, nofun, nofun, nofun⟩, nofun, nofun⟩
    · obtain ⟨hw, -, ho⟩ := inOrder_of_reach (net_of_reach hr.forget)
      obtain ⟨sv', hsv, rfl⟩ := Option.map_eq_some_iff.mp hs
      exact hp.step (copied_of_reach (hr.forget.next trivial hsv)) hw ho hc hsv
  obtain ⟨-, -, ho⟩ := inOrder_of_reach (net_of_reach h.forget)
  exact hinv.genuine ho

/-- The gate has a game server, at 16, and a client, at 32. -/
def gateAndClient : List Move :=
  .logic true none :: ([.refused, .made 16, .refused].map (.connect 0)) ++
    ([.go, .go, .go, .push true, .go, .go, .notified true 0] : List WorkerAct).map (.worker 0) ++
    List.replicate 5 (.callback 0 true 0) ++
    [.worker 0 .go, .accept true, .worker 0 (.notified true 32)]

/-- The client hangs up, and then the game server. -/
def bothHangUp : List Move :=
  gateAndClient ++
    ([.readEvent 32, .read .eof, .go, .go, .notice 0, .go, .go, .go, .go] :
      List WorkerAct).map (.worker 0) ++
    List.replicate 7 (.logic true none) ++
    ([.go, .go, .go, .go, .go, .go, .go, .go, .go, .readEvent 16, .read .eof, .go, .notice 0,
      .go] : List WorkerAct).map (.worker 0) ++
    List.replicate 6 (.logic true none)

/-- The state in which the runs below begin. -/
def gateStart : Server Protocol.MsgClass Protocol.Message × LinkHistory :=
  (.start .gate (.start 1 Protocol.registry 0), ⟨[], none, []⟩)

theorem genuine_bothHangUp : ∃ p,
    (gateSystem Protocol.generated).exec gateStart bothHangUp = some p ∧
      p.1.net.pushes.map Item.src = [.regist 0, .notice 1] ∧ p.2.resets = [some 0] ∧
      p.1.Genuine p.2 := by
  obtain ⟨p, hp, hrun⟩ : ∃ p,
      (gateSystem Protocol.generated).exec gateStart bothHangUp = some p ∧
        (p.1.net.pushes.map Item.src, p.2.resets) = ([.regist 0, .notice 1], [some 0]) := by
    refine Option.map_eq_some_iff.mp ?_
    decide +kernel
  have hc : (gateSystem Protocol.generated).AllSteps (fun p m => p.1.Trusts m) gateStart
      bothHangUp := by
    decide +kernel
  rw [Prod.mk.injEq] at hrun
  refine ⟨p, hp, hrun.1, hrun.2, genuine_of_reach (.of_exec (.start ?_) hc hp)⟩
  exact ⟨⟨1, Protocol.registry, 0, by decide, rfl⟩, rfl⟩

/-- The client sends a frame of type 0, and the logic thread meets it. -/
def clientSaysFarewell : List Move :=
  let frame := encodeNode Protocol.protobuf ⟨0, 0, ⟨.shutdownReq, some 0⟩, 0⟩
  gateAndClient ++
    [.readEvent 32, .read (.data frame ⟨[frame]⟩), .go, .go, .go, .go, .go, .go, .go, .go, .go,
      .go].map (.worker 0) ++
    List.replicate 7 (.logic true none)

/-- **The gate tells the game server that a client is gone which is not.** -/
theorem not_genuine_clientSaysFarewell : ∃ p,
    (gateSystem Protocol.generated).Reach Lts.Free p ∧ ¬ p.1.Genuine p.2 := by
  obtain ⟨p, hp, hrun⟩ : ∃ p,
      (gateSystem Protocol.generated).exec gateStart clientSaysFarewell = some p ∧
        (p.1.net.pushes.map fun it => (it.src, it.role, it.node.msgType),
          (p.1.net.life 1).closed) =
        ([(.regist 0, .request, 20001), (.wire 1 0, .request, 0)], none) := by
    refine Option.map_eq_some_iff.mp ?_
    decide +kernel
  rw [Prod.mk.injEq] at hrun
  obtain ⟨hpushes, hopen⟩ := hrun
  refine ⟨p, .of_exec (.start ?_) (Lts.allSteps_free _ _) hp, fun h => ?_⟩
  · exact ⟨⟨1, Protocol.registry, 0, by decide, rfl⟩, rfl⟩
  · have hmem : (Source.wire 1 0, Role.request, (0 : Int32)) ∈
        p.1.net.pushes.map fun it => (it.src, it.role, it.node.msgType) := by
      rw [hpushes]
      exact List.mem_cons_of_mem _ (List.mem_singleton_self _)
    obtain ⟨it, hit, heq⟩ := List.mem_map.mp hmem
    simp only [Prod.mk.injEq] at heq
    obtain ⟨hsrc, hrole, hty⟩ := heq
    obtain ⟨c, hc, -, hcl⟩ := h.closed hit hrole hty
    rw [hsrc, Source.conn, Option.some.injEq] at hc
    rw [← hc, hopen] at hcl
    cases hcl

end GoFight.Link
