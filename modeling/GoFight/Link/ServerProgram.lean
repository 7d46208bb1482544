import GoFight.Link.Steps
import GoFight.Net.TypedNodes

/-!
# The gate and the game server as programs on the net layer

What the two servers do with nodes is what any program does: the logic thread is thread 0, the
connector callback on worker `w` is thread `w + 1`.

* `Server.program` — a server's state as a program's;
* `program_of_reach` — the runs of a server are runs of a program, step by step: a relayed node is
  taken, readdressed and sent, a handled one is handled and freed;
* `typed_of_reach` — so every node of a server is typed, in the queues and in the hands.
-/

namespace GoFight.Link

open GoFight.Lib GoFight.Net

variable {Cls Msg : Type*}

namespace Server

/-- The nodes a thread of the server has in hand. -/
def handOf (sv : Server Cls Msg) : ℕ → List (MsgNode Msg)
  | 0 => sv.logic.held.map Item.node
  | w + 1 => (sv.callback w).hand.map Item.node

/-- The server as a program. -/
def program (sv : Server Cls Msg) : Program Cls Msg where
  net := sv.net
  hand := sv.handOf
  taken := sv.handled

variable (sv : Server Cls Msg)

theorem program_setLogic (pc : LogicPc Msg) :
    (sv.setLogic pc).program = sv.program.setHand 0 (pc.held.map Item.node) := by
  have hhand : (sv.setLogic pc).handOf =
      Function.update sv.handOf 0 (pc.held.map Item.node) := by
    funext t
    cases t <;> rfl
  rw [program, hhand]
  rfl

theorem program_setCallback (w : ℕ) (pc : CallbackPc Msg) :
    (sv.setCallback w pc).program = sv.program.setHand (w + 1) (pc.hand.map Item.node) := by
  have hhand : (sv.setCallback w pc).handOf =
      Function.update sv.handOf (w + 1) (pc.hand.map Item.node) := by
    funext t
    cases t with
    | zero => rfl
    | succ v =>
      show ((sv.setCallback w pc).callback v).hand.map Item.node = _
      rw [setCallback_callback, Function.update_apply]
      by_cases hv : v = w
      · rw [if_pos hv, if_pos (congrArg (· + 1) hv)]
      · rw [if_neg hv, if_neg fun h => hv (Nat.succ.inj h)]
        rfl
  rw [program, hhand]
  rfl

variable {sv : Server Cls Msg}

theorem program_setLogic_same {pc : LogicPc Msg} (h : pc.held = sv.logic.held) :
    (sv.setLogic pc).program = sv.program := by
  rw [program_setLogic, h]
  exact Program.setHand_self rfl

theorem program_setCallback_same {w : ℕ} {pc : CallbackPc Msg}
    (h : pc.hand = (sv.callback w).hand) : (sv.setCallback w pc).program = sv.program := by
  rw [program_setCallback, h]
  exact Program.setHand_self rfl

theorem program_hand_logic {pc : LogicPc Msg} (h : sv.logic = pc) :
    sv.program.hand 0 = pc.held.map Item.node := by
  rw [← h]
  rfl

theorem program_hand_callback {w : ℕ} {pc : CallbackPc Msg} (h : sv.callback w = pc) :
    sv.program.hand (w + 1) = pc.hand.map Item.node := by
  rw [← h]
  rfl

/-! ### Every step is a run of the program -/

variable [DecidableEq Cls] {G : Generated Cls Msg} {k : Kind} {sv' : Server Cls Msg}

theorem runs_head {p p' q : Program Cls Msg} {a : ProgramAct Cls Msg} (h : p.step G a = some p')
    (h' : (programSystem G).Runs p' q) : (programSystem G).Runs p q :=
  Lts.Runs.head (a := a) h h'

theorem runs_one {p p' : Program Cls Msg} {a : ProgramAct Cls Msg} (h : p.step G a = some p') :
    (programSystem G).Runs p p' := runs_head h (.refl p')

/-- A step of the net layer that is no push. -/
theorem runs_net {p : Program Cls Msg} {a : Act Cls Msg} {net : Layer Cls Msg}
    (h : p.net.step G a = some net) (ha : ∀ w it, a ≠ .send w it) :
    (programSystem G).Runs p (p.setNet net) := by
  apply runs_one (a := .net a)
  rw [Program.step_net G ha, h]
  rfl

/-- A thread drops what it has in hand. -/
theorem runs_drop {p : Program Cls Msg} {t : ℕ} (ht : (p.hand t).length ≤ 1) :
    (programSystem G).Runs p (p.setHand t []) := by
  match hh : p.hand t, ht with
  | [], _ =>
    rw [Program.setHand_self hh]
    exact .refl p
  | [n], _ => exact runs_one (Program.step_lose hh)

/-- A thread makes a node, fills it and readdresses it. -/
theorem runs_make {p : Program Cls Msg} {t : ℕ} {n : MsgNode Msg} {msgType : Int32} {junk : UInt64}
    {m : Msg} (ht : p.hand t = [])
    (hn : getMsgnode G.toProtobuf p.net.registry junk msgType = some n)
    (hm : G.clsOf m = G.clsOf n.msgData) (c : Addr) :
    (programSystem G).Runs p (p.setHand t [{ n with msgData := m, msgConn := c }]) := by
  apply runs_head (Program.step_make ht hn)
  apply runs_head (Program.step_fill (Program.setHand_hand _) hm)
  apply runs_one
  rw [Program.step_route (Program.setHand_hand _) c n.cliConn, Program.setHand_setHand,
    Program.setHand_setHand]

/-- The push of the node in hand. -/
theorem runs_send {p : Program Cls Msg} {t w : ℕ} {it : Item Msg} {net : Layer Cls Msg}
    (ht : p.hand t = [it.node]) (h : p.net.step G (.send w it) = some net) :
    (programSystem G).Runs p ((p.setNet net).setHand t []) :=
  runs_one (Program.step_send ht h)

/-- `message_process`: the handler, then the deleter. -/
theorem runs_messageProcess {p : Program Cls Msg} {t : ℕ} {n : MsgNode Msg} (ht : p.hand t = [n]) :
    (programSystem G).Runs p (p.setHand t []) :=
  runs_head (Program.step_handle ht) (runs_one (Program.step_free ht))

/-! ### The logic thread takes a node -/

section Taken

variable {it : Item Msg}

/-- The next node is in hand. -/
theorem runs_take {q : Program Cls Msg} (hl : sv.logic = .handle)
    (hit : sv.net.output[sv.handled]? = some it)
    (h : (programSystem G).Runs
      (({ sv with handled := sv.handled + 1 } : Server Cls Msg).program.setHand 0 [it.node]) q) :
    (programSystem G).Runs sv.program q := by
  have hhand : sv.program.hand 0 = [] := program_hand_logic hl
  exact runs_head (Program.step_take hhand hit) h

/-- The game server's `message_process`. -/
theorem runs_process (hl : sv.logic = .handle) :
    (programSystem G).Runs (sv.program.setHand 0 [it.node]) sv.program := by
  have hhand : sv.program.hand 0 = [] := program_hand_logic hl
  have hrun : (programSystem G).Runs (sv.program.setHand 0 [it.node])
      ((sv.program.setHand 0 [it.node]).setHand 0 []) :=
    runs_messageProcess (Program.setHand_hand _)
  rwa [Program.setHand_setHand, Program.setHand_self hhand] at hrun

/-- The node is lost. -/
theorem runs_lose (hl : sv.logic = .handle) :
    (programSystem G).Runs (sv.program.setHand 0 [it.node]) sv.program := by
  have hhand : sv.program.hand 0 = [] := program_hand_logic hl
  apply runs_one
  rw [Program.step_lose (Program.setHand_hand _), Program.setHand_setHand,
    Program.setHand_self hhand]

/-- The node is readdressed and kept. -/
theorem runs_readdress {pc : LogicPc Msg} {c : Addr} {d : UInt64} {src : Source} {role : Role}
    (hpc : pc.held = [⟨{ it.node with msgConn := c, cliConn := d }, src, role⟩]) :
    (programSystem G).Runs (sv.program.setHand 0 [it.node]) (sv.setLogic pc).program := by
  apply runs_one (a := .route 0 0 c d)
  rw [Program.step_route (Program.setHand_hand _), Program.setHand_setHand, program_setLogic, hpc]
  rfl

/-- The body of the gate's loop. -/
theorem runs_relay {r : Option ℕ} (hl : sv.logic = .handle) :
    (programSystem G).Runs (sv.program.setHand 0 [it.node]) (sv.relay it r).program := by
  unfold Server.relay
  split_ifs with hup hty hnull
  · exact runs_lose hl
  · exact runs_readdress rfl
  · rw [program_setLogic]
    exact .refl _
  · exact runs_readdress rfl

end Taken

/-- **Every step of a server is a run of the program.** -/
theorem ServerStep.runs (hG : G.KeepsClass) {m : Move} (hs : ServerStep G k sv m sv') :
    (programSystem G).Runs sv.program sv'.program := by
  -- the logic thread and the callback with the same node in hand as before
  have hlogic : ∀ pc : LogicPc Msg, pc.held = sv.logic.held →
      (programSystem G).Runs sv.program (sv.setLogic pc).program := by
    intro pc hpc
    rw [program_setLogic_same hpc]
    exact .refl _
  have hcallback : ∀ w (pc : CallbackPc Msg), pc.hand = (sv.callback w).hand →
      (programSystem G).Runs sv.program (sv.setCallback w pc).program := by
    intro w pc hpc
    rw [program_setCallback_same hpc]
    exact .refl _
  cases hs with
  | accept h | clock h | made hi h => exact runs_net h nofun
  | @worker w e net hp h =>
    have hdrop : (programSystem G).Runs (sv.program.setNet net)
        ((sv.setNet net).setCallback w .compare).program := by
      rw [program_setCallback]
      apply runs_drop
      show ((sv.callback w).hand.map Item.node).length ≤ 1
      cases sv.callback w <;> simp [CallbackPc.hand]
    exact (runs_net (a := .worker w e) h nofun).trans hdrop
  | returned hp hc h => exact runs_net h nofun
  | @compare w created junk a ok hp hc =>
    apply hcallback
    rw [hc]
    split_ifs <;> rfl
  | @setInitOk w _ _ _ _ hp hc =>
    rw [program_setCallback_same (by rw [hc]; rfl)]
    exact .refl _
  | registNull hp hc hn => exact hcallback _ _ (by rw [hc]; rfl)
  | @regist w created junk a ok c node hp hc ha hn =>
    split_ifs with hup
    · exact hcallback _ _ (by rw [hc]; rfl)
    · rw [program_setCallback]
      exact runs_make (program_hand_callback hc) hn (hG.setMyId _ _) sv.upstream
  | callbackSend hp hc hv => exact hcallback _ _ (by rw [hc]; rfl)
  | @callbackPush w created junk a ok it v net hp hc h =>
    rw [program_setCallback]
    exact runs_send (program_hand_callback hc) h
  | @connectGs w created junk a ok hp hc =>
    have hsame : (if created then sv.createWorker k else sv).program = sv.program := by
      split_ifs <;> rfl
    have hhand : (if created then sv.createWorker k else sv).callback w = .connectGs := by
      rw [← hc]
      split_ifs <;> rfl
    rw [program_setCallback_same (by rw [hhand]; rfl), hsame]
    exact .refl _
  | checkUnset | checkSet | refused | broken | storeGate | storeGame | sleep => exact .refl _
  | @init created r hl =>
    have hsame : (sv.initConfig k created).program = (sv.setLogic .idle).program := by
      unfold initConfig
      split_ifs <;> rfl
    rw [hsame]
    exact hlogic _ (by rw [hl]; rfl)
  | idle hl hi => exact hlogic _ (by rw [hl]; rfl)
  | @fetch created r i net hl h =>
    have hhand : (LogicPc.fetch (i + 1) : LogicPc Msg).held = (sv.setNet net).logic.held := by
      show [] = sv.logic.held
      rw [hl]
      rfl
    rw [program_setLogic_same hhand]
    exact runs_net h nofun
  | fetched hl => exact hlogic _ (by rw [hl]; rfl)
  | handledAll hl => exact hlogic _ (by rw [hl]; rfl)
  | relay hk hl hit => exact runs_take hl hit (runs_relay hl)
  | process hk hl hit => exact runs_take hl hit (runs_process hl)
  | @processClose created r it net hk hl hit h =>
    apply runs_take hl hit
    have hclose : (programSystem G).Runs ({ sv with handled := sv.handled + 1 } : Server Cls Msg).program
        (({ sv with handled := sv.handled + 1 } : Server Cls Msg).setNet net).program :=
      runs_net h nofun
    exact Lts.Runs.trans (runs_process hl) hclose
  | reset hl =>
    rw [program_setLogic]
    exact runs_messageProcess (program_hand_logic hl)
  | @toGs created r it hl =>
    have hhand : sv.program.hand 0 = [it.node] := program_hand_logic hl
    split_ifs with hnull
    · rw [program_setLogic]
      exact runs_one (Program.step_lose hhand)
    · rw [program_setLogic]
      exact runs_one (Program.step_route hhand sv.upstream it.node.cliConn)
  | send hl hv => exact hlogic _ (by rw [hl]; rfl)
  | @push created r it v net hl h =>
    rw [program_setLogic]
    exact runs_send (program_hand_logic hl) h

end Server

variable [DecidableEq Cls] {G : Generated Cls Msg} {k : Kind} {sv : Server Cls Msg}
  {C : Server Cls Msg → Move → Prop}

/-- **A server is a program.** -/
theorem program_of_reach (hG : G.KeepsClass) (h : (serverSystem G k).Reach C sv) :
    (programSystem G).Reach Lts.Free sv.program := by
  apply h.simulate_runs Server.program
  · rintro sv ⟨threadNum, registry, clock, -, rfl⟩
    refine ⟨threadNum, registry, clock, ?_⟩
    have hhand : (Server.start k (.start threadNum registry clock) : Server Cls Msg).handOf =
        fun _ => [] := by
      funext t
      cases t <;> rfl
    rw [Server.program, hhand]
    rfl
  · intro sv m sv' _ hs
    exact (Server.step_cases hs).runs hG

/-- Every node of a server is typed. -/
theorem typed_of_reach (hG : G.KeepsClass) (h : (serverSystem G k).Reach C sv) :
    sv.program.AllTyped G.toProtobuf :=
  allTyped_of_reach hG (program_of_reach hG h)

end GoFight.Link
