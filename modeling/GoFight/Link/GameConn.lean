import GoFight.Link.Steps
import GoFight.Net.Fate

/-!
# Whose address is in `s_game_conn`

The gate knows its connection to the game server by an address.  This module adds a history: the
incarnation that the address was made for.

* `LinkHistory`, `gateSystem` — the gate with that history;
* `Trusts` — the condition on a step: `logic_update` meets no decoded node of type 0, and no address
  is handed out that `s_game_conn`, a connect thread or an unhandled notice still has;
* `Known` — under the condition the address in `s_game_conn` stands for that incarnation;
* `Steady` — and there is one connect thread at a time.
-/

namespace GoFight.Link

open GoFight.Lib GoFight.Net

variable {Cls Msg : Type*}

/-! ### The history of `s_game_conn` -/

/-- History: which incarnations the gate's link variable was set to. -/
structure LinkHistory where
  /-- The incarnation each thread in `connect_to_gs` has made last. -/
  made : List (Option ℕ)
  /-- The incarnation whose address is in `s_game_conn`. -/
  gs : Option ℕ
  /-- The same, each time `s_game_conn` went from not 0 to 0. -/
  resets : List (Option ℕ)

namespace LinkHistory

/-- The threads' part. -/
def recordMade (sv : Server Cls Msg) (m : Move) (sv' : Server Cls Msg) (made : List (Option ℕ)) :
    List (Option ℕ) :=
  match m with
  | .connect i r =>
      match sv.threads[i]?, r with
      | some .check, _ => if sv.upstream = 0 then made else made.eraseIdx i
      | some .connect, .made _ => made.set i (some sv.net.nextId)
      | some .connect, _ => made.set i none
      | _, _ => made
  | _ => made ++ List.replicate (sv'.threads.length - sv.threads.length) none

/-- The variable's part. -/
def recordGs (sv : Server Cls Msg) (m : Move) (sv' : Server Cls Msg) (h : LinkHistory) : Option ℕ :=
  match m with
  | .connect i _ =>
      match sv.threads[i]? with
      | some (.store _) => h.made[i]?.join
      | _ => h.gs
  | _ => if sv'.upstream = sv.upstream then h.gs else none

/-- A step from `sv` to `sv'`. -/
def record (sv : Server Cls Msg) (m : Move) (sv' : Server Cls Msg) (h : LinkHistory) :
    LinkHistory where
  made := recordMade sv m sv' h.made
  gs := recordGs sv m sv' h
  resets := if sv.upstream ≠ 0 ∧ sv'.upstream = 0 then h.resets ++ [h.gs] else h.resets

end LinkHistory

/-- The gate, with that history. -/
def gateSystem (G : Generated Cls Msg) : Lts (Server Cls Msg × LinkHistory) Move :=
  (serverSystem G .gate).withHistory ⟨[], none, []⟩ LinkHistory.record

namespace Server

/-! ### The condition -/

/-- It is a worker's notice. -/
def isNotice (it : Item Msg) : Bool :=
  match it.src with
  | .notice _ => true
  | _ => false

theorem exists_of_isNotice {it : Item Msg} (h : isNotice it) : ∃ c, it.src = .notice c := by
  cases hs : it.src with
  | notice c => exact ⟨c, rfl⟩
  | wire id k => simp [isNotice, hs] at h
  | regist id => simp [isNotice, hs] at h

/-- A node the logic thread has still to handle. -/
def Unhandled (sv : Server Cls Msg) (it : Item Msg) : Prop :=
  (∃ w < sv.net.threadNum, it ∈ (sv.net.worker w).tdReadMsgs) ∨ it ∈ sv.net.output.drop sv.handled

/-- Neither `s_game_conn`, nor a connect thread, nor an unhandled notice has the address. -/
structure Unreferenced (sv : Server Cls Msg) (a : Addr) : Prop where
  upstream : sv.upstream ≠ a
  threads : .store a ∉ sv.threads
  queued : ∀ w < sv.net.threadNum, ∀ it ∈ (sv.net.worker w).tdReadMsgs, isNotice it →
    it.node.msgConn ≠ a
  output : ∀ it ∈ sv.net.output.drop sv.handled, isNotice it → it.node.msgConn ≠ a

instance (sv : Server Cls Msg) (a : Addr) : Decidable (sv.Unreferenced a) :=
  decidable_of_iff (sv.upstream ≠ a ∧ .store a ∉ sv.threads ∧
      (∀ w < sv.net.threadNum, ∀ it ∈ (sv.net.worker w).tdReadMsgs, isNotice it →
        it.node.msgConn ≠ a) ∧
      ∀ it ∈ sv.net.output.drop sv.handled, isNotice it → it.node.msgConn ≠ a)
    ⟨fun h => ⟨h.1, h.2.1, h.2.2.1, h.2.2.2⟩, fun h => ⟨h.1, h.2, h.3, h.4⟩⟩

/-- What a move allocates. -/
def allocates (sv : Server Cls Msg) : Move → Option Addr
  | .connect i (.made a) => if sv.threads[i]? = some .connect then some a else none
  | .worker w e => sv.net.allocates (.worker w e)
  | _ => none

/-- No decoded node of type 0 is handled in the step, and no address is handed out again while
something refers to it. -/
def Trusts (sv : Server Cls Msg) (m : Move) : Prop :=
  (∀ a ∈ sv.allocates m, sv.Unreferenced a) ∧
    match m, sv.logic with
    | .logic _ _, .handle =>
        ∀ it ∈ sv.net.output[sv.handled]?, it.node.msgType = 0 → isNotice it
    | _, _ => True

instance (sv : Server Cls Msg) (m : Move) : Decidable (sv.Trusts m) := by
  unfold Trusts
  have : Decidable (match m, sv.logic with
      | .logic _ _, .handle =>
          ∀ it ∈ sv.net.output[sv.handled]?, it.node.msgType = 0 → isNotice it
      | _, _ => True) := by
    split <;> infer_instance
  have : Decidable (∀ a ∈ sv.allocates m, sv.Unreferenced a) := Option.decidableForallMem _
  exact instDecidableAnd

variable {G : Generated Cls Msg} {sv sv' : Server Cls Msg} {h h' : LinkHistory}

/-! ### References to an incarnation -/

/-- The address `a` stands for the incarnation `id`, and for no older one. -/
structure Refers (sv : Server Cls Msg) (id : ℕ) (a : Addr) : Prop where
  lt : id < sv.net.nextId
  addr : (sv.net.life id).addr = a
  object : ∀ {c}, sv.net.heap a = some c → c.id = id
  notice : ∀ {it c}, sv.Unhandled it → it.src = .notice c → it.node.msgConn = a → c = id

/-- A step of the net layer that does not hand out the address again. -/
theorem Refers.setNet {id : ℕ} {a : Addr} {act : Act Cls Msg} {net : Layer Cls Msg}
    (h : sv.Refers id a) (hw : sv.net.WellPlaced) (ho : sv.net.InOrder)
    (hs : sv.net.step G act = some net) (hne : sv.net.allocates act ≠ some a) :
    (sv.setNet net).Refers id a := by
  have hobject : ∀ {c}, net.heap a = some c → c.id = id := by
    intro c hc
    rcases Layer.step_origin hs hc with ⟨d, hd, hid⟩ | ⟨hmade, -⟩
    · exact hid ▸ h.object hd
    · exact absurd hmade hne
  have hnotice : ∀ {it c}, (sv.setNet net).Unhandled it → it.src = .notice c →
      it.node.msgConn = a → c = id := by
    intro it c hit hsrc hconn
    have hold : ∀ {v}, it ∈ (net.worker v).tdReadMsgs → v < sv.net.threadNum → c = id := by
      intro v hmem hv
      rcases Layer.step_tdReadMsgs hw ho hs hmem with hmem | ⟨-, ⟨k, l, hwire⟩ | ⟨b, d, hd, hd', hb⟩⟩
      · exact h.notice (.inl ⟨v, hv, hmem⟩) hsrc hconn
      · rw [hwire] at hsrc
        cases hsrc
      · rw [hsrc, Source.notice.injEq] at hd'
        rw [hd']
        exact h.object (hconn ▸ hb ▸ hd)
    rcases hit with ⟨v, hv, hmem⟩ | hmem
    · exact hold hmem (Layer.step_threadNum hs ▸ hv)
    · rcases Layer.step_output hs with heq | ⟨v, hv, heq⟩
      · refine h.notice (.inr ?_) hsrc hconn
        rw [← heq]
        exact hmem
      · change it ∈ net.output.drop sv.handled at hmem
        rw [heq, List.drop_append] at hmem
        rcases List.mem_append.mp hmem with hmem | hmem
        · exact h.notice (.inr hmem) hsrc hconn
        · exact h.notice (.inl ⟨v, hv, List.mem_of_mem_drop hmem⟩) hsrc hconn
  refine ⟨h.lt.trans_le (Layer.nextId_le hs), ?_, hobject, hnotice⟩
  rw [← h.addr]
  exact Layer.step_addr hw hs h.lt

/-- A step that leaves the net layer alone. -/
theorem Refers.congr {id : ℕ} {a : Addr} (h : sv.Refers id a) (hnet : sv'.net = sv.net)
    (hhandled : sv.handled ≤ sv'.handled) : sv'.Refers id a := by
  refine ⟨hnet ▸ h.lt, hnet ▸ h.addr, fun hc => h.object (hnet ▸ hc), ?_⟩
  rintro it c (hit | hit) hsrc hconn
  · exact h.notice (.inl (hnet ▸ hit)) hsrc hconn
  · refine h.notice (.inr ?_) hsrc hconn
    rw [hnet] at hit
    exact List.drop_subset_drop_left _ hhandled hit

/-! ### What a move does to the link -/

/-- The net layer takes a step, and makes the object that the move makes. -/
theorem ServerStep.net_allocates {m : Move} (hs : ServerStep G .gate sv m sv') :
    sv'.net = sv.net ∨
      ∃ a, sv.net.step G a = some sv'.net ∧ sv.net.allocates a = sv.allocates m := by
  cases hs with
  | accept h | clock h | worker _ h | returned _ _ h | callbackPush _ _ h | fetch _ h | push _ h =>
    exact .inr ⟨_, h, rfl⟩
  | made hi h =>
    refine .inr ⟨_, h, ?_⟩
    rw [allocates, if_pos hi]
    rfl
  | process hk | processClose hk => cases hk
  | connectGs =>
    left
    dsimp only [setCallback]
    split <;> rfl
  | init =>
    left
    dsimp only [initConfig]
    split <;> rfl
  | relay =>
    left
    unfold Server.relay
    split
    · split
      · split <;> rfl
      · rfl
    · rfl
  | toGs =>
    left
    split <;> rfl
  | _ => exact .inl rfl

/-- What the logic thread meets before it resets `s_game_conn`. -/
structure Resets (sv : Server Cls Msg) (it : Item Msg) : Prop where
  handle : sv.logic = .handle
  next : sv.net.output[sv.handled]? = some it
  conn : it.node.msgConn = sv.upstream
  type : it.node.msgType = 0

/-- Outside the connect threads the link changes in two ways: a thread is started, and
`logic_update` resets `s_game_conn`. -/
structure LinkStep (sv : Server Cls Msg) (m : Move) (sv' : Server Cls Msg) : Prop where
  threads : sv'.threads = sv.threads ∨ sv'.threads = sv.threads ++ [.check] ∧
    (sv.logic = .init ∨ ∃ w, sv.callback w = .connectGs)
  upstream : sv'.upstream = sv.upstream ∨ sv'.upstream = 0 ∧ ∃ it, sv.logic = .reset it
  reset : ∀ {it}, sv'.logic = .reset it → sv'.upstream = sv.upstream ∧
    (sv.logic = .reset it ∨ sv.Resets it ∧ ∃ created r, m = .logic created r)
  handled : sv.handled ≤ sv'.handled
  callback : ∀ {w}, sv'.callback w = .connectGs → sv.callback w = .connectGs ∨
    (sv.net.worker w).phase = .callback sv.upstream false ∧ sv'.net = sv.net
  init : sv'.logic = .init → sv.logic = .init ∧
    (sv'.threads = sv.threads ∨ ∃ w, sv.callback w = .connectGs)

/-- A worker goes on in the callback, and not to `connect_gs`. -/
theorem LinkStep.setCallback {m : Move} {net : Layer Cls Msg} {ok : Bool} {w : ℕ}
    {pc : CallbackPc Msg} (hpc : pc ≠ .connectGs) :
    LinkStep sv m (({ sv with net := net, initOk := ok }).setCallback w pc) := by
  refine ⟨.inl rfl, .inl rfl, fun hr => ⟨rfl, .inl hr⟩, le_rfl, fun {v} hv => .inl ?_,
    fun hl => ⟨hl, .inl rfl⟩⟩
  rw [setCallback_callback] at hv
  split at hv
  · exact absurd hv hpc
  · exact hv

/-- The logic thread goes on, and not to a reset. -/
theorem LinkStep.setLogic {m : Move} {net : Layer Cls Msg} {n : ℕ} {pc : LogicPc Msg}
    (hn : sv.handled ≤ n) (hpc : pc ≠ .init) (hreset : ∀ it, pc ≠ .reset it) :
    LinkStep sv m { sv with net := net, handled := n, logic := pc } :=
  ⟨.inl rfl, .inl rfl, fun hr => absurd hr (hreset _), hn, .inl, fun hl => absurd hl hpc⟩

theorem ServerStep.link {m : Move} (hs : ServerStep G .gate sv m sv')
    (hm : ∀ i r, m ≠ .connect i r) : LinkStep sv m sv' := by
  cases hs with
  | checkUnset | checkSet | refused | broken | made | storeGate | storeGame | sleep =>
    exact absurd rfl (hm _ _)
  | process hk | processClose hk => cases hk
  | accept | clock | returned =>
    exact ⟨.inl rfl, .inl rfl, fun hr => ⟨rfl, .inl hr⟩, le_rfl, .inl, fun hl => ⟨hl, .inl rfl⟩⟩
  | worker | callbackSend | callbackPush | registNull | setInitOk => exact .setCallback nofun
  | regist =>
    refine .setCallback ?_
    split <;> exact nofun
  | @compare w created junk a ok hp hc =>
    refine ⟨.inl rfl, .inl rfl, fun hr => ⟨rfl, .inl hr⟩, le_rfl, fun {v} hv => ?_,
      fun hl => ⟨hl, .inl rfl⟩⟩
    rw [setCallback_callback] at hv
    split at hv
    · next hvw =>
      split at hv
      · next ha =>
        cases ok with
        | true => cases hv
        | false => exact .inr ⟨by rw [hvw, hp, ha], rfl⟩
      · cases hv
    · exact .inl hv
  | @connectGs w created junk a ok hp hc =>
    have hthreads : (if created then sv.createWorker .gate else sv).threads = sv.threads ∨
        (if created then sv.createWorker .gate else sv).threads = sv.threads ++ [.check] := by
      split
      · exact .inr rfl
      · exact .inl rfl
    have hupstream : (if created then sv.createWorker .gate else sv).upstream = sv.upstream := by
      split <;> rfl
    refine ⟨hthreads.imp_right fun h => ⟨h, .inr ⟨w, hc⟩⟩, .inl hupstream,
      fun hr => ⟨hupstream, .inl ?_⟩, ?_, fun {v} hv => .inl ?_, fun hl => ⟨?_, .inr ⟨w, hc⟩⟩⟩
    · change (if created then sv.createWorker .gate else sv).logic = _ at hr
      split at hr <;> exact hr
    · show _ ≤ (if created then sv.createWorker .gate else sv).handled
      split <;> exact le_rfl
    · rw [setCallback_callback] at hv
      split at hv
      · cases hv
      · change (if created then sv.createWorker .gate else sv).callback v = _ at hv
        split at hv <;> exact hv
    · change (if created then sv.createWorker .gate else sv).logic = _ at hl
      split at hl <;> exact hl
  | init hl =>
    dsimp only [initConfig]
    split
    · exact ⟨.inr ⟨rfl, .inl hl⟩, .inl rfl, nofun, le_rfl, .inl, nofun⟩
    · exact ⟨.inl rfl, .inl rfl, nofun, le_rfl, .inl, nofun⟩
  | @relay created r it hk hl hit =>
    unfold Server.relay
    split
    · next hup =>
      split
      · split
        · refine ⟨.inl rfl, .inl rfl, fun hr => ⟨rfl, .inl hr⟩, Nat.le_succ _, .inl, fun hinit => ?_⟩
          rw [hl] at hinit
          cases hinit
        · exact .setLogic (Nat.le_succ _) nofun nofun
      · next hty =>
        refine ⟨.inl rfl, .inl rfl, fun hr => ⟨rfl, .inr ⟨?_, _, _, rfl⟩⟩, Nat.le_succ _, .inl, nofun⟩
        cases hr
        exact ⟨hl, hit, hup, not_not.mp hty⟩
    · exact .setLogic (Nat.le_succ _) nofun nofun
  | reset hl => exact ⟨.inl rfl, .inr ⟨rfl, _, hl⟩, nofun, le_rfl, .inl, nofun⟩
  | toGs => split <;> exact .setLogic le_rfl nofun nofun
  | idle | fetch | fetched | handledAll | send | push => exact .setLogic le_rfl nofun nofun

/-! ### The history is right -/

/-- What the history says of the addresses. -/
structure Known (sv : Server Cls Msg) (l : LinkHistory) : Prop where
  length : l.made.length = sv.threads.length
  gs : ∀ {id}, l.gs = some id → sv.Refers id sv.upstream
  unset : l.gs = none → sv.upstream = 0 ∨ sv.upstream = -1
  made : ∀ {i : ℕ} {v id}, sv.threads[i]? = some (.store v) → l.made[i]? = some (some id) →
    sv.Refers id v
  unmade : ∀ {i : ℕ} {v}, sv.threads[i]? = some (.store v) → l.made[i]? = some none → v = 0 ∨ v = -1

variable {l : LinkHistory}

/-- A referenced address stays so. -/
theorem Refers.step {m : Move} {id : ℕ} {a : Addr} (h : sv.Refers id a) (hw : sv.net.WellPlaced)
    (ho : sv.net.InOrder) (hc : sv.Trusts m) (huse : sv.upstream = a ∨ .store a ∈ sv.threads)
    (hnet : sv'.net = sv.net ∨
      ∃ act, sv.net.step G act = some sv'.net ∧ sv.net.allocates act = sv.allocates m)
    (hhandled : sv.handled ≤ sv'.handled) : sv'.Refers id a := by
  rcases hnet with heq | ⟨act, hs, halloc⟩
  · exact h.congr heq hhandled
  · have hne : sv.net.allocates act ≠ some a := by
      intro ha
      rw [halloc] at ha
      have hfree := hc.1 a ha
      exact huse.elim hfree.upstream hfree.threads
    exact (h.setNet hw ho hs hne).congr rfl hhandled

theorem getElem?_concat_check {ts : List ConnectPc} {i : ℕ} {v : Addr}
    (h : (ts ++ [.check])[i]? = some (.store v)) : ts[i]? = some (.store v) := by
  rw [List.getElem?_append] at h
  split at h
  · exact h
  · rw [List.getElem?_singleton] at h
    split at h
    · cases h
    · cases h

/-- Outside the connect threads. -/
theorem Known.others {m : Move} (h : sv.Known l) (hlink : LinkStep sv m sv')
    (hrefers : ∀ {id a}, sv.Refers id a → sv.upstream = a ∨ .store a ∈ sv.threads →
      sv'.Refers id a) (hm : ∀ i r, m ≠ .connect i r) : sv'.Known (l.record sv m sv') := by
  have hmade : (l.record sv m sv').made =
      l.made ++ List.replicate (sv'.threads.length - sv.threads.length) none := by
    cases m with
    | connect i r => exact absurd rfl (hm i r)
    | _ => rfl
  have hgs : (l.record sv m sv').gs = if sv'.upstream = sv.upstream then l.gs else none := by
    cases m with
    | connect i r => exact absurd rfl (hm i r)
    | _ => rfl
  have hstore : ∀ {i : ℕ} {v}, sv'.threads[i]? = some (.store v) →
      sv.threads[i]? = some (.store v) := by
    intro i v hi
    rcases hlink.threads with heq | ⟨heq, -⟩
    · exact heq ▸ hi
    · rw [heq] at hi
      exact getElem?_concat_check hi
  have hold : ∀ {i : ℕ} {v}, sv'.threads[i]? = some (.store v) →
      (l.record sv m sv').made[i]? = l.made[i]? := by
    intro i v hi
    obtain ⟨hlt, -⟩ := List.getElem?_eq_some_iff.mp (hstore hi)
    rw [hmade, List.getElem?_append_left (h.length ▸ hlt)]
  refine ⟨?_, ?_, ?_, ?_, ?_⟩
  · rw [hmade, List.length_append, List.length_replicate, h.length]
    rcases hlink.threads with heq | ⟨heq, -⟩
    · rw [heq]
      omega
    · rw [heq, List.length_append]
      omega
  · intro id hid
    rw [hgs] at hid
    split at hid
    · next hup =>
      rw [hup]
      exact hrefers (h.gs hid) (.inl rfl)
    · cases hid
  · intro hnone
    rw [hgs] at hnone
    split at hnone
    · next hup =>
      rw [hup]
      exact h.unset hnone
    · next hup =>
      rcases hlink.upstream with heq | ⟨heq, -⟩
      · exact absurd heq hup
      · exact .inl heq
  · intro i v id hi hid
    rw [hold hi] at hid
    exact hrefers (h.made (hstore hi) hid) (.inr (List.mem_of_getElem? (hstore hi)))
  · intro i v hi hnone
    rw [hold hi] at hnone
    exact h.unmade (hstore hi) hnone

theorem getElem?_set_cases {α : Type*} {ts : List α} {i j : ℕ} {x y : α}
    (h : (ts.set i x)[j]? = some y) : j = i ∧ y = x ∨ j ≠ i ∧ ts[j]? = some y := by
  rw [List.getElem?_set] at h
  split at h
  · next hij =>
    split at h
    · exact .inl ⟨hij.symm, (Option.some.inj h).symm⟩
    · cases h
  · next hij => exact .inr ⟨fun hji => hij hji.symm, h⟩

/-- A connect thread goes on, with nothing to store that the history does not say. -/
theorem Known.setThread (h : sv.Known l) {i : ℕ} {pc : ConnectPc} {o : Option ℕ}
    {made : List (Option ℕ)} {resets : List (Option ℕ)}
    (hmade : made = l.made ∧ (∀ v, pc ≠ .store v) ∨ made = l.made.set i o ∧
      ∀ v, pc = .store v → (o = none → v = 0 ∨ v = -1) ∧ ∀ id, o = some id → sv.Refers id v) :
    (sv.setThread i pc).Known ⟨made, l.gs, resets⟩ := by
  have hcases : ∀ {j : ℕ} {v : Addr} {q}, (sv.setThread i pc).threads[j]? = some (.store v) →
      made[j]? = some q → sv.threads[j]? = some (.store v) ∧ l.made[j]? = some q ∨
        (q = none → v = 0 ∨ v = -1) ∧ ∀ id, q = some id → sv.Refers id v := by
    intro j v q hj hq
    rcases getElem?_set_cases hj with ⟨hji, hpc⟩ | ⟨hji, hj⟩
    · rcases hmade with ⟨-, hne⟩ | ⟨hset, hval⟩
      · exact absurd hpc.symm (hne v)
      · rw [hset, hji, List.getElem?_set_self'] at hq
        obtain ⟨-, -, rfl⟩ := Option.map_eq_some_iff.mp hq
        exact .inr (hval v hpc.symm)
    · refine .inl ⟨hj, ?_⟩
      rcases hmade with ⟨hsame, -⟩ | ⟨hset, -⟩
      · exact hsame ▸ hq
      · rwa [hset, List.getElem?_set_ne fun hij => hji hij.symm] at hq
  have hrefers : ∀ {id a}, sv.Refers id a → (sv.setThread i pc).Refers id a :=
    fun h => h.congr rfl le_rfl
  refine ⟨?_, fun hid => hrefers (h.gs hid), h.unset, fun hj hq => ?_, fun hj hq => ?_⟩
  · show made.length = (sv.threads.set i pc).length
    rw [List.length_set, ← h.length]
    rcases hmade with ⟨hsame, -⟩ | ⟨hset, -⟩
    · rw [hsame]
    · rw [hset, List.length_set]
  · rcases hcases hj hq with ⟨hj, hq⟩ | hval
    · exact hrefers (h.made hj hq)
    · exact hrefers (hval.2 _ rfl)
  · rcases hcases hj hq with ⟨hj, hq⟩ | hval
    · exact h.unmade hj hq
    · exact hval.1 rfl

/-- A thread ends. -/
theorem Known.endThread (h : sv.Known l) {i : ℕ} {resets : List (Option ℕ)} :
    (sv.endThread i).Known ⟨l.made.eraseIdx i, l.gs, resets⟩ := by
  have hrefers : ∀ {id a}, sv.Refers id a → (sv.endThread i).Refers id a :=
    fun h => h.congr rfl le_rfl
  have hcases : ∀ {j : ℕ} {v : Addr} {q}, (sv.endThread i).threads[j]? = some (.store v) →
      (l.made.eraseIdx i)[j]? = some q →
        ∃ j' : ℕ, sv.threads[j']? = some (.store v) ∧ l.made[j']? = some q := by
    intro j v q hj hq
    change (sv.threads.eraseIdx i)[j]? = _ at hj
    rw [List.getElem?_eraseIdx] at hj hq
    split at hj
    · next hlt =>
      rw [if_pos hlt] at hq
      exact ⟨j, hj, hq⟩
    · next hlt =>
      rw [if_neg hlt] at hq
      exact ⟨j + 1, hj, hq⟩
  refine ⟨?_, fun hid => hrefers (h.gs hid), h.unset, fun hj hq => ?_, fun hj hq => ?_⟩
  · show (l.made.eraseIdx i).length = (sv.threads.eraseIdx i).length
    rw [List.length_eraseIdx, List.length_eraseIdx, h.length]
  · obtain ⟨j', hj, hq⟩ := hcases hj hq
    exact hrefers (h.made hj hq)
  · obtain ⟨j', hj, hq⟩ := hcases hj hq
    exact h.unmade hj hq

/-- A new object. -/
theorem Refers.made {a : Addr} {net : Layer Cls Msg} (hfree : sv.Unreferenced a)
    (hs : sv.net.step G (.connect a) = some net) :
    (sv.setNet net).Refers sv.net.nextId a := by
  simp only [Layer.step, Option.ite_none_right_eq_some, Option.some.injEq] at hs
  obtain ⟨-, rfl⟩ := hs
  refine ⟨Nat.lt_succ_self _, ?_, fun {c} hc => ?_, ?_⟩
  · show ((sv.net.alloc a .connecting true).life sv.net.nextId).addr = a
    rw [Layer.alloc_life, if_pos rfl]
    rfl
  · change (sv.net.alloc a .connecting true).heap a = some c at hc
    rw [Layer.alloc_heap, if_pos rfl, Option.some.injEq] at hc
    rw [← hc]
    rfl
  · rintro it c (⟨v, hv, hit⟩ | hit) hsrc hconn
    · exact absurd hconn (hfree.queued v hv it hit (by rw [isNotice, hsrc]))
    · exact absurd hconn (hfree.output it hit (by rw [isNotice, hsrc]))

/-- What `net_connect` returned is stored. -/
theorem Known.store (h : sv.Known l) {i : ℕ} {v : Addr} (hi : sv.threads[i]? = some (.store v))
    {resets : List (Option ℕ)} :
    ({ sv with upstream := v }.setThread i .sleep).Known ⟨l.made, l.made[i]?.join, resets⟩ := by
  have hlt : i < l.made.length := by
    obtain ⟨hlt, -⟩ := List.getElem?_eq_some_iff.mp hi
    rw [h.length]
    exact hlt
  have hset : ({ sv with upstream := v } : Server Cls Msg).Known
      ⟨l.made, l.made[i]?.join, resets⟩ := by
    refine ⟨h.length, fun {id} hid => ?_, fun hnone => ?_, fun hj hq => ?_, fun hj hq => h.unmade hj hq⟩
    · change l.made[i]?.join = some id at hid
      rw [List.getElem?_eq_getElem hlt, Option.join_some] at hid
      exact (h.made hi ((List.getElem?_eq_getElem hlt).trans (congrArg some hid))).congr rfl le_rfl
    · change l.made[i]?.join = none at hnone
      rw [List.getElem?_eq_getElem hlt, Option.join_some] at hnone
      exact h.unmade hi ((List.getElem?_eq_getElem hlt).trans (congrArg some hnone))
    · exact (h.made hj hq).congr rfl le_rfl
  exact hset.setThread (o := none) (.inl ⟨rfl, nofun⟩)

/-- **Every step keeps the history right.** -/
theorem Known.step {m : Move} (h : sv.Known l) (hw : sv.net.WellPlaced) (ho : sv.net.InOrder)
    (hc : sv.Trusts m) (hs : sv.step G .gate m = some sv') : sv'.Known (l.record sv m sv') := by
  have hcases := step_cases hs
  by_cases hm : ∀ i r, m ≠ .connect i r
  · have hlink := hcases.link hm
    refine h.others hlink (fun hr huse => ?_) hm
    exact hr.step hw ho hc huse hcases.net_allocates hlink.handled
  · push Not at hm
    obtain ⟨i, r, rfl⟩ := hm
    cases hcases with
    | checkUnset hi hup =>
      simp only [LinkHistory.record, LinkHistory.recordMade, LinkHistory.recordGs, hi, if_pos hup]
      exact h.setThread (o := none) (.inl ⟨rfl, nofun⟩)
    | checkSet hi hup =>
      simp only [LinkHistory.record, LinkHistory.recordMade, LinkHistory.recordGs, hi, if_neg hup]
      exact h.endThread
    | refused hi =>
      simp only [LinkHistory.record, LinkHistory.recordMade, LinkHistory.recordGs, hi]
      refine h.setThread (o := none) (.inr ⟨rfl, fun v hv => ⟨fun _ => .inl ?_, nofun⟩⟩)
      cases hv
      rfl
    | broken hi =>
      simp only [LinkHistory.record, LinkHistory.recordMade, LinkHistory.recordGs, hi]
      refine h.setThread (o := none) (.inr ⟨rfl, fun v hv => ⟨fun _ => .inr ?_, nofun⟩⟩)
      cases hv
      rfl
    | @made i a net hi hn =>
      simp only [LinkHistory.record, LinkHistory.recordMade, LinkHistory.recordGs, hi]
      have halloc : sv.allocates (.connect i (.made a)) = some a := by rw [allocates, if_pos hi]
      have hfree := hc.1 a halloc
      have hnet : (sv.setNet net).Known l := by
        have hrefers : ∀ {id b}, sv.Refers id b → sv.upstream = b ∨ .store b ∈ sv.threads →
            (sv.setNet net).Refers id b := fun hr huse =>
          hr.step hw ho hc huse (.inr ⟨.connect a, hn, halloc.symm⟩) le_rfl
        refine ⟨h.length, fun hid => hrefers (h.gs hid) (.inl rfl), h.unset, fun hj hq => ?_,
          fun hj hq => h.unmade hj hq⟩
        exact hrefers (h.made hj hq) (.inr (List.mem_of_getElem? hj))
      refine hnet.setThread (o := some sv.net.nextId) (.inr ⟨rfl, fun v hv => ⟨nofun, ?_⟩⟩)
      rintro id hid
      cases hv
      cases hid
      exact Refers.made hfree hn
    | storeGate _ hi =>
      simp only [LinkHistory.record, LinkHistory.recordMade, LinkHistory.recordGs, hi]
      exact h.store hi
    | storeGame hk => cases hk
    | sleep hi =>
      simp only [LinkHistory.record, LinkHistory.recordMade, LinkHistory.recordGs, hi]
      exact h.setThread (o := none) (.inl ⟨rfl, nofun⟩)

/-! ### One connect thread at a time -/

/-- The connection in `s_game_conn` was registered, and is closed. -/
def Gone (sv : Server Cls Msg) (l : LinkHistory) : Prop :=
  ∃ id, l.gs = some id ∧ (sv.net.life id).closed.isSome ∧ (sv.net.life id).owner ≠ none

theorem Gone.congr {l' : LinkHistory} (h : sv.Gone l) (hgs : l'.gs = l.gs) : sv.Gone l' := by
  obtain ⟨id, hid, hrest⟩ := h
  exact ⟨id, hgs.trans hid, hrest⟩

theorem Gone.step {m : Move} {l' : LinkHistory} (h : sv.Gone l) (hw : sv.net.WellPlaced)
    (hs : ServerStep G .gate sv m sv') (hgs : l'.gs = l.gs) : sv'.Gone l' := by
  obtain ⟨id, hid, hclosed, howner⟩ := h
  refine ⟨id, hgs.trans hid, ?_⟩
  rcases hs.net with heq | ⟨act, hact⟩
  · rw [heq]
    exact ⟨hclosed, howner⟩
  · obtain ⟨w, hw'⟩ := Option.ne_none_iff_exists'.mp howner
    exact ⟨Layer.step_closed hw hact hclosed, by rw [Layer.step_owner hw hact hw']; exact nofun⟩

/-- While `s_game_conn` is set no thread is past its test of it, and there is one thread, unless
the connect of its connection failed; and where it is to be reset its connection is gone. -/
structure Steady (sv : Server Cls Msg) (l : LinkHistory) : Prop where
  waiting : sv.upstream ≠ 0 → ∀ pc ∈ sv.threads, pc = .check ∨ pc = .sleep
  single : (sv.threads.length ≤ 1 ∧ ∀ w, sv.callback w ≠ .connectGs) ∨
    ∃ id, l.gs = some id ∧ sv.net.Doomed id
  reset : ∀ {it}, sv.logic = .reset it → sv.Gone l
  init : sv.logic = .init → sv.threads = [] ∧ sv.upstream = 0

theorem Known.upstream_ne (h : sv.Known l) (hal : sv.net.Aligned) {id : ℕ} (hid : l.gs = some id) :
    sv.upstream ≠ 0 := by
  have hr := h.gs hid
  rw [← hr.addr]
  exact (hal id hr.lt).1

/-- An address that was allocated is in `s_game_conn` for the incarnation the history says. -/
theorem Known.exists_gs (h : sv.Known l) {a : Addr} (hne : a ≠ 0) (hmod : a.toNat % 16 = 0)
    (ha : a = sv.upstream) : ∃ id, l.gs = some id ∧ sv.Refers id a := by
  cases hgs : l.gs with
  | some id => exact ⟨id, rfl, ha ▸ h.gs hgs⟩
  | none =>
    rcases h.unset hgs with h₀ | h₁
    · exact absurd (ha.trans h₀) hne
    · rw [ha, h₁] at hmod
      exact absurd hmod (by decide)

/-- **`logic_update` resets `s_game_conn` for a closed connection**, the one in `s_game_conn`. -/
theorem Known.gone (h : sv.Known l) (hw : sv.net.WellPlaced) (ho : sv.net.InOrder)
    (hal : sv.net.Aligned) {it : Item Msg} (hr : sv.Resets it) (hn : isNotice it) : sv.Gone l := by
  obtain ⟨c, hsrc⟩ := exists_of_isNotice hn
  have hmem : it ∈ sv.net.output := List.mem_of_getElem? hr.next
  have hnext : it ∈ sv.net.output.drop sv.handled := by
    obtain ⟨hlt, heq⟩ := List.getElem?_eq_some_iff.mp hr.next
    rw [List.drop_eq_getElem_cons hlt, heq]
    exact List.mem_cons_self
  obtain ⟨⟨-, -, hconn⟩, hclosed⟩ := ho.isNotice hmem hsrc
  obtain ⟨c', w, hc', howner⟩ := ho.out hmem
  rw [hsrc, Source.conn, Option.some.injEq] at hc'
  subst hc'
  have hlt : c < sv.net.nextId := by
    refine lt_of_not_ge fun hge => ?_
    rw [hw.fresh hge] at howner
    cases howner
  obtain ⟨id, hgs, hrefers⟩ := h.exists_gs (hal c hlt).1 (hal c hlt).2 (hconn ▸ hr.conn)
  have hid : c = id := hrefers.notice (.inr hnext) hsrc hconn
  rw [← hid] at hgs
  exact ⟨c, hgs, hclosed, by rw [howner]; exact nofun⟩

/-- Outside the connect threads. -/
theorem Steady.others (h : sv.Steady l) (hk : sv.Known l) (hw : sv.net.WellPlaced)
    (ho : sv.net.InOrder) (hal : sv.net.Aligned) {m : Move} (hc : sv.Trusts m)
    (hs : ServerStep G .gate sv m sv') (hm : ∀ i r, m ≠ .connect i r) :
    sv'.Steady (l.record sv m sv') := by
  have hlink := hs.link hm
  have hgs : (l.record sv m sv').gs = if sv'.upstream = sv.upstream then l.gs else none := by
    cases m with
    | connect i r => exact absurd rfl (hm i r)
    | _ => rfl
  have hrefused : ∀ {w}, (sv.net.worker w).phase = .callback sv.upstream false →
      ∃ c, sv.net.heap sv.upstream = some c ∧ c.td = none ∧ l.gs = some c.id := by
    intro w hp
    obtain ⟨c, hobj, -, htd⟩ := hw.refused hp
    have haddr := hal c.id (hw.id_lt hobj)
    rw [hw.addr hobj] at haddr
    obtain ⟨id, hgs, hrefers⟩ := hk.exists_gs haddr.1 haddr.2 rfl
    exact ⟨c, hobj, htd, by rw [hgs, hrefers.object hobj]⟩
  have hinit : sv.logic = .init → ∀ w, sv.callback w ≠ .connectGs := by
    intro hl w
    rcases h.single with ⟨-, hcb⟩ | ⟨id, hid, -⟩
    · exact hcb w
    · exact absurd (h.init hl).2 (hk.upstream_ne hal hid)
  refine ⟨fun hne pc hpc => ?_, ?_, fun hl => ?_, fun hl => ?_⟩
  · have hup : sv'.upstream = sv.upstream := hlink.upstream.resolve_right fun h₀ => hne h₀.1
    rcases hlink.threads with heq | ⟨heq, -⟩
    · exact h.waiting (hup ▸ hne) pc (heq ▸ hpc)
    · rw [heq] at hpc
      rcases List.mem_append.mp hpc with hpc | hpc
      · exact h.waiting (hup ▸ hne) pc hpc
      · exact .inl (List.mem_singleton.mp hpc)
  · rcases hlink.upstream with hup | ⟨-, it, hr⟩
    · rw [hgs, if_pos hup]
      rcases h.single with ⟨hlen, hcb⟩ | ⟨id, hid, hd⟩
      · by_cases hnew : ∃ w, sv'.callback w = .connectGs
        · -- the callback for the connection in `s_game_conn` reports a failure
          obtain ⟨w, hnew⟩ := hnew
          rcases hlink.callback hnew with hold | ⟨hp, hnet⟩
          · exact absurd hold (hcb w)
          · obtain ⟨c, hobj, -, hid⟩ := hrefused hp
            refine .inr ⟨c.id, hid, .inl ⟨w, sv.upstream, c, ?_, ?_, rfl⟩⟩
            · rw [hnet, hp]
            · rw [hnet, hobj]
        · refine .inl ⟨?_, fun w hw' => hnew ⟨w, hw'⟩⟩
          rcases hlink.threads with heq | ⟨heq, hl | ⟨w, hw'⟩⟩
          · rw [heq]
            exact hlen
          · rw [heq, (h.init hl).1]
            exact le_rfl
          · exact absurd hw' (hcb w)
      · refine .inr ⟨id, hid, ?_⟩
        rcases hs.net_allocates with heq | ⟨act, hact, -⟩
        · rw [heq]
          exact hd
        · exact hd.step hw ho hact
    · -- the connection in `s_game_conn` was registered, so its connect did not fail
      obtain ⟨id, hid, -, howner⟩ := h.reset hr
      rcases h.single with ⟨hlen, hcb⟩ | ⟨id', hid', hd⟩
      · refine .inl ⟨?_, fun w hw' => ?_⟩
        · rcases hlink.threads with heq | ⟨-, hl | ⟨w, hw'⟩⟩
          · rw [heq]
            exact hlen
          · rw [hr] at hl
            cases hl
          · exact absurd hw' (hcb w)
        · rcases hlink.callback hw' with hold | ⟨hp, -⟩
          · exact hcb w hold
          · obtain ⟨c, hobj, htd, hcid⟩ := hrefused hp
            rw [hid, Option.some.injEq] at hcid
            rw [hcid, hw.owner hobj] at howner
            exact howner htd
      · rw [hid, Option.some.injEq] at hid'
        exact absurd (hid' ▸ hd.owner hw) howner
  · obtain ⟨hup, hold⟩ := hlink.reset hl
    have hgone : sv.Gone l := by
      rcases hold with hold | ⟨hr, created, r, rfl⟩
      · exact h.reset hold
      · have hc' := hc.2
        rw [hr.handle] at hc'
        exact hk.gone hw ho hal hr (hc' _ hr.next hr.type)
    exact hgone.step hw hs (hgs.trans (if_pos hup))
  · obtain ⟨hl, hth⟩ := hlink.init hl
    have hth' : sv'.threads = sv.threads := hth.resolve_right fun ⟨w, hw'⟩ => hinit hl w hw'
    refine ⟨hth'.trans (h.init hl).1, ?_⟩
    rcases hlink.upstream with hup | ⟨h₀, -⟩
    · exact hup.trans (h.init hl).2
    · exact h₀

/-- While `s_game_conn` is not set there is one thread. -/
theorem Steady.single_of_unset (h : sv.Steady l) (hk : sv.Known l) (hal : sv.net.Aligned)
    (h₀ : sv.upstream = 0) : sv.threads.length ≤ 1 ∧ ∀ w, sv.callback w ≠ .connectGs := by
  rcases h.single with hone | ⟨id, hid, -⟩
  · exact hone
  · exact absurd h₀ (hk.upstream_ne hal hid)

/-- A thread past its test finds `s_game_conn` not set. -/
theorem Steady.unset_of_thread (h : sv.Steady l) {i : ℕ} {pc : ConnectPc}
    (hi : sv.threads[i]? = some pc) (hne : pc ≠ .check ∧ pc ≠ .sleep) : sv.upstream = 0 := by
  by_contra hup
  rcases h.waiting hup pc (List.mem_of_getElem? hi) with heq | heq
  · exact hne.1 heq
  · exact hne.2 heq

/-- `s_game_conn` is set where it is to be reset. -/
theorem Steady.not_reset (h : sv.Steady l) (hk : sv.Known l) (hal : sv.net.Aligned)
    (h₀ : sv.upstream = 0) (it : Item Msg) : sv.logic ≠ .reset it := by
  intro hl
  obtain ⟨id, hid, -⟩ := h.reset hl
  exact hk.upstream_ne hal hid h₀

theorem Steady.not_init (h : sv.Steady l) {i : ℕ} {pc : ConnectPc}
    (hi : sv.threads[i]? = some pc) : sv.logic ≠ .init := by
  intro hl
  rw [(h.init hl).1] at hi
  cases hi

/-- The thread goes on while `s_game_conn` is not set. -/
theorem Steady.setThread (h : sv.Steady l) (hk : sv.Known l) (hal : sv.net.Aligned) {i : ℕ}
    {p q : ConnectPc} {n : Layer Cls Msg} {l' : LinkHistory} (hi : sv.threads[i]? = some p)
    (h₀ : sv.upstream = 0) : ((sv.setNet n).setThread i q).Steady l' := by
  refine ⟨fun hne => absurd h₀ hne, .inl ?_, fun hl => absurd hl (h.not_reset hk hal h₀ _),
    fun hl => absurd hl (h.not_init hi)⟩
  obtain ⟨hlen, hcb⟩ := h.single_of_unset hk hal h₀
  exact ⟨(List.length_set ..).trans_le hlen, hcb⟩

/-- The connect threads. -/
theorem Steady.connect (h : sv.Steady l) (hk : sv.Known l) (hal : sv.net.Aligned) {i : ℕ}
    {r : ConnectResult} (hs : ServerStep G .gate sv (.connect i r) sv') :
    sv'.Steady (l.record sv (.connect i r) sv') ∧ (sv.upstream = 0 ∨ sv'.upstream = sv.upstream) := by
  cases hs with
  | checkUnset hi hup => exact ⟨h.setThread (n := sv.net) hk hal hi hup, .inl hup⟩
  | checkSet hi hup =>
    have hgs : (l.record sv (.connect i r) (sv.endThread i)).gs = l.gs := by
      simp only [LinkHistory.record, LinkHistory.recordGs, hi]
    refine ⟨⟨fun hne pc hpc => h.waiting hne pc (List.mem_of_mem_eraseIdx hpc), ?_,
      fun hl => (h.reset hl).congr hgs, fun hl => absurd hl (h.not_init hi)⟩, .inr rfl⟩
    rw [hgs]
    refine h.single.imp_left fun hone => ⟨?_, hone.2⟩
    exact (List.length_eraseIdx_le ..).trans hone.1
  | refused hi =>
    have h₀ := h.unset_of_thread hi ⟨nofun, nofun⟩
    exact ⟨h.setThread (n := sv.net) hk hal hi h₀, .inl h₀⟩
  | broken hi =>
    have h₀ := h.unset_of_thread hi ⟨nofun, nofun⟩
    exact ⟨h.setThread (n := sv.net) hk hal hi h₀, .inl h₀⟩
  | made hi =>
    have h₀ := h.unset_of_thread hi ⟨nofun, nofun⟩
    exact ⟨h.setThread hk hal hi h₀, .inl h₀⟩
  | @storeGate _ _ v _ hi =>
    have h₀ := h.unset_of_thread hi ⟨nofun, nofun⟩
    obtain ⟨hlen, hcb⟩ := h.single_of_unset hk hal h₀
    refine ⟨⟨fun _ pc hpc => .inr ?_, .inl ⟨(List.length_set ..).trans_le hlen, hcb⟩,
      fun hl => absurd hl (h.not_reset hk hal h₀ _), fun hl => absurd hl (h.not_init hi)⟩, .inl h₀⟩
    -- the thread is the only one
    have hlt := (List.getElem?_eq_some_iff.mp hi).1
    obtain ⟨x, hx⟩ := List.length_eq_one_iff.mp (Nat.le_antisymm hlen (Nat.zero_lt_of_lt hlt))
    have hzero : i = 0 := by omega
    change pc ∈ sv.threads.set i .sleep at hpc
    rw [hx, hzero] at hpc
    exact List.mem_singleton.mp hpc
  | storeGame hkind => cases hkind
  | sleep hi =>
    have hgs : (l.record sv (.connect i r) (sv.setThread i .check)).gs = l.gs := by
      simp only [LinkHistory.record, LinkHistory.recordGs, hi]
    refine ⟨⟨fun hne pc hpc => ?_, ?_, fun hl => (h.reset hl).congr hgs,
      fun hl => absurd hl (h.not_init hi)⟩, .inr rfl⟩
    · rcases List.mem_or_eq_of_mem_set hpc with hpc | hpc
      · exact h.waiting hne pc hpc
      · exact .inl hpc
    · rw [hgs]
      exact h.single.imp_left fun hone => ⟨(List.length_set ..).trans_le hone.1, hone.2⟩

end Server

end GoFight.Link
