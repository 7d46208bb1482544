import GoFight.Link.Callback

/-!
# The handshake with the server behind

`connector_callback` finds out whose connection it was called for by comparing the address with
`s_game_conn` or `s_data_conn`.  Another thread assigns that variable when `net_connect` has
returned, and a worker may have taken the connection, and called the callback, by then.

* `Server.Handshaken` — `s_init_ok` is set, and one `Regist::Req` was sent on the incarnation;
* `Server.Assigned` — the condition on a step: a callback that reads the variable finds its own
  connection there;
* `Server.Stage` — what a callback has done where it is, `Handshaking` — the invariant;
* `handshakes_of_reach` — the run theorem, under `Assigned`;
* `not_handshakes_calledFirst` — a callback ahead of the assignment.
-/

namespace GoFight.Link

open GoFight.Lib GoFight.Net

variable {Cls Msg : Type*}

namespace Server

section Property

variable (G : Generated Cls Msg) (k : Kind) (sv : Server Cls Msg)

/-- The registrations sent on an incarnation. -/
def registsOf (id : ℕ) : List (Item Msg) := sv.net.pushes.filter fun it => it.src = .regist id

/-- The node is a `Regist::Req` with the server's id, for the connection at `a`. -/
structure IsRegist (a : Addr) (it : Item Msg) : Prop where
  msgType : it.node.msgType = Protocol.messageRegistReq
  msgConn : it.node.msgConn = a
  msgData : ∃ c, sv.net.registry Protocol.messageRegistReq = some c ∧
    it.node.msgData = G.setMyId (G.newMsg c) k.myId

/-- **The handshake of an incarnation is complete.** -/
structure Handshaken (id : ℕ) : Prop where
  initOk : sv.initOk = true
  once : ∃ it, sv.registsOf id = [it] ∧ sv.IsRegist G k (sv.net.life id).addr it

/-- The property: every callback with `is_ok` goes on to its end, and there the handshake is
complete and stays so. -/
structure Handshakes : Prop where
  goesOn : ∀ {w a}, (sv.net.worker w).phase = .callback a true →
    (sv.callback w = .done ∧ ∃ id, sv.idAt a = [id] ∧ sv.Handshaken G k id) ∨
      ∀ created junk, (sv.step G k (.callback w created junk)).isSome
  returned : ∀ id ∈ sv.returned, sv.Handshaken G k id

/-- A callback with `is_ok` that reads the link's variable finds its connection there. -/
def Assigned : Move → Prop
  | .callback w _ _ =>
      match (sv.net.worker w).phase, sv.callback w with
      | .callback a true, .compare => a = sv.upstream
      | .callback a true, .regist => a = sv.upstream
      | _, _ => True
  | _ => True

instance (m : Move) : Decidable (sv.Assigned m) := by
  unfold Assigned
  split
  · split <;> infer_instance
  · infer_instance

end Property

/-! ### What a callback has done -/

/-- What a callback with `is_ok` for the incarnation `id` at `a` has done where it is. -/
def Stage (G : Generated Cls Msg) (k : Kind) (sv : Server Cls Msg) (a : Addr) (id : ℕ) :
    CallbackPc Msg → Prop
  | .compare => sv.registsOf id = []
  | .setInitOk => sv.registsOf id = []
  | .regist => sv.initOk = true ∧ sv.registsOf id = []
  | .send it =>
      sv.initOk = true ∧ sv.registsOf id = [] ∧ it.src = .regist id ∧ sv.IsRegist G k a it
  | .push v it =>
      sv.initOk = true ∧ sv.registsOf id = [] ∧ it.src = .regist id ∧ sv.IsRegist G k a it ∧
        v < sv.net.threadNum
  | .connectGs => False
  | .done => sv.initOk = true ∧ ∃ it, sv.registsOf id = [it] ∧ sv.IsRegist G k a it

/-- The invariant. -/
structure Handshaking (G : Generated Cls Msg) (k : Kind) (sv : Server Cls Msg) : Prop where
  stage : ∀ {w a c}, (sv.net.worker w).phase = .callback a true → sv.net.heap a = some c →
    Stage G k sv a c.id (sv.callback w)
  returned : ∀ id ∈ sv.returned, sv.Handshaken G k id ∧ (sv.net.life id).owner.isSome
  unowned : ∀ id, (sv.net.life id).owner = none → sv.registsOf id = []
  hand : ∀ it ∈ sv.logic.hand, it.src.conn.isSome

variable {G : Generated Cls Msg} {k : Kind} {sv sv' : Server Cls Msg} {ids : List ℕ}

/-- What the property says of an incarnation is not read elsewhere. -/
structure Kept (sv sv' : Server Cls Msg) (id : ℕ) : Prop where
  initOk : sv.initOk = true → sv'.initOk = true
  regists : sv'.registsOf id = sv.registsOf id
  registry : sv'.net.registry = sv.net.registry
  threadNum : sv'.net.threadNum = sv.net.threadNum

theorem Kept.isRegist {id : ℕ} {a : Addr} {it : Item Msg} (h : Kept sv sv' id)
    (hit : sv.IsRegist G k a it) : sv'.IsRegist G k a it :=
  ⟨hit.msgType, hit.msgConn, h.registry ▸ hit.msgData⟩

theorem Kept.stage {id : ℕ} {a : Addr} {pc : CallbackPc Msg} (h : Kept sv sv' id)
    (hst : Stage G k sv a id pc) : Stage G k sv' a id pc := by
  cases pc with
  | compare | setInitOk => exact h.regists.trans hst
  | regist => exact ⟨h.initOk hst.1, h.regists.trans hst.2⟩
  | send it =>
    obtain ⟨hok, hnil, hsrc, hit⟩ := hst
    exact ⟨h.initOk hok, h.regists.trans hnil, hsrc, h.isRegist hit⟩
  | push v it =>
    obtain ⟨hok, hnil, hsrc, hit, hv⟩ := hst
    exact ⟨h.initOk hok, h.regists.trans hnil, hsrc, h.isRegist hit, h.threadNum ▸ hv⟩
  | connectGs => exact hst
  | done =>
    obtain ⟨hok, it, hone, hit⟩ := hst
    exact ⟨h.initOk hok, it, h.regists.trans hone, h.isRegist hit⟩

theorem Kept.handshaken {id : ℕ} (h : Kept sv sv' id)
    (haddr : (sv'.net.life id).addr = (sv.net.life id).addr) (hid : sv.Handshaken G k id) :
    sv'.Handshaken G k id := by
  obtain ⟨hok, it, hone, hit⟩ := hid
  refine ⟨h.initOk hok, it, h.regists.trans hone, ?_⟩
  rw [haddr]
  exact h.isRegist hit

/-! ### Steps of the net layer -/

/-- A step that pushes no registration. -/
theorem registsOf_step {a : Act Cls Msg} {id : ℕ} (hs : sv.net.step G a = some sv'.net)
    (hsend : ∀ w it, a = .send w it → it.src ≠ .regist id) : sv'.registsOf id = sv.registsOf id := by
  rw [registsOf, registsOf, Layer.step_pushes hs, List.filter_append]
  cases a with
  | send w it => simp [hsend w it rfl]
  | _ => exact List.append_nil _

/-- An owned incarnation is one of those made. -/
theorem lt_nextId (hw : sv.net.WellPlaced) {id : ℕ} (ho : (sv.net.life id).owner.isSome) :
    id < sv.net.nextId := by
  by_contra hge
  rw [hw.fresh (Nat.le_of_not_lt hge)] at ho
  cases ho

/-- A step of the net layer; `hstage` is for the callbacks. -/
theorem Handshaking.net_step (h : Handshaking G k sv) {a : Act Cls Msg} (hw : sv.net.WellPlaced)
    (hs : sv.net.step G a = some sv'.net) (hty : ∀ msgType init, a ≠ .regist msgType init)
    (hsend : ∀ w it, a = .send w it → it.src.conn.isSome) (hinit : sv'.initOk = sv.initOk)
    (hret : sv'.returned = sv.returned) (hhand : ∀ it ∈ sv'.logic.hand, it.src.conn.isSome)
    (hstage : ∀ {w b c}, (sv'.net.worker w).phase = .callback b true → sv'.net.heap b = some c →
      (∃ d, (sv.net.worker w).phase = .callback b true ∧ sv.net.heap b = some d ∧ d.id = c.id ∧
        sv'.callback w = sv.callback w) ∨
      sv'.callback w = .compare ∧ (sv.net.life c.id).owner = none) : Handshaking G k sv' := by
  have hkept : ∀ id, Kept sv sv' id := by
    intro id
    refine ⟨fun hok => hinit.trans hok, registsOf_step hs ?_, Layer.step_registry hs hty,
      Layer.step_threadNum hs⟩
    intro w it ha hsrc
    have hsome := hsend w it ha
    rw [hsrc] at hsome
    cases hsome
  have howner : ∀ {id}, (sv.net.life id).owner.isSome → (sv'.net.life id).owner.isSome := by
    intro id ho
    obtain ⟨w, hown⟩ := Option.isSome_iff_exists.mp ho
    rw [Layer.step_owner hw hs hown]
    rfl
  refine ⟨fun {w b c} hp hc => ?_, fun id hid => ?_, fun id hnone => ?_, hhand⟩
  · rcases hstage hp hc with ⟨d, hp₀, hd, hid, hcb⟩ | ⟨hcb, hnone⟩
    · rw [hcb, ← hid]
      exact (hkept d.id).stage (h.stage hp₀ hd)
    · rw [hcb]
      exact (hkept c.id).regists.trans (h.unowned c.id hnone)
  · rw [hret] at hid
    obtain ⟨hdone, ho⟩ := h.returned id hid
    exact ⟨(hkept id).handshaken (Layer.step_addr hw hs (lt_nextId hw ho)) hdone, howner ho⟩
  · rw [(hkept id).regists]
    apply h.unowned
    by_contra hne
    have hsome := howner (Option.isSome_iff_ne_none.mpr hne)
    rw [hnone] at hsome
    cases hsome

/-- A step that is not a worker's. -/
theorem Handshaking.other_step (h : Handshaking G k sv) (hin : sv.InCallback ids) {a : Act Cls Msg}
    (hw : sv.net.WellPlaced) (ho : sv.net.InOrder) (hw' : sv'.net.WellPlaced)
    (hs : sv.net.step G a = some sv'.net) (ha : ∀ w e, a ≠ .worker w e)
    (hty : ∀ msgType init, a ≠ .regist msgType init)
    (hsend : ∀ w it, a = .send w it → it.src.conn.isSome) (hinit : sv'.initOk = sv.initOk)
    (hret : sv'.returned = sv.returned) (hcb : sv'.callback = sv.callback)
    (hhand : ∀ it ∈ sv'.logic.hand, it.src.conn.isSome) : Handshaking G k sv' := by
  apply h.net_step hw hs hty hsend hinit hret hhand
  intro w b c hp hc
  left
  rw [Layer.step_phase hw ho hs (ha w)] at hp
  obtain ⟨d, hd, htd⟩ := hin.object hp
  obtain ⟨c', hc', hid, -⟩ := Layer.step_object hw hw' hs (ha w) hd htd
  rw [hc, Option.some.injEq] at hc'
  exact ⟨d, hp, hd, hc' ▸ hid.symm, congrFun hcb w⟩

/-- A worker's step outside the callback. -/
theorem Handshaking.worker_step (h : Handshaking G k sv) (hin : sv.InCallback ids) {w : ℕ}
    {e : WorkerAct} (hw : sv.net.WellPlaced) (ho : sv.net.InOrder) (hw' : sv'.net.WellPlaced)
    (hs : sv.net.step G (.worker w e) = some sv'.net) (hinit : sv'.initOk = sv.initOk)
    (hret : sv'.returned = sv.returned) (hhand : ∀ it ∈ sv'.logic.hand, it.src.conn.isSome)
    (hcb : (∃ p, (sv'.net.worker w).phase = p ∧ ∀ a, p ≠ .callback a true) ∨
      sv'.callback w = .compare)
    (hrest : ∀ v, v ≠ w → sv'.callback v = sv.callback v) : Handshaking G k sv' := by
  apply h.net_step hw hs nofun nofun hinit hret hhand
  intro v b c hp hc
  by_cases hv : v = w
  · right
    subst hv
    obtain ⟨d, c', hd, htd, hc', hid, -⟩ := Layer.step_callback hw hs hp
    rw [hc, Option.some.injEq] at hc'
    refine ⟨?_, ?_⟩
    · rcases hcb with ⟨p, hp', hne⟩ | hcb
      · exact absurd (hp'.symm.trans hp) (hne b)
      · exact hcb
    · rw [hc', hid, hw.owner hd, htd]
  · left
    have hother : ∀ e', Act.worker w e ≠ (.worker v e' : Act Cls Msg) := by
      intro e' heq
      cases heq
      exact hv rfl
    rw [Layer.step_phase hw ho hs hother] at hp
    obtain ⟨d, hd, htd⟩ := hin.object hp
    obtain ⟨c', hc', hid, -⟩ := Layer.step_object hw hw' hs hother hd htd
    rw [hc, Option.some.injEq] at hc'
    exact ⟨d, hp, hd, hc' ▸ hid.symm, hrest v hv⟩

/-! ### Steps of the other threads and of a callback -/

/-- A step outside the net layer; `hstage` is for the callbacks. -/
theorem Handshaking.sameNet (h : Handshaking G k sv) (hnet : sv'.net = sv.net)
    (hinit : sv.initOk = true → sv'.initOk = true) (hret : sv'.returned = sv.returned)
    (hhand : ∀ it ∈ sv'.logic.hand, it.src.conn.isSome)
    (hstage : ∀ {v b c}, (sv.net.worker v).phase = .callback b true → sv.net.heap b = some c →
      sv'.callback v = sv.callback v ∨ Stage G k sv' b c.id (sv'.callback v)) :
    Handshaking G k sv' := by
  have hkept : ∀ id, Kept sv sv' id := by
    intro id
    refine ⟨hinit, ?_, ?_, ?_⟩
    · rw [registsOf, hnet]
      rfl
    · rw [hnet]
    · rw [hnet]
  refine ⟨fun {v b c} hp hc => ?_, fun id hid => ?_, fun id hnone => ?_, hhand⟩
  · rw [hnet] at hp hc
    rcases hstage hp hc with hcb | hst
    · rw [hcb]
      exact (hkept c.id).stage (h.stage hp hc)
    · exact hst
  · rw [hret] at hid
    obtain ⟨hdone, ho⟩ := h.returned id hid
    rw [hnet]
    exact ⟨(hkept id).handshaken (by rw [hnet]) hdone, ho⟩
  · rw [hnet] at hnone
    exact (hkept id).regists.trans (h.unowned id hnone)

/-- The logic thread or a connect thread goes on. -/
theorem Handshaking.congr (h : Handshaking G k sv) (hnet : sv'.net = sv.net)
    (hcb : sv'.callback = sv.callback) (hinit : sv.initOk = true → sv'.initOk = true)
    (hret : sv'.returned = sv.returned) (hhand : ∀ it ∈ sv'.logic.hand, it.src.conn.isSome) :
    Handshaking G k sv' :=
  h.sameNet hnet hinit hret hhand fun _ _ => .inl (congrFun hcb _)

/-- A callback goes on without a push. -/
theorem Handshaking.goesOn (h : Handshaking G k sv) {w : ℕ} {a : Addr} {ok : Bool}
    {pc : CallbackPc Msg} (hp : (sv.net.worker w).phase = .callback a ok) (hnet : sv'.net = sv.net)
    (hcb : ∀ v, sv'.callback v = if v = w then pc else sv.callback v)
    (hinit : sv.initOk = true → sv'.initOk = true) (hret : sv'.returned = sv.returned)
    (hlogic : sv'.logic = sv.logic)
    (hpc : ∀ c, ok = true → sv.net.heap a = some c → Stage G k sv' a c.id pc) :
    Handshaking G k sv' := by
  apply h.sameNet hnet hinit hret (hlogic ▸ h.hand)
  intro v b c hpv hc
  rw [hcb]
  by_cases hv : v = w
  · right
    rw [if_pos hv]
    rw [hv, hp, Phase.callback.injEq] at hpv
    obtain ⟨rfl, hok⟩ := hpv
    exact hpc c hok hc
  · exact .inl (if_neg hv)

/-- A callback returns. -/
theorem Handshaking.returns (h : Handshaking G k sv) (hin : sv.InCallback ids) {w : ℕ} {a : Addr}
    {ok : Bool} (hw : sv.net.WellPlaced) (hp : (sv.net.worker w).phase = .callback a ok)
    (hcb : sv.callback w = .done) :
    Handshaking G k { sv with returned := sv.returned ++ if ok then sv.idAt a else [] } := by
  have hkept : ∀ id, Kept sv
      { sv with returned := sv.returned ++ if ok then sv.idAt a else [] } id :=
    fun id => ⟨fun hok => hok, rfl, rfl, rfl⟩
  refine ⟨fun {v b c} hpv hc => (hkept c.id).stage (h.stage hpv hc), fun id hid => ?_, h.unowned,
    h.hand⟩
  rcases List.mem_append.mp hid with hold | hnew
  · exact ⟨(hkept id).handshaken rfl (h.returned id hold).1, (h.returned id hold).2⟩
  · cases ok with
    | false => cases hnew
    | true =>
      obtain ⟨c, hc, htd⟩ := hin.object hp
      rw [if_pos rfl, idAt, hc] at hnew
      obtain rfl := List.mem_singleton.mp hnew
      have hst := h.stage hp hc
      rw [hcb] at hst
      obtain ⟨hok, it, hone, hit⟩ := hst
      refine ⟨⟨hok, it, hone, ?_⟩, ?_⟩
      · rw [hw.addr hc]
        exact ⟨hit.msgType, hit.msgConn, hit.msgData⟩
      · show (sv.net.life c.id).owner.isSome
        rw [hw.owner hc, htd]
        rfl

/-- A callback pushes its registration. -/
theorem Handshaking.push (h : Handshaking G k sv) (hin : sv.InCallback ids) {w v : ℕ} {a : Addr}
    {it : Item Msg} {net : Layer Cls Msg} (hw : sv.net.WellPlaced)
    (hp : (sv.net.worker w).phase = .callback a true) (hcb : sv.callback w = .push v it)
    (hs : sv.net.step G (.send v it) = some net) :
    Handshaking G k ((sv.setNet net).setCallback w .done) := by
  obtain ⟨c, hc, htd⟩ := hin.object hp
  have hst := h.stage hp hc
  rw [hcb] at hst
  obtain ⟨hok, hnil, hsrc, hit, hv⟩ := hst
  simp only [Layer.step, Option.ite_none_right_eq_some, Option.some.injEq] at hs
  obtain ⟨-, rfl⟩ := hs
  have hphase : ∀ u, ((sv.net.pushWrite v it).worker u).phase = (sv.net.worker u).phase := by
    intro u
    rw [Layer.pushWrite, Layer.modWorker_worker]
    split <;> rfl
  have hregists : ∀ id, ((sv.setNet (sv.net.pushWrite v it)).setCallback w .done).registsOf id =
      sv.registsOf id ++ if c.id = id then [it] else [] := by
    intro id
    show (sv.net.pushes ++ [it]).filter _ = _
    rw [List.filter_append, registsOf]
    by_cases hid : c.id = id
    · simp [hsrc, hid]
    · simp [hsrc, hid]
  have hkept : ∀ id, id ≠ c.id →
      Kept sv ((sv.setNet (sv.net.pushWrite v it)).setCallback w .done) id := by
    intro id hne
    refine ⟨fun hok => hok, ?_, rfl, rfl⟩
    rw [hregists, if_neg hne.symm, List.append_nil]
  have hone : ((sv.setNet (sv.net.pushWrite v it)).setCallback w .done).registsOf c.id = [it] := by
    rw [hregists, if_pos rfl, hnil]
    rfl
  refine ⟨fun {u b d} hpu hd => ?_, fun id hid => ?_, fun id hnone => ?_, h.hand⟩
  · change ((sv.net.pushWrite v it).worker u).phase = .callback b true at hpu
    rw [hphase] at hpu
    rw [setCallback_callback]
    by_cases hu : u = w
    · rw [if_pos hu]
      rw [hu, hp, Phase.callback.injEq] at hpu
      obtain ⟨rfl, -⟩ := hpu
      obtain rfl := Option.some.inj (hc.symm.trans hd)
      exact ⟨hok, it, hone, hit.msgType, hit.msgConn, hit.msgData⟩
    · rw [if_neg hu]
      obtain ⟨d', hd', htd'⟩ := hin.object hpu
      obtain rfl := Option.some.inj (hd'.symm.trans hd)
      apply (hkept d'.id _).stage (h.stage hpu hd')
      -- two callbacks have two objects
      intro heq
      have hab := hw.toObjects.id_inj hd' hc heq
      rw [hab, hc, Option.some.injEq] at hd'
      rw [← hd', htd, Option.some.injEq] at htd'
      exact hu htd'.symm
  · obtain ⟨hdone, ho⟩ := h.returned id hid
    refine ⟨(hkept id ?_).handshaken rfl hdone, ho⟩
    intro heq
    obtain ⟨jt, hjt, -⟩ := hdone.once
    rw [heq, hnil] at hjt
    cases hjt
  · have hne : id ≠ c.id := by
      intro heq
      change (sv.net.life id).owner = none at hnone
      rw [heq, hw.owner hc, htd] at hnone
      cases hnone
    rw [(hkept id hne).regists]
    exact h.unowned id hnone

/-! ### Every step -/

/-- A worker comes out of the callback to the poll. -/
theorem phase_of_returned {w : ℕ} {e : WorkerAct} {a : Addr} {ok : Bool} {net : Layer Cls Msg}
    (hp : (sv.net.worker w).phase = .callback a ok)
    (hs : sv.net.step G (.worker w e) = some net) : (net.worker w).phase = .poll := by
  simp only [Layer.step, Option.ite_none_right_eq_some] at hs
  have hgoto : ∀ s : Layer Cls Msg, ((s.goto w .poll).worker w).phase = .poll := by
    intro s
    rw [Layer.goto_worker, if_pos rfl]
    rfl
  cases Layer.workerStep_cases hs.2 with
  | callbackOk | callbackFail => exact hgoto _
  | top hp' | drain hp' | transferEnd hp' | transferSkip hp' | transferMove hp' | push hp'
  | connectorsEnd hp' | passEnd hp' | passSkip hp' | passVisit hp' | readStart hp' | readSkip hp'
  | writeStart hp' | writeSkip hp' | read hp' | write hp' | readEvent hp' | writeEvent hp'
  | dropped hp' | accepted hp' | refused hp' | connected hp' | pollEnd hp' | sweepEnd hp'
  | sweepSkip hp' | notice hp' | closing hp' | erase hp' | deleteEnd hp' | deleteFree hp' =>
    rw [hp] at hp'
    cases hp'

/-- **Every step.** -/
theorem Handshaking.step {m : Move} (h : Handshaking G k sv) (hin : sv.InCallback ids)
    (hw : sv.net.WellPlaced) (ho : sv.net.InOrder) (hw' : sv'.net.WellPlaced)
    (hal : sv.net.Aligned) (hlt : ∀ w, (sv.net.worker w).phase ≠ .top → w < sv.net.threadNum)
    (hty : (sv.net.registry Protocol.messageRegistReq).isSome) (hc : sv.Assigned m)
    (hs : ServerStep G k sv m sv') : Handshaking G k sv' := by
  have hassigned : ∀ {w created junk a pc}, m = .callback w created junk →
      (sv.net.worker w).phase = .callback a true → sv.callback w = pc →
      pc = .compare ∨ pc = .regist → a = sv.upstream := by
    rintro w created junk a pc rfl hp hcb hpc
    simp only [Assigned, hp, hcb] at hc
    rcases hpc with rfl | rfl <;> exact hc
  have hstage : ∀ {w a c pc}, (sv.net.worker w).phase = .callback a true → sv.callback w = pc →
      sv.net.heap a = some c → Stage G k sv a c.id pc := by
    rintro w a c pc hp rfl hobj
    exact h.stage hp hobj
  cases hs with
  | accept hn | clock hn | made _ hn =>
    exact h.other_step hin hw ho hw' hn nofun nofun nofun rfl rfl rfl h.hand
  | fetch hl hn => exact h.other_step hin hw ho hw' hn nofun nofun nofun rfl rfl rfl nofun
  | processClose _ hl _ hn => exact h.other_step hin hw ho hw' hn nofun nofun nofun rfl rfl rfl h.hand
  | @push created r it v net hl hn =>
    have hsome : it.src.conn.isSome := h.hand it (by rw [hl]; exact List.mem_singleton_self it)
    apply h.other_step hin hw ho hw' hn nofun nofun _ rfl rfl rfl nofun
    intro w jt heq
    cases heq
    exact hsome
  | @worker w e net hp hn =>
    refine h.worker_step hin hw ho hw' hn rfl rfl h.hand (.inr ?_) fun v hv => ?_
    · exact Function.update_self ..
    · exact Function.update_of_ne hv ..
  | @returned w e a ok net hp hcb hn =>
    have hback : (net.worker w).phase = .poll := phase_of_returned hp hn
    exact (h.returns hin hw hp hcb).worker_step (hin.congr rfl rfl) hw ho hw' hn rfl rfl h.hand
      (.inl ⟨_, hback, nofun⟩) fun _ _ => rfl
  | checkUnset | checkSet | refused | broken | storeGate | storeGame | sleep =>
    exact h.congr rfl rfl id rfl h.hand
  | idle | fetched | handledAll | reset => exact h.congr rfl rfl id rfl nofun
  | process hk hl hit => exact h.congr rfl rfl id rfl h.hand
  | @send created r it v hl hv =>
    refine h.congr rfl rfl id rfl fun jt hjt => ?_
    obtain rfl := List.mem_singleton.mp hjt
    exact h.hand jt (by rw [hl]; exact List.mem_singleton_self jt)
  | @init created r hl =>
    have hinit : sv.initOk = true → (sv.initConfig k created).initOk = true := by
      intro hok
      show (sv.initOk || _) = true
      rw [hok]
      rfl
    cases created with
    | true => exact h.congr rfl rfl hinit rfl nofun
    | false => exact h.congr rfl rfl hinit rfl nofun
  | @relay created r it hk hl hit =>
    obtain ⟨c, w, hsrc, -⟩ := ho.out (List.mem_of_getElem? hit)
    have hhand : ∀ {jt : Item Msg} {pc : LogicPc Msg}, pc.hand = [jt] → jt.src = it.src →
        ∀ kt ∈ pc.hand, kt.src.conn.isSome := by
      intro jt pc hpc hsrc' kt hkt
      rw [hpc] at hkt
      rw [List.mem_singleton.mp hkt, hsrc', hsrc]
      rfl
    unfold Server.relay
    split_ifs
    · exact h.congr rfl rfl id rfl h.hand
    · exact h.congr rfl rfl id rfl (hhand rfl rfl)
    · exact h.congr rfl rfl id rfl nofun
    · exact h.congr rfl rfl id rfl (hhand rfl rfl)
  | @toGs created r it hl =>
    have hsome : it.src.conn.isSome := h.hand it (by rw [hl]; exact List.mem_singleton_self it)
    split_ifs
    · exact h.congr rfl rfl id rfl nofun
    · refine h.congr rfl rfl id rfl fun jt hjt => ?_
      rw [List.mem_singleton.mp hjt]
      exact hsome
  | @compare w created junk a ok hp hcb =>
    refine h.goesOn hp rfl (fun v => setCallback_callback ..) id rfl rfl fun c hok hobj => ?_
    subst hok
    have hst := hstage hp hcb hobj
    rw [if_pos (hassigned rfl hp hcb (.inl rfl)), if_pos rfl]
    exact hst
  | @setInitOk w created junk a ok hp hcb =>
    refine h.goesOn hp rfl (fun v => setCallback_callback ..) (fun _ => rfl) rfl rfl
      fun c hok hobj => ?_
    subst hok
    exact ⟨rfl, hstage hp hcb hobj⟩
  | @registNull w created junk a ok hp hcb hn =>
    rw [hn] at hty
    cases hty
  | @regist w created junk a ok c node hp hcb ha hn =>
    refine h.goesOn hp rfl (fun v => setCallback_callback ..) id rfl rfl fun d hok hobj => ?_
    subst hok
    have hup := hassigned rfl hp hcb (.inr rfl)
    obtain ⟨hinit, hnil⟩ := hstage hp hcb hobj
    obtain rfl := Option.some.inj (ha.symm.trans hobj)
    have hne : sv.upstream ≠ 0 := by
      rw [← hup, ← hw.addr ha]
      exact (hal c.id (hw.id_lt ha)).1
    obtain ⟨cls, hcls, rfl⟩ := Option.map_eq_some_iff.mp hn
    rw [if_neg hne]
    exact ⟨hinit, hnil, rfl, rfl, hup.symm, cls, hcls, rfl⟩
  | @callbackSend w created junk a ok it v hp hcb hv =>
    refine h.goesOn hp rfl (fun v => setCallback_callback ..) id rfl rfl fun c hok hobj => ?_
    subst hok
    obtain ⟨hinit, hnil, hsrc, hit⟩ := hstage hp hcb hobj
    obtain ⟨d, hd, htd⟩ := hin.object hp
    have hvw : v = w := by
      rw [tdOf, hit.msgConn, hd, Option.bind_some, htd, Option.some.injEq] at hv
      exact hv.symm
    refine ⟨hinit, hnil, hsrc, ⟨hit.msgType, hit.msgConn, hit.msgData⟩, ?_⟩
    rw [hvw]
    exact hlt w (by rw [hp]; exact nofun)
  | @callbackPush w created junk a ok it v net hp hcb hn =>
    have hok : ok = true :=
      hin.ok hp (by rw [hcb]; exact nofun) (by rw [hcb]; exact nofun) (by rw [hcb]; exact nofun)
    subst hok
    exact h.push hin hw hp hcb hn
  | @connectGs w created junk a ok hp hcb =>
    have hdone : ∀ v, ((if created then sv.createWorker k else sv).setCallback w .done).callback v =
        if v = w then .done else sv.callback v := by
      intro v
      cases created <;> exact setCallback_callback ..
    refine h.goesOn hp ?_ hdone ?_ ?_ ?_ fun c hok hobj => ?_
    · cases created <;> rfl
    · cases created <;> exact id
    · cases created <;> rfl
    · cases created <;> rfl
    · subst hok
      exact (hstage hp hcb hobj).elim

/-! ### Every run -/

theorem handshaking_start (threadNum : ℕ) (registry : Registry Cls) (clock : ℕ) :
    Handshaking G k (.start k (.start threadNum registry clock)) where
  stage _ hc := by cases (show none = some _ from hc)
  returned := nofun
  unowned _ _ := rfl
  hand := nofun

/-- A callback with `is_ok` that has not come to its end takes its next step. -/
theorem Handshaking.callback_isSome (h : Handshaking G k sv) (hin : sv.InCallback ids) {w : ℕ}
    {a : Addr} (hp : (sv.net.worker w).phase = .callback a true) (hne : sv.callback w ≠ .done)
    (created : Bool) (junk : UInt64) : (sv.step G k (.callback w created junk)).isSome := by
  obtain ⟨c, hc, htd⟩ := hin.object hp
  have hst := h.stage hp hc
  have hstep : sv.step G k (.callback w created junk) = sv.callbackStep G k w created junk := rfl
  rw [hstep, callbackStep, hp]
  cases hcb : sv.callback w with
  | compare | setInitOk => rfl
  | regist => simp [hc]
  | send it =>
    rw [hcb] at hst
    obtain ⟨-, -, -, hit⟩ := hst
    simp [tdOf, hit.msgConn, hc, htd]
  | push v it =>
    rw [hcb] at hst
    obtain ⟨-, -, -, -, hv⟩ := hst
    simp [Layer.step, hv]
  | connectGs =>
    rw [hcb] at hst
    exact hst.elim
  | done => exact absurd hcb hne

theorem Handshaking.handshakes (h : Handshaking G k sv) (hin : sv.InCallback ids)
    (hw : sv.net.WellPlaced) : sv.Handshakes G k where
  goesOn {w a} hp := by
    cases hcb : sv.callback w with
    | done =>
      left
      obtain ⟨c, hc, -⟩ := hin.object hp
      have hst := h.stage hp hc
      rw [hcb] at hst
      obtain ⟨hok, it, hone, hit⟩ := hst
      refine ⟨rfl, c.id, ?_, hok, it, hone, ?_⟩
      · rw [idAt, hc]
        rfl
      · rw [hw.addr hc]
        exact hit
    | _ => exact .inr (h.callback_isSome hin hp (by rw [hcb]; simp))
  returned id hid := (h.returned id hid).1

end Server

/-- **The handshake is made**, in every run in which each callback that reads the link's variable
finds its own connection there. -/
theorem handshakes_of_reach {G : Generated Cls Msg} {k : Kind} {sv : Server Cls Msg}
    (h : (serverSystem G k).Reach Server.Assigned sv) : sv.Handshakes G k := by
  have hinv : (∃ ids, sv.InCallback ids) ∧ Server.Handshaking G k sv ∧
      (sv.net.registry Protocol.messageRegistReq).isSome := by
    refine h.invariant_of (P := fun sv => (∃ ids, sv.InCallback ids) ∧ Server.Handshaking G k sv ∧
      (sv.net.registry Protocol.messageRegistReq).isSome) ?_ ?_
    · rintro sv ⟨threadNum, registry, clock, hreg, rfl⟩
      exact ⟨⟨[], fun _ => .inr (.inl rfl), nofun, nofun, nofun⟩, Server.handshaking_start .., hreg⟩
    · rintro sv m sv' hr ⟨⟨ids, hin⟩, hh, hreg⟩ hc hs
      have hnet := net_of_reach hr
      obtain ⟨hw, -, ho⟩ := inOrder_of_reach hnet
      have hw' : sv'.net.WellPlaced := wellPlaced_of_reach (net_of_reach (.next hr hc hs))
      have hcases := Server.step_cases hs
      refine ⟨⟨_, hin.step hw ho hw' hcases⟩, hh.step hin hw ho hw' (aligned_of_reach hnet)
        (fun w => lt_threadNum_of_reach hnet) hreg hc hcases, ?_⟩
      rcases hcases.net_regist with heq | ⟨a, ha, hne⟩
      · rw [heq]
        exact hreg
      · rw [Layer.step_registry ha hne]
        exact hreg
  obtain ⟨⟨ids, hin⟩, hh, -⟩ := hinv
  exact hh.handshakes hin (wellPlaced_of_reach (net_of_reach h))

/-- The moves of worker 0 up to the callback for the connection a thread has made at 16. -/
def toCallback : List Move :=
  [.go, .go, .go, .push true, .go, .go, .notified true 0].map (.worker 0)

/-- The gate connects; the connect thread assigns `s_game_conn` before the worker runs. -/
def assignedFirst : List Move :=
  .logic true none :: ([.refused, .made 16, .refused].map (.connect 0)) ++ toCallback ++
    List.replicate 5 (.callback 0 true 0) ++ [.worker 0 .go]

theorem handshakes_assignedFirst : ∃ sv,
    (serverSystem Protocol.generated .gate).exec (.start .gate (.start 1 Protocol.registry 0))
        assignedFirst = some sv ∧ sv.returned = [0] ∧ sv.Handshakes Protocol.generated .gate := by
  obtain ⟨sv, hs, hret⟩ : ∃ sv,
      (serverSystem Protocol.generated .gate).exec (.start .gate (.start 1 Protocol.registry 0))
        assignedFirst = some sv ∧ sv.returned = [0] := by
    refine Option.map_eq_some_iff.mp ?_
    decide +kernel
  have hc : (serverSystem Protocol.generated .gate).AllSteps Server.Assigned
      (.start .gate (.start 1 Protocol.registry 0)) assignedFirst := by
    decide +kernel
  exact ⟨sv, hs, hret,
    handshakes_of_reach (.of_exec (.start ⟨1, Protocol.registry, 0, by decide, rfl⟩) hc hs)⟩

/-- The worker is through with the callback when the connect thread assigns `s_game_conn`. -/
def calledFirst : List Move :=
  .logic true none :: ([.refused, .made 16].map (.connect 0)) ++ toCallback ++
    [.callback 0 true 0, .worker 0 .go, .connect 0 .refused]

/-- **A callback ahead of the assignment registers nothing.** -/
theorem not_handshakes_calledFirst : ∃ sv,
    (serverSystem Protocol.generated .gate).Reach Lts.Free sv ∧
      ¬ sv.Handshakes Protocol.generated .gate := by
  obtain ⟨sv, hs, hrun⟩ : ∃ sv,
      (serverSystem Protocol.generated .gate).exec (.start .gate (.start 1 Protocol.registry 0))
        calledFirst = some sv ∧ (sv.returned, sv.upstream, sv.initOk) = ([0], 16, false) := by
    refine Option.map_eq_some_iff.mp ?_
    decide +kernel
  simp only [Prod.mk.injEq] at hrun
  obtain ⟨hret, -, hinit⟩ := hrun
  refine ⟨sv, .of_exec (.start ⟨1, Protocol.registry, 0, by decide, rfl⟩)
    (Lts.allSteps_free _ _) hs, fun h => ?_⟩
  have hok := (h.returned 0 (hret ▸ List.mem_singleton_self 0)).initOk
  rw [hinit] at hok
  cases hok

end GoFight.Link
