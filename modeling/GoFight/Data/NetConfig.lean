import GoFight.Data.ProtoFields
import GoFight.Data.RedisStore

/-!
# What a server takes from Redis when it starts

`init_net_config` of the gate, the game and the data server: each asks for the fields of its own
hash, `gate_<id>:net` and the like, and puts what it gets into its configuration.

* `ConfigField`, `NetServer` — a field with its variable, and a server with its fields;
  `gateServer`, `gameServer`, `dataServer` — the three;
* `NetServer.initNetConfig` — the function, over the replies hiredis gives;
* `hget`, `netRedis` — what Redis answers, any reply of which may be lost;
* `takesOwn` — **a server takes what its own hash holds**: it succeeds exactly when no field is
  missing, a configuration that was written for it is read back, and what is stored for other
  servers does not matter.

The parameters the lua file sets are arguments; `redisFree` and the log are left out.
-/

namespace GoFight.Data

open GoFight.Lib

/-! ### The servers -/

/-- The beginning of a server's key. -/
inductive ServerName
  | gate
  | game
  | data
deriving DecidableEq, Repr

/-- `"gate_"` and the others. -/
def ServerName.text : ServerName → Bytes
  | .gate => ascii "gate_"
  | .game => ascii "game_"
  | .data => ascii "data_"

/-- A field of the hash: the variable it is put into, and the text of a configuration's value. -/
structure ConfigField (C : Type*) where
  name : Bytes
  put : Bytes → C → C
  text : C → Bytes

/-- No space, no `%` and no NUL: such a text is one word of a command. -/
def Plain (w : Bytes) : Prop := ∀ b ∈ w, b ≠ 32 ∧ b ≠ 37 ∧ b ≠ 0

instance (w : Bytes) : Decidable (Plain w) := inferInstanceAs (Decidable (∀ b ∈ w, _))

/-- A server's part in `init_net_config`.  `reset` is done before it asks; a configuration whose
texts are C strings is what its fields' texts say. -/
structure NetServer (C : Type*) where
  server : ServerName
  reset : C → C
  fields : List (ConfigField C)
  CStrings : C → Prop
  plain : ∀ f ∈ fields, Plain f.name ∧ f.name ≠ []
  restores : ∀ c d, CStrings d → fields.foldl (fun c f => f.put (f.text d) c) (reset c) = d

/-- The variables of the gate. -/
structure GateNetConfig where
  serverNetIp : Bytes
  serverPort : Int32
  netThreadNum : Int32
  gsIp : Bytes
  gsPort : Int32
deriving DecidableEq, Repr

/-- `GameInternalConfig` and `DataSerInfo`. -/
structure GameNetConfig where
  gameIp : Bytes
  gamePort : Int32
  gsIp : Bytes
  gsPort : Int32
deriving DecidableEq, Repr

/-- `DataInternalConfig`. -/
structure DataInternalConfig where
  dataIp : Bytes
  dataPort : Int32
  dbIp : Bytes
  dbPort : Int32
  dbUser : Bytes
  dbPasswd : Bytes
  db : Bytes
deriving DecidableEq, Repr

theorem atoi_decimalInt (x : Int32) : atoi (decimalInt x.toInt) = x := by
  apply Int32.toInt_inj.mp
  exact atoi_toInt (printedAs_decimalInt _) x.le_toInt x.toInt_lt

/-- The gate. -/
def gateServer : NetServer GateNetConfig where
  server := .gate
  reset c := { c with serverNetIp := [], serverPort := 0 }
  fields :=
    [⟨ascii "ip", fun s c => { c with serverNetIp := cstr s }, (·.serverNetIp)⟩,
      ⟨ascii "port", fun s c => { c with serverPort := atoi s }, (decimalInt ·.serverPort.toInt)⟩,
      ⟨ascii "net_thread_num", fun s c => { c with netThreadNum := atoi s },
        (decimalInt ·.netThreadNum.toInt)⟩,
      ⟨ascii "gs_ip", fun s c => { c with gsIp := cstr s }, (·.gsIp)⟩,
      ⟨ascii "gs_port", fun s c => { c with gsPort := atoi s }, (decimalInt ·.gsPort.toInt)⟩]
  CStrings c := 0 ∉ c.serverNetIp ∧ 0 ∉ c.gsIp
  plain := by decide +kernel
  restores := by
    intro c d h
    simp only [List.foldl_cons, List.foldl_nil, atoi_decimalInt, cstr_eq_self h.1,
      cstr_eq_self h.2]

/-- The game server. -/
def gameServer : NetServer GameNetConfig where
  server := .game
  reset c := { c with gameIp := [], gamePort := 0 }
  fields :=
    [⟨ascii "ip", fun s c => { c with gameIp := cstr s }, (·.gameIp)⟩,
      ⟨ascii "port", fun s c => { c with gamePort := atoi s }, (decimalInt ·.gamePort.toInt)⟩,
      ⟨ascii "ds_ip", fun s c => { c with gsIp := cstr s }, (·.gsIp)⟩,
      ⟨ascii "ds_port", fun s c => { c with gsPort := atoi s }, (decimalInt ·.gsPort.toInt)⟩]
  CStrings c := 0 ∉ c.gameIp ∧ 0 ∉ c.gsIp
  plain := by decide +kernel
  restores := by
    intro c d h
    simp only [List.foldl_cons, List.foldl_nil, atoi_decimalInt, cstr_eq_self h.1,
      cstr_eq_self h.2]

/-- The data server. -/
def dataServer : NetServer DataInternalConfig where
  server := .data
  reset c := { c with dataIp := [], dataPort := -1 }
  fields :=
    [⟨ascii "ip", fun s c => { c with dataIp := cstr s }, (·.dataIp)⟩,
      ⟨ascii "port", fun s c => { c with dataPort := atoi s }, (decimalInt ·.dataPort.toInt)⟩,
      ⟨ascii "db_ip", fun s c => { c with dbIp := cstr s }, (·.dbIp)⟩,
      ⟨ascii "db_port", fun s c => { c with dbPort := atoi s }, (decimalInt ·.dbPort.toInt)⟩,
      ⟨ascii "db_user", fun s c => { c with dbUser := cstr s }, (·.dbUser)⟩,
      ⟨ascii "db_passwd", fun s c => { c with dbPasswd := cstr s }, (·.dbPasswd)⟩,
      ⟨ascii "db", fun s c => { c with db := cstr s }, (·.db)⟩]
  CStrings c := 0 ∉ c.dataIp ∧ 0 ∉ c.dbIp ∧ 0 ∉ c.dbUser ∧ 0 ∉ c.dbPasswd ∧ 0 ∉ c.db
  plain := by decide +kernel
  restores := by
    intro c d h
    obtain ⟨hip, hdbIp, huser, hpasswd, hdb⟩ := h
    simp only [List.foldl_cons, List.foldl_nil, atoi_decimalInt, cstr_eq_self hip,
      cstr_eq_self hdbIp, cstr_eq_self huser, cstr_eq_self hpasswd, cstr_eq_self hdb]

/-! ### The function -/

/-- The key of a server. -/
def netKey (server : ServerName) (serverId : Int32) : Bytes :=
  server.text ++ decimalInt serverId.toInt ++ ascii ":net"

section Function

variable {C : Type*} (v : NetServer C)

/-- `prefix`. -/
def NetServer.prefixText (serverId : Int32) : Bytes :=
  ascii "hget " ++ netKey v.server serverId ++ ascii " "

/-- One field: `init_ok` and the configuration.  `redis` is what `redisCommand` returns for the
words of a command.  A reply of another type has no text, and the `char*` that is read is null: no
result. -/
def ConfigField.ask (redis : List Bytes → Option Reply) (text : Bytes) (f : ConfigField C)
    (p : Bool × C) : Option (Bool × C) :=
  match redis (formatWords (cstr (text ++ f.name)) [] none) with
  | none | some .nil | some (.error _) => some (false, p.2)
  | some (.string s) | some (.status s) => some (p.1, f.put s p.2)
  | some (.integer _) | some (.array _) | some .other => none

/-- `init_net_config`; `connected` says whether `redisConnectWithTimeout` succeeded. -/
def NetServer.initNetConfig (connected : Bool) (redis : List Bytes → Option Reply)
    (serverId : Int32) (c : C) : Option (Bool × C) :=
  if connected then
    v.fields.foldlM (fun p f => f.ask redis (v.prefixText serverId) p) (true, v.reset c)
  else some (false, c)

end Function

/-! ### Redis -/

/-- A value: a hash, or one of another type. -/
inductive Keyed
  | hash (fields : Bytes → Option Bytes)
  | other

/-- `HGET`. -/
def hget (kv : Bytes → Option Keyed) (words : List Bytes) : Reply :=
  match words with
  | [name, key, field] =>
      if name = ascii "hget" then
        match kv key with
        | none => .nil
        | some .other => .error (ascii "WRONGTYPE")
        | some (.hash fields) =>
            match fields field with
            | none => .nil
            | some s => .string s
      else .error (ascii "ERR")
  | _ => .error (ascii "ERR")

/-- The replies a client gets: `NULL` for those that are lost. -/
def netRedis (kv : Bytes → Option Keyed) (lost : List Bytes → Bool) (words : List Bytes) :
    Option Reply :=
  if lost words then none else some (hget kv words)

/-- What a server gets for a field. -/
def fieldText (kv : Bytes → Option Keyed) (lost : List Bytes → Bool) (key field : Bytes) :
    Option Bytes :=
  if lost [ascii "hget", key, field] then none
  else match kv key with
    | some (.hash fields) => fields field
    | _ => none

/-! ### Words -/

/-- A plain text is put into the word that is being built. -/
theorem formatWords_plain {w rest : Bytes} (h : Plain w) (hne : w ≠ []) (word : Option Bytes) :
    formatWords (w ++ rest) [] word = formatWords rest [] (some (word.getD [] ++ w)) := by
  induction w generalizing word with
  | nil => exact absurd rfl hne
  | cons b w ih =>
    have hb := h b List.mem_cons_self
    have hstep : formatWords (b :: w ++ rest) [] word =
        formatWords (w ++ rest) [] (some (word.getD [] ++ [b])) := by
      rw [List.cons_append, formatWords.eq_def]
      split <;> simp_all
    rw [hstep]
    cases w with
    | nil => rfl
    | cons c w =>
      rw [ih (fun x hx => h x (List.mem_cons_of_mem _ hx)) (List.cons_ne_nil _ _)]
      simp

theorem formatWords_space (rest : Bytes) (w : Bytes) :
    formatWords (32 :: rest) [] (some w) = w :: formatWords rest [] none := by
  rw [formatWords]
  rfl

theorem plain_append {w w' : Bytes} (h : Plain w) (h' : Plain w') : Plain (w ++ w') := by
  intro b hb
  rcases List.mem_append.mp hb with hb | hb
  · exact h b hb
  · exact h' b hb

theorem plain_decimalInt (x : ℤ) : Plain (decimalInt x) := by
  intro b hb
  rw [decimalInt, List.mem_append] at hb
  rcases hb with hb | hb
  · split at hb
    · rw [List.mem_singleton.mp hb]
      decide
    · cases hb
  · have hdigit := isDigit_of_mem_decimal hb
    refine ⟨?_, ?_, ?_⟩ <;> rintro rfl <;> revert hdigit <;> decide

theorem plain_netKey (server : ServerName) (serverId : Int32) : Plain (netKey server serverId) := by
  have hname : Plain server.text := by cases server <;> decide +kernel
  exact plain_append (plain_append hname (plain_decimalInt _)) (by decide +kernel)

theorem netKey_ne_nil (server : ServerName) (serverId : Int32) : netKey server serverId ≠ [] := by
  cases server <;> exact List.cons_ne_nil _ _

/-- The command for a field is `hget`, the key and the field. -/
theorem words_eq {C : Type*} (v : NetServer C) (serverId : Int32) {f : ConfigField C}
    (hf : f ∈ v.fields) :
    formatWords (cstr (v.prefixText serverId ++ f.name)) [] none =
      [ascii "hget", netKey v.server serverId, f.name] := by
  obtain ⟨hplain, hne⟩ := v.plain f hf
  have hkey := plain_netKey v.server serverId
  have hget : Plain (ascii "hget") := by decide +kernel
  have htext : v.prefixText serverId ++ f.name =
      ascii "hget" ++ 32 :: (netKey v.server serverId ++ 32 :: (f.name ++ [])) := by
    simp only [NetServer.prefixText, List.append_assoc, List.append_nil]
    rfl
  have hnul : (0 : UInt8) ∉ v.prefixText serverId ++ f.name := by
    rw [htext]
    intro h0
    simp only [List.mem_append, List.mem_cons, List.not_mem_nil, or_false] at h0
    rcases h0 with h0 | h0 | h0 | h0 | h0
    · exact (hget 0 h0).2.2 rfl
    · cases h0
    · exact (hkey 0 h0).2.2 rfl
    · cases h0
    · exact (hplain 0 h0).2.2 rfl
  rw [cstr_eq_self hnul, htext, formatWords_plain hget (by decide), formatWords_space,
    formatWords_plain hkey (netKey_ne_nil _ _), formatWords_space, formatWords_plain hplain hne]
  rfl

theorem text_eq (server : ServerName) :
    server.text = match server with
      | .gate => [103, 97, 116, 101, 95]
      | .game => [103, 97, 109, 101, 95]
      | .data => [100, 97, 116, 97, 95] := by
  cases server <;> rfl

theorem text_inj {server server' : ServerName} (h : server.text = server'.text) :
    server = server' := by
  rw [text_eq, text_eq] at h
  cases server <;> cases server' <;> first | rfl | cases h

/-- **Keys tell the servers apart.** -/
theorem netKey_inj {server server' : ServerName} {serverId serverId' : Int32}
    (h : netKey server serverId = netKey server' serverId') :
    server = server' ∧ serverId = serverId' := by
  have hlen : server.text.length = server'.text.length := by
    rw [text_eq, text_eq]
    cases server <;> cases server' <;> rfl
  rw [netKey, netKey, List.append_assoc, List.append_assoc] at h
  obtain ⟨hname, hid⟩ := List.append_inj h hlen
  have hserver := text_inj hname
  have hint : decimalInt serverId.toInt = decimalInt serverId'.toInt := List.append_cancel_right hid
  rw [← atoi_decimalInt serverId, hint, atoi_decimalInt]
  exact ⟨hserver, rfl⟩

/-! ### The property -/

section Property

variable {C : Type*} (v : NetServer C) (kv : Bytes → Option Keyed) (lost : List Bytes → Bool)
  (serverId : Int32)

/-- What the server gets for a field of its own. -/
def NetServer.own (f : ConfigField C) : Option Bytes :=
  fieldText kv lost (netKey v.server serverId) f.name

/-- A field is put into its variable, if the server got it. -/
def ConfigField.take (f : ConfigField C) (s : Option Bytes) (c : C) : C :=
  match s with
  | none => c
  | some s => f.put s c

theorem ask_eq {f : ConfigField C} (hf : f ∈ v.fields) (p : Bool × C) :
    f.ask (netRedis kv lost) (v.prefixText serverId) p =
      some (p.1 && (v.own kv lost serverId f).isSome, f.take (v.own kv lost serverId f) p.2) := by
  rw [ConfigField.ask, words_eq v serverId hf, netRedis, NetServer.own, fieldText]
  by_cases hlost : lost [ascii "hget", netKey v.server serverId, f.name] = true
  · rw [if_pos hlost, if_pos hlost]
    simp [ConfigField.take]
  · rw [if_neg hlost, if_neg hlost]
    cases hkey : kv (netKey v.server serverId) with
    | none => simp [hget, hkey, ConfigField.take]
    | some value =>
      cases value with
      | other => simp [hget, hkey, ConfigField.take]
      | hash fields => cases hfield : fields f.name <;> simp [hget, hkey, hfield, ConfigField.take]

/-- The fields one after the other. -/
theorem foldlM_ask {fs : List (ConfigField C)} (hfs : fs ⊆ v.fields) (p : Bool × C) :
    fs.foldlM (fun p f => f.ask (netRedis kv lost) (v.prefixText serverId) p) p =
      some (p.1 && fs.all fun f => (v.own kv lost serverId f).isSome,
        fs.foldl (fun c f => f.take (v.own kv lost serverId f) c) p.2) := by
  induction fs generalizing p with
  | nil => simp
  | cons f fs ih =>
    obtain ⟨hf, hfs⟩ := List.cons_subset.mp hfs
    rw [List.foldlM_cons, ask_eq v kv lost serverId hf]
    show fs.foldlM _ _ = _
    rw [ih hfs]
    simp only [List.all_cons, List.foldl_cons, Bool.and_assoc]

theorem initNetConfig_eq (c : C) :
    v.initNetConfig true (netRedis kv lost) serverId c =
      some (v.fields.all fun f => (v.own kv lost serverId f).isSome,
        v.fields.foldl (fun c f => f.take (v.own kv lost serverId f) c) (v.reset c)) := by
  rw [NetServer.initNetConfig, if_pos rfl, foldlM_ask v kv lost serverId (List.Subset.refl _),
    Bool.true_and]

/-- A server that gets the texts of a configuration puts them into its variables. -/
theorem foldl_take {fs : List (ConfigField C)} (hfs : fs ⊆ v.fields) {d : C}
    (hd : ∀ f ∈ v.fields, v.own kv lost serverId f = some (f.text d)) (c : C) :
    fs.foldl (fun c f => f.take (v.own kv lost serverId f) c) c =
      fs.foldl (fun c f => f.put (f.text d) c) c := by
  induction fs generalizing c with
  | nil => rfl
  | cons f fs ih =>
    obtain ⟨hf, hfs⟩ := List.cons_subset.mp hfs
    rw [List.foldl_cons, List.foldl_cons, hd f hf]
    exact ih hfs _

/-- What another server's key holds is not seen. -/
theorem own_update {server : ServerName} {id : Int32} (h : (server, id) ≠ (v.server, serverId))
    (x : Option Keyed) (f : ConfigField C) :
    v.own (Function.update kv (netKey server id) x) lost serverId f = v.own kv lost serverId f := by
  have hne : netKey v.server serverId ≠ netKey server id := by
    intro heq
    obtain ⟨hserver, hid⟩ := netKey_inj heq
    exact h (by rw [hserver, hid])
  rw [NetServer.own, NetServer.own, fieldText, fieldText, Function.update_of_ne hne]

/-- **A server takes what its own hash holds**, whatever Redis holds, whatever replies are lost, and
whatever it had before.  It succeeds exactly when it got every field; what it got is in the
configuration and nothing else; a configuration whose texts the hash holds is read back; and no
other server's hash matters. -/
theorem takesOwn (c : C) : ∃ ok c',
    v.initNetConfig true (netRedis kv lost) serverId c = some (ok, c') ∧
      (ok = true ↔ ∀ f ∈ v.fields, (v.own kv lost serverId f).isSome) ∧
      c' = v.fields.foldl (fun c f => f.take (v.own kv lost serverId f) c) (v.reset c) ∧
      (∀ d, v.CStrings d → (∀ f ∈ v.fields, v.own kv lost serverId f = some (f.text d)) →
        ok = true ∧ c' = d) ∧
      ∀ server id x, (server, id) ≠ (v.server, serverId) →
        v.initNetConfig true (netRedis (Function.update kv (netKey server id) x) lost) serverId c =
          some (ok, c') := by
  refine ⟨_, _, initNetConfig_eq v kv lost serverId c, List.all_eq_true, rfl, ?_, ?_⟩
  · intro d hd htexts
    refine ⟨?_, ?_⟩
    · rw [List.all_eq_true]
      intro f hf
      rw [htexts f hf, Option.isSome_some]
    · rw [foldl_take v kv lost serverId (List.Subset.refl _) htexts, v.restores c d hd]
  · intro server id x hne
    rw [initNetConfig_eq]
    simp only [own_update v kv lost serverId hne]

end Property

/-! ### A gate with its configuration in Redis -/

theorem find?_name {C : Type*} {fs : List (ConfigField C)}
    (hfs : (fs.map ConfigField.name).Nodup) {f : ConfigField C} (hf : f ∈ fs) :
    (fs.find? fun g => g.name = f.name) = some f := by
  induction fs with
  | nil => cases hf
  | cons g fs ih =>
    obtain ⟨hg, hfs⟩ := List.nodup_cons.mp hfs
    rcases List.mem_cons.mp hf with rfl | hf
    · exact List.find?_cons_of_pos (decide_eq_true rfl)
    · have hne : g.name ≠ f.name := fun h => hg (h ▸ List.mem_map_of_mem hf)
      rw [List.find?_cons_of_neg (by simpa using hne)]
      exact ih hfs hf

theorem nodup_gateServer : (gateServer.fields.map ConfigField.name).Nodup := by
  have hnames : gateServer.fields.map ConfigField.name =
      [[105, 112], [112, 111, 114, 116],
        [110, 101, 116, 95, 116, 104, 114, 101, 97, 100, 95, 110, 117, 109],
        [103, 115, 95, 105, 112], [103, 115, 95, 112, 111, 114, 116]] := by
    decide +kernel
  rw [hnames]
  decide

/-- The configuration of gate 5. -/
def gateFive : GateNetConfig := ⟨ascii "10.0.0.1", 8000, 4, ascii "10.0.0.2", 9000⟩

/-- Its hash. -/
def gateFiveHash (field : Bytes) : Option Bytes :=
  (gateServer.fields.find? fun f => f.name = field).map (·.text gateFive)

/-- What Redis holds. -/
def setUp (key : Bytes) : Option Keyed :=
  if key = netKey .gate 5 then some (.hash gateFiveHash) else none

theorem takesOwn_gateFive :
    gateServer.initNetConfig true (netRedis setUp fun _ => false) 5 ⟨[], 0, 1, [], 0⟩ =
      some (true, gateFive) := by
  obtain ⟨ok, c', hinit, -, -, hread, -⟩ :=
    takesOwn gateServer setUp (fun _ => false) 5 ⟨[], 0, 1, [], 0⟩
  have htexts : ∀ f ∈ gateServer.fields,
      gateServer.own setUp (fun _ => false) 5 f = some (f.text gateFive) := by
    intro f hf
    have hhash : setUp (netKey gateServer.server 5) = some (.hash gateFiveHash) := if_pos rfl
    rw [NetServer.own, fieldText, if_neg Bool.false_ne_true, hhash]
    show gateFiveHash f.name = _
    rw [gateFiveHash, find?_name nodup_gateServer hf]
    rfl
  have hstrings : gateServer.CStrings gateFive := by
    show 0 ∉ ascii "10.0.0.1" ∧ 0 ∉ ascii "10.0.0.2"
    decide +kernel
  obtain ⟨rfl, rfl⟩ := hread gateFive hstrings htexts
  exact hinit

end GoFight.Data
