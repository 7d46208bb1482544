import GoFight.Lib.LineEdit

/-!
# `gen_proto_code`

The generator rewrites `protocol.h` and `protocol.cpp` in place: for every proto file it is given,
it deletes by pattern what an earlier run may have put there and inserts the lines of the message
before the marker comments.  The files are lists of lines, `sed` is the script library.

* `ProtoFile` — a proto file: its directory and its name, an identifier;
* `linesOf` — the lines generated for a proto file, `edits` — the commands in the order of the
  source, `genProtoCode` — the loop over the files;
* `owner_of_mem_linesOf` — a generated line tells the name it is for;
* `KeepsLines` — another file's lines stay as they were and in their order;
* `keepsLines_iff` — when they do: none of them is hit by a deletion.

The handler files the generator creates, `protoc` and the renaming of `*.cc` are other files.
-/

namespace GoFight.Tools

open GoFight.Lib

/-- A line of a file, without its newline. -/
abbrev Line := List Char

/-- A text the generator has as a literal. -/
def text (s : String) : Line := s.toList

/-- The two files the generator rewrites. -/
inductive GenFile
  | protocolH
  | protocolCpp
deriving DecidableEq, Repr

/-- The directories under `proto_file`. -/
inductive ProtoDir
  | msgDir
  | defDir
  | cfgDir
deriving DecidableEq, Repr

/-- A letter, a digit or an underscore. -/
def isIdentChar (c : Char) : Bool := c.isAlphanum || c = '_'

/-- A proto file, `dir/name.proto`; its name is an identifier. -/
structure ProtoFile where
  dir : ProtoDir
  name : Line
  name_ne_nil : name ≠ []
  name_head : ∀ c ∈ name.head?, c.isDigit = false
  name_ident : ∀ c ∈ name, isIdentChar c = true

/-- `proto_file/msg/Shutdown.proto` -/
def shutdownProto : ProtoFile where
  dir := .msgDir
  name := text "Shutdown"
  name_ne_nil := by decide
  name_head := by rintro c ⟨⟩; rfl
  name_ident := List.all_eq_true.mp rfl

/-- `proto_file/msg/Regist.proto` -/
def registProto : ProtoFile where
  dir := .msgDir
  name := text "Regist"
  name_ne_nil := by decide
  name_head := by rintro c ⟨⟩; rfl
  name_ident := List.all_eq_true.mp rfl

/-- `proto_file/msg/GetRole.proto` -/
def getRoleProto : ProtoFile where
  dir := .msgDir
  name := text "GetRole"
  name_ne_nil := by decide
  name_head := by rintro c ⟨⟩; rfl
  name_ident := List.all_eq_true.mp rfl

/-- `proto_file/def/Role.proto` -/
def roleProto : ProtoFile where
  dir := .defDir
  name := text "Role"
  name_ne_nil := by decide
  name_head := by rintro c ⟨⟩; rfl
  name_ident := List.all_eq_true.mp rfl

/-! ### The generated lines -/

/-- `#include "msg/X.pb.h"` -/
def includeLine (dir : ProtoDir) (x : Line) : Line :=
  (match dir with
    | .msgDir => text "#include \"msg/"
    | .defDir => text "#include \"def/"
    | .cfgDir => text "#include \"cfg/") ++ x ++ text ".pb.h\""

/-- The request or the answer of a message. -/
inductive Part
  | req
  | res
deriving DecidableEq, Repr

/-- The end of a function's name. -/
def Part.suffix : Part → Line
  | .req => text "_req"
  | .res => text "_res"

/-- The name of the class. -/
def Part.cls : Part → Line
  | .req => text "Req"
  | .res => text "Res"

/-- `template<> int get_type<X::Req>();` -/
def getTypeDecl (x : Line) (p : Part) : Line :=
  text "template<> int get_type<" ++ x ++ text "::" ++ p.cls ++ text ">();"

/-- `template<> int get_type<X::Req>() { return message_X_Req_; }` -/
def getTypeDef (x : Line) (p : Part) : Line :=
  text "template<> int get_type<" ++ x ++ text "::" ++ p.cls ++
    text ">() \x7b return message_" ++ x ++ text "_" ++ p.cls ++ text "_; \x7d"

/-- `new_X_req` -/
def newName (x : Line) (p : Part) : Line := text "new_" ++ x ++ p.suffix

/-- `delete_X_req` -/
def deleteName (x : Line) (p : Part) : Line := text "delete_" ++ x ++ p.suffix

/-- `process_X_req` -/
def processName (x : Line) (p : Part) : Line := text "process_" ++ x ++ p.suffix

/-- `net::MsgData* new_X_req() { return GO_NEW(X::Req);  }` -/
def newFunc (x : Line) (p : Part) : Line :=
  text "net::MsgData* " ++ newName x p ++ text "() \x7b return GO_NEW(" ++ x ++
    text "::" ++ p.cls ++ text ");  \x7d"

/-- `void delete_X_req(net::MsgData* ptr) { GO_DELETE((X_Req*)ptr, X_Req); }` -/
def deleteFunc (x : Line) (p : Part) : Line :=
  text "void " ++ deleteName x p ++ text "(net::MsgData* ptr) \x7b GO_DELETE((" ++ x ++
    text "_" ++ p.cls ++ text "*)ptr, " ++ x ++ text "_" ++ p.cls ++ text "); \x7d"

/-- `extern void process_X_req(net::MsgNode* msg);` -/
def processFunc (x : Line) (p : Part) : Line :=
  text "extern void " ++ processName x p ++ text "(net::MsgNode* msg);"

/-- `net::regist_msg_processer(get_type<X::Req>(), &new_X_req, &delete_X_req,&process_X_req);` -/
def registLine (x : Line) (p : Part) : Line :=
  text "net::regist_msg_processer(get_type<" ++ x ++ text "::" ++ p.cls ++ text ">(), &" ++
    newName x p ++ text ", &" ++ deleteName x p ++ text ",&" ++ processName x p ++
    text ");"

/-- The lines generated for a proto file. -/
def linesOf (x : ProtoFile) : GenFile → List Line
  | .protocolH =>
    match x.dir with
    | .msgDir => [getTypeDecl x.name .req, getTypeDecl x.name .res, includeLine .msgDir x.name]
    | dir => [includeLine dir x.name]
  | .protocolCpp =>
    match x.dir with
    | .msgDir =>
      [getTypeDef x.name .req, getTypeDef x.name .res,
        newFunc x.name .req, deleteFunc x.name .req, processFunc x.name .req,
        newFunc x.name .res, deleteFunc x.name .res, processFunc x.name .res,
        registLine x.name .req, registLine x.name .res]
    | _ => []

/-! ### The commands -/

/-- `X.pb.h`, as a pattern. -/
def pbPattern (x : Line) : Line := x ++ text ".pb.h"

/-- `(get_type<X::Req`, what the shell leaves of `\(get_type\<X::Req`. -/
def registPattern (x : Line) (p : Part) : Line :=
  text "(get_type<" ++ x ++ text "::" ++ p.cls

/-- The commands for one proto file, in the order of the source. -/
def edits (x : ProtoFile) : List (GenFile × Edit Line Line) :=
  match x.dir with
  | .msgDir =>
    [(.protocolH, .delete x.name),
      (.protocolCpp, .delete (text "return message_" ++ x.name)),
      (.protocolH, .insert (text "add get_type") (getTypeDecl x.name .req)),
      (.protocolCpp, .insert (text "add_get_type") (getTypeDef x.name .req)),
      (.protocolH, .insert (text "add get_type") (getTypeDecl x.name .res)),
      (.protocolCpp, .insert (text "add_get_type") (getTypeDef x.name .res)),
      (.protocolH, .delete (pbPattern x.name)),
      (.protocolH, .insert (text "include protocol") (includeLine .msgDir x.name)),
      (.protocolCpp, .delete (newName x.name .req)),
      (.protocolCpp, .insert (text "new func") (newFunc x.name .req)),
      (.protocolCpp, .delete (deleteName x.name .req)),
      (.protocolCpp, .insert (text "delete func") (deleteFunc x.name .req)),
      (.protocolCpp, .delete (processName x.name .req)),
      (.protocolCpp, .insert (text "process func") (processFunc x.name .req)),
      (.protocolCpp, .delete (newName x.name .res)),
      (.protocolCpp, .insert (text "new func") (newFunc x.name .res)),
      (.protocolCpp, .delete (deleteName x.name .res)),
      (.protocolCpp, .insert (text "delete func") (deleteFunc x.name .res)),
      (.protocolCpp, .delete (processName x.name .res)),
      (.protocolCpp, .insert (text "process func") (processFunc x.name .res)),
      (.protocolCpp, .delete (registPattern x.name .req)),
      (.protocolCpp, .insert (text "regist msg") (registLine x.name .req)),
      (.protocolCpp, .delete (registPattern x.name .res)),
      (.protocolCpp, .insert (text "regist msg") (registLine x.name .res))]
  | dir =>
    [(.protocolH, .delete (pbPattern x.name)),
      (.protocolH, .insert (text "include protocol") (includeLine dir x.name))]

/-- `gen_proto_code` on the proto files that match its argument. -/
def genProtoCode (files : List ProtoFile) (s : GenFile → List Line) : GenFile → List Line :=
  files.foldl (fun s x => runScript breMatches (edits x) s) s

/-! ### Whose line it is -/

/-- How a generated line opens, and how much of the word that follows is not the name. -/
def openings : List (Line × Nat) :=
  [(text "#include \"msg/", 0), (text "#include \"def/", 0), (text "#include \"cfg/", 0),
    (text "template<> int get_type<", 0), (text "net::MsgData* new_", 4),
    (text "void delete_", 4), (text "extern void process_", 4),
    (text "net::regist_msg_processer(get_type<", 0)]

/-- The name a generated line is for. -/
def owner (l : Line) : Option Line :=
  (openings.find? fun o => o.1.isPrefixOf l).map fun o =>
    let word := (l.drop o.1.length).takeWhile isIdentChar
    word.take (word.length - o.2)

theorem takeWhile_ident {w rest : Line} (hw : ∀ c ∈ w, isIdentChar c = true)
    (hr : rest.head?.any isIdentChar = false) : (w ++ rest).takeWhile isIdentChar = w := by
  rw [List.takeWhile_append_of_pos hw]
  cases rest with
  | nil => simp
  | cons c rest => rw [List.takeWhile_cons_of_neg (by simpa using hr), List.append_nil]

theorem owner_eq {o : Line × Nat} {l w rest : Line}
    (ho : (openings.find? fun o => o.1.isPrefixOf l) = some o) (hl : l = o.1 ++ (w ++ rest))
    (hw : ∀ c ∈ w, isIdentChar c = true) (hr : rest.head?.any isIdentChar = false) :
    owner l = some (w.take (w.length - o.2)) := by
  rw [owner, ho, Option.map_some, hl, List.drop_left, takeWhile_ident hw hr]

/-- The lines that open with the name itself. -/
theorem owner_name {pre l x rest : Line}
    (ho : (openings.find? fun o => o.1.isPrefixOf l) = some (pre, 0)) (hl : l = pre ++ (x ++ rest))
    (hx : ∀ c ∈ x, isIdentChar c = true) (hr : rest.head?.any isIdentChar = false) :
    owner l = some x := by
  rw [owner_eq ho hl hx hr, Nat.sub_zero, List.take_length]

/-- The lines that open with a function's name. -/
theorem owner_function {pre l x rest : Line} {p : Part}
    (ho : (openings.find? fun o => o.1.isPrefixOf l) = some (pre, 4))
    (hl : l = pre ++ (x ++ p.suffix ++ rest))
    (hx : ∀ c ∈ x, isIdentChar c = true) (hr : rest.head?.any isIdentChar = false) :
    owner l = some x := by
  have hsuffix : ∀ c ∈ p.suffix, isIdentChar c = true := by
    cases p <;> exact List.all_eq_true.mp rfl
  have hfour : p.suffix.length = 4 := by cases p <;> rfl
  have hw : ∀ c ∈ x ++ p.suffix, isIdentChar c = true := by
    simpa only [List.forall_mem_append] using ⟨hx, hsuffix⟩
  rw [owner_eq ho hl hw hr, List.length_append, hfour, Nat.add_sub_cancel, List.take_left]

section Owner

variable {x : Line} (hx : ∀ c ∈ x, isIdentChar c = true)
include hx

theorem owner_includeLine (dir : ProtoDir) : owner (includeLine dir x) = some x := by
  cases dir <;> exact owner_name rfl (List.append_assoc _ _ _) hx rfl

theorem owner_getTypeDecl (p : Part) : owner (getTypeDecl x p) = some x := by
  have hl : getTypeDecl x p =
      text "template<> int get_type<" ++ (x ++ (text "::" ++ (p.cls ++ text ">();"))) := by
    simp only [getTypeDecl, List.append_assoc]
  exact owner_name rfl hl hx rfl

theorem owner_getTypeDef (p : Part) : owner (getTypeDef x p) = some x := by
  have hl : getTypeDef x p = text "template<> int get_type<" ++ (x ++ (text "::" ++
      (p.cls ++ (text ">() \x7b return message_" ++ (x ++ (text "_" ++
        (p.cls ++ text "_; \x7d"))))))) := by
    simp only [getTypeDef, List.append_assoc]
  exact owner_name rfl hl hx rfl

theorem owner_newFunc (p : Part) : owner (newFunc x p) = some x := by
  have hl : newFunc x p = text "net::MsgData* new_" ++ (x ++ p.suffix ++
      (text "() \x7b return GO_NEW(" ++ (x ++ (text "::" ++ (p.cls ++
        text ");  \x7d"))))) := by
    simp only [newFunc, newName, List.append_assoc]
    rfl
  exact owner_function rfl hl hx rfl

theorem owner_deleteFunc (p : Part) : owner (deleteFunc x p) = some x := by
  have hl : deleteFunc x p = text "void delete_" ++ (x ++ p.suffix ++
      (text "(net::MsgData* ptr) \x7b GO_DELETE((" ++ (x ++ (text "_" ++ (p.cls ++
        (text "*)ptr, " ++ (x ++ (text "_" ++ (p.cls ++ text "); \x7d"))))))))) := by
    simp only [deleteFunc, deleteName, List.append_assoc]
    rfl
  exact owner_function rfl hl hx rfl

theorem owner_processFunc (p : Part) : owner (processFunc x p) = some x := by
  have hl : processFunc x p =
      text "extern void process_" ++ (x ++ p.suffix ++ text "(net::MsgNode* msg);") := by
    simp only [processFunc, processName, List.append_assoc]
    rfl
  exact owner_function rfl hl hx rfl

theorem owner_registLine (p : Part) : owner (registLine x p) = some x := by
  have hl : registLine x p = text "net::regist_msg_processer(get_type<" ++ (x ++ (text "::" ++
      (p.cls ++ (text ">(), &" ++ (newName x p ++ (text ", &" ++ (deleteName x p ++
        (text ",&" ++ (processName x p ++ text ");"))))))))) := by
    simp only [registLine, List.append_assoc]
  exact owner_name rfl hl hx rfl

end Owner

variable {x y : ProtoFile}

/-- **A generated line tells the name it is for.** -/
theorem owner_of_mem_linesOf {f : GenFile} {l : Line} (hl : l ∈ linesOf x f) :
    owner l = some x.name := by
  have hx := x.name_ident
  cases f with
  | protocolH =>
    cases hdir : x.dir <;>
      simp only [linesOf, hdir, List.mem_cons, List.not_mem_nil, or_false] at hl
    case msgDir =>
      rcases hl with rfl | rfl | rfl
      · exact owner_getTypeDecl hx .req
      · exact owner_getTypeDecl hx .res
      · exact owner_includeLine hx .msgDir
    all_goals
      subst hl
      exact owner_includeLine hx _
  | protocolCpp =>
    cases hdir : x.dir <;>
      simp only [linesOf, hdir, List.mem_cons, List.not_mem_nil, or_false] at hl
    rcases hl with rfl | rfl | rfl | rfl | rfl | rfl | rfl | rfl | rfl | rfl
    · exact owner_getTypeDef hx .req
    · exact owner_getTypeDef hx .res
    · exact owner_newFunc hx .req
    · exact owner_deleteFunc hx .req
    · exact owner_processFunc hx .req
    · exact owner_newFunc hx .res
    · exact owner_deleteFunc hx .res
    · exact owner_processFunc hx .res
    · exact owner_registLine hx .req
    · exact owner_registLine hx .res

/-- What the generator inserts for a file are the file's lines. -/
theorem insertions_edits (x : ProtoFile) (f : GenFile) : insertions (edits x) f = linesOf x f := by
  cases hdir : x.dir <;> cases f <;> rw [edits, linesOf, hdir] <;> rfl

/-! ### The property -/

/-- The lines of another proto file stay as they were, and in their order. -/
def KeepsLines (files : List ProtoFile) (y : ProtoFile) (s : GenFile → List Line) : Prop :=
  ∀ f, (genProtoCode files s f).filter (· ∈ linesOf y f) = (s f).filter (· ∈ linesOf y f)

theorem genProtoCode_eq (files : List ProtoFile) (s : GenFile → List Line) :
    genProtoCode files s = runScript breMatches (files.flatMap edits) s := by
  induction files generalizing s with
  | nil => rfl
  | cons x files ih =>
    show genProtoCode files (runScript breMatches (edits x) s) = _
    rw [ih, List.flatMap_cons, runScript_append]

theorem insertions_flatMap (files : List ProtoFile) (f : GenFile) :
    insertions (files.flatMap edits) f = files.flatMap (linesOf · f) := by
  induction files with
  | nil => rfl
  | cons x files ih =>
    rw [List.flatMap_cons, insertions_append, insertions_edits, ih, List.flatMap_cons]

theorem deletions_flatMap (files : List ProtoFile) (f : GenFile) :
    deletions (files.flatMap edits) f = files.flatMap fun x => deletions (edits x) f := by
  induction files with
  | nil => rfl
  | cons x files ih => rw [List.flatMap_cons, deletions_append, ih, List.flatMap_cons]

/-- **When regenerating leaves another file's lines alone.**  The lines of `y` stay in both files
exactly when no line of `y` there is hit by a deletion made for the regenerated files. -/
theorem keepsLines_iff {files : List ProtoFile} {y : ProtoFile}
    (hne : ∀ x ∈ files, x.name ≠ y.name) (s : GenFile → List Line) :
    KeepsLines files y s ↔ ∀ f, ∀ l ∈ s f, l ∈ linesOf y f →
      ∀ x ∈ files, ∀ p ∈ deletions (edits x) f, breMatches p l = false := by
  have hins : ∀ f, ∀ t ∈ insertions (files.flatMap edits) f, decide (t ∈ linesOf y f) = false := by
    intro f t ht
    rw [insertions_flatMap] at ht
    obtain ⟨x, hx, ht⟩ := List.mem_flatMap.mp ht
    apply decide_eq_false
    intro hy
    have hown := owner_of_mem_linesOf ht
    rw [owner_of_mem_linesOf hy, Option.some.injEq] at hown
    exact hne x hx hown.symm
  apply forall_congr'
  intro f
  rw [genProtoCode_eq, filter_runScript_eq_iff breMatches (hins f), deletions_flatMap]
  simp only [decide_eq_true_eq, List.forall_mem_flatMap]

/-- Regenerating `Shutdown` in front of the lines of `Regist`. -/
theorem keepsLines_shutdown :
    KeepsLines [shutdownProto] registProto fun
      | .protocolH => [includeLine .msgDir registProto.name, text "// include protocol h file"]
      | .protocolCpp => [registLine registProto.name .req, text "// regist msg"] := by
  apply (keepsLines_iff (by decide) _).mpr
  intro f
  cases f <;> decide +kernel

/-- Regenerating `Role` removes the include of `GetRole`. -/
theorem not_keepsLines_role :
    ¬∀ (x y : ProtoFile) (s : GenFile → List Line), x.name ≠ y.name → KeepsLines [x] y s := by
  intro h
  have hrole := h roleProto getRoleProto
    (fun
      | .protocolH => [includeLine .msgDir getRoleProto.name, text "// include protocol h file"]
      | .protocolCpp => []) (by decide) .protocolH
  revert hrole
  decide +kernel

/-! ### Names -/

/-- Every deletion for a file looks for its name. -/
theorem deletions_edits {x : ProtoFile} {f : GenFile} {p : Line}
    (hp : p ∈ deletions (edits x) f) : ∃ pre post, p = pre ++ (x.name ++ post) := by
  have hpb : ∃ pre post, pbPattern x.name = pre ++ (x.name ++ post) := ⟨[], _, rfl⟩
  cases f with
  | protocolH =>
    cases hdir : x.dir with
    | msgDir =>
      have hdel : deletions (edits x) .protocolH = [x.name, pbPattern x.name] := by
        rw [edits, hdir]
        rfl
      rw [hdel, List.mem_pair] at hp
      obtain rfl | rfl := hp
      · exact ⟨[], [], (List.append_nil _).symm⟩
      · exact hpb
    | _ =>
      have hdel : deletions (edits x) .protocolH = [pbPattern x.name] := by
        rw [edits, hdir]
        rfl
      rw [hdel, List.mem_singleton] at hp
      exact hp ▸ hpb
  | protocolCpp =>
    cases hdir : x.dir with
    | msgDir =>
      have hdel : deletions (edits x) .protocolCpp = [text "return message_" ++ x.name,
          newName x.name .req, deleteName x.name .req, processName x.name .req,
          newName x.name .res, deleteName x.name .res, processName x.name .res,
          registPattern x.name .req, registPattern x.name .res] := by
        rw [edits, hdir]
        rfl
      rw [hdel] at hp
      have hfun : ∀ pre post : Line, ∃ pre' post', pre ++ x.name ++ post =
          pre' ++ (x.name ++ post') := fun pre post => ⟨pre, post, List.append_assoc _ _ _⟩
      simp only [List.mem_cons, List.not_mem_nil, or_false] at hp
      obtain rfl | rfl | rfl | rfl | rfl | rfl | rfl | rfl | rfl := hp
      · exact ⟨_, [], by rw [List.append_nil]⟩
      · exact hfun _ _
      · exact hfun _ _
      · exact hfun _ _
      · exact hfun _ _
      · exact hfun _ _
      · exact hfun _ _
      · exact ⟨_, _, by rw [registPattern, List.append_assoc, List.append_assoc]⟩
      · exact ⟨_, _, by rw [registPattern, List.append_assoc, List.append_assoc]⟩
    | _ =>
      have hdel : deletions (edits x) .protocolCpp = [] := by
        rw [edits, hdir]
        rfl
      rw [hdel] at hp
      cases hp

theorem name_no_dot (x : ProtoFile) : '.' ∉ x.name := by
  intro h
  have hdot := x.name_ident '.' h
  revert hdot
  decide

/-- A line that a deletion for a file hits contains its name. -/
theorem infix_of_deletion {x : ProtoFile} {f : GenFile} {p l : Line}
    (hp : p ∈ deletions (edits x) f) (hl : breMatches p l = true) : x.name <:+: l := by
  obtain ⟨pre, post, rfl⟩ := deletions_edits hp
  exact (breMatches_iff_mem (name_no_dot x) l).mp (breMatches_part hl)

theorem name_infix_include (dir : ProtoDir) (x : Line) : x <:+: includeLine dir x :=
  ⟨_, _, rfl⟩

theorem includeLine_mem (y : ProtoFile) : includeLine y.dir y.name ∈ linesOf y .protocolH := by
  cases hdir : y.dir <;> simp [linesOf, hdir]

/-- **A name that is no part of another file's lines leaves them alone**, whatever the two files
hold. -/
theorem keepsLines_of_not_infix {files : List ProtoFile} {y : ProtoFile}
    (h : ∀ x ∈ files, ∀ f, ∀ l ∈ linesOf y f, ¬x.name <:+: l) (s : GenFile → List Line) :
    KeepsLines files y s := by
  have hne : ∀ x ∈ files, x.name ≠ y.name := by
    intro x hx hname
    apply h x hx .protocolH _ (includeLine_mem y)
    rw [hname]
    exact name_infix_include y.dir y.name
  apply (keepsLines_iff hne s).mpr
  intro f l _ hl x hx p hp
  apply Bool.eq_false_iff.mpr
  intro hhit
  exact h x hx f l hl (infix_of_deletion hp hhit)

/-- A message takes every header line that contains its name, be it the name of another file or
the word `template`. -/
theorem not_infix_of_keepsLines {x y : ProtoFile} (hdir : x.dir = .msgDir) (hne : x.name ≠ y.name)
    {s : GenFile → List Line} (h : KeepsLines [x] y s) {l : Line} (hl : l ∈ s .protocolH)
    (hy : l ∈ linesOf y .protocolH) : ¬x.name <:+: l := by
  have hdel : x.name ∈ deletions (edits x) .protocolH := by
    rw [edits, hdir]
    exact List.mem_cons_self
  have hno := (keepsLines_iff (by simpa using hne) s).mp h .protocolH l hl hy x
    (List.mem_singleton_self x) x.name hdel
  intro hin
  rw [(breMatches_iff_mem (name_no_dot x) l).mpr hin] at hno
  cases hno

end GoFight.Tools
