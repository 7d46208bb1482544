import GoFight.Lib.Template
import GoFight.Tools.GenProto

/-!
# The generator on its own message

What `gen_proto_code` leaves of the two files for the message it is run for, and what it does when it is
run again.

* `Kind`, `Target` — the kinds of lines the generator inserts, and what its deletions look for;
* `commands` — what is done to a file, in its order and without the name of the message;
* `segs` — the lines as templates: no marker occurs in one, and no deletion that comes after its
  insertion hits one;
* `Ready` — the files: markers that hit one line each, fixed lines, and generated lines of any names;
* `complete_and_fixed` — afterwards each kind of line is there exactly once, and another run changes
  nothing.
-/

namespace GoFight.Tools

open GoFight.Lib

/-! ### Kinds of lines -/

/-- The functions of a message. -/
inductive Word
  | new
  | delete
  | process
deriving DecidableEq, Repr

/-- What a function's name begins with. -/
def Word.text : Word → Line
  | .new => Tools.text "new_"
  | .delete => Tools.text "delete_"
  | .process => Tools.text "process_"

/-- The name of a function. -/
def funcName (w : Word) (x : Line) (p : Part) : Line :=
  match w with
  | .new => newName x p
  | .delete => deleteName x p
  | .process => processName x p

theorem funcName_eq (w : Word) (x : Line) (p : Part) : funcName w x p = w.text ++ (x ++ p.suffix) := by
  cases w <;> exact List.append_assoc _ _ _

/-- The kinds of lines the generator inserts for a message. -/
inductive Kind
  | getType (p : Part)
  | pbInclude
  | func (w : Word) (p : Part)
  | regist (p : Part)
deriving DecidableEq, Repr

/-- The kinds in a file, in the order of their insertions. -/
def kinds : GenFile → List Kind
  | .protocolH => [.getType .req, .getType .res, .pbInclude]
  | .protocolCpp =>
    [.getType .req, .getType .res,
      .func .new .req, .func .delete .req, .func .process .req,
      .func .new .res, .func .delete .res, .func .process .res,
      .regist .req, .regist .res]

/-- The line of a kind. -/
def Kind.line (f : GenFile) (k : Kind) (x : Line) : Line :=
  match k, f with
  | getType p, .protocolH => getTypeDecl x p
  | getType p, .protocolCpp => getTypeDef x p
  | pbInclude, _ => includeLine .msgDir x
  | func .new p, _ => newFunc x p
  | func .delete p, _ => deleteFunc x p
  | func .process p, _ => processFunc x p
  | regist p, _ => registLine x p

/-- The marker a line of the kind is put in front of. -/
def Kind.marker (f : GenFile) (k : Kind) : Line :=
  match k, f with
  | getType _, .protocolH => text "add get_type"
  | getType _, .protocolCpp => text "add_get_type"
  | pbInclude, _ => text "include protocol"
  | func .new _, _ => text "new func"
  | func .delete _, _ => text "delete func"
  | func .process _, _ => text "process func"
  | regist _, _ => text "regist msg"

/-- The marker patterns of a file. -/
def markers : GenFile → List Line
  | .protocolH => [text "add get_type", text "include protocol"]
  | .protocolCpp =>
    [text "add_get_type", text "new func", text "delete func", text "process func", text "regist msg"]

theorem marker_mem {f : GenFile} {k : Kind} (hk : k ∈ kinds f) : k.marker f ∈ markers f := by
  revert k
  cases f <;> decide

theorem exists_kind_of_marker {f : GenFile} {m : Line} (hm : m ∈ markers f) :
    ∃ k ∈ kinds f, k.marker f = m := by
  revert m
  cases f <;> decide

/-! ### The commands -/

/-- What the deletions look for. -/
inductive Target
  | name
  | message
  | pb
  | func (w : Word) (p : Part)
  | regist (p : Part)
deriving DecidableEq, Repr

/-- Its pattern. -/
def Target.pattern (x : Line) : Target → Line
  | name => x
  | message => text "return message_" ++ x
  | pb => pbPattern x
  | func w p => funcName w x p
  | regist p => registPattern x p

/-- A command without the name of the message. -/
inductive Command
  | delete (t : Target)
  | insert (k : Kind)
deriving DecidableEq, Repr

/-- The command. -/
def Command.edit (f : GenFile) (x : Line) : Command → Edit Line Line
  | delete t => .delete (t.pattern x)
  | insert k => .insert (k.marker f) (k.line f x)

/-- The commands for a message on a file, in the order of the source. -/
def commands : GenFile → List Command
  | .protocolH =>
    [.delete .name, .insert (.getType .req), .insert (.getType .res), .delete .pb, .insert .pbInclude]
  | .protocolCpp =>
    [.delete .message, .insert (.getType .req), .insert (.getType .res),
      .delete (.func .new .req), .insert (.func .new .req),
      .delete (.func .delete .req), .insert (.func .delete .req),
      .delete (.func .process .req), .insert (.func .process .req),
      .delete (.func .new .res), .insert (.func .new .res),
      .delete (.func .delete .res), .insert (.func .delete .res),
      .delete (.func .process .res), .insert (.func .process .res),
      .delete (.regist .req), .insert (.regist .req),
      .delete (.regist .res), .insert (.regist .res)]

section Commands

variable {x : ProtoFile} (hdir : x.dir = .msgDir)
include hdir

theorem editsOf_edits (f : GenFile) :
    editsOf (edits x) f = (commands f).map (Command.edit f x.name) := by
  rw [edits, hdir]
  cases f <;> rfl

theorem linesOf_eq (f : GenFile) : linesOf x f = (kinds f).map fun k => k.line f x.name := by
  rw [linesOf.eq_def]
  cases f <;> simp only [hdir] <;> rfl

theorem inserts_edits (f : GenFile) :
    inserts (editsOf (edits x) f) = (kinds f).map fun k => (k.marker f, k.line f x.name) := by
  rw [editsOf_edits hdir]
  cases f <;> rfl

end Commands

/-! ### The lines as templates -/

/-- What is in front of a function's name in the line that defines or declares it. -/
def Word.before : Word → Line
  | .new => Tools.text "net::MsgData* "
  | .delete => Tools.text "void "
  | .process => Tools.text "extern void "

/-- What is behind the beginning of its name. -/
def funcRest (w : Word) (p : Part) : List (Seg Char) :=
  match w with
  | .new =>
    [.hole, .lit (p.suffix ++ text "() \x7b return GO_NEW("), .hole,
      .lit (text "::" ++ (p.cls ++ text ");  \x7d"))]
  | .delete =>
    [.hole, .lit (p.suffix ++ text "(net::MsgData* ptr) \x7b GO_DELETE(("), .hole,
      .lit (text "_" ++ (p.cls ++ text "*)ptr, ")), .hole,
      .lit (text "_" ++ (p.cls ++ text "); \x7d"))]
  | .process => [.hole, .lit (p.suffix ++ text "(net::MsgNode* msg);")]

/-- The template of a kind. -/
def Kind.segs (f : GenFile) (k : Kind) : List (Seg Char) :=
  match k, f with
  | getType p, .protocolH =>
    [.lit (text "template<> int get_type<"), .hole, .lit (text "::" ++ (p.cls ++ text ">();"))]
  | getType p, .protocolCpp =>
    [.lit (text "template<> int get_type<"), .hole,
      .lit (text "::" ++ (p.cls ++ text ">() \x7b return message_")), .hole,
      .lit (text "_" ++ (p.cls ++ text "_; \x7d"))]
  | pbInclude, _ => [.lit (text "#include \"msg/"), .hole, .lit (text ".pb.h\"")]
  | func w p, _ => .lit (w.before ++ w.text) :: funcRest w p
  | regist p, _ =>
    [.lit (text "net::regist_msg_processer(get_type<"), .hole,
      .lit (text "::" ++ (p.cls ++ text ">(), &new_")), .hole,
      .lit (p.suffix ++ text ", &delete_"), .hole,
      .lit (p.suffix ++ text ",&process_"), .hole, .lit (p.suffix ++ text ");")]

theorem line_eq_render (f : GenFile) (k : Kind) (x : Line) : k.line f x = render x (k.segs f) := by
  cases k with
  | getType p =>
    cases f <;> simp only [Kind.line, getTypeDecl, getTypeDef, Kind.segs, render, List.append_assoc,
      List.append_nil]
  | pbInclude =>
    simp only [Kind.line, includeLine, Kind.segs, render, List.append_assoc, List.append_nil]
  | func w p =>
    cases w <;> simp only [Kind.line, newFunc, deleteFunc, processFunc, newName, deleteName,
      processName, Kind.segs, Word.before, Word.text, funcRest, render, List.append_assoc,
      List.append_nil]
  | regist p =>
    simp only [Kind.line, registLine, newName, deleteName, processName, Kind.segs, render,
      List.append_assoc, List.append_nil]
    rfl

theorem clear_marker {f : GenFile} : ∀ m ∈ markers f, ∀ k ∈ kinds f, clear m (k.segs f) = true := by
  cases f <;> decide +kernel

theorem markers_no_dot {f : GenFile} : ∀ m ∈ markers f, '.' ∉ m := by
  cases f <;> decide

/-- **No marker occurs in an inserted line**, if none occurs in the name. -/
theorem marker_avoids {f : GenFile} {m x : Line} (hm : m ∈ markers f) (hx : ¬m <:+: x) {k : Kind}
    (hk : k ∈ kinds f) : breMatches m (k.line f x) = false := by
  apply Bool.eq_false_iff.mpr
  intro hhit
  rw [breMatches_iff_mem (markers_no_dot m hm), line_eq_render] at hhit
  exact not_infix_render hx (clear_marker m hm k hk) hhit

/-! ### Deletions behind an insertion -/

section Avoids

variable {x : Line} (hx : ∀ c ∈ x, isIdentChar c = true)
include hx

/-- A text with another letter is not in the name. -/
theorem not_infix_name {p : Line} {c : Char} (hc : c ∈ p) (hother : isIdentChar c = false) :
    ¬p <:+: x := by
  intro h
  have hident := hx c (h.subset hc)
  rw [hother] at hident
  cases hident

theorem funcName_ident (w : Word) (q : Part) : ∀ c ∈ w.text ++ (x ++ q.suffix), isIdentChar c = true := by
  have hw : ∀ c ∈ w.text, isIdentChar c = true := by
    cases w <;> exact List.all_eq_true.mp rfl
  have hq : ∀ c ∈ q.suffix, isIdentChar c = true := by
    cases q <;> exact List.all_eq_true.mp rfl
  simpa only [List.forall_mem_append] using ⟨hw, hx, hq⟩

omit hx in
/-- A function's name is longer than the message's name and the five letters that may follow it. -/
theorem length_funcName (w : Word) (q : Part) : x.length + 5 < (w.text ++ (x ++ q.suffix)).length := by
  have hw : 4 ≤ w.text.length := by cases w <;> decide
  have hq : q.suffix.length = 4 := by cases q <;> rfl
  simp only [List.length_append]
  omega

theorem funcName_avoids {w : Word} {q : Part} {segs : List (Seg Char)}
    (h : clearLong isIdentChar w.text 5 segs = true) : ¬funcName w x q <:+: render x segs := by
  have hw : w.text ≠ [] := by cases w <;> decide
  rw [funcName_eq]
  exact not_infix_render_long hw (funcName_ident hx w q) (length_funcName w q) h

/-- The line of a function is not hit by the name of another one of the message. -/
theorem funcName_avoids_func {w w' : Word} {p q : Part} (hne : (w', q) ≠ (w, p)) :
    ¬funcName w' x q <:+: render x ((Kind.func w p).segs .protocolCpp) := by
  by_cases hw : w' = w
  · subst hw
    have hq : ¬q = p := fun h => hne (by rw [h])
    obtain ⟨rest, hrest⟩ : ∃ rest, render x (funcRest w' p) = x ++ (p.suffix ++ rest) := by
      cases w' <;> exact ⟨_, by rw [funcRest, render, render, List.append_assoc]⟩
    obtain ⟨c, tl, hcons⟩ : ∃ c tl, w'.text = c :: tl := by
      cases w' <;> exact ⟨_, _, rfl⟩
    have hbefore : noStart w'.text w'.before = true := by cases w' <;> decide
    have hlater : clearLong isIdentChar w'.text 5 (.lit w'.text.tail :: funcRest w' p) = true := by
      cases w' <;> cases p <;> decide
    intro hin
    rw [Kind.segs, render, List.append_assoc] at hin
    rcases startsIn_or_later hin with hs | hin
    · rw [funcName_eq] at hs
      exact not_startsIn_of_noStart hbefore hs
    · rw [hcons, List.cons_append, List.infix_cons_iff] at hin
      rcases hin with hpre | hin
      · -- the same beginning, so the ends of the two names differ
        rw [funcName_eq, hcons, List.cons_append, List.cons_prefix_cons, hrest,
          List.prefix_append_right_inj, List.prefix_append_right_inj] at hpre
        have hlen : q.suffix.length = p.suffix.length := by cases p <;> cases q <;> rfl
        have hshort := List.prefix_of_prefix_length_le hpre.2 (List.prefix_append _ _) hlen.le
        have hsuffix := hshort.eq_of_length hlen
        revert hsuffix
        cases p <;> cases q <;> first | exact absurd rfl hq | decide
      · rw [hcons, List.tail_cons] at hlater
        exact funcName_avoids hx (hcons ▸ hlater) hin
  · apply funcName_avoids hx
    cases w <;> cases w' <;> cases p <;> first | exact absurd rfl hw | decide

/-- The definition of `get_type` is not hit by the name of a function. -/
theorem funcName_avoids_getType (w : Word) (q p : Part) :
    ¬funcName w x q <:+: render x ((Kind.getType p).segs .protocolCpp) := by
  apply funcName_avoids hx
  cases w <;> cases p <;> decide

/-- A pattern with a part that is in no line of a kind. -/
theorem avoids_of_part (pre : Line) {part : Line} (post : Line) (hdot : '.' ∉ part) {c : Char} (hc : c ∈ part)
    (hother : isIdentChar c = false) {f : GenFile} {k : Kind}
    (h : clear part (k.segs f) = true) :
    breMatches (pre ++ (part ++ post)) (k.line f x) = false := by
  apply Bool.eq_false_iff.mpr
  intro hhit
  have hpart := (breMatches_iff_mem hdot _).mp (breMatches_part hhit)
  rw [line_eq_render] at hpart
  exact not_infix_render (not_infix_name hx hc hother) h hpart

/-- The definition of `get_type` is not hit by what the generator deletes of the registrations: it has
no bracket in front of `get_type`. -/
theorem registPattern_avoids_getType (p q : Part) :
    breMatches (registPattern x q) ((Kind.getType p).line .protocolCpp x) = false := by
  have h : clear (text "(get_type<") ((Kind.getType p).segs .protocolCpp) = true := by
    cases p <;> decide
  have hpart := avoids_of_part hx [] (x ++ (text "::" ++ q.cls)) (by decide)
    (c := '(') (by decide) rfl h
  simpa only [registPattern, List.append_assoc, List.nil_append] using hpart

/-- The line of a function is not either: it has no angle bracket. -/
theorem registPattern_avoids_func (w : Word) (p q : Part) :
    breMatches (registPattern x q) ((Kind.func w p).line .protocolCpp x) = false := by
  have h : clear (text "<") ((Kind.func w p).segs .protocolCpp) = true := by
    cases w <;> cases p <;> decide
  have hpart := avoids_of_part hx (text "(get_type") (x ++ (text "::" ++ q.cls))
    (by decide) (c := '<') (by decide) rfl h
  have heq : registPattern x q =
      text "(get_type" ++ (text "<" ++ (x ++ (text "::" ++ q.cls))) := by
    simp only [registPattern, List.append_assoc]
    rfl
  rw [heq]
  exact hpart

/-- The registration of a request is not hit by the deletion for the answer. -/
theorem registPattern_avoids_regist {p q : Part} (hne : q ≠ p) :
    breMatches (registPattern x q) ((Kind.regist p).line .protocolCpp x) = false := by
  have h : clear (text "::" ++ q.cls) ((Kind.regist p).segs .protocolCpp) = true := by
    cases p <;> cases q <;> first | exact absurd rfl hne | decide
  have hpart := avoids_of_part hx (text "(get_type<" ++ x) []
    (by cases q <;> decide) (c := ':') (by cases q <;> decide) rfl h
  simpa only [registPattern, List.append_assoc, List.append_nil] using hpart

/-- A pattern that begins with the name hits a line where the name is. -/
theorem exists_of_breMatches_name {q l : Line} (h : breMatches (x ++ q) l = true) :
    ∃ r, x ++ r <:+ l ∧ breHere q r = true := by
  have hdot : '.' ∉ x := by
    intro hmem
    have hident := hx '.' hmem
    revert hident
    decide
  obtain ⟨t, ht, hhere⟩ := List.any_eq_true.mp h
  rw [breHere_append, Bool.and_eq_true, breHere_iff_head hdot] at hhere
  obtain ⟨⟨r, rfl⟩, hr⟩ := hhere
  rw [List.drop_left] at hr
  exact ⟨r, (List.mem_tails _ _).mp ht, hr⟩

/-- The declaration of `get_type` is not hit by `X.pb.h`, whatever the dots stand for. -/
theorem pbPattern_avoids (p : Part) :
    breMatches (pbPattern x) ((Kind.getType p).line .protocolH x) = false := by
  -- what would have to match behind the name
  have hfront : ∀ p : Part, ∀ a ∈ (text "template<> int get_type<").tails, ∀ n < a.length + 1,
      breHere (text ".pb.h")
        (a.drop n ++ (a.take n ++ (text "::" ++ (p.cls ++ text ">();") ++ []))) = false := by
    intro p
    cases p <;> decide +kernel
  have hbehind : ∀ p : Part, ∀ t ∈ (text "::" ++ (p.cls ++ text ">();") ++ []).tails,
      breHere (text ".pb.h") t = false := by
    intro p
    cases p <;> decide +kernel
  have hangle : ∀ a ∈ (text "template<> int get_type<").tails, a ≠ [] → '<' ∈ a := by decide +kernel
  apply Bool.eq_false_iff.mpr
  intro hhit
  obtain ⟨r, hsuf, hr⟩ := exists_of_breMatches_name hx hhit
  rw [line_eq_render, Kind.segs, render, render, render, render] at hsuf
  -- the name starts in the text in front of the hole, in the hole or behind it
  rcases suffix_append_cases hsuf with hsuf | ⟨a, hne, ha, heq⟩
  · rcases suffix_append_cases hsuf with hsuf | ⟨b, hne, hb, heq⟩
    · have hsuf' := (List.suffix_append x r).trans hsuf
      rw [hbehind p r ((List.mem_tails _ _).mpr hsuf')] at hr
      cases hr
    · have hpre : x <+: b ++ ':' :: (text ":" ++ (p.cls ++ text ">();") ++ []) := ⟨r, heq⟩
      have hbx : b = x := hb.eq_of_length_le (length_le_of_begins hx (by decide) hpre)
      rw [hbx, List.append_right_inj] at heq
      rw [heq, hbehind p _ ((List.mem_tails _ _).mpr List.suffix_rfl)] at hr
      cases hr
  · have hmem := (List.mem_tails _ _).mpr ha
    have hpre : x <+: a ++ (x ++ (text "::" ++ (p.cls ++ text ">();") ++ [])) := ⟨r, heq⟩
    rcases List.prefix_or_prefix_of_prefix hpre (List.prefix_append a _) with hxa | hax
    · obtain ⟨d, rfl⟩ := hxa
      rw [List.append_assoc, List.append_right_inj] at heq
      have hno := hfront p _ hmem x.length (by rw [List.length_append]; omega)
      rw [List.drop_left, List.take_left, ← heq, hr] at hno
      cases hno
    · exact not_infix_name hx (hangle a hmem hne) rfl hax.isInfix

end Avoids

/-- A deletion that never hits an inserted line of the kind. -/
def Kind.avoids (f : GenFile) (k : Kind) (t : Target) : Bool :=
  match f, k, t with
  | .protocolH, getType _, .pb => true
  | .protocolCpp, getType _, .func _ _ => true
  | .protocolCpp, getType _, .regist _ => true
  | .protocolCpp, func w p, .func w' q => (w', q) ≠ (w, p)
  | .protocolCpp, func _ _, .regist _ => true
  | .protocolCpp, regist p, .regist q => q ≠ p
  | _, _, _ => false

theorem not_hit_of_avoids {x : Line} (hx : ∀ c ∈ x, isIdentChar c = true) {f : GenFile} {k : Kind}
    {t : Target} (h : k.avoids f t = true) : breMatches (t.pattern x) (k.line f x) = false := by
  have hfunc : ∀ {w : Word} {q : Part} {k : Kind},
      ¬funcName w x q <:+: render x (k.segs .protocolCpp) →
        breMatches (funcName w x q) (k.line .protocolCpp x) = false := by
    intro w q k hno
    have hdot : '.' ∉ funcName w x q := by
      intro hmem
      rw [funcName_eq] at hmem
      have hident := funcName_ident hx w q '.' hmem
      revert hident
      decide
    rw [← Bool.not_eq_true, breMatches_iff_mem hdot, line_eq_render]
    exact hno
  cases f with
  | protocolH =>
    rcases k with p | _ | _ | _ <;> cases t <;> simp only [Kind.avoids, Bool.false_eq_true] at h
    exact pbPattern_avoids hx p
  | protocolCpp =>
    rcases k with p | _ | ⟨w, p⟩ | p <;> cases t <;> simp only [Kind.avoids, Bool.false_eq_true] at h
    case getType.func w q => exact hfunc (funcName_avoids_getType hx w q p)
    case getType.regist q => exact registPattern_avoids_getType hx p q
    case func.func w' q => exact hfunc (funcName_avoids_func hx (of_decide_eq_true h))
    case func.regist q => exact registPattern_avoids_func hx w p q
    case regist.regist q => exact registPattern_avoids_regist hx (of_decide_eq_true h)

/-- The one command may come before the other. -/
def Command.mayPrecede (f : GenFile) : Command → Command → Bool
  | insert k, delete t => k.avoids f t
  | _, _ => true

/-- **The order of the commands**: a deletion that would hit an inserted line comes before it. -/
theorem commands_ordered (f : GenFile) :
    (commands f).Pairwise fun c c' => c.mayPrecede f c' = true := by
  cases f <;> decide

theorem mem_kinds {f : GenFile} {k : Kind} (h : .insert k ∈ commands f) : k ∈ kinds f := by
  revert k
  cases f <;> rintro (p | _ | ⟨w, p⟩ | p) <;>
    first | cases p <;> decide | cases w <;> cases p <;> decide | decide

/-! ### What another run deletes -/

/-- The deletion that takes an inserted line away. -/
def Kind.target (f : GenFile) (k : Kind) : Target :=
  match f, k with
  | .protocolH, _ => .name
  | .protocolCpp, getType _ => .message
  | .protocolCpp, pbInclude => .name
  | .protocolCpp, func w p => .func w p
  | .protocolCpp, regist p => .regist p

theorem target_mem {f : GenFile} : ∀ k ∈ kinds f, .delete (k.target f) ∈ commands f := by
  cases f <;> decide

/-- The call that registers a message, up to the bracket. -/
theorem regist_text : text "net::regist_msg_processer(get_type<" =
    text "net::regist_msg_processer" ++ text "(get_type<" := by decide +kernel

/-- The body of `get_type`, up to the message. -/
theorem return_text : text ">() \x7b return message_" =
    text ">() \x7b " ++ text "return message_" := by decide +kernel

theorem target_in_line {f : GenFile} {k : Kind} (hk : k ∈ kinds f) (x : Line) :
    (k.target f).pattern x <:+: k.line f x := by
  cases f with
  | protocolH =>
    rw [line_eq_render]
    apply infix_render
    rcases k with p | _ | ⟨w, p⟩ | p
    · exact .tail _ (.head _)
    · exact .tail _ (.head _)
    · cases w <;> exact .tail _ (.head _)
    · exact .tail _ (.head _)
  | protocolCpp =>
    rcases k with p | _ | ⟨w, p⟩ | p
    · refine ⟨text "template<> int get_type<" ++ (x ++ (text "::" ++ (p.cls ++ text ">() \x7b "))),
        text "_" ++ (p.cls ++ text "_; \x7d"), ?_⟩
      simp only [Kind.target, Target.pattern, Kind.line, getTypeDef, return_text, List.append_assoc]
    · exact absurd hk (by decide)
    · cases w
      · exact ⟨_, _, by simp only [Kind.target, Target.pattern, Kind.line, newFunc, funcName,
          List.append_assoc]; rfl⟩
      · exact ⟨_, _, by simp only [Kind.target, Target.pattern, Kind.line, deleteFunc, funcName,
          List.append_assoc]; rfl⟩
      · exact ⟨_, _, by simp only [Kind.target, Target.pattern, Kind.line, processFunc, funcName,
          List.append_assoc]; rfl⟩
    · refine ⟨text "net::regist_msg_processer", text ">(), &" ++ (newName x p ++ (text ", &" ++
        (deleteName x p ++ (text ",&" ++ (processName x p ++ text ");"))))), ?_⟩
      simp only [Kind.target, Target.pattern, Kind.line, registLine, registPattern, regist_text,
        List.append_assoc]

section Edits

variable {x : ProtoFile} (hdir : x.dir = .msgDir) {f : GenFile}
include hdir

theorem deleted_of_target {t : Target} (ht : .delete t ∈ commands f) {l : Line}
    (hl : t.pattern x.name <:+: l) : deleted breMatches (editsOf (edits x) f) l = true := by
  rw [editsOf_edits hdir]
  apply List.any_eq_true.mpr
  exact ⟨_, List.mem_map_of_mem ht, breMatches_of_infix hl⟩

/-- Every inserted line is deleted by another run. -/
theorem deleted_line {k : Kind} (hk : k ∈ kinds f) :
    deleted breMatches (editsOf (edits x) f) (k.line f x.name) = true :=
  deleted_of_target hdir (target_mem k hk) (target_in_line hk x.name)

/-- No command hits a line that was inserted before it. -/
theorem settled_edits (hname : ∀ m ∈ markers f, ¬m <:+: x.name) :
    Settled breMatches (editsOf (edits x) f) := by
  rw [editsOf_edits hdir, Settled, List.pairwise_map]
  apply (commands_ordered f).imp_of_mem
  intro c c' hc hc' hprec t ht
  cases c with
  | delete _ => cases ht
  | insert k =>
    obtain rfl : k.line f x.name = t := by simpa [Command.edit, Edit.text] using ht
    cases c' with
    | delete tgt => exact not_hit_of_avoids x.name_ident hprec
    | insert k' =>
      have hm := marker_mem (mem_kinds hc')
      exact marker_avoids hm (hname _ hm) (mem_kinds hc)

/-- **The commands for a message regenerate its lines.** -/
theorem regenerates_edits (hname : ∀ m ∈ markers f, ¬m <:+: x.name) :
    Regenerates breMatches (editsOf (edits x) f) := by
  refine ⟨settled_edits hdir hname, ?_, ?_⟩
  · rw [inserts_edits hdir]
    intro i hi j hj
    obtain ⟨k, hk, rfl⟩ := List.mem_map.mp hi
    obtain ⟨k', hk', rfl⟩ := List.mem_map.mp hj
    exact marker_avoids (marker_mem hk) (hname _ (marker_mem hk)) hk'
  · rw [inserts_edits hdir]
    intro i hi
    obtain ⟨k, hk, rfl⟩ := List.mem_map.mp hi
    exact deleted_line hdir hk

end Edits

/-! ### The lines of a kind -/

/-- How the lines of a kind open, up to the name. -/
def Kind.heads : Kind → List Line
  | getType _ => [text "template<> int get_type<"]
  | pbInclude => [text "#include \"msg/", text "#include \"def/", text "#include \"cfg/"]
  | func w _ => [w.before ++ w.text]
  | regist _ => [text "net::regist_msg_processer(get_type<"]

/-- How they go on behind it. -/
def Kind.tail : Kind → Line
  | getType p => text "::" ++ (p.cls ++ text ">(")
  | pbInclude => text ".pb.h\""
  | func _ p => p.suffix ++ text "("
  | regist p => text "::" ++ (p.cls ++ text ">(")

/-- A line of the kind for the name, whatever it goes on with. -/
def Kind.isOf (k : Kind) (x l : Line) : Bool := k.heads.any fun h => (h ++ (x ++ k.tail)).isPrefixOf l

/-- The texts around the first hole of a line. -/
def Kind.start (f : GenFile) (k : Kind) : Line × Line :=
  match k.segs f with
  | .lit a :: .hole :: .lit b :: _ => (a, b)
  | _ => ([], [])

theorem segs_eq (f : GenFile) (k : Kind) :
    ∃ rest, k.segs f = .lit (k.start f).1 :: .hole :: .lit (k.start f).2 :: rest := by
  rcases k with p | _ | ⟨w, p⟩ | p
  · cases f <;> exact ⟨_, rfl⟩
  · exact ⟨_, rfl⟩
  · cases w <;> exact ⟨_, rfl⟩
  · exact ⟨_, rfl⟩

/-- The kinds of a file open differently. -/
theorem starts_apart {f : GenFile} : ∀ k ∈ kinds f, ∀ k' ∈ kinds f,
    (∀ h ∈ k.heads, (h = (k'.start f).1 ∧ k.tail.length ≤ (k'.start f).2.length) ∨
        comparable h (k'.start f).1 = false) ∧
      (k.heads.any fun h => decide (h = (k'.start f).1) && k.tail.isPrefixOf (k'.start f).2) =
        decide (k' = k) := by
  cases f <;> decide +kernel

/-- The line the generator inserts is of its kind and of no other. -/
theorem isOf_line {f : GenFile} {k k' : Kind} (hk : k ∈ kinds f) (hk' : k' ∈ kinds f) (x : Line) :
    k.isOf x (k'.line f x) = decide (k' = k) := by
  obtain ⟨hapart, hsame⟩ := starts_apart k hk k' hk'
  obtain ⟨rest, hsegs⟩ := segs_eq f k'
  have hhead : ∀ h ∈ k.heads, (h ++ (x ++ k.tail)).isPrefixOf (k'.line f x) =
      (decide (h = (k'.start f).1) && k.tail.isPrefixOf (k'.start f).2) := by
    intro h hh
    rw [line_eq_render, hsegs]
    exact isPrefixOf_hole (hapart h hh)
  rw [← hsame, Kind.isOf, Bool.eq_iff_iff, List.any_eq_true, List.any_eq_true]
  constructor
  · rintro ⟨h, hh, hopens⟩
    exact ⟨h, hh, (hhead h hh).symm.trans hopens⟩
  · rintro ⟨h, hh, hopens⟩
    exact ⟨h, hh, (hhead h hh).trans hopens⟩

/-- Of each kind the script inserts one line. -/
theorem filter_inserts {x : ProtoFile} (hdir : x.dir = .msgDir) {f : GenFile} {k : Kind}
    (hk : k ∈ kinds f) :
    ((inserts (editsOf (edits x) f)).filter fun i => k.isOf x.name i.2) =
      [(k.marker f, k.line f x.name)] := by
  have hone : ∀ k ∈ kinds f, ((kinds f).filter fun k' => decide (k' = k)) = [k] := by
    cases f <;> decide
  have hsame : ∀ k' ∈ kinds f, k.isOf x.name (k'.line f x.name) = decide (k' = k) :=
    fun k' hk' => isOf_line hk hk' x.name
  rw [inserts_edits hdir, List.filter_map]
  simp only [Function.comp_def]
  rw [List.filter_congr hsame, hone k hk, List.map_singleton]

/-! ### The files -/

/-- The line has the word in it, and no letter of an identifier next to it. -/
def Mentions (l w : Line) : Prop :=
  ∃ a b, l = a ++ (w ++ b) ∧ a.getLast?.any isIdentChar = false ∧ b.head?.any isIdentChar = false

/-- The line is a marker: a marker pattern of the file hits it. -/
def IsMarker (f : GenFile) (l : Line) : Prop := ∃ m ∈ markers f, breMatches m l = true

instance (f : GenFile) (l : Line) : Decidable (IsMarker f l) :=
  inferInstanceAs (Decidable (∃ m ∈ markers f, _))

/-- The files the generator is run on: each marker pattern hits one line; the name of the message is
in no marker line and has no marker pattern in it; the other lines do not mention the message or are
generated, for whatever proto files. -/
structure Ready (x : ProtoFile) (s : GenFile → List Line) : Prop where
  marker_once : ∀ f, ∀ m ∈ markers f, (s f).countP (breMatches m) = 1
  marker_free : ∀ f, ∀ l ∈ s f, IsMarker f l → ¬x.name <:+: l
  name_free : ∀ f, ∀ m ∈ markers f, ¬m <:+: x.name
  other : ∀ f, ∀ l ∈ s f, IsMarker f l ∨ ¬Mentions l x.name ∨ ∃ y, l ∈ linesOf y f

theorem name_infix_of_isOf {k : Kind} {x l : Line} (h : k.isOf x l = true) : x <:+: l := by
  obtain ⟨head, -, hpre⟩ := List.any_eq_true.mp h
  rw [List.isPrefixOf_iff_prefix] at hpre
  have hin : x <:+: head ++ (x ++ k.tail) := ⟨head, k.tail, List.append_assoc _ _ _⟩
  exact hin.trans hpre.isInfix

/-- A line that opens like the declaration of `get_type` mentions the message and is owned by it. -/
theorem mentions_of_isOf_getType {p : Part} {x l : Line} (hx : ∀ c ∈ x, isIdentChar c = true)
    (h : (Kind.getType p).isOf x l = true) : Mentions l x ∧ owner l = some x := by
  obtain ⟨head, hhead, hpre⟩ := List.any_eq_true.mp h
  rw [List.isPrefixOf_iff_prefix, List.mem_singleton.mp hhead] at hpre
  obtain ⟨rest, rfl⟩ := hpre
  simp only [Kind.tail, List.append_assoc]
  exact ⟨⟨_, _, rfl, by decide, rfl⟩, owner_name rfl rfl hx rfl⟩

/-- A generated line of the message is deleted, whatever file it was generated for. -/
theorem deleted_of_mem_linesOf {x y : ProtoFile} (hdir : x.dir = .msgDir) (hy : y.name = x.name)
    {l : Line} (hl : l ∈ linesOf y .protocolCpp) :
    deleted breMatches (editsOf (edits x) .protocolCpp) l = true := by
  cases hydir : y.dir with
  | msgDir =>
    rw [linesOf_eq hydir, hy] at hl
    obtain ⟨k, hk, rfl⟩ := List.mem_map.mp hl
    exact deleted_line hdir hk
  | _ =>
    simp only [linesOf, hydir, List.not_mem_nil] at hl

section Old

variable {x : ProtoFile} (hdir : x.dir = .msgDir) {s : GenFile → List Line} (h : Ready x s)
  {f : GenFile}
include hdir h

/-- **The old lines of a kind are deleted.** -/
theorem deleted_of_isOf {k : Kind} (hk : k ∈ kinds f) {l : Line} (hl : l ∈ s f)
    (hof : k.isOf x.name l = true) : deleted breMatches (editsOf (edits x) f) l = true := by
  have hin := name_infix_of_isOf hof
  cases f with
  | protocolH => exact deleted_of_target hdir (t := .name) (by decide) hin
  | protocolCpp =>
    have htarget := target_mem k hk
    rcases k with p | _ | ⟨w, p⟩ | p
    case getType =>
      obtain ⟨hmention, howner⟩ := mentions_of_isOf_getType x.name_ident hof
      rcases h.other .protocolCpp l hl with hm | hfixed | ⟨y, hy⟩
      · exact absurd hin (h.marker_free .protocolCpp l hl hm)
      · exact absurd hmention hfixed
      · rw [owner_of_mem_linesOf hy, Option.some.injEq] at howner
        exact deleted_of_mem_linesOf hdir howner hy
    case pbInclude => exact absurd hk (by decide)
    case func =>
      obtain ⟨head, hhead, hpre⟩ := List.any_eq_true.mp hof
      rw [List.isPrefixOf_iff_prefix, List.mem_singleton.mp hhead] at hpre
      have hname : funcName w x.name p <:+:
          w.before ++ w.text ++ (x.name ++ (Kind.func w p).tail) := by
        refine ⟨w.before, text "(", ?_⟩
        rw [funcName_eq]
        simp only [Kind.tail, List.append_assoc]
      exact deleted_of_target hdir htarget (hname.trans hpre.isInfix)
    case regist =>
      obtain ⟨head, hhead, hpre⟩ := List.any_eq_true.mp hof
      rw [List.isPrefixOf_iff_prefix, List.mem_singleton.mp hhead] at hpre
      have hcall : registPattern x.name p <:+:
          text "net::regist_msg_processer(get_type<" ++ (x.name ++ (Kind.regist p).tail) := by
        refine ⟨text "net::regist_msg_processer", text ">(", ?_⟩
        simp only [Kind.tail, registPattern, regist_text, List.append_assoc]
      exact deleted_of_target hdir htarget (hcall.trans hpre.isInfix)

/-- The markers stay. -/
theorem keepsMarked : KeepsMarked breMatches (editsOf (edits x) f) (s f) := by
  intro l hl i hi hhit
  rw [inserts_edits hdir] at hi
  obtain ⟨k, hk, rfl⟩ := List.mem_map.mp hi
  apply Bool.eq_false_iff.mpr
  intro hdel
  rw [deleted_editsOf, List.any_eq_true] at hdel
  obtain ⟨p, hp, hdel⟩ := hdel
  exact h.marker_free f l hl ⟨_, marker_mem hk, hhit⟩ (infix_of_deletion hp hdel)

end Old

/-! ### The property -/

/-- Each kind of line is there once for the message, as the generator writes it, and each marker
pattern hits one line. -/
structure Complete (x : ProtoFile) (s : GenFile → List Line) : Prop where
  once : ∀ f, ∀ k ∈ kinds f, (s f).filter (k.isOf x.name) = [k.line f x.name]
  marker_once : ∀ f, ∀ m ∈ markers f, (s f).countP (breMatches m) = 1

theorem genProtoCode_apply (x : ProtoFile) (s : GenFile → List Line) (f : GenFile) :
    genProtoCode [x] s f = editLines breMatches (editsOf (edits x) f) (s f) :=
  runScript_apply breMatches (edits x) s f

/-- **The generator is complete and idempotent for its message.**  Afterwards there is one line of each
kind, the markers are as they were, and another run leaves both files unchanged. -/
theorem complete_and_fixed {x : ProtoFile} (hdir : x.dir = .msgDir) {s : GenFile → List Line}
    (h : Ready x s) :
    Complete x (genProtoCode [x] s) ∧ genProtoCode [x] (genProtoCode [x] s) = genProtoCode [x] s := by
  have hregen : ∀ f, Regenerates breMatches (editsOf (edits x) f) :=
    fun f => regenerates_edits hdir (h.name_free f)
  refine ⟨⟨?_, ?_⟩, ?_⟩
  · intro f k hk
    rw [genProtoCode_apply]
    apply (hregen f).filter_kind (keepsMarked hdir h) ?_ (filter_inserts hdir hk)
    · exact h.marker_once f _ (marker_mem hk)
    · intro l hl hkeep
      apply Bool.eq_false_iff.mpr
      intro hof
      rw [deleted_of_isOf hdir h hk hl hof] at hkeep
      cases hkeep
  · intro f m hm
    obtain ⟨k, hk, rfl⟩ := exists_kind_of_marker hm
    have hi : (k.marker f, k.line f x.name) ∈ inserts (editsOf (edits x) f) := by
      rw [inserts_edits hdir]
      exact List.mem_map_of_mem hk
    rw [genProtoCode_apply, (hregen f).countP_marker (keepsMarked hdir h) hi]
    exact h.marker_once f _ hm
  · funext f
    rw [genProtoCode_apply, genProtoCode_apply, (hregen f).editLines_editLines (keepsMarked hdir h)]

/-- Files with the markers, a fixed line, a line of another message and one of `Shutdown`. -/
def partlyGenerated : GenFile → List Line
  | .protocolH => [text "#ifndef PROTOCOL_H", text "// include protocol h file",
      getTypeDecl registProto.name .req, text "// add get_type"]
  | .protocolCpp => [getTypeDef shutdownProto.name .res, text "// add_get_type", text "// new func",
      text "// delete func", text "// process func", text "// regist msg"]

theorem ready_partlyGenerated : Ready shutdownProto partlyGenerated where
  marker_once f := by cases f <;> decide +kernel
  marker_free f := by cases f <;> decide +kernel
  name_free f := by cases f <;> decide +kernel
  other f l hl := by
    have hfixed : ¬Mentions (text "#ifndef PROTOCOL_H") shutdownProto.name := by
      rintro ⟨a, b, heq, -, -⟩
      have hin : shutdownProto.name <:+: text "#ifndef PROTOCOL_H" :=
        ⟨a, b, (heq.trans (List.append_assoc _ _ _).symm).symm⟩
      revert hin
      decide
    cases f with
    | protocolH =>
      simp only [partlyGenerated, List.mem_cons, List.not_mem_nil, or_false] at hl
      rcases hl with rfl | rfl | rfl | rfl
      · exact .inr (.inl hfixed)
      · exact .inl (by decide +kernel)
      · exact .inr (.inr ⟨registProto, .head _⟩)
      · exact .inl (by decide +kernel)
    | protocolCpp =>
      rcases List.mem_cons.mp hl with rfl | hl
      · exact .inr (.inr ⟨shutdownProto, .tail _ (.head _)⟩)
      · left
        revert l
        decide +kernel

theorem complete_shutdown :
    Complete shutdownProto (genProtoCode [shutdownProto] partlyGenerated) ∧
      genProtoCode [shutdownProto] (genProtoCode [shutdownProto] partlyGenerated) =
        genProtoCode [shutdownProto] partlyGenerated :=
  complete_and_fixed rfl ready_partlyGenerated

end GoFight.Tools
