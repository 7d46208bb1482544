import GoFight.Tools.Regenerate

/-!
# The generator on all its files

With `-a`, or a pattern, `gen_proto_code` goes through a list of proto files of any directory, in
the order of the file system, and the commands for one of them see what those before it have
inserted.

* `kindsOf`, `lineOf` — the kinds of lines of a proto file, and the line of a kind;
* `Spoils` — a deletion for the one file hits a line of the other;
* `Generated` — the lines of a proto file are there, each kind once;
* `generated_iff_unspoiled` — they all are afterwards exactly when no file spoils one before it, and
  then another run changes nothing.

The order matters: the deletion of `Role.pb.h` hits the include of `GetRole`, but not when `Role`
comes first.
-/

namespace GoFight.Tools

open GoFight.Lib

/-! ### The lines of a proto file -/

/-- The kinds of lines the generator inserts for a proto file. -/
def kindsOf (x : ProtoFile) (f : GenFile) : List Kind :=
  match x.dir, f with
  | .msgDir, f => kinds f
  | _, .protocolH => [.pbInclude]
  | _, .protocolCpp => []

/-- The line of a kind. -/
def lineOf (x : ProtoFile) (f : GenFile) (k : Kind) : Line :=
  if k = .pbInclude then includeLine x.dir x.name else k.line f x.name

variable {x y : ProtoFile} {f : GenFile} {k k' : Kind}

theorem kindsOf_msg (hdir : x.dir = .msgDir) : kindsOf x f = kinds f := by
  rw [kindsOf.eq_def, hdir]

theorem lineOf_msg (hdir : x.dir = .msgDir) : lineOf x f k = k.line f x.name := by
  by_cases hk : k = .pbInclude
  · rw [lineOf, if_pos hk, hk, hdir]
    rfl
  · rw [lineOf, if_neg hk]

/-- A file that is no message has its include. -/
theorem kindsOf_other (hdir : x.dir ≠ .msgDir) (hk : k ∈ kindsOf x f) :
    f = .protocolH ∧ k = .pbInclude := by
  rw [kindsOf.eq_def] at hk
  cases hx : x.dir with
  | msgDir => exact absurd hx hdir
  | _ =>
    rw [hx] at hk
    cases f with
    | protocolH => exact ⟨rfl, List.mem_singleton.mp hk⟩
    | protocolCpp => cases hk

theorem edits_other (hdir : x.dir ≠ .msgDir) :
    edits x = [(.protocolH, .delete (pbPattern x.name)),
      (.protocolH, .insert (text "include protocol") (includeLine x.dir x.name))] := by
  rw [edits.eq_def]
  cases hx : x.dir with
  | msgDir => exact absurd hx hdir
  | _ => rfl

/-- What the commands for a proto file insert. -/
theorem inserts_of (x : ProtoFile) (f : GenFile) :
    inserts (editsOf (edits x) f) = (kindsOf x f).map fun k => (k.marker f, lineOf x f k) := by
  cases hdir : x.dir with
  | msgDir =>
    rw [inserts_edits hdir, kindsOf_msg hdir]
    simp only [lineOf_msg hdir]
  | _ =>
    rw [edits_other (by rw [hdir]; decide), kindsOf.eq_def, hdir]
    cases f with
    | protocolH => simp [lineOf, editsOf, inserts, Kind.marker, hdir]
    | protocolCpp => rfl

/-- The lines of a proto file are those of its kinds. -/
theorem linesOf_eq_map (x : ProtoFile) (f : GenFile) :
    linesOf x f = (kindsOf x f).map (lineOf x f) := by
  cases hdir : x.dir with
  | msgDir =>
    rw [linesOf_eq hdir, kindsOf_msg hdir]
    exact List.map_congr_left fun k _ => (lineOf_msg hdir).symm
  | _ =>
    rw [linesOf.eq_def, kindsOf.eq_def, hdir]
    cases f with
    | protocolH => simp [lineOf, hdir]
    | protocolCpp => rfl

/-- The include of a directory, as a template. -/
def includeSegs : ProtoDir → List (Seg Char)
  | .msgDir => [.lit (text "#include \"msg/"), .hole, .lit (text ".pb.h\"")]
  | .defDir => [.lit (text "#include \"def/"), .hole, .lit (text ".pb.h\"")]
  | .cfgDir => [.lit (text "#include \"cfg/"), .hole, .lit (text ".pb.h\"")]

theorem includeLine_eq_render (dir : ProtoDir) (w : Line) :
    includeLine dir w = render w (includeSegs dir) := by
  cases dir <;> simp only [includeLine, includeSegs, render, List.append_assoc, List.append_nil]

/-- **No marker occurs in a line**, if none occurs in the name. -/
theorem marker_avoids_line {m : Line} (hm : m ∈ markers f) (hname : ¬m <:+: x.name)
    (hk : k ∈ kindsOf x f) : breMatches m (lineOf x f k) = false := by
  by_cases hdir : x.dir = .msgDir
  · rw [kindsOf_msg hdir] at hk
    rw [lineOf_msg hdir]
    exact marker_avoids hm hname hk
  · obtain ⟨rfl, rfl⟩ := kindsOf_other hdir hk
    have hclear : ∀ dir, ∀ m ∈ markers .protocolH, clear m (includeSegs dir) = true := by
      intro dir
      cases dir <;> decide
    apply Bool.eq_false_iff.mpr
    intro hhit
    rw [breMatches_iff_mem (markers_no_dot m hm), lineOf, if_pos rfl, includeLine_eq_render] at hhit
    exact not_infix_render hname (hclear x.dir m hm) hhit

theorem pbPattern_in_include (dir : ProtoDir) (w : Line) : pbPattern w <:+: includeLine dir w := by
  cases dir <;> exact ⟨_, text "\"", by simp only [pbPattern, includeLine, List.append_assoc]; rfl⟩

theorem kindsOf_marker (hk : k ∈ kindsOf x f) : k.marker f ∈ markers f := by
  by_cases hdir : x.dir = .msgDir
  · rw [kindsOf_msg hdir] at hk
    exact marker_mem hk
  · obtain ⟨rfl, rfl⟩ := kindsOf_other hdir hk
    decide

/-- A deletion for a file that is no message: that of its include. -/
theorem deleted_of_pb (hdir : x.dir ≠ .msgDir) {l : Line} (hl : pbPattern x.name <:+: l) :
    deleted breMatches (editsOf (edits x) .protocolH) l = true := by
  rw [deleted_editsOf, edits_other hdir]
  simp [deletions, breMatches_of_infix hl]

/-- Every inserted line is deleted by another run. -/
theorem deleted_lineOf (hk : k ∈ kindsOf x f) :
    deleted breMatches (editsOf (edits x) f) (lineOf x f k) = true := by
  by_cases hdir : x.dir = .msgDir
  · rw [kindsOf_msg hdir] at hk
    rw [lineOf_msg hdir]
    exact deleted_line hdir hk
  · obtain ⟨rfl, rfl⟩ := kindsOf_other hdir hk
    rw [lineOf, if_pos rfl]
    exact deleted_of_pb hdir (pbPattern_in_include x.dir x.name)

/-- No command for the file hits a line that was inserted before it. -/
theorem settled_of (hname : ∀ m ∈ markers f, ¬m <:+: x.name) :
    Settled breMatches (editsOf (edits x) f) := by
  by_cases hdir : x.dir = .msgDir
  · exact settled_edits hdir hname
  · rw [edits_other hdir]
    cases f with
    | protocolH => simp [Settled, editsOf, Edit.text]
    | protocolCpp => exact .nil

/-! ### The lines of a kind -/

/-- A line that opens like one of a kind is owned by the name it is for. -/
theorem owner_of_isOf {w l : Line} (hw : ∀ c ∈ w, isIdentChar c = true)
    (h : k.isOf w l = true) : owner l = some w := by
  obtain ⟨head, hhead, hpre⟩ := List.any_eq_true.mp h
  rw [List.isPrefixOf_iff_prefix] at hpre
  obtain ⟨rest, rfl⟩ := hpre
  rcases k with p | _ | ⟨v, p⟩ | p
  · exact (mentions_of_isOf_getType hw h).2
  · simp only [Kind.heads, List.mem_cons, List.not_mem_nil, or_false] at hhead
    simp only [Kind.tail, List.append_assoc]
    rcases hhead with rfl | rfl | rfl <;> exact owner_name rfl rfl hw rfl
  · rw [List.mem_singleton.mp hhead]
    have hl : v.before ++ v.text ++ (w ++ (Kind.func v p).tail) ++ rest =
        v.before ++ v.text ++ (w ++ p.suffix ++ (text "(" ++ rest)) := by
      simp only [Kind.tail, List.append_assoc]
    rw [hl]
    cases v <;> exact owner_function rfl rfl hw rfl
  · rw [List.mem_singleton.mp hhead]
    simp only [Kind.tail, List.append_assoc]
    exact owner_name rfl rfl hw rfl

/-- A line of another file is not of the kind. -/
theorem not_isOf_line (hne : y.name ≠ x.name) (hk : k' ∈ kindsOf y f) :
    k.isOf x.name (lineOf y f k') = false := by
  apply Bool.eq_false_iff.mpr
  intro hof
  have hmem : lineOf y f k' ∈ linesOf y f := linesOf_eq_map y f ▸ List.mem_map_of_mem hk
  have howner := owner_of_isOf x.name_ident hof
  rw [owner_of_mem_linesOf hmem, Option.some.injEq] at howner
  exact hne howner

/-- Of each of its kinds the commands for a file insert one line. -/
theorem filter_inserts_of (hk : k ∈ kindsOf x f) :
    ((inserts (editsOf (edits x) f)).filter fun i => k.isOf x.name i.2) =
      [(k.marker f, lineOf x f k)] := by
  by_cases hdir : x.dir = .msgDir
  · rw [kindsOf_msg hdir] at hk
    rw [filter_inserts hdir hk, lineOf_msg hdir]
  · obtain ⟨rfl, rfl⟩ := kindsOf_other hdir hk
    have hof : Kind.pbInclude.isOf x.name (includeLine x.dir x.name) = true := by
      apply List.any_eq_true.mpr
      cases x.dir
      · exact ⟨text "#include \"msg/", .head _, List.isPrefixOf_iff_prefix.mpr
          (by rw [includeLine, List.append_assoc]; exact List.prefix_rfl)⟩
      · exact ⟨text "#include \"def/", .tail _ (.head _), List.isPrefixOf_iff_prefix.mpr
          (by rw [includeLine, List.append_assoc]; exact List.prefix_rfl)⟩
      · exact ⟨text "#include \"cfg/", .tail _ (.tail _ (.head _)), List.isPrefixOf_iff_prefix.mpr
          (by rw [includeLine, List.append_assoc]; exact List.prefix_rfl)⟩
    rw [edits_other hdir]
    simp [editsOf, inserts, hof, lineOf, Kind.marker]

/-- **The old lines of a kind are deleted.** -/
theorem deleted_of_isOf_kind {s : GenFile → List Line} (h : Ready x s) (hk : k ∈ kindsOf x f)
    {l : Line} (hl : l ∈ s f) (hof : k.isOf x.name l = true) :
    deleted breMatches (editsOf (edits x) f) l = true := by
  by_cases hdir : x.dir = .msgDir
  · rw [kindsOf_msg hdir] at hk
    exact deleted_of_isOf hdir h hk hl hof
  · obtain ⟨rfl, rfl⟩ := kindsOf_other hdir hk
    obtain ⟨head, -, hpre⟩ := List.any_eq_true.mp hof
    rw [List.isPrefixOf_iff_prefix] at hpre
    have hin : pbPattern x.name <:+: head ++ (x.name ++ Kind.pbInclude.tail) := by
      refine ⟨head, text "\"", ?_⟩
      simp only [pbPattern, List.append_assoc]
      rfl
    exact deleted_of_pb hdir (hin.trans hpre.isInfix)

/-- The lines that a marker hits stay. -/
theorem not_deleted_of_marked {s : GenFile → List Line} (h : Ready x s) {l m : Line} (hl : l ∈ s f)
    (hm : m ∈ markers f) (hhit : breMatches m l = true) :
    deleted breMatches (editsOf (edits x) f) l = false := by
  apply Bool.eq_false_iff.mpr
  intro hdel
  rw [deleted_editsOf, List.any_eq_true] at hdel
  obtain ⟨p, hp, hdel⟩ := hdel
  exact h.marker_free f l hl ⟨m, hm, hhit⟩ (infix_of_deletion hp hdel)

/-! ### The whole list -/

/-- A deletion for `y` hits a line of `x`. -/
def Spoils (y x : ProtoFile) : Prop :=
  ∃ f, ∃ t ∈ linesOf x f, ∃ p ∈ deletions (edits y) f, breMatches p t = true

theorem spoils_iff : Spoils y x ↔
    (∃ t ∈ linesOf x .protocolH, ∃ p ∈ deletions (edits y) .protocolH, breMatches p t = true) ∨
      ∃ t ∈ linesOf x .protocolCpp, ∃ p ∈ deletions (edits y) .protocolCpp,
        breMatches p t = true := by
  constructor
  · rintro ⟨f, h⟩
    cases f with
    | protocolH => exact .inl h
    | protocolCpp => exact .inr h
  · rintro (h | h)
    · exact ⟨.protocolH, h⟩
    · exact ⟨.protocolCpp, h⟩

instance (y x : ProtoFile) : Decidable (Spoils y x) := decidable_of_iff' _ spoils_iff

/-- Lines without its name are safe from a file. -/
theorem not_spoils_of_not_infix
    (h : ∀ t ∈ linesOf x .protocolH ++ linesOf x .protocolCpp, ¬y.name <:+: t) : ¬Spoils y x := by
  rintro ⟨f, t, ht, p, hp, hit⟩
  refine h t ?_ (infix_of_deletion hp hit)
  cases f with
  | protocolH => exact List.mem_append_left _ ht
  | protocolCpp => exact List.mem_append_right _ ht

/-- Each kind of line is there once for the file, as the generator writes it, at a marker that is
still there once. -/
structure Generated (x : ProtoFile) (s : GenFile → List Line) : Prop where
  once : ∀ f, ∀ k ∈ kindsOf x f, (s f).filter (k.isOf x.name) = [lineOf x f k]
  marker_once : ∀ f, ∀ k ∈ kindsOf x f, (s f).countP (breMatches (k.marker f)) = 1

section All

variable {files : List ProtoFile} {s : GenFile → List Line}

/-- The commands for the files on one of the two files. -/
theorem editsOf_flatMap (files : List ProtoFile) (f : GenFile) :
    editsOf (files.flatMap edits) f = files.flatMap fun x => editsOf (edits x) f := by
  induction files with
  | nil => rfl
  | cons x files ih =>
    rw [List.flatMap_cons, List.flatMap_cons, ← ih]
    exact List.filterMap_append

theorem inserts_flatMap (files : List ProtoFile) (f : GenFile) :
    inserts (files.flatMap fun x => editsOf (edits x) f) =
      files.flatMap fun x => (kindsOf x f).map fun k => (k.marker f, lineOf x f k) := by
  induction files with
  | nil => rfl
  | cons x files ih =>
    rw [List.flatMap_cons, List.flatMap_cons, ← ih, ← inserts_of]
    exact List.filterMap_append

theorem mem_inserts {files : List ProtoFile} {i : Line × Line}
    (hi : i ∈ inserts (files.flatMap fun x => editsOf (edits x) f)) :
    ∃ x ∈ files, ∃ k ∈ kindsOf x f, (k.marker f, lineOf x f k) = i := by
  rw [inserts_flatMap] at hi
  obtain ⟨x, hx, hi⟩ := List.mem_flatMap.mp hi
  exact ⟨x, hx, List.mem_map.mp hi⟩

/-- What one file's commands delete is deleted. -/
theorem deleted_flatMap (hx : x ∈ files) {l : Line}
    (h : deleted breMatches (editsOf (edits x) f) l = true) :
    deleted breMatches (files.flatMap fun x => editsOf (edits x) f) l = true := by
  obtain ⟨e, he, hdel⟩ := List.any_eq_true.mp h
  exact List.any_eq_true.mpr ⟨e, List.mem_flatMap.mpr ⟨x, hx, he⟩, hdel⟩

theorem genProtoCode_all (files : List ProtoFile) (s : GenFile → List Line) (f : GenFile) :
    genProtoCode files s f =
      editLines breMatches (files.flatMap fun x => editsOf (edits x) f) (s f) := by
  rw [genProtoCode_eq, runScript_apply, editsOf_flatMap]

/-- Of each kind of a file the whole run inserts one line, if the names differ. -/
theorem filter_inserts_all (hnames : (files.map ProtoFile.name).Nodup) (hx : x ∈ files)
    (hk : k ∈ kindsOf x f) :
    ((inserts (files.flatMap fun x => editsOf (edits x) f)).filter fun i => k.isOf x.name i.2) =
      [(k.marker f, lineOf x f k)] := by
  have hnone : ∀ y, y.name ≠ x.name →
      (((kindsOf y f).map fun k' => (k'.marker f, lineOf y f k')).filter
        fun i => k.isOf x.name i.2) = [] := by
    intro y hne
    rw [List.filter_eq_nil_iff]
    intro i hi
    obtain ⟨k', hk', rfl⟩ := List.mem_map.mp hi
    rw [not_isOf_line hne hk']
    simp
  have hone := filter_inserts_of hk
  rw [inserts_of] at hone
  rw [inserts_flatMap, List.filter_flatMap]
  induction files with
  | nil => cases hx
  | cons y files ih =>
    rw [List.map_cons, List.nodup_cons] at hnames
    rw [List.flatMap_cons]
    rcases List.mem_cons.mp hx with rfl | hx
    · have hrest : (files.flatMap fun y =>
          ((kindsOf y f).map fun k' => (k'.marker f, lineOf y f k')).filter
            fun i => k.isOf x.name i.2) = [] := by
        rw [List.flatMap_eq_nil_iff]
        intro y hy
        apply hnone y
        intro heq
        exact hnames.1 (heq ▸ List.mem_map_of_mem hy)
      rw [hone, hrest, List.append_nil]
    · have hne : y.name ≠ x.name := by
        intro heq
        exact hnames.1 (heq ▸ List.mem_map_of_mem hx)
      rw [hnone y hne, List.nil_append]
      exact ih hnames.2 hx

theorem lineOf_mem (hk : k ∈ kindsOf x f) : lineOf x f k ∈ linesOf x f := by
  rw [linesOf_eq_map]
  exact List.mem_map_of_mem hk

/-- A line that a command for the file inserts is of one of its kinds. -/
theorem exists_line_of_text {e : Edit Line Line} (he : e ∈ editsOf (edits x) f) {t : Line}
    (ht : t ∈ e.text) : ∃ k ∈ kindsOf x f, lineOf x f k = t := by
  cases e with
  | delete p => cases ht
  | insert m t' =>
    obtain rfl : t' = t := Option.some.inj ht
    have hi : (m, t') ∈ inserts (editsOf (edits x) f) := List.mem_filterMap.mpr ⟨_, he, rfl⟩
    rw [inserts_of] at hi
    obtain ⟨k, hk, heq⟩ := List.mem_map.mp hi
    exact ⟨k, hk, (Prod.mk.inj heq).2⟩

/-- **Unspoiled lines stay**: the commands for all files are settled when no file spoils one before
it. -/
theorem settled_all (hfree : ∀ x ∈ files, ∀ m ∈ markers f, ¬m <:+: x.name)
    (hclean : files.Pairwise fun x y => ¬Spoils y x) :
    Settled breMatches (files.flatMap fun x => editsOf (edits x) f) := by
  rw [Settled, List.pairwise_flatMap]
  refine ⟨fun x hx => settled_of (hfree x hx), ?_⟩
  apply hclean.imp_of_mem
  intro x y hx hy hspoils e he e' he' t ht
  obtain ⟨k, hk, rfl⟩ := exists_line_of_text he ht
  cases e' with
  | delete p =>
    apply Bool.eq_false_iff.mpr
    intro hhit
    have hdel : deleted breMatches (editsOf (edits y) f) (lineOf x f k) = true :=
      List.any_eq_true.mpr ⟨_, he', hhit⟩
    rw [deleted_editsOf, List.any_eq_true] at hdel
    exact hspoils ⟨f, _, lineOf_mem hk, hdel⟩
  | insert m t' =>
    have hi : (m, t') ∈ inserts (editsOf (edits y) f) := List.mem_filterMap.mpr ⟨_, he', rfl⟩
    rw [inserts_of] at hi
    obtain ⟨k', hk', heq⟩ := List.mem_map.mp hi
    have hm : m ∈ markers f := by
      rw [← (Prod.mk.inj heq).1]
      exact kindsOf_marker hk'
    exact marker_avoids_line hm (hfree x hx m hm) hk

/-- **The commands for all files regenerate their lines**, when no file spoils one before it. -/
theorem regenerates_all (hfree : ∀ x ∈ files, ∀ m ∈ markers f, ¬m <:+: x.name)
    (hclean : files.Pairwise fun x y => ¬Spoils y x) :
    Regenerates breMatches (files.flatMap fun x => editsOf (edits x) f) := by
  refine ⟨settled_all hfree hclean, ?_, ?_⟩
  · intro i hi j hj
    obtain ⟨x, -, k, hk, rfl⟩ := mem_inserts hi
    obtain ⟨y, hy, k', hk', rfl⟩ := mem_inserts hj
    exact marker_avoids_line (kindsOf_marker hk) (hfree y hy _ (kindsOf_marker hk)) hk'
  · intro i hi
    obtain ⟨x, hx, k, hk, rfl⟩ := mem_inserts hi
    exact deleted_flatMap hx (deleted_lineOf hk)

theorem keepsMarked_all (h : ∀ x ∈ files, Ready x s) :
    KeepsMarked breMatches (files.flatMap fun x => editsOf (edits x) f) (s f) := by
  intro l hl i hi hhit
  obtain ⟨x, -, k, hk, rfl⟩ := mem_inserts hi
  apply Bool.eq_false_iff.mpr
  intro hdel
  obtain ⟨e, he, hdel⟩ := List.any_eq_true.mp hdel
  obtain ⟨y, hy, he⟩ := List.mem_flatMap.mp he
  have hno := not_deleted_of_marked (x := y) (h y hy) hl (kindsOf_marker hk) hhit
  rw [deleted, List.any_eq_true.mpr ⟨e, he, hdel⟩] at hno
  cases hno

theorem generated_of_unspoiled (hnames : (files.map ProtoFile.name).Nodup)
    (h : ∀ x ∈ files, Ready x s) (hclean : files.Pairwise fun x y => ¬Spoils y x) (hx : x ∈ files) :
    Generated x (genProtoCode files s) := by
  have hregen : ∀ f, Regenerates breMatches (files.flatMap fun x => editsOf (edits x) f) :=
    fun f => regenerates_all (fun y hy => (h y hy).name_free f) hclean
  have honce : ∀ f, ∀ k ∈ kindsOf x f, (s f).countP (breMatches (k.marker f)) = 1 :=
    fun f k hk => (h x hx).marker_once f _ (kindsOf_marker hk)
  refine ⟨?_, ?_⟩
  · intro f k hk
    rw [genProtoCode_all]
    apply (hregen f).filter_kind (keepsMarked_all h) ?_ (filter_inserts_all hnames hx hk)
      (honce f k hk)
    intro l hl hkeep
    apply Bool.eq_false_iff.mpr
    intro hof
    rw [deleted_flatMap hx (deleted_of_isOf_kind (h x hx) hk hl hof)] at hkeep
    cases hkeep
  · intro f k hk
    have hi : (k.marker f, lineOf x f k) ∈
        inserts (files.flatMap fun x => editsOf (edits x) f) := by
      rw [inserts_flatMap]
      exact List.mem_flatMap.mpr ⟨x, hx, List.mem_map_of_mem hk⟩
    rw [genProtoCode_all, (hregen f).countP_marker (keepsMarked_all h) hi]
    exact honce f k hk

/-- **A spoiled file is not whole.**  The deletion comes after its lines, and nothing puts them
back. -/
theorem not_spoils_of_generated (hnames : (files.map ProtoFile.name).Nodup)
    (hgen : ∀ x ∈ files, Generated x (genProtoCode files s)) :
    files.Pairwise fun x y => ¬Spoils y x := by
  rw [List.pairwise_iff_forall_sublist]
  intro x y hsub hspoils
  obtain ⟨pre, post, rfl, hx, hy⟩ := List.cons_sublist_iff.mp hsub
  rw [List.singleton_sublist] at hy
  obtain ⟨f, t, ht, p, hp, hhit⟩ := hspoils
  rw [linesOf_eq_map] at ht
  obtain ⟨k, hk, rfl⟩ := List.mem_map.mp ht
  -- nothing in the rest of the run is of the kind
  have hins : ∀ t ∈ insertions (post.flatMap edits) f, k.isOf x.name t = false := by
    intro t ht
    rw [insertions_flatMap] at ht
    obtain ⟨z, hz, ht⟩ := List.mem_flatMap.mp ht
    rw [linesOf_eq_map] at ht
    obtain ⟨k', hk', rfl⟩ := List.mem_map.mp ht
    apply not_isOf_line _ hk'
    intro heq
    rw [List.map_append, List.nodup_append] at hnames
    exact hnames.2.2 _ (List.mem_map_of_mem hx) _ (List.mem_map_of_mem hz) heq.symm
  have honce := (hgen x (List.mem_append_left _ hx)).once f k hk
  rw [genProtoCode, List.foldl_append, ← genProtoCode, ← genProtoCode, genProtoCode_eq post,
    filter_runScript breMatches hins] at honce
  have hmem : lineOf x f k ∈ [lineOf x f k] := List.mem_singleton_self _
  rw [← honce, List.mem_filter, List.all_eq_true] at hmem
  have hno := hmem.2 p (by
    rw [deletions_flatMap]
    exact List.mem_flatMap.mpr ⟨y, hy, hp⟩)
  rw [hhit] at hno
  cases hno

/-- **The generator on all its files.**  Every file's lines are there afterwards, each kind once,
exactly when no file spoils one that comes before it, and then another run changes nothing. -/
theorem generated_iff_unspoiled (hnames : (files.map ProtoFile.name).Nodup)
    (h : ∀ x ∈ files, Ready x s) :
    ((∀ x ∈ files, Generated x (genProtoCode files s)) ↔
        files.Pairwise fun x y => ¬Spoils y x) ∧
      ((files.Pairwise fun x y => ¬Spoils y x) →
        genProtoCode files (genProtoCode files s) = genProtoCode files s) := by
  refine ⟨⟨not_spoils_of_generated hnames, ?_⟩, ?_⟩
  · intro hclean x hx
    exact generated_of_unspoiled hnames h hclean hx
  · intro hclean
    funext f
    have hregen := regenerates_all (f := f) (fun y hy => (h y hy).name_free f) hclean
    rw [genProtoCode_all, genProtoCode_all, hregen.editLines_editLines (keepsMarked_all h)]

end All

/-- Files with the markers, the include of one message and a registration of another. -/
def staleFiles : GenFile → List Line
  | .protocolH => [includeLine .msgDir getRoleProto.name, text "// include protocol h file",
      text "// add get_type"]
  | .protocolCpp => [text "// add_get_type", text "// new func", text "// delete func",
      text "// process func", registLine shutdownProto.name .res, text "// regist msg"]

theorem ready_staleFiles {x : ProtoFile}
    (hmarker : ∀ f, ∀ l ∈ staleFiles f, IsMarker f l → ¬x.name <:+: l)
    (hname : ∀ f, ∀ m ∈ markers f, ¬m <:+: x.name) : Ready x staleFiles where
  marker_once f := by cases f <;> decide +kernel
  marker_free := hmarker
  name_free := hname
  other f l hl := by
    cases f with
    | protocolH =>
      rcases List.mem_cons.mp hl with rfl | hl
      · exact .inr (.inr ⟨getRoleProto, by decide +kernel⟩)
      · left
        revert l
        decide +kernel
    | protocolCpp =>
      by_cases heq : l = registLine shutdownProto.name .res
      · subst heq
        exact .inr (.inr ⟨shutdownProto, by decide +kernel⟩)
      · left
        revert l
        decide +kernel

/-- The repository's files, a definition in front of the messages that contain its name. -/
theorem generated_protoFiles :
    (∀ x ∈ [roleProto, getRoleProto, registProto, shutdownProto],
      Generated x (genProtoCode [roleProto, getRoleProto, registProto, shutdownProto] staleFiles)) ∧
    genProtoCode [roleProto, getRoleProto, registProto, shutdownProto]
        (genProtoCode [roleProto, getRoleProto, registProto, shutdownProto] staleFiles) =
      genProtoCode [roleProto, getRoleProto, registProto, shutdownProto] staleFiles := by
  have hready : ∀ x ∈ [roleProto, getRoleProto, registProto, shutdownProto],
      Ready x staleFiles := by
    intro x hx
    simp only [List.mem_cons, List.not_mem_nil, or_false] at hx
    rcases hx with rfl | rfl | rfl | rfl <;> apply ready_staleFiles <;> intro f <;> cases f <;>
      decide +kernel
  have hboth := generated_iff_unspoiled (by decide) hready
  have hnames : [roleProto, getRoleProto, registProto, shutdownProto].Pairwise
      fun x y => ∀ t ∈ linesOf x .protocolH ++ linesOf x .protocolCpp, ¬y.name <:+: t := by
    decide +kernel
  have hclean : [roleProto, getRoleProto, registProto, shutdownProto].Pairwise
      fun x y => ¬Spoils y x := hnames.imp not_spoils_of_not_infix
  exact ⟨hboth.1.mpr hclean, hboth.2 hclean⟩

end GoFight.Tools
