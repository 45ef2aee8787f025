import Mathlib.Data.List.Nodup
import StackCode.Proofs.Woven

/-!
# Where statements stand

A statement of a body stands inside others, and some of their constructs protect
it.  Both can be read off the source alone.  The map of parents that jumps use
knows the same: the statements that it finds around a statement are those that
have it inside.

While a body is lowered, the frames of the constructs around the current point
follow the statements around it from the inside out.  This holds in copies of
finally bodies as well, since those are lowered among the frames around the
statement to which they belong.
-/

namespace StackCode

/-! ## Statements inside statements -/

namespace Stmt

/-- A statement and all statements inside it, in the order of the source. -/
def statements (stmt : Stmt) : List Stmt := stmt.outline.filterMap Visit.entered?

theorem statements_eq_filterMap (stmt : Stmt) :
    stmt.statements = (stmt.visits false).filterMap Visit.entered? := by
  rw [statements, outline, List.filterMap_filter]
  refine List.filterMap_congr fun visit _ => ?_
  cases visit <;> rfl

theorem filterMap_entered_listOutline (stmts : List Stmt) :
    (listOutline stmts).filterMap Visit.entered? = stmts.flatMap statements := by
  induction stmts with
  | nil => rfl
  | cons stmt stmts ih =>
    rw [listOutline_cons, List.filterMap_append, ih, List.flatMap_cons]
    rfl

/-- A statement comes before those inside it. -/
theorem statements_eq (stmt : Stmt) :
    stmt.statements = stmt :: stmt.children.flatMap statements := by
  rw [← filterMap_entered_listOutline, statements, outline_eq]
  simp [Visit.entered?, List.filterMap_cons]

theorem mem_statements_self (stmt : Stmt) : stmt ∈ stmt.statements := by
  rw [statements_eq]
  exact List.mem_cons_self

theorem mem_statements_iff {stmt inner : Stmt} :
    inner ∈ stmt.statements ↔ inner = stmt ∨ ∃ child ∈ stmt.children, inner ∈ child.statements := by
  rw [statements_eq, List.mem_cons, List.mem_flatMap]

/-- What is inside a statement is inside the statements around it. -/
theorem mem_statements_trans {first second third : Stmt}
    (outside : second ∈ first.statements) (inside : third ∈ second.statements) :
    third ∈ first.statements := by
  induction first using induction_on_children with
  | inductionStep first ih =>
    obtain rfl | ⟨child, member, found⟩ := mem_statements_iff.mp outside
    · exact inside
    · exact mem_statements_iff.mpr (.inr ⟨child, member, ih child member found⟩)

theorem mem_statements_of_mem_children {stmt child : Stmt} (member : child ∈ stmt.children) :
    child ∈ stmt.statements :=
  mem_statements_iff.mpr (.inr ⟨child, member, mem_statements_self child⟩)

/-- The identifiers in a statement are those of the statements inside it. -/
theorem map_id_statements (stmt : Stmt) : stmt.statements.map Stmt.id = stmt.ids := by
  induction stmt using induction_on_children with
  | inductionStep stmt ih =>
    rw [statements_eq, ids_eq, List.map_cons, List.map_flatMap, listIds]
    exact congrArg (List.cons stmt.id) (List.flatMap_congr ih)

theorem mem_ids_iff {stmt : Stmt} {id : StmtId} :
    id ∈ stmt.ids ↔ ∃ inner ∈ stmt.statements, inner.id = id := by
  rw [← map_id_statements, List.mem_map]

/-- Statements of one body with the same identifier are the same. -/
theorem eq_of_id_eq {body first second : Stmt} (distinct : body.ids.Nodup)
    (firstMember : first ∈ body.statements) (secondMember : second ∈ body.statements)
    (same : first.id = second.id) : first = second := by
  rw [← map_id_statements] at distinct
  exact List.inj_on_of_nodup_map distinct firstMember secondMember same

/-- Inside a body, the first statement is the second one or has it inside. -/
def encloses (body : Stmt) (outer inner : StmtId) : Bool :=
  body.statements.any fun stmt => stmt.id == outer && stmt.ids.contains inner

theorem encloses_iff {body : Stmt} {outer inner : StmtId} :
    body.encloses outer inner ↔ ∃ stmt ∈ body.statements, stmt.id = outer ∧ inner ∈ stmt.ids := by
  simp [encloses]

/-! ## Places -/

/--
A statement lies in a body.  The statements around it and the constructs that
protect it are listed from the inside out.
-/
inductive Lies (body : Stmt) : Stmt → List StmtId → List Construct → Prop where
  /-- Nothing is around the body itself. -/
  | whole : Lies body body [] []
  /-- A part of a statement is inside it and protected by some of its constructs. -/
  | part {stmt part : Stmt} {outer : List StmtId} {around protects : List Construct}
      (outside : Lies body stmt outer around)
      (member : (part, protects) ∈ stmt.parts) :
      Lies body part (stmt.id :: outer) (protects ++ around)

namespace Lies

variable {body stmt other : Stmt} {outer otherOuter : List StmtId}
variable {around otherAround : List Construct}

theorem mem_statements (lies : body.Lies stmt outer around) : stmt ∈ body.statements := by
  induction lies with
  | whole => exact mem_statements_self body
  | part _ member ih =>
    have child := mem_children_of_mem_parts member
    exact mem_statements_trans ih (mem_statements_of_mem_children child)

/-- A statement around another one has it inside. -/
theorem exists_of_mem (lies : body.Lies stmt outer around) {id : StmtId} (member : id ∈ outer) :
    ∃ found ∈ body.statements, found.id = id ∧ stmt ∈ found.statements := by
  induction lies with
  | whole => contradiction
  | part outside part ih =>
    have child := mem_statements_of_mem_children (mem_children_of_mem_parts part)
    obtain rfl | member := List.mem_cons.mp member
    · exact ⟨_, outside.mem_statements, rfl, child⟩
    · obtain ⟨found, inBody, same, inside⟩ := ih member
      exact ⟨found, inBody, same, mem_statements_trans inside child⟩

/-- A statement inside another one lies in the body too, further inside. -/
theorem descend (lies : body.Lies stmt outer around) {inner : Stmt}
    (inside : inner ∈ stmt.statements) :
    ∃ between innerAround, body.Lies inner (between ++ outer) innerAround ∧
      (inner = stmt ∨ stmt.id ∈ between) := by
  induction stmt using induction_on_children generalizing outer around with
  | inductionStep stmt ih =>
    obtain rfl | ⟨child, member, found⟩ := mem_statements_iff.mp inside
    · exact ⟨[], around, lies, .inl rfl⟩
    · rw [← map_fst_parts] at member
      obtain ⟨⟨part, protects⟩, partMember, rfl⟩ := List.mem_map.mp member
      obtain ⟨between, innerAround, innerLies, -⟩ :=
        ih part (mem_children_of_mem_parts partMember) (.part lies partMember) found
      rw [List.append_cons] at innerLies
      exact ⟨between ++ [stmt.id], innerAround, innerLies, .inr (by simp)⟩

/-- Every statement inside a body lies in it. -/
theorem exists_of_mem_statements (member : stmt ∈ body.statements) :
    ∃ outer around, body.Lies stmt outer around := by
  obtain ⟨between, around, lies, -⟩ := descend .whole member
  exact ⟨_, around, lies⟩

/-- The path to a statement, and what is inside it, are in the order of the source. -/
theorem sublist_ids (lies : body.Lies stmt outer around) :
    (outer.reverse ++ stmt.ids).Sublist body.ids := by
  induction lies with
  | whole => exact .refl _
  | @part stmt part outer _ _ outside member ih =>
    refine List.Sublist.trans ?_ ih
    have child := mem_children_of_mem_parts member
    rw [List.reverse_cons, List.append_assoc, ids_eq stmt]
    refine List.Sublist.append_left (.cons_cons _ ?_) _
    obtain ⟨first, second, split⟩ := List.append_of_mem child
    rw [split, listIds_append, listIds_cons]
    exact (List.sublist_append_left _ _).trans (List.sublist_append_right _ _)

/-- No statement is around itself. -/
theorem nodup (lies : body.Lies stmt outer around) (distinct : body.ids.Nodup) :
    (stmt.id :: outer).Nodup := by
  have path := distinct.sublist lies.sublist_ids
  have ends : (outer.reverse ++ [stmt.id]).Nodup := by
    refine path.sublist (List.Sublist.append_left ?_ _)
    rw [ids_eq]
    exact List.singleton_sublist.mpr List.mem_cons_self
  rw [← List.reverse_cons] at ends
  exact List.nodup_reverse.mp ends

end Lies

end Stmt

/-! ## The map of parents -/

namespace ParentMap

/-- Every statement inside the given one is mapped to the statement around it. -/
structure Links (stmt : Stmt) (links : ParentMap) : Prop where
  /-- The statements inside are mapped, the last one first. -/
  keys : links.map Prod.fst = (Stmt.listIds stmt.children).reverse
  /-- Each one is mapped to the statement that it is directly inside. -/
  mem : ∀ inner ∈ stmt.statements, ∀ child ∈ inner.children, (child.id, inner.id) ∈ links

/-- What reading a statement leads to, for each of the given ones, it also leads to in sequence. -/
theorem foldl_step_list
    {stmts : List Stmt}
    (each : ∀ stmt ∈ stmts, ∀ opened map, ∃ links, Links stmt links ∧
      stmt.outline.foldl step (opened, map) =
        (opened, links ++ ((opened.take 1).map fun parent => (stmt.id, parent)) ++ map))
    (parent : StmtId) (opened : List StmtId) (map : ParentMap) :
    ∃ links,
      (Stmt.listOutline stmts).foldl step (parent :: opened, map) =
        (parent :: opened, links ++ map) ∧
      links.map Prod.fst = (Stmt.listIds stmts).reverse ∧
      ∀ stmt ∈ stmts, (stmt.id, parent) ∈ links ∧
        ∀ inner ∈ stmt.statements, ∀ child ∈ inner.children, (child.id, inner.id) ∈ links := by
  induction stmts generalizing map with
  | nil => exact ⟨[], rfl, rfl, nofun⟩
  | cons stmt stmts ih =>
    obtain ⟨links, linked, folded⟩ := each stmt List.mem_cons_self (parent :: opened) map
    obtain ⟨others, othersFolded, othersKeys, othersMem⟩ :=
      ih (fun other member => each other (List.mem_cons_of_mem _ member))
        (links ++ [(stmt.id, parent)] ++ map)
    refine ⟨others ++ (links ++ [(stmt.id, parent)]), ?_, ?_, ?_⟩
    · rw [Stmt.listOutline_cons, List.foldl_append, folded]
      refine othersFolded.trans ?_
      simp
    · simp [othersKeys, linked.keys, Stmt.ids_eq stmt]
    · intro other member
      obtain rfl | member := List.mem_cons.mp member
      · refine ⟨by simp, fun inner found child childMember => ?_⟩
        have link := linked.mem inner found child childMember
        simp [link]
      · obtain ⟨direct, inside⟩ := othersMem other member
        refine ⟨List.mem_append_left _ direct, fun inner found child childMember => ?_⟩
        exact List.mem_append_left _ (inside inner found child childMember)

/-- Reading a statement maps every statement inside it to the one around it. -/
theorem foldl_step_outline (stmt : Stmt) (opened : List StmtId) (map : ParentMap) :
    ∃ links, Links stmt links ∧
      stmt.outline.foldl step (opened, map) =
        (opened, links ++ ((opened.take 1).map fun parent => (stmt.id, parent)) ++ map) := by
  induction stmt using Stmt.induction_on_children generalizing opened map with
  | inductionStep stmt ih =>
    obtain ⟨links, folded, keys, mem⟩ :=
      foldl_step_list ih stmt.id opened
        ((opened.take 1).map (fun parent => (stmt.id, parent)) ++ map)
    refine ⟨links, ⟨keys, ?_⟩, ?_⟩
    · intro inner found child member
      obtain rfl | ⟨part, partMember, found⟩ := Stmt.mem_statements_iff.mp found
      · exact (mem child member).1
      · exact (mem part partMember).2 inner found child member
    · rw [Stmt.outline_eq, List.cons_append, List.foldl_cons, List.foldl_append]
      simp only [step]
      rw [folded]
      simp [step]

theorem links_ofBody (body : Stmt) : Links body (ofBody body) := by
  obtain ⟨links, linked, folded⟩ := foldl_step_outline body [] []
  have map : ofBody body = links := by
    rw [ofBody, ← body.foldl_outline, folded]
    · simp
    · intro state visit other
      cases visit <;> first | rfl | contradiction
  exact map ▸ linked

section Body

variable {body stmt target : Stmt} {outer : List StmtId} {around : List Construct}

/-- The map of parents has the statement directly around each statement. -/
theorem lookup_ofBody (distinct : body.ids.Nodup) (lies : body.Lies stmt outer around) :
    (ofBody body).lookup stmt.id = outer.head? := by
  have linked := links_ofBody body
  rw [Stmt.ids_eq, List.nodup_cons] at distinct
  cases lies with
  | whole =>
    refine lookup_eq_none ?_
    rw [linked.keys, List.mem_reverse]
    exact distinct.1
  | part outside member =>
    refine lookup_of_mem ?_ ?_
    · rw [linked.keys]
      exact List.nodup_reverse.mpr distinct.2
    · exact linked.mem _ outside.mem_statements _ (Stmt.mem_children_of_mem_parts member)

/-- Following the parents of a statement finds the statements around it. -/
theorem climb_ofBody
    (distinct : body.ids.Nodup)
    (lies : body.Lies stmt outer around)
    {steps : Nat}
    (enough : outer.length < steps)
    {seen : List StmtId}
    (apart : ∀ id ∈ stmt.id :: outer, id ∉ seen) :
    (ofBody body).climb steps stmt.id seen = (stmt.id :: outer).reverse ++ seen := by
  induction lies generalizing steps seen with
  | whole =>
    cases steps with
    | zero => omega
    | succ steps =>
      rw [climb, if_neg (apart _ List.mem_cons_self), lookup_ofBody distinct .whole]
      rfl
  | @part stmt part outer around protects outside member ih =>
    cases steps with
    | zero => omega
    | succ steps =>
      have lies : body.Lies part (stmt.id :: outer) (protects ++ around) := .part outside member
      rw [climb, if_neg (apart _ List.mem_cons_self), lookup_ofBody distinct lies]
      have further : ∀ id ∈ stmt.id :: outer, id ∉ part.id :: seen := by
        intro id found again
        obtain rfl | again := List.mem_cons.mp again
        · exact (List.nodup_cons.mp (lies.nodup distinct)).1 found
        · exact apart id (List.mem_cons_of_mem _ found) again
      have climbed := ih (Nat.lt_of_succ_lt_succ enough) further
      refine climbed.trans ?_
      simp

/-- The ancestors of a statement are the statements around it. -/
theorem ancestors_ofBody (distinct : body.ids.Nodup) (lies : body.Lies stmt outer around) :
    (ofBody body).ancestors stmt.id = (stmt.id :: outer).reverse := by
  have keys := congrArg List.length (links_ofBody body).keys
  have path := lies.sublist_ids.length_le
  rw [List.length_map, List.length_reverse] at keys
  rw [stmt.ids_eq, body.ids_eq] at path
  simp only [List.length_append, List.length_reverse, List.length_cons] at path
  have enough : outer.length < (ofBody body).length + 2 := by omega
  have apart : ∀ id ∈ stmt.id :: outer, id ∉ ([] : List StmtId) := fun _ _ => List.not_mem_nil
  rw [ancestors, climb_ofBody distinct lies enough apart, List.append_nil]

/-- A statement that does not lie in a body has no other ancestors. -/
theorem ancestors_of_not_mem {id : StmtId} (absent : id ∉ body.ids) :
    (ofBody body).ancestors id = [id] := by
  have missing : (ofBody body).lookup id = none := by
    refine lookup_eq_none ?_
    rw [(links_ofBody body).keys, List.mem_reverse]
    rw [Stmt.ids_eq] at absent
    exact fun found => absent (List.mem_cons_of_mem _ found)
  simp [ancestors, climb, missing]

/-- The place of a statement is determined by its identifier. -/
theorem outer_unique
    (distinct : body.ids.Nodup)
    (first : body.Lies stmt outer around)
    {other : Stmt} {otherOuter : List StmtId} {otherAround : List Construct}
    (second : body.Lies other otherOuter otherAround)
    (same : stmt.id = other.id) :
    outer = otherOuter := by
  have firstAncestors := ancestors_ofBody distinct first
  rw [same, ancestors_ofBody distinct second] at firstAncestors
  exact (List.cons.inj (List.reverse_inj.mp firstAncestors)).2.symm

/-- A part of a statement is there once, so what protects it is determined. -/
theorem protects_unique
    (distinct : stmt.ids.Nodup)
    {part : Stmt} {first second : List Construct}
    (firstMember : (part, first) ∈ stmt.parts)
    (secondMember : (part, second) ∈ stmt.parts) :
    first = second := by
  have heads : ∀ stmts : List Stmt, (stmts.map Stmt.id).Sublist (Stmt.listIds stmts) := by
    intro stmts
    induction stmts with
    | nil => exact .slnil
    | cons stmt stmts ih =>
      rw [List.map_cons, Stmt.listIds_cons, Stmt.ids_eq]
      exact .cons_cons _ (ih.trans (List.sublist_append_right _ _))
  rw [Stmt.ids_eq, List.nodup_cons, ← Stmt.map_fst_parts] at distinct
  have keys := distinct.2.sublist (heads _)
  rw [List.map_map] at keys
  have same := List.inj_on_of_nodup_map keys firstMember secondMember rfl
  exact (Prod.mk.inj same).2

/-- The constructs that protect a statement are determined. -/
theorem around_unique
    (distinct : body.ids.Nodup)
    (first : body.Lies stmt outer around)
    {otherOuter : List StmtId} {otherAround : List Construct}
    (second : body.Lies stmt otherOuter otherAround) :
    around = otherAround := by
  induction first generalizing otherOuter otherAround with
  | whole =>
    cases second with
    | whole => rfl
    | part outside member => cases outer_unique distinct .whole (.part outside member) rfl
  | part outside member ih =>
    have outerSame := outer_unique distinct (.part outside member) second rfl
    cases second with
    | whole => cases outerSame
    | part otherOutside otherMember =>
      obtain ⟨idSame, -⟩ := List.cons.inj outerSame
      obtain rfl := Stmt.eq_of_id_eq distinct outside.mem_statements otherOutside.mem_statements
        idSame
      have nodup := distinct.sublist ((List.sublist_append_right _ _).trans outside.sublist_ids)
      rw [protects_unique nodup member otherMember, ih otherOutside]

/-- A statement of a body is an ancestor of those that it has inside. -/
theorem mem_ancestors_iff
    (distinct : body.ids.Nodup)
    {id target : StmtId}
    (member : id ∈ body.ids) :
    id ∈ (ofBody body).ancestors target ↔ body.encloses id target := by
  rw [Stmt.encloses_iff]
  by_cases present : target ∈ body.ids
  · obtain ⟨stmt, inBody, rfl⟩ := Stmt.mem_ids_iff.mp present
    obtain ⟨outer, around, lies⟩ := Stmt.Lies.exists_of_mem_statements inBody
    rw [ancestors_ofBody distinct lies, List.mem_reverse]
    constructor
    · intro found
      obtain rfl | found := List.mem_cons.mp found
      · exact ⟨stmt, inBody, rfl, stmt.id_mem_ids⟩
      · obtain ⟨holder, holderInBody, same, inside⟩ := lies.exists_of_mem found
        exact ⟨holder, holderInBody, same, Stmt.mem_ids_iff.mpr ⟨stmt, inside, rfl⟩⟩
    · rintro ⟨holder, holderInBody, rfl, inside⟩
      obtain ⟨found, foundInside, same⟩ := Stmt.mem_ids_iff.mp inside
      obtain ⟨holderOuter, holderAround, holderLies⟩ :=
        Stmt.Lies.exists_of_mem_statements holderInBody
      obtain ⟨between, foundAround, foundLies, position⟩ := holderLies.descend foundInside
      obtain rfl := outer_unique distinct foundLies lies same
      obtain rfl | deeper := position
      · rw [same]
        exact List.mem_cons_self
      · exact List.mem_cons_of_mem _ (List.mem_append_left _ deeper)
  · rw [ancestors_of_not_mem present]
    constructor
    · intro found
      rw [List.mem_singleton.mp found] at member
      contradiction
    · rintro ⟨holder, holderInBody, -, inside⟩
      obtain ⟨found, foundInside, rfl⟩ := Stmt.mem_ids_iff.mp inside
      have inBody := Stmt.mem_statements_trans holderInBody foundInside
      exact absurd (Stmt.mem_ids_iff.mpr ⟨found, inBody, rfl⟩) present

end Body

end ParentMap

/-! ## Frames -/

/--
A statement of a body and the frames that are around it while it is lowered: each
statement around it has frames of its own, those of the constructs that protect
it among them.
-/
inductive Sited (body : Stmt) : Stmt → List StmtId → List Frame → Prop where
  | whole : Sited body body [] []
  | part {stmt part : Stmt} {outer : List StmtId} {frames own : List Frame}
      {protects : List Construct}
      (outside : Sited body stmt outer frames)
      (member : (part, protects) ∈ stmt.parts)
      (owned : ∀ frame ∈ own, frame.stmt = stmt.id)
      (constructs : own.filterMap Frame.construct? = protects) :
      Sited body part (stmt.id :: outer) (own ++ frames)

namespace Sited

variable {body stmt : Stmt} {outer : List StmtId} {frames : List Frame}

theorem lies (sited : Sited body stmt outer frames) :
    body.Lies stmt outer (frames.filterMap Frame.construct?) := by
  induction sited with
  | whole => exact .whole
  | part _ member _ constructs ih =>
    rw [List.filterMap_append, constructs]
    exact .part ih member

/-- Every frame belongs to a statement around the current point. -/
theorem mem_outer (sited : Sited body stmt outer frames) :
    ∀ frame ∈ frames, frame.stmt ∈ outer := by
  induction sited with
  | whole => nofun
  | part _ _ owned _ ih =>
    intro frame member
    obtain member | member := List.mem_append.mp member
    · rw [owned frame member]
      exact List.mem_cons_self
    · exact List.mem_cons_of_mem _ (ih frame member)

theorem mem_ids (sited : Sited body stmt outer frames) {frame : Frame} (member : frame ∈ frames) :
    frame.stmt ∈ body.ids := by
  obtain ⟨found, inBody, same, -⟩ := sited.lies.exists_of_mem (sited.mem_outer frame member)
  exact Stmt.mem_ids_iff.mpr ⟨found, inBody, same⟩

/-- A construct with a finally body is that of a try statement, which has no other one. -/
theorem finalizer_of_mem_parts
    {part finalizer : Stmt} {protects : List Construct}
    (member : (part, protects) ∈ stmt.parts)
    {construct : Construct}
    (found : construct ∈ protects)
    (cleanup : construct.cleanup = .finalizer finalizer) :
    (finalizer, []) ∈ stmt.parts ∧ protects = [construct] := by
  obtain rfl : protects = stmt.constructs := by
    obtain all | none := Stmt.protects_of_mem_parts member
    · exact all
    · cases none
      contradiction
  cases stmt with
  | forEach tag decl collection source body =>
    cases source with
    | array => contradiction
    | iterator iterator hasNext next dispose =>
      obtain ⟨_, -, rfl⟩ := List.mem_map.mp found
      contradiction
  | guard tag body catches finally? =>
    cases finally? with
    | none => contradiction
    | some body =>
      obtain rfl := List.mem_singleton.mp found
      cases cleanup
      exact ⟨by simp [Stmt.parts], rfl⟩
  | acquire tag resources body =>
    obtain ⟨_, -, rfl⟩ := List.mem_map.mp (List.mem_reverse.mp found)
    contradiction
  | synchronized tag lock body =>
    obtain rfl := List.mem_singleton.mp found
    contradiction
  | _ => contradiction

/-- A finally body is lowered among the frames around the statement to which it belongs. -/
theorem finalizer
    (sited : Sited body stmt outer frames)
    {inner rest : List Frame} {frame : Frame}
    (split : frames = inner ++ frame :: rest)
    {finalizer : Stmt} {region : RegionId}
    (kind : frame.kind = .finalized finalizer region) :
    ∃ around, around <:+ outer ∧ Sited body finalizer around rest := by
  induction sited generalizing inner with
  | whole => simp at split
  | part outside member owned constructs ih =>
    obtain ⟨further, rfl, later⟩ | ⟨further, ownSplit, later⟩ := List.append_eq_append_iff.mp split
    · obtain ⟨around, within, sited⟩ := ih later
      exact ⟨around, within.trans (List.suffix_cons _ _), sited⟩
    · cases further with
      | nil =>
        obtain ⟨around, within, sited⟩ :=
          ih (later.symm.trans (List.nil_append _).symm)
        exact ⟨around, within.trans (List.suffix_cons _ _), sited⟩
      | cons head further =>
        -- The frame is one of the try statement itself, whose other frames clean nothing up.
        obtain ⟨rfl, rfl⟩ := List.cons.inj later
        have construct : frame.construct? =
            some { stmt := frame.stmt, cleanup := .finalizer finalizer } := by
          rw [Frame.construct?, kind]
        rw [ownSplit, List.filterMap_append, List.filterMap_cons_some construct] at constructs
        obtain ⟨finalizerMember, only⟩ :=
          finalizer_of_mem_parts member
            (constructs ▸ List.mem_append_right _ List.mem_cons_self) rfl
        have nothing : further.filterMap Frame.construct? = [] := by
          have lengths := congrArg List.length (constructs.trans only)
          simp only [List.length_append, List.length_cons, List.length_nil] at lengths
          exact List.eq_nil_of_length_eq_zero (by omega)
        refine ⟨_, List.suffix_rfl,
          .part outside finalizerMember (fun other found => owned other ?_) nothing⟩
        rw [ownSplit]
        exact List.mem_append_right _ (List.mem_cons_of_mem _ found)

/--
Where a statement is lowered, the statements that it lowers stand in the same body;
what is around them is the statement or around it.
-/
theorem calls
    {start innerMethod : MethodContext} {part : Stmt}
    (sited : Sited body stmt outer start.frames)
    (called : Emit.Calls stmt start innerMethod part) :
    ∃ around, around <:+ stmt.id :: outer ∧ Sited body part around innerMethod.frames := by
  cases called with
  | part member inside =>
    obtain ⟨own, frames, owned, constructs⟩ := inside.frames
    rw [frames]
    exact ⟨_, List.suffix_rfl, .part sited member owned constructs⟩
  | finalizer member =>
    have unprotected : Sited body part (stmt.id :: outer) ([] ++ start.frames) :=
      .part sited member (by simp) rfl
    exact ⟨_, List.suffix_rfl, unprotected⟩
  | cleanup frames kind =>
    obtain ⟨around, within, inside⟩ := sited.finalizer frames kind
    exact ⟨around, within.trans (List.suffix_cons _ _), inside⟩

/-- If a frame belongs to an ancestor of a statement, so do all frames around it. -/
theorem pairwise_ancestors
    (distinct : body.ids.Nodup)
    (sited : Sited body stmt outer frames)
    (target : StmtId) :
    frames.Pairwise fun inner outer =>
      body.encloses inner.stmt target → body.encloses outer.stmt target := by
  induction sited with
  | whole => exact .nil
  | part outside _ owned _ ih =>
    rw [List.pairwise_append]
    refine ⟨?_, ih, ?_⟩
    · refine List.pairwise_of_forall_mem_list fun first firstMember second secondMember => ?_
      rw [owned first firstMember, owned second secondMember]
      exact id
    · intro first firstMember second secondMember enclosing
      rw [owned first firstMember] at enclosing
      obtain ⟨holder, inBody, same, inside⟩ := Stmt.encloses_iff.mp enclosing
      obtain ⟨around, aroundInBody, aroundSame, holds⟩ :=
        outside.lies.exists_of_mem (outside.mem_outer second secondMember)
      obtain rfl := Stmt.eq_of_id_eq distinct inBody outside.lies.mem_statements same
      refine Stmt.encloses_iff.mpr ⟨around, aroundInBody, aroundSame, ?_⟩
      obtain ⟨found, foundInside, rfl⟩ := Stmt.mem_ids_iff.mp inside
      exact Stmt.mem_ids_iff.mpr ⟨found, Stmt.mem_statements_trans holds foundInside, rfl⟩

end Sited

end StackCode
