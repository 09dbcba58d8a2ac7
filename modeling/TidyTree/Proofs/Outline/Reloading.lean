import TidyTree.Outline.Printer
import TidyTree.Proofs.Outline.Numbering
import TidyTree.Proofs.Outline.Reading

set_option autoImplicit false
set_option relaxedAutoImplicit false

namespace TidyTree.Record

open Json (IsBetween isBlank_nil isBetween_nil isBetween_comma quote quotes_quote)

/-- A part of a record is printed in one of its spellings, in front of what comes behind. -/
private def Prints (phrase : Phrase) (nesting : Nat) (print : List Char → List Char) : Prop :=
  ∃ text, Spelled phrase nesting text ∧ ∀ rest, print rest = text ++ rest

/-- The rest of an object is printed: those of the fields that have other than their standard value,
and the closing bracket. -/
private def Closes (r : Record) (fields : List Field) (nesting : Nat)
    (print : List Char → List Char) : Prop :=
  ∃ written, written.Sublist fields ∧ (∀ field ∈ fields, field ∉ written → r.Lacks field) ∧
    Prints (.entries false r written) nesting print

private theorem mem_of_mem_cons_of_not_mem_cons {field other : Field} {fields written : List Field}
    (mem : other ∈ field :: fields) (missing : other ∉ field :: written) :
    other ∈ fields ∧ other ∉ written := by
  rw [List.mem_cons, not_or] at missing
  exact ⟨(List.mem_cons.mp mem).resolve_left missing.1, missing.2⟩

namespace Closes

variable {r : Record} {fields : List Field} {nesting : Nat} {print : List Char → List Char}

private theorem bracket (r : Record) : r.Closes [] 0 ('\x7d' :: ·) :=
  ⟨[], List.Sublist.slnil, fun _ mem => absurd mem List.not_mem_nil, _, .endEntries isBlank_nil,
    fun _ => rfl⟩

private theorem skip (h : r.Closes fields nesting print) {field : Field} (lacks : r.Lacks field) :
    r.Closes (field :: fields) nesting print := by
  obtain ⟨written, sublist, others, prints⟩ := h
  refine ⟨written, sublist.cons field, fun other mem missing => ?_, prints⟩
  rcases List.mem_cons.mp mem with rfl | mem
  · exact lacks
  · exact others other mem missing

private theorem add (h : r.Closes fields nesting print) {field : Field} {name : String}
    {value : List Char}
    {nesting' : Nat} (named : name ∈ field.names)
    (spelled : Spelled (.value r field) nesting' value) :
    r.Closes (field :: fields) (max nesting' nesting)
      fun rest => printName name (value ++ print rest) := by
  obtain ⟨written, sublist, others, text, more, prints⟩ := h
  refine ⟨field :: written, sublist.cons_cons field, fun other mem missing => ?_, _,
    .entry isBetween_comma named (quotes_quote name.toList) isBlank_nil isBlank_nil spelled more,
    fun rest => ?_⟩
  · obtain ⟨mem, missing⟩ := mem_of_mem_cons_of_not_mem_cons mem missing
    exact others other mem missing
  · simp only [printName, prints, List.append_assoc, List.cons_append, List.nil_append]

private theorem optional (h : r.Closes fields nesting print) {field : Field} {name : String}
    (named : name ∈ field.names) {value : Option String} (held : r.text? field = value)
    (lacks : value = none → r.Lacks field) :
    r.Closes (field :: fields) nesting fun rest => printOptional name value (print rest) := by
  cases value with
  | none => exact h.skip (lacks rfl)
  | some s =>
    have added := h.add named (.text held (quotes_quote s.toList))
    rw [Nat.zero_max] at added
    exact added

private theorem list (h : r.Closes fields nesting print) {field : Field} {name : String}
    (named : name ∈ field.names) {rs : List Record} (held : r.children? field = some rs)
    (lacks : rs = [] → r.Lacks field)
    (members : ∀ m ms, rs = m :: ms → Prints (.members true (m :: ms)) (2 * levelsAll rs - 1)
      fun rest => m.printBefore (printMore ms (']' :: rest))) :
    r.Closes (field :: fields) (max (2 * levelsAll rs) nesting)
      fun rest => printList name rs (print rest) := by
  cases rs with
  | nil =>
    rw [levelsAll, Nat.mul_zero, Nat.zero_max]
    exact h.skip (lacks rfl)
  | cons m ms =>
    obtain ⟨text, spelled, prints⟩ := members m ms rfl
    have added := h.add named (.list held spelled)
    have deep := m.two_le_two_mul_levels
    have brackets : 2 * levelsAll (m :: ms) - 1 + 1 = 2 * levelsAll (m :: ms) := by
      rw [levelsAll]
      omega
    rw [brackets] at added
    refine cast (congrArg _ (funext fun rest => ?_)) added
    simp only [printList, prints, List.cons_append]

private theorem record (h : r.Closes [.kind, .comment, .visible, .hidden] nesting print) :
    Prints (.record r) (nesting + 1) fun rest =>
      '\x7b' :: (quote "label".toList ++ ':' :: (quote r.label.toList ++ print rest)) := by
  obtain ⟨written, sublist, others, text, more, prints⟩ := h
  have labelled : Spelled (.value r .label) 0 _ := .text rfl (quotes_quote r.label.toList)
  have entries : Spelled (.entries true r (.label :: written)) _ _ :=
    .entry isBetween_nil (by decide : "label" ∈ Field.label.names) (quotes_quote _) isBlank_nil
      isBlank_nil labelled more
  rw [Nat.zero_max] at entries
  have all : (Field.label :: written).Sublist Field.all := sublist.cons_cons _
  refine ⟨_, .object (all.nodup (by decide)) (fun field missing => ?_) entries, fun rest => ?_⟩
  · have mem : field ∈ Field.all := by cases field <;> decide
    obtain ⟨mem, missing⟩ := mem_of_mem_cons_of_not_mem_cons mem missing
    exact others field mem missing
  · simp only [prints, List.cons_append, List.append_assoc, List.nil_append]

end Closes

private theorem Prints.member {m : Record} {ms : List Record} {first : Bool} {between : List Char}
    (h : Prints (.record m) (2 * m.levels - 1) m.printBefore) (apart : IsBetween first between)
    (more : Prints (.members false ms) (2 * levelsAll ms - 1)
      fun rest => printMore ms (']' :: rest)) :
    Prints (.members first (m :: ms)) (2 * levelsAll (m :: ms) - 1)
      fun rest => between ++ m.printBefore (printMore ms (']' :: rest)) := by
  obtain ⟨text, spelled, prints⟩ := h
  obtain ⟨rest, spelledMore, printsMore⟩ := more
  have brackets : max (2 * m.levels - 1) (2 * levelsAll ms - 1) = 2 * levelsAll (m :: ms) - 1 := by
    rw [levelsAll]
    omega
  have members := Spelled.member apart spelled spelledMore
  rw [brackets] at members
  exact ⟨_, members, fun behind => by simp only [prints, printsMore, List.append_assoc]⟩

mutual

private theorem prints_printBefore : ∀ r : Record, Prints (.record r)
    (2 * r.levels - 1) r.printBefore
  | ⟨label, kind, comment, visible, hidden⟩ => by
    -- From the closing bracket backwards, as the printer puts each field in front of the rest.
    let r : Record := ⟨label, kind, comment, visible, hidden⟩
    have hiddenList := (Closes.bracket r).list (by decide : "hiddenChildren" ∈ Field.hidden.names)
      rfl id (prints_members hidden)
    have lists := hiddenList.list (by decide : "visibleChildren" ∈ Field.visible.names)
      rfl id (prints_members visible)
    have commented := lists.optional (by decide : "comment" ∈ Field.comment.names) rfl id
    have fields := commented.optional (by decide : "kind" ∈ Field.kind.names) rfl id
    have brackets : max (2 * levelsAll visible) (max (2 * levelsAll hidden) 0) + 1 =
        2 * r.levels - 1 := by
      have levels : r.levels = 1 + max (levelsAll visible) (levelsAll hidden) := by rw [Record.levels]
      omega
    have printed := fields.record
    rw [brackets] at printed
    refine cast (congrArg _ (funext fun rest => ?_)) printed
    rw [printBefore]
    rfl

private theorem prints_members : ∀ rs : List Record, ∀ m ms, rs = m :: ms →
    Prints (.members true (m :: ms)) (2 * levelsAll rs - 1)
      fun rest => m.printBefore (printMore ms (']' :: rest))
  | m :: ms, _, _, rfl => (prints_printBefore m).member isBetween_nil (prints_printMore ms)

private theorem prints_printMore : ∀ rs : List Record,
    Prints (.members false rs) (2 * levelsAll rs - 1) fun rest => printMore rs (']' :: rest)
  | [] => ⟨[']'], .endMembers isBlank_nil, fun _ => rfl⟩
  | r :: rs => (prints_printBefore r).member isBetween_comma (prints_printMore rs)

end

private theorem spells_print (r : Record) : r.Spells (2 * r.levels - 1) r.print := by
  obtain ⟨text, spelled, prints⟩ := r.prints_printBefore
  refine ⟨[], text, [], isBlank_nil, isBlank_nil, spelled, ?_⟩
  rw [print, prints, List.append_nil, List.nil_append]

end TidyTree.Record

namespace TidyTree

namespace Node

mutual

def levels : Node → Nat
  | mk _ _ children => 1 + levelsAll children

def levelsAll : List Node → Nat
  | [] => 0
  | n :: ns => max n.levels (levelsAll ns)

end

mutual

/-- A node without children counts as one that shows its children. -/
private def IsSettled : Node → Prop
  | mk _ shown children => (children = [] → shown = true) ∧ AreSettled children

private def AreSettled : List Node → Prop
  | [] => True
  | n :: ns => n.IsSettled ∧ AreSettled ns

end

mutual

private theorem levels_toRecord : ∀ n : Node, n.toRecord.levels = n.levels
  | mk item shown children => by
    have same := levelsAll_toRecordAll children
    rw [toRecord, Record.levels, levels]
    cases shown with
    | true => simp [Record.levelsAll, same]
    | false => simp [Record.levelsAll, same]

private theorem levelsAll_toRecordAll : ∀ ns : List Node, Record.levelsAll
    (toRecordAll ns) = levelsAll ns
  | [] => rfl
  | n :: ns => by
    rw [toRecordAll, Record.levelsAll, levelsAll, levels_toRecord n, levelsAll_toRecordAll ns]

end

private theorem isSettled_withState {n : Node} (h : n.IsSettled) (state : BranchState) :
    (n.withState state).IsSettled := by
  obtain ⟨item, shown, children⟩ := n
  cases children with
  | nil => exact h
  | cons c cs =>
    cases state with
    | leaf => exact h
    | expanded => exact ⟨fun _ => rfl, h.2⟩
    | collapsed => exact ⟨fun none => absurd none (List.cons_ne_nil c cs), h.2⟩

private theorem setStateAny_eq_nil {id : NodeId} {state : BranchState} {ns : List Node}
    (h : setStateAny id state ns = []) : ns = [] := by
  cases ns with
  | nil => rfl
  | cons n ns =>
    rw [setStateAny] at h
    split at h <;> exact absurd h (List.cons_ne_nil _ _)

mutual

private theorem IsSettled.setState (id : NodeId) (state : BranchState) :
    ∀ {n : Node}, n.IsSettled → (n.setState id state).IsSettled
  | mk item shown children, h => by
    rw [Node.setState]
    split
    · exact isSettled_withState h state
    · exact ⟨fun none => h.1 (setStateAny_eq_nil none), AreSettled.setStateAny id state h.2⟩

private theorem AreSettled.setStateAny (id : NodeId) (state : BranchState) :
    ∀ {ns : List Node}, AreSettled ns → AreSettled (setStateAny id state ns)
  | [], _ => trivial
  | n :: ns, h => by
    rw [Node.setStateAny]
    split
    · exact ⟨IsSettled.setState id state h.1, h.2⟩
    · exact ⟨h.1, AreSettled.setStateAny id state h.2⟩

end

end Node

mutual

private theorem Record.isSettled_number (id : NodeId) : ∀ r : Record, (r.number id).1.IsSettled
  | ⟨label, kind, comment, visible, hidden⟩ => by
    rw [Record.number]
    cases visible with
    | nil =>
      refine ⟨fun none => ?_, Record.areSettled_numberAll (id + 1) hidden⟩
      cases hidden with
      | nil => rfl
      | cons h hs => exact absurd none (List.cons_ne_nil _ _)
    | cons v vs => exact ⟨fun _ => rfl, Record.areSettled_numberAll (id + 1) (v :: vs)⟩

private theorem Record.areSettled_numberAll (id : NodeId) :
    ∀ rs : List Record, Node.AreSettled (Record.numberAll id rs).1
  | [] => trivial
  | r :: rs => by
    rw [Record.numberAll]
    exact ⟨r.isSettled_number id, Record.areSettled_numberAll _ rs⟩

end

namespace Node

mutual

private theorem IsNumbered.number_toRecord {id : NodeId} :
    ∀ {n : Node}, n.IsNumbered id → n.IsSettled → n.toRecord.number id = (n, [])
  | mk ⟨_, span, label, kind, comment⟩ shown children, h, settled => by
    obtain ⟨rfl, rfl, numbered⟩ := h
    have same := AreNumbered.numberAll_toRecordAll numbered settled.2
    rw [toRecord, Record.number]
    cases children with
    | nil =>
      have state : shown = true := settled.1 rfl
      subst state
      rfl
    | cons c cs =>
      have some : (toRecordAll (c :: cs)).isEmpty = false := rfl
      cases shown with
      | true => simp [some, same]
      | false => simp [some, same]

private theorem AreNumbered.numberAll_toRecordAll {id : NodeId} :
    ∀ {ns : List Node}, AreNumbered id ns → AreSettled ns →
      Record.numberAll id (toRecordAll ns) = (ns, [])
  | [], _, _ => rfl
  | n :: ns, h, settled => by
    have first := IsNumbered.number_toRecord h.1 settled.1
    have others := AreNumbered.numberAll_toRecordAll h.2 settled.2
    rw [toRecordAll, Record.numberAll, first]
    dsimp only
    rw [others]
    rfl

end

end Node

namespace Tree

private theorem IsReachable.isSettled {t : Tree} (h : t.IsReachable) : t.root.IsSettled := by
  induction h with
  | ofRecord r => exact r.isSettled_number 0
  | @folded t _ how id ih =>
    rcases t.folded_cases how id with same | ⟨_, state, _, _, _, changed⟩
    · rw [same]
      exact ih
    · rw [changed]
      exact ih.setState id state
  | drained _ ih => exact ih

theorem IsReachable.number_toRecord {t : Tree} (h : t.IsReachable) :
    t.toRecord.number 0 = (t.root, []) := h.isNumbered.number_toRecord h.isSettled

/-- A tree of up to sixty-four levels is loaded as it was saved, with nothing left out and no changes
counted; a higher one is not loaded. -/
theorem IsReachable.ofText_print {t : Tree} (h : t.IsReachable) :
    (t.root.levels ≤ 64 → ofText t.toRecord.print = .ok ⟨t.root, 0, []⟩ ∧
      (Record.ofText t.toRecord.print).map droppedOf = .ok []) ∧
    (64 < t.root.levels → ofText t.toRecord.print = .error .malformed) := by
  have spells := t.toRecord.spells_print
  have levels : t.toRecord.levels = t.root.levels := t.root.levels_toRecord
  have same := h.number_toRecord
  rw [levels] at spells
  constructor
  · intro few
    have read := ofText_of_room spells (by omega)
    have tree : Tree.ofRecord t.toRecord = ⟨t.root, 0, []⟩ := by rw [Tree.ofRecord, same]
    have dropped : droppedOf t.toRecord = [] := by rw [droppedOf, same]
    rw [tree, dropped] at read
    exact read
  · intro many
    exact ofText_of_crowd spells (by omega)

theorem ofText_print_folded :
    (∃ t : Tree, t.IsReachable ∧ t.root.levels = 3 ∧ t.revision = 2 ∧
      t.toRecord.print =
        ("\x7b\"label\":\"\\\"\\n\",\"kind\":\"é\\\\\",\"hiddenChildren\":[" ++
          "\x7b\"label\":\"\",\"comment\":\"\\u0001😀\"," ++
          "\"visibleChildren\":[\x7b\"label\":\"c\"\x7d]\x7d,\x7b\"label\":\"d\"\x7d]\x7d").toList ∧
      ofText t.toRecord.print = .ok ⟨t.root, 0, []⟩ ∧
      (Record.ofText t.toRecord.print).map droppedOf = .ok []) ∧
    ∃ t : Tree, t.IsReachable ∧ t.root.levels = 65 ∧ ofText t.toRecord.print = .error .malformed := by
  let below : List Record :=
    [{ comment := some "\x01😀", hidden := [{ label := "c" }] }, { label := "d" }]
  let start : Tree := ofRecord { label := "\"\n", kind := some "é\\", visible := below }
  let t : Tree := (start.folded .expand 1).folded .toggle 0
  let high : Tree := ofRecord (Record.chain 64)
  have reachable : t.IsReachable := .folded (.folded (.ofRecord _) .expand 1) .toggle 0
  have levels : t.root.levels = 3 := by decide +kernel
  have highReachable : high.IsReachable := .ofRecord _
  have highLevels : high.root.levels = 65 := by decide +kernel
  exact ⟨⟨t, reachable, levels, by decide +kernel, by decide +kernel,
    reachable.ofText_print.1 (by rw [levels]; decide)⟩,
    high, highReachable, highLevels, highReachable.ofText_print.2 (by rw [highLevels]; decide)⟩

end Tree

end TidyTree
