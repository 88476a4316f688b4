import OpenCore.SlotArray
import OpenCore.XmlParse

/-!
The children of a node as `XmlNodeAppend`, `XmlNodePrepend` and `XmlNodeRemoveByIndex`
keep them: an array with a count and a capacity of its own, which is regrown by copying
and shifted in place. Nodes are known by their pointers. Every allocation may fail, and
fresh storage has arbitrary contents.
-/

namespace OpenCore.XmlChildren

open Base SlotArray XmlParse List

variable {α : Type}

structure NodeList (α : Type) where
  nodeCount : Nat
  allocCount : Nat
  nodeList : List (Option α)

abbrev Pool (α : Type) := Option (Nat → Option α)

section Model

def copySlots (slots : List (Option α)) (destination source count : Nat) : List (Option α) :=
  slots.take destination ++ (slots.drop source).take count ++ slots.drop (destination + count)

/-- The end of `XmlNodeChildPush`: a list three times as large, with the nodes there
were. -/
def growList (nodeCount allocCount : Nat) (nodes : List (Option α)) (child : α) (pool : Pool α) :
    Option (NodeList α) :=
  if xmlParserNodeCount - 1 ≤ nodeCount then none
  else
    pool.map fun fresh =>
      let newCount := allocCount * 3 % u32
      let slots := (List.range newCount).map fresh
      { nodeCount := (nodeCount + 1) % u32
        allocCount := newCount
        nodeList := (nodes ++ slots.drop nodes.length).set nodeCount (some child) }

def xmlNodeChildPush (children : Option (NodeList α)) (child : α) (pool : Pool α) :
    Option (NodeList α) :=
  match children with
  | none => growList 0 1 [] child pool
  | some list =>
    if list.nodeCount < xmlParserNodeCount ∧ list.nodeCount < list.allocCount then
      some { list with
        nodeList := list.nodeList.set list.nodeCount (some child)
        nodeCount := (list.nodeCount + 1) % u32 }
    else
      growList list.nodeCount list.allocCount (list.nodeList.take list.nodeCount) child pool

structure Result (α : Type) where
  children : Option (NodeList α)
  returned : Option α
  freed : List α

def xmlNodeAppend (children : Option (NodeList α)) (created : Option α) (pool : Pool α) :
    Result α :=
  match created with
  | none => ⟨children, none, []⟩
  | some newNode =>
    match xmlNodeChildPush children newNode pool with
    | none => ⟨children, none, [newNode]⟩
    | some list => ⟨some list, some newNode, []⟩

def xmlNodePrepend (children : Option (NodeList α)) (created : Option α) (pool : Pool α) :
    Result α :=
  let appended := xmlNodeAppend children created pool
  match appended.returned with
  | none => appended
  | some newNode =>
    { appended with
      children := appended.children.map fun list => { list with
        nodeList := (copySlots list.nodeList 1 0 (list.nodeCount - 1)).set 0 (some newNode) } }

def xmlNodeRemoveByIndex (children : Option (NodeList α)) (index : Nat) : Result α :=
  match children with
  | none => ⟨none, none, []⟩
  | some list =>
    { children := some
        { list with
          nodeList := (copySlots list.nodeList index (index + 1)
            (list.nodeCount - 1 - index)).set (list.nodeCount - 1) none
          nodeCount := list.nodeCount - 1 }
      returned := none
      freed := (list.nodeList.getD index none).toList }

inductive Operation (α : Type) where
  | append (created : Option α) (pool : Pool α)
  | prepend (created : Option α) (pool : Pool α)
  | removeByIndex (index : Nat)

def perform (children : Option (NodeList α)) : Operation α → Result α
  | .append created pool => xmlNodeAppend children created pool
  | .prepend created pool => xmlNodePrepend children created pool
  | .removeByIndex index => xmlNodeRemoveByIndex children index

end Model

structure Kept (list : NodeList α) (nodes : List α) : Prop where
  counted : list.nodeCount = nodes.length
  sized : list.nodeList.length = list.allocCount
  positive : 0 < list.allocCount
  room : list.nodeCount ≤ list.allocCount
  limit : list.nodeCount ≤ xmlParserNodeCount
  slots : list.nodeList.take nodes.length = nodes.map some

def Holds : Option (NodeList α) → List α → Prop
  | none, nodes => nodes = []
  | some list, nodes => Kept list nodes

section Slots

variable {slots : List (Option α)} {child : α} {list : NodeList α} {pool : Pool α}

theorem copySlots_length {destination source count : Nat}
    (room : destination + count ≤ slots.length) (inside : source + count ≤ slots.length) :
    (copySlots slots destination source count).length = slots.length := by
  simp only [copySlots, length_append, length_take, length_drop]
  omega

theorem take_shift_up {nodes : List α}
    (kept : slots.take (nodes.length + 1) = (nodes ++ [child]).map some)
    (room : nodes.length + 1 ≤ slots.length) :
    ((copySlots slots 1 0 nodes.length).set 0 (some child)).take (nodes.length + 1) =
      (child :: nodes).map some := by
  have nodesKept : slots.take nodes.length = nodes.map some := by
    have shorter := congrArg (List.take nodes.length) kept
    rwa [take_take, Nat.min_eq_left (Nat.le_succ _), map_append,
      take_left' (length_map _)] at shorter
  cases slots with
  | nil => cases room
  | cons slot rest =>
    rw [copySlots, drop_zero, nodesKept, take_succ_cons, take_zero,
      singleton_append, cons_append, set_cons_zero, take_succ_cons,
      take_left' (length_map _), map_cons]

theorem take_shift_down {nodes : List α} {index : Nat}
    (kept : slots.take nodes.length = nodes.map some) (room : nodes.length ≤ slots.length)
    (inside : index < nodes.length) :
    ((copySlots slots index (index + 1) (nodes.length - 1 - index)).set (nodes.length - 1)
        none).take (nodes.eraseIdx index).length = (nodes.eraseIdx index).map some := by
  have length : (nodes.eraseIdx index).length = nodes.length - 1 := length_eraseIdx_of_lt inside
  have front : (slots.take index).length = index := length_take_of_le (by omega)
  have back : ((slots.drop (index + 1)).take (nodes.length - 1 - index)).length =
      nodes.length - 1 - index := by
    rw [length_take, length_drop]
    omega
  rw [length, take_set_of_le (Nat.le_refl _), copySlots,
    take_left' (by rw [length_append, front, back]; omega),
    eraseIdx_eq_take_drop_succ, map_append, map_take, map_drop, ← kept,
    take_take, Nat.min_eq_left (Nat.le_of_lt inside), drop_take]
  congr 2
  omega

theorem growList_kept {nodeCount allocCount : Nat} {nodes : List α}
    (counted : nodeCount = nodes.length) (full : allocCount ≤ max 1 nodeCount)
    (positive : 0 < allocCount) (room : nodeCount ≤ allocCount)
    (grown : growList nodeCount allocCount (nodes.map some) child pool = some list) :
    Kept list (nodes ++ [child]) := by
  subst counted
  rw [growList] at grown
  split at grown
  · cases grown
  · rename_i below
    obtain ⟨fresh, _, rfl⟩ := Option.map_eq_some_iff.mp grown
    have limit : xmlParserNodeCount = 32768 := rfl
    have tripled : allocCount * 3 % u32 = allocCount * 3 := by
      rw [u32_val]
      exact Nat.mod_eq_of_lt (by omega)
    have added : (nodes.length + 1) % u32 = nodes.length + 1 := by
      rw [u32_val]
      exact Nat.mod_eq_of_lt (by omega)
    constructor
    · show (nodes.length + 1) % u32 = (nodes ++ [child]).length
      rw [added, length_append, length_singleton]
    · simp only [tripled, length_set, length_append, length_map, length_drop, length_range]
      omega
    · show 0 < allocCount * 3 % u32
      rw [tripled]
      omega
    · show (nodes.length + 1) % u32 ≤ allocCount * 3 % u32
      rw [tripled, added]
      omega
    · show (nodes.length + 1) % u32 ≤ xmlParserNodeCount
      rw [added]
      omega
    · apply take_set_append
      · exact take_left' (length_map _)
      · simp only [tripled, length_append, length_map, length_drop, length_range]
        omega

theorem xmlNodeChildPush_kept {children : Option (NodeList α)} {nodes : List α} (holds : Holds children nodes)
    (pushed : xmlNodeChildPush children child pool = some list) :
    Kept list (nodes ++ [child]) := by
  cases children with
  | none =>
    have empty : nodes = [] := holds
    subst empty
    exact growList_kept rfl (Nat.le_refl _) Nat.one_pos (Nat.zero_le _) pushed
  | some before =>
    have kept : Kept before nodes := holds
    rw [xmlNodeChildPush] at pushed
    split at pushed
    · rename_i room
      cases pushed
      have limit : xmlParserNodeCount = 32768 := rfl
      have counted := kept.counted
      have added : (before.nodeCount + 1) % u32 = before.nodeCount + 1 := by
        rw [u32_val]
        exact Nat.mod_eq_of_lt (by omega)
      constructor
      · show (before.nodeCount + 1) % u32 = (nodes ++ [child]).length
        rw [added, counted, length_append, length_singleton]
      · rw [length_set]
        exact kept.sized
      · exact kept.positive
      · show (before.nodeCount + 1) % u32 ≤ before.allocCount
        rw [added]
        exact room.2
      · show (before.nodeCount + 1) % u32 ≤ xmlParserNodeCount
        rw [added]
        exact room.1
      · rw [counted]
        apply take_set_append kept.slots
        rw [kept.sized, ← counted]
        exact room.2
    · rename_i full
      rw [kept.counted, kept.slots] at pushed
      have room := kept.room
      have counted := kept.counted
      refine growList_kept rfl ?_ kept.positive (by omega) pushed
      -- A list that is not regrown at the limit is regrown because it is full.
      rw [growList] at pushed
      split at pushed
      · cases pushed
      · omega

end Slots

section Operations
variable {children : Option (NodeList α)} {nodes : List α}
variable {pool : Pool α} {created : Option α}

inductive Refused (children : Option (NodeList α)) (nodes : List α) (created : Option α)
    (pool : Pool α) : Prop where
  | uncreated (failed : created = none)
  | limited (full : xmlParserNodeCount - 1 ≤ nodes.length)
  | unallocated (failed : pool = none) (full : ∀ list ∈ children, list.allocCount = nodes.length)

theorem xmlNodeChildPush_refused {child : α} (holds : Holds children nodes)
    (failed : xmlNodeChildPush children child pool = none) :
    Refused children nodes (some child) pool := by
  cases children with
  | none =>
    rw [xmlNodeChildPush, growList, if_neg (by decide)] at failed
    refine .unallocated (Option.map_eq_none_iff.mp failed) ?_
    intro list member
    cases member
  | some list =>
    have kept : Kept list nodes := holds
    have counted := kept.counted
    have room := kept.room
    rw [xmlNodeChildPush] at failed
    split at failed
    · cases failed
    · rename_i full
      rw [growList] at failed
      split at failed
      · exact .limited (by omega)
      · refine .unallocated (Option.map_eq_none_iff.mp failed) ?_
        rintro _ ⟨⟩
        omega

def listed (nodes : List α) : Operation α → Option α → List α
  | .append _ _, returned => nodes ++ returned.toList
  | .prepend _ _, returned => returned.toList ++ nodes
  | .removeByIndex index, _ => nodes.eraseIdx index

inductive Inserted (children : Option (NodeList α)) (nodes : List α) (created : Option α)
    (pool : Pool α) (result : Result α) : Prop where
  | added (node : α) (created : created = some node) (returned : result.returned = some node)
      (freed : result.freed = [])
  | failed (refused : Refused children nodes created pool) (returned : result.returned = none)
      (unchanged : result.children = children) (freed : result.freed = created.toList)

def Accounted (children : Option (NodeList α)) (nodes : List α) :
    Operation α → Result α → Prop
  | .append created pool, result | .prepend created pool, result =>
    Inserted children nodes created pool result
  | .removeByIndex index, result => result.freed = nodes[index]?.toList

theorem xmlNodeAppend_spec (holds : Holds children nodes) :
    Holds (xmlNodeAppend children created pool).children
        (nodes ++ (xmlNodeAppend children created pool).returned.toList) ∧
      Inserted children nodes created pool (xmlNodeAppend children created pool) := by
  cases created with
  | none =>
    refine ⟨?_, .failed (.uncreated rfl) rfl rfl rfl⟩
    rwa [xmlNodeAppend, Option.toList_none, append_nil]
  | some node =>
    rw [xmlNodeAppend]
    cases pushed : xmlNodeChildPush children node pool with
    | none =>
      refine ⟨?_, .failed (xmlNodeChildPush_refused holds pushed) rfl rfl rfl⟩
      rwa [Option.toList_none, append_nil]
    | some list => exact ⟨xmlNodeChildPush_kept holds pushed, .added node rfl rfl rfl⟩

theorem Kept.shift_up {list : NodeList α} {node : α} (kept : Kept list (nodes ++ [node])) :
    Kept { list with
      nodeList := (copySlots list.nodeList 1 0 (list.nodeCount - 1)).set 0 (some node) }
      (node :: nodes) := by
  obtain ⟨counted, sized, positive, room, limit, slots⟩ := kept
  have length : (nodes ++ [node]).length = nodes.length + 1 := length_append
  rw [length] at counted slots
  have shifted : list.nodeCount - 1 = nodes.length := by omega
  constructor
  · exact counted
  · rw [length_set, copySlots_length (by omega) (by omega)]
    exact sized
  · exact positive
  · exact room
  · exact limit
  · rw [shifted]
    exact take_shift_up slots (by omega)

theorem xmlNodePrepend_spec (holds : Holds children nodes) :
    Holds (xmlNodePrepend children created pool).children
        ((xmlNodePrepend children created pool).returned.toList ++ nodes) ∧
      Inserted children nodes created pool (xmlNodePrepend children created pool) := by
  obtain ⟨held, inserted⟩ : _ ∧ Inserted children nodes created pool _ := xmlNodeAppend_spec holds
  rw [xmlNodePrepend]
  cases returned : (xmlNodeAppend children created pool).returned with
  | none =>
    rw [returned, Option.toList_none, append_nil] at held
    simp only [returned, Option.toList_none, nil_append]
    exact ⟨held, inserted⟩
  | some node =>
    rw [returned, Option.toList_some] at held
    simp only [Option.toList_some]
    constructor
    · cases after : (xmlNodeAppend children created pool).children with
      | none =>
        rw [after] at held
        have empty : nodes ++ [node] = [] := held
        exact absurd empty (append_ne_nil_of_right_ne_nil _ (cons_ne_nil _ _))
      | some list =>
        rw [after] at held
        exact Kept.shift_up held
    · cases inserted with
      | added newNode createdNode returnedNode freed =>
        exact .added newNode createdNode (returned.symm.trans returnedNode) freed
      | failed refused unreturned unchanged freed =>
        rw [returned] at unreturned
        cases unreturned

theorem xmlNodeRemoveByIndex_spec {index : Nat} (holds : Holds children nodes)
    (inside : index < nodes.length) :
    Holds (xmlNodeRemoveByIndex children index).children (nodes.eraseIdx index) ∧
      (xmlNodeRemoveByIndex children index).freed = nodes[index]?.toList := by
  cases children with
  | none =>
    have empty : nodes = [] := holds
    subst empty
    cases inside
  | some list =>
    obtain ⟨counted, sized, positive, room, limit, slots⟩ : Kept list nodes := holds
    have length : (nodes.eraseIdx index).length = nodes.length - 1 := length_eraseIdx_of_lt inside
    constructor
    · constructor
      · show list.nodeCount - 1 = (nodes.eraseIdx index).length
        omega
      · show (List.set _ _ _).length = list.allocCount
        rw [length_set, copySlots_length (by omega) (by omega)]
        exact sized
      · exact positive
      · show list.nodeCount - 1 ≤ list.allocCount
        omega
      · show list.nodeCount - 1 ≤ xmlParserNodeCount
        omega
      · show (List.set _ _ _).take _ = _
        rw [counted]
        exact take_shift_down slots (by omega) inside
    · have slot : list.nodeList[index]? = nodes[index]?.map some := by
        rw [← getElem?_map, ← slots, getElem?_take_of_lt inside]
      rw [xmlNodeRemoveByIndex, getD_eq_getElem?_getD, slot,
        getElem?_eq_getElem inside, Option.map_some, Option.getD_some]

end Operations

section Runs

def ValidIndices : Option (NodeList α) → List (Operation α) → Prop
  | _, [] => True
  | children, operation :: rest =>
    (∀ index, operation = .removeByIndex index →
      ∃ list, children = some list ∧ index < list.nodeCount) ∧
    ValidIndices (perform children operation).children rest

/-- Along a run the children are, after every operation, the list the operation leaves of
the list before it. -/
def Behaves : Option (NodeList α) → List α → List (Operation α) → Prop
  | children, nodes, [] => Holds children nodes
  | children, nodes, operation :: rest =>
    Holds children nodes ∧
    Accounted children nodes operation (perform children operation) ∧
    Behaves (perform children operation).children
      (listed nodes operation (perform children operation).returned) rest

theorem perform_spec {children : Option (NodeList α)} {nodes : List α} {operation : Operation α}
    (holds : Holds children nodes) (valid : ∀ index, operation = .removeByIndex index →
      ∃ list, children = some list ∧ index < list.nodeCount) :
    Holds (perform children operation).children
        (listed nodes operation (perform children operation).returned) ∧
      Accounted children nodes operation (perform children operation) := by
  cases operation with
  | append created pool => exact xmlNodeAppend_spec holds
  | prepend created pool => exact xmlNodePrepend_spec holds
  | removeByIndex index =>
    obtain ⟨list, rfl, inside⟩ := valid index rfl
    have kept : Kept list nodes := holds
    rw [kept.counted] at inside
    exact xmlNodeRemoveByIndex_spec holds inside

theorem children_behave_as_list {children : Option (NodeList α)} {nodes : List α}
    {operations : List (Operation α)} (holds : Holds children nodes)
    (valid : ValidIndices children operations) : Behaves children nodes operations := by
  induction operations generalizing children nodes with
  | nil => exact holds
  | cons operation rest ih =>
    obtain ⟨held, accounted⟩ := perform_spec holds valid.1
    exact ⟨holds, accounted, ih held valid.2⟩

/-- A node without children: one is appended, another put in front of it, and an append
that finds no memory fails before the first is removed again. -/
theorem children_behave_as_list_short_run :
    Behaves (none : Option (NodeList Nat)) []
      [.append (some 1) (some fun _ => none), .prepend (some 2) none, .append none none,
        .removeByIndex 1] := by
  refine children_behave_as_list (show Holds none [] from rfl) ?_
  simp only [ValidIndices, reduceCtorEq, false_implies, implies_true, true_and, and_true]
  rintro index ⟨⟩
  exact ⟨_, rfl, by decide⟩

end Runs

end OpenCore.XmlChildren
