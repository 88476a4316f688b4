import Mathlib.Data.List.Induction
import OpenCore.DeviceProperties

/-!
The database as a finite map from device paths and names to values. Every call
keeps one node for a path and one property for a name; a set that fails behind
the removal of the old property, or behind the insertion of a new node, does not
keep the map.
-/

namespace OpenCore.DevicePropertyMap

open Base ByteBuffer DeviceProperties List

abbrev PropertyMap := Bytes → CString16 → Option Bytes

def PropertyMap.set (map : PropertyMap) (devicePath : Bytes) (name : CString16) (value : Bytes) :
    PropertyMap := fun path key => if path = devicePath ∧ key = name then some value else map path key

def PropertyMap.remove (map : PropertyMap) (devicePath : Bytes) (name : CString16) : PropertyMap :=
  fun path key => if path = devicePath ∧ key = name then none else map path key

def nodeValue (node : PropertyNode) (name : CString16) : Option Bytes :=
  (internalGetProperty node name).map fun property => property.value.data

def lookup (db : Database) : PropertyMap := fun devicePath name =>
  (internalGetPropertyNode db devicePath).bind fun node => nodeValue node name

structure NodeOk (node : PropertyNode) : Prop where
  namesUnique : KeyedList.Unique Property.key node.properties
  counted : node.numberOfProperties = node.properties.length
  sized : ∀ property ∈ node.properties,
    property.value.size = property.value.data.length + 4 ∧ property.value.size < u32

structure Consistent (db : Database) : Prop where
  pathsUnique : KeyedList.Unique PropertyNode.devicePath db.nodes
  nodesOk : ∀ node ∈ db.nodes, NodeOk node
  listed : ∀ node ∈ db.nodes, node.numberOfProperties ≠ 0

section Nodes

variable {node : PropertyNode} {name key : CString16} {value : Bytes}

/-- The node after a set: the old property is taken out, the new one goes last. -/
def putProperty (name : CString16) (value : Bytes) (node : PropertyNode) : PropertyNode :=
  (match internalGetProperty node name with
    | some _ => node.unlink name
    | none => node).insertTail (newProperty name value)

theorem newProperty_key : (newProperty name value).key = name.1 := text_strBytes_alone name

theorem unlink_devicePath (name : CString16) (node : PropertyNode) :
    (node.unlink name).devicePath = node.devicePath := rfl

theorem unlink_ok (ok : NodeOk node) (found : (internalGetProperty node name).isSome) :
    NodeOk (node.unlink name) := by
  obtain ⟨property, present⟩ := Option.isSome_iff_exists.mp found
  have shorter := KeyedList.length_erase present
  refine ⟨KeyedList.unique_erase ok.namesUnique, ?_, ?_⟩
  · have counted := ok.counted
    simp only [PropertyNode.unlink]
    omega
  · intro property member
    exact ok.sized property (KeyedList.mem_erase ok.namesUnique member).1

theorem unlink_value (ok : NodeOk node) :
    nodeValue (node.unlink name) key = if key = name then none else nodeValue node key := by
  have found : KeyedList.find Property.key key.1
      (KeyedList.erase Property.key name.1 node.properties) = _ :=
    KeyedList.find_erase ok.namesUnique
  simp only [nodeValue, internalGetProperty_eq, PropertyNode.unlink, found]
  by_cases same : key = name
  · simp [same]
  · have apart : ¬ key.1 = name.1 := fun equal => same (Subtype.ext equal)
    simp [same, apart]

theorem insertTail_ok (ok : NodeOk node) (fresh : internalGetProperty node name = none)
    (fits : value.length + 4 < u32) : NodeOk (node.insertTail (newProperty name value)) := by
  refine ⟨KeyedList.unique_append_fresh ok.namesUnique ?_, ?_, ?_⟩
  · rw [newProperty_key]
    exact fresh
  · simp [PropertyNode.insertTail, ok.counted]
  · intro property member
    rcases mem_append.mp member with old | new
    · exact ok.sized property old
    · rw [mem_singleton.mp new]
      simp only [newProperty, Nat.mod_eq_of_lt fits, true_and]
      exact fits

theorem insertTail_value (fresh : internalGetProperty node name = none) :
    nodeValue (node.insertTail (newProperty name value)) key =
      if key = name then some value else nodeValue node key := by
  have found : KeyedList.find Property.key key.1
      (node.properties ++ [newProperty name value]) = _ :=
    KeyedList.find_append_fresh (by rw [newProperty_key]; exact fresh)
  simp only [nodeValue, internalGetProperty_eq, PropertyNode.insertTail, found, newProperty_key]
  by_cases same : key = name
  · simp [same, newProperty]
  · have apart : ¬ name.1 = key.1 := fun equal => same (Subtype.ext equal).symm
    simp [same, apart]

theorem unlink_fresh (ok : NodeOk node) : internalGetProperty (node.unlink name) name = none := by
  have found : KeyedList.find Property.key name.1
      (KeyedList.erase Property.key name.1 node.properties) = _ :=
    KeyedList.find_erase ok.namesUnique
  rw [if_pos rfl] at found
  exact found

theorem putProperty_ok (ok : NodeOk node) (fits : value.length + 4 < u32) :
    NodeOk (putProperty name value node) := by
  unfold putProperty
  split
  · next property found =>
      exact insertTail_ok (unlink_ok ok (by simp [found])) (unlink_fresh ok) fits
  · next fresh => exact insertTail_ok ok fresh fits

theorem putProperty_value (ok : NodeOk node) :
    nodeValue (putProperty name value node) key =
      if key = name then some value else nodeValue node key := by
  unfold putProperty
  split
  · rw [insertTail_value (unlink_fresh ok), unlink_value ok]
    by_cases same : key = name <;> simp [same]
  · next fresh => exact insertTail_value fresh

theorem putProperty_devicePath (node : PropertyNode) :
    (putProperty name value node).devicePath = node.devicePath := by
  unfold putProperty
  split <;> rfl

theorem putProperty_listed (node : PropertyNode) :
    (putProperty name value node).numberOfProperties ≠ 0 := Nat.succ_ne_zero _

theorem newNode_ok (devicePath : Bytes) : NodeOk (newNode devicePath) := by
  constructor
  · exact nodup_nil
  · rfl
  · intro property member
    cases member

end Nodes

section Database

variable {db : Database} {devicePath path : Bytes} {name key : CString16} {value : Bytes}
  {node : PropertyNode} {changed : PropertyNode → PropertyNode}

theorem lookup_eq (db : Database) :
    lookup db devicePath name =
      (KeyedList.find PropertyNode.devicePath devicePath db.nodes).bind fun node =>
        nodeValue node name := by
  rw [lookup, internalGetPropertyNode_eq]

theorem found_ok (consistent : Consistent db)
    (found : internalGetPropertyNode db devicePath = some node) :
    NodeOk node ∧ node.devicePath = devicePath := by
  rw [internalGetPropertyNode_eq] at found
  obtain ⟨member, same⟩ := KeyedList.find_mem found
  exact ⟨consistent.nodesOk node member, same⟩

theorem atNode_consistent (consistent : Consistent db)
    (keeps : ∀ node, (changed node).devicePath = node.devicePath)
    (ok : ∀ node, internalGetPropertyNode db devicePath = some node →
      NodeOk (changed node) ∧ (changed node).numberOfProperties ≠ 0) :
    Consistent (db.atNode devicePath changed) := by
  have members : ∀ node ∈ (db.atNode devicePath changed).nodes,
      NodeOk node ∧ node.numberOfProperties ≠ 0 := by
    intro node member
    rcases KeyedList.mem_change consistent.pathsUnique member with ⟨old, _⟩ | ⟨old, found, same⟩
    · exact ⟨consistent.nodesOk node old, consistent.listed node old⟩
    · rw [same]
      exact ok old (by rw [internalGetPropertyNode_eq]; exact found)
  constructor
  · exact KeyedList.unique_change keeps consistent.pathsUnique
  · exact fun node member => (members node member).1
  · exact fun node member => (members node member).2

theorem atNode_lookup (keeps : ∀ node, (changed node).devicePath = node.devicePath)
    (found : internalGetPropertyNode db devicePath = some node) :
    lookup (db.atNode devicePath changed) path key =
      if path = devicePath then nodeValue (changed node) key else lookup db path key := by
  rw [internalGetPropertyNode_eq] at found
  rw [lookup_eq, lookup_eq, Database.atNode, KeyedList.find_change keeps]
  by_cases same : path = devicePath
  · simp [same, found]
  · simp [same]

theorem append_consistent (consistent : Consistent db)
    (fresh : internalGetPropertyNode db node.devicePath = none)
    (ok : NodeOk node) (listed : node.numberOfProperties ≠ 0) (modified : Bool) :
    Consistent { nodes := db.nodes ++ [node], modified } := by
  rw [internalGetPropertyNode_eq] at fresh
  constructor
  · exact KeyedList.unique_append_fresh consistent.pathsUnique fresh
  · intro other member
    rcases mem_append.mp member with old | new
    · exact consistent.nodesOk other old
    · exact mem_singleton.mp new ▸ ok
  · intro other member
    rcases mem_append.mp member with old | new
    · exact consistent.listed other old
    · exact mem_singleton.mp new ▸ listed

theorem append_lookup (fresh : internalGetPropertyNode db node.devicePath = none)
    (modified : Bool) :
    lookup { nodes := db.nodes ++ [node], modified } path key =
      if path = node.devicePath then nodeValue node key else lookup db path key := by
  rw [internalGetPropertyNode_eq] at fresh
  rw [lookup_eq, lookup_eq]
  simp only [KeyedList.find_append_fresh fresh]
  by_cases same : path = node.devicePath
  · simp [same]
  · have apart : ¬ node.devicePath = path := fun equal => same equal.symm
    simp [same, apart]

end Database

section Set

variable {db : Database} {devicePath : Bytes} {name : CString16} {value : Bytes}
  {node : PropertyNode} {allocated : Allocations}

theorem setInNode_cases (allocated : Allocations) (db : Database) (node : PropertyNode)
    (name : CString16) (value : Bytes) :
    let after := setInNode allocated db node name value
    let old := internalGetProperty node name
    (old.any (·.holds value) = true ∧ after = (.success, db)) ∨
    (old.any (·.holds value) = false ∧ allocated.forProperty = true ∧
      after.1 = .success ∧ after.2.nodes = KeyedList.change PropertyNode.devicePath node.devicePath
          (PropertyNode.insertTail (newProperty name value))
          (match old with
            | some _ => (db.atNode node.devicePath (PropertyNode.unlink name)).nodes
            | none => db.nodes)) ∨
    (old.any (·.holds value) = false ∧ allocated.forProperty = false ∧
      after.1 = .outOfResources ∧ after.2.nodes = (match old with
          | some _ => (db.atNode node.devicePath (PropertyNode.unlink name)).nodes
          | none => db.nodes)) := by
  intro after old
  by_cases holds : old.any (·.holds value) = true
  · exact Or.inl ⟨holds, by simp only [after, setInNode]; rw [if_pos holds]⟩
  · have differs : old.any (·.holds value) = false := Bool.eq_false_iff.mpr holds
    have entered : after = setInNode allocated db node name value := rfl
    simp only [setInNode] at entered
    rw [if_neg holds] at entered
    obtain ⟨_, property, keyName, data⟩ := allocated
    cases property <;> cases keyName <;> cases data <;>
      simp only [Bool.not_false, Bool.not_true, if_true, if_false, Bool.false_eq_true] at entered <;>
      rw [entered, differs] <;>
      simp [Allocations.forProperty, Database.atNode, old] <;>
      cases internalGetProperty node name <;> rfl

/-- Taking the old property out and putting the new one in is one change of the node. -/
theorem put_change (found : internalGetPropertyNode db devicePath = some node) :
    KeyedList.change PropertyNode.devicePath devicePath
        (PropertyNode.insertTail (newProperty name value))
        (match internalGetProperty node name with
          | some _ => (db.atNode devicePath (PropertyNode.unlink name)).nodes
          | none => db.nodes) = (db.atNode devicePath (putProperty name value)).nodes := by
  rw [internalGetPropertyNode_eq] at found
  have onNode : ∀ entry, KeyedList.find PropertyNode.devicePath devicePath db.nodes =
      some entry → entry = node := fun entry hit => Option.some.inj (hit.symm.trans found)
  cases old : internalGetProperty node name with
  | none =>
    apply KeyedList.change_congr
    intro entry hit
    rw [onNode entry hit, putProperty, old]
  | some property =>
    simp only [Database.atNode]
    rw [KeyedList.change_change (unlink_devicePath name)]
    apply KeyedList.change_congr
    intro entry hit
    rw [onNode entry hit, putProperty, old]
    rfl

theorem consistent_congr {other : Database} (consistent : Consistent db)
    (same : other.nodes = db.nodes) : Consistent other :=
  ⟨same ▸ consistent.pathsUnique, same ▸ consistent.nodesOk, same ▸ consistent.listed⟩

theorem lookup_congr {other : Database} (same : other.nodes = db.nodes) :
    lookup other = lookup db := by
  funext path key
  rw [lookup_eq, lookup_eq, same]

theorem holds_value {property : Property} (ok : NodeOk node)
    (found : internalGetProperty node name = some property) (holds : property.holds value = true) :
    property.value.data = value := by
  obtain ⟨member, _⟩ := KeyedList.find_mem found
  obtain ⟨sized, _⟩ := ok.sized property member
  obtain ⟨sizes, bytes⟩ := Bool.and_eq_true_iff.mp holds
  have length : property.value.data.length = value.length := by
    have equal : property.value.size = value.length + 4 := by simpa using sizes
    omega
  have equal : property.value.data.take value.length = value.take value.length := by
    simpa [compareMemEqual] using bytes
  rw [← length, take_length, length, take_length] at equal
  exact equal

theorem set_same (found : lookup db devicePath name = some value) :
    PropertyMap.set (lookup db) devicePath name value = lookup db := by
  funext path key
  simp only [PropertyMap.set]
  by_cases same : path = devicePath ∧ key = name
  · rw [if_pos same, same.1, same.2, found]
  · rw [if_neg same]

theorem old_holds (ok : NodeOk node)
    (holds : (internalGetProperty node name).any (·.holds value) = true) :
    nodeValue node name = some value := by
  cases found : internalGetProperty node name with
  | none => rw [found] at holds; cases holds
  | some property =>
    rw [found] at holds
    rw [nodeValue, found, Option.map_some, holds_value ok found holds]

theorem set_found (consistent : Consistent db)
    (fits : allocated.forProperty = true → value.length + 4 < u32)
    (found : internalGetPropertyNode db node.devicePath = some node)
    (success : (setInNode allocated db node name value).1 = .success) :
    let after := (setInNode allocated db node name value).2
    Consistent after ∧ lookup after = PropertyMap.set (lookup db) node.devicePath name value := by
  intro after
  obtain ⟨ok, _⟩ := found_ok consistent found
  rcases setInNode_cases allocated db node name value with
    ⟨holds, same⟩ | ⟨_, stored, _, nodes⟩ | ⟨_, _, failed, _⟩
  · have value := old_holds ok holds
    simp only [after, same]
    exact ⟨consistent, (set_same (by simp [lookup, found, value])).symm⟩
  · rw [put_change found] at nodes
    constructor
    · apply consistent_congr _ nodes
      apply atNode_consistent consistent putProperty_devicePath
      intro entry hit
      exact ⟨putProperty_ok (found_ok consistent hit).1 (fits stored), putProperty_listed entry⟩
    · rw [lookup_congr nodes]
      funext path key
      rw [atNode_lookup putProperty_devicePath found, putProperty_value ok]
      by_cases here : path = node.devicePath
      · subst here
        simp [PropertyMap.set, lookup, found]
      · simp [PropertyMap.set, here]
  · rw [failed] at success
    cases success

def created (db : Database) (devicePath : Bytes) : Database :=
  { nodes := db.nodes ++ [newNode devicePath], modified := true }

-- The new node stands empty behind the others until the property is put into it.
theorem set_created (consistent : Consistent db)
    (fits : allocated.forProperty = true → value.length + 4 < u32)
    (found : internalGetPropertyNode db devicePath = none)
    (success : (setInNode allocated (created db devicePath) (newNode devicePath) name value).1 = .success) :
    let after := (setInNode allocated (created db devicePath) (newNode devicePath) name value).2
    Consistent after ∧ lookup after = PropertyMap.set (lookup db) devicePath name value := by
  intro after
  have absent : internalGetProperty (newNode devicePath) name = none := rfl
  have fresh : internalGetPropertyNode db
      (putProperty name value (newNode devicePath)).devicePath = none := by
    rw [putProperty_devicePath]
    exact found
  rcases setInNode_cases allocated (created db devicePath) (newNode devicePath) name value with
    ⟨holds, _⟩ | ⟨_, stored, _, nodes⟩ | ⟨_, _, failed, _⟩
  · rw [absent] at holds
    cases holds
  · have whole : after.nodes = db.nodes ++ [putProperty name value (newNode devicePath)] := by
      simp only [after]
      rw [nodes, absent]
      rw [internalGetPropertyNode_eq] at found
      have absentPath : KeyedList.find PropertyNode.devicePath (newNode devicePath).devicePath
          db.nodes = none := found
      exact KeyedList.change_append_fresh absentPath
    have appended := append_consistent consistent fresh
      (putProperty_ok (newNode_ok devicePath) (fits stored)) (putProperty_listed _) true
    refine ⟨consistent_congr appended whole, ?_⟩
    have shown : lookup after = lookup ⟨db.nodes ++ [_], true⟩ := lookup_congr whole
    rw [shown]
    funext path key
    rw [append_lookup fresh, putProperty_devicePath, putProperty_value (newNode_ok _)]
    by_cases here : path = devicePath
    · subst here
      by_cases same : key = name
      · simp [PropertyMap.set, newNode, same]
      · simp [PropertyMap.set, newNode, same, lookup, found, nodeValue, internalGetProperty]
    · simp [PropertyMap.set, newNode, here]
  · rw [failed] at success
    cases success

/-- A set keeps to the map: it stores a value whose size fits, or fails before
anything is taken out or put in. -/
def SetCareful (allocated : Allocations) (db : Database) (devicePath : Bytes)
    (name : CString16) (value : Bytes) : Prop :=
  match internalGetPropertyNode db devicePath with
  | none => allocated.node = false ∨ allocated.forProperty = true ∧ value.length + 4 < u32
  | some node =>
    match internalGetProperty node name with
    | none => allocated.forProperty = false ∨ value.length + 4 < u32
    | some property =>
      property.holds value = true ∨ allocated.forProperty = true ∧ value.length + 4 < u32

instance : Decidable (SetCareful allocated db devicePath name value) := by
  unfold SetCareful
  split
  · infer_instance
  · split <;> infer_instance

theorem set_success (consistent : Consistent db)
    (careful : SetCareful allocated db devicePath name value)
    (success : (dppDbSetProperty allocated db devicePath name value).1 = .success) :
    let after := (dppDbSetProperty allocated db devicePath name value).2
    Consistent after ∧ lookup after = PropertyMap.set (lookup db) devicePath name value := by
  cases found : internalGetPropertyNode db devicePath with
  | some node =>
    obtain ⟨ok, rfl⟩ := found_ok consistent found
    simp only [dppDbSetProperty, found, SetCareful] at success careful ⊢
    by_cases held : (internalGetProperty node name).any (·.holds value) = true
    · rcases setInNode_cases allocated db node name value with
        ⟨_, same⟩ | ⟨differs, _⟩ | ⟨differs, _⟩
      · rw [same]
        have stored := old_holds ok held
        exact ⟨consistent, (set_same (by simp [lookup, found, stored])).symm⟩
      all_goals
        rw [differs] at held
        cases held
    · apply set_found consistent _ found success
      intro all
      cases old : internalGetProperty node name with
      | none => simpa [old, all] using careful
      | some property =>
        rw [old] at careful held
        rcases careful with holds | ⟨_, fits⟩
        · exact absurd holds held
        · exact fits
  | none =>
    cases allocatedNode : allocated.node with
    | false =>
      simp only [dppDbSetProperty, found, allocatedNode] at success
      cases success
    | true =>
      have entered : dppDbSetProperty allocated db devicePath name value =
          setInNode allocated (created db devicePath) (newNode devicePath) name value := by
        simp [dppDbSetProperty, found, allocatedNode, created]
      simp only [SetCareful, found, allocatedNode] at careful
      rw [entered] at success ⊢
      apply set_created consistent _ found success
      intro all
      rcases careful with failed | ⟨_, fits⟩
      · cases failed
      · exact fits

theorem set_failure (careful : SetCareful allocated db devicePath name value)
    (failed : (dppDbSetProperty allocated db devicePath name value).1 ≠ .success) :
    (dppDbSetProperty allocated db devicePath name value).2.nodes = db.nodes := by
  cases found : internalGetPropertyNode db devicePath with
  | some node =>
    simp only [dppDbSetProperty, found, SetCareful] at failed careful ⊢
    rcases setInNode_cases allocated db node name value with
      ⟨_, same⟩ | ⟨_, _, success, _⟩ | ⟨differs, failing, _, nodes⟩
    · rw [same]
    · exact absurd success failed
    · cases old : internalGetProperty node name with
      | none => rw [nodes, old]
      | some property =>
        rw [old] at careful differs
        rcases careful with holds | ⟨all, _⟩
        · rw [Option.any_some, holds] at differs
          cases differs
        · rw [failing] at all
          cases all
  | none =>
    cases allocatedNode : allocated.node with
    | false => simp [dppDbSetProperty, found, allocatedNode]
    | true =>
      simp only [SetCareful, found, allocatedNode] at careful
      rcases careful with never | ⟨all, _⟩
      · cases never
      · have entered : dppDbSetProperty allocated db devicePath name value =
            setInNode allocated (created db devicePath) (newNode devicePath) name value := by
          simp [dppDbSetProperty, found, allocatedNode, created]
        rw [entered] at failed
        rcases setInNode_cases allocated (created db devicePath) (newNode devicePath)
            name value with ⟨_, same⟩ | ⟨_, _, success, _⟩ | ⟨_, failing, _, _⟩
        · rw [same] at failed
          exact absurd rfl failed
        · exact absurd success failed
        · rw [failing] at all
          cases all

end Set

section Remove

variable {db : Database} {devicePath : Bytes} {name key : CString16} {node : PropertyNode}

theorem unlinked_empty (ok : NodeOk node) (found : (internalGetProperty node name).isSome)
    (empty : (node.unlink name).numberOfProperties = 0) : nodeValue (node.unlink name) key = none := by
  have none : (node.unlink name).properties = [] :=
    length_eq_zero_iff.mp ((unlink_ok ok found).counted.symm.trans empty)
  rw [nodeValue, internalGetProperty, none]
  rfl

theorem erase_consistent (consistent : Consistent db) (modified : Bool) :
    Consistent
      { nodes := KeyedList.erase PropertyNode.devicePath devicePath db.nodes, modified } := by
  constructor
  · exact KeyedList.unique_erase consistent.pathsUnique
  · exact fun node member =>
      consistent.nodesOk node (KeyedList.mem_erase consistent.pathsUnique member).1
  · exact fun node member =>
      consistent.listed node (KeyedList.mem_erase consistent.pathsUnique member).1

theorem erase_change {changed : PropertyNode → PropertyNode}
    (keeps : ∀ node, (changed node).devicePath = node.devicePath) (nodes : List PropertyNode) :
    KeyedList.erase PropertyNode.devicePath devicePath
        (KeyedList.change PropertyNode.devicePath devicePath changed nodes) =
      KeyedList.erase PropertyNode.devicePath devicePath nodes := by
  induction nodes with
  | nil => rfl
  | cons first rest ih =>
    simp only [KeyedList.erase] at ih
    by_cases hit : first.devicePath = devicePath
    · simp [KeyedList.change, KeyedList.erase, hit, keeps]
    · simp [KeyedList.change, KeyedList.erase, hit, ih]

theorem remove_found (consistent : Consistent db)
    (found : internalGetPropertyNode db devicePath = some node)
    (present : (internalGetProperty node name).isSome) :
    let after := dppDbRemoveProperty db devicePath name
    after.1 = .success ∧ Consistent after.2 ∧
      lookup after.2 = PropertyMap.remove (lookup db) devicePath name := by
  intro after
  obtain ⟨ok, same⟩ := found_ok consistent found
  obtain ⟨property, old⟩ := Option.isSome_iff_exists.mp present
  by_cases empty : (node.unlink name).numberOfProperties = 0
  · have removed : after = (.success,
        { nodes := KeyedList.erase PropertyNode.devicePath devicePath db.nodes,
          modified := true }) := by
      simp only [after, dppDbRemoveProperty, found, old, empty, if_true, Database.atNode]
      rw [erase_change (unlink_devicePath name)]
    rw [removed]
    refine ⟨rfl, erase_consistent consistent true, ?_⟩
    funext path key
    have emptied : nodeValue (node.unlink name) key = none := unlinked_empty ok present empty
    rw [unlink_value ok] at emptied
    rw [lookup_eq, KeyedList.find_erase consistent.pathsUnique]
    by_cases here : path = devicePath
    · subst here
      simp only [PropertyMap.remove, lookup, found, if_true, Option.bind_none, Option.bind_some,
        true_and]
      exact emptied.symm
    · simp [PropertyMap.remove, here, lookup_eq]
  · have success : after.1 = .success := by
      simp only [after, dppDbRemoveProperty, found, old, empty, if_false]
    have nodes : after.2.nodes = (db.atNode devicePath (PropertyNode.unlink name)).nodes := by
      simp only [after, dppDbRemoveProperty, found, old, empty, if_false]
    refine ⟨success, ?_, ?_⟩
    · apply consistent_congr _ nodes
      apply atNode_consistent consistent (unlink_devicePath name)
      intro entry hit
      rw [found, Option.some.injEq] at hit
      subst hit
      exact ⟨unlink_ok ok present, empty⟩
    · rw [lookup_congr nodes]
      funext path key
      rw [atNode_lookup (unlink_devicePath name) found, unlink_value ok]
      by_cases here : path = devicePath
      · subst here
        simp [PropertyMap.remove, lookup, found]
      · simp [PropertyMap.remove, here]

theorem remove_missing (absent : lookup db devicePath name = none) :
    dppDbRemoveProperty db devicePath name = (.notFound, db) := by
  cases found : internalGetPropertyNode db devicePath with
  | none => simp [dppDbRemoveProperty, found]
  | some node =>
    simp only [lookup, found, nodeValue, Option.bind_some, Option.map_eq_none_iff] at absent
    simp [dppDbRemoveProperty, found, absent]

theorem remove_present (consistent : Consistent db)
    (present : (lookup db devicePath name).isSome) :
    let after := dppDbRemoveProperty db devicePath name
    after.1 = .success ∧ Consistent after.2 ∧
      lookup after.2 = PropertyMap.remove (lookup db) devicePath name := by
  cases found : internalGetPropertyNode db devicePath with
  | none =>
    rw [lookup, found] at present
    cases present
  | some node =>
    apply remove_found consistent found
    simpa [lookup, found, nodeValue] using present

end Remove

section Get

variable {db : Database} {devicePath : Bytes} {name : CString16}

def PropertyMap.get (map : PropertyMap) (devicePath : Bytes) (name : CString16) (size : Nat) :
    EfiStatus × Nat × Bytes :=
  match map devicePath name with
  | none => (.notFound, size, [])
  | some value =>
    if size < value.length then (.bufferTooSmall, value.length, [])
    else (.success, value.length, value)

theorem valueSize_eq {property : Property}
    (sized : property.value.size = property.value.data.length + 4 ∧ property.value.size < u32) :
    property.valueSize = property.value.data.length := by
  obtain ⟨equal, fits⟩ := sized
  simp only [u32_val] at fits
  simp only [Property.valueSize, wrapSub, u64_val]
  omega

theorem get_eq (consistent : Consistent db) (devicePath : Bytes) (name : CString16) (size : Nat) :
    dppDbGetProperty db devicePath name size =
      PropertyMap.get (lookup db) devicePath name size := by
  cases found : internalGetPropertyNode db devicePath with
  | none => simp [dppDbGetProperty, PropertyMap.get, lookup, found]
  | some node =>
    obtain ⟨ok, _⟩ := found_ok consistent found
    cases present : internalGetProperty node name with
    | none => simp [dppDbGetProperty, PropertyMap.get, lookup, nodeValue, found, present]
    | some property =>
      have sizes := valueSize_eq (ok.sized property (KeyedList.find_mem present).1)
      simp [dppDbGetProperty, PropertyMap.get, lookup, nodeValue, found, present, sizes]

end Get

section Runs

inductive Call where
  | set (allocated : Allocations) (devicePath : Bytes) (name : CString16) (value : Bytes)
  | remove (devicePath : Bytes) (name : CString16)
  | get (devicePath : Bytes) (name : CString16) (size : Nat)

structure Answer where
  status : EfiStatus
  got : Option (Nat × Bytes)
  deriving DecidableEq

def step (db : Database) : Call → Answer × Database
  | .set allocated devicePath name value =>
    let after := dppDbSetProperty allocated db devicePath name value
    ({ status := after.1, got := none }, after.2)
  | .remove devicePath name =>
    let after := dppDbRemoveProperty db devicePath name
    ({ status := after.1, got := none }, after.2)
  | .get devicePath name size =>
    let answer := dppDbGetProperty db devicePath name size
    ({ status := answer.1, got := some answer.2 }, db)

def empty : Database := { nodes := [], modified := false }

/-- The map behind a call: only a set or a remove that succeeds changes it. -/
def mapAfter (map : PropertyMap) (answer : Answer) : Call → PropertyMap
  | .set _ devicePath name value =>
    if answer.status = .success then map.set devicePath name value else map
  | .remove devicePath name =>
    if answer.status = .success then map.remove devicePath name else map
  | .get _ _ _ => map

def Answered (map : PropertyMap) (db : Database) (call : Call) : Prop :=
  let answer := (step db call).1
  let after := (step db call).2
  match call with
  | .set _ _ _ _ => answer.status ≠ .success → after.nodes = db.nodes
  | .remove devicePath name =>
    answer.status = (if (map devicePath name).isSome then .success else .notFound) ∧
      (answer.status ≠ .success → after.nodes = db.nodes)
  | .get devicePath name size =>
    let got := map.get devicePath name size
    answer = { status := got.1, got := some got.2 } ∧ after = db

/-- Along the calls the database is consistent and shows the map of the last
values that were set. -/
def BehavesAsMap : Database → PropertyMap → List Call → Prop
  | db, map, [] => Consistent db ∧ lookup db = map
  | db, map, call :: rest =>
    Consistent db ∧ lookup db = map ∧ Answered map db call ∧
      BehavesAsMap (step db call).2 (mapAfter map (step db call).1 call) rest

def Careful (db : Database) : Call → Prop
  | .set allocated devicePath name value => SetCareful allocated db devicePath name value
  | _ => True

def CarefulRun : Database → List Call → Prop
  | _, [] => True
  | db, call :: rest => Careful db call ∧ CarefulRun (step db call).2 rest

theorem step_shows {db : Database} {call : Call} (consistent : Consistent db)
    (careful : Careful db call) :
    let after := step db call
    Consistent after.2 ∧ lookup after.2 = mapAfter (lookup db) after.1 call ∧
      Answered (lookup db) db call := by
  intro after
  cases call with
  | set allocated devicePath name value =>
    by_cases success :
        (dppDbSetProperty allocated db devicePath name value).1 = .success
    · obtain ⟨kept, map⟩ := set_success consistent careful success
      refine ⟨kept, ?_, fun failed => absurd success failed⟩
      simp only [after, step, mapAfter, success, if_true]
      exact map
    · have same := set_failure careful success
      refine ⟨consistent_congr consistent same, ?_, fun _ => same⟩
      simp only [after, step, mapAfter, success, if_false]
      exact lookup_congr same
  | remove devicePath name =>
    cases present : (lookup db devicePath name).isSome with
    | true =>
      obtain ⟨success, kept, map⟩ := remove_present consistent present
      refine ⟨kept, ?_, ?_⟩
      · simp only [after, step, mapAfter, success, if_true]
        exact map
      · simp [Answered, step, success, present]
    | false =>
      have absent : lookup db devicePath name = none := by simpa using present
      have same := remove_missing absent
      simp only [after, step, same, mapAfter, Answered, absent]
      exact ⟨consistent, by simp, by simp⟩
  | get devicePath name size =>
    refine ⟨consistent, rfl, ?_, rfl⟩
    simp only [step, get_eq consistent]

theorem empty_consistent : Consistent empty := by
  constructor
  · exact nodup_nil
  · intro node member
    cases member
  · intro node member
    cases member

theorem careful_run_behaves (calls : List Call) (db : Database)
    (consistent : Consistent db) (careful : CarefulRun db calls) :
    BehavesAsMap db (lookup db) calls := by
  induction calls generalizing db with
  | nil => exact ⟨consistent, rfl⟩
  | cons call rest ih =>
    obtain ⟨first, later⟩ := careful
    obtain ⟨kept, map, answered⟩ := step_shows consistent first
    refine ⟨consistent, rfl, answered, ?_⟩
    rw [← map]
    exact ih _ kept later

/-- From the empty database on, careful calls show the map of their history. -/
theorem database_behaves_as_map (calls : List Call) (careful : CarefulRun empty calls) :
    BehavesAsMap empty (fun _ _ => none) calls :=
  careful_run_behaves calls empty empty_consistent careful

structure Lasting (good : PropertyNode → Prop) : Prop where
  created : ∀ devicePath, good (newNode devicePath)
  unlinked : ∀ node name, good node → good (PropertyNode.unlink name node)
  inserted : ∀ node name value, good node → good (node.insertTail (newProperty name value))

def AllNodes (good : PropertyNode → Prop) (nodes : List PropertyNode) : Prop :=
  KeyedList.Unique PropertyNode.devicePath nodes ∧ ∀ node ∈ nodes, good node

variable {good : PropertyNode → Prop}

theorem allNodes_change {nodes : List PropertyNode} {devicePath : Bytes}
    {changed : PropertyNode → PropertyNode} (all : AllNodes good nodes)
    (keeps : ∀ node, (changed node).devicePath = node.devicePath)
    (stays : ∀ node, good node → good (changed node)) :
    AllNodes good (KeyedList.change PropertyNode.devicePath devicePath changed nodes) := by
  refine ⟨KeyedList.unique_change keeps all.1, fun node member => ?_⟩
  rcases KeyedList.mem_change all.1 member with ⟨old, _⟩ | ⟨old, found, same⟩
  · exact all.2 node old
  · rw [same]
    exact stays old (all.2 old (KeyedList.find_mem found).1)

theorem setInNode_keeps (lasting : Lasting good) (allocated : Allocations) {db : Database}
    (node : PropertyNode) (name : CString16) (value : Bytes) (all : AllNodes good db.nodes) :
    AllNodes good (setInNode allocated db node name value).2.nodes := by
  have unlinked : AllNodes good (match internalGetProperty node name with
      | some _ => (db.atNode node.devicePath (PropertyNode.unlink name)).nodes
      | none => db.nodes) := by
    split
    · exact allNodes_change all (unlink_devicePath name) fun node => lasting.unlinked node name
    · exact all
  rcases setInNode_cases allocated db node name value with
    ⟨_, same⟩ | ⟨_, _, _, nodes⟩ | ⟨_, _, _, nodes⟩
  · rw [same]
    exact all
  · rw [nodes]
    exact allNodes_change unlinked (fun _ => rfl) fun node => lasting.inserted node name value
  · rw [nodes]
    exact unlinked

theorem step_keeps (lasting : Lasting good) {db : Database} (call : Call)
    (all : AllNodes good db.nodes) : AllNodes good (step db call).2.nodes := by
  cases call with
  | set allocated devicePath name value =>
    simp only [step, dppDbSetProperty]
    split
    · exact setInNode_keeps lasting allocated _ name value all
    · next found =>
        split
        · exact all
        · apply setInNode_keeps lasting
          rw [internalGetPropertyNode_eq] at found
          refine ⟨KeyedList.unique_append_fresh all.1 found, fun node member => ?_⟩
          rcases mem_append.mp member with old | new
          · exact all.2 node old
          · exact mem_singleton.mp new ▸ lasting.created devicePath
  | remove devicePath name =>
    have unlinked : AllNodes good (KeyedList.change PropertyNode.devicePath devicePath
        (PropertyNode.unlink name) db.nodes) :=
      allNodes_change all (unlink_devicePath name) fun node => lasting.unlinked node name
    simp only [step, dppDbRemoveProperty]
    split
    · exact all
    · split
      · exact all
      · split
        · exact ⟨KeyedList.unique_erase unlinked.1, fun node member =>
            unlinked.2 node (KeyedList.mem_erase unlinked.1 member).1⟩
        · exact unlinked
  | get devicePath name size => exact all

def databaseAfter (calls : List Call) : Database :=
  calls.foldl (fun db call => (step db call).2) empty

theorem run_keeps (lasting : Lasting good) (calls : List Call) :
    AllNodes good (databaseAfter calls).nodes := by
  induction calls using List.reverseRecOn with
  | nil => exact ⟨nodup_nil, fun _ member => absurd member not_mem_nil⟩
  | append_singleton calls call ih =>
    rw [databaseAfter, foldl_append]
    exact step_keeps lasting call ih

instance (db : Database) (call : Call) : Decidable (Careful db call) := by
  cases call <;> unfold Careful <;> infer_instance

instance decidableCarefulRun : ∀ (db : Database) (calls : List Call),
    Decidable (CarefulRun db calls)
  | _, [] => .isTrue trivial
  | db, call :: rest =>
    have : Decidable (CarefulRun (step db call).2 rest) := decidableCarefulRun _ rest
    inferInstanceAs (Decidable (_ ∧ _))

def endPath : Bytes := [0x7F, 0xFF, 4, 0]

def sampleName : CString16 := ⟨[97], by decide⟩

def sampleCalls : List Call :=
  [.set allAllocated endPath sampleName [1], .set allAllocated endPath sampleName [2, 3],
    .get endPath sampleName 8, .set { allAllocated with node := false } [1, 1, 6, 0, 0, 0] sampleName [4],
    .remove endPath sampleName, .remove endPath sampleName]

theorem database_behaves_as_map_sample : BehavesAsMap empty (fun _ _ => none) sampleCalls :=
  database_behaves_as_map sampleCalls (by decide)

/-- The second set fails for want of memory for its value; the value of the first is
lost, and a node without properties stays listed. -/
def failingCalls : List Call :=
  [.set allAllocated endPath sampleName [1],
    .set { allAllocated with value := false } endPath sampleName [2]]

theorem failed_set_loses_value :
    ¬ BehavesAsMap empty (fun _ _ => none) failingCalls ∧
      (databaseAfter failingCalls).nodes =
        [newNode endPath] := by
  refine ⟨?_, by decide⟩
  rintro ⟨_, _, _, _, _, answered, _⟩
  have changed : (step (step empty (.set allAllocated endPath sampleName [1])).2
      (.set { allAllocated with value := false } endPath sampleName [2])).2.nodes ≠
        (step empty (.set allAllocated endPath sampleName [1])).2.nodes := by decide
  exact changed (answered (by decide))

end Runs

end OpenCore.DevicePropertyMap
