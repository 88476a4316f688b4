import OpenCore.DevicePropertyLayout
import OpenCore.DevicePropertyMap
import OpenCore.DevicePropertyVariables

/-!
What becomes of a stored property database. The reader tries one variable more than
there are, so that only a buffer of the highest number of variables gets past its
status; and there the records of a node are looked for four bytes behind their
place.
-/

namespace OpenCore.DevicePropertyRoundTrip

open Base ByteBuffer DeviceProperties DevicePropertyMap DevicePropertyBuffer
  DevicePropertyLayout DevicePropertyVariables

section Records

def recordsRead (memory : Bytes) : Nat → Nat → Nat → Option (List (CString16 × Bytes))
  | 0, _, _ => some []
  | left + 1, nameData, valueData =>
    (readProperty memory nameData valueData).bind fun property =>
      let nextName := valueData + load memory 4 valueData
      let nextValue := valueData + load memory 4 valueData + load memory 4 nextName
      (recordsRead memory left nextName nextValue).map (property :: ·)

def setAll (devicePath : Bytes) (pairs : List (CString16 × Bytes)) (db : Database) : Database :=
  pairs.foldl (fun db pair =>
    (dppDbSetProperty allAllocated db devicePath pair.1 pair.2).2) db

def lastValue (pairs : List (CString16 × Bytes)) (name : CString16) (before : Option Bytes) :
    Option Bytes :=
  pairs.foldl (fun seen pair => if name = pair.1 then some pair.2 else seen) before

variable {memory devicePath : Bytes} {db : Database} {pairs : List (CString16 × Bytes)}

theorem readProperties_eq (memory devicePath : Bytes) (left nameData valueData : Nat)
    (db : Database) :
    readProperties memory devicePath left nameData valueData db =
      (recordsRead memory left nameData valueData).map fun pairs =>
        setAll devicePath pairs db := by
  induction left generalizing nameData valueData db with
  | zero => rfl
  | succ left ih =>
    rw [readProperties, recordsRead]
    cases readProperty memory nameData valueData with
    | none => rfl
    | some property =>
      simp only [Option.bind_some, ih, Option.map_map]
      rfl

theorem readProperty_short {nameData valueData : Nat} {property : CString16 × Bytes}
    (read : readProperty memory nameData valueData = some property) :
    property.2.length + 4 < u32 := by
  have small := load_lt memory 4 valueData
  simp only [readProperty] at read
  split at read
  · next bounds =>
      obtain ⟨name, _, rfl⟩ := Option.map_eq_some_iff.mp read
      simp only [List.length_take, u32_val]
      omega
  · cases read

theorem recordsRead_short {left nameData valueData : Nat}
    (read : recordsRead memory left nameData valueData = some pairs) :
    ∀ pair ∈ pairs, pair.2.length + 4 < u32 := by
  induction left generalizing nameData valueData pairs with
  | zero =>
    cases read
    exact fun _ member => absurd member List.not_mem_nil
  | succ left ih =>
    obtain ⟨property, first, later⟩ := Option.bind_eq_some_iff.mp read
    obtain ⟨rest, reads, rfl⟩ := Option.map_eq_some_iff.mp later
    intro pair member
    rcases List.mem_cons.mp member with same | behind
    · exact same ▸ readProperty_short first
    · exact ih reads pair behind

theorem set_careful {name : CString16} {value : Bytes} (fits : value.length + 4 < u32) :
    SetCareful allAllocated db devicePath name value := by
  unfold SetCareful
  split
  · exact Or.inr ⟨rfl, fits⟩
  · split
    · exact Or.inr fits
    · exact Or.inr ⟨rfl, fits⟩

theorem set_allAllocated (db : Database) (devicePath : Bytes) (name : CString16) (value : Bytes) :
    (dppDbSetProperty allAllocated db devicePath name value).1 = .success := by
  have stores : ∀ db node, (setInNode allAllocated db node name value).1 = .success := by
    intro db node
    rcases setInNode_cases allAllocated db node name value with
      ⟨_, same⟩ | ⟨_, _, success, _⟩ | ⟨_, never, _⟩
    · rw [same]
    · exact success
    · cases never
  cases found : internalGetPropertyNode db devicePath with
  | none =>
    simp only [dppDbSetProperty, found, allAllocated, Bool.not_true, Bool.false_eq_true, if_false]
    exact stores _ _
  | some node =>
    simp only [dppDbSetProperty, found]
    exact stores _ _

theorem setAll_lookup (consistent : Consistent db)
    (short : ∀ pair ∈ pairs, pair.2.length + 4 < u32) :
    Consistent (setAll devicePath pairs db) ∧
      ∀ path name, lookup (setAll devicePath pairs db) path name =
        if path = devicePath then lastValue pairs name (lookup db devicePath name)
        else lookup db path name := by
  induction pairs generalizing db with
  | nil =>
    refine ⟨consistent, fun path name => ?_⟩
    by_cases here : path = devicePath <;> simp [setAll, lastValue, here]
  | cons pair rest ih =>
    obtain ⟨kept, map⟩ := set_success consistent
      (set_careful (short pair List.mem_cons_self)) (set_allAllocated db devicePath pair.1 pair.2)
    obtain ⟨ends, maps⟩ := ih kept fun other member => short other (List.mem_cons_of_mem pair member)
    refine ⟨ends, fun path name => ?_⟩
    have step : setAll devicePath (pair :: rest) db = setAll devicePath rest
        (dppDbSetProperty allAllocated db devicePath pair.1 pair.2).2 := rfl
    rw [step, maps, map]
    by_cases here : path = devicePath
    · simp [PropertyMap.set, here, lastValue]
    · simp [PropertyMap.set, here]

end Records

section Nodes

variable {getDevicePathSize : Bytes → Nat} {memory : Bytes}
variable {place : Nat} {node : PropertyNode} {nodes : List PropertyNode} {rest : List PropertyNode}

structure LaidFrom (getDevicePathSize : Bytes → Nat) (memory : Bytes) (nodes : List PropertyNode)
    (place : Nat) : Prop where
  laid : ∃ behind, memory.drop place = nodes.flatMap nodeBytes ++ behind
  recorded : ∀ node ∈ nodes, ∀ property ∈ node.properties, Recorded property
  fits : ∀ node ∈ nodes, ∀ property ∈ node.properties, Fits property
  small : ∀ node ∈ nodes, nodeSize node < u32
  paths : ∀ node ∈ nodes, ∀ behind,
    getDevicePathSize (node.devicePath ++ behind) = node.devicePath.length

def nameDataOf (place : Nat) (node : PropertyNode) : Nat :=
  place + node.devicePath.length + bufferHeader

def recordsOf (memory : Bytes) (place : Nat) (node : PropertyNode) :
    Option (List (CString16 × Bytes)) :=
  recordsRead memory (node.numberOfProperties % u32) (nameDataOf place node)
    (nameDataOf place node + load memory 4 (nameDataOf place node))

/-- The records found for each node, four bytes behind their place, spell the
properties of the node. -/
def LateRecords (memory : Bytes) : List PropertyNode → Nat → Prop
  | [], _ => True
  | node :: rest, place =>
    (∃ pairs, recordsOf memory place node = some pairs ∧
      ∀ name, lastValue pairs name none = nodeValue node name) ∧
      LateRecords memory rest (place + nodeSize node)

theorem load_drop (memory : Bytes) (width place : Nat) :
    load memory width place = load (memory.drop place) width 0 := by
  apply load_congr
  intro index _
  simp [byteAt, List.getD, List.getElem?_drop]

theorem LaidFrom.next (laid : LaidFrom getDevicePathSize memory (node :: rest) place) :
    LaidFrom getDevicePathSize memory rest (place + nodeSize node) := by
  obtain ⟨behind, bytes⟩ := laid.laid
  have length := nodeBytes_length (laid.recorded node List.mem_cons_self)
    (laid.fits node List.mem_cons_self)
  constructor
  · refine ⟨behind, ?_⟩
    rw [← List.drop_drop, bytes, List.flatMap_cons, List.append_assoc, ← length, List.drop_left]
  · exact fun other member => laid.recorded other (List.mem_cons_of_mem node member)
  · exact fun other member => laid.fits other (List.mem_cons_of_mem node member)
  · exact fun other member => laid.small other (List.mem_cons_of_mem node member)
  · exact fun other member => laid.paths other (List.mem_cons_of_mem node member)

theorem readNodes_cons (laid : LaidFrom getDevicePathSize memory (node :: rest) place) (left : Nat)
    (db : Database) :
    readNodes getDevicePathSize memory (left + 1) place db =
      ((recordsOf memory place node).map fun pairs =>
        setAll node.devicePath pairs db).bind
          (readNodes getDevicePathSize memory left (place + nodeSize node)) := by
  obtain ⟨behind, bytes⟩ := laid.laid
  have small := laid.small node List.mem_cons_self
  rw [List.flatMap_cons, List.append_assoc, nodeBytes, List.append_assoc, List.append_assoc,
    List.append_assoc] at bytes
  generalize recordsBytes node.properties ++ (rest.flatMap nodeBytes ++ behind) = tail at bytes
  have size : load memory 4 place = nodeSize node := by
    rw [load_drop, bytes, load_encode]
    exact Nat.mod_eq_of_lt small
  have count : load memory 4 (place + 4) = node.numberOfProperties % u32 := by
    have after : memory.drop (place + 4) =
        encode 4 node.numberOfProperties ++ (node.devicePath ++ tail) := by
      rw [← List.drop_drop, bytes]
      exact List.drop_left' (encode_length 4 _)
    rw [load_drop, after, load_encode]
    rfl
  have path : memory.drop (place + nodeHeader) = node.devicePath ++ tail := by
    have header : place + nodeHeader = place + 4 + 4 := rfl
    rw [header, ← List.drop_drop, ← List.drop_drop, bytes]
    rw [List.drop_left' (encode_length 4 _), List.drop_left' (encode_length 4 _)]
  have pathSize := laid.paths node List.mem_cons_self
  simp only [readNodes, size, count, path, pathSize, List.take_left]
  rw [← nameDataOf, readProperties_eq]
  by_cases none : node.numberOfProperties % u32 = 0
  · rw [recordsOf, none]
    rfl
  · rw [if_pos (Nat.pos_of_ne_zero none), recordsOf]

theorem recordsOf_short {pairs : List (CString16 × Bytes)}
    (read : recordsOf memory place node = some pairs) : ∀ pair ∈ pairs, pair.2.length + 4 < u32 :=
  recordsRead_short read

theorem readNodes_frame {db read : Database}
    (laid : LaidFrom getDevicePathSize memory nodes place) (consistent : Consistent db)
    (reads : readNodes getDevicePathSize memory nodes.length place db = some read) :
    Consistent read ∧ ∀ path, (∀ node ∈ nodes, node.devicePath ≠ path) →
      ∀ name, lookup read path name = lookup db path name := by
  induction nodes generalizing place db with
  | nil =>
    cases reads
    exact ⟨consistent, fun _ _ _ => rfl⟩
  | cons node rest ih =>
    rw [List.length_cons, readNodes_cons laid] at reads
    obtain ⟨between, set, later⟩ := Option.bind_eq_some_iff.mp reads
    obtain ⟨pairs, records, rfl⟩ := Option.map_eq_some_iff.mp set
    obtain ⟨kept, maps⟩ := setAll_lookup consistent
      (recordsOf_short records)
    obtain ⟨ends, frame⟩ := ih laid.next kept later
    refine ⟨ends, fun path apart name => ?_⟩
    rw [frame path (fun other member => apart other (List.mem_cons_of_mem node member)), maps,
      if_neg (apart node List.mem_cons_self).symm]

/-- The nodes are read back if and only if the records found for them spell their
properties. -/
theorem readNodes_iff {db : Database} (laid : LaidFrom getDevicePathSize memory nodes place)
    (unique : KeyedList.Unique PropertyNode.devicePath nodes) (consistent : Consistent db)
    (absent : ∀ node ∈ nodes, ∀ name, lookup db node.devicePath name = none) :
    (∃ read, readNodes getDevicePathSize memory nodes.length place db = some read ∧
      ∀ node ∈ nodes, ∀ name, lookup read node.devicePath name = nodeValue node name) ↔
      LateRecords memory nodes place := by
  induction nodes generalizing place db with
  | nil => exact ⟨fun _ => trivial, fun _ => ⟨db, rfl, fun _ member => absurd member List.not_mem_nil⟩⟩
  | cons node rest ih =>
    obtain ⟨fresh, unique⟩ := List.nodup_cons.mp unique
    have apart : ∀ other ∈ rest, other.devicePath ≠ node.devicePath := fun other member same =>
      fresh (List.mem_map.mpr ⟨other, member, same⟩)
    simp only [List.length_cons, readNodes_cons laid, LateRecords]
    cases records : recordsOf memory place node with
    | none => simp
    | some pairs =>
      obtain ⟨kept, maps⟩ := setAll_lookup consistent
        (recordsOf_short records)
      have later := ih laid.next unique kept fun other member name => by
        rw [maps, if_neg (apart other member)]
        exact absent other (List.mem_cons_of_mem node member) name
      have here : ∀ read, readNodes getDevicePathSize memory rest.length (place + nodeSize node)
          (setAll node.devicePath pairs db) = some read → ∀ name,
            lookup read node.devicePath name = lastValue pairs name none := by
        intro read reads name
        rw [(readNodes_frame laid.next kept reads).2 _ apart, maps, if_pos rfl,
          absent node List.mem_cons_self]
      simp only [Option.map_some, Option.bind_some, Option.some.injEq, exists_eq_left']
      rw [← later]
      constructor
      · rintro ⟨read, reads, shown⟩
        refine ⟨fun name => ?_, read, reads, fun other member =>
          shown other (List.mem_cons_of_mem node member)⟩
        rw [← here read reads, shown node List.mem_cons_self]
      · rintro ⟨spelled, read, reads, shown⟩
        refine ⟨read, reads, fun other member name => ?_⟩
        rcases List.mem_cons.mp member with same | behind
        · rw [same, here read reads, spelled]
        · exact shown other behind name

end Nodes

section Stored

variable {σ : Type} {services : VariableServices σ} {contents : σ → List Char → Option Bytes}
  {db : Database} {nvram : σ}

def mostButOne : Nat := variableMaxSize * (variableMaxNum - 1)
def most : Nat := variableMaxSize * variableMaxNum

theorem bufferSize_pos (db : Database) : bufferHeader ≤ bufferSize db :=
  Nat.le_add_right _ _

theorem storeProperties_eq (nonempty : db.nodes ≠ []) (laid : Laid db) :
    storeProperties services db nvram =
      (let stored := writeVariables services variableMaxNum 0 (bufferBytes db) nvram
       if stored.1.isError ∨ stored.2.2.1 ≠ [] then none
       else
         let deleted := deleteVariables services (variableMaxNum - stored.2.1) stored.2.1 stored.2.2.2
         if deleted.1.isError then none else some deleted.2) := by
  have asked : dppDbGetPropertyBuffer db [] = (.bufferTooSmall, bufferSize db, []) := by
    have positive : 0 < bufferSize db := lt_of_lt_of_le (by decide) (bufferSize_pos db)
    simp [dppDbGetPropertyBuffer, nonempty, positive]
  have filled := dppDbGetPropertyBuffer_eq nonempty laid
  rw [storeProperties]
  simp only [asked, filled, ne_eq, not_true_eq_false, if_false, EfiStatus.isError,
    bne_self_eq_false, Bool.false_eq_true]
  rfl

theorem storeProperties_large (nvram : σ) (documented : Documented services contents)
    (nonempty : db.nodes ≠ []) (laid : Laid db) (large : most < bufferSize db) :
    storeProperties services db nvram = none := by
  have more : variableMaxSize * variableMaxNum < (bufferBytes db).length := by
    rw [bufferBytes_length laid]
    exact large
  have left : _ ∨ _ := @writeVariables_left _ services contents 0 _ _ nvram documented more
  rw [storeProperties_eq nonempty laid]
  simp only [if_pos left]

theorem storeProperties_pieces (nvram : σ) (documented : Documented services contents)
    (nonempty : db.nodes ≠ []) (laid : Laid db) (small : bufferSize db ≤ most) :
    ∃ last after, storeProperties services db nvram = some after ∧ last ≤ variableMaxNum ∧
      Pieces (contents after) 0 (bufferBytes db) last ∧
      (last < variableMaxNum → contents after (variableName last) = none) := by
  have room : (bufferBytes db).length ≤ variableMaxSize * variableMaxNum := by
    rw [bufferBytes_length laid]
    exact small
  obtain ⟨last, between, written, bound, pieces, _⟩ :=
    @writeVariables_stores _ services contents 0 _ _ nvram documented (by simp) room
  obtain ⟨after, ends, none, kept⟩ :=
    @deleteVariables_ends _ services contents last (variableMaxNum - last) between documented
      (by omega)
  refine ⟨last, after, ?_, by omega, ?_, fun before => none (by omega)⟩
  · rw [storeProperties_eq nonempty laid, written]
    simp [ends, EfiStatus.isError]
  · exact pieces.congr fun number _ before => kept number before

theorem nodes_length_le (db : Database) : db.nodes.length ≤ bufferSize db := by
  have each : ∀ nodes : List PropertyNode, nodes.length ≤ (nodes.map nodeSize).sum := by
    intro nodes
    induction nodes with
    | nil => exact le_refl 0
    | cons node rest ih =>
      have header : nodeHeader ≤ nodeSize node := by
        rw [nodeSize, nodePathSize]
        omega
      simp only [List.length_cons, List.map_cons, List.sum_cons, nodeHeader] at header ⊢
      omega
  have nodes := each db.nodes
  rw [bufferSize]
  omega

theorem nodeSize_le {node : PropertyNode} (member : node ∈ db.nodes) :
    nodeSize node ≤ bufferSize db := by
  obtain ⟨front, rest, split⟩ := List.append_of_mem member
  simp only [bufferSize, split, List.map_append, List.sum_append, List.map_cons, List.sum_cons]
  omega

theorem reader_eq (getDevicePathSize : Bytes → Nat) (documented : Documented services contents)
    (nonempty : db.nodes ≠ []) (laid : Laid db) (small : bufferSize db ≤ most)
    {last : Nat} (bound : last ≤ variableMaxNum)
    (pieces : Pieces (contents nvram) 0 (bufferBytes db) last)
    (ends : last < variableMaxNum → contents nvram (variableName last) = none)
    (delete : Bool) (behind : Bytes) (before : Database) :
    internalReadEfiVariableProperties getDevicePathSize services delete behind nvram before =
      if last < variableMaxNum then some (.notFound, before)
      else (readNodes getDevicePathSize (bufferBytes db ++ behind) db.nodes.length
        bufferHeader before).map fun read => (.success, read) := by
  have length := bufferBytes_length laid
  have positive := bufferSize_pos db
  have few := nodes_length_le db
  simp only [most, variableMaxSize, variableMaxNum] at small
  have counted := @sizeVariables_counts _ services contents _ _ _ nvram documented pieces
    variableMaxNum 0 (by omega) (by rw [length, u64_val]; omega) (by simpa using ends)
  rw [zero_add, zero_add] at counted
  obtain ⟨after, reads⟩ := readVariables_status documented pieces bound ends delete
  have header : bufferBytes db = encode 4 (bufferSize db) ++
      (encode 4 databaseVersion ++ (encode 4 db.nodes.length ++ db.nodes.flatMap nodeBytes)) := by
    rw [bufferBytes, headerBytes, List.append_assoc, List.append_assoc]
  have size : load (bufferBytes db) 4 0 = bufferSize db := by
    rw [header, load_encode]
    exact Nat.mod_eq_of_lt (by omega)
  have version : load (bufferBytes db) 4 4 = databaseVersion := by
    rw [header, load_append _ _ _ _ (by simp), encode_length, load_encode]
    rfl
  have count : load (bufferBytes db) 4 8 = db.nodes.length := by
    rw [header, load_append _ _ _ _ (by simp), encode_length, load_append _ _ _ _ (by simp),
      encode_length, load_encode]
    exact Nat.mod_eq_of_lt (by omega)
  have some : db.nodes.length ≠ 0 := by simpa using nonempty
  have enough : ¬ bufferSize db < bufferHeader := by omega
  rw [internalReadEfiVariableProperties, counted]
  simp only [length] at reads ⊢
  simp only [enough, if_false, reads, length, Nat.sub_self, List.replicate_zero, List.append_nil,
    size, version, count, some, ne_eq, not_true_eq_false, or_self]
  by_cases more : last < variableMaxNum <;> simp [more, EfiStatus.isError]

theorem pieces_last {last : Nat} (laid : Laid db)
    (pieces : Pieces (contents nvram) 0 (bufferBytes db) last) :
    last < variableMaxNum ↔ bufferSize db ≤ mostButOne := by
  have count := pieces.count
  rw [bufferBytes_length laid] at count
  simp only [variableMaxSize, variableMaxNum, mostButOne] at count ⊢
  omega

/-- A buffer of less than all variables is not read back: the variable tried behind
the last one is missing. -/
theorem reader_notFound {getDevicePathSize : Bytes → Nat} {stored : σ}
    (documented : Documented services contents) (nonempty : db.nodes ≠ [])
    (laid : Laid db) (small : bufferSize db ≤ mostButOne)
    (stores : storeProperties services db nvram = some stored) (delete : Bool)
    (behind : Bytes) (before : Database) :
    internalReadEfiVariableProperties getDevicePathSize services delete behind stored before =
      some (.notFound, before) := by
  have room : bufferSize db ≤ most := by
    simp only [mostButOne, most, variableMaxSize, variableMaxNum] at small ⊢
    omega
  obtain ⟨last, after, same, bound, pieces, ends⟩ :=
    storeProperties_pieces nvram documented nonempty laid room
  rw [stores, Option.some.injEq] at same
  subst same
  rw [reader_eq getDevicePathSize documented nonempty laid room bound pieces ends,
    if_pos ((pieces_last laid pieces).mpr small)]

end Stored

section RoundTrip

variable {σ : Type}

def SizesWritten (db : Database) : Prop :=
  ∀ node ∈ db.nodes, nodeSize node = writtenSize node

def ReadsBack (getDevicePathSize : Bytes → Nat) (services : VariableServices σ) (delete : Bool)
    (behind : Bytes) (db : Database) (nvram : σ) : Prop :=
  ∃ stored, storeProperties services db nvram = some stored ∧
    ∃ read, internalReadEfiVariableProperties getDevicePathSize services delete behind stored
      empty = some (.success, read) ∧ lookup read = lookup db

/-- `GetDevicePathSize` of a stored path is its size, whatever stands behind it. -/
def PathsEnd (getDevicePathSize : Bytes → Nat) (db : Database) : Prop :=
  ∀ node ∈ db.nodes, ∀ behind,
    getDevicePathSize (node.devicePath ++ behind) = node.devicePath.length

theorem recorded_lasting :
    Lasting fun node => ∀ property ∈ node.properties, Recorded property := by
  constructor
  · intro devicePath property member
    cases member
  · intro node name all property member
    exact all property (List.mem_of_mem_eraseP member)
  · intro node name value all property member
    rcases List.mem_append.mp member with old | new
    · exact all property old
    · rw [List.mem_singleton.mp new]
      exact ⟨Nat.mod_le _ _, Nat.mod_le _ _⟩

theorem lookup_node {db : Database} {node : PropertyNode} (name : CString16)
    (unique : KeyedList.Unique PropertyNode.devicePath db.nodes) (member : node ∈ db.nodes) :
    lookup db node.devicePath name = nodeValue node name := by
  rw [lookup_eq, KeyedList.find_of_mem unique member, Option.bind_some]

theorem lookup_eq_iff {db read : Database}
    (unique : KeyedList.Unique PropertyNode.devicePath db.nodes)
    (frame : ∀ path, (∀ node ∈ db.nodes, node.devicePath ≠ path) →
      ∀ name, lookup read path name = none) :
    lookup read = lookup db ↔
      ∀ node ∈ db.nodes, ∀ name, lookup read node.devicePath name = nodeValue node name := by
  constructor
  · intro same node member name
    rw [same, lookup_node name unique member]
  · intro shown
    funext path name
    cases found : KeyedList.find PropertyNode.devicePath path db.nodes with
    | none =>
      rw [frame path (KeyedList.find_eq_none.mp found), lookup_eq, found]
      rfl
    | some node =>
      obtain ⟨member, rfl⟩ := KeyedList.find_mem found
      rw [shown node member, lookup_node name unique member]

/-- A database is read back if and only if its buffer takes all the variables there
can be, and the records of every node, looked for four bytes behind their place,
spell its properties. -/
theorem stored_database_read_back (getDevicePathSize : Bytes → Nat)
    (services : VariableServices σ) (contents : σ → List Char → Option Bytes)
    (documented : Documented services contents) (calls : List Call)
    (nonempty : (databaseAfter calls).nodes ≠ [])
    (paths : PathsEnd getDevicePathSize (databaseAfter calls)) (delete : Bool) (behind : Bytes)
    (nvram : σ) :
    SizesWritten (databaseAfter calls) ∧
        ReadsBack getDevicePathSize services delete behind (databaseAfter calls) nvram ↔
      (∀ node ∈ (databaseAfter calls).nodes, ∀ property ∈ node.properties, Fits property) ∧
        mostButOne < bufferSize (databaseAfter calls) ∧ bufferSize (databaseAfter calls) ≤ most ∧
        LateRecords (bufferBytes (databaseAfter calls) ++ behind) (databaseAfter calls).nodes
          bufferHeader := by
  obtain ⟨unique, recorded⟩ := run_keeps recorded_lasting calls
  generalize databaseAfter calls = db at *
  have sizes : SizesWritten db ↔
      ∀ node ∈ db.nodes, ∀ property ∈ node.properties, Fits property :=
    forall₂_congr fun _ _ => nodeSize_written
  rw [sizes, and_congr_right_iff]
  intro fits
  have laid : Laid db := ⟨recorded, fits⟩
  by_cases room : bufferSize db ≤ most
  · obtain ⟨last, after, stores, bound, pieces, ends⟩ :=
      storeProperties_pieces nvram documented nonempty laid room
    have reads := reader_eq getDevicePathSize documented nonempty laid room
      bound pieces ends delete behind empty
    have short := pieces_last laid pieces
    simp only [ReadsBack, stores, Option.some.injEq, exists_eq_left', reads]
    by_cases all : last < variableMaxNum
    · have few := short.mp all
      simp [all, not_lt.mpr few]
    · have many : mostButOne < bufferSize db := not_le.mp (mt short.mpr all)
      have from' : LaidFrom getDevicePathSize (bufferBytes db ++ behind) db.nodes
          bufferHeader := by
        refine ⟨⟨behind, ?_⟩, recorded, fits, fun node member => ?_, paths⟩
        · rw [bufferBytes, List.append_assoc, List.drop_left' (headerBytes_length db)]
        · have within := nodeSize_le member
          simp only [most, variableMaxSize, variableMaxNum] at room
          simp only [u32_val]
          omega
      have whole := readNodes_iff from' unique empty_consistent fun _ _ _ => rfl
      simp only [all, if_false, many, room, true_and, ← whole, Option.map_eq_some_iff,
        Prod.mk.injEq, exists_eq_right]
      constructor
      · rintro ⟨read, found, same⟩
        have frame := (readNodes_frame from' empty_consistent found).2
        exact ⟨read, found, (lookup_eq_iff unique fun path apart name => frame path apart name).mp same⟩
      · rintro ⟨read, found, shown⟩
        have frame := (readNodes_frame from' empty_consistent found).2
        exact ⟨read, found,
          (lookup_eq_iff unique fun path apart name => frame path apart name).mpr shown⟩
  · have none := storeProperties_large nvram documented nonempty laid
      (not_le.mp room)
    simp [ReadsBack, none, room]

abbrev SampleNvram := { held : List Char → Option Bytes // ∀ name, held name ≠ some [] }

def sampleSet (nvram : SampleNvram) (name : List Char) (data : Bytes) : SampleNvram :=
  ⟨fun other => if other = name then (if data = [] then none else some data) else nvram.1 other, by
    intro other
    by_cases here : other = name
    · by_cases none : data = [] <;> simp [here, none]
    · simpa [here] using nvram.2 other⟩

def sampleServices : VariableServices SampleNvram where
  getVariable nvram name size :=
    match nvram.1 name with
    | none => (.notFound, size, [])
    | some data =>
      if size < data.length then (.bufferTooSmall, data.length, [])
      else (.success, data.length, data)
  setVariable nvram name data := (.success, sampleSet nvram name data)

def sampleContents (nvram : SampleNvram) (name : List Char) : Option Bytes := nvram.1 name

theorem sampleServices_documented : Documented sampleServices sampleContents := by
  constructor
  · intro nvram name size missing
    have held : nvram.1 name = none := missing
    simp [sampleServices, held]
  · intro nvram name size data found small
    have held : nvram.1 name = some data := found
    simp [sampleServices, held, small]
  · intro nvram name size data found room
    have held : nvram.1 name = some data := found
    simp [sampleServices, held, not_lt.mpr room]
  · exact fun nvram name => nvram.2 name
  · intro nvram name data nonempty
    refine ⟨rfl, fun other => ?_⟩
    simp [sampleServices, sampleContents, sampleSet, nonempty]
  · intro nvram name _
    refine ⟨rfl, fun other => ?_⟩
    simp [sampleServices, sampleContents, sampleSet]

def noVariables : SampleNvram := ⟨fun _ => none, fun _ => by simp⟩

def oneProperty : List Call := [.set allAllocated endPath sampleName [1]]

def endPathSize (_ : Bytes) : Nat := 4

theorem oneProperty_paths : PathsEnd endPathSize (databaseAfter oneProperty) := by
  have only : ∀ node ∈ (databaseAfter oneProperty).nodes, node.devicePath.length = 4 := by
    decide
  exact fun node member _ => (only node member).symm

theorem stored_database_read_back_sample :
    SizesWritten (databaseAfter oneProperty) ∧
        ReadsBack endPathSize sampleServices false [] (databaseAfter oneProperty) noVariables ↔
      (∀ node ∈ (databaseAfter oneProperty).nodes, ∀ property ∈ node.properties, Fits property) ∧
        mostButOne < bufferSize (databaseAfter oneProperty) ∧
        bufferSize (databaseAfter oneProperty) ≤ most ∧
        LateRecords (bufferBytes (databaseAfter oneProperty) ++ []) (databaseAfter oneProperty).nodes
          bufferHeader :=
  stored_database_read_back endPathSize sampleServices sampleContents sampleServices_documented
    oneProperty (by decide) oneProperty_paths false [] noVariables

/-- One property, stored as one variable: the reader answers `EFI_NOT_FOUND`. -/
theorem one_property_not_read :
    (∃ stored, storeProperties sampleServices (databaseAfter oneProperty) noVariables = some stored ∧
      internalReadEfiVariableProperties endPathSize sampleServices false [] stored empty =
        some (.notFound, empty)) ∧
      ¬ ReadsBack endPathSize sampleServices false [] (databaseAfter oneProperty) noVariables := by
  have nonempty : (databaseAfter oneProperty).nodes ≠ [] := by decide
  have small : bufferSize (databaseAfter oneProperty) ≤ mostButOne := by decide
  have fits : ∀ node ∈ (databaseAfter oneProperty).nodes, ∀ property ∈ node.properties,
      property.name.size + property.value.size < u32 := by decide
  have laid : Laid (databaseAfter oneProperty) := ⟨(run_keeps recorded_lasting oneProperty).2, fits⟩
  have room : bufferSize (databaseAfter oneProperty) ≤ most := by decide
  obtain ⟨_, stored, stores, _⟩ :=
    storeProperties_pieces noVariables sampleServices_documented nonempty laid room
  have reads : ∀ stored, storeProperties sampleServices (databaseAfter oneProperty) noVariables =
      some stored → internalReadEfiVariableProperties endPathSize sampleServices false [] stored
        empty = some (.notFound, empty) := fun _ stores =>
    reader_notFound sampleServices_documented nonempty laid small stores false [] empty
  refine ⟨⟨stored, stores, reads stored stores⟩, ?_⟩
  rintro ⟨other, otherStores, read, result, _⟩
  rw [reads other otherStores] at result
  cases result

end RoundTrip

end OpenCore.DevicePropertyRoundTrip
