import OpenCore.DevicePathEqual
import Mathlib.Algebra.Ring.Nat

/-!
The full name of a file path. The length and the copy both take the last character of
a node for its terminator, and a node without a character has a length that wraps
around. A read is done within a node, with the address of its place taken in 64 bits.
-/

namespace OpenCore.DevicePathNames

open Base ByteBuffer JoinedPieces DevicePathCompare List

section Nodes

structure PathNode where
  type : UInt8
  subType : UInt8
  body : Bytes
  fits : 4 + body.length < u16
  notEnd : ¬ (type.toNat = endDevicePathType ∧ subType.toNat = endEntireDevicePathSubtype)

def PathNode.IsFilePath (node : PathNode) : Prop :=
  node.type.toNat = mediaDevicePath ∧ node.subType.toNat = mediaFilepathDp

instance (node : PathNode) : Decidable node.IsFilePath := inferInstanceAs (Decidable (_ ∧ _))

structure PathNodes where
  nodes : List PathNode
  fits : (nodes.map fun node => 4 + node.body.length).sum + 4 < u64

def char16 (low high : UInt8) : UInt16 := UInt16.ofNat (low.toNat + 256 * high.toNat)

def chars : Bytes → List UInt16
  | low :: high :: rest => char16 low high :: chars rest
  | _ => []

def PathNode.memory (node : PathNode) : Bytes :=
  node.type :: node.subType :: UInt8.ofNat (4 + node.body.length) ::
    UInt8.ofNat ((4 + node.body.length) / 256) :: node.body

def readChar (node : PathNode) (index : Nat) : Outcome UInt16 :=
  let offset := (4 + 2 * index) % u64
  match (node.memory[offset]?).bind fun low => (node.memory[offset + 1]?).map (char16 low) with
  | some char => .done char
  | none => .faults

def copyMem (node : PathNode) (count : Nat) : Outcome (List UInt16) :=
  if count ≤ node.body.length then .done ((chars node.body).take (count / 2)) else .faults

end Nodes

section Code

def trimName (node : PathNode) : Nat → Outcome Nat
  | 0 => .done 0
  | len + 1 => (readChar node len).bind fun char => if char = 0 then trimName node len else .done (len + 1)

def ocFileDevicePathNameLen (node : PathNode) : Outcome Nat :=
  trimName node (wrapSub u64 (node.body.length / 2) 1)

/-- The loop of `OcFileDevicePathFullNameLen`; the end node is no file path. -/
def fullNameLenLoop : Nat → List PathNode → Outcome Nat
  | _, [] => .done 0
  | pathLength, [node] =>
    if node.IsFilePath then
      (ocFileDevicePathNameLen node).bind fun len =>
        .done (wrapSub u64 ((pathLength + len + 1) % u64) 1)
    else .done 0
  | pathLength, node :: next :: rest =>
    if node.IsFilePath then
      (ocFileDevicePathNameLen node).bind fun len =>
        fullNameLenLoop ((pathLength + len + 1) % u64) (next :: rest)
    else .done 0

def ocFileDevicePathFullNameLen (devicePath : List PathNode) : Outcome Nat := fullNameLenLoop 0 devicePath

def ocFileDevicePathFullNameSize (devicePath : List PathNode) : Outcome Nat :=
  (ocFileDevicePathFullNameLen devicePath).bind fun len =>
    .done (if len = 0 then 0 else (len + 1) * 2 % u64)

def copyName (filePath : PathNode) : Outcome (List UInt16) :=
  (ocFileDevicePathNameLen filePath).bind fun pathLen => copyMem filePath (pathLen * 2 % u64)

def fullNameLoop : List UInt16 → PathNode → List PathNode → Outcome (List UInt16)
  | written, filePath, [] =>
    (copyName filePath).bind fun copied => .done (written ++ (copied ++ [separator]))
  | written, filePath, next :: rest =>
    (copyName filePath).bind fun copied => fullNameLoop (written ++ (copied ++ [separator])) next rest

def ocFileDevicePathFullName (filePath : PathNode) (rest : List PathNode) : Outcome (List UInt16) :=
  (fullNameLoop [] filePath rest).bind fun written => .done (written.dropLast ++ [0])

end Code

section Lengths

variable {node : PathNode}

theorem chars_getElem? (body : Bytes) (index : Nat) : (chars body)[index]? =
    (body[2 * index]?).bind fun low => (body[2 * index + 1]?).map (char16 low) := by
  induction body using chars.induct generalizing index with
  | case1 low high rest ih =>
    rw [chars]
    cases index with
    | zero => rfl
    | succ index =>
      rw [getElem?_cons_succ, ih]
      rfl
  | case2 body short =>
    rcases body with _ | ⟨only, _ | ⟨high, rest⟩⟩
    · rfl
    · cases index <;> rfl
    · exact absurd rfl (short only high rest)

theorem length_chars (body : Bytes) : (chars body).length = body.length / 2 := by
  induction body using chars.induct with
  | case1 low high rest ih =>
    rw [chars, length_cons, ih, length_cons, length_cons]
    omega
  | case2 body short =>
    rcases body with _ | ⟨only, _ | ⟨high, rest⟩⟩
    · rfl
    · exact (by decide : 0 = 1 / 2)
    · exact absurd rfl (short only high rest)

theorem readChar_name {index : Nat} (small : index < u16) :
    readChar node index = charAt (chars node.body) index := by
  have offset : (4 + 2 * index) % u64 = 2 * index + 4 := by
    rw [u16_val] at small
    rw [u64_val]
    omega
  rw [readChar, charAt, offset, chars_getElem?]
  rfl

theorem trimName_name {len : Nat} (small : len < u16) :
    trimName node len = trimLen (chars node.body) len := by
  induction len with
  | zero => rfl
  | succ len ih => rw [trimName, trimLen, readChar_name (Nat.lt_of_succ_lt small), ih (Nat.lt_of_succ_lt small)]

def heldName (node : PathNode) : List UInt16 := (chars node.body).dropLast.rdropWhile (· = 0)

def name (node : PathNode) : List UInt16 := (chars node.body).rdropWhile (· = 0)

theorem heldName_lt (some : chars node.body ≠ []) :
    (heldName node).length + 1 ≤ node.body.length / 2 := by
  have kept := ( rdropWhile_prefix (· = 0) (chars node.body).dropLast).length_le
  have positive := length_pos_iff.mpr some
  rw [length_dropLast] at kept
  rw [← length_chars]
  unfold heldName
  omega

theorem nameLen_done (some : chars node.body ≠ []) :
    ocFileDevicePathNameLen node = .done (heldName node).length ∧
      (chars node.body).take (heldName node).length = heldName node := by
  have fits := node.fits
  have positive := length_pos_iff.mpr some
  have size := length_chars node.body
  obtain ⟨trimmed, trims, -, taken⟩ := @DevicePathEqual.trimLen_done (chars node.body)
    ((chars node.body).length - 1) (Nat.sub_le _ _)
  rw [← dropLast_eq_take] at taken
  have count : trimmed = (heldName node).length := by
    have short := congrArg List.length taken
    rw [length_take] at short
    have kept := heldName_lt some
    unfold heldName at kept ⊢
    omega
  rw [ocFileDevicePathNameLen, ← size, wrapSub_of_le positive (by rw [u16_val] at fits; rw [u64_val]; omega),
    trimName_name (by omega), trims, ← count, taken]
  exact ⟨rfl, rfl⟩

/-- The length of a node without a character wraps, and the read behind it finds the
types of the node. -/
theorem nameLen_short (none : chars node.body = []) (filePath : node.IsFilePath) :
    ocFileDevicePathNameLen node = .done (u64 - 1) := by
  have size := length_chars node.body
  rw [none] at size
  have type : node.type = 4 := UInt8.toNat_inj.mp filePath.1
  have subType : node.subType = 4 := UInt8.toNat_inj.mp filePath.2
  have header : readChar node 18446744073709551614 = .done 0x0404 := by
    rw [readChar, PathNode.memory, type, subType]
    rfl
  rw [ocFileDevicePathNameLen, ← size]
  show trimName node (18446744073709551614 + 1) = _
  rw [trimName, header]
  rfl

theorem nameLen_total (filePath : node.IsFilePath) : ∃ len, ocFileDevicePathNameLen node = .done len := by
  by_cases none : chars node.body = []
  · exact ⟨_, nameLen_short none filePath⟩
  · exact ⟨_, (nameLen_done none).1⟩

end Lengths

section Pieces

variable {α β : Type} {separator : α} {items : List β} {short long : β → List α}

/-- Pieces no longer than others make up no longer sequence, and one as long only if
each is as long. -/
theorem joined_lengths (below : ∀ item ∈ items, (short item).length ≤ (long item).length) :
    (joined separator (items.map short)).length ≤ (joined separator (items.map long)).length ∧
      ((joined separator (items.map short)).length = (joined separator (items.map long)).length →
        ∀ item ∈ items, (short item).length = (long item).length) := by
  induction items with
  | nil => exact ⟨le_refl _, fun _ => nofun⟩
  | cons item rest ih =>
    obtain ⟨front, others⟩ := forall_mem_cons.mp below
    obtain ⟨behind, later⟩ := ih others
    rw [forall_mem_cons]
    cases rest with
    | nil => exact ⟨front, fun same => ⟨same, nofun⟩⟩
    | cons next rest =>
      simp only [map_cons, joined, length_append, length_cons] at behind later ⊢
      exact ⟨by omega, fun same => ⟨by omega, later (by omega)⟩⟩

end Pieces

section Names

variable {nodes : List PathNode} {node : PathNode} {rest : List PathNode}

theorem heldName_le (node : PathNode) : (heldName node).length ≤ (name node).length := by
  unfold heldName name
  rcases eq_nil_or_concat (chars node.body) with none | ⟨front, last, whole⟩
  · rw [none]
    exact le_refl _
  · rw [whole, concat_eq_append, dropLast_concat, rdropWhile_concat]
    split
    next => exact le_refl _
    next =>
      rw [length_append]
      exact Nat.le_add_right_of_le ( rdropWhile_prefix _ _).length_le

theorem heldName_eq_iff (held : chars node.body ≠ []) :
    (heldName node).length = (name node).length ↔ (chars node.body).getLast? = some 0 := by
  unfold heldName name
  rcases eq_nil_or_concat (chars node.body) with none | ⟨front, last, whole⟩
  · exact absurd none held
  · rw [whole, concat_eq_append, dropLast_concat, rdropWhile_concat, getLast?_concat,
      Option.some_inj]
    have kept := ( rdropWhile_prefix (· = 0) front).length_le
    by_cases zero : last = 0
    · rw [if_pos (decide_eq_true zero)]
      exact iff_of_true rfl zero
    · rw [if_neg (by simpa using zero), length_append, length_singleton]
      exact iff_of_false (by omega) zero

theorem heldName_of_terminated (last : (chars node.body).getLast? = some 0) : heldName node = name node := by
  unfold heldName name
  rw [← dropLast_append_getLast? 0 last, dropLast_concat, rdropWhile_concat_pos _ _ _ (by decide)]

theorem copyName_done (some : chars node.body ≠ []) : copyName node = .done (heldName node) := by
  have fits := node.fits
  have kept := heldName_lt some
  obtain ⟨length, taken⟩ := nameLen_done some
  have count : (heldName node).length * 2 % u64 = (heldName node).length * 2 := by
    rw [u16_val] at fits
    rw [u64_val]
    omega
  rw [copyName, length, Outcome.bind_done, count, copyMem, if_pos (by omega),
    Nat.mul_div_cancel _ (by decide), taken]

theorem copyName_faults (none : chars node.body = []) (filePath : node.IsFilePath) :
    copyName node = .faults := by
  have size := length_chars node.body
  rw [none, length_nil] at size
  have past : ¬ (u64 - 1) * 2 % u64 ≤ node.body.length := by
    rw [u64_val]
    omega
  rw [copyName, nameLen_short none filePath, Outcome.bind_done, copyMem, if_neg past]

theorem fullNameLoop_done (written : List UInt16) (some : ∀ each ∈ node :: rest, chars each.body ≠ []) :
    fullNameLoop written node rest =
      .done (written ++ (joined separator ((node :: rest).map heldName) ++ [separator])) := by
  induction rest generalizing written node with
  | nil =>
    rw [fullNameLoop, copyName_done (some node mem_cons_self)]
    rfl
  | cons next rest ih =>
    rw [fullNameLoop, copyName_done (some node mem_cons_self), Outcome.bind_done,
      ih _ fun each member => some each (mem_cons_of_mem _ member), append_assoc,
      map_cons, map_cons, map_cons, joined, append_assoc, append_assoc]
    rfl

theorem fullNameLoop_faults (written : List UInt16) (filePaths : ∀ each ∈ node :: rest, each.IsFilePath)
    (short : ∃ each ∈ node :: rest, chars each.body = []) : fullNameLoop written node rest = .faults := by
  induction rest generalizing written node with
  | nil =>
    obtain ⟨each, member, none⟩ := short
    obtain rfl := mem_singleton.mp member
    rw [fullNameLoop, copyName_faults none (filePaths each member)]
    rfl
  | cons next rest ih =>
    rw [fullNameLoop]
    by_cases none : chars node.body = []
    · rw [copyName_faults none (filePaths node mem_cons_self)]
      rfl
    · obtain ⟨each, member, without⟩ := short
      have behind : each ∈ next :: rest := (mem_cons.mp member).resolve_left fun same =>
        none (same ▸ without)
      rw [copyName_done none, Outcome.bind_done]
      exact ih _ (fun each inside => filePaths each (mem_cons_of_mem _ inside)) ⟨each, behind, without⟩

theorem fullNameLenLoop_done {pathLength : Nat} (filePaths : ∀ each ∈ node :: rest, each.IsFilePath)
    (some : ∀ each ∈ node :: rest, chars each.body ≠ [])
    (fits : pathLength + (joined separator ((node :: rest).map heldName)).length + 1 < u64) :
    fullNameLenLoop pathLength (node :: rest) =
      .done (pathLength + (joined separator ((node :: rest).map heldName)).length) := by
  obtain ⟨length, -⟩ := nameLen_done (some node mem_cons_self)
  have filePath := filePaths node mem_cons_self
  induction rest generalizing pathLength node with
  | nil =>
    have small : pathLength + (heldName node).length + 1 < u64 := fits
    rw [fullNameLenLoop, if_pos filePath, length, Outcome.bind_done, Nat.mod_eq_of_lt small,
      wrapSub_of_le (by omega) small]
    rfl
  | cons next rest ih =>
    have pieces : joined separator ((node :: next :: rest).map heldName) =
        heldName node ++ separator :: joined separator ((next :: rest).map heldName) := rfl
    rw [pieces, length_append, length_cons] at fits ⊢
    have small : pathLength + (heldName node).length + 1 < u64 := by omega
    rw [fullNameLenLoop, if_pos filePath, length, Outcome.bind_done, Nat.mod_eq_of_lt small]
    have others := forall_mem_cons.mp filePaths
    have held := forall_mem_cons.mp some
    obtain ⟨behind, -⟩ := nameLen_done (held.2 next mem_cons_self)
    have later := @ih next (pathLength + (heldName node).length + 1) others.2 held.2 (by omega) behind
      (others.2 next mem_cons_self)
    exact later.trans (congrArg Outcome.done (by omega))

theorem fullNameLenLoop_total (pathLength : Nat) (nodes : List PathNode) :
    ∃ len, fullNameLenLoop pathLength nodes = .done len := by
  induction nodes generalizing pathLength with
  | nil => exact ⟨0, rfl⟩
  | cons node rest ih =>
    by_cases filePath : node.IsFilePath
    · obtain ⟨len, length⟩ := nameLen_total filePath
      cases rest with
      | nil => exact ⟨_, by rw [fullNameLenLoop, if_pos filePath, length, Outcome.bind_done]⟩
      | cons next rest =>
        obtain ⟨whole, done⟩ := ih ((pathLength + len + 1) % u64)
        exact ⟨whole, by rw [fullNameLenLoop, if_pos filePath, length, Outcome.bind_done, done]⟩
    · exact ⟨0, by cases rest <;> rw [fullNameLenLoop, if_neg filePath]⟩

theorem joined_fits (some : ∀ each ∈ node :: rest, chars each.body ≠ []) :
    2 * ((joined separator ((node :: rest).map heldName)).length + 1) ≤
      ((node :: rest).map fun node => 4 + node.body.length).sum := by
  have kept := heldName_lt (some node mem_cons_self)
  induction rest generalizing node with
  | nil =>
    have own : joined separator ([node].map heldName) = heldName node := rfl
    rw [own, map_singleton, sum_singleton]
    omega
  | cons next rest ih =>
    have held := (forall_mem_cons.mp some).2
    have behind := ih held (heldName_lt (held next mem_cons_self))
    have pieces : joined separator ((node :: next :: rest).map heldName) =
        heldName node ++ separator :: joined separator ((next :: rest).map heldName) := rfl
    rw [pieces, length_append, length_cons,
      @List.map_cons _ _ fun node : PathNode => 4 + node.body.length, sum_cons]
    omega

end Names

section Paths

variable {node : PathNode} {rest : List PathNode}

theorem fullNameSize_done (path : PathNodes) (own : path.nodes = node :: rest)
    (filePaths : ∀ each ∈ node :: rest, each.IsFilePath)
    (some : ∀ each ∈ node :: rest, chars each.body ≠ []) :
    ocFileDevicePathFullNameSize path.nodes =
      .done (if joined separator ((node :: rest).map heldName) = [] then 0
        else 2 * (joined separator ((node :: rest).map heldName) ++ [0]).length) := by
  have fits := path.fits
  rw [own] at fits ⊢
  have below := joined_fits some
  have length := @fullNameLenLoop_done _ _ 0 filePaths some (by omega)
  rw [zero_add] at length
  rw [ocFileDevicePathFullNameSize, ocFileDevicePathFullNameLen, length, Outcome.bind_done]
  simp only [length_eq_zero_iff, length_append, length_singleton]
  split
  next => rfl
  next => rw [mul_comm, Nat.mod_eq_of_lt (lt_of_le_of_lt below (by omega))]

/-- The reads stay within the nodes, and the full name of file paths is their names with
a separator between any two and a terminator behind, in as many bytes as its size says. -/
structure NamesRight (path : PathNodes) : Prop where
  lengths : ∀ node ∈ path.nodes, node.IsFilePath → ∃ len, ocFileDevicePathNameLen node = .done len
  sizes : ∃ len size, ocFileDevicePathFullNameLen path.nodes = .done len ∧
    ocFileDevicePathFullNameSize path.nodes = .done size
  written : ∀ node rest, path.nodes = node :: rest → (∀ each ∈ path.nodes, each.IsFilePath) →
    ocFileDevicePathFullName node rest = .done (joined separator (path.nodes.map name) ++ [0]) ∧
      ocFileDevicePathFullNameSize path.nodes =
        .done (2 * (joined separator (path.nodes.map name) ++ [0]).length)

/-- A path of file paths alone has a terminator at the end of every node, and a name. -/
def Named (path : PathNodes) : Prop :=
  (∀ node ∈ path.nodes, node.IsFilePath) →
    (∀ node ∈ path.nodes, (chars node.body).getLast? = some 0) ∧
      ∀ node, path.nodes = [node] → name node ≠ []

theorem fullName_done (some : ∀ each ∈ node :: rest, chars each.body ≠ []) :
    ocFileDevicePathFullName node rest =
      .done (joined separator ((node :: rest).map heldName) ++ [0]) := by
  rw [ocFileDevicePathFullName, fullNameLoop_done [] some, Outcome.bind_done, nil_append,
    dropLast_concat]

theorem joined_names_ne_nil (single : ∀ other, node :: rest = [other] → name other ≠ []) :
    joined separator ((node :: rest).map name) ≠ [] := by
  cases rest with
  | nil => exact single node rfl
  | cons next rest => exact append_ne_nil_of_right_ne_nil _ (cons_ne_nil _ _)

/-- The full names are right where the nodes hold terminated names. -/
theorem fullName_right_iff (path : PathNodes) : NamesRight path ↔ Named path := by
  constructor
  · rintro ⟨-, -, written⟩ filePaths
    cases own : path.nodes with
    | nil => exact ⟨nofun, nofun⟩
    | cons node rest =>
      obtain ⟨name, size⟩ := written node rest own filePaths
      rw [own] at filePaths name size
      have some : ∀ each ∈ node :: rest, chars each.body ≠ [] := by
        intro each member none
        rw [ocFileDevicePathFullName, fullNameLoop_faults [] filePaths ⟨each, member, none⟩] at name
        cases name
      rw [fullName_done some, Outcome.done.injEq] at name
      have same := append_cancel_right name
      have lengths := (joined_lengths fun each _ => heldName_le each).2 (congrArg List.length same)
      refine ⟨fun each member => (heldName_eq_iff (some each member)).mp (lengths each member), ?_⟩
      rintro only single none
      have sized := fullNameSize_done path own filePaths some
      rw [own, size, same, single, if_pos (show joined separator ([only].map DevicePathNames.name) = [] from none),
        Outcome.done.injEq, length_append, length_singleton] at sized
      omega
  · intro named
    refine ⟨fun node _ filePath => nameLen_total filePath, ?_, fun node rest own filePaths => ?_⟩
    · obtain ⟨len, length⟩ := fullNameLenLoop_total 0 path.nodes
      exact ⟨len, _, length, by rw [ocFileDevicePathFullNameSize, ocFileDevicePathFullNameLen, length,
        Outcome.bind_done]⟩
    · obtain ⟨terminated, single⟩ := named filePaths
      rw [own] at terminated single filePaths
      have some : ∀ each ∈ node :: rest, chars each.body ≠ [] := by
        intro each member none
        have last := terminated each member
        rw [none] at last
        cases last
      have same : (node :: rest).map heldName = (node :: rest).map name :=
        map_congr_left fun each member => heldName_of_terminated (terminated each member)
      rw [fullName_done some, fullNameSize_done path own filePaths some, same,
        if_neg (joined_names_ne_nil single), own]
      exact ⟨rfl, rfl⟩

def emptyNode : PathNode := ⟨4, 4, [], by decide, by decide⟩

/-- A node without a character makes the copy run out of it. -/
theorem emptyNode_faults : ¬ NamesRight ⟨[emptyNode], by decide⟩ := by
  intro right
  have filePath : ∀ each ∈ [emptyNode], each.IsFilePath := by decide
  have faults := @fullNameLoop_faults emptyNode [] [] filePath ⟨emptyNode, mem_singleton_self _, rfl⟩
  obtain ⟨done, -⟩ := right.written emptyNode [] rfl filePath
  rw [ocFileDevicePathFullName, faults] at done
  cases done

end Paths

end OpenCore.DevicePathNames
