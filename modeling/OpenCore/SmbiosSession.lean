import OpenCore.SmbiosTable

/-!
Structures that are built one behind the other. A session keeps, next to the table, what the
operations have reported: the structures that were finalised and the one being built, each
with its formatted area and the strings that were stored, under the index that was returned.
What the table holds is this and zeroes.
-/

namespace OpenCore.SmbiosSession

open ByteBuffer ByteSlices SmbiosTable List

structure Draft where
  formatted : Bytes
  stored : List (Nat × Bytes)
  deriving DecidableEq

def Draft.text (draft : Draft) : Bytes := draft.stored.flatMap fun entry => entry.2 ++ [0]

def Draft.bytes (draft : Draft) : Bytes :=
  draft.formatted ++ draft.text ++ replicate (if draft.stored = [] then 2 else 1) 0

def Draft.type (draft : Draft) : UInt8 := draft.formatted.headD 0

structure Session where
  table : OcSmbiosTable
  finalised : List Draft
  current : Option Draft
  index : Nat
  deriving DecidableEq

def Session.used (session : Session) : Bytes := session.finalised.flatMap Draft.bytes

inductive Op where
  | initialise (reallocated : Bool) (type minLength : UInt8) (index : Nat)
  | field (place : Nat) (data : Bytes)
  | override (reallocated : Bool) (string : Option Bytes)
  | finalise

def kept (string : Option Bytes) : Bytes :=
  ((string.getD []).take smbiosStringMaxLength).rdropWhile (· = 0x20)

def Session.step (session : Session) : Op → Option Session
  | .initialise reallocated type minLength index =>
    (smbiosInitialiseStruct reallocated session.table type minLength index).map
      fun (status, table) =>
        if status.isError then { session with table := table }
        else
          let header := [type, minLength] ++ encode 2 (structHandle session.table type)
          { session with
            table := table
            current := some ⟨header ++ replicate (minLength.toNat - header.length) 0, []⟩
            index := 0 }
  | .field place data =>
    (session.table.write (session.table.currentPtr + place) data).map fun table =>
      { session with
        table := table
        current := session.current.map fun draft =>
          { draft with formatted := overlay draft.formatted place data } }
  | .override reallocated string =>
    (smbiosOverrideString reallocated session.table string session.index).map
      fun (result, index, table) =>
        { session with
          table := table
          current := session.current.map fun draft =>
            if result = 0 then draft
            else { draft with stored := draft.stored ++ [(result, kept string)] }
          index := index }
  | .finalise =>
    (smbiosFinaliseStruct session.table).map fun table =>
      { session with
        table := table
        finalised := session.finalised ++ session.current.toList
        current := none }

/-- Structures are begun one at a time, with room for a header; fields are written behind
type and length; strings hold no zero, and no more than 255 are stored. -/
def Session.Admits (session : Session) : Op → Prop
  | .initialise _ _ minLength _ => session.current = none ∧ 4 ≤ minLength.toNat
  | .field place data => ∃ draft ∈ session.current,
      2 ≤ place ∧ place + data.length ≤ draft.formatted.length
  | .override reallocated string => ∃ draft ∈ session.current,
      (∀ byte ∈ string.getD [], byte ≠ 0) ∧
        (draft.stored.length < 255 ∨
          (smbiosOverrideString reallocated session.table string session.index).map (·.2.2) =
            some session.table)
  | .finalise => session.current ≠ none

def Session.run (session : Session) : List Op → Option Session
  | [] => some session
  | op :: rest => (session.step op).bind fun session => session.run rest

def Session.AdmitsAll (session : Session) : List Op → Prop
  | [] => True
  | op :: rest => session.Admits op ∧
      ∀ session' ∈ session.step op, session'.AdmitsAll rest

instance (session : Session) : DecidablePred session.Admits
  | .initialise _ _ _ _ => inferInstanceAs (Decidable (_ ∧ _))
  | .field _ _ => inferInstanceAs (Decidable (∃ _ ∈ _, _))
  | .override _ _ => inferInstanceAs (Decidable (∃ _ ∈ _, _))
  | .finalise => inferInstanceAs (Decidable (_ ≠ _))

def Session.decideAdmitsAll (session : Session) : (ops : List Op) → Decidable (session.AdmitsAll ops)
  | [] => .isTrue trivial
  | op :: rest =>
    have (session' : Session) : Decidable (session'.AdmitsAll rest) :=
      session'.decideAdmitsAll rest
    inferInstanceAs (Decidable (session.Admits op ∧ ∀ session' ∈ session.step op, _))

instance (session : Session) : DecidablePred session.AdmitsAll := session.decideAdmitsAll

def Session.empty (pages handle : Nat) : Session where
  table := ⟨replicate (efiPageSize * pages) 0, 0, 0, handle, 0, 0⟩
  finalised := []
  current := none
  index := 0

section Layout

structure Draft.Sound (draft : Draft) : Prop where
  header : 4 ≤ draft.formatted.length
  length : draft.formatted[1]? = some (UInt8.ofNat draft.formatted.length)
  small : draft.formatted.length < 256
  numbered : draft.stored.map Prod.fst = (List.range draft.stored.length).map (· + 1)
  few : draft.stored.length ≤ 255
  strings : ∀ entry ∈ draft.stored, entry.2 ≠ [] ∧ 0 ∉ entry.2

structure Session.Holds (session : Session) (rest : Bytes) : Prop where
  table : session.table.table = session.used ++ rest
  currentPtr : session.table.currentPtr = session.used.length
  limit : session.used.length ≤ smbiosTableMaxLength
  sound : ∀ draft ∈ session.finalised, draft.Sound

/-- Only the place of the next header may be dirty, from a structure that was turned down for
its index. -/
structure Session.Idle (session : Session) : Prop where
  current : session.current = none
  holds : ∃ rest, session.Holds rest ∧ ∀ byte ∈ rest.drop 4, byte = 0
  strings : session.table.currentStrPtr = session.used.length

structure Session.Building (session : Session) (draft : Draft) : Prop where
  current : session.current = some draft
  sound : draft.Sound
  holds : ∃ spare, session.Holds (draft.formatted ++ draft.text ++ replicate spare 0) ∧
    2 ≤ spare
  strings : session.table.currentStrPtr =
    session.used.length + (draft.formatted ++ draft.text).length
  room : session.table.currentStrPtr + 2 ≤ smbiosTableMaxLength
  index : session.index = draft.stored.length

def Session.Laid (session : Session) : Prop := session.Idle ∨ ∃ draft, session.Building draft

theorem Session.empty_laid (pages handle : Nat) : (Session.empty pages handle).Laid := by
  refine .inl ⟨rfl, ⟨_, ⟨rfl, rfl, Nat.zero_le _, nofun⟩, ?_⟩, rfl⟩
  intro byte member
  exact eq_of_mem_replicate (mem_of_mem_drop member)

end Layout

section Writer

variable {table : OcSmbiosTable}
variable {draft : Draft} {minLength : UInt8} {string : Option Bytes} {reallocated : Bool}
  {used rest : Bytes} {length : Nat} {place : Nat}

theorem write_within {front buffer back data : Bytes}
    (laid : table.table = front ++ (buffer ++ back)) (inside : place + data.length ≤ buffer.length) :
    table.write (front.length + place) data =
      some { table with table := front ++ (overlay buffer place data ++ back) } := by
  have fits : front.length + place + data.length ≤ (front ++ (buffer ++ back)).length := by
    simp only [length_append]
    omega
  unfold OcSmbiosTable.write
  rw [laid, overlay_within front back inside, if_pos fits]

theorem write_between {front old back data : Bytes}
    (laid : table.table = front ++ (old ++ back)) (same : data.length = old.length) :
    table.write front.length data = some { table with table := front ++ (data ++ back) } := by
  have written := write_within laid (Nat.le_of_eq ((zero_add _).trans same))
  rwa [overlay_whole old data same] at written

/-- The table is left as it is, or has room for more bytes than asked for behind what is used
of it, which are the old ones or zeroes. -/
theorem smbiosExtendTable_spec (reallocated : Bool) (size : Nat)
    (laid : table.table = used ++ rest) (strings : table.currentStrPtr = used.length) :
    smbiosExtendTable reallocated table size = some (.outOfResources, table) ∨
      ∃ rest', smbiosExtendTable reallocated table size =
          some (.success, { table with table := used ++ rest' }) ∧
        size + 2 ≤ rest'.length ∧ used.length + (size + 2) ≤ smbiosTableMaxLength ∧
          (rest' = rest ∨ ∀ byte ∈ rest', byte = 0) := by
  have same : (if table.table = [] then 0 else table.currentStrPtr) = used.length := by
    split
    next empty => simp_all
    next => exact strings
  unfold smbiosExtendTable
  simp only [same]
  by_cases beyond : used.length + (size + smbiosStructureTerminatorSize) > smbiosTableMaxLength
  · exact .inl (if_pos beyond)
  · rw [if_neg beyond]
    have within : used.length + (size + 2) ≤ smbiosTableMaxLength := Nat.le_of_not_lt beyond
    by_cases fits : used.length + (size + smbiosStructureTerminatorSize) ≤ table.table.length
    · rw [if_pos fits]
      refine .inr ⟨rest, by rw [← laid], ?_, within, .inl rfl⟩
      rw [laid, length_append] at fits
      exact Nat.le_of_add_le_add_left fits
    · rw [if_neg fits]
      cases reallocated with
      | false => exact .inl (if_pos (by simp))
      | true =>
        have copied : ¬table.table.length < used.length := by simp [laid]
        rw [if_neg (by simp), if_neg copied]
        have enough : size + 2 ≤
            min (alignValue (used.length + (size + smbiosStructureTerminatorSize)) efiPageSize)
              (alignValue smbiosTableMaxLength efiPageSize) - used.length := by
          simp only [alignValue, smbiosTableMaxLength, smbiosStructureTerminatorSize,
            efiPageSize] at within ⊢
          omega
        generalize min _ _ - used.length = grown at enough ⊢
        refine .inr ⟨replicate grown 0, ?_, ?_, within, .inr ?_⟩
        · rw [laid, take_left, ← strings]
        · rw [length_replicate]
          exact enough
        · intro byte member
          exact eq_of_mem_replicate member

variable {session : Session}

theorem Draft.text_eq_nil (draft : Draft) : draft.text = [] ↔ draft.stored = [] := by
  obtain ⟨formatted, _ | ⟨entry, others⟩⟩ := draft
  · simp [text]
  · simp [text]

def Draft.terminators (draft : Draft) : Nat := if draft.stored = [] then 2 else 1

theorem Draft.bytes_terminated (draft : Draft) (spare : Nat) (enough : 2 ≤ spare) :
    draft.formatted ++ draft.text ++ replicate spare 0 =
      draft.bytes ++ replicate (spare - draft.terminators) 0 := by
  have few : draft.terminators ≤ 2 := by
    unfold terminators
    split <;> decide
  rw [Draft.bytes, append_assoc _ (replicate _ _), replicate_append_replicate]
  congr 2
  unfold terminators at few ⊢
  omega

/-- The string pointer has moved from the formatted area exactly when strings were stored. -/
theorem Draft.length_bytes (draft : Draft) (start strings : Nat)
    (behind : strings = start + (draft.formatted ++ draft.text).length) :
    (if strings ≠ start + draft.formatted.length then strings + 1
      else start + draft.formatted.length + 2) = start + draft.bytes.length := by
  have none_stored := draft.text_eq_nil
  rw [← length_eq_zero_iff] at none_stored
  simp only [Draft.bytes, length_append, length_replicate] at behind ⊢
  by_cases empty : draft.stored = []
  · have short := none_stored.mpr empty
    rw [if_neg (by omega), if_pos empty]
    omega
  · have long := mt none_stored.mp empty
    rw [if_pos (by omega), if_neg empty]
    omega

theorem Session.Building.finalise (building : session.Building draft) :
    ∃ session', session.step .finalise = some session' ∧ session'.Idle := by
  obtain ⟨spare, holds, enough⟩ := building.holds
  have sound := building.sound
  have bound : (UInt8.ofNat draft.formatted.length).toNat = draft.formatted.length :=
    UInt8.toNat_ofNat_of_lt' sound.small
  have read : session.table.table[session.table.currentPtr + 1]? =
      some (UInt8.ofNat draft.formatted.length) := by
    have header := sound.header
    rw [holds.table, holds.currentPtr, append_assoc, getElem?_append_right (by omega),
      Nat.add_sub_cancel_left, getElem?_append_left (by omega), sound.length]
  have moved := draft.length_bytes _ _ building.strings
  have used (table : OcSmbiosTable) :
      Session.used ⟨table, session.finalised ++ [draft], none, session.index⟩ =
        session.used ++ draft.bytes := by simp [Session.used]
  dsimp only [Session.step, smbiosFinaliseStruct]
  rw [read, building.current]
  simp only [Option.map_some, bound, holds.currentPtr, moved, Option.toList_some]
  refine ⟨_, rfl, ⟨rfl, ⟨replicate (spare - draft.terminators) 0, ⟨?_, ?_, ?_, ?_⟩, ?_⟩, ?_⟩⟩
  · rw [used, holds.table, draft.bytes_terminated spare enough, append_assoc]
  · rw [used, length_append]
  · have room := building.room
    have behind := building.strings
    have most : draft.bytes.length ≤ (draft.formatted ++ draft.text).length + 2 := by
      simp only [Draft.bytes, length_append, length_replicate]
      split <;> omega
    rw [used, length_append]
    omega
  · intro each member
    rcases mem_append.mp member with earlier | this
    · exact holds.sound each earlier
    · exact mem_singleton.mp this ▸ sound
  · intro byte member
    exact eq_of_mem_replicate (mem_of_mem_drop member)
  · rw [used, length_append]

theorem Session.Building.field (building : session.Building draft) {data : Bytes} (behind : 2 ≤ place)
    (inside : place + data.length ≤ draft.formatted.length) :
    ∃ session', session.step (.field place data) = some session' ∧
      session'.Building { draft with formatted := overlay draft.formatted place data } := by
  obtain ⟨spare, holds, enough⟩ := building.holds
  have sound := building.sound
  have same := overlay_length draft.formatted place data
  have laid : session.table.table =
      session.used ++ (draft.formatted ++ (draft.text ++ replicate spare 0)) := by
    rw [holds.table, append_assoc draft.formatted]
  have written := write_within laid inside
  rw [← holds.currentPtr] at written
  dsimp only [Session.step]
  rw [written, building.current]
  refine ⟨_, rfl, ⟨rfl, ?_, ⟨spare, ⟨?_, holds.currentPtr, holds.limit, holds.sound⟩, enough⟩,
    ?_, building.room, building.index⟩⟩
  · exact {
      header := same ▸ sound.header
      length := by
        dsimp only
        rw [overlay_getElem? inside, if_neg (by omega), same, sound.length]
      small := same ▸ sound.small
      numbered := sound.numbered
      few := sound.few
      strings := sound.strings }
  · simp [Session.used, Draft.text]
  · rw [building.strings]
    simp [Session.used, Draft.text, same]

theorem header_place {rest : Bytes} (enough : length + 2 ≤ rest.length)
    (header : 4 ≤ length) (blank : ∀ byte ∈ rest.drop 4, byte = 0) :
    ∃ first second spare, rest = first ++ (second ++ replicate spare 0) ∧
      first.length = 2 ∧ second.length = 2 ∧ length + 2 ≤ spare + 4 := by
  have zeroes : rest.drop 4 = replicate (rest.length - 4) 0 :=
    eq_replicate_iff.mpr ⟨length_drop, blank⟩
  refine ⟨rest.take 2, (rest.drop 2).take 2, rest.length - 4, ?_, ?_, ?_, ?_⟩
  · rw [← zeroes, show rest.drop (2 + 2) = (rest.drop 2).drop 2 from drop_drop.symm,
      take_append_drop, take_append_drop]
  · rw [length_take]
    omega
  · rw [length_take, length_drop]
    omega
  · omega

def begun (type minLength : UInt8) (handle : Nat) : Draft :=
  ⟨[type, minLength] ++ encode 2 handle ++ replicate (minLength.toNat - 4) 0, []⟩

theorem begun_length (type : UInt8) (handle : Nat) (header : 4 ≤ minLength.toNat) :
    (begun type minLength handle).formatted.length = minLength.toNat := by
  simp only [begun, encode, length_append, length_cons, length_nil, length_replicate]
  omega

theorem begun_sound (type : UInt8) (handle : Nat)
    (header : 4 ≤ minLength.toNat) : (begun type minLength handle).Sound where
  header := by rwa [begun_length type handle header]
  length := by
    rw [begun_length type handle header, UInt8.ofNat_toNat]
    rfl
  small := by
    rw [begun_length type handle header]
    exact minLength.toNat_lt
  numbered := rfl
  few := Nat.zero_le _
  strings := nofun

theorem smbiosAssignStructHandle_spec {used typed old back : Bytes} (type : UInt8) (index : Nat)
    (laid : table.table = used ++ (typed ++ (old ++ back))) (two : typed.length = 2)
    (two' : old.length = 2) (start : table.currentPtr = used.length) :
    smbiosAssignStructHandle table type index = some (.invalidParameter, table) ∨
      ∃ handle, smbiosAssignStructHandle table type index = some (.success, { table with
        table := used ++ (typed ++ (encode 2 (structHandle table type) ++ back))
        handle := handle }) := by
  have place : table.currentPtr + 2 = (used ++ typed).length := by
    rw [length_append, start, two]
  have written : table.write (table.currentPtr + 2) (encode 2 (structHandle table type)) =
      some { table with
        table := used ++ (typed ++ (encode 2 (structHandle table type) ++ back)) } := by
    rw [place, ← append_assoc used]
    rw [← append_assoc used] at laid
    exact write_between laid two'.symm
  unfold smbiosAssignStructHandle
  split
  · exact .inl rfl
  · rw [written]
    dsimp only [Option.map_some]
    split
    · exact .inr ⟨table.handle, rfl⟩
    · exact .inr ⟨_, rfl⟩

theorem smbiosInitialiseStruct_spec (reallocated : Bool)
    (type : UInt8) (index : Nat) (laid : table.table = used ++ rest)
    (blank : ∀ byte ∈ rest.drop 4, byte = 0) (start : table.currentPtr = used.length)
    (strings : table.currentStrPtr = used.length) (header : 4 ≤ minLength.toNat) :
    (∃ status rest', smbiosInitialiseStruct reallocated table type minLength index =
        some (status, { table with table := used ++ rest' }) ∧ status.isError = true ∧
          ∀ byte ∈ rest'.drop 4, byte = 0) ∨
      ∃ spare handle, smbiosInitialiseStruct reallocated table type minLength index =
        some (.success, { table with
          table := used ++ ((begun type minLength (structHandle table type)).formatted ++
            replicate spare 0)
          currentStrPtr := table.currentPtr + minLength.toNat
          handle := handle }) ∧
        2 ≤ spare ∧ used.length + minLength.toNat + 2 ≤ smbiosTableMaxLength := by
  unfold smbiosInitialiseStruct
  rcases smbiosExtendTable_spec reallocated minLength.toNat laid strings with
    full | ⟨rest', extended, enough, within, contents⟩
  · rw [full]
    exact .inl ⟨.outOfResources, rest, by rw [← laid]; rfl, rfl, blank⟩
  · have blank' : ∀ byte ∈ rest'.drop 4, byte = 0 := by
      rcases contents with rfl | zeroed
      · exact blank
      · exact fun byte member => zeroed byte (mem_of_mem_drop member)
    obtain ⟨first, second, spare, rfl, two, two', room⟩ := header_place enough header blank'
    rw [extended]
    generalize grown : ({ table with
      table := used ++ (first ++ (second ++ replicate spare 0)) } : OcSmbiosTable) = larger
    have laid' : larger.table = used ++ (first ++ (second ++ replicate spare 0)) := by
      rw [← grown]
    have start' : larger.currentPtr = used.length := by rw [← grown, ← start]
    have typed : larger.write larger.currentPtr [type, minLength] = some { larger with
        table := used ++ ([type, minLength] ++ (second ++ replicate spare 0)) } := by
      have same : [type, minLength].length = first.length := two.symm
      have placed := write_between laid' same
      rwa [← start'] at placed
    have written : ({ larger with
        table := used ++ ([type, minLength] ++ (second ++ replicate spare 0)) } :
          OcSmbiosTable).table =
        used ++ ([type, minLength] ++ (second ++ replicate spare 0)) := rfl
    dsimp only
    rw [if_neg (by decide), typed]
    dsimp only
    rcases smbiosAssignStructHandle_spec type index written rfl two' start' with
      invalid | ⟨handle, assigned⟩
    · rw [invalid, ← grown]
      refine .inl ⟨.invalidParameter, [type, minLength] ++ (second ++ replicate spare 0),
        rfl, rfl, ?_⟩
      have four : ([type, minLength] ++ second).length = 4 := by
        rw [length_append, two']
        rfl
      rw [← append_assoc, ← four, drop_left]
      exact fun byte member => eq_of_mem_replicate member
    · have zeroes : replicate spare (0 : UInt8) = replicate (minLength.toNat - 4) 0 ++
          replicate (spare - (minLength.toNat - 4)) 0 := by
        rw [replicate_append_replicate]
        congr 1
        omega
      rw [assigned, ← grown]
      refine .inr ⟨spare - (minLength.toNat - 4), handle, ?_, ?_, ?_⟩
      · rw [begun, zeroes]
        simp only [append_assoc]
        rfl
      · omega
      · omega

theorem Session.Idle.initialise (idle : session.Idle) (reallocated : Bool)
    (type minLength : UInt8) (index : Nat) (header : 4 ≤ minLength.toNat) :
    ∃ session', session.step (.initialise reallocated type minLength index) = some session' ∧
      session'.Laid := by
  obtain ⟨rest, holds, blank⟩ := idle.holds
  have start : session.table.currentPtr = session.used.length := holds.currentPtr
  dsimp only [Session.step]
  rcases smbiosInitialiseStruct_spec reallocated type index holds.table blank start idle.strings
    header with ⟨status, rest', failed, error, blank'⟩ | ⟨spare, handle, initialised, enough, room⟩
  · rw [failed]
    dsimp only [Option.map_some]
    rw [if_pos error]
    exact ⟨_, rfl, .inl ⟨idle.current, ⟨rest', ⟨rfl, start, holds.limit, holds.sound⟩, blank'⟩,
      idle.strings⟩⟩
  · have length := begun_length type (structHandle session.table type) header
    rw [initialised]
    dsimp only [Option.map_some]
    rw [if_neg (by decide)]
    refine ⟨_, rfl, .inr ⟨begun type minLength (structHandle session.table type), rfl,
      begun_sound type _ header, ⟨spare, ⟨?_, start, holds.limit, holds.sound⟩, enough⟩, ?_, ?_,
      rfl⟩⟩
    · rw [show (begun type minLength (structHandle session.table type)).text = [] from rfl,
        append_nil]
      rfl
    · rw [show (begun type minLength (structHandle session.table type)).text = [] from rfl,
        append_nil, length]
      exact congrArg (· + minLength.toNat) start
    · dsimp only
      omega

theorem trimmedLength_le (string : Bytes) (length : Nat) : trimmedLength string length ≤ length := by
  induction length with
  | zero => exact Nat.le_refl 0
  | succ length ih =>
    rw [trimmedLength]
    split
    · exact Nat.le_succ_of_le ih
    · exact Nat.le_refl _

theorem take_trimmedLength (string : Bytes) (within : length ≤ string.length) :
    string.take (trimmedLength string length) = (string.take length).rdropWhile (· = 0x20) := by
  induction length with
  | zero => rfl
  | succ length ih =>
    rw [take_add_one, getElem?_eq_getElem within, Option.toList_some, trimmedLength,
      getElem?_eq_getElem within]
    by_cases space : string[length] = 0x20
    · rw [if_pos (congrArg some space), rdropWhile_concat_pos _ _ _ (by simpa using space)]
      exact ih (Nat.le_of_succ_le within)
    · rw [if_neg (by simpa using space), rdropWhile_concat_neg _ _ _ (by simpa using space),
        take_add_one, getElem?_eq_getElem within]
      rfl

theorem take_kept (string : Bytes) :
    string.take (trimmedLength string (min string.length smbiosStringMaxLength)) =
      kept (some string) := by
  rw [take_trimmedLength string (Nat.min_le_left _ _), kept, Option.getD_some, Nat.min_comm,
    ← take_take, take_length]

theorem smbiosOverrideString_spec {used : Bytes} {spare : Nat} (reallocated : Bool)
    (override : Option Bytes) (index : Nat) (laid : table.table = used ++ replicate spare 0)
    (strings : table.currentStrPtr = used.length) :
    smbiosOverrideString reallocated table override index = some (0, index, table) ∨
      ∃ spare', smbiosOverrideString reallocated table override index =
          some ((index + 1) % 256, (index + 1) % 256, { table with
            table := used ++ (kept override ++ [0]) ++ replicate spare' 0
            currentStrPtr := used.length + (kept override ++ [0]).length }) ∧
        kept override ≠ [] ∧ 2 ≤ spare' ∧
          used.length + (kept override ++ [0]).length + 2 ≤ smbiosTableMaxLength := by
  rcases override with _ | string
  · exact .inl rfl
  · have cut : (kept (some string)).length =
        trimmedLength string (min string.length smbiosStringMaxLength) := by
      have trimmed := trimmedLength_le string (min string.length smbiosStringMaxLength)
      rw [← take_kept, length_take]
      omega
    dsimp only [smbiosOverrideString, smbiosSetString]
    rw [take_kept, ← cut]
    split
    next => exact .inl rfl
    next stored =>
      rcases smbiosExtendTable_spec reallocated ((kept (some string)).length + 1) laid strings with
        full | ⟨rest, extended, room, within, contents⟩
      · rw [full]
        exact .inl rfl
      · have zeroes : rest = replicate (kept (some string)).length 0 ++
            ([0] ++ replicate (rest.length - ((kept (some string)).length + 1)) 0) := by
          have blank : rest = replicate rest.length 0 := by
            rcases contents with rfl | zeroed
            · rw [length_replicate]
            · exact eq_replicate_iff.mpr ⟨rfl, zeroed⟩
          rw [show [0] = replicate 1 (0 : UInt8) from rfl, replicate_append_replicate,
            replicate_append_replicate]
          conv_lhs => rw [blank]
          congr 1
          omega
        have larger : ({ table with table := used ++ rest } : OcSmbiosTable).table =
            used ++ (replicate (kept (some string)).length 0 ++
              ([0] ++ replicate (rest.length - ((kept (some string)).length + 1)) 0)) := by
          rw [← zeroes]
        have written := write_between larger (length_replicate (a := (0 : UInt8))).symm
        rw [← strings] at written
        rw [extended]
        dsimp only
        rw [if_neg (by decide), written]
        refine .inr ⟨rest.length - ((kept (some string)).length + 1), ?_, ?_, ?_, ?_⟩
        · simp [strings]
        · exact fun empty => stored (by rw [empty]; rfl)
        · omega
        · rw [length_append, length_singleton]
          omega

theorem Draft.Sound.store {string : Bytes} (sound : draft.Sound)
    (few : draft.stored.length < 255) (written : string ≠ []) (ended : 0 ∉ string) :
    Draft.Sound { draft with stored := draft.stored ++ [(draft.stored.length + 1, string)] } where
  header := sound.header
  length := sound.length
  small := sound.small
  numbered := by
    rw [map_append, sound.numbered, length_append, length_singleton, range_succ, map_append]
    rfl
  few := by
    rw [length_append, length_singleton]
    omega
  strings := by
    intro entry member
    rcases mem_append.mp member with earlier | this
    · exact sound.strings entry earlier
    · rw [mem_singleton.mp this]
      exact ⟨written, ended⟩

/-- A failed override leaves the table, a stored one has the number of strings as its index. -/
theorem Session.Building.overrideString (building : session.Building draft)
    (admitted : session.Admits (.override reallocated string)) :
    smbiosOverrideString reallocated session.table string session.index =
        some (0, session.index, session.table) ∨
      ∃ table, smbiosOverrideString reallocated session.table string session.index =
          some (draft.stored.length + 1, draft.stored.length + 1, table) ∧
        Session.Building { session with
          table := table
          current := some { draft with
            stored := draft.stored ++ [(draft.stored.length + 1, kept string)] }
          index := draft.stored.length + 1 }
          { draft with stored := draft.stored ++ [(draft.stored.length + 1, kept string)] } := by
  obtain ⟨draft', current, nonzero, few⟩ := admitted
  obtain ⟨spare, holds, enough⟩ := building.holds
  obtain rfl : draft' = draft := Option.some.inj (current.symm.trans building.current)
  have laid : session.table.table =
      (session.used ++ (draft'.formatted ++ draft'.text)) ++ replicate spare 0 := by
    rw [holds.table, ← append_assoc]
  have strings : session.table.currentStrPtr =
      (session.used ++ (draft'.formatted ++ draft'.text)).length := by
    rw [building.strings, ← length_append]
  rcases smbiosOverrideString_spec reallocated string session.index laid strings with
    failed | ⟨spare', stored, written, enough', room⟩
  · exact .inl failed
  · have few' : draft'.stored.length < 255 := by
      rcases few with few | unchanged
      · exact few
      · rw [stored] at unchanged
        have same := congrArg OcSmbiosTable.currentStrPtr (Option.some.inj unchanged)
        rw [strings] at same
        simp at same
    have number : (session.index + 1) % 256 = draft'.stored.length + 1 := by
      rw [building.index]
      omega
    have ended : 0 ∉ kept string := fun member =>
      nonzero 0 (mem_of_mem_take (( rdropWhile_prefix _ _).mem member)) rfl
    rw [number] at stored
    refine .inr ⟨_, stored, rfl, building.sound.store few' written ended,
      ⟨spare', ⟨?_, holds.currentPtr, holds.limit, holds.sound⟩, enough'⟩, ?_, room, by simp⟩
    · simp [Session.used, Draft.text]
    · simp [Session.used, Draft.text]
      omega

theorem Session.Building.override (building : session.Building draft)
    (admitted : session.Admits (.override reallocated string)) :
    ∃ session', session.step (.override reallocated string) = some session' ∧
      (session' = session ∨ ∃ draft', session'.Building draft') := by
  dsimp only [Session.step]
  rcases building.overrideString admitted with failed | ⟨table, stored, building'⟩
  · rw [failed]
    refine ⟨_, rfl, .inl ?_⟩
    simp
  · rw [stored, building.current]
    exact ⟨_, rfl, .inr ⟨_, building'⟩⟩

theorem Session.Laid.holds (laid : session.Laid) : ∃ rest, session.Holds rest := by
  rcases laid with idle | ⟨draft, building⟩
  · obtain ⟨rest, holds, _⟩ := idle.holds
    exact ⟨rest, holds⟩
  · obtain ⟨spare, holds, _⟩ := building.holds
    exact ⟨_, holds⟩

theorem Session.Laid.step (laid : session.Laid) {op : Op} (admitted : session.Admits op) :
    ∃ session', session.step op = some session' ∧ session'.Laid := by
  rcases laid with idle | ⟨draft, building⟩
  · cases op with
    | initialise reallocated type minLength index =>
      exact idle.initialise reallocated type minLength index admitted.2
    | field place data =>
      obtain ⟨draft, current, _⟩ := admitted
      exact absurd (current.symm.trans idle.current) nofun
    | override reallocated string =>
      obtain ⟨draft, current, _⟩ := admitted
      exact absurd (current.symm.trans idle.current) nofun
    | finalise => exact absurd idle.current admitted
  · cases op with
    | initialise reallocated type minLength index =>
      exact absurd (building.current.symm.trans admitted.1) nofun
    | field place data =>
      obtain ⟨draft', current, behind, inside⟩ := admitted
      obtain rfl : draft' = draft := Option.some.inj (current.symm.trans building.current)
      obtain ⟨session', stepped, building'⟩ := building.field behind inside
      exact ⟨session', stepped, .inr ⟨_, building'⟩⟩
    | override reallocated string =>
      obtain ⟨session', stepped, same | building'⟩ := building.override admitted
      · exact ⟨session', stepped, same ▸ .inr ⟨draft, building⟩⟩
      · exact ⟨session', stepped, .inr building'⟩
    | finalise =>
      obtain ⟨session', stepped, idle⟩ := building.finalise
      exact ⟨session', stepped, .inl idle⟩

theorem Session.Laid.run (laid : session.Laid) {ops : List Op} (admitted : session.AdmitsAll ops) :
    ∃ session', session.run ops = some session' ∧ session'.Laid := by
  induction ops generalizing session with
  | nil => exact ⟨session, rfl, laid⟩
  | cons op rest ih =>
    obtain ⟨next, stepped, laid'⟩ := laid.step admitted.1
    obtain ⟨session', ran, laid''⟩ := ih laid' (admitted.2 next stepped)
    refine ⟨session', ?_, laid''⟩
    rw [Session.run, stepped]
    exact ran

end Writer

end OpenCore.SmbiosSession
