import OpenCore.SmbiosReader

/-!
What the readers find in the table of a session, after any run of the writer: the structures
that were finalised, in order and inside the allocation, each with its strings under the
indices that were returned. The readers that look for a type stop behind an end-of-table
structure.
-/

namespace OpenCore.SmbiosAgreement

open Base ByteBuffer SmbiosTable SmbiosSession SmbiosReader List

structure Agrees (session : Session) : Prop where
  inside : session.table.currentPtr ≤ session.table.table.length
  limit : session.table.currentPtr ≤ smbiosTableMaxLength
  written : session.table.table.take session.table.currentPtr =
    session.finalised.flatMap Draft.bytes
  sound : ∀ draft ∈ session.finalised, draft.Sound
  walked : walk (session.table.currentPtr + 1) session.table.table session.table.currentPtr =
    some (session.finalised.map Draft.bytes)
  ofType : ∀ type index, ∃ found,
    smbiosGetStructureOfType session.table.table session.table.currentPtr type index =
        some found ∧
      ∀ place, found = some place ↔
        ∃ before draft after, upToEnd session.finalised = before ++ draft :: after ∧
          draft.type = type ∧ 1 + before.countP (fun draft => draft.type = type) = index ∧
          place = (before.flatMap Draft.bytes).length
  count : ∀ type, smbiosGetStructureCount session.table.table session.table.currentPtr type =
    some ((upToEnd session.finalised).countP fun draft => draft.type = type)
  strings : ∀ before draft after, session.finalised = before ++ draft :: after →
    ∀ entry ∈ draft.stored, ∃ rest,
      smbiosGetString (session.table.table.drop (before.flatMap Draft.bytes).length) entry.1 =
        some (some (entry.2 ++ 0 :: rest))
  stringsSoFar : ∀ draft ∈ session.current, ∀ entry ∈ draft.stored, ∃ rest,
    smbiosGetString (session.table.table.drop session.table.currentPtr) entry.1 =
      some (some (entry.2 ++ 0 :: rest))
  failed : ∀ reallocated string, session.Admits (.override reallocated string) →
    ∀ index table, smbiosOverrideString reallocated session.table string session.index =
      some (0, index, table) → table = session.table

theorem drafts_few {drafts : List Draft} (sound : ∀ draft ∈ drafts, draft.Sound) :
    6 * drafts.length ≤ (drafts.flatMap Draft.bytes).length := by
  induction drafts with
  | nil => exact Nat.zero_le _
  | cons draft rest ih =>
    have this := bytes_long (sound draft (mem_cons_self ..))
    have others := ih fun each member => sound each (mem_cons_of_mem _ member)
    rw [length_cons, flatMap_cons, length_append]
    omega

variable {session : Session}

theorem strings_found {rest : Bytes} (holds : session.Holds rest) (before : List Draft)
    (draft : Draft) (after : List Draft) (split : session.finalised = before ++ draft :: after)
    (entry : Nat × Bytes) (member : entry ∈ draft.stored) :
    ∃ behind, smbiosGetString
        (session.table.table.drop (before.flatMap Draft.bytes).length) entry.1 =
      some (some (entry.2 ++ 0 :: behind)) := by
  have sound : draft.Sound := holds.sound draft (by simp [split])
  have place : session.table.table.drop (before.flatMap Draft.bytes).length =
      draft.formatted ++ (draft.text ++ (replicate (if draft.stored = [] then 2 else 1) 0 ++
          (after.flatMap Draft.bytes ++ rest))) := by
    rw [holds.table, Session.used, split, flatMap_append, append_assoc, drop_left,
      flatMap_cons, Draft.bytes]
    simp only [append_assoc]
  rw [place]
  exact smbiosGetString_stored sound _ member

theorem strings_so_far (laid : session.Laid) (draft : Draft) (this : draft ∈ session.current)
    (entry : Nat × Bytes) (member : entry ∈ draft.stored) :
    ∃ behind, smbiosGetString (session.table.table.drop session.table.currentPtr) entry.1 =
      some (some (entry.2 ++ 0 :: behind)) := by
  rcases laid with idle | ⟨draft', building⟩
  · exact absurd (this.symm.trans idle.current) nofun
  · obtain rfl : draft' = draft := Option.some.inj (building.current.symm.trans this)
    obtain ⟨spare, holds, _⟩ := building.holds
    rw [holds.table, holds.currentPtr, drop_left, append_assoc]
    exact smbiosGetString_stored building.sound _ member

theorem failed_unchanged (laid : session.Laid) {reallocated : Bool} {string : Option Bytes}
    (admitted : session.Admits (.override reallocated string)) {index : Nat} {table : OcSmbiosTable}
    (failed : smbiosOverrideString reallocated session.table string session.index =
      some (0, index, table)) : table = session.table := by
  rcases laid with idle | ⟨draft, building⟩
  · obtain ⟨draft, current, _⟩ := admitted
    exact absurd (current.symm.trans idle.current) nofun
  · rcases building.overrideString admitted with unchanged | ⟨table', stored, _⟩
    · rw [failed] at unchanged
      cases unchanged
      rfl
    · rw [failed] at stored
      cases stored

theorem agrees_of_laid (laid : session.Laid) : Agrees session := by
  obtain ⟨rest, holds⟩ := laid.holds
  have few := drafts_few holds.sound
  have limit : session.used.length ≤ 65535 := holds.limit
  have short : 1 + session.finalised.length < u16 := by
    rw [Session.used] at limit
    rw [u16_val]
    omega
  have enough : (session.finalised.flatMap Draft.bytes).length < session.used.length + 1 :=
    Nat.lt_succ_self _
  refine ⟨?_, ?_, ?_, holds.sound, ?_, ?_, ?_, strings_found holds, strings_so_far laid, ?_⟩
  · rw [holds.table, holds.currentPtr, length_append]
    exact Nat.le_add_right _ _
  · rw [holds.currentPtr]
    exact holds.limit
  · rw [holds.table, holds.currentPtr, take_left]
    rfl
  · rw [holds.table, holds.currentPtr]
    exact walk_bytes _ rest _ holds.sound enough
  · intro type index
    refine ⟨locate type index session.finalised 0 1, ?_, fun place => ?_⟩
    · rw [holds.table, holds.currentPtr]
      exact ofType_bytes type index _ rest _ 0 1 holds.sound enough short
    · rw [locate_eq_some]
      simp only [zero_add]
  · intro type
    rw [holds.table, holds.currentPtr, smbiosGetStructureCount]
    have counted := countOf_bytes type session.finalised rest (session.used.length + 1) 0
      holds.sound enough (by omega)
    rw [zero_add] at counted
    exact counted
  · intro reallocated string admitted index table failed
    exact failed_unchanged laid admitted failed

/-- After any run of the writer, whichever reallocations fail, the readers agree with what was
finalised, up to the first end-of-table structure. -/
theorem smbiosTable_agrees (pages handle : Nat) (ops : List Op)
    (admitted : (Session.empty pages handle).AdmitsAll ops) :
    ∃ session, (Session.empty pages handle).run ops = some session ∧ Agrees session := by
  obtain ⟨session, ran, laid⟩ := (Session.empty_laid pages handle).run admitted
  exact ⟨session, ran, agrees_of_laid laid⟩

/-- A structure without an allocation, then an end-of-table structure and one with two strings:
the second has to be cut, and a third of spaces is not stored. -/
def twoStructures : List Op :=
  [.initialise false 0 6 1, .initialise true 127 4 1, .finalise, .initialise false 0 6 1,
    .field 4 [1, 2], .override true (some [0x41, 0x20]),
    .override true (some (replicate 70 0x42)), .override true (some [0x20]), .finalise]

theorem twoStructures_admitted : (Session.empty 0 128).AdmitsAll twoStructures := by
  decide +kernel

theorem smbiosTable_agrees_twoStructures :
    (Session.empty 0 128).AdmitsAll twoStructures ∧
      ∃ session, (Session.empty 0 128).run twoStructures = some session ∧ Agrees session :=
  ⟨twoStructures_admitted, smbiosTable_agrees 0 128 twoStructures twoStructures_admitted⟩

/-- The structure behind the end of the table is neither counted nor found. -/
theorem structures_behind_end : ∃ session,
    (Session.empty 0 128).AdmitsAll twoStructures ∧
      (Session.empty 0 128).run twoStructures = some session ∧
      session.finalised.map Draft.type = [127, 0] ∧
      smbiosGetStructureCount session.table.table session.table.currentPtr 0 = some 0 ∧
      smbiosGetStructureOfType session.table.table session.table.currentPtr 0 1 = some none := by
  have outcome : ((Session.empty 0 128).run twoStructures).map (fun session =>
      (session.finalised.map Draft.type,
        smbiosGetStructureCount session.table.table session.table.currentPtr 0,
        smbiosGetStructureOfType session.table.table session.table.currentPtr 0 1)) =
      some ([127, 0], some 0, some none) := by decide +kernel
  obtain ⟨session, ran, found⟩ := Option.map_eq_some_iff.mp outcome
  obtain ⟨types, count, ofType⟩ := Prod.mk.inj found |>.imp_right Prod.mk.inj
  exact ⟨session, twoStructures_admitted, ran, types, count, ofType⟩

end OpenCore.SmbiosAgreement
