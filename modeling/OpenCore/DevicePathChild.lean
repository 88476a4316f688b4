import OpenCore.DevicePathEqual

/-!
What the test for a child answers. The walk stops with `TRUE` where the child path is at
its end, so it answers whether the child path is a beginning of the parent path. This is
right where the paths are equal or neither is a beginning of the other.
-/

namespace OpenCore.DevicePathChild

open DevicePathCompare DevicePathEqual

section Beginnings

variable {path whole parent child : DevicePath}

/-- The nodes of a path are a beginning of those of another, as far as the comparison of
device paths can tell. -/
def Starts (path whole : DevicePath) : Prop :=
  ∃ front rest, whole = front ++ rest ∧ isDevicePathEqual path front = .done true

/-- With every run of file paths as one, the items of a path stand in front of those of
another, and no boundary of one run lies right behind one of the other. -/
def Leads (path whole : DevicePath) : Prop :=
  canonical path <+: canonical whole ∧ RunsApart whole path

theorem isDevicePathChild_iff (parent child : DevicePath) :
    isDevicePathChild parent child = .done true ↔ Leads child parent := by
  obtain ⟨answer, done, decides⟩ : Decides (isDevicePathChild parent child) _ :=
    cmpLoop_decides (Nat.lt_succ_self _)
  rw [done, Outcome.done.injEq]
  exact decides

theorem afterRun_append (front rest : DevicePath) :
    afterRun front = [] ∨ afterRun (front ++ rest) = afterRun front ++ rest := by
  induction front with
  | nil => exact .inl rfl
  | cons node front ih =>
    cases node with
    | filePath node => exact ih
    | other node => exact .inr rfl

theorem length_canonical_append (front rest : DevicePath) :
    (canonical front).length ≤ (canonical (front ++ rest)).length := by
  induction front using canonical.induct with
  | case1 =>
    rw [canonical]
    exact Nat.zero_le _
  | case2 node front ih =>
    rw [List.cons_append, canonical, canonical]
    exact Nat.succ_le_succ ih
  | case3 node front ih =>
    rw [List.cons_append, canonical, canonical, List.length_cons, List.length_cons]
    refine Nat.succ_le_succ ?_
    rcases afterRun_append front rest with ends | goesOn
    · rw [ends, canonical]
      exact Nat.zero_le _
    · rw [goesOn]
      exact ih

theorem leads_of_equal (equal : isDevicePathEqual path whole = .done true) : Leads whole path := by
  obtain ⟨same, apart⟩ := (isDevicePathEqual_iff path whole).mp equal
  have items : canonical path = canonical whole := same
  exact ⟨items ▸ List.prefix_rfl, apart⟩

theorem equal_of_both (starts : Starts parent child) (leads : Leads child parent) :
    isDevicePathEqual parent child = .done true := by
  obtain ⟨front, rest, rfl, equal⟩ := starts
  have same : canonical parent = canonical front := ((isDevicePathEqual_iff parent front).mp equal).1
  have longer := length_canonical_append front rest
  rw [← same] at longer
  exact (isDevicePathEqual_iff _ _).mpr
    ⟨(leads.1.eq_of_length (Nat.le_antisymm leads.1.length_le longer)).symm, leads.2⟩

structure ChildRight (parent child : DevicePath) : Prop where
  answers : isDevicePathChild parent child = .done true ↔ Starts parent child
  proper : Starts child parent → isDevicePathEqual parent child ≠ .done true →
    isDevicePathChild parent child ≠ .done true

/-- The answer is right where the paths are equal or neither is a beginning of the
other. -/
theorem isDevicePathChild_right_iff (parent child : DevicePath) :
    ChildRight parent child ↔ isDevicePathEqual parent child = .done true ∨
      ¬ Starts parent child ∧ ¬ Leads child parent := by
  constructor
  · rintro ⟨answers, -⟩
    rw [isDevicePathChild_iff] at answers
    by_cases leads : Leads child parent
    · exact .inl (equal_of_both (answers.mp leads) leads)
    · exact .inr ⟨fun starts => leads (answers.mpr starts), leads⟩
  · rintro (equal | ⟨other, none⟩)
    · have child := (isDevicePathChild_iff parent child).mpr (leads_of_equal equal)
      exact ⟨iff_of_true child ⟨_, [], (List.append_nil _).symm, equal⟩, fun _ differs => absurd equal differs⟩
    · have no := mt (isDevicePathChild_iff parent child).mp none
      exact ⟨iff_of_false no other, fun _ _ => no⟩

end Beginnings

section Samples

def pciRoot : Node := .other ⟨2, 1, [0xD0, 0x41, 0x03, 0x0A, 0, 0, 0, 0], by decide, by decide⟩
def pciDevice : Node := .other ⟨1, 1, [2, 0x1F], by decide, by decide⟩

/-- A device below the root is not reported as its child, and the root is reported as
the child of the device. -/
theorem device_missed : ¬ ChildRight [pciRoot] [pciRoot, pciDevice] ∧
    ¬ ChildRight [pciRoot, pciDevice] [pciRoot] := by
  constructor
  · intro right
    have starts : Starts [pciRoot] [pciRoot, pciDevice] := ⟨[pciRoot], [pciDevice], rfl, by decide⟩
    exact absurd (right.answers.mpr starts) (by decide)
  · intro right
    have starts : Starts [pciRoot] [pciRoot, pciDevice] := ⟨[pciRoot], [pciDevice], rfl, by decide⟩
    exact right.proper starts (by decide) (by decide)

end Samples

end OpenCore.DevicePathChild
