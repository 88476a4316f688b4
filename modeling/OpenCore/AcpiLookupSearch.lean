import OpenCore.AcpiLookupTerms
import OpenCore.AcpiSearchSafety

/-!
Lookups in tables of objects. The pointer into the path stands where an object of
the sought name needs it, so every such object is counted. Where the objects that
the lookup meets are not too deep and the counted ones have the sought name, the
lookup finds the entry that it should.
-/

namespace OpenCore.AcpiLookupSearch

open TracedAction AcpiParser AmlObjects AcpiLookup AcpiLookupTerms List

section Counting

variable {path : List UInt32}
variable {visit : Visit} {pointer : Nat} {index : Nat} {outer : List UInt32}

theorem visits_objects (terms : Terms) (offset : Nat) (outer : List UInt32) (depth pointer : Nat) :
    (terms.visits path offset outer depth pointer).map Visit.object = terms.objects offset outer := by
  induction terms generalizing offset outer depth pointer with
  | nil => rfl
  | block kind extra name inside rest ihInside ihRest =>
    simp only [Terms.visits, Terms.objects, map_cons, map_append, ihInside, ihRest]
  | method extra name code rest ih =>
    simp only [Terms.visits, Terms.objects, map_cons, ih]

theorem follow_append {name tail : List UInt32}
    (rest : path.drop pointer = name ++ tail) : follow path pointer name = pointer + name.length := by
  induction name generalizing pointer with
  | nil => rfl
  | cons identifier name ih =>
    have head : path[pointer]? = some identifier := by
      rw [← head?_drop, rest]
      rfl
    have further : path.drop (pointer + 1) = name ++ tail := by
      rw [← tail_drop, rest]
      rfl
    rw [follow, if_pos head, ih further, length_cons]
    omega

/-- Inside scopes whose names begin the path the pointer stands behind them. -/
def PointsBehind (path outer : List UInt32) (pointer : Nat) : Prop :=
  ∀ tail, tail ≠ [] → path = outer ++ tail → pointer = outer.length

theorem PointsBehind.inside {outer name : List UInt32}
    (points : PointsBehind path outer pointer) (named : name ≠ []) :
    PointsBehind path (outer ++ name) (enter path pointer name) := by
  intro tail some split
  rw [append_assoc] at split
  have at_outer := points (name ++ tail) (by simp [named]) split
  have rest : path.drop pointer = name ++ tail := by
    rw [at_outer, split, drop_left]
  have differs : path.drop pointer ≠ name := by
    rw [rest]
    simpa using some
  rw [enter, if_neg differs, follow_append rest, at_outer, length_append]

theorem PointsBehind.rest {name : Name}
    (points : PointsBehind path outer pointer) (same : outer ++ name.identifiers = path) :
    path.drop pointer = name.identifiers := by
  rw [points _ name.identifiers_ne_nil same.symm, ← same, drop_left]

theorem counted_of_qualified {terms : Terms} {offset : Nat}
    {depth pointer : Nat} (points : PointsBehind path outer pointer)
    (member : visit ∈ terms.visits path offset outer depth pointer)
    (qualified : visit.object.name = path) : visit.counted = true := by
  induction terms generalizing offset outer depth pointer with
  | nil => exact absurd member not_mem_nil
  | block kind extra name inside rest ihInside ihRest =>
    rw [Terms.visits] at member
    rcases mem_cons.mp member with rfl | member
    · exact decide_eq_true (points.rest qualified)
    rcases mem_append.mp member with member | member
    · exact ihInside (points.inside name.identifiers_ne_nil) member
    · exact ihRest points member
  | method extra name code rest ih =>
    rw [Terms.visits] at member
    rcases mem_cons.mp member with rfl | member
    · exact decide_eq_true (points.rest qualified)
    · exact ih points member

def met (required : Nat) : List Visit → Nat → List Visit
  | [], _ => []
  | visit :: rest, counted =>
    visit ::
      if visit.counted then
        if counted + 1 = required then [] else met required rest (counted + 1)
      else met required rest counted

def seek (path : List UInt32) (visits : List Visit) (index : Nat) : Option Object :=
  ((visits.map Visit.object).filter fun object => object.name = path)[index]?

variable {required counted : Nat} {visits : List Visit}

theorem seek_first (same : visit.object.name = path) :
    seek path (visit :: visits) 0 = some visit.object := by
  simp [seek, same]

theorem seek_later (same : visit.object.name = path) :
    seek path (visit :: visits) (index + 1) = seek path visits index := by
  simp [seek, same]

theorem seek_other (other : visit.object.name ≠ path) :
    seek path (visit :: visits) index = seek path visits index := by
  simp [seek, other]

def Agrees (sought : Option Object) (verdict : Verdict) : Prop :=
  match sought with
  | some object => verdict = .found object.position
  | none => ∃ total, verdict = .goesOn total

theorem look_of_honest (missing : counted < required)
    (shallow : ∀ visit ∈ met required visits counted, visit.depth ≤ deepest)
    (honest : ∀ visit ∈ met required visits counted,
      visit.counted = true → visit.object.name = path)
    (complete : ∀ visit ∈ visits, visit.object.name = path → visit.counted = true) :
    Agrees (seek path visits (required - counted - 1)) (look deepest required visits counted) := by
  induction visits generalizing counted with
  | nil => exact ⟨counted, rfl⟩
  | cons visit rest ih =>
    have notDeep := shallow visit mem_cons_self
    have later : ∀ other ∈ rest, other.object.name = path → other.counted = true :=
      fun other member => complete other (mem_cons_of_mem _ member)
    rw [look, if_neg (Nat.not_lt.mpr notDeep)]
    rw [met] at shallow honest
    by_cases isCounted : visit.counted = true
    · have same := honest visit mem_cons_self isCounted
      rw [if_pos isCounted] at shallow honest ⊢
      by_cases last : counted + 1 = required
      · have index : required - counted - 1 = 0 := by omega
        rw [if_pos last, index, seek_first same]
        rfl
      · have index : required - counted - 1 = required - (counted + 1) - 1 + 1 := by omega
        rw [if_neg last] at shallow honest ⊢
        rw [index, seek_later same]
        exact ih (by omega) (fun other member => shallow other (mem_cons_of_mem _ member))
          (fun other member => honest other (mem_cons_of_mem _ member)) later
    · have other : visit.object.name ≠ path :=
        fun same => isCounted (complete visit mem_cons_self same)
      rw [if_neg isCounted] at shallow honest ⊢
      rw [seek_other other]
      exact ih missing (fun other member => shallow other (mem_cons_of_mem _ member))
        (fun other member => honest other (mem_cons_of_mem _ member)) later

theorem look_of_few (shallow : ∀ visit ∈ met required visits counted, visit.depth ≤ deepest)
    (few : counted + (visits.filter Visit.counted).length < required) :
    look deepest required visits counted =
      .goesOn (counted + (visits.filter Visit.counted).length) := by
  induction visits generalizing counted with
  | nil => rfl
  | cons visit rest ih =>
    have notDeep := shallow visit mem_cons_self
    rw [look, if_neg (Nat.not_lt.mpr notDeep)]
    rw [met] at shallow
    by_cases isCounted : visit.counted = true
    · rw [filter_cons_of_pos isCounted, length_cons] at few ⊢
      have further : counted + 1 ≠ required := by omega
      rw [if_pos isCounted, if_neg further] at shallow ⊢
      rw [ih (fun other member => shallow other (mem_cons_of_mem _ member)) (by omega)]
      congr 1
      omega
    · rw [filter_cons_of_neg isCounted] at few ⊢
      rw [if_neg isCounted] at shallow ⊢
      exact ih (fun other member => shallow other (mem_cons_of_mem _ member)) few

theorem seek_of_few (complete : ∀ visit ∈ visits, visit.object.name = path → visit.counted = true)
    (few : (visits.filter Visit.counted).length ≤ index) :
    seek path visits index = none := by
  have fewer : (visits.countP fun visit => decide (visit.object.name = path)) ≤
      visits.countP Visit.counted := countP_mono_left fun visit member same =>
      complete visit member (of_decide_eq_true same)
  rw [countP_eq_length_filter, countP_eq_length_filter] at fewer
  apply getElem?_eq_none
  rw [filter_map, length_map]
  exact Nat.le_trans fewer few

end Counting

section Search

structure TableOf (search : Search) (terms : Terms) (path : List UInt32) : Prop where
  wellFormed : terms.WellFormed
  nonempty : terms ≠ .nil
  body : ∀ index byte, terms.encode[index]? = some byte →
    search.memory (Search.descriptionHeaderSize + index) = byte
  length : search.length = Search.descriptionHeaderSize + terms.encode.length
  translated : getOpcodeArray search.pathString = some path
  entry : 0 < search.entry.toNat

def soughtObject (search : Search) (terms : Terms) (path : List UInt32) : Option Object :=
  ((terms.objects Search.descriptionHeaderSize []).filter fun object =>
    object.name = path)[search.entry.toNat - 1]?

/-- The lookup returns the offset of the sought object, or that there is none. -/
def FindsEntry (search : Search) (terms : Terms) (path : List UInt32) (fuel : Nat) : Prop :=
  match soughtObject search terms path with
  | some object =>
    ∃ final, Ends (search.acpiFindEntryInMemory fuel) Search.start (.ok .success) final ∧
      final.result = object.position
  | none => ∃ final, Ends (search.acpiFindEntryInMemory fuel) Search.start (.ok .notFound) final

variable {search : Search} {terms : Terms} {path : List UInt32} {fuel : Nat}

theorem encode_ne_nil (nonempty : terms ≠ .nil) : 0 < terms.encode.length := by
  cases terms with
  | nil => exact absurd rfl nonempty
  | block kind extra name inside rest =>
    rw [Terms.encode, length_append, length_append, encodePackage_length, packageLength]
    omega
  | method extra name code rest =>
    rw [Terms.encode, length_append, length_cons]
    omega

theorem TableOf.identifiers (table : TableOf search terms path) : search.identifiers = path := by
  rw [Search.identifiers, table.translated]
  rfl

theorem TableOf.pathIs (table : TableOf search terms path) : PathIs search.lookup path := by
  constructor
  · intro index identifier found
    change (search.identifiers[index]?).getD _ = identifier
    rw [table.identifiers, found]
    rfl
  · change search.identifiers.length = path.length
    rw [table.identifiers]

theorem TableOf.stored (table : TableOf search terms path) :
    Stored search.lookup Search.descriptionHeaderSize terms.encode := by
  constructor
  · exact table.body
  · exact Nat.le_of_eq table.length.symm

def visitsOf (terms : Terms) (path : List UInt32) : List Visit :=
  terms.visits path Search.descriptionHeaderSize [] 0 0

theorem acpiFindEntryInMemory_ends (table : TableOf search terms path)
    (enough : search.length < fuel) :
    TermEnds (search.acpiFindEntryInMemory fuel) Search.start search.length
      (look deepest search.entry.toNat (visitsOf terms path) 0) := by
  have positive := encode_ne_nil table.nonempty
  have fits := AcpiSearchSafety.Search.length_lt search
  have required : search.lookup.requiredEntry < 2 ^ 32 :=
    Nat.lt_trans search.entry.toNat_lt (by decide)
  have length := table.length
  have few := termCount_le terms
  have header : Search.descriptionHeaderSize = 36 := rfl
  have common : Search.commonHeaderSize = 8 := rfl
  have run : TermRun (parseTermBody search.lookup fuel) search.lookup.tableEnd (termCount terms)
      Search.start (look deepest search.entry.toNat (visitsOf terms path) 0) :=
    terms_run fits required table.pathIs terms table.wellFormed table.stored length
      (length_pos_of_ne_nil (AcpiSearchSafety.getOpcodeArray_ne_nil table.translated))
      table.entry (Nat.zero_le _) (by omega)
  have count : termCount terms < fuel := by omega
  have given : ¬ (0 < search.tableLength.toNat ∧
      search.tableLength.toNat < Search.commonHeaderSize) := by
    rintro ⟨some, small⟩
    rw [Search.length, if_pos some] at length
    omega
  have readsLength : Ends search.readLength Search.start (.ok ()) Search.start := by
    rw [Search.readLength]
    split
    · exact Ends.pure
    · exact Ends.emit
  apply (findTerms_ends run count).congr
  intro outcome final searched
  apply Ends.ite_false given
  apply readsLength.bind
  apply Ends.ite_false (by omega)
  apply Ends.ite_false
  · rw [table.translated]
    exact Bool.false_ne_true
  · exact searched

/-- Below the depth limit, and where every object that is counted has the sought
name, the lookup finds the sought entry. -/
theorem acpiFindEntryInMemory_finds (search : Search) (terms : Terms) (path : List UInt32)
    (fuel : Nat) (table : TableOf search terms path) (enough : search.length < fuel)
    (shallow : ∀ visit ∈ met search.entry.toNat (visitsOf terms path) 0, visit.depth ≤ deepest)
    (honest : search.entry.toNat ≤ ((visitsOf terms path).filter Visit.counted).length →
      ∀ visit ∈ met search.entry.toNat (visitsOf terms path) 0,
        visit.counted = true → visit.object.name = path) :
    FindsEntry search terms path fuel := by
  have ended := acpiFindEntryInMemory_ends table enough
  have complete : ∀ visit ∈ visitsOf terms path,
      visit.object.name = path → visit.counted = true := by
    have points : PointsBehind path [] 0 := fun _ _ _ => rfl
    exact fun visit member => counted_of_qualified points member
  have same : seek path (visitsOf terms path) (search.entry.toNat - 1) =
      soughtObject search terms path := by
    rw [seek, soughtObject, visitsOf, visits_objects]
  have agrees : Agrees (soughtObject search terms path)
      (look deepest search.entry.toNat (visitsOf terms path) 0) := by
    rw [← same]
    by_cases enoughCounted :
        search.entry.toNat ≤ ((visitsOf terms path).filter Visit.counted).length
    · exact look_of_honest table.entry shallow (honest enoughCounted) complete
    · rw [seek_of_few complete (by omega)]
      exact ⟨_, look_of_few shallow (by omega)⟩
  rw [FindsEntry]
  cases found : soughtObject search terms path with
  | some object =>
    rw [found] at agrees
    rw [agrees] at ended
    exact ended
  | none =>
    rw [found] at agrees
    obtain ⟨total, goesOn⟩ := agrees
    rw [goesOn] at ended
    exact ⟨_, ended⟩

end Search

section Samples

def letter (byte : UInt8) (lead : LeadChar byte) : Name where
  form := .single
  segments := [⟨byte, 0x5F, 0x5F, 0x5F, lead, by decide⟩]
  holds := rfl

def nameA : Name := letter 0x41 (by decide)

def nameB : Name := letter 0x42 (by decide)

def nameC : Name := letter 0x43 (by decide)

def searchFor (terms : Terms) (pathString : List UInt8) (entry : UInt8) : Search where
  memory := AcpiSearchSafety.tableOf terms.encode
  pathString := pathString
  behindPath := fun _ => 0
  entry := entry
  tableLength := UInt32.ofNat (Search.descriptionHeaderSize + terms.encode.length)

theorem searchFor_table {terms : Terms} {pathString : List UInt8} {entry : UInt8}
    {path : List UInt32} (wellFormed : terms.WellFormed) (nonempty : terms ≠ .nil)
    (small : terms.encode.length < 2 ^ 31) (translated : getOpcodeArray pathString = some path)
    (positive : 0 < entry.toNat) : TableOf (searchFor terms pathString entry) terms path := by
  have header : Search.descriptionHeaderSize = 36 := rfl
  refine ⟨wellFormed, nonempty, ?_, ?_, translated, positive⟩
  · intro index byte found
    change (replicate Search.descriptionHeaderSize 0 ++ terms.encode).getD _ 0 = byte
    rw [getD_eq_getElem?_getD,
      getElem?_append_right (by rw [length_replicate]; omega), length_replicate,
      Nat.add_sub_cancel_left, found]
    rfl
  · have value : (searchFor terms pathString entry).tableLength.toNat =
        Search.descriptionHeaderSize + terms.encode.length := by
      change (UInt32.ofNat _).toNat = _
      rw [UInt32.toNat_ofNat']
      omega
    rw [Search.length, if_pos (by rw [value]; omega), value]

def nestedTerms : Terms :=
  .block .scope 0 nameA
    (.block .device 1 nameB (.method 0 nameC [0x00] .nil) (.method 0 nameC [0x00, 0xA4, 0x00] .nil))
    .nil

theorem nestedTerms_table :
    TableOf (searchFor nestedTerms [0x5C, 0x41, 0x2E, 0x43] 1) nestedTerms
      [0x415F5F5F, 0x435F5F5F] :=
  searchFor_table ⟨by decide, ⟨by decide, ⟨by decide, trivial⟩, ⟨by decide, trivial⟩⟩, trivial⟩
    nofun (by decide) (by decide) (by decide)

theorem nestedTerms_finds :
    FindsEntry (searchFor nestedTerms [0x5C, 0x41, 0x2E, 0x43] 1) nestedTerms
      [0x415F5F5F, 0x435F5F5F] 100 :=
  acpiFindEntryInMemory_finds _ _ _ _ nestedTerms_table (by decide) (by decide)
    (by decide)

theorem not_finds_of_tooDeep {search : Search} {terms : Terms} {path : List UInt32} {fuel : Nat}
    (table : TableOf search terms path) (enough : search.length < fuel)
    (tooDeep : look deepest search.entry.toNat (visitsOf terms path) 0 = .tooDeep) :
    ¬ FindsEntry search terms path fuel := by
  have ended := acpiFindEntryInMemory_ends table enough
  rw [tooDeep] at ended
  obtain ⟨last, failed⟩ := ended
  rw [FindsEntry]
  split
  · rintro ⟨final, found, -⟩
    exact nomatch failed.symm.trans found
  · rintro ⟨final, missing⟩
    exact nomatch failed.symm.trans missing

def scopesIn : Nat → Terms
  | 0 => .nil
  | count + 1 => .block .scope 3 nameB (scopesIn count) .nil

theorem scopesIn_length (count : Nat) : (scopesIn count).encode.length = count * 9 := by
  induction count with
  | zero => rfl
  | succ count ih =>
    have opcode : BlockKind.scope.opcode.length = 1 := rfl
    have name : nameB.encode.length = 4 := rfl
    have empty : Terms.nil.encode.length = 0 := rfl
    rw [scopesIn, Terms.encode, length_append, length_append, encodePackage_length,
      packageLength, ih, opcode, name, empty]
    omega

theorem scopesIn_wellFormed {count : Nat} (few : count < 2 ^ 20) : (scopesIn count).WellFormed := by
  induction count with
  | zero => trivial
  | succ count ih =>
    refine ⟨Or.inr ⟨by decide, by decide, ?_⟩, ih (by omega), trivial⟩
    have name : nameB.encode.length = 4 := rfl
    rw [packageLength, scopesIn_length, name]
    omega

theorem scopesIn_tooDeep {count offset depth required counted : Nat} {outer : List UInt32}
    (deep : deepest < depth + count) :
    look deepest required ((scopesIn (count + 1)).visits [0x415F5F5F] offset outer depth 0)
      counted = .tooDeep := by
  induction count generalizing offset depth outer with
  | zero =>
    rw [scopesIn, Terms.visits]
    exact look_tooDeep deep
  | succ count ih =>
    rw [scopesIn, Terms.visits]
    by_cases reached : deepest < depth
    · exact look_tooDeep reached
    · have other : ¬ ([0x415F5F5F].drop 0 = nameB.identifiers) := by decide
      have start : enter [0x415F5F5F] 0 nameB.identifiers = 0 := by decide
      have further : deepest < depth + 1 + count := by omega
      rw [look_object (Nat.not_lt.mp reached), atBlock, if_neg other, look_append, start,
        ih further]
      rfl

def unrelatedTerms : Terms := .block .scope 0 nameB (.method 0 nameA [0x00] .nil) .nil

theorem scopesIn_table :
    TableOf (searchFor (scopesIn 512) [0x41] 1) (scopesIn 512) [0x415F5F5F] :=
  searchFor_table (scopesIn_wellFormed (by decide)) nofun
    (by rw [scopesIn_length]; decide) (by decide) (by decide)

theorem unrelatedTerms_table :
    TableOf (searchFor unrelatedTerms [0x41] 1) unrelatedTerms [0x415F5F5F] :=
  searchFor_table ⟨by decide, ⟨by decide, trivial⟩, trivial⟩ nofun (by decide) (by decide)
    (by decide)

/-- Neither where the objects lie deeper than the limit, nor where an object in
an unrelated scope completes the path. -/
theorem deep_and_unrelated_not_found :
    (TableOf (searchFor (scopesIn 512) [0x41] 1) (scopesIn 512) [0x415F5F5F] ∧
        ¬ FindsEntry (searchFor (scopesIn 512) [0x41] 1) (scopesIn 512) [0x415F5F5F] 5000) ∧
      TableOf (searchFor unrelatedTerms [0x41] 1) unrelatedTerms [0x415F5F5F] ∧
        ¬ FindsEntry (searchFor unrelatedTerms [0x41] 1) unrelatedTerms [0x415F5F5F] 100 := by
  refine ⟨⟨scopesIn_table, ?_⟩, unrelatedTerms_table, ?_⟩
  · have length : (searchFor (scopesIn 512) [0x41] 1).length < 5000 := by
      rw [scopesIn_table.length, scopesIn_length]
      decide
    apply not_finds_of_tooDeep scopesIn_table length
    exact scopesIn_tooDeep (by decide)
  · -- the Method is found, though its name is `B.A`
    have length : (searchFor unrelatedTerms [0x41] 1).length < 100 := by
      rw [unrelatedTerms_table.length]
      decide
    have ended := acpiFindEntryInMemory_ends unrelatedTerms_table length
    have verdict : look deepest (searchFor unrelatedTerms [0x41] 1).entry.toNat
        (visitsOf unrelatedTerms [0x415F5F5F]) 0 = .found 42 := rfl
    have none : soughtObject (searchFor unrelatedTerms [0x41] 1) unrelatedTerms [0x415F5F5F] =
        none := rfl
    rw [verdict] at ended
    obtain ⟨last, found, -⟩ := ended
    rw [FindsEntry, none]
    rintro ⟨final, missing⟩
    exact nomatch found.symm.trans missing

end Samples

end OpenCore.AcpiLookupSearch
