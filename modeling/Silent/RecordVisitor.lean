import Mathlib.Data.Fin.Tuple.Basic

/-! A record built from the entries of a map: every entry whose key names a field fills the
slot of that field, an entry of no field is passed over, and a field that nothing filled has
its default or fails. -/
namespace Silent.RecordVisitor

structure Schema (K X E : Type) {size : Nat} (Val : Fin size → Type) where
  index : K → Option (Fin size)
  decode : (i : Fin size) → X → Except E (Val i)
  duplicate : Fin size → E
  missing : (i : Fin size) → Except E (Val i)

abbrev Slots {size : Nat} (Val : Fin size → Type) := (i : Fin size) → Option (Val i)

def sequence {E : Type} : {size : Nat} → {Val : Fin size → Type} → ((i : Fin size) → Except E (Val i)) →
    Except E ((i : Fin size) → Val i)
  | 0, _, _ => .ok fun i => i.elim0
  | _ + 1, _, each => do
      let first ← each 0
      let rest ← sequence fun i => each i.succ
      .ok (Fin.cons first rest)

theorem sequenceOk {E : Type} {size : Nat} {Val : Fin size → Type} {each : (i : Fin size) → Except E (Val i)}
    {all : (i : Fin size) → Val i} : sequence each = .ok all ↔ ∀ i, each i = .ok (all i) := by
  induction size with
  | zero =>
    refine ⟨fun _ i => i.elim0, fun _ => ?_⟩
    exact congrArg Except.ok (funext fun i => i.elim0)
  | succ size ih =>
    unfold sequence
    rw [Fin.forall_fin_succ]
    cases first : each 0 with
    | error err => exact ⟨(fun same => by cases same), fun both => (by cases both.1)⟩
    | ok head =>
      cases rest : sequence fun i : Fin size => each i.succ with
      | error err =>
        refine ⟨(fun same => by cases same), fun both => ?_⟩
        have later : (sequence fun i : Fin size => each i.succ) = .ok fun i => all i.succ := ih.mpr both.2
        rw [later] at rest
        cases rest
      | ok tail =>
        have each_ := ih.mp rest
        constructor
        · intro same
          cases same
          exact ⟨rfl, each_⟩
        · rintro ⟨head_, tail_⟩
          refine congrArg Except.ok (funext fun i => ?_)
          cases i using Fin.cases with
          | zero => exact Except.ok.inj head_
          | succ i => exact Except.ok.inj ((each_ i).symm.trans (tail_ i))

section
variable {K X E : Type} {size : Nat} {Val : Fin size → Type} (schema : Schema K X E Val)

-- An entry may fail to be read at all.
def visit : List (K × Except E X) → Slots Val → Except E (Slots Val)
  | [], slots => .ok slots
  | (key, raw) :: rest, slots => do
      let raw ← raw
      match schema.index key with
      | none => visit rest slots
      | some i =>
          match slots i with
          | some _ => .error (schema.duplicate i)
          | none => do
              let value ← schema.decode i raw
              visit rest (Function.update slots i (some value))

def finish (slots : Slots Val) : Except E ((i : Fin size) → Val i) :=
  sequence fun i =>
    match slots i with
    | some value => .ok value
    | none => schema.missing i

def build (entries : List (K × Except E X)) : Except E ((i : Fin size) → Val i) := do
  let slots ← visit schema entries fun _ => none
  finish schema slots

def Fills (entry : K × Except E X) (slots : Slots Val) : Prop :=
  ∃ raw, entry.2 = .ok raw ∧ ∀ i, schema.index entry.1 = some i → ∃ value, schema.decode i raw = .ok value ∧ slots i = some value

/- An entry that is decoded into a slot which the rest of the entries leave alone. -/
theorem fillsUpdated {key : K} {raw : X} {i : Fin size} {value : Val i} {rest : List (K × Except E X)} {slots final : Slots Val}
    (known : schema.index key = some i) (decoded : schema.decode i raw = .ok value)
    (first : ∀ entry ∈ rest, schema.index entry.1 ≠ some i) :
    ((∀ entry ∈ rest, Fills schema entry final) ∧
        ∀ j, (∀ entry ∈ rest, schema.index entry.1 ≠ some j) → final j = Function.update slots i (some value) j) ↔
      (∀ entry ∈ (key, .ok raw) :: rest, Fills schema entry final) ∧
        ∀ j, (∀ entry ∈ (key, .ok raw) :: rest, schema.index entry.1 ≠ some j) → final j = slots j := by
  constructor
  · rintro ⟨fills, kept⟩
    have own : final i = some value := by rw [kept i first, Function.update_self]
    refine ⟨List.forall_mem_cons.mpr ⟨⟨raw, rfl, ?_⟩, fills⟩, fun j free => ?_⟩
    · intro j named
      cases known.symm.trans named
      exact ⟨value, decoded, own⟩
    · have other : j ≠ i := fun same => free _ List.mem_cons_self (same ▸ known)
      rw [kept j fun entry among => free entry (List.mem_cons_of_mem _ among), Function.update_of_ne other]
  · rintro ⟨fills, kept⟩
    obtain ⟨⟨raw', same, named⟩, fills⟩ := List.forall_mem_cons.mp fills
    cases same
    obtain ⟨value', again, own⟩ := named i known
    cases decoded.symm.trans again
    refine ⟨fills, fun j free => ?_⟩
    by_cases same : j = i
    · subst same
      rw [own, Function.update_self]
    · rw [Function.update_of_ne same]
      refine kept j (List.forall_mem_cons.mpr ⟨fun named => ?_, free⟩)
      exact same (Option.some.inj (named.symm.trans known))

theorem visitOk {entries : List (K × Except E X)} {slots final : Slots Val}
    (apart : entries.Pairwise fun e e' => ∀ i, schema.index e.1 = some i → schema.index e'.1 ≠ some i)
    (open_ : ∀ entry ∈ entries, ∀ i, schema.index entry.1 = some i → slots i = none) :
    visit schema entries slots = .ok final ↔
      (∀ entry ∈ entries, Fills schema entry final) ∧
        ∀ i, (∀ entry ∈ entries, schema.index entry.1 ≠ some i) → final i = slots i := by
  induction entries generalizing slots with
  | nil =>
    simp only [visit, Except.ok.injEq, List.not_mem_nil, false_imp_iff, implies_true, true_and, forall_const]
    exact ⟨fun same i => by rw [same], fun same => (funext same).symm⟩
  | cons entry rest ih =>
    obtain ⟨key, read⟩ := entry
    obtain ⟨first, later⟩ := List.pairwise_cons.mp apart
    rw [List.forall_mem_cons] at open_
    unfold visit
    cases read with
    | error err =>
      refine ⟨(fun same => by cases same), fun fills => ?_⟩
      obtain ⟨raw, read, _⟩ := fills.1 _ List.mem_cons_self
      cases read
    | ok raw =>
      cases known : schema.index key with
      | none =>
        simp only [bind, Except.bind]
        rw [ih later open_.2, List.forall_mem_cons]
        have passed : Fills schema (key, .ok raw) final := ⟨raw, rfl, fun i named => by cases known.symm.trans named⟩
        simp only [passed, true_and, List.forall_mem_cons, known, ne_eq, reduceCtorEq, not_false_eq_true]
      | some i =>
        have free : slots i = none := open_.1 i known
        simp only [bind, Except.bind, free]
        cases decoded : schema.decode i raw with
        | error err =>
          refine ⟨(fun same => by cases same), fun fills => ?_⟩
          obtain ⟨raw', same, named⟩ := fills.1 _ List.mem_cons_self
          cases same
          obtain ⟨value, other, _⟩ := named i known
          rw [decoded] at other
          cases other
        | ok value =>
          have rest_ : ∀ entry ∈ rest, ∀ j, schema.index entry.1 = some j → Function.update slots i (some value) j = none := by
            intro entry among j named
            have other : j ≠ i := fun same => first entry among i known (same ▸ named)
            rw [Function.update_of_ne other]
            exact open_.2 entry among j named
          simp only
          rw [ih later rest_]
          exact fillsUpdated schema known decoded fun entry among => first entry among i known

def slotsOf (entries : List (K × Except E X)) (record : (i : Fin size) → Val i) : Slots Val := fun i =>
  if ∃ entry ∈ entries, schema.index entry.1 = some i then some (record i) else none

theorem buildIff {entries : List (K × Except E X)} {record : (i : Fin size) → Val i}
    (apart : entries.Pairwise fun e e' => ∀ i, schema.index e.1 = some i → schema.index e'.1 ≠ some i) :
    build schema entries = .ok record ↔
      (∀ entry ∈ entries, Fills schema entry fun i => some (record i)) ∧
        ∀ i, (∀ entry ∈ entries, schema.index entry.1 ≠ some i) → schema.missing i = .ok (record i) := by
  have visited (final : Slots Val) := (visitOk schema apart fun _ _ _ _ => rfl : visit schema entries (fun _ => none) = .ok final ↔ _)
  unfold build
  constructor
  · intro built
    cases slots : visit schema entries fun _ => none with
    | error err =>
      rw [slots] at built
      cases built
    | ok final =>
      rw [slots] at built
      obtain ⟨fills, kept⟩ := (visited _).mp slots
      have own := sequenceOk.mp built
      constructor
      · intro entry among
        obtain ⟨raw, read, fills⟩ := fills entry among
        refine ⟨raw, read, fun i named => ?_⟩
        obtain ⟨value, decoded, filled⟩ := fills i named
        have same := own i
        simp only [filled] at same
        cases same
        exact ⟨record i, decoded, rfl⟩
      · intro i free
        simpa only [kept i free] using own i
  · rintro ⟨fills, absent⟩
    have slots : visit schema entries (fun _ => none) = .ok (slotsOf schema entries record) := by
      refine (visited _).mpr ⟨fun entry among => ?_, fun i free => ?_⟩
      · obtain ⟨raw, read, fills⟩ := fills entry among
        refine ⟨raw, read, fun i named => ?_⟩
        obtain ⟨value, decoded, filled⟩ := fills i named
        exact ⟨value, decoded, (if_pos ⟨entry, among, named⟩).trans filled⟩
      · refine if_neg fun taken => ?_
        obtain ⟨entry, among, named⟩ := taken
        exact free entry among named
    rw [slots]
    refine sequenceOk.mpr fun i => ?_
    by_cases taken : ∃ entry ∈ entries, schema.index entry.1 = some i
    · simp only [slotsOf, if_pos taken]
    · simp only [slotsOf, if_neg taken]
      exact absent i fun entry among named => taken ⟨entry, among, named⟩

theorem buildOk {entries : List (K × Except E X)} {record : (i : Fin size) → Val i}
    (apart : entries.Pairwise fun e e' => ∀ i, schema.index e.1 = some i → schema.index e'.1 ≠ some i)
    (known : ∀ entry ∈ entries, ∃ i, schema.index entry.1 = some i)
    (covered : ∀ i, ∃ entry ∈ entries, schema.index entry.1 = some i) :
    build schema entries = .ok record ↔
      ∀ entry ∈ entries, ∀ i, schema.index entry.1 = some i → ∃ raw, entry.2 = .ok raw ∧ schema.decode i raw = .ok (record i) := by
  rw [buildIff schema apart]
  constructor
  · rintro ⟨fills, -⟩ entry among i named
    obtain ⟨raw, read, fills⟩ := fills entry among
    obtain ⟨value, decoded, filled⟩ := fills i named
    cases filled
    exact ⟨raw, read, decoded⟩
  · intro decodes
    refine ⟨fun entry among => ?_, fun i free => ?_⟩
    · obtain ⟨i, named⟩ := known entry among
      obtain ⟨raw, read, decoded⟩ := decodes entry among i named
      refine ⟨raw, read, fun j other => ?_⟩
      cases named.symm.trans other
      exact ⟨record i, decoded, rfl⟩
    · obtain ⟨entry, among, named⟩ := covered i
      exact absurd named (free entry among)

def indexOf [DecidableEq K] (key : Fin size → K) (k : K) : Option (Fin size) := (List.finRange size).find? fun i => key i = k

theorem indexOfSome [DecidableEq K] {key : Fin size → K} (distinct : Function.Injective key) (k : K) (i : Fin size) :
    indexOf key k = some i ↔ key i = k := by
  unfold indexOf
  constructor
  · intro found
    simpa using List.find?_some found
  · rintro rfl
    cases found : (List.finRange size).find? fun j => key j = key i with
    | none => exact absurd (List.find?_eq_none.mp found i (List.mem_finRange i)) (by simp)
    | some j =>
      have same : key j = key i := by simpa using List.find?_some found
      exact congrArg some (distinct same)

structure Lists (entries : List (K × X)) (held : K → Option X) : Prop where
  distinct : (entries.map Prod.fst).Nodup
  holds : ∀ k raw, (k, raw) ∈ entries ↔ held k = some raw

def Schema.field (held : Option X) (i : Fin size) : Except E (Val i) :=
  match held with
  | some raw => schema.decode i raw
  | none => schema.missing i

theorem buildLists {key : Fin size → K} (index : ∀ k i, schema.index k = some i ↔ key i = k) {entries : List (K × X)}
    {held : K → Option X} (lists : Lists entries held) {record : (i : Fin size) → Val i} :
    build schema (entries.map fun e => (e.1, .ok e.2)) = .ok record ↔
      ∀ i, schema.field (held (key i)) i = .ok (record i) := by
  have apart : (entries.map fun e => (e.1, (.ok e.2 : Except E X))).Pairwise fun e e' =>
      ∀ i, schema.index e.1 = some i → schema.index e'.1 ≠ some i := by
    refine List.pairwise_map.mpr ((List.pairwise_map.mp lists.distinct).imp fun other i first second => other ?_)
    exact ((index _ i).mp first).symm.trans ((index _ i).mp second)
  rw [buildIff schema apart, List.forall_mem_map]
  constructor
  · rintro ⟨fills, absent⟩ i
    cases found : held (key i) with
    | some raw =>
      obtain ⟨_, same, fills⟩ := fills (key i, raw) ((lists.holds _ _).mpr found)
      cases same
      obtain ⟨value, decoded, filled⟩ := fills i ((index _ i).mpr rfl)
      cases filled
      exact decoded
    | none =>
      refine absent i (List.forall_mem_map.mpr fun e among named => ?_)
      rw [(index _ i).mp named, (lists.holds _ _).mp among] at found
      cases found
  · intro fields
    refine ⟨fun e among => ⟨e.2, rfl, fun i named => ?_⟩, fun i free => ?_⟩
    · have decoded := fields i
      rw [(index _ i).mp named, (lists.holds _ _).mp among] at decoded
      exact ⟨record i, decoded, rfl⟩
    · have missing := fields i
      cases found : held (key i) with
      | some raw => exact absurd ((index _ i).mpr rfl) (List.forall_mem_map.mp free _ ((lists.holds _ _).mpr found))
      | none => rwa [found] at missing

end

theorem recordsAgree {E E' : Type} {size : Nat} {Val : Fin size → Type} {one : Except E ((i : Fin size) → Val i)}
    {other : Except E' ((i : Fin size) → Val i)} {fields : (i : Fin size) → Except E (Val i)}
    {fields' : (i : Fin size) → Except E' (Val i)} (reads : ∀ record, one = .ok record ↔ ∀ i, fields i = .ok (record i))
    (reads' : ∀ record, other = .ok record ↔ ∀ i, fields' i = .ok (record i))
    (refines : ∀ i value, fields i = .ok value → fields' i = .ok value) :
    one.toOption = other.toOption ↔ ((∀ i, ∃ value, fields' i = .ok value) → ∀ i, ∃ value, fields i = .ok value) := by
  constructor
  · intro agree all i
    choose record found using all
    rw [(reads' record).mpr found] at agree
    cases one with
    | error err => cases agree
    | ok record => exact ⟨record i, (reads record).mp rfl i⟩
  · intro keeps
    cases one with
    | ok record =>
      rw [(reads' record).mpr fun i => refines i _ ((reads record).mp rfl i)]
      rfl
    | error err =>
      cases other with
      | error err => rfl
      | ok record =>
        choose record found using keeps fun i => ⟨record i, (reads' record).mp rfl i⟩
        cases (reads record).mpr found

end Silent.RecordVisitor
