import Mathlib.Data.List.AList

/-! Finite maps with the two bulk updates the code uses: filling absent keys from
a drained map (`entry(k).or_insert(v)`) and overwriting from another map. The keys of
one map are distinct, so the order in which its entries are visited cannot show. -/
namespace Silent

abbrev HashMap (K V : Type) := AList (fun _ : K => V)

namespace HashMap
variable {K V : Type} [DecidableEq K]

def orInsert (map : HashMap K V) (key : K) (value : V) : HashMap K V :=
  if key ∈ map then map else map.insert key value

def orInsertAll (dst src : HashMap K V) : HashMap K V :=
  src.entries.foldl (fun map entry => orInsert map entry.1 entry.2) dst

def overwriteAll (dst src : HashMap K V) : HashMap K V :=
  src.entries.foldl (fun map entry => map.insert entry.1 entry.2) dst

theorem lookupOrInsert (map : HashMap K V) (key probe : K) (value : V) :
    (orInsert map key value).lookup probe =
      (map.lookup probe).or (if probe = key then some value else none) := by
  unfold orInsert
  by_cases same : probe = key
  · subst same
    by_cases present : probe ∈ map
    · obtain ⟨old, found⟩ := Option.isSome_iff_exists.mp (AList.lookup_isSome.mpr present)
      simp [present, found]
    · simp [present, AList.lookup_eq_none.mpr present]
  · rw [if_neg same, Option.or_none]
    split
    · rfl
    · exact AList.lookup_insert_ne same

private theorem lookupOrInsertFold (probe : K) (entries : List (Sigma fun _ : K => V)) (dst : HashMap K V) :
    (entries.foldl (fun map entry => orInsert map entry.1 entry.2) dst).lookup probe =
      (dst.lookup probe).or (entries.dlookup probe) := by
  induction entries generalizing dst with
  | nil => simp
  | cons entry rest ih =>
    obtain ⟨key, value⟩ := entry
    rw [List.foldl_cons, ih, lookupOrInsert, Option.or_assoc]
    by_cases same : probe = key
    · subst same
      simp
    · simp [same, List.dlookup_cons_ne rest ⟨key, value⟩ same]

/- Left-biased union. -/
theorem lookupOrInsertAll (dst src : HashMap K V) (probe : K) :
    (orInsertAll dst src).lookup probe = (dst.lookup probe).or (src.lookup probe) :=
  lookupOrInsertFold probe src.entries dst

theorem lookupOverwriteAll (dst src : HashMap K V) (probe : K) :
    (overwriteAll dst src).lookup probe = (src.lookup probe).or (dst.lookup probe) := by
  have fold : ∀ (entries : List (Sigma fun _ : K => V)) (dst : HashMap K V),
      entries.NodupKeys →
      (entries.foldl (fun map entry => map.insert entry.1 entry.2) dst).lookup probe =
        (entries.dlookup probe).or (dst.lookup probe) := by
    intro entries
    induction entries with
    | nil => simp
    | cons entry rest ih =>
      intro dst distinct
      obtain ⟨key, value⟩ := entry
      obtain ⟨fresh, distinct⟩ := List.nodupKeys_cons.mp distinct
      rw [List.foldl_cons, ih _ distinct]
      by_cases same : probe = key
      · subst same
        simp [List.dlookup_eq_none.mpr fresh]
      · simp [List.dlookup_cons_ne rest ⟨key, value⟩ same, AList.lookup_insert_ne same]
  exact fold src.entries dst src.nodupKeys

end HashMap
end Silent
