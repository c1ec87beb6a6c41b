import Mathlib.Data.List.DropRight
import Silent.ByteText

/-! What a browser does with the answer to a cross-origin request: the CORS check, the lists
of a header value, and the check of a preflight, as the Fetch standard has them. A response
is its status and what the combined values of each header name come to. -/
namespace Silent.CrossOrigin
open ByteText

abbrev Headers := Text → Option Text

def allowOrigin : Text := "access-control-allow-origin".toList
def allowCredentials : Text := "access-control-allow-credentials".toList
def allowMethods : Text := "access-control-allow-methods".toList
def allowHeaders : Text := "access-control-allow-headers".toList

/-- The CORS check; `credentials` is the credentials mode "include". -/
def corsCheck (headers : Headers) (origin : Text) (credentials : Bool) : Bool :=
  match headers allowOrigin with
  | none => false
  | some value =>
      !credentials && value = ['*'] ||
        value = origin && (!credentials || headers allowCredentials = some "true".toList)

def isBlank (c : Char) : Bool := c = ' ' || c = '\t'

def strip (s : Text) : Text := (s.dropWhile isBlank).rdropWhile isBlank

def isTokenChar (c : Char) : Bool := c.isAlphanum || "!#$%&'*+-.^_|~".toList.contains c || c.toNat = 0x60

def isToken (s : Text) : Bool := !s.isEmpty && s.all isTokenChar

def members (pieces : List Text) : List Text := (pieces.map strip).filter (!·.isEmpty)

def extractList (value : Text) : Option (List Text) :=
  let names := members (value.splitOn ',')
  if names.all isToken then some names else none

/- `none` is the failure, an absent header the null of the standard. -/
def listOf (headers : Headers) (name : Text) : Option (Option (List Text)) :=
  match headers name with
  | none => some none
  | some value => (extractList value).map some

structure Preflight where
  origin : Text
  credentials : Bool
  method : Text
  forced : Bool
  unsafeNames : List Text

def safelisted (method : Text) : Bool := ["GET", "HEAD", "POST"].any fun name => method = name.toList

def names (list : List Text) (name : Text) : Bool := list.any fun item => lower item = lower name

def nonWildcard (name : Text) : Bool := lower name = "authorization".toList

def methodAllowed (request : Preflight) (methods : List Text) : Bool :=
  methods.contains request.method || safelisted request.method || !request.credentials && methods.contains ['*']

def nameAllowed (request : Preflight) (list : List Text) (name : Text) : Bool :=
  names list name || !nonWildcard name && !request.credentials && list.contains ['*']

def listsAllow (request : Preflight) (methods headerNames : Option (List Text)) : Bool :=
  methodAllowed request (methods.getD (if request.forced then [request.method] else [])) &&
    request.unsafeNames.all (nameAllowed request (headerNames.getD []))

def preflightPasses (status : Nat) (headers : Headers) (request : Preflight) : Bool :=
  corsCheck headers request.origin request.credentials && 200 ≤ status && status ≤ 299 &&
    match listOf headers allowMethods, listOf headers allowHeaders with
    | some methods, some headerNames => listsAllow request methods headerNames
    | _, _ => false

def joined (pieces : List Text) : Text := List.intercalate [','] pieces

@[simp] theorem joinedNil : joined [] = [] := rfl

theorem joinedCons (piece next : Text) (rest : List Text) : joined (piece :: next :: rest) = piece ++ ',' :: joined (next :: rest) := by
  simp [joined, List.intercalate]

theorem splitJoined (piece : Text) (rest : List Text) :
    (joined (piece :: rest)).splitOn ',' = (piece :: rest).flatMap (List.splitOn ',') := by
  induction rest generalizing piece with
  | nil => simp [joined, List.intercalate]
  | cons next rest ih =>
    rw [joinedCons, List.splitOn_append_cons_self, ih]
    simp only [List.flatMap_cons]

theorem membersJoined (pieces : List Text) :
    members ((joined pieces).splitOn ',') = members (pieces.flatMap (List.splitOn ',')) := by
  cases pieces with
  | nil => rfl
  | cons piece rest => rw [splitJoined]

theorem extractJoined {pieces : List Text} (tokens : (members (pieces.flatMap (List.splitOn ','))).all isToken = true) :
    extractList (joined pieces) = some (members (pieces.flatMap (List.splitOn ','))) := by
  rw [extractList, membersJoined, if_pos tokens]

theorem dropBlank {c : Char} {s : Text} (among : c ∈ s) : isBlank c = true ∨ c ∈ s.dropWhile isBlank := by
  rw [← List.takeWhile_append_dropWhile (p := isBlank) (l := s)] at among
  rcases List.mem_append.mp among with front | back
  · exact .inl (List.mem_takeWhile_imp front)
  · exact .inr back

theorem stripBlank {c : Char} {s : Text} (among : c ∈ s) : isBlank c = true ∨ c ∈ strip s := by
  rcases dropBlank among with blank | kept
  · exact .inl blank
  · rcases dropBlank (List.mem_reverse.mpr kept) with blank | inside
    · exact .inl blank
    · exact .inr (List.mem_reverse.mpr inside)

theorem splitMember {c : Char} {s : Text} (among : c ∈ s) : c = ',' ∨ ∃ part ∈ s.splitOn ',', c ∈ part := by
  by_cases comma : c = ','
  · exact .inl comma
  refine .inr ?_
  induction s with
  | nil => cases among
  | cons d s ih =>
    rw [List.splitOn_eq_splitOnP, List.splitOnP_cons_eq_if_modifyHead]
    split
    · rename_i sep
      rcases List.mem_cons.mp among with rfl | later
      · exact absurd (by simpa using sep) comma
      · obtain ⟨part, inside, here⟩ := ih later
        exact ⟨part, List.mem_cons_of_mem _ (by simpa [List.splitOn_eq_splitOnP] using inside), here⟩
    · obtain ⟨head, tail, shape⟩ := List.exists_cons_of_ne_nil (List.splitOnP_ne_nil (· == ',') s)
      rw [shape, List.modifyHead_cons]
      rcases List.mem_cons.mp among with rfl | later
      · exact ⟨_, List.mem_cons_self, List.mem_cons_self⟩
      · obtain ⟨part, inside, here⟩ := ih later
        rw [List.splitOn_eq_splitOnP, shape] at inside
        rcases List.mem_cons.mp inside with rfl | among
        · exact ⟨_, List.mem_cons_self, List.mem_cons_of_mem _ here⟩
        · exact ⟨part, List.mem_cons_of_mem _ among, here⟩

theorem joinedMember {c : Char} {pieces : List Text} (among : c ∈ joined pieces) : c = ',' ∨ ∃ piece ∈ pieces, c ∈ piece := by
  induction pieces with
  | nil => cases among
  | cons piece rest ih =>
    cases rest with
    | nil => exact .inr ⟨piece, List.mem_cons_self, by simpa [joined, List.intercalate] using among⟩
    | cons next rest =>
      rw [joinedCons] at among
      rcases List.mem_append.mp among with here | later
      · exact .inr ⟨piece, List.mem_cons_self, here⟩
      · rcases List.mem_cons.mp later with comma | later
        · exact .inl comma
        · rcases ih later with comma | ⟨other, inside, held⟩
          · exact .inl comma
          · exact .inr ⟨other, List.mem_cons_of_mem _ inside, held⟩

theorem joinedChars {pieces : List Text} (tokens : (members (pieces.flatMap (List.splitOn ','))).all isToken = true) :
    ∀ c ∈ joined pieces, c = ',' ∨ isBlank c = true ∨ isTokenChar c = true := by
  intro c among
  rcases joinedMember among with comma | ⟨piece, inside, held⟩
  · exact .inl comma
  rcases splitMember held with comma | ⟨part, among, held⟩
  · exact .inl comma
  rcases stripBlank held with blank | kept
  · exact .inr (.inl blank)
  refine .inr (.inr ?_)
  have member : strip part ∈ members (pieces.flatMap (List.splitOn ',')) := by
    refine List.mem_filter.mpr ⟨List.mem_map.mpr ⟨part, List.mem_flatMap.mpr ⟨piece, inside, among⟩, rfl⟩, ?_⟩
    simpa using List.ne_nil_of_mem kept
  have token := List.all_eq_true.mp tokens _ member
  simp only [isToken, Bool.and_eq_true, List.all_eq_true] at token
  exact token.2 c kept

end Silent.CrossOrigin
