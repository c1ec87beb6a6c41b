import Silent.ByteText

/-! The segment layer of the router: how one route segment is read from its
registered spelling, and what it takes from the front of a request path. A `&str`
is an address with its text, because captures are computed by pointer arithmetic.
The empty literal `""` has an address of its own, which no request path decides. -/
namespace Silent.PathSegment
open ByteText

structure Slice where
  ptr : Nat
  text : Text
  deriving DecidableEq, Repr

abbrev Uuid := BitVec 128

/- What the compiled program and the `uuid` crate bring to the matcher. -/
structure Platform where
  emptyLiteral : Nat
  parseUuid : Text → Option Uuid

def Platform.literal (plat : Platform) : Slice := ⟨plat.emptyLiteral, []⟩

abbrev Ranged (lo hi : Int) := {v : Int // lo ≤ v ∧ v < hi}
abbrev I32 := Ranged (-2147483648) 2147483648
abbrev I64 := Ranged (-9223372036854775808) 9223372036854775808
abbrev U32 := Ranged 0 4294967296
abbrev U64 := Ranged 0 18446744073709551616

def digitValue (c : Char) : Option Nat :=
  if '0'.toNat ≤ c.toNat ∧ c.toNat ≤ '9'.toNat then some (c.toNat - '0'.toNat) else none

def parseDigits (value : Nat) : Text → Option Nat
  | [] => some value
  | c :: cs => do
      let digit ← digitValue c
      parseDigits (value * 10 + digit) cs

def toRanged (lo hi v : Int) : Option (Ranged lo hi) :=
  if h : lo ≤ v ∧ v < hi then some ⟨v, h⟩ else none

def parseInteger (signed : Bool) (lo hi : Int) (s : Text) : Option (Ranged lo hi) :=
  match s with
  | [] => none
  | ['+'] => none
  | ['-'] => none
  | c :: rest =>
      if c = '+' then do
        let n ← parseDigits 0 rest
        toRanged lo hi n
      else if c = '-' ∧ signed then do
        let n ← parseDigits 0 rest
        toRanged lo hi (-n)
      else do
        let n ← parseDigits 0 (c :: rest)
        toRanged lo hi n

def parseI32 : Text → Option I32 := parseInteger true (-2147483648) 2147483648
def parseI64 : Text → Option I64 := parseInteger true (-9223372036854775808) 9223372036854775808
def parseU32 : Text → Option U32 := parseInteger false 0 4294967296
def parseU64 : Text → Option U64 := parseInteger false 0 18446744073709551616

inductive SpecialPath where
  | string (key : Text)
  | int (key : Text)
  | i64 (key : Text)
  | i32 (key : Text)
  | u64 (key : Text)
  | u32 (key : Text)
  | uuid (key : Text)
  | path (key : Text)
  | fullPath (key : Text)
  deriving DecidableEq, Repr

def splitFirst (sep : Char) (s : Text) : Text × Text :=
  (s.takeWhile (· ≠ sep), (s.dropWhile (· ≠ sep)).drop 1)

theorem splitFirstCons {sep c : Char} (different : c ≠ sep) (cs : Text) :
    splitFirst sep (c :: cs) = (c :: (splitFirst sep cs).1, (splitFirst sep cs).2) := by
  simp [splitFirst, different]

theorem splitFirstAt {sep : Char} {s : Text} (mem : sep ∈ s) :
    s = (splitFirst sep s).1 ++ sep :: (splitFirst sep s).2 ∧ sep ∉ (splitFirst sep s).1 := by
  induction s with
  | nil => simp at mem
  | cons c cs ih =>
    by_cases same : c = sep
    · subst same
      simp [splitFirst]
    · have later : sep ∈ cs := by
        rcases List.mem_cons.mp mem with h | h
        · exact absurd h.symm same
        · exact h
      obtain ⟨whole, fresh⟩ := ih later
      rw [splitFirstCons same]
      exact ⟨congrArg (c :: ·) whole, by simp [fresh, Ne.symm same]⟩

theorem splitFirstAbsent {sep : Char} {s : Text} (absent : sep ∉ s) : splitFirst sep s = (s, []) := by
  induction s with
  | nil => rfl
  | cons c cs ih =>
    simp only [List.mem_cons, not_or] at absent
    rw [splitFirstCons (Ne.symm absent.1), ih absent.2]

theorem splitFirstPlain (sep : Char) (s : Text) : sep ∉ (splitFirst sep s).1 := by
  by_cases mem : sep ∈ s
  · exact (splitFirstAt mem).2
  · rw [splitFirstAbsent mem]
    exact mem

theorem splitFirstAppend {sep : Char} {s : Text} (absent : sep ∉ s) (t : Text) :
    splitFirst sep (s ++ sep :: t) = (s, t) := by
  induction s with
  | nil => simp [splitFirst]
  | cons c cs ih =>
    simp only [List.mem_cons, not_or] at absent
    rw [List.cons_append, splitFirstCons (Ne.symm absent.1), ih absent.2]

theorem splitFirstShorter {sep : Char} {s : Text} (mem : sep ∈ s) :
    (splitFirst sep s).2.length < s.length := by
  have whole := congrArg List.length (splitFirstAt mem).1
  simp only [List.length_append, List.length_cons] at whole
  omega

def specialPath (value : Text) : SpecialPath :=
  let inner := (value.drop 1).dropLast
  let (key, pathType) := splitFirst ':' inner
  if pathType = "**".toList then .fullPath key
  else if pathType = "*".toList then .path key
  else if pathType = "full_path".toList then .fullPath key
  else if pathType = "path".toList then .path key
  else if pathType = "str".toList then .string key
  else if pathType = "int".toList then .int key
  else if pathType = "i64".toList then .i64 key
  else if pathType = "i32".toList then .i32 key
  else if pathType = "u64".toList then .u64 key
  else if pathType = "u32".toList then .u32 key
  else if pathType = "uuid".toList then .uuid key
  else .string key

inductive SpecialSeg where
  | root
  | static (value : Text)
  | string (key : Text)
  | int (key : Text)
  | i64 (key : Text)
  | i32 (key : Text)
  | u64 (key : Text)
  | u32 (key : Text)
  | uuid (key : Text)
  | path (key : Text)
  | fullPath (key : Text)
  deriving DecidableEq, Repr

namespace SpecialSeg

def isFullPath : SpecialSeg → Bool
  | .fullPath _ => true
  | _ => false

def asStaticKey : SpecialSeg → Option Text
  | .static value => some value
  | _ => none

end SpecialSeg

def isSpecial (raw : Text) : Bool := raw.head? = some '<' && raw.getLast? = some '>'

def parseSpecialSeg (raw : Text) : SpecialSeg :=
  if raw = [] then .root
  else if isSpecial raw then
    match specialPath raw with
    | .string key => .string key
    | .int key => .int key
    | .i64 key => .i64 key
    | .i32 key => .i32 key
    | .u64 key => .u64 key
    | .u32 key => .u32 key
    | .uuid key => .uuid key
    | .path key => .path key
    | .fullPath key => .fullPath key
  else .static raw

def stripLeadingSlash (path : Slice) : Slice :=
  match path.text with
  | '/' :: rest => ⟨path.ptr + 1, rest⟩
  | _ => path

def stripOneSegment (plat : Platform) (path : Slice) : Slice × Slice :=
  let trimmed := stripLeadingSlash path
  if trimmed.text = [] then (plat.literal, plat.literal)
  else
    -- `memchr(b'/', ..)`: in UTF-8 the byte 0x2f occurs only as the character '/'
    let segment := trimmed.text.takeWhile (· ≠ '/')
    match trimmed.text.dropWhile (· ≠ '/') with
    | _ :: rest => (⟨trimmed.ptr, segment⟩, ⟨trimmed.ptr + byteLen segment + 1, rest⟩)
    | [] => (trimmed, plat.literal)

def matchStaticSegment (plat : Platform) (value : Text) (path : Slice) : Option Slice :=
  if value = [] then some path
  else
    let trimmed := stripLeadingSlash path
    if trimmed.text = value then some plat.literal
    else if byteLen value < byteLen trimmed.text ∧ value.isPrefixOf trimmed.text then
      match trimmed.text.drop value.length with
      | '/' :: rest => some ⟨trimmed.ptr + byteLen value + 1, rest⟩
      | _ => none
    else none

structure Range where
  start : Nat
  stop : Nat
  deriving DecidableEq, Repr

def sliceRange (full slice : Slice) : Range :=
  let start := slice.ptr - full.ptr
  ⟨start, start + byteLen slice.text⟩

def remainOffset (full remain : Slice) : Nat := byteLen full.text - byteLen remain.text

inductive PathMatchCapture where
  | str (captured : Range)
  | path (captured : Range)
  | full (captured : Range)
  | i32 (value : I32)
  | i64 (value : I64)
  | u64 (value : U64)
  | u32 (value : U32)
  | uuid (value : Uuid)
  deriving DecidableEq

structure PathMatch where
  remain : Slice
  capture : Option PathMatchCapture
  deriving DecidableEq

/- The arms for the numeric and uuid segments differ in the parser and the capture
only: the segment must be there, and it must parse. -/
def matchParsed {α : Type} (plat : Platform) (parse : Text → Option α)
    (capture : α → PathMatchCapture) (path : Slice) : Option PathMatch :=
  let (segment, remain) := stripOneSegment plat path
  if segment.text = [] then none
  else
    match parse segment.text with
    | some v => some ⟨remain, some (capture v)⟩
    | none => none

def matchSegment (plat : Platform) (segment : SpecialSeg) (childless : Bool)
    (path full : Slice) : Option PathMatch :=
  match segment with
  | .root =>
      let normalized := if path.text = ['/'] then plat.literal else path
      if normalized.text ≠ [] ∧ childless then none else some ⟨normalized, none⟩
  | .static value => (matchStaticSegment plat value path).map (⟨·, none⟩)
  | .string _ =>
      let (segment, remain) := stripOneSegment plat path
      if segment.text = [] then none
      else some ⟨remain, some (.str (sliceRange full segment))⟩
  | .int _ | .i32 _ => matchParsed plat parseI32 .i32 path
  | .i64 _ => matchParsed plat parseI64 .i64 path
  | .u64 _ => matchParsed plat parseU64 .u64 path
  | .u32 _ => matchParsed plat parseU32 .u32 path
  | .uuid _ => matchParsed plat plat.parseUuid .uuid path
  | .path _ =>
      let (segment, remain) := stripOneSegment plat path
      some ⟨remain, some (.path (sliceRange full segment))⟩
  | .fullPath _ =>
      let trimmed := stripLeadingSlash path
      let (_, remain) := stripOneSegment plat path
      some ⟨remain, some (.full (sliceRange full trimmed))⟩

end Silent.PathSegment
