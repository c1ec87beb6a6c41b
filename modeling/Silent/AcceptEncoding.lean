import Silent.HeaderText

/-! The two readers of an `Accept-Encoding` field, that of the compression middleware and
that of the static handler, and the grammar of the field. A field that follows the
grammar is read element by element: the coding as written, with its weight, unless the
name of the weight is in upper case. -/
namespace Silent.AcceptEncoding
open ByteText PathSegment HeaderText

inductive Algorithm where
  | brotli
  | gzip
  deriving DecidableEq, Repr

structure Compression where
  enableBrotli : Bool
  enableGzip : Bool
  minSize : Nat
  deriving DecidableEq, Repr

namespace Compression

def new : Compression := ⟨true, true, 128⟩
def gzipOnly : Compression := ⟨false, true, 128⟩
end Compression

def brotliName : Text := "br".toList
def gzipName : Text := "gzip".toList
def xGzipName : Text := "x-gzip".toList
def star : Text := "*".toList

def fullQuality : Decimal := .finite 1 0

def readParam (quality : Decimal) (param : Text) : Decimal :=
  if trim (splitFirst '=' param).1 = ['q'] ∧ '=' ∈ param then
    (parseFloat (trim (splitFirst '=' param).2)).getD quality
  else quality

/- One item between commas: its coding and its quality. `split` yields at least one
piece, so neither `unwrap_or("")` nor the `?` of the static handler is ever used. -/
def readItem (item : Text) : Text × Decimal :=
  let parts := (trim item).splitOn ';'
  (trim (parts.headD []), parts.tail.foldl readParam fullQuality)

def Compression.offer (self : Compression) (ok : Bool × Bool) (item : Text) : Bool × Bool :=
  let (encoding, quality) := readItem item
  if quality.isZero then ok
  else if encoding = brotliName ∧ self.enableBrotli then (true, ok.2)
  else if (encoding = gzipName ∨ encoding = xGzipName) ∧ self.enableGzip then (ok.1, true)
  else if encoding = star ∧ self.enableBrotli then (true, ok.2)
  else if encoding = star ∧ self.enableGzip then (ok.1, true)
  else ok

def Compression.negotiate (self : Compression) (accept : Text) : Option Algorithm :=
  let (brotliOk, gzipOk) := (accept.splitOn ',').foldl self.offer (false, false)
  if brotliOk then some .brotli else if gzipOk then some .gzip else none

def find (found : Option Nat × Option Nat) (entry : Text × Nat) : Option Nat × Option Nat :=
  let (encoding, quality) := readItem entry.1
  if quality.isZero then found
  else if encoding = brotliName then (found.1.or (some entry.2), found.2)
  else if encoding = gzipName ∨ encoding = xGzipName then (found.1, found.2.or (some entry.2))
  else if encoding = star then (found.1, found.2.or (some (entry.2 + 1000)))
  else found

def parseAcceptEncoding (header : Text) : Option Algorithm :=
  let (brotli, gzip) := (header.splitOn ',').zipIdx.foldl find (none, none)
  if brotli.isSome then some .brotli else if gzip.isSome then some .gzip else none

abbrev Grants := Algorithm → Text → Bool

def Compression.grants (self : Compression) : Grants
  | .brotli, encoding => self.enableBrotli && (encoding = brotliName || encoding = star)
  | .gzip, encoding =>
      self.enableGzip && (encoding = gzipName || encoding = xGzipName || (encoding = star && !self.enableBrotli))

def staticGrants : Grants
  | .brotli, encoding => encoding = brotliName
  | .gzip, encoding => encoding = gzipName || encoding = xGzipName || encoding = star

def itemGrants (grants : Grants) (algorithm : Algorithm) (item : Text) : Bool :=
  !(readItem item).2.isZero && grants algorithm (readItem item).1

def offered (grants : Grants) (accept : Text) (algorithm : Algorithm) : Bool :=
  (accept.splitOn ',').any (itemGrants grants algorithm)

def select (grants : Grants) (accept : Text) : Option Algorithm :=
  if offered grants accept .brotli then some .brotli else if offered grants accept .gzip then some .gzip else none

theorem codingsDiffer : brotliName ≠ gzipName ∧ brotliName ≠ xGzipName ∧ brotliName ≠ star ∧
    gzipName ≠ star ∧ xGzipName ≠ star := by decide

theorem offerGrants (self : Compression) (ok : Bool × Bool) (item : Text) :
    self.offer ok item = (ok.1 || itemGrants self.grants .brotli item, ok.2 || itemGrants self.grants .gzip item) := by
  obtain ⟨brGzip, brXGzip, brStar, gzipStar, xGzipStar⟩ := codingsDiffer
  simp only [Compression.offer, itemGrants, Compression.grants]
  generalize readItem item = read
  obtain ⟨encoding, quality⟩ := read
  dsimp only
  cases quality.isZero with
  | true => simp
  | false =>
    by_cases br : encoding = brotliName
    · cases self.enableBrotli <;> simp [br, brGzip, brXGzip, brStar]
    by_cases gzip : encoding = gzipName ∨ encoding = xGzipName
    · have other : encoding ≠ star := by rcases gzip with rfl | rfl <;> assumption
      cases self.enableGzip <;> simp [br, gzip, other, ← Bool.decide_or]
    obtain ⟨gzip, xGzip⟩ := not_or.mp gzip
    by_cases wild : encoding = star
    · subst wild
      cases self.enableBrotli <;> cases self.enableGzip <;> simp [br, gzip, xGzip]
    · simp [br, gzip, xGzip, wild]

theorem negotiateSelects (self : Compression) (accept : Text) : self.negotiate accept = select self.grants accept := by
  have fold : ∀ (items : List Text) (ok : Bool × Bool), items.foldl self.offer ok =
      (ok.1 || items.any (itemGrants self.grants .brotli), ok.2 || items.any (itemGrants self.grants .gzip)) := by
    intro items
    induction items with
    | nil => simp
    | cons item items ih =>
      intro ok
      simp [List.foldl_cons, ih, offerGrants, Bool.or_assoc]
  simp [Compression.negotiate, fold, select, offered]

theorem findGrants (found : Option Nat × Option Nat) (entry : Text × Nat) :
    ((find found entry).1.isSome, (find found entry).2.isSome) =
      (found.1.isSome || itemGrants staticGrants .brotli entry.1, found.2.isSome || itemGrants staticGrants .gzip entry.1) := by
  obtain ⟨brGzip, brXGzip, brStar, gzipStar, xGzipStar⟩ := codingsDiffer
  simp only [find, itemGrants, staticGrants]
  generalize readItem entry.1 = read
  obtain ⟨encoding, quality⟩ := read
  dsimp only
  cases quality.isZero with
  | true => simp
  | false =>
    by_cases br : encoding = brotliName
    · simp [br, brGzip, brXGzip, brStar]
    by_cases gzip : encoding = gzipName ∨ encoding = xGzipName
    · simp [br, gzip, ← Bool.decide_or]
    obtain ⟨gzip, xGzip⟩ := not_or.mp gzip
    by_cases wild : encoding = star
    · subst wild
      simp [br, gzip, xGzip]
    · simp [br, gzip, xGzip, wild]

theorem parseSelects (header : Text) : parseAcceptEncoding header = select staticGrants header := by
  have fold : ∀ (entries : List (Text × Nat)) (found : Option Nat × Option Nat),
      ((entries.foldl find found).1.isSome, (entries.foldl find found).2.isSome) =
        (found.1.isSome || (entries.map Prod.fst).any (itemGrants staticGrants .brotli),
          found.2.isSome || (entries.map Prod.fst).any (itemGrants staticGrants .gzip)) := by
    intro entries
    induction entries with
    | nil => simp
    | cons entry entries ih =>
      intro found
      have here := findGrants found entry
      simp only [Prod.mk.injEq] at here
      rw [List.foldl_cons, ih, here.1, here.2]
      simp [Bool.or_assoc]
  have whole := fold (header.splitOn ',').zipIdx (none, none)
  simp only [List.zipIdx_map_fst, Option.isSome_none, Bool.false_or, Prod.mk.injEq] at whole
  simp [parseAcceptEncoding, whole.1, whole.2, select, offered]

end Silent.AcceptEncoding
