import Silent.AcceptEncoding
import Silent.TowerCompat

/-! What the compression middleware changes of a response. The four checks leave it as it
is; past them the body, `Content-Encoding` and `Content-Length` change together, and
`Vary` is put in place of whatever stood there. -/
namespace Silent.CompressionFrame
open ByteText PathSegment HeaderText AcceptEncoding TowerCompat
open HttpRequest (SilentResult)

abbrev HeaderMap := List (Text × Text)

namespace HeaderMap

def getAll (headers : HeaderMap) (name : Text) : List Text :=
  headers.filterMap (fun entry => if entry.1 = name then some entry.2 else none)

def get (headers : HeaderMap) (name : Text) : Option Text := (getAll headers name).head?

def containsKey (headers : HeaderMap) (name : Text) : Bool := !(getAll headers name).isEmpty

def remove (headers : HeaderMap) (name : Text) : HeaderMap := headers.filter (fun entry => entry.1 ≠ name)

def insert (headers : HeaderMap) (name value : Text) : HeaderMap :=
  match headers with
  | [] => [(name, value)]
  | entry :: rest => if entry.1 = name then (name, value) :: remove rest name else entry :: insert rest name value

@[simp] theorem getAllNil (name : Text) : getAll [] name = [] := rfl

theorem getAllCons (entry : Text × Text) (rest : HeaderMap) (name : Text) :
    getAll (entry :: rest) name = if entry.1 = name then entry.2 :: getAll rest name else getAll rest name := by
  unfold getAll
  rw [List.filterMap_cons]
  split <;> rename_i found <;> split at found <;> simp_all

@[simp] theorem getAllRemove (headers : HeaderMap) (name : Text) : getAll (remove headers name) name = [] := by
  induction headers with
  | nil => rfl
  | cons entry rest ih =>
    by_cases same : entry.1 = name
    · simpa [remove, same] using ih
    · simpa [remove, same, getAllCons] using ih

theorem getAllRemoveOther (headers : HeaderMap) {name other : Text} (differ : other ≠ name) :
    getAll (remove headers name) other = getAll headers other := by
  induction headers with
  | nil => rfl
  | cons entry rest ih =>
    by_cases same : entry.1 = name
    · have skip : entry.1 ≠ other := fun h => differ (h.symm.trans same)
      simpa [remove, same, getAllCons, skip, Ne.symm differ] using ih
    · simpa [remove, same, getAllCons] using congrArg (fun tail => if entry.1 = other then entry.2 :: tail else tail) ih

@[simp] theorem getAllInsert (headers : HeaderMap) (name value : Text) : getAll (insert headers name value) name = [value] := by
  induction headers with
  | nil => simp [insert, getAllCons]
  | cons entry rest ih =>
    rw [insert]
    split
    · simp [getAllCons]
    · rename_i differ
      simp [getAllCons, differ, ih]

theorem getAllInsertOther (headers : HeaderMap) {name other : Text} (differ : other ≠ name) (value : Text) :
    getAll (insert headers name value) other = getAll headers other := by
  induction headers with
  | nil => simp [insert, getAllCons, Ne.symm differ]
  | cons entry rest ih =>
    rw [insert]
    split
    · rename_i same
      simp [getAllCons, same, Ne.symm differ, getAllRemoveOther rest differ]
    · simp [getAllCons, ih]

end HeaderMap

def acceptEncoding : Text := "accept-encoding".toList
def contentEncoding : Text := "content-encoding".toList
def contentLength : Text := "content-length".toList
def contentType : Text := "content-type".toList
def vary : Text := "vary".toList

def isCompressible (contentType : Text) : Bool :=
  let mimePart := trim (((contentType.map Char.toLower).splitOn ';').headD [])
  "text/".toList.isPrefixOf mimePart ||
    ["application/json", "application/xml", "application/javascript", "application/ecmascript",
      "application/x-javascript", "application/xhtml+xml", "application/rss+xml", "application/svg+xml",
      "image/svg+xml"].any (fun mime => mimePart = mime.toList)

def encodingName : Algorithm → Text
  | .brotli => brotliName
  | .gzip => gzipName

variable {T : Payload}

/- What `to_stream` yields of an encoder over the chunks of a body; the encoders are those
of another crate. -/
abbrev Encoder := Algorithm → ResBody → List (Except Text (List UInt8))

def algorithmFor (self : Compression) (req : Request T) : Option Algorithm := do
  let value ← HeaderMap.get req.parts.headers acceptEncoding
  let accept ← Sessions.toStr value
  self.negotiate accept

def compressible (res : Response T) : Bool :=
  (((HeaderMap.get res.headers contentType).bind Sessions.toStr).map isCompressible).getD false

def tooSmall (self : Compression) (res : Response T) : Bool :=
  0 < self.minSize && res.body.read.upper.any (· < self.minSize)

def compress (encoder : Encoder) (algorithm : Algorithm) (res : Response T) : Response T :=
  let headers := HeaderMap.insert res.headers contentEncoding (encodingName algorithm)
  let headers := HeaderMap.insert headers vary "Accept-Encoding".toList
  {res with
    headers := HeaderMap.remove headers contentLength
    body := .stream (encoder algorithm res.body)}

def finish (encoder : Encoder) (self : Compression) (algorithm : Option Algorithm) (res : Response T) : Response T :=
  match algorithm with
  | none => res
  | some algorithm =>
      if HeaderMap.containsKey res.headers contentEncoding then res
      else if !compressible res then res
      else if tooSmall self res then res
      else compress encoder algorithm res

def handle {m : Type → Type} [Monad m] (encoder : Encoder) (self : Compression) (req : Request T)
    (next : Request T → m (SilentResult (Response T))) : m (SilentResult (Response T)) := do
  let algorithm := algorithmFor self req
  let res ← next req
  pure (res.map (finish encoder self algorithm))

def listed (headers : HeaderMap) (name : Text) : List Text :=
  ((HeaderMap.getAll headers name).flatMap (fun value => (value.splitOn ',').map (fun item => (trim item).map Char.toLower))).filter
    (· ≠ [])

def SameValues (res out : Response T) (name : Text) : Prop :=
  HeaderMap.getAll out.headers name = HeaderMap.getAll res.headers name

/-- Encoding, length and body are those of a compressed response, which was not encoded
before, and `Vary` says so. -/
structure Compressed (encoder : Encoder) (res out : Response T) : Prop where
  fresh : HeaderMap.getAll res.headers contentEncoding = []
  encoded : ∃ algorithm, HeaderMap.getAll out.headers contentEncoding = [encodingName algorithm] ∧
    out.body = .stream (encoder algorithm res.body)
  unsized : HeaderMap.getAll out.headers contentLength = []
  varies : acceptEncoding ∈ listed out.headers vary

structure Framed (encoder : Encoder) (res out : Response T) : Prop where
  status : out.status = res.status
  extensions : out.extensions = res.extensions
  others : ∀ name, name ≠ contentEncoding → name ≠ contentLength → name ≠ vary → SameValues res out name
  vary : ∀ member ∈ listed res.headers vary, member ∈ listed out.headers vary
  together : SameValues res out contentEncoding ∧ SameValues res out contentLength ∧ out.body = res.body ∨
    Compressed encoder res out

def LeftAlone (self : Compression) (req : Request T) (res : Response T) : Prop :=
  algorithmFor self req = none ∨ HeaderMap.containsKey res.headers contentEncoding = true ∨
    compressible res = false ∨ tooSmall self res = true

theorem framedSelf (encoder : Encoder) (res : Response T) : Framed encoder res res where
  status := rfl
  extensions := rfl
  others _ _ _ _ := rfl
  vary _ mem := mem
  together := .inl ⟨rfl, rfl, rfl⟩

theorem namesDiffer : contentEncoding ≠ contentLength ∧ contentEncoding ≠ vary ∧ vary ≠ contentLength := by decide

theorem varyListed : (("Accept-Encoding".toList.splitOn ',').map (fun item => (trim item).map Char.toLower)).filter
    (· ≠ []) = [acceptEncoding] := by decide

theorem finishCases (encoder : Encoder) (self : Compression) (req : Request T) (res : Response T) :
    LeftAlone self req res ∧ finish encoder self (algorithmFor self req) res = res ∨
      ¬ LeftAlone self req res ∧ HeaderMap.containsKey res.headers contentEncoding = false ∧
        ∃ algorithm, finish encoder self (algorithmFor self req) res = compress encoder algorithm res := by
  unfold finish LeftAlone
  cases algorithmFor self req with
  | none => exact .inl ⟨.inl rfl, rfl⟩
  | some algorithm =>
    cases HeaderMap.containsKey res.headers contentEncoding with
    | true => exact .inl ⟨.inr (.inl rfl), rfl⟩
    | false =>
      cases compressible res with
      | false => exact .inl ⟨.inr (.inr (.inl rfl)), rfl⟩
      | true =>
        cases tooSmall self res with
        | true => exact .inl ⟨.inr (.inr (.inr rfl)), rfl⟩
        | false => exact .inr ⟨by simp, rfl, algorithm, rfl⟩

section
variable (encoder : Encoder) (algorithm : Algorithm) (res : Response T)

theorem compressValues :
    HeaderMap.getAll (compress encoder algorithm res).headers contentEncoding = [encodingName algorithm] ∧
      HeaderMap.getAll (compress encoder algorithm res).headers contentLength = [] ∧
      HeaderMap.getAll (compress encoder algorithm res).headers vary = ["Accept-Encoding".toList] ∧
      ∀ name, name ≠ contentEncoding → name ≠ contentLength → name ≠ vary →
        SameValues res (compress encoder algorithm res) name := by
  obtain ⟨encodingLength, encodingVary, varyLength⟩ := namesDiffer
  refine ⟨?_, HeaderMap.getAllRemove _ _, ?_, fun name encoding length vary => ?_⟩
  · simp only [compress, HeaderMap.getAllRemoveOther _ encodingLength, HeaderMap.getAllInsertOther _ encodingVary,
      HeaderMap.getAllInsert]
  · simp only [compress, HeaderMap.getAllRemoveOther _ varyLength, HeaderMap.getAllInsert]
  · simp only [SameValues, compress, HeaderMap.getAllRemoveOther _ length, HeaderMap.getAllInsertOther _ vary,
      HeaderMap.getAllInsertOther _ encoding]

theorem compressVaries : listed (compress encoder algorithm res).headers vary = [acceptEncoding] := by
  rw [listed, (compressValues encoder algorithm res).2.2.1, List.flatMap_singleton]
  exact varyListed

theorem compressFramed (fresh : HeaderMap.containsKey res.headers contentEncoding = false) :
    Framed encoder res (compress encoder algorithm res) ↔
      ∀ member ∈ listed res.headers vary, member = acceptEncoding := by
  obtain ⟨encoded, unsized, varied, others⟩ := compressValues encoder algorithm res
  have varies := compressVaries encoder algorithm res
  constructor
  · intro framed member mem
    simpa [varies] using framed.vary member mem
  · intro only
    exact
      { status := rfl
        extensions := rfl
        others := others
        vary := fun member mem => by rw [varies, only member mem]; exact List.mem_singleton_self _
        together := .inr
          { fresh := by simpa [HeaderMap.containsKey] using fresh
            encoded := ⟨algorithm, encoded, rfl⟩
            unsized := unsized
            varies := by rw [varies]; exact List.mem_singleton_self _ } }

end

/- At one request and one response of `next`: what the middleware returns, whatever the
effects around it, is that response within the frame. -/
def KeepsFrame (encoder : Encoder) (self : Compression) (req : Request T) (res : Response T) : Prop :=
  ∃ out, (∀ (m : Type → Type) [Monad m] [LawfulMonad m] (next : Request T → m (SilentResult (Response T))),
    next req = pure (.ok res) → handle encoder self req next = pure (.ok out)) ∧ Framed encoder res out

theorem handleReturns (encoder : Encoder) (self : Compression) (req : Request T) (res : Response T) {m : Type → Type}
    [Monad m] [LawfulMonad m] {next : Request T → m (SilentResult (Response T))} (returned : next req = pure (.ok res)) :
    handle encoder self req next = pure (.ok (finish encoder self (algorithmFor self req) res)) := by
  rw [handle, returned, pure_bind]
  rfl

theorem keepsFrameFramed {encoder : Encoder} {self : Compression} {req : Request T} {res : Response T} :
    KeepsFrame encoder self req res ↔ Framed encoder res (finish encoder self (algorithmFor self req) res) := by
  constructor
  · rintro ⟨out, returns, framed⟩
    have here := returns Id (fun _ => .ok res) rfl
    rw [handleReturns encoder self req res (m := Id) rfl] at here
    cases here
    exact framed
  · exact fun framed => ⟨_, fun m _ _ next returned => handleReturns encoder self req res returned, framed⟩

theorem frameKeptUnlessVaryReplaced (encoder : Encoder) (self : Compression) (req : Request T) (res : Response T) :
    KeepsFrame encoder self req res ↔
      LeftAlone self req res ∨ ∀ member ∈ listed res.headers vary, member = acceptEncoding := by
  rw [keepsFrameFramed]
  rcases finishCases encoder self req res with ⟨left, same⟩ | ⟨changed, fresh, algorithm, rewritten⟩
  · rw [same]
    exact iff_of_true (framedSelf encoder res) (.inl left)
  · rw [rewritten, compressFramed encoder algorithm res fresh]
    simp [changed]

def asking : Request plainPayload :=
  .fromParts ⟨.get, ⟨none, none, "/".toList, none⟩, .http11, [(acceptEncoding, "gzip".toList)], .default plainPayload⟩ ()

def perOrigin : Response plainPayload :=
  {Response.empty with
    headers := [(contentType, "text/plain".toList), (vary, "Origin".toList)]
    body := .stream [.ok [104, 105]]}

def gzipped : Encoder := fun _ _ =>
  [.ok [31, 139, 8, 0, 0, 0, 0, 0, 0, 3, 203, 200, 4, 0, 172, 42, 147, 216, 2, 0, 0, 0]]

theorem varyOriginLost : ¬ KeepsFrame gzipped .new asking perOrigin := by
  intro keeps
  have rewritten : finish gzipped .new (algorithmFor .new asking) perOrigin = compress gzipped .gzip perOrigin := rfl
  have framed := keepsFrameFramed.mp keeps
  rw [rewritten] at framed
  have lost := framed.vary "origin".toList (by decide)
  rw [compressVaries] at lost
  exact absurd lost (by decide)

end Silent.CompressionFrame
