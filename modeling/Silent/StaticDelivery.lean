import Silent.EncodingRefusals
import Silent.GrpcMounts
import Silent.PieceStream
import Silent.StaticMounts

/-! What a client reads of a mounted static handler behind the compression middleware: the two
may each choose a coding, and the one the response names is undone to the file or the page. -/
namespace Silent.StaticDelivery
open ByteText PathSegment HttpRequest RouteBuilder Dispatch RouteShape RouteTable RouterCompleteness StdPath StaticFiles
open MountedHandlers StaticMounts
open RouteRegistration AcceptEncoding CompressionFrame PieceStream
open TowerCompat (Payload Response ResBody)

abbrev Bytes := List UInt8

def chunkSize : Nat := 16 * 1024

abbrev Pieces := List (Except Text Bytes)

abbrev Opened := Reader chunkSize Text UInt8

structure Mime where
  source : Text
  type : Text
  subtype : Text
  charset : Option Text

/- The crates the answer rests on: mime_guess, mime, and the encoders of async_compression. -/
structure Crates where
  fromPath : Text → Option Mime
  fromStr : Text → Option Mime
  encoder : Algorithm → Pieces → Opened

def Crates.encode (self : Crates) (algorithm : Algorithm) (pieces : Pieces) : Pieces := toStream (self.encoder algorithm pieces).reads

def isMimeCompressible (mime : Mime) : Bool :=
  mime.type = "text".toList ||
    mime.type = "application".toList && ["json", "xml", "javascript", "ecmascript", "x-javascript", "xhtml+xml", "rss+xml",
      "svg+xml"].any (fun subtype => mime.subtype = subtype.toList) ||
    mime.type = "image".toList && mime.subtype = "svg+xml".toList

def negotiate (enableCompression : Bool) (headers : HeaderMap) (contentType : Option Mime) : Option Algorithm := do
  if !enableCompression then none
  else
    let contentType ← contentType
    if !isMimeCompressible contentType then none
    else
      let header ← HeaderMap.get headers acceptEncoding
      let value ← Sessions.toStr header
      parseAcceptEncoding value

def applyHeaders (headers : HeaderMap) (compression : Algorithm) : HeaderMap :=
  HeaderMap.insert (HeaderMap.insert headers contentEncoding (encodingName compression)) vary "Accept-Encoding".toList

def normalizeContentType (crates : Crates) : Option Mime → Text
  | some value =>
      if value.type = "text".toList ∧ value.charset = none then
        match crates.fromStr (value.type ++ '/' :: value.subtype ++ "; charset=utf-8".toList) with
        | some parsed => parsed.source
        | none => "text/plain; charset=utf-8".toList
      else value.source
  | none => "application/octet-stream".toList

structure StaticHandler where
  wrapper : HandlerWrapperStatic Text
  enableCompression : Bool

section
variable {T : Payload} {M : Type} (crates : Crates)

def fileResponse (enableCompression : Bool) (headers : HeaderMap) (target : Text) (file : Opened) : Response T :=
  let guessed := crates.fromPath target
  let typed := HeaderMap.insert [] contentType (normalizeContentType crates guessed)
  match negotiate enableCompression headers guessed with
  | some kind =>
      {Response.empty with
        headers := HeaderMap.remove (applyHeaders typed kind) contentLength
        body := .stream (crates.encode kind (toStream file.reads))}
  | none =>
      {Response.empty with
        headers := HeaderMap.remove typed contentLength
        body := .stream (toStream file.reads)}

def listingResponse (page : Page) : Response T :=
  {Response.empty with
    headers := HeaderMap.insert [] contentType "text/html".toList
    body := .once (Utf8Text.encode page.body)}

def answerResponse (enableCompression : Bool) (headers : HeaderMap) : Answer Text Opened → Response T
  | .listing page => listingResponse page
  | .file target file => fileResponse crates enableCompression headers target file

def StaticHandler.call (self : StaticHandler) (fs : FileSystem Text Opened) (headers : HeaderMap) (param : Option Text) :
    SilentResult (Response T) :=
  match (self.wrapper.call unix ListingMarkup.urlCodec fs param).1 with
  | .error err => .error (.businessError err.code err.msg)
  | .ok answer => .ok (answerResponse crates self.enableCompression headers answer)

def bodyEncoder : Encoder := fun algorithm body => crates.encode algorithm body.read.frames

/- The middleware sits at the route of the handler; what the router does not look at of the
request is `message`. -/
def env (compression : Compression) (fs : FileSystem Text Opened) (message : TowerCompat.Request T) :
    Env StaticHandler M T.value (Response T) Id where
  callHandlers map bound := CompressionFrame.handle (bodyEncoder crates) compression message fun message =>
    handlerMapCall GrpcMounts.fill GrpcMounts.clearBody
      (fun handler bound => StaticHandler.call crates handler fs message.parts.headers (pathParam bound)) map bound
  middleware _ req next := next req
  panicked := .error .notFound

def request (compression : Compression) (fs : FileSystem Text Opened) (plat : Platform) (order : RouteTree.HashOrder) (buffer : Nat)
    (site : Route StaticHandler M T.value) (message : TowerCompat.Request T) : SilentResult (Response T) :=
  RouteTree.call (env crates compression fs message) plat (RouteTree.candidateIndices plat order) buffer
    (RouteTree.convertToRouteTree site) (Request.fromParts message.parts.method message.parts.uri.path)

def content : Answer Text Opened → Bytes × Option Text
  | .listing page => (Utf8Text.encode page.body, none)
  | .file _ file => gathered (toStream file.reads)

/- The request does not refuse the coding, unless one entry refuses what another one grants. -/
def Asked (compression : Compression) (headers : HeaderMap) (algorithm : Algorithm) : Prop :=
  ∃ accept, HeaderMap.get headers acceptEncoding = some accept ∧ ∀ field, accept = EncodingRefusals.Field.text field →
    ¬ EncodingRefusals.Refuses field algorithm ∨ EncodingRefusals.Clash staticGrants field algorithm ∨
      EncodingRefusals.Clash compression.grants field algorithm

/-- The response holds the answer behind the codings it names, of which there is one at most. -/
structure Represents (compression : Compression) (headers : HeaderMap) (decode : Algorithm → Bytes → Option Bytes)
    (answer : Answer Text Opened) (codings : List Algorithm) (res : Response T) : Prop where
  status : res.status = 200
  unsized : HeaderMap.getAll res.headers contentLength = []
  named : HeaderMap.getAll res.headers contentEncoding = codings.map encodingName
  once : codings.length ≤ 1
  asked : ∀ algorithm ∈ codings, Asked compression headers algorithm ∧ acceptEncoding ∈ listed res.headers vary
  carries : Carries decode codings (content answer) res.body.read.frames
  pieces : ∀ piece, .ok piece ∈ res.body.read.frames → piece ≠ []

variable {crates} {compression : Compression} {headers : HeaderMap} {decode : Algorithm → Bytes → Option Bytes}

theorem selectOffered {grants : Grants} {accept : Text} {algorithm : Algorithm} (selected : select grants accept = some algorithm) :
    offered grants accept algorithm = true := by
  unfold select at selected
  split at selected
  · cases selected
    assumption
  · split at selected
    · cases selected
      assumption
    · cases selected

theorem offeredAllowed {grants : Grants} (fair : EncodingRefusals.Fair grants) {field : EncodingRefusals.Field} {algorithm : Algorithm}
    (granted : offered grants field.text algorithm = true) :
    ¬ EncodingRefusals.Refuses field algorithm ∨ EncodingRefusals.Clash grants field algorithm := by
  have listed := (EncodingRefusals.offeredIff fair field algorithm).mp granted
  by_cases refuses : EncodingRefusals.Refuses field algorithm
  · exact .inr ⟨(EncodingRefusals.refusesIff fair listed).mp refuses, listed⟩
  · exact .inl refuses

theorem toStrSame {value text : Text} (read : Sessions.toStr value = some text) : text = value := by
  unfold Sessions.toStr at read
  split at read
  · exact (Option.some.inj read).symm
  · cases read

theorem negotiateAsked {enableCompression : Bool} {guessed : Option Mime} {algorithm : Algorithm}
    (chosen : negotiate enableCompression headers guessed = some algorithm) : Asked compression headers algorithm := by
  unfold negotiate at chosen
  split at chosen
  · cases chosen
  · obtain ⟨mime, _, chosen⟩ := Option.bind_eq_some_iff.mp chosen
    split at chosen
    · cases chosen
    · obtain ⟨header, found, chosen⟩ := Option.bind_eq_some_iff.mp chosen
      obtain ⟨value, read, chosen⟩ := Option.bind_eq_some_iff.mp chosen
      rw [parseSelects, toStrSame read] at chosen
      refine ⟨header, found, fun field same => ?_⟩
      subst same
      exact (offeredAllowed EncodingRefusals.staticFair (selectOffered chosen)).imp_right .inl

theorem algorithmAsked {message : TowerCompat.Request T} {algorithm : Algorithm}
    (chosen : algorithmFor compression message = some algorithm) : Asked compression message.parts.headers algorithm := by
  obtain ⟨header, found, chosen⟩ := Option.bind_eq_some_iff.mp chosen
  obtain ⟨value, read, chosen⟩ := Option.bind_eq_some_iff.mp chosen
  rw [negotiateSelects, toStrSame read] at chosen
  refine ⟨header, found, fun field same => ?_⟩
  subst same
  exact (offeredAllowed (EncodingRefusals.compressionFair compression) (selectOffered chosen)).imp_right .inr

theorem headerNamesDiffer : contentType ≠ contentEncoding ∧ contentType ≠ contentLength ∧ contentEncoding ≠ contentLength ∧
    vary ≠ contentLength ∧ contentEncoding ≠ vary := by
  decide

theorem fileRepresents (undoes : Undoes decode crates.encode) (enableCompression : Bool) (target : Text) (file : Opened) :
    ∃ codings, Represents compression headers decode (.file target file) codings
      (fileResponse (T := T) crates enableCompression headers target file) := by
  obtain ⟨typeEncoding, typeLength, encodingLength, varyLength, encodingVary⟩ := headerNamesDiffer
  have plain := carriesPlain decode (toStream file.reads)
  unfold fileResponse
  dsimp only
  split
  · rename_i kind chosen
    refine ⟨[kind], rfl, HeaderMap.getAllRemove _ _, ?_, Nat.le_refl 1, fun algorithm among => ?_, carriesCoded undoes plain kind,
      fun piece among => (toStreamPieces among).1⟩
    · simp [applyHeaders, HeaderMap.getAllRemoveOther _ encodingLength, HeaderMap.getAllInsertOther _ encodingVary]
    · cases List.mem_singleton.mp among
      refine ⟨negotiateAsked chosen, ?_⟩
      rw [listed, applyHeaders, HeaderMap.getAllRemoveOther _ varyLength, HeaderMap.getAllInsert, List.flatMap_singleton, varyListed]
      exact List.mem_singleton_self _
  · refine ⟨[], rfl, HeaderMap.getAllRemove _ _, ?_, Nat.zero_le 1, fun _ among => (by cases among), plain,
      fun piece among => (toStreamPieces among).1⟩
    rw [HeaderMap.getAllRemoveOther _ encodingLength, HeaderMap.getAllInsertOther _ typeEncoding.symm]
    rfl

theorem onceFrames (bytes : Bytes) : gathered (ResBody.once bytes).read.frames = (bytes, (none : Option Text)) ∧
    ∀ piece, .ok piece ∈ (ResBody.once bytes).read.frames → piece ≠ [] := by
  cases bytes with
  | nil => exact ⟨rfl, fun _ among => (by cases among)⟩
  | cons byte rest =>
    refine ⟨Prod.ext (List.append_nil _) rfl, fun piece among => ?_⟩
    cases List.mem_singleton.mp among
    exact List.cons_ne_nil _ _

theorem listingRepresents (page : Page) :
    Represents compression headers decode (.listing page) [] (listingResponse (T := T) page) := by
  obtain ⟨typeEncoding, typeLength, _⟩ := headerNamesDiffer
  obtain ⟨whole, full⟩ := onceFrames (Utf8Text.encode page.body)
  refine ⟨rfl, HeaderMap.getAllInsertOther _ typeLength.symm _, HeaderMap.getAllInsertOther _ typeEncoding.symm _, Nat.zero_le 1,
    fun _ among => (by cases among), ?_, full⟩
  rw [content, ← whole]
  exact carriesPlain decode _

theorem answerRepresents (undoes : Undoes decode crates.encode) (enableCompression : Bool) (answer : Answer Text Opened) :
    ∃ codings, Represents compression headers decode answer codings
      (answerResponse (T := T) crates enableCompression headers answer) := by
  cases answer with
  | listing page => exact ⟨[], listingRepresents page⟩
  | file target file => exact fileRepresents undoes enableCompression target file

theorem finishAsked (encoder : Encoder) (message : TowerCompat.Request T) (res : Response T) :
    finish encoder compression (algorithmFor compression message) res = res ∨
      ∃ algorithm, Asked compression message.parts.headers algorithm ∧ HeaderMap.getAll res.headers contentEncoding = [] ∧
        finish encoder compression (algorithmFor compression message) res = compress encoder algorithm res := by
  cases chosen : algorithmFor compression message with
  | none => exact .inl rfl
  | some algorithm =>
    unfold finish
    dsimp only
    split
    · exact .inl rfl
    · rename_i fresh
      split
      · exact .inl rfl
      · split
        · exact .inl rfl
        · exact .inr ⟨algorithm, algorithmAsked chosen, by simpa [HeaderMap.containsKey] using fresh, rfl⟩

theorem finishRepresents (undoes : Undoes decode crates.encode) {message : TowerCompat.Request T} {answer : Answer Text Opened}
    {codings : List Algorithm} {res : Response T} (held : Represents compression message.parts.headers decode answer codings res) :
    ∃ codings, Represents compression message.parts.headers decode answer codings
      (finish (bodyEncoder crates) compression (algorithmFor compression message) res) := by
  have finished : finish (bodyEncoder crates) compression (algorithmFor compression message) res = res ∨ _ :=
    finishAsked (bodyEncoder crates) message res
  rcases finished with same | ⟨algorithm, asked, fresh, changed⟩
  · rw [same]
    exact ⟨codings, held⟩
  · have none : codings = [] := by
      have named := held.named
      rw [fresh] at named
      exact List.map_eq_nil_iff.mp named.symm
    subst none
    obtain ⟨encoded, unsized, _, _⟩ := compressValues (bodyEncoder crates) algorithm res
    rw [changed]
    refine ⟨[algorithm], held.status, unsized, encoded, Nat.le_refl 1, fun other among => ?_,
      carriesCoded undoes held.carries algorithm, fun piece among => (toStreamPieces among).1⟩
    cases List.mem_singleton.mp among
    refine ⟨asked, ?_⟩
    rw [compressVaries]
    exact List.mem_singleton_self _

theorem filledRepresents {answer : Answer Text Opened} {codings : List Algorithm} {res : Response T}
    (held : Represents compression headers decode answer codings res) (state : State T.value) :
    Represents compression headers decode answer codings (GrpcMounts.fill state res) :=
  ⟨held.status, held.unsized, held.named, held.once, held.asked, held.carries, held.pieces⟩

def Delivered (compression : Compression) (headers : HeaderMap) (decode : Algorithm → Bytes → Option Bytes)
    (answered : SilentResult (Response T)) : Except StaticFiles.SilentError (Answer Text Opened) → Prop
  | .error err => answered = .error (.businessError err.code err.msg)
  | .ok answer => ∃ codings res, answered = .ok res ∧ Represents compression headers decode answer codings res

theorem handlerDelivers (undoes : Undoes decode crates.encode) (handler : StaticHandler) (fs : FileSystem Text Opened)
    {message : TowerCompat.Request T} {bound : HttpRequest.Request T.value} {rest : Text} (get : bound.method = .get)
    (read : pathParam bound = some rest) :
    Delivered compression message.parts.headers decode ((env (M := M) crates compression fs message).callHandlers (getMap handler) bound)
      (handler.wrapper.call unix ListingMarkup.urlCodec fs (some rest)).1 := by
  have stored : (getMap handler).lookup bound.method = some handler := by
    rw [get]
    exact AList.lookup_insert _
  have called : (env (M := M) crates compression fs message).callHandlers (getMap handler) bound =
      ((StaticHandler.call crates handler fs message.parts.headers (some rest)).map (GrpcMounts.fill bound.state)).map
        (finish (bodyEncoder crates) compression (algorithmFor compression message)) := by
    simp only [env, CompressionFrame.handle, handlerMapCall, stored, read]
    rfl
  rw [called]
  unfold StaticHandler.call
  cases found : (handler.wrapper.call unix ListingMarkup.urlCodec fs (some rest)).1 with
  | error err => rfl
  | ok answer =>
    have represented : ∃ codings, Represents compression message.parts.headers decode answer codings
        (answerResponse (T := T) crates handler.enableCompression message.parts.headers answer) :=
      answerRepresents undoes handler.enableCompression answer
    obtain ⟨codings, held⟩ := represented
    obtain ⟨after, finished⟩ := finishRepresents undoes (filledRepresents held bound.state)
    exact ⟨after, _, rfl, finished⟩

/- A GET for a path of a mounted static handler, behind the compression middleware, gets what the
handler finds there, whole, behind at most one coding, and one that was not refused. -/
theorem staticDelivers {url : Text} {handler : StaticHandler} {site : Route StaticHandler M T.value} (built : Site url handler site)
    (undoes : Undoes decode crates.encode) (compression : Compression) (fs : FileSystem Text Opened) (plat : Platform)
    (order : RouteTree.HashOrder) (buffer : Nat) (message : TowerCompat.Request T) (get : message.parts.method = .get) :
    match captured plat (segments url) message.parts.uri.path with
    | none => request crates compression fs plat order buffer site message = .error .notFound
    | some rest => Delivered compression message.parts.headers decode (request crates compression fs plat order buffer site message)
        (handler.wrapper.call unix ListingMarkup.urlCodec fs (some rest)).1 := by
  have pass : PassThrough (env (M := M) crates compression fs message) := fun _ _ _ => rfl
  have used : (getMap handler).entries.isEmpty = false := rfl
  have along : ∀ mount, Shaft (getMap handler) mount site → captured plat mount message.parts.uri.path =
      captured plat (nodeKey url) message.parts.uri.path → _ := fun mount shaft same => same ▸
    shaftServes plat order buffer used shaft message.parts.method message.parts.uri.path
      (env crates compression fs message) pass
  have reached := (siteShaft built).elim (along _ · rfl) (along _ · rfl)
  rw [capturedKey] at reached
  cases left : captured plat (segments url) message.parts.uri.path with
  | none =>
    rw [left] at reached
    exact reached
  | some rest =>
    rw [left] at reached
    obtain ⟨bound, method, read, called⟩ := reached
    dsimp only
    rw [request, called]
    exact handlerDelivers undoes handler fs (method.trans get) read

end

def slices : Pieces → Pieces
  | [] => []
  | .ok piece :: rest => piece.map (fun byte => .ok [byte]) ++ slices rest
  | .error err :: _ => [.error err]

theorem slicesFit (pieces : Pieces) (piece : Bytes) (among : .ok piece ∈ slices pieces) : piece.length = 1 := by
  induction pieces with
  | nil => cases among
  | cons first rest ih =>
    cases first with
    | error err => cases List.mem_singleton.mp among
    | ok bytes =>
      rcases List.mem_append.mp among with here | later
      · obtain ⟨byte, _, same⟩ := List.mem_map.mp here
        cases same
        rfl
      · exact ih later

theorem slicesAppend (bytes : Bytes) (rest : Pieces) :
    gathered (toStream (bytes.map (fun byte => .ok [byte]) ++ rest)) =
      (bytes ++ (gathered (toStream rest)).1, (gathered (toStream rest)).2) := by
  induction bytes with
  | nil => rfl
  | cons byte bytes ih => simp [toStream, gathered, ih]

theorem slicesGathered (pieces : Pieces) : gathered (toStream (slices pieces)) = gathered pieces := by
  induction pieces with
  | nil => rfl
  | cons first rest ih =>
    cases first with
    | error err => rfl
    | ok bytes => rw [slices, slicesAppend, ih, gathered]

def markedCrates : Crates where
  fromPath _ := some ⟨"text/plain".toList, "text".toList, "plain".toList, none⟩
  fromStr text := some ⟨text, "text".toList, "plain".toList, some "utf-8".toList⟩
  encoder _ pieces := ⟨.ok [31] :: slices pieces, fun piece among => by
    rcases List.mem_cons.mp among with same | later
    · cases same
      decide
    · rw [slicesFit pieces piece later]
      decide⟩

def unmark (_ : Algorithm) (bytes : Bytes) : Option Bytes := bytes.tail?

theorem markedUndoes : Undoes unmark markedCrates.encode where
  whole c pieces fine := by
    change (gathered (toStream (slices pieces))).2 = none ∧ some (gathered (toStream (slices pieces))).1 = _
    rw [slicesGathered]
    exact ⟨fine, rfl⟩
  broken c pieces failed := by
    change (gathered (toStream (slices pieces))).2.isSome
    rw [slicesGathered]
    exact failed

def hello : Opened where
  reads := [.ok [104], .ok [105]]
  fits piece among := by
    simp only [List.mem_cons, Except.ok.injEq, List.not_mem_nil, or_false] at among
    rcases among with rfl | rfl <;> decide

def helloFiles : FileSystem Text Opened := ⟨fun _ => some false, fun _ => none, fun _ => some hello⟩

def helloHandler : StaticHandler := ⟨⟨"www".toList, ⟨false⟩⟩, false⟩

def helloMessage : TowerCompat.Request TowerCompat.plainPayload :=
  ⟨⟨.get, ⟨none, none, "/hi.txt".toList, none⟩, .http11, [(acceptEncoding, "gzip".toList)], .default _⟩,
    ∅, ∅, (), none, none, none, none, ∅⟩

theorem helloSite : ∃ site : Route StaticHandler Unit Unit, Site [] helloHandler site := by
  have line : Line _ ∅ (Route.new [] : Route StaticHandler Unit Unit) := tidyLine (.inl rfl)
  obtain ⟨site, built, _⟩ := RouteGraft.appendGrafts (lineSpine line) ((Route.new starPath).insertHandler .get helloHandler)
  exact ⟨site, .own built⟩

theorem staticDeliversHello : ∃ site : Route StaticHandler Unit Unit, ∀ plat order, ∃ codings res,
    request markedCrates .new helloFiles plat order 0 site helloMessage = .ok res ∧
      Carries unmark codings ([104, 105], none) res.body.read.frames := by
  obtain ⟨site, built⟩ := helloSite
  refine ⟨site, fun plat order => ?_⟩
  obtain ⟨codings, res, answered, held⟩ := staticDelivers built markedUndoes .new helloFiles plat order 0 helloMessage rfl
  exact ⟨codings, res, answered, held.carries⟩

end Silent.StaticDelivery
