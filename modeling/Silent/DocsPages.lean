import Silent.GrpcMounts

/-! The documentation pages of silent-openapi, Swagger UI and ReDoc: as a handler, as the route
`into_route` makes of it, and as a middleware; and where the links of the page lead. -/
namespace Silent.DocsPages
open ByteText PathSegment HttpRequest RouteBuilder Dispatch SegmentSpec RouteTable RouterCompleteness RouteRegistration
open MountedHandlers
open CompressionFrame (HeaderMap contentType)
open TowerCompat (Payload Response ResBody)
open Responses (cacheControl)

variable {T : Payload} {M : Type}

structure Ui where
  uiPath : Text
  apiDocPath : Text
  openapiJson : Text

structure SwaggerUiOptions where
  tryItOutEnabled : Bool

structure EmbeddedFiles where
  bundleJs : List UInt8
  standalonePresetJs : List UInt8
  css : List UInt8
  favicon32 : List UInt8
  favicon16 : List UInt8

def trimEnd (path : Text) : Text := path.rdropWhile (· = '/')

def docPath (uiPath : Text) : Text := trimEnd uiPath ++ "/openapi.json".toList

def Ui.new (uiPath : Text) (openapi : Except Text Text) : Except Text Ui := openapi.map (⟨uiPath, docPath uiPath, ·⟩)

structure Assets where
  css : Text
  favicon : Text
  bundle : Text
  preset : Text

def assetsAt (base : Text) : Assets :=
  ⟨base ++ "/swagger-ui.css".toList, base ++ "/favicon-32x32.png".toList, base ++ "/swagger-ui-bundle.js".toList,
    base ++ "/swagger-ui-standalone-preset.js".toList⟩

def Assets.links (self : Assets) : List Text := [self.css, self.favicon, self.bundle, self.preset]

def swaggerUiVersion : Text := "5.17.14".toList

def assets (embedded : Option EmbeddedFiles) (uiPath : Text) : Assets :=
  match embedded with
  | some _ => assetsAt (trimEnd uiPath)
  | none => assetsAt ("https://unpkg.com/swagger-ui-dist@".toList ++ swaggerUiVersion)

def generateIndexHtml (embedded : Option EmbeddedFiles) (uiPath apiDocPath : Text) (options : SwaggerUiOptions) : Text :=
  let loaded := assets embedded uiPath
  let tryItOut := if options.tryItOutEnabled then "true".toList else "false".toList
  ["<!DOCTYPE html>\n<html lang=\"zh-CN\">\n<head>\n    <meta charset=\"UTF-8\">\n".toList,
    "    <meta name=\"viewport\" content=\"width=device-width, initial-scale=1.0\">\n".toList,
    "    <title>API Documentation - Swagger UI</title>\n    <link rel=\"stylesheet\" type=\"text/css\" href=\"".toList,
    loaded.css,
    "\" />\n    <link rel=\"icon\" type=\"image/png\" href=\"".toList,
    loaded.favicon,
    "\" sizes=\"32x32\" />\n    <style>\n        html \x7b\n            box-sizing: border-box;\n".toList,
    "            overflow: -moz-scrollbars-vertical;\n            overflow-y: scroll;\n        \x7d\n".toList,
    "        *, *:before, *:after \x7b\n            box-sizing: inherit;\n        \x7d\n        body \x7b\n".toList,
    "            margin: 0;\n            background: #fafafa;\n        \x7d\n        .swagger-ui .topbar \x7b\n".toList,
    "            display: none;\n        \x7d\n        .swagger-ui .info \x7b\n            margin: 50px 0;\n        \x7d\n".toList,
    "        .custom-header \x7b\n            background: #89CFF0;\n            padding: 20px;\n".toList,
    "            text-align: center;\n            color: #1976d2;\n".toList,
    "            font-family: -apple-system, BlinkMacSystemFont, \"Segoe UI\", Roboto, sans-serif;\n        \x7d\n".toList,
    "        .custom-header h1 \x7b\n            margin: 0;\n            font-size: 24px;\n            font-weight: 600;\n".toList,
    "        \x7d\n        .custom-header p \x7b\n            margin: 8px 0 0 0;\n            opacity: 0.8;\n        \x7d\n".toList,
    "    </style>\n</head>\n<body>\n    <div class=\"custom-header\">\n".toList,
    "        <h1>Silent Framework API Documentation</h1>\n        <p>OpenAPI 3.0</p>\n    </div>\n".toList,
    "    <div id=\"swagger-ui\"></div>\n\n    <script src=\"".toList,
    loaded.bundle,
    "\"></script>\n    <script src=\"".toList,
    loaded.preset,
    "\"></script>\n    <script>\n        window.onload = function() \x7b\n            const ui = SwaggerUIBundle(\x7b\n".toList,
    "                url: '".toList,
    apiDocPath,
    "',\n                dom_id: '#swagger-ui',\n                deepLinking: true,\n                presets: [\n".toList,
    "                    SwaggerUIBundle.presets.apis,\n                    SwaggerUIStandalonePreset\n                ],\n".toList,
    "                plugins: [\n                    SwaggerUIBundle.plugins.DownloadUrl\n                ],\n".toList,
    "                layout: \"StandaloneLayout\",\n                validatorUrl: null,\n".toList,
    "                docExpansion: \"list\",\n                defaultModelsExpandDepth: 1,\n".toList,
    "                defaultModelExpandDepth: 1,\n                displayRequestDuration: true,\n".toList,
    "                filter: true,\n                showExtensions: true,\n                showCommonExtensions: true,\n".toList,
    "                tryItOutEnabled: ".toList,
    tryItOut,
    "\n            \x7d);\n            window.ui = ui;\n        \x7d\n    </script>\n</body>\n</html>".toList].flatten

def getEmbeddedAsset (files : EmbeddedFiles) (path : Text) : Option (Text × List UInt8) :=
  if path = "swagger-ui-bundle.js".toList then some ("application/javascript; charset=utf-8".toList, files.bundleJs)
  else if path = "swagger-ui-standalone-preset.js".toList then
    some ("application/javascript; charset=utf-8".toList, files.standalonePresetJs)
  else if path = "swagger-ui.css".toList then some ("text/css; charset=utf-8".toList, files.css)
  else if path = "favicon-32x32.png".toList then some ("image/png".toList, files.favicon32)
  else if path = "favicon-16x16.png".toList then some ("image/png".toList, files.favicon16)
  else none

def answer (status : Nat) (headers : HeaderMap) (body : ResBody) : Response T :=
  {Response.empty with
    status := status
    headers := headers.foldl (fun set entry => HeaderMap.insert set entry.1 entry.2) []
    body := body}

def serveAsset (embedded : Option EmbeddedFiles) (assetPath : Text) : Response T :=
  match embedded.bind (getEmbeddedAsset · assetPath) with
  | some (type, data) => answer 200 [(contentType, type), (cacheControl, "public, max-age=86400".toList)] (.once data)
  | none => answer 404 [] (Responses.full "Asset not found".toList)

def redocVersion : Text := "2.1.5".toList

def generateRedocHtml (apiDocUrl : Text) : Text :=
  ["<!DOCTYPE html>\n<html lang=\"zh-CN\">\n<head>\n    <meta charset=\"UTF-8\">\n".toList,
    "    <meta name=\"viewport\" content=\"width=device-width, initial-scale=1.0\">\n".toList,
    "    <title>API Documentation - ReDoc</title>\n    <style>\n        body \x7b margin: 0; padding: 0; \x7d\n".toList,
    "    </style>\n</head>\n<body>\n    <redoc spec-url='".toList,
    apiDocUrl,
    "'></redoc>\n    <script src=\"https://unpkg.com/redoc@".toList,
    redocVersion,
    "/bundles/redoc.standalone.js\"></script>\n</body>\n</html>".toList].flatten

def Ui.matchesPath (self : Ui) (path : Text) : Bool :=
  path = self.uiPath || (self.uiPath ++ ['/']).isPrefixOf path || path = self.apiDocPath

def Ui.relativePath (self : Ui) (path : Text) : Text :=
  if (self.uiPath ++ ['/']).isPrefixOf path then path.drop (self.uiPath.length + 1) else []

def headerValue (text : Text) : Option Text := if text.all (fun c => (' ' ≤ c && c ≠ '\x7f') || c = '\t') then some text else none

def location : Text := "location".toList

def Ui.handleOpenapiJson (self : Ui) (more : HeaderMap) : Response T :=
  answer 200 ((contentType, "application/json; charset=utf-8".toList) :: more) (Responses.full self.openapiJson)

def Ui.handleUiRedirect (self : Ui) : Response T :=
  answer 301 [(location, (headerValue (self.uiPath ++ ['/'])).getD ['/'])] .none

def htmlPage (html : Text) (more : HeaderMap) : Response T :=
  answer 200 ((contentType, "text/html; charset=utf-8".toList) :: more) (Responses.full html)

/- `forDocument` and `forPage` are the headers a middleware adds. -/
def Ui.respond (self : Ui) (forDocument : HeaderMap) (resource : Text → Response T) (path : Text) : Option (Response T) :=
  if !self.matchesPath path then none
  else if path = self.apiDocPath then some (self.handleOpenapiJson forDocument)
  else if path = self.uiPath then some self.handleUiRedirect
  else some (resource path)

def Ui.swaggerResource (self : Ui) (embedded : Option EmbeddedFiles) (options : SwaggerUiOptions) (forPage : HeaderMap) (path : Text) :
    Response T :=
  if self.relativePath path = [] ∨ self.relativePath path = "index.html".toList then
    htmlPage (generateIndexHtml embedded self.uiPath self.apiDocPath options) forPage
  else serveAsset embedded (self.relativePath path)

def Ui.redocResource (self : Ui) (forPage : HeaderMap) (_path : Text) : Response T := htmlPage (generateRedocHtml self.apiDocPath) forPage

def openToAll : HeaderMap := [("access-control-allow-origin".toList, ['*'])]

def uncached : HeaderMap := [(cacheControl, "no-cache, no-store, must-revalidate".toList)]

inductive Docs where
  | swaggerUi (ui : Ui) (options : SwaggerUiOptions)
  | reDoc (ui : Ui)

def Docs.ui : Docs → Ui
  | .swaggerUi ui _ | .reDoc ui => ui

def Docs.resource (embedded : Option EmbeddedFiles) (forPage : HeaderMap) : Docs → Text → Response T
  | .swaggerUi ui options => ui.swaggerResource embedded options forPage
  | .reDoc ui => ui.redocResource forPage

def Docs.html (embedded : Option EmbeddedFiles) : Docs → Text
  | .swaggerUi ui options => generateIndexHtml embedded ui.uiPath ui.apiDocPath options
  | .reDoc ui => generateRedocHtml ui.apiDocPath

def Docs.call (embedded : Option EmbeddedFiles) (self : Docs) (path : Text) : SilentResult (Response T) :=
  match self.ui.respond [] (self.resource embedded []) path with
  | some res => .ok res
  | none => .error .notFound

def Docs.handle {m : Type → Type} [Monad m] (embedded : Option EmbeddedFiles) (self : Docs) (path : Text)
    (next : m (SilentResult (Response T))) : m (SilentResult (Response T)) :=
  match self.ui.respond openToAll (self.resource embedded uncached) path with
  | some res => pure (.ok res)
  | none => next

def Docs.intoRoute (self : Docs) : Option (Route Docs M T.value) := do
  let mount := trimmed self.ui.uiPath
  let below := ((Route.new starPath).insertHandler .get self).insertHandler .head self
  let base ← (((Route.new mount).insertHandler .get self).insertHandler .head self).append below
  (Route.new []).append base

def env (embedded : Option EmbeddedFiles) (path : Text) : Env Docs M T.value (Response T) Id where
  callHandlers := handlerMapCall GrpcMounts.fill GrpcMounts.clearBody fun docs _ => docs.call embedded path
  middleware _ req next := next req
  panicked := .error .notFound

def request (embedded : Option EmbeddedFiles) (plat : Platform) (order : RouteTree.HashOrder) (buffer : Nat)
    (site : Route Docs M T.value) (method : Method) (path : Text) : SilentResult (Response T) :=
  RouteTree.call (env embedded path) plat (RouteTree.candidateIndices plat order) buffer (RouteTree.convertToRouteTree site)
    (Request.fromParts method path)

/- Both handlers are put at the first node of the mount, and at the wildcard below its last. -/
def docsMap (docs : Docs) : HashMap Method Docs := ((∅ : HashMap Method Docs).insert .get docs).insert .head docs

def Kept (docs : Docs) (handlers : HashMap Method Docs) : Prop := handlers = ∅ ∨ handlers = docsMap docs

theorem realNone {H V : Type} {f : Route H M V → Route H M V} {path : Text} {r : Route H M V} (handlers : HashMap Method H)
    (missing : Route.updateRealRoute f path r = none) : Route.updateRealRoute f path {r with handler := handlers} = none := by
  rw [Route.updateRealRoute] at missing ⊢
  split at missing
  · rename_i slash
    rw [if_pos slash]
    dsimp only at missing ⊢
    cases idx : r.children.findIdx? (fun c => c.createPath = (splitFirst '/' path).2) with
    | none => rfl
    | some idx =>
      simp only [idx, Option.bind_eq_bind, Option.bind_eq_none_iff] at missing ⊢
      exact fun child held updated done => absurd (missing child held updated done) (Option.some_ne_none _)
  · cases missing

theorem nodeKeyTrimmed (path : Text) : nodeKey (trimmed path) = nodeKey path := by
  rw [nodeKey, nodeKey, ← segmentsTrimmed]

theorem lineEmpty {H V : Type} {segs : List Text} {r : Route H M V} (line : Line segs ∅ r) : r.handler = ∅ := by
  generalize empty : (∅ : HashMap Method H) = map at line
  cases line with
  | leaf _ _ _ _ handler => exact handler
  | step _ _ _ _ idle _ => exact idle.trans empty

theorem headSpine {H V : Type} {segs : List Text} {r : Route H M V} (spine : Spine segs r) (handlers : HashMap Method H) :
    Spine segs {r with handler := handlers} := by
  cases spine with
  | leaf plain path created => exact .leaf plain path created
  | step plain path created children below => exact .step plain path created children below

theorem trimmedTidy {path : Text} : Tidy (trimmed path) ↔ Tidy path := by
  have twice : trimmed (trimmed path) = trimmed path := List.dropWhile_idempotent _ _
  rw [Tidy, Tidy, twice]

-- A path with an empty segment inside, or a slash at its end, makes `append` panic.
theorem intoRouteTidy {docs : Docs} {site : Route Docs M T.value} (built : docs.intoRoute = some site) : Tidy docs.ui.uiPath := by
  obtain ⟨base, inner, _⟩ := Option.bind_eq_some_iff.mp built
  by_contra untidy
  change Route.updateRealRoute _ (Route.new (trimmed docs.ui.uiPath)).createPath
    {Route.new (trimmed docs.ui.uiPath) with handler := _} = _ at inner
  rw [realNone _ ((untidySearch (untidy ∘ trimmedTidy.mp)).2 _)] at inner
  cases inner

theorem intoRouteGrows (docs : Docs) (tidy : Tidy docs.ui.uiPath) : ∃ site : Route Docs M T.value, docs.intoRoute = some site ∧
    Passage (docsMap docs) (Kept docs) ([] :: nodeKey docs.ui.uiPath) site := by
  have line : Line (nodeKey docs.ui.uiPath) ∅ (Route.new (trimmed docs.ui.uiPath) : Route Docs M T.value) :=
    nodeKeyTrimmed docs.ui.uiPath ▸ tidyLine (trimmedTidy.mpr tidy)
  have star : Line (nodeKey starPath) ∅ (Route.new starPath : Route Docs M T.value) := tidyLine (by decide)
  have root : Line (nodeKey []) ∅ (Route.new [] : Route Docs M T.value) := tidyLine (.inl rfl)
  obtain ⟨base, inner, grafted⟩ := RouteGraft.appendGrafts (headSpine (lineSpine line) (docsMap docs))
    ({Route.new starPath with handler := docsMap docs} : Route Docs M T.value)
  obtain ⟨site, outer, whole⟩ := RouteGraft.appendGrafts (lineSpine root) base
  have below := graftedPassage (headPosts (linePosts line (.inl rfl)) (.inr rfl)) grafted (starPassage (Kept docs) (docsMap docs))
  have passage := graftedPassage (linePosts root (.inl rfl)) whole below
  rw [List.append_nil] at passage
  refine ⟨site, ?_, passage⟩
  simp only [Docs.intoRoute, Route.insertHandler, lineEmpty line, lineEmpty star]
  exact (congrArg (· >>= (Route.new []).append) inner).trans outer

theorem intoRoutePassage {docs : Docs} {site : Route Docs M T.value} (built : docs.intoRoute = some site) :
    Passage (docsMap docs) (Kept docs) ([] :: nodeKey docs.ui.uiPath) site := by
  obtain ⟨grown, same, passage⟩ := intoRouteGrows (M := M) (T := T) docs (intoRouteTidy built)
  cases Option.some.inj (same.symm.trans built)
  exact passage

theorem firstNamed {seg : Text} (named : seg ≠ []) (plain : '/' ∉ seg) {tail : Text}
    (ends : tail = [] ∨ ∃ rest, tail = '/' :: rest) :
    firstSegment (seg ++ tail) = seg ∧ afterSegment (seg ++ tail) = tail.tail := by
  obtain ⟨c, cs, rfl⟩ := List.exists_cons_of_ne_nil named
  have other : c ≠ '/' := fun same => plain (by simp [same])
  have kept : trimSlash (c :: cs ++ tail) = c :: cs ++ tail := by
    rw [List.cons_append, trimSlash]
    exact fun rest same => other (List.cons.inj same).1
  rw [firstSegment, afterSegment, kept]
  rcases ends with rfl | ⟨rest, rfl⟩
  · rw [List.append_nil, splitFirstAbsent plain]
    exact ⟨rfl, rfl⟩
  · rw [splitFirstAppend plain]
    exact ⟨rfl, rfl⟩

theorem capturedAlong (plat : Platform) {segs : List Text}
    (static : ∀ seg ∈ segs, seg ≠ [] ∧ '/' ∉ seg ∧ parseSpecialSeg seg = .static seg) {tail : Text}
    (ends : tail = [] ∨ ∃ rest, tail = '/' :: rest) : captured plat segs (joinPath segs ++ tail) ≠ none := by
  match segs with
  | [] => exact Option.some_ne_none _
  | [seg] =>
    obtain ⟨named, plain, parsed⟩ := static seg (List.mem_singleton_self _)
    obtain ⟨first, after⟩ := firstNamed named plain ends
    rw [joinPath, captured, if_neg named, parsed, first, if_pos (by simp [accepts])]
    exact Option.some_ne_none _
  | seg :: next :: rest =>
    obtain ⟨named, plain, parsed⟩ := static seg List.mem_cons_self
    obtain ⟨first, after⟩ := @firstNamed seg named plain ('/' :: (joinPath (next :: rest) ++ tail)) (.inr ⟨_, rfl⟩)
    have whole : joinPath (seg :: next :: rest) ++ tail = seg ++ '/' :: (joinPath (next :: rest) ++ tail) := by
      simp [joinPath]
    rw [whole, captured, if_neg named, parsed, first, after, if_pos (by simp [accepts])]
    exact capturedAlong plat (fun seg among => static seg (List.mem_cons_of_mem _ among)) ends

/- What `new` makes for a path that is written out, with one slash in front at most. -/
structure Made (ui : Ui) : Prop where
  new : Ui.new ui.uiPath (.ok ui.openapiJson) = .ok ui
  static : ∀ seg ∈ segments ui.uiPath, parseSpecialSeg seg = .static seg
  lead : trimSlash ui.uiPath = trimmed ui.uiPath

theorem joinLast {segs : List Text} (named : ∀ seg ∈ segs, seg ≠ [] ∧ '/' ∉ seg) : (joinPath segs).getLast? ≠ some '/' := by
  match segs with
  | [] => exact fun same => (by cases same)
  | [seg] => exact fun same => (named seg (List.mem_singleton_self _)).2 (List.mem_of_getLast? same)
  | seg :: next :: rest =>
    have later := joinLast fun seg among => named seg (List.mem_cons_of_mem _ among)
    have full : joinPath (next :: rest) ≠ [] :=
      (joinPathNamed (List.cons_ne_nil _ _) fun seg among => named seg (List.mem_cons_of_mem _ among)).1
    rw [joinPath, List.getLast?_append_of_ne_nil _ (List.cons_ne_nil _ _), List.getLast?_cons_of_ne_nil full]
    exact later

theorem segmentsNamed (path : Text) : ∀ seg ∈ segments path, seg ≠ [] ∧ '/' ∉ seg := fun seg among =>
  ⟨by simpa using (List.mem_filter.mp among).2, splitPlain (List.mem_filter.mp among).1⟩

theorem trimmedJoined {path : Text} (tidy : Tidy path) (below : segments path ≠ []) : trimmed path = joinPath (segments path) := by
  have joined := (tidyKey tidy).2
  rw [nodeKey, if_neg below] at joined
  exact joined.symm

section
variable {ui : Ui} (made : Made ui) (tidy : Tidy ui.uiPath) (below : segments ui.uiPath ≠ [])
include made tidy below

theorem trimEndSame : trimEnd ui.uiPath = ui.uiPath := by
  refine List.rdropWhile_eq_self_iff.mpr fun full slash => ?_
  obtain ⟨lead, whole, _⟩ := trimSlashLead ui.uiPath
  rw [made.lead, trimmedJoined tidy below] at whole
  have ends : ui.uiPath.getLast? = some '/' := by
    rw [List.getLast?_eq_some_getLast full]
    simpa using slash
  have some_ := (joinPathNamed below (segmentsNamed ui.uiPath)).1
  rw [whole, List.getLast?_append_of_ne_nil _ some_] at ends
  exact joinLast (segmentsNamed ui.uiPath) ends

theorem docBelow : ui.apiDocPath = ui.uiPath ++ '/' :: "openapi.json".toList := by
  have document := congrArg Ui.apiDocPath (Except.ok.inj made.new)
  rw [← document, docPath, trimEndSame made tidy below]
  rfl

end

theorem capturedLead (plat : Platform) {segs : List Text} (full : segs ≠ []) (named : ∀ seg ∈ segs, seg ≠ []) {path : Text}
    (start : path.head? ≠ some '/') : captured plat segs ('/' :: path) = captured plat segs path := by
  obtain ⟨seg, rest, rfl⟩ := List.exists_cons_of_ne_nil full
  have kept : trimSlash path = path := by
    unfold trimSlash
    split
    · exact absurd rfl start
    · rfl
  rw [captured, captured, if_neg (named seg List.mem_cons_self), if_neg (named seg List.mem_cons_self), firstSegment, firstSegment,
    afterSegment, afterSegment, kept]
  rfl

theorem matchedCaptured {ui : Ui} (made : Made ui) (tidy : Tidy ui.uiPath) (plat : Platform) {path : Text}
    (matched : ui.matchesPath path = true) : captured plat (segments ui.uiPath) path ≠ none := by
  by_cases below : segments ui.uiPath = []
  · rw [below]
    exact Option.some_ne_none _
  · have starts : ∃ tail, path = ui.uiPath ++ tail ∧ (tail = [] ∨ ∃ rest, tail = '/' :: rest) := by
      simp only [Ui.matchesPath, Bool.or_eq_true, decide_eq_true_eq, List.isPrefixOf_iff_prefix] at matched
      rcases matched with (same | ⟨rest, whole⟩) | same
      · exact ⟨[], by rw [same, List.append_nil], .inl rfl⟩
      · exact ⟨'/' :: rest, by rw [← whole]; simp, .inr ⟨rest, rfl⟩⟩
      · exact ⟨_, by rw [same, docBelow made tidy below], .inr ⟨_, rfl⟩⟩
    obtain ⟨tail, rfl, ends⟩ := starts
    have static : ∀ seg ∈ segments ui.uiPath, seg ≠ [] ∧ '/' ∉ seg ∧ parseSpecialSeg seg = .static seg := fun seg among =>
      ⟨(segmentsNamed ui.uiPath seg among).1, (segmentsNamed ui.uiPath seg among).2, made.static seg among⟩
    have along := capturedAlong plat static ends
    rw [← trimmedJoined tidy below, ← made.lead] at along
    obtain ⟨lead, whole, leads⟩ := trimSlashLead ui.uiPath
    have path : ui.uiPath ++ tail = lead ++ (trimSlash ui.uiPath ++ tail) := by rw [← List.append_assoc, ← whole]
    rw [path]
    rcases leads with rfl | rfl
    · exact along
    · have some_ := (joinPathNamed below (segmentsNamed ui.uiPath)).1
      rw [← trimmedJoined tidy below] at some_
      have start : (trimSlash ui.uiPath ++ tail).head? ≠ some '/' := by
        rw [made.lead, List.head?_append_of_ne_nil _ some_]
        intro same
        have dropped := List.head?_dropWhile_not (p := fun c : Char => decide (c = '/')) ui.uiPath
        rw [trimmed] at same
        rw [same] at dropped
        simp at dropped
      exact capturedLead plat below (fun seg among => (segmentsNamed ui.uiPath seg among).1) start ▸ along

theorem callUnmatched (embedded : Option EmbeddedFiles) (docs : Docs) {path : Text} (unmatched : ¬ docs.ui.matchesPath path = true) :
    docs.call (T := T) embedded path = .error .notFound := by
  rw [Docs.call, Ui.respond, if_pos (by simpa using unmatched)]

theorem respondMatched {ui : Ui} {path : Text} (matched : ui.matchesPath path = true) (forDocument : HeaderMap)
    (resource : Text → Response T) :
    ui.respond forDocument resource path = some (if path = ui.apiDocPath then ui.handleOpenapiJson forDocument
      else if path = ui.uiPath then ui.handleUiRedirect else resource path) := by
  rw [Ui.respond, if_neg (by simpa using matched)]
  split
  · rfl
  · split <;> rfl

theorem mapAnswers (embedded : Option EmbeddedFiles) (docs : Docs) (path : Text) (bound : Request T.value) :
    (env (M := M) embedded path).callHandlers (docsMap docs) bound =
      if bound.method = .get ∨ bound.method = .head then (docs.call embedded path).map (GrpcMounts.fill bound.state)
      else .error (.businessError 405 "method not allowed".toList) := by
  by_cases head : bound.method = .head
  · have stored : (docsMap docs).lookup bound.method = some docs := by
      rw [head]
      exact AList.lookup_insert _
    rw [if_pos (.inr head)]
    simp only [env, handlerMapCall, stored]
    rfl
  · by_cases get : bound.method = .get
    · have stored : (docsMap docs).lookup bound.method = some docs := by
        rw [docsMap, AList.lookup_insert_ne head, get]
        exact AList.lookup_insert _
      rw [if_pos (.inl get)]
      simp only [env, handlerMapCall, stored]
      rfl
    · have missed : (docsMap docs).lookup bound.method = none := by
        rw [docsMap, AList.lookup_insert_ne head, AList.lookup_insert_ne get]
        rfl
      rw [if_neg (not_or.mpr ⟨get, head⟩)]
      simp only [env, handlerMapCall, missed, head, if_false]
      rfl

theorem mountedAnswers {docs : Docs} {site : Route Docs M T.value} (built : docs.intoRoute = some site) (made : Made docs.ui)
    (embedded : Option EmbeddedFiles) (plat : Platform) (order : RouteTree.HashOrder) (buffer : Nat) (method : Method) (path : Text) :
    if method = .get ∨ method = .head then
      ∃ state, request embedded plat order buffer site method path = (docs.call embedded path).map (GrpcMounts.fill state)
    else ∃ err, request embedded plat order buffer site method path = .error err := by
  have pass : PassThrough (env (T := T) (M := M) embedded path) := fun _ _ _ => rfl
  have used : (docsMap docs).entries.isEmpty = false := rfl
  have serves := passageServes (R := Response T) plat order buffer used (intoRoutePassage built) method path
  have along : captured plat ([] :: nodeKey docs.ui.uiPath) path = captured plat (segments docs.ui.uiPath) path := capturedKey ..
  rw [along] at serves
  cases left : captured plat (segments docs.ui.uiPath) path with
  | some rest =>
    rw [left] at serves
    obtain ⟨bound, same, _, calls⟩ := serves
    rw [request, calls Id _ pass, mapAnswers, same]
    split
    · exact ⟨bound.state, rfl⟩
    · exact ⟨_, rfl⟩
  | none =>
    have unmatched : ¬ docs.ui.matchesPath path = true := fun matched =>
      matchedCaptured made (intoRouteTidy built) plat matched left
    rw [left] at serves
    rw [callUnmatched embedded docs unmatched]
    rcases serves with missed | ⟨held, kept, some_, bound, same, calls⟩
    · rw [request, missed Id _ pass]
      split
      · exact ⟨∅, rfl⟩
      · exact ⟨_, rfl⟩
    · rcases kept with rfl | rfl
      · cases some_
      · rw [request, calls Id _ pass, mapAnswers, same, callUnmatched embedded docs unmatched]
        split
        · exact ⟨∅, rfl⟩
        · exact ⟨_, rfl⟩

structure Same (res out : Response T) : Prop where
  status : out.status = res.status
  body : out.body = res.body
  type : HeaderMap.getAll out.headers contentType = HeaderMap.getAll res.headers contentType
  location : HeaderMap.getAll out.headers location = HeaderMap.getAll res.headers location

theorem documentSame (ui : Ui) : Same (ui.handleOpenapiJson (T := T) []) (ui.handleOpenapiJson openToAll) :=
  ⟨rfl, rfl, rfl, rfl⟩

theorem pageSame (html : Text) : Same (htmlPage (T := T) html []) (htmlPage html uncached) :=
  ⟨rfl, rfl, rfl, rfl⟩

theorem resourceSame (embedded : Option EmbeddedFiles) (docs : Docs) (path : Text) :
    Same (docs.resource (T := T) embedded [] path) (docs.resource embedded uncached path) := by
  cases docs with
  | reDoc ui => exact pageSame _
  | swaggerUi ui options =>
    simp only [Docs.resource, Ui.swaggerResource]
    split
    · exact pageSame _
    · exact ⟨rfl, rfl, rfl, rfl⟩

theorem middlewareAnswers (embedded : Option EmbeddedFiles) (docs : Docs) (path : Text) {m : Type → Type} [Monad m]
    (next : m (SilentResult (Response T))) :
    match docs.call (T := T) embedded path with
    | .ok res => ∃ out, docs.handle embedded path next = pure (.ok out) ∧ Same res out
    | .error _ => docs.handle embedded path next = next := by
  by_cases matched : docs.ui.matchesPath path = true
  · rw [Docs.call, Docs.handle, respondMatched matched, respondMatched matched]
    refine ⟨_, rfl, ?_⟩
    split_ifs
    · exact documentSame docs.ui
    · exact ⟨rfl, rfl, rfl, rfl⟩
    · exact resourceSame embedded docs path
  · rw [callUnmatched embedded docs matched, Docs.handle, Ui.respond, if_pos (by simpa using matched)]

/- The route `into_route` makes answers GET and HEAD of every path as the handler does, and no other
method; and the middleware answers what the handler answers, and passes on the rest. -/
theorem docsServed {docs : Docs} {site : Route Docs M T.value} (built : docs.intoRoute = some site) (made : Made docs.ui)
    (embedded : Option EmbeddedFiles) (plat : Platform) (order : RouteTree.HashOrder) (buffer : Nat) (method : Method) (path : Text) :
    (if method = .get ∨ method = .head then
      ∃ state, request embedded plat order buffer site method path = (docs.call embedded path).map (GrpcMounts.fill state)
    else ∃ err, request embedded plat order buffer site method path = .error err) ∧
      ∀ (m : Type → Type) [Monad m] (next : m (SilentResult (Response T))),
        match docs.call (T := T) embedded path with
        | .ok res => ∃ out, docs.handle embedded path next = pure (.ok out) ∧ Same res out
        | .error _ => docs.handle embedded path next = next :=
  ⟨mountedAnswers built made embedded plat order buffer method path, fun _ _ next => middlewareAnswers embedded docs path next⟩

def Answered (answered : SilentResult (Response T)) (status : Nat) (header : Text × Text) (body : ResBody) : Prop :=
  ∃ res, answered = .ok res ∧ res.status = status ∧ HeaderMap.getAll res.headers header.1 = [header.2] ∧ res.body = body

theorem answeredMounted {docs : Docs} {site : Route Docs M T.value} (built : docs.intoRoute = some site) (made : Made docs.ui)
    {embedded : Option EmbeddedFiles} (plat : Platform) (order : RouteTree.HashOrder) (buffer : Nat) {path : Text} {status : Nat}
    {header : Text × Text} {body : ResBody} (called : Answered (docs.call (T := T) embedded path) status header body) :
    Answered (request embedded plat order buffer site .get path) status header body := by
  obtain ⟨res, answered, same⟩ := called
  obtain ⟨state, mounted⟩ := mountedAnswers built made embedded plat order buffer .get path
  rw [mounted, answered]
  exact ⟨GrpcMounts.fill state res, rfl, same⟩

def Docs.links (embedded : Option EmbeddedFiles) : Docs → List Text
  | .swaggerUi ui _ => (assets embedded ui.uiPath).links
  | .reDoc _ => []

theorem pieceInside {pieces : List Text} {piece : Text} (among : piece ∈ pieces) : piece <:+: pieces.flatten := by
  obtain ⟨before, after, rfl⟩ := List.append_of_mem among
  exact ⟨before.flatten, after.flatten, by simp⟩

theorem pageNames (embedded : Option EmbeddedFiles) (docs : Docs) :
    docs.ui.apiDocPath <:+: docs.html embedded ∧ ∀ link ∈ docs.links embedded, link <:+: docs.html embedded := by
  cases docs with
  | reDoc ui => exact ⟨pieceInside (List.mem_of_getElem? (i := 4) rfl), fun _ among => (by cases among)⟩
  | swaggerUi ui options =>
    exact ⟨pieceInside (List.mem_of_getElem? (i := 24) rfl), List.forall_mem_cons.mpr ⟨pieceInside (List.mem_of_getElem? (i := 3) rfl),
      List.forall_mem_cons.mpr ⟨pieceInside (List.mem_of_getElem? (i := 5) rfl), List.forall_mem_cons.mpr
        ⟨pieceInside (List.mem_of_getElem? (i := 19) rfl), List.forall_mem_singleton.mpr
          (pieceInside (List.mem_of_getElem? (i := 21) rfl))⟩⟩⟩⟩

theorem belowPrefix (ui : Ui) (rest : Text) : (ui.uiPath ++ ['/']).isPrefixOf (ui.uiPath ++ '/' :: rest) = true :=
  List.isPrefixOf_iff_prefix.mpr ⟨rest, by simp⟩

theorem belowMatched (ui : Ui) (rest : Text) : ui.matchesPath (ui.uiPath ++ '/' :: rest) = true := by
  rw [Ui.matchesPath, belowPrefix, Bool.or_true, Bool.true_or]

theorem belowRelative (ui : Ui) (rest : Text) : ui.relativePath (ui.uiPath ++ '/' :: rest) = rest := by
  rw [Ui.relativePath, if_pos (belowPrefix ui rest)]
  simp

theorem belowResource {ui : Ui} (made : Made ui) (tidy : Tidy ui.uiPath) (below : segments ui.uiPath ≠ []) {rest : Text}
    (other : rest ≠ "openapi.json".toList) (forDocument : HeaderMap) (resource : Text → Response T) :
    ui.respond forDocument resource (ui.uiPath ++ '/' :: rest) = some (resource (ui.uiPath ++ '/' :: rest)) := by
  have elsewhere : ui.uiPath ++ '/' :: rest ≠ ui.apiDocPath := by
    rw [docBelow made tidy below]
    exact fun same => other (List.cons.inj (List.append_cancel_left same)).2
  have longer : ui.uiPath ++ '/' :: rest ≠ ui.uiPath := fun same => by
    have lengths := congrArg List.length same
    simp at lengths
  rw [respondMatched (belowMatched ui rest), if_neg elsewhere, if_neg longer]

theorem pageAnswered {docs : Docs} (made : Made docs.ui) (tidy : Tidy docs.ui.uiPath) (below : segments docs.ui.uiPath ≠ [])
    (embedded : Option EmbeddedFiles) :
    Answered (docs.call (T := T) embedded (docs.ui.uiPath ++ ['/'])) 200 (contentType, "text/html; charset=utf-8".toList)
      (Responses.full (docs.html embedded)) := by
  have other : ([] : Text) ≠ "openapi.json".toList := by decide
  refine ⟨htmlPage (docs.html embedded) [], ?_, rfl, rfl, rfl⟩
  rw [Docs.call, belowResource made tidy below other]
  cases docs with
  | reDoc ui => rfl
  | swaggerUi ui options =>
    simp only [Docs.resource, Ui.swaggerResource, Docs.ui, belowRelative, true_or, if_true]
    rfl

theorem assetAnswered {ui : Ui} (made : Made ui) (tidy : Tidy ui.uiPath) (below : segments ui.uiPath ≠ []) (options : SwaggerUiOptions)
    {files : EmbeddedFiles} {name type : Text} {data : List UInt8} (stored : getEmbeddedAsset files name = some (type, data))
    (other : name ≠ "openapi.json".toList) (page : name ≠ [] ∧ name ≠ "index.html".toList) :
    Answered ((Docs.swaggerUi ui options).call (T := T) (some files) (ui.uiPath ++ '/' :: name)) 200 (contentType, type) (.once data) := by
  refine ⟨serveAsset (some files) name, ?_, ?_⟩
  · rw [Docs.call, Docs.ui, belowResource made tidy below other]
    simp only [Docs.resource, Ui.swaggerResource, belowRelative, page.1, page.2, or_self, if_false]
  · rw [serveAsset, Option.bind_some, stored]
    exact ⟨rfl, rfl, rfl⟩

/- The path of the page redirects to the page, and everything the page names on this host is there:
the document, and what the page loads if it is embedded. -/
theorem docsLinksLead {docs : Docs} {site : Route Docs M T.value} (built : docs.intoRoute = some site) (made : Made docs.ui)
    (below : segments docs.ui.uiPath ≠ []) (valid : headerValue (docs.ui.uiPath ++ ['/']) = some (docs.ui.uiPath ++ ['/']))
    (embedded : Option EmbeddedFiles) (plat : Platform) (order : RouteTree.HashOrder) (buffer : Nat) :
    let get := request embedded plat order buffer site .get
    Answered (get docs.ui.uiPath) 301 (location, docs.ui.uiPath ++ ['/']) .none ∧
      Answered (get (docs.ui.uiPath ++ ['/'])) 200 (contentType, "text/html; charset=utf-8".toList)
        (Responses.full (docs.html embedded)) ∧
      docs.ui.apiDocPath <:+: docs.html embedded ∧
      Answered (get docs.ui.apiDocPath) 200 (contentType, "application/json; charset=utf-8".toList) (Responses.full docs.ui.openapiJson) ∧
      ∀ link ∈ docs.links embedded, link <:+: docs.html embedded ∧
        (embedded.isSome → ∃ type data, Answered (get link) 200 (contentType, type) (.once data)) := by
  have tidy := intoRouteTidy built
  have leads {path : Text} {status : Nat} {header : Text × Text} {body : ResBody}
      (called : Answered (docs.call (T := T) embedded path) status header body) :
      Answered (request embedded plat order buffer site .get path) status header body :=
    answeredMounted built made plat order buffer called
  obtain ⟨document, links⟩ := pageNames embedded docs
  refine ⟨leads ⟨docs.ui.handleUiRedirect, ?_, rfl, ?_, rfl⟩, leads ?_, document,
    leads ⟨docs.ui.handleOpenapiJson [], ?_, rfl, rfl, rfl⟩, fun link among => ⟨links link among, fun held => ?_⟩⟩
  · have matched : docs.ui.matchesPath docs.ui.uiPath = true := by simp [Ui.matchesPath]
    have elsewhere : docs.ui.uiPath ≠ docs.ui.apiDocPath := fun same => by
      have lengths := congrArg List.length (same.trans (docBelow made tidy below))
      simp at lengths
    rw [Docs.call, respondMatched matched, if_neg elsewhere, if_pos rfl]
  · rw [Ui.handleUiRedirect, valid]
    rfl
  · exact pageAnswered made tidy below embedded
  · have matched : docs.ui.matchesPath docs.ui.apiDocPath = true := by simp [Ui.matchesPath]
    rw [Docs.call, respondMatched matched, if_pos rfl]
  · obtain ⟨files, rfl⟩ := Option.isSome_iff_exists.mp held
    cases docs with
    | reDoc ui => cases among
    | swaggerUi ui options =>
      have base : trimEnd ui.uiPath = ui.uiPath := trimEndSame made tidy below
      change link ∈ (assetsAt (trimEnd ui.uiPath)).links at among
      rw [base] at among
      simp only [assetsAt, Assets.links, List.mem_cons, List.not_mem_nil, or_false] at among
      rcases among with rfl | rfl | rfl | rfl
      · exact ⟨_, _, leads (assetAnswered made tidy below options rfl (by decide) (by decide))⟩
      · exact ⟨_, _, leads (assetAnswered made tidy below options rfl (by decide) (by decide))⟩
      · exact ⟨_, _, leads (assetAnswered made tidy below options rfl (by decide) (by decide))⟩
      · exact ⟨_, _, leads (assetAnswered made tidy below options rfl (by decide) (by decide))⟩

def guide : Docs := .swaggerUi ⟨"/docs".toList, docPath "/docs".toList, "\x7b\x7d".toList⟩ ⟨true⟩

theorem guideMade : Made guide.ui where
  new := rfl
  static := by decide
  lead := by decide

theorem docsServedGuide : ∃ site : Route Docs Unit Unit, ∀ plat order, ∃ state,
    request (T := TowerCompat.plainPayload) none plat order 0 site .get "/docs".toList =
      (guide.call none "/docs".toList).map (GrpcMounts.fill state) := by
  obtain ⟨site, built, _⟩ := intoRouteGrows (M := Unit) (T := TowerCompat.plainPayload) guide (by decide)
  exact ⟨site, fun plat order => (docsServed built guideMade none plat order 0 .get "/docs".toList).1⟩

theorem docsLinksLeadGuide : ∃ site : Route Docs Unit Unit, ∀ plat order,
    Answered (request (T := TowerCompat.plainPayload) none plat order 0 site .get "/docs".toList) 301 (location, "/docs/".toList) .none := by
  obtain ⟨site, built, _⟩ := intoRouteGrows (M := Unit) (T := TowerCompat.plainPayload) guide (by decide)
  exact ⟨site, fun plat order => (docsLinksLead built guideMade (by decide) (by decide) none plat order 0).1⟩

end Silent.DocsPages
