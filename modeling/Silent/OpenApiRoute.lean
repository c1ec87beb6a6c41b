import Mathlib.Data.List.DropRight
import Silent.RouteShape
import Silent.TextScan

/-! The OpenAPI document of a route tree, from `silent-openapi`. A walk over the tree makes
an operation for every handler it meets; the key of its path and its path parameters are
both read off the text of the whole path again. What the registries hold for a handler, and
the order in which a handler map is visited, are given from outside. -/
namespace Silent.OpenApiRoute
open ByteText PathSegment HttpRequest RouteBuilder TextScan

structure DocMeta where
  summary : Option Text
  description : Option Text
  deprecated : Bool
  tags : List Text

inductive ResponseMeta where
  | textPlain
  | json (typeName : Text)

structure ExtraResponse where
  status : Nat
  description : Text

inductive RequestMeta where
  | jsonBody (typeName : Text)
  | formBody (typeName : Text)
  | queryParams (typeName : Text)

-- The registries of `doc.rs`, which know a handler by its address, and `type_name_of_val`.
structure Registry (H M : Type) where
  doc : H → Option DocMeta
  response : H → Option ResponseMeta
  request : H → Option (List RequestMeta)
  extraResponses : H → Option (List ExtraResponse)
  typeName : M → Text

structure EntryOrder (H : Type) where
  visit : HashMap Method H → List (Method × H)
  all : ∀ map, (visit map).Perm (map.entries.map (fun entry => (entry.1, entry.2)))

inductive SchemaType where
  | integer | number | boolean | string | object
  deriving DecidableEq

inductive Schema where
  | plain (schemaType : SchemaType) (format : Option Text)
  | ref (typeName : Text)
  deriving DecidableEq

structure Response where
  description : Text
  content : Option (Text × Schema)
  deriving DecidableEq

inductive ParameterIn where
  | query
  | path
  deriving DecidableEq

structure Parameter where
  name : Text
  parameterIn : ParameterIn
  required : Bool
  schema : Schema
  deriving DecidableEq

structure RequestBody where
  contentType : Text
  schema : Schema
  required : Bool

structure Operation where
  summary : Text
  description : Text
  operationId : Text
  deprecated : Bool
  tags : Option (List Text)
  responses : HashMap Text Response
  requestBody : Option RequestBody
  parameters : List Parameter

structure PathItem where
  get : Option Operation
  post : Option Operation
  put : Option Operation
  delete : Option Operation
  patch : Option Operation
  head : Option Operation
  options : Option Operation
  trace : Option Operation

def asStr : Method → Text
  | .get => "GET".toList
  | .post => "POST".toList
  | .put => "PUT".toList
  | .delete => "DELETE".toList
  | .head => "HEAD".toList
  | .options => "OPTIONS".toList
  | .connect => "CONNECT".toList
  | .patch => "PATCH".toList
  | .trace => "TRACE".toList
  | .extension name => name

def contains (needle s : Text) : Bool := decide (needle <:+: s)

def dedupByKey : List ExtraResponse → List ExtraResponse
  | [] => []
  | [r] => [r]
  | r :: next :: rest => if r.status = next.status then dedupByKey (r :: rest) else r :: dedupByKey (next :: rest)
termination_by responses => responses.length

def inferMiddlewareResponses {M : Type} (typeName : M → Text) (middlewares : List M) : List ExtraResponse :=
  dedupByKey (middlewares.flatMap (fun mw =>
    (if contains "RateLimiter".toList (typeName mw) || contains "rate_limiter".toList (typeName mw) then
      [⟨429, "Too Many Requests".toList⟩] else []) ++
    (if contains "Auth".toList (typeName mw) || contains "auth".toList (typeName mw) then
      [⟨401, "Unauthorized".toList⟩] else []) ++
    (if contains "Timeout".toList (typeName mw) || contains "timeout".toList (typeName mw) then
      [⟨408, "Request Timeout".toList⟩] else [])))

def rustTypeToSchema (typeHint : Text) : Schema :=
  if typeHint ∈ ["i8", "i16", "i32", "u8", "u16", "u32"].map String.toList then .plain .integer (some "int32".toList)
  else if typeHint ∈ ["i64", "u64", "i128", "u128", "isize", "usize"].map String.toList then
    .plain .integer (some "int64".toList)
  else if typeHint = "f32".toList then .plain .number (some "float".toList)
  else if typeHint = "f64".toList then .plain .number (some "double".toList)
  else if typeHint = "bool".toList then .plain .boolean none
  else .plain .string none

def firstMatch (result : Text) : Option Text :=
  if '<' ∈ result ∧ '>' ∈ (splitFirst '<' result).2 then
    some ('<' :: ((splitFirst '>' (splitFirst '<' result).2).1 ++ ['>']))
  else none

def paramName (fullMatch : Text) : Text := (splitFirst ':' (fullMatch.drop 1)).1

-- One round of the loop of `convert_path_format`; `none` is its `break` or its end.
def convertOne (result : Text) : Option Text :=
  match firstMatch result with
  | none => none
  | some fullMatch =>
      if ':' ∈ fullMatch then some (replaceAll fullMatch ('{' :: (paramName fullMatch ++ ['}'])) result) else none

theorem firstMatchShape {result fullMatch : Text} (found : firstMatch result = some fullMatch) :
    ∃ before body after, result = before ++ (fullMatch ++ after) ∧ fullMatch = '<' :: (body ++ ['>']) ∧ '>' ∉ body := by
  unfold firstMatch at found
  split at found
  · rename_i both
    cases Option.some.inj found
    obtain ⟨opened, _⟩ := splitFirstAt both.1
    obtain ⟨closed, fresh⟩ := splitFirstAt both.2
    refine ⟨(splitFirst '<' result).1, (splitFirst '>' (splitFirst '<' result).2).1,
      (splitFirst '>' (splitFirst '<' result).2).2, ?_, rfl, fresh⟩
    calc result = (splitFirst '<' result).1 ++ '<' :: (splitFirst '<' result).2 := opened
      _ = _ := by
        conv_lhs => rw [closed]
        simp
  · contradiction

theorem convertOneShorter {result next : Text} (converted : convertOne result = some next) :
    next.count '>' < result.count '>' := by
  unfold convertOne at converted
  split at converted
  · contradiction
  · rename_i fullMatch found
    split at converted
    · rename_i colon
      cases Option.some.inj converted
      obtain ⟨before, body, after, whole, shape, fresh⟩ := firstMatchShape found
      have inBody : ':' ∈ body := by simpa [shape] using colon
      obtain ⟨parted, _⟩ := splitFirstAt inBody
      have name : paramName fullMatch = (splitFirst ':' body).1 := by
        have cut := splitFirstAppend (splitFirstPlain ':' body) ((splitFirst ':' body).2 ++ ['>'])
        rw [paramName, shape, List.drop_succ_cons, List.drop_zero]
        conv_lhs => rw [parted]
        rw [List.append_assoc, List.cons_append, cut]
      have none_ : '>' ∉ paramName fullMatch := by
        rw [name]
        intro inside
        exact fresh (parted ▸ List.mem_append_left _ inside)
      have fewer : ('{' :: (paramName fullMatch ++ ['}'])).count '>' < fullMatch.count '>' := by
        have zero := List.count_eq_zero.mpr none_
        have positive : 0 < fullMatch.count '>' := List.count_pos_iff.mpr (by rw [shape]; simp)
        simpa [List.count_append, zero] using positive
      exact (replaceCount fewer result).2 ⟨before, after, by rw [List.append_assoc]; exact whole.symm⟩
    · contradiction

def convertLoop (result : Text) : Text :=
  match _next : convertOne result with
  | none => result
  | some next => convertLoop next
termination_by result.count '>'
decreasing_by exact convertOneShorter _next

theorem convertStops {text : Text} (stops : convertOne text = none) : convertLoop text = text := by
  rw [convertLoop]
  split
  · rfl
  · rename_i next goes
    cases stops.symm.trans goes

theorem convertGoes {text next : Text} (goes : convertOne text = some next) : convertLoop text = convertLoop next := by
  rw [convertLoop]
  split
  · rename_i stops
    cases goes.symm.trans stops
  · rename_i other same
    rw [Option.some.inj (goes.symm.trans same)]

def convertPathFormat (silentPath : Text) : Text :=
  convertLoop (if silentPath = [] then ['/'] else if silentPath.head? = some '/' then silentPath else '/' :: silentPath)

def parameterOf (name typeHint : Text) : Parameter := ⟨name, .path, true, rustTypeToSchema typeHint⟩

-- `<name:type>`, and if there is none with a name then `{name}`.
def silentParameters (path : Text) : List Parameter :=
  (between '<' '>' path).filterMap (fun inner =>
    if (splitFirst ':' inner).1 = [] then none
    else some (parameterOf (splitFirst ':' inner).1 (splitFirst ':' inner).2))

def braceParameters (path : Text) : List Parameter := (between '{' '}' path).map (parameterOf · "String".toList)

def pathParameters (path : Text) : List Parameter :=
  if silentParameters path = [] then braceParameters path else silentParameters path

def queryParameters (reqMeta : List RequestMeta) : List Parameter :=
  reqMeta.filterMap (fun
    | .queryParams typeName => some ⟨typeName, .query, false, .ref typeName⟩
    | _ => none)

def requestBodyOf (reqMeta : List RequestMeta) : Option RequestBody :=
  (reqMeta.filterMap (fun
    | .jsonBody typeName => some (RequestBody.mk "application/json".toList (.ref typeName) true)
    | .formBody typeName => some (RequestBody.mk "application/x-www-form-urlencoded".toList (.ref typeName) true)
    | .queryParams _ => none)).getLast?

def isAsciiAlphanumeric (c : Char) : Bool :=
  'a' ≤ c && c ≤ 'z' || 'A' ≤ c && c ≤ 'Z' || '0' ≤ c && c ≤ '9'

def sanitizedPath (path : Text) : Text := path.map (fun c => if isAsciiAlphanumeric c then c else '_')

def trimMatches (c : Char) (s : Text) : Text := (s.dropWhile (· = c)).rdropWhile (· = c)

def operationIdOf (method : Method) (path : Text) : Text :=
  trimMatches '_' ((asStr method).map Char.toLower ++ '_' :: sanitizedPath path)

def okResponse (resp : Option ResponseMeta) : Response :=
  ⟨"Successful response".toList,
    resp.map (fun
      | .textPlain => ("text/plain".toList, .plain .object none)
      | .json typeName => ("application/json".toList, .ref typeName))⟩

def createOperationWithDoc (method : Method) (path : Text) (doc : Option DocMeta) (resp : Option ResponseMeta)
    (reqMeta : Option (List RequestMeta)) (extraResp : Option (List ExtraResponse)) (parentTags : List Text) : Operation where
  summary := (doc.bind (·.summary)).getD (asStr method ++ ' ' :: path)
  description := (doc.bind (·.description)).getD ("Handler for ".toList ++ asStr method ++ ' ' :: path)
  operationId := operationIdOf method path
  deprecated := (doc.map (·.deprecated)).getD false
  tags :=
    let customTags := (doc.map (·.tags)).getD []
    if customTags ≠ [] then some customTags
    else if parentTags ≠ [] then some parentTags
    else ((path.splitOnP (· = '/')).find? (· ≠ [])).map ([·])
  responses := (extraResp.getD []).foldl
    (fun responses er => responses.insert (toString er.status).toList ⟨er.description, none⟩)
    ((∅ : HashMap Text Response).insert "200".toList (okResponse resp))
  requestBody := requestBodyOf (reqMeta.getD [])
  parameters := queryParameters (reqMeta.getD []) ++ pathParameters path

def PathItem.empty : PathItem := ⟨none, none, none, none, none, none, none, none⟩

def createOrUpdatePathItem (method : Method) (operation : Operation) : PathItem :=
  match method with
  | .get => {PathItem.empty with get := some operation}
  | .post => {PathItem.empty with post := some operation}
  | .put => {PathItem.empty with put := some operation}
  | .delete => {PathItem.empty with delete := some operation}
  | .patch => {PathItem.empty with patch := some operation}
  | .head => {PathItem.empty with head := some operation}
  | .options => {PathItem.empty with options := some operation}
  | .trace => {PathItem.empty with trace := some operation}
  | .connect | .extension _ => PathItem.empty

def mergePathItems (item1 item2 : PathItem) : PathItem where
  get := item1.get.or item2.get
  post := item1.post.or item2.post
  put := item1.put.or item2.put
  delete := item1.delete.or item2.delete
  patch := item1.patch.or item2.patch
  head := item1.head.or item2.head
  options := item1.options.or item2.options
  trace := item1.trace.or item2.trace

abbrev Paths := List (Text × PathItem)

def addPath (paths : Paths) (openapiPath : Text) (pathItem : PathItem) : Paths :=
  match paths.findIdx? (·.1 = openapiPath) with
  | some idx => paths.modify idx (fun existing => (existing.1, mergePathItems existing.2 pathItem))
  | none => paths ++ [(openapiPath, pathItem)]

def fullPath (currentPath path : Text) : Text :=
  if currentPath = [] then path
  else if path = [] then currentPath
  else currentPath.rdropWhile (· = '/') ++ '/' :: path.dropWhile (· = '/')

def currentTags (parentTags : List Text) (path : Text) : List Text :=
  let seg := trimMatches '/' path
  if seg ≠ [] ∧ seg.head? ≠ some '<' ∧ seg.head? ≠ some '{' ∧ seg ∉ parentTags then parentTags ++ [seg] else parentTags

section
variable {H M V : Type} (reg : Registry H M) (order : EntryOrder H)

def extraResponsesOf (route : Route H M V) (handler : H) : Option (List ExtraResponse) :=
  let registered := (reg.extraResponses handler).getD []
  let merged := (inferMiddlewareResponses reg.typeName route.middlewares).foldl
    (fun list mw => if list.any (·.status = mw.status) then list else list ++ [mw]) registered
  if merged.isEmpty then none else some merged

def operationOf (route : Route H M V) (path : Text) (tags : List Text) (entry : Method × H) : Operation :=
  createOperationWithDoc entry.1 path (reg.doc entry.2) (reg.response entry.2) (reg.request entry.2)
    (extraResponsesOf reg route entry.2) tags

def collectPathsRecursive (route : Route H M V) (currentPath : Text) (parentTags : List Text) (paths : Paths) : Paths :=
  let path := fullPath currentPath route.path
  let tags := currentTags parentTags route.path
  let here := (order.visit route.handler).foldl
    (fun paths entry =>
      addPath paths (convertPathFormat path) (createOrUpdatePathItem entry.1 (operationOf reg route path tags entry))) paths
  route.children.attach.foldl (fun paths child => collectPathsRecursive child.1 path tags paths) here
termination_by sizeOf route
decreasing_by exact Route.sizeOfChild child.2

def collectOpenapiPaths (route : Route H M V) (basePath : Text) : Paths :=
  collectPathsRecursive reg order route basePath [] []

structure OpenApiDoc where
  title : Text
  version : Text
  description : Option Text
  paths : Paths

def addPaths (doc : OpenApiDoc) (paths : Paths) : OpenApiDoc :=
  {doc with paths := paths.foldl (fun built entry => addPath built entry.1 entry.2) []}

def generateOpenapiDoc (route : Route H M V) (title version : Text) (description : Option Text) : OpenApiDoc :=
  addPaths ⟨title, version, description, []⟩ (collectOpenapiPaths reg order route [])

end

end Silent.OpenApiRoute
