import Silent.DocMarks
import Silent.EndpointMacro
import Silent.Interleaving

/-! The registries of silent-openapi, filled by the handlers of the `endpoint` attribute as the
routes take them, and the document made from them. The registries are process-wide, and each
is locked for one registration at a time: those of several handlers can come in any order. -/
namespace Silent.EndpointDocs
open ByteText HttpRequest RouteBuilder OpenApiRoute OpenApiWalk EndpointMacro Interleaving

variable {H M V B I : Type}

/- `SCHEMA_REGISTRY` has a function for each type that was registered, to be run later. -/
structure Registries (H M B : Type) where
  registry : Registry H M
  schemas : List (ToSchema B)

def start (typeName : M → Text) : Registries H M B :=
  ⟨⟨fun _ => none, fun _ => none, fun _ => none, fun _ => none, typeName⟩, []⟩

section
variable [DecidableEq H]

def registerDocByPtrExt (r : Registry H M) (ptr : H) (summary description : Option Text) (deprecated : Bool) (tags : List Text) :
    Registry H M :=
  {r with doc := Function.update r.doc ptr (some ⟨summary, description, deprecated, tags⟩)}

def registerResponseByPtr (r : Registry H M) (ptr : H) (shape : ResponseMeta) : Registry H M :=
  {r with response := Function.update r.response ptr (some shape)}

def registerExtraResponseByPtr (r : Registry H M) (ptr : H) (extra : ExtraResponse) : Registry H M :=
  {r with extraResponses := Function.update r.extraResponses ptr (some ((r.extraResponses ptr).getD [] ++ [extra]))}

def registerRequestByPtr (r : Registry H M) (ptr : H) (shape : RequestMeta) : Registry H M :=
  {r with request := Function.update r.request ptr (some ((r.request ptr).getD [] ++ [shape]))}

def registerSchemaFor (s : Registries H M B) (type : ToSchema B) : Registries H M B := {s with schemas := s.schemas ++ [type]}

def record (s : Registries H M B) (ptr : H) : Call B → Registries H M B
  | .doc summary description deprecated tags =>
      {s with registry := registerDocByPtrExt s.registry ptr summary description deprecated tags}
  | .schema type => registerSchemaFor s type
  | .response shape => {s with registry := registerResponseByPtr s.registry ptr shape}
  | .extraResponse extra => {s with registry := registerExtraResponseByPtr s.registry ptr extra}
  | .request shape => {s with registry := registerRequestByPtr s.registry ptr shape}

def recorded (typeName : M → Text) (ptr : I → H) (run : List (I × Call B)) : Registries H M B :=
  run.foldl (fun s step => record s (ptr step.1) step.2) (start typeName)

end

def addImpl (components : HashMap Text B) (type : ToSchema B) : HashMap Text B :=
  HashMap.orInsert (type.schemas.foldl (fun components entry => HashMap.orInsert components entry.1 entry.2) components)
    type.name type.schema

def applyRegisteredSchemas (components : Option (HashMap Text B)) (schemas : List (ToSchema B)) : HashMap Text B :=
  schemas.foldl addImpl (components.getD ∅)

structure Document (B : Type) where
  doc : OpenApiDoc
  components : HashMap Text B

def generateOpenapiDoc (s : Registries H M B) (order : EntryOrder H) (route : Route H M V) (title version : Text)
    (description : Option Text) : Document B :=
  ⟨OpenApiRoute.generateOpenapiDoc s.registry order route title version description, applyRegisteredSchemas none s.schemas⟩

def Refers (op : Operation) (name : Text) : Prop :=
  (∃ status res media, op.responses.lookup status = some res ∧ res.content = some (media, .ref name)) ∨
    (∃ body, op.requestBody = some body ∧ body.schema = .ref name) ∨ ∃ p ∈ op.parameters, p.schema = .ref name

/- Every reference of the document leads to a schema of the document; `refs` are those of a schema. -/
structure Closed (refs : B → List Text) (document : Document B) : Prop where
  operations : ∀ key method op, opAt document.doc.paths key method = some op → ∀ name, Refers op name → name ∈ document.components
  schemas : ∀ name body, document.components.lookup name = some body → ∀ other ∈ refs body, other ∈ document.components

theorem contentKept {ok : OpenApiRoute.Response} (extras : List ExtraResponse) {responses : HashMap Text OpenApiRoute.Response}
    (before : ∀ status res c, responses.lookup status = some res → res.content = some c → ok.content = some c) :
    ∀ status res c, (extras.foldl (fun responses er => responses.insert (toString er.status).toList ⟨er.description, none⟩)
      responses).lookup status = some res → res.content = some c → ok.content = some c := by
  induction extras generalizing responses with
  | nil => exact before
  | cons extra extras ih =>
    refine ih fun status res c found content => ?_
    by_cases same : status = (toString extra.status).toList
    · subst same
      rw [AList.lookup_insert] at found
      cases found
      cases content
    · rw [AList.lookup_insert_ne same] at found
      exact before status res c found content

theorem rustTypePlain (typeHint name : Text) : rustTypeToSchema typeHint ≠ .ref name := by
  unfold rustTypeToSchema
  repeat' split
  all_goals nofun

theorem pathPlain {path name : Text} {p : Parameter} (among : p ∈ pathParameters path) : p.schema ≠ .ref name := by
  unfold pathParameters at among
  split at among
  · obtain ⟨inner, _, rfl⟩ := List.mem_map.mp among
    exact rustTypePlain "String".toList name
  · obtain ⟨inner, _, made⟩ := List.mem_filterMap.mp among
    split at made
    · cases made
    · cases made
      exact rustTypePlain _ name

theorem refersFrom {reg : Registry H M} {route : Route H M V} {path : Text} {tags : List Text} {method : Method} {handler : H}
    {name : Text} (refers : Refers (operationOf reg route path tags (method, handler)) name) :
    reg.response handler = some (.json name) ∨ ∃ shape ∈ (reg.request handler).getD [], RequestMeta.typeName shape = name := by
  rcases refers with ⟨status, res, media, found, content⟩ | ⟨body, found, schema⟩ | ⟨p, among, schema⟩
  · left
    have ok : (okResponse (reg.response handler)).content = some (media, .ref name) := by
      refine contentKept _ (fun status res c found content => ?_) status res _ found content
      by_cases same : status = "200".toList
      · subst same
        rw [AList.lookup_insert] at found
        cases found
        exact content
      · rw [AList.lookup_insert_ne same] at found
        cases found
    obtain ⟨shape, registered, shaped⟩ := Option.map_eq_some_iff.mp ok
    cases shape with
    | textPlain => cases shaped
    | json typeName =>
      cases shaped
      exact registered
  · right
    obtain ⟨shape, among, made⟩ := List.mem_filterMap.mp (List.mem_of_getLast? found)
    refine ⟨shape, among, ?_⟩
    cases shape with
    | jsonBody typeName | formBody typeName =>
      cases made
      cases schema
      rfl
    | queryParams typeName => cases made
  · right
    rcases List.mem_append.mp among with query | onPath
    · obtain ⟨shape, among, made⟩ := List.mem_filterMap.mp query
      refine ⟨shape, among, ?_⟩
      cases shape with
      | queryParams typeName =>
        cases made
        cases schema
        rfl
      | jsonBody typeName | formBody typeName => cases made
    · exact absurd schema (pathPlain onPath)

def Named (type : ToSchema B) (name : Text) : Prop := name = type.name ∨ name ∈ type.schemas.map (·.1)

def bodies (type : ToSchema B) : List (Text × B) := type.schemas ++ [(type.name, type.schema)]

theorem addImplBodies (components : HashMap Text B) (type : ToSchema B) :
    addImpl components type = (bodies type).foldl (fun components entry => HashMap.orInsert components entry.1 entry.2) components := by
  rw [bodies, List.foldl_append]
  rfl

theorem applyBodies (components : Option (HashMap Text B)) (schemas : List (ToSchema B)) :
    applyRegisteredSchemas components schemas =
      (schemas.flatMap bodies).foldl (fun components entry => HashMap.orInsert components entry.1 entry.2) (components.getD ∅) := by
  unfold applyRegisteredSchemas
  generalize components.getD ∅ = built
  induction schemas generalizing built with
  | nil => rfl
  | cons type schemas ih => rw [List.foldl_cons, ih, addImplBodies, List.flatMap_cons, List.foldl_append]

theorem orInsertFirst (entries : List (Text × B)) (map : HashMap Text B) (probe : Text) :
    (entries.foldl (fun map entry => HashMap.orInsert map entry.1 entry.2) map).lookup probe =
      (map.lookup probe).or ((entries.find? (·.1 = probe)).map (·.2)) := by
  induction entries generalizing map with
  | nil => simp
  | cons entry entries ih =>
    rw [List.foldl_cons, ih, HashMap.lookupOrInsert, Option.or_assoc]
    by_cases same : entry.1 = probe
    · simp [same]
    · simp [same, Ne.symm same]

theorem componentAt (schemas : List (ToSchema B)) (name : Text) :
    (applyRegisteredSchemas none schemas).lookup name = ((schemas.flatMap bodies).find? (·.1 = name)).map (·.2) := by
  rw [applyBodies, orInsertFirst, Option.getD_none, AList.lookup_empty, Option.none_or]

theorem componentFrom {schemas : List (ToSchema B)} {name : Text} {body : B}
    (found : (applyRegisteredSchemas none schemas).lookup name = some body) : ∃ type ∈ schemas, (name, body) ∈ bodies type := by
  rw [componentAt] at found
  obtain ⟨entry, first, rfl⟩ := Option.map_eq_some_iff.mp found
  obtain ⟨type, among, inside⟩ := List.mem_flatMap.mp (List.mem_of_find?_eq_some first)
  have same : entry.1 = name := by simpa using List.find?_some first
  exact ⟨type, among, same ▸ inside⟩

theorem componentNamed (schemas : List (ToSchema B)) (name : Text) :
    name ∈ applyRegisteredSchemas none schemas ↔ ∃ type ∈ schemas, Named type name := by
  rw [← AList.lookup_isSome, componentAt, Option.isSome_map, List.find?_isSome]
  simp only [List.mem_flatMap, bodies, List.mem_append, List.mem_singleton, decide_eq_true_eq, Named, List.mem_map]
  constructor
  · intro found
    obtain ⟨entry, ⟨type, among, inside⟩, rfl⟩ := found
    rcases inside with nested | rfl
    · exact ⟨type, among, .inr ⟨entry, nested, rfl⟩⟩
    · exact ⟨type, among, .inl rfl⟩
  · intro found
    obtain ⟨type, among, rfl | ⟨entry, nested, rfl⟩⟩ := found
    · exact ⟨_, ⟨type, among, .inr rfl⟩, rfl⟩
    · exact ⟨entry, ⟨type, among, .inl nested⟩, rfl⟩

structure Held where
  doc : Option DocMeta
  response : Option ResponseMeta
  extraResponses : Option (List ExtraResponse)
  request : Option (List RequestMeta)

def Held.empty : Held := ⟨none, none, none, none⟩

def hold (held : Held) : Call B → Held
  | .doc summary description deprecated tags => {held with doc := some ⟨summary, description, deprecated, tags⟩}
  | .schema _ => held
  | .response shape => {held with response := some shape}
  | .extraResponse extra => {held with extraResponses := some (held.extraResponses.getD [] ++ [extra])}
  | .request shape => {held with request := some (held.request.getD [] ++ [shape])}

def seen (s : Registries H M B) (h : H) : Held :=
  ⟨s.registry.doc h, s.registry.response h, s.registry.extraResponses h, s.registry.request h⟩

section
variable [DecidableEq H]

theorem recordSeen (s : Registries H M B) (ptr : H) (call : Call B) : seen (record s ptr call) ptr = hold (seen s ptr) call := by
  cases call <;>
    simp [seen, record, hold, registerDocByPtrExt, registerSchemaFor, registerResponseByPtr, registerExtraResponseByPtr,
      registerRequestByPtr]

theorem recordOthers (s : Registries H M B) {ptr h : H} (other : h ≠ ptr) (call : Call B) : seen (record s ptr call) h = seen s h := by
  cases call <;>
    simp [seen, record, registerDocByPtrExt, registerSchemaFor, registerResponseByPtr, registerExtraResponseByPtr,
      registerRequestByPtr, other]

end

def Call.asSchema : Call B → Option (ToSchema B)
  | .schema type => some type
  | _ => none

theorem recordedSchemas [DecidableEq H] (typeName : M → Text) (ptr : I → H) (run : List (I × Call B)) :
    (recorded typeName ptr run).schemas = run.filterMap (Call.asSchema ·.2) := by
  have folded : ∀ s : Registries H M B, (run.foldl (fun s step => record s (ptr step.1) step.2) s).schemas =
      s.schemas ++ run.filterMap (Call.asSchema ·.2) := by
    induction run with
    | nil => exact fun s => (List.append_nil _).symm
    | cons step run ih =>
      intro s
      rw [List.foldl_cons, ih]
      obtain ⟨i, call⟩ := step
      cases call <;> simp [record, registerSchemaFor, Call.asSchema]
  exact folded _

/- The handlers that are made are the parties; `none` is one that is not of the attribute. -/
def calls (made : I → Option (Endpoint B)) (i : I) : List (Call B) := ((made i).map Endpoint.intoHandler).getD []

theorem callsMem {made : I → Option (Endpoint B)} {i : I} {call : Call B} :
    call ∈ calls made i ↔ ∃ e, made i = some e ∧ call ∈ e.intoHandler := by
  cases found : made i <;> simp [calls, found]

structure From (among : Call B → Prop) (held : Held) : Prop where
  response : ∀ shape, held.response = some shape → among (.response shape)
  request : ∀ shape ∈ held.request.getD [], among (.request shape)

theorem holdFrom {among : Call B → Prop} {held : Held} (source : From among held) {call : Call B} (given : among call) :
    From among (hold held call) := by
  cases call with
  | response shape =>
    refine ⟨fun shape' same => ?_, source.request⟩
    cases same
    exact given
  | request shape =>
    refine ⟨source.response, fun shape' inside => ?_⟩
    rcases List.mem_append.mp inside with before | new
    · exact source.request shape' before
    · rw [List.mem_singleton.mp new]
      exact given
  | doc _ _ _ _ | schema _ | extraResponse _ => exact ⟨source.response, source.request⟩

theorem recordedFrom [DecidableEq H] {among : Call B → Prop} (typeName : M → Text) (ptr : I → H) {run : List (I × Call B)}
    (given : ∀ step ∈ run, among step.2) (h : H) : From among (seen (recorded typeName ptr run) h) := by
  have folded : ∀ s : Registries H M B, From among (seen s h) →
      From among (seen (run.foldl (fun s step => record s (ptr step.1) step.2) s) h) := by
    induction run with
    | nil => exact fun _ source => source
    | cons step run ih =>
      intro s source
      refine ih (fun later inside => given later (List.mem_cons_of_mem _ inside)) _ ?_
      by_cases here : h = ptr step.1
      · rw [here, recordSeen]
        exact holdFrom (here ▸ source) (given step List.mem_cons_self)
      · rw [recordOthers s here]
        exact source
  exact folded (start typeName) ⟨nofun, nofun⟩

/- The types in the signature are named in the document as they are written, and come with the
schemas of the types they refer to. -/
structure Spelled (refs : B → List Text) (e : Endpoint B) : Prop where
  name : ∀ ty ∈ e.types, ∀ ident, ty.ident = some ident → (e.schemaOf ty).name = ident
  whole : ∀ ty ∈ e.types, ∀ entry ∈ bodies (e.schemaOf ty), ∀ other ∈ refs entry.2, Named (e.schemaOf ty) other

/- In whatever order the handlers of any number of endpoints register, and at whatever addresses,
no reference of the document leads nowhere. -/
theorem documentCloses [DecidableEq H] [DecidableEq I] (refs : B → List Text) (made : I → Option (Endpoint B)) (ptr : I → H)
    {run : List (I × Call B)} (merges : Merges (calls made) run) (spelled : ∀ i e, made i = some e → Spelled refs e)
    (typeName : M → Text) (order : EntryOrder H) (route : Route H M V) (title version : Text) (description : Option Text) :
    Closed refs (generateOpenapiDoc (recorded typeName ptr run) order route title version description) := by
  have types {type : ToSchema B} : type ∈ (recorded typeName ptr run : Registries H M B).schemas ↔
      ∃ i e, made i = some e ∧ ∃ ty ∈ e.types, type = e.schemaOf ty := by
    rw [recordedSchemas, List.mem_filterMap]
    constructor
    · intro found
      obtain ⟨⟨i, call⟩, inside, schema⟩ := found
      cases call with
      | schema type' =>
        cases schema
        obtain ⟨e, here, called⟩ := callsMem.mp ((mergesMem merges i _).mp inside)
        exact ⟨i, e, here, (Endpoint.schemaCalls e type).mp called⟩
      | doc _ _ _ _ | response _ | extraResponse _ | request _ => cases schema
    · intro found
      obtain ⟨i, e, here, signed⟩ := found
      exact ⟨(i, .schema type), (mergesMem merges i _).mpr (callsMem.mpr ⟨e, here, (Endpoint.schemaCalls e type).mpr signed⟩), rfl⟩
  have leads {i : I} {e : Endpoint B} {ty : Ty} {name : Text} (here : made i = some e) (signed : ty ∈ e.types)
      (named : ty.ident = some name) : name ∈ applyRegisteredSchemas none (recorded typeName ptr run : Registries H M B).schemas :=
    (componentNamed _ name).mpr ⟨e.schemaOf ty, types.mpr ⟨i, e, here, ty, signed, rfl⟩,
      .inl ((spelled i e here).name ty signed name named).symm⟩
  constructor
  · intro key method op there name refers
    rw [generateOpenapiDoc, DocMarks.generatedAt] at there
    obtain ⟨entry, first, rfl⟩ := Option.map_eq_some_iff.mp there
    obtain ⟨_, node, _, _, _, handler, tags, made_⟩ := entryNode _ order (List.mem_of_find?_eq_some first)
    rw [made_] at refers
    have source : From (fun call => ∃ i, call ∈ calls made i) (seen (recorded typeName ptr run) handler) :=
      recordedFrom typeName ptr (fun step inside => ⟨step.1, (mergesMem merges step.1 step.2).mp inside⟩) handler
    rcases refersFrom refers with response | ⟨shape, asked, rfl⟩
    · obtain ⟨i, called⟩ := source.response _ response
      obtain ⟨e, here, called⟩ := callsMem.mp called
      obtain ⟨ty, signed, named⟩ := Endpoint.responseCall called
      exact leads here signed named
    · obtain ⟨i, called⟩ := source.request shape asked
      obtain ⟨e, here, called⟩ := callsMem.mp called
      obtain ⟨ty, signed, named⟩ := Endpoint.requestCall called
      exact leads here signed named
  · intro name body there other inside
    obtain ⟨type, registered, entry⟩ := componentFrom there
    obtain ⟨i, e, here, ty, signed, rfl⟩ := types.mp registered
    exact (componentNamed _ other).mpr ⟨_, registered, (spelled i e here).whole ty signed _ entry other inside⟩

def declarations (e : Endpoint B) : Held where
  doc := some ⟨e.summary, e.description, (readArgs e.args).deprecated, (readArgs e.args).tags⟩
  response := retMeta e.output
  extraResponses := if (readArgs e.args).extraResponses = [] then none else some (readArgs e.args).extraResponses
  request := e.request.map ([·.1])

theorem holdExtras (extras : List ExtraResponse) (held : Held) :
    (extras.map Call.extraResponse).foldl (hold (B := B)) held =
      if extras = [] then held else {held with extraResponses := some (held.extraResponses.getD [] ++ extras)} := by
  induction extras generalizing held with
  | nil => rfl
  | cons extra extras ih =>
    rw [List.map_cons, List.foldl_cons, ih]
    cases extras <;> simp [hold]

theorem holdDeclarations (e : Endpoint B) : e.intoHandler.foldl hold Held.empty = declarations e := by
  unfold Endpoint.intoHandler declarations
  rw [List.foldl_cons, List.foldl_append, List.foldl_append, List.foldl_append, holdExtras]
  cases retSchemaRegister e.output <;> cases retMeta e.output <;> cases e.request <;>
    cases (readArgs e.args).extraResponses <;> simp [hold, Held.empty]

theorem recordedSeen [DecidableEq H] {made : H → Option (Endpoint B)} {run : List (H × Call B)} (merges : Merges (calls made) run)
    (typeName : M → Text) (h : H) :
    seen (recorded typeName id run) h = ((made h).map declarations).getD Held.empty := by
  have whole : seen (run.foldl (fun s step => record s step.1 step.2) (start typeName : Registries H M B)) h =
      (own h run).foldl hold Held.empty :=
    foldOwn (seen · h) (fun s call => recordSeen s h call) (fun s ptr call other => recordOthers s (Ne.symm other) call) run _
  change seen (run.foldl (fun s step => record s step.1 step.2) (start typeName : Registries H M B)) h = _
  rw [whole, merges h, calls]
  cases made h with
  | none => rfl
  | some e => exact holdDeclarations e

theorem statusText {a b : Nat} : (toString a).toList = (toString b).toList ↔ a = b := by
  constructor
  · intro same
    have digits : Nat.toDigits 10 a = Nat.toDigits 10 b := by simpa [Nat.toString_eq_repr, Nat.toList_repr] using same
    rw [← Nat.ofDigitChars_ten_toDigits (n := a), digits, Nat.ofDigitChars_ten_toDigits]
  · rintro rfl
    rfl

theorem insertedAt (extras : List ExtraResponse) (responses : HashMap Text OpenApiRoute.Response) (status : Nat) :
    (extras.foldl (fun responses er => responses.insert (toString er.status).toList ⟨er.description, none⟩) responses).lookup
        (toString status).toList =
      ((extras.reverse.find? (·.status = status)).map fun er => ⟨er.description, none⟩).or
        (responses.lookup (toString status).toList) := by
  induction extras generalizing responses with
  | nil => rfl
  | cons extra extras ih =>
    rw [List.foldl_cons, ih, List.reverse_cons, List.find?_append]
    cases later : extras.reverse.find? (·.status = status) with
    | some er => rfl
    | none =>
      by_cases same : extra.status = status
      · subst same
        rw [AList.lookup_insert]
        simp
      · have apart : (toString status).toList ≠ (toString extra.status).toList := fun text => same (statusText.mp text).symm
        rw [AList.lookup_insert_ne apart]
        simp [same]

theorem dedupAmong (responses : List ExtraResponse) : ∀ er ∈ dedupByKey responses, er ∈ responses := by
  fun_induction dedupByKey responses with
  | case1 => exact fun _ among => among
  | case2 r => exact fun _ among => among
  | case3 r next rest same ih =>
    intro er among
    rcases List.mem_cons.mp (ih er among) with rfl | later
    · exact List.mem_cons_self
    · exact List.mem_cons_of_mem _ (List.mem_cons_of_mem _ later)
  | case4 r next rest other ih =>
    intro er among
    rcases List.mem_cons.mp among with rfl | later
    · exact List.mem_cons_self
    · exact List.mem_cons_of_mem _ (ih er later)

theorem onlyNamed {c : Prop} [Decidable c] {er response : ExtraResponse} (named : er ∈ if c then [response] else []) :
    er = response := by
  split at named
  · exact List.mem_singleton.mp named
  · cases named

theorem inferredStatus {typeName : M → Text} {middlewares : List M} {er : ExtraResponse}
    (inferred : er ∈ inferMiddlewareResponses typeName middlewares) : er.status ≠ 200 := by
  obtain ⟨mw, _, named⟩ := List.mem_flatMap.mp (dedupAmong _ er inferred)
  simp only [List.mem_append] at named
  rcases named with (limited | authorized) | late
  · rw [onlyNamed limited]
    decide
  · rw [onlyNamed authorized]
    decide
  · rw [onlyNamed late]
    decide

theorem mergedExtras (inferred registered : List ExtraResponse) (fine : ∀ er ∈ inferred, er.status ≠ 200) :
    ∃ added, inferred.foldl (fun list mw => if list.any (·.status = mw.status) then list else list ++ [mw]) registered =
        registered ++ added ∧ ∀ er ∈ added, er.status ≠ 200 ∧ ∀ other ∈ registered, other.status ≠ er.status := by
  induction inferred generalizing registered with
  | nil => exact ⟨[], (List.append_nil _).symm, nofun⟩
  | cons mw inferred ih =>
    have rest := fun er among => fine er (List.mem_cons_of_mem _ among)
    rw [List.foldl_cons]
    split
    · exact ih registered rest
    · rename_i free
      obtain ⟨added, whole, apart⟩ := ih (registered ++ [mw]) rest
      refine ⟨mw :: added, by rw [whole, List.append_assoc, List.singleton_append], fun er among => ?_⟩
      rcases List.mem_cons.mp among with rfl | later
      · refine ⟨fine _ List.mem_cons_self, fun other inside same => free ?_⟩
        exact List.any_eq_true.mpr ⟨other, inside, decide_eq_true same⟩
      · exact ⟨(apart er later).1, fun other inside => (apart er later).2 other (List.mem_append_left _ inside)⟩

theorem entryHandler {reg : Registry H M} {order : EntryOrder H} {route : Route H M V} {currentPath : Text} {parentTags : List Text}
    {entry : Entry} (mem : entry ∈ entries reg order route currentPath parentTags) : ∃ segs node, (segs, node) ∈ nodes route ∧
      entry.path = segs.foldl fullPath currentPath ∧ ∃ handler, node.handler.lookup entry.method = some handler ∧
      ∃ tags, entry.operation = operationOf reg node entry.path tags (entry.method, handler) := by
  induction route using RouteShape.childInduction generalizing currentPath parentTags with
  | step route ih =>
    rw [entriesEq, List.mem_append, List.mem_map, List.mem_flatMap] at mem
    rcases mem with ⟨⟨method, handler⟩, among, rfl⟩ | ⟨child, inside, below⟩
    · have held : route.handler.lookup method = some handler := by
        obtain ⟨⟨method', handler'⟩, there, same⟩ := List.mem_map.mp ((order.all _).mem_iff.mp among)
        cases same
        exact AList.mem_lookup_iff.mpr there
      exact ⟨[route.path], route, memNodes.mpr (.inl ⟨rfl, rfl⟩), rfl, handler, held, _, rfl⟩
    · obtain ⟨segs, node, there, path, rest⟩ := ih child inside below
      exact ⟨route.path :: segs, node, memNodes.mpr (.inr ⟨child, inside, segs, there, rfl⟩), path, rest⟩

/- What the attribute says of its handler, as the document says it of an operation. -/
structure Speaks (e : Endpoint B) (method : Method) (path : Text) (op : Operation) : Prop where
  summary : op.summary = e.summary.getD (asStr method ++ ' ' :: path)
  description : op.description = e.description.getD ("Handler for ".toList ++ asStr method ++ ' ' :: path)
  deprecated : op.deprecated = (readArgs e.args).deprecated
  tags : (readArgs e.args).tags ≠ [] → op.tags = some (readArgs e.args).tags
  extra : ∀ er ∈ (readArgs e.args).extraResponses, ∃ last ∈ (readArgs e.args).extraResponses, last.status = er.status ∧
    op.responses.lookup (toString er.status).toList = some ⟨last.description, none⟩
  ok : (∀ er ∈ (readArgs e.args).extraResponses, er.status ≠ 200) →
    op.responses.lookup "200".toList = some (okResponse (retMeta e.output))
  body : op.requestBody = requestBodyOf (e.request.map (·.1)).toList
  parameters : op.parameters = queryParameters (e.request.map (·.1)).toList ++ pathParameters path

theorem heldSpeaks {s : Registries H M B} {handler : H} {e : Endpoint B} (held : seen s handler = declarations e)
    (node : Route H M V) (path : Text) (tags : List Text) (method : Method) :
    Speaks e method path (operationOf s.registry node path tags (method, handler)) := by
  have doc : s.registry.doc handler = _ := congrArg Held.doc held
  have response : s.registry.response handler = _ := congrArg Held.response held
  have request : s.registry.request handler = _ := congrArg Held.request held
  have extras : (s.registry.extraResponses handler).getD [] = (readArgs e.args).extraResponses := by
    have given : s.registry.extraResponses handler = _ := congrArg Held.extraResponses held
    rw [given, declarations]
    split
    · rename_i none_
      exact none_.symm
    · rfl
  have asked : (s.registry.request handler).getD [] = (e.request.map (·.1)).toList := by
    rw [request, declarations]
    cases e.request <;> rfl
  obtain ⟨added, merged, apart⟩ := mergedExtras (inferMiddlewareResponses s.registry.typeName node.middlewares)
    (readArgs e.args).extraResponses (fun er inferred => inferredStatus inferred)
  have listed : (extraResponsesOf s.registry node handler).getD [] = (readArgs e.args).extraResponses ++ added := by
    rw [extraResponsesOf, extras, merged]
    split
    · rename_i none_
      rw [List.isEmpty_iff.mp none_]
      rfl
    · rfl
  have responses (status : Nat) : (operationOf s.registry node path tags (method, handler)).responses.lookup (toString status).toList =
      ((((readArgs e.args).extraResponses ++ added).reverse.find? (·.status = status)).map fun er => ⟨er.description, none⟩).or
        (((∅ : HashMap Text OpenApiRoute.Response).insert "200".toList (okResponse (retMeta e.output))).lookup (toString status).toList) := by
    rw [operationOf, createOperationWithDoc, listed, response, insertedAt]
    rfl
  constructor
  · rw [operationOf, createOperationWithDoc, doc]
    rfl
  · rw [operationOf, createOperationWithDoc, doc]
    rfl
  · rw [operationOf, createOperationWithDoc, doc]
    rfl
  · intro custom
    rw [operationOf, createOperationWithDoc, doc]
    exact if_pos custom
  · intro er inside
    have missed : added.reverse.find? (·.status = er.status) = none :=
      List.find?_eq_none.mpr fun other new => by simpa [eq_comm] using (apart other (List.mem_reverse.mp new)).2 er inside
    have found : ((readArgs e.args).extraResponses.reverse.find? (·.status = er.status)).isSome :=
      List.find?_isSome.mpr ⟨er, List.mem_reverse.mpr inside, decide_eq_true rfl⟩
    obtain ⟨last, first⟩ := Option.isSome_iff_exists.mp found
    refine ⟨last, List.mem_reverse.mp (List.mem_of_find?_eq_some first), by simpa using List.find?_some first, ?_⟩
    rw [responses, List.reverse_append, List.find?_append, missed, Option.none_or, first]
    rfl
  · intro free
    have missed : ((readArgs e.args).extraResponses ++ added).reverse.find? (·.status = 200) = none := by
      refine List.find?_eq_none.mpr fun other inside => ?_
      rcases List.mem_append.mp (List.mem_reverse.mp inside) with registered | new
      · simpa using free other registered
      · simpa using (apart other new).1
    have ok := responses 200
    rw [missed, Option.map_none, Option.none_or] at ok
    exact ok.trans (AList.lookup_insert _)
  · rw [operationOf, createOperationWithDoc, asked]
  · rw [operationOf, createOperationWithDoc, asked]

/- However the registrations of the handlers come between each other, the document has an
operation wherever the tree has a handler, and each of its operations says what the attribute of
a handler that is there says. -/
theorem documentSpeaks [DecidableEq H] (made : H → Option (Endpoint B)) {run : List (H × Call B)} (merges : Merges (calls made) run)
    (typeName : M → Text) (order : EntryOrder H) (route : Route H M V) (title version : Text) (description : Option Text) :
    let paths := (generateOpenapiDoc (recorded typeName id run) order route title version description).doc.paths
    (∀ segs node method, (segs, node) ∈ nodes route → method ∈ node.handler → standard method = true →
      ∃ op, opAt paths (convertPathFormat (segs.foldl fullPath [])) method = some op) ∧
    ∀ key method op, opAt paths key method = some op → ∃ segs node handler, (segs, node) ∈ nodes route ∧
      node.handler.lookup method = some handler ∧ convertPathFormat (segs.foldl fullPath []) = key ∧
      ∀ e, made handler = some e → Speaks e method (segs.foldl fullPath []) op := by
  simp only [generateOpenapiDoc, DocMarks.generatedAt]
  constructor
  · intro segs node method inside handled known
    obtain ⟨entry, among, path, rfl⟩ := nodeEntry (recorded typeName id run : Registries H M B).registry order [] [] inside handled
    have found : ((entries (recorded typeName id run : Registries H M B).registry order route [] []).find?
        (served (convertPathFormat (segs.foldl fullPath [])) entry.method)).isSome :=
      List.find?_isSome.mpr ⟨entry, among, by simp [served, known, path]⟩
    obtain ⟨first, at_⟩ := Option.isSome_iff_exists.mp found
    exact ⟨first.operation, by rw [at_, Option.map_some]⟩
  · intro key method op there
    obtain ⟨entry, first, rfl⟩ := Option.map_eq_some_iff.mp there
    obtain ⟨segs, node, inside, path, handler, held, tags, operation⟩ := entryHandler (List.mem_of_find?_eq_some first)
    have found := List.find?_some first
    simp only [served, Bool.and_eq_true, decide_eq_true_eq] at found
    obtain ⟨⟨_, rfl⟩, keyed⟩ := found
    refine ⟨segs, node, handler, inside, held, path ▸ keyed, fun e here => ?_⟩
    rw [operation, path]
    refine heldSpeaks ?_ node _ tags entry.method
    rw [recordedSeen merges, here]
    rfl

def createUser : Endpoint (List Text) where
  args := [.summary "Create a user".toList, .response [.status 400, .description "Bad request".toList]]
  attrs := [.comment " Creates a user.".toList]
  inputs := [.typed (.generic [] "Json".toList (.plain [] "UserInput".toList))]
  output := some (.generic [] "Result".toList (.plain [] "User".toList))
  schemaOf ty :=
    if ty.ident = some "User".toList then ⟨"User".toList, ["Address".toList], [("Address".toList, [])]⟩
    else ⟨ty.ident.getD [], [], []⟩
  mounts := by decide

def ping : Endpoint (List Text) where
  args := [.tags "ops, health".toList]
  attrs := []
  inputs := [.typed (.plain "silent".toList "Request".toList)]
  output := some (.generic [] "Result".toList (.plain [] "String".toList))
  schemaOf ty := ⟨ty.ident.getD [], [], []⟩
  mounts := by decide

theorem createUserTypes : createUser.types = [.plain [] "User".toList, .plain [] "UserInput".toList] := by decide

instance (type : ToSchema B) (name : Text) : Decidable (Named type name) := inferInstanceAs (Decidable (_ ∨ _))

theorem createUserSpelled : Spelled id createUser := by
  constructor
  · rw [createUserTypes]
    decide
  · rw [createUserTypes]
    decide

theorem pingSpelled : Spelled id ping := by
  have none_ : ping.types = [] := by decide
  constructor <;> rw [none_] <;> nofun

def both (first : Bool) : Option (Endpoint (List Text)) := some (if first then createUser else ping)

def taken : List (Bool × Call (List Text)) :=
  ((calls both false).take 1).map (false, ·) ++ ((calls both true).map (true, ·) ++ ((calls both false).drop 1).map (false, ·))

theorem takenMerges : Merges (calls both) taken := by
  intro i
  rw [taken, ownAppend, ownAppend, ownSteps, ownSteps, ownSteps]
  cases i
  · exact List.take_append_drop 1 (calls both false)
  · exact List.append_nil _

open OpenApiPaths in
theorem takenCloses : Closed id (generateOpenapiDoc (recorded (fun _ : Unit => ([] : Text)) (fun _ => ()) taken) inOrder
    (lone "users".toList) "API".toList "1.0.0".toList none) := by
  refine documentCloses id both (fun _ => ()) takenMerges (fun i e here => ?_) (fun _ : Unit => ([] : Text)) inOrder
    (lone "users".toList) "API".toList "1.0.0".toList none
  cases i <;> cases here
  · exact pingSpelled
  · exact createUserSpelled

open OpenApiPaths in
theorem userSpeaks : ∃ op, opAt (generateOpenapiDoc (recorded (fun _ : Unit => ([] : Text)) id
      ((calls (fun _ : Unit => some createUser) ()).map ((), ·))) inOrder (lone "users".toList) "API".toList "1.0.0".toList
      none).doc.paths "/users".toList .get = some op ∧ op.summary = "Create a user".toList := by
  have merges : Merges (calls (fun _ : Unit => some createUser)) ((calls (fun _ : Unit => some createUser) ()).map ((), ·)) :=
    fun i => by rw [ownSteps, if_pos rfl]
  obtain ⟨every, spoken⟩ := documentSpeaks (fun _ : Unit => some createUser) merges (fun _ : Unit => ([] : Text)) inOrder
    (lone "users".toList) "API".toList "1.0.0".toList none
  have node : (["users".toList], lone "users".toList) ∈ nodes (lone "users".toList) := by
    rw [loneNodes (by decide)]
    exact List.mem_singleton_self _
  have key : convertPathFormat (["users".toList].foldl fullPath []) = "/users".toList := convertStops (by decide)
  obtain ⟨op, there⟩ := every _ _ .get node (AList.mem_insert _ |>.mpr (.inl rfl)) rfl
  rw [key] at there
  obtain ⟨_, _, _, _, _, _, speaks⟩ := spoken _ _ op there
  exact ⟨op, there, (speaks createUser rfl).summary⟩

end Silent.EndpointDocs
