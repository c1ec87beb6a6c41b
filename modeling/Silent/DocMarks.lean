import Silent.OpenApiPaths
import Silent.RouteRegistration

/-! The two ways to document a handler: `.doc` after it was registered, which looks the
handler up on the route itself, and `get_with_doc` and the like, which register it and its
texts together. Handlers are put at the last node of the path of the route. -/
namespace Silent.DocMarks
open ByteText HttpRequest RouteBuilder RouteShape RouteTable RouteRegistration OpenApiRoute OpenApiWalk OpenApiPaths TextScan

variable {H M V : Type}

section
variable [DecidableEq H]

def registerDocByPtr (reg : Registry H M) (ptr : H) (summary description : Option Text) : Registry H M :=
  {reg with doc := fun h => if h = ptr then some ⟨summary, description, false, []⟩ else reg.doc h}

-- `RouteDocMarkExt::doc`, which leaves the route as it is.
def doc (reg : Registry H M) (self : Route H M V) (method : Method) (summary description : Text) : Registry H M :=
  match self.handler.lookup method with
  | some handler => registerDocByPtr reg handler (some summary) (some description)
  | none => reg

def withDoc (method : Method) (reg : Registry H M) (self : Route H M V) (handler : H) (summary description : Text) :
    Option (Registry H M × Route H M V) :=
  (self.onMethod method handler).map (registerDocByPtr reg handler (some summary) (some description), ·)

def getWithDoc (reg : Registry H M) (self : Route H M V) : H → Text → Text → Option (Registry H M × Route H M V) :=
  withDoc .get reg self
def postWithDoc (reg : Registry H M) (self : Route H M V) : H → Text → Text → Option (Registry H M × Route H M V) :=
  withDoc .post reg self
def putWithDoc (reg : Registry H M) (self : Route H M V) : H → Text → Text → Option (Registry H M × Route H M V) :=
  withDoc .put reg self
def deleteWithDoc (reg : Registry H M) (self : Route H M V) : H → Text → Text → Option (Registry H M × Route H M V) :=
  withDoc .delete reg self
def patchWithDoc (reg : Registry H M) (self : Route H M V) : H → Text → Text → Option (Registry H M × Route H M V) :=
  withDoc .patch reg self
def optionsWithDoc (reg : Registry H M) (self : Route H M V) : H → Text → Text → Option (Registry H M × Route H M V) :=
  withDoc .options reg self

end

def Marked (reg : Registry H M) (order : EntryOrder H) (route : Route H M V) (path : Text) (method : Method)
    (summary description : Text) : Prop :=
  ∀ title version about, ∃ op,
    opAt (generateOpenapiDoc reg order route title version about).paths (convertPathFormat (trimmed path)) method = some op ∧
      op.summary = summary ∧ op.description = description

theorem generatedAt (reg : Registry H M) (order : EntryOrder H) (route : Route H M V) (title version : Text)
    (about : Option Text) (key : Text) (method : Method) :
    opAt (generateOpenapiDoc reg order route title version about).paths key method =
      ((entries reg order route [] []).find? (served key method)).map (·.operation) := by
  have distinct := entriesDistinct (entries reg order route [] []) (show (([] : Paths).map (·.1)).Nodup from List.nodup_nil)
  simp only [generateOpenapiDoc, addPaths, collectOpenapiPaths, collectEntries]
  rw [addPathsSame distinct, opAtEntries]
  rfl

theorem rawJoin {segs : List Text} (list : SegmentList segs) : rawPath segs = joinPath segs := by
  rcases list with rfl | ⟨some_, named⟩
  · rfl
  · have all : segs.filter (· ≠ []) = segs := List.filter_eq_self.mpr fun seg mem => by simpa using (named seg mem).1
    rw [rawPath, all]
    clear all
    induction segs with
    | nil => contradiction
    | cons seg segs ih =>
      cases segs with
      | nil => simp [delimited, joinPath]
      | cons next rest =>
        have later := ih (by simp) fun s mem => named s (List.mem_cons_of_mem _ mem)
        simp only [delimited, List.flatMap_cons, List.cons_append, List.drop_succ_cons, List.drop_zero] at later ⊢
        rw [joinPath, later]

theorem lineEntries (reg : Registry H M) (order : EntryOrder H) {segs : List Text} {map : HashMap Method H}
    {r : Route H M V} (line : Line segs map r) (current : Text) (tags : List Text) :
    ∃ (node : Route H M V) (tags' : List Text), entries reg order r current tags = (order.visit map).map fun entry =>
      ⟨segs.foldl fullPath current, entry.1, operationOf reg node (segs.foldl fullPath current) tags' entry⟩ := by
  induction line generalizing current tags with
  | @leaf seg map r plain path created childless handler =>
    refine ⟨r, currentTags tags r.path, ?_⟩
    rw [entriesEq, childless, handler, path]
    exact List.append_nil _
  | @step seg segs map r c plain path created children idle below ih =>
    obtain ⟨node, tags', rest⟩ := ih (fullPath current r.path) (currentTags tags r.path)
    have none_ : order.visit (∅ : HashMap Method H) = [] := (order.all ∅).eq_nil
    refine ⟨node, tags', ?_⟩
    rw [entriesEq, idle, none_, children, List.flatMap_cons, rest, path]
    exact List.append_nil _

theorem visitSingle (order : EntryOrder H) (method : Method) (handler : H) :
    order.visit ((∅ : HashMap Method H).insert method handler) = [(method, handler)] :=
  List.perm_singleton.mp (order.all _)

theorem tidyRegistered {path : Text} (tidy : Tidy path) (method : Method) (handler : H) :
    ∃ route, (Route.new path : Route H M V).onMethod method handler = some route ∧
      Line (nodeKey path) ((∅ : HashMap Method H).insert method handler) route := by
  obtain ⟨route, grown, line, _⟩ := lineHandler (tidyLine tidy : Line (nodeKey path) ∅ (Route.new path : Route H M V))
    (·.insert method handler)
  exact ⟨route, grown, line⟩

theorem lineOperation (reg : Registry H M) (order : EntryOrder H) {path : Text} (tidy : Tidy path) {method : Method}
    {handler : H} {route : Route H M V} (line : Line (nodeKey path) ((∅ : HashMap Method H).insert method handler) route)
    (title version : Text) (about : Option Text) :
    ∃ (node : Route H M V) (tags : List Text),
      opAt (generateOpenapiDoc reg order route title version about).paths (convertPathFormat (trimmed path)) method =
        if standard method then some (operationOf reg node (trimmed path) tags (method, handler)) else none := by
  obtain ⟨list, joined⟩ := tidyKey tidy
  have plain : ∀ seg ∈ nodeKey path, '/' ∉ seg := by
    rcases list with root | ⟨_, named⟩
    · rw [root]
      simp
    · exact fun seg mem => (named seg mem).2
  have written : (nodeKey path).foldl fullPath [] = trimmed path := by rw [foldFullPath plain, rawJoin list, joined]
  obtain ⟨node, tags, made⟩ := lineEntries reg order line [] []
  refine ⟨node, tags, ?_⟩
  rw [generatedAt, made, visitSingle, written]
  cases known : standard method <;> simp [served, known]

theorem markedStandard {reg : Registry H M} {order : EntryOrder H} {path : Text} (tidy : Tidy path) {method : Method}
    {handler : H} {route : Route H M V} (line : Line (nodeKey path) ((∅ : HashMap Method H).insert method handler) route)
    {summary description : Text} (marked : Marked reg order route path method summary description) : standard method = true := by
  obtain ⟨op, there, _⟩ := marked [] [] none
  obtain ⟨node, tags, same⟩ := lineOperation reg order tidy line [] [] none
  cases known : standard method with
  | true => rfl
  | false =>
    rw [same, known] at there
    cases there

theorem untidyUnregistered {path : Text} (untidy : ¬Tidy path) (method : Method) (handler : H) :
    (Route.new path : Route H M V).onMethod method handler = none := (untidySearch untidy).1 _

theorem lineHead {segs : List Text} {map : HashMap Method H} {r : Route H M V} (line : Line segs map r) :
    '/' ∉ joinPath segs ∧ r.handler = map ∨ '/' ∈ joinPath segs ∧ r.handler = ∅ := by
  cases line with
  | leaf plain path created childless handler => exact .inl ⟨plain, handler⟩
  | step plain path created children idle below =>
    refine .inr ⟨?_, idle⟩
    cases below <;> simp [joinPath]

theorem plainTidy {path : Text} (plain : '/' ∉ trimmed path) : Tidy path := by
  by_cases empty : trimmed path = []
  · exact .inl empty
  · refine .inr ?_
    rw [List.splitOn_eq_singleton plain, List.mem_singleton]
    exact fun same => empty same.symm

section
variable [DecidableEq H]

theorem textsOf (reg : Registry H M) (handler : H) (summary description : Text) (node : Route H M V) (path : Text)
    (tags : List Text) (method : Method) :
    let op := operationOf (registerDocByPtr reg handler (some summary) (some description)) node path tags (method, handler)
    op.summary = summary ∧ op.description = description := by
  simp [operationOf, createOperationWithDoc, registerDocByPtr]

theorem registeredMarked (reg : Registry H M) (order : EntryOrder H) {path : Text} (tidy : Tidy path) {method : Method}
    (known : standard method = true) {handler : H} {route : Route H M V}
    (line : Line (nodeKey path) ((∅ : HashMap Method H).insert method handler) route) (summary description : Text) :
    Marked (registerDocByPtr reg handler (some summary) (some description)) order route path method summary description := by
  intro title version about
  obtain ⟨node, tags, there⟩ := lineOperation (registerDocByPtr reg handler (some summary) (some description)) order tidy
    line title version about
  rw [if_pos known] at there
  exact ⟨_, there, textsOf reg handler summary description node (trimmed path) tags method⟩

/- `.doc` is heard where the path of the route has one segment, while registering and
documenting in one call is heard wherever registering is possible at all. -/
theorem docHeardOnSingleSegment (reg : Registry H M) (order : EntryOrder H) (path : Text) (method : Method) (handler : H) :
    ((∀ summary description, ∃ route, (Route.new path : Route H M V).onMethod method handler = some route ∧
        Marked (doc reg route method summary description) order route path method summary description) ↔
      '/' ∉ trimmed path ∧ standard method = true) ∧
    ((∀ summary description, ∃ reg' route,
        withDoc method reg (Route.new path : Route H M V) handler summary description = some (reg', route) ∧
        Marked reg' order route path method summary description) ↔
      Tidy path ∧ standard method = true) := by
  by_cases tidy : Tidy path
  case neg =>
    have missing := untidyUnregistered (M := M) (V := V) tidy method handler
    simp [withDoc, missing, tidy, mt plainTidy tidy]
  obtain ⟨route, registered, line⟩ := tidyRegistered (M := M) (V := V) tidy method handler
  have head := lineHead line
  rw [(tidyKey tidy).2] at head
  constructor
  · constructor
    · intro heard
      obtain ⟨_, same, marked⟩ := heard [] []
      cases Option.some.inj (registered.symm.trans same)
      refine ⟨fun slash => ?_, markedStandard tidy line marked⟩
      have idle : route.handler = ∅ := (head.resolve_left fun plain => plain.1 slash).2
      have unheard : ∀ summary description, doc reg route method summary description = reg := by
        intro summary description
        rw [doc, idle]
        rfl
      obtain ⟨op, there, _⟩ := marked [] [] none
      obtain ⟨_, same, again⟩ := heard ('x' :: op.summary) []
      cases Option.some.inj (registered.symm.trans same)
      obtain ⟨op', there', summary', _⟩ := again [] [] none
      rw [unheard] at there there'
      cases there.symm.trans there'
      exact absurd summary'.symm (List.cons_ne_self _ _)
    · intro ⟨plain, known⟩ summary description
      have here := (head.resolve_right fun deep => plain deep.1).2
      refine ⟨route, registered, ?_⟩
      rw [doc, here, AList.lookup_insert]
      exact registeredMarked reg order tidy known line summary description
  · constructor
    · intro heard
      obtain ⟨reg', route', same, marked⟩ := heard [] []
      rw [withDoc, registered] at same
      cases same
      exact ⟨tidy, markedStandard tidy line marked⟩
    · intro ⟨_, known⟩ summary description
      exact ⟨_, route, by rw [withDoc, registered]; rfl, registeredMarked reg order tidy known line summary description⟩

end

def nested : Text := "users/<id:i64>".toList

def listed : Text := "List".toList

theorem nestedUnheard : ∃ route : Route Unit Unit Unit, (Route.new nested).onMethod .get () = some route ∧
    ¬Marked (doc unregistered route .get listed listed) inOrder route nested .get listed listed := by
  have tidy : Tidy nested := by decide
  obtain ⟨route, registered, line⟩ := tidyRegistered (M := Unit) (V := Unit) tidy .get ()
  refine ⟨route, registered, fun marked => ?_⟩
  have head := lineHead line
  rw [(tidyKey tidy).2] at head
  have idle := (head.resolve_left fun plain => plain.1 (by decide)).2
  have unheard : doc unregistered route .get listed listed = unregistered := by
    rw [doc, idle]
    rfl
  rw [unheard] at marked
  obtain ⟨op, there, summary, _⟩ := marked [] [] none
  obtain ⟨node, tags, made⟩ := lineOperation unregistered inOrder tidy line [] [] none
  rw [there, if_pos (show standard .get = true from rfl)] at made
  cases made
  exact absurd summary (show "GET users/<id:i64>".toList ≠ listed by decide)

end Silent.DocMarks
