import Silent.OpenApiWalk

/-! `OpenApiDoc` under its builder methods, in any order. A document is read as the set of
what it lists; a call brings some of it and drops some. A run keeps all it was given if and
only if no call drops what it does not bring again. -/
namespace Silent.OpenApiDocument
open ByteText HttpRequest

section
variable {S C E : Type} {apply : S → C → S} {lists : S → E → Prop} {brings drops : C → E → Prop} {start : S}

theorem listedSource (spec : ∀ s call e, lists (apply s call) e ↔ brings call e ∨ lists s e ∧ ¬ drops call e)
    (empty : ∀ e, ¬ lists start e) (done : List C) {e : E} (listed : lists (done.foldl apply start) e) :
    ∃ call ∈ done, brings call e := by
  induction done using List.reverseRecOn with
  | nil => exact absurd listed (empty e)
  | append_singleton done last ih =>
    rw [List.foldl_append, List.foldl_cons, List.foldl_nil, spec] at listed
    rcases listed with brought | ⟨before, -⟩
    · exact ⟨last, List.mem_append_right _ List.mem_cons_self, brought⟩
    · obtain ⟨call, among, brought⟩ := ih before
      exact ⟨call, List.mem_append_left _ among, brought⟩

theorem keepsIff (spec : ∀ s call e, lists (apply s call) e ↔ brings call e ∨ lists s e ∧ ¬ drops call e)
    (empty : ∀ e, ¬ lists start e) (calls : List C) :
    (∀ done, done <+: calls → ∀ call ∈ done, ∀ e, brings call e → lists (done.foldl apply start) e) ↔
      ∀ done call, done ++ [call] <+: calls → ∀ e, lists (done.foldl apply start) e → drops call e → brings call e := by
  constructor
  · intro kept done call before e listed dropped
    obtain ⟨earlier, among, brought⟩ := listedSource spec empty done listed
    have still := kept (done ++ [call]) before earlier (List.mem_append_left _ among) e brought
    rw [List.foldl_append, List.foldl_cons, List.foldl_nil, spec] at still
    exact still.resolve_right fun both => both.2 dropped
  · intro again done
    induction done using List.reverseRecOn with
    | nil => nofun
    | append_singleton done last ih =>
      intro before call among e brought
      rw [List.foldl_append, List.foldl_cons, List.foldl_nil, spec]
      rcases List.mem_append.mp among with earlier | same
      · have listed := ih ((List.prefix_append done [last]).trans before) call earlier e brought
        by_cases dropped : drops last e
        · exact .inl (again done last before e listed dropped)
        · exact .inr ⟨listed, dropped⟩
      · rw [List.mem_singleton.mp same] at brought
        exact .inl brought

end

structure Server where
  url : Text
  description : Option Text

inductive Schema where
  | object

inductive HttpAuthScheme where
  | bearer
  deriving DecidableEq

inductive SecurityScheme where
  | http (scheme : HttpAuthScheme) (bearerFormat : Option Text)
  deriving DecidableEq

structure SecurityRequirement where
  name : Text
  scopes : List Text

structure Components where
  schemas : HashMap Text Schema
  securitySchemes : HashMap Text SecurityScheme

def Components.new : Components := ⟨∅, ∅⟩

structure Info where
  title : Text
  version : Text

structure OpenApi (I : Type) where
  info : Info
  servers : Option (List Server)
  paths : HashMap Text I
  components : Option Components
  security : Option (List SecurityRequirement)

-- `PathsBuilder::path`; how it merges the items of a repeated path is utoipa's.
def path {I : Type} (merge : I → I → I) (paths : HashMap Text I) (key : Text) (item : I) : HashMap Text I :=
  paths.insert key (match paths.lookup key with
    | some existing => merge existing item
    | none => item)

theorem pathLookup {I : Type} (merge : I → I → I) (paths : HashMap Text I) (key probe : Text) (item : I) :
    (path merge paths key item).lookup probe =
      if key = probe then some ((paths.lookup key).elim item (merge · item)) else paths.lookup probe := by
  unfold path
  by_cases same : key = probe
  · subst same
    rw [AList.lookup_insert, if_pos rfl]
    cases paths.lookup key <;> rfl
  · rw [AList.lookup_insert_ne (Ne.symm same), if_neg same]

variable {I K : Type} (merge : I → I → I) (has : I → K → Prop)

def new (title version : Text) : OpenApi I := ⟨⟨title, version⟩, none, ∅, none, none⟩

def addServer (doc : OpenApi I) (url : Text) (description : Option Text) : OpenApi I :=
  {doc with servers := some (doc.servers.getD [] ++ [⟨url, description⟩])}

def addPath (doc : OpenApi I) (key : Text) (item : I) : OpenApi I := {doc with paths := path merge ∅ key item}

def addPaths (doc : OpenApi I) (paths : List (Text × I)) : OpenApi I :=
  {doc with paths := paths.foldl (fun built entry => path merge built entry.1 entry.2) ∅}

def addPlaceholderSchemas (doc : OpenApi I) (typeNames : List Text) : OpenApi I :=
  let components := doc.components.getD .new
  let schemas := typeNames.foldl (fun schemas name => HashMap.orInsert schemas name .object) components.schemas
  {doc with components := some {components with schemas := schemas}}

def bearer : SecurityScheme := .http .bearer (some "JWT".toList)

-- The description is read and left out.
def addBearerAuth (doc : OpenApi I) (schemeName : Text) (_description : Option Text) : OpenApi I :=
  let components := doc.components.getD .new
  {doc with components := some {components with securitySchemes := components.securitySchemes.insert schemeName bearer}}

def setGlobalSecurity (doc : OpenApi I) (schemeName : Text) (scopes : List Text) : OpenApi I :=
  let requirement := SecurityRequirement.mk schemeName scopes
  {doc with security := match doc.security with
    | some list => some (list ++ [requirement])
    | none => some [requirement]}

inductive Call (I : Type) where
  | addServer (url : Text) (description : Option Text)
  | addPath (path : Text) (item : I)
  | addPaths (paths : List (Text × I))
  | addPlaceholderSchemas (typeNames : List Text)
  | addBearerAuth (schemeName : Text) (description : Option Text)
  | setGlobalSecurity (schemeName : Text) (scopes : List Text)

def apply (doc : OpenApi I) : Call I → OpenApi I
  | .addServer url description => addServer doc url description
  | .addPath key item => addPath merge doc key item
  | .addPaths paths => addPaths merge doc paths
  | .addPlaceholderSchemas typeNames => addPlaceholderSchemas doc typeNames
  | .addBearerAuth schemeName description => addBearerAuth doc schemeName description
  | .setGlobalSecurity schemeName scopes => setGlobalSecurity doc schemeName scopes

inductive Part where
  | servers | paths | schemas | securitySchemes | security
  deriving DecidableEq

def Call.part : Call I → Part
  | .addServer _ _ => .servers
  | .addPath _ _ | .addPaths _ => .paths
  | .addPlaceholderSchemas _ => .schemas
  | .addBearerAuth _ _ => .securitySchemes
  | .setGlobalSecurity _ _ => .security

theorem applyCommutes (doc : OpenApi I) (a b : Call I) (apart : a.part ≠ b.part) :
    apply merge (apply merge doc a) b = apply merge (apply merge doc b) a := by
  cases a <;> cases b <;> first | rfl | exact absurd rfl apart

-- What a document can list. A path is listed by itself (`none`) and with each of its operations.
inductive Entry (K : Type) where
  | server (server : Server)
  | path (path : Text) (operation : Option K)
  | schema (name : Text)
  | scheme (name : Text)
  | requirement (requirement : SecurityRequirement)

def Has (item : I) : Option K → Prop
  | none => True
  | some operation => has item operation

def Lists (doc : OpenApi I) : Entry K → Prop
  | .server server => server ∈ doc.servers.getD []
  | .path key operation => ∃ item, doc.paths.lookup key = some item ∧ Has has item operation
  | .schema name => name ∈ (doc.components.getD .new).schemas
  | .scheme name => (doc.components.getD .new).securitySchemes.lookup name = some bearer
  | .requirement requirement => requirement ∈ doc.security.getD []

def Brings : Call I → Entry K → Prop
  | .addServer url description, .server server => server = ⟨url, description⟩
  | .addPath given item, .path key operation => key = given ∧ Has has item operation
  | .addPaths paths, .path key operation => ∃ item, (key, item) ∈ paths ∧ Has has item operation
  | .addPlaceholderSchemas typeNames, .schema name => name ∈ typeNames
  | .addBearerAuth schemeName _, .scheme name => name = schemeName
  | .setGlobalSecurity schemeName scopes, .requirement requirement => requirement = ⟨schemeName, scopes⟩
  | _, _ => False

def Drops (call : Call I) : Entry K → Prop
  | .path _ _ => call.part = .paths
  | _ => False

section
variable {merge has} (merges : ∀ a b operation, has (merge a b) operation ↔ has a operation ∨ has b operation)
include merges

theorem hasMerge (a b : I) (operation : Option K) : Has has (merge a b) operation ↔ Has has a operation ∨ Has has b operation := by
  cases operation with
  | none => simp [Has]
  | some operation => exact merges a b operation

theorem pathLists (paths : HashMap Text I) (given key : Text) (item : I) (operation : Option K) :
    (∃ found, (path merge paths given item).lookup key = some found ∧ Has has found operation) ↔
      (∃ found, paths.lookup key = some found ∧ Has has found operation) ∨ key = given ∧ Has has item operation := by
  rw [pathLookup]
  by_cases same : given = key
  · subst same
    cases paths.lookup given <;> simp [hasMerge merges]
  · simp [same, Ne.symm same]

theorem pathsList (entries : List (Text × I)) (paths : HashMap Text I) (key : Text) (operation : Option K) :
    (∃ found, (entries.foldl (fun built entry => path merge built entry.1 entry.2) paths).lookup key = some found ∧
        Has has found operation) ↔
      (∃ found, paths.lookup key = some found ∧ Has has found operation) ∨
        ∃ item, (key, item) ∈ entries ∧ Has has item operation := by
  induction entries generalizing paths with
  | nil => simp
  | cons entry rest ih =>
    rw [List.foldl_cons, ih, pathLists merges, or_assoc]
    apply or_congr_right
    constructor
    · rintro (⟨rfl, offered⟩ | ⟨item, among, offered⟩)
      · exact ⟨entry.2, List.mem_cons_self, offered⟩
      · exact ⟨item, List.mem_cons_of_mem entry among, offered⟩
    · rintro ⟨item, among, offered⟩
      rcases List.mem_cons.mp among with rfl | later
      · exact .inl ⟨rfl, offered⟩
      · exact .inr ⟨item, later, offered⟩

omit merges in
theorem schemasList (typeNames : List Text) (schemas : HashMap Text Schema) (name : Text) :
    name ∈ typeNames.foldl (fun schemas name => HashMap.orInsert schemas name .object) schemas ↔
      name ∈ typeNames ∨ name ∈ schemas := by
  induction typeNames generalizing schemas with
  | nil => simp
  | cons first rest ih =>
    rw [List.foldl_cons, ih, List.mem_cons, HashMap.orInsert]
    split
    · rename_i present
      by_cases same : name = first <;> simp [same, present]
    · rw [AList.mem_insert]
      tauto

theorem applyLists (doc : OpenApi I) (call : Call I) (e : Entry K) :
    Lists has (apply merge doc call) e ↔ Brings has call e ∨ Lists has doc e ∧ ¬ Drops call e := by
  cases call with
  | addServer url description => cases e <;> simp [apply, addServer, Lists, Brings, Drops, Call.part, or_comm]
  | addPath given item =>
    cases e with
    | path key operation => simp [apply, addPath, Lists, Brings, Drops, Call.part, pathLists merges]
    | _ => simp [apply, addPath, Lists, Brings, Drops]
  | addPaths paths =>
    cases e with
    | path key operation => simp [apply, addPaths, Lists, Brings, Drops, Call.part, pathsList merges]
    | _ => simp [apply, addPaths, Lists, Brings, Drops]
  | addPlaceholderSchemas typeNames =>
    cases e <;> simp [apply, addPlaceholderSchemas, Lists, Brings, Drops, Call.part, schemasList]
  | addBearerAuth schemeName description =>
    cases e with
    | scheme name =>
      by_cases same : name = schemeName
      · subst same
        simp [apply, addBearerAuth, Lists, Brings, Drops]
      · simp [apply, addBearerAuth, Lists, Brings, Drops, same]
    | _ => simp [apply, addBearerAuth, Lists, Brings, Drops, Call.part]
  | setGlobalSecurity schemeName scopes =>
    cases e with
    | requirement requirement =>
      cases security : doc.security <;> simp [apply, setGlobalSecurity, Lists, Brings, Drops, security, or_comm]
    | _ => simp [apply, setGlobalSecurity, Lists, Brings, Drops, Call.part]

end

theorem newEmpty (title version : Text) (e : Entry K) : ¬ Lists has (new title version : OpenApi I) e := by
  cases e <;> simp [Lists, new, Components.new]

def Rebrings (doc : OpenApi I) (call : Call I) : Prop :=
  call.part = .paths → ∀ key operation, Lists has doc (.path key operation) → Brings has call (.path key operation)

theorem rebringsDrops (doc : OpenApi I) (call : Call I) :
    Rebrings has doc call ↔ ∀ e, Lists has doc e → Drops call e → Brings has call e := by
  constructor
  · intro again e listed dropped
    cases e with
    | path key operation => exact again dropped key operation listed
    | _ => exact dropped.elim
  · exact fun again paths key operation listed => again _ listed paths

def document (title version : Text) (calls : List (Call I)) : OpenApi I := calls.foldl (apply merge) (new title version)

open OpenApiRoute OpenApiWalk

def offers (item : PathItem) (method : Method) : Prop := (at_ item method).isSome = true

theorem mergeOffers (a b : PathItem) (method : Method) : offers (mergePathItems a b) method ↔ offers a method ∨ offers b method := by
  simp [offers, mergeAt]

def itemAt (paths : Paths) (key : Text) : Option PathItem := (paths.find? (·.1 = key)).map (·.2)

theorem itemAtAddPath (paths : Paths) (key probe : Text) (item : PathItem) :
    itemAt (OpenApiRoute.addPath paths key item) probe =
      if key = probe then some ((itemAt paths key).elim item (mergePathItems · item)) else itemAt paths probe := by
  induction paths with
  | nil => by_cases same : key = probe <;> simp [addPathNil, itemAt, same]
  | cons first rest ih =>
    unfold itemAt at ih ⊢
    rw [addPathCons]
    by_cases here : first.1 = key
    · by_cases same : key = probe
      · simp [here, same]
      · simp [here, same]
    · rw [if_neg here]
      by_cases probed : first.1 = probe
      · have other : key ≠ probe := fun same => here (probed.trans same.symm)
        simp [probed, other]
      · simpa [probed, here] using ih

/- What the route generator puts into its document is what the builder makes of it. -/
theorem addPathsAgree (doc : OpenApi PathItem) (generated : OpenApiDoc) (paths : Paths) (key : Text) :
    (addPaths mergePathItems doc paths).paths.lookup key = itemAt (OpenApiRoute.addPaths generated paths).paths key := by
  have folded : ∀ (table : HashMap Text PathItem) (built : Paths), (∀ key, table.lookup key = itemAt built key) →
      ∀ key, (paths.foldl (fun table entry => path mergePathItems table entry.1 entry.2) table).lookup key =
        itemAt (paths.foldl (fun built entry => OpenApiRoute.addPath built entry.1 entry.2) built) key := by
    induction paths with
    | nil => exact fun _ _ same => same
    | cons entry rest ih =>
      refine fun table built same => ih _ _ fun probe => ?_
      rw [itemAtAddPath, pathLookup, same entry.1, same probe]
  exact folded ∅ [] (fun _ => rfl) key

def pathThenServer : List (Call PathItem) := [.addPath "/a".toList PathItem.empty, .addServer "http://localhost".toList none]

def twoPaths : List (Call PathItem) := [.addPath "/a".toList PathItem.empty, .addPath "/b".toList PathItem.empty]

end Silent.OpenApiDocument
