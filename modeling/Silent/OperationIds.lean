import Silent.OpenApiPaths

/-! The operation ids of the document of a route tree. An id is the method and the path with
every character but ASCII letters and digits made an underscore, and without the underscores
at its end; what two paths can share then decides whether two ids can. -/
namespace Silent.OperationIds
open ByteText PathSegment HttpRequest RouteBuilder RouteShape OpenApiRoute OpenApiWalk OpenApiPaths

def shortened (path : Text) : Text := (sanitizedPath path).rdropWhile (· = '_')

theorem rdropWhileAppend (p : Char → Bool) (x y : Text) :
    (x ++ y).rdropWhile p = if y.rdropWhile p = [] then x.rdropWhile p else x ++ y.rdropWhile p := by
  unfold List.rdropWhile
  rw [List.reverse_append, List.dropWhile_append]
  cases dropped : y.reverse.dropWhile p <;> simp

theorem loweredPlain {method : Method} (fits : standard method = true) :
    (asStr method).map Char.toLower ≠ [] ∧ '_' ∉ (asStr method).map Char.toLower := by
  cases method with
  | connect | extension name => cases fits
  | _ => decide

theorem loweredInj {method other : Method} (fits : standard method = true) (fits' : standard other = true)
    (same : (asStr method).map Char.toLower = (asStr other).map Char.toLower) : method = other := by
  cases method with
  | connect | extension name => cases fits
  | _ =>
    cases other with
    | connect | extension name => cases fits'
    | _ => first | rfl | exact absurd same (by decide)

theorem rdropPlain {x : Text} (plain : '_' ∉ x) : x.rdropWhile (· = '_') = x := by
  refine List.rdropWhile_eq_self_iff.mpr (fun more => ?_)
  simp only [decide_eq_true_eq]
  exact fun same => plain (same ▸ List.getLast_mem more)

theorem operationIdEq {method : Method} (fits : standard method = true) (path : Text) :
    operationIdOf method path = (asStr method).map Char.toLower ++
      if shortened path = [] then [] else '_' :: shortened path := by
  obtain ⟨some_, plain⟩ := loweredPlain fits
  obtain ⟨c, tail, word⟩ := List.exists_cons_of_ne_nil some_
  have head : c ≠ '_' := by
    rintro rfl
    exact plain (word ▸ List.mem_cons_self)
  have ending : ('_' :: sanitizedPath path).rdropWhile (· = '_') =
      if shortened path = [] then [] else '_' :: shortened path := by
    have split_ := rdropWhileAppend (· = '_') ['_'] (sanitizedPath path)
    rw [List.singleton_append] at split_
    exact split_
  unfold operationIdOf trimMatches
  rw [word] at plain ⊢
  rw [List.cons_append, List.dropWhile_cons_of_neg (by simpa using head), ← List.cons_append, rdropWhileAppend, ending,
    rdropPlain plain]
  by_cases short : shortened path = []
  · simp [short]
  · simp [short]

theorem operationIdInj {method other : Method} (fits : standard method = true) (fits' : standard other = true)
    (path path' : Text) : operationIdOf method path = operationIdOf other path' ↔
      method = other ∧ shortened path = shortened path' := by
  rw [operationIdEq fits, operationIdEq fits']
  constructor
  · intro same
    have word : ∀ {method : Method}, standard method = true → ∀ path,
        ((asStr method).map Char.toLower ++ if shortened path = [] then [] else '_' :: shortened path).takeWhile (· ≠ '_') =
          (asStr method).map Char.toLower := by
      intro method fits path
      have all : ∀ c ∈ (asStr method).map Char.toLower, decide (c ≠ '_') = true := by
        intro c mem
        simp only [decide_eq_true_eq]
        rintro rfl
        exact (loweredPlain fits).2 mem
      rw [List.takeWhile_append_of_pos all]
      split <;> simp
    have lowered := congrArg (List.takeWhile (· ≠ '_')) same
    rw [word fits, word fits'] at lowered
    obtain rfl := loweredInj fits fits' lowered
    refine ⟨rfl, ?_⟩
    have ends := List.append_cancel_left same
    by_cases short : shortened path = [] <;> by_cases short' : shortened path' = [] <;> simp_all
  · rintro ⟨rfl, short⟩
    rw [short]

section
variable {H M V : Type} (reg : Registry H M) (order : EntryOrder H)

def registrations (route : Route H M V) (currentPath : Text) : List (Text × Method) :=
  (order.visit route.handler).map (fun entry => (fullPath currentPath route.path, entry.1)) ++
    route.children.attach.flatMap (fun child => registrations child.1 (fullPath currentPath route.path))
termination_by sizeOf route
decreasing_by exact Route.sizeOfChild child.2

theorem registrationsEq (route : Route H M V) (currentPath : Text) : registrations order route currentPath =
    (order.visit route.handler).map (fun entry => (fullPath currentPath route.path, entry.1)) ++
      route.children.flatMap (fun child => registrations order child (fullPath currentPath route.path)) := by
  rw [registrations]
  simp

theorem entriesRegistered (route : Route H M V) (currentPath : Text) (parentTags : List Text) :
    (entries reg order route currentPath parentTags).map (fun entry => (entry.path, entry.method)) =
      registrations order route currentPath := by
  induction route using childInduction generalizing currentPath parentTags with
  | step route ih =>
    rw [entriesEq, registrationsEq, List.map_append, List.map_map, List.map_flatMap]
    congr 1
    exact List.flatMap_congr (fun child mem => ih child mem _ _)

def sharesKey (a b : Text × Method) : Bool := b.2 = a.2 && convertPathFormat b.1 = convertPathFormat a.1

/- No two registrations with the same method, each the first of its key and method, have
different keys and the same shortened path. -/
def Distinguishable (route : Route H M V) : Prop :=
  ∀ a b : Text × Method, (registrations order route []).find? (sharesKey a) = some a →
    (registrations order route []).find? (sharesKey b) = some b → standard a.2 = true → a.2 = b.2 →
    shortened a.1 = shortened b.1 → convertPathFormat a.1 = convertPathFormat b.1

def IdsUnique (paths : Paths) : Prop :=
  ∀ key item method op key' item' method' op', (key, item) ∈ paths → at_ item method = some op →
    (key', item') ∈ paths → at_ item' method' = some op' → op.operationId = op'.operationId → key = key' ∧ method = method'

variable {route : Route H M V}

theorem operationIdOfEntry {entry : Entry} (mem : entry ∈ entries reg order route [] []) :
    entry.operation.operationId = operationIdOf entry.method entry.path := by
  obtain ⟨_, _, _, _, _, handler, tags, operation⟩ := entryNode reg order mem
  rw [operation]
  rfl

theorem keptOperation {key : Text} {method : Method} {op : Operation} :
    (∃ item, (key, item) ∈ collectOpenapiPaths reg order route [] ∧ at_ item method = some op) →
      ∃ path, standard method = true ∧ convertPathFormat path = key ∧ op.operationId = operationIdOf method path ∧
        (registrations order route []).find? (sharesKey (path, method)) = some (path, method) := by
  intro collected
  obtain ⟨entry, first, rfl⟩ := Option.map_eq_some_iff.mp ((collectedAt reg order route key method op).mp collected)
  have serves := List.find?_some first
  simp only [served, Bool.and_eq_true, decide_eq_true_eq] at serves
  obtain ⟨⟨fits, same⟩, spelt⟩ := serves
  subst same
  refine ⟨entry.path, fits, spelt, operationIdOfEntry reg order (List.mem_of_find?_eq_some first), ?_⟩
  rw [← entriesRegistered reg order route [] [], List.find?_map]
  have agree : (sharesKey (entry.path, entry.method) ∘ fun entry : Entry => (entry.path, entry.method)) =
      served key entry.method := by
    funext other
    simp [sharesKey, served, fits, spelt]
  rw [agree, first]
  rfl

theorem registrationKept {path : Text} {method : Method} (fits : standard method = true)
    (first : (registrations order route []).find? (sharesKey (path, method)) = some (path, method)) :
    ∃ item op, (convertPathFormat path, item) ∈ collectOpenapiPaths reg order route [] ∧ at_ item method = some op ∧
      op.operationId = operationIdOf method path := by
  rw [← entriesRegistered reg order route [] [], List.find?_map] at first
  have agree : (sharesKey (path, method) ∘ fun entry : Entry => (entry.path, entry.method)) =
      served (convertPathFormat path) method := by
    funext other
    simp [sharesKey, served, fits]
  rw [agree] at first
  obtain ⟨entry, found, same⟩ := Option.map_eq_some_iff.mp first
  obtain ⟨item, mem, here⟩ := (collectedAt reg order route _ method entry.operation).mpr (by rw [found]; rfl)
  refine ⟨item, entry.operation, mem, here, ?_⟩
  rw [operationIdOfEntry reg order (List.mem_of_find?_eq_some found)]
  rw [(Prod.mk.inj same).1, (Prod.mk.inj same).2]

theorem collectedDistinguishable (unique : IdsUnique (collectOpenapiPaths reg order route [])) : Distinguishable order route := by
  rintro ⟨path, method⟩ ⟨path', method'⟩ first first' fits same short
  subst same
  obtain ⟨item, op, mem, here, id_⟩ := registrationKept reg order fits first
  obtain ⟨item', op', mem', here', id'⟩ := registrationKept reg order fits first'
  have ids : op.operationId = op'.operationId := by
    rw [id_, id', operationIdInj fits fits]
    exact ⟨rfl, short⟩
  exact (unique _ item _ op _ item' _ op' mem here mem' here' ids).1

theorem generatedPaths (route : Route H M V) (title version : Text) (description : Option Text) :
    (generateOpenapiDoc reg order route title version description).paths = collectOpenapiPaths reg order route [] := by
  have distinct : ((collectOpenapiPaths reg order route []).map (·.1)).Nodup := by
    rw [collectOpenapiPaths, collectEntries]
    exact entriesDistinct _ List.nodup_nil
  exact addPathsSame distinct

theorem operationIdsUnique (route : Route H M V) (title version : Text) (description : Option Text) :
    IdsUnique (generateOpenapiDoc reg order route title version description).paths ↔ Distinguishable order route := by
  rw [generatedPaths]
  refine ⟨collectedDistinguishable reg order, fun distinguishable => ?_⟩
  intro key item method op key' item' method' op' mem here mem' here' ids
  obtain ⟨path, fits, spelt, id_, first⟩ := keptOperation reg order ⟨item, mem, here⟩
  obtain ⟨path', fits', spelt', id', first'⟩ := keptOperation reg order ⟨item', mem', here'⟩
  rw [id_, id', operationIdInj fits fits'] at ids
  refine ⟨?_, ids.1⟩
  rw [← spelt, ← spelt']
  exact distinguishable _ _ first first' fits ids.1 ids.2

end

def twins : Option (Route Unit Unit Unit) := (Route.newRoot.append (lone "a-b".toList)).bind (·.append (lone "a_b".toList))

def twinsRoot : Route Unit Unit Unit := {Route.newRoot with children := [lone "a-b".toList, lone "a_b".toList]}

theorem twinsShape : twins = some twinsRoot := by
  have other : Route.sameNode (lone "a_b".toList) (lone "a-b".toList) = false := by
    rw [loneShape (by decide), loneShape (by decide)]
    decide
  have alone : (Route.newRoot.children ++ [lone "a-b".toList]).findIdx? (Route.sameNode (lone "a_b".toList)) = none := by
    refine List.findIdx?_eq_none_iff.mpr (fun r mem => ?_)
    rw [List.mem_singleton.mp mem]
    exact other
  rw [twins, appendFresh List.not_mem_nil rfl, Option.bind_some, appendFresh List.not_mem_nil alone]
  rfl

theorem twinsListed : registrations inOrder twinsRoot [] = [("a-b".toList, .get), ("a_b".toList, .get)] := by
  have leaf : ∀ seg, '/' ∉ seg → registrations inOrder (lone seg) [] = [(seg, .get)] := by
    intro seg plain
    rw [registrationsEq, loneShape plain]
    simp [Route.insertHandler, Route.single, inOrder, fullPath, AList.insert_empty]
  rw [registrationsEq]
  have root : fullPath [] twinsRoot.path = [] := rfl
  rw [root]
  simp only [twinsRoot, List.flatMap_cons, List.flatMap_nil, leaf "a-b".toList (by decide), leaf "a_b".toList (by decide)]
  rfl

theorem twinsCollide : ∃ r, twins = some r ∧ ¬ IdsUnique (generateOpenapiDoc unregistered inOrder r [] [] none).paths := by
  refine ⟨twinsRoot, twinsShape, fun unique => ?_⟩
  rw [generatedPaths] at unique
  have distinguishable := collectedDistinguishable unregistered inOrder unique
  have keys : convertPathFormat "a-b".toList = "/a-b".toList ∧ convertPathFormat "a_b".toList = "/a_b".toList :=
    ⟨convertStops (by decide), convertStops (by decide)⟩
  have other : sharesKey ("a_b".toList, Method.get) ("a-b".toList, Method.get) = false := by
    rw [sharesKey, keys.1, keys.2]
    decide
  have itself : ∀ a, sharesKey a a = true := fun a => by simp [sharesKey]
  have same := distinguishable ("a-b".toList, .get) ("a_b".toList, .get) ?_ ?_ rfl rfl (by decide)
  · rw [keys.1, keys.2] at same
    exact absurd same (by decide)
  · rw [twinsListed, List.find?_cons_of_pos (itself _)]
  · rw [twinsListed, List.find?_cons_of_neg (by rw [other]; decide), List.find?_cons_of_pos (itself _)]

end Silent.OperationIds
