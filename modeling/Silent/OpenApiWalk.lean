import Silent.OpenApiRoute

/-! The walk over the tree as the list of the operations it makes, in order. The document
has, for a key and a method, the first of them. -/
namespace Silent.OpenApiWalk
open ByteText PathSegment HttpRequest RouteBuilder RouteShape OpenApiRoute

variable {H M V : Type}

def at_ (item : PathItem) : Method → Option Operation
  | .get => item.get
  | .post => item.post
  | .put => item.put
  | .delete => item.delete
  | .patch => item.patch
  | .head => item.head
  | .options => item.options
  | .trace => item.trace
  | .connect | .extension _ => none

def standard : Method → Bool
  | .connect | .extension _ => false
  | _ => true

theorem createAt (method probe : Method) (operation : Operation) :
    at_ (createOrUpdatePathItem method operation) probe =
      if standard probe = true ∧ method = probe then some operation else none := by
  cases method <;> cases probe <;> simp [at_, createOrUpdatePathItem, PathItem.empty, standard]

theorem mergeAt (item1 item2 : PathItem) (method : Method) :
    at_ (mergePathItems item1 item2) method = (at_ item1 method).or (at_ item2 method) := by
  cases method <;> rfl

theorem addPathNil (key : Text) (item : PathItem) : addPath [] key item = [(key, item)] := rfl

theorem addPathCons (first : Text × PathItem) (paths : Paths) (key : Text) (item : PathItem) :
    addPath (first :: paths) key item =
      if first.1 = key then (first.1, mergePathItems first.2 item) :: paths else first :: addPath paths key item := by
  unfold addPath
  rw [List.findIdx?_cons]
  by_cases same : first.1 = key
  · simp [same]
  · simp only [same, decide_false, Bool.false_eq_true, if_false]
    cases paths.findIdx? (·.1 = key) <;> simp

def opAt (paths : Paths) (key : Text) (method : Method) : Option Operation :=
  (paths.find? (·.1 = key)).bind (at_ ·.2 method)

theorem opAtAddPath (paths : Paths) (key probe : Text) (item : PathItem) (method : Method) :
    opAt (addPath paths key item) probe method =
      (opAt paths probe method).or (if key = probe then at_ item method else none) := by
  induction paths with
  | nil => by_cases same : key = probe <;> simp [addPathNil, opAt, same]
  | cons first rest ih =>
    unfold opAt at ih ⊢
    rw [addPathCons]
    by_cases here : first.1 = key
    · by_cases same : key = probe
      · simp [here, same, mergeAt]
      · simp [here, same]
    · rw [if_neg here]
      by_cases probed : first.1 = probe
      · have other : key ≠ probe := fun same => here (probed.trans same.symm)
        simp [probed, other]
      · simpa [probed] using ih

theorem addPathKeys (paths : Paths) (key : Text) (item : PathItem) :
    (addPath paths key item).map (·.1) = if key ∈ paths.map (·.1) then paths.map (·.1) else paths.map (·.1) ++ [key] := by
  induction paths with
  | nil => rfl
  | cons first rest ih =>
    rw [addPathCons]
    by_cases here : first.1 = key
    · simp [here]
    · rw [if_neg here, List.map_cons, ih]
      simp only [List.map_cons, List.mem_cons, Ne.symm here, false_or]
      split <;> simp

theorem addPathDistinct {paths : Paths} (distinct : (paths.map (·.1)).Nodup) (key : Text) (item : PathItem) :
    ((addPath paths key item).map (·.1)).Nodup := by
  rw [addPathKeys]
  split
  · exact distinct
  · rename_i fresh
    exact List.nodup_append.mpr ⟨distinct, List.nodup_singleton key, by
      rintro a mem b single rfl
      exact fresh (List.mem_singleton.mp single ▸ mem)⟩

theorem opAtIff {paths : Paths} (distinct : (paths.map (·.1)).Nodup) (key : Text) (method : Method) (op : Operation) :
    opAt paths key method = some op ↔ ∃ item, (key, item) ∈ paths ∧ at_ item method = some op := by
  induction paths with
  | nil => simp [opAt]
  | cons first rest ih =>
    rw [List.map_cons, List.nodup_cons] at distinct
    unfold opAt at ih ⊢
    by_cases here : first.1 = key
    · subst here
      have absent : ∀ item, (first.1, item) ∉ rest := fun item mem =>
        distinct.1 (List.mem_map.mpr ⟨_, mem, rfl⟩)
      rw [List.find?_cons_of_pos (by simp)]
      constructor
      · exact fun found => ⟨first.2, List.mem_cons_self, found⟩
      · rintro ⟨item, mem, found⟩
        rcases List.mem_cons.mp mem with same | later
        · rw [← same]
          exact found
        · exact absurd later (absent item)
    · rw [List.find?_cons_of_neg (by simpa using here), ih distinct.2]
      constructor
      · rintro ⟨item, mem, found⟩
        exact ⟨item, List.mem_cons_of_mem _ mem, found⟩
      · rintro ⟨item, mem, found⟩
        rcases List.mem_cons.mp mem with same | later
        · exact absurd (by rw [← same]) here
        · exact ⟨item, later, found⟩

structure Entry where
  path : Text
  method : Method
  operation : Operation

def addEntry (paths : Paths) (entry : Entry) : Paths :=
  addPath paths (convertPathFormat entry.path) (createOrUpdatePathItem entry.method entry.operation)

def served (key : Text) (method : Method) (entry : Entry) : Bool :=
  standard method && entry.method = method && convertPathFormat entry.path = key

theorem opAtEntries (entries : List Entry) (paths : Paths) (key : Text) (method : Method) :
    opAt (entries.foldl addEntry paths) key method =
      (opAt paths key method).or ((entries.find? (served key method)).map (·.operation)) := by
  induction entries generalizing paths with
  | nil => simp
  | cons entry rest ih =>
    rw [List.foldl_cons, ih, addEntry, opAtAddPath, createAt, Option.or_assoc]
    by_cases here : served key method entry = true
    · rw [List.find?_cons_of_pos here]
      simp only [served, Bool.and_eq_true, decide_eq_true_eq] at here
      rw [if_pos here.2, if_pos here.1]
      rfl
    · rw [List.find?_cons_of_neg here]
      congr 1
      have none_ : (if convertPathFormat entry.path = key then
          if standard method = true ∧ entry.method = method then some entry.operation else none else none) = none := by
        split
        · rename_i same
          split
          · rename_i both
            exact absurd (by simp [served, same, both]) here
          · rfl
        · rfl
      rw [none_, Option.none_or]

theorem entriesDistinct (entries : List Entry) {paths : Paths} (distinct : (paths.map (·.1)).Nodup) :
    ((entries.foldl addEntry paths).map (·.1)).Nodup := by
  induction entries generalizing paths with
  | nil => exact distinct
  | cons entry rest ih => exact ih (addPathDistinct distinct _ _)

theorem addPathsSame {paths : Paths} (distinct : (paths.map (·.1)).Nodup) :
    paths.foldl (fun built entry => addPath built entry.1 entry.2) [] = paths := by
  have from_ : ∀ (later built : Paths), ((built ++ later).map (·.1)).Nodup →
      later.foldl (fun built entry => addPath built entry.1 entry.2) built = built ++ later := by
    intro later
    induction later with
    | nil => exact fun built _ => (List.append_nil built).symm
    | cons entry rest ih =>
      intro built distinct
      have fresh : entry.1 ∉ built.map (·.1) := by
        rw [List.map_append, List.nodup_append] at distinct
        exact fun mem => distinct.2.2 _ mem _ List.mem_cons_self rfl
      have added : addPath built entry.1 entry.2 = built ++ [entry] := by
        have absent : built.findIdx? (fun e => decide (e.1 = entry.1)) = none := by
          refine List.findIdx?_eq_none_iff.mpr (fun e mem => decide_eq_false ?_)
          exact fun same => fresh (List.mem_map.mpr ⟨e, mem, same⟩)
        unfold addPath
        rw [absent]
      rw [List.foldl_cons, added, ih (built ++ [entry]) (by simpa using distinct)]
      simp
  simpa using from_ paths [] (by simpa using distinct)

section
variable (reg : Registry H M) (order : EntryOrder H)

def entries (route : Route H M V) (currentPath : Text) (parentTags : List Text) : List Entry :=
  let path := fullPath currentPath route.path
  let tags := currentTags parentTags route.path
  (order.visit route.handler).map (fun entry => ⟨path, entry.1, operationOf reg route path tags entry⟩) ++
    route.children.attach.flatMap (fun child => entries child.1 path tags)
termination_by sizeOf route
decreasing_by exact Route.sizeOfChild child.2

theorem entriesEq (route : Route H M V) (currentPath : Text) (parentTags : List Text) :
    entries reg order route currentPath parentTags =
      (order.visit route.handler).map (fun entry => ⟨fullPath currentPath route.path, entry.1,
        operationOf reg route (fullPath currentPath route.path) (currentTags parentTags route.path) entry⟩) ++
      route.children.flatMap (fun child =>
        entries reg order child (fullPath currentPath route.path) (currentTags parentTags route.path)) := by
  rw [entries]
  simp

theorem collectEq (route : Route H M V) (currentPath : Text) (parentTags : List Text) (paths : Paths) :
    collectPathsRecursive reg order route currentPath parentTags paths =
      route.children.foldl (fun paths child => collectPathsRecursive reg order child (fullPath currentPath route.path)
          (currentTags parentTags route.path) paths)
        ((order.visit route.handler).foldl (fun paths entry => addEntry paths ⟨fullPath currentPath route.path, entry.1,
          operationOf reg route (fullPath currentPath route.path) (currentTags parentTags route.path) entry⟩) paths) := by
  rw [collectPathsRecursive]
  exact List.foldl_attach (l := route.children) (f := fun paths child => collectPathsRecursive reg order child
    (fullPath currentPath route.path) (currentTags parentTags route.path) paths)

theorem collectEntries (route : Route H M V) (currentPath : Text) (parentTags : List Text) (paths : Paths) :
    collectPathsRecursive reg order route currentPath parentTags paths =
      (entries reg order route currentPath parentTags).foldl addEntry paths := by
  induction route using childInduction generalizing currentPath parentTags paths with
  | step route ih =>
    rw [collectEq, entriesEq, List.foldl_append, List.foldl_map]
    generalize (order.visit route.handler).foldl _ paths = here
    have below : ∀ (children : List (Route H M V)), (∀ child ∈ children, child ∈ route.children) → ∀ here,
        children.foldl (fun paths child => collectPathsRecursive reg order child (fullPath currentPath route.path)
          (currentTags parentTags route.path) paths) here =
        (children.flatMap (fun child => entries reg order child (fullPath currentPath route.path)
          (currentTags parentTags route.path))).foldl addEntry here := by
      intro children
      induction children with
      | nil => exact fun _ _ => rfl
      | cons child rest ihRest =>
        intro inside here
        rw [List.foldl_cons, List.flatMap_cons, List.foldl_append, ih child (inside child List.mem_cons_self)]
        exact ihRest (fun c mem => inside c (List.mem_cons_of_mem _ mem)) _
    exact below route.children (fun _ mem => mem) here

def nodes (route : Route H M V) : List (List Text × Route H M V) :=
  ([route.path], route) :: route.children.attach.flatMap (fun child =>
    (nodes child.1).map (fun node => (route.path :: node.1, node.2)))
termination_by sizeOf route
decreasing_by exact Route.sizeOfChild child.2

omit reg order in
theorem memNodes {route n : Route H M V} {segs : List Text} : (segs, n) ∈ nodes route ↔
    (segs = [route.path] ∧ n = route) ∨
      ∃ child ∈ route.children, ∃ rest, (rest, n) ∈ nodes child ∧ segs = route.path :: rest := by
  rw [nodes]
  simp only [List.mem_cons, Prod.mk.injEq, List.mem_flatMap, List.mem_attach, true_and, Subtype.exists, List.mem_map,
    Prod.exists]
  constructor
  · rintro (here | ⟨child, mem, rest, node, below, rfl, rfl⟩)
    · exact .inl here
    · exact .inr ⟨child, mem, rest, below, rfl⟩
  · rintro (here | ⟨child, mem, rest, below, rfl⟩)
    · exact .inl here
    · exact .inr ⟨child, mem, rest, n, below, rfl, rfl⟩

omit reg in
theorem visited (map : HashMap Method H) (method : Method) : (∃ handler, (method, handler) ∈ order.visit map) ↔ method ∈ map := by
  simp only [(order.all map).mem_iff, List.mem_map, Prod.mk.injEq, AList.mem_keys, AList.keys, List.mem_keys]
  constructor
  · rintro ⟨handler, entry, mem, rfl, rfl⟩
    exact ⟨entry.2, mem⟩
  · rintro ⟨handler, mem⟩
    exact ⟨handler, ⟨method, handler⟩, mem, rfl, rfl⟩

theorem entryNode {route : Route H M V} {currentPath : Text} {parentTags : List Text} {entry : Entry}
    (mem : entry ∈ entries reg order route currentPath parentTags) : ∃ segs n, (segs, n) ∈ nodes route ∧
      entry.path = segs.foldl fullPath currentPath ∧ entry.method ∈ n.handler ∧
      ∃ handler tags, entry.operation = operationOf reg n entry.path tags (entry.method, handler) := by
  induction route using childInduction generalizing currentPath parentTags with
  | step route ih =>
    rw [entriesEq, List.mem_append, List.mem_map, List.mem_flatMap] at mem
    rcases mem with ⟨⟨method, handler⟩, among, rfl⟩ | ⟨child, inside, below⟩
    · exact ⟨[route.path], route, memNodes.mpr (.inl ⟨rfl, rfl⟩), rfl, (visited order _ _).mp ⟨handler, among⟩, handler, _, rfl⟩
    · obtain ⟨segs, n, node, path, handled, operation⟩ := ih child inside below
      exact ⟨route.path :: segs, n, memNodes.mpr (.inr ⟨child, inside, segs, node, rfl⟩), path, handled, operation⟩

theorem nodeEntry {route n : Route H M V} {segs : List Text} (currentPath : Text) (parentTags : List Text) {method : Method}
    (node : (segs, n) ∈ nodes route) (handled : method ∈ n.handler) :
    ∃ entry ∈ entries reg order route currentPath parentTags,
      entry.path = segs.foldl fullPath currentPath ∧ entry.method = method := by
  induction route using childInduction generalizing segs currentPath parentTags with
  | step route ih =>
    rw [entriesEq]
    rcases memNodes.mp node with ⟨rfl, rfl⟩ | ⟨child, inside, rest, below, rfl⟩
    · obtain ⟨handler, among⟩ := (visited order _ _).mpr handled
      exact ⟨_, List.mem_append_left _ (List.mem_map.mpr ⟨(method, handler), among, rfl⟩), rfl, rfl⟩
    · obtain ⟨entry, mem, path, same⟩ := ih child inside (fullPath currentPath route.path) (currentTags parentTags route.path) below
      exact ⟨entry, List.mem_append_right _ (List.mem_flatMap.mpr ⟨child, inside, mem⟩), path, same⟩

/- An operation of the collected paths is the first one made for its key and method. -/
theorem collectedAt (route : Route H M V) (key : Text) (method : Method) (op : Operation) :
    (∃ item, (key, item) ∈ collectOpenapiPaths reg order route [] ∧ at_ item method = some op) ↔
      ((entries reg order route [] []).find? (served key method)).map (·.operation) = some op := by
  have distinct := entriesDistinct (entries reg order route [] []) (show (([] : Paths).map (·.1)).Nodup from List.nodup_nil)
  unfold collectOpenapiPaths
  rw [collectEntries, ← opAtIff distinct, opAtEntries]
  rfl

end

end Silent.OpenApiWalk
