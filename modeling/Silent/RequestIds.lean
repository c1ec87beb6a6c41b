import Mathlib.Tactic.FinCases
import Silent.Effects
import Silent.GrpcMounts
import Silent.RouteConnection

/-! Request ids. The outermost middleware settles the id of a request; below it every handler is
called under that id and the answer carries it, also where ids are hooked again further down. -/
namespace Silent.RequestIds
open ByteText PathSegment HttpRequest RouteBuilder RouteShape Dispatch RouterSearch RouterRefinement RouteChains
open CompressionFrame Effects
open RouteConnection (Script)
open TowerCompat (Payload Response Outcome)

structure IdSource where
  names : Nat → Text
  visible : ∀ i, Sessions.toStr (names i) = some (names i)

structure Carried (C : Type) where
  headers : HeaderMap
  rest : C

abbrev Target (T : Payload) := HttpRequest.Request T.value

/- The state of the application, how many ids have been made, and of the request that is
served: which ids were made under which name, and the headers its handlers were called with. -/
structure World (U : Type) where
  app : U
  made : Nat
  drawn : List (Text × Text)
  calls : List HeaderMap

abbrev Handler (U C : Type) (T : Payload) := Target T → Carried C → StateM U (Outcome T)

inductive Hook (U C : Type) (T : Payload) where
  | requestId (headerName : Text)
  | altSvc (quicPort : Nat)
  | logger
  | exceptionHandler (handler : Outcome T → State T.value → StateM U (Outcome T))
  | own (code : Target T × Carried C → Script U (Target T × Carried C) (Outcome T))

abbrev Job (U C : Type) := ReaderT (Carried C) (StateM (World U))

abbrev AppRoute (U C : Type) (T : Payload) := Route (Handler U C T) (Hook U C T) T.value

section
variable {U C : Type} {T : Payload}

def onApp {A : Type} (x : StateM U A) : StateM (World U) A := fun w =>
  ((x.run w.app).1, {w with app := (x.run w.app).2})

def runScript {Q R : Type} (next : Q → StateM (World U) R) : Script U Q R → StateM (World U) R
  | .done result => pure result
  | .access update resume => do
      let seen ← onApp (fun u => (u, update u))
      runScript next (resume seen)
  | .forward req resume => do
      let result ← next req
      runScript next (resume result)

def called (headers : HeaderMap) : StateM (World U) Unit := fun w => ((), {w with calls := w.calls ++ [headers]})

variable (ids : IdSource)

def newString (name : Text) : StateM (World U) Text := fun w =>
  (ids.names w.made, {w with made := w.made + 1, drawn := w.drawn ++ [(name, ids.names w.made)]})

def given (headers : HeaderMap) (name : Text) : Option Text := (HeaderMap.get headers name).bind Sessions.toStr

def insertParsed (headers : HeaderMap) (name requestId : Text) : HeaderMap :=
  match Sessions.toStr requestId with
  | some value => HeaderMap.insert headers name value
  | none => headers

def settleId (headerName : Text) (headers : HeaderMap) : StateM (World U) Text :=
  match given headers headerName with
  | some value => pure value
  | none => newString ids headerName

def labelled (headerName requestId : Text) (res : Response T) : Response T :=
  {res with headers := insertParsed res.headers headerName requestId}

def RequestId.handle (headerName : Text) (req : Carried C) (next : Carried C → StateM (World U) (Outcome T)) :
    StateM (World U) (Outcome T) := do
  let requestId ← settleId ids headerName req.headers
  let res ← next {req with headers := insertParsed req.headers headerName requestId}
  pure (res.map (labelled headerName requestId))

def altSvcValue (port : Nat) : Text := "h3=\":".toList ++ (Nat.repr port).toList ++ "\"; ma=86400".toList

def announced (quicPort : Nat) (res : Response T) : Response T :=
  if quicPort ≠ 0 then {res with headers := insertParsed res.headers "alt-svc".toList (altSvcValue quicPort)} else res

-- `Logger` writes what it reads to the log and nothing else.
def Hook.handle (target : Target T) (next : Target T → Job U C (Outcome T)) : Hook U C T → Job U C (Outcome T)
  | .requestId headerName => fun req => RequestId.handle ids headerName req (next target)
  | .altSvc quicPort => fun req => do
      let res ← next target req
      pure (res.map (announced quicPort))
  | .logger => next target
  | .exceptionHandler handler => fun req => do
      let res ← next target req
      onApp (handler res target.state)
  | .own code => fun req => runScript (fun q => next q.1 q.2) (code (target, req))

def env : Env (Handler U C T) (Hook U C T) T.value (Response T) (Job U C) where
  callHandlers := handlerMapCall GrpcMounts.fill GrpcMounts.clearBody fun handler target req => do
    called req.headers
    onApp (handler target req)
  middleware hook target next := hook.handle ids target next
  panicked := pure (.error .notFound)

structure Asked (C : Type) (T : Payload) where
  buffer : Nat
  target : Target T
  carried : Carried C

structure Exchange (C : Type) (T : Payload) where
  asked : Asked C T
  drawn : List (Text × Text)
  calls : List HeaderMap
  answer : Outcome T

structure Serving (U C : Type) (T : Payload) where
  world : World U
  exchanges : List (Exchange C T)

variable (plat : Platform) (order : RouteTree.HashOrder)

def respond (site : AppRoute U C T) (asked : Asked C T) : StateM (World U) (Outcome T) :=
  RouteTree.call (env ids) plat (RouteTree.candidateIndices plat order) asked.buffer (RouteTree.convertToRouteTree site) asked.target
    asked.carried

def serveOne (site : AppRoute U C T) (s : Serving U C T) (asked : Asked C T) : Serving U C T :=
  let out := (respond ids plat order site asked).run {s.world with drawn := [], calls := []}
  ⟨out.2, s.exchanges ++ [⟨asked, out.2.drawn, out.2.calls, out.1⟩]⟩

def serveAll (site : AppRoute U C T) (app : U) (requests : List (Asked C T)) : Serving U C T :=
  requests.foldl (serveOne ids plat order site) ⟨⟨app, 0, [], []⟩, []⟩

end

section
variable {H M V R : Type} {m : Type → Type} [Monad m]

structure Closed (env : Env H M V R m) (allowed : M → Prop) (P : m (SilentResult R) → Prop) : Prop where
  refusal : ∀ e, P (pure (.error e))
  handlers : ∀ map req, P (env.callHandlers map req)
  hook : ∀ hook, allowed hook → ∀ next, (∀ req, P (next req)) → ∀ req, P (env.middleware hook req next)

def Allowing (allowed : M → Prop) (r : Route H M V) : Prop := ∀ hook ∈ r.middlewares, allowed hook

variable {env : Env H M V R m} {allowed : M → Prop} {P : m (SilentResult R) → Prop}

theorem hooksClosed (closed : Closed env allowed P) {hooks : List M} (fine : ∀ hook ∈ hooks, allowed hook)
    {next : Request V → m (SilentResult R)} (below : ∀ req, P (next req)) (req : Request V) :
    P (hooks.foldr (fun hook next req => env.middleware hook req next) next req) := by
  induction hooks generalizing req with
  | nil => exact below req
  | cons hook hooks ih =>
    exact closed.hook hook (fine hook List.mem_cons_self) _ (ih fun other mem => fine other (List.mem_cons_of_mem _ mem)) req

theorem serveClosed (closed : Closed env allowed P) (r : Route H M V) (req : Request V) : P (serve env r req) := by
  unfold serve
  split
  · exact closed.refusal .notFound
  · exact closed.handlers r.handler req

theorem followClosed (closed : Closed env allowed P) (full : Slice) {hits : List (Hit H M V)}
    (fine : ∀ hit ∈ hits, Allowing allowed hit.route) (r : Route H M V) (req : Request V) : P (follow env full r hits req) := by
  induction hits generalizing r req with
  | nil => exact serveClosed closed r req
  | cons hit hits ih =>
    unfold follow
    cases RouteTree.bindParams (segmentOf hit.route) req hit.found full with
    | none => exact closed.refusal .notFound
    | some bound =>
      exact hooksClosed closed (fine hit List.mem_cons_self)
        (ih (fun other mem => fine other (List.mem_cons_of_mem _ mem)) hit.route) _

theorem answerClosed (closed : Closed env allowed P) (plat : Platform) (full : Slice) {r : Route H M V}
    (fine : Throughout (Allowing allowed) r) (rest : Text) (req : Request V) : P (answer env plat full r rest req) := by
  unfold answer
  cases stop : firstStop plat full r rest with
  | none => exact closed.refusal .notFound
  | some hits =>
    rw [firstStopHead] at stop
    exact followClosed closed full (matchesThroughout fine (stopsMatch (List.mem_of_head? stop))) r req

end

section
variable {U C : Type} {T : Payload} (ids : IdSource) (name id : Text)

theorem namesSplit (start m n : Nat) : (List.range' start (m + n)).map ids.names =
    (List.range' start m).map ids.names ++ (List.range' (start + m) n).map ids.names := by
  rw [← List.range'_append_1, List.map_append]

structure Since (w v : World U) (fresh : List (Text × Text)) (calls : List HeaderMap) : Prop where
  drawn : v.drawn = w.drawn ++ fresh
  called : v.calls = w.calls ++ calls
  made : v.made = w.made + fresh.length
  numbered : fresh.map Prod.snd = (List.range' w.made fresh.length).map ids.names

theorem sinceIdle (w : World U) : Since ids w w [] [] := ⟨(List.append_nil _).symm, (List.append_nil _).symm, rfl, rfl⟩

variable {ids} in
theorem sinceAfter {u v w : World U} {fresh later : List (Text × Text)} {calls next : List HeaderMap}
    (first : Since ids u v fresh calls) (second : Since ids v w later next) : Since ids u w (fresh ++ later) (calls ++ next) where
  drawn := by rw [second.drawn, first.drawn, List.append_assoc]
  called := by rw [second.called, first.called, List.append_assoc]
  made := by rw [second.made, first.made, List.length_append, Nat.add_assoc]
  numbered := by rw [List.map_append, first.numbered, second.numbered, first.made, List.length_append, namesSplit]

def within : Effect (World U) where
  rel w v := ∃ fresh calls, Since ids w v fresh calls ∧ (∀ entry ∈ fresh, entry.1 ≠ name) ∧
    ∀ call ∈ calls, HeaderMap.getAll call name = [id]
  idle w := ⟨[], [], sinceIdle ids w, nofun, nofun⟩
  after := by
    rintro u v w ⟨fresh, calls, first, others, named⟩ ⟨later, next, second, others', named'⟩
    refine ⟨fresh ++ later, calls ++ next, sinceAfter first second, fun entry mem => ?_, fun call mem => ?_⟩
    · exact (List.mem_append.mp mem).elim (others entry) (others' entry)
    · exact (List.mem_append.mp mem).elim (named call) (named' call)

def Kept (job : Job U C (Outcome T)) : Prop :=
  ∀ req, HeaderMap.getAll req.headers name = [id] → (within ids name id).Covers (job req)

theorem onAppCovered {A : Type} (x : StateM U A) : (within ids name id).Covers (onApp x) :=
  fun _ => ⟨[], [], ⟨(List.append_nil _).symm, (List.append_nil _).symm, rfl, rfl⟩, nofun, nofun⟩

variable {name id} in
theorem calledCovered {headers : HeaderMap} (named : HeaderMap.getAll headers name = [id]) :
    (within (U := U) ids name id).Covers (called headers) :=
  fun _ => ⟨[], [headers], ⟨(List.append_nil _).symm, rfl, rfl, rfl⟩, nofun, fun _ mem => List.mem_singleton.mp mem ▸ named⟩

theorem newStringSince (headerName : Text) (w : World U) :
    Since ids w ((newString ids headerName).run w).2 [(headerName, ids.names w.made)] [] :=
  ⟨rfl, (List.append_nil _).symm, rfl, rfl⟩

-- A middleware passes requests on whose values under the name are those of the request it got.
def KeepsName (values : List Text) : Script U (Target T × Carried C) (Outcome T) → Prop
  | .done _ => True
  | .access _ resume => ∀ u, KeepsName values (resume u)
  | .forward req resume => HeaderMap.getAll req.2.headers name = values ∧ ∀ res, KeepsName values (resume res)

def Hook.Keeps : Hook U C T → Prop
  | .own code => ∀ target req, KeepsName name (HeaderMap.getAll req.headers name) (code (target, req))
  | _ => True

variable {ids name id}

theorem scriptCovered {next : Target T → Job U C (Outcome T)} (below : ∀ target, Kept ids name id (next target))
    (script : Script U (Target T × Carried C) (Outcome T)) (keeps : KeepsName name [id] script) :
    (within ids name id).Covers (runScript (fun q => next q.1 q.2) script) := by
  induction script with
  | done result => exact coversPure result
  | access update resume ih => exact coversBind (onAppCovered ids name id _) fun u => ih u (keeps u)
  | forward req resume ih => exact coversBind (below req.1 req.2 keeps.1) fun res => ih res (keeps.2 res)

theorem insertedOther (headers : HeaderMap) {other : Text} (differ : name ≠ other) (value : Text) :
    HeaderMap.getAll (insertParsed headers other value) name = HeaderMap.getAll headers name := by
  unfold insertParsed
  cases Sessions.toStr value with
  | none => rfl
  | some value => exact HeaderMap.getAllInsertOther headers differ value

theorem insertedHere (headers : HeaderMap) (visible : Sessions.toStr id = some id) :
    HeaderMap.getAll (insertParsed headers name id) name = [id] := by
  unfold insertParsed
  rw [visible]
  exact HeaderMap.getAllInsert headers name id

theorem givenVisible {headers : HeaderMap} {value : Text} (found : given headers name = some value) :
    Sessions.toStr value = some value := by
  obtain ⟨text, _, read⟩ := Option.bind_eq_some_iff.mp found
  unfold Sessions.toStr at read ⊢
  split at read
  · rename_i seen
    cases read
    exact if_pos seen
  · cases read

theorem givenNamed {headers : HeaderMap} (visible : Sessions.toStr id = some id) (named : HeaderMap.getAll headers name = [id]) :
    given headers name = some id := by
  unfold given HeaderMap.get
  rw [named]
  exact visible

-- The same middleware further down finds the id there is; one under another name makes its own.
theorem requestIdKept (visible : Sessions.toStr id = some id) (headerName : Text) {next : Job U C (Outcome T)}
    (below : Kept ids name id next) : Kept ids name id (fun req => RequestId.handle ids headerName req next) := by
  intro req named
  have passed (value : Text) (still : HeaderMap.getAll (insertParsed req.headers headerName value) name = [id]) :
      (within ids name id).Covers (next {req with headers := insertParsed req.headers headerName value} >>= fun res =>
        pure (res.map (labelled headerName value))) :=
    coversMap (below _ still) _
  change (within ids name id).Covers (settleId ids headerName req.headers >>= fun value =>
    next {req with headers := insertParsed req.headers headerName value} >>= fun res => pure (res.map (labelled headerName value)))
  by_cases same : name = headerName
  · subst same
    have settled : settleId (U := U) ids name req.headers = pure id := by
      unfold settleId
      rw [givenNamed visible named]
    rw [settled, pure_bind]
    exact passed id (insertedHere req.headers visible)
  · have still (value : Text) : HeaderMap.getAll (insertParsed req.headers headerName value) name = [id] :=
      (insertedOther req.headers same value).trans named
    have settled : (within (U := U) ids name id).Covers (settleId ids headerName req.headers) := by
      unfold settleId
      cases given req.headers headerName with
      | some value => exact coversPure value
      | none =>
        exact fun w => ⟨_, [], newStringSince ids headerName w,
          fun entry mem => by rw [List.mem_singleton.mp mem]; exact fun h => same h.symm, nofun⟩
    exact coversBind settled fun value => passed value (still value)

theorem hookKept (visible : Sessions.toStr id = some id) (hook : Hook U C T) (keeps : hook.Keeps name)
    {next : Target T → Job U C (Outcome T)} (below : ∀ target, Kept ids name id (next target)) (target : Target T) :
    Kept ids name id (hook.handle ids target next) := by
  cases hook with
  | requestId headerName => exact requestIdKept visible headerName (below target)
  | altSvc quicPort => exact fun req named => coversMap (below target req named) _
  | logger => exact below target
  | exceptionHandler handler => exact fun req named => coversBind (below target req named) fun _ => onAppCovered ids name id _
  | own code =>
    intro req named
    exact scriptCovered below (code (target, req)) (named ▸ keeps target req)

theorem handlersKept (map : HashMap Method (Handler U C T)) (target : Target T) :
    Kept ids name id ((env ids).callHandlers map target) := by
  intro req named
  have ran (handler : Handler U C T) (after : Outcome T → Outcome T) :
      (within ids name id).Covers ((do called req.headers; onApp (handler target req)) >>= fun res => pure (after res)) :=
    coversMap (coversBind (calledCovered ids named) fun _ => onAppCovered ids name id _) after
  change (within ids name id).Covers ((handlerMapCall GrpcMounts.fill GrpcMounts.clearBody (fun handler target (req : Carried C) => do
    called req.headers
    onApp (handler target req)) map target : Job U C (Outcome T)) req)
  unfold handlerMapCall
  cases map.lookup target.method with
  | some handler => exact ran handler _
  | none =>
    dsimp only
    split
    · cases map.lookup .get with
      | some handler => exact ran handler _
      | none => exact coversPure _
    · exact coversPure _

theorem belowClosed (visible : Sessions.toStr id = some id) :
    Closed (env (U := U) (C := C) (T := T) ids) (Hook.Keeps name) (Kept ids name id) where
  refusal e := fun _ _ => coversPure (Except.error e)
  handlers := handlersKept
  hook hook keeps _ below target := hookKept visible hook keeps below target

end

def Origin (name : Text) (headers : HeaderMap) (id : Text) (drawn : List (Text × Text)) : Prop :=
  match given headers name with
  | some value => id = value ∧ ∀ entry ∈ drawn, entry.1 ≠ name
  | none => ∃ others, drawn = (name, id) :: others ∧ ∀ entry ∈ others, entry.1 ≠ name

def Recovers {U C : Type} {T : Payload} : List (Hook U C T) → Prop
  | .exceptionHandler handler :: _ => ∀ answer state u, ∃ res, ((handler answer state).run u).1 = .ok res
  | _ => False

/- The middleware was reached: the id of the request is settled, handlers were called under it, and
a response carries it. -/
structure Identified {U C : Type} {T : Payload} (name : Text) (inner : List (Hook U C T)) (e : Exchange C T) (id : Text) : Prop where
  origin : Origin name e.asked.carried.headers id e.drawn
  calls : ∀ call ∈ e.calls, HeaderMap.getAll call name = [id]
  answer : ∀ res, e.answer = .ok res → HeaderMap.getAll res.headers name = [id]
  recovered : Recovers inner → ∃ res, e.answer = .ok res

inductive Accounted {U C : Type} {T : Payload} (plat : Platform) (site : AppRoute U C T) (name : Text) (inner : List (Hook U C T))
    (e : Exchange C T) : Prop
  | unrouted (missed : matchAt plat ⟨e.asked.buffer, e.asked.target.uriPath⟩ site e.asked.target.uriPath = none)
      (answer : e.answer = .error .notFound) (drawn : e.drawn = []) (calls : e.calls = [])
  | identified (id : Text) (identified : Identified name inner e id)

section
variable {U C : Type} {T : Payload} (ids : IdSource)

theorem recoveredAnswer {inner : List (Hook U C T)} (recovers : Recovers inner) (next : Target T → Job U C (Outcome T))
    (target : Target T) (req : Carried C) (w : World U) :
    ∃ res, (((inner.foldr (fun hook next target => hook.handle ids target next) next) target req).run w).1 = .ok res := by
  cases inner with
  | nil => cases recovers
  | cons hook more =>
    cases hook with
    | exceptionHandler handler => exact recovers _ _ _
    | _ => cases recovers

theorem settledSince (name : Text) (headers : HeaderMap) (w : World U) :
    ∃ id own, ((settleId ids name headers).run w).1 = id ∧ Sessions.toStr id = some id ∧
      Since ids w ((settleId ids name headers).run w).2 own [] ∧
      ∀ others : List (Text × Text), (∀ entry ∈ others, entry.1 ≠ name) → Origin name headers id (own ++ others) := by
  unfold settleId Origin
  cases found : given headers name with
  | some value => exact ⟨value, [], rfl, givenVisible found, sinceIdle ids w, fun others apart => ⟨rfl, apart⟩⟩
  | none => exact ⟨_, _, rfl, ids.visible w.made, newStringSince ids name w, fun others apart => ⟨others, rfl, apart⟩⟩

theorem outermostIdentifies {name : Text} {inner : List (Hook U C T)} {next : Job U C (Outcome T)}
    (below : ∀ id, Sessions.toStr id = some id → Kept ids name id next)
    (recovers : Recovers inner → ∀ req w, ∃ res, ((next req).run w).1 = .ok res) (asked : Asked C T) {w : World U}
    (undrawn : w.drawn = []) (uncalled : w.calls = []) :
    let out := (RequestId.handle ids name asked.carried next).run w
    (∃ fresh calls, Since ids w out.2 fresh calls) ∧ ∃ id, Identified name inner ⟨asked, out.2.drawn, out.2.calls, out.1⟩ id := by
  intro out
  obtain ⟨id, own, settled, visible, first, origin⟩ := settledSince ids name asked.carried.headers w
  let passed : Carried C := {asked.carried with headers := insertParsed asked.carried.headers name id}
  let before := ((settleId ids name asked.carried.headers).run w).2
  have runs : out = ((((next passed).run before).1).map (labelled name id), ((next passed).run before).2) := by
    subst settled
    rfl
  obtain ⟨fresh, calls, second, apart, named⟩ := below id visible passed (insertedHere asked.carried.headers visible) before
  have since := sinceAfter first second
  rw [runs]
  refine ⟨⟨own ++ fresh, [] ++ calls, since⟩, id, ?_, ?_, ?_, ?_⟩
  · rw [since.drawn, undrawn, List.nil_append]
    exact origin fresh apart
  · rw [since.called, uncalled]
    exact named
  · intro res same
    cases answered : ((next passed).run before).1 with
    | error e =>
      rw [answered] at same
      cases same
    | ok inside =>
      rw [answered] at same
      cases same
      exact insertedHere inside.headers visible
  · intro recovering
    obtain ⟨res, answered⟩ := recovers recovering passed before
    exact ⟨labelled name id res, by rw [answered]; rfl⟩

variable (plat : Platform) (order : RouteTree.HashOrder)

theorem respondAccounted {site : AppRoute U C T} {name : Text} {inner : List (Hook U C T)}
    (outermost : site.middlewares = .requestId name :: inner) (keeps : Throughout (Allowing (Hook.Keeps name)) site) (asked : Asked C T)
    {w : World U} (undrawn : w.drawn = []) (uncalled : w.calls = []) :
    let out := (respond ids plat order site asked).run w
    (∃ fresh calls, Since ids w out.2 fresh calls) ∧ Accounted plat site name inner ⟨asked, out.2.drawn, out.2.calls, out.1⟩ := by
  unfold respond
  rw [callConverted]
  unfold answerRoot
  cases matched : matchAt plat ⟨asked.buffer, asked.target.uriPath⟩ site asked.target.uriPath with
  | none => exact ⟨⟨[], [], sinceIdle ids w⟩, .unrouted matched rfl undrawn uncalled⟩
  | some found =>
    obtain ⟨bound, binds⟩ := bindParamsMatched matched (arrive site ⟨asked.buffer, asked.target.uriPath⟩ asked.target)
      ⟨asked.buffer, asked.target.uriPath⟩
    dsimp only
    rw [binds]
    dsimp only
    unfold enter
    rw [outermost, List.foldr_cons]
    have allowed : ∀ hook ∈ inner, hook.Keeps name := fun hook mem =>
      throughoutHere keeps hook (outermost ▸ List.mem_cons_of_mem _ mem)
    obtain ⟨since, id, identified⟩ := outermostIdentifies ids
      (fun id visible => hooksClosed (belowClosed visible) allowed (answerClosed (belowClosed visible) plat _ keeps found.remain.text) _)
      (fun (recovers : Recovers inner) req w => recoveredAnswer ids recovers _ _ req w) asked undrawn uncalled
    exact ⟨since, .identified id identified⟩

structure Sound (site : AppRoute U C T) (name : Text) (inner : List (Hook U C T)) (s : Serving U C T) : Prop where
  accounted : ∀ e ∈ s.exchanges, Accounted plat site name inner e
  numbered : s.exchanges.flatMap (·.drawn.map Prod.snd) = (List.range s.world.made).map ids.names

theorem serveOneSound {site : AppRoute U C T} {name : Text} {inner : List (Hook U C T)}
    (outermost : site.middlewares = .requestId name :: inner) (keeps : Throughout (Allowing (Hook.Keeps name)) site)
    {s : Serving U C T} (sound : Sound ids plat site name inner s) (asked : Asked C T) :
    Sound ids plat site name inner (serveOne ids plat order site s asked) := by
  obtain ⟨⟨fresh, calls, since⟩, accounted⟩ := respondAccounted ids plat order outermost keeps asked
    (w := {s.world with drawn := [], calls := []}) rfl rfl
  constructor
  · intro e among
    rcases List.mem_append.mp among with before | new
    · exact sound.accounted e before
    · rw [List.mem_singleton.mp new]
      exact accounted
  · unfold serveOne
    dsimp only
    rw [List.flatMap_append, sound.numbered, List.flatMap_singleton, since.drawn, since.made, List.nil_append, since.numbered,
      List.range_eq_range', List.range_eq_range', namesSplit, Nat.zero_add]

theorem requestIdsAgree {site : AppRoute U C T} {name : Text} {inner : List (Hook U C T)}
    (outermost : site.middlewares = .requestId name :: inner) (keeps : Throughout (Allowing (Hook.Keeps name)) site) (app : U)
    (requests : List (Asked C T)) :
    (serveAll ids plat order site app requests).exchanges.map (·.asked) = requests ∧
      (∀ e ∈ (serveAll ids plat order site app requests).exchanges, Accounted plat site name inner e) ∧
      (serveAll ids plat order site app requests).exchanges.flatMap (·.drawn.map Prod.snd) =
        (List.range (serveAll ids plat order site app requests).world.made).map ids.names := by
  have run (s : Serving U C T) (sound : Sound ids plat site name inner s) :
      (requests.foldl (serveOne ids plat order site) s).exchanges.map (·.asked) = s.exchanges.map (·.asked) ++ requests ∧
        Sound ids plat site name inner (requests.foldl (serveOne ids plat order site) s) := by
    induction requests generalizing s with
    | nil => exact ⟨(List.append_nil _).symm, sound⟩
    | cons asked requests ih =>
      obtain ⟨each, sound⟩ := ih _ (serveOneSound ids plat order outermost keeps sound asked)
      refine ⟨?_, sound⟩
      rw [List.foldl_cons, each]
      simp [serveOne]
  obtain ⟨each, sound⟩ := run ⟨⟨app, 0, [], []⟩, []⟩ ⟨fun _ among => absurd among List.not_mem_nil, rfl⟩
  exact ⟨each, sound.accounted, sound.numbered⟩

end

def idName : Text := "x-request-id".toList

def twoIds : IdSource where
  names i := List.replicate 24 '0' ++ [if i % 2 = 0 then '0' else '1']
  visible i := by split <;> decide

def greeting : Handler Nat Unit TowerCompat.plainPayload := fun _ _ greeted => (.ok Response.empty, greeted + 1)

def recovering : Hook Nat Unit TowerCompat.plainPayload :=
  .exceptionHandler fun answer _ => pure (.ok (match answer with
    | .ok res => res
    | .error e => Responses.fromError (fun _ => none) (fun _ => false) e))

def innerHooks : List (Hook Nat Unit TowerCompat.plainPayload) :=
  [recovering, .requestId "x-trace-id".toList, .altSvc 4433, .logger, .requestId idName]

def hello : AppRoute Nat Unit TowerCompat.plainPayload :=
  {(Route.single "hello".toList "hello".toList).insertHandler .get greeting with middlewares := .requestId idName :: innerHooks}

def askedHello (headers : HeaderMap) : Asked Unit TowerCompat.plainPayload :=
  ⟨0, ⟨.get, "/hello".toList, ∅, none, ∅⟩, ⟨headers, ()⟩⟩

def servedHello : Serving Nat Unit TowerCompat.plainPayload :=
  serveAll twoIds literalAbove entryOrder hello 0 [askedHello [], askedHello [(idName, "abc".toList)]]

theorem requestIdsAgreeHello : servedHello.exchanges.length = 2 ∧
    ∀ e ∈ servedHello.exchanges, ∃ id, Identified idName innerHooks e id := by
  have hooks : Allowing (Hook.Keeps idName) hello := by
    intro hook mem
    fin_cases mem <;> trivial
  have outermost : hello.middlewares = .requestId idName :: innerHooks := rfl
  have agree := requestIdsAgree twoIds literalAbove entryOrder outermost (.node hooks nofun) 0
    [askedHello [], askedHello [(idName, "abc".toList)]]
  have each : servedHello.exchanges.map (·.asked) = [askedHello [], askedHello [(idName, "abc".toList)]] := agree.1
  refine ⟨(List.length_map _).symm.trans (congrArg List.length each), fun e mem => ?_⟩
  have routed : matchAt literalAbove ⟨e.asked.buffer, e.asked.target.uriPath⟩ hello e.asked.target.uriPath ≠ none := by
    have among : e.asked ∈ [askedHello [], askedHello [(idName, "abc".toList)]] := each ▸ List.mem_map_of_mem mem
    generalize e.asked = asked at among
    fin_cases among <;> nofun
  cases agree.2.1 e mem with
  | unrouted missed _ _ _ => exact absurd missed routed
  | identified id identified => exact ⟨id, identified⟩

end Silent.RequestIds
