import Silent.RouteChains
import Silent.RouteConnection
import Silent.TwoRuns

/-! What an application cannot tell apart. Its handlers, middlewares and stores work on the
shared state, so two runs in which that state is the same stay so, whatever the default
session stores hold. -/
namespace Silent.ConnectionAgreement
open ByteText PathSegment HttpRequest RouteBuilder RouteShape Dispatch RouterSearch RouterRefinement RouteChains
open Cookies TwoRuns RouteConnection
open Sessions (SessionStore SessionMiddleware.handle)

section
variable {T : Kinds} {J : World T → World T → Prop}

/-- A relation that looks at the shared state only to see that it is the same. -/
structure Oblivious (J : World T → World T → Prop) : Prop where
  same : ∀ {w v}, J w v → w.shared = v.shared
  moved : ∀ {w v}, J w v → ∀ shared, J {w with shared} {v with shared}

def Steady {A : Type} (J : World T → World T → Prop) (x : StateM (World T) A) : Prop := Agrees J x x (fun _ => J)

theorem sharedSteady (oblivious : Oblivious J) {A : Type} (x : StateM (Shared T) A) : Steady J (onShared x) := by
  intro w v joined
  have same := oblivious.same joined
  refine ⟨?_, ?_⟩
  · change (x.run w.shared).1 = (x.run v.shared).1
    rw [same]
  · change J {w with shared := (x.run w.shared).2} {v with shared := (x.run v.shared).2}
    rw [same]
    exact oblivious.moved joined _

theorem scriptSteady (oblivious : Oblivious J) {Q R : Type} {next : Q → StateM (World T) R} (below : ∀ q, Steady J (next q))
    (script : Script (Shared T) Q R) : Steady J (script.run next) := by
  induction script with
  | done result => exact agreesPure _ fun _ _ joined => joined
  | access update resume ih => exact agreesBind (sharedSteady oblivious _) ih
  | forward req resume ih => exact agreesBind (below req) ih

structure StoresAgree (J : World T → World T → Prop) (K : Text → World T → World T → Prop)
    (N : Session → World T → World T → Prop) (left right : SessionStore (StateM (World T)) Session) : Prop where
  new : Agrees J left.newSession right.newSession N
  store : ∀ session, Agrees (N session) (left.storeSession session) (right.storeSession session)
    (onOk (fun taken w v => J w v ∧ ∀ key, taken = some key → K key w v) J)
  load : ∀ key, Agrees (K key) (left.loadSession key) (right.loadSession key) (fun _ => J)

section
variable {K : Text → World T → World T → Prop} {N : Session → World T → World T → Prop}
  {left right : SessionStore (StateM (World T)) Session}

theorem createAgrees (stores : StoresAgree J K N left right) :
    Agrees J (Sessions.createSession left).run (Sessions.createSession right).run (onOk K J) := by
  refine agreesExceptBind (agreesLift stores.new) fun session => agreesExceptBind (stores.store session) fun taken => ?_
  cases taken with
  | none => exact agreesPure _ fun _ _ holds => holds.1
  | some key => exact agreesPure _ fun _ _ holds => holds.2 key rfl

theorem replaceAgrees (stores : StoresAgree J K N left right) :
    Agrees J (Sessions.replaceSession left).run (Sessions.replaceSession right).run (onOk (fun _ => J) J) := by
  refine agreesExceptBind (createAgrees stores) fun key => agreesExceptBind (agreesOnOk.mpr (stores.load key)) fun found => ?_
  cases found with
  | none => exact agreesPure _ fun _ _ holds => holds
  | some session => exact agreesPure _ fun _ _ holds => holds

theorem loadOrReplaceAgrees (stores : StoresAgree J K N left right) (key : Text) (created : Bool) :
    Agrees (K key) (Sessions.loadOrReplace left key created).run (Sessions.loadOrReplace right key created).run
      (onOk (fun _ => J) J) := by
  refine agreesExceptBind (agreesLift (stores.load key)) fun found => ?_
  rcases found with e | (_ | session)
  · exact replaceAgrees stores
  · exact replaceAgrees stores
  · exact agreesPure _ fun _ _ holds => holds

theorem openAgrees (stores : StoresAgree J K N left right) (jar : CookieJar) :
    Agrees (fun w v => J w v ∧ ∀ cookie, jar.get Sessions.sessionName = some cookie → K cookie.value w v)
      (Sessions.openSession left jar).run (Sessions.openSession right jar).run (onOk (fun _ => J) J) := by
  unfold Sessions.openSession
  cases carried : jar.get Sessions.sessionName with
  | some cookie => exact agreesWeaken (loadOrReplaceAgrees stores cookie.value false) (fun _ _ holds => holds.2 cookie rfl) (fun _ _ _ holds => holds)
  | none =>
    have fresh := agreesExceptBind (createAgrees stores) fun key => loadOrReplaceAgrees stores key true
    exact agreesWeaken fresh (fun _ _ holds => holds.1) (fun _ _ _ holds => holds)

theorem sessionAgrees (stores : StoresAgree J K N left right) (carried : Carried T)
    {next : Carried T → StateM (World T) (Answer T)} (below : ∀ carried, Steady J (next carried)) :
    Agrees (fun w v => J w v ∧ ∀ cookie, carried.cookies.get Sessions.sessionName = some cookie → K cookie.value w v)
      (SessionMiddleware.handle left carried next) (SessionMiddleware.handle right carried next) (fun _ => J) := by
  unfold SessionMiddleware.handle
  refine agreesOnOk.mp (agreesExceptBind (openAgrees stores carried.cookies) fun opened => ?_)
  exact agreesExceptBind (agreesOnOk.mpr (below _)) fun res => agreesPure _ fun _ _ holds => holds

end

theorem ownStoresAgree (oblivious : Oblivious J) (store : SessionStore (StateM (Shared T)) Session) :
    StoresAgree J (fun _ => J) (fun _ => J) (ownStore store) (ownStore store) where
  new := sharedSteady oblivious store.newSession
  store session := agreesWeaken (sharedSteady oblivious (store.storeSession session)) (fun _ _ holds => holds) fun taken _ _ holds => by
    cases taken with
    | ok taken => exact ⟨holds, fun _ _ => holds⟩
    | error e => exact holds
  load key := sharedSteady oblivious (store.loadSession key)

variable (outside : Outside T) (oblivious : Oblivious J)
include oblivious

theorem ownSteady (hook : Own T) {next : Target T → Job T (Answer T)} (below : ∀ target carried, Steady J (next target carried))
    (target : Target T) (carried : Carried T) : Steady J ((Hook.own hook).handle outside target next carried) := by
  cases hook with
  | middleware code => exact scriptSteady oblivious (fun q => below q.1 q.2) (code (target, carried))
  | session store =>
    exact agreesWeaken (sessionAgrees (ownStoresAgree oblivious store) carried (below target))
      (fun _ _ holds => ⟨holds, fun _ _ => holds⟩) (fun _ _ _ holds => holds)

theorem enterSteady {r : AppRoute T} (own : OwnHooks r) {next : Target T → Job T (Answer T)}
    (below : ∀ target carried, Steady J (next target carried)) (target : Target T) (carried : Carried T) :
    Steady J (enter (env outside) r next target carried) := by
  unfold enter
  unfold OwnHooks at own
  generalize r.middlewares = hooks at own
  induction hooks generalizing target carried with
  | nil => exact below target carried
  | cons hook hooks ih =>
    obtain ⟨hook, rfl⟩ := own _ List.mem_cons_self
    exact ownSteady outside oblivious hook (fun target carried => ih target carried fun h mem => own h (List.mem_cons_of_mem _ mem))
      target carried

theorem serveSteady (r : AppRoute T) (target : Target T) (carried : Carried T) : Steady J (serve (env outside) r target carried) := by
  have handled (handler : Handler T) (after : Answer T → Answer T) :
      Steady J (onShared (handler target carried) >>= fun res => pure (after res)) :=
    agreesBind (sharedSteady oblivious _) fun res => agreesPure _ fun _ _ holds => holds
  have refused (e : SilentError) : Steady J (pure (Except.error e) : StateM (World T) (Answer T)) := agreesPure _ fun _ _ holds => holds
  unfold serve
  split
  · exact refused _
  · change Steady J ((handlerMapCall outside.fill outside.clearBody (fun handler target carried => onShared (handler target carried))
      r.handler target : Job T (Answer T)) carried)
    unfold handlerMapCall
    cases r.handler.lookup target.method with
    | some handler => exact handled handler _
    | none =>
      dsimp only
      split
      · cases r.handler.lookup .get with
        | some handler => exact handled handler _
        | none => exact refused _
      · exact refused _

theorem followSteady (full : Slice) (r : AppRoute T) (hits : List (Hit (Handler T) (Hook T) T.value))
    (own : ∀ hit ∈ hits, OwnHooks hit.route) (target : Target T) (carried : Carried T) :
    Steady J (follow (env outside) full r hits target carried) := by
  induction hits generalizing r target carried with
  | nil => exact serveSteady outside oblivious r target carried
  | cons hit hits ih =>
    unfold follow
    cases RouteTree.bindParams (segmentOf hit.route) target hit.found full with
    | none => exact agreesPure _ fun _ _ holds => holds
    | some bound =>
      exact enterSteady outside oblivious (own hit List.mem_cons_self)
        (fun target carried => ih hit.route (fun other mem => own other (List.mem_cons_of_mem _ mem)) target carried) _ _

theorem answerSteady (plat : Platform) (full : Slice) {r : AppRoute T} (own : Throughout OwnHooks r) (rest : Text) (target : Target T)
    (carried : Carried T) : Steady J (answer (env outside) plat full r rest target carried) := by
  unfold answer
  cases stop : firstStop plat full r rest with
  | none => exact agreesPure _ fun _ _ holds => holds
  | some hits =>
    rw [firstStopHead] at stop
    exact followSteady outside oblivious full r hits (matchesThroughout own (stopsMatch (List.mem_of_head? stop))) target carried

end

end Silent.ConnectionAgreement
