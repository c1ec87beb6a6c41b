import Silent.ConnectionAgreement

/-! A route served by a tree for each connection against the same route served by one
shared tree. The one store of the second run holds what the stores of the first hold
together, so the runs agree while no request asks for a session of another connection. -/
namespace Silent.ConnectionSharing
open ByteText PathSegment HttpRequest RouteBuilder RouteShape Dispatch RouterSearch RouterRefinement RouteChains
open Cookies StepSystem TwoRuns RouteConnection ConnectionAgreement
open Sessions (SessionStore SessionMiddleware.handle CookieMiddleware.handle)

/-- The stores of `n` connections in one run, the one shared store in the other. -/
structure Joined {T : Kinds} (source : CookieSource) (n : Nat) (w v : World T) : Prop where
  shared : w.shared = v.shared
  drawn : w.drawn = v.drawn
  slots : w.stores.length = n
  single : v.stores.length = 1
  held : ∀ id session, (v.store 0).lookup id = some session ↔ ∃ slot, (w.store slot).lookup id = some session
  known : ∀ slot id session, (w.store slot).lookup id = some session → ∃ i < w.drawn, source.ids i = id

def Unstored {T : Kinds} (source : CookieSource) (session : Session) (w : World T) : Prop :=
  ∃ i < w.drawn, session.id = source.ids i ∧ session.cookieValue = some (source.draws i) ∧
    ∀ slot, (w.store slot).lookup session.id = none

section
variable {T : Kinds} {source : CookieSource} {n c : Nat} {w v : World T}

theorem joinedOblivious : Oblivious (Joined (T := T) source n) where
  same joined := joined.shared
  moved joined _ := ⟨rfl, joined.drawn, joined.slots, joined.single, joined.held, joined.known⟩

theorem freshUnheld (joined : Joined source n w v) {i : Nat} (fresh : w.drawn ≤ i) (slot : Nat) :
    (w.store slot).lookup (source.ids i) = none := by
  cases found : (w.store slot).lookup (source.ids i) with
  | none => rfl
  | some session =>
    obtain ⟨j, drawn, same⟩ := joined.known slot _ session found
    have equal := source.distinct j i same
    omega

theorem lookupStored (inside : c < w.stores.length) (session : Session) (slot : Nat) (id : Text) :
    (World.store {w with stores := w.stores.modify c (·.insert session.id session.clone)} slot).lookup id =
      if slot = c ∧ id = session.id then some session.clone else (w.store slot).lookup id := by
  unfold World.store
  rw [List.getD_eq_getElem?_getD, List.getD_eq_getElem?_getD, List.getElem?_modify]
  by_cases here : slot = c
  · subst here
    rw [List.getElem?_eq_getElem inside]
    by_cases same : id = session.id
    · subst same
      simp
    · simp [same]
  · simp [here, Ne.symm here]

theorem newAgrees : Agrees (Joined (T := T) source n) (memoryStore source c).newSession (memoryStore source 0).newSession
    (fun session w v => Joined source n w v ∧ Unstored source session w) := by
  intro w v joined
  have sameId : source.ids w.drawn = source.ids v.drawn := by rw [joined.drawn]
  refine ⟨?_, ⟨?_, congrArg (· + 1) joined.drawn, joined.slots, joined.single, joined.held, ?_⟩,
    w.drawn, Nat.lt_succ_self _, rfl, rfl, freshUnheld joined (Nat.le_refl _)⟩
  · change Session.mk _ _ _ = Session.mk _ _ _
    rw [joined.drawn, joined.shared]
  · change Shared.mk _ _ = Shared.mk _ _
    rw [joined.shared]
  · intro slot id session found
    obtain ⟨i, drawn, same⟩ := joined.known slot id session found
    exact ⟨i, Nat.lt_succ_of_lt drawn, same⟩

theorem joinedStored (inside : c < n) (joined : Joined source n w v) {session : Session} (unstored : Unstored source session w) :
    Joined source n {w with stores := w.stores.modify c (·.insert session.id session.clone)}
      {v with stores := v.stores.modify 0 (·.insert session.id session.clone)} := by
  obtain ⟨i, drawn, named, -, unheld⟩ := unstored
  have left := lookupStored (by rw [joined.slots]; exact inside) session
  have right := lookupStored (by rw [joined.single]; exact Nat.zero_lt_one) session
  refine ⟨joined.shared, joined.drawn, by simpa using joined.slots, by simpa using joined.single, ?_, ?_⟩
  · intro id held
    rw [right]
    simp only [left, true_and]
    by_cases same : id = session.id
    · rw [if_pos same]
      constructor
      · intro kept
        exact ⟨c, (if_pos ⟨rfl, same⟩).trans kept⟩
      · rintro ⟨slot, found⟩
        split at found
        · exact found
        · rw [same, unheld slot] at found
          cases found
    · simpa only [same, and_false, if_false] using joined.held id held
  · intro slot id held found
    rw [left] at found
    split at found
    · rename_i here
      exact ⟨i, drawn, named.symm.trans here.2.symm⟩
    · exact joined.known slot id held found

theorem nearbyStored (inside : c < w.stores.length) {session : Session} (unstored : Unstored source session w) {key : Text}
    (kept : session.cookieValue = some key) :
    Nearby source c key {w with stores := w.stores.modify c (·.insert session.id session.clone)} := by
  obtain ⟨i, -, named, value, unheld⟩ := unstored
  intro id decoded other apart
  have drawn : key = source.draws i := Option.some.inj (kept.symm.trans value)
  rw [drawn, source.decodes i] at decoded
  cases decoded
  rw [lookupStored inside, if_neg fun both => apart both.1, ← named]
  exact unheld other

theorem storeAgrees (inside : c < n) (session : Session) :
    Agrees (fun w v => Joined (T := T) source n w v ∧ Unstored source session w)
      ((memoryStore source c).storeSession session) ((memoryStore source 0).storeSession session)
      (onOk (fun taken w v => Joined source n w v ∧
        ∀ key, taken = some key → Joined source n w v ∧ Nearby source c key w) (Joined source n)) := by
  rintro w v ⟨joined, unstored⟩
  have kept := joinedStored inside joined unstored
  exact ⟨rfl, kept, fun key taken => ⟨kept, nearbyStored (Nat.lt_of_lt_of_eq inside joined.slots.symm) unstored taken⟩⟩

theorem loadAgrees (key : Text) :
    Agrees (fun w v => Joined (T := T) source n w v ∧ Nearby source c key w)
      ((memoryStore source c).loadSession key) ((memoryStore source 0).loadSession key) (fun _ => Joined source n) := by
  rintro w v ⟨joined, nearby⟩
  unfold memoryStore
  dsimp only
  cases decoded : source.idOf key with
  | error message => exact ⟨rfl, joined⟩
  | ok id =>
    have same : (w.store c).lookup id = (v.store 0).lookup id := by
      cases right : (v.store 0).lookup id with
      | some session =>
        obtain ⟨slot, found⟩ := (joined.held id session).mp right
        by_cases here : slot = c
        · rw [← here, found]
        · rw [nearby id decoded slot here] at found
          cases found
      | none =>
        cases left : (w.store c).lookup id with
        | none => rfl
        | some session => exact ((joined.held id session).mpr ⟨c, left⟩).symm.trans right
    exact ⟨congrArg Except.ok same, joined⟩

theorem memoryStoresAgree (inside : c < n) :
    StoresAgree (Joined (T := T) source n) (fun key w v => Joined source n w v ∧ Nearby source c key w)
      (fun session w v => Joined source n w v ∧ Unstored source session w) (memoryStore source c) (memoryStore source 0) where
  new := newAgrees
  store := storeAgrees inside
  load := loadAgrees

end

section
variable {T : Kinds} (outside : Outside T)

def hooked (scheduler : Bool) (route : AppRoute T) (slot : Option Nat) : AppRoute T :=
  let route := match slot with
    | some slot => route.hookFirst (.memorySession slot)
    | none => route
  let route := checkCookie route
  if scheduler then route.hookFirst .scheduler else route

def atSession (slot : Option Nat) (inner : Target T → Job T (Answer T)) (target : Target T) (carried : Carried T) :
    StateM (World T) (Answer T) :=
  match slot with
  | some slot => (Hook.memorySession slot).handle outside target inner carried
  | none => inner target carried

section
variable (scheduler : Bool) (route : AppRoute T) (slot : Option Nat)

theorem hookedMatch (plat : Platform) (full : Slice) (rest : Text) :
    matchAt plat full (hooked scheduler route slot) rest = matchAt plat full route rest := by
  cases scheduler <;> cases slot <;> rfl

theorem hookedSegment : segmentOf (hooked scheduler route slot) = segmentOf route := by
  cases scheduler <;> cases slot <;> rfl

theorem hookedArrive (full : Slice) (target : Target T) : arrive (hooked scheduler route slot) full target = arrive route full target := by
  cases scheduler <;> cases slot <;> rfl

theorem hookedState (target : Target T) : addState (hooked scheduler route slot) target = addState route target := by
  cases scheduler <;> cases slot <;> rfl

theorem hookedAnswer (plat : Platform) (full : Slice) (rest : Text) :
    answer (env outside) plat full (hooked scheduler route slot) rest = answer (env outside) plat full route rest := by
  have stop : firstStop plat full (hooked scheduler route slot) rest = firstStop plat full route rest := by
    rw [firstStopEq, firstStopEq, hookedSegment]
    cases scheduler <;> cases slot <;> rfl
  funext target
  unfold answer
  rw [stop]
  cases firstStop plat full route rest with
  | none => rfl
  | some hits =>
    cases hits with
    | nil => cases scheduler <;> cases slot <;> rfl
    | cons hit hits => rfl

theorem hookedEnter (next : Target T → Job T (Answer T)) (target : Target T) (carried : Carried T) :
    enter (env outside) (hooked scheduler route slot) next target carried =
      CookieMiddleware.handle outside.parse (if scheduler then insertScheduler outside carried else carried)
        (atSession outside slot (enter (env outside) route next) target) := by
  cases scheduler <;> cases slot <;> rfl

end

variable {J : World T → World T → Prop} {pre : World T → World T → Prop}

theorem cookieAgrees {carried : Carried T} {left right : Carried T → StateM (World T) (Answer T)}
    (joined : ∀ w v, pre w v → J w v)
    (nexts : ∀ jar, Sessions.readCookies outside.parse 400 carried.headers = .ok jar →
      Agrees pre (left (carried.insertCookies jar)) (right (carried.insertCookies jar)) (fun _ => J)) :
    Agrees pre (CookieMiddleware.handle outside.parse carried left) (CookieMiddleware.handle outside.parse carried right)
      (fun _ => J) := by
  unfold CookieMiddleware.handle
  cases read : Sessions.readCookies outside.parse 400 carried.headers with
  | error e => exact agreesPure _ joined
  | ok jar => exact agreesBind (nexts jar read) fun res => agreesPure _ fun _ _ holds => holds

theorem memoryRootAgrees (plat : Platform) (scheduler : Bool) (app : App T) {n c : Nat} (inside : c < n) (buffer : Nat)
    (target : Target T) (carried : Carried T) :
    Agrees (fun w v => Joined outside.source n w v ∧ NamesNearby outside c carried w)
      (answerRoot (env outside) plat buffer (hooked scheduler app.route (some c)) target carried)
      (answerRoot (env outside) plat buffer (hooked scheduler app.route (some 0)) target carried)
      (fun _ => Joined outside.source n) := by
  unfold answerRoot
  simp only [hookedMatch, hookedSegment, hookedArrive, hookedState, hookedAnswer]
  cases matchAt plat ⟨buffer, target.uriPath⟩ app.route target.uriPath with
  | none => exact agreesPure _ fun _ _ holds => holds.1
  | some found =>
    dsimp only
    cases RouteTree.bindParams (segmentOf app.route) (arrive app.route ⟨buffer, target.uriPath⟩ target) found ⟨buffer, target.uriPath⟩ with
    | none => exact agreesPure _ fun _ _ holds => holds.1
    | some bound =>
      dsimp only
      rw [hookedEnter, hookedEnter]
      have headers : (if scheduler then insertScheduler outside carried else carried).headers = carried.headers := by
        cases scheduler <;> rfl
      refine cookieAgrees outside (fun _ _ holds => holds.1) fun jar read => ?_
      rw [headers] at read
      have below : ∀ seen carried, Steady (Joined outside.source n) (enter (env outside) app.route
          (answer (env outside) plat ⟨buffer, target.uriPath⟩ app.route found.remain.text) seen carried) :=
        enterSteady outside joinedOblivious (throughoutHere app.own)
          (answerSteady outside joinedOblivious plat ⟨buffer, target.uriPath⟩ app.own found.remain.text)
      exact agreesWeaken (sessionAgrees (memoryStoresAgree inside) _ (below _))
        (fun w v holds => ⟨holds.1, fun cookie named => ⟨holds.1, holds.2 jar cookie read named⟩⟩) (fun _ _ _ holds => holds)

end

section
variable {T : Kinds} (scheduler : Bool) (route : AppRoute T)

def treeFor (slot : Option Nat) : Tree T := RouteTree.convertToRouteTree (hooked scheduler route slot)

theorem buildOwn (set : route.sessionSet = true) : buildRouteTree scheduler route = pure (treeFor scheduler route none) := by
  have kept : checkSession route = pure route := if_pos set
  unfold buildRouteTree
  rw [kept]
  rfl

theorem buildMemory (unset : route.sessionSet = false) (w : World T) :
    (buildRouteTree scheduler route).run w =
      (treeFor scheduler route (some w.stores.length), {w with stores := w.stores ++ [∅]}) := by
  have fresh : checkSession route = (do
      let slot ← allocate
      pure (route.hookFirst (.memorySession slot))) := if_neg (by rw [unset]; exact Bool.false_ne_true)
  unfold buildRouteTree
  rw [fresh]
  rfl

variable (outside : Outside T) (plat : Platform)

theorem respondTree (order : RouteTree.HashOrder) (slot : Option Nat) (buffer : Nat) (target : Target T) (carried : Carried T) :
    respond outside plat order (treeFor scheduler route slot) buffer target carried = (do
      let answer ← answerRoot (env outside) plat buffer (hooked scheduler route slot) target
        (Sessions.intoInternal outside.parse carried)
      pure (intoReply outside answer)) := by
  unfold respond treeFor
  rw [callConverted]

structure Matching (J : Nat → World T → World T → Prop) (fine : Nat → Carried T → World T → Prop) (slots : Nat → Option Nat)
    (slot : Option Nat) (left right : StateM (World T) (Tree T)) : Prop where
  leftTree : ∀ {n w v}, J n w v → (left.run w).1 = treeFor scheduler route (slots n)
  rightTree : ∀ {n w v}, J n w v → (right.run v).1 = treeFor scheduler route slot
  connects : ∀ {n w v}, J n w v → J (n + 1) (left.run w).2 (right.run v).2
  answers : ∀ {n c}, c < n → ∀ buffer target carried, Agrees (fun w v => J n w v ∧ fine c carried w)
    (answerRoot (env outside) plat buffer (hooked scheduler route (slots c)) target (Sessions.intoInternal outside.parse carried))
    (answerRoot (env outside) plat buffer (hooked scheduler route slot) target (Sessions.intoInternal outside.parse carried))
    (fun _ => J n)

structure Paired (J : Nat → World T → World T → Prop) (slots : Nat → Option Nat) (slot : Option Nat) (a b : Server T) : Prop where
  length : b.connections.length = a.connections.length
  left : ∀ c tree, a.connections[c]? = some tree → tree = treeFor scheduler route (slots c)
  right : ∀ (c : Nat) tree, b.connections[c]? = some tree → tree = treeFor scheduler route slot
  worlds : J a.connections.length a.world b.world
  replies : a.replies = b.replies

variable {J : Nat → World T → World T → Prop} {fine : Nat → Carried T → World T → Prop} {slots : Nat → Option Nat} {slot : Option Nat}
  {left right : StateM (World T) (Tree T)}

theorem snocTree {trees : List (Tree T)} {tree : Tree T} {P : Nat → Tree T → Prop} (before : ∀ c t, trees[c]? = some t → P c t)
    (last : P trees.length tree) : ∀ c t, (trees ++ [tree])[c]? = some t → P c t := by
  intro c t found
  rcases Nat.lt_trichotomy c trees.length with inside | here | beyond
  · rw [List.getElem?_append_left inside] at found
    exact before c t found
  · subst here
    rw [List.getElem?_concat_length] at found
    cases found
    exact last
  · rw [List.getElem?_eq_none (by simp; omega)] at found
    cases found

theorem pairedStep (orders others : Nat → RouteTree.HashOrder)
    (matching : Matching scheduler route outside plat J fine slots slot left right) (a b : Server T) (e : Event T)
    (allowed : Fine fine a e) (paired : Paired scheduler route J slots slot a b) :
    Option.Rel (Paired scheduler route J slots slot) (step outside plat orders left a e) (step outside plat others right b e) := by
  cases e with
  | connect =>
    refine .some ⟨?_, ?_, ?_, ?_, paired.replies⟩
    · simp [Server.connected, paired.length]
    · exact snocTree paired.left (matching.leftTree paired.worlds)
    · exact snocTree paired.right (matching.rightTree paired.worlds)
    · have grown : (a.connected (left.run a.world)).connections.length = a.connections.length + 1 := by simp [Server.connected]
      rw [grown]
      exact matching.connects paired.worlds
  | request c buffer target carried =>
    change Option.Rel _ (a.connections[c]?.map _) (b.connections[c]?.map _)
    by_cases inside : c < a.connections.length
    · have atLeft := List.getElem?_eq_getElem inside
      have atRight := List.getElem?_eq_getElem (Nat.lt_of_lt_of_eq inside paired.length.symm)
      have replied : Agrees (fun w v => J a.connections.length w v ∧ fine c carried w)
          (respond outside plat (orders c) (treeFor scheduler route (slots c)) buffer target carried)
          (respond outside plat (others c) (treeFor scheduler route slot) buffer target carried)
          (fun _ => J a.connections.length) := by
        rw [respondTree, respondTree]
        exact agreesBind (matching.answers inside buffer target carried) fun answer => agreesPure _ fun _ _ holds => holds
      obtain ⟨same, joined⟩ := replied a.world b.world ⟨paired.worlds, allowed⟩
      rw [atLeft, atRight, paired.left c _ atLeft, paired.right c _ atRight]
      refine .some ⟨paired.length, paired.left, paired.right, joined, ?_⟩
      change a.replies ++ [_] = b.replies ++ [_]
      rw [paired.replies, same]
    · have missing := List.getElem?_eq_none (Nat.le_of_not_lt inside)
      have missing' := List.getElem?_eq_none (Nat.le_of_not_lt fun within => inside (Nat.lt_of_lt_of_eq within paired.length))
      rw [missing, missing']
      exact .none

theorem pairedReplies (orders others : Nat → RouteTree.HashOrder)
    (matching : Matching scheduler route outside plat J fine slots slot left right) (events : List (Event T)) {a b : Server T}
    (along : Along (step outside plat orders left) (Fine fine) a events) (paired : Paired scheduler route J slots slot a b) :
    (exec (step outside plat orders left) a events).map Server.replies =
      (exec (step outside plat others right) b events).map Server.replies := by
  have ended := execLockstep (pairedStep scheduler route outside plat orders others matching) events along paired
  revert ended
  generalize exec (step outside plat orders left) a events = one
  generalize exec (step outside plat others right) b events = two
  intro ended
  cases ended with
  | some paired => exact congrArg some paired.replies
  | none => rfl

end

section
variable {T : Kinds} (outside : Outside T) (plat : Platform) (scheduler : Bool)

theorem storeAppend (w : World T) (slot : Nat) : World.store {w with stores := w.stores ++ [∅]} slot = w.store slot := by
  unfold World.store
  rcases Nat.lt_trichotomy slot w.stores.length with inside | here | beyond
  · simp [List.getElem?_append_left inside]
  · simp [here]
  · have past : ([∅] : List MemoryStore)[slot - w.stores.length]? = none :=
      List.getElem?_eq_none (by rw [List.length_singleton]; omega)
    simp [List.getElem?_eq_none (Nat.le_of_lt beyond), List.getElem?_append_right (Nat.le_of_lt beyond), past]

theorem joinedConnect {source : CookieSource} {n : Nat} {w v : World T} (joined : Joined source n w v) :
    Joined source (n + 1) {w with stores := w.stores ++ [∅]} v := by
  refine ⟨joined.shared, joined.drawn, by simp [joined.slots], joined.single, ?_, ?_⟩
  · simpa only [storeAppend] using joined.held
  · simpa only [storeAppend] using joined.known

theorem joinedStart (source : CookieSource) (drawn : Nat) (shared : Shared T) :
    Joined source 0 ⟨[], drawn, shared⟩ ⟨[∅], drawn, shared⟩ := by
  refine ⟨rfl, rfl, rfl, rfl, ?_, ?_⟩
  · simp [World.store]
  · simp [World.store]

theorem ownMatching {route : AppRoute T} (set : route.sessionSet = true) (service : RouteConnectionService T)
    (tree : service.frozenTree = treeFor scheduler route none) :
    Matching scheduler route outside plat (fun _ w v => w = v) (fun _ _ _ => True) (fun _ => none) none
      (Route.call scheduler route) service.call := by
  have called : Route.call scheduler route = pure (treeFor scheduler route none) := by
    unfold Route.call RouteConnectionService.new
    rw [buildOwn scheduler route set]
    rfl
  rw [called]
  refine ⟨fun _ => rfl, fun _ => tree, fun same => same, fun _ buffer target carried w v holds => ?_⟩
  cases holds.1
  exact ⟨rfl, rfl⟩

theorem memoryMatching (app : App T) (unset : app.route.sessionSet = false) (service : RouteConnectionService T)
    (tree : service.frozenTree = treeFor scheduler app.route (some 0)) :
    Matching scheduler app.route outside plat (Joined outside.source) (NamesNearby outside) some (some 0)
      (Route.call scheduler app.route) service.call := by
  have called (w : World T) : (Route.call scheduler app.route).run w =
      (treeFor scheduler app.route (some w.stores.length), {w with stores := w.stores ++ [∅]}) := by
    have shape : (Route.call scheduler app.route).run w = (buildRouteTree scheduler app.route).run w := rfl
    rw [shape, buildMemory scheduler app.route unset w]
  refine ⟨?_, fun _ => tree, ?_, fun inside buffer target carried =>
    memoryRootAgrees outside plat scheduler app inside buffer target (Sessions.intoInternal outside.parse carried)⟩
  · intro n w v joined
    rw [called, joined.slots]
  · intro n w v joined
    rw [called]
    exact joinedConnect joined

theorem pairedStart {route : AppRoute T} {J : Nat → World T → World T → Prop} (slots : Nat → Option Nat) (slot : Option Nat) {w v : World T}
    (joined : J 0 w v) : Paired scheduler route J slots slot (started w) (started v) := by
  refine ⟨rfl, ?_, ?_, joined, rfl⟩
  · intro c tree found
    cases found
  · intro c tree found
    cases found

theorem ownReplies (orders others : Nat → RouteTree.HashOrder) {route : AppRoute T} (set : route.sessionSet = true) (w : World T)
    (events : List (Event T)) :
    routeReplies outside plat orders scheduler route w events = sharedReplies outside plat others scheduler route w events := by
  have made : RouteConnectionService.new scheduler route = pure ⟨treeFor scheduler route none⟩ := by
    unfold RouteConnectionService.new
    rw [buildOwn scheduler route set]
    rfl
  have anywhere (s : Server T) (e : Event T) : Fine (fun _ _ _ => True) s e := by cases e <;> trivial
  unfold routeReplies sharedReplies
  rw [made]
  exact pairedReplies scheduler route outside plat orders others (ownMatching outside plat scheduler set _ rfl) events
    (alongAlways anywhere _ _) (pairedStart scheduler _ _ rfl)

theorem memoryReplies (orders others : Nat → RouteTree.HashOrder) (app : App T) (unset : app.route.sessionSet = false) (drawn : Nat)
    (shared : Shared T) (events : List (Event T))
    (along : Along (step outside plat orders (Route.call scheduler app.route)) (Fine (NamesNearby outside))
      (started ⟨[], drawn, shared⟩) events) :
    routeReplies outside plat orders scheduler app.route ⟨[], drawn, shared⟩ events =
      sharedReplies outside plat others scheduler app.route ⟨[], drawn, shared⟩ events := by
  have made : (RouteConnectionService.new scheduler app.route).run ⟨[], drawn, shared⟩ =
      (⟨treeFor scheduler app.route (some 0)⟩, ⟨[∅], drawn, shared⟩) := by
    have shape : (RouteConnectionService.new scheduler app.route).run ⟨[], drawn, shared⟩ =
        (⟨((buildRouteTree scheduler app.route).run ⟨[], drawn, shared⟩).1⟩,
          ((buildRouteTree scheduler app.route).run ⟨[], drawn, shared⟩).2) := rfl
    rw [shape, buildMemory scheduler app.route unset]
    rfl
  unfold routeReplies sharedReplies
  rw [made]
  exact pairedReplies scheduler app.route outside plat orders others (memoryMatching outside plat scheduler app unset _ rfl) events
    along (pairedStart scheduler _ _ (joinedStart outside.source drawn shared))

theorem setStoreReplies (orders others : Nat → RouteTree.HashOrder) (route : AppRoute T)
    (store : SessionStore (StateM (Shared T)) Session) (w : World T) (events : List (Event T)) :
    routeReplies outside plat orders scheduler (setSessionStore route store) w events =
      sharedReplies outside plat others scheduler (setSessionStore route store) w events :=
  ownReplies outside plat scheduler orders others rfl w events

end

def plainKinds : Kinds := ⟨Unit, Unit, Unit, Unit, Unit⟩

def unarySource : CookieSource where
  draws i := List.replicate (i + 1) 'k'
  ids i := List.replicate (i + 1) 'k'
  idOf key := .ok key
  decodes _ := rfl
  distinct i j same := by simpa using congrArg List.length same

def plainReply : Reply plainKinds := ⟨[], ⟨none, none, ()⟩, ()⟩

def plainOutside : Outside plainKinds where
  source := unarySource
  parse text := some ⟨(splitFirst '=' text).1, (splitFirst '=' text).2, none, none, none, []⟩
  encode cookie := some (cookie.name ++ '=' :: cookie.value ++ "; Secure; Max-Age=7200".toList)
  schedule others := others
  fill _ res := res
  clearBody res := res
  ofError _ := plainReply
  panicked := .error .notFound

def greet : Handler plainKinds := fun _ _ => pure (.ok plainReply)

def site : App plainKinds where
  route := Route.newRoot.insertHandler .get greet
  own := .node (fun _ listed => absurd listed List.not_mem_nil) (fun _ listed => absurd listed List.not_mem_nil)

def visit (connection : Nat) (headers : List (Text × Text)) : Event plainKinds :=
  .request connection 0 (.fromParts .get ['/']) ⟨headers, ⟨none, none, ()⟩, ()⟩

def returning : List (Text × Text) := [("cookie".toList, "silent-web-session=k".toList)]

end Silent.ConnectionSharing
