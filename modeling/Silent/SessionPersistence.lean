import Silent.Sessions

/-! Two requests of one session. A session is an id and a cell of data that its copies
share; the store is a backend that keeps values and hands out cells of their own, so that
nothing a handler writes reaches it unless someone stores it. Handlers see the cells and
not the store. -/
namespace Silent.SessionPersistence
open ByteText Cookies Sessions
open HttpRequest (SilentError SilentResult)

abbrev Data := HashMap Text Text

structure Session where
  id : Text
  cell : Nat

structure Stored where
  id : Text
  data : Data

structure Backend (B : Type) where
  draw : B → Text × B
  store : B → Stored → SilentResult (Option Text) × B
  load : B → Text → SilentResult (Option Stored) × B

structure World (B : Type) where
  backend : B
  heap : List Data

variable {B X Q P : Type}

def allocate (w : World B) : SilentResult (Option Stored) → SilentResult (Option Session) × World B
  | .ok (some stored) => (.ok (some ⟨stored.id, w.heap.length⟩), {w with heap := w.heap ++ [stored.data]})
  | .ok none => (.ok none, w)
  | .error e => (.error e, w)

def sessionStore (backend : Backend B) : SessionStore (StateM (World B)) Session where
  newSession w := (⟨(backend.draw w.backend).1, w.heap.length⟩, ⟨(backend.draw w.backend).2, w.heap ++ [∅]⟩)
  storeSession session w :=
    let stored := backend.store w.backend ⟨session.id, w.heap.getD session.cell ∅⟩
    (stored.1, {w with backend := stored.2})
  loadSession key w :=
    let loaded := backend.load w.backend key
    allocate {w with backend := loaded.2} loaded.1

def Holds (backend : Backend B) (b : B) (key : Text) (stored : Stored) : Prop := (backend.load b key).1 = .ok (some stored)

/-- What is asked of a store: it gives back what it took, under a key of its own, and keeps the rest. -/
structure Faithful (backend : Backend B) : Prop where
  stored : ∀ b s key, (backend.store b s).1 = .ok (some key) → Holds backend (backend.store b s).2 key s
  fresh : ∀ b s key, (backend.store b s).1 = .ok (some key) → ∀ other, ¬Holds backend b key other
  keeps : ∀ b s key other, Holds backend b key other → (backend.store b s).1 ≠ .ok (some key) → Holds backend (backend.store b s).2 key other
  loads : ∀ b probe key other, Holds backend b key other → Holds backend (backend.load b probe).2 key other
  draws : ∀ b key other, Holds backend b key other → Holds backend (backend.draw b).2 key other

abbrev Exchange (X Q P : Type) :=
  Request Session X Q × (Request Session X Q → List Data → SilentResult (Response Session X P) × List Data)

def onHeap (handler : Request Session X Q → List Data → SilentResult (Response Session X P) × List Data) (req : Request Session X Q) :
    StateM (World B) (SilentResult (Response Session X P)) := fun w =>
  ((handler req w.heap).1, {w with heap := (handler req w.heap).2})

def exchange (backend : Backend B) (e : Exchange X Q P) : StateM (World B) (SilentResult (Response Session X P)) :=
  SessionMiddleware.handle (sessionStore backend) e.1 (onHeap e.2)

def exchanges (backend : Backend B) (w : World B) (list : List (Exchange X Q P)) : World B :=
  list.foldl (fun w e => ((exchange backend e).run w).2) w

def Shows (data written : Data) : Prop := ∀ name value, written.lookup name = some value → data.lookup name = some value

def writings (session : Session) (res : Response Session X P) (heap : List Data) : List Data :=
  (heap[session.cell]?).toList ++ (res.extensions.session.bind fun s => heap[s.cell]?).toList

section
variable {backend : Backend B} {key : Text} {held : Stored}

def Keeps {A : Type} (backend : Backend B) (key : Text) (held : Stored) (x : StateM (World B) A) : Prop :=
  ∀ w, Holds backend w.backend key held → Holds backend (x.run w).2.backend key held

theorem keepsBind {A C : Type} {x : ExceptT SilentError (StateM (World B)) A} {f : A → ExceptT SilentError (StateM (World B)) C}
    (first : Keeps backend key held x.run) (later : ∀ a, Keeps backend key held (f a).run) : Keeps backend key held (x >>= f).run := by
  intro w holds
  have kept := first w holds
  cases ran : x.run.run w with
  | mk result w1 =>
    rw [ran] at kept
    cases result with
    | ok a =>
      rw [runBindOk ran]
      exact later a w1 kept
    | error e =>
      rw [runBindError ran]
      exact kept

theorem keepsPure {A : Type} (result : SilentResult A) : Keeps backend key held (pure result) := fun _ holds => holds

theorem keepsNew (faithful : Faithful backend) : Keeps backend key held (sessionStore backend).newSession :=
  fun w holds => faithful.draws w.backend key held holds

theorem keepsStore (faithful : Faithful backend) (session : Session) : Keeps backend key held ((sessionStore backend).storeSession session) :=
  fun w holds => faithful.keeps w.backend _ key held holds fun taken => faithful.fresh _ _ _ taken held holds

theorem allocateBackend (w : World B) (loaded : SilentResult (Option Stored)) : (allocate w loaded).2.backend = w.backend := by
  rcases loaded with _ | (_ | _) <;> rfl

theorem keepsLoad (faithful : Faithful backend) (probe : Text) : Keeps backend key held ((sessionStore backend).loadSession probe) := by
  intro w holds
  have same : ((sessionStore backend).loadSession probe w).2.backend = (backend.load w.backend probe).2 := allocateBackend _ _
  have kept : Holds backend ((sessionStore backend).loadSession probe w).2.backend key held :=
    same ▸ faithful.loads w.backend probe key held holds
  exact kept

theorem keepsLift {A : Type} {x : StateM (World B) A} (kept : Keeps backend key held x) :
    Keeps backend key held (ExceptT.lift x : ExceptT SilentError (StateM (World B)) A).run := kept

theorem keepsCreate (faithful : Faithful backend) : Keeps backend key held (createSession (sessionStore backend)).run := by
  refine keepsBind (keepsLift (keepsNew faithful)) fun session => keepsBind (keepsStore faithful session) fun taken => ?_
  cases taken with
  | none => exact keepsPure _
  | some fresh => exact keepsPure _

theorem keepsReplace (faithful : Faithful backend) : Keeps backend key held (replaceSession (sessionStore backend)).run := by
  refine keepsBind (keepsCreate faithful) fun fresh => keepsBind (keepsLoad faithful fresh) fun loaded => ?_
  cases loaded with
  | none => exact keepsPure _
  | some session => exact keepsPure _

theorem keepsLoadOrReplace (faithful : Faithful backend) (probe : Text) (created : Bool) :
    Keeps backend key held (loadOrReplace (sessionStore backend) probe created).run := by
  refine keepsBind (keepsLift (keepsLoad faithful probe)) fun loaded => ?_
  rcases loaded with e | (_ | session)
  · exact keepsReplace faithful
  · exact keepsReplace faithful
  · exact keepsPure _

theorem keepsOpen (faithful : Faithful backend) (cookies : CookieJar) :
    Keeps backend key held (openSession (sessionStore backend) cookies).run := by
  unfold openSession
  cases cookies.get sessionName with
  | some cookie => exact keepsLoadOrReplace faithful _ _
  | none => exact keepsBind (keepsCreate faithful) fun fresh => keepsLoadOrReplace faithful fresh true

theorem keepsExchange (faithful : Faithful backend) (e : Exchange X Q P) : Keeps backend key held (exchange backend e) := by
  have handled (opened : Opened Session) : Keeps backend key held (onHeap (B := B) e.2 (e.1.insertSession opened.session)) :=
    fun _ holds => holds
  exact keepsBind (keepsOpen faithful e.1.cookies) fun opened => keepsBind (handled opened) fun res => keepsPure _

theorem keepsExchanges (faithful : Faithful backend) (list : List (Exchange X Q P)) (w : World B)
    (holds : Holds backend w.backend key held) : Holds backend (exchanges backend w list).backend key held := by
  induction list generalizing w with
  | nil => exact holds
  | cons e list ih => exact ih _ (keepsExchange faithful e w holds)

end

structure Backed (backend : Backend B) (opened : Opened Session) (w : World B) (held : Stored) : Prop where
  kept : Holds backend w.backend opened.key held
  cell : w.heap[opened.session.cell]? = some held.data

section
variable {backend : Backend B}

theorem loadedBacked (faithful : Faithful backend) {w w1 : World B} {key : Text} {session : Session}
    (loaded : ((sessionStore backend).loadSession key).run w = (.ok (some session), w1)) (created : Bool) :
    ∃ held, Backed backend ⟨session, key, created⟩ w1 held := by
  have shape : ((sessionStore backend).loadSession key).run w =
      allocate ⟨(backend.load w.backend key).2, w.heap⟩ (backend.load w.backend key).1 := rfl
  rw [shape] at loaded
  rcases found : (backend.load w.backend key).1 with e | (_ | held)
  · rw [found] at loaded
    cases loaded
  · rw [found] at loaded
    cases loaded
  · rw [found] at loaded
    cases loaded
    exact ⟨held, faithful.loads w.backend key key held found, by simp⟩

theorem replacedBacked (faithful : Faithful backend) {w w1 : World B} {opened : Opened Session}
    (ran : (replaceSession (sessionStore backend)).run.run w = (.ok opened, w1)) : ∃ held, Backed backend opened w1 held := by
  obtain ⟨key, w2, -, ran⟩ := runBindInversion ran
  obtain ⟨found, w3, loaded, ran⟩ := runBindInversion ran
  cases found with
  | none => cases ran
  | some session =>
    cases ran
    exact loadedBacked faithful loaded true

theorem loadOrReplaceBacked (faithful : Faithful backend) {w w1 : World B} {key : Text} {created : Bool} {opened : Opened Session}
    (ran : (loadOrReplace (sessionStore backend) key created).run.run w = (.ok opened, w1)) : ∃ held, Backed backend opened w1 held := by
  obtain ⟨w2, result, loaded⟩ : ∃ w2 result, ((sessionStore backend).loadSession key).run w = (result, w2) := ⟨_, _, rfl⟩
  unfold loadOrReplace at ran
  rw [runBindOk (runLift loaded)] at ran
  rcases result with e | (_ | session)
  · exact replacedBacked faithful ran
  · exact replacedBacked faithful ran
  · cases ran
    exact loadedBacked faithful loaded created

theorem openedBacked (faithful : Faithful backend) {cookies : CookieJar} {w w1 : World B} {opened : Opened Session}
    (ran : (openSession (sessionStore backend) cookies).run.run w = (.ok opened, w1)) : ∃ held, Backed backend opened w1 held := by
  unfold openSession at ran
  cases found : cookies.get sessionName with
  | some cookie =>
    simp only [found] at ran
    exact loadOrReplaceBacked faithful ran
  | none =>
    simp only [found] at ran
    obtain ⟨key, w2, -, ran⟩ := runBindInversion ran
    exact loadOrReplaceBacked faithful ran

theorem reopened {cookies : CookieJar} {cookie : Cookie} {w : World B} {held : Stored} (carries : cookies.get sessionName = some cookie)
    (holds : Holds backend w.backend cookie.value held) :
    (openSession (sessionStore backend) cookies).run.run w =
      (.ok ⟨⟨held.id, w.heap.length⟩, cookie.value, false⟩, ⟨(backend.load w.backend cookie.value).2, w.heap ++ [held.data]⟩) := by
  have loaded : ((sessionStore backend).loadSession cookie.value).run w =
      (.ok (some ⟨held.id, w.heap.length⟩), ⟨(backend.load w.backend cookie.value).2, w.heap ++ [held.data]⟩) := by
    have shape : ((sessionStore backend).loadSession cookie.value).run w =
        allocate ⟨(backend.load w.backend cookie.value).2, w.heap⟩ (backend.load w.backend cookie.value).1 := rfl
    rw [shape, holds]
    rfl
  simp only [openSession, carries]
  unfold loadOrReplace
  rw [runBindOk (runLift loaded)]
  rfl

theorem handledBackend {e : Exchange X Q P} {w w1 : World B} {opened : Opened Session} {res : Response Session X P} {heap : List Data}
    (opens : (openSession (sessionStore backend) e.1.cookies).run.run w = (.ok opened, w1))
    (replies : e.2 (e.1.insertSession opened.session) w1.heap = (.ok res, heap)) :
    (exchange backend e).run w =
      (.ok (finish (withAnnouncement e.1.cookies opened) opened.session res), {w1 with heap := heap}) := by
  refine handleRuns opens ?_
  have step : (onHeap (B := B) e.2 (e.1.insertSession opened.session)).run w1 =
      ((e.2 (e.1.insertSession opened.session) w1.heap).1,
        {w1 with heap := (e.2 (e.1.insertSession opened.session) w1.heap).2}) := rfl
  rw [step, replies]

end

theorem writesVisible (backend : Backend B) (faithful : Faithful backend) (w w1 : World B) (first : Exchange X Q P)
    (opened : Opened Session) (res : Response Session X P) (heap : List Data) (between : List (Exchange X Q P))
    (second : Request Session X Q) (cookie : Cookie)
    (opens : (openSession (sessionStore backend) first.1.cookies).run.run w = (.ok opened, w1))
    (replies : first.2 (first.1.insertSession opened.session) w1.heap = (.ok res, heap))
    (carries : second.cookies.get sessionName = some cookie) (names : cookie.value = opened.key) :
    ∃ loaded seen again w2, w1.heap[opened.session.cell]? = some loaded ∧
      (openSession (sessionStore backend) second.cookies).run.run (exchanges backend w (first :: between)) = (.ok again, w2) ∧
      w2.heap[again.session.cell]? = some seen ∧
      ((∀ written ∈ writings opened.session res heap, Shows seen written) ↔
        ∀ written ∈ writings opened.session res heap, Shows loaded written) := by
  obtain ⟨held, backed⟩ := openedBacked faithful opens
  have after : ((exchange backend first).run w).2.backend = w1.backend := by rw [handledBackend opens replies]
  have holds : Holds backend (exchanges backend w (first :: between)).backend cookie.value held :=
    keepsExchanges faithful between _ (by rw [after, names]; exact backed.kept)
  exact ⟨held.data, held.data, _, _, backed.cell, reopened carries holds, by simp, Iff.rfl⟩

def slots : Backend (List Stored) where
  draw b := ("id".toList, b)
  store b s := (.ok (some (List.replicate b.length 'k')), b ++ [s])
  load b key := (.ok (if key = List.replicate key.length 'k' then b[key.length]? else none), b)

theorem slotsHold {b : List Stored} {key : Text} {held : Stored} :
    Holds slots b key held ↔ key = List.replicate key.length 'k' ∧ b[key.length]? = some held := by
  by_cases numbered : key = List.replicate key.length 'k'
  · simp [Holds, slots, ← numbered]
  · simp [Holds, slots, numbered]

theorem slotsFaithful : Faithful slots where
  stored b s key taken := by
    cases taken
    rw [slotsHold]
    simp [slots]
  fresh b s key taken other held := by
    cases taken
    rw [slotsHold] at held
    simp at held
  keeps b s key other held _ := by
    rw [slotsHold] at held ⊢
    refine ⟨held.1, ?_⟩
    have inside := (List.getElem?_eq_some_iff.mp held.2).1
    simp only [slots, List.getElem?_append_left inside, held.2]
  loads _ _ _ _ held := held
  draws _ _ _ held := held

def visitor : Request Session Unit Unit := ⟨[], ⟨none, none, ()⟩, ()⟩

def returning : Request Session Unit Unit := visitor.insertCookies (CookieJar.new.addOriginal (sessionCookie []))

def empty : Response Session Unit Unit := ⟨[], ⟨none, none, ()⟩, ()⟩

def login (req : Request Session Unit Unit) (heap : List Data) : SilentResult (Response Session Unit Unit) × List Data :=
  (.ok empty, match req.extensions.session with
    | some session => heap.modify session.cell (·.insert "user".toList "ann".toList)
    | none => heap)

def look (_ : Request Session Unit Unit) (heap : List Data) : SilentResult (Response Session Unit Unit) × List Data := (.ok empty, heap)

theorem lookingIsVisible :
    ∃ seen again w2, (openSession (sessionStore slots) returning.cookies).run.run (exchanges slots ⟨[], []⟩ [(visitor, look)]) =
        (.ok again, w2) ∧ w2.heap[again.session.cell]? = some seen ∧
      ∀ written ∈ writings ⟨"id".toList, 1⟩ empty [∅, ∅], Shows seen written := by
  obtain ⟨loaded, seen, again, w2, before, reopens, cell, visible⟩ := writesVisible slots slotsFaithful ⟨[], []⟩
    ⟨[⟨"id".toList, ∅⟩], [∅, ∅]⟩ (visitor, look) ⟨⟨"id".toList, 1⟩, [], true⟩ empty [∅, ∅] [] returning (sessionCookie []) rfl rfl rfl rfl
  refine ⟨seen, again, w2, reopens, cell, visible.mpr fun written among => ?_⟩
  cases Option.some.inj before
  cases List.mem_singleton.mp among
  exact fun _ _ found => found

theorem loginForgotten :
    ∃ opened w1 heap again w2 seen,
      (openSession (sessionStore slots) visitor.cookies).run.run ⟨[], []⟩ = (.ok opened, w1) ∧
      login (visitor.insertSession opened.session) w1.heap = (.ok empty, heap) ∧
      (openSession (sessionStore slots) returning.cookies).run.run (exchanges slots ⟨[], []⟩ [(visitor, login)]) = (.ok again, w2) ∧
      again.key = opened.key ∧ w2.heap[again.session.cell]? = some seen ∧
      ¬∀ written ∈ writings opened.session empty heap, Shows seen written := by
  refine ⟨_, _, _, _, _, _, rfl, rfl, rfl, rfl, rfl, fun shown => ?_⟩
  have found := shown _ (List.mem_singleton.mpr rfl) "user".toList "ann".toList rfl
  cases found

end Silent.SessionPersistence
