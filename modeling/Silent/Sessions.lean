import Mathlib.Control.Monad.Basic
import Silent.Cookies
import Silent.HttpRequest

/-! The session and cookie middlewares and the two ends of `HyperHttpProtocol`, over any
session store and any handler in any monad. Of a request and a response only headers and
the extensions these read are told apart; everything else is in `rest`. -/
namespace Silent.Sessions
open ByteText Cookies
open HttpRequest (SilentError SilentResult)

structure Extensions (S X : Type) where
  cookies : Option CookieJar
  session : Option S
  others : X

structure Request (S X Q : Type) where
  headers : List (Text × Text)
  extensions : Extensions S X
  rest : Q

structure Response (S X P : Type) where
  headers : List (Text × Text)
  extensions : Extensions S X
  rest : P

-- `newSession` is `Session::new()`, which draws a random id.
structure SessionStore (m : Type → Type) (S : Type) where
  newSession : m S
  storeSession : S → m (SilentResult (Option Text))
  loadSession : Text → m (SilentResult (Option S))

variable {m : Type → Type} {S X Q P : Type}

def Extensions.jar (self : Extensions S X) : CookieJar := self.cookies.getD .new

def Request.cookies (self : Request S X Q) : CookieJar := self.extensions.jar

def Request.insertCookies (self : Request S X Q) (jar : CookieJar) : Request S X Q :=
  {self with extensions := {self.extensions with cookies := some jar}}

def Request.insertSession (self : Request S X Q) (session : S) : Request S X Q :=
  {self with extensions := {self.extensions with session := some session}}

def Response.insertCookies (self : Response S X P) (jar : CookieJar) : Response S X P :=
  {self with extensions := {self.extensions with cookies := some jar}}

def Response.insertSession (self : Response S X P) (session : S) : Response S X P :=
  {self with extensions := {self.extensions with session := some session}}

def sessionName : Text := "silent-web-session".toList

def failedToCreate : SilentError := .businessError 500 "failed to create session".toList

def failedToLoad : SilentError := .businessError 500 "failed to load session".toList

def sessionCookie (key : Text) : Cookie := ⟨sessionName, key, some 7200, none, some true, []⟩

-- `created` is the negation of `session_key_exists` as it stands after the lookup.
structure Opened (S : Type) where
  session : S
  key : Text
  created : Bool

section
variable [Monad m]

def createSession (store : SessionStore m S) : ExceptT SilentError m Text := do
  let session ← store.newSession
  match ← ExceptT.mk (store.storeSession session) with
  | some key => pure key
  | none => throw failedToCreate

def replaceSession (store : SessionStore m S) : ExceptT SilentError m (Opened S) := do
  let key ← createSession store
  match ← ExceptT.mk (store.loadSession key) with
  | some session => pure ⟨session, key, true⟩
  | none => throw failedToLoad

def loadOrReplace (store : SessionStore m S) (key : Text) (created : Bool) : ExceptT SilentError m (Opened S) := do
  match ← ExceptT.lift (store.loadSession key) with
  | .ok (some session) => pure ⟨session, key, created⟩
  | _ => replaceSession store

def openSession (store : SessionStore m S) (cookies : CookieJar) : ExceptT SilentError m (Opened S) :=
  match cookies.get sessionName with
  | some cookie => loadOrReplace store cookie.value false
  | none => do
      let key ← createSession store
      loadOrReplace store key true

def withAnnouncement (cookies : CookieJar) (opened : Opened S) : CookieJar :=
  if opened.created then cookies.add (sessionCookie opened.key) else cookies

def finish (cookies : CookieJar) (session : S) (res : Response S X P) : Response S X P :=
  let res := if res.extensions.session.isNone then res.insertSession session else res
  match res.extensions.cookies with
  | none => res.insertCookies cookies
  | some jar => res.insertCookies (cookies.addAll jar.iter)

def SessionMiddleware.handle (store : SessionStore m S) (req : Request S X Q)
    (next : Request S X Q → m (SilentResult (Response S X P))) : m (SilentResult (Response S X P)) := ExceptT.run do
  let opened ← openSession store req.cookies
  let res ← ExceptT.mk (next (req.insertSession opened.session))
  pure (finish (withAnnouncement req.cookies opened) opened.session res)

end

section
variable (parse : Text → Option Cookie) (encode : Cookie → Option Text)

def isVisible (c : Char) : Bool := ' ' ≤ c && c ≤ '~' || c = '\t'

def toStr (value : Text) : Option Text := if value.all isVisible then some value else none

def trim (s : Text) : Text :=
  ((s.dropWhile (fun c => c = ' ' || c = '\t')).reverse.dropWhile (fun c => c = ' ' || c = '\t')).reverse

def isSemicolon (c : Char) : Bool := c = ';'

def addParsed (jar : CookieJar) (part : Text) : CookieJar :=
  match parse (trim part) with
  | some cookie => jar.addOriginal cookie
  | none => jar

-- The loop of `get_cookie` and of the cookie middleware, which differ in the code of the error.
def readCookies (code : Nat) (headers : List (Text × Text)) : SilentResult CookieJar :=
  match headers.lookup "cookie".toList with
  | none => .ok .new
  | some value =>
      match toStr value with
      | none => .error (.businessError code "Failed to parse cookie: failed to convert header to a str".toList)
      | some text => .ok ((text.splitOnP isSemicolon).foldl (addParsed parse) .new)

def getCookie (headers : List (Text × Text)) : SilentResult CookieJar := readCookies parse 500 headers

def intoInternal (message : Request S X Q) : Request S X Q :=
  message.insertCookies (match getCookie parse message.headers with
    | .ok jar => jar
    | .error _ => .new)

def mergeDelta (jar : CookieJar) (res : Response S X P) : Response S X P :=
  match res.extensions.cookies with
  | some cookieJar => res.insertCookies (jar.addAll (cookieJar.delta.map DeltaCookie.cookie))
  | none => res.insertCookies jar

def CookieMiddleware.handle [Monad m] (req : Request S X Q) (next : Request S X Q → m (SilentResult (Response S X P))) :
    m (SilentResult (Response S X P)) :=
  match readCookies parse 400 req.headers with
  | .error e => pure (.error e)
  | .ok jar => do
      let res ← next (req.insertCookies jar)
      pure (res.map (mergeDelta jar))

def emitted (res : Response S X P) : List Cookie :=
  (res.extensions.jar.delta.map DeltaCookie.cookie).filter (fun cookie => (encode cookie).isSome)

def fromInternal (res : Response S X P) : Response S X P :=
  {res with headers := res.headers ++ (emitted encode res).filterMap (fun cookie => (encode cookie).map (("set-cookie".toList, ·)))}

end

section
variable {W E A B : Type} {x : ExceptT E (StateM W) A} {w w1 : W}

theorem runBindOk {a : A} (ran : x.run.run w = (.ok a, w1)) (f : A → ExceptT E (StateM W) B) :
    (x >>= f).run.run w = (f a).run.run w1 := by
  have step : (x >>= f).run.run w = (ExceptT.bindCont f (x.run.run w).1).run (x.run.run w).2 := rfl
  rw [step, ran]
  rfl

theorem runBindError {e : E} (ran : x.run.run w = (.error e, w1)) (f : A → ExceptT E (StateM W) B) :
    (x >>= f).run.run w = (.error e, w1) := by
  have step : (x >>= f).run.run w = (ExceptT.bindCont f (x.run.run w).1).run (x.run.run w).2 := rfl
  rw [step, ran]
  rfl

theorem runBindInversion {f : A → ExceptT E (StateM W) B} {b : B} {w2 : W} (ran : (x >>= f).run.run w = (.ok b, w2)) :
    ∃ a w1, x.run.run w = (.ok a, w1) ∧ (f a).run.run w1 = (.ok b, w2) := by
  cases first : x.run.run w with
  | mk result w1 =>
    cases result with
    | ok a =>
      rw [runBindOk first] at ran
      exact ⟨a, w1, rfl, ran⟩
    | error e =>
      rw [runBindError first] at ran
      cases ran

theorem runLift {y : StateM W A} {a : A} (ran : y.run w = (a, w1)) : (ExceptT.lift y : ExceptT E (StateM W) A).run.run w = (.ok a, w1) := by
  have step : (ExceptT.lift y : ExceptT E (StateM W) A).run.run w = (.ok (y.run w).1, (y.run w).2) := rfl
  rw [step, ran]

theorem handleRuns {store : SessionStore (StateM W) S} {req : Request S X Q}
    {next : Request S X Q → StateM W (SilentResult (Response S X P))} {w2 : W} {opened : Opened S} {res : Response S X P}
    (opens : (openSession store req.cookies).run.run w = (.ok opened, w1))
    (replies : (next (req.insertSession opened.session)).run w1 = (.ok res, w2)) :
    (SessionMiddleware.handle store req next).run w =
      (.ok (finish (withAnnouncement req.cookies opened) opened.session res), w2) := by
  have answered : (ExceptT.mk (next (req.insertSession opened.session))).run.run w1 = (.ok res, w2) := replies
  unfold SessionMiddleware.handle
  rw [runBindOk opens, runBindOk answered]
  rfl

end

end Silent.Sessions
