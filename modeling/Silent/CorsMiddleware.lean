import Silent.CrossOrigin
import Silent.Responses

/-! The CORS middleware. Its fixed headers are built once and kept; the origin of the request
decides between a refusal, an answer to a preflight and a call of the handler, whose
response is laid over the CORS headers. -/
namespace Silent.CorsMiddleware
open ByteText TowerCompat Responses CrossOrigin
open CompressionFrame (HeaderMap)
open HttpRequest (SilentError SilentResult Method)

inductive CorsType where
  | any
  | allowSome (value : List Text)
  deriving DecidableEq, Repr

def CorsType.getValue : CorsType → Text
  | .any => ['*']
  | .allowSome value => joined value

def CorsType.ofStr (value : Text) : CorsType := if value = ['*'] then .any else .allowSome (value.splitOn ',')

inductive CorsOriginType where
  | any
  | allowSome (value : List Text)
  deriving DecidableEq, Repr

def CorsOriginType.getValue (origin : Text) : CorsOriginType → Text
  | .any => origin
  | .allowSome value => (value.find? (· = origin)).getD []

structure Cors where
  origin : Option CorsOriginType
  methods : Option CorsType
  headers : Option CorsType
  credentials : Option Bool
  maxAge : Option Nat
  expose : Option CorsType
  cachedHeaders : Option HeaderMap
  deriving DecidableEq, Repr

def maxAge : Text := "access-control-max-age".toList
def exposeHeaders : Text := "access-control-expose-headers".toList

-- A value that `HeaderValue` refuses is left out; it takes what `to_str` gives back.
def addHeader (headers : HeaderMap) (name : Text) (value : Option Text) : HeaderMap :=
  match value.bind Sessions.toStr with
  | some value => HeaderMap.insert headers name value
  | none => headers

def boolText (b : Bool) : Text := if b then "true".toList else "false".toList

def buildHeaders (self : Cors) : HeaderMap :=
  let headers := addHeader [] allowMethods (self.methods.map CorsType.getValue)
  let headers := addHeader headers allowHeaders (self.headers.map CorsType.getValue)
  let headers := addHeader headers allowCredentials (self.credentials.map boolText)
  let headers := addHeader headers maxAge (self.maxAge.map fun age => (Nat.repr age).toList)
  addHeader headers exposeHeaders (self.expose.map CorsType.getValue)

def getCachedHeaders (self : Cors) : HeaderMap × Cors :=
  match self.cachedHeaders with
  | some headers => (headers, self)
  | none => (buildHeaders self, {self with cachedHeaders := some (buildHeaders self)})

variable {T : Payload} {m : Type → Type}

def originName : Text := "origin".toList

def reqOrigin (req : Request T) : Text := ((HeaderMap.get req.parts.headers originName).bind Sessions.toStr).getD []

def refused (origin : Text) : SilentError :=
  .businessError 403 ("Cors: Origin \"".toList ++ origin ++ "\" is not allowed".toList)

def unparsed : SilentError :=
  .businessError 500 "Cors: Failed to parse cors allow origin: failed to parse header value".toList

def template (self : Cors) (kept : HeaderMap) (origin : Text) : SilentResult (Response T) :=
  let res : Response T := {Response.empty with headers := extend [] kept}
  match self.origin with
  | none => .ok res
  | some allowed =>
      let allowed := allowed.getValue origin
      if allowed.isEmpty then .error (refused origin)
      else
        match Sessions.toStr allowed with
        | none => .error unparsed
        | some value => .ok {res with headers := HeaderMap.insert res.headers allowOrigin value}

section
variable (reason : Nat → Option Text) (isJson : Text → Bool)

def answerOf : Outcome T → Response T
  | .ok res => res
  | .error error => fromError reason isJson error

def handle [Monad m] (self : Cors) (req : Request T) (next : Request T → m (Outcome T)) : m (Outcome T) × Cors :=
  if (reqOrigin req).isEmpty then (next req, self)
  else
    let (kept, self) := getCachedHeaders self
    match template self kept (reqOrigin req) with
    | .error error => (pure (.error error), self)
    | .ok res =>
        if req.parts.method = .options then (pure (.ok res), self)
        else (do let result ← next req; pure (.ok (copyFromResponse res (answerOf reason isJson result))), self)

end

def after (self : Cors) (earlier : List (Request T)) : Cors :=
  earlier.foldl (fun self req => if (reqOrigin req).isEmpty then self else (getCachedHeaders self).2) self

def allows (self : Cors) (origin : Text) : Bool :=
  match self.origin with
  | some (.allowSome value) => value.contains origin
  | _ => true

def combined (headers : HeaderMap) : Headers := fun name =>
  match HeaderMap.getAll headers name with
  | [] => none
  | values => some (List.intercalate ", ".toList values)

theorem combinedOption {headers : HeaderMap} {name : Text} {value : Option Text}
    (values : HeaderMap.getAll headers name = value.toList) : combined headers name = value := by
  rw [combined, values]
  cases value <;> simp [List.intercalate]

theorem getAllAddHeader (headers : HeaderMap) (name other : Text) (value : Option Text)
    (absent : HeaderMap.getAll headers name = []) :
    HeaderMap.getAll (addHeader headers name value) other =
      if other = name then (value.bind Sessions.toStr).toList else HeaderMap.getAll headers other := by
  unfold addHeader
  split <;> rename_i parsed <;> rw [parsed]
  · split
    · rename_i same
      rw [same, HeaderMap.getAllInsert]
      rfl
    · rename_i differ
      exact HeaderMap.getAllInsertOther headers differ _
  · split
    · rename_i same
      rw [same, absent]
      rfl
    · rfl

def setting (self : Cors) (name : Text) : Option Text :=
  if name = allowMethods then self.methods.map CorsType.getValue
  else if name = allowHeaders then self.headers.map CorsType.getValue
  else if name = allowCredentials then self.credentials.map boolText
  else if name = maxAge then self.maxAge.map fun age => (Nat.repr age).toList
  else if name = exposeHeaders then self.expose.map CorsType.getValue
  else none

theorem builtValues (self : Cors) (name : Text) :
    HeaderMap.getAll (buildHeaders self) name = ((setting self name).bind Sessions.toStr).toList := by
  have apart : allowHeaders ≠ allowMethods ∧ allowCredentials ≠ allowMethods ∧ allowCredentials ≠ allowHeaders ∧
      maxAge ≠ allowMethods ∧ maxAge ≠ allowHeaders ∧ maxAge ≠ allowCredentials ∧ exposeHeaders ≠ allowMethods ∧
      exposeHeaders ≠ allowHeaders ∧ exposeHeaders ≠ allowCredentials ∧ exposeHeaders ≠ maxAge := by decide
  obtain ⟨hm, cm, ch, gm, gh, gc, em, eh, ec, eg⟩ := apart
  have first := fun other => getAllAddHeader [] allowMethods other (self.methods.map CorsType.getValue) rfl
  have second := fun other => getAllAddHeader _ allowHeaders other (self.headers.map CorsType.getValue)
    (by rw [first, if_neg hm]; rfl)
  have third := fun other => getAllAddHeader _ allowCredentials other (self.credentials.map boolText)
    (by rw [second, if_neg ch, first, if_neg cm]; rfl)
  have fourth := fun other => getAllAddHeader _ maxAge other (self.maxAge.map fun age => (Nat.repr age).toList)
    (by rw [third, if_neg gc, second, if_neg gh, first, if_neg gm]; rfl)
  have fifth := fun other => getAllAddHeader _ exposeHeaders other (self.expose.map CorsType.getValue)
    (by rw [fourth, if_neg eg, third, if_neg ec, second, if_neg eh, first, if_neg em]; rfl)
  rw [buildHeaders, fifth, fourth, third, second, first, setting]
  by_cases isMethods : name = allowMethods
  · subst isMethods
    simp [Ne.symm em, Ne.symm gm, Ne.symm cm, Ne.symm hm]
  by_cases isHeaders : name = allowHeaders
  · subst isHeaders
    simp [Ne.symm eh, Ne.symm gh, Ne.symm ch, isMethods]
  by_cases isCredentials : name = allowCredentials
  · subst isCredentials
    simp [Ne.symm ec, Ne.symm gc, isMethods, isHeaders]
  by_cases isAge : name = maxAge
  · subst isAge
    simp [Ne.symm eg, isMethods, isHeaders, isCredentials]
  by_cases isExpose : name = exposeHeaders
  · simp [isExpose, em, eh, ec, eg]
  · simp [isMethods, isHeaders, isCredentials, isAge, isExpose]

def base (self : Cors) (origin : Text) : Response T :=
  let res : Response T := {Response.empty with headers := extend [] (buildHeaders self)}
  if self.origin.isSome then {res with headers := HeaderMap.insert res.headers allowOrigin origin} else res

theorem originVisible {req : Request T} (asked : reqOrigin req ≠ []) : Sessions.toStr (reqOrigin req) = some (reqOrigin req) := by
  unfold reqOrigin at asked ⊢
  cases read : (HeaderMap.get req.parts.headers originName).bind Sessions.toStr with
  | none => rw [read] at asked; exact absurd rfl asked
  | some text =>
    obtain ⟨value, -, visible⟩ := Option.bind_eq_some_iff.mp read
    simp only [Sessions.toStr, Option.ite_none_right_eq_some, Option.some.injEq] at visible
    obtain ⟨visible, rfl⟩ := visible
    exact if_pos visible

theorem templateAllowed {self : Cors} {origin : Text} (asked : origin ≠ []) (visible : Sessions.toStr origin = some origin)
    (allowed : allows self origin = true) : template self (buildHeaders self) origin = .ok (base (T := T) self origin) := by
  unfold template base
  cases configured : self.origin with
  | none => rfl
  | some kind =>
    have value : kind.getValue origin = origin := by
      cases kind with
      | any => rfl
      | allowSome list =>
        simp only [allows, configured, List.contains_iff_mem] at allowed
        have found : list.find? (· = origin) = some origin := by
          cases found : list.find? (· = origin) with
          | none => exact absurd (List.find?_eq_none.mp found origin allowed) (by simp)
          | some other => rw [show other = origin from by simpa using List.find?_some found]
        simp [CorsOriginType.getValue, found]
    simp [value, visible, asked]

theorem templateRefused {self : Cors} {origin : Text} (kept : HeaderMap) (refuses : allows self origin = false) :
    template (T := T) self kept origin = .error (refused origin) := by
  unfold template
  cases configured : self.origin with
  | none => simp [allows, configured] at refuses
  | some kind =>
    cases kind with
    | any => simp [allows, configured] at refuses
    | allowSome list =>
      simp only [allows, configured] at refuses
      have none : list.find? (· = origin) = none := List.find?_eq_none.mpr fun other among => by
        intro same
        rw [of_decide_eq_true same] at among
        simp [among] at refuses
      simp [CorsOriginType.getValue, none]

def Kept (cfg self : Cors) : Prop := self = cfg ∨ self = {cfg with cachedHeaders := some (buildHeaders cfg)}

theorem keptCached {cfg self : Cors} (fresh : cfg.cachedHeaders = none) (kept : Kept cfg self) :
    getCachedHeaders self = (buildHeaders cfg, {cfg with cachedHeaders := some (buildHeaders cfg)}) := by
  rcases kept with rfl | rfl
  · rw [getCachedHeaders, fresh]
  · rfl

theorem afterKept {cfg : Cors} (fresh : cfg.cachedHeaders = none) (earlier : List (Request T)) : Kept cfg (after cfg earlier) := by
  have fold : ∀ self, Kept cfg self → Kept cfg (after self earlier) := by
    induction earlier with
    | nil => exact fun self kept => kept
    | cons req rest ih =>
      intro self kept
      refine ih _ ?_
      beta_reduce
      split
      · exact kept
      · rw [keptCached fresh kept]
        exact .inr rfl
  exact fold cfg (.inl rfl)

theorem templateCached (cfg : Cors) (cached : Option HeaderMap) (kept : HeaderMap) (origin : Text) :
    template (T := T) {cfg with cachedHeaders := cached} kept origin = template cfg kept origin := rfl

section
variable (reason : Nat → Option Text) (isJson : Text → Bool)

def plainHandle [Monad m] (self : Cors) (req : Request T) (next : Request T → m (Outcome T)) : m (Outcome T) :=
  if (reqOrigin req).isEmpty then next req
  else if !allows self (reqOrigin req) then pure (.error (refused (reqOrigin req)))
  else if req.parts.method = .options then pure (.ok (base self (reqOrigin req)))
  else do
    let result ← next req
    pure (.ok (copyFromResponse (base self (reqOrigin req)) (answerOf reason isJson result)))

theorem handlePlain [Monad m] {cfg : Cors} (fresh : cfg.cachedHeaders = none) (earlier : List (Request T)) (req : Request T)
    (next : Request T → m (Outcome T)) :
    (handle reason isJson (after cfg earlier) req next).1 = plainHandle reason isJson cfg req next := by
  unfold handle plainHandle
  split
  · rfl
  · rename_i asked
    have asked : reqOrigin req ≠ [] := by simpa using asked
    rw [keptCached fresh (afterKept fresh earlier)]
    simp only [templateCached]
    cases allowed : allows cfg (reqOrigin req) with
    | true =>
      rw [templateAllowed asked (originVisible asked) allowed]
      simp only [Bool.not_true, Bool.false_eq_true, if_false]
      split <;> rfl
    | false => rw [templateRefused _ allowed]; rfl

theorem boolVisible (b : Bool) : Sessions.toStr (boolText b) = some (boolText b) := by cases b <;> rfl

def granted (self : Cors) (origin name : Text) : Option Text :=
  if name = allowOrigin then self.origin.map fun _ => origin else (setting self name).bind Sessions.toStr

theorem baseValues (self : Cors) (origin name : Text) :
    HeaderMap.getAll (base (T := T) self origin).headers name = (granted self origin name).toList := by
  have kept : ∀ name, HeaderMap.getAll (extend [] (buildHeaders self)) name = ((setting self name).bind Sessions.toStr).toList := by
    intro name
    rw [← builtValues]
    rfl
  unfold base granted
  cases configured : self.origin with
  | none =>
    simp only [Option.isSome_none, Bool.false_eq_true, if_false, Option.map_none, kept]
    split
    · rename_i same
      subst same
      rfl
    · rfl
  | some kind =>
    simp only [Option.isSome_some, if_true, Option.map_some]
    split
    · rename_i same
      subst same
      exact HeaderMap.getAllInsert _ _ _
    · rename_i differ
      rw [HeaderMap.getAllInsertOther _ differ, kept]

/-- The response of the handler laid over the CORS headers, and who may read it. -/
structure Laid (cfg : Cors) (origin : Text) (inner out : Response T) : Prop where
  status : out.status = inner.status
  body : out.body = inner.body
  own : ∀ name, HeaderMap.containsKey inner.headers name = true →
    HeaderMap.getAll out.headers name = HeaderMap.getAll inner.headers name
  added : ∀ name, HeaderMap.containsKey inner.headers name = false →
    HeaderMap.getAll out.headers name = (granted cfg origin name).toList
  readable : HeaderMap.containsKey inner.headers allowOrigin = false →
    HeaderMap.containsKey inner.headers allowCredentials = false → ∀ credentials,
      corsCheck (combined out.headers) origin credentials = true ↔
        cfg.origin.isSome = true ∧ (credentials = true → cfg.credentials = some true)

theorem checkGranted {cfg : Cors} {origin : Text} {headers : HeaderMap}
    (first : HeaderMap.getAll headers allowOrigin = (granted cfg origin allowOrigin).toList)
    (second : HeaderMap.getAll headers allowCredentials = (granted cfg origin allowCredentials).toList) (credentials : Bool) :
    corsCheck (combined headers) origin credentials = true ↔
      cfg.origin.isSome = true ∧ (credentials = true → cfg.credentials = some true) := by
  have allowed : combined headers allowOrigin = cfg.origin.map fun _ => origin := combinedOption first
  have sent : combined headers allowCredentials = cfg.credentials.map boolText := by
    refine combinedOption (second.trans (congrArg Option.toList ?_))
    rw [granted, if_neg (by decide), setting, if_neg (by decide), if_neg (by decide), if_pos rfl]
    cases cfg.credentials with
    | none => rfl
    | some b => exact boolVisible b
  have truth : combined headers allowCredentials = some "true".toList ↔ cfg.credentials = some true := by
    rw [sent]
    cases cfg.credentials with
    | none => simp
    | some b => cases b <;> simp [boolText]
  unfold corsCheck
  rw [allowed]
  cases cfg.origin with
  | none => simp
  | some kind =>
    cases credentials with
    | false => simp
    | true => simpa using truth

theorem copyLaid (cfg : Cors) (origin : Text) (inner : Response T) :
    Laid cfg origin inner (copyFromResponse (base cfg origin) inner) := by
  have own : ∀ name, HeaderMap.containsKey inner.headers name = true →
      HeaderMap.getAll (copyFromResponse (base cfg origin) inner).headers name = HeaderMap.getAll inner.headers name :=
    fun name held => (getAllExtend _ _ name).trans (if_pos held)
  have added : ∀ name, HeaderMap.containsKey inner.headers name = false →
      HeaderMap.getAll (copyFromResponse (base cfg origin) inner).headers name = (granted cfg origin name).toList :=
    fun name free => (getAllExtend _ _ name).trans ((if_neg (by rw [free]; simp)).trans (baseValues cfg origin name))
  exact ⟨rfl, rfl, own, added, fun free open_ => checkGranted (added _ free) (added _ open_)⟩

/-- A cross-origin request is refused before its handler, or its handler's response is laid
over headers that let a browser read it exactly where the settings say so. -/
theorem corsGrants [Monad m] {cfg : Cors} (fresh : cfg.cachedHeaders = none) (earlier : List (Request T)) {req : Request T}
    (asked : reqOrigin req ≠ []) (actual : req.parts.method ≠ .options) (next : Request T → m (Outcome T)) :
    allows cfg (reqOrigin req) = false ∧
        (handle reason isJson (after cfg earlier) req next).1 = pure (.error (refused (reqOrigin req))) ∨
      allows cfg (reqOrigin req) = true ∧ ∃ give : Outcome T → Response T,
        (handle reason isJson (after cfg earlier) req next).1 = (do let result ← next req; pure (.ok (give result))) ∧
        ∀ result, Laid cfg (reqOrigin req) (answerOf reason isJson result) (give result) := by
  rw [handlePlain reason isJson fresh, plainHandle, if_neg (by simpa using asked)]
  cases allowed : allows cfg (reqOrigin req) with
  | false => exact .inl ⟨rfl, rfl⟩
  | true =>
    refine .inr ⟨rfl, fun result => copyFromResponse (base cfg (reqOrigin req)) (answerOf reason isJson result), ?_,
      fun result => copyLaid cfg _ _⟩
    rw [if_neg (by simp), if_neg actual]

end

def shop : Text := "https://shop.example".toList

def shopCors : Cors :=
  ⟨some (.allowSome [shop]), some (CorsType.ofStr "GET, PUT".toList), some (CorsType.ofStr ['*']), some true, none, none, none⟩

def fromShop (method : Method) : Request TowerCompat.plainPayload :=
  {CompressionFrame.asking with parts := {CompressionFrame.asking.parts with method, headers := [(originName, shop)]}}

theorem corsGrantsShop : ∃ out : Response TowerCompat.plainPayload,
    (handle (fun _ => none) (fun _ => false) (after shopCors [fromShop .get]) (fromShop .get)
      (fun _ => (pure (.ok Response.empty) : Id (Outcome TowerCompat.plainPayload)))).1 = pure (.ok out) ∧
    corsCheck (combined out.headers) shop true = true := by
  have served := @corsGrants TowerCompat.plainPayload Id (fun _ => none) (fun _ => false) _ shopCors rfl [fromShop .get]
    (fromShop .get) (by decide) (by decide) (fun _ => pure (.ok Response.empty))
  rcases served with ⟨refuses, -⟩ | ⟨-, give, same, laid⟩
  · exact absurd refuses (by decide)
  · exact ⟨_, same, ((laid (.ok Response.empty)).readable rfl rfl true).mpr ⟨rfl, fun _ => rfl⟩⟩

theorem alphanumVisible {c : Char} (plain : c.isAlphanum = true) : Sessions.isVisible c = true := by
  have ranges : (decide (65 ≤ c.val ∧ c.val ≤ 90) || 97 ≤ c.val && c.val ≤ 122 || 48 ≤ c.val && c.val ≤ 57) = true := plain
  simp only [Bool.or_eq_true, Bool.and_eq_true, decide_eq_true_eq, UInt32.le_iff_toNat_le] at ranges
  simp only [Sessions.isVisible, Bool.or_eq_true, Bool.and_eq_true, decide_eq_true_eq, Char.le_def, UInt32.le_iff_toNat_le]
  left
  simp only [Char.reduceVal, UInt32.reduceToNat] at ranges ⊢
  omega

theorem tokenVisible {c : Char} (token : isTokenChar c = true) : Sessions.isVisible c = true := by
  simp only [isTokenChar, Bool.or_eq_true, decide_eq_true_eq] at token
  rcases token with (plain | mark) | tick
  · exact alphanumVisible plain
  · have marks : ("!#$%&'*+-.^_|~".toList.all Sessions.isVisible) = true := by decide
    exact List.all_eq_true.mp marks c (List.contains_iff_mem.mp mark)
  · have same : c = Char.ofNat 0x60 := by rw [← tick, Char.ofNat_toNat]
    rw [same]
    decide

theorem blankVisible {c : Char} (blank : isBlank c = true) : Sessions.isVisible c = true := by
  simp only [isBlank, Bool.or_eq_true, decide_eq_true_eq] at blank
  rcases blank with rfl | rfl <;> decide

def listNames : CorsType → List Text
  | .any => [['*']]
  | .allowSome value => members (value.flatMap (List.splitOn ','))

/-- Every member of the list is a method or a header name, as far as their letters go. -/
def Listed (kind : Option CorsType) : Prop := ∀ value ∈ kind, (listNames value).all isToken = true

theorem valueVisible {kind : CorsType} (tokens : (listNames kind).all isToken = true) :
    Sessions.toStr kind.getValue = some kind.getValue := by
  cases kind with
  | any => rfl
  | allowSome value =>
    refine if_pos (List.all_eq_true.mpr fun c among => ?_)
    rcases joinedChars tokens c among with comma | blank | token
    · rw [comma]
      decide
    · exact blankVisible blank
    · exact tokenVisible token

theorem valueExtracts {kind : CorsType} (tokens : (listNames kind).all isToken = true) :
    extractList kind.getValue = some (listNames kind) := by
  cases kind with
  | any => decide
  | allowSome value => exact extractJoined tokens

theorem listSet {cfg : Cors} {headers : HeaderMap} {name : Text} {kind : Option CorsType} (listed : Listed kind)
    (set : setting cfg name = kind.map CorsType.getValue)
    (values : HeaderMap.getAll headers name = ((setting cfg name).bind Sessions.toStr).toList) :
    listOf (combined headers) name = some (kind.map listNames) := by
  have held : combined headers name = kind.map CorsType.getValue := by
    refine combinedOption (values.trans (congrArg Option.toList ?_))
    rw [set]
    cases kind with
    | none => rfl
    | some value => exact valueVisible (listed value rfl)
  unfold listOf
  rw [held]
  cases kind with
  | none => rfl
  | some value => simp [valueExtracts (listed value rfl)]

section
variable (reason : Nat → Option Text) (isJson : Text → Bool)

/-- A preflight never reaches the handler, and passes exactly where the settings allow the
origin, the method and the headers it asks for. -/
theorem corsPreflight [Monad m] {cfg : Cors} (fresh : cfg.cachedHeaders = none) (methods : Listed cfg.methods)
    (headers : Listed cfg.headers) (earlier : List (Request T)) {req : Request T} (asked : reqOrigin req ≠ [])
    (options : req.parts.method = .options) (next : Request T → m (Outcome T)) :
    allows cfg (reqOrigin req) = false ∧
        (handle reason isJson (after cfg earlier) req next).1 = pure (.error (refused (reqOrigin req))) ∨
      allows cfg (reqOrigin req) = true ∧ ∃ res : Response T,
        (handle reason isJson (after cfg earlier) req next).1 = pure (.ok res) ∧
        ∀ request : Preflight, request.origin = reqOrigin req →
          (preflightPasses res.status (combined res.headers) request = true ↔
            cfg.origin.isSome = true ∧ (request.credentials = true → cfg.credentials = some true) ∧
              listsAllow request (cfg.methods.map listNames) (cfg.headers.map listNames) = true) := by
  rw [handlePlain reason isJson fresh, plainHandle, if_neg (by simpa using asked)]
  cases allowed : allows cfg (reqOrigin req) with
  | false => exact .inl ⟨rfl, rfl⟩
  | true =>
    refine .inr ⟨rfl, base cfg (reqOrigin req), by rw [if_neg (by simp), if_pos options], fun request same => ?_⟩
    have values := baseValues (T := T) cfg (reqOrigin req)
    have check := checkGranted (values _) (values _) request.credentials
    have first := listSet methods rfl (values allowMethods)
    have second := listSet headers rfl (values allowHeaders)
    have status : (base (T := T) cfg (reqOrigin req)).status = 200 := by
      unfold base
      split <;> rfl
    rw [preflightPasses, first, second, status, same]
    simp only [Bool.and_eq_true, check, Nat.le_refl, decide_true, and_true, Nat.reduceLeDiff, and_assoc]

end

theorem corsPreflightShop : ∃ res : Response TowerCompat.plainPayload,
    (handle (fun _ => none) (fun _ => false) (after shopCors [fromShop .get]) (fromShop .options)
      (fun _ => (pure (.ok Response.empty) : Id (Outcome TowerCompat.plainPayload)))).1 = pure (.ok res) ∧
    preflightPasses res.status (combined res.headers) ⟨shop, true, "PUT".toList, false, []⟩ = true ∧
    preflightPasses res.status (combined res.headers) ⟨shop, true, "PUT".toList, false, ["x-token".toList]⟩ = false := by
  have served := @corsPreflight TowerCompat.plainPayload Id (fun _ => none) (fun _ => false) _ shopCors rfl
    (fun value set => by cases set; decide) (fun value set => by cases set; decide) [fromShop .get] (fromShop .options)
    (by decide) rfl (fun _ => pure (.ok Response.empty))
  rcases served with ⟨refuses, -⟩ | ⟨-, res, same, passes⟩
  · exact absurd refuses (by decide)
  · refine ⟨res, same, (passes _ rfl).mpr ⟨rfl, fun _ => rfl, by decide⟩, eq_false_of_ne_true fun passed => ?_⟩
    exact absurd ((passes _ rfl).mp passed).2.2 (by decide)

end Silent.CorsMiddleware
