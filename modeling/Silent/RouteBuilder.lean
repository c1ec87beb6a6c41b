import Silent.HttpRequest

/-! The route builder. `Route::new` splits a multi-segment path into nested nodes
and remembers the whole path in `create_path`; later registrations find the node of
the last segment by that text. A failed `unwrap` of such a search is `none`. -/
namespace Silent.RouteBuilder
open ByteText PathSegment HttpRequest

structure Route (H M V : Type) where
  path : Text
  handler : HashMap Method H
  children : List (Route H M V)
  middlewares : List M
  specialMatch : Bool
  createPath : Text
  state : Option (State V)
  sessionSet : Bool

namespace Route
variable {H M V : Type}

theorem sizeOfChild {r c : Route H M V} (mem : c ∈ r.children) : sizeOf c < sizeOf r := by
  cases r
  have smaller := List.sizeOf_lt_of_mem mem
  simp only [mk.sizeOf_spec] at *
  omega

def newRoot : Route H M V := ⟨[], ∅, [], [], false, [], some ∅, false⟩

def sameNode (route child : Route H M V) : Bool :=
  child.path = route.path && child.specialMatch = route.specialMatch

def mergeState (self other : Option (State V)) : Option (State V) :=
  match other with
  | none => self
  | some otherState =>
      match self with
      | some state => some (state.extendFrom otherState)
      | none => some otherState

mutual
def mergeChild (children : List (Route H M V)) (route : Route H M V) : List (Route H M V) :=
  match children.findIdx? (sameNode route) with
  | some idx => children.modify idx (fun existing => mergeFrom existing route)
  | none => children ++ [route]
termination_by 2 * sizeOf route + 1

def mergeFrom (self other : Route H M V) : Route H M V :=
  { self with
    handler := HashMap.orInsertAll self.handler other.handler
    middlewares := self.middlewares ++ other.middlewares
    children := other.children.attach.foldl (fun children child => mergeChild children child.1) self.children
    state := mergeState self.state other.state
    specialMatch := self.specialMatch || other.specialMatch
    sessionSet := self.sessionSet || other.sessionSet }
termination_by 2 * sizeOf other
decreasing_by
  have := sizeOfChild child.2
  omega
end

def appendRoute (self route : Route H M V) : Route H M V :=
  {self with children := mergeChild self.children route}

def single (path first : Text) : Route H M V :=
  ⟨first, ∅, [], [], isSpecial first, path, none, false⟩

def new (path : Text) : Route H M V :=
  let trimmed := path.dropWhile (· = '/')
  let lastPath := (splitFirst '/' trimmed).2
  if lastPath = [] then single trimmed (splitFirst '/' trimmed).1
  else (single trimmed (splitFirst '/' trimmed).1).appendRoute (new lastPath)
termination_by path.length
decreasing_by
  have slash : '/' ∈ trimmed := by
    by_contra absent
    exact ‹¬lastPath = []› (congrArg Prod.snd (splitFirstAbsent absent))
  exact Nat.lt_of_lt_of_le (splitFirstShorter slash) (List.dropWhile_suffix _).length_le

-- `get_append_real_route`, together with what its callers do to the node it returns.
def updateRealRoute (f : Route H M V → Route H M V) (createPath : Text) (self : Route H M V) :
    Option (Route H M V) :=
  if '/' ∈ createPath then
    let lastPath := (splitFirst '/' createPath).2
    match self.children.findIdx? (fun r => r.createPath = lastPath) with
    | none => none
    | some idx => do
        let child ← self.children[idx]?
        let updated ← updateRealRoute f lastPath child
        some {self with children := self.children.set idx updated}
  else some (f self)
termination_by createPath.length
decreasing_by exact splitFirstShorter ‹_›

def append (self route : Route H M V) : Option (Route H M V) :=
  updateRealRoute (fun real => {real with children := mergeChild real.children route}) self.createPath self

def push (self route : Route H M V) : Option (Route H M V) :=
  updateRealRoute (fun real => {real with children := mergeChild real.children route}) self.createPath self

def extend (self : Route H M V) (routes : List (Route H M V)) : Option (Route H M V) :=
  updateRealRoute (fun real => {real with children := routes.foldl mergeChild real.children}) self.createPath self

def hook (self : Route H M V) (middleware : M) : Route H M V :=
  {self with middlewares := self.middlewares ++ [middleware]}

def hookFirst (self : Route H M V) (middleware : M) : Route H M V :=
  {self with middlewares := middleware :: self.middlewares}

def withState (self : Route H M V) (key : TypeId) (value : V) : Route H M V :=
  {self with state := some ((self.state.getD ∅).insert key value)}

def setState (self : Route H M V) (state : Option (State V)) : Route H M V :=
  {self with state := state}

-- `get_handler_mut`, together with the insertion its callers make.
def updateHandler (f : HashMap Method H → HashMap Method H) (self : Route H M V) :
    Option (Route H M V) :=
  if self.path = self.createPath then some {self with handler := f self.handler}
  else
    let lastUrl := (splitFirst '/' self.createPath).2
    match self.children.findIdx? (fun c => c.createPath = lastUrl) with
    | none => none
    | some idx =>
        match _found : self.children[idx]? with
        | none => none
        | some child => do
            let updated ← updateHandler f child
            some {self with children := self.children.set idx updated}
termination_by sizeOf self
decreasing_by exact sizeOfChild (List.mem_of_getElem? ‹_›)

def onMethod (self : Route H M V) (method : Method) (handler : H) : Option (Route H M V) :=
  updateHandler (·.insert method handler) self

def insertHandler (self : Route H M V) (method : Method) (handler : H) : Route H M V :=
  {self with handler := self.handler.insert method handler}

def get (self : Route H M V) : H → Option (Route H M V) := onMethod self .get
def post (self : Route H M V) : H → Option (Route H M V) := onMethod self .post
def put (self : Route H M V) : H → Option (Route H M V) := onMethod self .put
def delete (self : Route H M V) : H → Option (Route H M V) := onMethod self .delete
def patch (self : Route H M V) : H → Option (Route H M V) := onMethod self .patch
def options (self : Route H M V) : H → Option (Route H M V) := onMethod self .options

end Route
end Silent.RouteBuilder
