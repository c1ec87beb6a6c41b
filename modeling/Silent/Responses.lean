import Silent.CompressionFrame
import Silent.Utf8Text

/-! Responses put together from others: `Response::copy_from_response`, with the `extend` of
header maps and extensions it rests on, and the response an error becomes. -/
namespace Silent.Responses
open ByteText TowerCompat
open CompressionFrame (HeaderMap)
open HttpRequest (SilentError)

def cacheControl : Text := "cache-control".toList

-- `Extend for HeaderMap`: the values of a name give way to those of the other map.
def extend (headers other : HeaderMap) : HeaderMap :=
  headers.filter (fun entry => !HeaderMap.containsKey other entry.1) ++ other

theorem getAllAppend (headers other : HeaderMap) (name : Text) :
    HeaderMap.getAll (headers ++ other) name = HeaderMap.getAll headers name ++ HeaderMap.getAll other name :=
  List.filterMap_append

theorem getAllExtend (headers other : HeaderMap) (name : Text) :
    HeaderMap.getAll (extend headers other) name =
      if HeaderMap.containsKey other name then HeaderMap.getAll other name else HeaderMap.getAll headers name := by
  have kept : HeaderMap.getAll (headers.filter fun entry => !HeaderMap.containsKey other entry.1) name =
      if HeaderMap.containsKey other name then [] else HeaderMap.getAll headers name := by
    induction headers with
    | nil => simp
    | cons entry rest ih =>
      by_cases same : entry.1 = name
      · subst same
        cases held : HeaderMap.containsKey other entry.1 <;> simp [held, HeaderMap.getAllCons, ih]
      · rw [HeaderMap.getAllCons, if_neg same, ← ih, List.filter_cons]
        split
        · rw [HeaderMap.getAllCons, if_neg same]
        · rfl
  rw [extend, getAllAppend, kept]
  cases held : HeaderMap.containsKey other name with
  | true => simp
  | false =>
    have none : HeaderMap.getAll other name = [] := by simpa [HeaderMap.containsKey] using held
    simp [none]

variable {T : Payload}

def extendExtensions (self other : Extensions T) : Extensions T :=
  ⟨⟨other.shared.cookies.or self.shared.cookies, other.shared.session.or self.shared.session,
    HashMap.overwriteAll self.shared.others other.shared.others⟩, other.extras.or self.extras⟩

def copyFromResponse (self res : Response T) : Response T :=
  {self with
    headers := extend self.headers res.headers
    status := res.status
    extensions := extendExtensions self.extensions res.extensions
    body := res.body}

def full (text : Text) : ResBody := .once (Utf8Text.encode text)

def message (reason : Nat → Option Text) : SilentError → Text
  | .businessError _ msg => msg
  | .serdeDeError message => message
  | .serdeJsonError message => message
  | error => error.display reason

def fromError (reason : Nat → Option Text) (isJson : Text → Bool) (error : SilentError) : Response T :=
  {Response.empty with
    status := error.status
    headers :=
      if isJson (message reason error) then HeaderMap.insert [] CompressionFrame.contentType "application/json".toList else []
    body := full (message reason error)}

end Silent.Responses
