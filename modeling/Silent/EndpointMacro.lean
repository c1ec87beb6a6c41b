import Silent.HeaderText
import Silent.OpenApiRoute

/-! The `endpoint` attribute of silent-openapi-macros: what it reads off an async function, and
the registrations its handler makes when a route takes it. Parsing is syn's. -/
namespace Silent.EndpointMacro
open ByteText OpenApiRoute

/- A `syn::Type`. A path is the ident of its last segment, the first of the arguments in angle
brackets there if it is a type, and its other tokens. -/
inductive Ty where
  | plain (tokens ident : Text)
  | generic (tokens ident : Text) (first : Ty)
  | reference (elem : Ty)
  | other
  deriving DecidableEq

def Ty.ident : Ty → Option Text
  | .plain _ ident | .generic _ ident _ => some ident
  | .reference _ | .other => none

structure ToSchema (B : Type) where
  name : Text
  schema : B
  schemas : List (Text × B)

inductive Nested where
  | status (code : UInt16)
  | description (text : Text)
  | skipped
  | broken

inductive Arg where
  | deprecated
  | summary (text : Text)
  | description (text : Text)
  | tags (text : Text)
  | response (nested : List Nested)
  | other

structure MetaArgs where
  summary : Option Text
  description : Option Text
  deprecated : Bool
  tags : List Text
  extraResponses : List ExtraResponse

def readNested : List Nested → Option Nat × Option Text → Option Nat × Option Text
  | [], found | .broken :: _, found => found
  | .status code :: rest, found => readNested rest (some code.toNat, found.2)
  | .description text :: rest, found => readNested rest (found.1, some text)
  | .skipped :: rest, found => readNested rest found

def readArg (args : MetaArgs) : Arg → MetaArgs
  | .deprecated => {args with deprecated := true}
  | .summary text => {args with summary := some text}
  | .description text => {args with description := some text}
  | .tags text => {args with tags := args.tags ++ ((text.splitOn ',').map HeaderText.trim).filter (· ≠ [])}
  | .response nested =>
      match readNested nested (none, none) with
      | (some status, some description) => {args with extraResponses := args.extraResponses ++ [⟨status, description⟩]}
      | _ => args
  | .other => args

def readArgs (args : List Arg) : MetaArgs := args.foldl readArg ⟨none, none, false, [], []⟩

-- `#[doc(..)]` has items. A `///` comment is `#[doc = ".."]`, which has none for `parse_nested_meta`.
inductive DocAttr where
  | comment (text : Text)
  | list (items : List (Option Text))

def docLines (attrs : List DocAttr) : List Text :=
  attrs.flatMap (fun
    | .comment _ => []
    | .list items => ((items.takeWhile (·.isSome)).filterMap id).map HeaderText.trim)

def joinLines : List Text → Text
  | [] => []
  | [line] => line
  | line :: lines => line ++ '\n' :: joinLines lines

def docTexts (attrs : List DocAttr) : Option Text × Option Text :=
  match (docLines attrs).filter (· ≠ []) with
  | [] => (none, none)
  | first :: rest => (some first, if joinLines rest = [] then none else some (joinLines rest))

def okType : Option Ty → Option Ty
  | some (.generic _ ident first) => if ident = "Result".toList ∨ ident = "SilentResult".toList then some first else none
  | _ => none

def retMeta (output : Option Ty) : Option ResponseMeta :=
  match okType output with
  | some (.plain _ ident) | some (.generic _ ident _) =>
      if ident = "Response".toList then none else if ident = "String".toList then some .textPlain else some (.json ident)
  | some (.reference elem) => elem.ident.map (fun ident => if ident = "str".toList then .textPlain else .json ident)
  | some .other | none => none

def retSchemaRegister (output : Option Ty) : Option Ty :=
  match okType output with
  | some okTy@(.plain _ ident) | some okTy@(.generic _ ident _) =>
      if ident = "Response".toList ∨ ident = "String".toList then none else some okTy
  | some (.reference elem) => elem.ident.bind (fun ident => if ident = "str".toList then none else some elem)
  | some .other | none => none

def genRequestMetaRegister : Ty → Option (RequestMeta × Ty)
  | .generic _ ident inner =>
      inner.ident.bind (fun name =>
        if name = [] then none
        else if ident = "Json".toList then some (.jsonBody name, inner)
        else if ident = "Form".toList then some (.formBody name, inner)
        else if ident = "Query".toList then some (.queryParams name, inner)
        else none)
  | _ => none

inductive FnArg where
  | typed (ty : Ty)
  | receiver

def isRequest (ty : Ty) : Bool := ty.ident = some "Request".toList

def requestRegister : List FnArg → Option (Option (RequestMeta × Ty))
  | [.typed ty] => some (if isRequest ty then none else genRequestMetaRegister ty)
  | [.typed first, .typed second] => if isRequest first then some (genRequestMetaRegister second) else none
  | _ => none

/- A function under the attribute that a route can take. `schemaOf` is what the types in its
signature are where it stands. -/
structure Endpoint (B : Type) where
  args : List Arg
  attrs : List DocAttr
  inputs : List FnArg
  output : Option Ty
  schemaOf : Ty → ToSchema B
  mounts : (requestRegister inputs).isSome = true

inductive Call (B : Type) where
  | doc (summary description : Option Text) (deprecated : Bool) (tags : List Text)
  | schema (type : ToSchema B)
  | response (shape : ResponseMeta)
  | extraResponse (extra : ExtraResponse)
  | request (shape : RequestMeta)

variable {B : Type}

namespace Endpoint

def summary (e : Endpoint B) : Option Text := (readArgs e.args).summary.or (docTexts e.attrs).1

def description (e : Endpoint B) : Option Text := (readArgs e.args).description.or (docTexts e.attrs).2

def request (e : Endpoint B) : Option (RequestMeta × Ty) := (requestRegister e.inputs).get e.mounts

def types (e : Endpoint B) : List Ty := (retSchemaRegister e.output).toList ++ (e.request.map (·.2)).toList

def intoHandler (e : Endpoint B) : List (Call B) :=
  .doc e.summary e.description (readArgs e.args).deprecated (readArgs e.args).tags ::
    ((retSchemaRegister e.output).toList.map (.schema <| e.schemaOf ·) ++ ((retMeta e.output).toList.map .response ++
      ((readArgs e.args).extraResponses.map .extraResponse ++
        e.request.toList.flatMap (fun found => [.request found.1, .schema (e.schemaOf found.2)]))))

end Endpoint

def RequestMeta.typeName : RequestMeta → Text
  | .jsonBody typeName | .formBody typeName | .queryParams typeName => typeName

theorem retMetaJson {output : Option Ty} {name : Text} (json : retMeta output = some (.json name)) :
    ∃ ty, retSchemaRegister output = some ty ∧ ty.ident = some name := by
  unfold retMeta at json
  unfold retSchemaRegister
  cases returned : okType output with
  | none =>
    rw [returned] at json
    cases json
  | some ty =>
    rw [returned] at json
    cases ty with
    | plain tokens ident | generic tokens ident first =>
      dsimp only at json ⊢
      split at json
      · cases json
      · rename_i other
        split at json
        · cases json
        · rename_i plain
          cases json
          exact ⟨_, if_neg (not_or.mpr ⟨other, plain⟩), rfl⟩
    | reference elem =>
      dsimp only at json ⊢
      obtain ⟨ident, named, shape⟩ := Option.map_eq_some_iff.mp json
      split at shape
      · cases shape
      · rename_i other
        cases shape
        rw [named, Option.bind_some, if_neg other]
        exact ⟨elem, rfl, named⟩
    | other => cases json

theorem requestNamed {ty inner : Ty} {shape : RequestMeta} (found : genRequestMetaRegister ty = some (shape, inner)) :
    inner.ident = some (RequestMeta.typeName shape) := by
  cases ty with
  | generic tokens ident first =>
    obtain ⟨name, named, shaped⟩ := Option.bind_eq_some_iff.mp found
    split at shaped
    · cases shaped
    · split at shaped
      · cases shaped
        exact named
      · split at shaped
        · cases shaped
          exact named
        · split at shaped <;> cases shaped
          exact named
  | plain _ _ | reference _ | other => cases found

theorem registerNamed {inputs : List FnArg} {shape : RequestMeta} {inner : Ty}
    (found : requestRegister inputs = some (some (shape, inner))) : inner.ident = some (RequestMeta.typeName shape) := by
  unfold requestRegister at found
  split at found
  · split at found
    · cases found
    · exact requestNamed (Option.some.inj found)
  · split at found
    · exact requestNamed (Option.some.inj found)
    · cases found
  · cases found

namespace Endpoint

theorem schemaCalls (e : Endpoint B) (type : ToSchema B) :
    Call.schema type ∈ e.intoHandler ↔ ∃ ty ∈ e.types, type = e.schemaOf ty := by
  cases returned : retSchemaRegister e.output <;> cases asked : e.request <;>
    simp [intoHandler, types, returned, asked, eq_comm]

theorem responseCall {e : Endpoint B} {name : Text} (called : Call.response (.json name) ∈ e.intoHandler) :
    ∃ ty ∈ e.types, ty.ident = some name := by
  have json : retMeta e.output = some (.json name) := by simpa [intoHandler] using called
  obtain ⟨ty, registered, named⟩ := retMetaJson json
  exact ⟨ty, List.mem_append_left _ (by simp [registered]), named⟩

theorem requestCall {e : Endpoint B} {shape : RequestMeta} (called : Call.request shape ∈ e.intoHandler) :
    ∃ ty ∈ e.types, ty.ident = some (RequestMeta.typeName shape) := by
  have asked : ∃ ty, e.request = some (shape, ty) := by simpa [intoHandler] using called
  obtain ⟨ty, asked⟩ := asked
  have registered : requestRegister e.inputs = some (some (shape, ty)) := by rw [← asked, request, Option.some_get]
  exact ⟨ty, List.mem_append_right _ (by simp [asked]), registerNamed registered⟩

end Endpoint

end Silent.EndpointMacro
