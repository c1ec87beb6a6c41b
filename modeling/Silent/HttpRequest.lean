import Silent.HashMap
import Silent.PathSegment

/-! The part of a request the router reads and writes: method, URI path, path
parameters and typed state. String parameters are ranges of the shared path buffer,
so reading one is a slice expression that can panic. -/
namespace Silent.HttpRequest
open ByteText PathSegment

inductive Method where
  | get | post | put | delete | head | options | connect | patch | trace
  | extension (name : Text)
  deriving DecidableEq, Repr

-- Of an error of another crate only its message is kept.
inductive SilentError where
  | ioError (message : Text)
  | serdeJsonError (message : Text)
  | serdeDeError (message : Text)
  | hyperError (message : Text)
  | fileEmpty (message : Text)
  | bodyEmpty | jsonEmpty
  | contentTypeError | contentTypeMissingError
  | paramsEmpty | paramsNotFound | configNotFound
  | wsError (message : Text)
  | anyhowError (message : Text)
  | businessError (code : Nat) (msg : Text)
  | notFound
  deriving DecidableEq, Repr

def SilentError.status : SilentError → Nat
  | .businessError code _ => code
  | .serdeDeError _ => 422
  | .serdeJsonError _ => 422
  | .notFound => 404
  | .contentTypeError => 400
  | .bodyEmpty => 400
  | .jsonEmpty => 400
  | _ => 500

def showStatus (reason : Nat → Option Text) (code : Nat) : Text :=
  (Nat.repr code).toList ++ ' ' :: (reason code).getD "<unknown status code>".toList

def SilentError.display (reason : Nat → Option Text) : SilentError → Text
  | .ioError _ => "io error".toList
  | .serdeJsonError message => "serde_json error `".toList ++ message ++ ['`']
  | .serdeDeError message => "serde de error `".toList ++ message ++ ['`']
  | .hyperError message => "the data for key `".toList ++ message ++ "` is not available".toList
  | .fileEmpty message => "upload file read error `".toList ++ message ++ ['`']
  | .bodyEmpty => "body is empty".toList
  | .jsonEmpty => "json is empty".toList
  | .contentTypeError => "content-type is error".toList
  | .contentTypeMissingError => "content-type is missing".toList
  | .paramsEmpty => "params is empty".toList
  | .paramsNotFound => "params not found".toList
  | .configNotFound => "config not found".toList
  | .wsError message => "websocket error: ".toList ++ message
  | .anyhowError message => message
  | .businessError code msg => "business error: ".toList ++ msg ++ " (".toList ++ showStatus reason code ++ [')']
  | .notFound => "not found".toList

abbrev SilentResult (α : Type) := Except SilentError α

abbrev TypeId := Nat

-- A type-keyed map; `V` is the type of the stored `Arc<dyn Any>` values.
abbrev State (V : Type) := HashMap TypeId V

def State.extendFrom {V : Type} (self other : State V) : State V := HashMap.overwriteAll self other

structure PathSlice where
  source : Slice
  range : Range
  deriving DecidableEq, Repr

def PathSlice.asStr (s : PathSlice) : Option Text :=
  sliceBytes s.source.text s.range.start s.range.stop

inductive PathString where
  | borrowed (slice : PathSlice)
  | owned (value : Text)
  deriving DecidableEq, Repr

def PathString.asStr : PathString → Option Text
  | .borrowed slice => slice.asStr
  | .owned value => some value

inductive PathParam where
  | str (value : PathString)
  | int (value : I32)
  | int64 (value : I64)
  | int32 (value : I32)
  | uInt64 (value : U64)
  | uInt32 (value : U32)
  | uuid (value : Uuid)
  | path (value : PathString)
  deriving DecidableEq

namespace PathParam

def borrowedStr (source : Slice) (range : Range) : PathParam := .str (.borrowed ⟨source, range⟩)
def borrowedPath (source : Slice) (range : Range) : PathParam := .path (.borrowed ⟨source, range⟩)

end PathParam

structure Request (V : Type) where
  method : Method
  uriPath : Text
  pathParams : HashMap Text PathParam
  pathSource : Option Slice
  state : State V

variable {V : Type}

def Request.fromParts (method : Method) (uriPath : Text) : Request V :=
  ⟨method, uriPath, ∅, none, ∅⟩

def Request.setPathParams (req : Request V) (key : Text) (value : PathParam) : Request V :=
  {req with pathParams := req.pathParams.insert key value}

def Request.setPathSource (req : Request V) (source : Slice) : Request V :=
  {req with pathSource := some source}

end Silent.HttpRequest
