import ModRemap.Dict

/-! How the host makes instances. A construction may read and write the state of the host and may
ask the registry of entrypoints, which can lead to further constructions. -/

namespace ModRemap

/-- The interface that an entrypoint is asked for as. -/
structure Capability where
  name : String
deriving DecidableEq, Repr

/-- An instance that can be used as one capability. -/
structure TypedInstance (ι : Type) where
  capability : Capability
  value : ι
deriving DecidableEq, Repr

/-- An instance of an old-style adapter, as each capability that it can be viewed as. -/
abbrev UntypedInstance (ι : Type) := Dict Capability ι

/-- The failure of one declaration. -/
structure EntrypointFailure where
  key : String
  modId : String
  cause : String
deriving DecidableEq, Repr

/-- The first failure under a key, and the later ones. -/
structure EntrypointError where
  first : EntrypointFailure
  suppressed : List EntrypointFailure := []
deriving DecidableEq, Repr

namespace EntrypointFailure

def message (f : EntrypointFailure) : String :=
  s!"exception while loading entries for entrypoint '{f.key}' provided by '{f.modId}'"

end EntrypointFailure

def EntrypointError.message (e : EntrypointError) : String := e.first.message

/-- Where a container finds its instance: it is there, or a declaration has to make it. -/
inductive ContainerSource (ι : Type) where
  | ready (value : ι)
  | deferred (declaration : Nat) (capability : Capability)
deriving DecidableEq, Repr

/-- An entrypoint and the mod that declares it. -/
structure EntrypointContainer (ι : Type) where
  key : String
  modId : String
  source : ContainerSource ι
deriving DecidableEq, Repr

/-- What a registry is asked: all instances under a key, their containers, or the instance of one
container. -/
inductive Request (ι : Type) where
  | instances (key : String) (capability : Capability)
  | containers (key : String) (capability : Capability)
  | value (container : EntrypointContainer ι)

/-- What it answers. -/
def Request.Answer {ι : Type} : Request ι → Type
  | .instances _ _ => Except EntrypointError (List ι)
  | .containers _ _ => List (EntrypointContainer ι)
  | .value _ => Except EntrypointFailure ι

/-- The steps that lead to a result of type `α`, or to the text of a failure. The state of the host
has type `σ` and instances have type `ι`. -/
inductive Construction (σ ι α : Type) where
  | finish (result : Except String α)
  | read (next : σ → Construction σ ι α)
  | write (host : σ) (next : Construction σ ι α)
  | ask (request : Request ι) (next : request.Answer → Construction σ ι α)

namespace Construction

variable {σ ι α β : Type}

def map (f : α → β) : Construction σ ι α → Construction σ ι β
  | .finish result => .finish (result.map f)
  | .read next => .read fun host => (next host).map f
  | .write host next => .write host (next.map f)
  | .ask request next => .ask request fun answer => (next answer).map f

end Construction

end ModRemap
