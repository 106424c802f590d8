import ModRemap.Entrypoints.Adapter
import ModRemap.Entrypoints.Slots

/-! Entrypoints by the key that they are declared under. An instance is made when it is first asked
for, and stays. -/

namespace ModRemap

inductive Declaration (σ ι : Type) where
  | keyed (modId value : String) (adapter : LanguageAdapter σ ι)
  | legacy (modId value classRef : String)

/-- What has been made for the declarations, by their numbers. -/
structure Instances (ι : Type) where
  keyed : Slots (Nat × Capability) ι := {}
  legacy : Slots Nat (UntypedInstance ι) := {}
deriving DecidableEq, Repr

/-- The state of the host and the instances there are. -/
structure World (σ ι : Type) where
  host : σ
  made : Instances ι

abbrev Lookup (σ ι : Type) := StateM (World σ ι)

/-- A way to answer requests. -/
abbrev Server (σ ι : Type) := (request : Request ι) → Lookup σ ι request.Answer

/-- Takes the steps of a construction. Without a server nothing may be asked. -/
def Construction.run {σ ι α : Type} (server : Option (Server σ ι)) :
    Construction σ ι α → Lookup σ ι (Except String α)
  | .finish result => pure result
  | .read next => do (next (← get).host).run server
  | .write host next => do
    modify fun world => { world with host }
    next.run server
  | .ask request next =>
    match server with
    | none => pure (.error "constructions are nested too deeply")
    | some serve => do (next (← serve request)).run server

structure EntrypointRegistry (σ ι : Type) where
  adapters : AdapterRegistry σ ι
  /-- Every declaration; its place is its number. -/
  declarations : List (Declaration σ ι) := []
  /-- The numbers of the declarations under each key. -/
  hooks : Dict String (List Nat) := ∅

namespace EntrypointRegistry

variable {σ ι : Type} (registry : EntrypointRegistry σ ι)

/-- The keys that an old-style declaration comes under. -/
def legacyKeys : List String := ["main", "client", "server"]

def hook (hooks : Dict String (List Nat)) (number : Nat) (key : String) :
    Dict String (List Nat) :=
  hooks.update key fun numbers => numbers.getD [] ++ [number]

def declare (keys : List String) (d : Declaration σ ι) : EntrypointRegistry σ ι :=
  { registry with
    declarations := registry.declarations ++ [d]
    hooks := keys.foldl (fun hooks key => hook hooks registry.declarations.length key)
      registry.hooks }

/-- The adapter has to be known. -/
def add (modId key adapter value : String) : Except SetupError (EntrypointRegistry σ ι) :=
  match registry.adapters.keyed.get? adapter with
  | none => .error (.adapterNotFound adapter modId)
  | some adapter => .ok (registry.declare [key] (.keyed modId value adapter))

/-- One declaration under several keys. Its adapter is looked up when it is needed. -/
def addLegacy (modId classRef value : String) : EntrypointRegistry σ ι :=
  registry.declare legacyKeys (.legacy modId value classRef)

def hasEntrypoints (key : String) : Bool := registry.hooks.contains key

/-- The declarations under a key in order, with their numbers. -/
def under (key : String) : List (Nat × Declaration σ ι) :=
  ((registry.hooks.get? key).getD []).filterMap fun number =>
    registry.declarations[number]?.map (number, ·)

/-! ### Instances -/

/-- A part of the instances. -/
structure Shelf (ι κ α : Type) where
  slots : Instances ι → Slots κ α
  place : Slots κ α → Instances ι → Instances ι

def keyedShelf : Shelf ι (Nat × Capability) ι := ⟨Instances.keyed, fun s made => { made with keyed := s }⟩

def legacyShelf : Shelf ι Nat (UntypedInstance ι) :=
  ⟨Instances.legacy, fun s made => { made with legacy := s }⟩

namespace Shelf

variable {κ α β : Type} (shelf : Shelf ι κ α)

def look : Lookup σ ι (Slots κ α) := do return shelf.slots (← get).made

def change (f : Slots κ α → Slots κ α × β) : Lookup σ ι β :=
  modifyGet fun world =>
    let (s, b) := f (shelf.slots world.made)
    (b, { world with made := shelf.place s world.made })

def record (k : κ) (e : SlotEvent α) : Lookup σ ι Unit := shelf.change fun s => (s.record k e, ())

/-- The value of a slot. It is constructed if there is none yet and nothing stands in the way. -/
def demand [DecidableEq κ] (k : κ) (construct : Except String (Lookup σ ι (Except String α))) :
    Lookup σ ι (Except String α) := do
  match (← shelf.look).value? k with
  | some found =>
    shelf.record k (.given found)
    return .ok found
  | none =>
    match construct with
    | .error cause => return .error cause
    | .ok construct =>
      shelf.record k .started
      match ← construct with
      | .error cause =>
        shelf.record k (.failed cause)
        return .error cause
      | .ok created => return .ok (← shelf.change fun s => s.keep k created)

end Shelf

/-- What an adapter makes must be usable as the capability. -/
def usable (capability : Capability) (value : String) :
    Except String (TypedInstance ι) → Except String ι
  | .error cause => .error cause
  | .ok created =>
    if created.capability = capability then .ok created.value
    else .error s!"adapter returned no usable {capability.name} instance for {value}"

def keyedInstance (server : Option (Server σ ι)) (number : Nat) (modId value : String)
    (adapter : LanguageAdapter σ ι) (capability : Capability) : Lookup σ ι (Except String ι) :=
  keyedShelf.demand (number, capability) (.ok do
    return usable capability value (← (adapter modId value capability).run server))

/-- The one instance of an old-style declaration. -/
def legacyInstance (server : Option (Server σ ι)) (number : Nat) (value classRef : String) :
    Lookup σ ι (Except String (UntypedInstance ι)) :=
  legacyShelf.demand number (match registry.adapters.legacy.get? classRef with
    | none => .error s!"unknown language adapter {classRef}"
    | some adapter => .ok ((adapter value).run server))

/-- The view of an old-style declaration as a capability. That there is none is no failure. -/
def legacyView (server : Option (Server σ ι)) (number : Nat) (value classRef : String)
    (capability : Capability) : Lookup σ ι (Option ι) := do
  match ← registry.legacyInstance server number value classRef with
  | .error _ => return none
  | .ok views => return views.get? capability

/-! ### Requests -/

/-- Tries every declaration. The failures and the instances come in the order of declaration. -/
def gather (server : Option (Server σ ι)) (key : String) (capability : Capability) :
    List (Nat × Declaration σ ι) → Lookup σ ι (List EntrypointFailure × List ι)
  | [] => return ([], [])
  | (number, .legacy _ value classRef) :: rest => do
    let view ← registry.legacyView server number value classRef capability
    let (failures, found) ← gather server key capability rest
    return (failures, view.toList ++ found)
  | (number, .keyed modId value adapter) :: rest => do
    let result ← keyedInstance server number modId value adapter capability
    let (failures, found) ← gather server key capability rest
    match result with
    | .ok value => return (failures, value :: found)
    | .error cause => return (⟨key, modId, cause⟩ :: failures, found)

/-- Any failure of a keyed declaration fails the whole request. -/
def instances (server : Option (Server σ ι)) (key : String) (capability : Capability) :
    Lookup σ ι (Except EntrypointError (List ι)) := do
  match ← registry.gather server key capability (registry.under key) with
  | ([], found) => return .ok found
  | (first :: suppressed, _) => return .error ⟨first, suppressed⟩

/-- Keyed declarations are not constructed yet. -/
def contain (server : Option (Server σ ι)) (key : String) (capability : Capability) :
    List (Nat × Declaration σ ι) → Lookup σ ι (List (EntrypointContainer ι))
  | [] => return []
  | (number, .legacy modId value classRef) :: rest => do
    let view ← registry.legacyView server number value classRef capability
    let containers ← contain server key capability rest
    return view.toList.map (fun value => ⟨key, modId, .ready value⟩) ++ containers
  | (number, .keyed modId _ _) :: rest => do
    let containers ← contain server key capability rest
    return ⟨key, modId, .deferred number capability⟩ :: containers

def containerValue (server : Option (Server σ ι)) (container : EntrypointContainer ι) :
    Lookup σ ι (Except EntrypointFailure ι) :=
  let fail (cause : String) : EntrypointFailure := ⟨container.key, container.modId, cause⟩
  match container.source with
  | .ready value => return .ok value
  | .deferred number capability =>
    match registry.declarations[number]? with
    | some (.keyed modId value adapter) => do
      return (← keyedInstance server number modId value adapter capability).mapError fail
    | _ => return .error (fail "the declaration is not in this registry")

/-- Answers a request; constructions ask the given server in turn. -/
def serveWith (server : Option (Server σ ι)) : Server σ ι
  | .instances key capability => registry.instances server key capability
  | .containers key capability => registry.contain server key capability (registry.under key)
  | .value container => registry.containerValue server container

/-- Answers a request, with constructions nested at most as deep as the number says. -/
def serve : Nat → Server σ ι
  | 0, request => registry.serveWith none request
  | depth + 1, request => registry.serveWith (some (serve depth)) request

def nestingLimit : Nat := 1000000

/-- Answers a request of the host itself. -/
def ask (request : Request ι) : Lookup σ ι request.Answer := registry.serve nestingLimit request

/-! ### Outlines -/

def hookOutline (p : String × List Nat) : String :=
  "(" ++ Text.quoted p.1 ++ ", " ++ toString p.2.length ++ ")"

def outline : String :=
  let hooks := registry.hooks.entries.mergeSort fun a b => !decide (b.1 < a.1)
  Text.outlined "EntrypointRegistry"
    [("adapters", registry.adapters.outline), ("entries", Text.listed (hooks.map hookOutline))]

end EntrypointRegistry

def EntrypointContainer.outline {ι : Type} (container : EntrypointContainer ι) : String :=
  let ready := match container.source with
    | .ready _ => true
    | .deferred _ _ => false
  Text.outlined "EntrypointContainer"
    [("key", Text.quoted container.key), ("mod_id", Text.quoted container.modId),
      ("ready", toString ready)]

end ModRemap
