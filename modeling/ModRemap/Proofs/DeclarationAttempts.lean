import Mathlib
import ModRemap.Proofs.DeclaredEntrypoints
import ModRemap.Proofs.SingleInstances

/-! A request for the instances under a key tries one declaration after another, whatever comes of those
before. Every failure of a keyed declaration is reported, in the order of declaration, and what has been
made is kept also where the request fails. -/

namespace ModRemap

/-- What comes of a declaration. -/
inductive Outcome (ι : Type) where
  | keyed (modId : String) (result : Except String ι)
  | legacy (result : Except String (UntypedInstance ι))

namespace Outcome

variable {ι : Type}

/-- Only a keyed declaration can make a request fail. -/
def failure? (key : String) : Outcome ι → Option EntrypointFailure
  | .keyed modId (.error cause) => some ⟨key, modId, cause⟩
  | _ => none

def instance? (capability : Capability) : Outcome ι → Option ι
  | .keyed _ (.ok a) => some a
  | .legacy (.ok views) => views.get? capability
  | _ => none

end Outcome

namespace EntrypointRegistry

open Lookup

variable {σ ι α : Type} (registry : EntrypointRegistry σ ι) {server : Option (Server σ ι)}

namespace Shelf

variable {κ : Type} [DecidableEq κ] (shelf : Shelf ι κ α) {k : κ} {world world' : World σ ι}

/-- A request for a slot, in one state and with another one after it. A value that there is is served.
Else it is constructed, if something is known that does; of several values the one stored first wins. -/
inductive Demanded (k : κ) (construct : Except String (Lookup σ ι (Except String α))) :
    World σ ι → Except String α → World σ ι → Prop where
  | served {world : World σ ι} {a : α} (filled : (shelf.slots world.made).value? k = some a) :
      Demanded k construct world (.ok a) ((shelf.record k (.given a)).run world).2
  | unknown {world : World σ ι} {cause : String} (empty : (shelf.slots world.made).value? k = none)
      (none : construct = .error cause) : Demanded k construct world (.error cause) world
  | failed {world between : World σ ι} {cause : String} {c : Lookup σ ι (Except String α)}
      (empty : (shelf.slots world.made).value? k = none) (some : construct = .ok c)
      (constructed : c.run ((shelf.record k .started).run world).2 = (.error cause, between)) :
      Demanded k construct world (.error cause) ((shelf.record k (.failed cause)).run between).2
  | made {world between : World σ ι} {a : α} {c : Lookup σ ι (Except String α)}
      (empty : (shelf.slots world.made).value? k = none) (some : construct = .ok c)
      (constructed : c.run ((shelf.record k .started).run world).2 = (.ok a, between)) :
      Demanded k construct world (.ok ((shelf.change fun s => s.keep k a).run between).1)
        ((shelf.change fun s => s.keep k a).run between).2

theorem demanded (k : κ) (construct : Except String (Lookup σ ι (Except String α)))
    (world : World σ ι) : shelf.Demanded k construct world ((shelf.demand k construct).run world).1
      ((shelf.demand k construct).run world).2 := by
  cases found : (shelf.slots world.made).value? k with
  | some a =>
    rw [shelf.run_demand_of_value found]
    exact .served found
  | none =>
    cases construct with
    | error cause =>
      rw [shelf.run_demand_error found]
      exact .unknown found rfl
    | ok c =>
      rw [shelf.run_demand_ok found]
      show shelf.Demanded k (.ok c) world ((shelf.finish k (c.run _).1).run (c.run _).2).1
        ((shelf.finish k (c.run _).1).run (c.run _).2).2
      cases constructed : c.run ((shelf.record k .started).run world).2 with
      | mk result between =>
        cases result with
        | error cause => exact .failed found rfl constructed
        | ok a => exact .made found rfl constructed

theorem Demanded.run {construct : Except String (Lookup σ ι (Except String α))} {result : Except String α}
    (demanded : shelf.Demanded k construct world result world') :
    (shelf.demand k construct).run world = (result, world') := by
  cases demanded with
  | served filled => exact shelf.run_demand_of_value filled
  | unknown empty none => exact none ▸ shelf.run_demand_error empty
  | failed empty some constructed =>
    rw [some, shelf.run_demand_ok empty, StateT.run_bind, constructed]
    rfl
  | made empty some constructed =>
    rw [some, shelf.run_demand_ok empty, StateT.run_bind, constructed]
    rfl

end Shelf

/-- The construction of an old-style declaration, if its adapter is known. -/
def legacyConstruction (server : Option (Server σ ι)) (value classRef : String) :
    Except String (Lookup σ ι (Except String (UntypedInstance ι))) :=
  match registry.adapters.legacy.get? classRef with
  | none => .error s!"unknown language adapter {classRef}"
  | some adapter => .ok ((adapter value).run server)

/-- A declaration is tried. -/
inductive Attempted (server : Option (Server σ ι)) (capability : Capability) :
    Nat × Declaration σ ι → World σ ι → Outcome ι → World σ ι → Prop where
  | keyed {number : Nat} {modId value : String} {adapter : LanguageAdapter σ ι}
      {world world' : World σ ι} {result : Except String ι}
      (demanded : keyedShelf.Demanded (number, capability)
        (.ok (usable capability value <$> (adapter modId value capability).run server))
        world result world') :
      Attempted server capability (number, .keyed modId value adapter) world (.keyed modId result) world'
  | legacy {number : Nat} {modId value classRef : String} {world world' : World σ ι}
      {result : Except String (UntypedInstance ι)}
      (demanded : legacyShelf.Demanded number (registry.legacyConstruction server value classRef)
        world result world') :
      Attempted server capability (number, .legacy modId value classRef) world (.legacy result) world'

/-- Declarations are tried in order, each in the state that the one before has left. -/
inductive Attempts (server : Option (Server σ ι)) (capability : Capability) :
    List (Nat × Declaration σ ι) → World σ ι → List (Outcome ι) → World σ ι → Prop where
  | nil {world : World σ ι} : Attempts server capability [] world [] world
  | cons {d : Nat × Declaration σ ι} {ds : List (Nat × Declaration σ ι)} {o : Outcome ι}
      {os : List (Outcome ι)} {world between world' : World σ ι}
      (first : registry.Attempted server capability d world o between)
      (rest : Attempts server capability ds between os world') :
      Attempts server capability (d :: ds) world (o :: os) world'

/-- What has come of a declaration without a failure is there. -/
def Kept (capability : Capability) (made : Instances ι) : Nat × Declaration σ ι → Outcome ι → Prop
  | (number, _), .keyed _ (.ok a) => made.keyed.value? (number, capability) = some a
  | (number, _), .legacy (.ok views) => made.legacy.value? number = some views
  | _, _ => True

theorem run_legacyView (server : Option (Server σ ι)) (number : Nat) (value classRef : String)
    (capability : Capability) (world : World σ ι) :
    (registry.legacyView server number value classRef capability).run world =
      let tried := (registry.legacyInstance server number value classRef).run world
      ((Outcome.legacy tried.1).instance? capability, tried.2) := by
  rw [legacyView, StateT.run_bind]
  obtain ⟨cause | views, left⟩ := (registry.legacyInstance server number value classRef).run world <;> rfl

/-- The first of several declarations is tried, and then the others. -/
theorem attempted_gather (server : Option (Server σ ι)) (key : String) (capability : Capability)
    (d : Nat × Declaration σ ι) (ds : List (Nat × Declaration σ ι)) (world : World σ ι) :
    ∃ o between, registry.Attempted server capability d world o between ∧
      let rest := (registry.gather server key capability ds).run between
      (registry.gather server key capability (d :: ds)).run world =
        (((o.failure? key).toList ++ rest.1.1, (o.instance? capability).toList ++ rest.1.2), rest.2) := by
  obtain ⟨number, d⟩ := d
  cases d with
  | keyed modId value adapter =>
    have demanded : keyedShelf.Demanded (number, capability)
        (.ok (usable capability value <$> (adapter modId value capability).run server)) world
        ((keyedInstance server number modId value adapter capability).run world).1
        ((keyedInstance server number modId value adapter capability).run world).2 :=
      keyedShelf.demanded _ _ _
    rw [gather, StateT.run_bind]
    generalize (keyedInstance server number modId value adapter capability).run world = tried at demanded ⊢
    obtain ⟨result, left⟩ := tried
    refine ⟨.keyed modId result, left, .keyed demanded, ?_⟩
    cases result <;> rfl
  | legacy modId value classRef =>
    let tried := (registry.legacyInstance server number value classRef).run world
    refine ⟨.legacy tried.1, tried.2, .legacy (legacyShelf.demanded _ _ _), ?_⟩
    rw [gather, StateT.run_bind, run_legacyView]
    rfl

theorem attempts_gather (server : Option (Server σ ι)) (key : String) (capability : Capability)
    (ds : List (Nat × Declaration σ ι)) (world : World σ ι) :
    ∃ os, registry.Attempts server capability ds world os
        ((registry.gather server key capability ds).run world).2 ∧
      ((registry.gather server key capability ds).run world).1 =
        (os.filterMap (Outcome.failure? key), os.filterMap (Outcome.instance? capability)) := by
  induction ds generalizing world with
  | nil => exact ⟨[], .nil, rfl⟩
  | cons d ds ih =>
    obtain ⟨o, between, first, run⟩ := registry.attempted_gather server key capability d ds world
    obtain ⟨os, rest, gathered⟩ := ih between
    refine ⟨o :: os, .cons first (run ▸ rest), ?_⟩
    rw [run, gathered]
    cases failure : o.failure? key <;> cases found : o.instance? capability <;>
      simp [failure, found]

/-! ### What stays -/

variable {registry}

theorem persists_kept (capability : Capability) (d : Nat × Declaration σ ι) (o : Outcome ι) :
    Persists fun made => Kept capability made d o := by
  intro made made' grows kept
  obtain ⟨number, d⟩ := d
  rcases o with ⟨modId, cause | a⟩ | ⟨cause | views⟩
  · trivial
  · exact grows.keyed.values _ _ kept
  · trivial
  · exact grows.legacy.values _ _ kept

theorem Attempted.kept (safe : Safe server) {capability : Capability} {d : Nat × Declaration σ ι}
    {world world' : World σ ι} {o : Outcome ι}
    (attempted : registry.Attempted server capability d world o world') :
    world.made.Grows world'.made ∧ Kept capability world'.made d o := by
  cases attempted with
  | @keyed number modId value adapter _ _ result demanded =>
    have run : (keyedInstance server number modId value adapter capability).run world =
      (result, world') := demanded.run
    obtain ⟨grows, keeps⟩ := leaves_keyedInstance safe number modId value adapter capability world
    rw [run] at grows keeps
    cases result with
    | error cause => exact ⟨grows, trivial⟩
    | ok a => exact ⟨grows, keeps a rfl⟩
  | @legacy number modId value classRef _ _ result demanded =>
    have run : (registry.legacyInstance server number value classRef).run world =
      (result, world') := demanded.run
    obtain ⟨grows, keeps⟩ := leaves_legacyInstance registry safe number value classRef world
    rw [run] at grows keeps
    cases result with
    | error cause => exact ⟨grows, trivial⟩
    | ok views => exact ⟨grows, keeps views rfl⟩

theorem Attempts.kept (safe : Safe server) {capability : Capability} {ds : List (Nat × Declaration σ ι)}
    {world world' : World σ ι} {os : List (Outcome ι)}
    (attempts : registry.Attempts server capability ds world os world') :
    world.made.Grows world'.made ∧ ds.Forall₂ (Kept capability world'.made) os := by
  induction attempts with
  | nil => exact ⟨.refl _, .nil⟩
  | cons first rest ih =>
    obtain ⟨grows, kept⟩ := first.kept safe
    exact ⟨grows.trans ih.1, .cons (persists_kept capability _ _ _ _ ih.1 kept) ih.2⟩

/-! ### A request -/

variable (registry)

/-- Whom constructions ask. -/
def below : Nat → Option (Server σ ι)
  | 0 => none
  | depth + 1 => some (registry.serve depth)

theorem serve_eq (depth : Nat) (request : Request ι) :
    registry.serve depth request = registry.serveWith (registry.below depth) request := by
  cases depth <;> rfl

theorem safe_below (depth : Nat) : Safe (registry.below depth) := by
  rintro serve member request
  cases depth with
  | zero => cases member
  | succ depth =>
    obtain rfl := Option.some.inj member
    exact (leaves_serve registry depth request).mono fun _ _ _ => trivial

/-- What is answered when this has been gathered. -/
def verdict : List EntrypointFailure × List ι → Except EntrypointError (List ι)
  | ([], found) => .ok found
  | (first :: suppressed, _) => .error ⟨first, suppressed⟩

theorem verdict_eq_error_iff {gathered : List EntrypointFailure × List ι} {e : EntrypointError} :
    verdict gathered = .error e ↔ gathered.1 = e.first :: e.suppressed := by
  obtain ⟨failures, found⟩ := gathered
  cases e
  cases failures <;> simp [verdict]

theorem verdict_eq_ok_iff {gathered : List EntrypointFailure × List ι} {found : List ι} :
    verdict gathered = .ok found ↔ gathered.1 = [] ∧ found = gathered.2 := by
  obtain ⟨failures, found'⟩ := gathered
  cases failures <;> simp [verdict, eq_comm]

theorem run_instances (key : String) (capability : Capability) (world : World σ ι) :
    (registry.instances server key capability).run world =
      let gathered := (registry.gather server key capability (registry.under key)).run world
      (verdict gathered.1, gathered.2) := by
  rw [instances, StateT.run_bind]
  obtain ⟨⟨_ | ⟨first, suppressed⟩, found⟩, left⟩ :=
    (registry.gather server key capability (registry.under key)).run world <;> rfl

theorem failures_eq_nil_iff (key : String) {os : List (Outcome ι)} :
    os.filterMap (Outcome.failure? key) = [] ↔ ∀ modId cause, .keyed modId (.error cause) ∉ os := by
  rw [List.filterMap_eq_nil_iff]
  constructor
  · exact fun none modId cause member => by cases none _ member
  · rintro none (⟨modId, cause | a⟩ | result) member
    · exact absurd member (none modId cause)
    · rfl
    · rfl

/-- Every declaration is tried, in the order of declaration, in the state that those before it have
left, and nothing of that is taken back, whatever is asked later. -/
theorem instances_outcome (depth : Nat) (key : String) (capability : Capability) (world : World σ ι) :
    let asked := (registry.serve depth (.instances key capability)).run world
    (registry.Numbered → ((registry.under key).map Prod.fst).Pairwise (· < ·)) ∧
    ∃ outcomes,
      registry.Attempts (registry.below depth) capability (registry.under key) world outcomes asked.2 ∧
      ((∃ e, asked.1 = .error e) ↔ ∃ modId cause, .keyed modId (.error cause) ∈ outcomes) ∧
      (∀ e, asked.1 = .error e ↔
        outcomes.filterMap (Outcome.failure? key) = e.first :: e.suppressed) ∧
      (∀ found, asked.1 = .ok found ↔ (∀ modId cause, .keyed modId (.error cause) ∉ outcomes) ∧
        found = outcomes.filterMap (Outcome.instance? capability)) ∧
      ∀ deep requests, (registry.under key).Forall₂
        (Kept capability (registry.session deep requests asked.2.made).2) outcomes := by
  intro asked
  refine ⟨fun numbered => (numbered.numbers_under key).symm ▸ numbered.increasing key, ?_⟩
  obtain ⟨os, attempts, gathered⟩ := registry.attempts_gather (registry.below depth) key
    capability (registry.under key) world
  obtain ⟨answer, left⟩ : asked.1 = verdict (os.filterMap (Outcome.failure? key),
      os.filterMap (Outcome.instance? capability)) ∧ asked.2 = ((registry.gather (registry.below depth)
        key capability (registry.under key)).run world).2 := by
    have run := (congrArg (·.run world) (registry.serve_eq depth (.instances key capability))).trans
      (registry.run_instances key capability world)
    exact gathered ▸ Prod.ext_iff.mp run
  have failed (e : EntrypointError) : asked.1 = .error e ↔
      os.filterMap (Outcome.failure? key) = e.first :: e.suppressed := by
    rw [answer]
    exact verdict_eq_error_iff
  have kept := (attempts.kept (registry.safe_below depth)).2
  rw [← left] at attempts kept
  refine ⟨os, attempts, ⟨?_, ?_⟩, failed, fun found => ?_, fun deep requests => ?_⟩
  · rintro ⟨e, same⟩
    by_contra none
    push Not at none
    cases ((failures_eq_nil_iff key).mpr none).symm.trans ((failed e).mp same)
  · rintro ⟨modId, cause, member⟩
    cases failures : os.filterMap (Outcome.failure? key) with
    | nil => exact absurd member ((failures_eq_nil_iff key).mp failures modId cause)
    | cons first suppressed => exact ⟨⟨first, suppressed⟩, (failed _).mpr failures⟩
  · rw [answer, ← failures_eq_nil_iff key]
    exact verdict_eq_ok_iff
  · have grows := (grows_session registry deep requests asked.2.made).1
    exact kept.imp fun d o => persists_kept capability d o _ _ grows

/-- The first of two declarations fails, and what the other makes is kept. -/
theorem instances_outcome_first_fails :
    let failing : LanguageAdapter Unit Nat := fun _ _ _ => .finish (.error "constructor threw")
    let making : LanguageAdapter Unit Nat := fun _ _ capability => .finish (.ok ⟨capability, 7⟩)
    let registry : EntrypointRegistry Unit Nat :=
      (({ adapters := {} } : EntrypointRegistry Unit Nat).declare ["main"] (.keyed "first" "A" failing)).declare
        ["main"] (.keyed "second" "B" making)
    let capability : Capability := ⟨"Initializer"⟩
    let asked := (registry.serve 0 (.instances "main" capability)).run ⟨(), {}⟩
    registry.Numbered ∧ ((registry.under "main").map Prod.fst).Pairwise (· < ·) ∧
      asked.1 = .error ⟨⟨"main", "first", "constructor threw"⟩, []⟩ ∧
      asked.2.made.keyed.value? (1, capability) = some 7 ∧
      ∃ outcomes,
        registry.Attempts (registry.below 0) capability (registry.under "main") ⟨(), {}⟩ outcomes asked.2 ∧
        outcomes.filterMap (Outcome.failure? "main") = [⟨"main", "first", "constructor threw"⟩] := by
  intro failing making registry capability asked
  have numbered : registry.Numbered :=
    ((numbered_start {}).declare (by decide) _).declare (by decide) _
  obtain ⟨increasing, outcomes, attempts, -, failed, -, -⟩ :=
    instances_outcome registry 0 "main" capability ⟨(), {}⟩
  have answer : asked.1 = .error ⟨⟨"main", "first", "constructor threw"⟩, []⟩ := rfl
  exact ⟨numbered, increasing numbered, answer, rfl, outcomes, attempts, (failed _).mp answer⟩

end EntrypointRegistry

end ModRemap
