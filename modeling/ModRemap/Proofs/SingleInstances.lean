import Mathlib
import ModRemap.Entrypoints.Registry
import ModRemap.Proofs.Slots

/-! One instance for each declaration, whatever constructions do. They may fail, make something of the
wrong kind, or ask the registry while their own slot is empty, so that several constructions for one
slot are under way; of these only the first that succeeds fills it. -/

namespace ModRemap

variable {σ ι α β : Type}

/-- Nothing that has been made is taken back. -/
structure Instances.Grows (made made' : Instances ι) : Prop where
  keyed : made.keyed.Grows made'.keyed
  legacy : made.legacy.Grows made'.legacy

namespace Instances.Grows

theorem refl (made : Instances ι) : made.Grows made := ⟨.refl _, .refl _⟩

theorem trans {made made' made'' : Instances ι} (h : made.Grows made') (h' : made'.Grows made'') :
    made.Grows made'' :=
  ⟨h.keyed.trans h'.keyed, h.legacy.trans h'.legacy⟩

end Instances.Grows

/-- This holds from some time on. -/
def Persists (P : Instances ι → Prop) : Prop := ∀ made made', made.Grows made' → P made → P made'

namespace Lookup

/-- What a look-up leaves: more instances than there were, and a result for which `post` holds. -/
def Leaves (x : Lookup σ ι α) (post : α → Instances ι → Prop) : Prop :=
  ∀ world, world.made.Grows (x.run world).2.made ∧ post (x.run world).1 (x.run world).2.made

namespace Leaves

variable {P : α → Instances ι → Prop} {Q : β → Instances ι → Prop}

theorem pure {a : α} (h : ∀ made, P a made) : Leaves (σ := σ) (pure a) P :=
  fun _ => ⟨.refl _, h _⟩

theorem mono {P' : α → Instances ι → Prop} {x : Lookup σ ι α} (h : Leaves x P)
    (weaker : ∀ a made, P a made → P' a made) : Leaves x P' :=
  fun world => ⟨(h world).1, weaker _ _ (h world).2⟩

theorem bind {x : Lookup σ ι α} {f : α → Lookup σ ι β} (hx : Leaves x P) (persists : ∀ a, Persists (P a))
    (hf : ∀ a, Leaves (f a) fun b made => P a made → Q b made) : Leaves (x >>= f) Q := by
  intro world
  obtain ⟨grows, first⟩ := hx world
  obtain ⟨grows', second⟩ := hf (x.run world).1 (x.run world).2
  exact ⟨grows.trans grows', second (persists _ _ _ grows' first)⟩

end Leaves

end Lookup

namespace EntrypointRegistry

open Lookup

variable (registry : EntrypointRegistry σ ι) {server : Option (Server σ ι)}

/-! ### One declaration -/

namespace Shelf

variable {κ : Type} (shelf : Shelf ι κ α)

theorem run_record (k : κ) (e : SlotEvent α) (world : World σ ι) :
    (shelf.record k e).run world =
      ((), { world with made := shelf.place ((shelf.slots world.made).record k e) world.made }) :=
  rfl

variable [DecidableEq κ] {k : κ} {world : World σ ι}

theorem run_demand_of_value {a : α} {construct : Except String (Lookup σ ι (Except String α))}
    (found : (shelf.slots world.made).value? k = some a) :
    (shelf.demand k construct).run world =
      (.ok a, ((shelf.record (σ := σ) k (.given a)).run world).2) := by
  simp [demand, look, found]
  rfl

theorem run_demand_error {cause : String} (empty : (shelf.slots world.made).value? k = none) :
    (shelf.demand k (.error cause)).run world = (.error cause, world) := by
  simp [demand, look, empty]
  rfl

/-- How a construction ends. -/
def finish (k : κ) : Except String α → Lookup σ ι (Except String α)
  | .error cause => do
    shelf.record k (.failed cause)
    return .error cause
  | .ok created => return .ok (← shelf.change fun s => s.keep k created)

theorem run_demand_ok {construct : Lookup σ ι (Except String α)}
    (empty : (shelf.slots world.made).value? k = none) :
    (shelf.demand k (.ok construct)).run world =
      (construct >>= shelf.finish k).run ((shelf.record (σ := σ) k .started).run world).2 := by
  simp [demand, look, empty]
  rfl

/-- A construction for an empty slot that ends without a value is put on record, and nothing else
comes of it. -/
def Discards (k : κ) (demand construct : Lookup σ ι (Except String α)) : Prop :=
  ∀ world cause, (shelf.slots world.made).value? k = none →
    (construct.run ((shelf.record (σ := σ) k .started).run world).2).1 = .error cause →
    demand.run world = (.error cause, ((shelf.record (σ := σ) k (.failed cause)).run
      (construct.run ((shelf.record (σ := σ) k .started).run world).2).2).2)

theorem discards_demand (k : κ) (construct : Lookup σ ι (Except String α)) :
    shelf.Discards k (shelf.demand k (.ok construct)) construct := by
  intro world cause empty failed
  rw [shelf.run_demand_ok empty]
  show (shelf.finish k (construct.run _).1).run _ = _
  rw [failed]
  rfl

/-- What a request has got is what is kept. -/
def Keeps (k : κ) (result : Except String α) (made : Instances ι) : Prop :=
  ∀ a, result = .ok a → (shelf.slots made).value? k = some a

/-- Slots can be changed on their own. -/
structure Apart : Prop where
  slots : ∀ s made, shelf.slots (shelf.place s made) = s
  grows : ∀ s made, (shelf.slots made).Grows s → made.Grows (shelf.place s made)
  back : ∀ made made', made.Grows made' → (shelf.slots made).Grows (shelf.slots made')

namespace Apart

variable {shelf} (apart : shelf.Apart)

include apart

theorem persists_keeps (k : κ) (result : Except String α) : Persists (shelf.Keeps k result) :=
  fun made made' grows keeps a same => (apart.back made made' grows).values k a (keeps a same)

theorem leaves_finish (k : κ) (result : Except String α) :
    Leaves (shelf.finish (σ := σ) k result) (shelf.Keeps k) := by
  intro world
  cases result with
  | error cause =>
    refine ⟨apart.grows _ _ (.record (fun a same => ?_) (fun same => ?_) fun a same => ?_),
      fun a same => ?_⟩ <;> cases same
  | ok created =>
    obtain ⟨grows, kept⟩ := Slots.Grows.keep (shelf.slots world.made) k created
    refine ⟨apart.grows _ _ grows, fun a same => ?_⟩
    obtain rfl := Except.ok.inj same
    exact (congrArg (Slots.value? · k) (apart.slots _ _)).trans kept

/-- Whoever asks for the value of a slot, and gets one, gets the one that is kept. While it is made
other requests may fill the slot. -/
theorem leaves_demand (k : κ) {construct : Except String (Lookup σ ι (Except String α))}
    (constructs : ∀ c, construct = .ok c → Leaves c fun _ _ => True) :
    Leaves (shelf.demand k construct) (shelf.Keeps k) := by
  intro world
  cases found : (shelf.slots world.made).value? k with
  | some a =>
    rw [shelf.run_demand_of_value found]
    refine ⟨apart.grows _ _ (.given found), fun b same => ?_⟩
    obtain rfl := Except.ok.inj same
    exact (congrArg (Slots.value? · k) (apart.slots _ _)).trans found
  | none =>
    cases construct with
    | error cause =>
      rw [shelf.run_demand_error found]
      exact ⟨.refl _, fun a same => by cases same⟩
    | ok construct =>
      rw [shelf.run_demand_ok found]
      have started : world.made.Grows ((shelf.record (σ := σ) k .started).run world).2.made :=
        apart.grows _ _ (.record (fun a same => by cases same) (fun _ => found) fun a same => by cases same)
      obtain ⟨grows, kept⟩ := Leaves.bind (constructs construct rfl) (fun _ _ _ _ _ => trivial)
        (fun result => (apart.leaves_finish k result).mono fun _ _ keeps _ => keeps)
        ((shelf.record (σ := σ) k .started).run world).2
      exact ⟨started.trans grows, kept⟩

end Apart

end Shelf

theorem apart_keyedShelf : (keyedShelf : Shelf ι _ _).Apart where
  slots _ _ := rfl
  grows _ _ h := ⟨h, .refl _⟩
  back _ _ h := h.keyed

theorem apart_legacyShelf : (legacyShelf : Shelf ι _ _).Apart where
  slots _ _ := rfl
  grows _ _ h := ⟨.refl _, h⟩
  back _ _ h := h.legacy

/-! ### Constructions -/

/-- Whoever may be asked takes nothing back. -/
def Safe (server : Option (Server σ ι)) : Prop :=
  ∀ serve ∈ server, ∀ request, Leaves (serve request) fun _ _ => True

theorem leaves_run (safe : Safe server) (construction : Construction σ ι α) :
    Leaves (construction.run server) fun _ _ => True := by
  induction construction with
  | finish result => exact .pure fun _ => trivial
  | read next ih => exact fun world => ih world.host world
  | write host next ih => exact fun world => ih { world with host }
  | ask request next ih =>
    cases server with
    | none => exact .pure fun _ => trivial
    | some serve =>
      exact (safe serve rfl request).bind (fun _ _ _ _ _ => trivial)
        fun answer => (ih answer).mono fun _ _ _ _ => trivial

theorem leaves_keyedInstance (safe : Safe server) (number : Nat) (modId value : String)
    (adapter : LanguageAdapter σ ι) (capability : Capability) :
    Leaves (keyedInstance server number modId value adapter capability)
      (keyedShelf.Keeps (number, capability)) := by
  refine apart_keyedShelf.leaves_demand _ fun c same => ?_
  obtain rfl := Except.ok.inj same
  exact (leaves_run safe _).bind (fun _ _ _ _ _ => trivial) fun _ => .pure fun _ _ => trivial

theorem leaves_legacyInstance (safe : Safe server) (number : Nat) (value classRef : String) :
    Leaves (registry.legacyInstance server number value classRef) (legacyShelf.Keeps number) := by
  refine apart_legacyShelf.leaves_demand _ fun c same => ?_
  cases known : registry.adapters.legacy.get? classRef with
  | none => simp [known] at same
  | some adapter =>
    simp only [known, Except.ok.injEq] at same
    exact same ▸ leaves_run safe _

/-- A view of a declaration is one of those that are kept for it. -/
def Views (number : Nat) (capability : Capability) (view : Option ι) (made : Instances ι) : Prop :=
  ∀ a, view = some a → ∃ views, made.legacy.value? number = some views ∧ views.get? capability = some a

theorem persists_views (number : Nat) (capability : Capability) (view : Option ι) :
    Persists (Views number capability view) := by
  intro made made' grows views a same
  obtain ⟨kept, there, seen⟩ := views a same
  exact ⟨kept, grows.legacy.values _ _ there, seen⟩

theorem leaves_legacyView (safe : Safe server) (number : Nat) (value classRef : String)
    (capability : Capability) :
    Leaves (registry.legacyView server number value classRef capability) (Views number capability) := by
  refine (leaves_legacyInstance registry safe number value classRef).bind
    (apart_legacyShelf.persists_keeps number) fun result => ?_
  cases result with
  | error cause => exact .pure fun _ _ a same => by cases same
  | ok views => exact .pure fun _ keeps a same => ⟨views, keeps views rfl, same⟩

/-! ### Requests -/

/-- What a declaration contributes to the instances under a key. -/
def Picked (capability : Capability) (made : Instances ι) : Nat × Declaration σ ι → Option ι → Prop
  | (number, .keyed _ _ _), pick =>
    ∃ a, pick = some a ∧ made.keyed.value? (number, capability) = some a
  | (number, .legacy _ _ _), pick => Views number capability pick made

/-- What it contributes to their containers. -/
def Contained (key : String) (capability : Capability) (made : Instances ι) :
    Nat × Declaration σ ι → Option (EntrypointContainer ι) → Prop
  | (number, .keyed modId _ _), pick => pick = some ⟨key, modId, .deferred number capability⟩
  | (number, .legacy modId _ _), pick =>
    ∃ view, Views number capability view made ∧ pick = view.map fun a => ⟨key, modId, .ready a⟩

/-- An answer is made up, in the order of declaration, of what is kept for each declaration. -/
def Shows (made : Instances ι) : (request : Request ι) → request.Answer → Prop
  | .instances key capability, answer => ∀ found, answer = .ok found →
    ∃ picks, (registry.under key).Forall₂ (Picked capability made) picks ∧
      found = picks.reduceOption
  | .containers key capability, containers =>
    ∃ picks, (registry.under key).Forall₂ (Contained key capability made) picks ∧
      containers = picks.reduceOption
  | .value container, answer => ∀ a, answer = .ok a → match container.source with
    | .ready value => a = value
    | .deferred number capability => made.keyed.value? (number, capability) = some a

theorem persists_picked (capability : Capability) (d : Nat × Declaration σ ι) (pick : Option ι) :
    Persists fun made => Picked capability made d pick := by
  intro made made' grows picked
  obtain ⟨number, d⟩ := d
  cases d with
  | keyed modId value adapter =>
    obtain ⟨a, same, kept⟩ := picked
    exact ⟨a, same, grows.keyed.values _ _ kept⟩
  | legacy modId value classRef => exact persists_views _ _ _ _ _ grows picked

theorem persists_contained (key : String) (capability : Capability) (d : Nat × Declaration σ ι)
    (pick : Option (EntrypointContainer ι)) :
    Persists fun made => Contained key capability made d pick := by
  intro made made' grows contained
  obtain ⟨number, d⟩ := d
  cases d with
  | keyed modId value adapter => exact contained
  | legacy modId value classRef =>
    obtain ⟨view, views, same⟩ := contained
    exact ⟨view, persists_views _ _ _ _ _ grows views, same⟩

theorem persists_shows (request : Request ι) (answer : request.Answer) :
    Persists fun made => registry.Shows made request answer := by
  intro made made' grows shows
  cases request with
  | instances key capability =>
    intro found same
    obtain ⟨picks, picked, rfl⟩ := shows found same
    exact ⟨picks, picked.imp fun d pick => persists_picked _ _ _ _ _ grows, rfl⟩
  | containers key capability =>
    obtain ⟨picks, contained, same⟩ := shows
    exact ⟨picks, contained.imp fun d pick => persists_contained _ _ _ _ _ _ grows, same⟩
  | value container =>
    intro a same
    have value := shows a same
    split at value
    · exact value
    · exact grows.keyed.values _ _ value

/-- What is gathered, when nothing has failed. -/
def Gathered (capability : Capability) (declarations : List (Nat × Declaration σ ι))
    (result : List EntrypointFailure × List ι) (made : Instances ι) : Prop :=
  result.1 = [] → ∃ picks, declarations.Forall₂ (Picked capability made) picks ∧
    result.2 = picks.reduceOption

theorem persists_gathered (capability : Capability) (declarations : List (Nat × Declaration σ ι))
    (result : List EntrypointFailure × List ι) :
    Persists (Gathered capability declarations result) := by
  intro made made' grows gathered none
  obtain ⟨picks, picked, same⟩ := gathered none
  exact ⟨picks, picked.imp fun d pick => persists_picked _ _ _ _ _ grows, same⟩

theorem leaves_gather (safe : Safe server) (key : String) (capability : Capability)
    (declarations : List (Nat × Declaration σ ι)) :
    Leaves (registry.gather server key capability declarations)
      (Gathered capability declarations) := by
  induction declarations with
  | nil => exact .pure fun _ _ => ⟨[], .nil, rfl⟩
  | cons d rest ih =>
    obtain ⟨number, d⟩ := d
    cases d with
    | keyed modId value adapter =>
      refine (leaves_keyedInstance safe number modId value adapter capability).bind
        (apart_keyedShelf.persists_keeps _) fun result => ?_
      refine ih.bind (persists_gathered capability rest) fun gathered => ?_
      cases result with
      | error cause => exact .pure fun _ _ _ none => absurd none (List.cons_ne_nil _ _)
      | ok a =>
        refine .pure fun made others keeps none => ?_
        obtain ⟨picks, picked, same⟩ := others none
        exact ⟨some a :: picks, .cons ⟨a, rfl, keeps a rfl⟩ picked,
          (congrArg (a :: ·) same).trans (List.reduceOption_cons_of_some a picks).symm⟩
    | legacy modId value classRef =>
      refine (leaves_legacyView registry safe number value classRef capability).bind
        (persists_views _ _) fun view => ?_
      refine ih.bind (persists_gathered capability rest) fun gathered => .pure fun made others views none => ?_
      obtain ⟨picks, picked, same⟩ := others none
      refine ⟨view :: picks, .cons views picked, (congrArg (view.toList ++ ·) same).trans ?_⟩
      cases view with
      | none => exact (List.reduceOption_cons_of_none picks).symm
      | some a => exact (List.reduceOption_cons_of_some a picks).symm

theorem leaves_contain (safe : Safe server) (key : String) (capability : Capability)
    (declarations : List (Nat × Declaration σ ι)) :
    Leaves (registry.contain server key capability declarations) fun containers made =>
      ∃ picks, declarations.Forall₂ (Contained key capability made) picks ∧
        containers = picks.reduceOption := by
  have persists (rest : List (Nat × Declaration σ ι)) (containers : List (EntrypointContainer ι)) :
      Persists fun made => ∃ picks, rest.Forall₂ (Contained key capability made) picks ∧
        containers = picks.reduceOption := by
    rintro made made' grows ⟨picks, contained, same⟩
    exact ⟨picks, contained.imp fun d pick => persists_contained _ _ _ _ _ _ grows, same⟩
  induction declarations with
  | nil => exact .pure fun _ => ⟨[], .nil, rfl⟩
  | cons d rest ih =>
    obtain ⟨number, d⟩ := d
    cases d with
    | keyed modId value adapter =>
      refine ih.bind (persists rest) fun containers => .pure fun made others => ?_
      obtain ⟨picks, contained, rfl⟩ := others
      exact ⟨_ :: picks, .cons rfl contained, (List.reduceOption_cons_of_some _ picks).symm⟩
    | legacy modId value classRef =>
      refine (leaves_legacyView registry safe number value classRef capability).bind
        (persists_views _ _) fun view => ?_
      refine ih.bind (persists rest) fun containers => .pure fun made others views => ?_
      obtain ⟨picks, contained, rfl⟩ := others
      refine ⟨_ :: picks, .cons ⟨view, views, rfl⟩ contained, ?_⟩
      cases view with
      | none => exact (List.reduceOption_cons_of_none picks).symm
      | some a => exact (List.reduceOption_cons_of_some _ picks).symm

theorem leaves_containerValue (safe : Safe server) (container : EntrypointContainer ι) :
    Leaves (registry.containerValue server container) fun answer made =>
      registry.Shows made (.value container) answer := by
  obtain ⟨key, modId, source⟩ := container
  cases source with
  | ready value => exact .pure fun _ a same => (Except.ok.inj same).symm
  | deferred number capability =>
    have unknown (f : EntrypointFailure) : Leaves (σ := σ) (pure (.error f)) fun answer made =>
        registry.Shows made (.value ⟨key, modId, .deferred number capability⟩) answer :=
      .pure fun _ a same => by cases same
    cases there : registry.declarations[number]? with
    | none =>
      simp only [containerValue, there]
      exact unknown _
    | some d =>
      cases d with
      | legacy =>
        simp only [containerValue, there]
        exact unknown _
      | keyed modId' value adapter =>
        simp only [containerValue, there]
        refine (leaves_keyedInstance safe number modId' value adapter capability).bind
          (apart_keyedShelf.persists_keeps _) fun result => .pure fun made keeps a same => ?_
        cases result with
        | error cause => cases same
        | ok b => exact keeps a (congrArg Except.ok (Except.ok.inj same))

theorem leaves_serveWith (safe : Safe server) (request : Request ι) :
    Leaves (registry.serveWith server request) fun answer made =>
      registry.Shows made request answer := by
  cases request with
  | instances key capability =>
    refine (leaves_gather registry safe key capability (registry.under key)).bind
      (persists_gathered _ _) fun result => ?_
    obtain ⟨failures, found⟩ := result
    cases failures with
    | nil =>
      refine .pure fun made gathered found' same => ?_
      obtain rfl := Except.ok.inj same
      exact gathered rfl
    | cons first suppressed => exact .pure fun _ _ _ same => by cases same
  | containers key capability => exact leaves_contain registry safe key capability _
  | value container => exact leaves_containerValue registry safe container

/-- However deep constructions are nested. -/
theorem leaves_serve (depth : Nat) (request : Request ι) :
    Leaves (registry.serve depth request) fun answer made =>
      registry.Shows made request answer := by
  induction depth generalizing request with
  | zero => exact leaves_serveWith registry (fun _ none => by cases none) request
  | succ depth ih =>
    refine leaves_serveWith registry (fun serve same request => ?_) request
    obtain rfl := Option.some.inj same
    exact (ih request).mono fun _ _ _ => trivial

/-! ### Sessions -/

/-- What a host gets that asks one thing after another, and what has been made in the end. Between two
requests the state of the host may change in any way. -/
def session (depth : Nat) : List (σ × Request ι) → Instances ι →
    List ((request : Request ι) × request.Answer) × Instances ι
  | [], made => ([], made)
  | (host, request) :: rest, made =>
    let served := (registry.serve depth request).run ⟨host, made⟩
    let others := session depth rest served.2.made
    (⟨request, served.1⟩ :: others.1, others.2)

theorem grows_session (depth : Nat) (requests : List (σ × Request ι)) (made : Instances ι) :
    made.Grows (registry.session depth requests made).2 ∧
      ∀ answer ∈ (registry.session depth requests made).1,
        registry.Shows (registry.session depth requests made).2 answer.1 answer.2 := by
  induction requests generalizing made with
  | nil => exact ⟨.refl _, fun answer member => by cases member⟩
  | cons first rest ih =>
    obtain ⟨host, request⟩ := first
    obtain ⟨grows, shows⟩ := leaves_serve registry depth request ⟨host, made⟩
    obtain ⟨grows', others⟩ := ih ((registry.serve depth request).run ⟨host, made⟩).2.made
    refine ⟨grows.trans grows', fun answer member => ?_⟩
    rcases List.mem_cons.mp member with rfl | member
    · exact persists_shows registry _ _ _ _ grows' shows
    · exact others answer member

theorem session_append (depth : Nat) (before after : List (σ × Request ι)) (made : Instances ι) :
    (registry.session depth (before ++ after) made).2 =
      (registry.session depth after (registry.session depth before made).2).2 := by
  induction before generalizing made with
  | nil => rfl
  | cons first rest ih => exact ih _

/-- Every slot is filled at most once and keeps what fills it, and every answer is made up of what is
kept, also of what is made only later in the session. -/
theorem single_of_session (depth : Nat) (before after : List (σ × Request ι)) :
    let earlier := (registry.session depth before {}).2
    let made := (registry.session depth (before ++ after) {}).2
    (made.keyed.Lawful ∧ made.legacy.Lawful) ∧ earlier.Grows made ∧
      (∀ k a, (k, .given a) ∈ made.keyed.log → made.keyed.value? k = some a) ∧
      (∀ k a, (k, .given a) ∈ made.legacy.log → made.legacy.value? k = some a) ∧
      (∀ server number modId value adapter capability, keyedShelf.Discards (number, capability)
        (keyedInstance (σ := σ) (ι := ι) server number modId value adapter capability)
        (usable capability value <$> (adapter modId value capability).run server)) ∧
      (∀ server number value classRef adapter, registry.adapters.legacy.get? classRef = some adapter →
        legacyShelf.Discards number (registry.legacyInstance server number value classRef)
          ((adapter value).run server)) ∧
      ∀ answer ∈ (registry.session depth (before ++ after) {}).1,
        registry.Shows made answer.1 answer.2 := by
  intro earlier made
  obtain ⟨grows, shows⟩ := grows_session registry depth (before ++ after) {}
  have keyed : made.keyed.Lawful := grows.keyed.lawful Slots.lawful_empty
  have legacy : made.legacy.Lawful := grows.legacy.lawful Slots.lawful_empty
  have grown : earlier.Grows made := by
    refine (grows_session registry depth after earlier).1.trans ?_
    rw [← session_append]
    exact .refl _
  refine ⟨⟨keyed, legacy⟩, grown, fun _ _ => keyed.value_of_given, fun _ _ => legacy.value_of_given,
    fun server number modId value adapter capability => keyedShelf.discards_demand _ _,
    fun server number value classRef adapter known => ?_, shows⟩
  have same : registry.legacyInstance server number value classRef =
      legacyShelf.demand number (.ok ((adapter value).run server)) := by
    rw [legacyInstance, known]
  rw [same]
  exact legacyShelf.discards_demand _ _

/-- The construction asks for its own declaration, and loses to the one that this starts. -/
example :
    let asking : LanguageAdapter Nat Nat := fun _ _ capability => .read fun n => .write (n + 1) <|
      if n = 0 then .ask (.instances "main" capability) fun _ => .finish (.ok ⟨capability, n⟩)
      else .finish (.ok ⟨capability, n⟩)
    let registry : EntrypointRegistry Nat Nat := (⟨{}, [], ∅⟩ : EntrypointRegistry Nat Nat).declare
      ["main"] (.keyed "mod" "Main" asking)
    let capability : Capability := ⟨"Initializer"⟩
    ((registry.serve 1 (.instances "main" capability)).run ⟨0, {}⟩).2.made.keyed.log.map Prod.snd =
      [.given 1, .made 0, .given 1, .stored 1, .made 1, .started, .started] := by
  rfl

end EntrypointRegistry

end ModRemap
