import Mathlib
import ModRemap.Proofs.EndedConstructions

/-! Containers put constructions off. If all constructions for a declaration end alike, it makes no
difference whether they happen at once or when the containers are asked. -/

namespace ModRemap

variable {σ ι κ α : Type}

namespace Slots

/-- All constructions for a slot since `s` have ended in the same way. -/
def Alike {γ : Type} (s s' : Slots κ α) (k : κ) (way : Except String α → γ) : Prop :=
  ∀ r r', s.Ended s' k r → s.Ended s' k r' → way r = way r'

end Slots

/-- What a declaration contributes to what the containers under a key hold. -/
def Outcome.shown? (key : String) (capability : Capability) :
    Outcome ι → Option (Except EntrypointFailure ι)
  | .keyed modId r => some (r.mapError (⟨key, modId, ·⟩))
  | .legacy r => ((Outcome.legacy r).instance? capability).map .ok

namespace Outcome

/-- The failure of a container. -/
def failureOf : Except EntrypointFailure ι → Option EntrypointFailure
  | .error f => some f
  | .ok _ => none

theorem failures_shown (key : String) (capability : Capability) (os : List (Outcome ι)) :
    (os.filterMap (shown? key capability)).filterMap failureOf = os.filterMap (failure? key) := by
  rw [List.filterMap_filterMap]
  refine List.filterMap_congr fun o _ => ?_
  rcases o with ⟨modId, cause | a⟩ | r
  · rfl
  · rfl
  · show (((legacy r).instance? capability).map Except.ok).bind failureOf = none
    cases (legacy r).instance? capability <;> rfl

theorem instances_shown (key : String) (capability : Capability) (os : List (Outcome ι)) :
    (os.filterMap (shown? key capability)).filterMap Except.toOption =
      os.filterMap (instance? capability) := by
  rw [List.filterMap_filterMap]
  refine List.filterMap_congr fun o _ => ?_
  rcases o with ⟨modId, cause | a⟩ | r
  · rfl
  · rfl
  · show (((legacy r).instance? capability).map Except.ok).bind Except.toOption = _
    cases (legacy r).instance? capability <;> rfl

theorem eq_map_ok_iff {vs : List (Except EntrypointFailure ι)} {found : List ι} :
    vs = found.map .ok ↔ vs.filterMap failureOf = [] ∧ found = vs.filterMap Except.toOption := by
  induction vs generalizing found with
  | nil => simp [eq_comm]
  | cons v vs ih =>
    cases v with
    | error f => cases found <;> simp [failureOf]
    | ok a =>
      cases found with
      | nil => simp [failureOf, Except.toOption]
      | cons b found =>
        simp only [List.map_cons, List.cons.injEq, Except.ok.injEq, ih, List.filterMap_cons, failureOf,
          Except.toOption, @eq_comm _ a b, and_left_comm]

end Outcome

namespace EntrypointRegistry

open Lookup

namespace Shelf

variable [DecidableEq κ] (shelf : Shelf ι κ α) {k : κ} {base final : Instances ι}

/-- What is so in the end if a request has once come to this for a slot. -/
def Told (base final : Instances ι) (k : κ) : Except String α → Prop
  | .ok a => (shelf.slots final).value? k = some a
  | .error cause => (shelf.slots base).value? k = none ∧
      (shelf.slots base).Ended (shelf.slots final) k (.error cause)

variable {shelf} {construct : Except String (Lookup σ ι (Except String α))} {world world' : World σ ι}
  {result result' : Except String α}

/-- Nothing is told only where nothing could be constructed. -/
theorem Demanded.told (apart : shelf.Apart)
    (constructs : ∀ c, construct = .ok c → Leaves c fun _ _ => True) (earlier : base.Grows world.made)
    (demanded : shelf.Demanded k construct world result world') (later : world'.made.Grows final) :
    shelf.Told base final k result ∨ (shelf.slots base).value? k = none ∧
      (∃ cause, construct = .error cause) ∧ ∃ cause, result = .error cause := by
  have unfilled (empty : (shelf.slots world.made).value? k = none) :
      (shelf.slots base).value? k = none := by
    by_contra filled
    obtain ⟨a, filled⟩ := Option.ne_none_iff_exists'.mp filled
    cases empty.symm.trans ((apart.back _ _ earlier).values k a filled)
  have run := demanded.run
  have left := apart.leaves_demand k constructs world
  rw [run] at left
  cases demanded with
  | served filled => exact .inl ((apart.back _ _ later).values _ _ (left.2 _ rfl))
  | made => exact .inl ((apart.back _ _ later).values _ _ (left.2 _ rfl))
  | unknown empty none => exact .inr ⟨unfilled empty, ⟨_, none⟩, _, rfl⟩
  | @failed between cause c empty some constructed =>
    -- The construction may have asked for others, so that other events come before its failure.
    have started : world.made.Grows ((shelf.record k .started).run world).2.made :=
      apart.grows _ _ (.record (fun a same => by cases same) (fun _ => empty) fun a same => by cases same)
    have constructing := (constructs c some ((shelf.record k .started).run world).2).1
    rw [constructed] at constructing
    have before := (apart.back _ _ (earlier.trans (started.trans constructing))).log
    have after := (apart.back _ _ later).log
    rw [run_record, apart.slots] at after
    exact .inl ⟨unfilled empty, Slots.ended_of_suffix before after rfl⟩

/-- What is told of a slot is always of one kind, and always the same value. -/
theorem Told.alike {γ : Type} {way : Except String α → γ} (told : shelf.Told base final k result)
    (told' : shelf.Told base final k result') (lawful : (shelf.slots base).Lawful)
    (grows : (shelf.slots base).Grows (shelf.slots final))
    (alike : (shelf.slots base).Alike (shelf.slots final) k way) : way result = way result' := by
  rcases result with cause | a <;> rcases result' with cause' | a'
  · exact alike _ _ told.2 told'.2
  · exact alike _ _ told.2 (lawful.ended grows told.1 told')
  · exact alike _ _ (lawful.ended grows told'.1 told) told'.2
  · rw [Option.some.inj (told.symm.trans told')]

end Shelf

/-! ### Declarations -/

variable {registry : EntrypointRegistry σ ι} {server : Option (Server σ ι)} {base final : Instances ι}
  {capability : Capability} {d : Nat × Declaration σ ι} {ds : List (Nat × Declaration σ ι)}
  {o o' : Outcome ι} {os os' : List (Outcome ι)}

/-- All constructions of a declaration have ended alike: with instances, or with one failure. For an
old-style declaration it only matters whether there is a view as the capability. -/
def Steady (capability : Capability) (base final : Instances ι) : Nat × Declaration σ ι → Prop
  | (number, .keyed _ _ _) =>
    base.keyed.Alike final.keyed (number, capability) fun r => r.map fun _ => ()
  | (number, .legacy _ _ _) =>
    base.legacy.Alike final.legacy number fun r => ((Outcome.legacy r).instance? capability).isSome

/-- The constructions of a declaration can end in one way only, whatever they find and are told. -/
def Fixed (registry : EntrypointRegistry σ ι) (capability : Capability) : Declaration σ ι → Prop
  | .keyed modId value adapter => ∃ way, ∀ server world,
    ((usable capability value <$> (adapter modId value capability).run server).run world).1.map
      (fun _ => ()) = way
  | .legacy _ value classRef => ∀ adapter, registry.adapters.legacy.get? classRef = some adapter →
    ∃ offered, ∀ server world,
      ((Outcome.legacy (((adapter value).run server).run world).1).instance? capability).isSome = offered

/-- Nothing else is told if nothing has ever filled the slot. -/
def LegacyTold (base final : Instances ι) (number : Nat) (r : Except String (UntypedInstance ι)) : Prop :=
  legacyShelf.Told base final number r ∨ final.legacy.value? number = none ∧ ∃ cause, r = .error cause

/-- What is so in the end if a request has once come to this for a declaration. -/
inductive Told (capability : Capability) (base final : Instances ι) :
    Nat × Declaration σ ι → Outcome ι → Prop where
  | keyed {number : Nat} {modId value : String} {adapter : LanguageAdapter σ ι} {r : Except String ι}
      (told : keyedShelf.Told base final (number, capability) r) :
      Told capability base final (number, .keyed modId value adapter) (.keyed modId r)
  | legacy {number : Nat} {modId value classRef : String} {r : Except String (UntypedInstance ι)}
      (told : LegacyTold base final number r) :
      Told capability base final (number, .legacy modId value classRef) (.legacy r)

theorem told_keyed (safe : Safe server) {number : Nat} {modId value : String}
    {adapter : LanguageAdapter σ ι} {world world' : World σ ι} {r : Except String ι} (earlier : base.Grows world.made)
    (demanded : keyedShelf.Demanded (number, capability)
      (.ok (usable capability value <$> (adapter modId value capability).run server)) world r world')
    (later : world'.made.Grows final) : keyedShelf.Told base final (number, capability) r := by
  refine (demanded.told apart_keyedShelf (fun c same => ?_) earlier later).resolve_right ?_
  · obtain rfl := Except.ok.inj same
    exact fun world => ⟨(leaves_run safe _ world).1, trivial⟩
  · exact fun ⟨_, ⟨_, unknown⟩, _⟩ => by cases unknown

/-- What a declaration contributes to the containers under a key. -/
inductive Boxed (key : String) (capability : Capability) (base final : Instances ι) :
    Nat × Declaration σ ι → Option (EntrypointContainer ι) → Prop where
  | keyed {number : Nat} {modId value : String} {adapter : LanguageAdapter σ ι} :
      Boxed key capability base final (number, .keyed modId value adapter)
        (some ⟨key, modId, .deferred number capability⟩)
  | legacy {number : Nat} {modId value classRef : String} {r : Except String (UntypedInstance ι)}
      (told : LegacyTold base final number r) :
      Boxed key capability base final (number, .legacy modId value classRef)
        (((Outcome.legacy r).instance? capability).map fun a => ⟨key, modId, .ready a⟩)

theorem run_contain_legacy (key modId value classRef : String) (number : Nat) (world : World σ ι) :
    (registry.contain server key capability ((number, .legacy modId value classRef) :: ds)).run world =
      let tried := (registry.legacyInstance server number value classRef).run world
      let containers := (registry.contain server key capability ds).run tried.2
      (((Outcome.legacy tried.1).instance? capability).toList.map (fun a => ⟨key, modId, .ready a⟩) ++
        containers.1, containers.2) := by
  show (let view := (registry.legacyView server number value classRef capability).run world
    let containers := (registry.contain server key capability ds).run view.2
    (view.1.toList.map (fun a => _) ++ containers.1, containers.2)) = _
  rw [run_legacyView]

/-- A container has been asked for its instance in the meantime. -/
def Asked (registry : EntrypointRegistry σ ι) (server : Option (Server σ ι)) (base final : Instances ι)
    (container : EntrypointContainer ι) (v : Except EntrypointFailure ι) : Prop :=
  ∃ world, base.Grows world.made ∧ ((registry.containerValue server container).run world).1 = v ∧
    ((registry.containerValue server container).run world).2.made.Grows final

theorem told_containerValue (safe : Safe server) {key modId modId' value : String} {number : Nat}
    {adapter : LanguageAdapter σ ι} {v : Except EntrypointFailure ι}
    (declared : registry.declarations[number]? = some (.keyed modId' value adapter))
    (asked : Asked registry server base final ⟨key, modId, .deferred number capability⟩ v) :
    ∃ r, keyedShelf.Told base final (number, capability) r ∧ v = r.mapError (⟨key, modId, ·⟩) := by
  obtain ⟨world, earlier, rfl, later⟩ := asked
  let tried := (keyedInstance server number modId' value adapter capability).run world
  have run : (registry.containerValue server ⟨key, modId, .deferred number capability⟩).run world =
      (tried.1.mapError (⟨key, modId, ·⟩), tried.2) := by
    simp only [containerValue, declared]
    rfl
  rw [run] at later ⊢
  exact ⟨tried.1, told_keyed safe earlier (keyedShelf.demanded _ _ _) later, rfl⟩

/-- Once all containers have been asked, something has come of every declaration. -/
theorem told_forced (safe : Safe server) (key : String) {picks : List (Option (EntrypointContainer ι))}
    {forced : List (Except EntrypointFailure ι)}
    (declared : ∀ d ∈ ds, registry.declarations[d.1]? = some d.2)
    (boxed : ds.Forall₂ (Boxed key capability base final) picks)
    (asked : picks.reduceOption.Forall₂ (Asked registry server base final) forced) :
    ∃ os, ds.Forall₂ (Told capability base final) os ∧
      forced = os.filterMap (Outcome.shown? key capability) := by
  induction boxed generalizing forced with
  | nil =>
    cases asked
    exact ⟨[], .nil, rfl⟩
  | cons first rest ih =>
    obtain ⟨there, others⟩ := List.forall_mem_cons.mp declared
    cases first with
    | keyed =>
      obtain ⟨_, _⟩ | ⟨now, later⟩ := asked
      obtain ⟨r, told, rfl⟩ := told_containerValue safe there now
      obtain ⟨os, tolds, rfl⟩ := ih others later
      exact ⟨_ :: os, .cons (.keyed told) tolds, rfl⟩
    | @legacy number modId value classRef r told =>
      have shown : (Outcome.legacy r).shown? key capability =
        ((Outcome.legacy r).instance? capability).map .ok := rfl
      cases view : (Outcome.legacy r).instance? capability with
      | none =>
        rw [view, Option.map_none, List.reduceOption_cons_of_none] at asked
        obtain ⟨os, tolds, rfl⟩ := ih others asked
        refine ⟨_ :: os, .cons (.legacy told) tolds, ?_⟩
        rw [List.filterMap_cons_none (shown.trans (congrArg _ view))]
      | some a =>
        rw [view, Option.map_some, List.reduceOption_cons_of_some] at asked
        obtain ⟨_, _⟩ | ⟨⟨world, -, now, -⟩, later⟩ := asked
        obtain rfl : Except.ok a = _ := now
        obtain ⟨os, tolds, rfl⟩ := ih others later
        refine ⟨_ :: os, .cons (.legacy told) tolds, ?_⟩
        rw [List.filterMap_cons_some (shown.trans (congrArg _ view))]

/-- A stretch of time: what is there at its beginning is on record, and so are the constructions that
have ended in it. -/
structure Course (registry : EntrypointRegistry σ ι) (base final : Instances ι) : Prop where
  keyed : base.keyed.Lawful
  legacy : base.legacy.Lawful
  grows : base.Grows final
  sourced : registry.Sourced base final

namespace Course

variable (course : registry.Course base final)

include course

/-- Whatever comes of an old-style declaration, its view is the same. -/
theorem view_eq {number : Nat} {r r' : Except String (UntypedInstance ι)}
    (steady : base.legacy.Alike final.legacy number fun r =>
      ((Outcome.legacy r).instance? capability).isSome)
    (told : LegacyTold base final number r) (told' : LegacyTold base final number r') :
    (Outcome.legacy r).instance? capability = (Outcome.legacy r').instance? capability := by
  rcases told with told | ⟨none, cause, rfl⟩ <;> rcases told' with told' | ⟨none', cause', rfl⟩
  · have alike := told.alike told' course.legacy course.grows.legacy steady
    -- A construction that fails and one that fills the slot are alike only if there is no view.
    rcases r with cause | views <;> rcases r' with cause' | views'
    · rfl
    · have unseen : views'.get? capability = none := by simpa [Outcome.instance?] using alike.symm
      exact unseen.symm
    · have unseen : views.get? capability = none := by simpa [Outcome.instance?] using alike
      exact unseen
    · rw [Option.some.inj (told.symm.trans told')]
  · rcases r with cause | views
    · rfl
    · cases none'.symm.trans told
  · rcases r' with cause | views
    · rfl
    · cases none.symm.trans told'
  · rfl

/-- Whatever comes of a declaration shows in the same way. -/
theorem shown_eq (key : String) (steady : Steady capability base final d)
    (told : Told capability base final d o) (told' : Told capability base final d o') :
    o.shown? key capability = o'.shown? key capability := by
  obtain ⟨number, d⟩ := d
  cases told with
  | @keyed _ modId _ _ r told =>
    cases told' with
    | @keyed _ _ _ _ r' told' =>
      have alike := told.alike told' course.keyed course.grows.keyed steady
      rcases r with cause | a <;> rcases r' with cause' | a' <;> cases alike
      · rfl
      · rw [Option.some.inj (told.symm.trans told')]
  | legacy told =>
    cases told' with
    | legacy told' => simp only [Outcome.shown?, course.view_eq steady told told']

/-- Nothing ever fills the slot of a declaration whose adapter is unknown. -/
theorem unfilled {number : Nat} {modId value classRef : String}
    (declared : registry.declarations[number]? = some (.legacy modId value classRef))
    (unknown : registry.adapters.legacy.get? classRef = none) (empty : base.legacy.value? number = none) :
    final.legacy.value? number = none := by
  by_contra filled
  obtain ⟨views, filled⟩ := Option.ne_none_iff_exists'.mp filled
  obtain ⟨_, _, classRef', _, _, _, declared', known, -⟩ :=
    course.sourced.legacy _ _ (course.legacy.ended course.grows.legacy empty filled)
  obtain ⟨-, -, rfl⟩ := Declaration.legacy.inj (Option.some.inj (declared.symm.trans declared'))
  cases unknown.symm.trans known

theorem told_legacy (safe : Safe server) {number : Nat} {modId value classRef : String}
    {world world' : World σ ι} {r : Except String (UntypedInstance ι)}
    (declared : registry.declarations[number]? = some (.legacy modId value classRef))
    (earlier : base.Grows world.made)
    (demanded : legacyShelf.Demanded number (registry.legacyConstruction server value classRef)
      world r world')
    (later : world'.made.Grows final) : LegacyTold base final number r := by
  cases known : registry.adapters.legacy.get? classRef with
  | none =>
    rw [legacyConstruction, known] at demanded
    refine (demanded.told apart_legacyShelf (fun c same => by cases same) earlier later).imp_right ?_
    exact fun ⟨empty, _, failed⟩ => ⟨course.unfilled declared known empty, failed⟩
  | some adapter =>
    rw [legacyConstruction, known] at demanded
    refine (demanded.told apart_legacyShelf (fun c same => ?_) earlier later).imp_right ?_
    · exact Except.ok.inj same ▸ leaves_run safe _
    · exact fun ⟨_, ⟨_, unknown⟩, _⟩ => by cases unknown

theorem told_attempts (safe : Safe server) {world world' : World σ ι}
    (declared : ∀ d ∈ ds, registry.declarations[d.1]? = some d.2) (earlier : base.Grows world.made)
    (attempts : registry.Attempts server capability ds world os world') (later : world'.made.Grows final) :
    ds.Forall₂ (Told capability base final) os := by
  induction attempts with
  | nil => exact .nil
  | cons first rest ih =>
    obtain ⟨there, others⟩ := List.forall_mem_cons.mp declared
    have grows := (first.kept safe).1
    refine .cons ?_ (ih others (earlier.trans grows) later)
    have later := (rest.kept safe).1.trans later
    cases first with
    | keyed demanded => exact .keyed (told_keyed safe earlier demanded later)
    | legacy demanded => exact .legacy (course.told_legacy safe there earlier demanded later)

/-- The containers under a key, with those left out that would be of an old-style declaration without
a view. -/
theorem boxed_contain (safe : Safe server) (key : String) {world : World σ ι}
    (declared : ∀ d ∈ ds, registry.declarations[d.1]? = some d.2) (earlier : base.Grows world.made)
    (later : ((registry.contain server key capability ds).run world).2.made.Grows final) :
    ∃ picks, ds.Forall₂ (Boxed key capability base final) picks ∧
      ((registry.contain server key capability ds).run world).1 = picks.reduceOption := by
  induction ds generalizing world with
  | nil => exact ⟨[], .nil, rfl⟩
  | cons d rest ih =>
    obtain ⟨there, others⟩ := List.forall_mem_cons.mp declared
    obtain ⟨number, d⟩ := d
    cases d with
    | keyed modId value adapter =>
      obtain ⟨picks, boxed, same⟩ := ih others earlier later
      exact ⟨_ :: picks, .cons .keyed boxed, (congrArg (_ :: ·) same).trans
        (List.reduceOption_cons_of_some _ picks).symm⟩
    | legacy modId value classRef =>
      let tried := (registry.legacyInstance server number value classRef).run world
      rw [run_contain_legacy] at later ⊢
      have demanded : legacyShelf.Demanded number (registry.legacyConstruction server value classRef) world
        tried.1 tried.2 := legacyShelf.demanded _ _ _
      have grows := (leaves_legacyInstance registry safe number value classRef world).1
      have told := course.told_legacy safe there earlier demanded
        ((leaves_contain registry safe key capability rest tried.2).1.trans later)
      obtain ⟨picks, boxed, same⟩ := ih others (earlier.trans grows) later
      refine ⟨_ :: picks, .cons (.legacy told) boxed, ?_⟩
      dsimp only
      rw [same]
      cases (Outcome.legacy tried.1).instance? capability with
      | none => exact (List.reduceOption_cons_of_none picks).symm
      | some a => exact (List.reduceOption_cons_of_some _ picks).symm

/-- The declarations show alike if they have been tried twice. -/
theorem filterMap_shown_eq (key : String) (steady : ∀ d ∈ ds, Steady capability base final d)
    (told : ds.Forall₂ (Told capability base final) os)
    (told' : ds.Forall₂ (Told capability base final) os') :
    os.filterMap (Outcome.shown? key capability) = os'.filterMap (Outcome.shown? key capability) := by
  induction told generalizing os' with
  | nil =>
    cases told'
    rfl
  | cons first rest ih =>
    obtain ⟨_, _⟩ | ⟨first', rest'⟩ := told'
    obtain ⟨steadyFirst, steadyRest⟩ := List.forall_mem_cons.mp steady
    rw [List.filterMap_cons, List.filterMap_cons, course.shown_eq key steadyFirst first first',
      ih steadyRest rest']

/-- The constructions of a declaration that can end in one way only have done so. -/
theorem steady_of_fixed (declared : registry.declarations[d.1]? = some d.2)
    (fixed : registry.Fixed capability d.2) : Steady capability base final d := by
  obtain ⟨number, d⟩ := d
  cases d with
  | keyed modId value adapter =>
    intro r r' ended ended'
    obtain ⟨_, _, _, server, world, first, rfl⟩ := course.sourced.keyed _ _ ended
    obtain ⟨_, _, _, server', world', second, rfl⟩ := course.sourced.keyed _ _ ended'
    obtain ⟨rfl, rfl, rfl⟩ := Declaration.keyed.inj (Option.some.inj (declared.symm.trans first))
    obtain ⟨rfl, rfl, rfl⟩ := Declaration.keyed.inj (Option.some.inj (declared.symm.trans second))
    obtain ⟨way, ends⟩ := fixed
    exact (ends server world).trans (ends server' world').symm
  | legacy modId value classRef =>
    intro r r' ended ended'
    obtain ⟨_, _, _, adapter, server, world, first, known, rfl⟩ := course.sourced.legacy _ _ ended
    obtain ⟨_, _, _, _, server', world', second, known', rfl⟩ := course.sourced.legacy _ _ ended'
    obtain ⟨-, rfl, rfl⟩ := Declaration.legacy.inj (Option.some.inj (declared.symm.trans first))
    obtain ⟨-, rfl, rfl⟩ := Declaration.legacy.inj (Option.some.inj (declared.symm.trans second))
    obtain rfl := Option.some.inj (known.symm.trans known')
    obtain ⟨offered, views⟩ := fixed adapter known
    exact (views server world).trans (views server' world').symm

end Course

/-! ### Sessions -/

variable (registry)

theorem served_of_mem_session {depth : Nat} {requests : List (σ × Request ι)} {base : Instances ι}
    {answer : (request : Request ι) × request.Answer}
    (member : answer ∈ (registry.session depth requests base).1) :
    ∃ world, base.Grows world.made ∧ ((registry.serve depth answer.1).run world).1 = answer.2 ∧
      ((registry.serve depth answer.1).run world).2.made.Grows
        (registry.session depth requests base).2 := by
  induction requests generalizing base with
  | nil => cases member
  | cons first rest ih =>
    obtain ⟨host, request⟩ := first
    rcases List.mem_cons.mp member with rfl | later
    · exact ⟨⟨host, base⟩, .refl _, rfl, (grows_session registry depth rest _).1⟩
    · obtain ⟨world, grows, served, left⟩ := ih later
      exact ⟨world, (leaves_serve registry depth request ⟨host, base⟩).1.trans grows, served, left⟩

theorem course_session (depth : Nat) (requests : List (σ × Request ι)) {base : Instances ι}
    (keyed : base.keyed.Lawful) (legacy : base.legacy.Lawful) :
    registry.Course base (registry.session depth requests base).2 where
  keyed := keyed
  legacy := legacy
  grows := (grows_session registry depth requests base).1
  sourced := sourced_session registry depth requests (registry.sourced_self base)

/-- An answer with the instances under a key tells what has come of each declaration. -/
theorem told_instances {depth : Nat} {key : String} {requests : List (σ × Request ι)}
    {eager : Except EntrypointError (List ι)}
    (course : registry.Course base (registry.session depth requests base).2)
    (asked : ⟨.instances key capability, eager⟩ ∈ (registry.session depth requests base).1) :
    ∃ os, (registry.under key).Forall₂ (Told capability base (registry.session depth requests base).2) os ∧
      eager = verdict (os.filterMap (Outcome.failure? key),
        os.filterMap (Outcome.instance? capability)) := by
  obtain ⟨world, earlier, served, later⟩ := registry.served_of_mem_session asked
  obtain ⟨os, attempts, gathered⟩ := registry.attempts_gather (registry.below depth) key capability
    (registry.under key) world
  have run := (congrArg (·.run world) (registry.serve_eq depth (.instances key capability))).trans
    (registry.run_instances key capability world)
  obtain ⟨answer, left⟩ := Prod.ext_iff.mp run
  refine ⟨os, ?_, served.symm.trans (answer.trans (congrArg verdict gathered))⟩
  exact course.told_attempts (registry.safe_below depth) (fun d => getElem?_of_mem_under registry) earlier
    attempts (left ▸ later)

/-- Containers that have been got, and then asked, tell it as well. -/
theorem told_containers {depth : Nat} {key : String} {requests : List (σ × Request ι)}
    {containers : List (EntrypointContainer ι)} {forced : List (Except EntrypointFailure ι)}
    (course : registry.Course base (registry.session depth requests base).2)
    (contained : ⟨.containers key capability, containers⟩ ∈ (registry.session depth requests base).1)
    (values : containers.Forall₂
      (fun container v => ⟨.value container, v⟩ ∈ (registry.session depth requests base).1) forced) :
    ∃ os, (registry.under key).Forall₂ (Told capability base (registry.session depth requests base).2) os ∧
      forced = os.filterMap (Outcome.shown? key capability) := by
  have safe := registry.safe_below depth
  have declared : ∀ d ∈ registry.under key, registry.declarations[d.1]? = some d.2 :=
    fun d => getElem?_of_mem_under registry
  obtain ⟨world, earlier, served, later⟩ := registry.served_of_mem_session contained
  rw [serve_eq] at served later
  obtain ⟨picks, boxed, same⟩ := course.boxed_contain safe key declared earlier later
  obtain rfl : containers = picks.reduceOption := served.symm.trans same
  refine told_forced safe key declared boxed (values.imp fun container v member => ?_)
  obtain ⟨world, earlier, served, later⟩ := registry.served_of_mem_session member
  rw [serve_eq] at served later
  exact ⟨world, earlier, served, later⟩

/-- Whether the instances under a key are asked for at once or one by one does not matter, nor what is
asked first or in between, as long as the constructions of each declaration end alike. -/
theorem forced_eq_instances (depth : Nat) (key : String) (capability : Capability) {base : Instances ι}
    (keyed : base.keyed.Lawful) (legacy : base.legacy.Lawful) (requests : List (σ × Request ι))
    (steady : ∀ d ∈ registry.under key, Steady capability base (registry.session depth requests base).2 d)
    {eager : Except EntrypointError (List ι)} {containers : List (EntrypointContainer ι)}
    {forced : List (Except EntrypointFailure ι)}
    (asked : ⟨.instances key capability, eager⟩ ∈ (registry.session depth requests base).1)
    (contained : ⟨.containers key capability, containers⟩ ∈ (registry.session depth requests base).1)
    (values : containers.Forall₂
      (fun container v => ⟨.value container, v⟩ ∈ (registry.session depth requests base).1) forced) :
    (∀ found, eager = .ok found ↔ forced = found.map .ok) ∧
      (∀ e, eager = .error e ↔ forced.filterMap Outcome.failureOf = e.first :: e.suppressed) ∧
      ∃ picks, (registry.under key).Forall₂
        (Contained key capability (registry.session depth requests base).2) picks ∧
        containers = picks.reduceOption := by
  have course := registry.course_session depth requests keyed legacy
  obtain ⟨os, told, rfl⟩ := registry.told_instances course asked
  obtain ⟨os', told', rfl⟩ := registry.told_containers course contained values
  rw [← course.filterMap_shown_eq key steady told told']
  refine ⟨fun found => ?_, fun e => ?_, (grows_session registry depth requests base).2 _ contained⟩
  · rw [Outcome.eq_map_ok_iff, Outcome.failures_shown, Outcome.instances_shown]
    exact verdict_eq_ok_iff
  · rw [Outcome.failures_shown]
    exact verdict_eq_error_iff

/-- An old-style declaration is viewed when the containers are asked for, and the other declaration
makes its instance when its container is asked. -/
theorem forced_eq_instances_counted :
    let capability : Capability := ⟨"Initializer"⟩
    let counting : LanguageAdapter Nat Nat := fun _ _ capability =>
      .read fun n => .write (n + 1) (.finish (.ok ⟨capability, n⟩))
    let viewed : LegacyAdapter Nat Nat := fun _ =>
      .read fun n => .write (n + 1) (.finish (.ok ((∅ : Dict Capability Nat).insert ⟨"Initializer"⟩ n)))
    let registry : EntrypointRegistry Nat Nat :=
      (({ adapters := { legacy := (∅ : Dict String (LegacyAdapter Nat Nat)).insert "Old" viewed } } :
        EntrypointRegistry Nat Nat).declare ["main"] (.legacy "old" "A" "Old")).declare
        ["main"] (.keyed "new" "B" counting)
    let containers : List (EntrypointContainer Nat) :=
      [⟨"main", "old", .ready 5⟩, ⟨"main", "new", .deferred 1 capability⟩]
    let requests : List (Nat × Request Nat) :=
      (5, .containers "main" capability) :: containers.map (fun c => (7, .value c)) ++
        [(9, .instances "main" capability)]
    let session := registry.session 0 requests {}
    (∀ d ∈ registry.under "main", Steady capability {} session.2 d) ∧
      ⟨.instances "main" capability, .ok [5, 7]⟩ ∈ session.1 ∧
      ⟨.containers "main" capability, containers⟩ ∈ session.1 ∧
      ∃ forced, containers.Forall₂ (fun c v => ⟨.value c, v⟩ ∈ session.1) forced ∧
        forced = [5, 7].map .ok := by
  intro capability counting viewed registry containers requests session
  have course : registry.Course {} session.2 :=
    registry.course_session 0 requests Slots.lawful_empty Slots.lawful_empty
  have steady : ∀ d ∈ registry.under "main", Steady capability {} session.2 d := by
    intro d member
    refine course.steady_of_fixed (getElem?_of_mem_under registry member) ?_
    have listed : d ∈ [(0, .legacy "old" "A" "Old"), (1, .keyed "new" "B" counting)] := member
    rcases List.mem_pair.mp listed with rfl | rfl
    · intro adapter known
      obtain rfl := Option.some.inj (show some viewed = some adapter from known)
      exact ⟨true, fun _ _ => rfl⟩
    · exact ⟨.ok (), fun _ _ => rfl⟩
  have eager : ⟨.instances "main" capability, .ok [5, 7]⟩ ∈ session.1 :=
    .tail _ (.tail _ (.tail _ (.head _)))
  have contained : ⟨.containers "main" capability, containers⟩ ∈ session.1 := .head _
  have values : containers.Forall₂ (fun c v => ⟨.value c, v⟩ ∈ session.1) [.ok 5, .ok 7] :=
    .cons (.tail _ (.head _)) (.cons (.tail _ (.tail _ (.head _))) .nil)
  obtain ⟨found, -, -⟩ := forced_eq_instances registry 0 "main" capability Slots.lawful_empty
    Slots.lawful_empty requests steady eager contained values
  exact ⟨steady, eager, contained, _, values, (found _).mp rfl⟩

end EntrypointRegistry

end ModRemap
