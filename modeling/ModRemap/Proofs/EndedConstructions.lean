import Mathlib
import ModRemap.Proofs.DeclarationAttempts

/-! The record tells how constructions have ended. Whatever is requested, and however deep it is nested,
only a construction of the declaration with the number of a slot ends there. -/

namespace ModRemap

variable {σ ι κ α β : Type}

/-- How a construction ends, with a failure or with what fills the slot. -/
def SlotEvent.ending? : SlotEvent α → Option (Except String α)
  | .failed cause => some (.error cause)
  | .stored a => some (.ok a)
  | _ => none

namespace Slots

variable {s s' s'' : Slots κ α} {k k' : κ} {e : SlotEvent α} {r : Except String α}

/-- Since `s` a construction for the slot has ended with `r`. -/
def Ended (s s' : Slots κ α) (k : κ) (r : Except String α) : Prop :=
  ∃ later, later ++ s.log = s'.log ∧ ∃ e, (k, e) ∈ later ∧ e.ending? = some r

theorem not_ended_self : ¬ s.Ended s k r := by
  rintro ⟨later, same, e, member, -⟩
  rw [List.append_left_eq_self.mp same] at member
  cases member

theorem ended_of_suffix {before : List (κ × SlotEvent α)} (earlier : s.log <:+ before)
    (suffix : (k, e) :: before <:+ s'.log) (ends : e.ending? = some r) : s.Ended s' k r := by
  obtain ⟨between, rfl⟩ := earlier
  obtain ⟨later, same⟩ := suffix
  refine ⟨later ++ (k, e) :: between, ?_, e, by simp, ends⟩
  rw [← same, List.append_assoc, List.cons_append]

/-- What one more event adds. -/
theorem ended_of_log (added : s''.log = (k, e) :: s'.log) (ended : s.Ended s'' k' r) :
    s.Ended s' k' r ∨ k' = k ∧ e.ending? = some r := by
  obtain ⟨later, same, e', member, ends⟩ := ended
  rw [added] at same
  cases later with
  | nil => cases member
  | cons first later =>
    obtain ⟨rfl, rest⟩ := List.cons.inj same
    rcases List.mem_cons.mp member with here | earlier
    · obtain ⟨rfl, rfl⟩ := Prod.mk.inj here
      exact .inr ⟨rfl, ends⟩
    · exact .inl ⟨later, rest, e', earlier, ends⟩

variable [DecidableEq κ]

theorem ended_keep {a : α} (ended : s.Ended (s'.keep k a).1 k' r) :
    s.Ended s' k' r ∨ k' = k ∧ .ok a = r := by
  have made (ended : s.Ended (s'.record k (.made a)) k' r) : s.Ended s' k' r := by
    rcases ended_of_log rfl ended with before | ⟨-, ⟨⟩⟩
    exact before
  unfold keep at ended
  dsimp only at ended
  split at ended
  · rcases ended_of_log rfl ended with before | ⟨-, ⟨⟩⟩
    exact .inl (made before)
  · rcases ended_of_log rfl ended with stored | ⟨-, ⟨⟩⟩
    rcases ended_of_log rfl stored with before | ⟨slot, same⟩
    · exact .inl (made before)
    · exact .inr ⟨slot, Option.some.inj same⟩

/-- A slot that has been filled since was filled by a construction. -/
theorem Lawful.ended (lawful : s.Lawful) (grows : s.Grows s') {a : α} (empty : s.value? k = none)
    (filled : s'.value? k = some a) : s.Ended s' k (.ok a) := by
  obtain ⟨later, same⟩ := grows.log
  have stored : (k, .stored a) ∈ s'.log := ((grows.lawful lawful).values k a).mp filled
  refine ⟨later, same, .stored a, ?_, rfl⟩
  rcases List.mem_append.mp (same ▸ stored) with member | before
  · exact member
  · cases empty.symm.trans ((lawful.values k a).mpr before)

end Slots

namespace Lookup

/-- What holds of the instances still holds afterwards. -/
def Preserves (x : Lookup σ ι α) (P : Instances ι → Prop) : Prop :=
  ∀ world, P world.made → P (x.run world).2.made

namespace Preserves

variable {P : Instances ι → Prop}

theorem pure (a : α) : Preserves (σ := σ) (pure a) P := fun _ h => h

theorem bind {x : Lookup σ ι α} {f : α → Lookup σ ι β} (hx : x.Preserves P)
    (hf : ∀ a, (f a).Preserves P) : (x >>= f).Preserves P :=
  fun world h => hf _ _ (hx world h)

end Preserves

end Lookup

namespace EntrypointRegistry

open Lookup

variable (registry : EntrypointRegistry σ ι) {server : Option (Server σ ι)}

/-- How a construction of a declaration for a capability can end. -/
def KeyedEnd : Nat × Capability → Except String ι → Prop
  | (number, capability), r => ∃ modId value adapter server world,
    registry.declarations[number]? = some (.keyed modId value adapter) ∧
      ((usable capability value <$> (adapter modId value capability).run server).run world).1 = r

def LegacyEnd (number : Nat) (r : Except String (UntypedInstance ι)) : Prop :=
  ∃ modId value classRef adapter server world,
    registry.declarations[number]? = some (.legacy modId value classRef) ∧
      registry.adapters.legacy.get? classRef = some adapter ∧
      (((adapter value).run server).run world).1 = r

/-- What has ended since are constructions of the declarations. -/
structure Sourced (base made : Instances ι) : Prop where
  keyed : ∀ k r, base.keyed.Ended made.keyed k r → registry.KeyedEnd k r
  legacy : ∀ k r, base.legacy.Ended made.legacy k r → registry.LegacyEnd k r

theorem sourced_self (base : Instances ι) : registry.Sourced base base :=
  ⟨fun _ _ ended => absurd ended Slots.not_ended_self, fun _ _ ended => absurd ended Slots.not_ended_self⟩

theorem getElem?_of_mem_under {key : String} {d : Nat × Declaration σ ι} (member : d ∈ registry.under key) :
    registry.declarations[d.1]? = some d.2 := by
  obtain ⟨number, -, declared⟩ := List.mem_filterMap.mp member
  obtain ⟨d', there, rfl⟩ := Option.map_eq_some_iff.mp declared
  exact there

namespace Shelf

variable [DecidableEq κ] {shelf : Shelf ι κ α} {P : Instances ι → Prop} {k : κ}
  {construct : Except String (Lookup σ ι (Except String α))}

theorem Demanded.preserves (base : Slots κ α) (Source : κ → Except String α → Prop)
    {world world' : World σ ι} {result : Except String α}
    (closed : ∀ made s, P made →
      (∀ k r, base.Ended s k r → base.Ended (shelf.slots made) k r ∨ Source k r) → P (shelf.place s made))
    (constructs : ∀ c, construct = .ok c → c.Preserves P ∧ ∀ world, Source k (c.run world).1)
    (demanded : shelf.Demanded k construct world result world') (before : P world.made) :
    P world'.made := by
  have quiet (e : SlotEvent α) (other : e.ending? = none) (now : World σ ι) (h : P now.made) :
      P ((shelf.record k e).run now).2.made := by
    refine closed _ _ h fun k' r ended => ?_
    rcases Slots.ended_of_log rfl ended with earlier | ⟨-, same⟩
    · exact .inl earlier
    · cases other.symm.trans same
  cases demanded with
  | served => exact quiet _ rfl _ before
  | unknown => exact before
  | @failed between cause c empty some constructed =>
    obtain ⟨preserves, source⟩ := constructs c some
    have kept := preserves _ (quiet .started rfl _ before)
    have ends := source ((shelf.record k .started).run world).2
    rw [constructed] at kept ends
    refine closed _ _ kept fun k' r ended => ?_
    rcases Slots.ended_of_log rfl ended with earlier | ⟨rfl, same⟩
    · exact .inl earlier
    · exact .inr (Option.some.inj same ▸ ends)
  | @made between a c empty some constructed =>
    obtain ⟨preserves, source⟩ := constructs c some
    have kept := preserves _ (quiet .started rfl _ before)
    have ends := source ((shelf.record k .started).run world).2
    rw [constructed] at kept ends
    refine closed _ _ kept fun k' r ended => ?_
    rcases Slots.ended_keep ended with earlier | ⟨rfl, rfl⟩
    · exact .inl earlier
    · exact .inr ends

end Shelf

theorem preserves_run {P : Instances ι → Prop}
    (served : ∀ serve ∈ server, ∀ request, Preserves (serve request) P)
    (construction : Construction σ ι α) : (construction.run server).Preserves P := by
  induction construction with
  | finish result => exact .pure _
  | read next ih => exact fun world => ih world.host world
  | write host next ih => exact fun world => ih { world with host }
  | ask request next ih =>
    cases server with
    | none => exact .pure _
    | some serve => exact (served serve rfl request).bind ih

section

variable {registry} {base : Instances ι}
  (served : ∀ serve ∈ server, ∀ request, Preserves (serve request) (registry.Sourced base))

include served

theorem preserves_keyedInstance {number : Nat} {modId value : String} {adapter : LanguageAdapter σ ι}
    (declared : registry.declarations[number]? = some (.keyed modId value adapter))
    (capability : Capability) :
    (keyedInstance server number modId value adapter capability).Preserves (registry.Sourced base) := by
  intro world
  refine (keyedShelf.demanded (number, capability) _ world).preserves base.keyed registry.KeyedEnd
    (fun made s sourced more => ⟨fun k r ended => ?_, sourced.legacy⟩) fun c same => ?_
  · exact (more k r ended).elim (sourced.keyed k r) id
  · obtain rfl := Except.ok.inj same
    exact ⟨(preserves_run served _).bind fun _ => .pure _,
      fun world => ⟨modId, value, adapter, server, world, declared, rfl⟩⟩

theorem preserves_legacyInstance {number : Nat} {modId value classRef : String}
    (declared : registry.declarations[number]? = some (.legacy modId value classRef)) :
    (registry.legacyInstance server number value classRef).Preserves (registry.Sourced base) := by
  intro world
  refine (legacyShelf.demanded number _ world).preserves base.legacy registry.LegacyEnd
    (fun made s sourced more => ⟨sourced.keyed, fun k r ended => ?_⟩) fun c same => ?_
  · exact (more k r ended).elim (sourced.legacy k r) id
  · cases known : registry.adapters.legacy.get? classRef with
    | none => simp [known] at same
    | some adapter =>
      simp only [known, Except.ok.injEq] at same
      subst same
      exact ⟨preserves_run served _,
        fun world => ⟨modId, value, classRef, adapter, server, world, declared, known, rfl⟩⟩

theorem preserves_legacyView {number : Nat} {modId value classRef : String}
    (declared : registry.declarations[number]? = some (.legacy modId value classRef))
    (capability : Capability) :
    (registry.legacyView server number value classRef capability).Preserves (registry.Sourced base) := by
  refine (preserves_legacyInstance served declared).bind fun result => ?_
  cases result <;> exact .pure _

theorem preserves_gather (key : String) (capability : Capability) (ds : List (Nat × Declaration σ ι))
    (declared : ∀ d ∈ ds, registry.declarations[d.1]? = some d.2) :
    (registry.gather server key capability ds).Preserves (registry.Sourced base) := by
  induction ds with
  | nil => exact .pure _
  | cons d rest ih =>
    obtain ⟨first, others⟩ := List.forall_mem_cons.mp declared
    obtain ⟨number, d⟩ := d
    cases d with
    | keyed modId value adapter =>
      refine (preserves_keyedInstance served first capability).bind fun result => ?_
      refine (ih others).bind fun gathered => ?_
      cases result <;> exact .pure _
    | legacy modId value classRef =>
      exact (preserves_legacyView served first capability).bind fun view =>
        (ih others).bind fun gathered => .pure _

theorem preserves_contain (key : String) (capability : Capability) (ds : List (Nat × Declaration σ ι))
    (declared : ∀ d ∈ ds, registry.declarations[d.1]? = some d.2) :
    (registry.contain server key capability ds).Preserves (registry.Sourced base) := by
  induction ds with
  | nil => exact .pure _
  | cons d rest ih =>
    obtain ⟨first, others⟩ := List.forall_mem_cons.mp declared
    obtain ⟨number, d⟩ := d
    cases d with
    | keyed modId value adapter => exact (ih others).bind fun containers => .pure _
    | legacy modId value classRef =>
      exact (preserves_legacyView served first capability).bind fun view =>
        (ih others).bind fun containers => .pure _

theorem preserves_containerValue (container : EntrypointContainer ι) :
    (registry.containerValue server container).Preserves (registry.Sourced base) := by
  obtain ⟨key, modId, source⟩ := container
  cases source with
  | ready value => exact .pure _
  | deferred number capability =>
    cases declared : registry.declarations[number]? with
    | none =>
      simp only [containerValue, declared]
      exact .pure _
    | some d =>
      cases d with
      | legacy =>
        simp only [containerValue, declared]
        exact .pure _
      | keyed modId' value adapter =>
        simp only [containerValue, declared]
        exact (preserves_keyedInstance served declared capability).bind fun result => .pure _

theorem preserves_serveWith (request : Request ι) :
    Preserves (registry.serveWith server request) (registry.Sourced base) := by
  cases request with
  | instances key capability =>
    refine (preserves_gather served key capability _ fun d => getElem?_of_mem_under registry).bind ?_
    rintro ⟨_ | ⟨first, suppressed⟩, found⟩ <;> exact .pure _
  | containers key capability =>
    exact preserves_contain served key capability _ fun d => getElem?_of_mem_under registry
  | value container => exact preserves_containerValue served container

end

theorem preserves_serve (depth : Nat) (request : Request ι) (base : Instances ι) :
    Preserves (registry.serve depth request) (registry.Sourced base) := by
  induction depth generalizing request with
  | zero => exact preserves_serveWith (fun _ none => by cases none) request
  | succ depth ih =>
    refine preserves_serveWith (fun serve same request => ?_) request
    obtain rfl := Option.some.inj same
    exact ih request

theorem sourced_session (depth : Nat) (requests : List (σ × Request ι)) {base made : Instances ι}
    (sourced : registry.Sourced base made) :
    registry.Sourced base (registry.session depth requests made).2 := by
  induction requests generalizing made with
  | nil => exact sourced
  | cons first rest ih => exact ih (preserves_serve registry depth first.2 base _ sourced)

end EntrypointRegistry

end ModRemap
