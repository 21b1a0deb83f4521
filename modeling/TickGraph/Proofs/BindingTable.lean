import Mathlib.Data.List.Induction
import Mathlib.Data.List.Nodup
import TickGraph.Evaluation
import TickGraph.Proofs.Meaning
import TickGraph.TickRun

namespace TickGraph

namespace Binding

variable {given kept : List Binding} {binding : Binding} {tag : Int}

/-- The binding of a tag that is given last. -/
def last? (given : List Binding) (tag : Int) : Option Binding :=
  (given.filter fun binding => binding.tag == tag).getLast?

/-- One binding for each bound tag: the last one, at the place of the first one. -/
def latest (given : List Binding) : List Binding :=
  given.foldl (fun kept binding => binding.put kept) []

/-- The number of a tag in tick `k`, counted from zero. What is not bound counts as zero. -/
def numberAt (given : List Binding) (k : Nat) (tag : Int) : Float :=
  (last? given tag).elim 0 fun binding => binding.valueAt k

theorem find?_put (binding : Binding) (kept : List Binding) (tag : Int) :
    (binding.put kept).find? (fun other => other.tag == tag) =
      if binding.tag = tag then some binding else kept.find? fun other => other.tag == tag := by
  induction kept with
  | nil => by_cases same : binding.tag = tag <;> simp [put, same]
  | cons other rest ih =>
    unfold put
    by_cases here : other.tag = binding.tag
    · by_cases same : binding.tag = tag <;> simp [here, same]
    · rw [if_neg here, List.find?_cons, ih, List.find?_cons]
      by_cases same : binding.tag = tag
      · have apart : (other.tag == tag) = false := beq_eq_false_iff_ne.mpr fun equal =>
          here (equal.trans same.symm)
        simp only [apart, same, if_true]
      · simp only [same, if_false]

/-- A tag that is there already keeps its place, and a new one stands last. -/
theorem tags_put (binding : Binding) (kept : List Binding) :
    (binding.put kept).map Binding.tag =
      if binding.tag ∈ kept.map Binding.tag then kept.map Binding.tag
      else kept.map Binding.tag ++ [binding.tag] := by
  induction kept with
  | nil => rfl
  | cons other rest ih =>
    unfold put
    by_cases here : other.tag = binding.tag
    · simp [here]
    · rw [if_neg here, List.map_cons, ih]
      by_cases later : binding.tag ∈ rest.map Binding.tag
      · simp [later]
      · simp [later, Ne.symm here]

theorem latest_concat (given : List Binding) (binding : Binding) :
    latest (given ++ [binding]) = binding.put (latest given) := by
  simp only [latest, List.foldl_append, List.foldl_cons, List.foldl_nil]

theorem last?_concat (given : List Binding) (binding : Binding) (tag : Int) :
    last? (given ++ [binding]) tag =
      if binding.tag = tag then some binding else last? given tag := by
  unfold last?
  by_cases same : binding.tag = tag <;> simp [same]

/-- What is kept for a tag is the binding that was given last. -/
theorem find?_latest (given : List Binding) (tag : Int) :
    (latest given).find? (fun binding => binding.tag == tag) = last? given tag := by
  induction given using List.reverseRecOn with
  | nil => rfl
  | append_singleton earlier binding ih => rw [latest_concat, find?_put, last?_concat, ih]

theorem nodup_latest (given : List Binding) : ((latest given).map Binding.tag).Nodup := by
  induction given using List.reverseRecOn with
  | nil => exact List.nodup_nil
  | append_singleton earlier binding ih =>
    rw [latest_concat, tags_put]
    split
    · exact ih
    · rename_i fresh
      exact List.nodup_append.mpr ⟨ih, List.nodup_singleton _, by
        rintro tag member other single same
        rw [List.mem_singleton.mp single] at same
        exact fresh (same ▸ member)⟩

theorem last?_map {f : Binding → Binding} (tags : ∀ binding, (f binding).tag = binding.tag)
    (given : List Binding) (tag : Int) : last? (given.map f) tag = (last? given tag).map f := by
  unfold last?
  rw [List.filter_map, List.getLast?_map]
  simp only [Function.comp_def, tags]

end Binding

/-- The values that the bound tags have in tick `k`. -/
def tickTable (kept : List Binding) (k : Nat) : List (Int × Option Number) :=
  kept.map fun binding => (binding.tag, some (.float (binding.valueAt k)))

/-- The outside in tick `k` of a run. -/
abbrev tickWorld (kept : List Binding) (k : Nat) : World Int :=
  World.ofTable (tickTable kept k)

theorem lookup_tickTable (kept : List Binding) (k : Nat) (tag : Int) :
    (tickTable kept k).lookup tag =
      (kept.find? fun binding => binding.tag == tag).map fun binding =>
        some (.float (binding.valueAt k)) := by
  induction kept with
  | nil => rfl
  | cons binding rest ih =>
    rw [tickTable] at ih ⊢
    rw [List.map_cons, List.lookup_cons, ih, List.find?_cons, BEq.comm]
    cases binding.tag == tag <;> rfl

theorem World.ofTable_congr {table other : List (Int × Option Number)}
    (same : ∀ tag, other.lookup tag = table.lookup tag) :
    World.ofTable other = World.ofTable table := by
  unfold World.ofTable
  simp only [same]

section Ticks

variable (kept : List Binding) (j k : Nat) (tag : Int)

theorem handle?_tickWorld :
    (tickWorld kept k).handle? tag =
      (kept.find? fun binding => binding.tag == tag).map fun _ => tag := by
  simp only [World.handle?, World.ofTable, lookup_tickTable, Option.bind_some, Option.isSome_map]
  cases kept.find? fun binding => binding.tag == tag <;> rfl

theorem value_tickWorld :
    (tickWorld kept k).value tag =
      (kept.find? fun binding => binding.tag == tag).elim 0 fun binding => binding.valueAt k := by
  simp only [World.value, World.ofTable, lookup_tickTable]
  cases kept.find? fun binding => binding.tag == tag <;> rfl

theorem convertible_tickWorld : (tickWorld kept k).Convertible tag := by
  intro number found
  simp only [World.ofTable, lookup_tickTable] at found
  cases bound : kept.find? fun binding => binding.tag == tag with
  | none =>
    rw [bound] at found
    cases found
  | some binding =>
    rw [bound] at found
    cases found
    exact ⟨_, rfl⟩

/-- In both modes a leaf has the present number of its tag: tags are bound before the first tick and
stay bound. -/
theorem leaf_tickWorld (given : List Binding) (mode : ReferenceMode) :
    mode.leaf (tickWorld (Binding.latest given) j) (tickWorld (Binding.latest given) k) =
      Binding.numberAt given k := by
  funext tag
  have handle : mode.handle? (tickWorld (Binding.latest given) j)
      (tickWorld (Binding.latest given) k) tag =
        (Binding.last? given tag).map fun _ => tag := by
    cases mode <;> rw [ReferenceMode.handle?, handle?_tickWorld, Binding.find?_latest]
  unfold ReferenceMode.leaf Binding.numberAt
  rw [handle]
  cases found : Binding.last? given tag with
  | none => rfl
  | some binding =>
    simp only [Option.map_some, value_tickWorld, Binding.find?_latest, found, Option.elim_some]

end Ticks

theorem register_concat (values : List (Int × Number)) (tag : Int) (x : Float) :
    register (values ++ [(tag, .float x)]) = (do
      let registry ← register values
      (registry.add tag x).mapError Failure.registry) := by
  simp only [register, List.foldlM_append, List.foldlM_cons, List.foldlM_nil, bind_pure]
  rfl

/-- Values whose tags differ are registered as they are. -/
theorem register_of_nodup {entries : List (Int × Float)}
    (nodup : (entries.map Prod.fst).Nodup) :
    register (entries.map fun entry => (entry.1, .float entry.2)) = .ok ⟨entries⟩ := by
  induction entries using List.reverseRecOn with
  | nil => rfl
  | append_singleton earlier entry ih =>
    rw [List.map_append, List.nodup_append] at nodup
    obtain ⟨before, _, apart⟩ := nodup
    have fresh : (⟨earlier⟩ : Registry Float).contains entry.1 = false := by
      refine Bool.eq_false_iff.mpr fun taken => ?_
      have member := (Registry.contains_iff _ _).mp taken
      exact apart entry.1 member entry.1 (List.mem_singleton_self _) rfl
    rw [List.map_append, List.map_singleton, register_concat, ih before]
    change (Registry.add ⟨earlier⟩ entry.1 entry.2).mapError Failure.registry = _
    rw [Registry.add, fresh]
    rfl

/-- However often a tag was bound, it is registered once. -/
theorem register_latest (given : List Binding) :
    ∃ registry, Binding.register (Binding.latest given) = .ok registry ∧
      registry.tags = (Binding.latest given).map Binding.tag := by
  let entries := (Binding.latest given).map fun binding => (binding.tag, binding.first)
  have tags : entries.map Prod.fst = (Binding.latest given).map Binding.tag := List.map_map
  have nodup : (entries.map Prod.fst).Nodup := by
    rw [tags]
    exact Binding.nodup_latest given
  refine ⟨⟨entries⟩, ?_, tags⟩
  rw [← register_of_nodup nodup, Binding.register, List.map_map]
  rfl

theorem Binding.tags_setAll (kept : List Binding) (k : Nat) (registry : Registry Float) :
    (Binding.setAll kept k registry).tags = registry.tags := by
  induction kept generalizing registry with
  | nil => rfl
  | cons binding rest ih => exact (ih _).trans (Registry.tags_set ..)

theorem Binding.get?_setAll {kept : List Binding} (nodup : (kept.map Binding.tag).Nodup) (k : Nat)
    (registry : Registry Float) (tag : Int) :
    (Binding.setAll kept k registry).get? tag =
      (registry.get? tag).map fun x =>
        (kept.find? fun binding => binding.tag == tag).elim x fun binding => binding.valueAt k := by
  induction kept generalizing registry with
  | nil => exact Option.map_id'.symm
  | cons binding rest ih =>
    rw [List.map_cons, List.nodup_cons] at nodup
    have later := ih nodup.2 (registry.set binding.tag (binding.valueAt k))
    rw [Registry.get?_set] at later
    refine later.trans ?_
    by_cases same : tag = binding.tag
    · subst same
      have once : (rest.find? fun other => other.tag == binding.tag) = none := by
        refine List.find?_eq_none.mpr fun other member equal => nodup.1 ?_
        exact eq_of_beq equal ▸ List.mem_map_of_mem member
      have here : ((binding :: rest).find? fun other => other.tag == binding.tag) =
          some binding := by
        rw [List.find?_cons, beq_self_eq_true]
      rw [if_pos rfl, Option.map_map, once, here]
      rfl
    · have apart : (binding.tag == tag) = false :=
        beq_eq_false_iff_ne.mpr fun equal => same equal.symm
      have there : ((binding :: rest).find? fun other => other.tag == tag) =
          rest.find? fun other => other.tag == tag := by
        rw [List.find?_cons, apart]
      rw [if_neg same, there]

theorem lookup_map_entries {α β : Type} (f : α → β) (entries : List (Int × α)) (tag : Int) :
    (entries.map fun entry => (entry.1, f entry.2)).lookup tag = (entries.lookup tag).map f := by
  induction entries with
  | nil => rfl
  | cons entry rest ih =>
    rw [List.map_cons, List.lookup_cons, List.lookup_cons, ih]
    cases tag == entry.1 <;> rfl

/-- Whatever the registered nodes hold from earlier ticks, once they are set the outside is that of
the present tick. -/
theorem ofRegistry_setAll {kept : List Binding} {registry : Registry Float}
    (nodup : (kept.map Binding.tag).Nodup) (tags : registry.tags = kept.map Binding.tag)
    (k : Nat) : World.ofRegistry (Binding.setAll kept k registry) = tickWorld kept k := by
  refine World.ofTable_congr fun tag => ?_
  have present := registry.contains_iff tag
  rw [tags, Registry.contains] at present
  have value := Binding.get?_setAll nodup k registry tag
  rw [Registry.get?] at value
  rw [lookup_map_entries fun x => some (Number.float x), value, lookup_tickTable, Option.map_map]
  cases bound : kept.find? fun binding => binding.tag == tag with
  | none =>
    have absent : tag ∉ kept.map Binding.tag := by
      intro member
      obtain ⟨binding, inside, same⟩ := List.mem_map.mp member
      exact List.find?_eq_none.mp bound binding inside (beq_iff_eq.mpr same)
    have unused := Option.not_isSome_iff_eq_none.mp fun used => absent (present.mp used)
    rw [unused]
    rfl
  | some binding =>
    have same : (binding.tag == tag) = true := by
      simpa using List.find?_some bound
    have member : tag ∈ kept.map Binding.tag :=
      List.mem_map.mpr ⟨binding, List.mem_of_find?_eq_some bound, eq_of_beq same⟩
    obtain ⟨x, used⟩ := Option.isSome_iff_exists.mp (present.mpr member)
    rw [used]
    rfl

end TickGraph
