namespace TickGraph

structure Registry (α : Type) where
  entries : List (Int × α)
deriving Inhabited, Repr

inductive RegistryError where
  | taken (tag : Int)
  | unknown (tag : Int)
deriving DecidableEq, Inhabited, Repr

def RegistryError.message : RegistryError → String
  | .taken tag => "Node " ++ toString tag ++ " is already registered"
  | .unknown tag => "Node " ++ toString tag ++ " does not exist"

namespace Registry

variable {α : Type}

def empty : Registry α :=
  ⟨[]⟩

def get? (registry : Registry α) (tag : Int) : Option α :=
  registry.entries.lookup tag

def contains (registry : Registry α) (tag : Int) : Bool :=
  (registry.get? tag).isSome

def tags (registry : Registry α) : List Int :=
  registry.entries.map Prod.fst

/-- Adds at the end. A tag that is in use is refused. -/
def add (registry : Registry α) (tag : Int) (x : α) : Except RegistryError (Registry α) :=
  if registry.contains tag then .error (.taken tag) else .ok ⟨registry.entries ++ [(tag, x)]⟩

/-- Takes an entry out, and gives what stood there. -/
def remove (registry : Registry α) (tag : Int) : Except RegistryError (α × Registry α) :=
  match registry.get? tag with
  | none => .error (.unknown tag)
  | some x => .ok (x, ⟨registry.entries.filter fun entry => entry.1 != tag⟩)

/-- Replaces what stands under a tag. A tag that is not in use stays so. -/
def set (registry : Registry α) (tag : Int) (x : α) : Registry α :=
  ⟨registry.entries.map fun entry => if entry.1 = tag then (tag, x) else entry⟩

@[simp] theorem tags_set (registry : Registry α) (tag : Int) (x : α) :
    (registry.set tag x).tags = registry.tags := by
  simp only [tags, set, List.map_map]
  refine List.map_congr_left fun entry _ => ?_
  by_cases same : entry.1 = tag <;> simp [same]

theorem contains_iff (registry : Registry α) (tag : Int) :
    registry.contains tag = true ↔ tag ∈ registry.tags := by
  obtain ⟨entries⟩ := registry
  simp only [contains, get?, tags]
  induction entries with
  | nil => simp
  | cons entry rest ih =>
    obtain ⟨other, x⟩ := entry
    by_cases same : tag = other
    · simp [same]
    · simp [List.lookup_cons, beq_eq_false_iff_ne.mpr same, ih, same]

/-- A new tag stands last. -/
theorem tags_add {registry next : Registry α} {tag : Int} {x : α}
    (added : registry.add tag x = .ok next) : next.tags = registry.tags ++ [tag] := by
  unfold add at added
  split at added
  · cases added
  · cases added
    simp [tags]

/-- The tags that stay keep their order. -/
theorem tags_remove {registry next : Registry α} {tag : Int} {x : α}
    (removed : registry.remove tag = .ok (x, next)) :
    next.tags = registry.tags.filter (· != tag) := by
  unfold remove at removed
  split at removed
  · cases removed
  · cases removed
    simp only [tags, List.filter_map]
    rfl

/-- The new tag has its entry, and every other tag keeps what it has. -/
theorem get?_add {registry next : Registry α} {tag : Int} {x : α}
    (added : registry.add tag x = .ok next) (other : Int) :
    next.get? other = if other = tag then some x else registry.get? other := by
  unfold add at added
  split at added
  · cases added
  · rename_i free
    cases added
    unfold contains at free
    unfold get? at free ⊢
    rw [List.lookup_append]
    split
    · rename_i same
      rw [same, Option.not_isSome_iff_eq_none.mp free]
      simp
    · rename_i different
      rw [List.lookup_cons, beq_eq_false_iff_ne.mpr different]
      cases registry.entries.lookup other <;> rfl

/-- A tag that is in use has the new entry, and every other tag keeps what it has. -/
theorem get?_set (registry : Registry α) (tag : Int) (x : α) (other : Int) :
    (registry.set tag x).get? other =
      if other = tag then (registry.get? other).map fun _ => x else registry.get? other := by
  obtain ⟨entries⟩ := registry
  simp only [get?, set]
  induction entries with
  | nil => simp
  | cons entry rest ih =>
    obtain ⟨here, y⟩ := entry
    rw [List.map_cons, List.lookup_cons, List.lookup_cons]
    by_cases found : other = here
    · by_cases same : here = tag <;> simp [found, same]
    · by_cases same : here = tag
      · have apart : (other == tag) = false := beq_eq_false_iff_ne.mpr (same ▸ found)
        simp only [same, apart, if_true, ih]
      · simp only [same, beq_eq_false_iff_ne.mpr found, if_false, ih]

/-- The tag has no entry any more, and every other tag keeps what it has. -/
theorem get?_remove {registry next : Registry α} {tag : Int} {x : α}
    (removed : registry.remove tag = .ok (x, next)) (other : Int) :
    next.get? other = if other = tag then none else registry.get? other := by
  unfold remove at removed
  split at removed
  · cases removed
  · cases removed
    unfold get?
    dsimp only
    induction registry.entries with
    | nil => simp
    | cons entry rest ih =>
      obtain ⟨here, y⟩ := entry
      by_cases gone : here = tag
      · rw [List.filter_cons_of_neg (by simp [gone]), ih, List.lookup_cons]
        split
        · rfl
        · rename_i different
          rw [gone, beq_eq_false_iff_ne.mpr different]
      · rw [List.filter_cons_of_pos (by simp [gone]), List.lookup_cons, ih, List.lookup_cons]
        by_cases found : other = here
        · simp [found, gone]
        · simp [beq_eq_false_iff_ne.mpr found]

end Registry

end TickGraph
