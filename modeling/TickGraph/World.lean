import TickGraph.Number

namespace TickGraph

/-- What stands under a tag: nothing, a node that produces no value, or a handle to one that
does. -/
inductive Entry (H : Type) where
  | missing
  | valueless
  | handle (h : H)
deriving Inhabited

/-- The outside at one moment. Expressions may have no lookup at all; a handle stays readable when
its tag is gone, and its value may be absent. -/
structure World (H : Type) where
  lookup : Option (Int → Entry H)
  read : H → Option Number

/-- A table of values by tag. The tag itself is the handle, so a handle that was found earlier reads
the table that is in force now. -/
def World.ofTable (table : List (Int × Option Number)) : World Int where
  lookup := some fun tag => if (table.lookup tag).isSome then .handle tag else .missing
  read tag := (table.lookup tag).join

/-- A table written entry by entry: a later entry of a tag replaces the earlier ones. -/
def World.ofEntries (entries : List (Int × Option Number)) : World Int :=
  World.ofTable entries.reverse

/-- What is written last under a tag is what the tag reads. -/
theorem World.read_ofEntries_concat (entries : List (Int × Option Number)) (tag : Int)
    (value : Option Number) : (World.ofEntries (entries ++ [(tag, value)])).read tag = value := by
  simp [World.ofEntries, World.ofTable]

end TickGraph
