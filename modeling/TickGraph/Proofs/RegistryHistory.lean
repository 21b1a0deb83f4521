import Mathlib.Data.Set.Card
import TickGraph.Proofs.StepFrame

namespace TickGraph

namespace Registry

variable {α : Type} {registry next : Registry α} {tag : Int} {x : α}

theorem add_eq_ok_iff : registry.add tag x = .ok next ↔
    registry.contains tag = false ∧ next = ⟨registry.entries ++ [(tag, x)]⟩ := by
  unfold add
  cases registry.contains tag <;> simp [eq_comm]

theorem remove_eq_ok_iff : registry.remove tag = .ok (x, next) ↔
    registry.get? tag = some x ∧
      next = ⟨registry.entries.filter fun entry => entry.1 != tag⟩ := by
  unfold remove
  cases registry.get? tag <;> simp [eq_comm]

/-- What stands under a tag that stands once. -/
theorem get?_eq_some_iff_mem (nodup : registry.tags.Nodup) :
    registry.get? tag = some x ↔ (tag, x) ∈ registry.entries := by
  unfold get?
  rw [List.lookup_eq_some_iff]
  constructor
  · rintro ⟨front, back, split, _⟩
    rw [split]
    exact List.mem_append_right _ (List.mem_cons_self ..)
  · intro member
    obtain ⟨front, back, split⟩ := List.append_of_mem member
    refine ⟨front, back, split, ?_⟩
    intro entry earlier
    rw [tags, split, List.map_append, List.nodup_append] at nodup
    have different := nodup.2.2 entry.1 (List.mem_map_of_mem earlier) tag (List.mem_cons_self ..)
    exact bne_iff_ne.mpr (Ne.symm different)

end Registry

namespace Moment

variable (moment : Moment)

/-- The moment adds this node under the tag, and that succeeds. -/
def Adds (tag : Int) (id : NodeId) : Prop :=
  ∃ name node answer, moment.action = .add tag name ∧
    moment.session.find? name = some (id, node) ∧ moment.reply.outcome = .ok answer

/-- The moment removes the tag, and that succeeds. -/
def Removes (tag : Int) : Prop :=
  moment.action = .remove tag ∧ ∃ answer, moment.reply.outcome = .ok answer

end Moment

/-- When this many moments had passed the node was added under the tag, which was not removed
since. -/
def AddedAt (history : List Moment) (tag : Int) (id : NodeId) (time : Nat) : Prop :=
  ∃ later moment earlier, history = later ++ moment :: earlier ∧ earlier.length = time ∧
    moment.Adds tag id ∧ ∀ other ∈ later, ¬ other.Removes tag

theorem not_addedAt_nil (tag : Int) (id : NodeId) (time : Nat) : ¬ AddedAt [] tag id time := by
  rintro ⟨later, moment, earlier, split, _⟩
  cases later <;> cases split

/-- An add counts as long as no removal follows. -/
theorem addedAt_cons {history : List Moment} {moment : Moment} {tag : Int} {id : NodeId}
    {time : Nat} :
    AddedAt (moment :: history) tag id time ↔
      moment.Adds tag id ∧ history.length = time ∨
        AddedAt history tag id time ∧ ¬ moment.Removes tag := by
  constructor
  · rintro ⟨later, found, earlier, split, passed, adds, kept⟩
    cases later with
    | nil =>
      cases split
      exact Or.inl ⟨adds, passed⟩
    | cons first rest =>
      cases split
      refine Or.inr ⟨⟨rest, found, earlier, rfl, passed, adds, ?_⟩,
        kept moment (List.mem_cons_self ..)⟩
      exact fun other member => kept other (List.mem_cons_of_mem _ member)
  · rintro (⟨adds, passed⟩ | ⟨⟨later, found, earlier, split, passed, adds, kept⟩, stays⟩)
    · exact ⟨[], moment, history, rfl, passed, adds, List.forall_mem_nil _⟩
    · refine ⟨moment :: later, found, earlier, by rw [split]; rfl, passed, adds, ?_⟩
      intro other member
      rcases List.mem_cons.mp member with same | inside
      · rw [same]
        exact stays
      · exact kept other inside

theorem AddedAt.lt_length {history : List Moment} {tag : Int} {id : NodeId} {time : Nat}
    (added : AddedAt history tag id time) : time < history.length := by
  obtain ⟨later, moment, earlier, split, passed, _⟩ := added
  rw [split, List.length_append, List.length_cons]
  omega

/-- What a moment does to the registry: it adds an entry at the end, under a tag that was free, or it
takes out the entry of a tag, or it leaves the registry as it is. -/
inductive Moment.RegistryChange (moment : Moment) : Prop
  | added (tag : Int) (id : NodeId) (free : moment.session.registry.contains tag = false)
      (adds : ∀ other target, moment.Adds other target ↔ other = tag ∧ target = id)
      (keeps : ∀ other, ¬ moment.Removes other)
      (entries : moment.reply.session.registry.entries =
        moment.session.registry.entries ++ [(tag, id)])
  | removed (tag : Int) (adds : ∀ other target, ¬ moment.Adds other target)
      (removes : ∀ other, moment.Removes other ↔ other = tag)
      (entries : moment.reply.session.registry.entries =
        moment.session.registry.entries.filter fun entry => entry.1 != tag)
  | kept (adds : ∀ other target, ¬ moment.Adds other target)
      (keeps : ∀ other, ¬ moment.Removes other)
      (same : moment.reply.session.registry = moment.session.registry)

/-- What a history says about the registry. Every tag stands once; the entries are the adds that no
removal followed, in the order in which they were made. -/
structure Registry.RecordedBy (history : List Moment) (registry : Registry NodeId) : Prop where
  nodup : registry.tags.Nodup
  mem_entries : ∀ tag id, (tag, id) ∈ registry.entries ↔ ∃ time, AddedAt history tag id time
  order : registry.entries.Pairwise fun first second =>
    ∀ i j, AddedAt history first.1 first.2 i → AddedAt history second.1 second.2 j → i < j
  once : ∀ tag id other i j, AddedAt history tag id i → AddedAt history tag other j → i = j

theorem Registry.recordedBy_empty : Registry.empty.RecordedBy [] := by
  refine ⟨.nil, ?_, .nil, ?_⟩
  · intro tag id
    constructor
    · intro member
      cases member
    · rintro ⟨time, added⟩
      exact absurd added (not_addedAt_nil tag id time)
  · intro tag id other i j added
    exact absurd added (not_addedAt_nil tag id i)

section Next

variable {history : List Moment} {moment : Moment}
  (recorded : moment.session.registry.RecordedBy history)

include recorded

/-- An add that succeeds is the latest of all that stand. -/
theorem Registry.RecordedBy.added {tag : Int} {id : NodeId}
    (free : moment.session.registry.contains tag = false)
    (adds : ∀ other target, moment.Adds other target ↔ other = tag ∧ target = id)
    (keeps : ∀ other, ¬ moment.Removes other)
    (entries : moment.reply.session.registry.entries =
      moment.session.registry.entries ++ [(tag, id)]) :
    moment.reply.session.registry.RecordedBy (moment :: history) := by
  have absent : tag ∉ moment.session.registry.tags := by
    rw [← Registry.contains_iff, free]
    exact Bool.false_ne_true
  have fresh : ∀ target, (tag, target) ∉ moment.session.registry.entries := fun target member =>
    absent (List.mem_map.mpr ⟨_, member, rfl⟩)
  have unadded : ∀ target time, ¬ AddedAt history tag target time := fun target time added =>
    fresh target ((recorded.mem_entries tag target).mpr ⟨time, added⟩)
  have history_iff : ∀ other target time, AddedAt (moment :: history) other target time ↔
      (other = tag ∧ target = id) ∧ history.length = time ∨ AddedAt history other target time := by
    intro other target time
    rw [addedAt_cons, adds, and_iff_left (keeps other)]
  refine ⟨?_, ?_, ?_, ?_⟩
  · rw [Registry.tags, entries, List.map_append, List.nodup_append]
    refine ⟨recorded.nodup, List.nodup_singleton _, ?_⟩
    intro other member last single same
    have found : last = tag := List.mem_singleton.mp single
    rw [same, found] at member
    exact absent member
  · intro other target
    simp only [entries, List.mem_append, List.mem_singleton, recorded.mem_entries, history_iff,
      Prod.mk.injEq]
    constructor
    · rintro (⟨time, added⟩ | same)
      · exact ⟨time, Or.inr added⟩
      · exact ⟨history.length, Or.inl ⟨same, rfl⟩⟩
    · rintro ⟨time, ⟨same, _⟩ | added⟩
      · exact Or.inr same
      · exact Or.inl ⟨time, added⟩
  · -- The new entry has the present time, and all others have earlier ones.
    have before : ∀ entry ∈ moment.session.registry.entries, ∀ time,
        AddedAt (moment :: history) entry.1 entry.2 time → AddedAt history entry.1 entry.2 time := by
      intro entry member time added
      rcases (history_iff _ _ _).mp added with ⟨⟨same, _⟩, _⟩ | old
      · exact absurd (same ▸ member) (fresh entry.2)
      · exact old
    rw [entries, List.pairwise_append]
    refine ⟨?_, List.pairwise_singleton _ _, ?_⟩
    · refine recorded.order.imp_of_mem ?_
      intro first second memberFirst memberSecond ordered i j addedFirst addedSecond
      exact ordered i j (before _ memberFirst i addedFirst) (before _ memberSecond j addedSecond)
    · intro first member last single i j addedFirst addedLast
      have earlier := (before _ member i addedFirst).lt_length
      rw [List.mem_singleton.mp single] at addedLast
      rcases (history_iff _ _ _).mp addedLast with ⟨_, now⟩ | old
      · omega
      · exact absurd old (unadded id j)
  · intro other target target' i j first second
    rcases (history_iff _ _ _).mp first with ⟨⟨rfl, _⟩, now⟩ | old
    · rcases (history_iff _ _ _).mp second with ⟨_, also⟩ | earlier
      · exact now.symm.trans also
      · exact absurd earlier (unadded target' j)
    · rcases (history_iff _ _ _).mp second with ⟨⟨rfl, _⟩, _⟩ | earlier
      · exact absurd old (unadded target i)
      · exact recorded.once other target target' i j old earlier

/-- A removal takes out what stood under its tag and leaves the order of the others. -/
theorem Registry.RecordedBy.removed {tag : Int} (adds : ∀ other target, ¬ moment.Adds other target)
    (removes : ∀ other, moment.Removes other ↔ other = tag)
    (entries : moment.reply.session.registry.entries =
      moment.session.registry.entries.filter fun entry => entry.1 != tag) :
    moment.reply.session.registry.RecordedBy (moment :: history) := by
  have history_iff : ∀ other target time, AddedAt (moment :: history) other target time ↔
      AddedAt history other target time ∧ other ≠ tag := by
    intro other target time
    rw [addedAt_cons, removes, or_iff_right fun now => adds other target now.1]
  have kept : moment.reply.session.registry.entries.Sublist moment.session.registry.entries := by
    rw [entries]
    exact List.filter_sublist
  refine ⟨recorded.nodup.sublist (kept.map Prod.fst), ?_, ?_, ?_⟩
  · intro other target
    simp only [entries, List.mem_filter, recorded.mem_entries, history_iff, exists_and_right,
      bne_iff_ne]
  · refine (recorded.order.sublist kept).imp ?_
    intro first second ordered i j addedFirst addedSecond
    exact ordered i j ((history_iff _ _ _).mp addedFirst).1 ((history_iff _ _ _).mp addedSecond).1
  · intro other target target' i j first second
    exact recorded.once other target target' i j ((history_iff _ _ _).mp first).1
      ((history_iff _ _ _).mp second).1

theorem Registry.RecordedBy.kept (adds : ∀ other target, ¬ moment.Adds other target)
    (keeps : ∀ other, ¬ moment.Removes other)
    (same : moment.reply.session.registry = moment.session.registry) :
    moment.reply.session.registry.RecordedBy (moment :: history) := by
  have history_iff : ∀ other target time, AddedAt (moment :: history) other target time ↔
      AddedAt history other target time := by
    intro other target time
    rw [addedAt_cons, or_iff_right fun now => adds other target now.1, and_iff_left (keeps other)]
  rw [same]
  refine ⟨recorded.nodup, ?_, ?_, ?_⟩
  · intro other target
    simp only [recorded.mem_entries, history_iff]
  · refine recorded.order.imp ?_
    intro first second ordered i j addedFirst addedSecond
    exact ordered i j ((history_iff _ _ _).mp addedFirst) ((history_iff _ _ _).mp addedSecond)
  · intro other target target' i j first second
    exact recorded.once other target target' i j ((history_iff _ _ _).mp first)
      ((history_iff _ _ _).mp second)

end Next

theorem Session.registryChange_add {session : Session} {tag : Int} {name : String} {answer : Answer}
    (succeeded : (session.step (.add tag name)).outcome = .ok answer) :
    (Moment.mk session (.add tag name)).RegistryChange := by
  cases found : session.find? name with
  | none =>
    simp only [Session.step, found] at succeeded
    cases succeeded
  | some entry =>
    obtain ⟨id, node⟩ := entry
    cases added : session.registry.add tag id with
    | error error =>
      simp only [Session.step, found, added] at succeeded
      cases succeeded
    | ok registry =>
      obtain ⟨free, entries⟩ := Registry.add_eq_ok_iff.mp added
      refine .added tag id free ?_ ?_ ?_
      · intro other target
        constructor
        · rintro ⟨otherName, held, _, asked, named, _⟩
          cases asked
          cases found.symm.trans named
          exact ⟨rfl, rfl⟩
        · rintro ⟨rfl, rfl⟩
          exact ⟨name, node, answer, rfl, found, succeeded⟩
      · rintro other ⟨asked, _⟩
        cases asked
      · simp only [Moment.reply, Session.step, found, added, entries, Session.answer]

theorem Session.registryChange_remove {session : Session} {tag : Int} {answer : Answer}
    (succeeded : (session.step (.remove tag)).outcome = .ok answer) :
    (Moment.mk session (.remove tag)).RegistryChange := by
  cases removed : session.registry.remove tag with
  | error error =>
    simp only [Session.step, removed] at succeeded
    cases succeeded
  | ok taken =>
    obtain ⟨id, registry⟩ := taken
    obtain ⟨_, entries⟩ := Registry.remove_eq_ok_iff.mp removed
    refine .removed tag ?_ ?_ ?_
    · rintro other target ⟨name, node, _, asked, _⟩
      cases asked
    · intro other
      constructor
      · rintro ⟨asked, _⟩
        cases asked
        rfl
      · rintro rfl
        exact ⟨rfl, answer, succeeded⟩
    · simp only [Moment.reply, Session.step, removed, entries, Session.answer]

section Reach

variable {history : List Moment} {session : Session} (reach : SessionReach history session)

include reach

theorem SessionReach.registry_of_still {action : Action} (still : action.rebinds = false) :
    (session.step action).session.registry = session.registry := by
  cases outcome : (session.step action).outcome with
  | error failure => rw [reach.session_of_error outcome]
  | ok answer =>
    have effect := reach.effect outcome
    cases action with
    | newValue name value =>
      obtain ⟨x, _, more⟩ := effect
      exact more.registry
    | newValueless name => exact effect.registry
    | newExpression name graph config linked readAtOnce =>
      obtain ⟨source, _, more⟩ := effect
      exact more.registry
    | newConfigured name payload config linked =>
      obtain ⟨graph, _, more⟩ := effect
      exact more.registry
    | add tag name => cases still
    | remove tag => cases still
    | set name value =>
      obtain ⟨id, old, x, _, _, same, _⟩ := effect
      exact same.registry
    | compile name =>
      obtain ⟨id, linked, node, expression, _, same, _⟩ := effect
      exact same.registry
    | update name =>
      obtain ⟨id, linked, node, expression, x, _, same, _⟩ := effect
      exact same.registry
    | evaluate name =>
      obtain ⟨id, linked, node, expression, x, _, same, _⟩ := effect
      exact same.registry
    | _ => exact congrArg Session.registry effect

/-- A step that fails, and one that neither adds nor removes, leaves the registry as it is. -/
theorem SessionReach.registryChange_kept {action : Action}
    (idle : action.rebinds = false ∨ ∃ failure, (session.step action).outcome = .error failure) :
    (Moment.mk session action).RegistryChange := by
  rcases idle with still | ⟨failure, failed⟩
  · refine .kept ?_ ?_ (reach.registry_of_still still)
    · rintro other target ⟨name, node, answer, asked, _⟩
      cases asked
      cases still
    · rintro other ⟨asked, _⟩
      cases asked
      cases still
  · refine .kept ?_ ?_ (by rw [Moment.reply, reach.session_of_error failed])
    · rintro other target ⟨name, node, answer, _, _, succeeded⟩
      cases failed.symm.trans succeeded
    · rintro other ⟨_, answer, succeeded⟩
      cases failed.symm.trans succeeded

theorem SessionReach.registryChange (action : Action) :
    (Moment.mk session action).RegistryChange := by
  cases outcome : (session.step action).outcome with
  | error failure => exact reach.registryChange_kept (Or.inr ⟨failure, outcome⟩)
  | ok answer =>
    cases action with
    | add tag name => exact Session.registryChange_add outcome
    | remove tag => exact Session.registryChange_remove outcome
    | _ => exact reach.registryChange_kept (Or.inl rfl)

/-- In every run the registry is as the history says. -/
theorem SessionReach.registry_recorded : session.registry.RecordedBy history := by
  induction reach with
  | start => exact Registry.recordedBy_empty
  | @next history before action previous ih =>
    cases previous.registryChange action with
    | added tag id free adds keeps entries => exact ih.added free adds keeps entries
    | removed tag adds removes entries => exact ih.removed adds removes entries
    | kept adds keeps same => exact ih.kept adds keeps same

end Reach

namespace Session

/-- The answers of a session about a tag under which a node stands. -/
structure Registered (session : Session) (tag : Int) (id : NodeId) (node : SessionNode) : Prop where
  contains : session.step (.contains tag) = session.answer (.truth true)
  get : session.step (.get tag) = session.answer (.found (some (id, node)))
  lookup : (session.step (.lookup tag)).session = session ∧
    (session.step (.lookup tag)).outcome =
      .ok (.found (if node.produces then some (id, node) else none))
  resolve : (session.step (.resolve tag true)).session = session ∧
    (session.step (.resolve tag true)).outcome =
      .ok (.number (if node.produces then node.current else none))
  add : ∀ name found, session.find? name = some found →
    session.step (.add tag name) = session.fail (.registry (.taken tag))
  remove : session.SameNodes (session.step (.remove tag)).session ∧
    (session.step (.remove tag)).outcome = .ok (.found (some (id, node)))

/-- The answers of a session about a tag under which nothing stands. -/
structure Unregistered (session : Session) (tag : Int) : Prop where
  contains : session.step (.contains tag) = session.answer (.truth false)
  get : session.step (.get tag) = session.answer (.found none)
  lookup : (session.step (.lookup tag)).session = session ∧
    (session.step (.lookup tag)).outcome = .ok (.found none)
  resolve : (session.step (.resolve tag true)).session = session ∧
    (session.step (.resolve tag true)).outcome = .ok (.number none)
  add : ∀ name id node, session.find? name = some (id, node) →
    session.SameNodes (session.step (.add tag name)).session ∧
      (session.step (.add tag name)).outcome = .ok (.found (some (id, node)))
  remove : session.step (.remove tag) = session.fail (.registry (.unknown tag))

variable {session : Session} {tag : Int}

theorem outcome_find (session : Session) (tag : Int) :
    ((session.world true).find tag : Traced OutOfRange (Option NodeId)).outcome =
      .ok (session.producer? tag) := by
  rw [World.find_eq, ← handle?_world]

theorem outcome_lookup (session : Session) (tag : Int) :
    (session.step (.lookup tag)).outcome =
      .ok (.found ((session.producer? tag).bind session.nodeAt)) := by
  simp only [step, observe, outcome_find]
  rfl

theorem outcome_resolve (session : Session) (tag : Int) :
    (session.step (.resolve tag true)).outcome =
      .ok (.number ((session.producer? tag).bind fun id =>
        session.nodes[id]?.bind SessionNode.current)) := by
  simp only [step, observe, outcome_find]
  rfl

theorem registered_of_get? {id : NodeId} {node : SessionNode}
    (entry : session.registry.get? tag = some id) (present : session.nodes[id]? = some node) :
    session.Registered tag id node := by
  have taken : session.registry.contains tag = true := by rw [Registry.contains, entry]; rfl
  have producer : session.producer? tag = if node.produces then some id else none := by
    rw [producer?_eq_filter, entry, Option.filter_some, present]
    rfl
  have found : session.nodeAt id = some (id, node) := by rw [nodeAt, present]; rfl
  refine ⟨?_, ?_, ⟨rfl, ?_⟩, ⟨rfl, ?_⟩, ?_, ⟨session.sameNodes_of_rebinds rfl, ?_⟩⟩
  · simp only [step, taken]
  · simp only [step, entry, Option.bind_some, found]
  · rw [outcome_lookup, producer]
    cases node.produces
    · rfl
    · simp only [if_true, Option.bind_some, found]
  · rw [outcome_resolve, producer]
    cases node.produces
    · rfl
    · simp only [if_true, Option.bind_some, present]
  · intro name other named
    simp only [step, named, Registry.add, taken, if_true]
  · simp only [step, Registry.remove, entry, found, answer]

theorem unregistered_of_get? (entry : session.registry.get? tag = none) :
    session.Unregistered tag := by
  have free : session.registry.contains tag = false := by rw [Registry.contains, entry]; rfl
  have producer : session.producer? tag = none := by rw [producer?_eq_filter, entry]; rfl
  refine ⟨?_, ?_, ⟨rfl, ?_⟩, ⟨rfl, ?_⟩, ?_, ?_⟩
  · simp only [step, free]
  · simp only [step, entry, Option.bind_none]
  · rw [outcome_lookup, producer]
    rfl
  · rw [outcome_resolve, producer]
    rfl
  · intro name id node named
    refine ⟨session.sameNodes_of_rebinds rfl, ?_⟩
    simp only [step, named, Registry.add, free, Bool.false_eq_true, if_false, answer]
  · simp only [step, Registry.remove, entry]

end Session

/-- The registry of a run is the map that its history tells of, in the order of insertion. The tags
that stand are those that were added and not removed since, each once and in the order of these adds;
so a tag that was removed and added again stands at the end. Under such a tag there is the node that
was added, and it can be looked up and resolved exactly if it produces a value. Adding fails exactly
for these tags, removing exactly for all others, and both change nothing then. -/
theorem SessionReach.registry_refines {history : List Moment} {session : Session}
    (reach : SessionReach history session) :
    session.step .tags = session.answer (.tags session.registry.tags) ∧
    session.registry.tags.Nodup ∧
    (∀ tag, tag ∈ session.registry.tags ↔ ∃ id time, AddedAt history tag id time) ∧
    session.registry.tags.length = {tag | ∃ id time, AddedAt history tag id time}.ncard ∧
    (session.registry.tags.Pairwise fun first second =>
      ∀ id other i j, AddedAt history first id i → AddedAt history second other j → i < j) ∧
    (∀ tag id time, AddedAt history tag id time →
      (∀ other also, AddedAt history tag other also → other = id ∧ also = time) ∧
      ∃ node, session.nodes[id]? = some node ∧ session.Registered tag id node) ∧
    ∀ tag, (∀ id time, ¬ AddedAt history tag id time) → session.Unregistered tag := by
  have recorded := reach.registry_recorded
  have stands : ∀ tag id,
      session.registry.get? tag = some id ↔ ∃ time, AddedAt history tag id time := by
    intro tag id
    rw [Registry.get?_eq_some_iff_mem recorded.nodup, recorded.mem_entries]
  have members : ∀ tag, tag ∈ session.registry.tags ↔ ∃ id time, AddedAt history tag id time := by
    intro tag
    rw [← Registry.contains_iff, Registry.contains, Option.isSome_iff_exists]
    simp only [stands]
  have unique : ∀ tag id other i j, AddedAt history tag id i → AddedAt history tag other j →
      other = id ∧ j = i := by
    intro tag id other i j first second
    have one := (stands tag id).mpr ⟨i, first⟩
    have two := (stands tag other).mpr ⟨j, second⟩
    exact ⟨Option.some.inj (two.symm.trans one), (recorded.once tag id other i j first second).symm⟩
  refine ⟨rfl, recorded.nodup, members, ?_, ?_, ?_, ?_⟩
  · have tags : {tag | ∃ id time, AddedAt history tag id time} = ↑session.registry.tags.toFinset := by
      ext tag
      simp only [Set.mem_ofPred_eq, List.coe_toFinset, members]
    rw [tags, Set.ncard_coe_finset, List.toFinset_card_of_nodup recorded.nodup]
  · rw [Registry.tags, List.pairwise_map]
    refine recorded.order.imp_of_mem ?_
    rintro ⟨first, held⟩ ⟨second, kept⟩ memberFirst memberSecond ordered id other i j added later
    obtain ⟨time, here⟩ := (recorded.mem_entries first held).mp memberFirst
    obtain ⟨moment, there⟩ := (recorded.mem_entries second kept).mp memberSecond
    obtain ⟨rfl, rfl⟩ := unique first id held i time added here
    obtain ⟨rfl, rfl⟩ := unique second other kept j moment later there
    exact ordered _ _ added later
  · intro tag id time added
    refine ⟨fun other also again => unique tag id other time also added again, ?_⟩
    have entry := (stands tag id).mpr ⟨time, added⟩
    have present := List.getElem?_eq_getElem (reach.registered_lt entry)
    exact ⟨_, present, Session.registered_of_get? entry present⟩
  · intro tag absent
    refine Session.unregistered_of_get? ?_
    cases entry : session.registry.get? tag with
    | none => rfl
    | some id =>
      obtain ⟨time, added⟩ := (stands tag id).mp entry
      exact absurd added (absent id time)

/-- Tag 1 was removed and then added again, for another node, which produces no value. -/
theorem SessionReach.registry_refines_added_again :
    let session : Session := ⟨[.value (some 1), .valueless], [("second", 1), ("first", 0)],
      ⟨[(2, 0), (1, 1)]⟩⟩
    ∃ history, SessionReach history session ∧ AddedAt history 1 1 6 ∧ AddedAt history 2 0 3 ∧
      session.registry.tags.length = {tag | ∃ id time, AddedAt history tag id time}.ncard ∧
      session.Registered 1 1 .valueless ∧ session.Registered 2 0 (.value (some 1)) ∧
      session.Unregistered 3 := by
  intro session
  obtain ⟨history, reach, second, first⟩ : ∃ history, SessionReach history session ∧
      AddedAt history 1 1 6 ∧ AddedAt history 2 0 3 := by
    refine ⟨_, SessionReach.start
      |>.next (.newValue "first" (some (.float 1)))
      |>.next (.newValueless "second")
      |>.next (.add 1 "first")
      |>.next (.add 2 "first")
      |>.next (.add 1 "second")
      |>.next (.remove 1)
      |>.next (.add 1 "second"), ?_, ?_⟩
    · exact ⟨[], _, _, rfl, rfl, ⟨"second", .valueless, _, rfl, rfl, rfl⟩, List.forall_mem_nil _⟩
    · refine ⟨[_, _, _], _, _, rfl, rfl, ⟨"first", .value (some 1), _, rfl, rfl, rfl⟩, ?_⟩
      simp [Moment.Removes]
  obtain ⟨_, _, members, count, _, entries, free⟩ := reach.registry_refines
  obtain ⟨_, node, present, registered⟩ := entries 1 1 6 second
  obtain ⟨_, other, held, also⟩ := entries 2 0 3 first
  cases present
  cases held
  refine ⟨history, reach, second, first, count, registered, also, free 3 ?_⟩
  intro id time added
  have member := (members 3).mpr ⟨id, time, added⟩
  revert member
  decide

end TickGraph
