import Mathlib.Data.Finset.Sort
import Mathlib.Order.Extension.Linear
import TickGraph.Proofs.Dependencies

namespace TickGraph

namespace Session

/-- One expression of a group depends on another one, or on itself. -/
def DependsWithin (session : Session) (group : Finset String) (name other : String) : Prop :=
  name ∈ group ∧ other ∈ group ∧ session.dependsOn name other = true

/-- An order of a group: every name once, and none before one that it depends on. -/
structure Order (session : Session) (group : Finset String) (order : List String) : Prop where
  nodup : order.Nodup
  mem_iff : ∀ name, name ∈ order ↔ name ∈ group
  ordered : order.Pairwise fun earlier later => session.dependsOn earlier later = false

/-- The name means a compiled expression whose value is what it gives when it is called now. -/
def Settled (session : Session) (name : String) : Prop :=
  ∃ id linked config expression x,
    session.find? name = some (id, .expression linked ⟨config, .compiled expression, x⟩) ∧
      (expression.call (session.world linked)).outcome = .ok x

variable {session now next : Session} {name other : String} {names : List String} {id : NodeId}
  {linked : Bool} {node : ExpressionNode NodeId} {expression : Compiled NodeId}

/-- Updates leave alone what they do not name, whether they succeed or fail. -/
theorem nodes_updates_ne (apart : ∀ name ∈ names, session.names.lookup name ≠ some id) :
    (session.updates names).nodes[id]? = session.nodes[id]? := by
  induction names generalizing session with
  | nil => rfl
  | cons name rest ih =>
    have later : ∀ other ∈ rest, (session.update name).names.lookup other ≠ some id := by
      intro other member
      rw [names_update]
      exact apart other (List.mem_cons_of_mem _ member)
    exact (ih later).trans (nodes_update_ne (apart name (List.mem_cons_self ..)))

/-- An update of what is settled changes nothing at all. -/
theorem Settled.update_eq (settled : session.Settled name) : session.update name = session := by
  obtain ⟨id, linked, config, expression, x, found, value⟩ := settled
  rw [Session.update_eq, found]
  dsimp only
  rw [ExpressionNode.evaluate_of_ok rfl value]
  exact store_self (nodes_of_find? found)

theorem updates_of_settled (settled : ∀ name ∈ names, session.Settled name) :
    session.updates names = session := by
  induction names with
  | nil => rfl
  | cons name rest ih =>
    rw [updates, List.foldl_cons, (settled name (List.mem_cons_self ..)).update_eq]
    exact ih fun other later => settled other (List.mem_cons_of_mem _ later)

theorem refreshed_updates (sound : session.Genuine) (refreshed : session.Refreshed now)
    (good : ∀ name ∈ names, session.Compiles name) : session.Refreshed (now.updates names) := by
  induction names generalizing now with
  | nil => exact refreshed
  | cons name rest ih =>
    have compiles := refreshed.compiles (good name (List.mem_cons_self ..))
    have updated := compiles.refreshed (refreshed.genuine sound)
    exact ih (refreshed.trans updated) fun other later => good other (List.mem_cons_of_mem _ later)

/-- What the node of a settled name is, in terms of an earlier session. -/
theorem Settled.stored (settled : now.Settled name) (refreshed : session.Refreshed now)
    (found : session.find? name = some (id, .expression linked node))
    (made : (node.compile (session.world linked)).outcome = .ok expression) :
    ∃ x, now.nodes[id]? = some (.expression linked ⟨node.config, .compiled expression, x⟩) ∧
      (expression.call (now.world linked)).outcome = .ok x := by
  obtain ⟨named, present⟩ := find?_eq_some_iff.mp found
  obtain ⟨target, _, config, taken, x, held, value⟩ := settled
  obtain ⟨naming, there⟩ := find?_eq_some_iff.mp held
  rw [refreshed.names, named] at naming
  cases naming
  obtain ⟨kept, again, sameConfig, compiles⟩ := refreshed.expression_kept present made
  cases there.symm.trans again
  cases Except.ok.inj compiles
  cases sameConfig
  exact ⟨x, there, value⟩

section Steps

variable (sound : session.Genuine) (refreshed : session.Refreshed now)
  (good : session.Compiles name)

include sound refreshed good

/-- An update does not change what an expression gives that does not depend on the updated one. -/
theorem call_update (found : session.find? other = some (id, .expression linked node))
    (made : (node.compile (session.world linked)).outcome = .ok expression)
    (apart : session.dependsOn other name = false) :
    (expression.call ((now.update name).world linked)).outcome =
      (expression.call (now.world linked)).outcome := by
  have updated := (refreshed.compiles good).refreshed (refreshed.genuine sound)
  have genuine := sound id linked node (find?_eq_some_iff.mp found).2
  refine call_congr genuine made refreshed (refreshed.trans updated) ?_
  intro target depends
  refine nodes_update_ne ?_
  intro named
  rw [refreshed.names] at named
  rw [dependsOn_of_mem found named depends] at apart
  cases apart

/-- An expression that does not depend on itself is settled by its own update. -/
theorem settled_update (alone : session.dependsOn name name = false) :
    (now.update name).Settled name := by
  have ⟨id, linked, node, expression, found, made⟩ := good
  obtain ⟨named, present⟩ := find?_eq_some_iff.mp found
  obtain ⟨kept, there, _, again⟩ := refreshed.expression_kept present made
  have naming : now.names.lookup name = some id := by rw [refreshed.names, named]
  have genuine := refreshed.genuine sound id linked kept there
  obtain ⟨x, value, _, stored⟩ :=
    update_of_compiles (find?_eq_some_iff.mpr ⟨naming, there⟩) genuine again
  have after : (now.update name).nodes[id]? =
      some (.expression linked ⟨kept.config, .compiled expression, x⟩) := by
    rw [stored]
    exact nodes_store_self there
  have still : (now.update name).names.lookup name = some id := by rw [names_update, naming]
  refine ⟨id, linked, kept.config, expression, x, find?_eq_some_iff.mpr ⟨still, after⟩, ?_⟩
  rw [call_update sound refreshed good found made alone, value]

/-- A settled expression stays settled when one is updated that it does not depend on. -/
theorem Settled.update (settled : now.Settled other) (compiles : session.Compiles other)
    (apart : session.dependsOn other name = false) : (now.update name).Settled other := by
  obtain ⟨id, linked, node, expression, found, made⟩ := compiles
  obtain ⟨named, present⟩ := find?_eq_some_iff.mp found
  obtain ⟨x, there, value⟩ := settled.stored refreshed found made
  have naming : now.names.lookup other = some id := by rw [refreshed.names, named]
  by_cases same : now.names.lookup name = some id
  · -- Both names mean this node, which is settled already.
    have alike : now.find? name = now.find? other := by
      rw [find?_eq_some_iff.mpr ⟨same, there⟩, find?_eq_some_iff.mpr ⟨naming, there⟩]
    rw [update_congr alike, settled.update_eq]
    exact settled
  · have after := (nodes_update_ne same).trans there
    have still : (now.update name).names.lookup other = some id := by rw [names_update, naming]
    refine ⟨id, linked, node.config, expression, x, find?_eq_some_iff.mpr ⟨still, after⟩, ?_⟩
    rw [call_update sound refreshed good found made apart, value]

end Steps

section Runs

variable (sound : session.Genuine) (good : ∀ name ∈ names, session.Compiles name)

include sound good

theorem Settled.updates (refreshed : session.Refreshed now) (settled : now.Settled other)
    (compiles : session.Compiles other)
    (apart : ∀ name ∈ names, session.dependsOn other name = false) :
    (now.updates names).Settled other := by
  induction names generalizing now with
  | nil => exact settled
  | cons name rest ih =>
    have here := good name (List.mem_cons_self ..)
    have updated := (refreshed.compiles here).refreshed (refreshed.genuine sound)
    have kept := settled.update sound refreshed here compiles (apart name (List.mem_cons_self ..))
    exact ih (fun one later => good one (List.mem_cons_of_mem _ later)) (refreshed.trans updated)
      kept fun one later => apart one (List.mem_cons_of_mem _ later)

variable (alone : ∀ name ∈ names, session.dependsOn name name = false)
  (ordered : names.Pairwise fun earlier later => session.dependsOn earlier later = false)

include alone ordered

/-- Updates with dependencies first settle every expression. -/
theorem settled_updates (refreshed : session.Refreshed now) :
    ∀ name ∈ names, (now.updates names).Settled name := by
  induction names generalizing now with
  | nil => intro name member; cases member
  | cons name rest ih =>
    obtain ⟨first, further⟩ := List.pairwise_cons.mp ordered
    have here := good name (List.mem_cons_self ..)
    have goodRest : ∀ one ∈ rest, session.Compiles one :=
      fun one later => good one (List.mem_cons_of_mem _ later)
    have next := refreshed.trans ((refreshed.compiles here).refreshed (refreshed.genuine sound))
    intro other member
    rcases List.mem_cons.mp member with same | later
    · subst other
      have settled := settled_update sound refreshed here (alone name (List.mem_cons_self ..))
      have kept : ((now.update name).updates rest).Settled name :=
        settled.updates sound goodRest next here first
      exact kept
    · exact ih goodRest (fun one later => alone one (List.mem_cons_of_mem _ later)) further next
        other later

/-- There is at most one way to settle expressions, given everything else. -/
theorem nodes_eq_of_settled (first : session.Refreshed now) (second : session.Refreshed next)
    (settled : ∀ name ∈ names, now.Settled name ∧ next.Settled name)
    (outside : ∀ id, (∀ name ∈ names, session.names.lookup name ≠ some id) →
      next.nodes[id]? = now.nodes[id]?) (id : NodeId) : next.nodes[id]? = now.nodes[id]? := by
  induction names generalizing id with
  | nil => exact outside id fun name member => by cases member
  | cons name rest ih =>
    obtain ⟨before, further⟩ := List.pairwise_cons.mp ordered
    refine ih (fun one later => good one (List.mem_cons_of_mem _ later))
      (fun one later => alone one (List.mem_cons_of_mem _ later)) further
      (fun one later => settled one (List.mem_cons_of_mem _ later)) ?_ id
    intro target unnamed
    by_cases named : session.names.lookup name = some target
    · -- Neither this expression itself nor a later one is read, so both sessions read the same.
      obtain ⟨own, linked, node, expression, found, made⟩ := good name (List.mem_cons_self ..)
      obtain ⟨naming, present⟩ := find?_eq_some_iff.mp found
      cases naming.symm.trans named
      obtain ⟨settledNow, settledNext⟩ := settled name (List.mem_cons_self ..)
      obtain ⟨x, there, value⟩ := settledNow.stored first found made
      obtain ⟨y, thereNext, valueNext⟩ := settledNext.stored second found made
      have same : (expression.call (next.world linked)).outcome =
          (expression.call (now.world linked)).outcome := by
        refine call_congr (sound target linked node present) made first second ?_
        intro read depends
        refine outside read ?_
        intro one member named
        have dependent := dependsOn_of_mem found named depends
        rcases List.mem_cons.mp member with itself | later
        · rw [itself, alone name (List.mem_cons_self ..)] at dependent
          cases dependent
        · rw [before one later] at dependent
          cases dependent
      rw [value, valueNext] at same
      rw [there, thereNext, Except.ok.inj same]
    · refine outside target ?_
      intro one member
      rcases List.mem_cons.mp member with itself | later
      · rw [itself]
        exact named
      · exact unnamed one later

end Runs

section Orders

variable {group : Finset String} {order another : List String}

/-- Updates in an order leave all other nodes alone. -/
theorem Order.nodes_eq (ordered : session.Order group order)
    (unnamed : ∀ name ∈ group, session.names.lookup name ≠ some id) :
    (session.updates order).nodes[id]? = session.nodes[id]? := by
  refine nodes_updates_ne ?_
  intro name member
  exact unnamed name ((ordered.mem_iff name).mp member)

theorem Order.refreshed (ordered : session.Order group order) (sound : session.Genuine)
    (compiling : ∀ name ∈ group, session.Compiles name) :
    session.Refreshed (session.updates order) := by
  refine refreshed_updates sound (.refl session) ?_
  intro name member
  exact compiling name ((ordered.mem_iff name).mp member)

variable (acyclic : ∀ name, ¬ Relation.TransGen (session.DependsWithin group) name name)

include acyclic

/-- Where no expression depends on itself, directly or through others, there is an order. -/
theorem exists_order : ∃ order, session.Order group order := by
  classical
  let Before (earlier later : String) : Prop :=
    Relation.ReflTransGen (session.DependsWithin group) later earlier
  have antisymm (a b : String) (forth : Before a b) (back : Before b a) : a = b := by
    rcases Relation.reflTransGen_iff_eq_or_transGen.mp forth with same | chain
    · exact same
    · exact absurd (chain.trans_left back) (acyclic b)
  have preceding : IsPartialOrder String Before :=
    { refl := fun _ => .refl, trans := fun _ _ _ first second => second.trans first, antisymm }
  obtain ⟨Le, linear, extends_⟩ := extend_partialOrder Before
  refine ⟨group.sort Le, group.sort_nodup Le, fun name => Finset.mem_sort Le, ?_⟩
  have sorted := (group.pairwise_sort Le).and (group.sort_nodup Le)
  refine sorted.imp_of_mem ?_
  rintro earlier later first second ⟨before, different⟩
  by_contra depends
  have within : session.DependsWithin group earlier later :=
    ⟨(Finset.mem_sort Le).mp first, (Finset.mem_sort Le).mp second, by simpa using depends⟩
  have back : Le later earlier := extends_ later earlier (.single within)
  exact different (linear.antisymm earlier later before back)

theorem dependsOn_self (member : name ∈ group) : session.dependsOn name name = false := by
  by_contra depends
  exact acyclic name (.single ⟨member, member, by simpa using depends⟩)

variable (sound : session.Genuine) (compiling : ∀ name ∈ group, session.Compiles name)

include sound compiling

theorem Order.settled (ordered : session.Order group order) (member : name ∈ group) :
    (session.updates order).Settled name := by
  refine settled_updates sound ?_ ?_ ordered.ordered (.refl session) name
    ((ordered.mem_iff name).mpr member)
  · intro other listed
    exact compiling other ((ordered.mem_iff other).mp listed)
  · intro other listed
    exact dependsOn_self acyclic ((ordered.mem_iff other).mp listed)

/-- All orders lead to the same session. -/
theorem Order.unique (ordered : session.Order group order) (also : session.Order group another) :
    session.updates another = session.updates order := by
  refine (ordered.refreshed sound compiling).eq_of_nodes (also.refreshed sound compiling) ?_
  refine nodes_eq_of_settled sound ?_ ?_ ordered.ordered (ordered.refreshed sound compiling)
    (also.refreshed sound compiling) ?_ ?_
  · intro name listed
    exact compiling name ((ordered.mem_iff name).mp listed)
  · intro name listed
    exact dependsOn_self acyclic ((ordered.mem_iff name).mp listed)
  · intro name listed
    have member := (ordered.mem_iff name).mp listed
    exact ⟨ordered.settled acyclic sound compiling member,
      also.settled acyclic sound compiling member⟩
  · intro id unlisted
    have unnamed : ∀ name ∈ group, session.names.lookup name ≠ some id :=
      fun name member => unlisted name ((ordered.mem_iff name).mpr member)
    rw [ordered.nodes_eq unnamed, also.nodes_eq unnamed]

end Orders

end Session

/-- One tick in dependency order settles a group of expressions. Let every one of them compile and
let none depend on itself, directly or through others of the group. Then there is an order with
dependencies first, and updates in any such order lead to one and the same session. There every
expression of the group has the value that it gives when it is called, so further updates of the
group change nothing, however many and in whatever order. All other nodes stay as they were. -/
theorem SessionReach.settles {history : List Moment} {session : Session}
    (reach : SessionReach history session) {group : Finset String}
    (compiling : ∀ name ∈ group, session.Compiles name)
    (acyclic : ∀ name, ¬ Relation.TransGen (session.DependsWithin group) name name) :
    (∃ order, session.Order group order) ∧
    ∀ order, session.Order group order →
      (∀ name ∈ group, (session.updates order).Settled name) ∧
      (∀ again, (∀ name ∈ again, name ∈ group) →
        (session.updates order).updates again = session.updates order) ∧
      (∀ other, session.Order group other → session.updates other = session.updates order) ∧
      ∀ id : NodeId, (∀ name ∈ group, session.names.lookup name ≠ some id) →
        (session.updates order).nodes[id]? = session.nodes[id]? := by
  refine ⟨Session.exists_order acyclic, ?_⟩
  intro order ordered
  have settled : ∀ name ∈ group, (session.updates order).Settled name :=
    fun _ member => ordered.settled acyclic reach.genuine compiling member
  refine ⟨settled, ?_, ?_, ?_⟩
  · intro again within
    exact Session.updates_of_settled fun name member => settled name (within name member)
  · intro other also
    exact ordered.unique acyclic reach.genuine compiling also
  · intro id unnamed
    exact ordered.nodes_eq unnamed

/-- The second expression reads the first one, so in the wrong order it gets the value that the first
one had before. -/
theorem SessionReach.settles_second_expression :
    let reference (tag : Int) : Json := .obj [("type", .str "value"), ("tag", .int tag)]
    let first : ExpressionNode NodeId := ⟨⟨.tick, false⟩, .uncompiled (.wire (reference 1)), 0⟩
    let second : ExpressionNode NodeId := ⟨Config.standard, .uncompiled (.wire (reference 2)), 0⟩
    let session : Session := ⟨[.value (some 2), .expression true first, .expression true second],
      [("second", 2), ("first", 1), ("source", 0)], ⟨[(1, 0), (2, 1)]⟩⟩
    let group : Finset String := {"first", "second"}
    let settled := session.updates ["first", "second"]
    (∃ history, SessionReach history session) ∧
      (∀ name ∈ group, session.Compiles name) ∧
      (∀ name, ¬ Relation.TransGen (session.DependsWithin group) name name) ∧
      session.Order group ["first", "second"] ∧
      (∀ name ∈ group, settled.Settled name) ∧ settled.updates ["second", "first"] = settled ∧
      settled.scalar 2 = 2 ∧ (session.updates ["second", "first"]).scalar 2 = 0 := by
  intro reference first second session group settled
  have reach : SessionReach _ session := SessionReach.start
    |>.next (.newValue "source" (some (.float 2)))
    |>.next (.newExpression "first" (reference 1) ⟨.tick, false⟩ true false)
    |>.next (.newExpression "second" (reference 2) Config.standard true false)
    |>.next (.add 1 "source")
    |>.next (.add 2 "first")
  have mem_group (name : String) : name ∈ group ↔ name = "first" ∨ name = "second" := by
    simp [group]
  have compiling : ∀ name ∈ group, session.Compiles name := by
    intro name member
    rcases (mem_group name).mp member with same | same
    · rw [same]
      exact ⟨1, true, first, ⟨.reference 1, .deferred 1⟩, rfl, rfl⟩
    · rw [same]
      exact ⟨2, true, second, ⟨.reference 2, .captured 2 1⟩, rfl, rfl⟩
  have edges : ∀ name ∈ ["first", "second"], ∀ other ∈ ["first", "second"],
      session.dependsOn name other = true → name = "second" ∧ other = "first" := by decide +kernel
  have only (name other : String) (depends : session.DependsWithin group name other) :
      name = "second" ∧ other = "first" := by
    obtain ⟨member, also, reads⟩ := depends
    exact edges name (by simpa [group] using member) other (by simpa [group] using also) reads
  have chain (name other : String)
      (depends : Relation.TransGen (session.DependsWithin group) name other) :
      name = "second" ∧ other = "first" := by
    induction depends with
    | single one => exact only _ _ one
    | tail _ one ih => exact ⟨ih.1, (only _ _ one).2⟩
  have acyclic : ∀ name, ¬ Relation.TransGen (session.DependsWithin group) name name := by
    intro name circle
    obtain ⟨one, other⟩ := chain name name circle
    rw [one] at other
    exact absurd other (by decide)
  have ordered : session.Order group ["first", "second"] := by
    refine ⟨by decide, fun name => by simp [group], ?_⟩
    refine List.pairwise_cons.mpr ⟨?_, List.pairwise_singleton ..⟩
    intro later member
    rw [List.mem_singleton.mp member]
    rfl
  obtain ⟨_, orders⟩ := reach.settles compiling acyclic
  obtain ⟨stable, again, _⟩ := orders _ ordered
  have within : ∀ name ∈ ["second", "first"], name ∈ group := by simp [group]
  exact ⟨⟨_, reach⟩, compiling, acyclic, ordered, stable, again _ within, rfl, rfl⟩

end TickGraph
