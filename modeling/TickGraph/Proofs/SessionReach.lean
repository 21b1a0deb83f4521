import TickGraph.Proofs.NodeAdvance
import TickGraph.Proofs.SessionStep

namespace TickGraph

/-- A step of a run: the session as it was before and what it was asked to do. -/
structure Moment where
  session : Session
  action : Action

namespace Moment

variable (moment : Moment) (id : NodeId)

def reply : Reply :=
  moment.session.step moment.action

/-- Whether the node `id` is the one that the action asks something of. -/
def asks : Bool :=
  (moment.action.subject?.bind moment.session.find?).any fun found => found.1 == id

/-- What is consulted and reported on behalf of the node `id`. -/
def eventsFor : List Event :=
  if moment.asks id then moment.reply.events else []

/-- The expression that is compiled for the node `id`, if that happens now. -/
def compiled? : Option (Compiled NodeId) :=
  if moment.asks id && moment.action.compiles then
    match moment.session.nodes[id]? with
    | some (.expression linked node) => node.compilation? (moment.session.world linked)
    | _ => none
  else none

/-- The result of evaluating the node `id`, if it is evaluated now and that succeeds. -/
def result? : Option Float :=
  if moment.asks id && moment.action.evaluates then
    match moment.reply.outcome with
    | .ok (.number x) => x
    | _ => none
  else none

end Moment

/-- Sessions that can be reached from the empty one, with all moments on the way, the latest first. -/
inductive SessionReach : List Moment → Session → Prop
  | start : SessionReach [] Session.empty
  | next {history session} (action : Action) : SessionReach history session →
      SessionReach (⟨session, action⟩ :: history) (session.step action).session

theorem SessionReach.unique {history : List Moment} {session other : Session}
    (reach : SessionReach history session) (also : SessionReach history other) :
    session = other := by
  cases reach with
  | start => cases also; rfl
  | next action previous => cases also; rfl

/-- Every list of actions has its run, and the replies are those of its moments. -/
theorem SessionReach.run {history : List Moment} {session : Session}
    (reach : SessionReach history session) (actions : List Action) :
    ∃ later last, SessionReach (later ++ history) last ∧
      later.reverse.map Moment.action = actions ∧
      later.reverse.map Moment.reply = session.run actions := by
  induction actions generalizing history session with
  | nil => exact ⟨[], session, reach, rfl, rfl⟩
  | cons action rest ih =>
    obtain ⟨later, last, reached, asked, replied⟩ := ih (.next action reach)
    refine ⟨later ++ [⟨session, action⟩], last, by simpa using reached, ?_, ?_⟩
    · simp [asked]
    · rw [Session.run, ← replied]
      simp [Moment.reply]

theorem Session.nodes_of_find? {session : Session} {name : String} {id : NodeId}
    {node : SessionNode} (found : session.find? name = some (id, node)) :
    session.nodes[id]? = some node := by
  unfold Session.find? Session.nodeAt at found
  cases named : session.names.lookup name with
  | none =>
    simp only [named] at found
    cases found
  | some other =>
    simp only [named, Option.map_eq_some_iff, Prod.mk.injEq] at found
    obtain ⟨held, present, same, equal⟩ := found
    rw [← same, ← equal]
    exact present

namespace Moment

variable {moment : Moment} {id : NodeId}

theorem asks_iff : moment.asks id = true ↔ ∃ name node, moment.action.subject? = some name ∧
    moment.session.find? name = some (id, node) := by
  unfold asks
  simp only [Option.any_eq_true, Option.bind_eq_some_iff, beq_iff_eq, Prod.exists]
  constructor
  · rintro ⟨other, node, ⟨name, asked, found⟩, same⟩
    subst other
    exact ⟨name, node, asked, found⟩
  · rintro ⟨name, node, asked, found⟩
    exact ⟨id, node, ⟨name, asked, found⟩, rfl⟩

theorem lt_length_of_asks (asked : moment.asks id = true) : id < moment.session.nodes.length := by
  obtain ⟨name, node, _, found⟩ := asks_iff.mp asked
  have present := Session.nodes_of_find? found
  exact (List.getElem?_eq_some_iff.mp present).1

theorem eventsFor_of_not_asks (idle : moment.asks id = false) : moment.eventsFor id = [] := by
  simp only [eventsFor, idle, Bool.false_eq_true, if_false]

theorem compiled?_of_not_asks (idle : moment.asks id = false) : moment.compiled? id = none := by
  simp only [compiled?, idle, Bool.false_and, Bool.false_eq_true, if_false]

theorem result?_of_not_asks (idle : moment.asks id = false) : moment.result? id = none := by
  simp only [result?, idle, Bool.false_and, Bool.false_eq_true, if_false]

theorem asks_of_found {name : String} {node : SessionNode}
    (asked : moment.action.subject? = some name)
    (found : moment.session.find? name = some (id, node)) : moment.asks id = true :=
  asks_iff.mpr ⟨name, node, asked, found⟩

theorem not_asks_of_found {name : String} {other : NodeId} {node : SessionNode}
    (asked : moment.action.subject? = some name)
    (found : moment.session.find? name = some (other, node)) (different : other ≠ id) :
    moment.asks id = false := by
  simp only [asks, asked, Option.bind_some, found, Option.any_some, beq_eq_false_iff_ne.mpr different]

theorem not_asks_of_unnamed (unnamed : moment.action.subject? = none) (id : NodeId) :
    moment.asks id = false := by
  simp only [asks, unnamed, Option.bind_none, Option.any_none]

theorem compiled?_of_light (light : moment.action.compiles = false) (id : NodeId) :
    moment.compiled? id = none := by
  simp only [compiled?, light, Bool.and_false, Bool.false_eq_true, if_false]

theorem result?_of_light (light : moment.action.evaluates = false) (id : NodeId) :
    moment.result? id = none := by
  simp only [result?, light, Bool.and_false, Bool.false_eq_true, if_false]

theorem result?_of_asks (asked : moment.asks id = true) (heavy : moment.action.evaluates = true)
    {outcome : Except Failure Float}
    (replied : moment.reply.outcome = outcome.map fun x => .number (some x)) :
    moment.result? id = outcome.toOption := by
  simp only [result?, asked, heavy, Bool.and_self, if_true, replied]
  cases outcome <;> rfl

theorem compiled?_of_asks {linked : Bool} {node : ExpressionNode NodeId}
    (present : moment.session.nodes[id]? = some (.expression linked node))
    (asked : moment.asks id = true) (heavy : moment.action.compiles = true) :
    moment.compiled? id = node.compilation? (moment.session.world linked) := by
  simp only [compiled?, asked, heavy, Bool.and_self, if_true, present]

/-- A moment compiles a node exactly if it asks for that, this has not happened before, and the graph
compiles in the outside that the node has at that moment. -/
theorem compiled?_eq_some_iff {linked : Bool} {node : ExpressionNode NodeId}
    {expression : Compiled NodeId}
    (present : moment.session.nodes[id]? = some (.expression linked node)) :
    moment.compiled? id = some expression ↔
      moment.asks id = true ∧ moment.action.compiles = true ∧
        ∃ source, node.lifecycle = .uncompiled source ∧
          (TickGraph.compile node.config (moment.session.world linked) source).outcome =
            .ok expression := by
  unfold compiled?
  rw [present]
  cases moment.asks id <;> cases moment.action.compiles <;>
    simp [ExpressionNode.compilation?_eq_some_iff]

theorem result?_of_error {failure : Failure} (failed : moment.reply.outcome = .error failure)
    (id : NodeId) : moment.result? id = none := by
  simp only [result?, failed, ite_self]

theorem eventsFor_of_asks (asked : moment.asks id = true) :
    moment.eventsFor id = moment.reply.events := by
  simp only [eventsFor, asked, if_true]

section Advance

variable {linked : Bool} {node : ExpressionNode NodeId}
  (present : moment.session.nodes[id]? = some (.expression linked node))

include present

/-- A moment that asks nothing of a node and stores nothing for it leaves it alone. -/
theorem advance_of_not_asks (idle : moment.asks id = false)
    (still : moment.reply.session.nodes[id]? = moment.session.nodes[id]?) :
    ∃ next, moment.reply.session.nodes[id]? = some (.expression linked next) ∧
      ExpressionNode.Advance (moment.session.world linked) (moment.compiled? id)
        (moment.eventsFor id) (moment.result? id) node next := by
  refine ⟨node, still.trans present, ?_⟩
  rw [compiled?_of_not_asks idle, eventsFor_of_not_asks idle, result?_of_not_asks idle]
  exact .idle _ node

theorem advance_of_store_ne {name : String} {other : NodeId} {old new : SessionNode}
    (named : moment.action.subject? = some name)
    (found : moment.session.find? name = some (other, old)) (different : other ≠ id)
    (stored : moment.reply.session = moment.session.store other new) :
    ∃ next, moment.reply.session.nodes[id]? = some (.expression linked next) ∧
      ExpressionNode.Advance (moment.session.world linked) (moment.compiled? id)
        (moment.eventsFor id) (moment.result? id) node next := by
  refine advance_of_not_asks present (not_asks_of_found named found different) ?_
  rw [stored]
  exact List.getElem?_set_ne different

/-- Every step takes every expression node on by one operation, or leaves it alone. -/
theorem advance (genuine : node.Genuine) :
    ∃ next, moment.reply.session.nodes[id]? = some (.expression linked next) ∧
      ExpressionNode.Advance (moment.session.world linked) (moment.compiled? id)
        (moment.eventsFor id) (moment.result? id) node next := by
  cases moment.session.transition moment.action with
  | kept same quiet idle =>
    cases asked : moment.asks id with
    | false => exact advance_of_not_asks present asked (by rw [reply, same])
    | true =>
      refine ⟨node, by rw [reply, same]; exact present, ?_⟩
      obtain ⟨name, held, named, found⟩ := asks_iff.mp asked
      have equal := Option.some.inj ((Session.nodes_of_find? found).symm.trans present)
      rw [equal] at found
      have light := idle name id linked node named found
      have silent : moment.eventsFor id = [] := by
        rw [eventsFor_of_asks asked]
        exact quiet (by rw [named]; rfl)
      rw [compiled?_of_light light, result?_of_light (Action.evaluates_of_light light), silent]
      exact .idle _ node
  | rebound registry answer asked after =>
    refine advance_of_not_asks present (not_asks_of_unnamed asked id) ?_
    rw [reply, after]
    rfl
  | created name made answer new asked still after =>
    have bound := (List.getElem?_eq_some_iff.mp present).1
    refine advance_of_not_asks present (not_asks_of_unnamed asked id) ?_
    rw [reply, after]
    exact List.getElem?_append_left bound
  | assigned name other old x number asked found after =>
    have different : other ≠ id := by
      intro same
      subst other
      cases (Session.nodes_of_find? found).symm.trans present
    exact advance_of_store_ne present (by rw [asked]; rfl) found different
      (by rw [reply, after]; rfl)
  | called name other otherLinked held asked found after =>
    by_cases same : other = id
    · subst other
      cases (Session.nodes_of_find? found).symm.trans present
      have asking := asks_of_found (by rw [asked]; rfl) found
      have light : moment.action.compiles = false := by rw [asked]; rfl
      refine ⟨node, by rw [reply, after]; exact present, ?_⟩
      rw [compiled?_of_light light, result?_of_light (Action.evaluates_of_light light),
        eventsFor_of_asks asking, reply, after]
      exact .call genuine _
    · have idle := not_asks_of_found (by rw [asked]; rfl) found same
      exact advance_of_not_asks present idle (by rw [reply, after]; rfl)
  | compiled name other otherLinked held asked found after =>
    by_cases same : other = id
    · subst other
      cases (Session.nodes_of_find? found).symm.trans present
      have asking := asks_of_found (by rw [asked]; rfl) found
      refine ⟨_, by rw [reply, after]; exact List.getElem?_set_self (lt_length_of_asks asking), ?_⟩
      rw [compiled?_of_asks present asking (by rw [asked]; rfl),
        result?_of_light (by rw [asked]; rfl), eventsFor_of_asks asking, reply, after]
      exact .compile node _
    · exact advance_of_store_ne present (by rw [asked]; rfl) found same (by rw [reply, after])
  | evaluated name other otherLinked held asked found after =>
    have named : moment.action.subject? = some name := by
      rcases asked with asked | asked <;> rw [asked] <;> rfl
    by_cases same : other = id
    · subst other
      cases (Session.nodes_of_find? found).symm.trans present
      have asking := asks_of_found named found
      have heavy : moment.action.compiles = true ∧ moment.action.evaluates = true := by
        rcases asked with asked | asked <;> rw [asked] <;> exact ⟨rfl, rfl⟩
      refine ⟨_, by rw [reply, after]; exact List.getElem?_set_self (lt_length_of_asks asking), ?_⟩
      rw [compiled?_of_asks present asking heavy.1,
        result?_of_asks asking heavy.2 (by rw [reply, after]), eventsFor_of_asks asking, reply,
        after]
      exact .evaluate genuine _
    · exact advance_of_store_ne present named found same (by rw [reply, after])

end Advance

end Moment

end TickGraph
