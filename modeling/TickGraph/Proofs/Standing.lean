import TickGraph.Proofs.BindingTime

namespace TickGraph

/-- Whether a node produces a value that others can read. -/
def SessionNode.produces : SessionNode → Bool
  | .valueless => false
  | _ => true

theorem Session.producer?_eq_filter (session : Session) (tag : Int) :
    session.producer? tag =
      (session.registry.get? tag).filter fun id => session.nodes[id]?.any SessionNode.produces := by
  unfold Session.producer?
  cases session.registry.get? tag with
  | none => rfl
  | some id =>
    simp only [Option.filter_some]
    cases session.nodes[id]? with
    | none => rfl
    | some node => cases node <;> rfl

theorem Session.producer?_congr {session other : Session} {tag : Int}
    (entry : other.registry.get? tag = session.registry.get? tag)
    (kinds : ∀ id, session.registry.get? tag = some id →
      other.nodes[id]?.any SessionNode.produces = session.nodes[id]?.any SessionNode.produces) :
    other.producer? tag = session.producer? tag := by
  rw [Session.producer?_eq_filter, Session.producer?_eq_filter, entry]
  cases registered : session.registry.get? tag with
  | none => rfl
  | some id => simp only [Option.filter_some, kinds id registered]

/-- What resolves to a node is registered to it. -/
theorem Session.registered_of_producer? {session : Session} {tag : Int} {id : NodeId}
    (produced : session.producer? tag = some id) : session.registry.get? tag = some id := by
  rw [Session.producer?_eq_filter] at produced
  exact (Option.filter_eq_some_iff.mp produced).1

theorem Session.producer?_of_expression {session : Session} {tag : Int} {id : NodeId}
    {linked : Bool} {node : ExpressionNode NodeId}
    (registered : session.registry.get? tag = some id)
    (present : session.nodes[id]? = some (.expression linked node)) :
    session.producer? tag = some id := by
  unfold Session.producer?
  simp only [registered, present]

/-- A node that takes another one's place is of the same kind, so the kinds stay. -/
theorem Session.produces_store {session : Session} {other : NodeId} {old new : SessionNode}
    (held : session.nodes[other]? = some old) (kind : new.produces = old.produces) (id : NodeId) :
    (session.store other new).nodes[id]?.any SessionNode.produces =
      session.nodes[id]?.any SessionNode.produces := by
  change (session.nodes.set other new)[id]?.any _ = _
  by_cases same : other = id
  · subst other
    rw [List.getElem?_set_self (List.getElem?_eq_some_iff.mp held).1, held]
    exact kind
  · rw [List.getElem?_set_ne same]

theorem Session.produces_step (session : Session) (action : Action) {id : NodeId}
    (bound : id < session.nodes.length) :
    (session.step action).session.nodes[id]?.any SessionNode.produces =
      session.nodes[id]?.any SessionNode.produces := by
  cases session.transition action with
  | kept same quiet idle => rw [same]
  | rebound registry answer asked reply => rw [reply]; rfl
  | created name node answer new asked still reply =>
    rw [reply]
    change (session.nodes ++ [node])[id]?.any _ = _
    rw [List.getElem?_append_left bound]
  | assigned name other old x number asked found reply =>
    rw [reply]
    exact Session.produces_store (Session.nodes_of_find? found) (by rfl) id
  | called name other linked node asked found reply => rw [reply]; rfl
  | compiled name other linked node asked found reply =>
    rw [reply]
    exact Session.produces_store (Session.nodes_of_find? found) (by rfl) id
  | evaluated name other linked node asked found reply =>
    rw [reply]
    exact Session.produces_store (Session.nodes_of_find? found) (by rfl) id

/-- A node that a step leaves registered was registered before, or has a name. -/
theorem Session.registered_step {session : Session} {action : Action} {tag : Int} {id : NodeId}
    (registered : (session.step action).session.registry.get? tag = some id) :
    session.registry.get? tag = some id ∨ ∃ name node, session.find? name = some (id, node) := by
  cases session.transition action with
  | kept same quiet idle =>
    rw [same] at registered
    exact Or.inl registered
  | rebound registry answer asked reply entries =>
    rw [reply] at registered
    exact entries tag id registered
  | created name node answer new asked still reply =>
    rw [reply] at registered
    exact Or.inl registered
  | assigned name other old x number asked found reply =>
    rw [reply] at registered
    exact Or.inl registered
  | called name other linked node asked found reply =>
    rw [reply] at registered
    exact Or.inl registered
  | compiled name other linked node asked found reply =>
    rw [reply] at registered
    exact Or.inl registered
  | evaluated name other linked node asked found reply =>
    rw [reply] at registered
    exact Or.inl registered

/-- In every run a registered node exists. -/
theorem SessionReach.registered_lt {history : List Moment} {session : Session}
    (reach : SessionReach history session) {tag : Int} {id : NodeId}
    (registered : session.registry.get? tag = some id) : id < session.nodes.length := by
  induction reach with
  | start => cases registered
  | @next history before action previous ih =>
    have grown := before.length_nodes_le_step action
    have bound : id < before.nodes.length := by
      rcases Session.registered_step registered with old | ⟨name, node, found⟩
      · exact ih old
      · exact (List.getElem?_eq_some_iff.mp (Session.nodes_of_find? found)).1
    exact Nat.lt_of_lt_of_le bound grown

/-- The session of a moment was itself reached. -/
theorem SessionReach.before {history : List Moment} {session : Session}
    (reach : SessionReach history session) {moment : Moment} (member : moment ∈ history) :
    ∃ earlier, SessionReach earlier moment.session := by
  induction reach with
  | start => cases member
  | @next history before action previous ih =>
    rcases List.mem_cons.mp member with same | earlier
    · exact ⟨history, by rw [same]; exact previous⟩
    · exact ih earlier

theorem SessionReach.produces_eq {history : List Moment} {session : Session}
    (reach : SessionReach history session) {moment : Moment} (member : moment ∈ history)
    {id : NodeId} (bound : id < moment.session.nodes.length) :
    session.nodes[id]?.any SessionNode.produces =
      moment.session.nodes[id]?.any SessionNode.produces := by
  induction reach with
  | start => cases member
  | @next history before action previous ih =>
    rcases List.mem_cons.mp member with same | earlier
    · subst moment
      exact before.produces_step action bound
    · have grown := previous.length_nodes_le earlier
      rw [before.produces_step action (Nat.lt_of_lt_of_le bound grown), ih earlier]

/-- A tag that has now what it had at some moment of the run resolves to the same. -/
theorem SessionReach.producer?_eq {history : List Moment} {session : Session}
    (reach : SessionReach history session) {moment : Moment} (member : moment ∈ history) {tag : Int}
    (entry : session.registry.get? tag = moment.session.registry.get? tag) :
    session.producer? tag = moment.session.producer? tag := by
  refine Session.producer?_congr entry ?_
  intro id registered
  obtain ⟨earlier, reached⟩ := reach.before member
  exact reach.produces_eq member (reached.registered_lt registered)

end TickGraph
