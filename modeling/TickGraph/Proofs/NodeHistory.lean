import TickGraph.Proofs.SessionReach

namespace TickGraph

/-- Steps only ever add nodes. -/
theorem Session.length_nodes_le_step (session : Session) (action : Action) :
    session.nodes.length ≤ (session.step action).session.nodes.length := by
  cases session.transition action with
  | kept same quiet idle => exact Nat.le_of_eq (by rw [same])
  | rebound registry answer asked reply => rw [reply]; exact Nat.le_refl _
  | created name node answer new asked still reply =>
    rw [reply]
    simp only [Session.answer, Session.create, List.length_append, List.length_singleton]
    omega
  | assigned name id old x number asked found reply =>
    rw [reply]
    simp only [Session.answer, Session.store, List.length_set, Nat.le_refl]
  | called name id linked node asked found reply => rw [reply]; exact Nat.le_refl _
  | compiled name id linked node asked found reply =>
    rw [reply]
    simp only [Session.store, List.length_set, Nat.le_refl]
  | evaluated name id linked node asked found reply =>
    rw [reply]
    simp only [Session.store, List.length_set, Nat.le_refl]

theorem Session.expression_before_store {session : Session} {id other : NodeId}
    {old new : SessionNode} {linked : Bool} {next : ExpressionNode NodeId}
    (held : session.nodes[other]? = some old)
    (kind : ∀ made, new = .expression linked made → ∃ node, old = .expression linked node)
    (present : (session.store other new).nodes[id]? = some (.expression linked next)) :
    ∃ node, session.nodes[id]? = some (.expression linked node) := by
  change (session.nodes.set other new)[id]? = _ at present
  by_cases same : other = id
  · subst other
    rw [List.getElem?_set_self (List.getElem?_eq_some_iff.mp held).1] at present
    obtain ⟨node, equal⟩ := kind next (Option.some.inj present)
    exact ⟨node, by rw [held, equal]⟩
  · rw [List.getElem?_set_ne same] at present
    exact ⟨next, present⟩

/-- An expression was there before a step, or the step made it. -/
theorem Moment.expression_before {moment : Moment} {id : NodeId} {linked : Bool}
    {next : ExpressionNode NodeId}
    (present : moment.reply.session.nodes[id]? = some (.expression linked next)) :
    (∃ node, moment.session.nodes[id]? = some (.expression linked node)) ∨
      moment.session.nodes.length ≤ id ∧
        ∃ config source, next = ExpressionNode.create config source := by
  rw [Moment.reply] at present
  cases moment.session.transition moment.action with
  | kept same quiet idle =>
    rw [same] at present
    exact Or.inl ⟨next, present⟩
  | rebound registry answer asked reply =>
    rw [reply] at present
    exact Or.inl ⟨next, present⟩
  | created name node answer new asked still reply =>
    rw [reply] at present
    change (moment.session.nodes ++ [node])[id]? = _ at present
    by_cases bound : id < moment.session.nodes.length
    · rw [List.getElem?_append_left bound] at present
      exact Or.inl ⟨next, present⟩
    · have beyond := Nat.le_of_not_lt bound
      rw [List.getElem?_append_right beyond, List.getElem?_singleton] at present
      split at present
      · exact Or.inr ⟨beyond, new linked next (Option.some.inj present)⟩
      · cases present
  | assigned name other old x number asked found reply =>
    rw [reply] at present
    refine Or.inl (Session.expression_before_store (Session.nodes_of_find? found) ?_ present)
    intro made same
    cases same
  | called name other otherLinked node asked found reply =>
    rw [reply] at present
    exact Or.inl ⟨next, present⟩
  | compiled name other otherLinked node asked found reply =>
    rw [reply] at present
    refine Or.inl (Session.expression_before_store (Session.nodes_of_find? found) ?_ present)
    intro made same
    cases same
    exact ⟨node, rfl⟩
  | evaluated name other otherLinked node asked found reply =>
    rw [reply] at present
    refine Or.inl (Session.expression_before_store (Session.nodes_of_find? found) ?_ present)
    intro made same
    cases same
    exact ⟨node, rfl⟩

theorem SessionReach.length_nodes_le {history : List Moment} {session : Session}
    (reach : SessionReach history session) {moment : Moment} (member : moment ∈ history) :
    moment.session.nodes.length ≤ session.nodes.length := by
  induction reach with
  | start => cases member
  | @next history before action previous ih =>
    have grown := before.length_nodes_le_step action
    rcases List.mem_cons.mp member with same | earlier
    · rw [same]; exact grown
    · exact Nat.le_trans (ih earlier) grown

/-- Nobody asked for a node before it was made. -/
theorem SessionReach.not_asks {history : List Moment} {session : Session}
    (reach : SessionReach history session) {id : NodeId} (beyond : session.nodes.length ≤ id)
    {moment : Moment} (member : moment ∈ history) : moment.asks id = false := by
  cases asked : moment.asks id with
  | false => rfl
  | true =>
    have bound := Moment.lt_length_of_asks asked
    have grown := reach.length_nodes_le member
    exact absurd bound (Nat.not_lt.mpr (Nat.le_trans grown beyond))

/-- What the history of a run says about an expression node. It was compiled as often as it has an
expression, each time with one line; its value is the latest result or zero; and its expression was
made from a graph that compiled in the outside which the node had at some moment. -/
structure ExpressionNode.RecordedBy (history : List Moment) (id : NodeId) (linked : Bool)
    (node : ExpressionNode NodeId) : Prop where
  compilations : history.filterMap (Moment.compiled? · id) = node.lifecycle.expression?.toList
  lines : (history.flatMap (Moment.eventsFor · id)).filterMap Event.compiled? =
    node.lifecycle.expression?.toList.map Compiled.root
  value : node.value = (history.filterMap (Moment.result? · id)).head?.getD 0
  origin : ∀ expression, node.lifecycle = .compiled expression →
    ∃ moment ∈ history, moment.compiled? id = some expression ∧
      ∃ source, (TickGraph.compile node.config (moment.session.world linked) source).outcome =
        .ok expression

theorem ExpressionNode.RecordedBy.genuine {history : List Moment} {id : NodeId} {linked : Bool}
    {node : ExpressionNode NodeId} (recorded : node.RecordedBy history id linked) :
    node.Genuine := by
  intro expression held
  obtain ⟨moment, _, _, source, success⟩ := recorded.origin expression held
  exact ⟨_, source, success⟩

/-- A moment that takes a node on adds to its record what it says of the node. -/
theorem ExpressionNode.RecordedBy.next {history : List Moment} {moment : Moment} {id : NodeId}
    {linked : Bool} {node next : ExpressionNode NodeId}
    (recorded : node.RecordedBy history id linked)
    (advance : ExpressionNode.Advance (moment.session.world linked) (moment.compiled? id)
      (moment.eventsFor id) (moment.result? id) node next) :
    next.RecordedBy (moment :: history) id linked := by
  have compilations : (moment :: history).filterMap (Moment.compiled? · id) =
      next.lifecycle.expression?.toList := by
    rw [advance.expression?, ← recorded.compilations, List.filterMap_cons]
    cases moment.compiled? id <;> rfl
  refine ⟨compilations, ?_, ?_, ?_⟩
  · rw [List.flatMap_cons, List.filterMap_append, advance.lines, recorded.lines,
      advance.expression?, List.map_append]
  · rw [advance.value, recorded.value, List.filterMap_cons]
    cases moment.result? id <;> rfl
  · intro expression held
    rw [advance.config]
    rcases advance.made_or_kept held with made | ⟨_, before⟩
    · obtain ⟨source, _, success, _⟩ := advance.origin expression made
      exact ⟨moment, List.mem_cons_self .., made, source, success⟩
    · obtain ⟨earlier, member, rest⟩ := recorded.origin expression before
      exact ⟨earlier, List.mem_cons_of_mem _ member, rest⟩

theorem ExpressionNode.recorded_create {history : List Moment} {id : NodeId}
    (idle : ∀ moment ∈ history, moment.asks id = false) (linked : Bool) (config : Config)
    (source : Source) : (ExpressionNode.create config source).RecordedBy history id linked := by
  refine ⟨?_, ?_, ?_, ?_⟩
  · exact List.filterMap_eq_nil_iff.mpr fun moment member =>
      Moment.compiled?_of_not_asks (idle moment member)
  · rw [List.flatMap_eq_nil_iff.mpr fun moment member =>
      Moment.eventsFor_of_not_asks (idle moment member)]
    rfl
  · rw [List.filterMap_eq_nil_iff.mpr fun moment member =>
      Moment.result?_of_not_asks (idle moment member)]
    rfl
  · intro expression held
    cases held

/-- In every run every expression node is as the history says. -/
theorem SessionReach.recorded {history : List Moment} {session : Session}
    (reach : SessionReach history session) {id : NodeId} {linked : Bool}
    {node : ExpressionNode NodeId} (present : session.nodes[id]? = some (.expression linked node)) :
    node.RecordedBy history id linked := by
  induction reach generalizing node with
  | start => cases present
  | @next history before action previous ih =>
    have after : (Moment.mk before action).reply.session.nodes[id]? =
        some (.expression linked node) := present
    rcases Moment.expression_before after with ⟨old, held⟩ | ⟨beyond, config, source, made⟩
    · have recorded := ih held
      obtain ⟨next, reached, advance⟩ := Moment.advance held recorded.genuine
      have same : next = node := by
        cases reached.symm.trans after
        rfl
      rw [← same]
      exact recorded.next advance
    · rw [made]
      refine ExpressionNode.recorded_create ?_ linked config source
      intro moment member
      rcases List.mem_cons.mp member with now | earlier
      · cases asked : moment.asks id with
        | false => rfl
        | true =>
          subst moment
          exact absurd (Moment.lt_length_of_asks asked) (Nat.not_lt.mpr beyond)
      · exact previous.not_asks beyond earlier

end TickGraph
