import TxLifecycle.Proofs.Walks

/-!
# What reading code leaves alone

Reading code changes the scope in which the code stands and opens new ones. It leaves every other
scope alone, and where all of the code stands in scopes of its own, it leaves every scope alone
that was there before. "Alone" is meant as coverage sees it:

* `Walk.Later w w'`: nothing that helps to cover a scope is lost between the two states;
* `Walk.SameAt scope w w'`: nothing is added for that scope either;
* `Walk.Frame outside w w'`: the first, and the second for the scopes that were there and that
  `outside` holds of.

The main statement is `Flow.Walks.frame`. From it follows what coverage in a later state says about
an earlier one (`Walk.covered_of_all`, `Walk.covered_of_closed`, `Walk.Opens.covered`,
`Walk.Edits.covered`).
-/

namespace TxLifecycle

namespace Walk

/-- The events of a binding; none where the table does not hold the binding. -/
def eventsOf (w : Walk) (id : BindingId) : List Event :=
  ((w.bindings[id]?).map (·.events)).getD []

/-- A direct commit or rollback of the binding stands in the scope, outside function literals.
Without a binding there is none. -/
def FinalizedIn (w : Walk) : Option BindingId → ScopeId → Prop
  | none, _ => False
  | some id, scope => ∃ event ∈ w.eventsOf id,
      event.kind.isDirectFinalization = true ∧ event.inClosure = false ∧ event.scope = scope

/-- A `defer` statement in the scope takes care of the binding. -/
def DeferredIn (w : Walk) (id : BindingId) (scope : ScopeId) : Prop :=
  ∃ event ∈ w.eventsOf id, event.kind.isDeferred = true ∧ event.scope = scope

/-- Every path through the scope finalizes the binding, as far as the constructs show that have
been read to their end. -/
def Covered (w : Walk) (id? : Option BindingId) (scope : ScopeId) : Prop :=
  w.scopes.Covered w.constructs (w.FinalizedIn id?) scope

/-- A plain block stands directly in the scope. -/
def BlockIn (w : Walk) (scope child : ScopeId) : Prop :=
  child ∈ w.scopes.childrenOf scope ∧ w.scopes.kind? child = some .block

/-- A construct that has been read to its end stands directly in the scope. -/
def ReadIn (w : Walk) (scope : ScopeId) (c : Construct) (id : ConstructId) : Prop :=
  w.scopes.Holds w.constructs scope c id

/-- Nothing that helps to cover a scope is lost. -/
structure Later (w w' : Walk) : Prop where
  length : w.scopes.scopes.length ≤ w'.scopes.scopes.length
  events : ∀ id, w.eventsOf id <+: w'.eventsOf id
  terminated : ∀ {scope}, w.scopes.Terminated scope → w'.scopes.Terminated scope
  block : ∀ {scope child}, w.BlockIn scope child → w'.BlockIn scope child
  /-- Constructs stay as they are once they have been read. -/
  read : ∀ {scope c id}, w.ReadIn scope c id → w'.ReadIn scope c id

/-- Nothing is added that helps to cover the scope. -/
structure SameAt (scope : ScopeId) (w w' : Walk) : Prop where
  terminated : w'.scopes.Terminated scope → w.scopes.Terminated scope
  block : ∀ {child}, w'.BlockIn scope child → w.BlockIn scope child
  read : ∀ {c id}, w'.ReadIn scope c id → w.ReadIn scope c id
  finalized : ∀ {id?}, w'.FinalizedIn id? scope → w.FinalizedIn id? scope

/-- Nothing is lost, and nothing is added for the scopes that were there and are outside. -/
structure Frame (outside : ScopeId → Prop) (w w' : Walk) : Prop where
  later : w.Later w'
  same : ∀ {scope : Nat}, scope < w.scopes.scopes.length → outside scope → SameAt scope w w'
  /-- Nothing is deferred outside, except by the `defer` statement whose literal is being read. -/
  deferred : ∀ {scope : Nat} {id}, scope < w.scopes.scopes.length → outside scope →
    w.context.deferScope ≠ some scope → w'.DeferredIn id scope → w.DeferredIn id scope

variable {limits : Limits} {w u v w' : Walk} {action : Action} {id : BindingId}
  {e hasFallback : Bool} {kind : ConstructKind} {context : Context} {event : Event}
  {outer : List Context} {id? : Option BindingId} {scope : ScopeId}
  {outside outside' : ScopeId → Prop} {span : Span}

/-! ## Coverage along the way -/

/-- What has been finalized stays finalized. -/
theorem Later.finalized (h : w.Later w') (hfinalized : w.FinalizedIn id? scope) :
    w'.FinalizedIn id? scope := by
  cases id? with
  | none => exact hfinalized
  | some id =>
    obtain ⟨event, hevent, hrest⟩ := hfinalized
    exact ⟨event, (h.events id).subset hevent, hrest⟩

/-- What has been covered stays covered. -/
theorem Later.covered (h : w.Later w') (hcovered : w.Covered id? scope) : w'.Covered id? scope := by
  have hreflects : w.scopes.Reflects w'.scopes w.constructs w'.constructs (w.FinalizedIn id?)
      (w'.FinalizedIn id?) fun _ => True := by
    refine ⟨fun _ => h.finalized, ?_, ?_⟩
    · intro scope child _ hmem hkind _
      obtain ⟨hmem', hkind'⟩ := h.block ⟨hmem, hkind⟩
      exact ⟨hmem', hkind', trivial⟩
    · intro scope c id _ hholds _
      exact Or.inl ⟨h.read hholds, fun arm _ => ⟨trivial, h.terminated⟩⟩
  exact ScopeTree.Covered.transfer hreflects hcovered trivial

theorem Later.refl (w : Walk) : w.Later w :=
  ⟨Nat.le_refl _, fun _ => List.prefix_refl _, id, id, id⟩

/-- One piece of code after the other. -/
theorem Later.trans (h : w.Later u) (h' : u.Later w') : w.Later w' :=
  ⟨Nat.le_trans h.length h'.length, fun id => (h.events id).trans (h'.events id),
    fun ht => h'.terminated (h.terminated ht), fun hb => h'.block (h.block hb),
    fun hr => h'.read (h.read hr)⟩

/-- One piece of code after the other. -/
theorem SameAt.trans (h : SameAt scope w u) (h' : SameAt scope u w') : SameAt scope w w' :=
  ⟨fun ht => h.terminated (h'.terminated ht), fun hb => h.block (h'.block hb),
    fun hr => h.read (h'.read hr), fun hf => h.finalized (h'.finalized hf)⟩

theorem Frame.refl (outside : ScopeId → Prop) (w : Walk) : Frame outside w w :=
  ⟨.refl w, fun _ _ => ⟨id, id, id, id⟩, fun _ _ _ => id⟩

/-- One piece of code after the other; the second one may leave less alone among the new scopes, and
may stand in a deferred literal only where the first one does. -/
theorem Frame.trans (h : Frame outside w u) (h' : Frame outside' u w')
    (houtside : ∀ scope : Nat, scope < w.scopes.scopes.length → outside scope → outside' scope)
    (hdefer : ∀ scope : Nat, scope < w.scopes.scopes.length → outside scope → u.context.deferScope =
      some scope → w.context.deferScope = some scope) :
    Frame outside w w' where
  later := h.later.trans h'.later
  same := fun {scope} hlt hout => (h.same hlt hout).trans
    (h'.same (Nat.lt_of_lt_of_le hlt h.later.length) (houtside scope hlt hout))
  deferred := fun {scope _} hlt hout hne hd => h.deferred hlt hout hne
    (h'.deferred (Nat.lt_of_lt_of_le hlt h.later.length) (houtside scope hlt hout)
      (fun heq => hne (hdefer scope hlt hout heq)) hd)

/-- The two states stand in the same scope and in the same deferred literal. -/
def SameLevel (w u : Walk) : Prop :=
  u.scopes.current = w.scopes.current ∧ u.context.deferScope = w.context.deferScope

/-- Reading code comes back to the same level. -/
theorem Balanced.sameLevel (h : w.Balanced w') : w.SameLevel w' :=
  ⟨h.current, by rw [h.context]⟩

/-- One piece of code after the other on the same level. -/
theorem Frame.chain {shape : Shape} (hlevel : w.SameLevel u)
    (h : Frame (fun scope => shape = .code → scope ≠ w.scopes.current) w u)
    (h' : Frame (fun scope => shape = .code → scope ≠ u.scopes.current) u w') :
    Frame (fun scope => shape = .code → scope ≠ w.scopes.current) w w' := by
  refine h.trans h' (fun scope _ hout => ?_) fun scope _ _ hdefer => ?_
  · rw [hlevel.1]
    exact hout
  · exact hlevel.2 ▸ hdefer

theorem Frame.mono (h : Frame outside' w w')
    (houtside : ∀ scope : Nat, scope < w.scopes.scopes.length → outside scope → outside' scope) :
    Frame outside w w' :=
  ⟨h.later, fun {scope} hlt hout => h.same hlt (houtside scope hlt hout),
    fun {scope _} hlt hout => h.deferred hlt (houtside scope hlt hout)⟩

/-! ## Single actions -/

/-- The events of a binding that is in the table. -/
theorem eventsOf_eq {b : Binding} (h : w.bindings[id]? = some b) : w.eventsOf id = b.events := by
  rw [eventsOf, h, Option.map_some, Option.getD_some]

/-- Rewriting the table appends events to bindings. -/
theorem Rewrites.eventsOf (h : u.Rewrites action w.bindings w'.bindings) (id : BindingId) :
    ∃ recorded, w'.eventsOf id = w.eventsOf id ++ recorded ∧
      ∀ event ∈ recorded, u.Records action id event := by
  cases hold : w.bindings[id]? with
  | some b =>
    obtain ⟨b', hget, hchanges⟩ := h.old hold
    rw [eventsOf_eq hold, eventsOf_eq hget]
    exact hchanges.events
  | none =>
    refine ⟨w'.eventsOf id, ?_, fun event hevent => ?_⟩
    · rw [Walk.eventsOf, Walk.eventsOf, hold]
      rfl
    · cases hnew : w'.bindings[id]? with
      | none =>
        rw [Walk.eventsOf, hnew] at hevent
        cases hevent
      | some b' =>
        rw [eventsOf_eq hnew] at hevent
        rcases h.event_cases hnew hevent with ⟨b, hb, -⟩ | hrecords
        · rw [hold] at hb
          cases hb
        · exact hrecords

theorem Rewrites.mem_eventsOf (h : u.Rewrites action w.bindings w'.bindings)
    (hevent : event ∈ w'.eventsOf id) : event ∈ w.eventsOf id ∨ u.Records action id event := by
  obtain ⟨recorded, hevents, hrecorded⟩ := h.eventsOf id
  rw [hevents, List.mem_append] at hevent
  exact hevent.imp_right (hrecorded event)

theorem Edits.later (h : u.Edits action e w w') : w.Later w' where
  length := Nat.le_of_eq h.length.symm
  events := fun id => by
    obtain ⟨recorded, hevents, -⟩ := h.table.eventsOf id
    exact ⟨recorded, hevents.symm⟩
  terminated := fun ht => (h.terminated _).mpr (Or.inl ht)
  block := fun hb => by
    rw [BlockIn, h.childrenOf, h.kind?]
    exact hb
  read := fun hr => ⟨(h.construct? _).trans hr.get, h.opened ▸ hr.closed, hr.owner⟩

/-- What an edit finalizes directly, outside function literals. -/
theorem Edits.finalizedIn_cases (h : w.Edits action e w w') (hf : w'.FinalizedIn id? scope) :
    w.FinalizedIn id? scope ∨ scope = w.scopes.current ∧
      ∃ id name commit, id? = some id ∧ action = .finalize name commit ∧
        w.resolve name = some id ∧ w.context.closureDepth = 0 := by
  cases id? with
  | none => exact Or.inl hf
  | some id =>
    obtain ⟨event, hevent, hkind, hclosure, hscope⟩ := hf
    rcases h.table.mem_eventsOf hevent with hevent | hrecords
    · exact Or.inl ⟨event, hevent, hkind, hclosure, hscope⟩
    · obtain ⟨name, commit, haction, hresolve, hcurrent, hdepth, -⟩ := hrecords.of_direct hkind
      refine Or.inr ⟨hscope.symm.trans hcurrent, id, name, commit, rfl, haction, hresolve, ?_⟩
      rw [hclosure] at hdepth
      have := of_decide_eq_false hdepth.symm
      omega

/-- What an edit defers, outside the deferred literals of the scope. -/
theorem Edits.deferredIn_cases (h : w.Edits action e w w')
    (hdefer : w.context.deferScope ≠ some scope) (hd : w'.DeferredIn id scope) :
    w.DeferredIn id scope ∨ scope = w.scopes.current ∧ action.isDeferCall = true := by
  obtain ⟨event, hevent, hkind, hscope⟩ := hd
  rcases h.table.mem_eventsOf hevent with hevent | hrecords
  · exact Or.inl ⟨event, hevent, hkind, hscope⟩
  · rcases hrecords.of_deferred hkind with ⟨hcurrent, name, commit, rfl⟩ | hliteral
    · exact Or.inr ⟨hscope.symm.trans hcurrent, rfl⟩
    · exact absurd (hscope ▸ hliteral) hdefer

/-- An edit adds nothing for a scope in which it is no exit and no commit or rollback. -/
theorem Edits.sameAt (h : w.Edits action e w w') (hexit : e = true → scope ≠ w.scopes.current)
    (hfinalize : action.isFinalize = true → scope ≠ w.scopes.current) : SameAt scope w w' := by
  refine ⟨fun ht => ?_, fun hb => ?_, fun hr => ?_, fun hf => ?_⟩
  · rcases (h.terminated scope).mp ht with ht | ⟨he, heq, -⟩
    · exact ht
    · exact absurd heq (hexit he)
  · rwa [BlockIn, h.childrenOf, h.kind?] at hb
  · exact ⟨(h.construct? _).symm.trans hr.get, h.opened ▸ hr.closed, hr.owner⟩
  · rcases h.finalizedIn_cases hf with hf | ⟨heq, _, _, _, -, rfl, -⟩
    · exact hf
    · exact absurd heq (hfinalize rfl)

/-- An edit changes the current scope only. -/
theorem Edits.frame (h : w.Edits action e w w') :
    Frame (· ≠ w.scopes.current) w w' where
  later := h.later
  same := fun _ hout => h.sameAt (fun _ => hout) fun _ => hout
  deferred := fun _ hout hdefer hd => by
    rcases h.deferredIn_cases hdefer hd with hd | ⟨hcurrent, -⟩
    · exact hd
    · exact absurd hcurrent hout

/-- What coverage looks at is the same. -/
theorem Later.of_eq (hscopes : w'.scopes.scopes = w.scopes.scopes)
    (hconstructs : w'.scopes.constructs = w.scopes.constructs)
    (hbindings : w'.bindings = w.bindings) (hopened : w'.constructs = w.constructs) :
    w.Later w' := by
  have hget : ∀ scope, w'.scopes.get? scope = w.scopes.get? scope := by
    intro scope
    rw [ScopeTree.get?, hscopes, ScopeTree.get?]
  refine ⟨Nat.le_of_eq (congrArg _ hscopes.symm), fun id => ?_, fun {scope} ht => ?_,
    fun {scope child} hb => ?_, fun {scope c id} hr => ⟨?_, hopened ▸ hr.closed, hr.owner⟩⟩
  · have hevents : w.eventsOf id = w'.eventsOf id := by
      rw [eventsOf, eventsOf, hbindings]
    exact hevents ▸ List.prefix_refl _
  · rw [ScopeTree.Terminated, hget]
    exact ht
  · rw [BlockIn, ScopeTree.childrenOf, ScopeTree.kind?, hget, hget]
    exact hb
  · rw [ScopeTree.construct?, hconstructs]
    exact hr.get

/-- Where nothing is lost on the way back, nothing has been added. -/
theorem SameAt.of_later (h : w'.Later w) (scope : ScopeId) : SameAt scope w w' where
  terminated := h.terminated
  block := h.block
  read := h.read
  finalized := h.finalized

/-- What has been deferred stays deferred. -/
theorem Later.deferred (h : w.Later w') (hdeferred : w.DeferredIn id scope) :
    w'.DeferredIn id scope := by
  obtain ⟨event, hevent, hrest⟩ := hdeferred
  exact ⟨event, (h.events id).subset hevent, hrest⟩

/-- Nothing that coverage looks at has changed. -/
theorem Frame.of_eq (hscopes : w'.scopes.scopes = w.scopes.scopes)
    (hconstructs : w'.scopes.constructs = w.scopes.constructs)
    (hbindings : w'.bindings = w.bindings) (hopened : w'.constructs = w.constructs) :
    Frame (fun _ => True) w w' := by
  have hback : w'.Later w :=
    .of_eq hscopes.symm hconstructs.symm hbindings.symm hopened.symm
  exact ⟨.of_eq hscopes hconstructs hbindings hopened, fun _ _ => .of_later hback _,
    fun _ _ _ => hback.deferred⟩

/-- Closing a scope changes nothing that coverage looks at. -/
theorem Closes.frame (h : w.Closes context outer w') : Frame (fun _ => True) w w' :=
  .of_eq h.scopes h.constructs h.bindings h.opened

section Opens

variable {kind : ScopeKind} {arm? : Option ConstructId} {context : Context} {outer : List Context}
  (h : w.Opens kind arm? context outer u)
include h

theorem Opens.eventsOf_eq (id : BindingId) : u.eventsOf id = w.eventsOf id := by
  rw [eventsOf, h.bindings, eventsOf]

/-- Opening a scope reads no construct to its end. -/
theorem Opens.readIn_iff (harm : ∀ id ∈ arm?, id ∈ w.constructs) {scope : ScopeId} {c : Construct}
    {id : ConstructId} : u.ReadIn scope c id ↔ w.ReadIn scope c id := by
  -- the construct that gets an arm is one of those that are still being read
  have hconstruct : id ∉ w.constructs → u.scopes.construct? id = w.scopes.construct? id := by
    intro hclosed
    have hne : arm? ≠ some id := fun heq => hclosed (harm id heq)
    rw [h.tree.construct?]
    simp [hne]
  constructor
  · exact fun hr => ⟨hconstruct (h.opened ▸ hr.closed) ▸ hr.get, h.opened ▸ hr.closed, hr.owner⟩
  · exact fun hr => ⟨(hconstruct hr.closed).trans hr.get, h.opened ▸ hr.closed, hr.owner⟩

/-- The scope that opens becomes a child of the current one. -/
theorem Opens.mem_childrenOf_iff {scope child : Nat} (hscope : scope < w.scopes.scopes.length) :
    child ∈ u.scopes.childrenOf scope ↔ child ∈ w.scopes.childrenOf scope ∨
      (scope = w.scopes.current ∧ child = w.scopes.scopes.length) := by
  rw [h.tree.childrenOf_old hscope, List.mem_append]
  refine or_congr Iff.rfl ?_
  split <;> simp_all

/-- Opening a scope changes the current one only, and that only where a block opens. -/
theorem Opens.frame (harm : ∀ id ∈ arm?, id ∈ w.constructs) (hwf : w.scopes.WellFormed) :
    Frame (fun scope => kind = .block → scope ≠ w.scopes.current) w u := by
  have hlt : ∀ {scope child : Nat}, w.BlockIn scope child →
      scope < w.scopes.scopes.length ∧ child < w.scopes.scopes.length := by
    intro scope child hb
    have hordered := hwf.ordered.child hb.1
    omega
  refine ⟨⟨?_, fun id => ?_, fun {scope} ht => ?_, fun {scope child} hb => ?_,
    (h.readIn_iff harm).mpr⟩, ?_, ?_⟩
  · rw [h.tree.length]
    exact Nat.le_succ _
  · exact h.eventsOf_eq id ▸ List.prefix_refl _
  · have hscope : scope < w.scopes.scopes.length := by
      obtain ⟨s, hget, -⟩ := (Option.any_eq_true _ _).mp ht
      exact (List.getElem?_eq_some_iff.mp hget).1
    exact (h.tree.terminated_old hscope).mpr ht
  · obtain ⟨hscope, hchild⟩ := hlt hb
    exact ⟨(h.mem_childrenOf_iff hscope).mpr (Or.inl hb.1),
      (h.tree.kind?_old hchild).trans hb.2⟩
  · intro scope hscope hout
    refine ⟨(h.tree.terminated_old hscope).mp, fun {child} hb => ?_, (h.readIn_iff harm).mp,
      fun {id?} hf => ?_⟩
    · rcases (h.mem_childrenOf_iff hscope).mp hb.1 with hmem | ⟨hcurrent, hfresh⟩
      · exact ⟨hmem, (h.tree.kind?_old (hwf.ordered.child hmem).2).symm.trans hb.2⟩
      · have hkind := hb.2
        rw [hfresh, h.tree.kind?_fresh, Option.some.injEq] at hkind
        exact absurd hcurrent (hout hkind)
    · cases id? with
      | none => exact hf
      | some id => simpa only [FinalizedIn, h.eventsOf_eq] using hf
  · intro scope id _ _ _ hd
    simpa only [DeferredIn, h.eventsOf_eq] using hd

end Opens

/-- Registering a construct that is to be read adds nothing. -/
theorem frame_openConstruct (hexec : w.exec limits (.openConstruct kind hasFallback span) = .ok u) :
    Frame (fun _ => True) w u := by
  cases hexec
  have hread : ∀ {scope c id}, (w.openConstruct kind hasFallback span).ReadIn scope c id ↔
      w.ReadIn scope c id := by
    intro scope c id
    constructor
    · intro hr
      -- the new construct is open, so it is none of those that have been read
      have hne : id ≠ w.scopes.constructs.length := fun heq => hr.closed (by
        rw [heq]
        exact List.mem_cons_self)
      refine ⟨?_, fun hmem => hr.closed (List.mem_cons_of_mem _ hmem), hr.owner⟩
      have hget := hr.get
      have hlt := (List.getElem?_eq_some_iff.mp hget).1
      simp only [openConstruct, ScopeTree.openConstruct, List.length_append,
        List.length_singleton] at hlt
      refine (List.getElem?_append_left ?_).symm.trans hget
      exact Nat.lt_of_le_of_ne (Nat.le_of_lt_succ hlt) hne
    · intro hr
      refine ⟨ScopeTree.construct?_openConstruct hr.get kind hasFallback span, ?_, hr.owner⟩
      intro hmem
      rcases List.mem_cons.mp hmem with heq | hmem
      · have hlt := (List.getElem?_eq_some_iff.mp hr.get).1
        exact absurd heq (Nat.ne_of_lt hlt)
      · exact hr.closed hmem
  exact ⟨⟨Nat.le_refl _, fun _ => List.prefix_refl _, id, id, hread.mpr⟩,
    fun _ _ => ⟨id, id, hread.mp, id⟩, fun _ _ _ => id⟩

/-- Closing a construct adds to the scope in which it stands. -/
theorem frame_closeConstruct (hready : w.Ready .arms)
    (hexec : w.exec limits .closeConstruct = .ok w') : Frame (· ≠ w.scopes.current) w w' := by
  cases hexec
  obtain ⟨id, rest, c, hopened, hc, howner⟩ := hready.construct rfl
  refine ⟨⟨Nat.le_refl _, fun _ => List.prefix_refl _, fun h => h, fun h => h, fun hr => ?_⟩,
    fun {scope} _ hout => ⟨fun h => h, fun h => h, fun {c' id'} hr => ?_, fun h => h⟩,
    fun _ _ _ h => h⟩
  · exact ⟨hr.get, fun hmem => hr.closed (List.mem_of_mem_tail hmem), hr.owner⟩
  · refine ⟨hr.get, fun hmem => ?_, hr.owner⟩
    rw [hopened] at hmem
    rcases List.mem_cons.mp hmem with rfl | hmem
    · -- the construct that closes stands in the current scope
      have hget := hr.get
      rw [show w.scopes.construct? id' = some c' from hget, Option.some.injEq] at hc
      exact hout (by rw [← hr.owner, hc, howner])
    · exact hr.closed (by rw [hopened]; exact hmem)

/-- A change of the guards of an `if` adds nothing. -/
theorem frame_guard (haction : (∃ names, action = .openGuard names) ∨ action = .closeGuard)
    (hexec : w.exec limits action = .ok w') : Frame (fun _ => True) w w' := by
  rcases haction with ⟨names, rfl⟩ | rfl <;>
  · cases hexec
    exact .of_eq rfl rfl rfl rfl

/-- Registering a construct stays on the level. -/
theorem sameLevel_openConstruct
    (hexec : w.exec limits (.openConstruct kind hasFallback span) = .ok u) : w.SameLevel u := by
  cases hexec
  exact ⟨rfl, rfl⟩

/-- A change of the guards stays on the level. -/
theorem sameLevel_guard (haction : (∃ names, action = .openGuard names) ∨ action = .closeGuard)
    (hexec : w.exec limits action = .ok w') : w.SameLevel w' := by
  rcases haction with ⟨names, rfl⟩ | rfl <;>
  · cases hexec
    exact ⟨rfl, rfl⟩

/-! ## Code in a scope of its own -/

/-- Code that is read in a scope of its own changes nothing outside, where the block that it may be
and the scope of the `defer` statement to which it may belong are not outside. -/
theorem Frame.enclosed {kind : ScopeKind} {arm? : Option ConstructId} {context' : Context}
    {outer' : List Context} (hopens : w.Opens kind arm? context outer u)
    (harm : ∀ id ∈ arm?, id ∈ w.constructs) (hwf : w.scopes.WellFormed)
    (hblock : ∀ scope, outside scope → kind = .block → scope ≠ w.scopes.current)
    (hdeferred : ∀ scope, outside scope → context.deferScope = some scope →
      w.context.deferScope = some scope)
    (hbody : Frame (· ≠ u.scopes.current) u v) (hbalanced : u.Balanced v)
    (hcloses : v.Closes context' outer' w') : Frame outside w w' := by
  -- the scope in which the code stands is new
  have hcurrent : ∀ scope : Nat, scope < w.scopes.scopes.length → scope ≠ u.scopes.current := by
    intro scope hlt heq
    rw [heq, hopens.tree.current] at hlt
    exact Nat.lt_irrefl _ hlt
  have hinner : Frame (· ≠ u.scopes.current) u w' :=
    hbody.trans hcloses.frame (fun _ _ _ => trivial) fun scope _ _ hdefer => by
      rw [hbalanced.context] at hdefer
      exact hdefer
  have houter : Frame outside w u :=
    (hopens.frame harm hwf).mono fun scope _ hout => hblock scope hout
  refine houter.trans hinner (fun scope hlt _ => hcurrent scope hlt) ?_
  intro scope _ hout hdefer
  rw [hopens.context_eq] at hdefer
  exact hdeferred scope hout hdefer

/-- Code leaves all scopes alone but the one in which it stands; the arms of a construct leave that
one alone, too, until the construct is closed. -/
theorem Traverses.frame {shape : Shape} {actions : List Action}
    (h : w.Traverses limits shape actions w') :
    Frame (fun scope => shape = .code → scope ≠ w.scopes.current) w w' := by
  -- between the statement for both shapes and those for code, for arms and for all scopes
  have hcode : ∀ {w w' : Walk}, Frame (· ≠ w.scopes.current) w w' →
      Frame (fun scope => Shape.code = .code → scope ≠ w.scopes.current) w w' :=
    fun h => h.mono fun _ _ hout => hout rfl
  have hbare : ∀ {w w' : Walk},
      Frame (fun scope => Shape.code = .code → scope ≠ w.scopes.current) w w' →
      Frame (· ≠ w.scopes.current) w w' :=
    fun h => h.mono fun _ _ hout _ => hout
  have hall : ∀ {shape : Shape} {w w' : Walk}, Frame (fun _ => True) w w' →
      Frame (fun scope => shape = .code → scope ≠ w.scopes.current) w w' :=
    fun h => h.mono fun _ _ _ => trivial
  have harms : ∀ {w w' : Walk},
      Frame (fun scope => Shape.arms = .code → scope ≠ w.scopes.current) w w' →
      Frame (fun scope => Shape.code = .code → scope ≠ w.scopes.current) w w' :=
    fun h => h.mono fun _ _ _ hshape => by cases hshape
  induction h with
  | nil _ => exact .refl _ _
  | step haction h => exact hcode (h.edits haction).frame
  | append hfirst _ ih₁ ih₂ => exact Frame.chain hfirst.balanced.sameLevel ih₁ ih₂
  | scope _ hopen hbody hclose ih =>
    exact .enclosed (exec_enter hopen.exec) (by simp) hopen.ready.wellFormed.tree
      (fun _ hout _ => hout rfl) (fun _ _ hdefer => hdefer) (hbare ih) hbody.balanced
      (closes_of_leave hclose.exec)
  | @body _ _ _ _ kind _ hopen hbody hclose ih =>
    refine .enclosed (exec_openBody hopen.exec) (by simp) hopen.ready.wellFormed.tree
      (fun _ hout _ => hout rfl) (fun scope hout hdefer => ?_) (hbare ih) hbody.balanced
      (exec_closeBody hclose.exec)
    cases kind with
    | closure => cases hdefer
    | deferred => exact absurd (Option.some.inj hdefer).symm (hout rfl)
    | goroutine launch => exact hdefer
  | branches hguard hconstruct hfirst hunguard hrest hclose ihFirst ihRest =>
    refine Frame.chain (sameLevel_guard (Or.inl ⟨_, rfl⟩) hguard.exec)
      (hall (frame_guard (Or.inl ⟨_, rfl⟩) hguard.exec)) ?_
    refine Frame.chain (sameLevel_openConstruct hconstruct.exec)
      (hall (frame_openConstruct hconstruct.exec)) ?_
    refine Frame.chain hfirst.balanced.sameLevel (harms ihFirst) ?_
    refine Frame.chain (sameLevel_guard (Or.inr rfl) hunguard.exec)
      (hall (frame_guard (Or.inr rfl) hunguard.exec)) ?_
    exact Frame.chain hrest.balanced.sameLevel (harms ihRest)
      (hcode (frame_closeConstruct hclose.ready hclose.exec))
  | clauses hopen hclauses hclose ih =>
    refine Frame.chain (sameLevel_openConstruct hopen.exec)
      (hall (frame_openConstruct hopen.exec)) ?_
    exact Frame.chain hclauses.balanced.sameLevel (harms ih)
      (hcode (frame_closeConstruct hclose.ready hclose.exec))
  | @arm _ _ _ _ kind _ hkind hopen hbody hclose ih =>
    refine .enclosed (exec_enterArm hopen.exec) hopen.head_mem hopen.ready.wellFormed.tree
      (fun _ _ hblock => ?_) (fun _ _ hdefer => hdefer) (hbare ih) hbody.balanced
      (closes_of_leave hclose.exec)
    rw [hblock] at hkind
    cases hkind

/-- Code leaves all scopes alone but the one in which it stands. -/
theorem Traverses.frame_code {actions : List Action} (h : w.Traverses limits .code actions w') :
    Frame (· ≠ w.scopes.current) w w' :=
  h.frame.mono fun _ _ hout _ => hout

end Walk

namespace Flow.Walks

open Walk

variable {limits : Limits} {shape : Shape} {flow : Flow shape} {w w' : Walk}

/-- Reading code leaves all scopes alone but the one in which it stands; reading the arms of a
construct leaves that one alone, too, until the construct is closed. -/
theorem frame (h : flow.Walks limits w w') :
    Frame (fun scope => shape = .code → scope ≠ w.scopes.current) w w' :=
  h.traverses.frame

/-- Reading code leaves all scopes alone but the one in which it stands. -/
theorem frame_code {code : Flow .code} (h : code.Walks limits w w') :
    Frame (· ≠ w.scopes.current) w w' :=
  h.traverses.frame_code

/-- Reading arms leaves all scopes alone. -/
theorem frame_arms {arms : Flow .arms} (h : arms.Walks limits w w') :
    Frame (fun _ => True) w w' :=
  h.frame.mono fun _ _ _ hshape => by cases hshape

end Flow.Walks

/-! ## Coverage carried back -/

namespace Walk

variable {limits : Limits} {w u v w' : Walk} {action : Action} {id? : Option BindingId}
  {id : BindingId} {e : Bool} {scope : ScopeId}

/-- Events stand in scopes that are there. -/
theorem WellFormed.event_lt (h : w.WellFormed) {event : Event} (hevent : event ∈ w.eventsOf id) :
    (event.scope : Nat) < w.scopes.scopes.length := by
  cases hget : w.bindings[id]? with
  | none =>
    rw [eventsOf, hget] at hevent
    cases hevent
  | some b =>
    rw [eventsOf_eq hget] at hevent
    exact h.events hget hevent

/-- Coverage carries back over code that adds nothing to a set of scopes that is closed under
blocks and arms. -/
theorem covered_of_sameAt (within : ScopeId → Prop)
    (hsame : ∀ {scope}, within scope → SameAt scope w w')
    (hblock : ∀ {scope child}, within scope → w.BlockIn scope child → within child)
    (harm : ∀ {scope c id}, within scope → w.ReadIn scope c id → ∀ arm ∈ c.arms, within arm)
    (hwithin : within scope) (h : w'.Covered id? scope) : w.Covered id? scope := by
  refine ScopeTree.Covered.transfer ⟨fun hscope => (hsame hscope).finalized, ?_, ?_⟩ h hwithin
  · intro scope child hscope hmem hkind _
    have hb := (hsame hscope).block ⟨hmem, hkind⟩
    exact ⟨hb.1, hb.2, hblock hscope hb⟩
  · intro scope c id hscope hholds _
    have hr := (hsame hscope).read hholds
    exact Or.inl ⟨hr, fun arm hmem =>
      ⟨harm hscope hr arm hmem, (hsame (harm hscope hr arm hmem)).terminated⟩⟩

/-- Coverage carries back over code that adds nothing to any scope that was there. -/
theorem covered_of_all (hwf : w.WellFormed)
    (hsame : ∀ {scope : Nat}, scope < w.scopes.scopes.length → SameAt scope w w') {scope : Nat}
    (hlt : scope < w.scopes.scopes.length) (h : w'.Covered id? scope) : w.Covered id? scope := by
  refine covered_of_sameAt (fun scope : Nat => scope < w.scopes.scopes.length) hsame ?_ ?_ hlt h
  · intro scope child _ hb
    exact (hwf.tree.ordered.child hb.1).2
  · intro scope c id _ hr arm hmem
    exact ScopeTree.lt_of_parent? (hwf.tree.arm hr.get hmem)

/-- The coverage of a scope that has been left does not change any more. -/
theorem covered_of_closed (hwf : w.WellFormed)
    (hsame : ∀ {scope : Nat}, scope < w.scopes.scopes.length → scope ∉ w.scopes.stack →
      SameAt scope w w')
    {scope : Nat} (hlt : scope < w.scopes.scopes.length) (hclosed : scope ∉ w.scopes.stack)
    (h : w'.Covered id? scope) : w.Covered id? scope := by
  -- a scope in a closed one is closed: the scope around an open one is open
  have hinner : ∀ {inner outer : Nat}, w.scopes.parent? inner = some outer →
      outer ∉ w.scopes.stack → inner < w.scopes.scopes.length ∧ inner ∉ w.scopes.stack := by
    intro inner outer hparent houter
    exact ⟨ScopeTree.lt_of_parent? hparent, fun hopen =>
      houter (hwf.tree.stack.parent_mem hwf.tree.root hopen hparent)⟩
  refine covered_of_sameAt
    (fun scope : Nat => scope < w.scopes.scopes.length ∧ scope ∉ w.scopes.stack)
    (fun hscope => hsame hscope.1 hscope.2) ?_ ?_ ⟨hlt, hclosed⟩ h
  · intro scope child hscope hb
    exact hinner (hwf.tree.child hb.1) hscope.2
  · intro scope c id hscope hr arm hmem
    refine hinner (hwf.tree.arm hr.get hmem) ?_
    rw [hr.owner]
    exact hscope.2

section Opens

variable {kind : ScopeKind} {arm? : Option ConstructId} {context : Context} {outer : List Context}
  (h : w.Opens kind arm? context outer u)
include h

/-- A scope that has just been opened is not covered. -/
theorem Opens.not_covered (hwf : w.WellFormed) : ¬ u.Covered id? w.scopes.scopes.length := by
  intro hcovered
  cases hcovered with
  | direct hf =>
    cases id? with
    | none => exact hf
    | some id =>
      obtain ⟨event, hevent, -, -, hscope⟩ := hf
      rw [h.eventsOf_eq] at hevent
      have hlt := hwf.event_lt hevent
      rw [hscope] at hlt
      exact Nat.lt_irrefl _ hlt
  | block hmem _ _ =>
    rw [h.tree.childrenOf_fresh] at hmem
    cases hmem
  | branch hholds _ _ _ =>
    -- constructs stand in scopes that were there before
    have hget := hholds.get
    rw [h.tree.construct?] at hget
    obtain ⟨c, hc, heq⟩ := Option.map_eq_some_iff.mp hget
    have hlt := hwf.tree.owner hc
    have howner : c.owner = w.scopes.scopes.length := by
      rw [← hholds.owner, ← heq]
      split <;> rfl
    rw [howner] at hlt
    exact Nat.lt_irrefl _ hlt

theorem Opens.covered (harm : ∀ id ∈ arm?, id ∈ w.constructs) (hwf : w.WellFormed) {scope : Nat}
    (hlt : scope < w.scopes.scopes.length) (hcovered : u.Covered id? scope) :
    w.Covered id? scope := by
  have hreflects : u.scopes.Reflects w.scopes u.constructs w.constructs (u.FinalizedIn id?)
      (w.FinalizedIn id?) fun scope : Nat => scope < w.scopes.scopes.length := by
    refine ⟨fun {scope} _ hf => ?_, ?_, ?_⟩
    · cases id? with
      | none => exact hf
      | some id => simpa only [FinalizedIn, h.eventsOf_eq] using hf
    · intro scope child hscope hmem hkind hchild
      rcases (h.mem_childrenOf_iff hscope).mp hmem with hmem | ⟨-, hfresh⟩
      · have hold := (hwf.tree.ordered.child hmem).2
        exact ⟨hmem, (h.tree.kind?_old hold).symm.trans hkind, hold⟩
      · -- the new scope is a block of this one, but it is empty
        rw [hfresh] at hchild
        exact absurd hchild (h.not_covered hwf)
    · intro scope c id _ hholds _
      have hr := (h.readIn_iff harm).mp hholds
      refine Or.inl ⟨hr, fun arm hmem => ?_⟩
      have hold := ScopeTree.lt_of_parent? (hwf.tree.arm hr.get hmem)
      exact ⟨hold, (h.tree.terminated_old hold).mp⟩
  exact ScopeTree.Covered.transfer hreflects hcovered hlt

end Opens

/-- An edit that is no exit covers what was covered before, where the direct finalizations in it
were known before; they may have been known for another binding. -/
theorem Edits.covered {other? : Option BindingId} (h : w.Edits action false w w')
    (hfinalized : ∀ {scope}, w'.FinalizedIn id? scope → w.FinalizedIn other? scope)
    (hcovered : w'.Covered id? scope) : w.Covered other? scope := by
  have hreflects : w'.scopes.Reflects w.scopes w'.constructs w.constructs (w'.FinalizedIn id?)
      (w.FinalizedIn other?) fun _ => True := by
    refine ⟨fun _ hf => hfinalized hf, ?_, ?_⟩
    · intro scope child _ hmem hkind _
      rw [h.childrenOf] at hmem
      exact ⟨hmem, (h.kind? child).symm.trans hkind, trivial⟩
    · intro scope c id _ hholds _
      refine Or.inl ⟨⟨(h.construct? id).symm.trans hholds.get, h.opened ▸ hholds.closed,
        hholds.owner⟩, fun arm _ => ⟨trivial, fun ht => ?_⟩⟩
      rcases (h.terminated arm).mp ht with ht | ⟨hexit, -⟩
      · exact ht
      · cases hexit
  exact ScopeTree.Covered.transfer hreflects hcovered trivial

end Walk

end TxLifecycle
