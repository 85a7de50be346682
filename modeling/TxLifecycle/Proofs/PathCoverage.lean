import TxLifecycle.Proofs.Following

/-!
# Coverage of a scope

`Binding.finalizes` judges from the scope tree whether every path through a scope finalizes a
transaction. This file shows that it is right: a path through the code of a covered scope that
falls through to its end commits or rolls back the variable.

* `Flow.Walks.reads`: the scopes of a walk are those of its regions, in the same order, and the code
  of each region has been read;
* `Walk.Passage`: that code was read from a state in which its scope was empty, and what covers the
  scope at the end of the walk covered it when it was left;
* `FunctionUnit.finalizes_sound`: the main statement.
-/

namespace TxLifecycle

namespace Walk

variable {limits : Limits} {w u v w' : Walk} {action : Action} {context : Context}
  {outer : List Context}

/-! ## The kinds of scopes -/

/-- The kinds of all scopes, in the order of opening. -/
def kinds (w : Walk) : List ScopeKind :=
  w.scopes.scopes.map (·.kind)

/-- The kind at an index is that of the scope. -/
theorem getElem?_kinds (w : Walk) (scope : Nat) : w.kinds[scope]? = w.scopes.kind? scope := by
  rw [kinds, List.getElem?_map, ScopeTree.kind?, ScopeTree.get?]

/-- There are as many kinds as scopes. -/
theorem length_kinds (w : Walk) : w.kinds.length = w.scopes.scopes.length := by
  rw [kinds, List.length_map]

theorem Edits.kinds_eq {e : Bool} (h : u.Edits action e w w') : w'.kinds = w.kinds := by
  apply List.ext_getElem?
  intro scope
  rw [getElem?_kinds, getElem?_kinds, h.kind?]

/-- A scope that opens is the last one. -/
theorem Opens.kinds_eq {kind : ScopeKind} {arm? : Option ConstructId}
    (h : w.Opens kind arm? context outer u) : u.kinds = w.kinds ++ [kind] := by
  apply List.ext_getElem?
  intro scope
  rcases Nat.lt_trichotomy scope w.scopes.scopes.length with hlt | rfl | hgt
  · rw [getElem?_kinds, h.tree.kind?_old hlt,
      List.getElem?_append_left (by rw [length_kinds]; exact hlt), getElem?_kinds]
  · rw [getElem?_kinds, h.tree.kind?_fresh, ← length_kinds, List.getElem?_concat_length]
  · rw [List.getElem?_eq_none (by rw [length_kinds, h.tree.length]; exact hgt),
      List.getElem?_eq_none (by rw [List.length_append, length_kinds]; exact hgt)]

theorem Closes.kinds_eq (h : w.Closes context outer u) : u.kinds = w.kinds := by
  rw [kinds, h.scopes, kinds]

theorem kinds_of_eq (h : w'.scopes.scopes = w.scopes.scopes) : w'.kinds = w.kinds := by
  rw [kinds, h, kinds]

/-- Actions that open and close nothing open no scope. -/
theorem kinds_of_run {actions : List Action} (hinner : ∀ a ∈ actions, a.isInner = true)
    (hready : w.Ready .code) (h : w.run limits actions = .ok w') : w'.kinds = w.kinds :=
  (Sound.inner hinner hready.wellFormed).preserves (P := fun v => v.kinds = w.kinds) h
    (fun ha hwf hexec heq => (exec_edits hwf.indexed (hinner _ ha) hexec).kinds_eq.trans heq) rfl

end Walk

namespace Walk

variable {limits : Limits} {w u v w' : Walk} {action : Action} {scope : Nat} {region : Region}
  {context : Context} {outer : List Context} {arm? : Option ConstructId} {kind : ScopeKind}

/-! ## Scopes that have been left -/

/-- The later state changes nothing in the scopes that had been left in the earlier one. -/
structure Onward (v w : Walk) : Prop where
  length : v.scopes.scopes.length ≤ w.scopes.scopes.length
  /-- Nothing is added to a scope that had been left. -/
  same : ∀ {scope : Nat}, scope < v.scopes.scopes.length → scope ∉ v.scopes.stack →
    SameAt scope v w
  stack : ∀ scope : Nat, scope ∈ w.scopes.stack → scope < v.scopes.scopes.length →
    scope ∈ v.scopes.stack
  names : v.KeepsNames w

namespace Onward

theorem refl (w : Walk) : Onward w w :=
  ⟨Nat.le_refl _, fun _ _ => ⟨id, id, id, id⟩, fun _ hopen _ => hopen, .refl w⟩

/-- One piece of code after the other. -/
theorem trans (h : Onward v u) (h' : Onward u w) : Onward v w where
  length := Nat.le_trans h.length h'.length
  same := fun {scope} hlt hclosed => (h.same hlt hclosed).trans
    (h'.same (Nat.lt_of_lt_of_le hlt h.length) fun hopen => hclosed (h.stack scope hopen hlt))
  stack := fun scope hopen hlt =>
    h.stack scope (h'.stack scope hopen (Nat.lt_of_lt_of_le hlt h.length)) hlt
  names := h.names.trans h'.names

/-- Changes of open scopes only, by which none is entered. -/
theorem of_frame {outside : ScopeId → Prop} (hframe : Frame outside v w)
    (houtside : ∀ scope, scope ∉ v.scopes.stack → outside scope)
    (hstack : ∀ scope : Nat, scope ∈ w.scopes.stack → scope ∈ v.scopes.stack)
    (hnames : v.KeepsNames w) : Onward v w where
  length := hframe.later.length
  same := fun {scope} hlt hclosed => hframe.same hlt (houtside scope hclosed)
  stack := fun scope hopen _ => hstack scope hopen
  names := hnames

/-- A scope that is not open is not the current one. -/
theorem ne_current (h : v.WellFormed) {scope : ScopeId} (hclosed : scope ∉ v.scopes.stack) :
    scope ≠ v.scopes.current :=
  fun heq => hclosed (heq ▸ h.tree.current_mem)

/-- An action that opens and closes nothing. -/
theorem of_edits {e : Bool} (h : v.Edits action e v w) (hwf : v.WellFormed) : Onward v w :=
  of_frame h.frame (fun _ hclosed => ne_current hwf hclosed) (fun _ hopen => h.stack ▸ hopen)
    (.of_rewrites h.table)

variable {context : Context} {outer : List Context}

theorem of_closes (h : v.Closes context outer w) : Onward v w := by
  refine of_frame h.frame (fun _ _ => trivial) (fun scope hopen => ?_) (.of_eq h.bindings)
  obtain ⟨id, hstack⟩ := h.stack
  rw [hstack]
  exact List.mem_cons_of_mem _ hopen

theorem of_opens {kind : ScopeKind} {arm? : Option ConstructId}
    (h : v.Opens kind arm? context outer w) (harm : ∀ id ∈ arm?, id ∈ v.constructs)
    (hwf : v.WellFormed) : Onward v w where
  length := (h.frame harm hwf.tree).later.length
  same := fun hlt hclosed =>
    (h.frame harm hwf.tree).same hlt fun _ => ne_current hwf hclosed
  stack := fun scope hopen hlt => by
    rw [h.tree.stack] at hopen
    rcases List.mem_cons.mp hopen with rfl | hopen
    · exact absurd hlt (Nat.lt_irrefl _)
    · exact hopen
  names := .of_eq h.bindings

theorem of_openConstruct {kind : ConstructKind} {hasFallback : Bool} {span : Span}
    (hexec : v.exec limits (.openConstruct kind hasFallback span) = .ok w) : Onward v w := by
  have hframe := frame_openConstruct hexec
  cases hexec
  exact of_frame hframe (fun _ _ => trivial) (fun _ hopen => hopen) (.of_eq rfl)

theorem of_closeConstruct (hready : v.Ready .arms)
    (hexec : v.exec limits .closeConstruct = .ok w) : Onward v w := by
  have hframe := frame_closeConstruct hready hexec
  cases hexec
  exact of_frame hframe (fun _ hclosed => ne_current hready.wellFormed hclosed)
    (fun _ hopen => hopen) (.of_eq rfl)

theorem of_guard (haction : (∃ names, action = .openGuard names) ∨ action = .closeGuard)
    (hexec : v.exec limits action = .ok w) : Onward v w := by
  have hframe := frame_guard haction hexec
  rcases haction with ⟨names, rfl⟩ | rfl <;>
  · cases hexec
    exact of_frame hframe (fun _ _ => trivial) (fun _ hopen => hopen) (.of_eq rfl)

end Onward

/-! ## Regions that have been read -/

/-- The code of the region was read from `u` to `v` in the scope, which was empty at the start and
as covered at the end as it is in `w`. -/
structure Passage (limits : Limits) (w : Walk) (scope : Nat) (region : Region) (u v : Walk) :
    Prop where
  start : Walk.run limits {} region.before = .ok u
  code : region.code.Walks limits u v
  current : u.scopes.current = scope
  /-- Code that is in no literal is in no deferred one. -/
  following : region.inLiteral = false → u.Following scope []
  /-- Bindings have kept their names since. -/
  names : v.KeepsNames w
  /-- Nothing has covered the scope since. -/
  covered : ∀ {id?}, w.Covered id? scope → v.Covered id? scope

/-- The region is the code of the scope, and the scope has been left. -/
structure Entered (limits : Limits) (w : Walk) (scope : Nat) (region : Region) : Prop where
  lt : scope < w.scopes.scopes.length
  closed : scope ∉ w.scopes.stack
  read : ∃ u v, Passage limits w scope region u v

/-- Reading on keeps what has been read. -/
theorem Entered.onward (h : Entered limits w scope region) (hwf : w.WellFormed)
    (honward : Onward w w') : Entered limits w' scope region where
  lt := Nat.lt_of_lt_of_le h.lt honward.length
  closed := fun hopen => h.closed (honward.stack scope hopen h.lt)
  read := by
    obtain ⟨u, v, hpassage⟩ := h.read
    exact ⟨u, v, { hpassage with
      names := hpassage.names.trans honward.names
      covered := fun hlater =>
        hpassage.covered (covered_of_closed hwf honward.same h.lt h.closed hlater) }⟩

/-- A path begins in a scope that has just been opened. -/
theorem Opens.following (h : w.Opens kind arm? context outer u) (hwf : w.WellFormed)
    (hcontext : context.deferScope = none) : u.Following w.scopes.scopes.length [] := by
  have honly : ∀ scope : Nat, scope ∈ u.scopes.stack → w.scopes.scopes.length ≤ scope →
      scope = w.scopes.scopes.length := by
    intro scope hopen hle
    rw [h.tree.stack] at hopen
    rcases List.mem_cons.mp hopen with heq | hold
    · exact heq
    · have := hwf.tree.stack_lt hold
      omega
  refine ⟨?_, h.context_eq ▸ hcontext, fun scope hopen hle ht => ?_,
    fun id? _ scope hopen hle hcovered => ?_, fun id scope hopen hle hd => ?_⟩
  · rw [h.tree.stack]
    exact List.mem_cons_self
  · rw [honly scope hopen hle] at ht
    exact h.tree.not_terminated_fresh ht
  · rw [honly scope hopen hle] at hcovered
    exact h.not_covered hwf hcovered
  · rw [honly scope hopen hle, DeferredIn, h.eventsOf_eq] at hd
    obtain ⟨event, hevent, -, heq⟩ := hd
    have hlt := hwf.event_lt hevent
    rw [heq] at hlt
    exact absurd hlt (Nat.lt_irrefl _)

/-- A scope is entered, its code is read, and it is left again. -/
theorem entered_of_walks {context' : Context} {outer' : List Context} (hwf : w.WellFormed)
    (hopens : w.Opens kind arm? context outer u) (hat : Walk.run limits {} region.before = .ok u)
    (hcode : region.code.Walks limits u v) (hcloses : v.Closes context' outer' w')
    (hdefer : region.inLiteral = false → context.deferScope = none) :
    Entered limits w' w.scopes.scopes.length region where
  lt := by
    have hlength := hcode.frame.later.length
    rw [hopens.tree.length] at hlength
    rw [hcloses.scopes]
    omega
  closed := fun hopen => by
    obtain ⟨id, hstack⟩ := hcloses.stack
    rw [hcode.balanced.stack, hopens.tree.stack] at hstack
    rw [← (List.cons.inj hstack).2] at hopen
    exact Nat.lt_irrefl _ (hwf.tree.stack_lt hopen)
  read := by
    refine ⟨u, v, hat, hcode, hopens.tree.current,
      fun hliteral => hopens.following hwf (hdefer hliteral), .of_eq hcloses.bindings,
      fun hcovered => ?_⟩
    refine covered_of_all hcode.ready'.wellFormed (fun hlt => hcloses.frame.same hlt trivial) ?_
      hcovered
    have hlength := hcode.frame.later.length
    rw [hopens.tree.length] at hlength
    omega

end Walk

/-- The regions satisfy `P` with consecutive scopes from `first` on. -/
def Located (P : Nat → Region → Prop) : Nat → List Region → Prop
  | _, [] => True
  | first, region :: rest => P first region ∧ Located P (first + 1) rest

namespace Located

variable {P Q : Nat → Region → Prop} {first : Nat} {regions others : List Region}
  (h : Located P first regions)
include h

theorem append (h' : Located P (first + regions.length) others) :
    Located P first (regions ++ others) := by
  induction regions generalizing first with
  | nil => exact h'
  | cons region rest ih =>
    refine ⟨h.1, ih h.2 ?_⟩
    rw [List.length_cons] at h'
    rwa [Nat.add_right_comm]

theorem mono (himp : ∀ scope region, P scope region → Q scope region) :
    Located Q first regions := by
  induction regions generalizing first with
  | nil => trivial
  | cons region rest ih => exact ⟨himp _ _ h.1, ih h.2⟩

/-- The region at an index. -/
theorem get {i : Nat} {region : Region} (hget : regions[i]? = some region) :
    P (first + i) region := by
  induction regions generalizing first i with
  | nil => simp at hget
  | cons head rest ih =>
    cases i with
    | zero =>
      obtain rfl : head = region := by simpa using hget
      exact h.1
    | succ i =>
      have hrest := ih h.2 (by simpa using hget)
      rwa [Nat.add_assoc, Nat.add_comm 1] at hrest

end Located

namespace Walk

variable {limits : Limits} {w u v w' : Walk} {action : Action} {regions others : List Region}

/-- Between the two states the scopes of the regions have been opened, read and left. -/
structure Reads (limits : Limits) (w w' : Walk) (regions : List Region) : Prop where
  onward : Onward w w'
  /-- The regions are those of the new scopes. -/
  kinds_eq : w'.kinds = w.kinds ++ regions.map (·.kind)
  located : Located (Entered limits w') w.scopes.scopes.length regions

namespace Reads

/-- There are as many new scopes as regions. -/
theorem length_eq (h : Reads limits w w' regions) :
    w'.scopes.scopes.length = w.scopes.scopes.length + regions.length := by
  rw [← length_kinds, h.kinds_eq, List.length_append, List.length_map, length_kinds]

/-- One piece of code after the other. -/
theorem trans (h : Reads limits w u regions) (hwf : u.WellFormed) (h' : Reads limits u w' others) :
    Reads limits w w' (regions ++ others) where
  onward := h.onward.trans h'.onward
  kinds_eq := by rw [h'.kinds_eq, h.kinds_eq, List.map_append, List.append_assoc]
  located := by
    refine Located.append (h.located.mono fun _ _ hentered => hentered.onward hwf h'.onward) ?_
    rw [← h.length_eq]
    exact h'.located

theorem quiet (honward : Onward w w') (hkinds : w'.kinds = w.kinds) : Reads limits w w' [] where
  onward := honward
  kinds_eq := by rw [hkinds, List.map_nil, List.append_nil]
  located := trivial

/-- An action that opens and closes nothing runs. -/
theorem of_inner {shape shape' : Shape} (h : w.Steps limits shape action shape' w')
    (hinner : action.isInner = true) : Reads limits w w' [] :=
  quiet (.of_edits (h.edits hinner) h.ready.wellFormed) (h.edits hinner).kinds_eq

theorem of_run {actions : List Action} (hinner : ∀ a ∈ actions, a.isInner = true)
    (hready : w.Ready .code) (h : w.run limits actions = .ok w') : Reads limits w w' [] := by
  refine quiet (.of_frame (Traverses.of_run hinner hready h).frame_code
    (fun _ hclosed => Onward.ne_current hready.wellFormed hclosed) (fun _ hopen => ?_)
    ((Sound.inner hinner hready.wellFormed).keepsNames h)) (kinds_of_run hinner hready h)
  exact (Traverses.of_run hinner hready h).balanced.stack ▸ hopen

theorem of_openConstruct {kind : ConstructKind} {hasFallback : Bool} {span : Span}
    (hexec : w.exec limits (.openConstruct kind hasFallback span) = .ok w') :
    Reads limits w w' [] :=
  quiet (.of_openConstruct hexec) (kinds_of_eq (by cases hexec; rfl))

theorem of_closeConstruct (h : w.Steps limits .arms .closeConstruct .code w') :
    Reads limits w w' [] :=
  quiet (.of_closeConstruct h.ready h.exec) (kinds_of_eq (by cases h.exec; rfl))

theorem of_guard (haction : (∃ names, action = .openGuard names) ∨ action = .closeGuard)
    (hexec : w.exec limits action = .ok w') : Reads limits w w' [] := by
  refine quiet (.of_guard haction hexec) (kinds_of_eq ?_)
  rcases haction with ⟨names, rfl⟩ | rfl <;>
  · cases hexec
    rfl

/-- A scope is entered, its code is read, and it is left again. -/
theorem scope (region : Region) {arm? : Option ConstructId} {context context' : Context}
    {outer outer' : List Context} (hwf : w.WellFormed)
    (hopens : w.Opens region.kind arm? context outer u) (harm : ∀ id ∈ arm?, id ∈ w.constructs)
    (hat : Walk.run limits {} region.before = .ok u) (hcode : region.code.Walks limits u v)
    (hcloses : v.Closes context' outer' w')
    (hdefer : region.inLiteral = false → context.deferScope = none)
    (hinside : (region.inLiteral = false → u.context.deferScope = none) →
      Reads limits u v regions) : Reads limits w w' (region :: regions) := by
  replace hinside := hinside fun hliteral => hopens.context_eq ▸ hdefer hliteral
  refine ⟨(Onward.of_opens hopens harm hwf).trans (hinside.onward.trans (.of_closes hcloses)),
    ?_, entered_of_walks hwf hopens hat hcode hcloses hdefer, ?_⟩
  · rw [hcloses.kinds_eq, hinside.kinds_eq, hopens.kinds_eq, List.map_cons, List.append_assoc]
    rfl
  · rw [← hopens.tree.length]
    exact hinside.located.mono fun _ _ hentered =>
      hentered.onward hcode.ready'.wellFormed (.of_closes hcloses)

end Reads

end Walk

namespace Flow.Walks

open Walk

variable {limits : Limits} {shape : Shape} {flow : Flow shape} {w w' : Walk}

/-- Reading a flow opens the scopes of its regions. -/
theorem reads (h : flow.Walks limits w w') {inLiteral : Bool} {before : List Action}
    (hat : Walk.run limits {} before = .ok w)
    (hdefer : inLiteral = false → w.context.deferScope = none) :
    Reads limits w w' (flow.regions inLiteral before) := by
  -- code stays outside of deferred literals, unless it is in one already
  have houtside : ∀ {w w' : Walk} {inLiteral : Bool}, w.Balanced w' →
      (inLiteral = false → w.context.deferScope = none) →
      inLiteral = false → w'.context.deferScope = none :=
    fun hbalanced hdefer hliteral => hbalanced.deferScope.trans (hdefer hliteral)
  induction h generalizing inLiteral before with
  | skip _ | jump _ | noArm _ => exact .quiet (.refl _) rfl
  | @act _ _ _ plain hstep =>
    exact .of_inner hstep (Action.isInner_of_isPlain plain)
  | seq hfirst _ ih ih' =>
    exact (ih hat hdefer).trans hfirst.ready'.wellFormed
      (ih' (run_then hat hfirst.run) (houtside hfirst.balanced hdefer))
  | @block _ u _ _ _ hopen hbody hclose ih =>
    have hopens := exec_enter hopen.exec
    have hat' := run_then hat (run_single hopen.exec)
    exact .scope _ hopen.ready.wellFormed hopens (by simp) hat' hbody
      (closes_of_leave hclose.exec) hdefer (ih hat')
  | @loop _ _ u _ _ _ _ hhead hopen hbody hclose ih ih' =>
    have hopens := exec_enter hopen.exec
    have hat' := run_then (run_then hat hhead.run) (run_single hopen.exec)
    exact (ih hat hdefer).trans hhead.ready'.wellFormed
      (.scope _ hopen.ready.wellFormed hopens (by simp) hat' hbody (closes_of_leave hclose.exec)
        (houtside hhead.balanced hdefer) (ih' hat'))
  | @conditional w w₁ _ _ w₄ u _ w₅ w₆ _ w' _ _ names _ _ consequence _
      hhold hhead hguard hconstruct harm hthen hleave hunguard helse hclose ih ih' ih'' =>
    have hopens := exec_enterArm harm.exec
    have hdefer₁ : inLiteral = false → w₁.context.deferScope = none :=
      houtside (.of_edits (hhold.edits rfl)) hdefer
    have hdefer₄ : inLiteral = false → w₄.context.deferScope = none := fun hliteral =>
      (sameLevel_openConstruct hconstruct.exec).2.trans
        ((sameLevel_guard (Or.inl ⟨names, rfl⟩) hguard.exec).2.trans
          (houtside hhead.balanced hdefer₁ hliteral))
    have hdefer₆ : inLiteral = false → w₆.context.deferScope = none := fun hliteral =>
      (sameLevel_guard (Or.inr rfl) hunguard.exec).2.trans
        (houtside (Balanced.of_leave hopens hthen.balanced hleave.exec) hdefer₄ hliteral)
    have hlead := run_toConsequence hhold.exec hhead hguard.exec hconstruct.exec harm.exec
    have hlead' := run_toAlternative hlead hthen hleave.exec hunguard.exec
    -- up to the choice, the consequence, and what comes after it
    have hfirst : Reads limits w w₄ _ :=
      (Reads.of_inner hhold rfl).trans hhead.ready.wellFormed
        ((ih (run_then hat (run_single hhold.exec)) hdefer₁).trans hguard.ready.wellFormed
          ((Reads.of_guard (Or.inl ⟨names, rfl⟩) hguard.exec).trans hconstruct.ready.wellFormed
            (.of_openConstruct hconstruct.exec)))
    have hsecond : Reads limits w₄ w₅ _ :=
      .scope ⟨_, .ifBranch, consequence, inLiteral⟩ harm.ready.wellFormed hopens harm.head_mem
        (run_then hat hlead) hthen (closes_of_leave hleave.exec) hdefer₄
        (ih' (run_then hat hlead))
    have hthird : Reads limits w₅ w' _ :=
      (Reads.of_guard (Or.inr rfl) hunguard.exec).trans helse.ready.wellFormed
        ((ih'' (run_then hat hlead') hdefer₆).trans hclose.ready.wellFormed
          (.of_closeConstruct hclose))
    have hall := hfirst.trans harm.ready.wellFormed (hsecond.trans hunguard.ready.wellFormed hthird)
    rw [regions]
    simpa using hall
  | clauses hopen harms hclose ih =>
    have hdefer' := fun hliteral =>
      (sameLevel_openConstruct hopen.exec).2.trans (hdefer hliteral)
    have hall := (Reads.of_openConstruct hopen.exec).trans harms.ready.wellFormed
      ((ih (run_then hat (run_single hopen.exec)) hdefer').trans hclose.ready.wellFormed
        (.of_closeConstruct hclose))
    rw [regions]
    simpa using hall
  | arguments hopen hargs hclose ih =>
    have hall := (Reads.of_inner hopen rfl).trans hargs.ready.wellFormed
      ((ih (run_then hat (run_single hopen.exec))
        (houtside (.of_edits (hopen.edits rfl)) hdefer)).trans hclose.ready.wellFormed
          (.of_inner hclose rfl))
    rw [regions]
    simpa using hall
  | literal hopen hbody hclose ih =>
    have hat' := run_then hat (run_single hopen.exec)
    exact .scope ⟨_, _, _, true⟩ hopen.ready.wellFormed (exec_openBody hopen.exec) (by simp) hat'
      hbody (exec_closeBody hclose.exec) (by simp) (ih hat')
  | @launched _ u t v _ span call finalizes func hopen hcall hfunc hclose ih =>
    have hinner := fun a ha => Action.isInner_of_isFinalize (finalizes a ha)
    have hcalled := Traverses.of_run hinner hopen.ready' hcall
    have hat' := run_then hat (run_single hopen.exec)
    -- the region of a launched call is the call together with the function expression
    have hcode : (Flow.seq (.acts call fun a ha => Action.isPlain_of_isFinalize (finalizes a ha))
        func).Walks limits u v := by
      refine walks_of_run _ hopen.ready' ?_
      rw [actions, actions_acts]
      exact run_then hcall hfunc.run
    refine .scope ⟨_, .goroutine, _, inLiteral⟩ hopen.ready.wellFormed (exec_openBody hopen.exec)
      (by simp) hat' hcode (exec_closeBody hclose.exec) hdefer fun hdefer' => ?_
    exact (Reads.of_run hinner hopen.ready' hcall).trans hcalled.ready'.wellFormed
      (ih (run_then hat (run_cons_eq_ok.mpr ⟨_, hopen.exec, hcall⟩))
        (houtside hcalled.balanced hdefer'))
  | @deferral _ _ _ _ calls deferred _ hopen hcalls hevaluated ih =>
    have hinner := fun a ha => Action.isInner_of_isDeferCall (deferred a ha)
    have hcalled := (Traverses.of_run hinner hopen.ready' hcalls).balanced
    have hdefer' := houtside ((Balanced.of_edits (hopen.edits rfl)).trans hcalled) hdefer
    exact (Reads.of_inner hopen rfl).trans hopen.ready'.wellFormed
      ((Reads.of_run hinner hopen.ready' hcalls).trans hevaluated.ready.wellFormed
        (ih (run_then hat (run_cons_eq_ok.mpr ⟨_, hopen.exec, hcalls⟩)) hdefer'))
  | deferredLiteral hdeferred hevaluated hopen hbody hclose ih ih' =>
    have hat' := run_then hat (run_then (run_cons_eq_ok.mpr ⟨_, hdeferred.exec, hevaluated.run⟩)
      (run_single hopen.exec))
    have hfirst := (Reads.of_inner hdeferred rfl).trans
      hevaluated.ready.wellFormed (ih (run_then hat (run_single hdeferred.exec))
        (houtside (.of_edits (hdeferred.edits rfl)) hdefer))
    exact hfirst.trans hopen.ready.wellFormed
      (.scope ⟨_, .closure, _, true⟩ hopen.ready.wellFormed (exec_openBody hopen.exec) (by simp)
        hat' hbody (exec_closeBody hclose.exec) (by simp) (ih' hat'))
  | @arm _ u _ _ _ _ _ _ _ hopen hbody hclose hrest ih ih' =>
    have hopens := exec_enterArm hopen.exec
    have hat' := run_then hat (run_single hopen.exec)
    have hlead := run_then (run_cons_eq_ok.mpr ⟨_, hopen.exec, hbody.run⟩) (run_single hclose.exec)
    have hbalanced := Balanced.of_leave hopens hbody.balanced hclose.exec
    exact Reads.trans (.scope _ hopen.ready.wellFormed hopens hopen.head_mem hat' hbody
      (closes_of_leave hclose.exec) hdefer (ih hat')) hrest.ready.wellFormed
      (ih' (run_then hat hlead) (houtside hbalanced hdefer))

end Flow.Walks

/-! ## Functions -/

namespace FunctionUnit

open Walk

variable {limits : Limits} {names : Recognizers} {unit : FunctionUnit} {w : Walk}

/-- The code of every scope of a function has been read when its walk ends. -/
theorem exists_passage (h : unit.walk limits names = .ok w) {scope : Nat} {region : Region}
    (hregion : (unit.regions names)[scope]? = some region) :
    ∃ u v, Passage limits w scope region u v := by
  have hwalks := walks_of_walk h
  cases scope with
  | zero =>
    obtain rfl := Option.some.inj hregion
    exact ⟨{}, w, rfl, hwalks, rfl, fun _ => .init, .refl w, fun hcovered => hcovered⟩
  | succ n =>
    -- the scopes after the function's own one are those that its flow opens
    have hreads : Reads limits {} w ((unit.flow names).regions false []) :=
      hwalks.reads rfl fun _ => rfl
    have hentered := hreads.located.get hregion
    rw [Nat.add_comm] at hentered
    exact hentered.read

/-- What a scope tree calls covered is covered in the walk that has made it. -/
theorem covered_of_finalizes (h : unit.walk limits names = .ok w) {id : BindingId} {b : Binding}
    (hget : w.bindings[id]? = some b) {scope : ScopeId}
    (hfinalizes : b.finalizes w.scopes scope = true) : w.Covered (some id) scope := by
  have hwalks := walks_of_walk h
  have hdirect : w.FinalizedIn (some id) = (b.finalizedIn · = true) :=
    funext fun scope => propext (finalizedIn_iff hget)
  rw [Walk.Covered, hwalks.balanced.opened, hdirect]
  exact (Binding.finalizes_iff_covered hwalks.ready'.wellFormed.tree.ordered).mp hfinalizes

/-- Path coverage is sound. Each scope of a function is read as the code of one region; and if a
scope in no function literal counts as one that finalizes a binding, every path through its code
that falls through to the end commits or rolls back the variable of that name. -/
theorem finalizes_sound {tracked : Tracked} (h : unit.track limits names = .ok tracked) :
    (unit.regions names).map (·.kind) = tracked.scopes.scopes.map (·.kind) ∧
    ∀ (scope : Nat) (region : Region), (unit.regions names)[scope]? = some region →
      region.ReadIn limits scope ∧
      (region.inLiteral = false → ∀ b ∈ tracked.bindings,
        b.finalizes tracked.scopes scope = true →
        ∀ trace, region.code.Runs region.before trace .falls →
          ∃ before commit, Step.did before (.finalize b.name commit) ∈ trace) := by
  obtain ⟨w, hwalk, rfl⟩ := exists_walk_of_track h
  constructor
  · have hreads : Reads limits {} w ((unit.flow names).regions false []) :=
      (walks_of_walk hwalk).reads rfl fun _ => rfl
    exact hreads.kinds_eq.symm
  · intro scope region hregion
    obtain ⟨u, v, hpassage⟩ := exists_passage hwalk hregion
    refine ⟨⟨u, v, hpassage.start, hpassage.code.run, hpassage.current,
      hpassage.code.balanced.current.trans hpassage.current⟩, ?_⟩
    intro hliteral b hb hfinalizes trace hruns
    obtain ⟨id, hget⟩ := List.mem_iff_getElem?.mp hb
    have hcovered := hpassage.covered (covered_of_finalizes hwalk hget hfinalizes)
    -- the path cannot come to the end of a covered scope unless it has finalized the binding
    have hend := (hruns.reached hpassage.code hpassage.start (hpassage.following hliteral)).1
    obtain ⟨step, hstep, hsettles⟩ := hend.exists_finalizes hcovered
    obtain ⟨c, before, commit, hc, rfl⟩ := name_of_finalizes hpassage.start
      (region.code.sound hpassage.code.ready) hpassage.code.run (hruns.within step hstep) hsettles
    obtain ⟨b', hb', hname⟩ := hpassage.names id c hc
    obtain rfl : b = b' := Option.some.inj (hget.symm.trans hb')
    rw [hname]
    exact ⟨before, commit, hstep⟩

/-- A function that starts a transaction, commits it on one branch and rolls it back on the
other. -/
def settledOnBothBranches : FunctionUnit where
  name := "Transfer"
  body := {
    stmts := [
      .shortVarDecl [.ident "tx" {}]
        [.call (.selector (.ident "db" {}) "MustBegin" {}) [] {}] {},
      .ifStmt {
        init := none
        cond := .ident "ok" {}
        consequence := {
          stmts := [.exprStmt (.call (.selector (.ident "tx" {}) "Commit" {}) [] {}) {}]
          span := {} }
        otherwise := some (.block {
          stmts := [.exprStmt (.call (.selector (.ident "tx" {}) "Rollback" {}) [] {}) {}]
          span := {} })
        span := {} }]
    span := {} }

/-- The body of that function finalizes its transaction, and the path that takes the alternative
does call one of the methods. -/
theorem finalizes_sound_settledOnBothBranches :
    ∃ (tracked : Tracked) (b : Binding) (region : Region) (trace : List Step),
      settledOnBothBranches.track {} {} = .ok tracked ∧
      (settledOnBothBranches.regions {})[0]? = some region ∧ region.inLiteral = false ∧
      b ∈ tracked.bindings ∧ b.name = "tx" ∧ b.finalizes tracked.scopes 0 = true ∧
      region.code.Runs region.before trace .falls ∧
      ∃ before commit, Step.did before (.finalize "tx" commit) ∈ trace := by
  have htrack : ∃ tracked b, settledOnBothBranches.track {} {} = .ok tracked ∧
      tracked.bindings = [b] ∧ b.name = "tx" ∧ b.finalizes tracked.scopes 0 = true :=
    ⟨_, _, rfl, rfl, rfl, by decide +kernel⟩
  have hpath : ∃ trace, (settledOnBothBranches.flow {}).Runs [] trace .falls := by
    constructor
    -- the code decides which rule applies next, but for the choice of the alternative
    repeat' first
      | exact Flow.Runs.skip
      | exact Flow.Runs.act rfl
      | apply Flow.Runs.seq
      | apply Flow.Runs.arguments
      | apply Flow.Runs.alternative
      | apply Flow.Runs.armHere
  obtain ⟨tracked, b, htrack, hbindings, hname, hfinalizes⟩ := htrack
  obtain ⟨trace, htrace⟩ := hpath
  have hb : b ∈ tracked.bindings := by
    rw [hbindings]
    exact List.mem_singleton.mpr rfl
  refine ⟨tracked, b, ⟨[], .function, settledOnBothBranches.flow {}, false⟩, trace, htrack, rfl,
    rfl, hb, hname, hfinalizes, htrace, ?_⟩
  have hcalled := ((finalizes_sound htrack).2 0 _ rfl).2 rfl b hb hfinalizes trace htrace
  rw [hname] at hcalled
  exact hcalled

/-- A function that starts a transaction, does something if there is an error, and otherwise commits
or rolls back. -/
def elsewhereFinished (stmts : List Stmt) : FunctionUnit where
  name := "Run"
  body := ⟨[.shortVarDecl [.ident "tx" {}, .ident "err" {}]
      [.call (.selector (.ident "db" {}) "Begin" {}) [] {}] {},
    .ifStmt ⟨none, .ident "err" {}, ⟨stmts, {}⟩, some (.elseIf ⟨none, .ident "ok" {},
      ⟨[finish "Commit"], {}⟩, some (.block ⟨[finish "Rollback"], {}⟩), {}⟩), {}⟩,
    .returnStmt [] {}], {}⟩
where
  finish (method : String) : Stmt :=
    .exprStmt (.call (.selector (.ident "tx" {}) method {}) [] {}) {}

/-- Coverage does not see every path that leaves the function. An arm that returns is fine. If its
`return` stands in a block, the arm counts as one that falls through, and the transaction is
reported. -/
theorem violations_elsewhereFinished :
    let returned : Stmt := .returnStmt [.ident "err" {}] {}
    ((elsewhereFinished [returned]).track {} {}).map (·.violations "Run") = .ok [] ∧
      ((elsewhereFinished [.block ⟨[returned], {}⟩]).track {} {}).map
        (fun tracked => (tracked.violations "Run").length) = .ok 1 :=
  ⟨rfl, rfl⟩

end FunctionUnit

end TxLifecycle
